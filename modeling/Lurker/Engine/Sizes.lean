import Mathlib.Data.Nat.Digits.Defs
import Lurker.Engine.Protocol

/-!
# How long a frame is

A frame is its fixed text and, around it, the texts, lists and numbers it carries: its
length is that of the frame that carries nothing and of what it carries, as JSON.
-/

namespace Lurker.Engine

/-- How long a text is as JSON. -/
def width (s : String) : Nat := utf16Length (jsonString s)

/-- How long a number is. -/
def shown (n : Int) : Nat := utf16Length (toString n)

/-- How long a list is between its brackets. -/
def listed (items : List Nat) : Nat := items.sum + (items.length - 1)

/-- The length of a frame before its newline. -/
def EngineToApp.size (showSocket : SocketId → String) (f : EngineToApp) : Nat :=
  utf16Length (jsonObject (f.fields showSocket))

variable (showSocket : SocketId → String)

theorem utf16Length_encodeFrame (f : EngineToApp) :
    utf16Length (encodeFrame showSocket f) = f.size showSocket + 1 := by
  rw [encodeFrame, utf16Length_append]
  rfl

theorem shown_natCast (n : Nat) : utf16Length (toString n) = shown n := rfl

theorem utf16Length_jsonString (s : String) : utf16Length (jsonString s) = width s := rfl

/-- What JSON writes between its parts. -/
theorem utf16Length_mark : utf16Length "," = 1 ∧ utf16Length ":" = 1 ∧ utf16Length "-" = 1 ∧
    utf16Length "[" = 1 ∧ utf16Length "]" = 1 ∧
    utf16Length "\x7b" = 1 ∧ utf16Length "\x7d" = 1 := by
  decide +kernel

theorem utf16Length_joinWith (xs : List String) :
    utf16Length (joinWith "," xs) = listed (xs.map utf16Length) := by
  induction xs with
  | nil => rfl
  | cons x xs ih =>
    cases xs with
    | nil => simp [joinWith, listed]
    | cons y ys =>
      rw [joinWith, utf16Length_append, utf16Length_append, ih]
      simp only [listed, List.map_cons, List.sum_cons, List.length_cons, utf16Length_mark.1]
      omega

theorem utf16Length_jsonArray (xs : List String) :
    utf16Length (jsonArray xs) = 2 + listed (xs.map utf16Length) := by
  have hmark := utf16Length_mark
  rw [jsonArray, utf16Length_append, utf16Length_append, utf16Length_joinWith]
  omega

theorem utf16Length_jsonObject (fields : List (String × String)) :
    utf16Length (jsonObject fields) =
      2 + listed (fields.map fun f => width f.1 + 1 + utf16Length f.2) := by
  have hfield : (utf16Length ∘ fun f : String × String => jsonString f.1 ++ ":" ++ f.2) =
      fun f => width f.1 + 1 + utf16Length f.2 := by
    funext f
    rw [Function.comp_apply, utf16Length_append, utf16Length_append, utf16Length_jsonString,
      utf16Length_mark.2.1]
  have hmark := utf16Length_mark
  rw [jsonObject, utf16Length_append, utf16Length_append, utf16Length_joinWith, List.map_map,
    hfield]
  omega

/-- A counter or a clock of the platform is below this. -/
def numberLimit : Nat := 10 ^ 16

theorem utf16Length_repr_le {n : Nat} (h : n < numberLimit) : utf16Length (Nat.repr n) ≤ 16 := by
  have hone : ∀ c ∈ Nat.toDigits 10 n, (if c.val.toNat < 0x10000 then 1 else 2) = 1 := by
    intro c hc
    have hdigit := Nat.isDigit_of_mem_toDigits (by omega) (by omega) hc
    have hle : c.val.toNat ≤ 57 := by
      simp only [Char.isDigit, Bool.and_eq_true, decide_eq_true_eq] at hdigit
      exact hdigit.2
    exact if_pos (by omega)
  rw [Nat.repr_eq_ofList_toDigits, utf16Length_ofList, List.map_congr_left hone]
  rw [List.map_const', List.sum_replicate_nat, Nat.mul_one]
  exact (Nat.length_toDigits_le_iff (by omega) (by omega)).mpr h

/-- A number below the limit has seventeen characters at most. -/
theorem shown_le {n : Int} (h : n.natAbs < numberLimit) : shown n ≤ 17 := by
  have hshown : shown n = utf16Length (Int.repr n) := rfl
  rw [hshown, Int.repr_eq_if]
  split
  · have := utf16Length_repr_le (n := n.toNat) (by omega)
    omega
  · have := utf16Length_repr_le (n := (-n).toNat) (by omega)
    rw [utf16Length_append, utf16Length_mark.2.2.1]
    omega

section Frames

attribute [simp] EngineToApp.fields Gap.json Endpoint.json

/-- A frame's length, field by field. -/
theorem size_eq (f : EngineToApp) : f.size showSocket =
    2 + listed ((f.fields showSocket).map fun field => width field.1 + 1 + utf16Length field.2) :=
  utf16Length_jsonObject _

/-- The names of the fields, and the texts that are always the same. -/
theorem width_fixed :
    width "op" = 4 ∧ width "dialing" = 9 ∧ width "id" = 4 ∧ width "live" = 6 ∧ width "held" = 6 ∧
    width "detached" = 10 ∧ width "reason" = 8 ∧ width "taken-over" = 12 ∧ width "closed" = 8 ∧
    width "error" = 7 ∧ width "message" = 9 ∧ width "line" = 6 ∧ width "seq" = 5 ∧
    width "gap" = 5 ∧ width "firstDroppedSeq" = 17 ∧ width "lastDroppedSeq" = 16 ∧ width "at" = 4 ∧
    width "open" = 6 ∧ width "local" = 7 ∧ width "remote" = 8 ∧ width "socket" = 8 ∧
    width "address" = 9 ∧ width "port" = 6 ∧ width "hello" = 7 ∧ width "protocol" = 10 ∧
    width "minor" = 7 ∧ width "engine" = 8 ∧ width "version" = 9 ∧ width "listing" = 9 ∧
    width "connections" = 13 := by
  decide +kernel

theorem size_dialing (id : String) : (EngineToApp.dialing id).size showSocket = 22 + width id := by
  have hfixed := width_fixed
  simp only [size_eq, EngineToApp.fields, listed, List.map_cons, List.map_nil, List.sum_cons,
    List.sum_nil, List.length_cons, List.length_nil, utf16Length_jsonString]
  omega

theorem size_live (id : String) : (EngineToApp.live id).size showSocket = 19 + width id := by
  have hfixed := width_fixed
  simp only [size_eq, EngineToApp.fields, listed, List.map_cons, List.map_nil, List.sum_cons,
    List.sum_nil, List.length_cons, List.length_nil, utf16Length_jsonString]
  omega

theorem size_held (id : String) : (EngineToApp.held id).size showSocket = 19 + width id := by
  have hfixed := width_fixed
  simp only [size_eq, EngineToApp.fields, listed, List.map_cons, List.map_nil, List.sum_cons,
    List.sum_nil, List.length_cons, List.length_nil, utf16Length_jsonString]
  omega

theorem size_detached (id : String) :
    (EngineToApp.detached id).size showSocket = 45 + width id := by
  have hfixed := width_fixed
  simp only [size_eq, EngineToApp.fields, listed, List.map_cons, List.map_nil, List.sum_cons,
    List.sum_nil, List.length_cons, List.length_nil, utf16Length_jsonString]
  omega

theorem size_closed (id : String) (error : Option String) :
    (EngineToApp.closed id error).size showSocket = 21 + width id + error.elim 0 (9 + width ·) := by
  have hfixed := width_fixed
  cases error <;>
    simp only [size_eq, EngineToApp.fields, listed, List.map_cons, List.map_nil, List.sum_cons,
      List.sum_nil, List.length_cons, List.length_nil, utf16Length_jsonString,
      Option.map_some, Option.map_none, Option.toList_some, Option.toList_none, List.cons_append,
      List.nil_append, List.append_nil, Option.elim_some, Option.elim_none] <;>
    omega

theorem size_error (id : Option String) (message : String) :
    (EngineToApp.error id message).size showSocket =
      25 + id.elim 0 (6 + width ·) + width message := by
  have hfixed := width_fixed
  cases id <;>
    simp only [size_eq, EngineToApp.fields, listed, List.map_cons, List.map_nil, List.sum_cons,
      List.sum_nil, List.length_cons, List.length_nil, utf16Length_jsonString,
      Option.map_some, Option.map_none, Option.toList_some, Option.toList_none, List.cons_append,
      List.nil_append, List.append_nil, Option.elim_some, Option.elim_none] <;>
    omega

theorem size_line (id : String) (seq : Nat) (text : String) :
    (EngineToApp.line id seq text).size showSocket = 34 + width id + shown seq + width text := by
  have hfixed := width_fixed
  simp only [size_eq, EngineToApp.fields, listed, List.map_cons, List.map_nil, List.sum_cons,
    List.sum_nil, List.length_cons, List.length_nil, shown_natCast,
    utf16Length_jsonString]
  omega

theorem size_gap (id : String) (g : Gap) :
    (EngineToApp.gap id g).size showSocket =
      69 + width id + shown g.firstDroppedSeq + shown g.lastDroppedSeq + shown g.at_ := by
  have hfixed := width_fixed
  simp only [size_eq, EngineToApp.fields, Gap.json, utf16Length_jsonObject, listed, List.map_cons,
    List.map_nil, List.sum_cons, List.sum_nil, List.length_cons, List.length_nil, shown_natCast,
    shown, utf16Length_jsonString]
  omega

theorem size_opened (id : String) (l r : Endpoint) (socket : SocketId) :
    (EngineToApp.opened id l r socket).size showSocket =
      88 + width id + width l.address + shown l.port + width r.address + shown r.port +
        width (showSocket socket) := by
  have hfixed := width_fixed
  simp only [size_eq, EngineToApp.fields, Endpoint.json, utf16Length_jsonObject, listed,
    List.map_cons, List.map_nil, List.sum_cons, List.sum_nil, List.length_cons, List.length_nil,
    shown_natCast, utf16Length_jsonString]
  omega

theorem size_hello (protocol minor : Int) (version : String) (held : List String) :
    (EngineToApp.hello protocol minor version held).size showSocket =
      67 + shown protocol + shown minor + width version + listed (held.map width) := by
  have hfixed := width_fixed
  have hheld : (held.map jsonString).map utf16Length = held.map width := by
    rw [List.map_map]
    apply List.map_congr_left
    intro s _
    rw [Function.comp_apply, utf16Length_jsonString]
  simp only [size_eq, EngineToApp.fields, utf16Length_jsonObject, utf16Length_jsonArray,
    List.map_cons, List.map_nil]
  rw [hheld]
  generalize held.map width = widths
  simp only [listed, List.sum_cons, List.sum_nil, List.length_cons, List.length_nil, shown,
    utf16Length_jsonString]
  omega

theorem size_listing (connections : List ConnectionInfo) :
    (EngineToApp.listing connections).size showSocket =
      33 + listed ((connections.map (·.json)).map utf16Length) := by
  have hfixed := width_fixed
  simp only [size_eq, EngineToApp.fields, utf16Length_jsonArray, List.map_cons, List.map_nil]
  generalize (connections.map (·.json)).map utf16Length = widths
  simp only [listed, List.sum_cons, List.sum_nil, List.length_cons, List.length_nil,
    utf16Length_jsonString]
  omega

end Frames

end Lurker.Engine
