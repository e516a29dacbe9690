import Mathlib.Data.List.Basic
import Lurker.Chat.TextMatch
import Lurker.Lib.Utf16

/-!
# Lines the bouncer composes

An IRC line takes 512 bytes. `buildNamesLines` lays names out over lines by their length in
code units, with a floor under what is left for them; `clampToBudget` cuts a text by bytes
at a code point and marks the cut; `withNetworkList` lists as many network names as fit and
counts the rest. A first name too long for the line is cut, and the count with it.
-/

namespace Lurker.Bouncer.WireText

open Chat (text unit)
open Utf16

def serverName : Text := text "lurker.bouncer"

/-- `join(sep)` -/
def join (sep : Text) : List Text → Text
  | [] => []
  | [s] => s
  | s :: t :: rest => s ++ sep ++ join sep (t :: rest)

/-- The fixed head of a 353 line. -/
def namesBase (nick channel : Text) : Text :=
  text ":" ++ serverName ++ text " 353 " ++ nick ++ text " = " ++ channel ++ text " :"

def endOfNames (nick channel : Text) : Text :=
  text ":" ++ serverName ++ text " 366 " ++ nick ++ text " " ++ channel ++
    text " :End of /NAMES list."

/-- The loop over the names: the chunk so far and its length, which the code keeps beside it. -/
def namesLoop (base : Text) (budget : Nat) (chunk : List Text) (len : Nat) : List Text → List Text
  | [] => if 0 < chunk.length then [base ++ join (text " ") chunk] else []
  | name :: names =>
    let add := if chunk.length = 0 then name.length else name.length + 1
    if budget < len + add ∧ 0 < chunk.length then
      (base ++ join (text " ") chunk) :: namesLoop base budget [name] name.length names
    else
      let chunk := chunk ++ [name]
      namesLoop base budget chunk (len + if chunk.length = 1 then name.length else add) names

def buildNamesLines (nick channel : Text) (names : List Text) : List Text :=
  let base := namesBase nick channel
  let budget := max 64 (480 - base.length)
  namesLoop base budget [] 0 names ++ [endOfNames nick channel]

/-- `'…'`, three bytes. -/
def marker : Text := [0x2026]

/-- The loop over the code points. -/
def clampLoop (room : Nat) (out : Text) : List Text → Text
  | [] => out
  | ch :: rest => if room < utf8Bytes out + utf8Bytes ch then out else clampLoop room (out ++ ch) rest

def clampToBudget (s : Text) (budget : Nat) : Text :=
  if utf8Bytes s ≤ budget then s
  else
    let room := budget - utf8Bytes marker
    if room = 0 then []
    else clampLoop room [] (codePoints s) ++ marker

/-- `, +N more` -/
def more (n : Nat) : Text := text ", +" ++ (Nat.toDigits 10 n).map unit ++ text " more"

/-- The loop over the names: what is listed so far, and how many. -/
def listLoop (total budget : Nat) (out : Text) (shown : Nat) : List Text → Text × Nat
  | [] => (out, shown)
  | name :: names =>
    let piece := if shown = 0 then name else text ", " ++ name
    let hidden := total - shown - 1
    let tail := if 0 < hidden then more hidden else []
    if 0 < shown ∧ budget < utf8Bytes (out ++ piece ++ tail) then (out, shown)
    else listLoop total budget (out ++ piece) (shown + 1) names

/-- `out.codePointAt(out.length - 2) > 0xffff` -/
def endsInPair (out : Text) : Bool :=
  match out.drop (out.length - 2) with
  | [c, d] => isHighSurrogate c && isLowSurrogate d
  | _ => false

/-- The trim, a code point at a time, with a bound on its steps. -/
def trimLoop (headLength budget : Nat) : Nat → Text → Text
  | 0, out => out
  | steps + 1, out =>
    if budget < utf8Bytes out ∧ headLength + 1 < out.length then
      trimLoop headLength budget steps
        (out.take (out.length - if endsInPair out then 2 else 1))
    else out

def withNetworkList (head : Text) (names : List Text) (budget : Nat) : Text :=
  let (out, shown) := listLoop names.length budget head 0 names
  let out := if shown < names.length then out ++ more (names.length - shown) else out
  trimLoop head.length budget out.length out

/-- The head of a notice to a nick. -/
def noticeHead (nick : Text) : Text :=
  text ":" ++ serverName ++ text " NOTICE " ++ nick ++ text " :"

def wireTextBudget (nick : Text) : Nat := max 64 (480 - utf8Bytes (noticeHead nick))

def notice (nick s : Text) : Text := noticeHead nick ++ clampToBudget s (wireTextBudget nick)

/-- What a client that asks for a network there is not is told. -/
def unknownNetwork (nick networkSel : Text) (names : List Text) : Text :=
  withNetworkList (text "Unknown network '" ++ networkSel ++ text "' — available: ") names
    (wireTextBudget nick)

theorem join_concat (sep : Text) {l : List Text} (h : l ≠ []) (s : Text) :
    join sep (l ++ [s]) = join sep l ++ sep ++ s := by
  induction l with
  | nil => exact absurd rfl h
  | cons t rest ih =>
    cases rest with
    | nil => simp [join]
    | cons u rest =>
      rw [List.cons_append, List.cons_append, join, ← List.cons_append, ih (List.cons_ne_nil _ _),
        join]
      simp only [List.append_assoc]

theorem mem_join {sep : Text} {l : List Text} {c : UInt16} (h : c ∈ join sep l) :
    c ∈ sep ∨ ∃ s ∈ l, c ∈ s := by
  induction l with
  | nil => cases h
  | cons s rest ih =>
    cases rest with
    | nil => exact Or.inr ⟨s, List.mem_cons_self, h⟩
    | cons t rest =>
      rw [join] at h
      rcases List.mem_append.mp h with h | h
      · exact (List.mem_append.mp h).elim (fun hs => Or.inr ⟨s, List.mem_cons_self, hs⟩) Or.inl
      · exact (ih h).imp_right fun ⟨u, hu, hc⟩ => ⟨u, List.mem_cons_of_mem _ hu, hc⟩

theorem wellFormed_join {sep : Text} (hsep : wellFormed sep = true) {l : List Text}
    (h : ∀ s ∈ l, wellFormed s = true) : wellFormed (join sep l) = true := by
  induction l with
  | nil => rfl
  | cons s rest ih =>
    have hs := h s List.mem_cons_self
    have ih := ih fun t ht => h t (List.mem_cons_of_mem _ ht)
    cases rest with
    | nil => exact hs
    | cons t rest => exact wellFormed_append (wellFormed_append hs hsep) ih

/-- The loop lays the names out in order, in chunks of one name or of no more than the budget. -/
theorem namesLoop_spec {base : Text} {budget : Nat} (names : List Text) :
    ∀ chunk : List Text, (1 < chunk.length → (join (text " ") chunk).length ≤ budget) →
      ∃ chunks : List (List Text),
        namesLoop base budget chunk (join (text " ") chunk).length names =
          chunks.map (fun c => base ++ join (text " ") c) ∧
        chunks.flatten = chunk ++ names ∧
        ∀ c ∈ chunks, c ≠ [] ∧ (1 < c.length → (join (text " ") c).length ≤ budget) := by
  have hspace : (text " ").length = 1 := by decide
  induction names with
  | nil =>
    intro chunk hfits
    unfold namesLoop
    split
    · rename_i hpos
      refine ⟨[chunk], rfl, by simp, fun c hc => ?_⟩
      rw [List.mem_singleton.mp hc]
      exact ⟨List.length_pos_iff.mp hpos, hfits⟩
    · rename_i hpos
      have hnil : chunk = [] := List.eq_nil_of_length_eq_zero (by omega)
      exact ⟨[], rfl, by simp [hnil], fun c hc => by cases hc⟩
  | cons name names ih =>
    intro chunk hfits
    unfold namesLoop
    by_cases hnil : chunk = []
    · subst hnil
      obtain ⟨chunks, hlines, hnames, hall⟩ := ih [name] fun h => absurd h (by simp)
      exact ⟨chunks, by simpa [join] using hlines, hnames, hall⟩
    · have hpos := List.length_pos_iff.mpr hnil
      have hadd : ¬ chunk.length = 0 := by omega
      dsimp only
      rw [if_neg hadd]
      by_cases hfull : budget < (join (text " ") chunk).length + (name.length + 1)
      · -- the chunk is a line, and the name begins the next
        obtain ⟨chunks, hlines, hnames, hall⟩ := ih [name] fun h => absurd h (by simp)
        refine ⟨chunk :: chunks, ?_, ?_, fun c hc => ?_⟩
        · rw [if_pos ⟨hfull, hpos⟩, List.map_cons, ← hlines]
          rfl
        · rw [List.flatten_cons, hnames]
          rfl
        · rcases List.mem_cons.mp hc with rfl | hc
          · exact ⟨hnil, hfits⟩
          · exact hall c hc
      · have hjoin : (join (text " ") (chunk ++ [name])).length =
            (join (text " ") chunk).length + (name.length + 1) := by
          rw [join_concat _ hnil, List.length_append, List.length_append, hspace]
          omega
        have hmany : ¬ (chunk ++ [name]).length = 1 := by
          rw [List.length_append, List.length_singleton]
          omega
        obtain ⟨chunks, hlines, hnames, hall⟩ := ih (chunk ++ [name]) fun _ => by omega
        rw [if_neg fun h => hfull h.1, if_neg hmany, ← hjoin, hlines]
        exact ⟨chunks, rfl, by rw [hnames, List.append_assoc]; rfl, hall⟩

/-- The names are listed in order. A line of more than one has its head and no more than what
the head leaves of 480 units, or 64. -/
theorem buildNamesLines_spec (nick channel : Text) (names : List Text) :
    ∃ chunks : List (List Text),
      buildNamesLines nick channel names =
        chunks.map (fun c => namesBase nick channel ++ join (text " ") c) ++
          [endOfNames nick channel] ∧
      chunks.flatten = names ∧
      ∀ c ∈ chunks, c ≠ [] ∧ (1 < c.length →
        (namesBase nick channel ++ join (text " ") c).length ≤
          max 480 ((namesBase nick channel).length + 64)) := by
  obtain ⟨chunks, hlines, hnames, hall⟩ :=
    @namesLoop_spec (namesBase nick channel) (max 64 (480 - (namesBase nick channel).length)) names
      [] fun h => absurd h (by simp)
  refine ⟨chunks, ?_, hnames, fun c hc => ⟨(hall c hc).1, fun hmany => ?_⟩⟩
  · unfold buildNamesLines
    dsimp only
    rw [← hlines]
    rfl
  · have := (hall c hc).2 hmany
    rw [List.length_append]
    omega

theorem clampLoop_spec {room : Nat} (ps : List Text) : ∀ out : Text, utf8Bytes out ≤ room →
    utf8Bytes (clampLoop room out ps) ≤ room ∧
      ∃ k, clampLoop room out ps = out ++ (ps.take k).flatten := by
  induction ps with
  | nil => exact fun out h => ⟨h, 0, by simp [clampLoop]⟩
  | cons ch rest ih =>
    intro out h
    unfold clampLoop
    split
    · exact ⟨h, 0, by simp⟩
    · obtain ⟨hfits, k, hk⟩ := ih (out ++ ch) (Nat.le_trans (utf8Bytes_append_le out ch) (by omega))
      exact ⟨hfits, k + 1, by rw [hk, List.take_succ_cons, List.flatten_cons, List.append_assoc]⟩

theorem clampToBudget_fits {s : Text} {budget : Nat} (h : utf8Bytes marker ≤ budget) :
    utf8Bytes (clampToBudget s budget) ≤ budget := by
  unfold clampToBudget
  dsimp only
  split
  · assumption
  · split
    · exact Nat.zero_le _
    · have hroom := (@clampLoop_spec (budget - utf8Bytes marker) (codePoints s) []
        (Nat.zero_le _)).1
      have := utf8Bytes_append_le (clampLoop (budget - utf8Bytes marker) [] (codePoints s)) marker
      omega

theorem wellFormed_clampToBudget {s : Text} (h : wellFormed s = true) (budget : Nat) :
    wellFormed (clampToBudget s budget) = true := by
  unfold clampToBudget
  dsimp only
  split
  · exact h
  · split
    · rfl
    · obtain ⟨-, k, hk⟩ := @clampLoop_spec (budget - utf8Bytes marker) (codePoints s) []
        (Nat.zero_le _)
      rw [hk, List.nil_append]
      refine wellFormed_append (wellFormed_iff.mpr ⟨_, fun p hp => ?_, rfl⟩) (by decide)
      exact List.all_eq_true.mp h p (List.mem_of_mem_take hp)

/-- What the list ends in when so many names are shown. -/
def tailFor (names : List Text) (shown : Nat) : Text :=
  if shown < names.length then more (names.length - shown) else []

/-- The head and the first names, which the loop has put together. -/
def listed (head : Text) (names : List Text) (shown : Nat) : Text :=
  head ++ join (text ", ") (names.take shown)

theorem listed_succ {head : Text} {names rest : List Text} {name : Text} {shown : Nat}
    (h : names.drop shown = name :: rest) :
    listed head names shown ++ (if shown = 0 then name else text ", " ++ name) =
      listed head names (shown + 1) := by
  have hget : names[shown]? = some name := by
    rw [← List.head?_drop, h]
    rfl
  have htake : names.take (shown + 1) = names.take shown ++ [name] := by
    rw [List.take_add_one, hget]
    rfl
  have hlt : shown < names.length := by
    have := congrArg List.length h
    rw [List.length_drop, List.length_cons] at this
    omega
  unfold listed
  rw [htake]
  by_cases hzero : shown = 0
  · subst hzero
    simp [join]
  · have hne : names.take shown ≠ [] := by
      intro hnil
      have := congrArg List.length hnil
      rw [List.length_take, List.length_nil] at this
      omega
    rw [if_neg hzero, join_concat _ hne]
    simp only [List.append_assoc]

/-- The loop shows names as long as they fit with the count of the rest, and one at least. -/
theorem listLoop_spec {head : Text} {names : List Text} {budget : Nat} (rest : List Text) :
    ∀ shown, names.drop shown = rest → shown ≤ names.length →
      ∃ k, k ≤ names.length ∧ shown ≤ k ∧ (names ≠ [] → 1 ≤ k) ∧
        listLoop names.length budget (listed head names shown) shown rest =
          (listed head names k, k) ∧
        ((1 < k ∧ shown < k → utf8Bytes (listed head names k ++ tailFor names k) ≤ budget)) := by
  induction rest with
  | nil =>
    intro shown hdrop hle
    have hall : shown = names.length := by
      have := congrArg List.length hdrop
      rw [List.length_drop, List.length_nil] at this
      omega
    refine ⟨shown, hle, Nat.le_refl _, fun hne => ?_, rfl, fun h => absurd h.2 (Nat.lt_irrefl _)⟩
    rw [hall]
    exact List.length_pos_iff.mpr hne
  | cons name rest ih =>
    intro shown hdrop hle
    have hlength := congrArg List.length hdrop
    rw [List.length_drop, List.length_cons] at hlength
    have hrest : names.drop (shown + 1) = rest := by
      rw [← List.drop_drop, hdrop]
      rfl
    have htail : (if 0 < names.length - shown - 1 then more (names.length - shown - 1) else []) =
        tailFor names (shown + 1) := by
      unfold tailFor
      rw [show names.length - shown - 1 = names.length - (shown + 1) by omega]
      by_cases h : shown + 1 < names.length
      · rw [if_pos h, if_pos (by omega)]
      · rw [if_neg h, if_neg (by omega)]
    unfold listLoop
    dsimp only
    rw [listed_succ hdrop, htail]
    split
    · rename_i hfull
      exact ⟨shown, hle, Nat.le_refl _, fun _ => hfull.1, rfl, fun h => absurd h.2 (Nat.lt_irrefl _)⟩
    · rename_i hroom
      obtain ⟨k, hk, hle', hone, hloop, hfits⟩ := ih (shown + 1) hrest (by omega)
      refine ⟨k, hk, by omega, hone, hloop, fun h => ?_⟩
      by_cases hmore : shown + 1 < k
      · exact hfits ⟨h.1, hmore⟩
      · obtain rfl : k = shown + 1 := by omega
        have hsome : 0 < shown := by omega
        exact Nat.le_of_not_lt fun hlt => hroom ⟨hsome, hlt⟩

/-- The text before the trim: the head, the first names and the count of the rest. -/
theorem withNetworkList_eq (head : Text) (names : List Text) (budget : Nat) :
    ∃ k, k ≤ names.length ∧ (names ≠ [] → 1 ≤ k) ∧
      withNetworkList head names budget =
        trimLoop head.length budget (listed head names k ++ tailFor names k).length
          (listed head names k ++ tailFor names k) ∧
      (1 < k → utf8Bytes (listed head names k ++ tailFor names k) ≤ budget) := by
  have hstart : listed head names 0 = head := by simp [listed, join]
  obtain ⟨k, hk, -, hone, hloop, hfits⟩ :=
    @listLoop_spec head names budget names 0 rfl (Nat.zero_le _)
  refine ⟨k, hk, hone, ?_, fun h => hfits ⟨h, by omega⟩⟩
  have hout : (if k < names.length then listed head names k ++ more (names.length - k)
      else listed head names k) = listed head names k ++ tailFor names k := by
    unfold tailFor
    split
    · rfl
    · rw [List.append_nil]
  unfold withNetworkList
  rw [hstart] at hloop
  rw [hloop]
  dsimp only
  rw [hout]

/-- What fits is not trimmed. -/
theorem trimLoop_fits {headLength budget steps : Nat} {out : Text} (h : utf8Bytes out ≤ budget) :
    trimLoop headLength budget steps out = out := by
  cases steps with
  | zero => rfl
  | succ steps => exact if_neg fun hover => absurd hover.1 (by omega)

/-- The trim leaves a start of the text with the whole head, and ends within the budget or
with one unit behind the head. -/
theorem trimLoop_spec {headLength budget : Nat} (steps : Nat) : ∀ out : Text, out.length ≤ steps →
    headLength ≤ out.length →
      ∃ m, headLength ≤ m ∧ trimLoop headLength budget steps out = out.take m ∧
        (utf8Bytes (out.take m) ≤ budget ∨ (out.take m).length ≤ headLength + 1) := by
  induction steps with
  | zero =>
    intro out hle hhead
    have hnil : out = [] := List.eq_nil_of_length_eq_zero (by omega)
    subst hnil
    exact ⟨headLength, Nat.le_refl _, by simp [trimLoop], Or.inr (by simp)⟩
  | succ steps ih =>
    intro out hle hhead
    unfold trimLoop
    split
    · rename_i hover
      have hcut : headLength ≤ out.length - (if endsInPair out then 2 else 1) := by
        split <;> omega
      have hshort : out.length - (if endsInPair out then 2 else 1) < out.length := by
        split <;> omega
      have hlength : (out.take (out.length - if endsInPair out then 2 else 1)).length =
          out.length - if endsInPair out then 2 else 1 := by
        rw [List.length_take]
        omega
      obtain ⟨m, hm, htrim, hend⟩ := ih (out.take (out.length - if endsInPair out then 2 else 1))
        (by omega) (by omega)
      rw [List.take_take] at htrim hend
      exact ⟨_, by omega, htrim, hend⟩
    · rename_i hstop
      refine ⟨out.length, hhead, by rw [List.take_length], ?_⟩
      rw [List.take_length]
      by_cases hfits : utf8Bytes out ≤ budget
      · exact Or.inl hfits
      · exact Or.inr (Nat.le_of_not_lt fun hlong => hstop ⟨by omega, hlong⟩)

/-- One step of the trim takes a whole code point. -/
theorem wellFormed_trim {out : Text} (h : wellFormed out = true) (hlen : 2 ≤ out.length) :
    wellFormed (out.take (out.length - if endsInPair out then 2 else 1)) = true := by
  obtain ⟨ps, hps, rfl⟩ := wellFormed_iff.mp h
  rcases List.eq_nil_or_concat ps with rfl | ⟨qs, p, rfl⟩
  · simp at hlen
  have hqs : wellFormed qs.flatten = true :=
    wellFormed_iff.mpr ⟨qs, fun q hq => hps q (by simp [hq]), rfl⟩
  have hflat : (qs.concat p).flatten = qs.flatten ++ p := by
    rw [List.concat_eq_append, List.flatten_append]
    simp
  rw [hflat] at hlen ⊢
  rcases isCodePoint_cases (hps p (by simp)) with ⟨c, rfl, -, hc⟩ | ⟨c, d, rfl, hc, hd⟩
  · have hpair : endsInPair (qs.flatten ++ [c]) = false := by
      unfold endsInPair
      split
      · rename_i a b hdrop
        obtain ⟨t, ht⟩ : [a, b] <:+ qs.flatten ++ [c] := hdrop ▸ List.drop_suffix ..
        have hlast : b = c := by simpa using congrArg List.getLast? ht
        rw [hlast, hc, Bool.and_false]
      · rfl
    rw [hpair]
    simpa using hqs
  · have hpair : endsInPair (qs.flatten ++ [c, d]) = true := by
      unfold endsInPair
      rw [List.length_append]
      simp [hc, hd]
    rw [hpair]
    simpa using hqs

theorem wellFormed_trimLoop {headLength budget : Nat} (steps : Nat) : ∀ out : Text,
    wellFormed out = true → wellFormed (trimLoop headLength budget steps out) = true := by
  induction steps with
  | zero => exact fun out h => h
  | succ steps ih =>
    intro out h
    unfold trimLoop
    split
    · rename_i hover
      exact ih _ (wellFormed_trim h (by omega))
    · exact h

theorem text_lt {s : String} (h : (text s).all (· < 0xD800) = true) : wellFormed (text s) = true :=
  wellFormed_of_lt fun c hc => of_decide_eq_true (List.all_eq_true.mp h c hc)

theorem wellFormed_more (n : Nat) : wellFormed (more n) = true := by
  refine wellFormed_append (wellFormed_append (text_lt (by decide)) ?_) (text_lt (by decide))
  refine wellFormed_of_lt fun c hc => ?_
  obtain ⟨d, hd, rfl⟩ := List.mem_map.mp hc
  have hdigit := Nat.isDigit_of_mem_toDigits (by decide) (by decide) hd
  simp only [Char.isDigit, Bool.and_eq_true, decide_eq_true_eq] at hdigit
  have hhigh : d.toNat ≤ 57 := hdigit.2
  rw [UInt16.lt_iff_toNat_lt, unit, Nat.toUInt16_eq, UInt16.toNat_ofNat']
  change d.toNat % 65536 < 0xD800
  omega

theorem wellFormed_withNetworkList {head : Text} {names : List Text}
    (hhead : wellFormed head = true) (hnames : ∀ s ∈ names, wellFormed s = true) (budget : Nat) :
    wellFormed (withNetworkList head names budget) = true := by
  obtain ⟨k, -, -, heq, -⟩ := withNetworkList_eq head names budget
  rw [heq]
  refine wellFormed_trimLoop _ _ (wellFormed_append (wellFormed_append hhead ?_) ?_)
  · exact wellFormed_join (text_lt (by decide)) fun s hs => hnames s (List.mem_of_mem_take hs)
  · unfold tailFor
    split
    · exact wellFormed_more _
    · rfl

/-- A list fits a budget that has room for its head and the marker. -/
theorem withNetworkList_fits {head : Text} {names : List Text} {budget : Nat}
    (h : utf8Bytes head + utf8Bytes marker ≤ budget) :
    utf8Bytes (withNetworkList head names budget) ≤ budget := by
  obtain ⟨k, -, -, heq, -⟩ := withNetworkList_eq head names budget
  have hmarker : utf8Bytes marker = 3 := by decide
  rw [heq]
  obtain ⟨m, hm, htrim, hend⟩ := @trimLoop_spec head.length budget _
    (listed head names k ++ tailFor names k) (Nat.le_refl _) (by simp [listed])
  rw [htrim]
  rcases hend with hfits | hshort
  · exact hfits
  · obtain ⟨rest, hrest⟩ : ∃ rest, (listed head names k ++ tailFor names k).take m = head ++ rest := by
      unfold listed
      rw [List.append_assoc, List.take_append, List.take_of_length_le hm]
      exact ⟨_, rfl⟩
    rw [hrest] at hshort ⊢
    rw [List.length_append] at hshort
    have hbytes : utf8Bytes rest ≤ 3 := by
      match rest, hshort with
      | [], _ => exact Nat.zero_le _
      | [c], _ => exact unitBytes_le c
      | _ :: _ :: _, hshort => simp at hshort
    have := utf8Bytes_append_le head rest
    omega

/-- Where the head, the first name and the count of the others fit, the list is a start of the
names and the count of the others. -/
theorem withNetworkList_lists {head : Text} {names : List Text} {budget : Nat}
    (h : utf8Bytes (listed head names 1 ++ tailFor names 1) ≤ budget) :
    ∃ k, k ≤ names.length ∧ (names ≠ [] → 1 ≤ k) ∧
      withNetworkList head names budget = listed head names k ++ tailFor names k := by
  obtain ⟨k, hk, hone, heq, hfits⟩ := withNetworkList_eq head names budget
  refine ⟨k, hk, hone, ?_⟩
  have hle : utf8Bytes (listed head names k ++ tailFor names k) ≤ budget := by
    by_cases hmany : 1 < k
    · exact hfits hmany
    · by_cases hnil : names = []
      · subst hnil
        obtain rfl : k = 0 := by simpa using hk
        simpa [listed, tailFor] using h
      · have := hone hnil
        obtain rfl : k = 1 := by omega
        exact h
  rw [heq, trimLoop_fits hle]

/-- Every unit of a text is a byte. -/
def ascii (s : Text) : Bool := s.all (· < 0x80)

/-- A line of names in ASCII is as long in bytes as in units. -/
theorem namesLine_ascii {nick channel : Text} {c : List Text} (hnick : ascii nick = true)
    (hchannel : ascii channel = true) (hnames : ∀ name ∈ c, ascii name = true) :
    utf8Bytes (namesBase nick channel ++ join (text " ") c) =
      (namesBase nick channel ++ join (text " ") c).length := by
  have hascii {s : Text} (h : ascii s = true) : ∀ d ∈ s, d < 0x80 := fun d hd =>
    of_decide_eq_true (List.all_eq_true.mp h d hd)
  refine utf8Bytes_ascii fun d hd => ?_
  rcases List.mem_append.mp hd with hd | hd
  · unfold namesBase at hd
    simp only [List.mem_append, or_assoc] at hd
    rcases hd with hd | hd | hd | hd | hd | hd | hd
    · exact hascii (s := text ":") (by decide) d hd
    · exact hascii (s := serverName) (by decide) d hd
    · exact hascii (s := text " 353 ") (by decide) d hd
    · exact hascii hnick d hd
    · exact hascii (s := text " = ") (by decide) d hd
    · exact hascii hchannel d hd
    · exact hascii (s := text " :") (by decide) d hd
  · rcases mem_join hd with hd | ⟨name, hname, hd⟩
    · exact hascii (s := text " ") (by decide) d hd
    · exact hascii (hnames name hname) d hd

/-- What the bouncer composes fits, and says what it promises: the names line by line in
order, a text cut to a budget, and network names with a count of those left out. -/
theorem composed_lines_fit :
    (∀ (nick channel : Text) (names : List Text), ∃ chunks : List (List Text),
      buildNamesLines nick channel names =
        chunks.map (fun c => namesBase nick channel ++ join (text " ") c) ++
          [endOfNames nick channel] ∧
      chunks.flatten = names ∧
      ∀ c ∈ chunks, c ≠ [] ∧ (1 < c.length →
        (namesBase nick channel ++ join (text " ") c).length ≤
          max 480 ((namesBase nick channel).length + 64) ∧
        (ascii nick = true → ascii channel = true → (∀ name ∈ c, ascii name = true) →
          (namesBase nick channel).length ≤ 446 →
          utf8Bytes (namesBase nick channel ++ join (text " ") c) ≤ 510))) ∧
    (∀ (s : Text) (budget : Nat),
      (utf8Bytes marker ≤ budget → utf8Bytes (clampToBudget s budget) ≤ budget) ∧
      (wellFormed s = true → wellFormed (clampToBudget s budget) = true)) ∧
    (∀ (head : Text) (names : List Text) (budget : Nat),
      (utf8Bytes head + utf8Bytes marker ≤ budget →
        utf8Bytes (withNetworkList head names budget) ≤ budget) ∧
      (wellFormed head = true → (∀ s ∈ names, wellFormed s = true) →
        wellFormed (withNetworkList head names budget) = true) ∧
      (utf8Bytes (listed head names 1 ++ tailFor names 1) ≤ budget →
        ∃ k, k ≤ names.length ∧ (names ≠ [] → 1 ≤ k) ∧
          withNetworkList head names budget = listed head names k ++ tailFor names k)) := by
  refine ⟨fun nick channel names => ?_, fun s budget => ⟨clampToBudget_fits,
    fun h => wellFormed_clampToBudget h budget⟩, fun head names budget => ⟨withNetworkList_fits,
    fun hhead hnames => wellFormed_withNetworkList hhead hnames budget, withNetworkList_lists⟩⟩
  obtain ⟨chunks, hlines, hnames, hall⟩ := buildNamesLines_spec nick channel names
  refine ⟨chunks, hlines, hnames, fun c hc => ⟨(hall c hc).1, fun hmany => ?_⟩⟩
  have hlength := (hall c hc).2 hmany
  refine ⟨hlength, fun hnick hchannel hascii hbase => ?_⟩
  rw [namesLine_ascii hnick hchannel hascii]
  omega

/-- A notice fits a line with its end, where its head leaves room for the least budget. -/
theorem notice_fits {nick : Text} (h : utf8Bytes (noticeHead nick) ≤ 446) (s : Text) :
    utf8Bytes (notice nick s) ≤ 510 := by
  have hbudget : utf8Bytes marker ≤ wireTextBudget nick :=
    Nat.le_trans (show utf8Bytes marker ≤ 64 by decide) (Nat.le_max_left ..)
  have hclamp := @clampToBudget_fits s (wireTextBudget nick) hbudget
  have happend := utf8Bytes_append_le (noticeHead nick) (clampToBudget s (wireTextBudget nick))
  have hmax : wireTextBudget nick = max 64 (480 - utf8Bytes (noticeHead nick)) := rfl
  change utf8Bytes (noticeHead nick ++ _) ≤ 510
  omega

def longNames : List Text := [List.replicate 70 (unit 'a'), text "b"]

/-- A first name longer than the line is cut, and the count of the rest with it, though the head
and the count would fit. A line of two names of two bytes a unit is longer than it may be. -/
theorem long_first_name_cut :
    utf8Bytes (text "Networks: " ++ more 2) ≤ 64 ∧
      (∀ k, withNetworkList (text "Networks: ") longNames 64 ≠
        listed (text "Networks: ") longNames k ++ tailFor longNames k) ∧
      ¬ ∀ line ∈ buildNamesLines (text "me") (text "#a")
        [List.replicate 200 (unit 'é'), List.replicate 200 (unit 'é')], utf8Bytes line ≤ 510 := by
  have hlist : withNetworkList (text "Networks: ") longNames 64 =
      text "Networks: " ++ List.replicate 54 (unit 'a') := by decide +kernel
  refine ⟨by decide, fun k heq => ?_, by decide +kernel⟩
  rw [hlist] at heq
  have hlength := congrArg List.length heq
  revert hlength
  match k with
  | 0 => decide +kernel
  | 1 => decide +kernel
  | k + 2 =>
    have htake : longNames.take (k + 2) = longNames := List.take_of_length_le (by simp [longNames])
    have htail : tailFor longNames (k + 2) = [] := if_neg (by simp [longNames])
    rw [listed, htake, htail]
    decide +kernel

end Lurker.Bouncer.WireText
