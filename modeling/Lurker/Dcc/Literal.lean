import Lurker.E2e.Encoding
import Mathlib.Data.List.Induction

/-!
# IP literals

Addresses as numbers, the ranges of them nothing may be dialled in, and how the
platform reads a literal: four decimal octets without leading zeros, or eight groups
of up to four hexadecimal digits of which a `::` stands for the missing ones and a
dotted quad for the last two.
-/

namespace Lurker.Dcc

open Lurker.E2e

inductive Address where
  | v4 (n : Nat)
  | v6 (n : Nat)
  deriving DecidableEq, Repr

/-- The number that digits of a base spell, the high one first. -/
def ofBase (base : Nat) (digits : List Nat) : Nat := digits.foldl (fun n d => n * base + d) 0

/-- A range of addresses of so many bits: those that share the leading bits of its base. -/
structure Block where
  base : List Nat
  bits : Nat

/-- The ranges of IPv4 that are not public: this network, private, CGNAT, loopback,
link-local, multicast and reserved. -/
def internalBlocks : List Block :=
  [⟨[0, 0, 0, 0], 8⟩, ⟨[10, 0, 0, 0], 8⟩, ⟨[100, 64, 0, 0], 10⟩, ⟨[127, 0, 0, 0], 8⟩,
    ⟨[169, 254, 0, 0], 16⟩, ⟨[172, 16, 0, 0], 12⟩, ⟨[192, 168, 0, 0], 16⟩, ⟨[224, 0, 0, 0], 4⟩,
    ⟨[240, 0, 0, 0], 4⟩]

def Internal (n : Nat) : Prop :=
  ∃ b ∈ internalBlocks, n / 2 ^ (32 - b.bits) = ofBase 256 b.base / 2 ^ (32 - b.bits)

/-- An IPv6 address that has an IPv4 address for its last 32 bits: IPv4-mapped,
IPv4-compatible or NAT64. -/
def EmbedsLast (n : Nat) : Prop :=
  n / 2 ^ 32 = 0xffff ∨ n / 2 ^ 32 = 0 ∨ n / 2 ^ 32 = 0x64ff9b * 2 ^ 64

/-- The IPv4 addresses embedded in an IPv6 address: by those notations, by 6to4 and by
Teredo, which complements the bits. -/
inductive Embeds : Nat → Nat → Prop
  | last (n : Nat) : EmbedsLast n → Embeds n (n % 2 ^ 32)
  | sixToFour (n : Nat) : n / 2 ^ 112 = 0x2002 → Embeds n (n / 2 ^ 80 % 2 ^ 32)
  | teredo (n : Nat) : n / 2 ^ 96 = 0x20010000 → Embeds n (2 ^ 32 - 1 - n % 2 ^ 32)

/-- 2000::/3 -/
def GlobalUnicast (n : Nat) : Prop := n / 2 ^ 125 = 1

/-- One decimal octet as the platform takes it: no leading zero, at most 255. -/
def readOctet (s : Text) : Option Nat :=
  if s ≠ [] ∧ s.all Char.isDigit ∧ s.length ≤ 3 ∧ (s.head? = some '0' → s.length = 1) ∧
      Nat.ofDigitChars 10 s 0 ≤ 255 then
    some (Nat.ofDigitChars 10 s 0)
  else none

/-- The octets of a dotted quad. -/
def readQuad (s : Text) : Option (List Nat) :=
  match s.splitOn '.' with
  | [a, b, c, d] => do
    let a ← readOctet a
    let b ← readOctet b
    let c ← readOctet c
    let d ← readOctet d
    some [a, b, c, d]
  | _ => none

def ofHex (s : Text) : Nat := ofBase 16 (s.map hexValue)

/-- One group: up to four hexadecimal digits. -/
def readGroup (s : Text) : Option Nat :=
  if s ≠ [] ∧ s.length ≤ 4 ∧ s.all isHex then some (ofHex s) else none

/-- The last groups of a literal: one, or a dotted quad for two. -/
def readLast (s : Text) : Option (List Nat) :=
  match readGroup s with
  | some g => some [g]
  | none =>
    match readQuad s with
    | some [a, b, c, d] => some [a * 256 + b, c * 256 + d]
    | _ => none

def readGroups : List Text → Option (List Nat)
  | [] => some []
  | [s] => readLast s
  | s :: s' :: rest => do
    let g ← readGroup s
    let gs ← readGroups (s' :: rest)
    some (g :: gs)

/-- The groups between colons, none of an empty text. -/
def readRun (s : Text) : Option (List Nat) :=
  if s = [] then some [] else readGroups (s.splitOn ':')

/-- What stands before and after the first `::`. -/
def cutElision : Text → Option (Text × Text)
  | [] => none
  | c :: rest =>
    if c = ':' ∧ rest.head? = some ':' then some ([], rest.tail)
    else (cutElision rest).map fun (before, after) => (c :: before, after)

/-- The eight groups of an IPv6 literal. -/
def readV6 (s : Text) : Option (List Nat) :=
  match cutElision s with
  | none =>
    match readRun s with
    | some gs => if gs.length = 8 then some gs else none
    | none => none
  | some (before, after) =>
    -- a dotted quad stands at the end only
    if '.' ∈ before then none
    else
      match readRun before, readRun after with
      | some left, some right =>
        if left.length + right.length < 8 then
          some (left ++ List.replicate (8 - left.length - right.length) 0 ++ right)
        else none
      | _, _ => none

/-- The name of an interface after a `%`. -/
def isZone (s : Text) : Bool :=
  s ≠ [] && s.all fun c => c.isAlphanum || c = '-' || c = '.' || c = ':'

/-- The literal before an interface's name, when the name is well formed. -/
def dropZone (s : Text) : Option Text :=
  match splitFirst '%' s with
  | none => some s
  | some (literal, zone) => if isZone zone then some literal else none

/-- The address an IPv6 literal denotes. -/
def denotesV6 (s : Text) : Option Address := do
  let literal ← dropZone s
  let gs ← readV6 literal
  some (.v6 (ofBase 65536 gs))

/-- `net.isIPv4` -/
def isIPv4 (s : Text) : Bool := (readQuad s).isSome

/-- `net.isIPv6` -/
def isIPv6 (s : Text) : Bool := (denotesV6 s).isSome

/-- `net.isIP` -/
def isIP (s : Text) : Nat := if isIPv4 s then 4 else if isIPv6 s then 6 else 0

/-- The address a literal denotes, none when it is no literal. -/
def denotes (s : Text) : Option Address :=
  match readQuad s with
  | some octets => some (.v4 (ofBase 256 octets))
  | none => denotesV6 s

theorem exists_digitChar {c : Char} (h : c.isDigit = true) :
    ∃ k : Fin 10, c = Nat.digitChar k := by
  have hlow := (Bool.and_eq_true_iff.mp h).1
  have hhigh := (Bool.and_eq_true_iff.mp h).2
  have hlow : 48 ≤ c.toNat := of_decide_eq_true hlow
  have hhigh : c.toNat ≤ 57 := of_decide_eq_true hhigh
  have hall : ∀ n : Fin 10, Char.ofNat (48 + n) = Nat.digitChar n := by decide
  refine ⟨⟨c.toNat - 48, by omega⟩, ?_⟩
  rw [← hall]
  show c = Char.ofNat (48 + (c.toNat - 48))
  rw [show 48 + (c.toNat - 48) = c.toNat by omega, Char.ofNat_toNat]

/-- Digits without a leading zero are the decimal form of their value. -/
theorem decimal_ofDigitChars {s : Text} (hne : s ≠ []) (hdigits : s.all Char.isDigit = true)
    (hlead : s.head? = some '0' → s.length = 1) : s = decimal (Nat.ofDigitChars 10 s 0) := by
  induction s using List.reverseRecOn with
  | nil => exact absurd rfl hne
  | append_singleton s x ih =>
    rw [List.all_append, Bool.and_eq_true_iff] at hdigits
    obtain ⟨a, rfl⟩ := exists_digitChar (List.all_eq_true.mp hdigits.2 x List.mem_cons_self)
    have hlast : decimal a = [Nat.digitChar a] := Nat.toDigits_of_lt_base a.isLt
    rw [Nat.ofDigitChars_append, Nat.ofDigitChars_cons_digitChar_of_lt_ten a.isLt,
      Nat.ofDigitChars_nil]
    by_cases hs : s = []
    · subst hs
      rw [Nat.ofDigitChars_nil]
      simpa using hlast.symm
    have hhead : s.head? ≠ some '0' := by
      intro h
      have hlen := hlead (by rw [List.head?_append_of_ne_nil s hs, h])
      rw [List.length_append, List.length_singleton] at hlen
      exact hs (List.length_eq_zero_iff.mp (by omega))
    have hback := ih hs hdigits.1 (fun h => absurd h hhead)
    have hpos : 0 < Nat.ofDigitChars 10 s 0 := by
      refine Nat.pos_of_ne_zero fun hzero => hhead ?_
      rw [hback, hzero]
      rfl
    calc s ++ [Nat.digitChar a]
        = decimal (Nat.ofDigitChars 10 s 0) ++ decimal a := by rw [← hback, hlast]
      _ = decimal (10 * Nat.ofDigitChars 10 s 0 + a) :=
        Nat.toDigits_append_toDigits (by decide) hpos a.isLt

/-- An octet is read from its decimal form and from nothing else. -/
theorem readOctet_eq_some {s : Text} {n : Nat} :
    readOctet s = some n ↔ n ≤ 255 ∧ s = decimal n := by
  constructor
  · intro h
    unfold readOctet at h
    split at h
    · rename_i hs
      obtain ⟨hne, hdigits, hlen, hlead, hle⟩ := hs
      obtain rfl := Option.some.inj h
      exact ⟨hle, decimal_ofDigitChars hne hdigits hlead⟩
    · cases h
  · rintro ⟨hle, rfl⟩
    have hall : ∀ m : Fin 256, readOctet (decimal m) = some m.val := by decide +kernel
    exact hall ⟨n, by omega⟩

theorem dot_not_mem_decimal (n : Nat) : '.' ∉ decimal n := fun h =>
  absurd (isDigit_decimal h) (by decide)

/-- Four octets as a dotted quad. -/
def quadText (a b c d : Nat) : Text :=
  decimal a ++ '.' :: (decimal b ++ '.' :: (decimal c ++ '.' :: decimal d))

theorem splitOn_quadText (a b c d : Nat) :
    (quadText a b c d).splitOn '.' = [decimal a, decimal b, decimal c, decimal d] := by
  unfold quadText
  rw [List.splitOn_append_cons_self_of_not_mem (dot_not_mem_decimal a),
    List.splitOn_append_cons_self_of_not_mem (dot_not_mem_decimal b),
    List.splitOn_append_cons_self_of_not_mem (dot_not_mem_decimal c),
    List.splitOn_eq_singleton (dot_not_mem_decimal d)]

theorem eq_of_splitOn {s : Text} {a b c d : Text} (h : s.splitOn '.' = [a, b, c, d]) :
    s = a ++ '.' :: (b ++ '.' :: (c ++ '.' :: d)) := by
  have hback : ['.'].intercalate (s.splitOn '.') = s := List.intercalate_splitOn '.'
  rw [h] at hback
  rw [← hback]
  simp [List.intercalate]

theorem readQuad_eq_some {s : Text} {octets : List Nat} : readQuad s = some octets ↔
    ∃ a b c d, a ≤ 255 ∧ b ≤ 255 ∧ c ≤ 255 ∧ d ≤ 255 ∧ octets = [a, b, c, d] ∧
      s = quadText a b c d := by
  constructor
  · intro h
    unfold readQuad at h
    split at h
    · rename_i a b c d hsplit
      cases ha : readOctet a with
      | none => simp [ha] at h
      | some a' =>
        cases hb : readOctet b with
        | none => simp [ha, hb] at h
        | some b' =>
          cases hc : readOctet c with
          | none => simp [ha, hb, hc] at h
          | some c' =>
            cases hd : readOctet d with
            | none => simp [ha, hb, hc, hd] at h
            | some d' =>
              simp only [ha, hb, hc, hd, Option.bind_eq_bind, Option.bind_some,
                Option.some.injEq] at h
              obtain ⟨hla, rfl⟩ := readOctet_eq_some.mp ha
              obtain ⟨hlb, rfl⟩ := readOctet_eq_some.mp hb
              obtain ⟨hlc, rfl⟩ := readOctet_eq_some.mp hc
              obtain ⟨hld, rfl⟩ := readOctet_eq_some.mp hd
              exact ⟨a', b', c', d', hla, hlb, hlc, hld, h.symm, eq_of_splitOn hsplit⟩
    · cases h
  · rintro ⟨a, b, c, d, ha, hb, hc, hd, rfl, rfl⟩
    unfold readQuad
    rw [splitOn_quadText]
    simp only [readOctet_eq_some.mpr ⟨ha, rfl⟩, readOctet_eq_some.mpr ⟨hb, rfl⟩,
      readOctet_eq_some.mpr ⟨hc, rfl⟩, readOctet_eq_some.mpr ⟨hd, rfl⟩, Option.bind_eq_bind,
      Option.bind_some]

/-- The characters of a dotted quad. -/
theorem mem_quadText {a b c d : Nat} {x : Char} (h : x ∈ quadText a b c d) :
    x = '.' ∨ x.isDigit = true := by
  simp only [quadText, List.mem_append, List.mem_cons] at h
  rcases h with h | rfl | h | rfl | h | rfl | h
  · exact .inr (isDigit_decimal h)
  · exact .inl rfl
  · exact .inr (isDigit_decimal h)
  · exact .inl rfl
  · exact .inr (isDigit_decimal h)
  · exact .inl rfl
  · exact .inr (isDigit_decimal h)

theorem isHex_lt {c : Char} (h : isHex c = true) : c.toNat < 128 := by
  simp only [isHex, Char.isDigit, Bool.or_eq_true, Bool.and_eq_true, decide_eq_true_eq] at h
  rcases h with (⟨-, h⟩ | ⟨-, h⟩) | ⟨-, h⟩
  · exact Nat.lt_of_le_of_lt (show c.toNat ≤ 57 from h) (by decide)
  · exact Nat.lt_of_le_of_lt (show c.toNat ≤ 102 from h) (by decide)
  · exact Nat.lt_of_le_of_lt (show c.toNat ≤ 70 from h) (by decide)

theorem hexValue_lt {c : Char} (h : isHex c = true) : hexValue c < 16 := by
  have hlow : ∀ n : Fin 128, isHex (Char.ofNat n) = true → hexValue (Char.ofNat n) < 16 := by decide
  have := hlow ⟨c.toNat, isHex_lt h⟩
  rw [Char.ofNat_toNat] at this
  exact this h

theorem ofBase_append (base : Nat) (ds : List Nat) (d : Nat) :
    ofBase base (ds ++ [d]) = ofBase base ds * base + d := by
  simp [ofBase, List.foldl_append]

theorem ofHex_lt {s : Text} (h : s.all isHex = true) : ofHex s < 16 ^ s.length := by
  induction s using List.reverseRecOn with
  | nil => simp [ofHex, ofBase]
  | append_singleton s c ih =>
    rw [List.all_append, Bool.and_eq_true_iff] at h
    have hc := hexValue_lt (c := c) (by simpa using h.2)
    have hs := ih h.1
    have : ofHex (s ++ [c]) = ofHex s * 16 + hexValue c := by
      rw [ofHex, List.map_append]
      exact ofBase_append 16 (s.map hexValue) (hexValue c)
    rw [this, List.length_append, List.length_singleton, Nat.pow_succ]
    omega

theorem readGroup_lt {s : Text} {g : Nat} (h : readGroup s = some g) : g < 65536 := by
  unfold readGroup at h
  split at h
  · rename_i hs
    obtain rfl := Option.some.inj h
    refine Nat.lt_of_lt_of_le (ofHex_lt hs.2.2) ?_
    exact Nat.pow_le_pow_right (by decide) hs.2.1
  · cases h

/-- A group is read back from the hexadecimal form of its number. -/
theorem readGroup_toDigits {n : Nat} (h : n < 65536) : readGroup (Nat.toDigits 16 n) = some n := by
  have hdigit : ∀ k : Fin 16, hexValue (Nat.digitChar k) = k.val ∧
      isHex (Nat.digitChar k) = true := by decide
  have hread : ∀ m, ofHex (Nat.toDigits 16 m) = m ∧ (Nat.toDigits 16 m).all isHex = true := by
    intro m
    induction m using Nat.strong_induction_on with
    | _ m ih =>
      rw [Nat.toDigits_eq_if (by decide)]
      split
      · rename_i hm
        obtain ⟨hvalue, hhex⟩ := hdigit ⟨m, hm⟩
        exact ⟨by simpa [ofHex, ofBase] using hvalue, by simpa using hhex⟩
      · rename_i hm
        obtain ⟨hvalue, hhex⟩ := ih (m / 16) (by omega)
        obtain ⟨hlast, hlastHex⟩ := hdigit ⟨m % 16, Nat.mod_lt _ (by decide)⟩
        constructor
        · rw [ofHex, List.map_append]
          show ofBase 16 ((Nat.toDigits 16 (m / 16)).map hexValue ++ [hexValue _]) = m
          rw [ofBase_append]
          show ofHex _ * 16 + _ = m
          rw [hvalue, hlast]
          show m / 16 * 16 + m % 16 = m
          omega
        · rw [List.all_append, hhex]
          simpa using hlastHex
  have hlen : (Nat.toDigits 16 n).length ≤ 4 :=
    (Nat.length_toDigits_le_iff (by decide) (by decide)).mpr h
  unfold readGroup
  rw [if_pos ⟨Nat.toDigits_ne_nil, hlen, (hread n).2⟩, (hread n).1]

theorem cutElision_of_not_mem {s : Text} (h : ':' ∉ s) : cutElision s = none := by
  induction s with
  | nil => rfl
  | cons c s ih =>
    rw [List.mem_cons, not_or] at h
    rw [cutElision, if_neg fun hc => h.1 hc.1.symm, ih h.2]
    rfl

theorem cutElision_eq_some {s l r : Text} (h : cutElision s = some (l, r)) :
    s = l ++ ':' :: ':' :: r := by
  induction s generalizing l with
  | nil => cases h
  | cons c s ih =>
    rw [cutElision] at h
    split at h
    · rename_i hc
      obtain ⟨rfl, rfl⟩ := Prod.mk.inj (Option.some.inj h)
      cases s with
      | nil => cases hc.2
      | cons d s =>
        obtain rfl := hc.1
        obtain rfl := Option.some.inj hc.2
        rfl
    · cases hcut : cutElision s with
      | none =>
        rw [hcut] at h
        cases h
      | some lr =>
        rw [hcut] at h
        obtain ⟨rfl, rfl⟩ := Prod.mk.inj (Option.some.inj h)
        exact congrArg (c :: ·) (ih hcut)

/-- A text without an elision at the end of another adds none. -/
theorem cutElision_append {x : Text} (hhead : x.head? ≠ some ':') (hx : cutElision x = none)
    (p : Text) : cutElision (p ++ ':' :: x) =
      (cutElision (p ++ [':'])).map fun lr => (lr.1, lr.2 ++ x) := by
  induction p with
  | nil =>
    rw [List.nil_append, List.nil_append, cutElision, if_neg fun h => hhead h.2, hx]
    rfl
  | cons c p ih =>
    have hsame : (p ++ ':' :: x).head? = (p ++ [':']).head? := by cases p <;> rfl
    rw [List.cons_append, List.cons_append, cutElision, cutElision, hsame, ih]
    split
    · rename_i hc
      cases p with
      | nil => rfl
      | cons d p => simp
    · cases cutElision (p ++ [':']) <;> rfl

/-- What the text after a colon adds to the groups before it, in any run that it ends. -/
structure EndsRun (x : Text) (groups : Option (List Nat)) : Prop where
  head : x.head? ≠ some ':'
  whole : cutElision x = none
  alone : readRun x = groups
  after : ∀ q, readRun (q ++ ':' :: x) =
    ((q.splitOn ':').mapM readGroup).bind fun gs => groups.map (gs ++ ·)

theorem readGroups_append (ps : List Text) (s : Text) :
    readGroups (ps ++ [s]) = (ps.mapM readGroup).bind fun gs => (readLast s).map (gs ++ ·) := by
  induction ps with
  | nil => simp [readGroups]
  | cons p ps ih =>
    have hcons : readGroups (p :: ps ++ [s]) = (readGroup p).bind fun g =>
        (readGroups (ps ++ [s])).bind fun gs => some (g :: gs) := by
      cases ps <;> rfl
    rw [hcons, ih, List.mapM_cons]
    cases readGroup p with
    | none => rfl
    | some g =>
      cases ps.mapM readGroup with
      | none => rfl
      | some gs => cases readLast s <;> rfl

/-- One piece ends a run with what it reads as. -/
theorem endsRun_piece {x : Text} (hne : x ≠ []) (hx : ':' ∉ x) : EndsRun x (readLast x) where
  head h := hx (List.mem_of_mem_head? h)
  whole := cutElision_of_not_mem hx
  alone := by rw [readRun, if_neg hne, List.splitOn_eq_singleton hx, readGroups]
  after q := by
    rw [readRun, if_neg (by simp), List.splitOn_append_cons_self, List.splitOn_eq_singleton hx,
      readGroups_append]

/-- Two groups end a run with their numbers. -/
theorem endsRun_groups {hi lo : Text} {g g' : Nat} (hhi : ':' ∉ hi) (hlo : ':' ∉ lo)
    (hg : readGroup hi = some g) (hg' : readGroup lo = some g') :
    EndsRun (hi ++ ':' :: lo) (some [g, g']) := by
  have hne (s : Text) (n : Nat) (h : readGroup s = some n) : s ≠ [] := by
    rintro rfl
    simp [readGroup] at h
  have hlast : readLast lo = some [g'] := by rw [readLast, hg']
  have hhead (s : Text) (h : ':' ∉ s) (h' : s ≠ []) : (s ++ ':' :: lo).head? ≠ some ':' := by
    rw [List.head?_append_of_ne_nil _ h']
    exact fun hc => h (List.mem_of_mem_head? hc)
  have hlone := endsRun_piece (hne lo g' hg') hlo
  refine ⟨hhead hi hhi (hne hi g hg), ?_, ?_, fun q => ?_⟩
  · rw [cutElision_append hlone.head hlone.whole hi]
    have hnone : ∀ s : Text, ':' ∉ s → cutElision (s ++ [':']) = none := by
      intro s hs
      induction s with
      | nil => rfl
      | cons c s ih =>
        rw [List.mem_cons, not_or] at hs
        rw [List.cons_append, cutElision, if_neg fun hc => hs.1 hc.1.symm, ih hs.2]
        rfl
    rw [hnone hi hhi]
    rfl
  · rw [hlone.after hi, List.splitOn_eq_singleton hhi, hlast]
    simp [hg]
  · have hsplit : q ++ ':' :: (hi ++ ':' :: lo) = (q ++ ':' :: hi) ++ ':' :: lo := by simp
    rw [hsplit, hlone.after, List.splitOn_append_cons_self, List.splitOn_eq_singleton hhi, hlast,
      List.mapM_append]
    cases (q.splitOn ':').mapM readGroup with
    | none => rfl
    | some gs => simp [hg]

/-- What follows an elision is cut off after a colon, or empty. -/
theorem cutElision_rest {before l r : Text} (h : cutElision (before ++ [':']) = some (l, r)) :
    r = [] ∨ ∃ q, r = q ++ [':'] := by
  cases r using List.reverseRecOn with
  | nil => exact .inl rfl
  | append_singleton q c =>
    have hshape := cutElision_eq_some h
    rw [show l ++ ':' :: ':' :: (q ++ [c]) = (l ++ ':' :: ':' :: q) ++ [c] by simp] at hshape
    have hc := List.head_eq_of_cons_eq (List.append_inj' hshape rfl).2
    exact .inr ⟨q, by rw [hc]⟩

/-- What ends in the same groups reads the same. -/
theorem readV6_ends {x x' : Text} {groups : Option (List Nat)} (hx : EndsRun x groups)
    (hx' : EndsRun x' groups) (before : Text) :
    readV6 (before ++ ':' :: x) = readV6 (before ++ ':' :: x') := by
  unfold readV6
  rw [cutElision_append hx.head hx.whole, cutElision_append hx'.head hx'.whole]
  cases hcut : cutElision (before ++ [':']) with
  | none => rw [Option.map_none, Option.map_none, hx.after, hx'.after]
  | some lr =>
    obtain ⟨l, r⟩ := lr
    have hsame : readRun (r ++ x) = readRun (r ++ x') := by
      rcases cutElision_rest hcut with rfl | ⟨q, rfl⟩
      · exact hx.alone.trans hx'.alone.symm
      · rw [List.append_assoc, List.append_assoc]
        exact (hx.after q).trans (hx'.after q).symm
    simp only [Option.map_some]
    rw [hsame]

theorem readV6_ends_none {x : Text} (hx : EndsRun x none) (before : Text) :
    readV6 (before ++ ':' :: x) = none := by
  unfold readV6
  rw [cutElision_append hx.head hx.whole]
  cases hcut : cutElision (before ++ [':']) with
  | none =>
    rw [Option.map_none, hx.after]
    cases (before.splitOn ':').mapM readGroup <;> rfl
  | some lr =>
    obtain ⟨l, r⟩ := lr
    have hnone : readRun (r ++ x) = none := by
      rcases cutElision_rest hcut with rfl | ⟨q, rfl⟩
      · exact hx.alone
      · rw [List.append_assoc]
        refine (hx.after q).trans ?_
        cases (q.splitOn ':').mapM readGroup <;> rfl
    simp only [Option.map_some]
    rw [hnone]
    split
    · rfl
    · cases readRun l <;> rfl

theorem toLower_cases (c : Char) :
    c.toLower = c ∨ (c.isUpper = true ∧ c.toLower.isLower = true ∧ c.toNat < 128) := by
  have hlow : ∀ n : Fin 128, (Char.ofNat n).toLower = Char.ofNat n ∨
      ((Char.ofNat n).isUpper = true ∧ (Char.ofNat n).toLower.isLower = true) := by decide
  by_cases hc : c.toNat < 128
  · have := hlow ⟨c.toNat, hc⟩
    rw [Char.ofNat_toNat] at this
    exact this.imp id fun h => ⟨h.1, h.2, hc⟩
  · left
    unfold Char.toLower
    rw [dif_neg]
    rintro ⟨-, h⟩
    have h : c.toNat ≤ 90 := h
    omega

/-- Lowering a letter gives no other character. -/
theorem toLower_eq_iff {c d : Char} (hupper : d.isUpper = false) (hlower : d.isLower = false) :
    c.toLower = d ↔ c = d := by
  rcases toLower_cases c with h | ⟨hc, hc', -⟩
  · rw [h]
  · constructor
    · rintro rfl
      rw [hc'] at hlower
      cases hlower
    · rintro rfl
      rw [hc] at hupper
      cases hupper

theorem toLower_digits (c : Char) : isHex c.toLower = isHex c ∧
    (isHex c = true → hexValue c.toLower = hexValue c) ∧ c.toLower.isDigit = c.isDigit ∧
      (c.isDigit = true → c.toLower = c) := by
  have hlow : ∀ n : Fin 128, isHex (Char.ofNat n).toLower = isHex (Char.ofNat n) ∧
      (isHex (Char.ofNat n) = true → hexValue (Char.ofNat n).toLower = hexValue (Char.ofNat n)) ∧
      (Char.ofNat n).toLower.isDigit = (Char.ofNat n).isDigit ∧
      ((Char.ofNat n).isDigit = true → (Char.ofNat n).toLower = Char.ofNat n) := by decide
  rcases toLower_cases c with h | ⟨-, -, hc⟩
  · rw [h]
    exact ⟨rfl, fun _ => rfl, rfl, fun _ => rfl⟩
  · have := hlow ⟨c.toNat, hc⟩
    rwa [Char.ofNat_toNat] at this

/-- `toLowerCase`, of ASCII: no other letter's lower case belongs to a literal. -/
def lower (s : Text) : Text := s.map Char.toLower

theorem splitOn_lower {sep : Char} (hupper : sep.isUpper = false) (hlower : sep.isLower = false)
    (s : Text) : (lower s).splitOn sep = (s.splitOn sep).map lower := by
  have hsep (c : Char) : c.toLower = sep ↔ c = sep := toLower_eq_iff hupper hlower
  induction s with
  | nil => rfl
  | cons c s ih =>
    show (c.toLower :: lower s).splitOn sep = _
    rw [List.splitOn_cons_eq_if_modifyHead, List.splitOn_cons_eq_if_modifyHead, ih]
    by_cases hc : c = sep
    · have hc' := (hsep c).mpr hc
      rw [if_pos (beq_iff_eq.mpr hc'), if_pos (beq_iff_eq.mpr hc)]
      rfl
    · have hc' : c.toLower ≠ sep := fun h => hc ((hsep c).mp h)
      simp only [beq_eq_false_iff_ne.mpr hc, beq_eq_false_iff_ne.mpr hc', Bool.false_eq_true,
        if_false]
      cases s.splitOn sep <;> rfl

theorem mem_lower {s : Text} {d : Char} (hupper : d.isUpper = false) (hlower : d.isLower = false) :
    d ∈ lower s ↔ d ∈ s := by
  unfold lower
  rw [List.mem_map]
  constructor
  · rintro ⟨c, hc, h⟩
    exact (toLower_eq_iff hupper hlower).mp h ▸ hc
  · exact fun h => ⟨d, h, (toLower_eq_iff hupper hlower).mpr rfl⟩

theorem readGroup_lower (s : Text) : readGroup (lower s) = readGroup s := by
  have hall : (lower s).all isHex = s.all isHex := by
    simp only [lower, List.all_map]
    congr 1
    funext c
    exact (toLower_digits c).1
  have hvalue : s.all isHex = true → ofHex (lower s) = ofHex s := by
    intro h
    unfold ofHex lower
    rw [List.map_map]
    congr 1
    exact List.map_congr_left fun c hc => (toLower_digits c).2.1 (List.all_eq_true.mp h c hc)
  have hne : lower s ≠ [] ↔ s ≠ [] := not_congr List.map_eq_nil_iff
  unfold readGroup
  simp only [hall, hne, show (lower s).length = s.length from List.length_map _]
  split
  · rename_i h
    rw [hvalue h.2.2]
  · rfl

theorem lower_digits {s : Text} (h : s.all Char.isDigit = true) : lower s = s :=
  (List.map_congr_left fun c hc => (toLower_digits c).2.2.2 (List.all_eq_true.mp h c hc)).trans
    (List.map_id s)

theorem readOctet_lower (s : Text) : readOctet (lower s) = readOctet s := by
  have hall : (lower s).all Char.isDigit = s.all Char.isDigit := by
    simp only [lower, List.all_map]
    congr 1
    funext c
    exact (toLower_digits c).2.2.1
  by_cases h : s.all Char.isDigit = true
  · rw [lower_digits h]
  · have h' : ¬ (lower s).all Char.isDigit = true := hall ▸ h
    unfold readOctet
    rw [if_neg fun hs => h' hs.2.1, if_neg fun hs => h hs.2.1]

theorem readQuad_lower (s : Text) : readQuad (lower s) = readQuad s := by
  unfold readQuad
  rw [splitOn_lower (by decide) (by decide)]
  rcases s.splitOn '.' with _ | ⟨a, _ | ⟨b, _ | ⟨c, _ | ⟨d, _ | ⟨e, rest⟩⟩⟩⟩⟩
  · rfl
  · rfl
  · rfl
  · rfl
  · simp only [List.map_cons, List.map_nil, readOctet_lower]
  · rfl

theorem readRun_lower (s : Text) : readRun (lower s) = readRun s := by
  have hlast (x : Text) : readLast (lower x) = readLast x := by
    unfold readLast
    rw [readGroup_lower, readQuad_lower]
  have hgroups (ps : List Text) : readGroups (ps.map lower) = readGroups ps := by
    induction ps with
    | nil => rfl
    | cons p ps ih =>
      cases ps with
      | nil => exact hlast p
      | cons q ps =>
        show ((readGroup (lower p)).bind fun g => (readGroups ((q :: ps).map lower)).bind fun gs =>
          some (g :: gs)) = _
        rw [ih, readGroup_lower]
        rfl
  have hnil : lower s = [] ↔ s = [] := List.map_eq_nil_iff
  unfold readRun
  rw [splitOn_lower (by decide) (by decide), hgroups]
  simp only [hnil]

theorem cutElision_lower (s : Text) :
    cutElision (lower s) = (cutElision s).map fun lr => (lower lr.1, lower lr.2) := by
  induction s with
  | nil => rfl
  | cons c s ih =>
    have hc : c.toLower = ':' ↔ c = ':' := toLower_eq_iff (by decide) (by decide)
    have hhead : (lower s).head? = some ':' ↔ s.head? = some ':' := by
      cases s with
      | nil => exact Iff.rfl
      | cons d s =>
        have hd : d.toLower = ':' ↔ d = ':' := toLower_eq_iff (by decide) (by decide)
        simpa [lower] using hd
    show cutElision (c.toLower :: lower s) = _
    rw [cutElision, cutElision, ih]
    simp only [hc, hhead]
    split
    · cases s <;> rfl
    · cases cutElision s <;> rfl

theorem readV6_lower (s : Text) : readV6 (lower s) = readV6 s := by
  unfold readV6
  rw [cutElision_lower]
  cases cutElision s with
  | none => simp only [Option.map_none, readRun_lower]
  | some lr =>
    have hdot : '.' ∈ lower lr.1 ↔ '.' ∈ lr.1 := mem_lower (by decide) (by decide)
    simp only [Option.map_some, readRun_lower, hdot]

/-- The characters that a literal is made of. -/
def IsLiteralChar (c : Char) : Prop :=
  c.isAlphanum = true ∨ c = ':' ∨ c = '.' ∨ c = '%' ∨ c = '-'

theorem literalChar_of_isHex {c : Char} (h : isHex c = true) : IsLiteralChar c := by
  have hlow : ∀ n : Fin 128, isHex (Char.ofNat n) = true → (Char.ofNat n).isAlphanum = true := by
    decide
  have := hlow ⟨c.toNat, isHex_lt h⟩
  rw [Char.ofNat_toNat] at this
  exact .inl (this h)

theorem isAlphanum_lt {c : Char} (h : c.isAlphanum = true) : c.toNat < 128 := by
  delta Char.isAlphanum Char.isAlpha Char.isUpper Char.isLower Char.isDigit at h
  simp only [Bool.or_eq_true, Bool.and_eq_true, decide_eq_true_eq] at h
  rcases h with (⟨-, h⟩ | ⟨-, h⟩) | ⟨-, h⟩
  · exact Nat.lt_of_le_of_lt (show c.toNat ≤ 90 from h) (by decide)
  · exact Nat.lt_of_le_of_lt (show c.toNat ≤ 122 from h) (by decide)
  · exact Nat.lt_of_le_of_lt (show c.toNat ≤ 57 from h) (by decide)

/-- No character of a literal is white space or a bracket. -/
theorem literalChar_spec {c : Char} (h : IsLiteralChar c) :
    isSpace c = false ∧ c ≠ '[' ∧ c ≠ ']' := by
  have hlow : ∀ n : Fin 128, (Char.ofNat n).isAlphanum = true →
      isSpace (Char.ofNat n) = false ∧ Char.ofNat n ≠ '[' ∧ Char.ofNat n ≠ ']' := by decide
  rcases h with h | rfl | rfl | rfl | rfl
  · have := hlow ⟨c.toNat, isAlphanum_lt h⟩
    rw [Char.ofNat_toNat] at this
    exact this h
  all_goals decide

theorem splitFirst_eq_some {c : Char} {s before after : Text}
    (h : splitFirst c s = some (before, after)) : s = before ++ c :: after := by
  have hmem : c ∈ s := by
    by_contra hmem
    rw [splitFirst, if_neg hmem] at h
    cases h
  obtain ⟨p, q, rfl, hp⟩ := List.eq_append_cons_of_mem hmem
  rw [splitFirst_append hp] at h
  obtain ⟨rfl, rfl⟩ := Prod.mk.inj (Option.some.inj h)
  rfl

theorem mem_splitOn {s : Text} {c : Char} (sep : Char) (h : c ∈ s) : c = sep ∨ ∃ p ∈ s.splitOn sep, c ∈ p := by
  induction s with
  | nil => cases h
  | cons d s ih =>
    rw [List.splitOn_cons_eq_if_modifyHead]
    by_cases hd : d = sep
    · rw [if_pos (beq_iff_eq.mpr hd)]
      rcases List.mem_cons.mp h with rfl | h
      · exact .inl hd
      · exact (ih h).imp id fun ⟨p, hp, hc⟩ => ⟨p, List.mem_cons_of_mem _ hp, hc⟩
    · rw [if_neg (by simpa using hd)]
      cases hsplit : s.splitOn sep with
      | nil => exact absurd hsplit (List.splitOn_ne_nil sep s)
      | cons p ps =>
        rw [hsplit] at ih
        rcases List.mem_cons.mp h with rfl | h
        · exact .inr ⟨c :: p, List.mem_cons_self, List.mem_cons_self⟩
        · rcases ih h with hc | ⟨q, hq, hc⟩
          · exact .inl hc
          · rcases List.mem_cons.mp hq with rfl | hq
            · exact .inr ⟨d :: q, List.mem_cons_self, List.mem_cons_of_mem _ hc⟩
            · exact .inr ⟨q, List.mem_cons_of_mem _ hq, hc⟩

theorem isHex_of_readGroup {s : Text} {g : Nat} (h : readGroup s = some g) :
    s ≠ [] ∧ s.all isHex = true := by
  unfold readGroup at h
  split at h
  · rename_i hs
    exact ⟨hs.1, hs.2.2⟩
  · cases h

theorem readQuad_chars {s : Text} {octets : List Nat} (h : readQuad s = some octets) :
    ∀ c ∈ s, c = '.' ∨ c.isDigit = true := by
  obtain ⟨a, b, c, d, -, -, -, -, -, rfl⟩ := readQuad_eq_some.mp h
  exact fun x hx => mem_quadText hx

theorem literalChar_of_quad {c : Char} (h : c = '.' ∨ c.isDigit = true) : IsLiteralChar c := by
  rcases h with rfl | h
  · exact .inr (.inr (.inl rfl))
  · exact .inl (by rw [Char.isAlphanum, h, Bool.or_true])

theorem readLast_spec {s : Text} {gs : List Nat} (h : readLast s = some gs) :
    gs.length ≤ 2 ∧ ∀ c ∈ s, IsLiteralChar c := by
  unfold readLast at h
  split at h
  · rename_i g hg
    obtain rfl := Option.some.inj h
    exact ⟨by simp, fun c hc =>
      literalChar_of_isHex (List.all_eq_true.mp (isHex_of_readGroup hg).2 c hc)⟩
  · split at h
    · rename_i hquad
      obtain rfl := Option.some.inj h
      exact ⟨by simp, fun c hc => literalChar_of_quad (readQuad_chars hquad c hc)⟩
    · cases h

theorem readRun_chars {s : Text} {gs : List Nat} (h : readRun s = some gs) :
    ∀ c ∈ s, IsLiteralChar c := by
  have hgroups (ps : List Text) (gs : List Nat) (h : readGroups ps = some gs) :
      ∀ p ∈ ps, ∀ c ∈ p, IsLiteralChar c := by
    induction ps generalizing gs with
    | nil => simp
    | cons p ps ih =>
      cases ps with
      | nil =>
        intro q hq
        obtain rfl := List.mem_singleton.mp hq
        exact (readLast_spec h).2
      | cons q ps =>
        rw [readGroups] at h
        obtain ⟨g, hg, h⟩ := Option.bind_eq_some_iff.mp h
        obtain ⟨gs', hgs', -⟩ := Option.bind_eq_some_iff.mp h
        refine List.forall_mem_cons.mpr ⟨fun c hc => ?_, ih gs' hgs'⟩
        exact literalChar_of_isHex (List.all_eq_true.mp (isHex_of_readGroup hg).2 c hc)
  unfold readRun at h
  split at h
  · rename_i hs
    simp [hs]
  · intro c hc
    rcases mem_splitOn ':' hc with rfl | ⟨p, hp, hc⟩
    · exact .inr (.inl rfl)
    · exact hgroups _ gs h p hp c hc

/-- An IPv6 literal has a colon in it. -/
theorem readV6_spec {s : Text} {gs : List Nat} (h : readV6 s = some gs) :
    ':' ∈ s ∧ ∀ c ∈ s, IsLiteralChar c := by
  unfold readV6 at h
  split at h
  · rename_i hcut
    split at h
    · rename_i gs' hrun
      split at h
      · rename_i hlen
        refine ⟨?_, readRun_chars hrun⟩
        by_contra hcolon
        unfold readRun at hrun
        split at hrun
        · obtain rfl := Option.some.inj hrun
          cases hlen
        · rw [List.splitOn_eq_singleton hcolon, readGroups] at hrun
          have := (readLast_spec hrun).1
          omega
      · cases h
    · cases h
  · rename_i before after hcut
    obtain rfl := cutElision_eq_some hcut
    split at h
    · cases h
    · split at h
      · rename_i left right hleft hright
        refine ⟨by simp, fun c hc => ?_⟩
        simp only [List.mem_append, List.mem_cons] at hc
        rcases hc with hc | rfl | rfl | hc
        · exact readRun_chars hleft c hc
        · exact .inr (.inl rfl)
        · exact .inr (.inl rfl)
        · exact readRun_chars hright c hc
      · cases h

theorem denotesV6_spec {s : Text} {x : Address} (h : denotesV6 s = some x) :
    ':' ∈ s ∧ ∀ c ∈ s, IsLiteralChar c := by
  obtain ⟨literal, hzone, h⟩ := Option.bind_eq_some_iff.mp h
  obtain ⟨gs, hread, -⟩ := Option.bind_eq_some_iff.mp h
  obtain ⟨hcolon, hchars⟩ := readV6_spec hread
  unfold dropZone at hzone
  split at hzone
  · obtain rfl := Option.some.inj hzone
    exact ⟨hcolon, hchars⟩
  · rename_i before zone hsplit
    split at hzone
    · rename_i hok
      obtain rfl := Option.some.inj hzone
      have hshape := splitFirst_eq_some hsplit
      subst hshape
      refine ⟨List.mem_append_left _ hcolon, fun c hc => ?_⟩
      simp only [List.mem_append, List.mem_cons] at hc
      rcases hc with hc | rfl | hc
      · exact hchars c hc
      · exact .inr (.inr (.inr (.inl rfl)))
      · have := List.all_eq_true.mp (Bool.and_eq_true_iff.mp hok).2 c hc
        simp only [Bool.or_eq_true, decide_eq_true_eq] at this
        rcases this with ((h | rfl) | rfl) | rfl
        · exact .inl h
        · exact .inr (.inr (.inr (.inr rfl)))
        · exact .inr (.inr (.inl rfl))
        · exact .inr (.inl rfl)
    · cases hzone

end Lurker.Dcc
