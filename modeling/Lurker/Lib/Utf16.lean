import Mathlib.Data.List.Basic
import Mathlib.Data.Nat.Notation

/-!
# UTF-16 text

Texts of UTF-16 code units, their code points, and how many bytes they take in UTF-8. Half of a
surrogate pair by itself is a code point, and takes the three bytes of the replacement character.
-/

namespace Utf16

abbrev Text := List UInt16

def isHighSurrogate (c : UInt16) : Bool := 0xD800 ≤ c && c < 0xDC00
def isLowSurrogate (c : UInt16) : Bool := 0xDC00 ≤ c && c < 0xE000

def codePoints : Text → List Text
  | [] => []
  | [c] => [[c]]
  | c :: d :: rest =>
    if isHighSurrogate c && isLowSurrogate d then [c, d] :: codePoints rest
    else [c] :: codePoints (d :: rest)

/-- The bytes of a code point of one unit. -/
def unitBytes (c : UInt16) : Nat := if c < 0x80 then 1 else if c < 0x800 then 2 else 3

/-- The length in UTF-8. -/
def utf8Bytes : Text → Nat
  | [] => 0
  | [c] => unitBytes c
  | c :: d :: rest =>
    if isHighSurrogate c && isLowSurrogate d then 4 + utf8Bytes rest
    else unitBytes c + utf8Bytes (d :: rest)

theorem flatten_codePoints (s : Text) : (codePoints s).flatten = s := by
  fun_induction codePoints s with
  | case1 => rfl
  | case2 => rfl
  | case3 c d rest _ ih => simp [ih]
  | case4 c d rest _ ih => simp [ih]

/-- A code point is one unit, or a pair that begins with a high surrogate. -/
theorem of_mem_codePoints {s p : Text} (h : p ∈ codePoints s) :
    (∃ c, p = [c]) ∨ ∃ c d, p = [c, d] ∧ isHighSurrogate c = true ∧ isLowSurrogate d = true := by
  fun_induction codePoints s with
  | case1 => cases h
  | case2 c => exact .inl ⟨c, List.mem_singleton.mp h⟩
  | case3 c d rest hpair ih =>
    rcases List.mem_cons.mp h with rfl | h
    · exact .inr ⟨c, d, rfl, Bool.and_eq_true_iff.mp hpair⟩
    · exact ih h
  | case4 c d rest hpair ih =>
    rcases List.mem_cons.mp h with rfl | h
    · exact .inl ⟨c, rfl⟩
    · exact ih h

theorem unitBytes_le (c : UInt16) : unitBytes c ≤ 3 := by
  unfold unitBytes
  split_ifs <;> decide

theorem unitBytes_surrogate {c : UInt16} (h : isHighSurrogate c = true ∨ isLowSurrogate c = true) :
    unitBytes c = 3 := by
  simp only [isHighSurrogate, isLowSurrogate, Bool.and_eq_true, decide_eq_true_eq,
    UInt16.le_iff_toNat_le, UInt16.lt_iff_toNat_lt, UInt16.reduceToNat] at h
  simp only [unitBytes, UInt16.lt_iff_toNat_lt, UInt16.reduceToNat]
  rw [if_neg (by omega), if_neg (by omega)]

theorem not_high_of_low {c : UInt16} (h : isLowSurrogate c = true) : isHighSurrogate c = false := by
  simp only [isHighSurrogate, isLowSurrogate, Bool.and_eq_true, Bool.and_eq_false_iff,
    decide_eq_true_eq, decide_eq_false_iff_not, UInt16.le_iff_toNat_le, UInt16.lt_iff_toNat_lt,
    UInt16.reduceToNat] at h ⊢
  omega

/-- A unit that begins no pair takes its bytes whatever follows. -/
theorem utf8Bytes_cons {c : UInt16} (h : isHighSurrogate c = false) (s : Text) :
    utf8Bytes (c :: s) = unitBytes c + utf8Bytes s := by
  cases s with
  | nil => rfl
  | cons d rest => rw [utf8Bytes, h, Bool.false_and, if_neg Bool.false_ne_true]

theorem utf8Bytes_cons_le (c : UInt16) (s : Text) :
    utf8Bytes (c :: s) ≤ unitBytes c + utf8Bytes s := by
  cases s with
  | nil => exact Nat.le_refl _
  | cons d rest =>
    rw [utf8Bytes]
    split
    case isTrue hpair =>
      obtain ⟨hc, hd⟩ := Bool.and_eq_true_iff.mp hpair
      rw [utf8Bytes_cons (not_high_of_low hd), unitBytes_surrogate (.inl hc),
        unitBytes_surrogate (.inr hd)]
      omega
    case isFalse => exact Nat.le_refl _

/-- Joining texts can only save: it may make a pair of two halves. -/
theorem utf8Bytes_append_le (s t : Text) : utf8Bytes (s ++ t) ≤ utf8Bytes s + utf8Bytes t := by
  fun_induction utf8Bytes s with
  | case1 => exact Nat.le_add_left _ _
  | case2 c => exact utf8Bytes_cons_le c t
  | case3 c d rest hpair ih =>
    rw [List.cons_append, List.cons_append, utf8Bytes, if_pos hpair]
    omega
  | case4 c d rest hpair ih =>
    rw [List.cons_append, List.cons_append, utf8Bytes, if_neg hpair]
    rw [List.cons_append] at ih
    omega

theorem utf8Bytes_le_append (s t : Text) : utf8Bytes s ≤ utf8Bytes (s ++ t) := by
  fun_induction utf8Bytes s with
  | case1 => exact Nat.zero_le _
  | case2 c =>
    cases t with
    | nil => exact Nat.le_refl _
    | cons d rest =>
      have hc := unitBytes_le c
      rw [List.singleton_append, utf8Bytes]
      split <;> omega
  | case3 c d rest hpair ih =>
    rw [List.cons_append, List.cons_append, utf8Bytes, if_pos hpair]
    omega
  | case4 c d rest hpair ih =>
    rw [List.cons_append, List.cons_append, utf8Bytes, if_neg hpair]
    rw [List.cons_append] at ih
    omega

theorem utf8Bytes_le_of_prefix {s t : Text} (h : s <+: t) : utf8Bytes s ≤ utf8Bytes t := by
  obtain ⟨rest, rfl⟩ := h
  exact utf8Bytes_le_append s rest

/-- A code point takes at most four bytes. -/
theorem utf8Bytes_codePoint {s p : Text} (h : p ∈ codePoints s) :
    p ≠ [] ∧ utf8Bytes p ≤ 4 := by
  rcases of_mem_codePoints h with ⟨c, rfl⟩ | ⟨c, d, rfl, hc, hd⟩
  · exact ⟨List.cons_ne_nil _ _, Nat.le_trans (unitBytes_le c) (by decide)⟩
  · refine ⟨List.cons_ne_nil _ _, ?_⟩
    rw [utf8Bytes, if_pos (by rw [hc, hd]; rfl)]
    exact Nat.le_refl 4

/-- The units of the leading pieces that fit a budget of bytes, after so many. -/
def fittingLength (maxBytes : Nat) : Nat → List Text → Nat
  | _, [] => 0
  | bytes, p :: ps =>
    if bytes + utf8Bytes p > maxBytes then 0
    else p.length + fittingLength maxBytes (bytes + utf8Bytes p) ps

theorem fittingLength_le (maxBytes bytes : Nat) (ps : List Text) :
    fittingLength maxBytes bytes ps ≤ ps.flatten.length := by
  fun_induction fittingLength maxBytes bytes ps with
  | case1 => exact Nat.le_refl _
  | case2 => exact Nat.zero_le _
  | case3 bytes p ps _ ih =>
    rw [List.flatten_cons, List.length_append]
    omega

theorem utf8Bytes_take_fitting {maxBytes bytes : Nat} (h : bytes ≤ maxBytes) (ps : List Text) :
    bytes + utf8Bytes (ps.flatten.take (fittingLength maxBytes bytes ps)) ≤ maxBytes := by
  fun_induction fittingLength maxBytes bytes ps with
  | case1 => exact h
  | case2 => exact h
  | case3 bytes p ps hfits ih =>
    rw [List.flatten_cons, List.take_length_add_append]
    have hrest := ih (Nat.le_of_not_lt hfits)
    have happend := utf8Bytes_append_le p (ps.flatten.take (fittingLength maxBytes
      (bytes + utf8Bytes p) ps))
    omega

/-- A budget of four bytes is enough for some text. -/
theorem fittingLength_codePoints_pos {maxBytes : Nat} (h : 4 ≤ maxBytes) {s : Text} (hs : s ≠ []) :
    0 < fittingLength maxBytes 0 (codePoints s) := by
  cases hpoints : codePoints s with
  | nil =>
    have hflat := flatten_codePoints s
    rw [hpoints] at hflat
    exact absurd hflat.symm hs
  | cons p ps =>
    obtain ⟨hne, hbytes⟩ := utf8Bytes_codePoint (s := s) (p := p) (by rw [hpoints]; exact
      List.mem_cons_self)
    rw [fittingLength, if_neg (by omega)]
    exact Nat.add_pos_left (List.length_pos_of_ne_nil hne) _

/-- A code point with no half of a pair by itself. -/
def isCodePoint : Text → Bool
  | [c] => !isHighSurrogate c && !isLowSurrogate c
  | [c, d] => isHighSurrogate c && isLowSurrogate d
  | _ => false

/-- No half of a pair stands by itself. -/
def wellFormed (s : Text) : Bool := (codePoints s).all isCodePoint

theorem isCodePoint_cases {p : Text} (h : isCodePoint p = true) :
    (∃ c, p = [c] ∧ isHighSurrogate c = false ∧ isLowSurrogate c = false) ∨
      ∃ c d, p = [c, d] ∧ isHighSurrogate c = true ∧ isLowSurrogate d = true := by
  match p, h with
  | [c], h =>
    simp only [isCodePoint, Bool.and_eq_true, Bool.not_eq_true'] at h
    exact .inl ⟨c, rfl, h.1, h.2⟩
  | [c, d], h =>
    simp only [isCodePoint, Bool.and_eq_true] at h
    exact .inr ⟨c, d, rfl, h.1, h.2⟩

theorem codePoints_cons {c : UInt16} (h : isHighSurrogate c = false) (s : Text) :
    codePoints (c :: s) = [c] :: codePoints s := by
  cases s with
  | nil => rfl
  | cons d rest => rw [codePoints, h, Bool.false_and, if_neg Bool.false_ne_true]

/-- Code points put together come apart as they were. -/
theorem codePoints_flatten {ps : List Text} (h : ∀ p ∈ ps, isCodePoint p = true) :
    codePoints ps.flatten = ps := by
  induction ps with
  | nil => rfl
  | cons p ps ih =>
    have ih := ih fun q hq => h q (List.mem_cons_of_mem _ hq)
    rw [List.flatten_cons]
    rcases isCodePoint_cases (h p List.mem_cons_self) with ⟨c, rfl, hc, -⟩ | ⟨c, d, rfl, hc, hd⟩
    · rw [List.singleton_append, codePoints_cons hc, ih]
    · rw [List.cons_append, List.singleton_append, codePoints, hc, hd, Bool.and_self, if_pos rfl, ih]

theorem wellFormed_iff {s : Text} :
    wellFormed s = true ↔
      ∃ ps : List Text, (∀ p ∈ ps, isCodePoint p = true) ∧ s = ps.flatten := by
  constructor
  · exact fun h => ⟨codePoints s, List.all_eq_true.mp h, (flatten_codePoints s).symm⟩
  · rintro ⟨ps, hps, rfl⟩
    rw [wellFormed, codePoints_flatten hps]
    exact List.all_eq_true.mpr hps

theorem wellFormed_append {s t : Text} (hs : wellFormed s = true) (ht : wellFormed t = true) :
    wellFormed (s ++ t) = true := by
  obtain ⟨ps, hps, rfl⟩ := wellFormed_iff.mp hs
  obtain ⟨qs, hqs, rfl⟩ := wellFormed_iff.mp ht
  refine wellFormed_iff.mpr ⟨ps ++ qs, fun p hp => ?_, List.flatten_append.symm⟩
  exact (List.mem_append.mp hp).elim (hps p) (hqs p)

theorem wellFormed_of_lt {s : Text} (h : ∀ c ∈ s, c < 0xD800) : wellFormed s = true := by
  refine wellFormed_iff.mpr ⟨s.map fun c => [c], fun p hp => ?_, ?_⟩
  · obtain ⟨c, hc, rfl⟩ := List.mem_map.mp hp
    have hlt := h c hc
    simp only [isCodePoint, isHighSurrogate, isLowSurrogate, UInt16.le_iff_toNat_le,
      UInt16.lt_iff_toNat_lt, UInt16.reduceToNat, Bool.and_eq_true, Bool.not_eq_true',
      Bool.and_eq_false_iff, decide_eq_false_iff_not] at hlt ⊢
    omega
  · induction s with
    | nil => rfl
    | cons c s ih =>
      rw [List.map_cons, List.flatten_cons, ← ih fun d hd => h d (List.mem_cons_of_mem _ hd)]
      rfl

theorem utf8Bytes_ascii {s : Text} (h : ∀ c ∈ s, c < 0x80) : utf8Bytes s = s.length := by
  induction s with
  | nil => rfl
  | cons c s ih =>
    have hc := h c List.mem_cons_self
    have hhigh : isHighSurrogate c = false := by
      simp only [isHighSurrogate, UInt16.le_iff_toNat_le, UInt16.lt_iff_toNat_lt,
        UInt16.reduceToNat, Bool.and_eq_false_iff, decide_eq_false_iff_not] at hc ⊢
      omega
    rw [utf8Bytes_cons hhigh, ih fun d hd => h d (List.mem_cons_of_mem _ hd), unitBytes, if_pos hc,
      List.length_cons, Nat.add_comm]

end Utf16
