import Mathlib.Data.List.Basic

/-!
# Text and its formatting codes

Texts are UTF-16 code units, as the platform's strings are. `stripFormatting` drops the
codes for colour, hex colour and the toggles. `rawIndexForVisibleOffset` leads from an offset
in the stripped text back to the raw one, and what stands from there on is, stripped, what
stands from the offset on.
-/

namespace Lurker.Chat

/-- A UTF-16 code unit. -/
abbrev CodeUnit := UInt16

abbrev Text := List CodeUnit

/-- The unit of a character of the basic plane. -/
def unit (c : Char) : CodeUnit := c.toNat.toUInt16

/-- The text of a literal, whose characters are of the basic plane. -/
def text (s : String) : Text := s.toList.map unit

/-- JavaScript's `\s`. -/
def isSpace (c : CodeUnit) : Bool :=
  (9 ≤ c ∧ c ≤ 13) ∨ c = 32 ∨ c = 0xA0 ∨ c = 0x1680 ∨ (0x2000 ≤ c ∧ c ≤ 0x200A) ∨
    c = 0x2028 ∨ c = 0x2029 ∨ c = 0x202F ∨ c = 0x205F ∨ c = 0x3000 ∨ c = 0xFEFF

/-- What `.` does not match. -/
def isLineTerminator (c : CodeUnit) : Bool := c = 10 ∨ c = 13 ∨ c = 0x2028 ∨ c = 0x2029

def isDigit (c : CodeUnit) : Bool := unit '0' ≤ c ∧ c ≤ unit '9'

def isHexDigit (c : CodeUnit) : Bool :=
  isDigit c ∨ (unit 'A' ≤ c ∧ c ≤ unit 'F') ∨ (unit 'a' ≤ c ∧ c ≤ unit 'f')

/-- Units at the start of a text that satisfy `p`, no more than `max`. -/
def runLength (p : CodeUnit → Bool) (max : Nat) (s : Text) : Nat := ((s.take max).takeWhile p).length

/-- One colour of `min` to `max` digits, and after a comma one more. -/
def colourLength (p : CodeUnit → Bool) (min max : Nat) (s : Text) : Nat :=
  let fg := runLength p max s
  if fg < min then 0
  else match s.drop fg with
    | [] => fg
    | c :: rest =>
      let bg := runLength p max rest
      if c = unit ',' ∧ min ≤ bg then fg + 1 + bg else fg

def isToggle (c : CodeUnit) : Bool :=
  c = 0x02 ∨ c = 0x0f ∨ c = 0x11 ∨ c = 0x16 ∨ c = 0x1d ∨ c = 0x1e ∨ c = 0x1f

/-- The units that start a formatting code. -/
def isControl (c : CodeUnit) : Bool := c = 0x03 ∨ c = 0x04 ∨ isToggle c

/-- How long the formatting code at the start of a text is, zero for none. -/
def formatLength : Text → Nat
  | [] => 0
  | c :: rest =>
    if c = 0x03 then 1 + colourLength isDigit 1 2 rest
    else if c = 0x04 then 1 + colourLength isHexDigit 6 6 rest
    else if isToggle c then 1
    else 0

/-- Formatting codes dropped, after the units that are still of a code. -/
def stripFrom : Nat → Text → Text
  | _, [] => []
  | skip + 1, _ :: rest => stripFrom skip rest
  | 0, c :: rest =>
    match formatLength (c :: rest) with
    | 0 => c :: stripFrom 0 rest
    | n + 1 => stripFrom n rest

def stripFormatting (s : Text) : Text := stripFrom 0 s

/-- The walk of `rawIndexForVisibleOffset`: units still of a code, and visible ones to go. -/
def rawIndexFrom : Nat → Nat → Text → Nat
  | _, _, [] => 0
  | skip + 1, left, _ :: rest => 1 + rawIndexFrom skip left rest
  | 0, 0, _ => 0
  | 0, left + 1, c :: rest =>
    match formatLength (c :: rest) with
    | 0 => 1 + rawIndexFrom 0 left rest
    | n + 1 => 1 + rawIndexFrom n (left + 1) rest

/-- The index in the raw text of an offset in the visible one. -/
def rawIndexForVisibleOffset (raw : Text) (visibleOffset : Nat) : Nat :=
  rawIndexFrom 0 visibleOffset raw

theorem formatLength_eq_zero {c : CodeUnit} {rest : Text} :
    formatLength (c :: rest) = 0 ↔ isControl c = false := by
  unfold formatLength isControl
  split
  · simp_all
  · split
    · simp_all
    · split
      · simp_all
      · simp_all

theorem stripFrom_visible {c : CodeUnit} (hc : isControl c = false) (rest : Text) :
    stripFrom 0 (c :: rest) = c :: stripFrom 0 rest := by
  rw [stripFrom, formatLength_eq_zero.mpr hc]

/-- A stripped text has no formatting code. -/
theorem not_control_of_mem_stripFrom {c : CodeUnit} {skip : Nat} {s : Text}
    (h : c ∈ stripFrom skip s) : isControl c = false := by
  induction s generalizing skip with
  | nil => exact absurd h List.not_mem_nil
  | cons d rest ih =>
    cases skip with
    | succ skip => exact ih h
    | zero =>
      cases hd : formatLength (d :: rest) with
      | succ n =>
        rw [stripFrom, hd] at h
        exact ih h
      | zero =>
        rw [stripFrom, hd] at h
        obtain rfl | h := List.mem_cons.mp h
        · exact formatLength_eq_zero.mp hd
        · exact ih h

theorem stripFormatting_eq_self {s : Text} (h : ∀ c ∈ s, isControl c = false) :
    stripFormatting s = s := by
  induction s with
  | nil => rfl
  | cons c rest ih =>
    rw [stripFormatting, stripFrom_visible (h c List.mem_cons_self)]
    exact congrArg (c :: ·) (ih fun d hd => h d (List.mem_cons_of_mem c hd))

/-- What stands from the raw index on is, stripped, what stands from the offset on. -/
theorem stripFrom_drop (skip left : Nat) (s : Text) :
    stripFormatting (s.drop (rawIndexFrom skip left s)) = (stripFrom skip s).drop left := by
  induction s generalizing skip left with
  | nil => simp [rawIndexFrom, stripFrom, stripFormatting]
  | cons c rest ih =>
    cases skip with
    | succ skip =>
      rw [rawIndexFrom, Nat.add_comm, List.drop_succ_cons, ih]
      rfl
    | zero =>
      cases left with
      | zero => rfl
      | succ left =>
        cases hc : formatLength (c :: rest) with
        | zero =>
          simp only [rawIndexFrom, stripFrom, hc]
          rw [Nat.add_comm, List.drop_succ_cons, ih, List.drop_succ_cons]
        | succ n =>
          simp only [rawIndexFrom, stripFrom, hc]
          rw [Nat.add_comm, List.drop_succ_cons, ih]

theorem stripFormatting_drop (raw : Text) (visibleOffset : Nat) :
    stripFormatting (raw.drop (rawIndexForVisibleOffset raw visibleOffset)) =
      (stripFormatting raw).drop visibleOffset :=
  stripFrom_drop 0 visibleOffset raw

end Lurker.Chat
