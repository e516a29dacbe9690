import Mathlib.Algebra.GroupWithZero.Nat
import Mathlib.Data.List.Basic

/-!
# Case folding of names

The folds of a network's `CASEMAPPING`. The three ASCII-based ones fold what lies
between `A` and a bound by 32; the others are `String.prototype.toLowerCase`,
which is taken as it is.
-/

namespace Lurker.Irc

abbrev Str := List Char

theorem str_lawfulBEq : LawfulBEq Str := inferInstance

/-- Bytes of UTF-8. -/
def byteLength (s : Str) : Nat := (s.map Char.utf8Size).sum

@[simp] theorem byteLength_nil : byteLength [] = 0 := rfl

@[simp] theorem byteLength_cons (c : Char) (s : Str) :
    byteLength (c :: s) = c.utf8Size + byteLength s := by
  simp [byteLength]

@[simp] theorem byteLength_append (s t : Str) :
    byteLength (s ++ t) = byteLength s + byteLength t := by
  simp [byteLength]

/-- The CASEMAPPING values that are understood. -/
inductive Casemapping where
  | ascii
  | rfc1459
  | rfc1459Strict
  | rfc7613
  deriving DecidableEq, Repr

/-- Fold-to-lowercase upper bounds. -/
def upperBound : Casemapping → Nat
  | .ascii => 90
  | .rfc1459Strict => 93
  | .rfc1459 => 94
  | .rfc7613 => 0

/-- One character under a bound: `A` up to the bound moves down by 32. -/
def foldChar (bound : Nat) (c : Char) : Char :=
  if 65 ≤ c.toNat ∧ c.toNat ≤ bound then Char.ofNat (c.toNat + 32) else c

-- `toLowerCase` of the platform
variable (lower : Str → Str)

/-- Fold a target to lowercase under a mapping; none declared is the legacy rule. -/
def foldTargetWith (mapping : Option Casemapping) (target : Str) : Str :=
  match mapping with
  | none | some .rfc7613 => lower target
  | some mapping => target.map (foldChar (upperBound mapping))

/-- Upper-casing the ASCII letters leaves everything else alone. -/
theorem toUpper_eq (c : Char) : c.toUpper = c ∨ c.toNat < 128 := by
  delta Char.toUpper
  split
  · rename_i h
    refine .inr ?_
    have := UInt32.le_iff_toNat_le.mp h.2
    have hz : ('z' : Char).val.toNat = 122 := by decide
    change c.val.toNat < 128
    omega
  · exact .inl rfl

end Lurker.Irc
