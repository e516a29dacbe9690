import Mathlib.Data.List.DropRight

/-!
# Trimming

What a predicate holds of, taken off the end of a list or off both ends.
-/

namespace Trim

variable {α : Type*} (p : α → Bool)

def trimEnd (l : List α) : List α := l.rdropWhile p

def trim (l : List α) : List α := trimEnd p (l.dropWhile p)

/-- Nothing to take off at either end. -/
structure Trimmed (l : List α) : Prop where
  head : ∀ a, l.head? = some a → p a = false
  last : ∀ a, l.getLast? = some a → p a = false

variable {p}

theorem trimEnd_prefix (l : List α) : trimEnd p l <+: l := List.rdropWhile_prefix p l

theorem trim_subset (l : List α) : trim p l ⊆ l := fun _ ha =>
  (List.dropWhile_suffix p).subset (( trimEnd_prefix _).subset ha)

theorem last_trimEnd {l : List α} {a : α} (h : (trimEnd p l).getLast? = some a) : p a = false := by
  cases hne : trimEnd p l with
  | nil =>
    rw [hne] at h
    cases h
  | cons b rest =>
    have hnot := List.rdropWhile_last_not p l (by rw [← trimEnd, hne]; exact List.cons_ne_nil _ _)
    rw [List.getLast?_eq_some_getLast (by rw [hne]; exact List.cons_ne_nil _ _)] at h
    cases h
    exact Bool.eq_false_iff.mpr hnot

theorem trimEnd_eq_self {l : List α} (h : ∀ a, l.getLast? = some a → p a = false) :
    trimEnd p l = l := by
  refine List.rdropWhile_eq_self_iff.mpr fun hne => ?_
  rw [h _ (List.getLast?_eq_some_getLast hne)]
  exact Bool.false_ne_true

/-- The first element stays when it is none to take off. -/
theorem head_trimEnd {l : List α} {a : α} (hl : l.head? = some a) (ha : p a = false) :
    (trimEnd p l).head? = some a := by
  obtain ⟨rest, rfl⟩ := List.head?_eq_some_iff.mp hl
  cases hkept : trimEnd p (a :: rest) with
  | nil =>
    have hall := List.rdropWhile_eq_nil_iff.mp hkept a List.mem_cons_self
    rw [ha] at hall
    cases hall
  | cons b kept =>
    obtain ⟨suffix, hsuffix⟩ := trimEnd_prefix (p := p) (a :: rest)
    rw [hkept] at hsuffix
    exact congrArg some (List.cons_eq_cons.mp hsuffix).1

theorem trimmed_trim (l : List α) : Trimmed p (trim p l) := by
  refine ⟨fun a ha => ?_, fun a ha => last_trimEnd ha⟩
  cases hdropped : l.dropWhile p with
  | nil =>
    rw [trim, hdropped] at ha
    cases ha
  | cons b rest =>
    have hb : p b = false := by
      have hnot := List.head?_dropWhile_not p l
      rw [hdropped] at hnot
      exact hnot
    have hhead : (trim p l).head? = some b := by
      rw [trim, hdropped]
      exact head_trimEnd rfl hb
    cases hhead.symm.trans ha
    exact hb

theorem trim_eq_self {l : List α} (h : Trimmed p l) : trim p l = l := by
  have hdrop : l.dropWhile p = l := by
    cases l with
    | nil => rfl
    | cons a rest =>
      rw [List.dropWhile_cons, h.head a rfl]
      rfl
  rw [trim, hdrop, trimEnd_eq_self h.last]

end Trim
