import Mathlib.Data.List.Induction
import Mathlib.Data.List.Nodup
import Mathlib.Data.List.Perm.Subperm
import Mathlib.Order.Lattice

/-!
# Ranks in an ascending list

The element a number of places from the end of an ascending list, by how many elements
there are from it up, and what a statement with a limit may pick.
-/

namespace Ranks

variable {α : Type*} [LinearOrder α]

/-- How many elements there are from one up. -/
def countFrom (l : List α) (a : α) : Nat := (l.filter fun b => decide (a ≤ b)).length

/-- The element so many places from the end. -/
def fromEnd (l : List α) (n : Nat) : Option α := l.reverse[n]?

theorem countFrom_append (l l' : List α) (a : α) :
    countFrom (l ++ l') a = countFrom l a + countFrom l' a := by
  simp [countFrom]

theorem countFrom_le_length (l : List α) (a : α) : countFrom l a ≤ l.length :=
  List.length_filter_le _ _

theorem countFrom_sublist {l l' : List α} (h : l.Sublist l') (a : α) :
    countFrom l a ≤ countFrom l' a :=
  (h.filter _).length_le

/-- From an element on there are more than from anything above it. -/
theorem countFrom_lt {l : List α} {a b : α} (h : a ∈ l) (hab : a < b) :
    countFrom l b < countFrom l a := by
  have hsub : ((l.filter fun c => decide (b ≤ c))).Sublist (l.filter fun c => decide (a ≤ c)) := by
    refine List.monotone_filter_right l fun c hc => ?_
    exact decide_eq_true (hab.le.trans (of_decide_eq_true hc))
  refine lt_of_le_of_ne hsub.length_le fun heq => ?_
  have hsame := hsub.eq_of_length heq
  have hmem : a ∈ l.filter fun c => decide (b ≤ c) := by
    rw [hsame]
    exact List.mem_filter.mpr ⟨h, decide_eq_true le_rfl⟩
  exact absurd (of_decide_eq_true (List.mem_filter.mp hmem).2) (not_le.mpr hab)

theorem countFrom_anti (l : List α) {a b : α} (h : a ≤ b) : countFrom l b ≤ countFrom l a := by
  refine (List.monotone_filter_right l fun c hc => ?_).length_le
  exact decide_eq_true (h.trans (of_decide_eq_true hc))

omit [LinearOrder α] in
theorem fromEnd_eq_none {l : List α} {n : Nat} : fromEnd l n = none ↔ l.length ≤ n := by
  simp [fromEnd]

/-- From the element `n` places from the end of an ascending list there are `n + 1`. -/
theorem fromEnd_spec {l : List α} (hl : l.Pairwise (· < ·)) {n : Nat} {a : α}
    (h : fromEnd l n = some a) : a ∈ l ∧ countFrom l a = n + 1 := by
  induction l using List.reverseRecOn generalizing n with
  | nil => simp [fromEnd] at h
  | append_singleton l b ih =>
    obtain ⟨hl, -, hlast⟩ := List.pairwise_append.mp hl
    have hlast (c : α) (hc : c ∈ l) : c < b := hlast c hc b (List.mem_singleton_self b)
    unfold fromEnd at h
    rw [List.reverse_append, List.reverse_singleton, List.singleton_append] at h
    cases n with
    | zero =>
      obtain rfl := Option.some.inj h
      refine ⟨by simp, ?_⟩
      rw [countFrom_append]
      have hnone : countFrom l b = 0 := by
        unfold countFrom
        rw [List.length_eq_zero_iff, List.filter_eq_nil_iff]
        intro c hc hle
        exact absurd (of_decide_eq_true hle) (not_le.mpr (hlast c hc))
      rw [hnone]
      simp [countFrom]
    | succ n =>
      rw [List.getElem?_cons_succ] at h
      obtain ⟨hmem, hcount⟩ := ih hl h
      refine ⟨List.mem_append_left _ hmem, ?_⟩
      rw [countFrom_append, hcount]
      have hle : a ≤ b := (hlast a hmem).le
      simp [countFrom, hle]

/-- Where there are enough elements from some place up, the one found is not below it. -/
theorem fromEnd_of_countFrom {l : List α} (hl : l.Pairwise (· < ·)) {n : Nat} {a : α}
    (h : n < countFrom l a) : ∃ b, fromEnd l n = some b ∧ a ≤ b := by
  cases hb : fromEnd l n with
  | none =>
    have hlen := fromEnd_eq_none.mp hb
    have hle := countFrom_le_length l a
    omega
  | some b =>
    refine ⟨b, rfl, not_lt.mp fun hlt => ?_⟩
    obtain ⟨hmem, hcount⟩ := fromEnd_spec hl hb
    have := countFrom_lt hmem hlt
    omega

/-- The element with so many from it up is the one found. -/
theorem fromEnd_of_mem {l : List α} (hl : l.Pairwise (· < ·)) {n : Nat} {a : α} (ha : a ∈ l)
    (h : countFrom l a = n + 1) : fromEnd l n = some a := by
  obtain ⟨b, hb, hab⟩ := fromEnd_of_countFrom hl (n := n) (a := a) (by omega)
  obtain ⟨-, hcount⟩ := fromEnd_spec hl hb
  rcases hab.lt_or_eq with hlt | rfl
  · have := countFrom_lt ha hlt
    omega
  · exact hb

end Ranks

namespace Limit

variable {α : Type*}

/-- What a statement with a limit may pick of its candidates, in no order of its own. -/
def Picks (candidates : List α) (limit : Nat) (picked : List α) : Prop :=
  picked.Nodup ∧ (∀ a ∈ picked, a ∈ candidates) ∧ picked.length = min limit candidates.length

instance [DecidableEq α] (candidates : List α) (limit : Nat) (picked : List α) :
    Decidable (Picks candidates limit picked) :=
  inferInstanceAs (Decidable (_ ∧ _ ∧ _))

/-- A pick below its limit takes every candidate. -/
theorem picks_all {candidates picked : List α} {limit : Nat}
    (h : Picks candidates limit picked) (hshort : picked.length < limit) :
    ∀ a ∈ candidates, a ∈ picked := by
  obtain ⟨hpicked, hsub, hlen⟩ := h
  have hperm := (List.subperm_of_subset hpicked hsub).perm_of_length_le (by omega)
  exact fun a ha => hperm.mem_iff.mpr ha

end Limit
