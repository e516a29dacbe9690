import Mathlib.Data.List.Sort
import Mathlib.Data.List.Chain

/-!
# Sorting by a comparator

A comparator answers a negative number, zero or a positive one. It is consistent on a list
when it is transitive on the list's elements: only then does a sort promise an order. What
any comparator has, consistent or not, is an arrangement of the elements in which no
neighbours are out of order.
-/

namespace Comparators

variable {α : Type*}

/-- Answers of one sign for both ways round, so that any two elements compare. -/
def Signed (cmp : α → α → Int) : Prop := ∀ a b, cmp b a = -cmp a b

/-- Transitive on the elements of a list. -/
def TransOn (cmp : α → α → Int) (l : List α) : Prop :=
  ∀ a ∈ l, ∀ b ∈ l, ∀ c ∈ l, cmp a b ≤ 0 → cmp b c ≤ 0 → cmp a c ≤ 0

/-- What a sort promises: a permutation always, an order where the comparator is one. -/
structure Sorter (α : Type*) where
  sort : (α → α → Int) → List α → List α
  perm : ∀ cmp l, (sort cmp l).Perm l
  sorted : ∀ cmp l, Signed cmp → TransOn cmp l → (sort cmp l).Pairwise fun a b => cmp a b ≤ 0

theorem Signed.total {cmp : α → α → Int} (h : Signed cmp) (a b : α) : cmp a b ≤ 0 ∨ cmp b a ≤ 0 := by
  have := h a b
  omega

theorem TransOn.subset {cmp : α → α → Int} {l l' : List α} (h : TransOn cmp l) (hsub : l' ⊆ l) :
    TransOn cmp l' :=
  fun a ha b hb c hc => h a (hsub ha) b (hsub hb) c (hsub hc)

/-- The merge sort of the library, on the elements of a list alone. -/
theorem mergeSort_sorted {cmp : α → α → Int} {l : List α} (hsigned : Signed cmp)
    (htrans : TransOn cmp l) :
    (l.mergeSort fun a b => decide (cmp a b ≤ 0)).Pairwise fun a b => cmp a b ≤ 0 := by
  have hmap : (l.attach.mergeSort fun a b => decide (cmp a.1 b.1 ≤ 0)).map Subtype.val =
      l.mergeSort fun a b => decide (cmp a b ≤ 0) := by
    have hsame := List.map_mergeSort (r := fun a b => decide (cmp a.1 b.1 ≤ 0))
      (s := fun a b => decide (cmp a b ≤ 0)) (f := Subtype.val) (l := l.attach)
      fun _ _ _ _ => rfl
    rwa [List.attach_map_subtype_val] at hsame
  rw [← hmap, List.pairwise_map]
  have hsorted := @List.pairwise_mergeSort { x // x ∈ l } (fun a b => decide (cmp a.1 b.1 ≤ 0))
    ?_ ?_ l.attach
  · exact hsorted.imp of_decide_eq_true
  · intro a b c hab hbc
    exact decide_eq_true
      (htrans a.1 a.2 b.1 b.2 c.1 c.2 (of_decide_eq_true hab) (of_decide_eq_true hbc))
  · intro a b
    rw [Bool.or_eq_true, decide_eq_true_iff, decide_eq_true_iff]
    exact hsigned.total a.1 b.1

def mergeSorter (α : Type*) : Sorter α where
  sort cmp l := l.mergeSort fun a b => decide (cmp a b ≤ 0)
  perm _ l := List.mergeSort_perm l _
  sorted _ _ hsigned htrans := mergeSort_sorted hsigned htrans

/-- No neighbour stands before one that compares less. -/
def inOrder (cmp : α → α → Int) : List α → Bool
  | a :: b :: rest => decide (cmp a b ≤ 0) && inOrder cmp (b :: rest)
  | _ => true

theorem inOrder_cons_cons {cmp : α → α → Int} {a b : α} {rest : List α} :
    inOrder cmp (a :: b :: rest) = true ↔ cmp a b ≤ 0 ∧ inOrder cmp (b :: rest) = true := by
  rw [inOrder, Bool.and_eq_true, decide_eq_true_iff]

theorem inOrder_of_pairwise {cmp : α → α → Int} {l : List α}
    (h : l.Pairwise fun a b => cmp a b ≤ 0) : inOrder cmp l = true := by
  induction l with
  | nil => rfl
  | cons a rest ih =>
    cases rest with
    | nil => rfl
    | cons b rest =>
      obtain ⟨ha, hrest⟩ := List.pairwise_cons.mp h
      exact inOrder_cons_cons.mpr ⟨ha b List.mem_cons_self, ih hrest⟩

/-- Where the comparator is transitive, neighbours in order are all in order. -/
theorem pairwise_of_inOrder {cmp : α → α → Int} {l : List α} (htrans : TransOn cmp l)
    (h : inOrder cmp l = true) : l.Pairwise fun a b => cmp a b ≤ 0 := by
  induction l with
  | nil => exact List.Pairwise.nil
  | cons a rest ih =>
    cases rest with
    | nil => exact List.pairwise_singleton ..
    | cons b rest =>
      obtain ⟨hab, hrest⟩ := inOrder_cons_cons.mp h
      have hsorted := ih (htrans.subset (List.subset_cons_self ..)) hrest
      refine List.pairwise_cons.mpr ⟨fun c hc => ?_, hsorted⟩
      rcases List.mem_cons.mp hc with rfl | hc
      · exact hab
      · have hbc := (List.pairwise_cons.mp hsorted).1 c hc
        exact htrans a List.mem_cons_self b (by simp) c (by simp [hc]) hab hbc

/-- An element put before the first it does not exceed. -/
def insertBefore (cmp : α → α → Int) (x : α) : List α → List α
  | [] => [x]
  | a :: rest => if cmp x a ≤ 0 then x :: a :: rest else a :: insertBefore cmp x rest

theorem insertBefore_perm (cmp : α → α → Int) (x : α) (l : List α) :
    (insertBefore cmp x l).Perm (x :: l) := by
  induction l with
  | nil => exact List.Perm.refl _
  | cons a rest ih =>
    unfold insertBefore
    split
    · exact List.Perm.refl _
    · exact (ih.cons a).trans (List.Perm.swap ..)

theorem sublist_insertBefore (cmp : α → α → Int) (x : α) (l : List α) :
    l.Sublist (insertBefore cmp x l) := by
  induction l with
  | nil => exact List.nil_sublist _
  | cons a rest ih =>
    unfold insertBefore
    split
    · exact List.sublist_cons_self ..
    · exact ih.cons_cons a

/-- No order is needed: before the place there is an element that does not exceed the new one. -/
theorem inOrder_insertBefore {cmp : α → α → Int} (hsigned : Signed cmp) (x : α) {l : List α}
    (h : inOrder cmp l = true) : inOrder cmp (insertBefore cmp x l) = true := by
  induction l with
  | nil => rfl
  | cons a rest ih =>
    unfold insertBefore
    split
    · rename_i hx
      exact inOrder_cons_cons.mpr ⟨hx, h⟩
    · rename_i hx
      have hax : cmp a x ≤ 0 := (hsigned.total a x).resolve_right hx
      cases rest with
      | nil => exact inOrder_cons_cons.mpr ⟨hax, rfl⟩
      | cons b rest =>
        obtain ⟨hab, hrest⟩ := inOrder_cons_cons.mp h
        have hin := ih hrest
        unfold insertBefore at hin ⊢
        split at hin
        · rename_i hxb
          rw [if_pos hxb]
          exact inOrder_cons_cons.mpr ⟨hax, hin⟩
        · rename_i hxb
          rw [if_neg hxb]
          exact inOrder_cons_cons.mpr ⟨hab, hin⟩

/-- Elements in order among their neighbours stay so, with any others placed between them. -/
theorem exists_inOrder {cmp : α → α → Int} (hsigned : Signed cmp) {chain : List α}
    (h : inOrder cmp chain = true) (others : List α) :
    ∃ l, l.Perm (others ++ chain) ∧ chain.Sublist l ∧ inOrder cmp l = true := by
  induction others with
  | nil => exact ⟨chain, List.Perm.refl _, List.Sublist.refl _, h⟩
  | cons x others ih =>
    obtain ⟨l, hperm, hsub, hin⟩ := ih
    exact ⟨insertBefore cmp x l, (insertBefore_perm cmp x l).trans (hperm.cons x),
      hsub.trans (sublist_insertBefore cmp x l), inOrder_insertBefore hsigned x hin⟩

end Comparators
