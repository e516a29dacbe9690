import Mathlib.Data.List.Basic

/-!
# Lines of a stream

A stream of lines, each ended by a delimiter that none has inside, and where a cut through
such a stream falls: after some whole lines, and inside the next.
-/

namespace Delimited

variable {α : Type*} (d : α)

/-- Lines with their delimiters. -/
def join (ls : List (List α)) : List α := ls.flatMap fun l => l ++ [d]

@[simp] theorem join_nil : join d [] = [] := rfl

@[simp] theorem join_cons (l : List α) (ls : List (List α)) :
    join d (l :: ls) = l ++ d :: join d ls := by
  simp [join]

variable {d}

/-- A cut leaves some whole lines before it, and less than a line's delimiter of the next. -/
theorem cut {ls : List (List α)} (hls : ∀ l ∈ ls, d ∉ l) {s t : List α} (h : s ++ t = join d ls) :
    ∃ before after rest, ls = before ++ after ∧ s = join d before ++ rest ∧
      rest ++ t = join d after ∧ d ∉ rest ∧ (rest = [] ∨ ∃ l ∈ ls, rest <+: l) := by
  induction ls generalizing s with
  | nil =>
    obtain ⟨rfl, rfl⟩ := List.append_eq_nil_iff.mp h
    exact ⟨[], [], [], rfl, rfl, rfl, List.not_mem_nil, Or.inl rfl⟩
  | cons l ls ih =>
    have hl := hls l List.mem_cons_self
    rw [join_cons] at h
    obtain ⟨p, hp, -⟩ | ⟨p, rfl, hp⟩ := List.append_eq_append_iff.mp h
    · -- the cut is inside the first line
      refine ⟨[], l :: ls, s, rfl, rfl, by rw [join_cons, h], fun hin => hl ?_, Or.inr ⟨l, ?_, p, ?_⟩⟩
      · rw [hp]
        exact List.mem_append_left p hin
      · exact List.mem_cons_self
      · exact hp.symm
    · cases p with
      | nil =>
        -- between the first line and its delimiter
        refine ⟨[], l :: ls, l, rfl, by simp, ?_, hl, Or.inr ⟨l, List.mem_cons_self, List.prefix_rfl⟩⟩
        rw [join_cons, hp]
        rfl
      | cons a p =>
        obtain ⟨rfl, hrest⟩ := List.cons_eq_cons.mp hp
        obtain ⟨before, after, rest, rfl, rfl, hafter, hfree, hshort⟩ :=
          ih (fun l' hl' => hls l' (List.mem_cons_of_mem _ hl')) hrest.symm
        refine ⟨l :: before, after, rest, rfl, by simp, hafter, hfree, hshort.imp id ?_⟩
        exact fun ⟨l', hl', hpre⟩ => ⟨l', List.mem_cons_of_mem _ hl', hpre⟩

/-- A piece between separators has none, and is of the text. -/
theorem of_mem_splitOnP {p : α → Bool} {s w : List α} (h : w ∈ s.splitOnP p) :
    (∀ a ∈ w, p a = false) ∧ w ⊆ s := by
  induction s generalizing w with
  | nil =>
    rw [List.splitOnP_nil, List.mem_singleton] at h
    subst h
    exact ⟨fun a ha => (by cases ha), List.nil_subset _⟩
  | cons c s ih =>
    rw [List.splitOnP_cons_eq_if_modifyHead] at h
    split at h
    · rcases List.mem_cons.mp h with rfl | h
      · exact ⟨fun a ha => (by cases ha), List.nil_subset _⟩
      · exact ⟨(ih h).1, List.Subset.trans (ih h).2 (List.subset_cons_self c s)⟩
    · rename_i hc
      cases hs : s.splitOnP p with
      | nil => exact absurd hs (List.splitOnP_ne_nil _ _)
      | cons first rest =>
        rw [hs, List.modifyHead_cons] at h
        rcases List.mem_cons.mp h with rfl | h
        · obtain ⟨hsep, hsub⟩ := ih (hs ▸ List.mem_cons_self)
          refine ⟨fun a ha => ?_, List.cons_subset_cons c hsub⟩
          rcases List.mem_cons.mp ha with rfl | ha
          · exact Bool.eq_false_iff.mpr hc
          · exact hsep a ha
        · obtain ⟨hsep, hsub⟩ := ih (hs ▸ List.mem_cons_of_mem _ h)
          exact ⟨hsep, List.Subset.trans hsub (List.subset_cons_self c s)⟩

theorem of_mem_splitOn [BEq α] [LawfulBEq α] {s w : List α} (h : w ∈ s.splitOn d) :
    d ∉ w ∧ w ⊆ s := by
  rw [List.splitOn_eq_splitOnP] at h
  obtain ⟨hsep, hsub⟩ := of_mem_splitOnP h
  exact ⟨fun hd => absurd (hsep d hd) (by simp), hsub⟩

end Delimited
