import Mathlib.Data.List.Infix

/-!
# Greedy packing

A list cut into consecutive lines, each taking the next item as long as the line still fits.
Where every part of a line that fits also fits, no other way of cutting needs fewer lines.
-/

namespace Packing

variable {α : Type*} (fits : List α → Prop) [DecidablePred fits]

/-- The line under way takes the next item where it may, and is closed where it may not. -/
def pack : List α → List α → List (List α)
  | cur, [] => if cur = [] then [] else [cur]
  | cur, x :: xs =>
    if cur = [] ∨ fits (cur ++ [x]) then pack (cur ++ [x]) xs else cur :: pack [x] xs

/-- The lines of `xs`. -/
def greedy (xs : List α) : List (List α) := pack fits [] xs

variable {fits}

theorem pack_step {cur : List α} {x : α} (xs : List α) (h : cur = [] ∨ fits (cur ++ [x])) :
    pack fits cur (x :: xs) = pack fits (cur ++ [x]) xs := by
  rw [pack, if_pos h]

theorem pack_close {cur : List α} {x : α} (xs : List α) (h : ¬ (cur = [] ∨ fits (cur ++ [x]))) :
    pack fits cur (x :: xs) = cur :: pack fits [x] xs := by
  rw [pack, if_neg h]

/-- Nothing is lost, and the order stays. -/
theorem pack_flatten (cur xs : List α) : (pack fits cur xs).flatten = cur ++ xs := by
  induction xs generalizing cur with
  | nil =>
    unfold pack
    split
    · next h => simp [h]
    · simp
  | cons x xs ih =>
    by_cases h : cur = [] ∨ fits (cur ++ [x])
    · rw [pack_step xs h, ih, List.append_assoc]
      rfl
    · rw [pack_close xs h, List.flatten_cons, ih]
      rfl

theorem greedy_flatten (xs : List α) : (greedy fits xs).flatten = xs := pack_flatten [] xs

/-- What lines satisfy when a single item does, and a line that fits does. -/
theorem pack_all {p : List α → Prop} (hone : ∀ x, p [x]) (hfit : ∀ l, fits l → p l)
    {cur xs : List α} (hcur : cur = [] ∨ p cur) : ∀ l ∈ pack fits cur xs, l ≠ [] ∧ p l := by
  induction xs generalizing cur with
  | nil =>
    intro l hl
    unfold pack at hl
    split at hl
    · exact absurd hl List.not_mem_nil
    · next h =>
      rw [List.mem_singleton] at hl
      subst hl
      exact ⟨h, hcur.resolve_left h⟩
  | cons x xs ih =>
    by_cases h : cur = [] ∨ fits (cur ++ [x])
    · rw [pack_step xs h]
      apply ih
      right
      obtain rfl | h := h
      · exact hone x
      · exact hfit _ h
    · rw [pack_close xs h]
      intro l hl
      obtain rfl | hl := List.mem_cons.mp hl
      · have hne : l ≠ [] := fun hnil => h (Or.inl hnil)
        exact ⟨hne, hcur.resolve_left hne⟩
      · exact ih (Or.inr (hone x)) l hl

theorem greedy_all {p : List α → Prop} (hone : ∀ x, p [x]) (hfit : ∀ l, fits l → p l)
    (xs : List α) : ∀ l ∈ greedy fits xs, l ≠ [] ∧ p l :=
  pack_all hone hfit (Or.inl rfl)

/-- Against lines that begin with the rest `q` of a line opened at `s`: with `k` lines to spare,
or with the line under way opened no earlier than the other one. -/
theorem pack_length_le (hclosed : ∀ l l', l' <:+: l → fits l → fits l') {q : List α}
    {rest : List (List α)} (hne : ∀ l ∈ rest, l ≠ []) (hrest : ∀ l ∈ rest, fits l)
    {s cur : List α} (hfit : fits (s ++ q)) {k : ℕ} (hk : k = 0 → cur <:+ s) :
    (pack fits cur (q ++ rest.flatten)).length ≤ 1 + k + rest.length := by
  induction hxs : q ++ rest.flatten generalizing q rest s cur k with
  | nil =>
    unfold pack
    split
    · exact Nat.zero_le _
    · rw [List.length_singleton]
      omega
  | cons x xs ih =>
    cases q with
    | cons y q =>
      obtain ⟨rfl, rfl⟩ := List.cons_eq_cons.mp hxs
      have hfit' : fits ((s ++ [y]) ++ q) := by rwa [List.append_assoc, List.singleton_append]
      by_cases h : cur = [] ∨ fits (cur ++ [y])
      · rw [pack_step _ h]
        refine ih hne hrest hfit' (fun h0 => ?_) rfl
        obtain ⟨p, hp⟩ := hk h0
        exact ⟨p, by rw [← hp, List.append_assoc]⟩
      · -- the other line went on past here, so it was opened earlier
        have hk0 : k ≠ 0 := by
          intro h0
          apply h
          right
          obtain ⟨p, rfl⟩ := hk h0
          apply hclosed _ _ _ hfit
          exact ⟨p, q, by simp⟩
        have := ih (k := 0) hne hrest hfit' (fun _ => List.suffix_append s [y]) rfl
        rw [pack_close _ h, List.length_cons]
        omega
    | nil =>
      cases rest with
      | nil => exact absurd hxs (by simp)
      | cons l rest =>
        obtain ⟨y, l, rfl⟩ := List.exists_cons_of_ne_nil (hne l List.mem_cons_self)
        obtain ⟨rfl, rfl⟩ := List.cons_eq_cons.mp hxs
        have hne' : ∀ l ∈ rest, l ≠ [] := fun l hl => hne l (List.mem_cons_of_mem _ hl)
        have hrest' : ∀ l ∈ rest, fits l := fun l hl => hrest l (List.mem_cons_of_mem _ hl)
        have hfit' : fits ([y] ++ l) := hrest _ List.mem_cons_self
        rw [List.length_cons]
        by_cases h : cur = [] ∨ fits (cur ++ [y])
        · have hsome : k + 1 = 0 → cur ++ [y] <:+ [y] := fun h0 => absurd h0 k.succ_ne_zero
          have := ih hne' hrest' hfit' hsome rfl
          rw [pack_step _ h]
          omega
        · have := ih (k := 0) hne' hrest' hfit' (fun _ => List.suffix_rfl) rfl
          rw [pack_close _ h, List.length_cons]
          omega

/-- No list of lines that fit holds the same items in fewer lines. -/
theorem greedy_length_le (hclosed : ∀ l l', l' <:+: l → fits l → fits l') {lines : List (List α)}
    (hfit : ∀ l ∈ lines, fits l) : (greedy fits lines.flatten).length ≤ lines.length := by
  have hfilter : ∀ l ∈ lines.filter (! ·.isEmpty), l ≠ [] ∧ fits l := by
    intro l hl
    obtain ⟨hl, hne⟩ := List.mem_filter.mp hl
    exact ⟨by simpa using hne, hfit l hl⟩
  have hlen := List.length_filter_le (! ·.isEmpty) lines
  rw [← List.flatten_filter_not_isEmpty]
  generalize lines.filter (! ·.isEmpty) = kept at hfilter hlen ⊢
  cases kept with
  | nil => exact Nat.zero_le _
  | cons l rest =>
    have hrest : ∀ l ∈ rest, l ≠ [] ∧ fits l := fun l hl => hfilter l (List.mem_cons_of_mem _ hl)
    have := pack_length_le hclosed (q := l) (s := []) (k := 0)
      (fun l hl => (hrest l hl).1) (fun l hl => (hrest l hl).2) (hfilter l List.mem_cons_self).2
      (fun _ => List.suffix_rfl)
    rw [List.flatten_cons, greedy]
    rw [List.length_cons] at hlen
    omega

end Packing
