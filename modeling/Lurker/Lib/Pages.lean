import Mathlib.Data.List.Sort
import Mathlib.Data.Finset.Card
import Mathlib.Order.Basic

/-!
# Paging through a list

The first so many of a list in the order of a key, and a reader that asks for them page
by page, each time from the furthest point the last page reached. The point does not tell
every entry from every other, so what a full page cut off at its own furthest point is
what such a reader never sees.
-/

namespace Pages

variable {α β κ τ : Type*} [LinearOrder κ]

/-- The first `n` of a list in the order of a key. -/
structure IsFirst (key : α → κ) (n : Nat) (all first : List α) : Prop where
  ascends : first.Pairwise (key · < key ·)
  sub : ∀ a ∈ first, a ∈ all
  fits : first.length ≤ n
  rest : ∀ a ∈ all, a ∉ first → first.length = n ∧ ∀ b ∈ first, key b < key a

theorem pairwise_take {r : α → α → Prop} {l : List α} (h : l.Pairwise r) (n : Nat) :
    ∀ a ∈ l.take n, ∀ b ∈ l, b ∉ l.take n → r a b := by
  intro a ha b hb hnot
  rw [← List.take_append_drop n l] at h hb
  have hdrop : b ∈ l.drop n := (List.mem_append.mp hb).resolve_left hnot
  exact (List.pairwise_append.mp h).2.2 a ha b hdrop

theorem length_take_of_not_mem {l : List α} {n : Nat} {a : α} (ha : a ∈ l) (hnot : a ∉ l.take n) :
    (l.take n).length = n := by
  rw [List.length_take]
  refine Nat.min_eq_left (not_lt.mp fun hlt => hnot ?_)
  rwa [List.take_of_length_le hlt.le]

/-- Cutting a list in order to `n` takes its first `n`. -/
theorem isFirst_take {key : α → κ} {all sorted : List α} (n : Nat)
    (hsorted : sorted.Pairwise (key · < key ·)) (hmem : ∀ a, a ∈ sorted ↔ a ∈ all) :
    IsFirst key n all (sorted.take n) where
  ascends := hsorted.sublist (List.take_sublist n _)
  sub := fun a ha => (hmem a).mp (List.mem_of_mem_take ha)
  fits := by
    rw [List.length_take]
    exact Nat.min_le_left _ _
  rest := by
    intro a ha hnot
    have hin := (hmem a).mpr ha
    exact ⟨length_take_of_not_mem hin hnot, fun b hb => pairwise_take hsorted n b hb a hin hnot⟩

/-- Sorting by a key that tells entries apart leaves them strictly in order. -/
theorem pairwise_lt_sorted {key : α → κ} {all : List α} (hall : (all.map key).Nodup) :
    (all.insertionSort (key · ≤ key ·)).Pairwise (key · < key ·) := by
  have hle : (all.insertionSort (key · ≤ key ·)).Pairwise (key · ≤ key ·) := by
    have : Std.Total (key · ≤ key · : α → α → Prop) := ⟨fun a b => le_total (key a) (key b)⟩
    have : IsTrans α (key · ≤ key ·) := ⟨fun a b c => le_trans⟩
    exact List.pairwise_insertionSort _ _
  have hne : (all.insertionSort (key · ≤ key ·)).Pairwise (key · ≠ key ·) :=
    List.pairwise_map.mp (((List.perm_insertionSort _ _).map key).nodup_iff.mpr hall)
  exact (hle.and hne).imp fun h => lt_of_le_of_ne h.1 h.2

theorem IsFirst.map {key : β → κ} {f : α → β} {n : Nat} {all first : List α}
    (h : IsFirst (fun a => key (f a)) n all first) :
    IsFirst key n (all.map f) (first.map f) where
  ascends := List.pairwise_map.mpr h.ascends
  sub := fun _ hb => by
    obtain ⟨a, ha, rfl⟩ := List.mem_map.mp hb
    exact List.mem_map_of_mem (h.sub a ha)
  fits := by
    rw [List.length_map]
    exact h.fits
  rest := by
    intro b hb hnot
    obtain ⟨a, ha, rfl⟩ := List.mem_map.mp hb
    obtain ⟨hfull, hbelow⟩ := h.rest a ha fun hin => hnot (List.mem_map_of_mem hin)
    refine ⟨by rw [List.length_map, hfull], fun c hc => ?_⟩
    obtain ⟨d, hd, rfl⟩ := List.mem_map.mp hc
    exact hbelow d hd

theorem IsFirst.nodup {key : α → κ} {n : Nat} {all first : List α} (h : IsFirst key n all first) :
    first.Nodup :=
  h.ascends.imp fun hlt => ne_of_apply_ne key hlt.ne

/-- A page below its limit holds everything. -/
theorem IsFirst.all_of_short {key : α → κ} {n : Nat} {all first : List α}
    (h : IsFirst key n all first) (hshort : first.length < n) : ∀ a ∈ all, a ∈ first := by
  intro a ha
  by_contra hnot
  have := (h.rest a ha hnot).1
  omega

/-- What one answer holds the other holds: an entry it lacked would come after all of it. -/
theorem IsFirst.subset {key : α → κ} {n : Nat} {all xs ys : List α} (hx : IsFirst key n all xs)
    (hy : IsFirst key n all ys) : xs ⊆ ys := by
  intro a ha
  by_contra hnot
  obtain ⟨hfull, hbelow⟩ := hy.rest a (hx.sub a ha) hnot
  have hmiss : ¬ ys ⊆ xs := fun hsub => by
    have hnodup : (a :: ys).Nodup := List.nodup_cons.mpr ⟨hnot, hy.nodup⟩
    have hle := (List.subperm_of_subset hnodup (List.cons_subset.mpr ⟨ha, hsub⟩)).length_le
    have hfits := hx.fits
    rw [List.length_cons] at hle
    omega
  obtain ⟨b, hb, hbx⟩ : ∃ b ∈ ys, b ∉ xs := by
    simpa only [List.subset_def, not_forall, exists_prop] using hmiss
  exact lt_asymm (hbelow b hb) ((hx.rest b (hy.sub b hb) hbx).2 a ha)

/-- The first `n` of a list are one list. -/
theorem IsFirst.unique {key : α → κ} {n : Nat} {all xs ys : List α} (hx : IsFirst key n all xs)
    (hy : IsFirst key n all ys) : xs = ys := by
  refine List.Perm.eq_of_pairwise ?_ hx.ascends hy.ascends
    ((List.perm_ext_iff_of_nodup hx.nodup hy.nodup).mpr fun a =>
      ⟨fun ha => hx.subset hy ha, fun ha => hy.subset hx ha⟩)
  exact fun a b _ _ hab hba => (lt_asymm hab hba).elim

/-- An entry that so many others come before does not stand among the first. -/
theorem not_mem_take_of_before {key : α → κ} {l before : List α} {n : Nat}
    (hl : l.Pairwise (key · < key ·)) (hbefore : before.Nodup) (hsub : ∀ b ∈ before, b ∈ l)
    (hn : n ≤ before.length) {a : α} (ha : ∀ b ∈ before, key b < key a) : a ∉ l.take n := by
  intro hin
  have htake : ∀ b ∈ before, b ∈ l.take n := by
    intro b hb
    by_contra hnot
    exact lt_asymm (ha b hb) (pairwise_take hl n a hin b (hsub b hb) hnot)
  have hnodup : (a :: before).Nodup := by
    refine List.nodup_cons.mpr ⟨fun hmem => ?_, hbefore⟩
    exact lt_irrefl _ (ha a hmem)
  have hle := (List.subperm_of_subset hnodup fun b hb => by
    rcases List.mem_cons.mp hb with rfl | hb
    exacts [hin, htake b hb]).length_le
  rw [List.length_cons, List.length_take] at hle
  omega

/-- The first `n` of two lists together are the first `n` of what is first in each. -/
theorem IsFirst.append {key : α → κ} {n : Nat} {xs ys xs' ys' sorted : List α}
    (hx : IsFirst key n xs xs') (hy : IsFirst key n ys ys')
    (hsorted : sorted.Pairwise (key · < key ·)) (hperm : sorted.Perm (xs' ++ ys')) :
    IsFirst key n (xs ++ ys) (sorted.take n) := by
  have hmem : ∀ a, a ∈ sorted ↔ a ∈ xs' ∨ a ∈ ys' := fun a => by
    rw [hperm.mem_iff, List.mem_append]
  have hcut := isFirst_take n hsorted fun _ => Iff.rfl
  -- an entry neither page holds comes after a whole page, so after every entry of the cut
  have hleft : ∀ (zs : List α), zs.Nodup → (∀ b ∈ zs, b ∈ sorted) → zs.length = n →
      ∀ a, (∀ b ∈ zs, key b < key a) →
      (sorted.take n).length = n ∧ ∀ b ∈ sorted.take n, key b < key a := by
    intro zs hzs hsub hlen a ha
    refine ⟨?_, fun b hb => ?_⟩
    · have hle := (List.subperm_of_subset hzs hsub).length_le
      rw [List.length_take]
      omega
    · by_contra hnot
      refine not_mem_take_of_before hsorted hzs hsub hlen.ge (a := b) (fun c hc => ?_) hb
      exact (ha c hc).trans_le (not_lt.mp hnot)
  refine ⟨hcut.ascends, fun a ha => ?_, hcut.fits, fun a ha hnot => ?_⟩
  · rcases (hmem a).mp (hcut.sub a ha) with h | h
    exacts [List.mem_append_left _ (hx.sub a h), List.mem_append_right _ (hy.sub a h)]
  · by_cases hin : a ∈ sorted
    · exact hcut.rest a hin hnot
    · rw [hmem, not_or] at hin
      rcases List.mem_append.mp ha with h | h
      · obtain ⟨hlen, hbelow⟩ := hx.rest a h hin.1
        exact hleft xs' hx.nodup (fun b hb => (hmem b).mpr (Or.inl hb)) hlen a hbelow
      · obtain ⟨hlen, hbelow⟩ := hy.rest a h hin.2
        exact hleft ys' hy.nodup (fun b hb => (hmem b).mpr (Or.inr hb)) hlen a hbelow

/-- Merging two lists in order, by a comparison that agrees with the key across them. -/
theorem pairwise_lt_merge {key : α → κ} {le : α → α → Bool} {xs ys : List α}
    (hx : xs.Pairwise (key · < key ·)) (hy : ys.Pairwise (key · < key ·))
    (hle : ∀ x ∈ xs, ∀ y ∈ ys, if le x y then key x < key y else key y < key x) :
    (List.merge xs ys le).Pairwise (key · < key ·) := by
  induction xs generalizing ys with
  | nil => simpa using hy
  | cons x xs ihx =>
    induction ys with
    | nil => simpa using hx
    | cons y ys ihy =>
      have hxy := hle x (List.mem_cons_self ..) y (List.mem_cons_self ..)
      obtain ⟨hxxs, hxs⟩ := List.pairwise_cons.mp hx
      obtain ⟨hyys, hys⟩ := List.pairwise_cons.mp hy
      rw [List.cons_merge_cons]
      split at hxy
      · rename_i hcmp
        rw [if_pos hcmp]
        refine List.pairwise_cons.mpr ⟨fun b hb => ?_, ?_⟩
        · rcases List.mem_merge.mp hb with hb | hb
          · exact hxxs b hb
          · rcases List.mem_cons.mp hb with rfl | hb
            exacts [hxy, hxy.trans (hyys b hb)]
        · exact ihx hxs hy fun a ha => hle a (List.mem_cons_of_mem _ ha)
      · rename_i hcmp
        rw [if_neg hcmp]
        refine List.pairwise_cons.mpr ⟨fun b hb => ?_, ?_⟩
        · rcases List.mem_merge.mp hb with hb | hb
          · rcases List.mem_cons.mp hb with rfl | hb
            exacts [hxy, hxy.trans (hxxs b hb)]
          · exact hyys b hb
        · exact ihy hys fun a ha b hb => hle a ha b (List.mem_cons_of_mem _ hb)

section Reader

variable [LinearOrder τ] {π : Type*}

/-- What lies past a point: everything, when there is none. -/
def past (time : α → τ) (bound : Option τ) (all : List α) : List α :=
  all.filter fun a => bound.all fun t => decide (t < time a)

/-- A reader: it asks past a point, and while its page is full, past the furthest point the
page reached. None when it runs out of fuel. -/
def readPages (ask : Option τ → π) (size : π → Nat) (furthest : π → Option τ) (n : Nat) :
    Nat → Option τ → Option (List π)
  | 0, _ => none
  | fuel + 1, bound =>
    let page := ask bound
    if size page < n then some [page]
    else
      match furthest page with
      | none => some [page]
      | some t => (readPages ask size furthest n fuel (some t)).map (page :: ·)

variable {key : α → κ} {time : α → τ} {n : Nat} {all : List α} {ask : Option τ → π}
  {rows : π → List α} {furthest : π → Option τ}

/-- The answers are first pages of what lies past the point, and the reader can tell the
furthest point of a page. -/
structure Serves (key : α → κ) (time : α → τ) (n : Nat) (all : List α) (ask : Option τ → π)
    (rows : π → List α) (furthest : π → Option τ) : Prop where
  pos : 1 ≤ n
  mono : ∀ a b, key a < key b → time a ≤ time b
  first : ∀ bound, IsFirst key n (past time bound all) (rows (ask bound))
  furthest : ∀ bound, rows (ask bound) ≠ [] → ∃ a ∈ rows (ask bound),
    furthest (ask bound) = some (time a) ∧ ∀ b ∈ rows (ask bound), time b ≤ time a

/-- An entry that a full page cut off at its own furthest point. -/
def CutOff (time : α → τ) (n : Nat) (rows : π → List α) (furthest : π → Option τ) (pages : List π)
    (a : α) : Prop :=
  ∃ page ∈ pages, (rows page).length = n ∧ furthest page = some (time a) ∧ a ∉ rows page

/-- A full page reaches some point. -/
theorem Serves.furthest_of_full (hserves : Serves key time n all ask rows furthest)
    {bound : Option τ} (hfull : ¬ (rows (ask bound)).length < n) : ∃ a ∈ rows (ask bound),
    furthest (ask bound) = some (time a) ∧ ∀ b ∈ rows (ask bound), time b ≤ time a := by
  apply hserves.furthest bound
  intro hnil
  rw [hnil, List.length_nil] at hfull
  exact hfull hserves.pos

theorem mem_past {bound : Option τ} {a : α} :
    a ∈ past time bound all ↔ a ∈ all ∧ ∀ t, bound = some t → t < time a := by
  cases bound <;> simp [past]

/-- What a reader does with its first answer. -/
theorem readPages_cases (hserves : Serves key time n all ask rows furthest) {fuel : Nat}
    {bound : Option τ} {pages : List π}
    (h : readPages ask (fun page => (rows page).length) furthest n fuel bound = some pages) :
    ((rows (ask bound)).length < n ∧ pages = [ask bound]) ∨
    (∃ fuel' t rest, fuel = fuel' + 1 ∧ (rows (ask bound)).length = n ∧
      furthest (ask bound) = some t ∧
      readPages ask (fun page => (rows page).length) furthest n fuel' (some t) = some rest ∧
      pages = ask bound :: rest) := by
  cases fuel with
  | zero => simp [readPages] at h
  | succ fuel =>
    simp only [readPages] at h
    split at h
    · rename_i hshort
      exact Or.inl ⟨hshort, (Option.some.inj h).symm⟩
    · rename_i hfull
      have hlen := (hserves.first bound).fits
      obtain ⟨a, -, hfar, -⟩ := hserves.furthest_of_full hfull
      rw [hfar] at h
      obtain ⟨rest, hrest, rfl⟩ := Option.map_eq_some_iff.mp h
      exact Or.inr ⟨fuel, _, rest, rfl, by omega, hfar, hrest, rfl⟩

/-- The reader comes to an end. -/
theorem readPages_total (hserves : Serves key time n all ask rows furthest) {fuel : Nat}
    {bound : Option τ} (h : (past time bound all).length < fuel) :
    ∃ pages, readPages ask (fun page => (rows page).length) furthest n fuel bound = some pages := by
  induction fuel generalizing bound with
  | zero => omega
  | succ fuel ih =>
    simp only [readPages]
    split
    · exact ⟨_, rfl⟩
    · rename_i hfull
      obtain ⟨a, ha, hfar, -⟩ := hserves.furthest_of_full hfull
      rw [hfar]
      -- the next answer is about what is left past the page, which is less
      have hless : (past time (some (time a)) all).length < (past time bound all).length := by
        have hin := (hserves.first bound).sub a ha
        have hsub : (past time (some (time a)) all).Sublist (past time bound all) := by
          refine List.monotone_filter_right all fun b hb => ?_
          cases bound with
          | none => rfl
          | some t =>
            have hta := (mem_past.mp hin).2 t rfl
            exact decide_eq_true (hta.trans (of_decide_eq_true hb))
        refine lt_of_le_of_ne hsub.length_le fun heq => ?_
        rw [← hsub.eq_of_length heq] at hin
        exact lt_irrefl _ ((mem_past.mp hin).2 _ rfl)
      obtain ⟨rest, hrest⟩ := @ih (some (time a)) (by omega)
      exact ⟨ask bound :: rest, by simp only [hrest, Option.map_some]⟩

theorem readPages_asked (hserves : Serves key time n all ask rows furthest) {fuel : Nat}
    {bound : Option τ} {pages : List π}
    (h : readPages ask (fun page => (rows page).length) furthest n fuel bound = some pages) :
    ∀ page ∈ pages, ∃ bound', page = ask bound' ∧ ∀ a ∈ rows page, a ∈ past time bound all := by
  induction fuel generalizing bound pages with
  | zero => simp [readPages] at h
  | succ fuel ih =>
    have hfirst := (hserves.first bound).sub
    rcases readPages_cases hserves h with ⟨-, rfl⟩ | ⟨fuel', t, rest, hfuel, hlen, hfar, hrest, rfl⟩
    · intro page hpage
      rw [List.mem_singleton] at hpage
      subst hpage
      exact ⟨bound, rfl, hfirst⟩
    · obtain rfl : fuel = fuel' := by omega
      intro page hpage
      rcases List.mem_cons.mp hpage with rfl | hpage
      · exact ⟨bound, rfl, hfirst⟩
      · obtain ⟨bound', hask, hin⟩ := ih hrest page hpage
        refine ⟨bound', hask, fun a ha => ?_⟩
        obtain ⟨b, hb, hfar', -⟩ := hserves.furthest_of_full hlen.not_lt
        obtain rfl : t = time b := Option.some.inj (hfar.symm.trans hfar')
        obtain ⟨hall, hpast⟩ := mem_past.mp (hin a ha)
        refine mem_past.mpr ⟨hall, fun t ht => ?_⟩
        exact ((mem_past.mp (hfirst b hb)).2 t ht).trans (hpast _ rfl)

/-- Every entry is on a page or cut off. -/
theorem readPages_covers (hserves : Serves key time n all ask rows furthest) {fuel : Nat}
    {bound : Option τ} {pages : List π}
    (h : readPages ask (fun page => (rows page).length) furthest n fuel bound = some pages) :
    ∀ a ∈ past time bound all,
      (∃ page ∈ pages, a ∈ rows page) ∨ CutOff time n rows furthest pages a := by
  induction fuel generalizing bound pages with
  | zero => simp [readPages] at h
  | succ fuel ih =>
    have hfirst := hserves.first bound
    intro a ha
    rcases readPages_cases hserves h with
      ⟨hshort, rfl⟩ | ⟨fuel', t, rest, hfuel, hlen, hfar, hrest, rfl⟩
    · exact Or.inl ⟨_, List.mem_singleton_self _, hfirst.all_of_short hshort a ha⟩
    · obtain rfl : fuel = fuel' := by omega
      by_cases hin : a ∈ rows (ask bound)
      · exact Or.inl ⟨_, List.mem_cons_self .., hin⟩
      · have hpos := hserves.pos
        obtain ⟨b, hb, hfar', -⟩ := hserves.furthest bound (by
          intro hnil
          rw [hnil, List.length_nil] at hlen
          omega)
        obtain rfl : t = time b := Option.some.inj (hfar.symm.trans hfar')
        -- what the page left out is at its furthest point or past it
        have hle := hserves.mono b a ((hfirst.rest a ha hin).2 b hb)
        rcases hle.lt_or_eq with hlt | heq
        · have hpast : a ∈ past time (some (time b)) all := by
            refine mem_past.mpr ⟨(mem_past.mp ha).1, fun t ht => ?_⟩
            cases ht
            exact hlt
          rcases ih hrest a hpast with ⟨page, hpage, hmem⟩ | ⟨page, hpage, hcut⟩
          · exact Or.inl ⟨page, List.mem_cons_of_mem _ hpage, hmem⟩
          · exact Or.inr ⟨page, List.mem_cons_of_mem _ hpage, hcut⟩
        · exact Or.inr ⟨_, List.mem_cons_self .., hlen, by rw [hfar, heq], hin⟩

/-- A page reaches past every page before it. -/
theorem readPages_ascends (hserves : Serves key time n all ask rows furthest) {fuel : Nat}
    {bound : Option τ} {pages : List π}
    (h : readPages ask (fun page => (rows page).length) furthest n fuel bound = some pages) :
    pages.Pairwise fun page page' => ∀ b ∈ rows page', furthest page ≠ none ∧
      (∀ t, furthest page = some t → t < time b) ∧ ∀ a ∈ rows page, time a < time b := by
  induction fuel generalizing bound pages with
  | zero => simp [readPages] at h
  | succ fuel ih =>
    rcases readPages_cases hserves h with ⟨-, rfl⟩ | ⟨fuel', t, rest, hfuel, hlen, hfar, hrest, rfl⟩
    · exact List.pairwise_singleton _ _
    · obtain rfl : fuel = fuel' := by omega
      refine List.pairwise_cons.mpr ⟨fun page hpage b hb => ?_, ih hrest⟩
      obtain ⟨-, -, hin⟩ := readPages_asked hserves hrest page hpage
      have hlt := (mem_past.mp (hin b hb)).2 t rfl
      refine ⟨by rw [hfar]; exact Option.some_ne_none t, fun t' ht' => ?_, fun a ha => ?_⟩
      · obtain rfl : t = t' := Option.some.inj (hfar.symm.trans ht')
        exact hlt
      · obtain ⟨c, -, hfar', hmost⟩ := hserves.furthest bound (List.ne_nil_of_mem ha)
        obtain rfl : t = time c := Option.some.inj (hfar.symm.trans hfar')
        exact (hmost a ha).trans_lt hlt

/-- An entry is on a page exactly when no page cut it off. -/
theorem readPages_exact (hserves : Serves key time n all ask rows furthest) {fuel : Nat}
    {bound : Option τ} {pages : List π}
    (h : readPages ask (fun page => (rows page).length) furthest n fuel bound = some pages) :
    ∀ a ∈ past time bound all,
      ((∃ page ∈ pages, a ∈ rows page) ↔ ¬ CutOff time n rows furthest pages a) := by
  intro a ha
  refine ⟨?_, fun hnot => (readPages_covers hserves h a ha).resolve_right hnot⟩
  rintro ⟨page, hpage, hin⟩ ⟨page', hpage', hlen, hfar, hnot⟩
  have hasc := readPages_ascends hserves h
  obtain ⟨bound', rfl, -⟩ := readPages_asked hserves h page' hpage'
  obtain ⟨c, hc, hfar', -⟩ := hserves.furthest_of_full hlen.not_lt
  have htime : time a = time c := Option.some.inj (hfar.symm.trans hfar')
  obtain ⟨i, hi, rfl⟩ := List.getElem_of_mem hpage
  obtain ⟨j, hj, hpj⟩ := List.getElem_of_mem hpage'
  rcases lt_trichotomy i j with hlt | rfl | hlt
  · have := (List.pairwise_iff_getElem.mp hasc i j hi hj hlt c (by rwa [hpj])).2.2 a hin
    exact absurd htime this.ne
  · rw [hpj] at hin
    exact hnot hin
  · have := (List.pairwise_iff_getElem.mp hasc j i hj hi hlt a hin).2.1 (time a) (by rwa [hpj])
    exact lt_irrefl _ this

/-- Where the point tells every entry from every other, the pages one after the other are
all that lay past the first. -/
theorem readPages_flatMap (hserves : Serves time time n all ask rows furthest)
    (hsorted : all.Pairwise (time · < time ·)) {fuel : Nat} {bound : Option τ} {pages : List π}
    (h : readPages ask (fun page => (rows page).length) furthest n fuel bound = some pages) :
    pages.flatMap rows = past time bound all := by
  have hasked := readPages_asked hserves h
  have hascends : (pages.flatMap rows).Pairwise (time · < time ·) := by
    rw [List.pairwise_flatMap]
    refine ⟨fun page hpage => ?_, (readPages_ascends hserves h).imp fun hafter a ha b hb =>
      (hafter b hb).2.2 a ha⟩
    obtain ⟨bound', rfl, -⟩ := hasked page hpage
    exact (hserves.first bound').ascends
  have hpast : (past time bound all).Pairwise (time · < time ·) := hsorted.sublist List.filter_sublist
  have hnodup {l : List α} (hl : l.Pairwise (time · < time ·)) : l.Nodup :=
    hl.imp fun hlt => ne_of_apply_ne time hlt.ne
  have htimes : (all.map time).Nodup := by
    rw [List.nodup_iff_pairwise_ne, List.pairwise_map]
    exact hsorted.imp fun hlt => hlt.ne
  refine List.Perm.eq_of_pairwise (fun _ _ _ _ h h' => (lt_asymm h h').elim) hascends hpast
    ((List.perm_ext_iff_of_nodup (hnodup hascends) (hnodup hpast)).mpr fun a => ?_)
  rw [List.mem_flatMap]
  constructor
  · rintro ⟨page, hpage, ha⟩
    obtain ⟨-, -, hin⟩ := hasked page hpage
    exact hin a ha
  · intro ha
    refine (readPages_covers hserves h a ha).resolve_right ?_
    rintro ⟨page, hpage, hlen, hfar, hnot⟩
    obtain ⟨bound', rfl, -⟩ := hasked page hpage
    obtain ⟨c, hc, hfar', -⟩ := hserves.furthest_of_full hlen.not_lt
    have htime : time a = time c := Option.some.inj (hfar.symm.trans hfar')
    have hall := (mem_past.mp ((hserves.first bound').sub c hc)).1
    rw [List.inj_on_of_nodup_map htimes (mem_past.mp ha).1 hall htime] at hnot
    exact hnot hc

end Reader

end Pages
