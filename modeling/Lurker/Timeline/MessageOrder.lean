import Mathlib.Data.String.Basic
import Mathlib.Order.WithBot
import Lurker.Lib.Comparators

/-!
# Display order

`orderByTime` shows rows by the time the server stamped them, with the id as the tiebreak.
A row without a time is compared by its id alone. Two orders are mixed, so a row without a
time may stand between two others against their times: such rows are given back as they
came in some arrangement, one of the two timed ones out of place. Without such a row the
comparison is an order and the rows are shown in it.
-/

namespace Lurker.Timeline.MessageOrder

open Comparators

-- the order of ids by the instance that computes
local instance idOrder : Preorder Int := Int.instLinearOrder.toPartialOrder.toPreorder

/-- What a row is ordered by. -/
class Ordered (T : Type) where
  id : T → Option Int
  time : T → Option String

variable {T : Type} [Ordered T]

/-- `a.time` as a condition reads it: an empty time is none. -/
def stamp (a : T) : Option String := (Ordered.time a).filter fun time => time ≠ ""

/-- `a.id ?? Number.POSITIVE_INFINITY`. -/
def rank (a : T) : WithTop Int :=
  match Ordered.id a with
  | some id => (id : WithTop Int)
  | none => ⊤

def compareRank (a b : T) : Int :=
  if rank a = rank b then 0 else if rank a < rank b then -1 else 1

def compare (a b : T) : Int :=
  match stamp a, stamp b with
  | some ta, some tb => if ta ≠ tb then if ta < tb then -1 else 1 else compareRank a b
  | _, _ => compareRank a b

/-- The rows themselves when each is in order with the next, else sorted. -/
def orderByTime (sorter : Sorter T) (rows : List T) : List T :=
  if inOrder compare rows then rows else sorter.sort compare rows

theorem compareRank_le_zero {a b : T} : compareRank a b ≤ 0 ↔ rank a ≤ rank b := by
  unfold compareRank
  split
  · rename_i h
    simp [h]
  · rename_i hne
    split
    · rename_i h
      simp [h.le]
    · rename_i h
      have : ¬ rank a ≤ rank b := fun hle => h (lt_of_le_of_ne hle hne)
      simp [this]

theorem compareRank_signed : Signed (compareRank : T → T → Int) := by
  intro a b
  unfold compareRank
  rcases lt_trichotomy (rank a) (rank b) with h | h | h
  · rw [if_neg h.ne', if_neg h.not_gt, if_neg h.ne, if_pos h]
    rfl
  · rw [if_pos h.symm, if_pos h]
    rfl
  · rw [if_neg h.ne, if_pos h, if_neg h.ne', if_neg h.not_gt]

theorem compare_signed : Signed (compare : T → T → Int) := by
  intro a b
  unfold compare
  cases stamp a with
  | none => cases stamp b <;> exact compareRank_signed a b
  | some ta =>
    cases stamp b with
    | none => exact compareRank_signed a b
    | some tb =>
      dsimp only
      rcases lt_trichotomy ta tb with h | h | h
      · rw [if_pos h.ne', if_neg h.not_gt, if_pos h.ne, if_pos h]
        rfl
      · rw [if_neg (not_not_intro h.symm), if_neg (not_not_intro h)]
        exact compareRank_signed a b
      · rw [if_pos h.ne, if_pos h, if_pos h.ne', if_neg h.not_gt]

theorem compare_untimed {a b : T} (h : stamp a = none ∨ stamp b = none) :
    compare a b ≤ 0 ↔ rank a ≤ rank b := by
  rw [← compareRank_le_zero, compare]
  rcases h with h | h
  · rw [h]
  · cases hs : stamp a <;> rw [h]

theorem compare_timed {a b : T} {ta tb : String} (ha : stamp a = some ta) (hb : stamp b = some tb) :
    compare a b ≤ 0 ↔ ta < tb ∨ (ta = tb ∧ rank a ≤ rank b) := by
  rw [← compareRank_le_zero, compare, ha, hb]
  dsimp only
  rcases lt_trichotomy ta tb with h | h | h
  · simp [h.ne, h]
  · simp [h]
  · simp [h.ne', h.not_gt]

/-- A row without a time whose id puts it between two others, against their times. -/
structure Between (early late u : T) : Prop where
  times : ∃ te tl, stamp early = some te ∧ stamp late = some tl ∧ te < tl
  untimed : stamp u = none
  behind : rank late ≤ rank u
  before : rank u ≤ rank early

/-- Some row stands against the times of two others. -/
def Straddled (rows : List T) : Prop :=
  ∃ early ∈ rows, ∃ late ∈ rows, ∃ u ∈ rows, Between early late u

theorem Between.not_le {early late u : T} (h : Between early late u) : ¬ compare late early ≤ 0 := by
  obtain ⟨te, tl, he, hl, hlt⟩ := h.times
  rw [compare_timed hl he]
  rintro (hgt | ⟨heq, -⟩)
  · exact absurd hgt hlt.not_gt
  · exact hlt.ne heq.symm

theorem Between.inOrder {early late u : T} (h : Between early late u) :
    inOrder compare [late, u, early] = true :=
  inOrder_cons_cons.mpr ⟨(compare_untimed (Or.inr h.untimed)).mpr h.behind,
    inOrder_cons_cons.mpr ⟨(compare_untimed (Or.inl h.untimed)).mpr h.before, rfl⟩⟩

/-- A place where the comparison is no order is a row between two others. -/
theorem between_of_not_trans {a b c : T} (hab : compare a b ≤ 0) (hbc : compare b c ≤ 0)
    (hac : ¬ compare a c ≤ 0) :
    Between c a b ∨ Between b c a ∨ Between a b c := by
  cases ha : stamp a with
  | none =>
    rw [compare_untimed (Or.inl ha)] at hab hac
    cases hb : stamp b with
    | none => exact absurd (hab.trans ((compare_untimed (Or.inl hb)).mp hbc)) hac
    | some tb =>
      cases hc : stamp c with
      | none => exact absurd (hab.trans ((compare_untimed (Or.inr hc)).mp hbc)) hac
      | some tc =>
        rcases (compare_timed hb hc).mp hbc with hlt | ⟨-, hle⟩
        · exact Or.inr (Or.inl ⟨⟨tb, tc, hb, hc, hlt⟩, ha, (not_le.mp hac).le, hab⟩)
        · exact absurd (hab.trans hle) hac
  | some ta =>
    cases hb : stamp b with
    | none =>
      have hab := (compare_untimed (Or.inr hb)).mp hab
      have hbc := (compare_untimed (Or.inl hb)).mp hbc
      cases hc : stamp c with
      | none => exact absurd ((compare_untimed (Or.inr hc)).mpr (hab.trans hbc)) hac
      | some tc =>
        rw [compare_timed ha hc, not_or, not_and] at hac
        have hlt : tc < ta :=
          lt_of_le_of_ne (not_lt.mp hac.1) fun heq => hac.2 heq.symm (hab.trans hbc)
        exact Or.inl ⟨⟨tc, ta, hc, ha, hlt⟩, hb, hab, hbc⟩
    | some tb =>
      cases hc : stamp c with
      | none =>
        have hbc := (compare_untimed (Or.inr hc)).mp hbc
        rw [compare_untimed (Or.inr hc)] at hac
        rcases (compare_timed ha hb).mp hab with hlt | ⟨-, hle⟩
        · exact Or.inr (Or.inr ⟨⟨ta, tb, ha, hb, hlt⟩, hc, hbc, (not_le.mp hac).le⟩)
        · exact absurd (hle.trans hbc) hac
      | some tc =>
        refine absurd ((compare_timed ha hc).mpr ?_) hac
        rcases (compare_timed ha hb).mp hab with hlt | ⟨heq, hle⟩ <;>
          rcases (compare_timed hb hc).mp hbc with hlt' | ⟨heq', hle'⟩
        · exact Or.inl (hlt.trans hlt')
        · exact Or.inl (heq' ▸ hlt)
        · exact Or.inl (heq ▸ hlt')
        · exact Or.inr ⟨heq.trans heq', hle.trans hle'⟩

theorem transOn_of_not_straddled {rows : List T} (h : ¬ Straddled rows) : TransOn compare rows := by
  intro a ha b hb c hc hab hbc
  by_contra hac
  rcases between_of_not_trans hab hbc hac with hbet | hbet | hbet
  · exact h ⟨c, hc, a, ha, b, hb, hbet⟩
  · exact h ⟨b, hb, c, hc, a, ha, hbet⟩
  · exact h ⟨a, ha, b, hb, c, hc, hbet⟩

theorem Straddled.perm {rows rows' : List T} (hperm : rows.Perm rows') (h : Straddled rows) :
    Straddled rows' := by
  obtain ⟨early, he, late, hl, u, hu, hbet⟩ := h
  exact ⟨early, hperm.subset he, late, hperm.subset hl, u, hperm.subset hu, hbet⟩

section Shown

variable (sorter : Sorter T)

theorem orderByTime_perm (rows : List T) : (orderByTime sorter rows).Perm rows := by
  unfold orderByTime
  split
  · exact List.Perm.refl _
  · exact sorter.perm _ _

theorem orderByTime_sorted {rows : List T} (h : ¬ Straddled rows) :
    (orderByTime sorter rows).Pairwise fun a b => compare a b ≤ 0 := by
  unfold orderByTime
  split
  · rename_i hin
    exact pairwise_of_inOrder (transOn_of_not_straddled h) hin
  · exact sorter.sorted _ _ compare_signed (transOn_of_not_straddled h)

/-- Two rows in order of their times, then of their ids, a missing one last. -/
def InTimeOrder (a b : T) : Prop :=
  ∀ ta tb, stamp a = some ta → stamp b = some tb → ta < tb ∨ (ta = tb ∧ rank a ≤ rank b)

/-- A row without a time that the times let stand by its id. -/
def Free (rows : List T) (u : T) : Prop :=
  stamp u = none ∧ ∀ early ∈ rows, ∀ late ∈ rows, ¬ Between early late u

/-- What display order is to be for a list of rows. -/
structure Displayed (rows : List T) : Prop where
  perm : (orderByTime sorter rows).Perm rows
  timed : (orderByTime sorter rows).Pairwise InTimeOrder
  untimed : (orderByTime sorter rows).Pairwise fun a b =>
    Free rows a ∨ Free rows b → rank a ≤ rank b
  arranged : (rows.map rank).Nodup →
    ∀ rows' : List T, rows'.Perm rows → orderByTime sorter rows' = orderByTime sorter rows
  settled : orderByTime sorter (orderByTime sorter rows) = orderByTime sorter rows

/-- Rows in order under a comparison that tells them apart stand in one way only. -/
theorem orderByTime_unique {rows rows' : List T} (h : ¬ Straddled rows) (hperm : rows'.Perm rows)
    (hids : (rows.map rank).Nodup) : orderByTime sorter rows' = orderByTime sorter rows := by
  have h' : ¬ Straddled rows' := fun hs => h (hs.perm hperm)
  have hsame : (orderByTime sorter rows').Perm (orderByTime sorter rows) :=
    (orderByTime_perm sorter rows').trans (hperm.trans (orderByTime_perm sorter rows).symm)
  refine hsame.eq_of_pairwise (fun a b ha hb hab hba => ?_) (orderByTime_sorted sorter h')
    (orderByTime_sorted sorter h)
  have hrank : rank a = rank b := by
    cases hta : stamp a with
    | none =>
      exact le_antisymm ((compare_untimed (Or.inl hta)).mp hab) ((compare_untimed (Or.inr hta)).mp hba)
    | some ta =>
      cases htb : stamp b with
      | none =>
        exact le_antisymm ((compare_untimed (Or.inr htb)).mp hab)
          ((compare_untimed (Or.inl htb)).mp hba)
      | some tb =>
        rcases (compare_timed hta htb).mp hab with hlt | ⟨heq, hle⟩ <;>
          rcases (compare_timed htb hta).mp hba with hlt' | ⟨heq', hle'⟩
        · exact absurd hlt' hlt.not_gt
        · exact absurd heq'.symm hlt.ne
        · exact absurd heq.symm hlt'.ne
        · exact le_antisymm hle hle'
  exact List.inj_on_of_nodup_map hids ((orderByTime_perm sorter rows').trans hperm |>.subset ha)
    ((orderByTime_perm sorter rows).subset hb) hrank

theorem displayed_of_not_straddled {rows : List T} (h : ¬ Straddled rows) :
    Displayed sorter rows where
  perm := orderByTime_perm sorter rows
  timed := (orderByTime_sorted sorter h).imp fun hab _ _ ha hb => (compare_timed ha hb).mp hab
  untimed := (orderByTime_sorted sorter h).imp fun {a b} hab
    (hfree : Free rows a ∨ Free rows b) =>
      (compare_untimed (hfree.imp And.left And.left)).mp hab
  arranged hids _ hperm := orderByTime_unique sorter h hperm hids
  settled := if_pos (inOrder_of_pairwise (orderByTime_sorted sorter h))

/-- Rows that stand against the times have an arrangement that is given back as it came. -/
theorem exists_out_of_order {rows : List T} (h : Straddled rows) :
    ∃ rows', rows'.Perm rows ∧ orderByTime sorter rows' = rows' ∧ ¬ rows'.Pairwise InTimeOrder := by
  obtain ⟨early, he, late, hl, u, hu, hbet⟩ := h
  obtain ⟨te, tl, hte, htl, hlt⟩ := hbet.times
  have hnodup : [late, u, early].Nodup := by
    have hlu : late ≠ u := fun heq => by simp [heq, hbet.untimed] at htl
    have hue : u ≠ early := fun heq => by simp [← heq, hbet.untimed] at hte
    have hle : late ≠ early := fun heq => hlt.ne (Option.some.inj (hte.symm.trans (heq ▸ htl)))
    simp [hlu, hue, hle]
  have hsubset : [late, u, early] ⊆ rows := by
    intro x hx
    simp only [List.mem_cons, List.not_mem_nil, or_false] at hx
    rcases hx with rfl | rfl | rfl
    · exact hl
    · exact hu
    · exact he
  obtain ⟨chain, hchain, hsub⟩ := List.subperm_of_subset hnodup hsubset
  obtain ⟨others, hothers⟩ := hsub.exists_perm_append
  obtain ⟨rows', hperm, hin, horder⟩ := exists_inOrder compare_signed hbet.inOrder others
  refine ⟨rows', ?_, if_pos horder, fun hsorted => ?_⟩
  · calc
      rows'.Perm (others ++ [late, u, early]) := hperm
      _ |>.Perm ([late, u, early] ++ others) := List.perm_append_comm
      _ |>.Perm (chain ++ others) := hchain.symm.append_right others
      _ |>.Perm rows := hothers.symm
  · have hpair := hsorted.sublist hin
    have hlate := (List.pairwise_cons.mp hpair).1 early (by simp) tl te htl hte
    rcases hlate with hgt | ⟨heq, -⟩
    · exact absurd hgt hlt.not_gt
    · exact hlt.ne heq.symm

/-- Some arrangement of the rows is not shown in order exactly when one of them stands
against the times of two others; where ids tell the rows apart, no arrangement is. -/
theorem displayed_iff (rows : List T) :
    ((∀ rows', rows'.Perm rows → Displayed sorter rows') ↔ ¬ Straddled rows) ∧
      ((rows.map rank).Nodup → (Displayed sorter rows ↔ ¬ Straddled rows)) := by
  refine ⟨⟨fun hall hs => ?_, fun h rows' hperm => ?_⟩,
    fun hids => ⟨fun hd hs => ?_, displayed_of_not_straddled sorter⟩⟩
  · obtain ⟨rows', hperm, hsame, hout⟩ := exists_out_of_order sorter hs
    exact hout (hsame ▸ (hall rows' hperm).timed)
  · exact displayed_of_not_straddled sorter fun hs => h (hs.perm hperm)
  · obtain ⟨rows', hperm, hsame, hout⟩ := exists_out_of_order sorter hs
    have hone : rows' = orderByTime sorter rows := hsame.symm.trans (hd.arranged hids rows' hperm)
    exact hout (hone ▸ hd.timed)

end Shown

/-- A row of the display with nothing but what it is ordered by. -/
structure Stamped where
  id : Option Int
  time : Option String
deriving DecidableEq

instance : Ordered Stamped := ⟨Stamped.id, Stamped.time⟩

/-- An echo between a line heard live and a line fetched later of the time before. -/
def fetched : List Stamped :=
  [⟨some 1, some "2026-01-01T00:00:02.000Z"⟩, ⟨some 2, none⟩,
    ⟨some 3, some "2026-01-01T00:00:01.000Z"⟩]

theorem fetched_not_displayed : ¬ Displayed (mergeSorter Stamped) fetched := by
  intro h
  have hsame : orderByTime (mergeSorter Stamped) fetched = fetched := by decide
  have htimed := h.timed
  rw [hsame] at htimed
  have hpair := (List.pairwise_cons.mp htimed).1
    ⟨some 3, some "2026-01-01T00:00:01.000Z"⟩ (by simp) _ _ rfl rfl
  revert hpair
  decide

end Lurker.Timeline.MessageOrder
