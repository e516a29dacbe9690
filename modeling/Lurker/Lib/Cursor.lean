import Mathlib.Data.List.Induction
import Mathlib.Data.List.Infix
import Mathlib.Order.Basic

/-!
# A reader that steps back to catch ties

A list in the order of a time, read page by page from past a cursor. After a full page the
cursor moves to just under the page's newest time, so that what the page cut off at that
time is not skipped; where that is where the cursor stood, it moves to the newest time
itself. Nothing is missed as long as no time has more entries than a page holds, and the
cursor ends within two pages for each entry.
-/

namespace Cursor

variable {α : Type*} (time : α → Int)

/-- The first so many past a cursor. -/
def page (items : List α) (limit : Nat) (cursor : Int) : List α :=
  (items.filter (cursor < time ·)).take limit

/-- Where the reader goes on after a full page. -/
def advance (cursor newest : Int) : Int := max (newest - 1) (cursor + 1)

/-- No time has more entries than a page holds. -/
def TiesFit (items : List α) (limit : Nat) : Prop :=
  ∀ t : Int, (items.filter (time · = t)).length ≤ limit

/-- The entries past a cursor count twice, and one more is to come unless the next time
holds an entry. -/
def left (items : List α) (cursor : Int) : Nat :=
  2 * (items.filter (cursor < time ·)).length +
    if items.any (time · = cursor + 1) then 0 else 1

variable {time} {items : List α} {limit : Nat} {cursor newest : Int}

theorem mem_page {a : α} (h : a ∈ page time items limit cursor) : a ∈ items ∧ cursor < time a := by
  have hmem := List.mem_filter.mp (List.mem_of_mem_take h)
  exact ⟨hmem.1, of_decide_eq_true hmem.2⟩

/-- Only the times there are can have too many entries. -/
theorem tiesFit_of_mem (h : ∀ a ∈ items, (items.filter (time · = time a)).length ≤ limit) :
    TiesFit time items limit := by
  intro t
  by_cases hsome : ∃ a ∈ items, time a = t
  · obtain ⟨a, ha, rfl⟩ := hsome
    exact h a ha
  · have hnone : items.filter (time · = t) = [] := by
      apply List.filter_eq_nil_iff.mpr
      intro a ha hat
      exact hsome ⟨a, ha, of_decide_eq_true hat⟩
    rw [hnone]
    exact Nat.zero_le limit

/-- A page below its limit holds all that is past the cursor. -/
theorem mem_page_of_short (h : (page time items limit cursor).length < limit) {a : α}
    (ha : a ∈ items) (hpast : cursor < time a) : a ∈ page time items limit cursor := by
  simp only [page, List.length_take] at h ⊢
  rw [List.take_of_length_le (by omega)]
  exact List.mem_filter.mpr ⟨ha, decide_eq_true hpast⟩

/-- What a page left out comes after all of it. -/
theorem page_le_of_not_mem (hsorted : items.Pairwise (time · ≤ time ·)) {a b : α} (ha : a ∈ items)
    (hpast : cursor < time a) (hnot : a ∉ page time items limit cursor)
    (hb : b ∈ page time items limit cursor) : time b ≤ time a := by
  have hin : a ∈ items.filter (cursor < time ·) := List.mem_filter.mpr ⟨ha, decide_eq_true hpast⟩
  have hpairs : (items.filter (cursor < time ·)).Pairwise (time · ≤ time ·) :=
    hsorted.sublist List.filter_sublist
  rw [← List.take_append_drop limit (items.filter (cursor < time ·))] at hpairs hin
  have hrest := (List.mem_append.mp hin).resolve_left hnot
  exact (List.pairwise_append.mp hpairs).2.2 b hb a hrest

/-- A time of a page and one entry it left out: the page is not full of that time. -/
theorem not_all_tied (hfit : TiesFit time items limit)
    (hfull : limit ≤ (page time items limit cursor).length) {a : α} (ha : a ∈ items)
    (hpast : cursor < time a) (hnot : a ∉ page time items limit cursor) :
    ∃ b ∈ page time items limit cursor, time b ≠ time a := by
  by_contra hall
  have hsame : ∀ b ∈ page time items limit cursor, time b = time a := by
    intro b hb
    by_contra hne
    exact hall ⟨b, hb, hne⟩
  have hin : a ∈ items.filter (cursor < time ·) := List.mem_filter.mpr ⟨ha, decide_eq_true hpast⟩
  have hrest : a ∈ (items.filter (cursor < time ·)).drop limit := by
    rw [← List.take_append_drop limit (items.filter (cursor < time ·))] at hin
    exact (List.mem_append.mp hin).resolve_left hnot
  have hsub : (page time items limit cursor ++ [a]).Sublist items := by
    have hboth : (page time items limit cursor ++ [a]).Sublist
        ((items.filter (cursor < time ·)).take limit ++
          (items.filter (cursor < time ·)).drop limit) :=
      List.Sublist.append_left (List.singleton_sublist.mpr hrest) _
    rw [List.take_append_drop] at hboth
    exact hboth.trans List.filter_sublist
  have htied : (page time items limit cursor ++ [a]).filter (time · = time a) =
      page time items limit cursor ++ [a] := by
    apply List.filter_eq_self.mpr
    intro b hb
    apply decide_eq_true
    rcases List.mem_append.mp hb with hb | hb
    · exact hsame b hb
    · rw [List.mem_singleton.mp hb]
  have hlen := (hsub.filter (time · = time a)).length_le
  rw [htied, List.length_append, List.length_singleton] at hlen
  have := hfit (time a)
  omega

/-- Nothing up to where the reader goes on was left out of a full page. -/
theorem mem_page_of_le_advance (hsorted : items.Pairwise (time · ≤ time ·))
    (hfit : TiesFit time items limit) (hfull : limit ≤ (page time items limit cursor).length)
    (hmost : ∀ b ∈ page time items limit cursor, time b ≤ newest)
    (hnewest : ∃ b ∈ page time items limit cursor, time b = newest) {a : α} (ha : a ∈ items)
    (hpast : cursor < time a) (hle : time a ≤ advance cursor newest) :
    a ∈ page time items limit cursor := by
  by_contra hnot
  obtain ⟨b, hb, rfl⟩ := hnewest
  have hba := page_le_of_not_mem hsorted ha hpast hnot hb
  have hcursor := (mem_page hb).2
  have hat : time a = time b ∧ time b = cursor + 1 := by
    simp only [advance] at hle
    omega
  obtain ⟨c, hc, hne⟩ := not_all_tied hfit hfull ha hpast hnot
  have hcb := hmost c hc
  have hcc := (mem_page hc).2
  omega

theorem length_filter_le_of_imp {p q : α → Bool} (h : ∀ a, p a = true → q a = true) (l : List α) :
    (l.filter p).length ≤ (l.filter q).length := by
  rw [← List.countP_eq_length_filter, ← List.countP_eq_length_filter]
  exact List.countP_mono_left fun a _ => h a

theorem length_filter_lt_of_imp {p q : α → Bool} (h : ∀ a, p a = true → q a = true) {l : List α}
    {a : α} (ha : a ∈ l) (hq : q a = true) (hp : p a = false) :
    (l.filter p).length < (l.filter q).length := by
  obtain ⟨xs, ys, rfl⟩ := List.append_of_mem ha
  have hxs := length_filter_le_of_imp h xs
  have hys := length_filter_le_of_imp h ys
  simp only [List.filter_append, List.filter_cons, hp, hq, Bool.false_eq_true, ↓reduceIte,
    List.length_append, List.length_cons]
  omega

/-- Each full page leaves less. -/
theorem left_advance_lt (hnewest : ∃ b ∈ page time items limit cursor, time b = newest) :
    left time items (advance cursor newest) < left time items cursor := by
  obtain ⟨b, hb, rfl⟩ := hnewest
  obtain ⟨hbin, hbpast⟩ := mem_page hb
  have hmono : ∀ a, decide (advance cursor (time b) < time a) = true →
      decide (cursor < time a) = true := by
    intro a ha
    have hpast := of_decide_eq_true ha
    apply decide_eq_true
    simp only [advance] at hpast
    omega
  by_cases hgone : ∃ a ∈ items, cursor < time a ∧ time a ≤ advance cursor (time b)
  · obtain ⟨a, ha, hpast, hle⟩ := hgone
    have hlt := length_filter_lt_of_imp hmono ha (decide_eq_true hpast)
      (decide_eq_false (by omega))
    simp only [left]
    split <;> split <;> omega
  -- Nothing is passed: the page is of one time, and the cursor comes to stand right before it.
  · have hle := length_filter_le_of_imp hmono items
    have hstep : advance cursor (time b) = time b - 1 ∧ cursor + 1 < time b := by
      have hnot : ¬ time b ≤ advance cursor (time b) := fun h => hgone ⟨b, hbin, hbpast, h⟩
      simp only [advance] at hnot ⊢
      omega
    have hnext : items.any (time · = advance cursor (time b) + 1) = true := by
      apply List.any_eq_true.mpr
      refine ⟨b, hbin, decide_eq_true ?_⟩
      omega
    have hnone : items.any (time · = cursor + 1) = false := by
      apply List.any_eq_false.mpr
      intro a ha heq
      apply hgone
      have hat := of_decide_eq_true heq
      exact ⟨a, ha, by omega, by omega⟩
    simp only [left, hnext, hnone, Bool.false_eq_true, ↓reduceIte]
    omega

theorem left_le (items : List α) (cursor : Int) :
    left time items cursor ≤ 2 * (items.filter (cursor < time ·)).length + 1 := by
  simp only [left]
  split <;> omega

end Cursor
