import Lurker.Lib.IsoTime
import Mathlib.Data.PNat.Basic
import Mathlib.Order.Bounds.Basic

/-!
# The read marker's row

A marker's time moves the read pointer to the newest row at or before it. Rows have ids in
the order they came in, their times run out of order by no more than a skew. The ids are
bisected for the last row at or before the time and the skew, and the rows below that one
are walked down.
-/

namespace Lurker.Db.ReadMarker

open IsoTime (toISOString dateParse lastStamp)

/-- An instant whose text has four digits for the year. -/
structure Stamp where
  ms : Nat
  fourDigits : ms ≤ lastStamp

def Stamp.text (t : Stamp) : List Char := toISOString t.ms

structure Row where
  id : ℕ+
  time : Stamp

/-- The rows of a buffer in the order of their ids. -/
structure Buffer where
  rows : List Row
  ascends : rows.Pairwise (·.id < ·.id)

def readMarkerSkewMs : Nat := 60000

/-- The newest row above one id and up to another. -/
def newestIn (b : Buffer) (above upTo : Nat) : Option Row :=
  (b.rows.filter fun r => above < r.id.val ∧ r.id.val ≤ upTo).getLast?

theorem newestIn_mem {b : Buffer} {above upTo : Nat} {row : Row}
    (h : newestIn b above upTo = some row) :
    row ∈ b.rows ∧ above < row.id.val ∧ row.id.val ≤ upTo := by
  simpa using List.mem_filter.mp (List.mem_of_getLast? h)

/-- The loop of the bisection. -/
def bisect (b : Buffer) (bound : List Char) (lo hi : Nat) : Nat :=
  if _hlt : lo < hi then
    let mid := lo + (hi - lo + 1) / 2
    match hrow : newestIn b lo mid with
    | some row =>
      if bound < row.time.text then bisect b bound lo (row.id.val - 1) else bisect b bound mid hi
    | none => bisect b bound mid hi
  else lo
termination_by hi - lo
decreasing_by
  · obtain ⟨-, hlo, hmid⟩ := newestIn_mem hrow
    omega
  · omega
  · omega

/-- None when the time is no time, as making a text of the bound throws then. -/
def newestIdAtOrBefore (b : Buffer) (afterId : Int) (iso : List Char) : Option Nat :=
  (dateParse iso).map fun ms =>
    let bound := toISOString (min (ms + readMarkerSkewMs) lastStamp)
    let floor := (max 0 afterId).toNat
    let lo := bisect b bound floor ((b.rows.getLast?.map (·.id.val)).getD 0)
    ((b.rows.filter fun r => floor < r.id.val ∧ r.id.val ≤ lo ∧ r.time.text ≤ iso).getLast?.map
      (·.id.val)).getD 0

/-- No row's time is further behind an earlier row's than the skew. -/
def NearlySorted (b : Buffer) : Prop :=
  b.rows.Pairwise fun r r' => r.time.ms ≤ r'.time.ms + readMarkerSkewMs

/-- No row above an id is at or before an instant. -/
def AllLater (b : Buffer) (iso : Stamp) (id : Nat) : Prop :=
  ∀ r ∈ b.rows, id < r.id.val → iso.ms < r.time.ms

theorem rows_le_last (b : Buffer) {r : Row} (hr : r ∈ b.rows) :
    r.id.val ≤ (b.rows.getLast?.map (·.id.val)).getD 0 := by
  have hasc := b.ascends
  rcases List.eq_nil_or_concat b.rows with hnil | ⟨rows, last, hrows⟩
  · rw [hnil] at hr
    cases hr
  · rw [List.concat_eq_append] at hrows
    rw [hrows] at hr hasc ⊢
    rw [List.getLast?_concat]
    rcases List.mem_append.mp hr with hr | hr
    · exact ((List.pairwise_append.mp hasc).2.2 r hr last List.mem_cons_self).le
    · rw [List.mem_singleton.mp hr]
      rfl

/-- A row past the bound is later than the time, and so is every row above it. -/
theorem allLater_of_past_bound {b : Buffer} {iso : Stamp} {row : Row} (hskew : NearlySorted b)
    (hrow : row ∈ b.rows)
    (hpast : toISOString (min (iso.ms + readMarkerSkewMs) lastStamp) < row.time.text) :
    AllLater b iso (row.id.val - 1) := by
  intro r hr hid
  have hlate : iso.ms + readMarkerSkewMs < row.time.ms := by
    have := (IsoTime.toISOString_lt_iff (Nat.min_le_right _ _) row.time.fourDigits).mp hpast
    have := row.time.fourDigits
    omega
  obtain ⟨pre, post, hsplit⟩ := List.append_of_mem hrow
  have hasc := b.ascends
  unfold NearlySorted at hskew
  rw [hsplit] at hr hasc hskew
  obtain ⟨-, -, hpre⟩ := List.pairwise_append.mp hasc
  obtain ⟨-, hpost, -⟩ := List.pairwise_append.mp hskew
  rcases List.mem_append.mp hr with hr | hr
  · have hlt : r.id.val < row.id.val := hpre r hr row List.mem_cons_self
    omega
  · rcases List.mem_cons.mp hr with rfl | hr
    · omega
    · have := (List.pairwise_cons.mp hpost).1 r hr
      omega

/-- The loop keeps nothing at or before the time above its upper end. -/
theorem allLater_bisect {b : Buffer} {iso : Stamp} (hskew : NearlySorted b) (lo hi : Nat)
    (h : AllLater b iso hi) :
    AllLater b iso (bisect b (toISOString (min (iso.ms + readMarkerSkewMs) lastStamp)) lo hi) := by
  fun_induction bisect b (toISOString (min (iso.ms + readMarkerSkewMs) lastStamp)) lo hi with
  | case1 lo hi hlt mid row hrow hpast ih =>
    exact ih (allLater_of_past_bound hskew (newestIn_mem hrow).1 hpast)
  | case2 lo hi hlt mid row hrow hpast ih => exact ih h
  | case3 lo hi hlt mid hrow ih => exact ih h
  | case4 lo hi hlt => exact fun r hr hid => h r hr (by omega)

/-- The ids above a pointer of rows at or before an instant. -/
def idsAtOrBefore (b : Buffer) (afterId : Int) (iso : Stamp) : Set Nat :=
  {id | ∃ r ∈ b.rows, r.id.val = id ∧ max 0 afterId < id ∧ r.time.ms ≤ iso.ms}

theorem isGreatest_getLast {rows : List Row} (hasc : rows.Pairwise (·.id < ·.id)) {last : Row}
    (h : rows.getLast? = some last) : IsGreatest {id | ∃ r ∈ rows, r.id.val = id} last.id.val := by
  refine ⟨⟨last, List.mem_of_getLast? h, rfl⟩, ?_⟩
  rintro - ⟨r, hr, rfl⟩
  have := rows_le_last ⟨rows, hasc⟩ hr
  rwa [h] at this

/-- The marker's row is the newest above the pointer at or before the time. -/
theorem newestIdAtOrBefore_newest (b : Buffer) (hskew : NearlySorted b) (afterId : Int)
    (iso : Stamp) :
    ∃ id, newestIdAtOrBefore b afterId iso.text = some id ∧
      (IsGreatest (idsAtOrBefore b afterId iso) id ∨ idsAtOrBefore b afterId iso = ∅ ∧ id = 0) := by
  have hparse : dateParse iso.text = some iso.ms := IsoTime.dateParse_toISOString iso.fourDigits
  rw [newestIdAtOrBefore, hparse]
  refine ⟨_, rfl, ?_⟩
  have hlater := @allLater_bisect b iso hskew (max 0 afterId).toNat
    ((b.rows.getLast?.map (·.id.val)).getD 0)
    fun r hr hid => absurd (rows_le_last b hr) (by omega)
  dsimp only
  generalize bisect b _ (max 0 afterId).toNat _ = lo at hlater ⊢
  have hids : idsAtOrBefore b afterId iso = {id | ∃ r ∈ b.rows.filter fun r =>
      (max 0 afterId).toNat < r.id.val ∧ r.id.val ≤ lo ∧ r.time.text ≤ iso.text,
      r.id.val = id} := by
    ext id
    constructor
    · rintro ⟨r, hr, rfl, hfloor, htime⟩
      have hlo : r.id.val ≤ lo := Nat.le_of_not_lt fun hlt => by
        have := hlater r hr hlt
        omega
      have htext := (IsoTime.toISOString_le_iff r.time.fourDigits iso.fourDigits).mpr htime
      exact ⟨r, List.mem_filter.mpr ⟨hr, decide_eq_true ⟨by omega, hlo, htext⟩⟩, rfl⟩
    · rintro ⟨r, hr, rfl⟩
      obtain ⟨hr, hcond⟩ := List.mem_filter.mp hr
      obtain ⟨hfloor, -, htext⟩ := of_decide_eq_true hcond
      exact ⟨r, hr, rfl, by omega,
        (IsoTime.toISOString_le_iff r.time.fourDigits iso.fourDigits).mp htext⟩
  have hasc := b.ascends.filter fun r =>
    (max 0 afterId).toNat < r.id.val ∧ r.id.val ≤ lo ∧ r.time.text ≤ iso.text
  rw [hids]
  cases hlast : (b.rows.filter fun r =>
      (max 0 afterId).toNat < r.id.val ∧ r.id.val ≤ lo ∧ r.time.text ≤ iso.text).getLast? with
  | none =>
    right
    rw [List.getLast?_eq_none_iff.mp hlast]
    simp
  | some last => exact Or.inl (isGreatest_getLast hasc hlast)

/-- Three rows, the last stamped 50 seconds before the one that came in before it. -/
def threeRows : Buffer where
  rows := [⟨2, ⟨0, by decide⟩⟩, ⟨5, ⟨70000, by decide⟩⟩, ⟨9, ⟨20000, by decide⟩⟩]
  ascends := by decide

theorem newestIdAtOrBefore_threeRows :
    newestIdAtOrBefore threeRows (-1) "0000-01-01T00:00:30.000Z".toList = some 9 := by
  have hskew : NearlySorted threeRows := by
    unfold NearlySorted
    decide
  obtain ⟨id, hfound, hid⟩ :=
    newestIdAtOrBefore_newest threeRows hskew (-1) ⟨30000, by decide⟩
  have hmem : 9 ∈ idsAtOrBefore threeRows (-1) ⟨30000, by decide⟩ := by
    simp [idsAtOrBefore, threeRows]
  have hnine : id = 9 := by
    rcases hid with ⟨⟨r, hr, rfl, -⟩, hupper⟩ | ⟨hempty, -⟩
    · have hle : ∀ r ∈ threeRows.rows, r.id.val ≤ 9 := by decide
      exact (hle r hr).antisymm (hupper hmem)
    · rw [hempty] at hmem
      exact absurd hmem (Set.notMem_empty 9)
  exact hnine ▸ hfound

end Lurker.Db.ReadMarker
