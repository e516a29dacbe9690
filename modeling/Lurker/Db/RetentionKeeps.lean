import Lurker.Db.BandWalk

/-!
# What the line cap keeps

The invariant of whole runs: each buffer's walks are right, and a buffer that nobody will
look at is settled. It is carried over every event, and what a batch deletes may go.
-/

namespace Lurker.Db.Retention

open Ranks

variable {cap : Nat → Nat} {s : Retention}

/-- The visit of a buffer, if it is the one visited. -/
def visitOf (s : Retention) (buffer : Nat) : Option (Nat × Option RetentionVisit) :=
  s.tick.bind fun t => t.current.bind fun v =>
    if v.buffer = buffer then some (v.boundaryId, v.visit) else none

def view (s : Retention) (buffer : Nat) : BufferView where
  lines := s.of buffer
  bookmarks := s.bookmarks
  saved := s.walks.get? buffer
  visited := s.visitOf buffer
  awaits := s.Awaits buffer

theorem marked_iff {buffer : Nat} :
    s.Marked buffer ↔ s.Awaits buffer ∨ s.visitOf buffer ≠ none := by
  unfold Marked visitOf
  refine or_congr Iff.rfl ⟨fun ⟨t, v, ht, hv, hbuffer⟩ => ?_, fun h => ?_⟩
  · simp [ht, hv, hbuffer]
  · obtain ⟨p, hp⟩ := Option.ne_none_iff_exists'.mp h
    obtain ⟨t, ht, hp⟩ := Option.bind_eq_some_iff.mp hp
    obtain ⟨v, hv, hp⟩ := Option.bind_eq_some_iff.mp hp
    split at hp
    next hbuffer => exact ⟨t, v, ht, hv, hbuffer⟩
    next => cases hp

theorem walkOf_iff {buffer : Nat} {w : BandWalk} :
    s.WalkOf buffer w ↔ (s.view buffer).WalkIs w := by
  unfold WalkOf BufferView.WalkIs view visitOf
  refine or_congr Iff.rfl ⟨fun ⟨t, v, o, ht, hv, hbuffer, ho, hw⟩ => ?_,
    fun ⟨boundary, o, hvisited, hw⟩ => ?_⟩
  · exact ⟨v.boundaryId, o, by simp [ht, hv, hbuffer, ho], hw⟩
  · obtain ⟨t, ht, hp⟩ := Option.bind_eq_some_iff.mp hvisited
    obtain ⟨v, hv, hp⟩ := Option.bind_eq_some_iff.mp hp
    split at hp
    next hbuffer =>
      obtain ⟨-, ho⟩ := Prod.mk.inj (Option.some.inj hp)
      exact ⟨t, v, o, ht, hv, hbuffer, ho, hw⟩
    next => cases hp

/-- What holds in every state reached. -/
structure Inv (cap : Nat → Nat) (s : Retention) : Prop where
  ordered : Ordered s.rows
  fresh : ∀ m ∈ s.rows, m.id < s.nextId
  known : ∀ m ∈ s.rows, m.buffer ∈ s.buffers
  apart : ∀ b ∈ s.buffers, b ∉ s.gone
  ok : ∀ b, b ∉ s.gone → (s.view b).Ok (cap b)

theorem Inv.ordered_of (h : Inv cap s) (b : Nat) : Ordered (s.of b) :=
  h.ordered.sublist List.filter_sublist

theorem of_unknown (h : Inv cap s) {b : Nat} (hb : b ∉ s.buffers) : s.of b = [] := by
  refine List.filter_eq_nil_iff.mpr fun m hm heq => hb ?_
  rw [← of_decide_eq_true heq]
  exact h.known m hm

/-- Rows are told apart by their ids. -/
theorem eq_of_id (h : Ordered s.rows) {m q : MessageRow} (hm : m ∈ s.rows) (hq : q ∈ s.rows)
    (hid : m.id = q.id) : m = q :=
  List.inj_on_of_nodup_map (List.pairwise_map.mpr (h.imp fun hlt => hlt.ne)) hm hq hid

theorem mem_of {b : Nat} {m : MessageRow} : m ∈ s.of b ↔ m ∈ s.rows ∧ m.buffer = b := by
  simp [of]

/-- Rows of one buffer are deleted, all below an id. -/
theorem of_deleteRows (h : Ordered s.rows) {buffer : Nat} {ids : List Nat}
    (hids : ∀ i ∈ ids, i ∈ lineIds (s.of buffer)) (b : Nat) :
    (s.deleteRows ids).of b =
      if b = buffer then (s.of buffer).filter fun m => m.id ∉ ids else s.of b := by
  have hcomm : (s.deleteRows ids).of b = (s.of b).filter fun m => m.id ∉ ids := by
    simp only [of, deleteRows, List.filter_filter, Bool.and_comm]
  rw [hcomm]
  by_cases hb : b = buffer
  · rw [if_pos hb, hb]
  · rw [if_neg hb, List.filter_eq_self]
    intro m hm
    refine decide_eq_true fun hin => hb ?_
    obtain ⟨q, hq, hid⟩ := mem_lineIds.mp (hids m.id hin)
    obtain ⟨hm, hmb⟩ := mem_of.mp hm
    obtain ⟨hq, hqb⟩ := mem_of.mp hq
    rw [← hmb, ← hqb, eq_of_id h hm hq hid.symm]

theorem deletedBelow_of {lines : List MessageRow} {ids : List Nat} {boundary : Nat}
    (hids : ∀ m ∈ lines, m.id ∈ ids → m.id < boundary) :
    DeletedBelow lines (lines.filter fun m => m.id ∉ ids) boundary := by
  refine ⟨List.filter_sublist, fun m hm hle => List.mem_filter.mpr ⟨hm, ?_⟩⟩
  exact decide_eq_true fun hin => absurd (hids m hm hin) (not_lt.mpr hle)

section Visit

variable {lines : List MessageRow} {bookmarks : List Nat} {n boundary : Nat} {awaits : Prop}
  {o : RetentionVisit}

theorem opened_below (h : Opened lines bookmarks n awaits boundary o) (hord : Ordered lines)
    (hcap : 1 ≤ n) (hreached : Reached lines n boundary) (hdone : o.belowCeilingDone = false)
    {ids : List Nat} (hids : ∀ m ∈ lines, m.id ∈ ids → m.id < o.ceilingId) :
    Opened (lines.filter fun m => m.id ∉ ids) bookmarks n awaits boundary o := by
  have hbelow := deletedBelow_of hids
  exact
    { walk := walkOk_delete (hbelow.mono h.ceiling_le) hord hcap hreached h.from_le h.walk
      walk_le := h.walk_le
      from_le := h.from_le
      ceiling_le := h.ceiling_le
      room := fun _ => by
        rw [hbelow.between hord le_rfl]
        exact h.room hdone
      clear := fun _ htrue => by
        rw [hdone] at htrue
        cases htrue
      tight := fun hawaits => (between_grow hbelow.1 _ _).trans (h.tight hawaits) }

theorem opened_clear (h : Opened lines bookmarks n awaits boundary o)
    (hclear : ∀ m ∈ lines, m.id < o.ceilingId → m.id ∈ bookmarks) :
    Opened lines bookmarks n awaits boundary { o with belowCeilingDone := true } :=
  { walk := h.walk
    walk_le := h.walk_le
    from_le := h.from_le
    ceiling_le := h.ceiling_le
    room := fun hfalse => by cases hfalse
    clear := fun _ _ => hclear
    tight := h.tight }

/-- A window of the band is walked: what is left of it is bookmarked or spared. -/
theorem opened_band (h : Opened lines bookmarks n awaits boundary o) (hord : Ordered lines)
    (hcap : 1 ≤ n) (hreached : Reached lines n boundary) (hdone : o.belowCeilingDone = true)
    {low : Nat} (hlow : low ≤ boundary) {ids : List Nat}
    (hids : ∀ m ∈ lines, m.id ∈ ids ↔
      m.id < o.walkFrom ∧ low ≤ m.id ∧ m.id ∉ bookmarks ∧ ¬ Spared lines boundary m) :
    Opened (lines.filter fun m => m.id ∉ ids) bookmarks n awaits boundary
      { o with walkFrom := low } := by
  have hbelow : DeletedBelow lines (lines.filter fun m => m.id ∉ ids) boundary :=
    deletedBelow_of fun m hm hin => ((hids m hm).mp hin).1.trans_le h.walk_le
  have hwalk := walkOk_delete hbelow hord hcap hreached h.from_le h.walk
  refine
    { walk := ⟨hwalk.1, fun htop m hm hle hlt => ?_⟩
      walk_le := hlow
      from_le := h.from_le
      ceiling_le := h.ceiling_le
      room := fun hfalse => ?_
      clear := fun hawaits htrue m hm hlt =>
        h.clear hawaits htrue m (hbelow.1.mem hm) hlt
      tight := fun hawaits => (between_grow hbelow.1 _ _).trans (h.tight hawaits) }
  · by_cases hpassed : o.walkFrom ≤ m.id
    · exact hwalk.2 htop m hm hpassed hlt
    · -- the row was in the window: it was left there for a reason
      obtain ⟨hm, hout⟩ := List.mem_filter.mp hm
      have hout := mt (hids m hm).mpr (of_decide_eq_true hout)
      have heq : o.fromBoundary = boundary := by
        obtain ⟨top, htop', hge⟩ := reached_top (hord.sublist hbelow.1) hcap
          (hbelow.reached hord hreached)
        have := Option.some.inj (htop.symm.trans htop')
        have hle : o.fromBoundary ≤ boundary := h.from_le
        have hge' : top = o.fromBoundary := this.symm
        omega
      by_cases hmarked : m.id ∈ bookmarks
      · exact Or.inl hmarked
      · refine Or.inr ?_
        show Spared _ o.fromBoundary m
        rw [heq]
        refine hbelow.spared.mpr (Classical.not_not.mp fun hunspared => hout ?_)
        exact ⟨not_le.mp hpassed, hle, hmarked, hunspared⟩
  · simp only [hdone] at hfalse
    cases hfalse

end Visit

/-- A batch of one buffer's visit leaves all else as it is. -/
structure BatchFrame (s : Retention) (buffer : Nat) (b : Batch) : Prop where
  rows : b.state.rows.Sublist s.rows
  nextId : b.state.nextId = s.nextId
  bookmarks : b.state.bookmarks = s.bookmarks
  buffers : b.state.buffers = s.buffers
  gone : b.state.gone = s.gone
  dirty : b.state.dirty = s.dirty
  tick : b.state.tick = s.tick
  other : ∀ c, c ≠ buffer → b.state.of c = s.of c ∧ b.state.walks.get? c = s.walks.get? c

/-- What a batch leaves of the buffer and its visit. -/
structure BatchOk (cap : Nat → Nat) (s : Retention) (buffer boundary : Nat) (b : Batch) : Prop where
  deleted : DeletedBelow (s.of buffer) (b.state.of buffer) boundary
  saved : ∀ w, b.state.walks.get? buffer = some w →
    WalkOk (b.state.of buffer) s.bookmarks (cap buffer) w ∧ w.fromBoundary ≤ boundary
  opened : Opened (b.state.of buffer) s.bookmarks (cap buffer) (s.Awaits buffer) boundary b.visit
  done : b.done = true → b.visit.belowCeilingDone = true ∧ b.visit.walkFrom = b.visit.ceilingId

theorem mem_bandRows {buffer boundary low walkFrom : Nat} {m : MessageRow} (hord : Ordered s.rows)
    (hm : m ∈ s.of buffer) : m.id ∈ s.bandRows buffer boundary low walkFrom ↔
      m.id < walkFrom ∧ low ≤ m.id ∧ m.id ∉ s.bookmarks ∧ ¬ Spared (s.of buffer) boundary m := by
  unfold bandRows
  rw [mem_lineIds]
  refine ⟨fun ⟨q, hq, hid⟩ => ?_, fun hwindow => ⟨m, List.mem_filter.mpr ⟨hm, ?_⟩, rfl⟩⟩
  · obtain ⟨hq, hwindow⟩ := List.mem_filter.mp hq
    obtain rfl := eq_of_id hord (mem_of.mp hq).1 (mem_of.mp hm).1 hid
    simpa [and_assoc] using hwindow
  · simpa [and_assoc] using hwindow

theorem bandRows_subset {buffer boundary low walkFrom : Nat} :
    ∀ i ∈ s.bandRows buffer boundary low walkFrom, i ∈ lineIds (s.of buffer) :=
  fun _ hi => (List.filter_sublist.map _).subset hi

section Batch

variable {buffer boundary limit : Nat} {o : RetentionVisit}

theorem frame_delete (hord : Ordered s.rows) {ids : List Nat}
    (hids : ∀ i ∈ ids, i ∈ lineIds (s.of buffer)) {walks : OrderedMap Nat BandWalk}
    (hwalks : ∀ c, c ≠ buffer → walks.get? c = s.walks.get? c) {done : Bool} :
    BatchFrame s buffer ⟨{ s.deleteRows ids with walks := walks }, o, done⟩ where
  rows := List.filter_sublist
  nextId := rfl
  bookmarks := rfl
  buffers := rfl
  gone := rfl
  dirty := rfl
  tick := rfl
  other c hc := ⟨(of_deleteRows hord hids c).trans (if_neg hc), hwalks c hc⟩

/-- Rows that the buffer has below its boundary are deleted, and its walk is put down. -/
theorem batchOk_delete (hord : Ordered s.rows) {ids : List Nat}
    (hids : ∀ i ∈ ids, i ∈ lineIds (s.of buffer))
    (hbelow : ∀ m ∈ s.of buffer, m.id ∈ ids → m.id < boundary) {walks : OrderedMap Nat BandWalk}
    {done : Bool}
    (hopened : Opened ((s.of buffer).filter fun m => m.id ∉ ids) s.bookmarks (cap buffer)
      (s.Awaits buffer) boundary o)
    (hsaved : ∀ w, walks.get? buffer = some w →
      WalkOk ((s.of buffer).filter fun m => m.id ∉ ids) s.bookmarks (cap buffer) w ∧
        w.fromBoundary ≤ boundary)
    (hdone : done = true → o.belowCeilingDone = true ∧ o.walkFrom = o.ceilingId) :
    BatchOk cap s buffer boundary ⟨{ s.deleteRows ids with walks := walks }, o, done⟩ := by
  have hself : ({ s.deleteRows ids with walks := walks } : Retention).of buffer =
      (s.of buffer).filter fun m => m.id ∉ ids :=
    (of_deleteRows hord hids buffer).trans (if_pos rfl)
  exact
    { deleted := by
        rw [hself]
        exact deletedBelow_of hbelow
      saved := by
        rw [hself]
        exact hsaved
      opened := by
        rw [hself]
        exact hopened
      done := hdone }

/-- The walk comes down to the ceiling. -/
theorem deleteBand_last (h : ((rowAtOffset (s.of buffer) (some o.walkFrom) (limit - 1)).all fun i =>
      decide (i ≤ o.ceilingId)) = true) :
    s.deleteBand buffer boundary limit o =
      ⟨{ s.deleteRows (s.bandRows buffer boundary o.ceilingId o.walkFrom) with
          walks := s.walks.delete buffer }, { o with walkFrom := o.ceilingId }, true⟩ := by
  unfold deleteBand
  simp only [h, if_true]
  rfl

/-- The walk stops at a row above the ceiling. -/
theorem deleteBand_more {low : Nat}
    (h : rowAtOffset (s.of buffer) (some o.walkFrom) (limit - 1) = some low)
    (hlow : o.ceilingId < low) :
    s.deleteBand buffer boundary limit o =
      ⟨{ s.deleteRows (s.bandRows buffer boundary low o.walkFrom) with
          walks := s.walks.set buffer ⟨low, o.fromBoundary⟩ }, { o with walkFrom := low }, false⟩ := by
  unfold deleteBand
  simp only [h, Option.all_some, decide_eq_false (not_le.mpr hlow), Bool.false_eq_true, if_false]
  rfl

/-- Either way a window is deleted. -/
theorem deleteBand_cases (s : Retention) (buffer boundary limit : Nat) (o : RetentionVisit) :
    (s.deleteBand buffer boundary limit o =
      ⟨{ s.deleteRows (s.bandRows buffer boundary o.ceilingId o.walkFrom) with
          walks := s.walks.delete buffer }, { o with walkFrom := o.ceilingId }, true⟩) ∨
      ∃ low, rowAtOffset (s.of buffer) (some o.walkFrom) (limit - 1) = some low ∧
        s.deleteBand buffer boundary limit o =
          ⟨{ s.deleteRows (s.bandRows buffer boundary low o.walkFrom) with
              walks := s.walks.set buffer ⟨low, o.fromBoundary⟩ },
            { o with walkFrom := low }, false⟩ := by
  cases hfound : rowAtOffset (s.of buffer) (some o.walkFrom) (limit - 1) with
  | none => exact Or.inl (deleteBand_last (by rw [hfound]; rfl))
  | some low =>
    by_cases hlow : low ≤ o.ceilingId
    · exact Or.inl (deleteBand_last (by simpa [hfound] using hlow))
    · exact Or.inr ⟨low, rfl, deleteBand_more hfound (not_le.mp hlow)⟩

theorem deleteBand_frame (hord : Ordered s.rows) :
    BatchFrame s buffer (s.deleteBand buffer boundary limit o) := by
  obtain heq | ⟨low, -, heq⟩ := deleteBand_cases s buffer boundary limit o
  · rw [heq]
    exact frame_delete hord bandRows_subset fun c hc =>
      (OrderedMap.get?_delete ..).trans (if_neg hc)
  · rw [heq]
    exact frame_delete hord bandRows_subset fun c hc =>
      (OrderedMap.get?_set ..).trans (if_neg hc)

theorem deleteBand_ok (hord : Ordered s.rows) (hcap : 1 ≤ cap buffer)
    (hreached : Reached (s.of buffer) (cap buffer) boundary)
    (ho : Opened (s.of buffer) s.bookmarks (cap buffer) (s.Awaits buffer) boundary o)
    (hdone : o.belowCeilingDone = true) :
    BatchOk cap s buffer boundary (s.deleteBand buffer boundary limit o) := by
  have hord' : Ordered (s.of buffer) := hord.sublist List.filter_sublist
  have hwindow {low : Nat} (hlow : low ≤ boundary) := opened_band ho hord' hcap hreached hdone hlow
    (fun m hm => mem_bandRows hord hm)
  have hbelow {low : Nat} (m : MessageRow) (hm : m ∈ s.of buffer)
      (hin : m.id ∈ s.bandRows buffer boundary low o.walkFrom) : m.id < boundary :=
    ((mem_bandRows hord hm).mp hin).1.trans_le ho.walk_le
  obtain heq | ⟨low, hfound, heq⟩ := deleteBand_cases s buffer boundary limit o
  · rw [heq]
    refine batchOk_delete hord bandRows_subset hbelow (hwindow ho.ceiling_le) (fun w hw => ?_)
      fun _ => ⟨hdone, rfl⟩
    rw [OrderedMap.get?_delete, if_pos rfl] at hw
    cases hw
  · obtain ⟨hlt, -⟩ := rowAtOffset_spec hord' hfound
    have hlow : low ≤ boundary := (hlt.trans_le ho.walk_le).le
    rw [heq]
    refine batchOk_delete hord bandRows_subset hbelow (hwindow hlow) (fun w hw => ?_)
      fun hfalse => absurd hfalse Bool.false_ne_true
    rw [OrderedMap.get?_set, if_pos rfl] at hw
    obtain rfl := Option.some.inj hw
    exact ⟨(hwindow hlow).walk, ho.from_le⟩

theorem mem_belowCandidates {m : MessageRow} (hord : Ordered s.rows) (hm : m ∈ s.of buffer) {n : Nat} :
    m.id ∈ s.belowCandidates buffer n ↔ m.id < n ∧ m.id ∉ s.bookmarks := by
  unfold belowCandidates
  rw [mem_lineIds]
  refine ⟨fun ⟨q, hq, hid⟩ => ?_, fun hbelow => ⟨m, List.mem_filter.mpr ⟨hm, ?_⟩, rfl⟩⟩
  · obtain ⟨hq, hbelow⟩ := List.mem_filter.mp hq
    obtain rfl := eq_of_id hord (mem_of.mp hq).1 (mem_of.mp hm).1 hid
    simpa using hbelow
  · simpa using hbelow

theorem picked_subset {n : Nat} {picked : List Nat}
    (h : Limit.Picks (s.belowCandidates buffer n) limit picked) :
    ∀ i ∈ picked, i ∈ lineIds (s.of buffer) :=
  fun i hi => (List.filter_sublist.map _).subset (h.2.1 i hi)

theorem deleteRows_nil : s.deleteRows [] = s := by simp [deleteRows]

theorem deleteRetentionBatch_frame (hord : Ordered s.rows) {picked : List Nat} {b : Batch}
    (hb : s.deleteRetentionBatch buffer boundary limit o picked = some b) :
    BatchFrame s buffer b := by
  unfold deleteRetentionBatch at hb
  split at hb
  · obtain rfl := Option.some.inj hb
    exact deleteBand_frame hord
  · split at hb
    · next hpicks =>
      have hdelete (o' : RetentionVisit) : BatchFrame s buffer ⟨s.deleteRows picked, o', false⟩ :=
        frame_delete hord (picked_subset hpicks) fun _ _ => rfl
      split at hb
      · obtain rfl := Option.some.inj hb
        exact hdelete _
      · split at hb
        · obtain rfl := Option.some.inj hb
          exact hdelete _
        · obtain rfl : picked = [] := List.length_eq_zero_iff.mp (by omega)
          rw [deleteRows_nil] at hb
          obtain rfl := Option.some.inj hb
          exact deleteBand_frame hord
    · cases hb

/-- A batch of a visit leaves the visit right. -/
theorem deleteRetentionBatch_ok (hord : Ordered s.rows) (hcap : 1 ≤ cap buffer)
    (hreached : Reached (s.of buffer) (cap buffer) boundary)
    (ho : Opened (s.of buffer) s.bookmarks (cap buffer) (s.Awaits buffer) boundary o)
    (hsaved : ∀ w, s.walks.get? buffer = some w →
      WalkOk (s.of buffer) s.bookmarks (cap buffer) w ∧ w.fromBoundary ≤ boundary)
    {picked : List Nat} {b : Batch}
    (hb : s.deleteRetentionBatch buffer boundary limit o picked = some b) :
    BatchOk cap s buffer boundary b := by
  have hord' : Ordered (s.of buffer) := hord.sublist List.filter_sublist
  unfold deleteRetentionBatch at hb
  split at hb
  · obtain rfl := Option.some.inj hb
    exact deleteBand_ok hord hcap hreached ho (by assumption)
  · next hnot =>
    have hdone : o.belowCeilingDone = false := Bool.eq_false_of_not_eq_true hnot
    split at hb
    · next hpicks =>
      have hids := picked_subset hpicks
      have hbelow (m : MessageRow) (hm : m ∈ s.of buffer) (hin : m.id ∈ picked) : m.id < o.ceilingId :=
        ((mem_belowCandidates hord hm).mp (hpicks.2.1 _ hin)).1
      have hopened := opened_below ho hord' hcap hreached hdone hbelow
      have hwalk (w : BandWalk) (hw : s.walks.get? buffer = some w) :
          WalkOk ((s.of buffer).filter fun m => m.id ∉ picked) s.bookmarks (cap buffer) w ∧
            w.fromBoundary ≤ boundary := by
        obtain ⟨hok, hle⟩ := hsaved w hw
        exact ⟨walkOk_delete ((deletedBelow_of hbelow).mono ho.ceiling_le) hord' hcap hreached hle
          hok, hle⟩
      have hclear (hshort : picked.length < limit) (m : MessageRow)
          (hm : m ∈ (s.of buffer).filter fun m => m.id ∉ picked) (hlt : m.id < o.ceilingId) :
          m.id ∈ s.bookmarks := by
        obtain ⟨hm, hout⟩ := List.mem_filter.mp hm
        by_contra hunmarked
        exact of_decide_eq_true hout (Limit.picks_all hpicks hshort _
          ((mem_belowCandidates hord hm).mpr ⟨hlt, hunmarked⟩))
      have hdelete {o' : RetentionVisit} (ho' : Opened ((s.of buffer).filter fun m => m.id ∉ picked)
          s.bookmarks (cap buffer) (s.Awaits buffer) boundary o') :
          BatchOk cap s buffer boundary ⟨s.deleteRows picked, o', false⟩ :=
        batchOk_delete hord hids
          (fun m hm hin => (hbelow m hm hin).trans_le ho.ceiling_le) ho' hwalk
          fun hfalse => absurd hfalse Bool.false_ne_true
      split at hb
      · obtain rfl := Option.some.inj hb
        exact hdelete hopened
      · next hshort =>
        have hcleared := opened_clear hopened (hclear (not_le.mp hshort))
        split at hb
        · obtain rfl := Option.some.inj hb
          exact hdelete hcleared
        · next hempty =>
          obtain rfl : picked = [] := List.length_eq_zero_iff.mp (by omega)
          rw [deleteRows_nil] at hb
          simp only [List.not_mem_nil, not_false_eq_true, decide_true, List.filter_true] at hcleared
          obtain rfl := Option.some.inj hb
          exact deleteBand_ok hord hcap hreached hcleared rfl
    · cases hb

end Batch

/-- A buffer of which nothing has changed. -/
theorem ok_of_view_eq {s' : Retention} {b n : Nat} (h : (s.view b).Ok n) (hof : s'.of b = s.of b)
    (hbookmarks : s'.bookmarks = s.bookmarks) (hsaved : s'.walks.get? b = s.walks.get? b)
    (hvisit : s'.visitOf b = s.visitOf b) (hawaits : s'.Awaits b ↔ s.Awaits b) :
    (s'.view b).Ok n := by
  unfold view at h ⊢
  rw [hof, hbookmarks, hsaved, hvisit, propext hawaits]
  exact h

theorem mem_dirty_mark {b c : Nat} : b ∈ (s.markBufferDirty c).dirty ↔ b ∈ s.dirty ∨ b = c := by
  unfold markBufferDirty
  split
  next hin => exact ⟨Or.inl, fun h => h.elim id fun heq => heq ▸ hin⟩
  next => simp

theorem awaits_mark {b c : Nat} : (s.markBufferDirty c).Awaits b ↔ s.Awaits b ∨ b = c := by
  show b ∈ (s.markBufferDirty c).dirty ∨ _ ↔ (b ∈ s.dirty ∨ _) ∨ b = c
  rw [mem_dirty_mark, or_right_comm]
  rfl

/-- Rows have come to a buffer, which awaits the sweeper. -/
theorem view_grow {s' : Retention} {b : Nat} (hbookmarks : s'.bookmarks = s.bookmarks)
    (hsaved : s'.walks.get? b = s.walks.get? b) (hvisit : s'.visitOf b = s.visitOf b)
    (hawaits : s'.Awaits b) : s'.view b = { s.view b with lines := s'.of b, awaits := True } := by
  unfold view
  rw [hbookmarks, hsaved, hvisit, eq_true hawaits]

theorem mem_dirty_foldl {b : Nat} (l : List Nat) :
    b ∈ (l.foldl markBufferDirty s).dirty ↔ b ∈ s.dirty ∨ b ∈ l := by
  induction l generalizing s with
  | nil => simp
  | cons c l ih => rw [List.foldl_cons, ih, mem_dirty_mark, List.mem_cons, or_assoc]

/-- Marking buffers dirty changes nothing else. -/
theorem foldl_mark (l : List Nat) : l.foldl markBufferDirty s =
    { s with dirty := (l.foldl markBufferDirty s).dirty } := by
  induction l generalizing s with
  | nil => rfl
  | cons c l ih =>
    rw [List.foldl_cons, ih]
    rfl

theorem awaits_iff_of_tick {t : Tick} (ht : s.tick = some t) {b : Nat} :
    s.Awaits b ↔ b ∈ s.dirty ∨ b ∈ t.pending := by
  simp [Awaits, ht]

theorem awaits_iff_of_idle (ht : s.tick = none) {b : Nat} : s.Awaits b ↔ b ∈ s.dirty := by
  simp [Awaits, ht]

theorem Inv.of_sublist (h : Inv cap s) {s' : Retention} (hrows : s'.rows.Sublist s.rows)
    (hnext : s'.nextId = s.nextId) (hbuffers : s'.buffers = s.buffers) (hgone : s'.gone = s.gone)
    (hok : ∀ b, b ∉ s.gone → (s'.view b).Ok (cap b)) : Inv cap s' where
  ordered := h.ordered.sublist hrows
  fresh m hm := by
    rw [hnext]
    exact h.fresh m (hrows.mem hm)
  known m hm := by
    rw [hbuffers]
    exact h.known m (hrows.mem hm)
  apart b hb := by
    rw [hgone]
    exact h.apart b (hbuffers ▸ hb)
  ok b hb := hok b (hgone ▸ hb)

theorem inv_start : Inv cap start where
  ordered := List.Pairwise.nil
  fresh m hm := by cases hm
  known m hm := by cases hm
  apart b hb := by cases hb
  ok b _ :=
    { saved := fun w hw => by cases hw
      visiting := fun boundary visit hvisited => by cases hvisited
      settled := fun _ _ _ _ m hm => by cases hm }

theorem inv_create (h : Inv cap s) (buffer : Nat) : Inv cap (s.step cap (.create buffer)) := by
  simp only [step]
  split
  next => exact h
  next hnew =>
    refine ⟨h.ordered, h.fresh, fun m hm => List.mem_append_left _ (h.known m hm), fun b hb => ?_,
      h.ok⟩
    obtain hb | rfl := by simpa using hb
    · exact h.apart b hb
    · exact fun hgone => hnew (Or.inr hgone)

/-- A row comes in. -/
theorem inv_insert (h : Inv cap s) (hcap : ∀ b, 1 ≤ cap b) (buffer : Nat)
    (msgid root : Option String) (line : Bool) :
    Inv cap (s.step cap (.insert buffer msgid root line)) := by
  simp only [step]
  split
  next hknown =>
    set row : MessageRow := ⟨s.nextId, buffer, msgid, root, line⟩
    have hord : Ordered (s.rows ++ [row]) := by
      refine List.pairwise_append.mpr ⟨h.ordered, List.pairwise_singleton _ _, fun m hm q hq => ?_⟩
      rw [List.mem_singleton.mp hq]
      exact h.fresh m hm
    refine ⟨hord, fun m hm => ?_, fun m hm => ?_, h.apart, fun b hb => ?_⟩
    · show m.id < s.nextId + 1
      rcases List.mem_append.mp hm with hm | hm
      · have := h.fresh m hm
        omega
      · rw [List.mem_singleton.mp hm]
        exact Nat.lt_succ_self _
    · rcases List.mem_append.mp hm with hm | hm
      · exact h.known m hm
      · rw [List.mem_singleton.mp hm]
        exact hknown
    · by_cases hbuffer : b = buffer
      · subst hbuffer
        have hsub : (s.of b).Sublist (Retention.of { s with rows := s.rows ++ [row] } b) :=
          (List.sublist_append_left _ _).filter _
        have hin : row ∈ Retention.of { s with rows := s.rows ++ [row] } b := by
          simp [of, row]
        have hout : row ∉ s.of b := fun hrow =>
          absurd (h.fresh row (mem_of.mp hrow).1) (lt_irrefl _)
        have hgrown := ok_grow (h.ok b hb) hsub (hord.sublist List.filter_sublist) (hcap b)
          fun w hw => Or.inr ⟨row, hin, hout, ?_⟩
        · rw [view_grow rfl rfl rfl (awaits_mark.mpr (Or.inr rfl))]
          exact hgrown
        · obtain ⟨m, hm, hle⟩ := exists_of_reached (hcap b) ((h.ok b hb).walk hw).1
          exact hle.trans (h.fresh m (mem_of.mp hm).1).le
      · refine ok_of_view_eq (h.ok b hb) ?_ rfl rfl rfl ?_
        · simp [of, markBufferDirty, row, Ne.symm hbuffer]
        · exact awaits_mark.trans (or_iff_left hbuffer)
  next => exact h

theorem inv_bookmark (h : Inv cap s) (id : Nat) : Inv cap (s.step cap (.bookmark id)) :=
  ⟨h.ordered, h.fresh, h.known, h.apart,
    fun b hb => ok_bookmark (List.subset_append_left _ _) (h.ok b hb)⟩

section Absorb

variable {survivor absorbed : Nat}

/-- The rows of the survivor are there as before, and those of the absorbed buffer come to
them under their ids. -/
theorem mem_of_absorb (hne : survivor ≠ absorbed) {m : MessageRow} :
    m ∈ (s.repointMessages survivor absorbed).of survivor ↔
      m ∈ s.of survivor ∨ ∃ q ∈ s.of absorbed, m = { q with buffer := survivor } := by
  simp only [of, repointMessages, List.mem_filter, List.mem_map, decide_eq_true_eq]
  constructor
  · rintro ⟨⟨q, hq, rfl⟩, hbuffer⟩
    split at hbuffer
    next habsorbed =>
      rw [if_pos habsorbed]
      exact Or.inr ⟨q, ⟨hq, habsorbed⟩, rfl⟩
    next hother =>
      rw [if_neg hother]
      exact Or.inl ⟨hq, hbuffer⟩
  · rintro (⟨hm, hbuffer⟩ | ⟨q, ⟨hq, habsorbed⟩, rfl⟩)
    · exact ⟨⟨m, hm, if_neg (hbuffer.trans_ne hne)⟩, hbuffer⟩
    · exact ⟨⟨q, hq, if_pos habsorbed⟩, rfl⟩

/-- Repointing leaves the rows of a buffer that is not absorbed as they are. -/
theorem map_repoint_of (survivor : Nat) {b : Nat} (habsorbed : b ≠ absorbed) :
    ((s.of b).map fun m => if m.buffer = absorbed then { m with buffer := survivor } else m) =
      s.of b := by
  rw [List.map_congr_left (g := id) fun m hm => ?_, List.map_id]
  exact if_neg ((mem_of.mp hm).2.trans_ne habsorbed)

theorem of_absorb_other {b : Nat} (hsurvivor : b ≠ survivor) (habsorbed : b ≠ absorbed) :
    (s.repointMessages survivor absorbed).of b = s.of b := by
  refine Eq.trans ?_ (map_repoint_of survivor habsorbed)
  unfold of repointMessages
  rw [List.filter_map]
  refine congrArg _ (List.filter_congr fun m _ => ?_)
  simp only [Function.comp_apply]
  split
  next hm =>
    rw [hm, decide_eq_false hsurvivor.symm, decide_eq_false habsorbed.symm]
  next => rfl

theorem of_absorb_survivor (hne : survivor ≠ absorbed) :
    (s.of survivor).Sublist ((s.repointMessages survivor absorbed).of survivor) := by
  rw [← map_repoint_of (s := s) survivor hne]
  unfold of repointMessages
  rw [List.filter_map]
  refine List.Sublist.map _ (List.monotone_filter_right _ fun m hm => ?_)
  simp only [Function.comp_apply]
  rwa [if_neg ((of_decide_eq_true hm).trans_ne hne)]

theorem length_of_absorb (hne : survivor ≠ absorbed) :
    ((s.repointMessages survivor absorbed).of survivor).length =
      (s.of survivor).length + (s.of absorbed).length := by
  unfold of repointMessages
  rw [List.filter_map, List.length_map]
  induction s.rows with
  | nil => rfl
  | cons m l ih =>
    simp only [Function.comp_def, List.filter_cons, decide_eq_true_eq] at ih ⊢
    by_cases ha : m.buffer = absorbed
    · have hs : m.buffer ≠ survivor := ha.trans_ne hne.symm
      simp only [if_pos ha, if_neg hs, if_true, List.length_cons]
      omega
    · simp only [if_neg ha]
      split
      · simp only [List.length_cons]
        omega
      · exact ih

theorem ordered_repoint (h : Ordered s.rows) :
    Ordered (s.repointMessages survivor absorbed).rows := by
  refine List.pairwise_map.mpr (h.imp fun {m q} hlt => ?_)
  split <;> split <;> exact hlt

/-- The survivor takes the absorbed buffer's rows. -/
theorem ok_absorb (h : Inv cap s) (hcap : ∀ b, 1 ≤ cap b) (hne : survivor ≠ absorbed)
    (hsurvivor : survivor ∉ s.gone) (hharmless : s.Harmless cap (.absorb survivor absorbed))
    {s' : Retention} (hrows : s'.rows = (s.repointMessages survivor absorbed).rows)
    (hbookmarks : s'.bookmarks = s.bookmarks) (hsaved : s'.walks = s.walks)
    (hdirty : s'.dirty = s.dirty) (htick : s'.tick = s.tick) :
    (s'.view survivor).Ok (cap survivor) := by
  have hof : s'.of survivor = (s.repointMessages survivor absorbed).of survivor := by
    simp only [of, hrows]
  have hvisit : s'.visitOf survivor = s.visitOf survivor := by simp only [visitOf, htick]
  have hawaits : s'.Awaits survivor ↔ s.Awaits survivor := by simp only [Awaits, hdirty, htick]
  have hsub := of_absorb_survivor (s := s) hne
  have hrepointed : Ordered (s.repointMessages survivor absorbed).rows := ordered_repoint h.ordered
  have hord := hrepointed.sublist
    (List.filter_sublist (p := fun m => decide (m.buffer = survivor)))
  have hok := h.ok survivor hsurvivor
  have hlength := length_of_absorb (s := s) hne
  have hquiet (hempty : s.of absorbed = []) : (s'.view survivor).Ok (cap survivor) := by
    rw [hempty, List.length_nil, Nat.add_zero] at hlength
    refine ok_of_view_eq hok ?_ hbookmarks (by rw [hsaved]) hvisit hawaits
    rw [hof, hsub.eq_of_length hlength.symm]
  obtain hempty | hshort | ⟨hawaiting, hwalks⟩ := hharmless
  · exact hquiet hempty
  · by_cases hreached : ∃ boundary, Reached (s.of survivor) (cap survivor) boundary
    · -- the survivor has its cap of rows, so the absorbed buffer had none
      obtain ⟨boundary, hreached⟩ := hreached
      have hlong := reached_length hreached
      exact hquiet (List.length_eq_zero_iff.mp (by omega))
    · refine ⟨fun w hw => ?_, fun boundary visit hvisited => ?_, fun _ _ => ?_⟩
      · rw [view, hsaved] at hw
        exact absurd ⟨_, (hok.saved w hw).1⟩ hreached
      · rw [view, hvisit] at hvisited
        exact absurd ⟨_, (hok.visiting boundary visit hvisited).reached⟩ hreached
      · show Settled (s'.of survivor) s'.bookmarks (cap survivor)
        rw [hof]
        exact settled_of_short hord (hcap survivor) (by omega)
  · rw [view_grow hbookmarks (by rw [hsaved]) hvisit (hawaits.mpr hawaiting), hof]
    refine ok_grow hok hsub hord (hcap survivor) fun w hw => ?_
    refine (hwalks w (walkOf_iff.mpr hw)).imp (fun hnone m hm hout => ?_) fun ⟨q, hq, hle⟩ => ?_
    · obtain hold | ⟨q, hq, rfl⟩ := (mem_of_absorb hne).mp hm
      · exact absurd hold hout
      · exact hnone q hq
    · refine ⟨{ q with buffer := survivor }, (mem_of_absorb hne).mpr (Or.inr ⟨q, hq, rfl⟩),
        fun hold => ?_, hle⟩
      -- the row would be in both buffers
      have hsame := eq_of_id h.ordered (mem_of.mp hold).1 (mem_of.mp hq).1 rfl
      have hbuffer : q.buffer = survivor := by rw [← hsame]
      exact hne (hbuffer.symm.trans (mem_of.mp hq).2)

theorem inv_absorb (h : Inv cap s) (hcap : ∀ b, 1 ≤ cap b)
    (hharmless : s.Harmless cap (.absorb survivor absorbed)) :
    Inv cap (s.step cap (.absorb survivor absorbed)) := by
  simp only [step]
  split
  next hknown =>
    obtain ⟨hne, hsurvivor, habsorbed⟩ := hknown
    have hids (m : MessageRow) (hm : m ∈ (s.repointMessages survivor absorbed).rows) :
        ∃ q ∈ s.rows, m.id = q.id ∧ (m.buffer = survivor ∨ m.buffer = q.buffer ∧
          q.buffer ≠ absorbed) := by
      obtain ⟨q, hq, rfl⟩ := List.mem_map.mp hm
      refine ⟨q, hq, ?_⟩
      split
      next => exact ⟨rfl, Or.inl rfl⟩
      next hother => exact ⟨rfl, Or.inr ⟨rfl, hother⟩⟩
    refine ⟨ordered_repoint h.ordered, fun m hm => ?_, fun m hm => ?_, fun b hb => ?_,
      fun b hb => ?_⟩
    · obtain ⟨q, hq, hid, -⟩ := hids m hm
      exact hid.trans_lt (h.fresh q hq)
    · obtain ⟨q, hq, -, hbuffer | ⟨hbuffer, hother⟩⟩ := hids m hm
      · exact List.mem_filter.mpr ⟨hbuffer ▸ hsurvivor, by simp [hbuffer, hne]⟩
      · exact List.mem_filter.mpr ⟨hbuffer ▸ h.known q hq, by simp [hbuffer, hother]⟩
    · obtain ⟨hb, hother⟩ := List.mem_filter.mp hb
      have hother := of_decide_eq_true hother
      simp only [List.mem_append, List.mem_singleton, not_or]
      exact ⟨h.apart b hb, hother⟩
    · simp only [List.mem_append, List.mem_singleton, not_or] at hb
      by_cases hb' : b = survivor
      · subst hb'
        exact ok_absorb h hcap hne hb.1 hharmless rfl rfl rfl rfl rfl
      · exact ok_of_view_eq (h.ok b hb.1) (of_absorb_other hb' hb.2) rfl rfl rfl Iff.rfl
  next => exact h

end Absorb

theorem visitOf_idle (h : ∀ t, s.tick = some t → t.current = none) (b : Nat) :
    s.visitOf b = none := by
  unfold visitOf
  cases ht : s.tick with
  | none => rfl
  | some t =>
    show t.current.bind _ = none
    rw [h t ht]
    rfl

theorem inv_tick (h : Inv cap s) : Inv cap (s.step cap .tick) := by
  simp only [step]
  split
  next => exact h
  next hidle =>
    refine h.of_sublist (List.Sublist.refl _) rfl rfl rfl fun b hb => ?_
    refine ok_of_view_eq (h.ok b hb) rfl rfl rfl ?_ ?_
    · rw [visitOf_idle (fun t ht => ?_) b, visitOf_idle (fun t ht => ?_) b]
      · rw [hidle] at ht
        cases ht
      · obtain rfl := Option.some.inj ht
        rfl
    · rw [awaits_iff_of_tick rfl, awaits_iff_of_idle hidle]
      simp

theorem inv_skip (h : Inv cap s) : Inv cap (s.step cap .skip) := by
  simp only [step]
  split
  next buffer pending ht =>
    refine h.of_sublist (List.Sublist.refl _) rfl rfl rfl fun b hb => ?_
    refine ok_of_view_eq (h.ok b hb) rfl rfl rfl ?_ ?_
    · rw [visitOf_idle (fun t ht' => ?_) b, visitOf_idle (fun t ht' => ?_) b]
      · obtain rfl := Option.some.inj (ht.symm.trans ht')
        rfl
      · obtain rfl := Option.some.inj ht'
        rfl
    · rw [awaits_iff_of_tick (s := (s.markBufferDirty buffer).leave pending) rfl,
        awaits_iff_of_tick ht]
      show b ∈ (s.markBufferDirty buffer).dirty ∨ b ∈ pending ↔ _
      rw [mem_dirty_mark, List.mem_cons]
      exact or_assoc
  next => exact h

theorem inv_finish (h : Inv cap s) : Inv cap (s.step cap .finish) := by
  simp only [step]
  split
  next ht =>
    refine h.of_sublist (List.Sublist.refl _) rfl rfl rfl fun b hb => ?_
    refine ok_of_view_eq (h.ok b hb) rfl rfl rfl ?_ ?_
    · rw [visitOf_idle (fun t ht' => ?_) b, visitOf_idle (fun t ht' => ?_) b]
      · obtain rfl := Option.some.inj (ht.symm.trans ht')
        rfl
      · cases ht'
    · rw [awaits_iff_of_idle rfl, awaits_iff_of_tick ht]
      simp
  next => exact h

/-- The sweeper comes to a buffer: nothing has changed of the others. -/
theorem ok_probe_other (h : Inv cap s) {buffer : Nat} {pending : List Nat}
    (ht : s.tick = some ⟨buffer :: pending, none⟩) (s' : Retention) {current : Option Visited}
    (hrows : s'.rows = s.rows) (hbookmarks : s'.bookmarks = s.bookmarks)
    (hdirty : s'.dirty = s.dirty) (htick : s'.tick = some ⟨pending, current⟩)
    (hcurrent : ∀ v, current = some v → v.buffer = buffer) {b : Nat} (hb : b ∉ s.gone)
    (hother : b ≠ buffer) (hsaved : s'.walks.get? b = s.walks.get? b) :
    (s'.view b).Ok (cap b) := by
  refine ok_of_view_eq (h.ok b hb) (by simp only [of, hrows]) hbookmarks hsaved ?_ ?_
  · rw [visitOf_idle (s := s) (fun t ht' => ?_) b]
    · unfold visitOf
      rw [htick]
      show current.bind _ = none
      cases hv : current with
      | none => rfl
      | some v => exact if_neg fun heq => hother (heq.symm.trans (hcurrent v hv))
    · obtain rfl := Option.some.inj (ht.symm.trans ht')
      rfl
  · rw [awaits_iff_of_tick htick, awaits_iff_of_tick ht, hdirty]
    simp [hother]

theorem inv_probe (h : Inv cap s) (hcap : ∀ b, 1 ≤ cap b) : Inv cap (s.step cap .probe) := by
  have hdropped {buffer : Nat} {pending : List Nat}
      (ht : s.tick = some ⟨buffer :: pending, none⟩)
      (hnone : retentionBoundaryId (s.of buffer) (cap buffer) = none) :
      Inv cap ((s.dropBandWalk buffer).leave pending) := by
    refine h.of_sublist (List.Sublist.refl _) rfl rfl rfl fun b hb => ?_
    by_cases hother : b = buffer
    · subst hother
      have hview : ((s.dropBandWalk b).leave pending).view b = { s.view b with
          saved := none, visited := none, awaits := ((s.dropBandWalk b).leave pending).Awaits b } := by
        unfold view
        rw [visitOf_idle (s := (s.dropBandWalk b).leave pending) (fun t ht' => ?_) b]
        · simp only [leave, dropBandWalk, OrderedMap.get?_delete, if_true]
          rfl
        · obtain rfl := Option.some.inj ht'
          rfl
      rw [hview]
      exact ok_short hnone _
    · refine ok_probe_other h ht ((s.dropBandWalk buffer).leave pending) rfl rfl rfl rfl
        (fun v hv => ?_) hb hother ?_
      · cases hv
      · exact (OrderedMap.get?_delete ..).trans (if_neg hother)
  simp only [step]
  split
  next buffer pending ht =>
    split
    next hgone =>
      refine hdropped ht ?_
      rw [of_unknown h hgone]
      exact boundary_none_of_short (hcap buffer)
    next =>
      split
      next hnone => exact hdropped ht hnone
      next boundary htop =>
        refine h.of_sublist (List.Sublist.refl _) rfl rfl rfl fun b hb => ?_
        by_cases hother : b = buffer
        · subst hother
          have hprobed := ok_probe (h.ok b hb) (h.ordered_of b) (hcap b) htop
            (Retention.Awaits { s with tick := some ⟨pending, some ⟨b, boundary, none⟩⟩ } b)
          have hview : Retention.view { s with tick := some ⟨pending, some ⟨b, boundary, none⟩⟩ } b =
              { s.view b with
                visited := some (boundary, none)
                awaits := Retention.Awaits
                  { s with tick := some ⟨pending, some ⟨b, boundary, none⟩⟩ } b } := by
            simp [view, visitOf, of]
          rw [hview]
          exact hprobed
        · refine ok_probe_other h ht { s with tick := some ⟨pending, some ⟨buffer, boundary, none⟩⟩ }
            rfl rfl rfl rfl (fun v hv => ?_) hb hother rfl
          obtain rfl := Option.some.inj hv
          rfl
  next => exact h

/-- The buffer visited has a visit. -/
theorem visitOf_current {t : Tick} {v : Visited} (ht : s.tick = some t) (hv : t.current = some v)
    (b : Nat) : s.visitOf b = if v.buffer = b then some (v.boundaryId, v.visit) else none := by
  simp [visitOf, ht, hv]

/-- What the sweeper opens a visit with is right. -/
theorem opened_new {b boundary : Nat} (hok : (s.view b).Ok (cap b)) (hord : Ordered (s.of b))
    (hcap : 1 ≤ cap b) (hv : Visiting (cap b) (s.view b) boundary none) :
    Opened (s.of b) s.bookmarks (cap b) (s.Awaits b) boundary
      (s.newRetentionVisit cap b boundary) := by
  obtain ⟨hle, hroom, htight⟩ := ceiling_new hord hcap
  set ceiling := (rowAtOffset (s.of b) (some boundary) (cap b - 1)).getD 0 with hceiling
  have hbegin : Opened (s.of b) s.bookmarks (cap b) (s.Awaits b) boundary
      ⟨ceiling, boundary, decide (ceiling = 0), boundary⟩ :=
    { walk := walkOk_begin hv.reached
      walk_le := le_rfl
      from_le := le_rfl
      ceiling_le := hle
      room := fun hdone => hroom (of_decide_eq_false hdone)
      clear := fun _ hdone m _ hlt => by
        have hzero : ceiling = 0 := of_decide_eq_true hdone
        exact absurd (hlt.trans_eq hzero) (Nat.not_lt_zero _)
      tight := fun _ => htight }
  unfold newRetentionVisit
  simp only [← hceiling]
  split
  next saved hsaved =>
    split
    next hresume =>
      exact
        { hbegin with
          walk := hok.saved saved hsaved
          walk_le := hresume.1.le
          from_le := hv.earlier saved hsaved }
    next => exact hbegin
  next => exact hbegin

theorem inv_visit (h : Inv cap s) (hcap : ∀ b, 1 ≤ cap b) : Inv cap (s.step cap .visit) := by
  simp only [step]
  split
  next pending buffer boundary ht =>
    refine h.of_sublist (List.Sublist.refl _) rfl rfl rfl fun b hb => ?_
    have hvisit := visitOf_current ht rfl b
    set o := s.newRetentionVisit cap buffer boundary with ho
    have hvisit' := visitOf_current (s := { s with
      tick := some ⟨pending, some ⟨buffer, boundary, some o⟩⟩ }) rfl rfl b
    by_cases hother : buffer = b
    · subst hother
      simp only [if_true] at hvisit hvisit'
      have hok := h.ok buffer hb
      have hv := hok.visiting boundary none hvisit
      have hopened := opened_new hok (h.ordered_of buffer) (hcap buffer) hv
      have hawaits : Retention.Awaits { s with
          tick := some ⟨pending, some ⟨buffer, boundary, some o⟩⟩ } buffer ↔ s.Awaits buffer := by
        rw [awaits_iff_of_tick rfl, awaits_iff_of_tick ht]
      refine ⟨hok.saved, fun boundary' visit hvisited => ?_, fun _ hnone => ?_⟩
      · obtain ⟨rfl, rfl⟩ := Prod.mk.inj (Option.some.inj (hvisit'.symm.trans hvisited))
        refine ⟨hv.reached, fun hout => hv.top (mt hawaits.mpr hout), hv.earlier, fun o' ho' => ?_⟩
        obtain rfl := Option.some.inj ho'
        show Opened (s.of buffer) s.bookmarks (cap buffer) (Retention.Awaits _ buffer) boundary o
        rw [propext hawaits]
        exact hopened
      · exact absurd (hvisit'.symm.trans hnone) (by simp)
    · rw [if_neg hother] at hvisit hvisit'
      refine ok_of_view_eq (h.ok b hb) rfl rfl rfl (hvisit'.trans hvisit.symm) ?_
      rw [awaits_iff_of_tick rfl, awaits_iff_of_tick ht]
  next => exact h

/-- After a batch the sweeper leaves the buffer, puts it back, or goes on with the visit. -/
theorem afterBatch_cases (b : Batch) (pending : List Nat) (buffer boundary : Nat)
    (outOfBudget : Bool) :
    (b.done = true ∧ b.visit.fromBoundary = boundary ∧
      afterBatch b pending buffer boundary outOfBudget = b.state.leave pending) ∨
    (afterBatch b pending buffer boundary outOfBudget =
      (b.state.markBufferDirty buffer).leave pending) ∨
    ∃ o, (o = b.visit ∨ o = { b.visit with walkFrom := boundary, fromBoundary := boundary }) ∧
      afterBatch b pending buffer boundary outOfBudget =
        { b.state with tick := some ⟨pending, some ⟨buffer, boundary, some o⟩⟩ } := by
  by_cases hdone : b.done = true
  · by_cases hfrom : b.visit.fromBoundary = boundary
    · exact Or.inl ⟨hdone, hfrom, by simp [afterBatch, hdone, hfrom]⟩
    · cases outOfBudget with
      | true => exact Or.inr (Or.inl (by simp [afterBatch, hdone, hfrom]))
      | false => exact Or.inr (Or.inr ⟨_, Or.inr rfl, by simp [afterBatch, hdone, hfrom]⟩)
  · cases outOfBudget with
    | true => exact Or.inr (Or.inl (by simp [afterBatch, hdone]))
    | false => exact Or.inr (Or.inr ⟨_, Or.inl rfl, by simp [afterBatch, hdone]⟩)

section AfterBatch

variable {buffer boundary : Nat} {pending : List Nat} {o : RetentionVisit} {b : Batch}

/-- A batch changes nothing of the other buffers. -/
theorem ok_batch_other (h : Inv cap s)
    (ht : s.tick = some ⟨pending, some ⟨buffer, boundary, some o⟩⟩) (hb : BatchFrame s buffer b)
    (s' : Retention) {current : Option Visited} (hrows : s'.rows = b.state.rows)
    (hbookmarks : s'.bookmarks = b.state.bookmarks) (hwalks : s'.walks = b.state.walks)
    (hdirty : ∀ c, c ≠ buffer → (c ∈ s'.dirty ↔ c ∈ b.state.dirty))
    (htick : s'.tick = some ⟨pending, current⟩) (hcurrent : ∀ v, current = some v → v.buffer = buffer)
    {c : Nat} (hc : c ∉ s.gone) (hother : c ≠ buffer) : (s'.view c).Ok (cap c) := by
  obtain ⟨hof, hsaved⟩ := hb.other c hother
  refine ok_of_view_eq (h.ok c hc) ?_ (hbookmarks.trans hb.bookmarks) ?_ ?_ ?_
  · rw [← hof]
    simp only [of, hrows]
  · rw [hwalks, hsaved]
  · rw [visitOf_current ht rfl, if_neg (Ne.symm hother)]
    unfold visitOf
    rw [htick]
    show current.bind _ = none
    cases hv : current with
    | none => rfl
    | some v => exact if_neg fun heq => hother (heq.symm.trans (hcurrent v hv))
  · rw [awaits_iff_of_tick htick, awaits_iff_of_tick ht, hdirty c hother, hb.dirty]

/-- The buffer is left, settled if nobody will come back. -/
theorem ok_batch_left (h : Inv cap s) (hcap : 1 ≤ cap buffer)
    (ht : s.tick = some ⟨pending, some ⟨buffer, boundary, some o⟩⟩) (hb : BatchFrame s buffer b)
    (hok : BatchOk cap s buffer boundary b) (hv : Visiting (cap buffer) (s.view buffer) boundary o)
    (hdone : b.done = true) (hfrom : b.visit.fromBoundary = boundary) :
    ((b.state.leave pending).view buffer).Ok (cap buffer) := by
  have hord := h.ordered_of buffer
  have hawaits : (b.state.leave pending).Awaits buffer ↔ s.Awaits buffer := by
    rw [awaits_iff_of_tick (s := b.state.leave pending) rfl, awaits_iff_of_tick ht]
    show buffer ∈ b.state.dirty ∨ buffer ∈ pending ↔ _
    rw [hb.dirty]
  have hbookmarks : (b.state.leave pending).bookmarks = s.bookmarks := hb.bookmarks
  refine ⟨fun w hw => ?_, fun boundary' visit hvisited => ?_, fun hout _ => ?_⟩
  · show WalkOk _ (b.state.leave pending).bookmarks _ w
    rw [hbookmarks]
    exact (hok.saved w hw).1
  · have hidle := visitOf_idle (s := b.state.leave pending) (fun t ht' => by
      obtain rfl := Option.some.inj ht'
      rfl) buffer
    exact absurd (hidle.symm.trans hvisited) (by simp)
  · show Settled (b.state.of buffer) (b.state.leave pending).bookmarks _
    rw [hbookmarks]
    have hout' : ¬ s.Awaits buffer := fun hin => hout (hawaits.mpr hin)
    obtain ⟨hclear, hdown⟩ := hok.done hdone
    refine settled_of_opened hok.opened hout' (hord.sublist hok.deleted.1) ?_ hclear hdown hfrom
    rw [hok.deleted.top hord hcap hv.reached]
    exact hv.top hout'

/-- The buffer is put back. -/
theorem ok_batch_back (hb : BatchFrame s buffer b) (hok : BatchOk cap s buffer boundary b) :
    (((b.state.markBufferDirty buffer).leave pending).view buffer).Ok (cap buffer) := by
  have hawaits : ((b.state.markBufferDirty buffer).leave pending).Awaits buffer :=
    Or.inl (mem_dirty_mark.mpr (Or.inr rfl))
  refine ⟨fun w hw => ?_, fun boundary' visit hvisited => ?_, fun hout _ => absurd hawaits hout⟩
  · show WalkOk _ b.state.bookmarks _ w
    rw [hb.bookmarks]
    exact (hok.saved w hw).1
  · have hidle := visitOf_idle (s := (b.state.markBufferDirty buffer).leave pending) (fun t ht' => by
      obtain rfl := Option.some.inj ht'
      rfl) buffer
    exact absurd (hidle.symm.trans hvisited) (by simp)

/-- The visit goes on. -/
theorem ok_batch_on (h : Inv cap s) (hcap : 1 ≤ cap buffer)
    (ht : s.tick = some ⟨pending, some ⟨buffer, boundary, some o⟩⟩) (hb : BatchFrame s buffer b)
    (hok : BatchOk cap s buffer boundary b) (hv : Visiting (cap buffer) (s.view buffer) boundary o)
    {o' : RetentionVisit}
    (ho : o' = b.visit ∨ o' = { b.visit with walkFrom := boundary, fromBoundary := boundary }) :
    (Retention.view { b.state with
      tick := some ⟨pending, some ⟨buffer, boundary, some o'⟩⟩ } buffer).Ok (cap buffer) := by
  have hord := h.ordered_of buffer
  set s' : Retention := { b.state with
    tick := some ⟨pending, some ⟨buffer, boundary, some o'⟩⟩ } with hs'
  have hawaits : s'.Awaits buffer ↔ s.Awaits buffer := by
    rw [awaits_iff_of_tick (s := s') rfl, awaits_iff_of_tick ht, ← hb.dirty]
  have hvisit : s'.visitOf buffer = some (boundary, some o') :=
    (visitOf_current (s := s') rfl rfl buffer).trans (if_pos rfl)
  have hreached := hok.deleted.reached hord hv.reached
  have hopened : Opened (b.state.of buffer) s.bookmarks (cap buffer) (s.Awaits buffer) boundary
      o' := by
    rcases ho with rfl | rfl
    · exact hok.opened
    · exact
        { hok.opened with
          walk := walkOk_begin hreached
          walk_le := le_rfl
          from_le := le_rfl }
  have hbookmarks : s'.bookmarks = s.bookmarks := hb.bookmarks
  refine ⟨fun w hw => ?_, fun boundary' visit hvisited => ?_, fun _ hnone => ?_⟩
  · show WalkOk _ s'.bookmarks _ w
    rw [hbookmarks]
    exact (hok.saved w hw).1
  · obtain ⟨rfl, rfl⟩ := Prod.mk.inj (Option.some.inj (hvisit.symm.trans hvisited))
    refine ⟨hreached, fun hout => ?_, fun w hw => (hok.saved w hw).2, fun o'' ho'' => ?_⟩
    · exact (hok.deleted.top hord hcap hv.reached).trans
        (hv.top fun hin => hout (hawaits.mpr hin))
    · obtain rfl := Option.some.inj ho''
      show Opened (b.state.of buffer) s'.bookmarks (cap buffer) (s'.Awaits buffer) boundary o'
      rw [hbookmarks, propext hawaits]
      exact hopened
  · exact absurd (hvisit.symm.trans hnone) (by simp)

end AfterBatch

theorem inv_batch (h : Inv cap s) (hcap : ∀ b, 1 ≤ cap b) (picked : List Nat)
    (batchRows minBatchRows adapted : Nat) (outOfBudget : Bool) :
    Inv cap (s.step cap (.batch picked batchRows minBatchRows adapted outOfBudget)) := by
  simp only [step]
  split
  next pending buffer boundary o ht =>
    split
    next => exact h
    next b hb =>
      have hframe := deleteRetentionBatch_frame h.ordered hb
      have hok (hc : buffer ∉ s.gone) : Visiting (cap buffer) (s.view buffer) boundary o ∧
          BatchOk cap s buffer boundary b := by
        have hview := h.ok buffer hc
        have hv := hview.visiting boundary o ((visitOf_current ht rfl buffer).trans (if_pos rfl))
        exact ⟨hv, deleteRetentionBatch_ok h.ordered (hcap buffer) hv.reached (hv.opened o rfl)
          (fun w hw => ⟨hview.saved w hw, hv.earlier w hw⟩) hb⟩
      obtain ⟨hdone, hfrom, heq⟩ | heq | ⟨o', ho', heq⟩ :=
        afterBatch_cases b pending buffer boundary outOfBudget
      all_goals
        rw [heq]
        refine h.of_sublist hframe.rows hframe.nextId hframe.buffers hframe.gone fun c hc => ?_
        by_cases hother : c = buffer
      · subst hother
        exact ok_batch_left h (hcap c) ht hframe (hok hc).2 (hok hc).1 hdone hfrom
      · refine ok_batch_other h ht hframe (b.state.leave pending) rfl rfl rfl (fun _ _ => Iff.rfl)
          rfl (fun v hv => ?_) hc hother
        cases hv
      · subst hother
        exact ok_batch_back hframe (hok hc).2
      · refine ok_batch_other h ht hframe ((b.state.markBufferDirty buffer).leave pending) rfl rfl
          rfl (fun d hd => ?_) rfl (fun v hv => ?_) hc hother
        · exact mem_dirty_mark.trans (or_iff_left hd)
        · cases hv
      · subst hother
        exact ok_batch_on h (hcap c) ht hframe (hok hc).2 (hok hc).1 ho'
      · refine ok_batch_other h ht hframe
          { b.state with tick := some ⟨pending, some ⟨buffer, boundary, some o'⟩⟩ } rfl rfl rfl
          (fun _ _ => Iff.rfl) rfl (fun v hv => ?_) hc hother
        obtain rfl := Option.some.inj hv
        rfl
  next => exact h

theorem inv_throw (h : Inv cap s) : Inv cap (s.step cap .throw) := by
  simp only [step]
  split
  next pending current ht =>
    rw [foldl_mark]
    refine h.of_sublist (List.Sublist.refl _) rfl rfl rfl fun b hb => ?_
    have hok := h.ok b hb
    set l := current.toList.map Visited.buffer ++ pending with hl
    have hawaits : Retention.Awaits { s with
        dirty := (l.foldl markBufferDirty s).dirty, tick := none } b ↔ b ∈ s.dirty ∨ b ∈ l := by
      rw [awaits_iff_of_idle rfl]
      exact mem_dirty_foldl l
    by_cases hin : b ∈ s.dirty ∨ b ∈ l
    · have hview : Retention.view { s with
          dirty := (l.foldl markBufferDirty s).dirty, tick := none } b =
          { s.view b with visited := none, awaits := True } := by
        unfold view
        rw [eq_true (hawaits.mpr hin)]
        rfl
      rw [hview]
      exact ok_await hok
    · refine ok_of_view_eq hok rfl rfl rfl ?_ ?_
      · unfold visitOf
        rw [ht]
        show none = current.bind _
        cases hv : current with
        | none => rfl
        | some v =>
          refine (if_neg fun heq => hin (Or.inr ?_)).symm
          rw [hl, hv, ← heq]
          simp
      · rw [hawaits, awaits_iff_of_tick ht]
        refine iff_of_false hin fun hin' => hin (hin'.imp id fun hp => ?_)
        exact List.mem_append_right _ hp
  next => exact h

theorem inv_restart (h : Inv cap s) (hcap : ∀ b, 1 ≤ cap b) : Inv cap (s.step cap .restart) := by
  refine h.of_sublist (List.Sublist.refl _) rfl rfl rfl fun b hb => ?_
  refine ⟨fun w hw => ?_, fun boundary visit hvisited => ?_, fun hawaits _ => ?_⟩
  · cases hw
  · cases hvisited
  · have hout : b ∉ s.buffers := fun hin => hawaits (Or.inl hin)
    show Settled (s.of b) s.bookmarks (cap b)
    rw [of_unknown h hout]
    exact settled_of_short List.Pairwise.nil (hcap b) (Nat.zero_le _)

/-- Only a batch deletes rows. -/
theorem ids_kept (e : Event) (he : ∀ picked batchRows minBatchRows adapted outOfBudget,
      e ≠ .batch picked batchRows minBatchRows adapted outOfBudget) {m : MessageRow} (hm : m ∈ s.rows) :
    ∃ q ∈ (s.step cap e).rows, q.id = m.id := by
  have hsame {s' : Retention} (hrows : s'.rows = s.rows) : ∃ q ∈ s'.rows, q.id = m.id :=
    ⟨m, hrows ▸ hm, rfl⟩
  cases e with
  | create buffer =>
    simp only [step]
    split
    · exact hsame rfl
    · exact hsame rfl
  | insert buffer msgid root line =>
    simp only [step]
    split
    · exact ⟨m, List.mem_append_left _ hm, rfl⟩
    · exact hsame rfl
  | bookmark id => exact hsame rfl
  | absorb survivor absorbed =>
    simp only [step]
    split
    · refine ⟨_, List.mem_map_of_mem hm, ?_⟩
      split <;> rfl
    · exact hsame rfl
  | tick =>
    simp only [step]
    split <;> exact hsame rfl
  | skip =>
    simp only [step]
    split <;> exact hsame rfl
  | probe =>
    simp only [step]
    split
    · split
      · exact hsame rfl
      · split <;> exact hsame rfl
    · exact hsame rfl
  | visit =>
    simp only [step]
    split <;> exact hsame rfl
  | batch picked batchRows minBatchRows adapted outOfBudget => exact absurd rfl (he _ _ _ _ _)
  | finish =>
    simp only [step]
    split <;> exact hsame rfl
  | throw =>
    simp only [step]
    split
    · rw [foldl_mark]
      exact hsame rfl
    · exact hsame rfl
  | restart => exact hsame rfl

theorem mayGo_of_band (hord : Ordered s.rows) {m : MessageRow} (hm : m ∈ s.of m.buffer)
    (hcap : 1 ≤ cap m.buffer) {boundary low walkFrom : Nat}
    (hreached : Reached (s.of m.buffer) (cap m.buffer) boundary) (hle : walkFrom ≤ boundary)
    (hin : m.id ∈ s.bandRows m.buffer boundary low walkFrom) : s.MayGo cap boundary m := by
  obtain ⟨hlt, -, hout, hunspared⟩ := (mem_bandRows hord hm).mp hin
  obtain ⟨top, htop, hge⟩ := reached_top (hord.sublist List.filter_sublist) hcap hreached
  exact ⟨hout, ⟨top, htop, (hlt.trans_le hle).trans_le hge⟩, Or.inr hunspared⟩

theorem mayGo_of_below (hord : Ordered s.rows) {m : MessageRow} (hm : m ∈ s.of m.buffer)
    (hcap : 1 ≤ cap m.buffer) {boundary ceiling : Nat}
    (hreached : Reached (s.of m.buffer) (cap m.buffer) boundary) (hle : ceiling ≤ boundary)
    (hroom : cap m.buffer ≤ between (s.of m.buffer) ceiling boundary)
    (hin : m.id ∈ s.belowCandidates m.buffer ceiling) : s.MayGo cap boundary m := by
  have hord' : Ordered (s.of m.buffer) := hord.sublist List.filter_sublist
  obtain ⟨hlt, hout⟩ := (mem_belowCandidates hord hm).mp hin
  obtain ⟨top, htop, hge⟩ := reached_top hord' hcap hreached
  obtain ⟨now, hnow, hup⟩ := @rowAtOffset_of_between _ hord' boundary (cap m.buffer - 1)
    ceiling (by omega)
  exact ⟨hout, ⟨top, htop, (hlt.trans_le hle).trans_le hge⟩,
    Or.inl ⟨now, hnow, hlt.trans_le hup⟩⟩

/-- What a batch deletes may go. -/
theorem deleteRetentionBatch_deletes (hord : Ordered s.rows) {buffer boundary limit : Nat}
    {o : RetentionVisit} (hcap : 1 ≤ cap buffer)
    (hreached : Reached (s.of buffer) (cap buffer) boundary)
    (ho : Opened (s.of buffer) s.bookmarks (cap buffer) (s.Awaits buffer) boundary o)
    {picked : List Nat} {b : Batch}
    (hb : s.deleteRetentionBatch buffer boundary limit o picked = some b) {m : MessageRow}
    (hm : m ∈ s.rows) (hbuffer : m.buffer = buffer) (hgone : m ∉ b.state.rows) :
    s.MayGo cap boundary m := by
  subst hbuffer
  have hmof : m ∈ s.of m.buffer := mem_of.mpr ⟨hm, rfl⟩
  have hdeleted {ids : List Nat} {walks : OrderedMap Nat BandWalk}
      (hout : m ∉ ({ s.deleteRows ids with walks := walks } : Retention).rows) : m.id ∈ ids := by
    by_contra hkept
    exact hout (List.mem_filter.mpr ⟨hm, decide_eq_true hkept⟩)
  have hband {o' : RetentionVisit} (hfrom : o'.walkFrom = o.walkFrom)
      (hgone : m ∉ (s.deleteBand m.buffer boundary limit o').state.rows) :
      s.MayGo cap boundary m := by
    obtain heq | ⟨low, -, heq⟩ := deleteBand_cases s m.buffer boundary limit o'
    all_goals
      rw [heq] at hgone
      exact mayGo_of_band hord hmof hcap hreached (hfrom.trans_le ho.walk_le) (hdeleted hgone)
  unfold deleteRetentionBatch at hb
  split at hb
  · obtain rfl := Option.some.inj hb
    exact hband rfl hgone
  · next hnot =>
    have hroom := ho.room (Bool.eq_false_of_not_eq_true hnot)
    split at hb
    · next hpicks =>
      have hbelow (hgone : m ∉ (s.deleteRows picked).rows) : s.MayGo cap boundary m :=
        mayGo_of_below hord hmof hcap hreached ho.ceiling_le hroom
          (hpicks.2.1 _ (hdeleted hgone))
      split at hb
      · obtain rfl := Option.some.inj hb
        exact hbelow hgone
      · split at hb
        · obtain rfl := Option.some.inj hb
          exact hbelow hgone
        · obtain rfl : picked = [] := List.length_eq_zero_iff.mp (by omega)
          rw [deleteRows_nil] at hb
          obtain rfl := Option.some.inj hb
          exact hband rfl hgone
    · cases hb

theorem rows_afterBatch (b : Batch) (pending : List Nat) (buffer boundary : Nat)
    (outOfBudget : Bool) :
    (afterBatch b pending buffer boundary outOfBudget).rows = b.state.rows := by
  obtain ⟨-, -, heq⟩ | heq | ⟨_, -, heq⟩ := afterBatch_cases b pending buffer boundary outOfBudget
  all_goals rw [heq]
  all_goals rfl

theorem deletes_mayGo (h : Inv cap s) (hcap : ∀ b, 1 ≤ cap b) {e : Event} {m : MessageRow}
    (hm : m ∈ s.rows) (hgone : ∀ q ∈ (s.step cap e).rows, q.id ≠ m.id) :
    ∃ t v, s.tick = some t ∧ t.current = some v ∧ v.buffer = m.buffer ∧
      s.MayGo cap v.boundaryId m := by
  by_cases he : ∃ picked batchRows minBatchRows adapted outOfBudget,
      e = .batch picked batchRows minBatchRows adapted outOfBudget
  · obtain ⟨picked, batchRows, minBatchRows, adapted, outOfBudget, rfl⟩ := he
    simp only [step] at hgone
    split at hgone
    next pending buffer boundary o ht =>
      split at hgone
      next => exact absurd rfl (hgone m hm)
      next b hb =>
        rw [rows_afterBatch] at hgone
        have hout : m ∉ b.state.rows := fun hin => hgone m hin rfl
        have hframe := deleteRetentionBatch_frame h.ordered hb
        have hbuffer : m.buffer = buffer := by
          by_contra hother
          have hof := (hframe.other m.buffer hother).1
          exact hout (mem_of.mp (hof ▸ mem_of.mpr ⟨hm, rfl⟩)).1
        have hlive : buffer ∉ s.gone := hbuffer ▸ h.apart _ (h.known m hm)
        have hv := (h.ok buffer hlive).visiting boundary o
          ((visitOf_current ht rfl buffer).trans (if_pos rfl))
        refine ⟨_, _, ht, rfl, hbuffer.symm, ?_⟩
        exact deleteRetentionBatch_deletes h.ordered (hcap buffer) hv.reached (hv.opened o rfl) hb hm
          hbuffer hout
    next => exact absurd rfl (hgone m hm)
  · obtain ⟨q, hq, hid⟩ := ids_kept e (fun _ _ _ _ _ heq => he ⟨_, _, _, _, _, heq⟩) hm
    exact absurd hid (hgone q hq)

theorem inv_step (hcap : ∀ b, 1 ≤ cap b) (h : Inv cap s) {e : Event} (he : s.Harmless cap e) :
    Inv cap (s.step cap e) := by
  cases e with
  | create buffer => exact inv_create h buffer
  | insert buffer msgid root line => exact inv_insert h hcap buffer msgid root line
  | bookmark id => exact inv_bookmark h id
  | absorb survivor absorbed => exact inv_absorb h hcap he
  | tick => exact inv_tick h
  | skip => exact inv_skip h
  | probe => exact inv_probe h hcap
  | visit => exact inv_visit h hcap
  | batch picked batchRows minBatchRows adapted outOfBudget => exact inv_batch h hcap ..
  | finish => exact inv_finish h
  | throw => exact inv_throw h
  | restart => exact inv_restart h hcap

theorem inv_run (hcap : ∀ b, 1 ≤ cap b) {es : List Event}
    (hes : Run.Within (step cap) (Harmless cap) start es) :
    Inv cap (Run.after (step cap) start es) :=
  Run.invariant_within (step cap) inv_start (fun _ _ h he => inv_step hcap h he) es hes

theorem settled_of_inv (h : Inv cap s) {buffer : Nat} (hmarked : ¬ s.Marked buffer) :
    Settled (s.of buffer) s.bookmarks (cap buffer) := by
  rw [marked_iff, not_or, not_ne_iff] at hmarked
  by_cases hgone : buffer ∈ s.gone
  · intro boundary htop
    rw [of_unknown h fun hin => h.apart buffer hin hgone] at htop
    exact absurd htop (by simp [retentionBoundaryId, rowAtOffset, Ranks.fromEnd, lineIds])
  · exact (h.ok buffer hgone).settled hmarked.1 hmarked.2

/-- The line cap keeps its promise in every run in which no buffer absorbs rows behind the
sweeper's back. -/
theorem keeps_promise (hcap : ∀ b, 1 ≤ cap b) (es : List Event)
    (hes : Run.Within (step cap) (Harmless cap) start es) : Promise cap es := by
  have hinv := inv_run hcap hes
  refine ⟨fun e m hm hgone => ?_, fun buffer hmarked => settled_of_inv hinv hmarked,
    fun buffer hmarked => ?_⟩
  · rw [Run.after_concat] at hgone
    exact deletes_mayGo hinv hcap hm hgone
  · exact bounded_of_settled (settled_of_inv hinv hmarked) (hinv.ordered_of buffer) (hcap buffer)

/-- Two buffers with a line each, which the sweeper has been to. -/
def sweptRun : List Event :=
  [.create 1, .create 2, .insert 1 none none true, .insert 2 none none true, .tick,
    .probe, .visit, .batch [] 500 25 0 false, .probe, .visit, .batch [] 500 25 0 false, .finish]

theorem keeps_promise_marked :
    Promise (fun _ => 1) (sweptRun ++ [.insert 1 none none true] ++ [.absorb 1 2]) := by
  refine keeps_promise (fun _ => le_rfl) _ ((Run.within_concat _).mpr ⟨?_, ?_⟩)
  · refine ⟨trivial, trivial, trivial, trivial, trivial, trivial, trivial, trivial, trivial,
      trivial, trivial, trivial, trivial, trivial⟩
  · have hstate : Run.after (step fun _ => 1) start (sweptRun ++ [.insert 1 none none true]) =
        ⟨[⟨1, 1, none, none, true⟩, ⟨2, 2, none, none, true⟩, ⟨3, 1, none, none, true⟩], 4, [],
          [1, 2], [], [1], .empty, none⟩ := rfl
    rw [hstate]
    refine Or.inr (Or.inr ⟨Or.inl (by decide), fun w hw => ?_⟩)
    obtain hw | ⟨t, v, visit, ht, -⟩ := hw
    · cases hw
    · cases ht

/-- The sweeper does not hear of a buffer that absorbs another. -/
theorem absorbed_rows_stay : ¬ Promise (fun _ => 1) (sweptRun ++ [.absorb 1 2]) := by
  intro h
  have hsettled := h.settled 1
  have hstate : Run.after (step fun _ => 1) start (sweptRun ++ [.absorb 1 2]) =
      ⟨[⟨1, 1, none, none, true⟩, ⟨2, 1, none, none, true⟩], 3, [], [1], [2], [], .empty, none⟩ :=
    rfl
  rw [hstate] at hsettled
  have hunmarked : ¬ Marked ⟨[⟨1, 1, none, none, true⟩, ⟨2, 1, none, none, true⟩], 3, [], [1], [2],
      [], .empty, none⟩ 1 := by
    rintro ((hin | ⟨t, ht, -⟩) | ⟨t, v, ht, -⟩)
    · cases hin
    · cases ht
    · cases ht
  have hlast := hsettled hunmarked 2 rfl ⟨1, 1, none, none, true⟩ (List.mem_cons_self ..) (by decide)
  obtain hin | ⟨hspared, -⟩ := hlast
  · cases hin
  · exact absurd hspared (by decide)

end Lurker.Db.Retention
