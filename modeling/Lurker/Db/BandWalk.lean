import Lurker.Db.Retention

/-!
# Boundary, ceiling and band of one buffer

What is known of a buffer's rows while its band is walked: the boundary never comes down,
and the part of the band that is behind the walk holds only what stays, as long as the
boundary is the one the walk began from.
-/

namespace Lurker.Db.Retention

open Ranks

/-- Rows in id order. -/
def Ordered (lines : List MessageRow) : Prop := lines.Pairwise fun m q => m.id < q.id

/-- At least the cap of rows are at or above an id. -/
def Reached (lines : List MessageRow) (cap boundary : Nat) : Prop :=
  cap ≤ countFrom (lineIds lines) boundary

/-- How many rows are from one id up and below another. -/
def between (lines : List MessageRow) (low high : Nat) : Nat :=
  countFrom ((lineIds lines).filter fun i => decide (i < high)) low

/-- The part of a band that a walk has behind it holds only what stays, if the boundary is
still the one the walk began from. -/
def WalkOk (lines : List MessageRow) (bookmarks : List Nat) (cap : Nat) (w : BandWalk) : Prop :=
  Reached lines cap w.fromBoundary ∧
    (retentionBoundaryId lines cap = some w.fromBoundary →
      ∀ m ∈ lines, w.walkFrom ≤ m.id → m.id < w.fromBoundary →
        m.id ∈ bookmarks ∨ Spared lines w.fromBoundary m)

theorem ordered_ids {lines : List MessageRow} (h : Ordered lines) :
    (lineIds lines).Pairwise (· < ·) :=
  List.pairwise_map.mpr h

theorem mem_lineIds {lines : List MessageRow} {i : Nat} :
    i ∈ lineIds lines ↔ ∃ m ∈ lines, m.id = i := by
  simp [lineIds]

variable {lines lines' : List MessageRow} {bookmarks : List Nat} {cap boundary : Nat}

theorem boundary_spec (h : Ordered lines) (hcap : 1 ≤ cap)
    (hb : retentionBoundaryId lines cap = some boundary) :
    boundary ∈ lineIds lines ∧ countFrom (lineIds lines) boundary = cap := by
  unfold retentionBoundaryId rowAtOffset at hb
  rw [List.filter_eq_self.mpr (by simp)] at hb
  obtain ⟨hmem, hcount⟩ := fromEnd_spec (ordered_ids h) hb
  exact ⟨hmem, by omega⟩

theorem boundary_of_count (h : Ordered lines) (hcap : 1 ≤ cap) (hmem : boundary ∈ lineIds lines)
    (hcount : countFrom (lineIds lines) boundary = cap) :
    retentionBoundaryId lines cap = some boundary := by
  unfold retentionBoundaryId rowAtOffset
  rw [List.filter_eq_self.mpr (by simp)]
  exact fromEnd_of_mem (ordered_ids h) hmem (by omega)

/-- The boundary is not below an id with a cap of rows from it up. -/
theorem reached_top (h : Ordered lines) (hcap : 1 ≤ cap) (hb : Reached lines cap boundary) :
    ∃ top, retentionBoundaryId lines cap = some top ∧ boundary ≤ top := by
  unfold Reached at hb
  unfold retentionBoundaryId rowAtOffset
  rw [List.filter_eq_self.mpr (by simp)]
  exact fromEnd_of_countFrom (ordered_ids h) (by omega)

theorem exists_of_reached (hcap : 1 ≤ cap) (h : Reached lines cap boundary) :
    ∃ m ∈ lines, boundary ≤ m.id := by
  unfold Reached at h
  rw [countFrom] at h
  obtain ⟨i, hi⟩ := List.exists_mem_of_length_pos (hcap.trans h)
  obtain ⟨hi, hle⟩ := List.mem_filter.mp hi
  obtain ⟨m, hm, rfl⟩ := mem_lineIds.mp hi
  exact ⟨m, hm, of_decide_eq_true hle⟩

theorem reached_of_boundary (h : Ordered lines) (hcap : 1 ≤ cap)
    (hb : retentionBoundaryId lines cap = some boundary) : Reached lines cap boundary :=
  (boundary_spec h hcap hb).2.ge

theorem boundary_none_of_short (hshort : lines.length < cap) :
    retentionBoundaryId lines cap = none := by
  unfold retentionBoundaryId rowAtOffset
  rw [List.filter_eq_self.mpr (by simp), fromEnd_eq_none]
  simp only [lineIds, List.length_map]
  omega

theorem rowAtOffset_spec (h : Ordered lines) {high offset low : Nat}
    (hl : rowAtOffset lines (some high) offset = some low) :
    low < high ∧ between lines low high = offset + 1 := by
  unfold rowAtOffset at hl
  obtain ⟨hmem, hcount⟩ := fromEnd_spec ((ordered_ids h).filter _) hl
  have hlt := (List.mem_filter.mp hmem).2
  simp only [Option.all_some, decide_eq_true_eq] at hlt
  exact ⟨hlt, by simpa [between] using hcount⟩

theorem rowAtOffset_of_between (h : Ordered lines) {high offset low : Nat}
    (hl : offset < between lines low high) :
    ∃ i, rowAtOffset lines (some high) offset = some i ∧ low ≤ i := by
  unfold rowAtOffset
  refine fromEnd_of_countFrom ((ordered_ids h).filter _) ?_
  simpa [between] using hl

theorem between_le_of_none {high offset : Nat} (hnone : rowAtOffset lines (some high) offset = none)
    (low : Nat) : between lines low high ≤ offset := by
  unfold rowAtOffset at hnone
  have hlen := fromEnd_eq_none.mp hnone
  refine (countFrom_le_length _ _).trans ?_
  simpa [between] using hlen

/-- With a row in the band below another id, there are more rows from it up. -/
theorem between_lt {m : MessageRow} (hm : m ∈ lines) {low high : Nat} (hlow : m.id < low)
    (hhigh : m.id < high) : between lines low high < between lines m.id high := by
  refine countFrom_lt (List.mem_filter.mpr ⟨mem_lineIds.mpr ⟨m, hm, rfl⟩, ?_⟩) hlow
  exact decide_eq_true hhigh

theorem ids_sublist (h : lines.Sublist lines') : (lineIds lines).Sublist (lineIds lines') :=
  h.map _

theorem reached_grow (h : lines.Sublist lines') (hb : Reached lines cap boundary) :
    Reached lines' cap boundary :=
  hb.trans (countFrom_sublist (ids_sublist h) boundary)

theorem between_grow (h : lines.Sublist lines') (low high : Nat) :
    between lines low high ≤ between lines' low high :=
  countFrom_sublist ((ids_sublist h).filter _) low

theorem spared_grow (h : lines.Sublist lines') {m : MessageRow} (hm : Spared lines boundary m) :
    Spared lines' boundary m := by
  obtain ⟨root, hroot, ⟨r, hr, hrest⟩ | ⟨q, hq, hrest⟩⟩ | ⟨msgid, hmsgid, hline, r, hr, hrest⟩ := hm
  · exact Or.inl ⟨root, hroot, Or.inl ⟨r, h.mem hr, hrest⟩⟩
  · exact Or.inl ⟨root, hroot, Or.inr ⟨q, h.mem hq, hrest⟩⟩
  · exact Or.inr ⟨msgid, hmsgid, hline, r, h.mem hr, hrest⟩

/-- With a row more from an id up, there are more rows from it up. -/
theorem countFrom_grow_lt (h : lines.Sublist lines') {m : MessageRow} (hm : m ∈ lines')
    (hnew : m ∉ lines) (hord : Ordered lines') (hle : boundary ≤ m.id) :
    countFrom (lineIds lines) boundary < countFrom (lineIds lines') boundary := by
  have hsub := (ids_sublist h).filter fun i => decide (boundary ≤ i)
  refine lt_of_le_of_ne hsub.length_le fun heq => ?_
  have hsame := hsub.eq_of_length heq
  have hmem : m.id ∈ (lineIds lines).filter fun i => decide (boundary ≤ i) := by
    rw [hsame]
    exact List.mem_filter.mpr ⟨mem_lineIds.mpr ⟨m, hm, rfl⟩, decide_eq_true hle⟩
  obtain ⟨q, hq, hid⟩ := mem_lineIds.mp (List.mem_filter.mp hmem).1
  have hqm : q = m := List.inj_on_of_nodup_map
    (List.pairwise_map.mpr (hord.imp fun h => h.ne)) (h.mem hq) hm hid
  exact hnew (hqm ▸ hq)

/-- New rows leave a walk right, if none of them is behind it, or one is at or above the
boundary it began from. -/
theorem walkOk_grow (h : lines.Sublist lines') (hord : Ordered lines') (hcap : 1 ≤ cap)
    {w : BandWalk} (hw : WalkOk lines bookmarks cap w)
    (hnew : (∀ m ∈ lines', m ∉ lines → ¬ (w.walkFrom ≤ m.id ∧ m.id < w.fromBoundary)) ∨
      ∃ m ∈ lines', m ∉ lines ∧ w.fromBoundary ≤ m.id) :
    WalkOk lines' bookmarks cap w := by
  obtain ⟨hreached, hpassed⟩ := hw
  refine ⟨reached_grow h hreached, fun htop m hm hlow hhigh => ?_⟩
  obtain ⟨hmem, hcount⟩ := boundary_spec hord hcap htop
  unfold Reached at hreached
  have habove (q : MessageRow) (hq : q ∈ lines') (hle : w.fromBoundary ≤ q.id) : q ∈ lines := by
    by_contra hout
    have := countFrom_grow_lt h hq hout hord hle
    omega
  obtain ⟨q, hq, hid⟩ := mem_lineIds.mp hmem
  have htop' : retentionBoundaryId lines cap = some w.fromBoundary := by
    refine boundary_of_count (hord.sublist h) hcap ?_ ?_
    · exact mem_lineIds.mpr ⟨q, habove q hq hid.ge, hid⟩
    · have := countFrom_sublist (ids_sublist h) w.fromBoundary
      omega
  rcases hnew with hnone | ⟨q, hq, hout, hle⟩
  · by_cases hold : m ∈ lines
    · exact (hpassed htop' m hold hlow hhigh).imp id (spared_grow h)
    · exact absurd ⟨hlow, hhigh⟩ (hnone m hm hold)
  · exact absurd (habove q hq hle) hout

theorem walkOk_bookmark {bookmarks' : List Nat} (h : bookmarks ⊆ bookmarks') {w : BandWalk}
    (hw : WalkOk lines bookmarks cap w) : WalkOk lines bookmarks' cap w :=
  ⟨hw.1, fun htop m hm hlow hhigh => (hw.2 htop m hm hlow hhigh).imp (fun hin => h hin) id⟩

/-- A walk that begins has nothing behind it. -/
theorem walkOk_begin (h : Reached lines cap boundary) :
    WalkOk lines bookmarks cap ⟨boundary, boundary⟩ :=
  ⟨h, fun _ _ _ hlow hhigh => absurd hhigh (not_lt.mpr hlow)⟩

/-- Rows are deleted, all of them below an id. -/
def DeletedBelow (lines lines' : List MessageRow) (boundary : Nat) : Prop :=
  lines'.Sublist lines ∧ ∀ m ∈ lines, boundary ≤ m.id → m ∈ lines'

theorem DeletedBelow.mono {high : Nat} (h : DeletedBelow lines lines' boundary)
    (hle : boundary ≤ high) : DeletedBelow lines lines' high :=
  ⟨h.1, fun m hm hhigh => h.2 m hm (hle.trans hhigh)⟩

theorem DeletedBelow.filter_eq (h : DeletedBelow lines lines' boundary) (hord : Ordered lines)
    {p : MessageRow → Bool} (hp : ∀ m, p m = true → boundary ≤ m.id) :
    lines'.filter p = lines.filter p := by
  have hnodup : (lines.filter p).Nodup :=
    (hord.imp fun hlt heq => absurd (congrArg MessageRow.id heq) hlt.ne).filter p
  have hsub : lines.filter p ⊆ lines'.filter p := by
    intro m hm
    obtain ⟨hm, hpm⟩ := List.mem_filter.mp hm
    exact List.mem_filter.mpr ⟨h.2 m hm (hp m hpm), hpm⟩
  exact (h.1.filter p).eq_of_length_le (List.subperm_of_subset hnodup hsub).length_le

theorem countFrom_lineIds (low : Nat) :
    countFrom (lineIds lines) low = (lines.filter fun m => decide (low ≤ m.id)).length := by
  simp [countFrom, lineIds, List.filter_map, Function.comp_def]

theorem between_eq (low high : Nat) : between lines low high =
    (lines.filter fun m => decide (low ≤ m.id) && decide (m.id < high)).length := by
  simp [between, countFrom, lineIds, List.filter_map, Function.comp_def]

/-- No count of rows from the id up changes. -/
theorem DeletedBelow.count (h : DeletedBelow lines lines' boundary) (hord : Ordered lines)
    {low : Nat} (hle : boundary ≤ low) :
    countFrom (lineIds lines') low = countFrom (lineIds lines) low := by
  rw [countFrom_lineIds, countFrom_lineIds, h.filter_eq hord]
  exact fun m hm => hle.trans (of_decide_eq_true hm)

theorem DeletedBelow.between (h : DeletedBelow lines lines' boundary) (hord : Ordered lines)
    {low : Nat} (hle : boundary ≤ low) (high : Nat) :
    between lines' low high = between lines low high := by
  rw [between_eq, between_eq, h.filter_eq hord]
  intro m hm
  exact hle.trans (of_decide_eq_true (Bool.and_eq_true_iff.mp hm).1)

/-- A thread is alive as long as it was. -/
theorem DeletedBelow.spared (h : DeletedBelow lines lines' boundary) {m : MessageRow} :
    Spared lines' boundary m ↔ Spared lines boundary m := by
  refine ⟨spared_grow h.1, fun hm => ?_⟩
  obtain ⟨root, hroot, ⟨r, hr, hof, hle⟩ | ⟨q, hq, hof, hline, hle⟩⟩ |
    ⟨msgid, hmsgid, hline, r, hr, hof, hle⟩ := hm
  · exact Or.inl ⟨root, hroot, Or.inl ⟨r, h.2 r hr hle, hof, hle⟩⟩
  · exact Or.inl ⟨root, hroot, Or.inr ⟨q, h.2 q hq hle, hof, hline, hle⟩⟩
  · exact Or.inr ⟨msgid, hmsgid, hline, r, h.2 r hr hle, hof, hle⟩

/-- Deleting below an id with the cap of rows from it up leaves the boundary where it is. -/
theorem DeletedBelow.top (h : DeletedBelow lines lines' boundary) (hord : Ordered lines)
    (hcap : 1 ≤ cap) (hreached : Reached lines cap boundary) :
    retentionBoundaryId lines' cap = retentionBoundaryId lines cap := by
  obtain ⟨top, htop, hle⟩ := reached_top hord hcap hreached
  obtain ⟨hmem, hcount⟩ := boundary_spec hord hcap htop
  obtain ⟨q, hq, rfl⟩ := mem_lineIds.mp hmem
  rw [htop]
  refine boundary_of_count (hord.sublist h.1) hcap (mem_lineIds.mpr ⟨q, h.2 q hq hle, rfl⟩) ?_
  rw [h.count hord hle, hcount]

theorem DeletedBelow.reached (h : DeletedBelow lines lines' boundary) (hord : Ordered lines)
    (hreached : Reached lines cap boundary) : Reached lines' cap boundary := by
  unfold Reached
  rw [h.count hord le_rfl]
  exact hreached

theorem reached_of_le {low : Nat} (hle : low ≤ boundary) (h : Reached lines cap boundary) :
    Reached lines cap low :=
  h.trans (countFrom_anti _ hle)

/-- Deleting below a boundary leaves a walk right that began from that one or an earlier
one. -/
theorem walkOk_delete (h : DeletedBelow lines lines' boundary) (hord : Ordered lines)
    (hcap : 1 ≤ cap) (hreached : Reached lines cap boundary) {w : BandWalk}
    (hle : w.fromBoundary ≤ boundary) (hw : WalkOk lines bookmarks cap w) :
    WalkOk lines' bookmarks cap w := by
  refine ⟨reached_of_le hle (h.reached hord hreached), fun htop m hm hlow hhigh => ?_⟩
  rw [h.top hord hcap hreached] at htop
  obtain ⟨top, htop', htop_le⟩ := reached_top hord hcap hreached
  have heq : w.fromBoundary = boundary := by
    rw [htop] at htop'
    have := Option.some.inj htop'
    omega
  have hstays := hw.2 htop m (h.1.mem hm) hlow hhigh
  rw [heq] at hstays ⊢
  exact hstays.imp id h.spared.mpr

/-- What holds of a visit that has begun. Only where no row has come since, the boundary is
still the visit's own, and what is below the ceiling stays clear. -/
structure Opened (lines : List MessageRow) (bookmarks : List Nat) (cap : Nat) (awaits : Prop)
    (boundary : Nat) (visit : RetentionVisit) : Prop where
  walk : WalkOk lines bookmarks cap ⟨visit.walkFrom, visit.fromBoundary⟩
  walk_le : visit.walkFrom ≤ boundary
  from_le : visit.fromBoundary ≤ boundary
  ceiling_le : visit.ceilingId ≤ boundary
  room : visit.belowCeilingDone = false → cap ≤ between lines visit.ceilingId boundary
  clear : ¬ awaits → visit.belowCeilingDone = true →
    ∀ m ∈ lines, m.id < visit.ceilingId → m.id ∈ bookmarks
  tight : ¬ awaits → between lines visit.ceilingId boundary ≤ cap

/-- What the sweeper and the rest of the server know of one buffer. -/
structure BufferView where
  lines : List MessageRow
  bookmarks : List Nat
  saved : Option BandWalk
  visited : Option (Nat × Option RetentionVisit)
  awaits : Prop

/-- What holds of a buffer that is visited. -/
structure Visiting (cap : Nat) (v : BufferView) (boundary : Nat) (visit : Option RetentionVisit) :
    Prop where
  reached : Reached v.lines cap boundary
  top : ¬ v.awaits → retentionBoundaryId v.lines cap = some boundary
  earlier : ∀ w, v.saved = some w → w.fromBoundary ≤ boundary
  opened : ∀ o, visit = some o → Opened v.lines v.bookmarks cap v.awaits boundary o

/-- Each walk is right, and a buffer that nobody will look at is settled. -/
structure BufferView.Ok (cap : Nat) (v : BufferView) : Prop where
  saved : ∀ w, v.saved = some w → WalkOk v.lines v.bookmarks cap w
  visiting : ∀ boundary visit, v.visited = some (boundary, visit) → Visiting cap v boundary visit
  settled : ¬ v.awaits → v.visited = none → Settled v.lines v.bookmarks cap

/-- A walk of the band: the one saved, or the one a visit is at. -/
def BufferView.WalkIs (v : BufferView) (w : BandWalk) : Prop :=
  v.saved = some w ∨
    ∃ boundary o, v.visited = some (boundary, some o) ∧ w = ⟨o.walkFrom, o.fromBoundary⟩

variable {v : BufferView}

theorem BufferView.Ok.walk (h : v.Ok cap) {w : BandWalk} (hw : v.WalkIs w) :
    WalkOk v.lines v.bookmarks cap w := by
  obtain hw | ⟨boundary, o, hvisited, rfl⟩ := hw
  · exact h.saved w hw
  · exact ((h.visiting boundary (some o) hvisited).opened o rfl).walk

/-- New rows in a buffer that awaits the sweeper. -/
theorem ok_grow (h : v.Ok cap) (hsub : v.lines.Sublist lines') (hord : Ordered lines')
    (hcap : 1 ≤ cap) (hnew : ∀ w, v.WalkIs w →
      (∀ m ∈ lines', m ∉ v.lines → ¬ (w.walkFrom ≤ m.id ∧ m.id < w.fromBoundary)) ∨
        ∃ m ∈ lines', m ∉ v.lines ∧ w.fromBoundary ≤ m.id) :
    BufferView.Ok cap { v with lines := lines', awaits := True } := by
  have hwalk (w : BandWalk) (hw : v.WalkIs w) : WalkOk lines' v.bookmarks cap w :=
    walkOk_grow hsub hord hcap (h.walk hw) (hnew w hw)
  refine ⟨fun w hw => hwalk w (Or.inl hw), fun boundary visit hvisited => ?_,
    fun hawaits => absurd trivial hawaits⟩
  have hv := h.visiting boundary visit hvisited
  refine ⟨reached_grow hsub hv.reached, fun hawaits => absurd trivial hawaits, hv.earlier, ?_⟩
  rintro o rfl
  have ho := hv.opened o rfl
  exact
    { walk := hwalk _ (Or.inr ⟨boundary, o, hvisited, rfl⟩)
      walk_le := ho.walk_le
      from_le := ho.from_le
      ceiling_le := ho.ceiling_le
      room := fun hdone => (ho.room hdone).trans (between_grow hsub _ _)
      clear := fun hawaits => absurd trivial hawaits
      tight := fun hawaits => absurd trivial hawaits }

theorem settled_bookmark {bookmarks' : List Nat} (hsub : bookmarks ⊆ bookmarks')
    (h : Settled lines bookmarks cap) : Settled lines bookmarks' cap :=
  fun boundary htop m hm hlt => (h boundary htop m hm hlt).imp (fun hin => hsub hin) id

theorem ok_bookmark {bookmarks' : List Nat} (hsub : v.bookmarks ⊆ bookmarks') (h : v.Ok cap) :
    BufferView.Ok cap { v with bookmarks := bookmarks' } := by
  refine ⟨fun w hw => walkOk_bookmark hsub (h.saved w hw), fun boundary visit hvisited => ?_,
    fun hawaits hnone => settled_bookmark hsub (h.settled hawaits hnone)⟩
  have hv := h.visiting boundary visit hvisited
  refine ⟨hv.reached, hv.top, hv.earlier, fun o heq => ?_⟩
  have ho := hv.opened o heq
  exact
    { ho with
      walk := walkOk_bookmark hsub ho.walk
      clear := fun hawaits hdone m hm hlt => hsub (ho.clear hawaits hdone m hm hlt) }

/-- A buffer that the sweeper leaves, or has lost, is looked at again. -/
theorem ok_await (h : v.Ok cap) : BufferView.Ok cap { v with visited := none, awaits := True } :=
  { saved := h.saved
    visiting := fun _ _ hvisited => by cases hvisited
    settled := fun hawaits => absurd trivial hawaits }

/-- A buffer within its cap needs no look. -/
theorem ok_short (hnone : retentionBoundaryId v.lines cap = none) (awaits : Prop) :
    BufferView.Ok cap { v with saved := none, visited := none, awaits := awaits } := by
  refine ⟨fun w hw => ?_, fun boundary visit h => ?_, fun _ _ boundary htop => ?_⟩
  · cases hw
  · cases h
  · rw [hnone] at htop
    cases htop

/-- A buffer that keeps within its cap has nothing over it. -/
theorem settled_of_short (hord : Ordered lines) (hcap : 1 ≤ cap) (hshort : lines.length ≤ cap) :
    Settled lines bookmarks cap := by
  intro boundary htop m hm hlt
  obtain ⟨-, hcount⟩ := boundary_spec hord hcap htop
  have hmore := countFrom_lt (mem_lineIds.mpr ⟨m, hm, rfl⟩) hlt
  have hle := countFrom_le_length (lineIds lines) m.id
  simp only [lineIds, List.length_map] at hle hmore hcount
  omega

theorem reached_length (h : Reached lines cap boundary) : cap ≤ lines.length := by
  have hle := h.trans (countFrom_le_length _ _)
  rwa [lineIds, List.length_map] at hle

/-- The sweeper finds a buffer's boundary. -/
theorem ok_probe (h : v.Ok cap) (hord : Ordered v.lines) (hcap : 1 ≤ cap)
    (htop : retentionBoundaryId v.lines cap = some boundary) (awaits : Prop) :
    BufferView.Ok cap { v with visited := some (boundary, none), awaits := awaits } := by
  refine ⟨h.saved, fun boundary' visit hvisited => ?_, fun _ hnone => absurd hnone (by simp)⟩
  cases hvisited
  refine ⟨reached_of_boundary hord hcap htop, fun _ => htop, fun w hw => ?_,
    fun o ho => absurd ho (by simp)⟩
  obtain ⟨top, htop', hle⟩ := reached_top hord hcap (h.saved w hw).1
  rw [htop] at htop'
  exact hle.trans (Option.some.inj htop').ge

/-- What is known of a ceiling when it is found. -/
theorem ceiling_new (hord : Ordered lines) (hcap : 1 ≤ cap) :
    let ceiling := (rowAtOffset lines (some boundary) (cap - 1)).getD 0
    ceiling ≤ boundary ∧ (ceiling ≠ 0 → cap ≤ between lines ceiling boundary) ∧
      between lines ceiling boundary ≤ cap := by
  cases hlow : rowAtOffset lines (some boundary) (cap - 1) with
  | none =>
    have hle := between_le_of_none hlow 0
    refine ⟨Nat.zero_le _, fun hne => absurd rfl hne, ?_⟩
    show between lines 0 boundary ≤ cap
    omega
  | some low =>
    obtain ⟨hlt, hcount⟩ := rowAtOffset_spec hord hlow
    have hcount : between lines low boundary = cap := by omega
    exact ⟨hlt.le, fun _ => hcount.ge, hcount.le⟩

/-- A visit that has walked its band down to the ceiling leaves the buffer settled, if the
walk began from the visit's own boundary and no row has come since. -/
theorem settled_of_opened {awaits : Prop} {o : RetentionVisit}
    (h : Opened lines bookmarks cap awaits boundary o) (hawaits : ¬ awaits) (hord : Ordered lines)
    (htop : retentionBoundaryId lines cap = some boundary) (hclear : o.belowCeilingDone = true)
    (hdone : o.walkFrom = o.ceilingId) (hfrom : o.fromBoundary = boundary) :
    Settled lines bookmarks cap := by
  intro boundary' htop' m hm hlt
  obtain rfl := Option.some.inj (htop.symm.trans htop')
  by_cases hceiling : m.id < o.ceilingId
  · exact Or.inl (h.clear hawaits hclear m hm hceiling)
  · have hpassed := h.walk.2
    simp only [hdone, hfrom] at hpassed
    refine (hpassed htop m hm (not_lt.mp hceiling) hlt).imp id fun hspared => ⟨hspared, ?_⟩
    intro ceiling hfound
    obtain ⟨-, hcount⟩ := rowAtOffset_spec hord hfound
    by_contra hbelow
    have hmore := between_lt hm (not_le.mp hbelow) hlt
    have hfew := (countFrom_anti ((lineIds lines).filter fun i => decide (i < boundary))
      (not_lt.mp hceiling)).trans (h.tight hawaits)
    unfold between at hcount hmore
    omega

/-- A settled buffer holds at most twice its cap of rows besides the bookmarked ones. -/
theorem bounded_of_settled (h : Settled lines bookmarks cap) (hord : Ordered lines)
    (hcap : 1 ≤ cap) : (lines.filter fun m => m.id ∉ bookmarks).length ≤ 2 * cap := by
  cases htop : retentionBoundaryId lines cap with
  | none =>
    unfold retentionBoundaryId rowAtOffset at htop
    rw [List.filter_eq_self.mpr (by simp), fromEnd_eq_none] at htop
    have hle := List.length_filter_le (fun m => decide (m.id ∉ bookmarks)) lines
    simp only [lineIds, List.length_map] at htop
    omega
  | some boundary =>
    obtain ⟨-, hcount⟩ := boundary_spec hord hcap htop
    rw [countFrom_lineIds] at hcount
    obtain ⟨low, hlow, hband⟩ : ∃ low, between lines low boundary ≤ cap ∧
        ∀ m ∈ lines, m.id < boundary → m.id ∉ bookmarks → low ≤ m.id := by
      cases hfound : rowAtOffset lines (some boundary) (cap - 1) with
      | none =>
        have := between_le_of_none hfound 0
        exact ⟨0, by omega, fun _ _ _ _ => Nat.zero_le _⟩
      | some low =>
        obtain ⟨-, hcount⟩ := rowAtOffset_spec hord hfound
        refine ⟨low, by omega, fun m hm hlt hout => ?_⟩
        exact ((h boundary htop m hm hlt).resolve_left hout).2 low hfound
    rw [between_eq] at hlow
    rw [List.length_eq_length_filter_add fun m : MessageRow => decide (boundary ≤ m.id),
      List.filter_filter, List.filter_filter, ← List.countP_eq_length_filter,
      ← List.countP_eq_length_filter]
    rw [← List.countP_eq_length_filter] at hcount hlow
    have hkept := List.countP_mono_left (l := lines)
      (p := fun m => decide (boundary ≤ m.id) && decide (m.id ∉ bookmarks))
      (q := fun m => decide (boundary ≤ m.id)) (fun m _ hm => (Bool.and_eq_true_iff.mp hm).1)
    have hspared := List.countP_mono_left (l := lines)
      (p := fun m => !decide (boundary ≤ m.id) && decide (m.id ∉ bookmarks))
      (q := fun m => decide (low ≤ m.id) && decide (m.id < boundary)) (fun m hm hin => by
        simp only [Bool.and_eq_true, Bool.not_eq_true', decide_eq_false_iff_not,
          decide_eq_true_eq, not_le] at hin ⊢
        exact ⟨hband m hm hin.1 hin.2, hin.1⟩)
    omega

end Lurker.Db.Retention
