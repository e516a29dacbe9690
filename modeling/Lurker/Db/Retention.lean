import Lurker.Lib.OrderedMap
import Lurker.Lib.Ranks
import Lurker.Lib.Run
import Lurker.Db.NoiseClock

/-!
# The line cap

A buffer keeps its newest lines up to a cap, what is bookmarked, and, down to a ceiling as
many lines further down, the lines of reply threads that are still alive above the
boundary. A sweeper takes the buffers marked dirty and visits them one statement at a
time, as far as its budget goes, with anything happening between two statements. The walk
of the band between ceiling and boundary is kept from one visit to the next.
-/

namespace Lurker.Db

/-- A row of `messages`; `line` tells the types that can start a thread. -/
structure MessageRow where
  id : Nat
  buffer : Nat
  msgid : Option String
  /-- `reply_root_msgid` -/
  root : Option String
  line : Bool
  deriving DecidableEq, Repr

/-- Where a buffer's walk of its band has got to, and the boundary it began from. -/
structure BandWalk where
  walkFrom : Nat
  fromBoundary : Nat
  deriving DecidableEq, Repr

/-- The state one visit carries between batches. -/
structure RetentionVisit where
  ceilingId : Nat
  fromBoundary : Nat
  belowCeilingDone : Bool
  walkFrom : Nat
  deriving DecidableEq, Repr

/-- The buffer a tick is at, its boundary, and its visit once that has begun. -/
structure Visited where
  buffer : Nat
  boundaryId : Nat
  visit : Option RetentionVisit

/-- A running tick: the buffers it took and has not come to yet, and the one it is at. -/
structure Tick where
  pending : List Nat
  current : Option Visited

structure Retention where
  /-- The rows, in id order. -/
  rows : List MessageRow
  nextId : Nat
  /-- The rows that their buffer's owner, who alone can, has bookmarked. -/
  bookmarks : List Nat
  buffers : List Nat
  /-- The buffers absorbed by others; an id is not used again. -/
  gone : List Nat
  dirty : List Nat
  walks : OrderedMap Nat BandWalk
  tick : Option Tick

def lineIds (lines : List MessageRow) : List Nat := lines.map MessageRow.id

/-- The id of a buffer's row at an offset from the newest one below an id. -/
def rowAtOffset (lines : List MessageRow) (below : Option Nat) (offset : Nat) : Option Nat :=
  Ranks.fromEnd ((lineIds lines).filter fun i => below.all fun b => decide (i < b)) offset

/-- The id of the newest row that is `cap` rows down: all below it is over the cap. -/
def retentionBoundaryId (lines : List MessageRow) (cap : Nat) : Option Nat :=
  rowAtOffset lines none (cap - 1)

/-- Whether a thread that a row belongs to, as a reply or as its first line, has a line at
or above a boundary. -/
def Spared (lines : List MessageRow) (boundary : Nat) (m : MessageRow) : Prop :=
  (∃ root, m.root = some root ∧
    ((∃ r ∈ lines, r.root = some root ∧ boundary ≤ r.id) ∨
      ∃ q ∈ lines, q.msgid = some root ∧ q.line = true ∧ boundary ≤ q.id)) ∨
  (∃ msgid, m.msgid = some msgid ∧ m.line = true ∧
    ∃ r ∈ lines, r.root = some msgid ∧ boundary ≤ r.id)

instance (lines : List MessageRow) (boundary : Nat) (m : MessageRow) :
    Decidable (Spared lines boundary m) :=
  decidable_of_iff
    ((m.root.any fun root =>
        (lines.any fun r => r.root = some root && decide (boundary ≤ r.id)) ||
          lines.any fun q => q.msgid = some root && q.line && decide (boundary ≤ q.id)) = true ∨
      (m.msgid.any fun msgid => m.line &&
        lines.any fun r => r.root = some msgid && decide (boundary ≤ r.id)) = true)
    (by
      unfold Spared
      cases m.root <;> cases m.msgid <;>
        simp [List.any_eq_true, and_assoc])

namespace Retention

/-- The rows of a buffer. -/
def of (s : Retention) (buffer : Nat) : List MessageRow := s.rows.filter (·.buffer = buffer)

def markBufferDirty (s : Retention) (buffer : Nat) : Retention :=
  { s with dirty := if buffer ∈ s.dirty then s.dirty else s.dirty ++ [buffer] }

def dropBandWalk (s : Retention) (buffer : Nat) : Retention :=
  { s with walks := s.walks.delete buffer }

def deleteRows (s : Retention) (ids : List Nat) : Retention :=
  { s with rows := s.rows.filter (·.id ∉ ids) }

/-- The absorbed buffer's rows become the survivor's. -/
def repointMessages (s : Retention) (survivor absorbed : Nat) : Retention :=
  { s with
    rows := s.rows.map fun m => if m.buffer = absorbed then { m with buffer := survivor } else m }

-- the cap of each buffer, at least 1
variable (cap : Nat → Nat)

/-- A visit to a buffer over its cap. -/
def newRetentionVisit (s : Retention) (buffer boundaryId : Nat) : RetentionVisit :=
  let ceilingId := (rowAtOffset (s.of buffer) (some boundaryId) (cap buffer - 1)).getD 0
  match s.walks.get? buffer with
  | some saved =>
    if saved.walkFrom < boundaryId ∧ ceilingId < saved.walkFrom then
      ⟨ceilingId, saved.fromBoundary, decide (ceilingId = 0), saved.walkFrom⟩
    else ⟨ceilingId, boundaryId, decide (ceilingId = 0), boundaryId⟩
  | none => ⟨ceilingId, boundaryId, decide (ceilingId = 0), boundaryId⟩

/-- The rows below the ceiling that may go. -/
def belowCandidates (s : Retention) (buffer ceilingId : Nat) : List Nat :=
  lineIds ((s.of buffer).filter fun m => decide (m.id < ceilingId) && decide (m.id ∉ s.bookmarks))

/-- The rows of one window of the band that may go. -/
def bandRows (s : Retention) (buffer boundaryId low walkFrom : Nat) : List Nat :=
  lineIds ((s.of buffer).filter fun m => decide (m.id < walkFrom) && decide (low ≤ m.id) &&
    decide (m.id ∉ s.bookmarks) && !decide (Spared (s.of buffer) boundaryId m))

/-- What one batch leaves, and whether nothing is left to walk. -/
structure Batch where
  state : Retention
  visit : RetentionVisit
  done : Bool

/-- Walk one window of the band. -/
def deleteBand (s : Retention) (buffer boundaryId limit : Nat) (visit : RetentionVisit) : Batch :=
  let low := rowAtOffset (s.of buffer) (some visit.walkFrom) (limit - 1)
  let last := low.all fun i => decide (i ≤ visit.ceilingId)
  let windowLow := if last then visit.ceilingId else low.getD 0
  let s' := s.deleteRows (s.bandRows buffer boundaryId windowLow visit.walkFrom)
  { state :=
      if last then s'.dropBandWalk buffer
      else { s' with walks := s'.walks.set buffer ⟨windowLow, visit.fromBoundary⟩ }
    visit := { visit with walkFrom := windowLow }
    done := last }

/-- One step of pruning a buffer; `picked` is what the database picks below the ceiling. None
when it cannot pick that. -/
def deleteRetentionBatch (s : Retention) (buffer boundaryId limit : Nat) (visit : RetentionVisit)
    (picked : List Nat) : Option Batch :=
  if visit.belowCeilingDone then some (s.deleteBand buffer boundaryId limit visit)
  else if Limit.Picks (s.belowCandidates buffer visit.ceilingId) limit picked then
    let s := s.deleteRows picked
    if limit ≤ picked.length then some ⟨s, visit, false⟩
    else
      let visit := { visit with belowCeilingDone := true }
      if 0 < picked.length then some ⟨s, visit, false⟩
      else some (s.deleteBand buffer boundaryId limit visit)
  else none

inductive Event where
  /-- A buffer is created. -/
  | create (buffer : Nat)
  | insert (buffer : Nat) (msgid root : Option String) (line : Bool)
  | bookmark (id : Nat)
  /-- One buffer absorbs another, by a rename or a re-fold. -/
  | absorb (survivor absorbed : Nat)
  | tick
  /-- The budget is spent when the tick comes to its next buffer. -/
  | skip
  /-- The tick comes to its next buffer, and finds its boundary. -/
  | probe
  | visit
  /-- A statement: what the database picks, the batch size as paced, and whether the tick is
  out of budget after it. -/
  | batch (picked : List Nat) (batchRows minBatchRows adapted : Nat) (outOfBudget : Bool)
  | finish
  /-- A statement throws. -/
  | throw
  | restart

/-- The tick goes on to its next buffer. -/
def leave (s : Retention) (pending : List Nat) : Retention :=
  { s with tick := some ⟨pending, none⟩ }

/-- What the sweeper does after a batch of a visit. -/
def afterBatch (b : Batch) (pending : List Nat) (buffer boundaryId : Nat) (outOfBudget : Bool) :
    Retention :=
  let again (visit : RetentionVisit) : Retention :=
    if outOfBudget then (b.state.markBufferDirty buffer).leave pending
    else { b.state with tick := some ⟨pending, some ⟨buffer, boundaryId, some visit⟩⟩ }
  if b.done then
    if b.visit.fromBoundary ≠ boundaryId then
      -- a walk begun under an earlier boundary: start again from this one
      again { b.visit with walkFrom := boundaryId, fromBoundary := boundaryId }
    else b.state.leave pending
  else again b.visit

def step (s : Retention) : Event → Retention
  | .create buffer =>
    if buffer ∈ s.buffers ∨ buffer ∈ s.gone then s else { s with buffers := s.buffers ++ [buffer] }
  | .insert buffer msgid root line =>
    if buffer ∈ s.buffers then
      { s with
        rows := s.rows ++ [(⟨s.nextId, buffer, msgid, root, line⟩ : MessageRow)]
        nextId := s.nextId + 1 }.markBufferDirty buffer
    else s
  | .bookmark id => { s with bookmarks := s.bookmarks ++ [id] }
  | .absorb survivor absorbed =>
    if survivor ≠ absorbed ∧ survivor ∈ s.buffers ∧ absorbed ∈ s.buffers then
      { s.repointMessages survivor absorbed with
        buffers := s.buffers.filter (· ≠ absorbed)
        gone := s.gone ++ [absorbed] }
    else s
  | .tick =>
    match s.tick with
    | some _ => s
    | none => { s with tick := some ⟨s.dirty, none⟩, dirty := [] }
  | .skip =>
    match s.tick with
    | some ⟨buffer :: pending, none⟩ => (s.markBufferDirty buffer).leave pending
    | _ => s
  | .probe =>
    match s.tick with
    | some ⟨buffer :: pending, none⟩ =>
      if buffer ∉ s.buffers then (s.dropBandWalk buffer).leave pending else
      match retentionBoundaryId (s.of buffer) (cap buffer) with
      | none => (s.dropBandWalk buffer).leave pending
      | some boundaryId => { s with tick := some ⟨pending, some ⟨buffer, boundaryId, none⟩⟩ }
    | _ => s
  | .visit =>
    match s.tick with
    | some ⟨pending, some ⟨buffer, boundaryId, none⟩⟩ =>
      { s with
        tick := some
          ⟨pending, some ⟨buffer, boundaryId, some (s.newRetentionVisit cap buffer boundaryId)⟩⟩ }
    | _ => s
  | .batch picked batchRows minBatchRows adapted outOfBudget =>
    match s.tick with
    | some ⟨pending, some ⟨buffer, boundaryId, some visit⟩⟩ =>
      match s.deleteRetentionBatch buffer boundaryId
          (NoiseClock.pacedBatchRows batchRows minBatchRows adapted) visit picked with
      | none => s
      | some b => afterBatch b pending buffer boundaryId outOfBudget
    | _ => s
  | .finish =>
    match s.tick with
    | some ⟨[], none⟩ => { s with tick := none }
    | _ => s
  | .throw =>
    match s.tick with
    | some ⟨pending, current⟩ =>
      { (current.toList.map Visited.buffer ++ pending).foldl markBufferDirty s with tick := none }
    | none => s
  | .restart =>
    { s with dirty := s.buffers, walks := .empty, tick := none }

def start : Retention where
  rows := []
  nextId := 1
  bookmarks := []
  buffers := []
  gone := []
  dirty := []
  walks := .empty
  tick := none

/-- A buffer in the dirty set, or taken out of it by the running tick and not come to yet. -/
def Awaits (s : Retention) (buffer : Nat) : Prop :=
  buffer ∈ s.dirty ∨ ∃ t, s.tick = some t ∧ buffer ∈ t.pending

/-- A buffer that awaits the sweeper or has it. -/
def Marked (s : Retention) (buffer : Nat) : Prop :=
  s.Awaits buffer ∨ ∃ t v, s.tick = some t ∧ t.current = some v ∧ v.buffer = buffer

/-- A row that may go under a boundary: not bookmarked, below the newest rows up to the cap,
and below the ceiling or in no thread that is alive. -/
structure MayGo (s : Retention) (boundaryId : Nat) (m : MessageRow) : Prop where
  unmarked : m.id ∉ s.bookmarks
  overCap : ∃ top, retentionBoundaryId (s.of m.buffer) (cap m.buffer) = some top ∧ m.id < top
  unspared : (∃ ceiling, rowAtOffset (s.of m.buffer) (some boundaryId) (cap m.buffer - 1) =
      some ceiling ∧ m.id < ceiling) ∨
    ¬ Spared (s.of m.buffer) boundaryId m

/-- Below the boundary there are only bookmarked rows, and rows from the ceiling up that a
live thread spares. -/
def Settled (lines : List MessageRow) (bookmarks : List Nat) (cap : Nat) : Prop :=
  ∀ boundaryId, retentionBoundaryId lines cap = some boundaryId →
    ∀ m ∈ lines, m.id < boundaryId → m.id ∈ bookmarks ∨
      (Spared lines boundaryId m ∧
        ∀ ceiling, rowAtOffset lines (some boundaryId) (cap - 1) = some ceiling → ceiling ≤ m.id)

/-- Only rows that may go are deleted, and a buffer that is not marked is settled, with at
most twice its cap of rows besides the bookmarked ones. -/
structure Promise (es : List Event) : Prop where
  deleted : ∀ e, ∀ m ∈ (Run.after (step cap) start es).rows,
    (∀ q ∈ (Run.after (step cap) start (es ++ [e])).rows, q.id ≠ m.id) →
      ∃ t v, (Run.after (step cap) start es).tick = some t ∧ t.current = some v ∧
        v.buffer = m.buffer ∧ MayGo cap (Run.after (step cap) start es) v.boundaryId m
  settled : ∀ buffer, ¬ (Run.after (step cap) start es).Marked buffer →
    Settled ((Run.after (step cap) start es).of buffer) (Run.after (step cap) start es).bookmarks
      (cap buffer)
  bounded : ∀ buffer, ¬ (Run.after (step cap) start es).Marked buffer →
    (((Run.after (step cap) start es).of buffer).filter
      fun m => m.id ∉ (Run.after (step cap) start es).bookmarks).length ≤ 2 * cap buffer

/-- A walk of a buffer's band: the one saved, or the one its visit is at. -/
def WalkOf (s : Retention) (buffer : Nat) (w : BandWalk) : Prop :=
  s.walks.get? buffer = some w ∨
    ∃ t v visit, s.tick = some t ∧ t.current = some v ∧ v.buffer = buffer ∧ v.visit = some visit ∧
      w = ⟨visit.walkFrom, visit.fromBoundary⟩

/-- Absorbing a buffer puts no rows where the sweeper will not look: there are none, or they
stay within the cap together, or the survivor awaits the sweeper and no walk of its band has
passed the new rows under a boundary that they leave in place. -/
def Harmless (s : Retention) : Event → Prop
  | .absorb survivor absorbed =>
    s.of absorbed = [] ∨ (s.of survivor).length + (s.of absorbed).length ≤ cap survivor ∨
      (s.Awaits survivor ∧ ∀ w, s.WalkOf survivor w →
        (∀ m ∈ s.of absorbed, ¬ (w.walkFrom ≤ m.id ∧ m.id < w.fromBoundary)) ∨
          ∃ m ∈ s.of absorbed, w.fromBoundary ≤ m.id)
  | _ => True

end Retention

end Lurker.Db
