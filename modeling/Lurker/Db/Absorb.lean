import Lurker.Irc.Casemapping
import Lurker.Lib.Table

/-!
# The buffer registry, and absorbing one row into another

The registry's rows differ in their ids and, by its unique index, in their folded
targets. Absorbing a row moves its history to the survivor, merges or hands over
what hangs off it, and deletes it with whatever is left.
-/

namespace Lurker.Db

open Lurker.Irc

inductive BufferKind where
  | channel
  | dm
  | dcc
  | server
  | system
  deriving DecidableEq, Repr

structure BufferRow where
  id : Nat
  target : Str
  folded : Str
  kind : BufferKind
  isOpen : Bool
  closedAt : Option Str
  autojoin : Bool
  key : Option Str
  deriving DecidableEq, Repr

/-- The rows of one user and network, under the primary key and the unique index. -/
structure Registry where
  rows : List BufferRow
  ids : (rows.map BufferRow.id).Nodup
  folds : (rows.map BufferRow.folded).Nodup

/-- A row of `messages` or `input_history`, as far as a merge looks at it. -/
structure Line where
  id : Nat
  buffer : Nat
  deriving DecidableEq, Repr

/-- A row that hangs off a buffer; `sub` tells the rows of one buffer apart. -/
structure Satellite (α : Type) where
  buffer : Nat
  sub : Str
  value : α
  deriving DecidableEq, Repr

structure Reads where
  lastRead : Nat
  clearedBefore : Option Nat
  clearedAt : Option Str
  deriving DecidableEq, Repr

/-- One network's rows. -/
structure Database where
  casemapping : Option Casemapping
  buffers : Registry
  messages : List Line
  inputHistory : List Line
  reads : List (Satellite Reads)
  pins : List (Satellite Nat)
  favorites : List (Satellite Nat)
  nicklist : List (Satellite Bool)
  notify : List (Satellite Str)
  drafts : List (Satellite Str)
  follows : List (Satellite Nat)

namespace Registry

/-- An update outside the id and the fold. -/
def update (r : Registry) (p : BufferRow → Bool) (f : BufferRow → BufferRow)
    (hid : ∀ b, (f b).id = b.id) (hfold : ∀ b, (f b).folded = b.folded) : Registry where
  rows := r.rows.map fun b => if p b then f b else b
  ids := by
    have h : (r.rows.map fun b => if p b then f b else b).map BufferRow.id =
        r.rows.map BufferRow.id := by
      rw [List.map_map]
      refine List.map_congr_left fun b _ => ?_
      by_cases hp : p b <;> simp [hp, hid]
    rw [h]
    exact r.ids
  folds := by
    have h : (r.rows.map fun b => if p b then f b else b).map BufferRow.folded =
        r.rows.map BufferRow.folded := by
      rw [List.map_map]
      refine List.map_congr_left fun b _ => ?_
      by_cases hp : p b <;> simp [hp, hfold]
    rw [h]
    exact r.folds

def delete (r : Registry) (id : Nat) : Registry where
  rows := r.rows.filter fun b => b.id ≠ id
  ids := (List.filter_sublist.map _).nodup r.ids
  folds := (List.filter_sublist.map _).nodup r.folds

end Registry

/-- `UPDATE … SET buffer_id = survivor WHERE buffer_id = absorbed` -/
def repoint (survivor absorbed : Nat) (lines : List Line) : List Line :=
  lines.map fun l => if l.buffer = absorbed then { l with buffer := survivor } else l

section Satellites

variable {α : Type}

/-- The same, for a table in which the survivor may already have the row: those stay. -/
def adopt (survivor absorbed : Nat) (rows : List (Satellite α)) : List (Satellite α) :=
  rows.map fun r =>
    if r.buffer = absorbed ∧ ¬ rows.any fun s => s.buffer = survivor ∧ s.sub = r.sub then
      { r with buffer := survivor }
    else r

/-- What a deleted buffer leaves of a table. -/
def cascade (id : Nat) (rows : List (Satellite α)) : List (Satellite α) :=
  rows.filter fun r => r.buffer ≠ id

end Satellites

/-- The furthest pointer and the latest clear marker, with its time. -/
def mergeReads (survivor absorbed : Nat) (rows : List (Satellite Reads)) : List (Satellite Reads) :=
  let other := (rows.find? fun r => r.buffer = absorbed).map Satellite.value
  let lastRead := (other.map Reads.lastRead).getD 0
  let cleared := (other.bind Reads.clearedBefore).getD 0
  rows.map fun r =>
    if r.buffer = survivor then
      let own := r.value.clearedBefore.getD 0
      { r with
        value :=
          { lastRead := max r.value.lastRead lastRead
            clearedAt := if own < cleared then other.bind Reads.clearedAt else r.value.clearedAt
            clearedBefore := if max own cleared = 0 then none else some (max own cleared) } }
    else r

/-- Positions made dense again, in their order. -/
def renumber (rows : List (Satellite Nat)) : List (Satellite Nat) :=
  rows.map fun r =>
    { r with
      value := (rows.filter fun s =>
        decide (s.value < r.value) || decide (s.value = r.value ∧ s.buffer < r.buffer)).length }

namespace Database

/-- Union of autojoin, first key. -/
def mergeChannelProps (db : Database) (survivor absorbed : Nat) : Registry :=
  let other := db.buffers.rows.find? fun b => b.id = absorbed
  db.buffers.update (fun b => b.id = survivor)
    (fun b => { b with
      autojoin := b.autojoin || (other.map BufferRow.autojoin).getD false
      key := b.key <|> other.bind BufferRow.key })
    (fun _ => rfl) (fun _ => rfl)

def setOpen (r : Registry) (id : Nat) : Registry :=
  r.update (fun b => b.id = id) (fun b => { b with isOpen := true, closedAt := none })
    (fun _ => rfl) (fun _ => rfl)

def draftBody (db : Database) (id : Nat) : Option Str :=
  (db.drafts.find? fun r => r.buffer = id).map Satellite.value

/-- Absorb one buffer row into another; true when the survivor's draft changed. -/
def absorbBufferRow (db : Database) (survivor absorbed : BufferRow) : Database × Bool :=
  let s := survivor.id
  let a := absorbed.id
  let buffers := db.mergeChannelProps s a
  let buffers := if absorbed.isOpen ∧ ¬ survivor.isOpen then setOpen buffers s else buffers
  let db' : Database :=
    { casemapping := db.casemapping
      buffers := buffers.delete a
      messages := (repoint s a db.messages).filter fun l => l.buffer ≠ a
      inputHistory := (repoint s a db.inputHistory).filter fun l => l.buffer ≠ a
      reads := cascade a (adopt s a (mergeReads s a db.reads))
      pins := renumber (cascade a (adopt s a db.pins))
      favorites := renumber (cascade a (adopt s a db.favorites))
      nicklist := cascade a (adopt s a db.nicklist)
      notify := cascade a (adopt s a db.notify)
      drafts := cascade a (adopt s a db.drafts)
      follows := cascade a (adopt s a db.follows) }
  (db', decide (db'.draftBody s ≠ db.draftBody s))

end Database

/-- A database left by merging every buffer into the one a map sends it to. -/
structure MergedAlong (survivor : Nat → Nat) (db db' : Database) : Prop where
  kept : ∀ b' ∈ db'.buffers.rows, ∃ b ∈ db.buffers.rows,
    b.id = b'.id ∧ b.target = b'.target ∧ b.folded = b'.folded ∧ b.kind = b'.kind ∧
      survivor b.id = b.id
  sent : ∀ b ∈ db.buffers.rows, ∃ b' ∈ db'.buffers.rows, b'.id = survivor b.id
  isOpen : ∀ b' ∈ db'.buffers.rows,
    (b'.isOpen = true ↔ ∃ b ∈ db.buffers.rows, survivor b.id = b'.id ∧ b.isOpen = true)
  messages : db'.messages = db.messages.map fun l => { l with buffer := survivor l.buffer }
  inputHistory :
    db'.inputHistory = db.inputHistory.map fun l => { l with buffer := survivor l.buffer }
  casemapping : db'.casemapping = db.casemapping

theorem Registry.eq_of_id {r : Registry} {b b' : BufferRow} (h : b ∈ r.rows) (h' : b' ∈ r.rows)
    (hid : b.id = b'.id) : b = b' :=
  List.inj_on_of_nodup_map r.ids h h' hid

theorem Registry.eq_of_folded {r : Registry} {b b' : BufferRow} (h : b ∈ r.rows)
    (h' : b' ∈ r.rows) (hfold : b.folded = b'.folded) : b = b' :=
  List.inj_on_of_nodup_map r.folds h h' hfold

namespace MergedAlong

variable {db db' db'' : Database} {f g : Nat → Nat}

protected theorem refl (db : Database) : MergedAlong id db db where
  kept b hb := ⟨b, hb, rfl, rfl, rfl, rfl, rfl⟩
  sent b hb := ⟨b, hb, rfl⟩
  isOpen b hb := by
    constructor
    · exact fun h => ⟨b, hb, rfl, h⟩
    · rintro ⟨b', hb', hid, h⟩
      exact db.buffers.eq_of_id hb' hb hid ▸ h
  messages := by simp
  inputHistory := by simp
  casemapping := rfl

protected theorem trans (h : MergedAlong f db db') (h' : MergedAlong g db' db'') :
    MergedAlong (g ∘ f) db db'' where
  kept b'' hb'' := by
    obtain ⟨b', hb', hid', htarget', hfolded', hkind', hself'⟩ := h'.kept b'' hb''
    obtain ⟨b, hb, hid, htarget, hfolded, hkind, hself⟩ := h.kept b' hb'
    refine ⟨b, hb, hid.trans hid', htarget.trans htarget', hfolded.trans hfolded',
      hkind.trans hkind', ?_⟩
    show g (f b.id) = b.id
    rw [hself, hid, hself']
  sent b hb := by
    obtain ⟨b', hb', hid'⟩ := h.sent b hb
    obtain ⟨b'', hb'', hid''⟩ := h'.sent b' hb'
    exact ⟨b'', hb'', hid''.trans (congrArg g hid')⟩
  isOpen b'' hb'' := by
    rw [h'.isOpen b'' hb'']
    constructor
    · rintro ⟨b', hb', hid', hopen'⟩
      obtain ⟨b, hb, hid, hopen⟩ := (h.isOpen b' hb').mp hopen'
      exact ⟨b, hb, (congrArg g hid).trans hid', hopen⟩
    · rintro ⟨b, hb, hid, hopen⟩
      obtain ⟨b', hb', hid'⟩ := h.sent b hb
      exact ⟨b', hb', (congrArg g hid').trans hid, (h.isOpen b' hb').mpr ⟨b, hb, hid'.symm, hopen⟩⟩
  messages := by
    rw [h'.messages, h.messages, List.map_map]
    rfl
  inputHistory := by
    rw [h'.inputHistory, h.inputHistory, List.map_map]
    rfl
  casemapping := h'.casemapping.trans h.casemapping

end MergedAlong

/-- Where absorbing one row sends the buffers. -/
def sendTo (survivor absorbed : Nat) (id : Nat) : Nat := if id = absorbed then survivor else id

theorem repoint_eq {survivor absorbed : Nat} (hne : survivor ≠ absorbed) (lines : List Line) :
    ((repoint survivor absorbed lines).filter fun l => l.buffer ≠ absorbed) =
      lines.map fun l => { l with buffer := sendTo survivor absorbed l.buffer } := by
  have hmap : repoint survivor absorbed lines =
      lines.map fun l => { l with buffer := sendTo survivor absorbed l.buffer } := by
    refine List.map_congr_left fun l _ => ?_
    unfold sendTo
    split <;> rfl
  rw [hmap, List.filter_eq_self]
  intro l hl
  obtain ⟨l', -, rfl⟩ := List.mem_map.mp hl
  unfold sendTo
  split
  · simpa using hne
  · simpa using ‹_›

/-- What absorbing a row makes of another: its columns, open when either side was. -/
def absorbedInto (db : Database) (survivor absorbed : BufferRow) (b : BufferRow) : BufferRow :=
  let other := db.buffers.rows.find? fun b => b.id = absorbed.id
  let b := if b.id = survivor.id then
    { b with
      autojoin := b.autojoin || (other.map BufferRow.autojoin).getD false
      key := b.key <|> other.bind BufferRow.key }
    else b
  if (absorbed.isOpen ∧ ¬ survivor.isOpen) ∧ b.id = survivor.id then
    { b with isOpen := true, closedAt := none }
  else b

section

variable {db : Database} {survivor absorbed : BufferRow}

theorem absorbedInto_fields (db : Database) (survivor absorbed b : BufferRow) :
    (absorbedInto db survivor absorbed b).id = b.id ∧
      (absorbedInto db survivor absorbed b).target = b.target ∧
      (absorbedInto db survivor absorbed b).folded = b.folded ∧
      (absorbedInto db survivor absorbed b).kind = b.kind := by
  unfold absorbedInto
  dsimp only
  split <;> split <;> exact ⟨rfl, rfl, rfl, rfl⟩

theorem absorbedInto_isOpen (b : BufferRow) (h : b.id = survivor.id → b.isOpen = survivor.isOpen) :
    (absorbedInto db survivor absorbed b).isOpen = true ↔
      b.isOpen = true ∨ (b.id = survivor.id ∧ absorbed.isOpen = true) := by
  unfold absorbedInto
  dsimp only
  by_cases hid : b.id = survivor.id
  · have hopen := h hid
    by_cases ha : absorbed.isOpen = true <;> by_cases hs : survivor.isOpen = true <;>
      simp [hid, ha, hs, hopen]
  · simp [hid]

theorem mem_absorbBufferRow {b' : BufferRow} :
    b' ∈ (db.absorbBufferRow survivor absorbed).1.buffers.rows ↔
      ∃ b ∈ db.buffers.rows, b.id ≠ absorbed.id ∧ absorbedInto db survivor absorbed b = b' := by
  have hrows : (db.absorbBufferRow survivor absorbed).1.buffers.rows =
      (db.buffers.rows.map (absorbedInto db survivor absorbed)).filter
        fun b => b.id ≠ absorbed.id := by
    show (if absorbed.isOpen ∧ ¬ survivor.isOpen then
      Database.setOpen (db.mergeChannelProps survivor.id absorbed.id) survivor.id
      else db.mergeChannelProps survivor.id absorbed.id).rows.filter
        (fun b => b.id ≠ absorbed.id) = _
    congr 1
    split
    · rename_i hopen
      simp only [Database.setOpen, Database.mergeChannelProps, Registry.update, List.map_map]
      refine List.map_congr_left fun b _ => ?_
      simp [absorbedInto, hopen]
    · rename_i hopen
      simp only [Database.mergeChannelProps, Registry.update]
      refine List.map_congr_left fun b _ => ?_
      have hclosed : ¬ (absorbed.isOpen = true ∧ survivor.isOpen = false) := by simpa using hopen
      by_cases hid : b.id = survivor.id <;> simp [absorbedInto, hid, hclosed]
  rw [hrows, List.mem_filter, List.mem_map]
  constructor
  · rintro ⟨⟨b, hb, rfl⟩, hne⟩
    rw [(absorbedInto_fields db survivor absorbed b).1] at hne
    exact ⟨b, hb, by simpa using hne, rfl⟩
  · rintro ⟨b, hb, hne, rfl⟩
    refine ⟨⟨b, hb, rfl⟩, ?_⟩
    rw [(absorbedInto_fields db survivor absorbed b).1]
    simpa using hne

/-- Absorbing a row merges its buffer into the survivor's and nothing else. -/
theorem absorbBufferRow_merged (hne : survivor.id ≠ absorbed.id)
    (hsurvivor : ∃ b ∈ db.buffers.rows, b.id = survivor.id ∧ b.isOpen = survivor.isOpen)
    (habsorbed : ∃ b ∈ db.buffers.rows, b.id = absorbed.id ∧ b.isOpen = absorbed.isOpen) :
    MergedAlong (sendTo survivor.id absorbed.id) db (db.absorbBufferRow survivor absorbed).1 := by
  obtain ⟨s, hs, hsid, hsopen⟩ := hsurvivor
  obtain ⟨a, ha, haid, haopen⟩ := habsorbed
  have hopen (b : BufferRow) (hb : b ∈ db.buffers.rows) (hid : b.id = survivor.id) :
      b.isOpen = survivor.isOpen :=
    db.buffers.eq_of_id hb hs (hid.trans hsid.symm) ▸ hsopen
  refine ⟨?_, ?_, ?_, repoint_eq hne _, repoint_eq hne _, rfl⟩
  · intro b' hb'
    obtain ⟨b, hb, hid, rfl⟩ := mem_absorbBufferRow.mp hb'
    obtain ⟨h₁, h₂, h₃, h₄⟩ := absorbedInto_fields db survivor absorbed b
    exact ⟨b, hb, h₁.symm, h₂.symm, h₃.symm, h₄.symm, if_neg hid⟩
  · intro b hb
    by_cases hid : b.id = absorbed.id
    · refine ⟨_, mem_absorbBufferRow.mpr ⟨s, hs, hsid ▸ hne, rfl⟩, ?_⟩
      rw [(absorbedInto_fields db survivor absorbed s).1, hsid, sendTo, if_pos hid]
    · refine ⟨_, mem_absorbBufferRow.mpr ⟨b, hb, hid, rfl⟩, ?_⟩
      rw [(absorbedInto_fields db survivor absorbed b).1, sendTo, if_neg hid]
  · intro b' hb'
    obtain ⟨b, hb, hid, rfl⟩ := mem_absorbBufferRow.mp hb'
    rw [absorbedInto_isOpen b (hopen b hb), (absorbedInto_fields db survivor absorbed b).1]
    constructor
    · rintro (h | ⟨hsurvivor, h⟩)
      · exact ⟨b, hb, if_neg hid, h⟩
      · exact ⟨a, ha, (if_pos haid).trans hsurvivor.symm, haopen.trans h⟩
    · rintro ⟨b', hb', hsent, h⟩
      unfold sendTo at hsent
      split at hsent
      · rename_i hb'id
        right
        refine ⟨hsent.symm, ?_⟩
        rw [← haopen, ← db.buffers.eq_of_id hb' ha (hb'id.trans haid.symm)]
        exact h
      · exact .inl (db.buffers.eq_of_id hb' hb hsent ▸ h)

end

end Lurker.Db
