import Lurker.Db.Refold
import Lurker.Lib.Ranks
import Mathlib.Data.List.Find
import Mathlib.Data.Prod.Lex

/-!
# Renaming a buffer

A rename onto a name that another buffer has absorbs that buffer into the one renamed. What
either had is kept, the survivor's own where both had it, but for the retention override:
no statement adopts it, so an override that only the absorbed buffer had goes with its row.
-/

namespace Lurker.Db

open Lurker.Irc

/-- One row a buffer. -/
structure PrimaryKey {α : Type} (rows : List (Satellite α)) : Prop where
  nodup : (rows.map Satellite.buffer).Nodup
  plain : ∀ r ∈ rows, r.sub = []

/-- One row a buffer and a root. -/
def RootKey {α : Type} (rows : List (Satellite α)) : Prop :=
  (rows.map fun r => (r.buffer, r.sub)).Nodup

/-- The tables that a merge touches, under their primary keys, and the retention overrides. -/
structure Store extends Database where
  retention : List (Satellite Nat)
  readsKey : PrimaryKey reads
  pinsKey : PrimaryKey pins
  favoritesKey : PrimaryKey favorites
  nicklistKey : PrimaryKey nicklist
  notifyKey : PrimaryKey notify
  draftsKey : PrimaryKey drafts
  retentionKey : PrimaryKey retention
  followsKey : RootKey follows

/-- The row of a buffer and a root. -/
def entry {α : Type} (rows : List (Satellite α)) (buffer : Nat) (sub : Str) : Option α :=
  (rows.find? fun r => r.buffer = buffer ∧ r.sub = sub).map Satellite.value

section Keys

variable {α β : Type} {rows : List (Satellite α)}

theorem PrimaryKey.rootKey (h : PrimaryKey rows) : RootKey rows :=
  List.Nodup.of_map Prod.fst (by rw [List.map_map]; exact h.nodup)

theorem PrimaryKey.cascade (h : PrimaryKey rows) (id : Nat) : PrimaryKey (cascade id rows) :=
  ⟨(List.filter_sublist.map _).nodup h.nodup, fun r hr => h.plain r (List.mem_of_mem_filter hr)⟩

theorem RootKey.cascade (h : RootKey rows) (id : Nat) : RootKey (cascade id rows) :=
  (List.filter_sublist.map _).nodup h

/-- A statement that leaves a row its key. -/
theorem PrimaryKey.map (h : PrimaryKey rows) {f : Satellite α → Satellite β}
    (hf : ∀ r, (f r).buffer = r.buffer ∧ (f r).sub = r.sub) : PrimaryKey (rows.map f) := by
  constructor
  · rw [List.map_map]
    have hkey : Satellite.buffer ∘ f = Satellite.buffer := funext fun r => (hf r).1
    rw [hkey]
    exact h.nodup
  · intro r hr
    obtain ⟨r', hr', rfl⟩ := List.mem_map.mp hr
    exact (hf r').2.trans (h.plain r' hr')

theorem RootKey.adopt (h : RootKey rows) (survivor absorbed : Nat) :
    RootKey (adopt survivor absorbed rows) := by
  unfold RootKey Db.adopt
  rw [List.map_map]
  refine List.Nodup.map_on (fun r hr r' hr' heq => ?_) (List.Nodup.of_map _ h)
  have hsame (heq : (r.buffer, r.sub) = (r'.buffer, r'.sub)) : r = r' :=
    List.inj_on_of_nodup_map h hr hr' heq
  have htaken {x y : Satellite α} (hy : y ∈ rows) (hnone : ¬ rows.any fun s =>
      s.buffer = survivor ∧ s.sub = x.sub) : ¬ (y.buffer = survivor ∧ y.sub = x.sub) :=
    fun hkey => hnone (List.any_eq_true.mpr ⟨y, hy, decide_eq_true hkey⟩)
  simp only [Function.comp] at heq
  split at heq <;> split at heq
  · rename_i hadopt hadopt'
    exact hsame (Prod.ext (hadopt.1.trans hadopt'.1.symm) (Prod.mk.inj heq).2)
  · rename_i hadopt _
    obtain ⟨hbuffer, hsub⟩ := Prod.mk.inj heq
    exact absurd ⟨hbuffer.symm, hsub.symm⟩ (htaken hr' hadopt.2)
  · rename_i _ hadopt
    exact absurd (Prod.mk.inj heq) (htaken hr hadopt.2)
  · exact hsame heq

theorem PrimaryKey.adopt (h : PrimaryKey rows) (survivor absorbed : Nat) :
    PrimaryKey (adopt survivor absorbed rows) := by
  have hplain : ∀ r ∈ Db.adopt survivor absorbed rows, r.sub = [] := by
    intro r hr
    obtain ⟨r', hr', rfl⟩ := List.mem_map.mp hr
    split <;> exact h.plain r' hr'
  have hroot := h.rootKey.adopt survivor absorbed
  refine ⟨List.Nodup.map_on (fun r hr r' hr' heq => ?_) (List.Nodup.of_map _ hroot), hplain⟩
  exact List.inj_on_of_nodup_map hroot hr hr'
    (Prod.ext heq ((hplain r hr).trans (hplain r' hr').symm))

theorem PrimaryKey.mergeReads {rows : List (Satellite Reads)} (h : PrimaryKey rows)
    (survivor absorbed : Nat) : PrimaryKey (mergeReads survivor absorbed rows) :=
  h.map fun r => by split <;> exact ⟨rfl, rfl⟩

theorem PrimaryKey.renumber {rows : List (Satellite Nat)} (h : PrimaryKey rows) :
    PrimaryKey (renumber rows) :=
  h.map fun _ => ⟨rfl, rfl⟩

end Keys

/-- `UPDATE buffers SET target = …, target_folded = … WHERE id = …`, none when another row has
the fold. -/
def Registry.setName (r : Registry) (id : Nat) (target folded : Str) : Option Registry :=
  (r.setFolded id folded).map fun r =>
    r.update (fun b => b.id = id) (fun b => { b with target }) (fun _ => rfl) (fun _ => rfl)

namespace Store

/-- Absorb a row. The retention override of the absorbed row goes with it. -/
def absorbBufferRow (st : Store) (survivor absorbed : BufferRow) : Store × Bool :=
  let merged := st.toDatabase.absorbBufferRow survivor absorbed
  ({ toDatabase := merged.1
     retention := cascade absorbed.id st.retention
     readsKey := ((st.readsKey.mergeReads _ _).adopt _ _).cascade _
     pinsKey := ((st.pinsKey.adopt _ _).cascade _).renumber
     favoritesKey := ((st.favoritesKey.adopt _ _).cascade _).renumber
     nicklistKey := (st.nicklistKey.adopt _ _).cascade _
     notifyKey := (st.notifyKey.adopt _ _).cascade _
     draftsKey := (st.draftsKey.adopt _ _).cascade _
     retentionKey := st.retentionKey.cascade _
     followsKey := (st.followsKey.adopt _ _).cascade _ }, merged.2)

def setName (st : Store) (id : Nat) (target folded : Str) : Option Store :=
  (st.buffers.setName id target folded).map fun buffers => { st with buffers }

-- `toLowerCase` of the platform
variable (lower : Str → Str)

def foldTargetFor (st : Store) (target : Str) : Str := foldTargetWith lower st.casemapping target

def resolveBuffer (st : Store) (target : Str) : Option BufferRow :=
  st.buffers.rows.find? fun b => b.folded = st.foldTargetFor lower target

/-- A name that no buffer of a user has. -/
def isSentinel (target : Str) : Bool := target.head? = some ':'

end Store

section Kept

variable {α : Type}

/-- What either side had, the survivor's own where both had it. -/
def mergedEntry (rows : List (Satellite α)) (survivor absorbed buffer : Nat) (sub : Str) :
    Option α :=
  if buffer = absorbed then none
  else if buffer = survivor then entry rows survivor sub <|> entry rows absorbed sub
  else entry rows buffer sub

/-- The rows of the survivor are what either side had, and no other row changes. -/
def Adopted (rows rows' : List (Satellite α)) (survivor absorbed : Nat) : Prop :=
  ∀ buffer sub, entry rows' buffer sub = mergedEntry rows survivor absorbed buffer sub

/-- Positions are dense again, in the order they had. -/
structure Renumbered (rows rows' : List (Satellite Nat)) (survivor absorbed : Nat) : Prop where
  placed : ∀ buffer, (entry rows' buffer []).isSome =
    (mergedEntry rows survivor absorbed buffer []).isSome
  dense : (rows'.map Satellite.value).Perm (List.range rows'.length)
  order : ∀ b c old old' new new', mergedEntry rows survivor absorbed b [] = some old →
    mergedEntry rows survivor absorbed c [] = some old' → entry rows' b [] = some new →
    entry rows' c [] = some new' → old < old' → new < new'

def lastRead (rows : List (Satellite Reads)) (buffer : Nat) : Nat :=
  ((entry rows buffer []).map Reads.lastRead).getD 0

/-- The clear marker of a buffer and when it was set; 0 is none. -/
def clearMarker (rows : List (Satellite Reads)) (buffer : Nat) : Option (Nat × Option Str) :=
  (entry rows buffer []).bind fun r =>
    r.clearedBefore.bind fun n => if n = 0 then none else some (n, r.clearedAt)

/-- The marker that clears more, the first on a tie. -/
def laterMarker (m m' : Option (Nat × Option Str)) : Option (Nat × Option Str) :=
  if (m.map Prod.fst).getD 0 < (m'.map Prod.fst).getD 0 then m' else m

end Kept

/-- The survivor has everything that either side had, and no row of another buffer changes. -/
structure Merged (st st' : Store) (survivor absorbed : BufferRow) : Prop where
  survives : ∃ r ∈ st'.buffers.rows, r.id = survivor.id ∧
    r.autojoin = (survivor.autojoin || absorbed.autojoin) ∧
    r.key = (survivor.key <|> absorbed.key) ∧ r.isOpen = (survivor.isOpen || absorbed.isOpen)
  gone : ∀ r ∈ st'.buffers.rows, r.id ≠ absorbed.id
  others : ∀ r, r.id ≠ survivor.id → r.id ≠ absorbed.id →
    (r ∈ st'.buffers.rows ↔ r ∈ st.buffers.rows)
  messages : st'.messages = st.messages.map fun l =>
    { l with buffer := sendTo survivor.id absorbed.id l.buffer }
  inputHistory : st'.inputHistory = st.inputHistory.map fun l =>
    { l with buffer := sendTo survivor.id absorbed.id l.buffer }
  lastRead : lastRead st'.reads survivor.id =
    max (lastRead st.reads survivor.id) (lastRead st.reads absorbed.id)
  clearMarker : clearMarker st'.reads survivor.id =
    laterMarker (clearMarker st.reads survivor.id) (clearMarker st.reads absorbed.id)
  otherReads : ∀ buffer, buffer ≠ survivor.id → buffer ≠ absorbed.id →
    entry st'.reads buffer [] = entry st.reads buffer []
  pins : Renumbered st.pins st'.pins survivor.id absorbed.id
  favorites : Renumbered st.favorites st'.favorites survivor.id absorbed.id
  nicklist : Adopted st.nicklist st'.nicklist survivor.id absorbed.id
  notify : Adopted st.notify st'.notify survivor.id absorbed.id
  drafts : Adopted st.drafts st'.drafts survivor.id absorbed.id
  follows : Adopted st.follows st'.follows survivor.id absorbed.id
  retention : Adopted st.retention st'.retention survivor.id absorbed.id

section Entries

variable {α : Type} {rows : List (Satellite α)} {survivor absorbed : Nat}

end Entries

section ReadEntries

variable {rows : List (Satellite Reads)} {survivor absorbed : Nat}

/-- A read state with another folded into it. -/
def Reads.fold (own : Reads) (other : Option Reads) : Reads :=
  let cleared := (other.bind Reads.clearedBefore).getD 0
  { lastRead := max own.lastRead ((other.map Reads.lastRead).getD 0)
    clearedAt :=
      if own.clearedBefore.getD 0 < cleared then other.bind Reads.clearedAt else own.clearedAt
    clearedBefore :=
      if max (own.clearedBefore.getD 0) cleared = 0 then none
      else some (max (own.clearedBefore.getD 0) cleared) }

/-- The marker of a read state; 0 is none. -/
def Reads.marker (r : Reads) : Option (Nat × Option Str) :=
  r.clearedBefore.bind fun n => if n = 0 then none else some (n, r.clearedAt)

end ReadEntries

section Positions

variable {rows : List (Satellite Nat)} {survivor absorbed : Nat}

/-- Rows are ordered by their positions, then by their buffers. -/
def place (r : Satellite Nat) : ℕ ×ₗ ℕ := toLex (r.value, r.buffer)

end Positions

section Renaming

/-- A row under another name. -/
def BufferRow.named (b : BufferRow) (target folded : Str) : BufferRow := { b with target, folded }

theorem Registry.setName_rows {r r' : Registry} {id : Nat} {target folded : Str}
    (h : r.setName id target folded = some r') :
    r'.rows = r.rows.map fun b => if b.id = id then b.named target folded else b := by
  unfold Registry.setName Registry.setFolded at h
  split at h
  · cases h
  · obtain rfl := Option.some.inj h
    simp only [Registry.update, List.map_map]
    refine List.map_congr_left fun b _ => ?_
    by_cases hid : b.id = id <;> simp [hid, BufferRow.named]

theorem named_id (b : BufferRow) (id : Nat) (target folded : Str) :
    (if b.id = id then b.named target folded else b).id = b.id := by
  split <;> rfl

/-- A new name changes nothing else of a merge. -/
theorem Merged.setName {st st' st'' : Store} {s a : BufferRow} {target folded : Str}
    (hname : st'.setName s.id target folded = some st'') :
    Merged st st'' s a ↔ Merged st st' s a := by
  obtain ⟨buffers, hbuffers, rfl⟩ := Option.map_eq_some_iff.mp hname
  have hrows := Registry.setName_rows hbuffers
  have hother (r : BufferRow) (hr : r.id ≠ s.id) : r ∈ buffers.rows ↔ r ∈ st'.buffers.rows := by
    rw [hrows, List.mem_map]
    constructor
    · rintro ⟨b, hb, rfl⟩
      rw [named_id] at hr
      rwa [if_neg hr]
    · exact fun hb => ⟨r, hb, if_neg hr⟩
  have hsurvivor (p : BufferRow → Prop) (hp : ∀ b, p (b.named target folded) ↔ p b) :
      (∃ r ∈ buffers.rows, r.id = s.id ∧ p r) ↔ ∃ r ∈ st'.buffers.rows, r.id = s.id ∧ p r := by
    rw [hrows]
    constructor
    · rintro ⟨r, hr, hid, hpr⟩
      obtain ⟨b, hb, rfl⟩ := List.mem_map.mp hr
      rw [named_id] at hid
      rw [if_pos hid, hp] at hpr
      exact ⟨b, hb, hid, hpr⟩
    · rintro ⟨b, hb, hid, hpb⟩
      exact ⟨_, List.mem_map_of_mem hb, (named_id b _ _ _).trans hid,
        by rw [if_pos hid]; exact (hp b).mpr hpb⟩
  have hgone : (∀ r ∈ buffers.rows, r.id ≠ a.id) ↔ ∀ r ∈ st'.buffers.rows, r.id ≠ a.id := by
    rw [hrows]
    simp only [List.mem_map, forall_exists_index, and_imp, forall_apply_eq_imp_iff₂, named_id]
  constructor
  · intro h
    exact
      { h with
        survives := (hsurvivor _ fun _ => Iff.rfl).mp h.survives
        gone := hgone.mp h.gone
        others := fun r hs ha => (hother r hs).symm.trans (h.others r hs ha) }
  · intro h
    exact
      { h with
        survives := (hsurvivor _ fun _ => Iff.rfl).mpr h.survives
        gone := hgone.mpr h.gone
        others := fun r hs ha => (hother r hs).trans (h.others r hs ha) }

variable (lower : Str → Str)

end Renaming

/-- Two channels with lines, marks, pins, drafts and followed threads in either, a favorite and a
nicklist setting in the first only and a notify setting in the second only, of which the second may
have a retention override. -/
def twoChannels (override : Option Nat) : Store where
  casemapping := none
  buffers :=
    { rows := [⟨1, ['#', 'a'], ['#', 'a'], .channel, true, none, true, none⟩,
        ⟨2, ['#', 'b'], ['#', 'b'], .channel, true, none, true, none⟩]
      ids := by decide
      folds := by decide }
  messages := [⟨1, 1⟩, ⟨2, 2⟩, ⟨3, 1⟩, ⟨4, 2⟩]
  inputHistory := [⟨1, 2⟩]
  reads := [⟨1, [], ⟨1, some 1, none⟩⟩, ⟨2, [], ⟨4, none, none⟩⟩]
  pins := [⟨2, [], 0⟩, ⟨1, [], 1⟩]
  favorites := [⟨1, [], 0⟩]
  nicklist := [⟨1, [], true⟩]
  notify := [⟨2, [], ['a', 'l', 'l']⟩]
  drafts := [⟨1, [], ['h', 'i']⟩, ⟨2, [], ['h', 'o']⟩]
  follows := [⟨1, ['m'], 7⟩, ⟨2, ['m'], 8⟩, ⟨2, ['n'], 9⟩]
  retention := (override.map fun maxLines => ⟨2, [], maxLines⟩).toList
  readsKey := ⟨by decide, by decide⟩
  pinsKey := ⟨by decide, by decide⟩
  favoritesKey := ⟨by decide, by decide⟩
  nicklistKey := ⟨by decide, by decide⟩
  notifyKey := ⟨by decide, by decide⟩
  draftsKey := ⟨by decide, by decide⟩
  retentionKey := by
    cases override with
    | none => exact ⟨List.nodup_nil, fun _ h => absurd h List.not_mem_nil⟩
    | some maxLines => exact ⟨List.nodup_singleton 2, fun r hr => List.mem_singleton.mp hr ▸ rfl⟩
  followsKey := by unfold RootKey; decide

end Lurker.Db
