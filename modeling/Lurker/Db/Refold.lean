import Lurker.Db.Absorb
import Lurker.Lib.OrderedMap
import Mathlib.Data.List.Induction
import Mathlib.Data.List.Pairwise

/-!
# Re-folding a network's registry

When a network declares a case mapping, its rows are grouped by their folds under
it, every group is merged into one survivor, and the survivors' folds are
rewritten one by one under the registry's unique index. The rows come in no
particular order.
-/

namespace Lurker.Db

open Lurker.Irc

theorem Registry.setFolded_folds {r : Registry} {id : Nat} {folded : Str}
    (h : ¬ ∃ b ∈ r.rows, b.id ≠ id ∧ b.folded = folded) :
    ((r.rows.map fun b => if b.id = id then { b with folded } else b).map
      BufferRow.folded).Nodup := by
  rw [List.map_map]
  refine List.Nodup.map_on ?_ (List.Nodup.of_map _ r.ids)
  intro b hb b' hb' heq
  simp only [Function.comp] at heq
  split at heq <;> split at heq
  · rename_i hid hid'
    exact r.eq_of_id hb hb' (hid.trans hid'.symm)
  · rename_i hid'
    exact absurd ⟨b', hb', hid', heq.symm⟩ h
  · rename_i hid _
    exact absurd ⟨b, hb, hid, heq⟩ h
  · exact r.eq_of_folded hb hb' heq

/-- `UPDATE buffers SET target_folded = folded WHERE id = id`, none when another row has it. -/
def Registry.setFolded (r : Registry) (id : Nat) (folded : Str) : Option Registry :=
  if h : ∃ b ∈ r.rows, b.id ≠ id ∧ b.folded = folded then none
  else some
    { rows := r.rows.map fun b => if b.id = id then { b with folded } else b
      ids := by
        have hids : (r.rows.map fun b => if b.id = id then { b with folded } else b).map
            BufferRow.id = r.rows.map BufferRow.id := by
          rw [List.map_map]
          refine List.map_congr_left fun b _ => ?_
          simp only [Function.comp]
          split <;> rfl
        rw [hids]
        exact r.ids
      folds := r.setFolded_folds h }

/-- Sentinel rows keep their folds. -/
def refolds (b : BufferRow) : Bool :=
  decide (b.kind = .channel ∨ b.kind = .dm ∨ b.kind = .dcc)

structure RefoldMerge where
  survivorId : Nat
  survivorTarget : Str
  absorbedId : Nat
  absorbedTarget : Str
  draftChanged : Bool
  survivorOpen : Bool
  deriving DecidableEq, Repr

/-- `SELECT MAX(id) FROM messages WHERE buffer_id = ?`, 0 when there is none. -/
def lastMessage (db : Database) (id : Nat) : Nat :=
  ((db.messages.filter fun l => l.buffer = id).map Line.id).foldl max 0

structure Ranked where
  row : BufferRow
  isOpen : Bool
  last : Nat

def rank (db : Database) (row : BufferRow) : Ranked := ⟨row, row.isOpen, lastMessage db row.id⟩

/-- An open row beats a closed one, then the most recent message, then the older row. -/
def Ranked.before (a b : Ranked) : Bool :=
  if a.isOpen ≠ b.isOpen then a.isOpen
  else if a.last ≠ b.last then decide (b.last < a.last)
  else decide (a.row.id ≤ b.row.id)

def rankedOf (db : Database) (group : List BufferRow) : List Ranked :=
  if 1 < group.length then (group.map (rank db)).mergeSort Ranked.before
  else group.map (rank db)

/-- Absorb one row of a group into its survivor. -/
def absorbRanked (st : Database × BufferRow × List RefoldMerge) (absorbed : Ranked) :
    Database × BufferRow × List RefoldMerge :=
  let (db, survivor, merges) := st
  let (db, draftChanged) := db.absorbBufferRow survivor absorbed.row
  let survivor := if absorbed.row.isOpen then { survivor with isOpen := true } else survivor
  (db, survivor, merges ++
    [{ survivorId := survivor.id
       survivorTarget := survivor.target
       absorbedId := absorbed.row.id
       absorbedTarget := absorbed.row.target
       draftChanged
       survivorOpen := survivor.isOpen }])

structure Refolding where
  db : Database
  /-- Surviving rows and their folds under the new rule. -/
  finalFolds : List (BufferRow × Str)
  merges : List RefoldMerge

def refoldGroup (r : Refolding) (e : Str × List BufferRow) : Refolding :=
  match rankedOf r.db e.2 with
  | [] => r
  | first :: rest =>
    let (db, survivor, merges) := rest.foldl absorbRanked (r.db, first.row, r.merges)
    { db, finalFolds := r.finalFolds ++ [(survivor, e.1)], merges }

/-- Rewrite one drifted fold. -/
def rewriteFold (db : Database) (f : BufferRow × Str) : Option Database :=
  if f.1.folded ≠ f.2 then
    (db.buffers.setFolded f.1.id f.2).map fun buffers => { db with buffers }
  else some db

-- `toLowerCase` of the platform
variable (lower : Str → Str)

/-- The rows by their folds under a mapping, in the order the folds are first seen. -/
def groupRows (mapping : Casemapping) (rows : List BufferRow) : OrderedMap Str (List BufferRow) :=
  rows.foldl
    (fun groups row =>
      let folded := foldTargetWith lower (some mapping) row.target
      groups.set folded (((groups.get? folded).getD []) ++ [row]))
    .empty

/-- Re-fold under a mapping, given the rows in the order the database returns them. None
when an update violates the unique index, and then nothing is committed. -/
def refoldNetworkBuffers (mapping : Casemapping) (rows : List BufferRow) (db : Database) :
    Option (Database × List RefoldMerge) :=
  let r := (groupRows lower mapping rows).entries.foldl refoldGroup
    ⟨{ db with casemapping := some mapping }, [], []⟩
  (r.finalFolds.foldlM rewriteFold r.db).map fun db => (db, r.merges)

/-- A database re-folded under a mapping, and where each of its old rows ended. -/
structure Refolded (mapping : Casemapping) (db db' : Database) (survivor : Nat → Nat) : Prop where
  casemapping : db'.casemapping = some mapping
  folded : ∀ b' ∈ db'.buffers.rows, refolds b' = true →
    b'.folded = foldTargetWith lower (some mapping) b'.target
  distinct : (db'.buffers.rows.map BufferRow.folded).Nodup
  kept : ∀ b' ∈ db'.buffers.rows, ∃ b ∈ db.buffers.rows,
    b.id = b'.id ∧ b.target = b'.target ∧ b.kind = b'.kind ∧ survivor b.id = b.id
  same : ∀ a ∈ db.buffers.rows, ∀ b ∈ db.buffers.rows, refolds a = true → refolds b = true →
    (survivor a.id = survivor b.id ↔
      foldTargetWith lower (some mapping) a.target = foldTargetWith lower (some mapping) b.target)
  survives : ∀ a ∈ db.buffers.rows, ∃ b' ∈ db'.buffers.rows,
    b'.id = survivor a.id ∧ (a.isOpen = true → b'.isOpen = true)
  others : ∀ id, (∀ b ∈ db.buffers.rows, refolds b = true → b.id ≠ id) → survivor id = id
  messages : db'.messages = db.messages.map fun l => { l with buffer := survivor l.buffer }
  inputHistory :
    db'.inputHistory = db.inputHistory.map fun l => { l with buffer := survivor l.buffer }

/-- In whatever order the rows come, the re-fold commits and keeps its promise. -/
def RefoldsSafely (mapping : Casemapping) (db : Database) : Prop :=
  ∀ rows, rows.Perm (db.buffers.rows.filter refolds) →
    ∃ db' merges, refoldNetworkBuffers lower mapping rows db = some (db', merges) ∧
      ∃ survivor, Refolded lower mapping db db' survivor

/-- The row of its group that survives: every other one is ranked after it. -/
def Survives (mapping : Casemapping) (db : Database) (a : BufferRow) : Prop :=
  a ∈ db.buffers.rows ∧ refolds a = true ∧
    ∀ b ∈ db.buffers.rows, refolds b = true →
      foldTargetWith lower (some mapping) b.target = foldTargetWith lower (some mapping) a.target →
      (rank db a).before (rank db b) = true

/-- A survivor's new fold is what another row that stays is stored under. -/
def Clash (mapping : Casemapping) (db : Database) : Prop :=
  ∃ a, Survives lower mapping db a ∧ ∃ b ∈ db.buffers.rows,
    (Survives lower mapping db b ∨ refolds b = false) ∧ a ≠ b ∧
      foldTargetWith lower (some mapping) a.target = b.folded

section Ranking

/-- A rank written as one comparison of three. -/
theorem Ranked.before_iff (a b : Ranked) : a.before b = true ↔
    (a.isOpen = true ∧ b.isOpen = false) ∨ (a.isOpen = b.isOpen ∧
      (b.last < a.last ∨ (a.last = b.last ∧ a.row.id ≤ b.row.id))) := by
  unfold Ranked.before
  by_cases hopen : a.isOpen = b.isOpen
  · rw [if_neg (not_not.mpr hopen)]
    by_cases hlast : a.last = b.last
    · rw [if_neg (not_not.mpr hlast)]
      simp [hopen, hlast]
    · rw [if_pos hlast]
      simp [hopen, hlast]
  · rw [if_pos hopen]
    cases ha : a.isOpen <;> cases hb : b.isOpen <;> simp_all

theorem Ranked.before_total (a b : Ranked) : a.before b = true ∨ b.before a = true := by
  rw [Ranked.before_iff, Ranked.before_iff]
  cases a.isOpen <;> cases b.isOpen <;> simp <;> omega

theorem Ranked.before_trans {a b c : Ranked} (h : a.before b = true) (h' : b.before c = true) :
    a.before c = true := by
  rw [Ranked.before_iff] at h h' ⊢
  cases ha : a.isOpen <;> cases hb : b.isOpen <;> cases hc : c.isOpen <;>
    simp only [ha, hb, hc, true_and, false_and, false_or, or_false, reduceCtorEq, and_false]
      at h h' ⊢
  · omega
  · omega

theorem Ranked.before_antisymm {a b : Ranked} (h : a.before b = true) (h' : b.before a = true) :
    a.row.id = b.row.id := by
  rw [Ranked.before_iff] at h h'
  cases ha : a.isOpen <;> cases hb : b.isOpen <;>
    simp only [ha, hb, true_and, false_and, false_or, or_false, reduceCtorEq, and_false] at h h'
  · omega
  · omega

theorem rankedOf_perm (db : Database) (group : List BufferRow) :
    (rankedOf db group).Perm (group.map (rank db)) := by
  unfold rankedOf
  split
  · exact List.mergeSort_perm _ _
  · exact List.Perm.refl _

/-- The first row of a ranked group comes before every one of them. -/
theorem rankedOf_first {db : Database} {group : List BufferRow} {first : Ranked}
    {rest : List Ranked} (h : rankedOf db group = first :: rest) :
    ∀ b ∈ group, first.before (rank db b) = true := by
  have hrefl : first.before first = true := (Ranked.before_total first first).elim id id
  intro b hb
  have hmem : rank db b ∈ first :: rest :=
    h ▸ (rankedOf_perm db group).mem_iff.mpr (List.mem_map_of_mem hb)
  rcases List.mem_cons.mp hmem with heq | hmem
  · exact heq ▸ hrefl
  · unfold rankedOf at h
    split at h
    · have hsorted : (first :: rest).Pairwise fun a b => a.before b = true := by
        rw [← h]
        have htrans (a b c : Ranked) (hab : a.before b = true) (hbc : b.before c = true) :
            a.before c = true := Ranked.before_trans hab hbc
        refine List.pairwise_mergeSort htrans (fun a b => ?_) _
        rw [Bool.or_eq_true]
        exact Ranked.before_total a b
      exact (List.pairwise_cons.mp hsorted).1 _ hmem
    · rename_i hlen
      have hlength : (first :: rest).length = group.length := by rw [← h, List.length_map]
      have hrest : rest = [] := List.eq_nil_of_length_eq_zero (by
        rw [List.length_cons] at hlength
        omega)
      rw [hrest] at hmem
      cases hmem

end Ranking

section Grouping

variable {lower} {mapping : Casemapping} {rows : List BufferRow}

/-- The group at a fold: the rows that fold to it, in their order. -/
theorem get?_groupRows (rows : List BufferRow) (k : Str) :
    (groupRows lower mapping rows).get? k =
      if (rows.filter fun b => foldTargetWith lower (some mapping) b.target = k) = [] then none
      else some (rows.filter fun b => foldTargetWith lower (some mapping) b.target = k) := by
  induction rows using List.reverseRecOn with
  | nil => rfl
  | append_singleton rows row ih =>
    unfold groupRows at ih ⊢
    rw [List.foldl_append, List.foldl_cons, List.foldl_nil, OrderedMap.get?_set, List.filter_append]
    by_cases hk : k = foldTargetWith lower (some mapping) row.target
    · subst hk
      rw [if_pos rfl, ih]
      split <;> simp_all
    · rw [if_neg hk, ih]
      have hrow : ([row].filter fun b => foldTargetWith lower (some mapping) b.target = k) = [] := by
        have hk' : foldTargetWith lower (some mapping) row.target ≠ k := fun h => hk h.symm
        simp [hk']
      rw [hrow, List.append_nil]

theorem mem_groupRows {e : Str × List BufferRow}
    (h : e ∈ (groupRows lower mapping rows).entries) :
    e.2 = (rows.filter fun b => foldTargetWith lower (some mapping) b.target = e.1) ∧ e.2 ≠ [] := by
  have hget := OrderedMap.get?_eq_some.mpr h
  rw [get?_groupRows] at hget
  split at hget
  · cases hget
  · rename_i hne
    have heq := Option.some.inj hget
    exact ⟨heq.symm, heq ▸ hne⟩

theorem groupRows_mem {b : BufferRow} (hb : b ∈ rows) :
    (foldTargetWith lower (some mapping) b.target,
      rows.filter fun c => foldTargetWith lower (some mapping) c.target =
        foldTargetWith lower (some mapping) b.target) ∈ (groupRows lower mapping rows).entries := by
  apply OrderedMap.get?_eq_some.mp
  rw [get?_groupRows, if_neg]
  intro hnil
  have hmem : b ∈ rows.filter fun c => foldTargetWith lower (some mapping) c.target =
      foldTargetWith lower (some mapping) b.target :=
    List.mem_filter.mpr ⟨hb, by simp⟩
  rw [hnil] at hmem
  cases hmem

/-- The group of the first row comes first. -/
theorem groupRows_head (b : BufferRow) (rows : List BufferRow) :
    (groupRows lower mapping (b :: rows)).keys.head? =
      some (foldTargetWith lower (some mapping) b.target) := by
  induction rows using List.reverseRecOn with
  | nil => rfl
  | append_singleton rows row ih =>
    unfold groupRows at ih ⊢
    rw [← List.cons_append, List.foldl_append, List.foldl_cons, List.foldl_nil,
      OrderedMap.keys_set]
    split
    · exact ih
    · rw [List.head?_append, ih]
      rfl

end Grouping

section Merging

/-- A row as it was read still says whether the stored one is open. -/
def Matches (db : Database) (row : BufferRow) : Prop :=
  ∃ b ∈ db.buffers.rows, b.id = row.id ∧ b.isOpen = row.isOpen

theorem Matches.of_merged {db db' : Database} {f : Nat → Nat} {row : BufferRow}
    (h : Matches db row) (hmerged : MergedAlong f db db')
    (hself : ∀ id, f id = row.id ↔ id = row.id) : Matches db' row := by
  obtain ⟨b, hb, hid, hopen⟩ := h
  obtain ⟨b', hb', hid'⟩ := hmerged.sent b hb
  have hb'id : b'.id = row.id := hid'.trans ((hself b.id).mpr hid)
  refine ⟨b', hb', hb'id, ?_⟩
  rw [← hopen, Bool.eq_iff_iff, hmerged.isOpen b' hb']
  constructor
  · rintro ⟨c, hc, hcid, hcopen⟩
    have : c = b := db.buffers.eq_of_id hc hb (((hself c.id).mp (hcid.trans hb'id)).trans hid.symm)
    exact this ▸ hcopen
  · exact fun hb'open => ⟨b, hb, hid'.symm, hb'open⟩

/-- Where absorbing a list of rows sends the buffers. -/
def sendAll (survivor : Nat) (absorbed : List Nat) (id : Nat) : Nat :=
  if id ∈ absorbed then survivor else id

theorem sendAll_cons {survivor a : Nat} {absorbed : List Nat} :
    sendAll survivor absorbed ∘ sendTo survivor a = sendAll survivor (a :: absorbed) := by
  funext id
  simp only [Function.comp, sendTo, sendAll, List.mem_cons]
  by_cases h : id = a
  · simp [h]
  · simp [h]

/-- Absorbing the rest of a group merges every one of its rows into the first. -/
theorem absorbAll_merged {db : Database} {survivor : BufferRow} {rest : List Ranked}
    {merges : List RefoldMerge} (hsurvivor : Matches db survivor)
    (hrest : ∀ a ∈ rest, Matches db a.row) (hdistinct : (rest.map fun a => a.row.id).Nodup)
    (hne : ∀ a ∈ rest, survivor.id ≠ a.row.id) :
    MergedAlong (sendAll survivor.id (rest.map fun a => a.row.id)) db
        (rest.foldl absorbRanked (db, survivor, merges)).1 ∧
      (rest.foldl absorbRanked (db, survivor, merges)).2.1.id = survivor.id ∧
      (rest.foldl absorbRanked (db, survivor, merges)).2.1.folded = survivor.folded ∧
      (rest.foldl absorbRanked (db, survivor, merges)).2.1.target = survivor.target := by
  induction rest generalizing db survivor merges with
  | nil =>
    refine ⟨?_, rfl, rfl, rfl⟩
    have hid : sendAll survivor.id (([] : List Ranked).map fun a => a.row.id) = id := by
      funext i
      simp [sendAll]
    rw [hid]
    exact MergedAlong.refl db
  | cons a rest ih =>
    obtain ⟨hamatches, hrest⟩ := List.forall_mem_cons.mp hrest
    obtain ⟨hane, hne⟩ := List.forall_mem_cons.mp hne
    rw [List.map_cons, List.nodup_cons] at hdistinct
    obtain ⟨hafresh, hdistinct⟩ := hdistinct
    have hmerged := absorbBufferRow_merged hane hsurvivor hamatches
    have hself {row : BufferRow} (hrow : row.id ≠ a.row.id) (hrow' : row.id ≠ survivor.id) (i : Nat) :
        sendTo survivor.id a.row.id i = row.id ↔ i = row.id := by
      unfold sendTo
      split
      · rename_i hi
        exact iff_of_false (fun h => hrow' h.symm) (fun h => hrow (h.symm.trans hi))
      · rfl
    -- the survivor as it is kept in memory stays honest with the stored row
    have hsurvivor' : Matches (db.absorbBufferRow survivor a.row).1
        (if a.row.isOpen then { survivor with isOpen := true } else survivor) := by
      obtain ⟨b, hb, hid, hopen⟩ := hsurvivor
      obtain ⟨c, hc, hcid, hcopen⟩ := hamatches
      obtain ⟨b', hb', hid'⟩ := hmerged.sent b hb
      have hb'id : b'.id = survivor.id := by
        rw [hid', sendTo, if_neg (hid ▸ hane), hid]
      have hb'open := hmerged.isOpen b' hb'
      by_cases haopen : a.row.isOpen = true
      · rw [if_pos haopen]
        refine ⟨b', hb', hb'id, hb'open.mpr ⟨c, hc, ?_, hcopen.trans haopen⟩⟩
        rw [sendTo, if_pos hcid, hb'id]
      · rw [if_neg haopen]
        refine ⟨b', hb', hb'id, ?_⟩
        rw [← hopen, Bool.eq_iff_iff, hb'open]
        constructor
        · rintro ⟨d, hd, hdid, hdopen⟩
          unfold sendTo at hdid
          split at hdid
          · rename_i hda
            have : d = c := db.buffers.eq_of_id hd hc (hda.trans hcid.symm)
            rw [this, hcopen] at hdopen
            exact absurd hdopen haopen
          · have : d = b := db.buffers.eq_of_id hd hb (hdid.trans (hb'id.trans hid.symm))
            exact this ▸ hdopen
        · exact fun hbopen => ⟨b, hb, hid'.symm, hbopen⟩
    have hsurvivorId :
        (if a.row.isOpen then { survivor with isOpen := true } else survivor).id = survivor.id := by
      split <;> rfl
    have hsurvivorFolded :
        (if a.row.isOpen then { survivor with isOpen := true } else survivor).folded =
          survivor.folded := by
      split <;> rfl
    have hsurvivorTarget :
        (if a.row.isOpen then { survivor with isOpen := true } else survivor).target =
          survivor.target := by
      split <;> rfl
    have hrest' (b : Ranked) (hb : b ∈ rest) :
        Matches (db.absorbBufferRow survivor a.row).1 b.row := by
      refine (hrest b hb).of_merged hmerged (hself ?_ (hne b hb).symm)
      exact fun h => hafresh (h ▸ List.mem_map_of_mem hb)
    rw [List.foldl_cons]
    obtain ⟨h₁, h₂, h₃, h₄⟩ := @ih _ _ (absorbRanked (db, survivor, merges) a).2.2 hsurvivor' hrest'
      hdistinct (by rw [hsurvivorId]; exact hne)
    rw [hsurvivorId] at h₁ h₂
    rw [hsurvivorFolded] at h₃
    rw [hsurvivorTarget] at h₄
    refine ⟨?_, h₂, h₃, h₄⟩
    rw [List.map_cons, ← sendAll_cons]
    exact hmerged.trans h₁

/-- Where merging some groups sends a buffer: to the first of its group as ranked. -/
def survivorOf (db : Database) (groups : List (Str × List BufferRow)) (id : Nat) : Nat :=
  match groups.find? fun e => e.2.any fun b => b.id = id with
  | none => id
  | some e => ((rankedOf db e.2).head?.map fun first => first.row.id).getD id

def Apart (e e' : Str × List BufferRow) : Prop := ∀ b ∈ e.2, ∀ b' ∈ e'.2, b.id ≠ b'.id

instance : Std.Symm Apart := ⟨fun _ _ h b hb b' hb' heq => h b' hb' b hb heq.symm⟩

/-- Groups of stored rows, none empty, no row in two of them. -/
structure Grouped (db : Database) (groups : List (Str × List BufferRow)) : Prop where
  stored : ∀ e ∈ groups, ∀ b ∈ e.2, b ∈ db.buffers.rows
  nonempty : ∀ e ∈ groups, e.2 ≠ []
  distinct : ∀ e ∈ groups, (e.2.map BufferRow.id).Nodup
  apart : groups.Pairwise Apart

variable {db : Database} {groups : List (Str × List BufferRow)}

theorem rankedOf_mem {group : List BufferRow} {first : Ranked} {rest : List Ranked}
    (h : rankedOf db group = first :: rest) :
    (∀ a ∈ first :: rest, a.row ∈ group ∧ a = rank db a.row) ∧
      ∀ b ∈ group, rank db b ∈ first :: rest := by
  have hperm := rankedOf_perm db group
  rw [h] at hperm
  constructor
  · intro a ha
    obtain ⟨b, hb, rfl⟩ := List.mem_map.mp (hperm.mem_iff.mp ha)
    exact ⟨hb, rfl⟩
  · exact fun b hb => hperm.mem_iff.mpr (List.mem_map_of_mem hb)

theorem exists_ranked {group : List BufferRow} (h : group ≠ []) :
    ∃ first rest, rankedOf db group = first :: rest := by
  cases hranked : rankedOf db group with
  | nil =>
    have hlen := (rankedOf_perm db group).length_eq
    rw [hranked, List.length_map] at hlen
    exact absurd (List.eq_nil_of_length_eq_zero hlen.symm) h
  | cons first rest => exact ⟨first, rest, rfl⟩

theorem survivorOf_outside {id : Nat} (h : ∀ e ∈ groups, ∀ b ∈ e.2, b.id ≠ id) :
    survivorOf db groups id = id := by
  unfold survivorOf
  rw [List.find?_eq_none.mpr]
  intro e he hany
  obtain ⟨b, hb, hid⟩ := List.any_eq_true.mp hany
  exact h e he b hb (by simpa using hid)

theorem survivorOf_inside (hgrouped : Grouped db groups) {e : Str × List BufferRow}
    (he : e ∈ groups) {b : BufferRow} (hb : b ∈ e.2) {first : Ranked} {rest : List Ranked}
    (hranked : rankedOf db e.2 = first :: rest) : survivorOf db groups b.id = first.row.id := by
  have hfind : groups.find? (fun e => e.2.any fun c => c.id = b.id) = some e := by
    cases hf : groups.find? (fun e => e.2.any fun c => c.id = b.id) with
    | none =>
      have := List.find?_eq_none.mp hf e he
      exact absurd (List.any_eq_true.mpr ⟨b, hb, by simp⟩) this
    | some e' =>
      have hany := List.find?_some hf
      have he' := List.mem_of_find?_eq_some hf
      obtain ⟨c, hc, hid⟩ := List.any_eq_true.mp hany
      have hid : c.id = b.id := by simpa using hid
      by_contra hne
      have hne' : e ≠ e' := fun h => hne (congrArg some h.symm)
      exact hgrouped.apart.forall he he' hne' b hb c hc hid.symm
  unfold survivorOf
  rw [hfind]
  dsimp only
  rw [hranked]
  rfl

/-- A row of no group yet is sent to by itself alone. -/
theorem survivorOf_eq_iff (hgrouped : Grouped db groups) {id : Nat}
    (h : ∀ e ∈ groups, ∀ b ∈ e.2, b.id ≠ id) (i : Nat) : survivorOf db groups i = id ↔ i = id := by
  by_cases hin : ∃ e ∈ groups, ∃ b ∈ e.2, b.id = i
  · obtain ⟨e, he, b, hb, rfl⟩ := hin
    obtain ⟨first, rest, hranked⟩ := @exists_ranked db _ (hgrouped.nonempty e he)
    rw [survivorOf_inside hgrouped he hb hranked]
    have hfirst := ((rankedOf_mem hranked).1 first List.mem_cons_self).1
    exact iff_of_false (h e he _ hfirst) (h e he b hb)
  · rw [survivorOf_outside fun e he b hb hid => hin ⟨e, he, b, hb, hid⟩]

theorem lastMessage_merged {db' : Database} {f : Nat → Nat} (hmerged : MergedAlong f db db') {id : Nat}
    (hself : ∀ i, f i = id ↔ i = id) : lastMessage db' id = lastMessage db id := by
  unfold lastMessage
  rw [hmerged.messages, List.filter_map, List.map_map]
  have hfilter : (db.messages.filter ((fun l : Line => decide (l.buffer = id)) ∘
      fun l => { l with buffer := f l.buffer })) = db.messages.filter fun l => l.buffer = id :=
    List.filter_congr fun l _ => by simp [hself]
  rw [hfilter]
  rfl

theorem rankedOf_merged {db' : Database} {f : Nat → Nat} (hmerged : MergedAlong f db db')
    {group : List BufferRow} (hself : ∀ b ∈ group, ∀ i, f i = b.id ↔ i = b.id) :
    rankedOf db' group = rankedOf db group := by
  have hmap : group.map (rank db') = group.map (rank db) := by
    refine List.map_congr_left fun b hb => ?_
    unfold rank
    rw [lastMessage_merged hmerged (hself b hb)]
  unfold rankedOf
  rw [hmap]

/-- What a final fold says of the group it comes from. -/
def FinalOf (db : Database) (f : BufferRow × Str) (e : Str × List BufferRow) : Prop :=
  ∃ first rest, rankedOf db e.2 = first :: rest ∧ f.1.id = first.row.id ∧
    f.1.folded = first.row.folded ∧ f.2 = e.1

theorem refoldGroup_eq {r : Refolding} {e : Str × List BufferRow} {first : Ranked}
    {rest : List Ranked} (h : rankedOf r.db e.2 = first :: rest) :
    refoldGroup r e =
      ⟨(rest.foldl absorbRanked (r.db, first.row, r.merges)).1,
        r.finalFolds ++ [((rest.foldl absorbRanked (r.db, first.row, r.merges)).2.1, e.1)],
        (rest.foldl absorbRanked (r.db, first.row, r.merges)).2.2⟩ := by
  unfold refoldGroup
  rw [h]

/-- Every group is merged into its first row as ranked, and gives its final fold. -/
theorem refoldGroups_merged (hgrouped : Grouped db groups) :
    MergedAlong (survivorOf db groups) db (groups.foldl refoldGroup ⟨db, [], []⟩).db ∧
      List.Forall₂ (FinalOf db) (groups.foldl refoldGroup ⟨db, [], []⟩).finalFolds groups := by
  induction groups using List.reverseRecOn with
  | nil =>
    refine ⟨?_, List.Forall₂.nil⟩
    have hid : survivorOf db [] = id := rfl
    rw [hid]
    exact MergedAlong.refl db
  | append_singleton groups e ih =>
    have hapart := List.pairwise_append.mp hgrouped.apart
    have hgrouped' : Grouped db groups :=
      ⟨fun e he => hgrouped.stored e (List.mem_append_left _ he),
        fun e he => hgrouped.nonempty e (List.mem_append_left _ he),
        fun e he => hgrouped.distinct e (List.mem_append_left _ he), hapart.1⟩
    have hlast : e ∈ groups ++ [e] := List.mem_append_right _ (List.mem_singleton_self e)
    have houtside (b : BufferRow) (hb : b ∈ e.2) : ∀ e' ∈ groups, ∀ b' ∈ e'.2, b'.id ≠ b.id :=
      fun e' he' b' hb' => hapart.2.2 e' he' e (List.mem_singleton_self e) b' hb' b hb
    obtain ⟨hmerged, hfinals⟩ := ih hgrouped'
    have hself (b : BufferRow) (hb : b ∈ e.2) (i : Nat) :
        survivorOf db groups i = b.id ↔ i = b.id :=
      survivorOf_eq_iff hgrouped' (houtside b hb) i
    obtain ⟨first, rest, hranked⟩ := @exists_ranked db _ (hgrouped.nonempty e hlast)
    obtain ⟨hrows, hranks⟩ := rankedOf_mem hranked
    have hranked' := rankedOf_merged hmerged hself
    have hmatches (a : Ranked) (ha : a ∈ first :: rest) :
        Matches (groups.foldl refoldGroup ⟨db, [], []⟩).db a.row := by
      obtain ⟨harow, -⟩ := hrows a ha
      exact Matches.of_merged ⟨a.row, hgrouped.stored e hlast _ harow, rfl, rfl⟩ hmerged
        (hself a.row harow)
    have hids : ((first :: rest).map fun a => a.row.id).Nodup := by
      have hperm : ((first :: rest).map fun a => a.row.id).Perm (e.2.map BufferRow.id) := by
        have := (rankedOf_perm db e.2).map fun a => a.row.id
        rw [hranked, List.map_map] at this
        exact this
      exact hperm.nodup_iff.mpr (hgrouped.distinct e hlast)
    rw [List.map_cons, List.nodup_cons] at hids
    obtain ⟨hfirst, hrest⟩ := hids
    obtain ⟨h₁, h₂, h₃, -⟩ := @absorbAll_merged _ first.row rest
      (groups.foldl refoldGroup ⟨db, [], []⟩).merges (hmatches first List.mem_cons_self)
      (fun a ha => hmatches a (List.mem_cons_of_mem _ ha)) hrest
      (fun a ha heq => hfirst (heq ▸ List.mem_map_of_mem ha))
    have hsend : sendAll first.row.id (rest.map fun a => a.row.id) ∘ survivorOf db groups =
        survivorOf db (groups ++ [e]) := by
      funext i
      simp only [Function.comp]
      by_cases hin : ∃ b ∈ e.2, b.id = i
      · obtain ⟨b, hb, rfl⟩ := hin
        rw [(hself b hb b.id).mpr rfl, survivorOf_inside hgrouped hlast hb hranked]
        unfold sendAll
        split
        · rfl
        · rename_i hout
          rcases List.mem_cons.mp (hranks b hb) with heq | hmem
          · exact congrArg (fun a => a.row.id) heq
          · exact absurd (List.mem_map_of_mem hmem) hout
      · have hstays : sendAll first.row.id (rest.map fun a => a.row.id) (survivorOf db groups i) =
            survivorOf db groups i := by
          refine if_neg fun hmem => ?_
          obtain ⟨a, ha, heq⟩ := List.mem_map.mp hmem
          obtain ⟨harow, -⟩ := hrows a (List.mem_cons_of_mem _ ha)
          exact hin ⟨a.row, harow, ((hself a.row harow i).mp heq.symm).symm⟩
        rw [hstays]
        by_cases hold : ∃ e' ∈ groups, ∃ b ∈ e'.2, b.id = i
        · obtain ⟨e', he', b, hb, rfl⟩ := hold
          obtain ⟨first', rest', hranked'⟩ := @exists_ranked db _ (hgrouped'.nonempty e' he')
          rw [survivorOf_inside hgrouped' he' hb hranked',
            survivorOf_inside hgrouped (List.mem_append_left _ he') hb hranked']
        · rw [survivorOf_outside fun e' he' b hb hid => hold ⟨e', he', b, hb, hid⟩,
            survivorOf_outside]
          intro e' he' b hb hid
          rcases List.mem_append.mp he' with he' | he'
          · exact hold ⟨e', he', b, hb, hid⟩
          · exact hin ⟨b, List.mem_singleton.mp he' ▸ hb, hid⟩
    rw [List.foldl_append, List.foldl_cons, List.foldl_nil]
    rw [refoldGroup_eq (hranked'.trans hranked)]
    constructor
    · exact hsend ▸ hmerged.trans h₁
    · exact List.rel_append hfinals (List.Forall₂.cons ⟨first, rest, hranked, h₂, h₃, rfl⟩ .nil)

end Merging

section Rewriting

/-- A row after one fold was rewritten. -/
def withFold (f : BufferRow × Str) (b : BufferRow) : BufferRow :=
  if b.id = f.1.id then { b with folded := f.2 } else b

/-- What rewriting leaves alone of a row. -/
def shape (b : BufferRow) : Nat × Str × BufferKind × Bool := (b.id, b.target, b.kind, b.isOpen)

theorem shape_withFold (f : BufferRow × Str) (b : BufferRow) : shape (withFold f b) = shape b := by
  unfold withFold
  split <;> rfl

theorem id_withFold (f : BufferRow × Str) (b : BufferRow) : (withFold f b).id = b.id := by
  unfold withFold
  split <;> rfl

theorem folded_withFold (f : BufferRow × Str) (b : BufferRow) :
    (withFold f b).folded = if b.id = f.1.id then f.2 else b.folded := by
  unfold withFold
  split <;> rfl

/-- A fold that no other row holds is rewritten, and nothing else changes. -/
theorem rewriteFold_some {db : Database} {f : BufferRow × Str}
    (hfree : ∀ b ∈ db.buffers.rows, b.id ≠ f.1.id → b.folded ≠ f.2)
    (hread : ∀ b ∈ db.buffers.rows, b.id = f.1.id → b.folded = f.1.folded) :
    ∃ buffers : Registry, rewriteFold db f = some { db with buffers } ∧
      buffers.rows = db.buffers.rows.map (withFold f) := by
  unfold rewriteFold
  split
  · have hno : ¬ ∃ b ∈ db.buffers.rows, b.id ≠ f.1.id ∧ b.folded = f.2 := by
      rintro ⟨b, hb, hid, hfold⟩
      exact hfree b hb hid hfold
    unfold Registry.setFolded
    rw [dif_neg hno]
    exact ⟨_, rfl, rfl⟩
  · rename_i hsame
    have hsame : f.1.folded = f.2 := not_not.mp hsame
    have hid : db.buffers.rows.map (withFold f) = db.buffers.rows := by
      refine (List.map_congr_left fun b hb => ?_).trans (List.map_id _)
      unfold withFold
      split
      · rename_i hbid
        rw [← hsame, ← hread b hb hbid]
        rfl
      · rfl
    exact ⟨db.buffers, rfl, hid.symm⟩

theorem rewriteFold_none {db : Database} {f : BufferRow × Str} (hdrifted : f.1.folded ≠ f.2)
    (hheld : ∃ b ∈ db.buffers.rows, b.id ≠ f.1.id ∧ b.folded = f.2) : rewriteFold db f = none := by
  unfold rewriteFold Registry.setFolded
  rw [if_pos hdrifted, dif_pos hheld]
  rfl

theorem shape_eq {b c : BufferRow} (h : shape b = shape c) :
    b.id = c.id ∧ b.target = c.target ∧ b.kind = c.kind ∧ b.isOpen = c.isOpen := by
  simpa [shape] using h

/-- A database after its folds were rewritten. -/
structure Rewritten (finals : List (BufferRow × Str)) (db db' : Database) : Prop where
  casemapping : db'.casemapping = db.casemapping
  messages : db'.messages = db.messages
  inputHistory : db'.inputHistory = db.inputHistory
  rows : db'.buffers.rows.map shape = db.buffers.rows.map shape
  folds : ∀ f ∈ finals, ∀ b ∈ db'.buffers.rows, b.id = f.1.id → b.folded = f.2
  others : ∀ b' ∈ db'.buffers.rows, (∀ f ∈ finals, f.1.id ≠ b'.id) →
    ∃ b ∈ db.buffers.rows, b.id = b'.id ∧ b.folded = b'.folded

/-- When no final fold is held by another row, all of them are rewritten. -/
theorem rewriteFolds_commits {finals : List (BufferRow × Str)} {db : Database}
    (hids : (finals.map fun f => f.1.id).Nodup) (hnew : (finals.map Prod.snd).Nodup)
    (hfree : ∀ f ∈ finals, ∀ b ∈ db.buffers.rows, b.id ≠ f.1.id → b.folded ≠ f.2)
    (hread : ∀ f ∈ finals, ∀ b ∈ db.buffers.rows, b.id = f.1.id → b.folded = f.1.folded) :
    ∃ db', finals.foldlM rewriteFold db = some db' ∧ Rewritten finals db db' := by
  induction finals generalizing db with
  | nil =>
    refine ⟨db, rfl, rfl, rfl, rfl, rfl, ?_, fun b hb _ => ⟨b, hb, rfl, rfl⟩⟩
    intro f hf
    cases hf
  | cons f finals ih =>
    obtain ⟨hffree, hfree⟩ := List.forall_mem_cons.mp hfree
    obtain ⟨hfread, hread⟩ := List.forall_mem_cons.mp hread
    rw [List.map_cons, List.nodup_cons] at hids hnew
    obtain ⟨buffers, hrewrite, hrows⟩ := rewriteFold_some hffree hfread
    have hidne (g : BufferRow × Str) (hg : g ∈ finals) : g.1.id ≠ f.1.id :=
      fun h => hids.1 (h ▸ List.mem_map_of_mem hg)
    have hnewne (g : BufferRow × Str) (hg : g ∈ finals) : f.2 ≠ g.2 :=
      fun h => hnew.1 (h ▸ List.mem_map_of_mem hg)
    have hmem (b : BufferRow) (hb : b ∈ buffers.rows) :
        ∃ c ∈ db.buffers.rows, c.id = b.id ∧
          b.folded = if c.id = f.1.id then f.2 else c.folded := by
      rw [hrows] at hb
      obtain ⟨c, hc, rfl⟩ := List.mem_map.mp hb
      exact ⟨c, hc, (id_withFold f c).symm, folded_withFold f c⟩
    have hfree' : ∀ g ∈ finals, ∀ b ∈ buffers.rows, b.id ≠ g.1.id → b.folded ≠ g.2 := by
      intro g hg b hb hid
      obtain ⟨c, hc, hcid, hfolded⟩ := hmem b hb
      rw [hfolded]
      split
      · exact hnewne g hg
      · exact hfree g hg c hc (hcid ▸ hid)
    have hread' : ∀ g ∈ finals, ∀ b ∈ buffers.rows, b.id = g.1.id → b.folded = g.1.folded := by
      intro g hg b hb hid
      obtain ⟨c, hc, hcid, hfolded⟩ := hmem b hb
      rw [hfolded, if_neg (hcid ▸ hid ▸ hidne g hg)]
      exact hread g hg c hc (hcid.trans hid)
    obtain ⟨db', hcommit, h⟩ := @ih { db with buffers } hids.2 hnew.2 hfree' hread'
    refine ⟨db', ?_, h.casemapping, h.messages, h.inputHistory, ?_, ?_, ?_⟩
    · rw [List.foldlM_cons, hrewrite]
      exact hcommit
    · rw [h.rows, hrows, List.map_map]
      exact List.map_congr_left fun b _ => shape_withFold f b
    · refine List.forall_mem_cons.mpr ⟨fun b hb hid => ?_, h.folds⟩
      obtain ⟨c, hc, hcid, hcfolded⟩ := h.others b hb fun g hg heq => hidne g hg (heq.trans hid)
      obtain ⟨d, -, hdid, hdfolded⟩ := hmem c hc
      rw [← hcfolded, hdfolded, if_pos (hdid.trans (hcid.trans hid))]
    · intro b' hb' hnone
      obtain ⟨hfne, hnone⟩ := List.forall_mem_cons.mp hnone
      obtain ⟨c, hc, hcid, hcfolded⟩ := h.others b' hb' hnone
      obtain ⟨d, hd, hdid, hdfolded⟩ := hmem c hc
      refine ⟨d, hd, hdid.trans hcid, ?_⟩
      rw [← hcfolded, hdfolded, if_neg fun h => hfne (h.symm.trans (hdid.trans hcid))]

end Rewriting

section Pass

variable {lower} {mapping : Casemapping} {db : Database} {rows : List BufferRow}

theorem grouped_groupRows (hrows : rows.Perm (db.buffers.rows.filter refolds)) :
    Grouped db (groupRows lower mapping rows).entries where
  stored e he b hb := by
    rw [(mem_groupRows he).1] at hb
    exact List.mem_of_mem_filter (hrows.mem_iff.mp (List.mem_of_mem_filter hb))
  nonempty e he := (mem_groupRows he).2
  distinct e he := by
    have hids : (rows.map BufferRow.id).Nodup :=
      ((hrows.map BufferRow.id).nodup_iff).mpr ((List.filter_sublist.map _).nodup db.buffers.ids)
    rw [(mem_groupRows he).1]
    exact (List.filter_sublist.map _).nodup hids
  apart := by
    have hkeys : (groupRows lower mapping rows).entries.Pairwise fun e e' => e.1 ≠ e'.1 :=
      List.pairwise_map.mp (groupRows lower mapping rows).nodup
    refine hkeys.imp_of_mem fun {e e'} he he' hne b hb b' hb' hid => ?_
    rw [(mem_groupRows he).1, List.mem_filter] at hb
    rw [(mem_groupRows he').1, List.mem_filter] at hb'
    have hbmem := List.mem_of_mem_filter (hrows.mem_iff.mp hb.1)
    have hb'mem := List.mem_of_mem_filter (hrows.mem_iff.mp hb'.1)
    have hsame := db.buffers.eq_of_id hbmem hb'mem hid
    apply hne
    rw [← of_decide_eq_true hb.2, ← of_decide_eq_true hb'.2, hsame]

/-- A group holds the rows that fold to its key. -/
theorem mem_group (hrows : rows.Perm (db.buffers.rows.filter refolds))
    {e : Str × List BufferRow} (he : e ∈ (groupRows lower mapping rows).entries) {b : BufferRow} :
    b ∈ e.2 ↔ b ∈ db.buffers.rows ∧ refolds b = true ∧
      foldTargetWith lower (some mapping) b.target = e.1 := by
  rw [(mem_groupRows he).1, List.mem_filter, hrows.mem_iff, List.mem_filter, and_assoc,
    decide_eq_true_eq]

/-- The first of a group as ranked is the row that survives. -/
theorem survives_first (hrows : rows.Perm (db.buffers.rows.filter refolds))
    {e : Str × List BufferRow} (he : e ∈ (groupRows lower mapping rows).entries) {first : Ranked}
    {rest : List Ranked} (hranked : rankedOf db e.2 = first :: rest) :
    Survives lower mapping db first.row ∧
      foldTargetWith lower (some mapping) first.row.target = e.1 := by
  obtain ⟨hmem, hrank⟩ := (rankedOf_mem hranked).1 first List.mem_cons_self
  obtain ⟨hstored, hrefolds, hfold⟩ := (mem_group hrows he).mp hmem
  refine ⟨⟨hstored, hrefolds, fun b hb hbrefolds hbfold => ?_⟩, hfold⟩
  rw [← hrank]
  exact rankedOf_first hranked b ((mem_group hrows he).mpr ⟨hb, hbrefolds, hbfold.trans hfold⟩)

/-- Of a group, one row survives. -/
theorem Survives.unique {a b : BufferRow} (ha : Survives lower mapping db a)
    (hb : Survives lower mapping db b)
    (hfold : foldTargetWith lower (some mapping) a.target =
      foldTargetWith lower (some mapping) b.target) : a = b := by
  obtain ⟨hamem, harefolds, hafirst⟩ := ha
  obtain ⟨hbmem, hbrefolds, hbfirst⟩ := hb
  exact db.buffers.eq_of_id hamem hbmem
    (Ranked.before_antisymm (hafirst b hbmem hbrefolds hfold.symm) (hbfirst a hamem harefolds hfold))

/-- What `Forall₂` says of a left member. -/
theorem finalOf_mem {finals : List (BufferRow × Str)} {groups : List (Str × List BufferRow)}
    (h : List.Forall₂ (FinalOf db) finals groups) {f : BufferRow × Str} (hf : f ∈ finals) :
    ∃ e ∈ groups, FinalOf db f e := by
  induction h with
  | nil => cases hf
  | cons hfe _ ih =>
    rcases List.mem_cons.mp hf with rfl | hf
    · exact ⟨_, List.mem_cons_self, hfe⟩
    · obtain ⟨e, he, h⟩ := ih hf
      exact ⟨e, List.mem_cons_of_mem _ he, h⟩

theorem mem_finalOf {finals : List (BufferRow × Str)} {groups : List (Str × List BufferRow)}
    (h : List.Forall₂ (FinalOf db) finals groups) {e : Str × List BufferRow} (he : e ∈ groups) :
    ∃ f ∈ finals, FinalOf db f e := by
  induction h with
  | nil => cases he
  | cons hfe _ ih =>
    rcases List.mem_cons.mp he with rfl | he
    · exact ⟨_, List.mem_cons_self, hfe⟩
    · obtain ⟨f, hf, h⟩ := ih he
      exact ⟨f, List.mem_cons_of_mem _ hf, h⟩

theorem finals_new {finals : List (BufferRow × Str)} {groups : List (Str × List BufferRow)}
    (h : List.Forall₂ (FinalOf db) finals groups) : finals.map Prod.snd = groups.map Prod.fst := by
  induction h with
  | nil => rfl
  | cons hfe _ ih =>
    obtain ⟨-, -, -, -, -, hnew⟩ := hfe
    rw [List.map_cons, List.map_cons, hnew, ih]

theorem finals_ids {finals : List (BufferRow × Str)} {groups : List (Str × List BufferRow)}
    (h : List.Forall₂ (FinalOf db) finals groups) (hapart : groups.Pairwise Apart) :
    (finals.map fun f => f.1.id).Nodup := by
  induction h with
  | nil => exact List.nodup_nil
  | cons hfe hrest ih =>
    rw [List.pairwise_cons] at hapart
    rw [List.map_cons, List.nodup_cons]
    refine ⟨fun hmem => ?_, ih hapart.2⟩
    obtain ⟨f', hf', heq⟩ := List.mem_map.mp hmem
    obtain ⟨e', he', first', rest', hranked', hid', -⟩ := finalOf_mem hrest hf'
    obtain ⟨first, rest, hranked, hid, -⟩ := hfe
    have hfirst := ((rankedOf_mem hranked).1 first List.mem_cons_self).1
    have hfirst' := ((rankedOf_mem hranked').1 first' List.mem_cons_self).1
    exact hapart.1 e' he' _ hfirst _ hfirst' (hid.symm.trans (heq.symm.trans hid'))

variable (lower mapping db) in
/-- The database the pass starts from, with the mapping stored. -/
def storing : Database := { db with casemapping := some mapping }

/-- Two rows end in the same survivor exactly when they fold alike. -/
theorem survivorOf_same (hrows : rows.Perm (db.buffers.rows.filter refolds)) {a b : BufferRow}
    (ha : a ∈ rows) (hb : b ∈ rows) :
    survivorOf db (groupRows lower mapping rows).entries a.id =
        survivorOf db (groupRows lower mapping rows).entries b.id ↔
      foldTargetWith lower (some mapping) a.target = foldTargetWith lower (some mapping) b.target := by
  have hfirst {c : BufferRow} (hc : c ∈ rows) : ∃ first, Survives lower mapping db first ∧
      foldTargetWith lower (some mapping) first.target =
        foldTargetWith lower (some mapping) c.target ∧
      survivorOf db (groupRows lower mapping rows).entries c.id = first.id := by
    have he : (foldTargetWith lower (some mapping) c.target,
        rows.filter fun d => foldTargetWith lower (some mapping) d.target =
          foldTargetWith lower (some mapping) c.target) ∈ (groupRows lower mapping rows).entries :=
      groupRows_mem hc
    obtain ⟨first, rest, hranked⟩ := @exists_ranked db _ ((mem_groupRows he).2)
    obtain ⟨hsurvives, hfold⟩ := survives_first hrows he hranked
    have hmem := (mem_group hrows he).mpr
      ⟨List.mem_of_mem_filter (hrows.mem_iff.mp hc), (List.mem_filter.mp (hrows.mem_iff.mp hc)).2, rfl⟩
    exact ⟨first.row, hsurvives, hfold, survivorOf_inside (grouped_groupRows hrows) he hmem hranked⟩
  obtain ⟨first, hsurvives, hfold, hsent⟩ := hfirst ha
  obtain ⟨first', hsurvives', hfold', hsent'⟩ := hfirst hb
  rw [hsent, hsent']
  constructor
  · intro hid
    rw [← hfold, ← hfold', db.buffers.eq_of_id hsurvives.1 hsurvives'.1 hid]
  · intro hsame
    rw [hsurvives.unique hsurvives' (hfold.trans (hsame.trans hfold'.symm))]

/-- A row left by the merging survived its group or is a sentinel. -/
theorem kept_survives (hrows : rows.Perm (db.buffers.rows.filter refolds)) {b : BufferRow}
    (hb : b ∈ db.buffers.rows)
    (hself : survivorOf db (groupRows lower mapping rows).entries b.id = b.id) :
    Survives lower mapping db b ∨ refolds b = false := by
  by_cases hrefolds : refolds b = true
  · left
    have hbrows : b ∈ rows := hrows.mem_iff.mpr (List.mem_filter.mpr ⟨hb, hrefolds⟩)
    have he : (foldTargetWith lower (some mapping) b.target,
        rows.filter fun c => foldTargetWith lower (some mapping) c.target =
          foldTargetWith lower (some mapping) b.target) ∈ (groupRows lower mapping rows).entries :=
      groupRows_mem hbrows
    have hmem := (mem_group hrows he).mpr ⟨hb, hrefolds, rfl⟩
    obtain ⟨first, rest, hranked⟩ := @exists_ranked db _ ((mem_groupRows he).2)
    rw [survivorOf_inside (grouped_groupRows hrows) he hmem hranked] at hself
    obtain ⟨hfirst, -⟩ := survives_first hrows he hranked
    exact db.buffers.eq_of_id hfirst.1 hb hself ▸ hfirst
  · exact .inr (Bool.eq_false_iff.mpr hrefolds)

/-- Without a clash the pass commits, whatever the order of the rows. -/
theorem commits (hclash : ¬ Clash lower mapping db)
    (hrows : rows.Perm (db.buffers.rows.filter refolds)) :
    ∃ db' merges, refoldNetworkBuffers lower mapping rows db = some (db', merges) ∧
      ∃ survivor, Refolded lower mapping db db' survivor := by
  have hgrouped : Grouped (storing mapping db) (groupRows lower mapping rows).entries :=
    ⟨(grouped_groupRows hrows).stored, (grouped_groupRows hrows).nonempty,
      (grouped_groupRows hrows).distinct, (grouped_groupRows hrows).apart⟩
  obtain ⟨hmerged, hfinals⟩ := refoldGroups_merged hgrouped
  generalize hr : (groupRows lower mapping rows).entries.foldl refoldGroup
    ⟨storing mapping db, [], []⟩ = r at hmerged hfinals
  have hfirst {f : BufferRow × Str} (hf : f ∈ r.finalFolds) :
      ∃ a, Survives lower mapping db a ∧ f.1.id = a.id ∧ f.1.folded = a.folded ∧
        foldTargetWith lower (some mapping) a.target = f.2 := by
    obtain ⟨e, he, first, rest, hranked, hid, hfolded, hnew⟩ := finalOf_mem hfinals hf
    obtain ⟨hsurvives, hfold⟩ := survives_first hrows he hranked
    exact ⟨first.row, hsurvives, hid, hfolded, hfold.trans hnew.symm⟩
  have hkept {b : BufferRow} (hb : b ∈ r.db.buffers.rows) :
      ∃ b₀ ∈ db.buffers.rows, b₀.id = b.id ∧ b₀.target = b.target ∧ b₀.folded = b.folded ∧
        b₀.kind = b.kind ∧ (Survives lower mapping db b₀ ∨ refolds b₀ = false) ∧
        survivorOf (storing mapping db) (groupRows lower mapping rows).entries b₀.id = b₀.id := by
    obtain ⟨b₀, hb₀, hid, htarget, hfolded, hkind, hself⟩ := hmerged.kept b hb
    exact ⟨b₀, hb₀, hid, htarget, hfolded, hkind, kept_survives hrows hb₀ hself, hself⟩
  obtain ⟨db', hcommit, hrewritten⟩ := @rewriteFolds_commits r.finalFolds r.db
    (finals_ids hfinals hgrouped.apart)
    (finals_new hfinals ▸ (groupRows lower mapping rows).nodup)
    (fun f hf b hb hne heq => by
      obtain ⟨a, ha, haid, -, hanew⟩ := hfirst hf
      obtain ⟨b₀, hb₀, hid, -, hfolded, -, hstays, -⟩ := hkept hb
      refine hclash ⟨a, ha, b₀, hb₀, hstays, fun h => hne ?_, ?_⟩
      · rw [← hid, ← h, haid]
      · rw [hanew, hfolded, heq])
    (fun f hf b hb hid => by
      obtain ⟨a, ha, haid, hafolded, -⟩ := hfirst hf
      obtain ⟨b₀, hb₀, hb₀id, -, hfolded, -⟩ := hkept hb
      have hsame : b₀ = a := db.buffers.eq_of_id hb₀ ha.1 (hb₀id.trans (hid.trans haid))
      rw [← hfolded, hsame, hafolded])
  have hshape {b : BufferRow} (hb : b ∈ db'.buffers.rows) :
      ∃ c ∈ r.db.buffers.rows, shape c = shape b :=
    List.mem_map.mp (hrewritten.rows ▸ List.mem_map_of_mem hb)
  refine ⟨db', r.merges, ?_, survivorOf (storing mapping db) (groupRows lower mapping rows).entries,
    ?_⟩
  · have hr' : (groupRows lower mapping rows).entries.foldl refoldGroup
        ⟨{ db with casemapping := some mapping }, [], []⟩ = r := hr
    unfold refoldNetworkBuffers
    rw [hr']
    dsimp only
    rw [hcommit]
    rfl
  refine ⟨?_, ?_, db'.buffers.folds, ?_, ?_, ?_, ?_, ?_, ?_⟩
  · rw [hrewritten.casemapping, hmerged.casemapping]
    rfl
  · intro b' hb' hrefolds
    obtain ⟨c, hc, hcshape⟩ := hshape hb'
    obtain ⟨hcid, hctarget, hckind, -⟩ := shape_eq hcshape
    obtain ⟨b₀, hb₀, hid, htarget, -, hkind, hstays, -⟩ := hkept hc
    have hb₀refolds : refolds b₀ = true := by
      rw [refolds, hkind, hckind]
      exact hrefolds
    have hsurvives := hstays.resolve_right (by rw [hb₀refolds]; decide)
    have hb₀rows : b₀ ∈ rows := hrows.mem_iff.mpr (List.mem_filter.mpr ⟨hb₀, hb₀refolds⟩)
    obtain ⟨f, hf, first, rest, hranked, hfid, -, hfnew⟩ := mem_finalOf hfinals
      (groupRows_mem hb₀rows)
    obtain ⟨hfirst, hfirstfold⟩ := survives_first hrows (groupRows_mem hb₀rows) hranked
    have hsame : first.row = b₀ := hfirst.unique hsurvives hfirstfold
    rw [hrewritten.folds f hf b' hb' (by rw [hfid, hsame, hid, hcid]), hfnew, htarget, hctarget]
  · intro b' hb'
    obtain ⟨c, hc, hcshape⟩ := hshape hb'
    obtain ⟨hcid, hctarget, hckind, -⟩ := shape_eq hcshape
    obtain ⟨b₀, hb₀, hid, htarget, -, hkind, -, hself⟩ := hkept hc
    exact ⟨b₀, hb₀, hid.trans hcid, htarget.trans hctarget, hkind.trans hckind, hself⟩
  · intro a ha b hb harefolds hbrefolds
    have harows : a ∈ rows := hrows.mem_iff.mpr (List.mem_filter.mpr ⟨ha, harefolds⟩)
    have hbrows : b ∈ rows := hrows.mem_iff.mpr (List.mem_filter.mpr ⟨hb, hbrefolds⟩)
    exact @survivorOf_same lower mapping (storing mapping db) rows hrows a b harows hbrows
  · intro a ha
    obtain ⟨c, hc, hcid⟩ := hmerged.sent a ha
    have hmem : shape c ∈ db'.buffers.rows.map shape :=
      hrewritten.rows ▸ List.mem_map_of_mem hc
    obtain ⟨b', hb', hshape⟩ := List.mem_map.mp hmem
    obtain ⟨hid, -, -, hopen⟩ := shape_eq hshape
    refine ⟨b', hb', hid.trans hcid, fun haopen => ?_⟩
    rw [hopen, hmerged.isOpen c hc]
    exact ⟨a, ha, hcid.symm, haopen⟩
  · intro id hid
    refine survivorOf_outside fun e he b hb => ?_
    obtain ⟨hstored, hrefolds, -⟩ := (mem_group hrows he).mp hb
    exact hid b hstored hrefolds
  · rw [hrewritten.messages, hmerged.messages]
    rfl
  · rw [hrewritten.inputHistory, hmerged.inputHistory]
    rfl

/-- A row that stays is sent to itself. -/
theorem survivorOf_stays (hrows : rows.Perm (db.buffers.rows.filter refolds)) {b : BufferRow}
    (h : Survives lower mapping db b ∨ refolds b = false) (hb : b ∈ db.buffers.rows) :
    survivorOf db (groupRows lower mapping rows).entries b.id = b.id := by
  rcases h with hsurvives | hsentinel
  · have hbrows : b ∈ rows := hrows.mem_iff.mpr (List.mem_filter.mpr ⟨hb, hsurvives.2.1⟩)
    have he : (foldTargetWith lower (some mapping) b.target,
        rows.filter fun c => foldTargetWith lower (some mapping) c.target =
          foldTargetWith lower (some mapping) b.target) ∈ (groupRows lower mapping rows).entries :=
      groupRows_mem hbrows
    obtain ⟨first, rest, hranked⟩ := @exists_ranked db _ ((mem_groupRows he).2)
    obtain ⟨hfirst, hfold⟩ := survives_first hrows he hranked
    rw [survivorOf_inside (grouped_groupRows hrows) he
      ((mem_group hrows he).mpr ⟨hb, hsurvives.2.1, rfl⟩) hranked, hfirst.unique hsurvives hfold]
  · refine survivorOf_outside fun e he c hc hid => ?_
    obtain ⟨hstored, hrefolds, -⟩ := (mem_group hrows he).mp hc
    rw [db.buffers.eq_of_id hstored hb hid, hsentinel] at hrefolds
    cases hrefolds

/-- With a clash there is an order of the rows in which the pass fails. -/
theorem clash_fails (hclash : Clash lower mapping db) :
    ∃ rows, rows.Perm (db.buffers.rows.filter refolds) ∧
      refoldNetworkBuffers lower mapping rows db = none := by
  obtain ⟨a, ha, b, hb, hstays, hne, hfold⟩ := hclash
  have hamem : a ∈ db.buffers.rows.filter refolds := List.mem_filter.mpr ⟨ha.1, ha.2.1⟩
  have hrows : (a :: (db.buffers.rows.filter refolds).erase a).Perm (db.buffers.rows.filter refolds) :=
    (List.perm_cons_erase hamem).symm
  refine ⟨_, hrows, ?_⟩
  have hhead : (groupRows lower mapping
      (a :: (db.buffers.rows.filter refolds).erase a)).keys.head? =
        some (foldTargetWith lower (some mapping) a.target) := groupRows_head a _
  generalize a :: (db.buffers.rows.filter refolds).erase a = rows at hrows hhead
  have hgrouped : Grouped (storing mapping db) (groupRows lower mapping rows).entries :=
    ⟨(grouped_groupRows hrows).stored, (grouped_groupRows hrows).nonempty,
      (grouped_groupRows hrows).distinct, (grouped_groupRows hrows).apart⟩
  obtain ⟨hmerged, hfinals⟩ := refoldGroups_merged hgrouped
  have hfirst : ∃ f finals, ((groupRows lower mapping rows).entries.foldl refoldGroup
      ⟨storing mapping db, [], []⟩).finalFolds = f :: finals ∧ f.1.id = a.id ∧
        f.1.folded = a.folded ∧ f.2 = b.folded := by
    unfold OrderedMap.keys at hhead
    cases hentries : (groupRows lower mapping rows).entries with
    | nil =>
      rw [hentries] at hhead
      cases hhead
    | cons e entries =>
      rw [hentries] at hhead
      have hkey : e.1 = foldTargetWith lower (some mapping) a.target := Option.some.inj hhead
      have he : e ∈ (groupRows lower mapping rows).entries := hentries ▸ List.mem_cons_self
      rw [hentries] at hfinals
      generalize ((e :: entries).foldl refoldGroup ⟨storing mapping db, [], []⟩).finalFolds = finals
        at hfinals
      cases hfinals with
      | cons hfe hrest =>
        obtain ⟨first, rest, hranked, hid, hfolded, hnew⟩ := hfe
        obtain ⟨hsurvives, hfirstfold⟩ := survives_first hrows he hranked
        have hsame : first.row = a := hsurvives.unique ha (hfirstfold.trans hkey)
        rw [hsame] at hid hfolded
        exact ⟨_, _, rfl, hid, hfolded, hnew.trans (hkey.trans hfold)⟩
  obtain ⟨f, finals, hfinal, hfid, hffolded, hfnew⟩ := hfirst
  have hdrifted : f.1.folded ≠ f.2 := by
    rw [hffolded, hfnew]
    exact fun h => hne (db.buffers.eq_of_folded ha.1 hb h)
  have hheld : ∃ b' ∈ ((groupRows lower mapping rows).entries.foldl refoldGroup
      ⟨storing mapping db, [], []⟩).db.buffers.rows, b'.id ≠ f.1.id ∧ b'.folded = f.2 := by
    obtain ⟨b', hb', hid'⟩ := hmerged.sent b hb
    have hself := @survivorOf_stays lower mapping (storing mapping db) rows hrows b hstays hb
    have hb'id : b'.id = b.id := hid'.trans hself
    obtain ⟨b₀, hb₀, hb₀id, -, hb₀folded, -⟩ := hmerged.kept b' hb'
    have hsame : b₀ = b := db.buffers.eq_of_id hb₀ hb (hb₀id.trans hb'id)
    refine ⟨b', hb', ?_, by rw [← hb₀folded, hsame, hfnew]⟩
    rw [hb'id, hfid]
    exact fun h => hne (db.buffers.eq_of_id ha.1 hb h.symm)
  have hnone : ((groupRows lower mapping rows).entries.foldl refoldGroup
      ⟨storing mapping db, [], []⟩).finalFolds.foldlM rewriteFold
        ((groupRows lower mapping rows).entries.foldl refoldGroup ⟨storing mapping db, [], []⟩).db =
      none := by
    rw [hfinal, List.foldlM_cons, rewriteFold_none hdrifted hheld]
    rfl
  unfold refoldNetworkBuffers
  dsimp only
  have hmap := congrArg (Option.map fun db' => (db', ((groupRows lower mapping rows).entries.foldl
    refoldGroup ⟨storing mapping db, [], []⟩).merges)) hnone
  exact hmap

/-- Re-folding commits and loses nothing, in whatever order the rows come, exactly when no
survivor's new fold is still held by another row that stays. -/
theorem refolds_safely_iff : RefoldsSafely lower mapping db ↔ ¬ Clash lower mapping db := by
  constructor
  · intro hsafe hclash
    obtain ⟨rows, hrows, hnone⟩ := clash_fails hclash
    obtain ⟨db', merges, hsome, -⟩ := hsafe rows hrows
    rw [hnone] at hsome
    cases hsome
  · exact fun hclash rows hrows => commits hclash hrows

end Pass

namespace Sample

/-- `toLowerCase`, as far as these names need it. -/
def toLowerCase (s : Str) : Str := s.map fun c => if c = 'Ä' then 'ä' else c.toLower

def channel (id : Nat) (target : Str) : BufferRow :=
  { id, target, folded := toLowerCase target, kind := .channel, isOpen := true, closedAt := none
    autojoin := false, key := none }

/-- `#ä[` and `#Ä{`, folded before the network declared a mapping. -/
def undeclared : Database where
  casemapping := none
  buffers := ⟨[channel 1 ['#', 'ä', '['], channel 2 ['#', 'Ä', '{']], by decide, by decide⟩
  messages := []
  inputHistory := []
  reads := []
  pins := []
  favorites := []
  nicklist := []
  notify := []
  drafts := []
  follows := []

end Sample

/-- Rows folded by the rule in force, and a re-fold to rfc1459 that does not commit: the first
row's new fold is the second one's old one. -/
theorem undeclared_fails :
    (∀ b ∈ Sample.undeclared.buffers.rows,
      b.folded = foldTargetWith Sample.toLowerCase Sample.undeclared.casemapping b.target) ∧
    ¬ RefoldsSafely Sample.toLowerCase .rfc1459 Sample.undeclared := by
  refine ⟨by decide, fun h => ?_⟩
  obtain ⟨db', merges, hsome, -⟩ := h Sample.undeclared.buffers.rows (by decide)
  have hnone : (refoldNetworkBuffers Sample.toLowerCase .rfc1459 Sample.undeclared.buffers.rows
      Sample.undeclared).isNone = true := by
    decide +kernel
  rw [hsome] at hnone
  cases hnone

end Lurker.Db
