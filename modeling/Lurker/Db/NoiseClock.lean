import Lurker.Lib.OrderedMap
import Lurker.Lib.Run
import Mathlib.Order.BoundedOrder.Basic
import Mathlib.Order.Lattice
import Mathlib.Order.Nat

/-!
# The noise clock

Rows of the early-pruned types age out by the hours of their owner. Each user has a
cursor below which everything has been swept: a pass deletes what lies between the
cursor and a cutoff in batches, with anything happening in between, and moves the
cursor to the cutoff if no insert has rewound it meanwhile. Stored times are
compared as they are, and the empty one comes before all others.
-/

namespace Lurker.Db

/-- The types of stored rows; `other` is every type that lives as long as chat. -/
inductive RowType where
  | join
  | part
  | quit
  | nick
  | chghost
  | mode
  | motd
  | usermode
  | away
  | back
  | other
  deriving DecidableEq, Repr

/-- The types the noise clock ages out early. -/
def earlyPruneTypes : List RowType :=
  [.join, .part, .quit, .nick, .chghost, .mode, .motd, .usermode, .away, .back]

structure NoiseRow (τ : Type) where
  id : Nat
  buffer : Nat
  type : RowType
  time : τ
  deriving DecidableEq, Repr

/-- A user's step of the pass, waiting for its next batch. -/
structure NoisePass (τ : Type) where
  user : Nat
  since : τ
  cutoff : τ

structure NoiseClock (τ : Type) where
  rows : List (NoiseRow τ)
  nextId : Nat
  /-- The (user, message) bookmarks. -/
  bookmarks : List (Nat × Nat)
  /-- Each user's effective event hours, 0 when the clock is off. -/
  hours : Nat → Nat
  /-- The cursors in memory, none before they are first used. -/
  cursors : Option (OrderedMap Nat τ)
  maxCursor : Option τ
  /-- The cursors in `app_meta`. -/
  stored : OrderedMap Nat τ
  pass : Option (NoisePass τ)

namespace NoiseClock

variable {τ : Type} [LinearOrder τ] [OrderBot τ]

/-- The largest of some cursors. -/
def maxOf (cursors : List τ) : Option τ :=
  cursors.foldl
    (fun top v =>
      match top with
      | none => some v
      | some t => if t < v then some v else some t)
    none

def cursorsOf (s : NoiseClock τ) : OrderedMap Nat τ := s.cursors.getD s.stored

def loadNoiseCursors (s : NoiseClock τ) : NoiseClock τ :=
  match s.cursors with
  | some _ => s
  | none => { s with cursors := some s.stored, maxCursor := maxOf s.stored.values }

/-- Where a user's last completed sweep stopped. -/
def getNoiseCursor (s : NoiseClock τ) (user : Nat) : τ := (s.cursorsOf.get? user).getD ⊥

/-- Write the cursors to memory and to the database. -/
def persistCursors (s : NoiseClock τ) (cursors : OrderedMap Nat τ) : NoiseClock τ :=
  { s with cursors := some cursors, maxCursor := maxOf cursors.values, stored := cursors }

def setNoiseCursor (s : NoiseClock τ) (user : Nat) (cutoff : τ) : NoiseClock τ :=
  s.persistCursors (s.cursorsOf.set user cutoff)

/-- Advance only when the cursor is still where the pass started. -/
def advanceNoiseCursor (s : NoiseClock τ) (user : Nat) (since reached : τ) : NoiseClock τ :=
  let s := s.loadNoiseCursors
  if s.getNoiseCursor user ≠ since then s else s.setNoiseCursor user reached

-- the user a buffer belongs to
variable (owner : Nat → Option Nat)

/-- Rewind the owner's cursor to a row that lands below it. -/
def noteNoiseInsert (s : NoiseClock τ) (buffer : Nat) (time : τ) : NoiseClock τ :=
  let s := s.loadNoiseCursors
  match s.maxCursor with
  | none => s
  | some top =>
    if top ≤ time then s
    else
      match owner buffer with
      | none => s
      | some user =>
        let cursor := s.getNoiseCursor user
        if cursor ≠ ⊥ ∧ time < cursor then s.setNoiseCursor user time else s

def insertMessage (s : NoiseClock τ) (buffer : Nat) (type : RowType) (time : τ) : NoiseClock τ :=
  let s := { s with rows := s.rows ++ [⟨s.nextId, buffer, type, time⟩], nextId := s.nextId + 1 }
  if type ∈ earlyPruneTypes then s.noteNoiseInsert owner buffer time else s

/-- The size of a batch: never below 1, nor above the larger of 1 and the maximum. -/
def pacedBatchRows (batchRows minBatchRows adapted : Nat) : Nat :=
  let floor := max 1 (min minBatchRows batchRows)
  max floor (min batchRows adapted)

/-- A row the noise clock may delete for a user in a window of times. -/
def prunable (s : NoiseClock τ) (user : Nat) (since cutoff : τ) (r : NoiseRow τ) : Bool :=
  decide (r.type ∈ earlyPruneTypes) && decide (since ≤ r.time) && decide (r.time < cutoff) &&
    decide (owner r.buffer = some user) && !s.bookmarks.contains (user, r.id)

/-- What the database may pick for a batch: as many of the rows as the limit allows. -/
def Picks (s : NoiseClock τ) (user : Nat) (since cutoff : τ) (limit : Nat) (picked : List Nat) :
    Prop :=
  picked.Nodup ∧ (∀ i ∈ picked, ∃ r ∈ s.rows, r.id = i ∧ s.prunable owner user since cutoff r = true) ∧
    picked.length = min limit (s.rows.filter (s.prunable owner user since cutoff)).length

instance (s : NoiseClock τ) (user : Nat) (since cutoff : τ) (limit : Nat) (picked : List Nat) :
    Decidable (s.Picks owner user since cutoff limit picked) :=
  inferInstanceAs (Decidable (_ ∧ _ ∧ _))

inductive Event (τ : Type) where
  | insert (buffer : Nat) (type : RowType) (time : τ)
  /-- A user's turn in the pass begins at a time of the wall clock. -/
  | begins (user : Nat) (now : Int)
  /-- The turn's next statement: the rows the database picks, the batch size as paced, and
  whether the tick is out of budget after it. -/
  | batch (picked : List Nat) (batchRows minBatchRows adapted : Nat) (outOfBudget : Bool)
  | setHours (user hours : Nat)
  | bookmark (user message : Nat)
  /-- Rows go for another reason: the line cap, or a buffer's deletion. -/
  | prune (ids : List Nat)
  | restart

-- an instant of the wall clock as it is stored
variable (iso : Int → τ)

/-- The cutoff of a user's turn. -/
def cutoffAt (s : NoiseClock τ) (user : Nat) (now : Int) : τ :=
  iso (now - (s.hours user : Int) * 3600000)

def step (s : NoiseClock τ) : Event τ → NoiseClock τ
  | .insert buffer type time => s.insertMessage owner buffer type time
  | .begins user now =>
    match s.pass with
    | some _ => s
    | none =>
      if s.hours user = 0 then s
      else
        let cutoff := s.cutoffAt iso user now
        let s := s.loadNoiseCursors
        let since := s.getNoiseCursor user
        if cutoff ≤ since then s else { s with pass := some ⟨user, since, cutoff⟩ }
  | .batch picked batchRows minBatchRows adapted outOfBudget =>
    match s.pass with
    | none => s
    | some p =>
      let limit := pacedBatchRows batchRows minBatchRows adapted
      if s.Picks owner p.user p.since p.cutoff limit picked then
        let s := { s with rows := s.rows.filter fun r => r.id ∉ picked }
        if picked.length < limit then
          { s.advanceNoiseCursor p.user p.since p.cutoff with pass := none }
        else if outOfBudget then { s with pass := none }
        else s
      else s
  | .setHours user hours => { s with hours := fun u => if u = user then hours else s.hours u }
  | .bookmark user message => { s with bookmarks := s.bookmarks ++ [(user, message)] }
  | .prune ids => { s with rows := s.rows.filter fun r => r.id ∉ ids }
  | .restart => { s with cursors := none, maxCursor := none, pass := none }

def start : NoiseClock τ where
  rows := []
  nextId := 1
  bookmarks := []
  hours := fun _ => 0
  cursors := none
  maxCursor := none
  stored := .empty
  pass := none

/-- No row of a user that may age out is older than an instant. -/
def SweptTo (s : NoiseClock τ) (user : Nat) (time : τ) : Prop :=
  ∀ r ∈ s.rows, r.type ∈ earlyPruneTypes → owner r.buffer = some user →
    (user, r.id) ∉ s.bookmarks → ¬ r.time < time

/-- The user and the cutoff of the turn that a step completes. -/
def completes (s : NoiseClock τ) : Event τ → Option (Nat × τ)
  | .begins user now =>
    if s.pass.isNone ∧ s.hours user ≠ 0 ∧ s.cutoffAt iso user now ≤ s.getNoiseCursor user then
      some (user, s.cutoffAt iso user now)
    else none
  | .batch picked batchRows minBatchRows adapted _ =>
    match s.pass with
    | none => none
    | some p =>
      if s.Picks owner p.user p.since p.cutoff (pacedBatchRows batchRows minBatchRows adapted) picked ∧
          picked.length < pacedBatchRows batchRows minBatchRows adapted then
        some (p.user, p.cutoff)
      else none
  | _ => none

/-- Nothing below a cursor is skipped, and a turn that completes leaves nothing before its
cutoff. -/
structure SkipsNothing (es : List (Event τ)) : Prop where
  below : ∀ user, SweptTo owner (Run.after (step owner iso) start es) user
    ((Run.after (step owner iso) start es).getNoiseCursor user)
  completed : ∀ e user cutoff,
    (Run.after (step owner iso) start es).completes owner iso e = some (user, cutoff) →
      SweptTo owner (step owner iso (Run.after (step owner iso) start es) e) user cutoff

/-- An insert of a noise row below the cursor that a user's turn started from. -/
def Rewinds (p : NoisePass τ) : Event τ → Prop
  | .insert buffer type time =>
    type ∈ earlyPruneTypes ∧ owner buffer = some p.user ∧ time < p.since
  | _ => False

/-- The run ends in a turn during which such an insert happened. -/
def Rewound (es : List (Event τ)) (p : NoisePass τ) : Prop :=
  ∃ es₁ e es₂, es = es₁ ++ e :: es₂ ∧ Rewinds owner p e ∧
    Run.Within (step owner iso) (fun s _ => s.pass = some p)
      (Run.after (step owner iso) start es₁) (e :: es₂)

/-- The same, but for the turns that an insert rewound: these leave the row to the next turn. -/
structure SkipsNothingYet (es : List (Event τ)) : Prop where
  below : ∀ user, SweptTo owner (Run.after (step owner iso) start es) user
    ((Run.after (step owner iso) start es).getNoiseCursor user)
  completed : ∀ e user cutoff,
    (Run.after (step owner iso) start es).completes owner iso e = some (user, cutoff) →
      SweptTo owner (step owner iso (Run.after (step owner iso) start es) e) user cutoff ∨
        ∃ p, (Run.after (step owner iso) start es).pass = some p ∧ Rewound owner iso es p

variable {owner iso}

section

omit [OrderBot τ]

theorem le_maxOf (cursors : List τ) : ∀ v ∈ cursors, ∃ top, maxOf cursors = some top ∧ v ≤ top := by
  induction cursors using List.reverseRecOn with
  | nil => intro v hv; cases hv
  | append_singleton cursors c ih =>
    unfold maxOf at ih ⊢
    rw [List.foldl_append, List.foldl_cons, List.foldl_nil]
    generalize hfold : cursors.foldl _ (none : Option τ) = top at ih
    intro v hv
    cases top with
    | none =>
      rcases List.mem_append.mp hv with hv | hv
      · obtain ⟨top, htop, -⟩ := ih v hv
        cases htop
      · exact ⟨c, rfl, (List.mem_singleton.mp hv).le⟩
    | some t =>
      by_cases ht : t < c
      · refine ⟨c, if_pos ht, ?_⟩
        rcases List.mem_append.mp hv with hv | hv
        · obtain ⟨top, htop, hle⟩ := ih v hv
          obtain rfl := Option.some.inj htop
          exact hle.trans ht.le
        · exact (List.mem_singleton.mp hv).le
      · refine ⟨t, if_neg ht, ?_⟩
        rcases List.mem_append.mp hv with hv | hv
        · obtain ⟨top, htop, hle⟩ := ih v hv
          obtain rfl := Option.some.inj htop
          exact hle
        · exact (List.mem_singleton.mp hv).le.trans (not_lt.mp ht)

/-- The cursors in memory are the stored ones, and their maximum is known. -/
def Hydrated (s : NoiseClock τ) : Prop :=
  ∀ m, s.cursors = some m → s.stored = m ∧ s.maxCursor = maxOf m.values

theorem hydrated_load {s : NoiseClock τ} (h : s.Hydrated) :
    s.loadNoiseCursors.Hydrated ∧ s.loadNoiseCursors.cursors = some s.cursorsOf ∧
      s.loadNoiseCursors.cursorsOf = s.cursorsOf := by
  unfold loadNoiseCursors
  split
  · rename_i m hm
    exact ⟨h, by rw [cursorsOf, hm]; rfl, rfl⟩
  · rename_i hnone
    refine ⟨fun m hm => ?_, by rw [cursorsOf, hnone]; rfl, by simp [cursorsOf, hnone]⟩
    obtain rfl := Option.some.inj hm
    exact ⟨rfl, rfl⟩

theorem load_rest (s : NoiseClock τ) : s.loadNoiseCursors.rows = s.rows ∧
    s.loadNoiseCursors.bookmarks = s.bookmarks ∧ s.loadNoiseCursors.nextId = s.nextId ∧
      s.loadNoiseCursors.pass = s.pass ∧ s.loadNoiseCursors.hours = s.hours := by
  unfold loadNoiseCursors
  split <;> exact ⟨rfl, rfl, rfl, rfl, rfl⟩

theorem hydrated_persist (s : NoiseClock τ) (cursors : OrderedMap Nat τ) :
    (s.persistCursors cursors).Hydrated := by
  intro m hm
  obtain rfl := Option.some.inj hm
  exact ⟨rfl, rfl⟩

end

theorem getNoiseCursor_set (s : NoiseClock τ) (user u : Nat) (c : τ) :
    (s.setNoiseCursor user c).getNoiseCursor u = if u = user then c else s.getNoiseCursor u := by
  unfold getNoiseCursor setNoiseCursor persistCursors
  show ((s.cursorsOf.set user c).get? u).getD ⊥ = _
  rw [OrderedMap.get?_set]
  split <;> rfl

theorem getNoiseCursor_load {s : NoiseClock τ} (h : s.Hydrated) (u : Nat) :
    s.loadNoiseCursors.getNoiseCursor u = s.getNoiseCursor u := by
  unfold getNoiseCursor
  rw [(hydrated_load h).2.2]

theorem getNoiseCursor_le_max {s : NoiseClock τ} (h : s.Hydrated) {m : OrderedMap Nat τ}
    (hm : s.cursors = some m) (u : Nat) :
    s.getNoiseCursor u = ⊥ ∨ ∃ top, s.maxCursor = some top ∧ s.getNoiseCursor u ≤ top := by
  have hof : s.cursorsOf = m := by rw [cursorsOf, hm]; rfl
  unfold getNoiseCursor
  rw [hof, (h m hm).2]
  cases hget : m.get? u with
  | none => exact .inl rfl
  | some c => exact .inr (le_maxOf m.values c (OrderedMap.mem_values.mpr ⟨u, hget⟩))

/-- What an insert does to the cursors: only the owner's moves, down to the row's time, and
only when the row lies below it. -/
theorem noteNoiseInsert_spec {s : NoiseClock τ} (h : s.Hydrated) (buffer : Nat) (time : τ) :
    (s.noteNoiseInsert owner buffer time).Hydrated ∧
      (∀ u, (s.noteNoiseInsert owner buffer time).getNoiseCursor u =
        if owner buffer = some u ∧ time < s.getNoiseCursor u then time else s.getNoiseCursor u) ∧
      (s.noteNoiseInsert owner buffer time).rows = s.rows ∧
      (s.noteNoiseInsert owner buffer time).bookmarks = s.bookmarks ∧
      (s.noteNoiseInsert owner buffer time).nextId = s.nextId ∧
      (s.noteNoiseInsert owner buffer time).pass = s.pass := by
  obtain ⟨hload, hcursors, -⟩ := hydrated_load h
  obtain ⟨hrows, hbookmarks, hnext, hpass, -⟩ := load_rest s
  have hget := getNoiseCursor_load h
  have hmax := getNoiseCursor_le_max hload hcursors
  unfold noteNoiseInsert
  dsimp only
  have hsame (hno : ∀ u, ¬ (owner buffer = some u ∧ time < s.getNoiseCursor u)) :
      s.loadNoiseCursors.Hydrated ∧
      (∀ u, s.loadNoiseCursors.getNoiseCursor u =
        if owner buffer = some u ∧ time < s.getNoiseCursor u then time else s.getNoiseCursor u) ∧
      s.loadNoiseCursors.rows = s.rows ∧ s.loadNoiseCursors.bookmarks = s.bookmarks ∧
      s.loadNoiseCursors.nextId = s.nextId ∧ s.loadNoiseCursors.pass = s.pass :=
    ⟨hload, fun u => by rw [if_neg (hno u), hget u], hrows, hbookmarks, hnext, hpass⟩
  split
  · rename_i hnone
    apply hsame
    rintro u ⟨-, hlt⟩
    rcases hmax u with hbot | ⟨top, htop, -⟩
    · rw [← hget u, hbot] at hlt
      exact not_lt_bot hlt
    · rw [hnone] at htop
      cases htop
  · rename_i top htop
    split
    · rename_i hle
      apply hsame
      rintro u ⟨-, hlt⟩
      rcases hmax u with hbot | ⟨top', htop', hle'⟩
      · rw [← hget u, hbot] at hlt
        exact not_lt_bot hlt
      · obtain rfl := Option.some.inj (htop.symm.trans htop')
        rw [← hget u] at hlt
        exact absurd (hlt.trans_le (hle'.trans hle)) (lt_irrefl _)
    · split
      · rename_i hnone
        apply hsame
        rintro u ⟨howner, -⟩
        rw [hnone] at howner
        cases howner
      · rename_i user huser
        split
        · rename_i hbelow
          refine ⟨hydrated_persist _ _, fun u => ?_, hrows, hbookmarks, hnext, hpass⟩
          rw [getNoiseCursor_set]
          by_cases hu : u = user
          · rw [if_pos hu, if_pos ⟨hu ▸ huser, by rw [hu, ← hget user]; exact hbelow.2⟩]
          · rw [if_neg hu, if_neg, hget u]
            rintro ⟨howner, -⟩
            exact hu (Option.some.inj (howner.symm.trans huser))
        · rename_i hbelow
          apply hsame
          rintro u ⟨howner, hlt⟩
          obtain rfl := Option.some.inj (huser.symm.trans howner)
          refine hbelow ⟨fun hbot => ?_, by rw [hget user]; exact hlt⟩
          rw [hget user] at hbot
          rw [hbot] at hlt
          exact not_lt_bot hlt

variable (owner) in
/-- No row is skipped, and the rows have ids of their own. -/
structure Sound (s : NoiseClock τ) : Prop where
  hydrated : s.Hydrated
  ids : (s.rows.map NoiseRow.id).Nodup
  fresh : ∀ r ∈ s.rows, r.id < s.nextId
  swept : ∀ user, s.SweptTo owner user (s.getNoiseCursor user)

theorem sound_start : (start : NoiseClock τ).Sound owner where
  hydrated m hm := by cases hm
  ids := List.nodup_nil
  fresh r hr := by cases hr
  swept _ r hr := by cases hr

theorem sound_insert {s : NoiseClock τ} (h : s.Sound owner) (buffer : Nat) (type : RowType)
    (time : τ) : (s.insertMessage owner buffer type time).Sound owner := by
  have hrowIds : ((s.rows ++ [(⟨s.nextId, buffer, type, time⟩ : NoiseRow τ)]).map
      NoiseRow.id).Nodup := by
    rw [List.map_append, List.nodup_append]
    refine ⟨h.ids, by simp, ?_⟩
    rintro i hi _ hi' rfl
    obtain ⟨r, hr, rfl⟩ := List.mem_map.mp hi
    have hfresh := h.fresh r hr
    simp only [List.map_cons, List.map_nil, List.mem_singleton] at hi'
    omega
  have hrowFresh : ∀ r ∈ s.rows ++ [(⟨s.nextId, buffer, type, time⟩ : NoiseRow τ)],
      r.id < s.nextId + 1 := by
    intro r hr
    rcases List.mem_append.mp hr with hr | hr
    · have := h.fresh r hr
      omega
    · obtain rfl := List.mem_singleton.mp hr
      exact Nat.lt_succ_self _
  unfold insertMessage
  dsimp only
  split
  · have hadded : Hydrated ({ s with
        rows := s.rows ++ [(⟨s.nextId, buffer, type, time⟩ : NoiseRow τ)]
        nextId := s.nextId + 1 } : NoiseClock τ) := h.hydrated
    obtain ⟨hhydrated, hget, hrows, hbookmarks, hnext, -⟩ :=
      @noteNoiseInsert_spec τ _ _ owner _ hadded buffer time
    refine ⟨hhydrated, hrows ▸ hrowIds, ?_, ?_⟩
    · rw [hrows, hnext]
      exact hrowFresh
    · intro user r hr htype howner hmark
      rw [hbookmarks] at hmark
      rw [hget user]
      rw [hrows] at hr
      rcases List.mem_append.mp hr with hr | hr
      · have hold := h.swept user r hr htype howner hmark
        split
        · rename_i hbelow
          exact fun hlt => hold (hlt.trans hbelow.2)
        · exact hold
      · obtain rfl := List.mem_singleton.mp hr
        split
        · exact lt_irrefl _
        · rename_i hbelow
          exact fun hlt => hbelow ⟨howner, hlt⟩
  · rename_i htype
    refine ⟨h.hydrated, hrowIds, hrowFresh, ?_⟩
    intro user r hr hearly howner hmark
    rcases List.mem_append.mp hr with hr | hr
    · exact h.swept user r hr hearly howner hmark
    · obtain rfl := List.mem_singleton.mp hr
      exact absurd hearly htype

/-- Deleting rows skips none. -/
theorem sound_delete {s : NoiseClock τ} (h : s.Sound owner) (ids : List Nat) :
    ({ s with rows := s.rows.filter fun r => r.id ∉ ids } : NoiseClock τ).Sound owner where
  hydrated := h.hydrated
  ids := (List.filter_sublist.map _).nodup h.ids
  fresh r hr := h.fresh r (List.mem_of_mem_filter hr)
  swept user r hr := h.swept user r (List.mem_of_mem_filter hr)

/-- A short batch leaves nothing in its window. -/
theorem picks_all {s : NoiseClock τ} (h : s.Sound owner) {user limit : Nat} {since cutoff : τ}
    {picked : List Nat} (hpicks : s.Picks owner user since cutoff limit picked)
    (hshort : picked.length < limit) {r : NoiseRow τ} (hr : r ∈ s.rows)
    (hprunable : s.prunable owner user since cutoff r = true) : r.id ∈ picked := by
  obtain ⟨hnodup, hmem, hlen⟩ := hpicks
  have hids : ((s.rows.filter (s.prunable owner user since cutoff)).map NoiseRow.id).Nodup :=
    (List.filter_sublist.map _).nodup h.ids
  have hsub : picked ⊆ (s.rows.filter (s.prunable owner user since cutoff)).map NoiseRow.id := by
    intro i hi
    obtain ⟨r, hr, rfl, hprunable⟩ := hmem i hi
    exact List.mem_map_of_mem (List.mem_filter.mpr ⟨hr, hprunable⟩)
  have hperm := (List.subperm_of_subset hnodup hsub).perm_of_length_le (by
    rw [List.length_map]
    omega)
  exact hperm.mem_iff.mpr (List.mem_map_of_mem (List.mem_filter.mpr ⟨hr, hprunable⟩))

/-- A cursor that is moved up to a cutoff skips nothing when the window below it is clear. -/
theorem sound_advance {s : NoiseClock τ} (h : s.Sound owner) {user : Nat} {since cutoff : τ}
    (hclear : ∀ r ∈ s.rows, s.prunable owner user since cutoff r = false) :
    (s.advanceNoiseCursor user since cutoff).Sound owner ∧
      (s.getNoiseCursor user = since → s.SweptTo owner user cutoff) ∧
      (s.advanceNoiseCursor user since cutoff).rows = s.rows ∧
      (s.advanceNoiseCursor user since cutoff).bookmarks = s.bookmarks := by
  have hswept (hcursor : s.getNoiseCursor user = since) : s.SweptTo owner user cutoff := by
    intro r hr htype howner hmark hlt
    have hlow := not_lt.mp (h.swept user r hr htype howner hmark)
    rw [hcursor] at hlow
    have hprunable := hclear r hr
    simp [prunable, htype, hlow, hlt, howner, hmark] at hprunable
  obtain ⟨hload, -, -⟩ := hydrated_load h.hydrated
  obtain ⟨hrows, hbookmarks, hnext, -, -⟩ := load_rest s
  have hget := getNoiseCursor_load h.hydrated
  unfold advanceNoiseCursor
  dsimp only
  rw [hget user]
  split
  · refine ⟨⟨hload, hrows ▸ h.ids, ?_, fun u => ?_⟩, hswept, hrows, hbookmarks⟩
    · rw [hrows, hnext]
      exact h.fresh
    · unfold SweptTo
      rw [hrows, hbookmarks, hget u]
      exact h.swept u
  · rename_i hcursor
    have hcursor : s.getNoiseCursor user = since := not_not.mp hcursor
    refine ⟨⟨hydrated_persist _ _, ?_, ?_, fun u => ?_⟩, hswept, hrows, hbookmarks⟩
    · show (s.loadNoiseCursors.rows.map NoiseRow.id).Nodup
      exact hrows ▸ h.ids
    · show ∀ r ∈ s.loadNoiseCursors.rows, r.id < s.loadNoiseCursors.nextId
      rw [hrows, hnext]
      exact h.fresh
    · rw [getNoiseCursor_set, hget u]
      show ∀ r ∈ s.loadNoiseCursors.rows, r.type ∈ earlyPruneTypes → owner r.buffer = some u →
        (u, r.id) ∉ s.loadNoiseCursors.bookmarks → ¬ r.time < if u = user then cutoff else _
      rw [hrows, hbookmarks]
      split
      · rename_i hu
        exact hu ▸ hswept hcursor
      · exact h.swept u

/-- A batch that comes back short clears the window, and the turn with it. -/
theorem sound_batch {s : NoiseClock τ} (h : s.Sound owner) {user limit : Nat} {since cutoff : τ}
    {picked : List Nat} (hpicks : s.Picks owner user since cutoff limit picked)
    (hshort : picked.length < limit) :
    ∀ r ∈ s.rows.filter (fun r => r.id ∉ picked),
      s.prunable owner user since cutoff r = false := by
  intro r hr
  obtain ⟨hr, hout⟩ := List.mem_filter.mp hr
  by_contra hprunable
  have hmem := picks_all h hpicks hshort hr (Bool.eq_true_of_not_eq_false hprunable)
  exact of_decide_eq_true hout hmem

theorem sound_step {s : NoiseClock τ} (h : s.Sound owner) (e : Event τ) :
    (s.step owner iso e).Sound owner := by
  cases e with
  | insert buffer type time => exact sound_insert h buffer type time
  | begins user now =>
    simp only [step]
    split
    · exact h
    · split
      · exact h
      · obtain ⟨hload, -, -⟩ := hydrated_load h.hydrated
        obtain ⟨hrows, hbookmarks, hnext, -, -⟩ := load_rest s
        have hsound : s.loadNoiseCursors.Sound owner := by
          refine ⟨hload, hrows ▸ h.ids, by rw [hrows, hnext]; exact h.fresh, fun u => ?_⟩
          unfold SweptTo
          rw [hrows, hbookmarks, getNoiseCursor_load h.hydrated u]
          exact h.swept u
        split
        · exact hsound
        · exact ⟨hsound.hydrated, hsound.ids, hsound.fresh, hsound.swept⟩
  | batch picked batchRows minBatchRows adapted outOfBudget =>
    simp only [step]
    split
    · exact h
    · rename_i p hp
      split
      · rename_i hpicks
        have hdelete := sound_delete h picked
        split
        · rename_i hshort
          obtain ⟨hsound, -⟩ := sound_advance hdelete (sound_batch h hpicks hshort)
          exact ⟨hsound.hydrated, hsound.ids, hsound.fresh, hsound.swept⟩
        · split
          · exact ⟨hdelete.hydrated, hdelete.ids, hdelete.fresh, hdelete.swept⟩
          · exact hdelete
      · exact h
  | setHours user hours => exact ⟨h.hydrated, h.ids, h.fresh, h.swept⟩
  | bookmark user message =>
    refine ⟨h.hydrated, h.ids, h.fresh, fun u r hr htype howner hmark => ?_⟩
    exact h.swept u r hr htype howner fun hmem => hmark (List.mem_append_left _ hmem)
  | prune ids => exact sound_delete h ids
  | restart =>
    refine ⟨fun m hm => (by cases hm), h.ids, h.fresh, fun u => ?_⟩
    have hcursor : (s.step owner iso .restart).getNoiseCursor u = s.getNoiseCursor u := by
      simp only [step]
      unfold getNoiseCursor cursorsOf
      cases hm : s.cursors with
      | none => rfl
      | some m =>
        rw [(h.hydrated m hm).1]
        rfl
    show s.SweptTo owner u _
    rw [hcursor]
    exact h.swept u

theorem sound_run (es : List (Event τ)) : (Run.after (step owner iso) start es).Sound owner :=
  Run.invariant (step owner iso) sound_start (fun _ e h => sound_step h e) es

/-- During a turn only an insert below its start moves its user's cursor. -/
theorem cursor_step {s : NoiseClock τ} (h : s.Sound owner) {p : NoisePass τ} {e : Event τ}
    (hpass : s.pass = some p) (hpass' : (s.step owner iso e).pass = some p)
    (hcursor : s.getNoiseCursor p.user = p.since) (hrewinds : ¬ Rewinds owner p e) :
    (s.step owner iso e).getNoiseCursor p.user = p.since := by
  cases e with
  | insert buffer type time =>
    simp only [step, insertMessage]
    split
    · rename_i htype
      have hadded : Hydrated ({ s with
          rows := s.rows ++ [(⟨s.nextId, buffer, type, time⟩ : NoiseRow τ)]
          nextId := s.nextId + 1 } : NoiseClock τ) := h.hydrated
      obtain ⟨-, hget, -⟩ := @noteNoiseInsert_spec τ _ _ owner _ hadded buffer time
      rw [hget p.user]
      have hsame : ({ s with
          rows := s.rows ++ [(⟨s.nextId, buffer, type, time⟩ : NoiseRow τ)]
          nextId := s.nextId + 1 } : NoiseClock τ).getNoiseCursor p.user = p.since := hcursor
      rw [hsame, if_neg]
      rintro ⟨howner, hlt⟩
      exact hrewinds ⟨htype, howner, hlt⟩
    · exact hcursor
  | begins user now =>
    simp only [step, hpass]
    exact hcursor
  | batch picked batchRows minBatchRows adapted outOfBudget =>
    simp only [step, hpass] at hpass' ⊢
    split at hpass'
    · rename_i hpicks
      rw [if_pos hpicks]
      split at hpass'
      · cases hpass'
      · rename_i hshort
        rw [if_neg hshort]
        split at hpass'
        · cases hpass'
        · rename_i hbudget
          rw [if_neg hbudget]
          exact hcursor
    · rename_i hpicks
      rw [if_neg hpicks]
      exact hcursor
  | setHours user hours => exact hcursor
  | bookmark user message => exact hcursor
  | prune ids => exact hcursor
  | restart => cases hpass'

/-- A turn starts from its user's cursor. -/
theorem cursor_begins {s : NoiseClock τ} {p : NoisePass τ} {e : Event τ} (h : s.Sound owner)
    (hpass : s.pass ≠ some p) (hpass' : (s.step owner iso e).pass = some p) :
    (s.step owner iso e).getNoiseCursor p.user = p.since := by
  cases e with
  | insert buffer type time =>
    refine absurd ?_ hpass
    rw [← hpass']
    simp only [step, insertMessage]
    split
    · have hadded : Hydrated ({ s with
          rows := s.rows ++ [(⟨s.nextId, buffer, type, time⟩ : NoiseRow τ)]
          nextId := s.nextId + 1 } : NoiseClock τ) := h.hydrated
      exact (@noteNoiseInsert_spec τ _ _ owner _ hadded buffer time).2.2.2.2.2.symm
    · rfl
  | begins user now =>
    simp only [step] at hpass' ⊢
    cases hnow : s.pass with
    | some q =>
      rw [hnow] at hpass' hpass
      exact absurd (hnow.symm.trans hpass') hpass
    | none =>
      obtain ⟨-, -, -, hload, -⟩ := load_rest s
      simp only [hnow] at hpass' hload ⊢
      split at hpass'
      · rw [hnow] at hpass'
        cases hpass'
      · rename_i hhours
        rw [if_neg hhours]
        split at hpass'
        · rw [hload] at hpass'
          cases hpass'
        · rename_i hahead
          rw [if_neg hahead]
          obtain rfl := Option.some.inj hpass'
          rfl
  | batch picked batchRows minBatchRows adapted outOfBudget =>
    refine absurd ?_ hpass
    simp only [step] at hpass'
    cases hnow : s.pass with
    | none =>
      rw [hnow] at hpass'
      exact absurd (hnow.symm.trans hpass') (by simp)
    | some q =>
      simp only [hnow] at hpass'
      split at hpass'
      · split at hpass'
        · cases hpass'
        · split at hpass'
          · cases hpass'
          · exact hpass'
      · rw [← hnow]
        exact hpass'
  | setHours user hours => exact absurd hpass' hpass
  | bookmark user message => exact absurd hpass' hpass
  | prune ids => exact absurd hpass' hpass
  | restart => cases hpass'

/-- In a turn the cursor is where the turn started, unless an insert below it came in. -/
theorem cursor_run (es : List (Event τ)) (p : NoisePass τ)
    (hpass : (Run.after (step owner iso) start es).pass = some p) :
    (Run.after (step owner iso) start es).getNoiseCursor p.user = p.since ∨
      Rewound owner iso es p := by
  induction es using List.reverseRecOn with
  | nil => cases hpass
  | append_singleton es e ih =>
    rw [Run.after_concat] at hpass ⊢
    by_cases hbefore : (Run.after (step owner iso) start es).pass = some p
    · rcases ih hbefore with hcursor | ⟨es₁, d, es₂, rfl, hrewinds, hwithin⟩
      · by_cases hrewinds : Rewinds owner p e
        · exact .inr ⟨es, e, [], rfl, hrewinds, hbefore, trivial⟩
        · exact .inl (cursor_step (sound_run es) hbefore hpass hcursor hrewinds)
      · refine .inr ⟨es₁, d, es₂ ++ [e], by simp, hrewinds, ?_⟩
        rw [← List.cons_append]
        refine (Run.within_concat _).mpr ⟨hwithin, ?_⟩
        rwa [← Run.after_append]
    · exact .inl (cursor_begins (sound_run es) hbefore hpass)

/-- A turn that completes with its cursor where it started leaves nothing before its cutoff. -/
theorem completes_swept {s : NoiseClock τ} (h : s.Sound owner) {e : Event τ} {user : Nat}
    {cutoff : τ} (hcompletes : s.completes owner iso e = some (user, cutoff)) :
    SweptTo owner (s.step owner iso e) user cutoff ∨
      ∃ p, s.pass = some p ∧ s.getNoiseCursor p.user ≠ p.since := by
  cases e with
  | begins user' now =>
    simp only [completes] at hcompletes
    split at hcompletes
    · rename_i hnow
      obtain ⟨hnone, hhours, hbehind⟩ := hnow
      obtain ⟨rfl, rfl⟩ := Prod.mk.inj (Option.some.inj hcompletes)
      left
      obtain ⟨hrows, hbookmarks, -⟩ := load_rest s
      have hget := getNoiseCursor_load h.hydrated user'
      simp only [step, Option.isNone_iff_eq_none.mp hnone]
      rw [if_neg hhours, if_pos (by rw [hget]; exact hbehind)]
      unfold SweptTo
      rw [hrows, hbookmarks]
      intro r hr htype howner hmark hlt
      exact h.swept user' r hr htype howner hmark (hlt.trans_le hbehind)
    · cases hcompletes
  | batch picked batchRows minBatchRows adapted outOfBudget =>
    simp only [completes] at hcompletes
    split at hcompletes
    · cases hcompletes
    · rename_i p hp
      split at hcompletes
      · rename_i hnow
        obtain ⟨hpicks, hshort⟩ := hnow
        obtain ⟨rfl, rfl⟩ := Prod.mk.inj (Option.some.inj hcompletes)
        by_cases hcursor : s.getNoiseCursor p.user = p.since
        · left
          simp only [step, hp]
          rw [if_pos hpicks, if_pos hshort]
          obtain ⟨-, hswept, hrows, hbookmarks⟩ :=
            sound_advance (sound_delete h picked) (sound_batch h hpicks hshort)
          simp only [hp] at hrows hbookmarks
          unfold SweptTo
          rw [hrows, hbookmarks]
          exact hswept hcursor
        · exact .inr ⟨p, hp, hcursor⟩
      · cases hcompletes
  | insert buffer type time => cases hcompletes
  | setHours user hours => cases hcompletes
  | bookmark user message => cases hcompletes
  | prune ids => cases hcompletes
  | restart => cases hcompletes

theorem noise_clock_skips_nothing_yet (owner : Nat → Option Nat) (iso : Int → τ)
    (es : List (Event τ)) : SkipsNothingYet owner iso es where
  below := (sound_run es).swept
  completed e user cutoff hcompletes := by
    rcases completes_swept (sound_run es) hcompletes with hswept | ⟨p, hpass, hcursor⟩
    · exact .inl hswept
    · rcases cursor_run es p hpass with hsame | hrewound
      · exact absurd hsame hcursor
      · exact .inr ⟨p, hpass, hrewound⟩

/-- A row older than every row left goes in between the two batches of a turn. The turn ends
with its window clear and the row still there. -/
theorem rewound_turn_skips : ¬ SkipsNothing (τ := ℕ) (fun b => some b)
    (fun t => (t + 3600000).toNat)
    [.setHours 1 1, .insert 1 .join 3, .begins 1 5, .batch [1] 2 2 0 false, .insert 1 .join 7,
      .insert 1 .join 8, .begins 1 10, .batch [2] 1 1 0 false, .insert 1 .join 2] := by
  intro h
  have hswept := h.completed (.batch [3] 2 2 0 false) 1 10 (by decide)
  exact hswept ⟨4, 1, .join, 2⟩ (by decide) (by decide) rfl (by decide) (by decide)

end NoiseClock

end Lurker.Db
