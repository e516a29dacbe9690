import Mathlib.Data.List.Chain
import Lurker.Timeline.Consolidate
import Lurker.Timeline.EventFilter

/-!
# Runs of rows folded into summaries

The rows of the message list are walked once. Consecutive rows that fold are held back
as a run, and any other row first lets the run out, as one summary row when it has at
least two rows. What folds into a run and what a page counts are two questions that
must stay in step.
-/
namespace Lurker.Timeline

/-- A row's id: a stored number, or a text for a row made on the client. -/
inductive RowId
  | stored (id : Nat)
  | text (id : String)
  deriving DecidableEq, Repr

structure ConsolidatableMessage where
  id : Option RowId
  type : String
  nick : Option String
  newNick : Option String
  time : String
  modes : Option (List (Option ModeChange))
  deriving DecidableEq, Repr

/-- What is read of a row of the stream, whatever else its type holds. The key is as it is
printed. -/
structure MessageStreamRow where
  m : Option ConsolidatableMessage
  key : String
  deriving DecidableEq, Repr

/-- The verdict on a nick and a mode letter. -/
inductive ModeVerdict
  | modeGranted
  | modeRevoked
  | modeBriefly
  | modeRegranted
  deriving DecidableEq, Repr

/-- A group of a summary: of identities, or of nicks and one member mode. -/
inductive SummaryGroup
  | identities (group : ConsolidationGroup)
  | modes (kind : ModeVerdict) (letter : String) (visible : List Entry) (hidden : Nat)
  deriving DecidableEq, Repr

structure ConsolidationRow where
  groups : List SummaryGroup
  eventCount : Nat
  time : String
  firstId : Option RowId
  lastId : Option RowId
  key : String
  deriving DecidableEq, Repr

/-- `maxNames` is missing or a number; zero counts as missing. -/
structure ConsolidateOptions where
  enabled : Bool
  recentSpeakers : Option (List String)
  maxNames : Option Int

/-- A row of the result. -/
inductive ShownRow (R : Type*)
  | row (r : R)
  | consolidation (c : ConsolidationRow)
  deriving DecidableEq, Repr

/-- Whether a message can sit inside a run. -/
def foldsIntoRun (m : ConsolidatableMessage) : Bool :=
  consolidatableTypes.contains m.type || (m.type == "mode" && isChurnMode m.modes)

section ModeGroups
variable (lower : String → String)

structure ModeState where
  nick : String
  letter : String
  first : Sign
  last : Sign
  seenIndex : Nat

/-- The net effects by nick and letter, and the counter of first appearances. -/
structure ModeWalk where
  net : OrderedMap String ModeState
  seen : Nat

def ModeWalk.start : ModeWalk := ⟨.empty, 0⟩

def ModeWalk.step (w : ModeWalk) (c : ModeChange) : ModeWalk :=
  match c.member? with
  | none => w
  | some nick =>
    let letter := modeLetter c.mode
    if letter = "" then w
    else
      let key := lower nick ++ "\x00" ++ letter
      let sign := modeSign c.mode
      match w.net.get? key with
      | some prev => { w with net := w.net.set key ⟨nick, letter, prev.first, sign, prev.seenIndex⟩ }
      | none => ⟨w.net.set key ⟨nick, letter, sign, sign, w.seen⟩, w.seen + 1⟩

/-- A pair is judged by its first and its last change in the run. -/
def classifyMode : Sign → Sign → ModeVerdict
  | .plus, .plus => .modeGranted
  | .plus, .minus => .modeBriefly
  | .minus, .plus => .modeRegranted
  | .minus, .minus => .modeRevoked

structure ModeBucket where
  kind : ModeVerdict
  letter : String
  entries : List Entry
  seenIndex : Nat

/-- The buckets by verdict and letter. -/
def ModeBucket.file (buckets : OrderedMap (ModeVerdict × String) ModeBucket) (st : ModeState) :
    OrderedMap (ModeVerdict × String) ModeBucket :=
  let kind := classifyMode st.first st.last
  let bucket := (buckets.get? (kind, st.letter)).getD ⟨kind, st.letter, [], st.seenIndex⟩
  buckets.set (kind, st.letter) { bucket with entries := bucket.entries ++ [.nick st.nick] }

def modeGroups (events : List ConsolidatableMessage) (maxNames : Nat)
    (speakersLc : Option (List String)) : List SummaryGroup :=
  let changes := events.flatMap fun e => (e.modes.getD []).filterMap id
  let net := (changes.foldl (ModeWalk.step lower) ModeWalk.start).net
  let states := net.values.insertionSort fun a b => a.seenIndex ≤ b.seenIndex
  let buckets := (states.foldl ModeBucket.file .empty).values
  (buckets.insertionSort fun a b => a.seenIndex ≤ b.seenIndex).map fun bucket =>
    let capped := cap lower bucket.entries maxNames speakersLc
    .modes bucket.kind bucket.letter capped.1 capped.2

end ModeGroups

/-- A presence row as the identity walk reads it. Every row of a run that is not a mode row
has one of the five types. -/
def ConsolidatableMessage.presence (m : ConsolidatableMessage) : Option Event :=
  let nick := m.nick.getD ""
  if m.type = "join" then some (.join nick)
  else if m.type = "part" then some (.part nick)
  else if m.type = "quit" then some (.quit nick)
  else if m.type = "nick" then some (.nick nick (m.newNick.getD ""))
  else if m.type = "chghost" then some (.chghost nick)
  else none

/-- The groups of a run of rows of both kinds: who is here first, then what they were given. -/
def runGroups (lower : String → String) (recentSpeakers : Option (List String)) (maxNames : Int)
    (events : List ConsolidatableMessage) : List SummaryGroup :=
  let speakersLc := recentSpeakers.map (·.map lower)
  let cappedTo := (max 1 (if maxNames = 0 then 5 else maxNames)).toNat
  let modeEvents := events.filter fun e => e.type = "mode"
  let presenceEvents := events.filter fun e => e.type ≠ "mode"
  (consolidateRun lower recentSpeakers maxNames
      (presenceEvents.filterMap ConsolidatableMessage.presence)).map .identities ++
    modeGroups lower modeEvents cappedTo speakersLc

section Rows
variable {R : Type*} (view : R → MessageStreamRow)

/-- A row that is held back in a run. -/
def folds (r : R) : Bool := (view r).m.any foldsIntoRun

variable (lower : String → String) (options : ConsolidateOptions)

/-- What a run comes out as. One with nothing to say comes out as its own rows. -/
def flush (run : List R) : List (ShownRow R) :=
  match run with
  | [] => []
  | [r] => [.row r]
  | first :: rest =>
    let events := run.filterMap fun r => (view r).m
    let groups := runGroups lower options.recentSpeakers (options.maxNames.getD 5) events
    if groups = [] then run.map .row
    else
      [.consolidation
        { groups := groups
          eventCount := events.length
          time := (events.getLast?.map (·.time)).getD ""
          firstId := events.head?.bind (·.id)
          lastId := events.getLast?.bind (·.id)
          key := "cons:" ++ (view first).key ++ "-" ++ (view (rest.getLast?.getD first)).key }]

/-- The rows let out so far, and the run held back. -/
structure FoldState (R : Type*) where
  out : List (ShownRow R)
  run : List R

def FoldState.step (s : FoldState R) (r : R) : FoldState R :=
  if folds view r then { s with run := s.run ++ [r] }
  else ⟨s.out ++ flush view lower options s.run ++ [.row r], []⟩

def consolidateRows (rows : List R) : List (ShownRow R) :=
  if options.enabled then
    let s := rows.foldl (FoldState.step view lower options) ⟨[], []⟩
    s.out ++ flush view lower options s.run
  else rows.map .row

/-- What a stretch of the result stands for: a row as it is, or a run under its summary. -/
inductive Piece (R : Type*)
  | row (r : R)
  | run (rows : List R) (c : ConsolidationRow)

def Piece.rows : Piece R → List R
  | .row r => [r]
  | .run rows _ => rows

def Piece.shown : Piece R → ShownRow R
  | .row r => .row r
  | .run _ c => .consolidation c

/-- A summary states how many rows its run has, and the ids of the first and the last. -/
structure Summarizes (run : List R) (c : ConsolidationRow) : Prop where
  two : 2 ≤ run.length
  count : c.eventCount = run.length
  folded : ∀ r ∈ run, folds view r = true
  first : c.firstId = run.head?.bind fun r => (view r).m.bind (·.id)
  last : c.lastId = run.getLast?.bind fun r => (view r).m.bind (·.id)

/-- The result with every summary replaced by the rows of its run is the list itself, and no
run can be made longer at either end. -/
structure Partitions (rows : List R) (out : List (ShownRow R)) (pieces : List (Piece R)) :
    Prop where
  shown : pieces.map Piece.shown = out
  rows : pieces.flatMap Piece.rows = rows
  runs : ∀ run c, Piece.run run c ∈ pieces → Summarizes view run c
  maximal : ∀ before run c after, pieces = before ++ Piece.run run c :: after →
    (∀ r ∈ (before.flatMap Piece.rows).getLast?, folds view r = false) ∧
      ∀ r ∈ (after.flatMap Piece.rows).head?, folds view r = false

/-- Next to a run stands a row that does not fold. -/
def Borders : Piece R → Piece R → Prop
  | .row r, .run _ _ | .run _ _, .row r => folds view r = false
  | .run _ _, .run _ _ => False
  | .row _, .row _ => True

variable {view lower options}

theorem borders_maximal {pieces : List (Piece R)} (h : pieces.IsChain (Borders view)) :
    ∀ before run c after, pieces = before ++ Piece.run run c :: after →
      (∀ r ∈ (before.flatMap Piece.rows).getLast?, folds view r = false) ∧
        ∀ r ∈ (after.flatMap Piece.rows).head?, folds view r = false := by
  rintro before run c after rfl
  obtain ⟨-, hafter, hbefore⟩ := List.isChain_append.mp h
  constructor
  · intro r hr
    cases hlast : before.getLast? with
    | none => simp [List.getLast?_eq_none_iff.mp hlast] at hr
    | some p =>
      obtain ⟨front, rfl⟩ := List.getLast?_eq_some_iff.mp hlast
      have hborder := hbefore p hlast _ rfl
      cases p with
      | run rows c' => exact hborder.elim
      | row r' =>
        rw [List.flatMap_append, List.flatMap_singleton, Piece.rows, List.getLast?_concat] at hr
        exact Option.some.inj hr ▸ hborder
  · intro r hr
    cases after with
    | nil => simp at hr
    | cons p after =>
      have hborder := (List.isChain_cons_cons.mp hafter).1
      cases p with
      | run rows c' => exact hborder.elim
      | row r' =>
        rw [List.flatMap_cons, Piece.rows, List.singleton_append, List.head?_cons] at hr
        exact Option.some.inj hr ▸ hborder

/-- Rows as they are may stand next to each other. -/
theorem isChain_rows (rows : List R) : (rows.map Piece.row).IsChain (Borders view) :=
  (List.isChain_map _).mpr (List.pairwise_of_forall fun _ _ => trivial).isChain

/-- Every row of a run has its message. -/
theorem filterMap_messages {run : List R} (hrun : ∀ r ∈ run, folds view r = true) :
    (run.filterMap fun r => (view r).m).map some = run.map fun r => (view r).m := by
  induction run with
  | nil => rfl
  | cons r run ih =>
    have ih := ih fun r' hr' => hrun r' (List.mem_cons_of_mem r hr')
    have hfolds := hrun r List.mem_cons_self
    cases hm : (view r).m with
    | none => simp [folds, hm] at hfolds
    | some m =>
      have hcons : (r :: run).filterMap (fun r => (view r).m) =
          m :: run.filterMap fun r => (view r).m := List.filterMap_cons_some hm
      rw [hcons, List.map_cons, List.map_cons, ih, hm]

/-- The pieces a run comes out as. -/
theorem flush_pieces {run : List R} (hrun : ∀ r ∈ run, folds view r = true) :
    flush view lower options run = run.map .row ∨
      ∃ c, flush view lower options run = [.consolidation c] ∧ Summarizes view run c := by
  match run with
  | [] | [_] => exact Or.inl rfl
  | first :: second :: rest =>
    have hmessages := filterMap_messages hrun
    unfold flush
    dsimp only
    split
    · exact Or.inl rfl
    · have hid (found : Option ConsolidatableMessage) :
          found.bind (·.id) = (found.map some).bind fun m => m.bind (·.id) := by
        rw [Option.bind_map]
        rfl
      refine Or.inr ⟨_, rfl, by simp, ?_, hrun, ?_, ?_⟩
      · simpa using congrArg List.length hmessages
      · dsimp only
        rw [hid, ← List.head?_map, hmessages, List.head?_map, Option.bind_map]
        rfl
      · dsimp only
        rw [hid, ← List.getLast?_map, hmessages, List.getLast?_map, Option.bind_map]
        rfl

variable (view) in
/-- Pieces that stand for some rows. -/
structure Pieced (rows : List R) (out : List (ShownRow R)) (pieces : List (Piece R)) : Prop where
  shown : pieces.map Piece.shown = out
  rows : pieces.flatMap Piece.rows = rows
  runs : ∀ run c, Piece.run run c ∈ pieces → Summarizes view run c
  chain : pieces.IsChain (Borders view)

variable (view) in
/-- The rows walked so far: pieces that end in a row that does not fold, and the run held back. -/
structure Walked (rows : List R) (s : FoldState R) (pieces : List (Piece R)) : Prop where
  gone : ∃ gone, Pieced view gone s.out pieces ∧ gone ++ s.run = rows
  ends : ∀ p ∈ pieces.getLast?, ∃ r, p = .row r ∧ folds view r = false
  held : ∀ r ∈ s.run, folds view r = true

/-- A row that does not fold goes after any piece. -/
theorem Pieced.row {rows : List R} {out : List (ShownRow R)} {pieces : List (Piece R)}
    (h : Pieced view rows out pieces) {r : R} (hr : folds view r = false) :
    Pieced view (rows ++ [r]) (out ++ [.row r]) (pieces ++ [.row r]) where
  shown := by rw [List.map_append, h.shown]; rfl
  rows := by rw [List.flatMap_append, h.rows]; rfl
  runs run c hmem := by
    rcases List.mem_append.mp hmem with hmem | hmem
    · exact h.runs run c hmem
    · cases List.mem_singleton.mp hmem
  chain := by
    refine List.isChain_append.mpr ⟨h.chain, List.isChain_singleton _, ?_⟩
    intro p _ q hq
    obtain rfl := Option.some.inj hq
    cases p with
    | row r' => trivial
    | run rows c => exact hr

/-- Letting out the run held back. -/
theorem Walked.flush {rows : List R} {s : FoldState R} {pieces : List (Piece R)}
    (h : Walked view rows s pieces) :
    ∃ pieces, Pieced view rows (s.out ++ flush view lower options s.run) pieces := by
  obtain ⟨⟨gone, hpieced, rfl⟩, hends, hheld⟩ := h
  rcases flush_pieces hheld with hflush | ⟨c, hflush, hsum⟩
  · refine ⟨pieces ++ s.run.map .row, ?_, ?_, ?_, ?_⟩
    · rw [List.map_append, hpieced.shown, List.map_map, hflush]
      rfl
    · rw [List.flatMap_append, hpieced.rows, List.flatMap_map]
      simp [Piece.rows]
    · intro run c hmem
      rcases List.mem_append.mp hmem with hmem | hmem
      · exact hpieced.runs run c hmem
      · obtain ⟨r, -, hr⟩ := List.mem_map.mp hmem
        cases hr
    · refine List.isChain_append.mpr ⟨hpieced.chain, ?_, ?_⟩
      · exact isChain_rows s.run
      · intro p hp q hq
        obtain ⟨r, rfl, hr⟩ := hends p hp
        obtain ⟨r', -, rfl⟩ := List.mem_map.mp (List.mem_of_mem_head? hq)
        trivial
  · refine ⟨pieces ++ [.run s.run c], ?_, ?_, ?_, ?_⟩
    · rw [List.map_append, hpieced.shown, hflush]
      rfl
    · rw [List.flatMap_append, hpieced.rows]
      simp [Piece.rows]
    · intro run c' hmem
      rcases List.mem_append.mp hmem with hmem | hmem
      · exact hpieced.runs run c' hmem
      · cases List.mem_singleton.mp hmem
        exact hsum
    · refine List.isChain_append.mpr ⟨hpieced.chain, List.isChain_singleton _, ?_⟩
      intro p hp q hq
      obtain ⟨r, rfl, hr⟩ := hends p hp
      obtain rfl := Option.some.inj hq
      exact hr

theorem Walked.step {rows : List R} {s : FoldState R} {pieces : List (Piece R)}
    (h : Walked view rows s pieces) (r : R) :
    ∃ pieces, Walked view (rows ++ [r]) (s.step view lower options r) pieces := by
  unfold FoldState.step
  split
  · rename_i hr
    obtain ⟨⟨gone, hpieced, rfl⟩, hends, hheld⟩ := h
    refine ⟨pieces, ⟨gone, hpieced, (List.append_assoc ..).symm⟩, hends, fun r' hr' => ?_⟩
    rcases List.mem_append.mp hr' with hr' | hr'
    · exact hheld r' hr'
    · exact List.mem_singleton.mp hr' ▸ hr
  · rename_i hr
    have hr : folds view r = false := Bool.eq_false_iff.mpr hr
    obtain ⟨pieces', hpieced⟩ := @Walked.flush _ _ lower options _ _ _ h
    refine ⟨pieces' ++ [.row r], ⟨rows ++ [r], hpieced.row hr, List.append_nil _⟩, ?_, by simp⟩
    intro p hp
    rw [List.getLast?_concat] at hp
    exact ⟨r, (Option.some.inj hp).symm, hr⟩

theorem walked_foldl (rows : List R) : ∃ pieces,
    Walked view rows (rows.foldl (FoldState.step view lower options) ⟨[], []⟩) pieces := by
  induction rows using List.reverseRecOn with
  | nil =>
    refine ⟨[], ⟨[], ⟨rfl, rfl, fun run c hmem => ?_, List.isChain_nil⟩, rfl⟩, ?_, ?_⟩ <;> simp at *
  | append_singleton rows r ih =>
    obtain ⟨pieces, h⟩ := ih
    rw [List.foldl_concat]
    exact h.step r

/-- A row of the stream that a page of rows to draw counts. -/
def counts (view : R → MessageStreamRow) (r : R) : Bool :=
  (view r).m.any fun m => countsTowardPage ⟨m.type, m.modes⟩ .renderable

/-- What folds is not counted. -/
theorem counts_eq_false {r : R} (h : folds view r = true) : counts view r = false := by
  unfold counts
  cases hm : (view r).m with
  | none => rfl
  | some m =>
    have hfold : foldsIntoRun m = true := by simpa only [folds, hm, Option.any_some] using h
    unfold foldsIntoRun at hfold
    show (!_ && !_) = false
    rw [← Bool.not_or, hfold, Bool.not_true]

theorem length_counted_le {pieces : List (Piece R)}
    (hruns : ∀ run c, Piece.run run c ∈ pieces → Summarizes view run c) :
    ((pieces.flatMap Piece.rows).filter (counts view)).length ≤ pieces.length := by
  induction pieces with
  | nil => simp
  | cons p pieces ih =>
    have ih := ih fun run c hmem => hruns run c (List.mem_cons_of_mem _ hmem)
    have hpiece : (p.rows.filter (counts view)).length ≤ 1 := by
      cases p with
      | row r => exact List.length_filter_le _ _
      | run rows c =>
        have hnone : rows.filter (counts view) = [] := List.filter_eq_nil_iff.mpr fun r hr =>
          Bool.eq_false_iff.mp (counts_eq_false ((hruns rows c List.mem_cons_self).folded r hr))
        simp [Piece.rows, hnone]
    rw [List.flatMap_cons, List.filter_append, List.length_append, List.length_cons]
    omega

theorem Pieced.partitions {rows : List R} {out : List (ShownRow R)} {pieces : List (Piece R)}
    (h : Pieced view rows out pieces) : Partitions view rows out pieces :=
  ⟨h.shown, h.rows, h.runs, borders_maximal h.chain⟩

/-- The list in pieces, whether or not it is consolidated. -/
theorem exists_pieces (rows : List R) :
    ∃ pieces, Pieced view rows (consolidateRows view lower options rows) pieces := by
  unfold consolidateRows
  split
  · obtain ⟨pieces, h⟩ := @walked_foldl _ view lower options rows
    exact h.flush
  · refine ⟨rows.map .row, ?_, ?_, fun run c hmem => ?_, ?_⟩
    · rw [List.map_map]
      rfl
    · rw [List.flatMap_map]
      simp [Piece.rows]
    · obtain ⟨r, -, hr⟩ := List.mem_map.mp hmem
      cases hr
    · exact isChain_rows rows

/-- Consolidation cuts the list into rows and maximal runs of two rows or more, and shows at
least as many rows as a page sized for drawing counts. -/
theorem consolidation_partitions (view : R → MessageStreamRow) (lower : String → String)
    (options : ConsolidateOptions) (rows : List R) :
    (∃ pieces, Partitions view rows (consolidateRows view lower options rows) pieces) ∧
      (rows.filter (counts view)).length ≤ (consolidateRows view lower options rows).length := by
  obtain ⟨pieces, h⟩ := @exists_pieces _ view lower options rows
  refine ⟨⟨pieces, h.partitions⟩, ?_⟩
  have hle := length_counted_le h.runs
  rwa [h.rows, ← List.length_map Piece.shown, h.shown] at hle

end Rows

end Lurker.Timeline
