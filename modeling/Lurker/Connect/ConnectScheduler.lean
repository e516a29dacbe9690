import Lurker.Lib.Run
import Mathlib.Algebra.Order.Floor.Defs
import Mathlib.Algebra.Order.Field.Rat
import Mathlib.Data.Rat.Floor
import Mathlib.Logic.Function.Basic

/-!
# The connect scheduler

Launches to one host, and launches altogether, are kept apart: each pushes its host's gate and
the global one into the future, and a task waits in the queue until both are behind. One timer
wakes the queue at the soonest instant at which some task may go. A task runs inside the pump
that launches it, and may schedule more or reset the scheduler; the timer is armed anew when it
comes back.
-/

namespace Lurker.Connect

/-- An enabled scheduler's settings, in milliseconds. -/
structure ThrottleOptions where
  perHostMs : ℚ
  jitterMs : ℚ
  globalMs : ℚ
  perHost_nonneg : 0 ≤ perHostMs
  jitter_nonneg : 0 ≤ jitterMs
  global_nonneg : 0 ≤ globalMs

/-- A value of the jitter source. -/
abbrev Draw := {r : ℚ // 0 ≤ r ∧ r < 1}

/-- A queued connect, by the number of its `schedule`. -/
structure Task (Key : Type*) where
  id : Nat
  hostKey : Key
  deriving DecidableEq

/-- A timer the environment has armed. -/
structure Armed where
  handle : Nat
  due : ℚ
  deriving DecidableEq

/-- What has happened, for the results to speak about. -/
inductive SchedulerNote (Key : Type*) where
  /-- A task's `run` was called, after so many resets. -/
  | launched (task : Task Key) (time : ℚ) (resets : Nat)
  deriving DecidableEq

structure ConnectScheduler (Key : Type*) where
  queue : List (Task Key) := []
  /-- Earliest instant a launch to this host is allowed. -/
  hostNextAt : Key → Option ℚ := fun _ => none
  /-- Earliest instant any launch is allowed. -/
  globalNextAt : ℚ := 0
  timer : Option Nat := none
  /-- A task's `run` is in progress. -/
  launching : Bool := false
  nextId : Nat := 0
  /-- The clock, as last read. -/
  now : ℚ := 0
  /-- The timers that are armed, and the next handle. -/
  armed : List Armed := []
  nextHandle : Nat := 0
  /-- The resets so far, and the number of the first task since. -/
  resets : Nat := 0
  firstId : Nat := 0
  log : List (SchedulerNote Key) := []

namespace ConnectScheduler

variable {Key : Type*} [DecidableEq Key] (o : ThrottleOptions)

/-- Read the clock, which does not go back. -/
def read (s : ConnectScheduler Key) (time : ℚ) : ConnectScheduler Key :=
  { s with now := max s.now time }

/-- The earliest instant at which a task may launch. -/
def at_ (s : ConnectScheduler Key) (task : Task Key) : ℚ :=
  max s.globalNextAt ((s.hostNextAt task.hostKey).getD 0)

def clearTimer (s : ConnectScheduler Key) : ConnectScheduler Key :=
  match s.timer with
  | none => s
  | some h => { s with timer := none, armed := s.armed.filter (·.handle ≠ h) }

/-- The loop over the queue for the soonest instant, up to the first that is behind. -/
def soonestFrom (s : ConnectScheduler Key) : Option ℚ → List (Task Key) → Option ℚ
  | soonest, [] => soonest
  | soonest, task :: rest =>
    let soonest := match soonest with
      | none => s.at_ task
      | some t => if s.at_ task < t then s.at_ task else t
    if soonest ≤ s.now then some soonest else soonestFrom s (some soonest) rest

/-- Arm the one timer anew, for the soonest moment any queued task can launch. -/
def schedulePump (s : ConnectScheduler Key) (time : ℚ) : ConnectScheduler Key :=
  let s := s.clearTimer
  if s.queue = [] then s
  else
    let s := s.read time
    match s.soonestFrom none s.queue with
    | none => s
    | some soonest =>
      let delay := max 0 (soonest - s.now)
      { s with
        timer := some s.nextHandle
        armed := s.armed ++ [⟨s.nextHandle, s.now + delay⟩]
        nextHandle := s.nextHandle + 1 }

def schedule (s : ConnectScheduler Key) (hostKey : Key) (time : ℚ) : ConnectScheduler Key :=
  schedulePump { s with queue := s.queue ++ [⟨s.nextId, hostKey⟩], nextId := s.nextId + 1 } time

/-- Drop everything pending and cancel the timer. -/
def reset (s : ConnectScheduler Key) : ConnectScheduler Key :=
  clearTimer { s with
    queue := []
    hostNextAt := fun _ => none
    globalNextAt := 0
    resets := s.resets + 1
    firstId := s.nextId }

/-- Push both gates, and hand control to the task. -/
def launch (s : ConnectScheduler Key) (task : Task Key) (draw : Draw) : ConnectScheduler Key :=
  let jitter : ℚ := if 0 < o.jitterMs then ⌊draw.val * o.jitterMs⌋ else 0
  { s with
    hostNextAt := Function.update s.hostNextAt task.hostKey (some (s.now + o.perHostMs + jitter))
    globalNextAt := s.now + o.globalMs
    launching := true
    log := s.log ++ [.launched task s.now s.resets] }

/-- Launch the earliest task that may go; where there is one the timer is armed when it returns. -/
def pump (s : ConnectScheduler Key) (time later : ℚ) (draw : Draw) : ConnectScheduler Key :=
  let s := { s with timer := none }
  if s.queue = [] then s
  else
    let s := s.read time
    match s.queue.find? fun task => s.at_ task ≤ s.now with
    | some task => launch o { s with queue := s.queue.erase task } task draw
    | none => s.schedulePump later

end ConnectScheduler

inductive SchedulerEvent (Host : Type*) where
  /-- A call, from outside or from the task in progress, with the clock it reads. -/
  | schedule (host : Host) (time : ℚ)
  | reset
  /-- A timer fires, early or late; the clock is read again where nothing launches. -/
  | fire (handle : Nat) (time later : ℚ) (draw : Draw)
  /-- The task in progress returns or throws. -/
  | ends (time : ℚ)
  /-- Time passes. -/
  | clock (time : ℚ)

namespace ConnectScheduler

variable {Host Key : Type*} (o : ThrottleOptions)

-- a host's key: trimmed, and in lower case
variable (hostKey : Host → Key)

def step [DecidableEq Key] (s : ConnectScheduler Key) : SchedulerEvent Host → ConnectScheduler Key
  | .schedule host time => s.schedule (hostKey host) time
  | .reset => s.reset
  | .fire handle time later draw =>
    if s.launching = false ∧ handle ∈ s.armed.map (·.handle) then
      pump o { s with armed := s.armed.filter (·.handle ≠ handle) } time later draw
    else s
  | .ends time => if s.launching then schedulePump { s with launching := false } time else s
  | .clock time => s.read time

/-- Two launches, the second after the first. -/
def Spaced (o : ThrottleOptions) (a b : SchedulerNote Key) : Prop :=
  match a, b with
  | .launched task time resets, .launched task' time' resets' => resets = resets' →
      time + o.globalMs ≤ time' ∧ (task.hostKey = task'.hostKey → time + o.perHostMs ≤ time')

/-- Both gates are ahead of every launch since the last reset. -/
structure Gated (s : ConnectScheduler Key) : Prop where
  resets : ∀ task time n, .launched task time n ∈ s.log → n ≤ s.resets
  global : ∀ task time, .launched task time s.resets ∈ s.log → time + o.globalMs ≤ s.globalNextAt
  host : ∀ task time, .launched task time s.resets ∈ s.log →
    ∃ next, s.hostNextAt task.hostKey = some next ∧ time + o.perHostMs ≤ next
  spaced : s.log.Pairwise (Spaced o)

variable {o} {s t : ConnectScheduler Key}

/-- The gates and the log are the same. -/
theorem Gated.same (h : Gated o s) (hlog : t.log = s.log) (hresets : t.resets = s.resets)
    (hglobal : t.globalNextAt = s.globalNextAt) (hhost : t.hostNextAt = s.hostNextAt) :
    Gated o t := by
  refine ⟨?_, ?_, ?_, ?_⟩
  · rw [hlog, hresets]
    exact h.resets
  · rw [hlog, hresets, hglobal]
    exact h.global
  · rw [hlog, hresets, hhost]
    exact h.host
  · rw [hlog]
    exact h.spaced

theorem Gated.reset (h : Gated o s) (hlog : t.log = s.log) (hresets : t.resets = s.resets + 1) :
    Gated o t := by
  have hnone (task : Task Key) (time : ℚ) : .launched task time t.resets ∉ t.log := by
    rw [hlog, hresets]
    intro hin
    have := h.resets task time _ hin
    omega
  refine ⟨fun task time n hin => ?_, fun task time hin => absurd hin (hnone task time),
    fun task time hin => absurd hin (hnone task time), hlog ▸ h.spaced⟩
  rw [hlog] at hin
  have := h.resets task time n hin
  omega

theorem jitter_nonneg (o : ThrottleOptions) (draw : Draw) :
    (0 : ℚ) ≤ if 0 < o.jitterMs then (⌊draw.val * o.jitterMs⌋ : ℚ) else 0 := by
  split
  · exact_mod_cast Int.floor_nonneg.mpr (mul_nonneg draw.property.1 o.jitter_nonneg)
  · exact le_rfl

/-- A launch past both gates pushes them on. -/
theorem Gated.launch [DecidableEq Key] (h : Gated o s) {task : Task Key}
    (hat : s.at_ task ≤ s.now) (draw : Draw) : Gated o (s.launch o task draw) := by
  have hglobal := (le_max_left _ _).trans hat
  have hhost := (le_max_right _ _).trans hat
  have hjitter := jitter_nonneg o draw
  have hgate := o.perHost_nonneg
  have hfloor := o.global_nonneg
  refine ⟨fun task' time n hin => ?_, fun task' time hin => ?_, fun task' time hin => ?_, ?_⟩
  · obtain hin | hin := List.mem_append.mp hin
    · exact h.resets task' time n hin
    · cases List.mem_singleton.mp hin
      exact Nat.le_refl _
  · obtain hin | hin := List.mem_append.mp hin
    · have hold := h.global task' time hin
      show time + o.globalMs ≤ s.now + o.globalMs
      linarith
    · cases List.mem_singleton.mp hin
      exact le_rfl
  · show ∃ next, Function.update s.hostNextAt task.hostKey _ task'.hostKey = some next ∧ _
    obtain hin | hin := List.mem_append.mp hin
    · obtain ⟨next, hnext, hold⟩ := h.host task' time hin
      by_cases hkey : task'.hostKey = task.hostKey
      · rw [hkey] at hnext
        rw [hnext, Option.getD_some] at hhost
        refine ⟨_, by rw [hkey, Function.update_self], ?_⟩
        linarith
      · exact ⟨next, by rw [Function.update_of_ne hkey, hnext], hold⟩
    · cases List.mem_singleton.mp hin
      exact ⟨_, Function.update_self .., by linarith⟩
  · refine List.pairwise_append.mpr ⟨h.spaced, List.pairwise_singleton _ _, fun a ha b hb => ?_⟩
    obtain rfl := List.mem_singleton.mp hb
    obtain ⟨task', time, n⟩ := a
    rintro rfl
    refine ⟨(h.global task' time ha).trans hglobal, fun hkey => ?_⟩
    obtain ⟨next, hnext, hold⟩ := h.host task' time ha
    rw [hkey] at hnext
    rw [hnext, Option.getD_some] at hhost
    exact hold.trans hhost

/-- The tasks that were launched, in order. -/
def launchedTasks (log : List (SchedulerNote Key)) : List (Task Key) :=
  log.map fun | .launched task _ _ => task

/-- Two tasks scheduled apart, for one host in this order. -/
def Earlier (a b : Task Key) : Prop :=
  a.id ≠ b.id ∧ (a.hostKey = b.hostKey → a.id < b.id)

/-- The launched tasks, then the queued ones. -/
structure Ordered (s : ConnectScheduler Key) : Prop where
  below : ∀ task ∈ launchedTasks s.log ++ s.queue, task.id < s.nextId
  earlier : (launchedTasks s.log ++ s.queue).Pairwise Earlier
  kept : ∀ id, s.firstId ≤ id → id < s.nextId →
    id ∈ (launchedTasks s.log ++ s.queue).map (·.id)

theorem Ordered.same (h : Ordered s) (hlog : t.log = s.log) (hqueue : t.queue = s.queue)
    (hnext : t.nextId = s.nextId) (hfirst : t.firstId = s.firstId) : Ordered t := by
  refine ⟨?_, ?_, ?_⟩
  · rw [hlog, hqueue, hnext]
    exact h.below
  · rw [hlog, hqueue]
    exact h.earlier
  · rw [hlog, hqueue, hnext, hfirst]
    exact h.kept

theorem Ordered.reset (h : Ordered s) (hlog : t.log = s.log) (hqueue : t.queue = [])
    (hnext : t.nextId = s.nextId) (hfirst : t.firstId = s.nextId) : Ordered t := by
  have hsub : (launchedTasks t.log ++ t.queue).Sublist (launchedTasks s.log ++ s.queue) := by
    rw [hlog, hqueue]
    exact (List.nil_sublist _).append_left _
  exact ⟨fun task hin => hnext ▸ h.below task (hsub.subset hin), h.earlier.sublist hsub,
    fun id hge hlt => by omega⟩

/-- A new task goes to the end of the queue, under the next number. -/
theorem Ordered.push (h : Ordered s) (key : Key) :
    Ordered { s with queue := s.queue ++ [⟨s.nextId, key⟩], nextId := s.nextId + 1 } := by
  refine ⟨fun task hin => ?_, ?_, fun id hge hlt => ?_⟩
  · dsimp only at hin ⊢
    rw [← List.append_assoc] at hin
    obtain hin | hin := List.mem_append.mp hin
    · exact Nat.lt_succ_of_lt (h.below task hin)
    · cases List.mem_singleton.mp hin
      exact Nat.lt_succ_self _
  · dsimp only
    rw [← List.append_assoc]
    refine List.pairwise_append.mpr ⟨h.earlier, List.pairwise_singleton _ _, fun a ha b hb => ?_⟩
    obtain rfl := List.mem_singleton.mp hb
    have := h.below a ha
    exact ⟨this.ne, fun _ => this⟩
  · dsimp only at hge hlt ⊢
    rw [← List.append_assoc, List.map_append, List.mem_append]
    obtain hlt | rfl := Nat.lt_succ_iff_lt_or_eq.mp hlt
    · exact Or.inl (h.kept id hge hlt)
    · exact Or.inr List.mem_cons_self

/-- The first task that may go moves from the queue to the end of the log: a task before it in
the queue waits for another host. -/
theorem Ordered.launch [DecidableEq Key] (h : Ordered s) {task : Task Key}
    (hpick : s.queue.find? (fun task => s.at_ task ≤ s.now) = some task) (draw : Draw) :
    Ordered (launch o { s with queue := s.queue.erase task } task draw) := by
  obtain ⟨hgo, before, rest, hqueue, hwait⟩ := List.find?_eq_some_iff_append.mp hpick
  have herase : s.queue.erase task = before ++ rest := by
    rw [hqueue, List.erase_append_right _ fun hin => ?_, List.erase_cons_head]
    simpa [hgo] using hwait task hin
  have hlaunched : launchedTasks (s.log ++ [.launched task s.now s.resets]) =
      launchedTasks s.log ++ [task] := List.map_append
  have hperm : (launchedTasks s.log ++ [task] ++ (before ++ rest)).Perm
      (launchedTasks s.log ++ s.queue) := by
    rw [hqueue, List.append_assoc, List.singleton_append]
    exact List.Perm.append_left _ List.perm_middle.symm
  refine ⟨fun task' hin => ?_, ?_, fun id hge hlt => ?_⟩
  · change task' ∈ launchedTasks (s.log ++ _) ++ s.queue.erase task at hin
    rw [hlaunched, herase] at hin
    exact h.below task' (hperm.subset hin)
  · change (launchedTasks (s.log ++ _) ++ s.queue.erase task).Pairwise Earlier
    rw [hlaunched, herase, List.append_assoc, List.singleton_append]
    obtain ⟨hold, hin, hacross⟩ := List.pairwise_append.mp (hqueue ▸ h.earlier)
    obtain ⟨hbefore, hrest, hmiddle⟩ := List.pairwise_append.mp hin
    obtain ⟨hnext, htail⟩ := List.pairwise_cons.mp hrest
    refine List.pairwise_append.mpr ⟨hold, List.pairwise_cons.mpr ⟨fun b hb => ?_, ?_⟩, ?_⟩
    · obtain hb | hb := List.mem_append.mp hb
      · refine ⟨(hmiddle b hb task List.mem_cons_self).1.symm, fun hkey => ?_⟩
        have hat : s.at_ b = s.at_ task := by unfold ConnectScheduler.at_; rw [hkey]
        simpa [hat, hgo] using hwait b hb
      · exact hnext b hb
    · exact List.pairwise_append.mpr ⟨hbefore, htail, fun a ha b hb =>
        hmiddle a ha b (List.mem_cons_of_mem _ hb)⟩
    · intro a ha b hb
      refine hacross a ha b ?_
      simp only [List.mem_append, List.mem_cons] at hb ⊢
      tauto
  · change id ∈ (launchedTasks (s.log ++ _) ++ s.queue.erase task).map Task.id
    rw [hlaunched, herase]
    exact (hperm.map _).symm.subset (h.kept id hge hlt)

/-- The timer the scheduler holds is the only one armed. -/
def OneTimer (s : ConnectScheduler Key) : Prop := s.armed.map (·.handle) = s.timer.toList

/-- A queue that waits is woken no later than its soonest task may go. -/
def Woken (s : ConnectScheduler Key) : Prop :=
  s.queue ≠ [] → ∃ timer, s.armed = [timer] ∧ ∀ task ∈ s.queue, timer.due ≤ max s.now (s.at_ task)

section Soonest

variable {s : ConnectScheduler Key} {soonest : Option ℚ} {task : Task Key} {tasks : List (Task Key)}

/-- One turn of the loop: the lesser instant, which ends it when it is behind. -/
theorem soonestFrom_cons :
    s.soonestFrom soonest (task :: tasks) =
      (let next := soonest.elim (s.at_ task) (min (s.at_ task))
      if next ≤ s.now then some next else s.soonestFrom (some next) tasks) := by
  cases soonest with
  | none => rfl
  | some t =>
    have hmin : (if s.at_ task < t then s.at_ task else t) = min (s.at_ task) t := by grind
    rw [soonestFrom]
    dsimp only [Option.elim_some]
    rw [hmin]

theorem soonestFrom_le {t : ℚ} (h : s.soonestFrom soonest tasks = some t) :
    (∀ u ∈ soonest, t ≤ u) ∧ ∀ task ∈ tasks, t ≤ max s.now (s.at_ task) := by
  induction tasks generalizing soonest with
  | nil => exact ⟨fun u hu => (Option.some.inj (h.symm.trans hu)).le, fun task hin => by cases hin⟩
  | cons task rest ih =>
    rw [soonestFrom_cons] at h
    have hat : soonest.elim (s.at_ task) (min (s.at_ task)) ≤ s.at_ task := by
      cases soonest with
      | none => exact le_rfl
      | some t => exact min_le_left _ _
    have hold : ∀ u ∈ soonest, soonest.elim (s.at_ task) (min (s.at_ task)) ≤ u := by
      rintro u rfl
      exact min_le_right _ _
    dsimp only at h
    split at h
    · next hnow =>
      obtain rfl := Option.some.inj h
      exact ⟨hold, fun task' _ => hnow.trans (le_max_left _ _)⟩
    · obtain ⟨hle, hrest⟩ := ih h
      have hle := hle _ rfl
      refine ⟨fun u hu => hle.trans (hold u hu), fun task' hin => ?_⟩
      obtain rfl | hin := List.mem_cons.mp hin
      · exact (hle.trans hat).trans (le_max_right _ _)
      · exact hrest task' hin

theorem soonestFrom_isSome (h : soonest.isSome ∨ tasks ≠ []) :
    (s.soonestFrom soonest tasks).isSome := by
  induction tasks generalizing soonest with
  | nil => exact h.resolve_right (by simp)
  | cons task rest ih =>
    rw [soonestFrom_cons]
    dsimp only
    split
    · rfl
    · exact ih (Or.inl rfl)

end Soonest

/-- No timer is armed beside the one. -/
theorem OneTimer.others (h : OneTimer s) {handle : Nat} (htimer : s.timer = some handle) :
    s.armed.filter (·.handle ≠ handle) = [] := by
  refine List.filter_eq_nil_iff.mpr fun timer hin => ?_
  have hheld : timer.handle ∈ s.armed.map (·.handle) := List.mem_map_of_mem hin
  rw [h, htimer] at hheld
  simpa using hheld

/-- Clearing the timer leaves none armed, and touches nothing else. -/
theorem OneTimer.clearTimer (h : OneTimer s) :
    s.clearTimer = { s with timer := none, armed := [] } := by
  unfold ConnectScheduler.clearTimer
  cases htimer : s.timer with
  | none =>
    rw [OneTimer, htimer] at h
    have harmed := List.map_eq_nil_iff.mp h
    cases s
    simp_all
  | some handle => simp only [h.others htimer]

/-- However the one timer stood, it is armed for the queue that waits. -/
theorem OneTimer.schedulePump (h : OneTimer s) (time : ℚ) :
    OneTimer (s.schedulePump time) ∧ Woken (s.schedulePump time) := by
  unfold ConnectScheduler.schedulePump
  rw [h.clearTimer]
  dsimp only
  split
  · next hqueue => exact ⟨rfl, fun hne => absurd hqueue hne⟩
  · next hqueue =>
    set waiting := read { s with timer := none, armed := [] } time with hwaiting
    obtain ⟨soonest, hsoonest⟩ := Option.isSome_iff_exists.mp
      (soonestFrom_isSome (s := waiting) (Or.inr hqueue : none.isSome ∨ s.queue ≠ []))
    have hle := (soonestFrom_le hsoonest).2
    rw [show waiting.queue = s.queue from rfl, hsoonest]
    refine ⟨rfl, fun _ => ⟨_, rfl, fun task hin => ?_⟩⟩
    have hle := hle task hin
    change waiting.now + max 0 (soonest - waiting.now) ≤ max waiting.now (waiting.at_ task)
    grind

/-- The gates, the order and the timer, of a scheduler at rest or within a launch. -/
structure Sound (o : ThrottleOptions) (s : ConnectScheduler Key) : Prop where
  gated : Gated o s
  ordered : Ordered s
  timer : OneTimer s
  woken : s.launching = false → Woken s

/-- Arming the timer keeps the gates, the log and the queue. -/
theorem schedulePump_same (s : ConnectScheduler Key) (time : ℚ) :
    (s.schedulePump time).log = s.log ∧ (s.schedulePump time).resets = s.resets ∧
      (s.schedulePump time).globalNextAt = s.globalNextAt ∧
      (s.schedulePump time).hostNextAt = s.hostNextAt ∧
      (s.schedulePump time).queue = s.queue ∧ (s.schedulePump time).nextId = s.nextId ∧
      (s.schedulePump time).firstId = s.firstId := by
  have hclear : s.clearTimer.log = s.log ∧ s.clearTimer.resets = s.resets ∧
      s.clearTimer.globalNextAt = s.globalNextAt ∧ s.clearTimer.hostNextAt = s.hostNextAt ∧
      s.clearTimer.queue = s.queue ∧ s.clearTimer.nextId = s.nextId ∧
      s.clearTimer.firstId = s.firstId := by
    unfold ConnectScheduler.clearTimer
    split <;> exact ⟨rfl, rfl, rfl, rfl, rfl, rfl, rfl⟩
  unfold ConnectScheduler.schedulePump
  dsimp only
  split
  · exact hclear
  · split <;> exact hclear

theorem Sound.schedulePump (hgated : Gated o s) (hordered : Ordered s) (htimer : OneTimer s)
    (time : ℚ) : Sound o (s.schedulePump time) := by
  obtain ⟨hlog, hresets, hglobal, hhost, hqueue, hnext, hfirst⟩ := schedulePump_same s time
  obtain ⟨hone, hwoken⟩ := htimer.schedulePump time
  exact ⟨hgated.same hlog hresets hglobal hhost, hordered.same hlog hqueue hnext hfirst, hone,
    fun _ => hwoken⟩

theorem Sound.schedule (h : Sound o s) (key : Key) (time : ℚ) : Sound o (s.schedule key time) := by
  unfold ConnectScheduler.schedule
  refine .schedulePump ?_ (h.ordered.push key) h.timer time
  exact h.gated.same rfl rfl rfl rfl

theorem Sound.reset (h : Sound o s) : Sound o s.reset := by
  unfold ConnectScheduler.reset
  have htimer : OneTimer { s with
    queue := [], hostNextAt := fun _ => none, globalNextAt := 0, resets := s.resets + 1
    firstId := s.nextId } := h.timer
  rw [htimer.clearTimer]
  exact ⟨h.gated.reset rfl rfl, h.ordered.reset rfl rfl rfl rfl, rfl,
    fun _ hne => absurd rfl hne⟩

theorem Sound.read (h : Sound o s) (time : ℚ) : Sound o (s.read time) := by
  refine ⟨h.gated.same rfl rfl rfl rfl, h.ordered.same rfl rfl rfl rfl, h.timer, ?_⟩
  intro hidle hne
  obtain ⟨timer, harmed, hdue⟩ := h.woken hidle hne
  exact ⟨timer, harmed, fun task hin =>
    (hdue task hin).trans (max_le_max (le_max_left _ _) le_rfl)⟩

/-- The timer that fires was the only one. -/
theorem Sound.pump [DecidableEq Key] (h : Sound o s) {handle : Nat}
    (hfires : handle ∈ s.armed.map (·.handle)) (time later : ℚ) (draw : Draw) :
    Sound o (pump o { s with armed := s.armed.filter (·.handle ≠ handle) } time later draw) := by
  have htimer : s.timer = some handle := by
    rw [h.timer] at hfires
    exact Option.mem_toList.mp hfires
  rw [h.timer.others htimer]
  unfold ConnectScheduler.pump
  dsimp only
  split
  · next hqueue =>
    exact ⟨h.gated.same rfl rfl rfl rfl, h.ordered.same rfl rfl rfl rfl, rfl,
      fun _ hne => absurd hqueue hne⟩
  · set woke := ConnectScheduler.read { s with timer := none, armed := [] } time
    have hgated : Gated o woke := h.gated.same rfl rfl rfl rfl
    have hordered : Ordered woke := h.ordered.same rfl rfl rfl rfl
    split
    · next task hpick =>
      have hat : woke.at_ task ≤ woke.now := by simpa using List.find?_some hpick
      have herased : Gated o { woke with queue := woke.queue.erase task } :=
        hgated.same rfl rfl rfl rfl
      refine ⟨herased.launch hat draw, hordered.launch hpick draw, rfl, ?_⟩
      intro hidle
      cases hidle
    · exact .schedulePump hgated hordered rfl later

theorem Sound.step [DecidableEq Key] (h : Sound o s) (e : SchedulerEvent Host) :
    Sound o (s.step o hostKey e) := by
  cases e with
  | schedule host time => exact h.schedule (hostKey host) time
  | reset => exact h.reset
  | fire handle time later draw =>
    show Sound o (if _ then _ else _)
    split
    · next hfires => exact h.pump hfires.2 time later draw
    · exact h
  | ends time =>
    show Sound o (if _ then _ else _)
    split
    · have htimer : OneTimer { s with launching := false } := h.timer
      refine .schedulePump ?_ ?_ htimer time
      · exact h.gated.same rfl rfl rfl rfl
      · exact h.ordered.same rfl rfl rfl rfl
    · exact h
  | clock time => exact h.read time

/-- In every run of a scheduler: launches between two resets keep both distances; the launches to
one host are in the order they were scheduled, no task is launched twice, and every task scheduled
since the last reset was launched or waits; and between calls a queue that is not empty has one
timer armed, due no later than any of its tasks may go. -/
theorem launches_spaced_none_lost [DecidableEq Key] (o : ThrottleOptions) (hostKey : Host → Key)
    (start : ℚ) (events : List (SchedulerEvent Host)) :
    let s := Run.after (step o hostKey) { now := start } events
    s.log.Pairwise (Spaced o) ∧
      (launchedTasks s.log).Pairwise (fun a b => a.hostKey = b.hostKey → a.id < b.id) ∧
      ((launchedTasks s.log).map (·.id)).Nodup ∧
      (∀ id, s.firstId ≤ id → id < s.nextId →
        id ∈ (launchedTasks s.log).map (·.id) ∨ id ∈ s.queue.map (·.id)) ∧
      (s.launching = false → s.queue ≠ [] →
        ∃ timer, s.armed = [timer] ∧ ∀ task ∈ s.queue, timer.due ≤ max s.now (s.at_ task)) := by
  have h := Run.invariant (step o hostKey) (P := Sound o) (s := { now := start })
    ⟨⟨fun _ _ _ hin => (by cases hin), fun _ _ hin => (by cases hin), fun _ _ hin => (by cases hin),
      .nil⟩, ⟨fun _ hin => (by cases hin), .nil, fun _ _ hlt => absurd hlt (Nat.not_lt_zero _)⟩, rfl,
      fun _ hne => absurd rfl hne⟩
    (fun s e h => h.step hostKey e) events
  obtain ⟨hlaunched, -, -⟩ := List.pairwise_append.mp h.ordered.earlier
  refine ⟨h.gated.spaced, hlaunched.imp And.right,
    List.pairwise_map.mpr (hlaunched.imp And.left), fun id hge hlt => ?_, h.woken⟩
  have hkept := h.ordered.kept id hge hlt
  rwa [List.map_append, List.mem_append] at hkept

end ConnectScheduler

end Lurker.Connect
