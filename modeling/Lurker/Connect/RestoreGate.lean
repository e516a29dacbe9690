import Lurker.Lib.Run
import Mathlib.Data.List.Sublists
import Mathlib.Data.PNat.Basic
import Mathlib.Logic.Function.Basic

/-!
# The restore gate

A counting semaphore with a FIFO queue, which caps how many channel refreshes run at once. A
step is granted inside the loop of `pump`, and its `run` may call back into the gate; such a
call finds the loop at work and leaves the granting to it. While a `run` is in progress the gate
is in `running`, the calls it makes are the next events, and its return or its throw hands
control back to the loop.
-/

namespace Lurker.Connect

/-- What the gate knows of a reservation. -/
structure GateEntry where
  /-- It has its `run`. -/
  started : Bool := false
  released : Bool := false
  /-- Still queued when a grant pass ended. -/
  waited : Bool := false

/-- What has happened, for the results to speak about. -/
inductive GateNote where
  /-- A start that the gate took. -/
  | started (id : Nat)
  /-- The call of a step's `run`, and how many steps were active before it. -/
  | granted (id active : Nat)
  | released (id : Nat)
  | threw (id : Nat)
  | reset
  deriving DecidableEq

structure RestoreGate where
  waiting : List Nat := []
  active : List Nat := []
  nextId : Nat := 1
  entries : Nat → GateEntry := fun _ => {}
  /-- The step whose `run` is in progress; the gate is pumping exactly then. -/
  running : Option Nat := none
  /-- Steps that waited, since the cap was first hit. -/
  burst : Option Nat := none
  log : List GateNote := []

namespace RestoreGate

-- how many steps may be active at once, none for no cap
variable (cap : Option ℕ+)

def setEntry (s : RestoreGate) (id : Nat) (e : GateEntry) : RestoreGate :=
  { s with entries := Function.update s.entries id e }

def note (s : RestoreGate) (n : GateNote) : RestoreGate := { s with log := s.log ++ [n] }

/-- The loop is over: what waits is marked, and a burst begins or ends. -/
def settle (s : RestoreGate) : RestoreGate :=
  let begins := s.burst.isNone && s.waiting.any fun id => !(s.entries id).waited
  { s with
    running := none
    entries := fun id =>
      if id ∈ s.waiting then { s.entries id with waited := true } else s.entries id
    burst := if s.waiting = [] ∧ s.active = [] then none else if begins then some 0 else s.burst }

/-- The first of the queue gets its turn. -/
def grant (s : RestoreGate) (id : Nat) (rest : List Nat) : RestoreGate :=
  { s with
    waiting := rest
    active := s.active ++ [id]
    running := some id
    burst := if (s.entries id).waited then s.burst.map (· + 1) else s.burst
    log := s.log ++ [.granted id s.active.length] }

/-- Grant to the next in the queue while there is room. -/
def pumpLoop (s : RestoreGate) : RestoreGate :=
  match s.waiting with
  | [] => s.settle
  | id :: rest => if ∀ c ∈ cap, s.active.length < c then s.grant id rest else s.settle

/-- A call from a `run` leaves it to the loop it is in. -/
def pump (s : RestoreGate) : RestoreGate := if s.running.isSome then s else s.pumpLoop cap

/-- A handle is of a reservation that was made. -/
def Reserved (s : RestoreGate) (id : Nat) : Prop := 1 ≤ id ∧ id < s.nextId

instance (s : RestoreGate) (id : Nat) : Decidable (s.Reserved id) :=
  inferInstanceAs (Decidable (_ ∧ _))

def reserve (s : RestoreGate) : RestoreGate := { s with nextId := s.nextId + 1 }

def start (s : RestoreGate) (id : Nat) : RestoreGate :=
  if (s.entries id).released || (s.entries id).started then s
  else
    let s := (s.setEntry id { s.entries id with started := true }).note (.started id)
    pump cap { s with waiting := s.waiting ++ [id] }

def release (s : RestoreGate) (id : Nat) : RestoreGate :=
  let s := (s.setEntry id { s.entries id with released := true }).note (.released id)
  if id ∈ s.waiting then pump cap { s with waiting := s.waiting.erase id }
  else if id ∈ s.active then pump cap { s with active := s.active.erase id }
  else s

/-- Drop everything, running nothing. -/
def reset (s : RestoreGate) : RestoreGate :=
  { s with waiting := [], active := [], burst := none }.note .reset

end RestoreGate

inductive GateCall where
  | reserve
  | start (id : Nat)
  | release (id : Nat)
  | reset

inductive GateEvent where
  /-- A call, from outside or from the `run` in progress. -/
  | call (c : GateCall)
  /-- The `run` in progress returns. -/
  | returns
  /-- The `run` in progress throws. -/
  | throws

namespace RestoreGate

variable (cap : Option ℕ+)

def call (s : RestoreGate) : GateCall → RestoreGate
  | .reserve => s.reserve
  | .start id => if s.Reserved id then s.start cap id else s
  | .release id => if s.Reserved id then s.release cap id else s
  | .reset => s.reset

def step (s : RestoreGate) : GateEvent → RestoreGate
  | .call c => s.call cap c
  | .returns => if s.running.isSome then s.pumpLoop cap else s
  | .throws =>
    match s.running with
    | none => s
    | some id => pumpLoop cap ({ s with active := s.active.erase id }.note (.threw id))

/-- The steps in the order `start` was called. -/
def starts (log : List GateNote) : List Nat :=
  log.filterMap fun n => match n with
    | .started id => some id
    | _ => none

/-- The steps in the order their `run` was called. -/
def grants (log : List GateNote) : List Nat :=
  log.filterMap fun n => match n with
    | .granted id _ => some id
    | _ => none

/-- A step's `run` is not called after its release. -/
def NeverAfterRelease (log : List GateNote) : Prop :=
  log.Pairwise fun a b => ∀ id active, a = .released id → b ≠ .granted id active

/-- The gate between two moves of its loop. -/
structure Sound (s : RestoreGate) : Prop where
  bound : ∀ c ∈ cap, s.active.length ≤ c
  below : ∀ (id active : Nat), .granted id active ∈ s.log → ∀ c ∈ cap, active < c
  order : (grants s.log ++ s.waiting).Sublist (starts s.log)
  once : (starts s.log).Nodup
  started : ∀ id ∈ starts s.log, (s.entries id).started = true
  released : ∀ id, .released id ∈ s.log → (s.entries id).released = true
  queued : ∀ id ∈ s.waiting, .released id ∉ s.log
  held : ∀ id ∈ s.active, id ∈ grants s.log ∧ .released id ∉ s.log ∧ .threw id ∉ s.log
  distinct : s.active.Nodup
  threw : ∀ id, .threw id ∈ s.log → id ∈ grants s.log
  apart : NeverAfterRelease s.log
  running : ∀ id ∈ s.running, id ∈ grants s.log

/-- Nothing waits, or there is no room. -/
def Settled (s : RestoreGate) : Prop :=
  s.running = none → s.waiting = [] ∨ ∃ c ∈ cap, s.active.length = c

variable {cap} {s : RestoreGate}

theorem neverAfterRelease_concat {log : List GateNote} {n : GateNote} :
    NeverAfterRelease (log ++ [n]) ↔
      NeverAfterRelease log ∧ ∀ id active, .released id ∈ log → n ≠ .granted id active := by
  unfold NeverAfterRelease
  rw [List.pairwise_append]
  simp only [List.pairwise_singleton, List.mem_singleton, forall_eq, true_and]
  refine and_congr_right fun _ => ⟨fun h id active hid => h _ hid id active rfl, ?_⟩
  rintro h a ha id active rfl
  exact h id active ha

/-- The steps that were granted and those that wait are different ones. -/
theorem Sound.nodup (h : Sound cap s) : (grants s.log ++ s.waiting).Nodup := h.once.sublist h.order

theorem Sound.grant (h : Sound cap s) {id : Nat} {rest : List Nat} (hw : s.waiting = id :: rest)
    (hroom : ∀ c ∈ cap, s.active.length < c) : Sound cap (s.grant id rest) := by
  have hnodup := h.nodup
  have horder := h.order
  rw [hw] at hnodup horder
  have hgrants : grants (s.log ++ [.granted id s.active.length]) = grants s.log ++ [id] := by
    simp [grants]
  have hstarts : starts (s.log ++ [.granted id s.active.length]) = starts s.log := by
    simp [starts]
  have hid : id ∉ grants s.log := fun hin =>
    (List.disjoint_of_nodup_append hnodup) hin List.mem_cons_self
  have hreleased := h.queued id (hw ▸ List.mem_cons_self)
  refine ⟨fun c hc => ?_, fun id' active hin => ?_, ?_, ?_, ?_, fun id' hin => ?_, fun id' hid' => ?_,
    fun id' hid' => ?_, ?_, fun id' hin => ?_, ?_, fun id' hrunning => ?_⟩
  · have := hroom c hc
    simp only [RestoreGate.grant, List.length_append, List.length_singleton]
    omega
  · obtain hin | hin := List.mem_append.mp hin
    · exact h.below id' active hin
    · obtain ⟨rfl, rfl⟩ := GateNote.granted.inj (List.mem_singleton.mp hin)
      exact hroom
  · show (grants (s.log ++ [_]) ++ rest).Sublist (starts (s.log ++ [_]))
    rw [hgrants, hstarts, List.append_assoc]
    exact horder
  · show (starts (s.log ++ [_])).Nodup
    rw [hstarts]
    exact h.once
  · show ∀ id' ∈ starts (s.log ++ [_]), _
    rw [hstarts]
    exact h.started
  · exact h.released id' (by simpa [RestoreGate.grant] using hin)
  · have hnot := h.queued id' (hw ▸ List.mem_cons_of_mem id hid')
    simpa [RestoreGate.grant] using hnot
  · show id' ∈ grants (s.log ++ [_]) ∧ _ ∉ s.log ++ [_] ∧ _ ∉ s.log ++ [_]
    rw [hgrants]
    obtain hid' | hid' := List.mem_append.mp hid'
    · obtain ⟨hgranted, hnot, hthrew⟩ := h.held id' hid'
      exact ⟨List.mem_append_left _ hgranted, by simpa using hnot, by simpa using hthrew⟩
    · obtain rfl := List.mem_singleton.mp hid'
      refine ⟨List.mem_append_right _ hid', by simpa using hreleased, ?_⟩
      simpa using fun hin => hid (h.threw id' hin)
  · refine List.nodup_append.mpr ⟨h.distinct, List.nodup_singleton id, fun x hx y hy hxy => ?_⟩
    obtain rfl := List.mem_singleton.mp hy
    exact hid (hxy ▸ (h.held x hx).1)
  · show id' ∈ grants (s.log ++ [_])
    rw [hgrants]
    exact List.mem_append_left _ (h.threw id' (by simpa [RestoreGate.grant] using hin))
  · refine neverAfterRelease_concat.mpr ⟨h.apart, fun id' active hin heq => ?_⟩
    exact hreleased ((GateNote.granted.inj heq).1 ▸ hin)
  · obtain rfl := Option.some.inj hrunning
    show id ∈ grants (s.log ++ [_])
    rw [hgrants]
    exact List.mem_append_right _ (List.mem_singleton_self id)

theorem Sound.settle (h : Sound cap s) : Sound cap s.settle := by
  have hstarted (id : Nat) : (s.settle.entries id).started = (s.entries id).started := by
    simp only [RestoreGate.settle]
    split <;> rfl
  have hreleased (id : Nat) : (s.settle.entries id).released = (s.entries id).released := by
    simp only [RestoreGate.settle]
    split <;> rfl
  exact ⟨h.bound, h.below, h.order, h.once, fun id hid => (hstarted id).trans (h.started id hid),
    fun id hid => (hreleased id).trans (h.released id hid), h.queued, h.held, h.distinct, h.threw,
    h.apart, fun id hid => by cases hid⟩

/-- The loop stops where nothing waits or there is no room. -/
theorem Sound.pumpLoop (h : Sound cap s) :
    Sound cap (s.pumpLoop cap) ∧ Settled cap (s.pumpLoop cap) := by
  unfold RestoreGate.pumpLoop
  split
  · next hw => exact ⟨h.settle, fun _ => Or.inl hw⟩
  · next id rest hw =>
    split
    · next hroom => exact ⟨h.grant hw hroom, fun hrunning => by cases hrunning⟩
    · next hfull =>
      refine ⟨h.settle, fun _ => Or.inr ?_⟩
      simp only [not_forall] at hfull
      obtain ⟨c, hc, hlt⟩ := hfull
      have hbound := h.bound c hc
      exact ⟨c, hc, by change s.active.length = c; omega⟩

theorem Sound.pump (h : Sound cap s) : Sound cap (s.pump cap) ∧ Settled cap (s.pump cap) := by
  unfold RestoreGate.pump
  split
  · next hrunning =>
    refine ⟨h, fun hnone => ?_⟩
    rw [hnone] at hrunning
    cases hrunning
  · exact h.pumpLoop

theorem Sound.start (h : Sound cap s) (hs : Settled cap s) (id : Nat) :
    Sound cap (s.start cap id) ∧ Settled cap (s.start cap id) := by
  unfold RestoreGate.start
  split
  · exact ⟨h, hs⟩
  · next hfree =>
    rw [Bool.or_eq_true, not_or] at hfree
    apply Sound.pump
    have hgrants : grants (s.log ++ [.started id]) = grants s.log := by simp [grants]
    have hstarts : starts (s.log ++ [.started id]) = starts s.log ++ [id] := by simp [starts]
    have hnew : id ∉ starts s.log := fun hin => hfree.2 (h.started id hin)
    have hunreleased : .released id ∉ s.log := fun hin => hfree.1 (h.released id hin)
    refine ⟨h.bound, fun id' active hin => h.below id' active (by simpa [note, setEntry] using hin),
      ?_, ?_, fun id' hid' => ?_, fun id' hin => ?_, fun id' hid' => ?_, fun id' hid' => ?_,
      h.distinct, fun id' hin => ?_, ?_, fun id' hid' => ?_⟩
    · show (grants (s.log ++ [_]) ++ (s.waiting ++ [id])).Sublist (starts (s.log ++ [_]))
      rw [hgrants, hstarts, ← List.append_assoc]
      exact h.order.append (.refl _)
    · show (starts (s.log ++ [_])).Nodup
      rw [hstarts]
      refine List.nodup_append.mpr ⟨h.once, List.nodup_singleton id, fun x hx y hy hxy => ?_⟩
      obtain rfl := List.mem_singleton.mp hy
      exact hnew (hxy ▸ hx)
    · change id' ∈ starts (s.log ++ [_]) at hid'
      rw [hstarts] at hid'
      change (Function.update s.entries id _ id').started = true
      obtain rfl | hne := eq_or_ne id' id
      · rw [Function.update_self]
      · rw [Function.update_of_ne hne]
        exact h.started id' ((List.mem_append.mp hid').resolve_right (by simpa using hne))
    · have hin : .released id' ∈ s.log := by simpa [note, setEntry] using hin
      have hne : id' ≠ id := fun heq => hunreleased (heq ▸ hin)
      change (Function.update s.entries id _ id').released = true
      rw [Function.update_of_ne hne]
      exact h.released id' hin
    · obtain hid' | hid' := List.mem_append.mp hid'
      · simpa [note, setEntry] using h.queued id' hid'
      · obtain rfl := List.mem_singleton.mp hid'
        simpa [note, setEntry] using hunreleased
    · obtain ⟨hgranted, hnot, hthrew⟩ := h.held id' hid'
      show id' ∈ grants (s.log ++ [_]) ∧ _ ∉ s.log ++ [_] ∧ _ ∉ s.log ++ [_]
      rw [hgrants]
      exact ⟨hgranted, by simpa using hnot, by simpa using hthrew⟩
    · show id' ∈ grants (s.log ++ [_])
      rw [hgrants]
      exact h.threw id' (by simpa [note, setEntry] using hin)
    · exact neverAfterRelease_concat.mpr ⟨h.apart, fun id' active _ heq => by cases heq⟩
    · show id' ∈ grants (s.log ++ [_])
      rw [hgrants]
      exact h.running id' hid'

/-- Steps leave the gate, with a note of why. -/
theorem Sound.leave (h : Sound cap s) {t : RestoreGate} {n : GateNote}
    (hwaiting : t.waiting.Sublist s.waiting) (hactive : t.active.Sublist s.active)
    (hlog : t.log = s.log ++ [n]) (hrunning : t.running = s.running)
    (hstart : ∀ id, n ≠ .started id) (hgrant : ∀ id active, n ≠ .granted id active)
    (hentries : ∀ id, (t.entries id).started = (s.entries id).started ∧
      ((s.entries id).released = true → (t.entries id).released = true))
    (hreleased : ∀ id, n = .released id →
      (t.entries id).released = true ∧ id ∉ t.waiting ∧ id ∉ t.active)
    (hthrew : ∀ id, n = .threw id → id ∈ grants s.log ∧ id ∉ t.active) : Sound cap t := by
  have hgrants : grants t.log = grants s.log := by
    rw [hlog]
    cases n with
    | granted id active => exact absurd rfl (hgrant id active)
    | started | released | threw | reset => simp [grants]
  have hstarts : starts t.log = starts s.log := by
    rw [hlog]
    cases n with
    | started id => exact absurd rfl (hstart id)
    | granted | released | threw | reset => simp [starts]
  have hmem (m : GateNote) : m ∈ t.log ↔ m ∈ s.log ∨ n = m := by
    rw [hlog, List.mem_append, List.mem_singleton]
    exact or_congr_right eq_comm
  refine ⟨fun c hc => hactive.length_le.trans (h.bound c hc), fun id active hin => ?_, ?_, ?_,
    fun id hid => ?_, fun id hin => ?_, fun id hid => ?_, fun id hid => ?_,
    h.distinct.sublist hactive, fun id hin => ?_, ?_, fun id hid => ?_⟩
  · exact h.below id active (((hmem _).mp hin).resolve_right (hgrant id active))
  · rw [hgrants, hstarts]
    exact (List.Sublist.append_left hwaiting _).trans h.order
  · rw [hstarts]
    exact h.once
  · rw [hstarts] at hid
    exact (hentries id).1.trans (h.started id hid)
  · obtain hin | heq := (hmem _).mp hin
    · exact (hentries id).2 (h.released id hin)
    · exact (hreleased id heq).1
  · intro hin
    obtain hin | heq := (hmem _).mp hin
    · exact h.queued id (hwaiting.mem hid) hin
    · exact (hreleased id heq).2.1 hid
  · obtain ⟨hgranted, hnot, hunthrown⟩ := h.held id (hactive.mem hid)
    refine ⟨hgrants ▸ hgranted, fun hin => ?_, fun hin => ?_⟩
    · obtain hin | heq := (hmem _).mp hin
      · exact hnot hin
      · exact (hreleased id heq).2.2 hid
    · obtain hin | heq := (hmem _).mp hin
      · exact hunthrown hin
      · exact (hthrew id heq).2 hid
  · rw [hgrants]
    obtain hin | heq := (hmem _).mp hin
    · exact h.threw id hin
    · exact (hthrew id heq).1
  · rw [hlog]
    exact neverAfterRelease_concat.mpr ⟨h.apart, fun id active _ heq => hgrant id active heq⟩
  · rw [hgrants]
    exact h.running id (hrunning ▸ hid)

theorem entries_setEntry_released (s : RestoreGate) (id id' : Nat) :
    (((s.setEntry id { s.entries id with released := true }).entries id').started =
      (s.entries id').started) ∧
    ((s.entries id').released = true →
      ((s.setEntry id { s.entries id with released := true }).entries id').released = true) := by
  change (Function.update s.entries id _ id').started = _ ∧
    (_ → (Function.update s.entries id _ id').released = true)
  obtain rfl | hne := eq_or_ne id' id
  · rw [Function.update_self]
    exact ⟨rfl, fun _ => rfl⟩
  · rw [Function.update_of_ne hne]
    exact ⟨rfl, fun hreleased => hreleased⟩

theorem Sound.release (h : Sound cap s) (hs : Settled cap s) (id : Nat) :
    Sound cap (s.release cap id) ∧ Settled cap (s.release cap id) := by
  have hset : ((s.setEntry id { s.entries id with released := true }).entries id).released = true := by
    change (Function.update s.entries id _ id).released = true
    rw [Function.update_self]
  have hapart := List.disjoint_of_nodup_append h.nodup
  -- whichever list it leaves, it is in none after
  have hleave (waiting active : List Nat) (hw : waiting.Sublist s.waiting)
      (ha : active.Sublist s.active) (hnw : id ∉ waiting) (hna : id ∉ active) :
      Sound cap { (s.setEntry id { s.entries id with released := true }).note (.released id) with
        waiting, active } := by
    refine h.leave hw ha rfl rfl (fun _ heq => by cases heq) (fun _ _ heq => by cases heq)
      (entries_setEntry_released s id) (fun id' heq => ?_) (fun _ heq => by cases heq)
    obtain rfl := GateNote.released.inj heq
    exact ⟨hset, hnw, hna⟩
  unfold RestoreGate.release
  dsimp only
  split
  · next hin =>
    change id ∈ s.waiting at hin
    apply Sound.pump
    refine hleave (s.waiting.erase id) s.active List.erase_sublist (.refl _) ?_ ?_
    · exact fun hin' => ((List.nodup_append.mp h.nodup).2.1.mem_erase_iff.mp hin').1 rfl
    · exact fun hin' => hapart (h.held id hin').1 hin
  · next hnot =>
    change id ∉ s.waiting at hnot
    split
    · next hin =>
      apply Sound.pump
      refine hleave s.waiting (s.active.erase id) (.refl _) List.erase_sublist hnot ?_
      exact fun hin' => (h.distinct.mem_erase_iff.mp hin').1 rfl
    · next hin => exact ⟨hleave s.waiting s.active (.refl _) (.refl _) hnot hin, hs⟩

theorem Sound.reset (h : Sound cap s) : Sound cap s.reset ∧ Settled cap s.reset := by
  refine ⟨h.leave (List.nil_sublist _) (List.nil_sublist _) rfl rfl (fun _ heq => by cases heq)
    (fun _ _ heq => by cases heq) (fun _ => ⟨rfl, fun hreleased => hreleased⟩)
    (fun _ heq => by cases heq) (fun _ heq => by cases heq), fun _ => Or.inl rfl⟩

theorem Sound.init : Sound cap {} := by
  refine ⟨fun c _ => Nat.zero_le _, fun id active hin => absurd hin List.not_mem_nil, .refl _,
    List.nodup_nil, fun id hin => absurd hin List.not_mem_nil, fun id hin => absurd hin List.not_mem_nil,
    fun id hin => absurd hin List.not_mem_nil, fun id hin => absurd hin List.not_mem_nil,
    List.nodup_nil, fun id hin => absurd hin List.not_mem_nil, List.Pairwise.nil, fun id hin => by cases hin⟩

theorem Sound.step (h : Sound cap s) (hs : Settled cap s) (e : GateEvent) :
    Sound cap (s.step cap e) ∧ Settled cap (s.step cap e) := by
  cases e with
  | call c =>
    cases c with
    | reserve =>
      exact ⟨⟨h.bound, h.below, h.order, h.once, h.started, h.released, h.queued, h.held, h.distinct,
        h.threw, h.apart, h.running⟩, hs⟩
    | start id =>
      show Sound cap (if _ then _ else _) ∧ Settled cap (if _ then _ else _)
      split
      · exact h.start hs id
      · exact ⟨h, hs⟩
    | release id =>
      show Sound cap (if _ then _ else _) ∧ Settled cap (if _ then _ else _)
      split
      · exact h.release hs id
      · exact ⟨h, hs⟩
    | reset => exact h.reset
  | returns =>
    unfold RestoreGate.step
    dsimp only
    split
    · exact h.pumpLoop
    · exact ⟨h, hs⟩
  | throws =>
    unfold RestoreGate.step
    dsimp only
    split
    · exact ⟨h, hs⟩
    · next id hrunning =>
      apply Sound.pumpLoop
      refine h.leave (.refl _) List.erase_sublist rfl rfl (fun _ heq => by cases heq)
        (fun _ _ heq => by cases heq) (fun _ => ⟨rfl, fun hreleased => hreleased⟩)
        (fun _ heq => by cases heq) (fun id' heq => ?_)
      obtain rfl := GateNote.threw.inj heq
      exact ⟨h.running id hrunning, fun hin => (h.distinct.mem_erase_iff.mp hin).1 rfl⟩

/-- In every run of the gate: a grant finds fewer steps active than the cap, steps are granted in
the order they were started, each once and none after its release; a step that threw or was
released is not active; and between calls nothing waits or the cap is reached. -/
theorem gate_neither_leaks_nor_overruns (cap : Option ℕ+) (events : List GateEvent) :
    let s := Run.after (step cap) {} events
    (∀ (id active : Nat), .granted id active ∈ s.log → ∀ c ∈ cap, active < c) ∧
      (grants s.log).Sublist (starts s.log) ∧ (starts s.log).Nodup ∧ (grants s.log).Nodup ∧
      NeverAfterRelease s.log ∧
      (∀ id, .threw id ∈ s.log ∨ .released id ∈ s.log → id ∉ s.active) ∧
      (s.running = none → s.waiting = [] ∨ ∃ c ∈ cap, s.active.length = c) := by
  obtain ⟨h, hs⟩ := Run.invariant (step cap) (P := fun s => Sound cap s ∧ Settled cap s)
    ⟨Sound.init, fun _ => Or.inl rfl⟩ (fun s e h => h.1.step h.2 e) events
  refine ⟨h.below, (List.sublist_append_left _ _).trans h.order, h.once,
    (List.nodup_append.mp h.nodup).1, h.apart, fun id hin hid => ?_, hs⟩
  obtain ⟨-, hunreleased, hunthrown⟩ := h.held id hid
  exact hin.elim hunthrown hunreleased

end RestoreGate

end Lurker.Connect
