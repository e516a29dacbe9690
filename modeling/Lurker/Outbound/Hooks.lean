import Lurker.Outbound.Queue

/-!
# What running hooks can change

Telling an item, and calling the hooks of a line that went, change the stack,
the log and the sets of told items, and nothing else. `Hooked` says so once.
-/

namespace Lurker.Outbound

/-- A hook was called. -/
def Note.isHook : Note → Bool
  | .onSent _ | .onDropped _ => true
  | _ => false

/-- A hook is running. -/
def Frame.isHook : Frame → Bool
  | .sent _ | .told .. => true
  | _ => false

namespace SendPacer

/-- `s'` is `s` with hooks called. -/
structure Hooked (s s' : SendPacer) : Prop where
  lanes : s'.lanes = s.lanes
  timer : s'.timer = s.timer
  disposed : s'.disposed = s.disposed
  since : s'.since = s.since
  seq : s'.seq = s.seq
  refusal : s'.refusal = s.refusal
  nextId : s'.nextId = s.nextId
  now : s'.now = s.now
  halted : s'.halted = s.halted
  log : ∃ ns, s'.log = s.log ++ ns ∧ ∀ n ∈ ns, n.isHook
  stack : ∃ fs, s'.stack = fs ++ s.stack ∧ ∀ f ∈ fs, f.isHook

namespace Hooked

variable {s t u : SendPacer}

theorem refl (s : SendPacer) : Hooked s s :=
  ⟨rfl, rfl, rfl, rfl, rfl, rfl, rfl, rfl, rfl, ⟨[], by simp⟩, ⟨[], by simp⟩⟩

theorem trans (h : Hooked s t) (h' : Hooked t u) : Hooked s u where
  lanes := h'.lanes.trans h.lanes
  timer := h'.timer.trans h.timer
  disposed := h'.disposed.trans h.disposed
  since := h'.since.trans h.since
  seq := h'.seq.trans h.seq
  refusal := h'.refusal.trans h.refusal
  nextId := h'.nextId.trans h.nextId
  now := h'.now.trans h.now
  halted := h'.halted.trans h.halted
  log := by
    obtain ⟨ns, hns, hall⟩ := h.log
    obtain ⟨ns', hns', hall'⟩ := h'.log
    refine ⟨ns ++ ns', by rw [hns', hns, List.append_assoc], fun n hn => ?_⟩
    exact (List.mem_append.mp hn).elim (hall n) (hall' n)
  stack := by
    obtain ⟨fs, hfs, hall⟩ := h.stack
    obtain ⟨fs', hfs', hall'⟩ := h'.stack
    refine ⟨fs' ++ fs, by rw [hfs', hfs, List.append_assoc], fun f hf => ?_⟩
    exact (List.mem_append.mp hf).elim (hall' f) (hall f)

theorem all (h : Hooked s t) : t.all = s.all := by
  unfold SendPacer.all
  rw [h.lanes]

end Hooked

variable (s : SendPacer)

theorem hooked_callSent (hooks : List Name) : Hooked s (s.callSent hooks) := by
  cases hooks with
  | nil => exact .refl s
  | cons p hooks =>
    exact ⟨rfl, rfl, rfl, rfl, rfl, rfl, rfl, rfl, rfl, ⟨[.onSent p], rfl, by simp [Note.isHook]⟩,
      ⟨[.sent hooks], rfl, by simp [Frame.isHook]⟩⟩

theorem hooked_tell (set : Nat) (names : List Name) : Hooked s (s.tell set names) := by
  induction names with
  | nil => exact .refl s
  | cons p names ih =>
    unfold tell
    split
    · exact ih
    · exact ⟨rfl, rfl, rfl, rfl, rfl, rfl, rfl, rfl, rfl, ⟨[.onDropped p], rfl, by simp [Note.isHook]⟩,
        ⟨[.told set names], rfl, by simp [Frame.isHook]⟩⟩

theorem hooked_newSet : Hooked s s.newSet :=
  ⟨rfl, rfl, rfl, rfl, rfl, rfl, rfl, rfl, rfl, ⟨[], by simp [newSet]⟩, ⟨[], by simp [newSet]⟩⟩

theorem hooked_tellAfresh (names : List Name) : Hooked s (s.tellAfresh names) :=
  (hooked_newSet s).trans (hooked_tell _ _ _)

theorem hooked_refuse (e : Entry) : Hooked s (s.refuse e) := hooked_tell _ _ _

theorem hooked_tellGone (p : Name) : Hooked s (s.tellGone p) :=
  ⟨rfl, rfl, rfl, rfl, rfl, rfl, rfl, rfl, rfl, ⟨[.onDropped p], rfl, by simp [Note.isHook]⟩,
    ⟨[.sent []], rfl, by simp [Frame.isHook]⟩⟩

end SendPacer

end Lurker.Outbound
