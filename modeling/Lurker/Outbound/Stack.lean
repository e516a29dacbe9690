import Lurker.Outbound.Hooks

/-!
# The shape of the stack

There is one drain at most, and a thunk the drain runs stands right above it.
So nothing drains while a thunk of the queue runs, and no thunk of the queue
runs below a drain about to take its head.
-/

namespace Lurker.Outbound

structure Shaped (st : List Frame) : Prop where
  one : st.countP Frame.isDrain ≤ 1
  above : ∀ fs e st', st = fs ++ .building e :: st' → ∃ st'', st' = .drain :: st''

namespace Shaped

variable {st st' : List Frame} {f : Frame}

theorem nil : Shaped [] := ⟨Nat.zero_le 1, fun fs _ _ h => by simp at h⟩

theorem suffix (h : Shaped st) (hs : st' <:+ st) : Shaped st' := by
  obtain ⟨gs, rfl⟩ := hs
  refine ⟨le_trans ?_ h.one, fun fs e st'' he => h.above (gs ++ fs) e st'' ?_⟩
  · rw [List.countP_append]
    exact Nat.le_add_left _ _
  · rw [he, List.append_assoc]

theorem tail (h : Shaped (f :: st)) : Shaped st := h.suffix (List.suffix_cons f st)

theorem cons (h : Shaped st) (hd : f.isDrain = false) (hb : ∀ e, f ≠ .building e) :
    Shaped (f :: st) := by
  refine ⟨?_, fun fs e st' he => ?_⟩
  · rw [List.countP_cons_of_neg (by simp [hd])]
    exact h.one
  · cases fs with
    | nil => exact absurd (List.cons.inj he).1 (hb e)
    | cons g fs => exact h.above fs e st' (List.cons.inj he).2

theorem drain (h : Shaped st) (hd : st.any Frame.isDrain = false) : Shaped (.drain :: st) := by
  refine ⟨?_, fun fs e st' he => ?_⟩
  · rw [List.countP_cons_of_pos rfl, List.countP_eq_zero.mpr (by simpa using hd)]
  · cases fs with
    | nil => exact nomatch (List.cons.inj he).1
    | cons g fs => exact h.above fs e st' (List.cons.inj he).2

theorem drainEnd (h : Shaped (.drain :: st)) : Shaped (.drainEnd :: st) := by
  refine ⟨h.one, fun fs e st' he => ?_⟩
  cases fs with
  | nil => exact nomatch (List.cons.inj he).1
  | cons g fs => exact h.tail.above fs e st' (List.cons.inj he).2

theorem building (h : Shaped (.drain :: st)) (e : Entry) : Shaped (.building e :: .drain :: st) := by
  refine ⟨h.one, fun fs e st' he => ?_⟩
  cases fs with
  | nil => exact ⟨st, (List.cons.inj he).2.symm⟩
  | cons g fs => exact h.above fs e st' (List.cons.inj he).2

theorem hooks (h : Shaped st) {fs : List Frame} (hfs : ∀ f ∈ fs, f.isHook) : Shaped (fs ++ st) := by
  induction fs with
  | nil => exact h
  | cons f fs ih =>
    have hf := hfs f List.mem_cons_self
    refine (ih fun g hg => hfs g (List.mem_cons_of_mem f hg)).cons ?_ fun e he => ?_
    · cases f <;> simp_all [Frame.isHook, Frame.isDrain]
    · subst he
      simp [Frame.isHook] at hf

/-- Below a drain no thunk of the queue runs. -/
theorem no_building (h : Shaped (f :: st)) (hf : f.isDrain) (e : Entry) : Frame.building e ∉ st := by
  intro hmem
  obtain ⟨fs, st', rfl⟩ := List.append_of_mem hmem
  obtain ⟨st'', rfl⟩ := h.tail.above fs e st' rfl
  have hone := h.one
  rw [List.countP_cons_of_pos hf, List.countP_append, List.countP_cons_of_neg (by simp [Frame.isDrain]),
    List.countP_cons_of_pos rfl] at hone
  omega

/-- A thunk of the queue runs inside the drain. -/
theorem draining_of_building (h : Shaped st) {e : Entry} (hmem : Frame.building e ∈ st) :
    st.any Frame.isDrain = true := by
  obtain ⟨fs, st', rfl⟩ := List.append_of_mem hmem
  obtain ⟨st'', rfl⟩ := h.above fs e st' rfl
  simp [Frame.isDrain]

end Shaped

theorem abort_suffix (st : List Frame) : SendPacer.abort st <:+ st := List.dropWhile_suffix _

namespace SendPacer

variable {s t : SendPacer} {e : Entry} {a : Answers}

theorem Hooked.shaped (hh : Hooked s t) (h : Shaped s.stack) : Shaped t.stack := by
  obtain ⟨fs, hfs, hall⟩ := hh.stack
  rw [hfs]
  exact h.hooks hall

theorem shaped_drain (h : Shaped s.stack) : Shaped s.drain.stack := by
  unfold SendPacer.drain
  split
  · exact h
  · rename_i hbusy
    rw [Bool.or_eq_true, not_or] at hbusy
    exact h.drain (Bool.eq_false_iff.mpr hbusy.2)

theorem shaped_redrain (h : Shaped s.stack) : Shaped s.redrain.stack := by
  unfold SendPacer.redrain
  split
  · exact shaped_drain h
  · exact shaped_drain h

theorem shaped_sendNow (h : Shaped s.stack) (text : String) (lane charged : Bool) :
    Shaped (s.sendNow e text lane charged a).stack := by
  unfold SendPacer.sendNow
  split
  · refine (hooked_callSent _ _).shaped ?_
    cases charged <;> exact h
  · exact (hooked_refuse _ _).shaped h

theorem shaped_sendUnit (h : Shaped s.stack) (lines : List String) (charged : Bool) :
    Shaped (s.sendUnit e lines charged a).stack := by
  have hnote : ∀ went : List String, Shaped (if went = [] then s
      else s.note (.sent e went charged charged s.now)).stack := by
    intro went
    split <;> exact h
  unfold SendPacer.sendUnit
  dsimp only
  split
  · refine (hooked_callSent _ _).shaped ?_
    cases charged <;> exact hnote _
  · refine (hooked_refuse _ _).shaped ?_
    change Shaped (if _ then _ else _ : SendPacer).stack
    split <;> exact hnote _

theorem shaped_drainTurn {st : List Frame} (hs : s.stack = .drain :: st) (h : Shaped s.stack) :
    Shaped (s.drainTurn st a).stack := by
  have htail : Shaped st := by rw [hs] at h; exact h.tail
  have hend : Shaped (.drainEnd :: st) := by rw [hs] at h; exact h.drainEnd
  unfold SendPacer.drainTurn
  split
  · exact htail
  split
  · exact htail
  split
  · exact htail
  dsimp only
  have hpop : ∀ e : Entry, Shaped (s.setLane e.priority (s.lanes e.priority).tail).stack := fun _ => h
  have hstop : ∀ e : Entry, Shaped (((s.setLane e.priority (s.lanes e.priority).tail).halt true).withStack
      (.drainEnd :: st)).stack := fun _ => hend
  split
  · exact h
  split
  · change Shaped (_ :: s.stack)
    rw [hs] at h ⊢
    exact h.building _
  · split
    · exact shaped_sendNow (hpop _) _ _ _
    · exact shaped_sendNow (hstop _) _ _ _
  · split
    · exact shaped_sendUnit (hpop _) _ _
    · exact shaped_sendUnit (hstop _) _ _

theorem shaped_sendAtOnce (h : Shaped s.stack) : Shaped (s.sendAtOnce e a).stack := by
  unfold SendPacer.sendAtOnce
  split
  · exact shaped_sendUnit h _ _
  · exact h.cons rfl (fun _ => nofun)
  · exact shaped_sendNow h _ _ _

theorem shaped_atOnceTurn {st : List Frame} (h : Shaped st) (i : Nat) (items : List Made) :
    Shaped (s.atOnceTurn st e i a items).stack := by
  cases items with
  | nil => exact (hooked_callSent _ _).shaped h
  | cons m items =>
    have hloop : Shaped (.atOnce e (i + 1) items :: st) := h.cons rfl (fun _ => nofun)
    unfold SendPacer.atOnceTurn
    dsimp only
    split
    · split
      · exact shaped_sendNow hloop _ _ _
      · exact shaped_sendNow (h.suffix (abort_suffix st)) _ _ _
    · exact hloop.cons rfl (fun _ => nofun)

theorem shaped_enqueue (h : Shaped s.stack) : Shaped (s.enqueue e).stack := shaped_redrain h

theorem shaped_queueUp (h : Shaped s.stack) : Shaped (s.queueUp e).stack := by
  unfold SendPacer.queueUp
  split
  · exact shaped_enqueue h
  split
  · exact h
  · exact h.cons rfl (fun _ => nofun)

theorem shaped_write (h : Shaped s.stack) (item : Item) (o : WriteOptions) :
    Shaped (s.write item o a).stack := by
  have hnew : ∀ e, Shaped (s.admitNew e).takeSeq.stack := fun _ => h
  unfold SendPacer.write
  split
  · exact (hooked_tellGone _ _).shaped h
  dsimp only
  split
  · exact shaped_sendAtOnce (hnew _)
  split
  · split
    · exact shaped_sendNow (hnew _) _ _ _
    · exact shaped_queueUp (hnew _)
  · exact shaped_queueUp (hnew _)

theorem shaped_unit (h : Shaped s.stack) (lines : List String) (p : Priority) :
    Shaped (s.unit lines p a).stack := by
  have hnew : ∀ e, Shaped (s.admitNew e).stack := fun _ => h
  unfold SendPacer.unit
  split
  · exact (hooked_tellGone _ _).shaped h
  dsimp only
  split
  · exact shaped_sendAtOnce (hnew _)
  · exact shaped_enqueue (hnew _)

theorem shaped_admitTurn (maxKeyed : Nat) {st : List Frame} (hs : s.stack = .admitting e :: st)
    (h : Shaped s.stack) : Shaped (s.admitTurn maxKeyed st e).stack := by
  have htail : Shaped st := by rw [hs] at h; exact h.tail
  unfold SendPacer.admitTurn
  split
  · exact (hooked_tellGone _ _).shaped htail
  split
  · split
    · exact (hooked_tellAfresh _ _).shaped h
    · exact h
  · exact shaped_enqueue htail

theorem shaped_drop (h : Shaped s.stack) : Shaped s.drop.stack := (hooked_tell _ _ _).shaped h

theorem shaped_call (h : Shaped s.stack) (c : Call) : Shaped (s.call a c).stack := by
  cases c with
  | write item o => exact shaped_write h item o
  | unit lines p => exact shaped_unit h lines p
  | cancel root =>
    change Shaped (s.cancel root).stack
    unfold SendPacer.cancel
    split <;> exact h
  | redrain => exact shaped_redrain h
  | resume => exact shaped_drain h
  | drop => exact shaped_drop h
  | dispose => exact shaped_drop (s := { s with disposed := true }) h

theorem shaped_turn (maxKeyed : Nat) {f : Frame} {st : List Frame} (hs : s.stack = f :: st)
    (h : Shaped s.stack) : Shaped (s.turn maxKeyed st a f).stack := by
  have htail : Shaped st := by rw [hs] at h; exact h.tail
  cases f with
  | drain => exact shaped_drainTurn hs h
  | drainEnd => exact htail
  | atOnce e i items => exact shaped_atOnceTurn htail i items
  | admitting e => exact shaped_admitTurn maxKeyed hs h
  | building | buildingNow | sent | told => exact h

theorem shaped_return (r : Return) {f : Frame} {st : List Frame} (hs : s.stack = f :: st)
    (h : Shaped s.stack) : Shaped (s.return_ st r f).stack := by
  have htail : Shaped st := by rw [hs] at h; exact h.tail
  cases f with
  | sent hooks =>
    cases r with
    | done => exact (hooked_callSent _ _).shaped htail
    | throws => exact htail
    | built | made => exact h
  | told set names =>
    cases r with
    | done | throws => exact (hooked_tell _ _ _).shaped htail
    | built | made => exact h
  | building e =>
    unfold SendPacer.return_
    dsimp only
    split
    · exact (hooked_tellAfresh _ _).shaped htail
    · split
      · exact htail
      · exact h
  | buildingNow e =>
    unfold SendPacer.return_
    dsimp only
    split
    · exact (hooked_refuse _ _).shaped (htail.suffix (abort_suffix st))
    · split
      · exact htail
      · exact htail.cons rfl (fun _ => nofun)
      · exact h
  | drain | drainEnd | atOnce | admitting => exact h

theorem shaped_step (maxKeyed : Nat) (ev : Event) (h : Shaped s.stack) :
    Shaped (s.step maxKeyed ev).stack := by
  cases ev with
  | clock t => exact h
  | call c a =>
    unfold SendPacer.step
    dsimp only
    split
    · exact shaped_call h c
    · exact h
  | turn a =>
    unfold SendPacer.step
    dsimp only
    split
    · exact shaped_turn maxKeyed ‹_› h
    · exact h
  | returns r =>
    unfold SendPacer.step
    dsimp only
    split
    · exact shaped_return r ‹_› h
    · exact h
  | fire =>
    unfold SendPacer.step
    dsimp only
    split
    · exact shaped_drain h
    · exact h

end SendPacer

end Lurker.Outbound
