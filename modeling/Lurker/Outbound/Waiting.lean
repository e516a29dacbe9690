import Lurker.Outbound.Stack

/-!
# Nothing waits that nothing will move

While an item waits, the queue is draining, a wait is on, or the last drain
stopped at a head that could not go: the connection was not ready, held the
queue, or refused the line.
-/

namespace Lurker.Outbound

namespace SendPacer

structure Watched (s : SendPacer) : Prop where
  waits : s.all ≠ [] → s.draining = true ∨ s.timer.isSome = true ∨ s.halted = true
  ended : Frame.drainEnd ∈ s.stack → s.halted = true

theorem not_drainEnd_of_isHook {f : Frame} (h : f.isHook) : f ≠ .drainEnd := by
  rintro rfl
  simp [Frame.isHook] at h

namespace Watched

variable {s t : SendPacer} {e : Entry} {a : Answers}

theorem keeps (h : s.Watched) (hall : t.all ≠ [] → s.all ≠ []) (htimer : t.timer = s.timer)
    (hhalt : t.halted = s.halted) (hdrain : s.draining = true → t.draining = true)
    (hend : Frame.drainEnd ∈ t.stack → Frame.drainEnd ∈ s.stack) : t.Watched := by
  refine ⟨fun hne => ?_, fun hf => hhalt ▸ h.ended (hend hf)⟩
  rw [htimer, hhalt]
  exact (h.waits (hall hne)).imp_left hdrain

/-- Nothing that matters here changed. -/
theorem same (h : s.Watched) (hlanes : t.lanes = s.lanes) (htimer : t.timer = s.timer)
    (hhalt : t.halted = s.halted) (hstack : t.stack = s.stack) : t.Watched := by
  refine h.keeps ?_ htimer hhalt ?_ ?_
  · rw [all, all, hlanes]
    exact id
  · rw [draining, draining, hstack]
    exact id
  · rw [hstack]
    exact id

theorem note (h : s.Watched) (n : Note) : (s.note n).Watched := h.same rfl rfl rfl rfl

theorem hooked (h : s.Watched) (hh : Hooked s t) : t.Watched := by
  obtain ⟨fs, hfs, hall⟩ := hh.stack
  refine h.keeps (hh.all ▸ id) hh.timer hh.halted (fun hd => ?_) (fun hf => ?_)
  · rw [draining, hfs, List.any_append, Bool.or_eq_true]
    exact .inr hd
  · rcases List.mem_append.mp (hfs ▸ hf) with hf | hf
    · exact absurd rfl (not_drainEnd_of_isHook (hall _ hf))
    · exact hf

theorem push (h : s.Watched) {f : Frame} (hf : f ≠ .drainEnd) : (s.push f).Watched := by
  refine h.keeps id rfl rfl (fun hd => ?_) (fun hg => ?_)
  · change (f :: s.stack).any Frame.isDrain = true
    rw [List.any_cons, Bool.or_eq_true]
    exact .inr hd
  · exact (List.mem_cons.mp hg).resolve_left hf.symm

/-- Frames other than the drain's are done with. -/
theorem withStack (h : s.Watched) {st : List Frame} (hst : ∃ fs, s.stack = fs ++ st ∧ ∀ f ∈ fs, ¬f.isDrain) :
    (s.withStack st).Watched := by
  obtain ⟨fs, hfs, hnot⟩ := hst
  refine h.keeps id rfl rfl (fun hd => ?_) (fun hg => ?_)
  · rw [draining, hfs, List.any_append, Bool.or_eq_true, List.any_eq_true] at hd
    exact hd.resolve_left fun ⟨f, hf, hdr⟩ => hnot f hf hdr
  · rw [hfs]
    exact List.mem_append_right _ hg

theorem pop (h : s.Watched) {f : Frame} {st : List Frame} (hs : s.stack = f :: st)
    (hf : ¬f.isDrain) : (s.withStack st).Watched :=
  h.withStack ⟨[f], hs, by simpa using hf⟩

/-- The frames an aborted build leaves behind. -/
theorem abort_eq (st : List Frame) :
    ∃ fs, st = fs ++ abort st ∧ ∀ f ∈ fs, ¬f.isDrain := by
  refine ⟨st.takeWhile Frame.isAtOnce, List.takeWhile_append_dropWhile.symm, fun f hf => ?_⟩
  have hat := List.all_eq_true.mp List.all_takeWhile f hf
  cases f <;> simp_all [Frame.isAtOnce, Frame.isDrain]

theorem popAbort (h : s.Watched) {f : Frame} {st : List Frame} (hs : s.stack = f :: st)
    (hf : ¬f.isDrain) : (s.withStack (abort st)).Watched := by
  obtain ⟨fs, hfs, hnot⟩ := abort_eq st
  refine h.withStack ⟨f :: fs, by rw [hs, List.cons_append, ← hfs], fun g hg => ?_⟩
  rcases List.mem_cons.mp hg with rfl | hg
  exacts [hf, hnot g hg]

/-- Whatever the queue holds, `drain` sees to it. -/
theorem drain (hend : Frame.drainEnd ∈ s.stack → s.halted = true) : s.drain.Watched := by
  unfold SendPacer.drain
  split
  · rename_i hbusy
    exact ⟨fun _ => (Bool.or_eq_true _ _ ▸ hbusy).elim (.inr ∘ .inl) .inl, hend⟩
  · rename_i hbusy
    have hidle : s.draining = false := by
      rw [Bool.or_eq_true, not_or] at hbusy
      exact Bool.eq_false_iff.mpr hbusy.2
    refine ⟨fun _ => .inl rfl, fun hf => ?_⟩
    have hmem : Frame.drainEnd ∈ s.stack := (List.mem_cons.mp hf).resolve_left (nomatch ·)
    exact absurd rfl (List.any_eq_false.mp hidle _ hmem)

theorem redrain (hend : Frame.drainEnd ∈ s.stack → s.halted = true) : s.redrain.Watched := by
  unfold SendPacer.redrain
  split
  · exact drain hend
  · exact drain hend

theorem sendNow (h : s.Watched) (text : String) (lane charged : Bool) :
    (s.sendNow e text lane charged a).Watched := by
  unfold SendPacer.sendNow
  split
  · refine hooked (h.same ?_ ?_ ?_ ?_) (hooked_callSent _ _)
    all_goals cases charged <;> rfl
  · exact (h.note _).hooked (hooked_refuse _ _)

theorem sendUnit (h : s.Watched) (lines : List String) (charged : Bool) :
    (s.sendUnit e lines charged a).Watched := by
  have hnote : ∀ went : List String, (if went = [] then s
      else s.note (.sent e went charged charged s.now)).Watched := by
    intro went
    split
    · exact h
    · exact h.same rfl rfl rfl rfl
  unfold SendPacer.sendUnit
  dsimp only
  split
  · refine hooked (same (hnote (taken a.takes 0 lines)) ?_ ?_ ?_ ?_) (hooked_callSent _ _)
    all_goals cases charged <;> rfl
  · refine hooked (same (hnote (taken a.takes 0 lines)) ?_ ?_ ?_ ?_) (hooked_refuse _ _)
    all_goals split <;> rfl

/-- A drain that looks at its head stays on it, arms a wait, or stops for good reason. -/
theorem drainTurn (h : s.Watched) {st : List Frame} (hs : s.stack = .drain :: st) :
    (s.drainTurn st a).Watched := by
  have hend : ∀ u : SendPacer, u.halted = s.halted → u.stack = st → Frame.drainEnd ∈ u.stack →
      u.halted = true := fun u hu hst hf => hu ▸ h.ended (hs ▸ List.mem_cons_of_mem _ (hst ▸ hf))
  have hstay : ∀ u : SendPacer, u.halted = s.halted → u.stack = s.stack → u.Watched := by
    refine fun u hu hst => ⟨fun _ => .inl ?_, fun hf => hu ▸ h.ended (hst ▸ hf)⟩
    rw [draining, hst, hs]
    rfl
  have hstop : ∀ u : SendPacer, ((u.halt true).withStack (.drainEnd :: st)).Watched :=
    fun u => ⟨fun _ => .inl rfl, fun _ => rfl⟩
  unfold SendPacer.drainTurn
  split
  · rename_i hnone
    refine ⟨fun hne => absurd (List.head?_eq_none_iff.mp hnone) hne, hend _ rfl rfl⟩
  rename_i e he
  split
  · exact ⟨fun _ => .inr (.inr rfl), fun _ => rfl⟩
  split
  · exact ⟨fun _ => .inr (.inl rfl), hend _ rfl rfl⟩
  dsimp only
  have htail := hstay (s.setLane e.priority (s.lanes e.priority).tail) rfl rfl
  split
  · exact htail.note _
  split
  · exact htail.push (nomatch ·)
  · split
    · exact htail.sendNow _ _ _
    · exact (hstop _).sendNow _ _ _
  · split
    · exact htail.sendUnit _ _
    · exact (hstop _).sendUnit _ _

theorem sendAtOnce (h : s.Watched) : (s.sendAtOnce e a).Watched := by
  unfold SendPacer.sendAtOnce
  split
  · exact h.sendUnit _ _
  · exact h.push (nomatch ·)
  · exact h.sendNow _ _ _

theorem atOnceTurn (h : s.Watched) {st : List Frame} {i : Nat} {items : List Made}
    (hs : s.stack = .atOnce e i items :: st) : (s.atOnceTurn st e i a items).Watched := by
  cases items with
  | nil => exact (h.pop hs (by simp [Frame.isDrain])).hooked (hooked_callSent _ _)
  | cons m items =>
    have hloop : (s.withStack (.atOnce e (i + 1) items :: st)).Watched :=
      (h.pop hs (by simp [Frame.isDrain])).push (f := .atOnce e (i + 1) items) (fun h => by cases h)
    unfold SendPacer.atOnceTurn
    dsimp only
    split
    · split
      · exact hloop.sendNow _ _ _
      · exact (h.popAbort hs (by simp [Frame.isDrain])).sendNow _ _ _
    · exact hloop.push (fun h => by cases h)

theorem queueUp (h : s.Watched) : (s.queueUp e).Watched := by
  unfold SendPacer.queueUp
  split
  · exact redrain fun hf => h.ended hf
  split
  · rename_i q hq
    refine h.keeps (fun _ hnil => ?_) rfl rfl id id
    rw [findKey, hnil] at hq
    exact nomatch hq
  · exact h.push (nomatch ·)

theorem write (h : s.Watched) (item : Item) (o : WriteOptions) : (s.write item o a).Watched := by
  have hnew : ∀ e, (s.admitNew e).takeSeq.Watched := fun e => h.same rfl rfl rfl rfl
  unfold SendPacer.write
  split
  · exact hooked (s := s.takeId) (h.same rfl rfl rfl rfl) (hooked_tellGone _ _)
  dsimp only
  split
  · exact (hnew _).sendAtOnce
  split
  · split
    · exact (hnew _).sendNow _ _ _
    · exact (hnew _).queueUp
  · exact (hnew _).queueUp

theorem unit (h : s.Watched) (lines : List String) (p : Priority) : (s.unit lines p a).Watched := by
  have hnew : ∀ e, (s.admitNew e).Watched := fun e => h.same rfl rfl rfl rfl
  unfold SendPacer.unit
  split
  · exact hooked (s := s.takeId) (h.same rfl rfl rfl rfl) (hooked_tellGone _ _)
  dsimp only
  split
  · exact (hnew _).sendAtOnce
  · exact redrain fun hf => h.ended hf

theorem removeRoot (h : s.Watched) (root : Nat) : (s.removeRoot root).Watched := by
  refine h.keeps (fun hne hnil => hne ?_) rfl rfl id id
  simp only [all, List.append_eq_nil_iff] at hnil ⊢
  obtain ⟨⟨h₁, h₂⟩, h₃⟩ := hnil
  exact ⟨⟨by simp [SendPacer.removeRoot, h₁], by simp [SendPacer.removeRoot, h₂]⟩,
    by simp [SendPacer.removeRoot, h₃]⟩

theorem cancel (h : s.Watched) (root : Nat) : (s.cancel root).Watched := by
  unfold SendPacer.cancel
  split
  · exact h
  · exact (h.removeRoot root).same rfl rfl rfl rfl

theorem admitTurn (h : s.Watched) (maxKeyed : Nat) {st : List Frame}
    (hs : s.stack = .admitting e :: st) : (s.admitTurn maxKeyed st e).Watched := by
  have hpop := h.pop hs (by simp [Frame.isDrain])
  unfold SendPacer.admitTurn
  split
  · exact hpop.hooked (hooked_tellGone _ _)
  split
  · split
    · exact (h.removeRoot _).hooked (hooked_tellAfresh _ _)
    · exact h
  · exact redrain fun hf => hpop.ended hf

theorem drop (h : s.Watched) : s.drop.Watched :=
  hooked (s := ({ s.newSet with lanes := fun _ => [], since := 0, timer := none,
                                refusal := s.nextSet } : SendPacer).note .dropped)
    ⟨fun hne => absurd rfl hne, h.ended⟩ (hooked_tell _ _ _)

theorem call (h : s.Watched) (c : Call) : (s.call a c).Watched := by
  cases c with
  | write item o => exact h.write item o
  | unit lines p => exact h.unit lines p
  | cancel root => exact h.cancel root
  | redrain => exact redrain h.ended
  | resume => exact drain h.ended
  | drop => exact h.drop
  | dispose => exact drop (h.same rfl rfl rfl rfl)

theorem turn (h : s.Watched) (maxKeyed : Nat) {f : Frame} {st : List Frame}
    (hs : s.stack = f :: st) : (s.turn maxKeyed st a f).Watched := by
  cases f with
  | drain => exact h.drainTurn hs
  | drainEnd =>
    have hhalt := h.ended (hs ▸ List.mem_cons_self)
    exact ⟨fun _ => .inr (.inr hhalt), fun _ => hhalt⟩
  | atOnce e i items => exact h.atOnceTurn hs
  | admitting e => exact h.admitTurn maxKeyed hs
  | building | buildingNow | sent | told => exact h

theorem return_ (h : s.Watched) (hshape : Shaped s.stack) (r : Return) {f : Frame} {st : List Frame}
    (hs : s.stack = f :: st) : (s.return_ st r f).Watched := by
  cases f with
  | sent hooks =>
    have hpop := h.pop hs (by simp [Frame.isDrain])
    cases r with
    | done => exact hpop.hooked (hooked_callSent _ _)
    | throws => exact hpop
    | built | made => exact h
  | told set names =>
    have hpop := h.pop hs (by simp [Frame.isDrain])
    cases r with
    | done | throws => exact hpop.hooked (hooked_tell _ _ _)
    | built | made => exact h
  | building e =>
    have hpop := h.pop hs (by simp [Frame.isDrain])
    unfold SendPacer.return_
    dsimp only
    split
    · exact hpop.hooked (hooked_tellAfresh _ _)
    · split
      · -- what the thunk made waits, and the drain it runs in goes on
        refine ⟨fun _ => .inl ?_, hpop.ended⟩
        have hdrain := hshape.draining_of_building (hs ▸ List.mem_cons_self)
        rw [hs, List.any_cons, Bool.or_eq_true] at hdrain
        exact hdrain.resolve_left (by simp [Frame.isDrain])
      · exact h
  | buildingNow e =>
    have hpop := h.pop hs (by simp [Frame.isDrain])
    unfold SendPacer.return_
    dsimp only
    split
    · exact (h.popAbort hs (by simp [Frame.isDrain])).hooked (hooked_refuse _ _)
    · split
      · exact hpop
      · exact (hpop.push (f := .atOnce e 0 _) (fun h => by cases h)).note _
      · exact h
  | drain | drainEnd | atOnce | admitting => exact h

theorem step (h : s.Watched) (hshape : Shaped s.stack) (maxKeyed : Nat) (ev : Event) :
    (s.step maxKeyed ev).Watched := by
  cases ev with
  | clock t => exact h.same rfl rfl rfl rfl
  | call c a =>
    unfold SendPacer.step
    dsimp only
    split
    · exact h.call c
    · exact h
  | turn a =>
    unfold SendPacer.step
    dsimp only
    split
    · exact h.turn maxKeyed ‹_›
    · exact h
  | returns r =>
    unfold SendPacer.step
    dsimp only
    split
    · exact h.return_ hshape r ‹_›
    · exact h
  | fire =>
    unfold SendPacer.step
    dsimp only
    split
    · exact drain h.ended
    · exact h

end Watched

end SendPacer

end Lurker.Outbound
