import Lurker.Outbound.Order

/-!
# Wire order is lane order

Every step of the queue keeps the order. A lane is left by its head alone, and
only when no higher lane has any. The one step that breaks a promise is a
cancel made while a thunk of the item itself runs: what the thunk then makes is
put back in the lane.
-/

namespace Lurker.Outbound

namespace SendPacer

variable {s t : SendPacer} {e : Entry} {a : Answers}

theorem hand_eq_nil {f : Frame} {st : List Frame} (h : Shaped (f :: st)) (hf : f.isDrain) :
    (f :: st).flatMap Frame.hand = [] := by
  have hst : st.flatMap Frame.hand = [] := by
    rw [List.flatMap_eq_nil_iff]
    intro g hg
    cases g with
    | building e => exact absurd hg (h.no_building hf e)
    | drain | drainEnd | buildingNow | atOnce | admitting | sent | told => rfl
  cases f with
  | drain | drainEnd => exact hst
  | building | buildingNow | atOnce | admitting | sent | told => exact nomatch hf

/-- The drain stops. -/
theorem shrinks_stop {st : List Frame} (hs : s.stack = .drain :: st) :
    Shrinks s ((s.halt true).withStack (.drainEnd :: st)) := by
  refine ⟨fun _ => .refl _, rfl, rfl, fun e he => ?_, fun e he => ?_, ?_⟩
  · rw [hand, hs]
    exact he
  · rw [asides, hs]
    exact he
  · rw [arrivals, arrivals, hs]
    exact .refl _

/-- An idle note may be forgotten. -/
theorem shrinks_unnote {n : Note} (hn : n.isIdle) : Shrinks (s.note n) s :=
  ⟨fun _ => .refl _, (shrinks_note hn).story.symm, rfl, fun _ h => h, fun _ h => h, .refl _⟩

namespace Ordered

theorem same (h : s.Ordered) (hlanes : t.lanes = s.lanes) (hlog : t.log = s.log)
    (hid : t.nextId = s.nextId) (hstack : t.stack = s.stack) : t.Ordered :=
  (shrinks_same hlanes hlog hid hstack).ordered h

theorem sendNow_lane (h : s.Ordered) (he : s.Next e) (hh : s.hand = []) {text : String}
    (hb : e.body = .text text) : (s.sendNow e text true true a).Ordered := by
  unfold SendPacer.sendNow
  split
  · refine (shrinks_hooked (hooked_callSent _ _)).ordered ?_
    have hsent : (s.note (.sent e [text] true true s.now)).Ordered :=
      h.sendLane he hh (by simp only [Carries, hb])
    exact hsent.same rfl rfl rfl rfl
  · exact shrinks_refuse.ordered h

theorem sendNow_direct (h : s.Ordered) (he : s.Stray e) {text : String} (hb : e.body = .text text)
    (charged : Bool) : (s.sendNow e text false charged a).Ordered := by
  have hu : ¬e.IsUnit := fun ⟨ls, hls⟩ => by simp [hb] at hls
  unfold SendPacer.sendNow
  split
  · refine (shrinks_hooked (hooked_callSent _ _)).ordered ?_
    have hsent : (s.note (.sent e [text] false charged s.now)).Ordered :=
      h.sendDirect he.aside he.hand he.arrivals (fun hn => absurd hn hu) (by simp only [Carries, hb])
    cases charged with
    | false => exact hsent
    | true => exact hsent.same rfl rfl rfl rfl
  · exact shrinks_refuse.ordered h

theorem taken_isPrefix (takes : Nat → Bool) (ls : List String) (i : Nat) :
    taken takes i ls <+: ls := by
  induction ls generalizing i with
  | nil => exact List.prefix_rfl
  | cons l ls ih =>
    unfold taken
    split
    · exact List.prefix_cons_inj l |>.mpr (ih (i + 1))
    · exact List.nil_prefix

/-- A unit goes as the note says, whichever way it goes. -/
theorem sendUnit_of {lines : List String} {charged : Bool} (h : s.Ordered)
    (hsent : ∀ went, went <+: lines →
      (s.note (.sent e went charged charged s.now)).Ordered) :
    (s.sendUnit e lines charged a).Ordered := by
  have hnote : (if taken a.takes 0 lines = [] then s
      else s.note (.sent e (taken a.takes 0 lines) charged charged s.now)).Ordered := by
    split
    · exact h
    · exact hsent _ (taken_isPrefix _ _ _)
  unfold SendPacer.sendUnit
  dsimp only
  split
  · refine (shrinks_hooked (hooked_callSent _ _)).ordered ?_
    cases charged with
    | false => exact hnote
    | true => exact hnote.same rfl rfl rfl rfl
  · refine shrinks_refuse.ordered ?_
    split
    · exact hnote.same rfl rfl rfl rfl
    · exact hnote

theorem sendUnit_lane (h : s.Ordered) (he : s.Next e) (hh : s.hand = []) {lines : List String}
    (hb : e.body = .unit lines) : (s.sendUnit e lines true a).Ordered :=
  h.sendUnit_of fun went hw => h.sendLane he hh (by simpa only [Carries, hb] using hw)

theorem sendUnit_direct (h : s.Ordered) (he : s.Stray e) (hu : s.Unseen e) {lines : List String}
    (hb : e.body = .unit lines) : (s.sendUnit e lines false a).Ordered :=
  h.sendUnit_of fun went hw => h.sendDirect he.aside he.hand he.arrivals (fun _ => hu)
    (by simpa only [Carries, hb] using hw)

theorem drainTurn (h : s.Ordered) (hshape : Shaped s.stack) {st : List Frame}
    (hs : s.stack = .drain :: st) : (s.drainTurn st a).Ordered := by
  have hst : st <:+ s.stack := hs ▸ List.suffix_cons _ _
  have hh : s.hand = [] := by
    rw [hand, hs]
    exact hand_eq_nil (hs ▸ hshape) rfl
  unfold SendPacer.drainTurn
  split
  · exact (shrinks_withStack hst).ordered h
  rename_i e he
  split
  · exact ((shrinks_withStack hst).ordered h).same rfl rfl rfl rfl
  split
  · exact ((shrinks_withStack hst).ordered h).same rfl rfl rfl rfl
  have hnext := h.take he
  have htail := (shrinks_tail (s := s) e).ordered h
  have hstop := shrinks_stop (s := s.setLane e.priority (s.lanes e.priority).tail) hs
  have hh' : ((s.setLane e.priority (s.lanes e.priority).tail |>.halt true).withStack
      (.drainEnd :: st)).hand = [] := by
    have hhs : (Frame.drain :: st).flatMap Frame.hand = [] := hand_eq_nil (hs ▸ hshape) rfl
    exact hhs
  dsimp only
  split
  · exact (shrinks_note rfl).ordered htail
  split
  · exact htail.hold hnext hh
  · rename_i hb
    split
    · exact htail.sendNow_lane hnext hh hb
    · exact (hstop.ordered htail).sendNow_lane (hstop.next hnext) hh' hb
  · rename_i hb
    split
    · exact htail.sendUnit_lane hnext hh hb
    · exact (hstop.ordered htail).sendUnit_lane (hstop.next hnext) hh' hb

theorem sendAtOnce (h : s.Ordered) (he : s.Stray e) (hu : s.Unseen e) :
    (s.sendAtOnce e a).Ordered := by
  unfold SendPacer.sendAtOnce
  split
  · exact h.sendUnit_direct he hu ‹_›
  · exact h.setAside he rfl rfl rfl
  · exact h.sendNow_direct he ‹_› _

/-- What is on the stack past the lanes may go on. -/
theorem stray_of_aside (h : s.Ordered) (he : e ∈ s.asides) : s.Stray e :=
  ⟨h.aside e he, fun b hb => (h.next b hb).apart e (List.mem_append_left _ he),
    fun x hx => (h.arriving x hx).2.1.asides e he⟩

theorem child_below (e : Entry) (i : Nat) (m : Made) : Below e (e.child i m) :=
  ⟨⟨i, rfl⟩, rfl, fun ⟨ls, hls⟩ => by cases m <;> simp [Entry.child] at hls⟩

theorem stray_below {x : Entry} (hb : Below e x) (he : s.Stray e) : s.Stray x := by
  have hr := hb.root he.aside.known
  obtain ⟨h₁, h₂, h₃, h₄, h₅⟩ := he.aside
  exact ⟨⟨hb.known h₁, hr ▸ h₂, hr ▸ h₃, hr ▸ h₄, hr ▸ h₅⟩, hr ▸ he.hand, hr ▸ he.arrivals⟩

theorem atOnceTurn (h : s.Ordered) {st : List Frame} {i : Nat} {items : List Made}
    (hs : s.stack = .atOnce e i items :: st) : (s.atOnceTurn st e i a items).Ordered := by
  have hst : st <:+ s.stack := hs ▸ List.suffix_cons _ _
  have hmem : e ∈ s.asides := by
    rw [asides, hs]
    exact List.mem_append_left _ (List.mem_singleton_self e)
  have hpop := shrinks_withStack hst
  have hstray := h.stray_of_aside hmem
  cases items with
  | nil => exact (shrinks_hooked (hooked_callSent _ _)).ordered (hpop.ordered h)
  | cons m items =>
    have hloop : (s.withStack (.atOnce e (i + 1) items :: st)).Ordered :=
      (hpop.ordered h).setAside (f := .atOnce e (i + 1) items) (hpop.stray hstray) rfl rfl rfl
    have hown : (s.withStack (.atOnce e (i + 1) items :: st)).Stray (e.child i m) :=
      stray_below (child_below e i m) (hloop.stray_of_aside List.mem_cons_self)
    have habort := shrinks_withStack ((abort_suffix st).trans hst)
    unfold SendPacer.atOnceTurn
    dsimp only
    split
    · rename_i hb
      split
      · exact hloop.sendNow_direct hown hb _
      · exact (habort.ordered h).sendNow_direct
          (habort.stray (stray_below (child_below e i m) hstray)) hb _
    · exact hloop.setAside hown rfl rfl rfl

theorem queueUp (h : s.Ordered) (he : s.Stray e) (hu : s.Unseen e) (hn : s.Newest e) :
    (s.queueUp e).Ordered := by
  unfold SendPacer.queueUp
  split
  · exact h.enqueue he hu fun _ => hn
  · rename_i k hk
    have hkey : e.key ≠ none := by simp [hk]
    split
    · exact h.replace he hu hkey _
    · exact h.arrive he hu hkey

theorem takeId (h : s.Ordered) : s.takeId.Ordered := by
  obtain ⟨hnew, -⟩ := h.admitNew (e := ⟨s.nextName, .high, none, .text "", none, false, [], false⟩) rfl
  exact (shrinks_unnote rfl).ordered hnew

theorem write (h : s.Ordered) (item : Item) (o : WriteOptions) : (s.write item o a).Ordered := by
  have hnew : ∀ e : Entry, e.name = s.nextName → (s.admitNew e).takeSeq.Ordered ∧
      (s.admitNew e).takeSeq.Stray e ∧ (s.admitNew e).takeSeq.Unseen e ∧
      (s.admitNew e).takeSeq.Newest e := by
    intro e he
    obtain ⟨h₁, h₂, h₃, h₄⟩ := h.admitNew he
    have hseq : Shrinks (s.admitNew e) (s.admitNew e).takeSeq := shrinks_same rfl rfl rfl rfl
    exact ⟨hseq.ordered h₁, hseq.stray h₂, hseq.unseen h₃, hseq.newest h₄⟩
  have hqueue : ∀ e : Entry, e.name = s.nextName → ((s.admitNew e).takeSeq.queueUp e).Ordered := by
    intro e he
    obtain ⟨h₁, h₂, h₃, h₄⟩ := hnew e he
    exact h₁.queueUp h₂ h₃ h₄
  have hnow : ∀ (e : Entry) (x : String), e.name = s.nextName → e.body = .text x →
      ((s.admitNew e).takeSeq.sendNow e x false true a).Ordered := by
    intro e x he hb
    obtain ⟨h₁, h₂, -⟩ := hnew e he
    exact h₁.sendNow_direct h₂ hb true
  have honce : ∀ e : Entry, e.name = s.nextName →
      ((s.admitNew e).takeSeq.sendAtOnce e a).Ordered := by
    intro e he
    obtain ⟨h₁, h₂, h₃, -⟩ := hnew e he
    exact h₁.sendAtOnce h₂ h₃
  unfold SendPacer.write
  split
  · exact (shrinks_hooked (hooked_tellGone _ _)).ordered h.takeId
  dsimp only
  split
  · exact honce _ rfl
  split
  · split
    · exact hnow _ _ rfl rfl
    · exact hqueue _ rfl
  · exact hqueue _ rfl

theorem unit (h : s.Ordered) (lines : List String) (p : Priority) : (s.unit lines p a).Ordered := by
  have honce : ∀ e : Entry, e.name = s.nextName → ((s.admitNew e).sendAtOnce e a).Ordered := by
    intro e he
    obtain ⟨h₁, h₂, h₃, -⟩ := h.admitNew he
    exact h₁.sendAtOnce h₂ h₃
  have hqueue : ∀ e : Entry, e.name = s.nextName → ((s.admitNew e).enqueue e).Ordered := by
    intro e he
    obtain ⟨h₁, h₂, h₃, h₄⟩ := h.admitNew he
    exact h₁.enqueue h₂ h₃ fun _ => h₄
  unfold SendPacer.unit
  split
  · exact (shrinks_hooked (hooked_tellGone _ _)).ordered h.takeId
  dsimp only
  split
  · exact honce _ rfl
  · exact hqueue _ rfl

theorem admitTurn (h : s.Ordered) (maxKeyed : Nat) {st : List Frame}
    (hs : s.stack = .admitting e :: st) : (s.admitTurn maxKeyed st e).Ordered := by
  have hpop := @shrinks_withStack s st (hs ▸ List.suffix_cons _ _)
  have harr : s.arrivals = e :: st.flatMap Frame.arriving := by
    rw [arrivals, hs]
    rfl
  have hmem : e ∈ s.arrivals := harr ▸ List.mem_cons_self
  obtain ⟨ha, hu, hk⟩ := h.arriving e hmem
  have hguests := h.guests
  rw [harr, List.pairwise_cons] at hguests
  have hstray : (s.withStack st).Stray e :=
    ⟨hpop.aside ha, fun b hb => (h.next b (hpop.hand b hb)).apart e (List.mem_append_right _ hmem),
      hguests.1⟩
  unfold SendPacer.admitTurn
  split
  · exact (hpop.trans (shrinks_hooked (hooked_tellGone _ _))).ordered h
  split
  · split
    · exact ((shrinks_removeRoot _).trans (shrinks_hooked (hooked_tellAfresh _ _))).ordered h
    · exact h
  · exact (hpop.ordered h).enqueue hstray (hpop.unseen hu) fun hn => absurd hn hk

theorem return_ (h : s.Ordered) (hshape : Shaped s.stack) (r : Return) {f : Frame}
    {st : List Frame} (hs : s.stack = f :: st) : (s.return_ st r f).Ordered := by
  have hst : st <:+ s.stack := hs ▸ List.suffix_cons _ _
  have hpop := shrinks_withStack hst
  have hpopped := hpop.ordered h
  cases f with
  | sent hooks =>
    cases r with
    | done => exact (shrinks_hooked (hooked_callSent _ _)).ordered hpopped
    | throws => exact hpopped
    | built | made => exact h
  | told set names =>
    cases r with
    | done | throws => exact (shrinks_hooked (hooked_tell _ _ _)).ordered hpopped
    | built | made => exact h
  | building e =>
    have hmem : e ∈ s.hand := by
      rw [hand, hs]
      exact List.mem_append_left _ (List.mem_singleton_self e)
    have hh : (s.withStack st).hand = [] := by
      obtain ⟨st', rfl⟩ := hshape.above [] e st hs
      rw [hs] at hshape
      exact hand_eq_nil hshape.tail rfl
    unfold SendPacer.return_
    dsimp only
    split
    · exact (shrinks_hooked (hooked_tellAfresh _ _)).ordered hpopped
    · split
      · exact hpopped.expand (hpop.next (h.next e hmem)) hh _
      · exact h
  | buildingNow e =>
    have hmem : e ∈ s.asides := by
      rw [asides, hs]
      exact List.mem_append_left _ (List.mem_singleton_self e)
    have habort := shrinks_withStack ((abort_suffix st).trans hst)
    unfold SendPacer.return_
    dsimp only
    split
    · exact (habort.trans (shrinks_hooked (hooked_refuse _ _))).ordered h
    · split
      · exact hpopped
      · exact (shrinks_note rfl).ordered
          (hpopped.setAside (hpop.stray (h.stray_of_aside hmem)) rfl rfl rfl)
      · exact h
  | drain | drainEnd | atOnce | admitting => exact h

end Ordered

/-- A cancel is not of an item whose own thunk is running with more of it waiting. -/
def NotSelfCancelled (s : SendPacer) : Event → Prop
  | .call (.cancel r) _ => s.ofRoot r ≠ [] → ∀ b ∈ s.hand, b.root ≠ r
  | _ => True

theorem Ordered.step (h : s.Ordered) (hshape : Shaped s.stack) (maxKeyed : Nat) (ev : Event)
    (hc : NotSelfCancelled s ev) : (s.step maxKeyed ev).Ordered := by
  cases ev with
  | clock t => exact h.same rfl rfl rfl rfl
  | call c a =>
    unfold SendPacer.step
    dsimp only
    split
    · cases c with
      | write item o => exact h.write item o
      | unit lines p => exact h.unit lines p
      | cancel root => exact h.cancel hc
      | redrain => exact shrinks_redrain.ordered h
      | resume => exact shrinks_drain.ordered h
      | drop => exact shrinks_drop.ordered h
      | dispose => exact shrinks_drop.ordered (h.same (t := { s with disposed := true }) rfl rfl rfl rfl)
    · exact h
  | turn a =>
    unfold SendPacer.step
    dsimp only
    split
    · rename_i f st hs
      have hst : st <:+ s.stack := hs ▸ List.suffix_cons _ _
      cases f with
      | drain => exact h.drainTurn hshape hs
      | drainEnd => exact (shrinks_withStack hst).ordered h
      | atOnce e i items => exact h.atOnceTurn hs
      | admitting e => exact h.admitTurn maxKeyed hs
      | building | buildingNow | sent | told => exact h
    · exact h
  | returns r =>
    unfold SendPacer.step
    dsimp only
    split
    · exact h.return_ hshape r ‹_›
    · exact h
  | fire =>
    unfold SendPacer.step
    dsimp only
    split
    · exact shrinks_drain.ordered (h.same (t := s.setTimer none) rfl rfl rfl rfl)
    · exact h

/-- Nothing left a lane. -/
def Kept (s t : SendPacer) : Prop := laneSent t.story = laneSent s.story

/-- At most `e` left its lane. -/
def Leaves (s t : SendPacer) (e : Entry) : Prop :=
  Kept s t ∨ laneSent t.story = laneSent s.story ++ [e]

theorem Shrinks.kept (h : Shrinks s t) : Kept s t := by rw [Kept, h.story]

theorem Kept.trans {u : SendPacer} (h : Kept s t) (h' : Kept t u) : Kept s u := Eq.trans h' h

theorem Kept.leaves {u : SendPacer} (h : Kept s t) (h' : Leaves t u e) : Leaves s u e := by
  rw [Leaves, Kept, ← h]
  exact h'

theorem leaves_note (lines : List String) (lane c : Bool) (tm : ℚ) :
    Leaves s (s.note (.sent e lines lane c tm)) e ∧
      (lane = false → Kept s (s.note (.sent e lines lane c tm))) := by
  cases lane with
  | false =>
    have hkept : Kept s (s.note (.sent e lines false c tm)) := by
      rw [Kept, Ordered.story_sent, laneSent_direct]
    exact ⟨.inl hkept, fun _ => hkept⟩
  | true =>
    refine ⟨.inr ?_, nofun⟩
    rw [Ordered.story_sent, laneSent_lane]

theorem leaves_sendNow (text : String) (lane c : Bool) :
    Leaves s (s.sendNow e text lane c a) e ∧ (lane = false → Kept s (s.sendNow e text lane c a)) := by
  unfold SendPacer.sendNow
  split
  · obtain ⟨hl, hk⟩ := leaves_note (s := s) (e := e) [text] lane c s.now
    have hrest : Kept (s.note (.sent e [text] lane c s.now))
        ((if c then (s.note (.sent e [text] lane c s.now)).charge (price a text)
          (s.note (.sent e [text] lane c s.now)).now e.unpaced
          else s.note (.sent e [text] lane c s.now)).callSent e.onSent) := by
      refine .trans ?_ (shrinks_hooked (hooked_callSent _ _)).kept
      cases c <;> rfl
    exact ⟨hl.imp (fun h => h.trans hrest) fun h => Eq.trans hrest h, fun hf => (hk hf).trans hrest⟩
  · have hkept : Kept s ((s.note .refused).refuse e) := shrinks_refuse.kept
    exact ⟨.inl hkept, fun _ => hkept⟩

theorem leaves_sendUnit (lines : List String) (c : Bool) :
    Leaves s (s.sendUnit e lines c a) e ∧ (c = false → Kept s (s.sendUnit e lines c a)) := by
  set u := if taken a.takes 0 lines = [] then s
    else s.note (.sent e (taken a.takes 0 lines) c c s.now) with hu
  have hlu : Leaves s u e ∧ (c = false → Kept s u) := by
    rw [hu]
    split
    · exact ⟨.inl rfl, fun _ => rfl⟩
    · exact leaves_note _ _ _ _
  have hrest : Kept u (s.sendUnit e lines c a) := by
    unfold SendPacer.sendUnit
    dsimp only
    rw [← hu]
    split
    · refine .trans ?_ (shrinks_hooked (hooked_callSent _ _)).kept
      cases c <;> rfl
    · refine .trans ?_ shrinks_refuse.kept
      split <;> rfl
  exact ⟨hlu.1.imp (fun h => h.trans hrest) fun h => Eq.trans hrest h,
    fun hf => (hlu.2 hf).trans hrest⟩

theorem leaves_drainTurn (st : List Frame) :
    Kept s (s.drainTurn st a) ∨ ∃ e, s.head = some e ∧ Leaves s (s.drainTurn st a) e := by
  unfold SendPacer.drainTurn
  split
  · exact .inl rfl
  rename_i e he
  refine .inr ⟨e, he, ?_⟩
  split
  · exact .inl rfl
  split
  · exact .inl rfl
  dsimp only
  have htail : Kept s (s.setLane e.priority (s.lanes e.priority).tail) := rfl
  split
  · exact .inl (htail.trans (shrinks_note rfl).kept)
  split
  · exact .inl rfl
  · split
    · exact htail.leaves (leaves_sendNow _ _ _).1
    · exact Kept.leaves (t := (s.setLane e.priority _ |>.halt true).withStack _) rfl
        (leaves_sendNow _ _ _).1
  · split
    · exact htail.leaves (leaves_sendUnit _ _).1
    · exact Kept.leaves (t := (s.setLane e.priority _ |>.halt true).withStack _) rfl
        (leaves_sendUnit _ _).1

theorem kept_sendAtOnce : Kept s (s.sendAtOnce e a) := by
  unfold SendPacer.sendAtOnce
  split
  · exact (leaves_sendUnit _ _).2 rfl
  · rfl
  · exact (leaves_sendNow _ _ _).2 rfl

theorem kept_atOnceTurn (st : List Frame) (i : Nat) (items : List Made) :
    Kept s (s.atOnceTurn st e i a items) := by
  cases items with
  | nil => exact (shrinks_hooked (hooked_callSent (s.withStack st) _)).kept
  | cons m items =>
    unfold SendPacer.atOnceTurn
    dsimp only
    split
    · split
      · exact (leaves_sendNow (s := s.withStack _) _ _ _).2 rfl
      · exact (leaves_sendNow (s := s.withStack _) _ _ _).2 rfl
    · rfl

theorem kept_queued (u : SendPacer) : Kept u (u.note (.queued e)) := by
  rw [Kept, Ordered.story_queued]
  exact (laneSent_idle (by simp)).1

theorem kept_enqueue : Kept s (s.enqueue e) :=
  (kept_queued (s.setLane e.priority (s.lanes e.priority ++ [e]))).trans shrinks_redrain.kept

theorem kept_queueUp : Kept s (s.queueUp e) := by
  unfold SendPacer.queueUp
  split
  · exact kept_enqueue
  split
  · exact kept_queued _
  · rfl

theorem kept_admitNew : Kept s (s.admitNew e) := (shrinks_note (s := s.takeId) rfl).kept

theorem kept_call (c : Call) : Kept s (s.call a c) := by
  have hgone : Kept s (s.takeId.tellGone s.nextName) :=
    (shrinks_hooked (hooked_tellGone s.takeId _)).kept
  cases c with
  | write item o =>
    change Kept s (s.write item o a)
    unfold SendPacer.write
    split
    · exact hgone
    dsimp only
    have hnew : ∀ e, Kept s (s.admitNew e).takeSeq := fun e => kept_admitNew
    split
    · exact (hnew _).trans kept_sendAtOnce
    split
    · split
      · exact (hnew _).trans ((leaves_sendNow _ _ _).2 rfl)
      · exact (hnew _).trans kept_queueUp
    · exact (hnew _).trans kept_queueUp
  | unit lines p =>
    change Kept s (s.unit lines p a)
    unfold SendPacer.unit
    split
    · exact hgone
    dsimp only
    split
    · exact kept_admitNew.trans kept_sendAtOnce
    · exact kept_admitNew.trans kept_enqueue
  | cancel root =>
    change Kept s (s.cancel root)
    unfold SendPacer.cancel
    split
    · rfl
    · have hst : ((s.removeRoot root).note (.cancelled root)).story =
          s.story ++ [.cancelled root] := by
        simp [story, note, removeRoot, Outbound.story, Note.isIdle]
      rw [Kept, hst]
      exact (laneSent_idle (by simp)).1
  | redrain => exact shrinks_redrain.kept
  | resume => exact shrinks_drain.kept
  | drop => exact shrinks_drop.kept
  | dispose => exact (shrinks_drop (s := { s with disposed := true })).kept

theorem kept_admitTurn (maxKeyed : Nat) {st : List Frame} : Kept s (s.admitTurn maxKeyed st e) := by
  unfold SendPacer.admitTurn
  split
  · exact (shrinks_hooked (hooked_tellGone (s.withStack st) _)).kept
  split
  · split
    · exact ((shrinks_removeRoot _).trans (shrinks_hooked (hooked_tellAfresh _ _))).kept
    · rfl
  · exact kept_enqueue (s := s.withStack st)

theorem kept_return (r : Return) {f : Frame} {st : List Frame} : Kept s (s.return_ st r f) := by
  have hpop : ∀ st', Kept s (s.withStack st') := fun _ => rfl
  cases f with
  | sent hooks =>
    cases r with
    | done => exact (hpop st).trans (shrinks_hooked (hooked_callSent _ _)).kept
    | throws | built | made => rfl
  | told set names =>
    cases r with
    | done | throws => exact (hpop st).trans (shrinks_hooked (hooked_tell _ _ _)).kept
    | built | made => rfl
  | building e =>
    unfold SendPacer.return_
    dsimp only
    split
    · exact (hpop st).trans (shrinks_hooked (hooked_tellAfresh _ _)).kept
    · split
      · exact (shrinks_note (s := (s.withStack st).setLane _ _) rfl).kept
      · rfl
  | buildingNow e =>
    unfold SendPacer.return_
    dsimp only
    split
    · exact (hpop _).trans (shrinks_hooked (hooked_refuse _ _)).kept
    · split
      · rfl
      · exact (shrinks_note (s := s.withStack _) rfl).kept
      · rfl
  | drain | drainEnd | atOnce | admitting => rfl

/-- A line leaves a lane only from its front, when no higher lane has any. -/
def HighestFirst (s t : SendPacer) : Prop :=
  laneSent t.story = laneSent s.story ∨
    ∃ e, laneSent t.story = laneSent s.story ++ [e] ∧
      s.lanes e.priority = e :: (s.lanes e.priority).tail ∧
      ∀ p, p.rank < e.priority.rank → s.lanes p = []

theorem highestFirst_step (h : s.Ordered) (maxKeyed : Nat) (ev : Event) :
    HighestFirst s (s.step maxKeyed ev) := by
  cases ev with
  | clock t => exact .inl rfl
  | call c a =>
    unfold SendPacer.step
    dsimp only
    split
    · exact .inl (kept_call c)
    · exact .inl rfl
  | turn a =>
    unfold SendPacer.step
    dsimp only
    split
    · rename_i f st hs
      cases f with
      | drain =>
        rcases leaves_drainTurn (s := s) (a := a) st with hk | ⟨e, he, hk | hl⟩
        · exact .inl hk
        · exact .inl hk
        · exact .inr ⟨e, hl, h.head_lane he⟩
      | atOnce e i items => exact .inl (kept_atOnceTurn st i items)
      | admitting e => exact .inl (kept_admitTurn maxKeyed)
      | drainEnd | building | buildingNow | sent | told => exact .inl rfl
    · exact .inl rfl
  | returns r =>
    unfold SendPacer.step
    dsimp only
    split
    · exact .inl (kept_return r)
    · exact .inl rfl
  | fire =>
    unfold SendPacer.step
    dsimp only
    split
    · exact .inl (shrinks_drain (s := s.setTimer none)).kept
    · exact .inl rfl

/-- `e` stands where `q` stood, and nothing else moved. -/
def InPlaceOf (s t : SendPacer) (q e : Entry) : Prop :=
  e.priority = q.priority ∧ e.seq = q.seq ∧
    ∃ pre post, s.lanes q.priority = pre ++ q :: post ∧ t.lanes q.priority = pre ++ e :: post ∧
      ∀ p, p ≠ q.priority → t.lanes p = s.lanes p

/-- A keyed write whose key waits already takes its predecessor's place. -/
def KeepsPlace (maxKeyed : Nat) (s : SendPacer) : Prop :=
  ∀ item o a k q, s.foreign = true → s.disposed = false → a.ready = true → o.key = some k →
    (∀ x, item = .text x → immediate x = false) → s.findKey k = some q →
    ∃ e, e.name = s.nextName ∧ e.key = some k ∧
      InPlaceOf s (s.step maxKeyed (.call (.write item o) a)) q e

theorem inPlaceOf_replace (h : s.Ordered) {u : SendPacer} (hu : u.lanes = s.lanes) {k : String}
    {q : Entry} (hq : s.findKey k = some q) (e : Entry) :
    InPlaceOf s (u.replace q e) q { e with priority := q.priority, seq := q.seq } := by
  have hmem : q ∈ s.lanes q.priority := by
    have hall : q ∈ s.all := List.mem_of_find?_eq_some hq
    simp only [all, List.mem_append] at hall
    rcases hall with (hm | hm) | hm
    · rw [h.home _ q hm]
      exact hm
    · rw [h.home _ q hm]
      exact hm
    · rw [h.home _ q hm]
      exact hm
  obtain ⟨pre, post, hl⟩ := List.append_of_mem hmem
  have hpair := h.lines q.priority
  rw [hl, List.pairwise_append, List.pairwise_cons] at hpair
  obtain ⟨-, ⟨hpost, -⟩, hpre⟩ := hpair
  have hirrefl : ¬Before (Keyed s.story) q q := fun hb => TreePath.Precedes.irrefl _ (hb.same rfl)
  -- the predecessor stands in its lane once
  have hid : ∀ (x y : Entry) (l : List Entry), y ∉ l → l.map (fun z => if z = y then x else z) = l := by
    intro x y l hy
    refine (List.map_congr_left fun z hz => if_neg ?_).trans (List.map_id l)
    rintro rfl
    exact hy hz
  refine ⟨rfl, rfl, pre, post, hl, ?_, fun p hp => ?_⟩
  · change (u.setLane q.priority _).lanes q.priority = _
    rw [lanes_setLane, hu, hl, List.map_append, List.map_cons, if_pos rfl,
      hid _ _ pre fun hm => hirrefl (hpre q hm q List.mem_cons_self),
      hid _ _ post fun hm => hirrefl (hpost q hm)]
  · change (u.setLane q.priority _).lanes p = _
    rw [lanes_setLane_of_ne hp, hu]

theorem keepsPlace (h : s.Ordered) (maxKeyed : Nat) : KeepsPlace maxKeyed s := by
  intro item o a k q hfor hdis hready hkey hitem hq
  have hplace : ∀ e : Entry, e.name = s.nextName → e.key = some k →
      ∃ e', e'.name = s.nextName ∧ e'.key = some k ∧
        InPlaceOf s ((s.admitNew e).takeSeq.queueUp e) q e' := by
    intro e hname hk
    have hq' : (s.admitNew e).takeSeq.findKey k = some q := hq
    have hqueue : (s.admitNew e).takeSeq.queueUp e = (s.admitNew e).takeSeq.replace q e := by
      unfold queueUp
      simp only [hk, hq']
    rw [hqueue]
    exact ⟨{ e with priority := q.priority, seq := q.seq }, hname, hk,
      inPlaceOf_replace (u := (s.admitNew e).takeSeq) h rfl hq e⟩
  have hstep : s.step maxKeyed (.call (.write item o) a) = s.write item o a := by
    unfold SendPacer.step
    dsimp only
    rw [if_pos hfor]
    rfl
  rw [hstep]
  unfold SendPacer.write
  dsimp only
  rw [if_neg (by simp [hdis]), if_neg (by simp [hready])]
  cases item with
  | text x =>
    dsimp only
    rw [if_neg (by simp [hitem x rfl])]
    exact hplace _ rfl hkey
  | thunk => exact hplace _ rfl hkey

theorem ordered_init : Ordered {} where
  home _ _ h := absurd h List.not_mem_nil
  lines _ := .nil
  across _ _ _ _ h := absurd h List.not_mem_nil
  known _ _ h := absurd h List.not_mem_nil
  isOpen _ _ h := absurd h List.not_mem_nil
  past _ h := absurd h List.not_mem_nil
  next _ h := absurd h List.not_mem_nil
  aside _ h := absurd h List.not_mem_nil
  arriving _ h := absurd h List.not_mem_nil
  guests := .nil
  order := .nil
  units := ⟨fun _ h => absurd h List.not_mem_nil, .nil⟩
  cancels := .nil
  sent _ h := absurd h List.not_mem_nil
  queued _ h := absurd h List.not_mem_nil
  cancelled _ h := absurd h List.not_mem_nil

/-- Wire order is lane order, over every run that cancels no item from inside its own thunk. -/
theorem wire_order (maxKeyed : Nat) (evs : List Event)
    (hrun : Run.Within (SendPacer.step maxKeyed) NotSelfCancelled {} evs) :
    let s := Run.after (SendPacer.step maxKeyed) {} evs
    (∀ ev, HighestFirst s (s.step maxKeyed ev)) ∧ LaneOrder s.story ∧ UnitsWhole s.story ∧
      KeepsPlace maxKeyed s ∧ CancelHolds s.story := by
  have hinv : Shaped (Run.after (SendPacer.step maxKeyed) {} evs).stack ∧
      Ordered (Run.after (SendPacer.step maxKeyed) {} evs) :=
    Run.invariant_within (P := fun s => Shaped s.stack ∧ Ordered s) (SendPacer.step maxKeyed)
      ⟨.nil, ordered_init⟩
      (fun s ev h hc => ⟨shaped_step maxKeyed ev h.1, h.2.step h.1 maxKeyed ev hc⟩) evs hrun
  obtain ⟨-, h⟩ := hinv
  exact ⟨highestFirst_step h maxKeyed, h.order, h.units, keepsPlace h maxKeyed, h.cancels⟩

/-- Two items, the first a thunk that is cancelled before its turn. -/
def cancelledInTime : List Event :=
  [.call (.write .thunk {}) {}, .call (.write (.text "NICK a") {}) {}, .call (.cancel 0) {},
    .turn {}, .turn {}]

theorem wire_order_cancelled :
    let s := Run.after (SendPacer.step 20) {} cancelledInTime
    (∀ ev, HighestFirst s (s.step 20 ev)) ∧ LaneOrder s.story ∧ UnitsWhole s.story ∧
      KeepsPlace 20 s ∧ CancelHolds s.story := by
  refine wire_order 20 cancelledInTime ⟨trivial, trivial, ?_, trivial, trivial, trivial⟩
  have hempty : (Run.after (SendPacer.step 20) {} (cancelledInTime.take 2)).hand = [] := by
    decide +kernel
  exact fun _ b hb => absurd (hempty ▸ hb : b ∈ []) List.not_mem_nil

/-- A thunk makes a thunk and a line; the inner one cancels the item, which
returns true, and makes a line. -/
def cancelledInside : List Event :=
  [.call (.write .thunk {}) {}, .turn {}, .returns (.built [.thunk, .text "b"]), .turn {},
    .call (.cancel 0) {}, .returns (.built [.text "a"]), .turn {}]

/-- The line that goes after its item's cancel returned true. -/
def sentAfter : Entry :=
  { name := [0, 0, 0], priority := .normal, body := .text "a", onSent := [[0, 0, 0]] }

theorem cancelled_item_sent :
    ¬CancelHolds (Run.after (SendPacer.step 20) {} cancelledInside).story := by
  have hstory : (Run.after (SendPacer.step 20) {} cancelledInside).story =
      [.queued { name := [0], priority := .normal, seq := some 0, body := .build false
                 onSent := [[0]] }] ++
        .cancelled 0 :: [.sent sentAfter ["a"] true true 0] := by
    decide +kernel
  rw [hstory]
  intro h
  exact (List.pairwise_cons.mp (List.pairwise_append.mp h).2.1).1 _ (List.mem_singleton_self _) rfl

end SendPacer

end Lurker.Outbound
