import Mathlib.Data.List.Chain
import Lurker.Outbound.Stack

/-!
# Writes that make room

The loop that makes room for a keyed item runs no code of its own: a step is
taken on top of it only by the hooks of what it dropped. So only such a hook
stands right above the loop, and the loop goes on in the state its last hook
left. `Rests` is what every other operation does: it ends on a stack whose top
is no such loop.
-/

namespace Lurker.Outbound

/-- The loop that makes room for a keyed item. -/
def Frame.isAdmitting : Frame → Bool
  | .admitting _ => true
  | _ => false

/-- The hook of a dropped item. -/
def Frame.isTold : Frame → Bool
  | .told .. => true
  | _ => false

/-- On a loop that makes room stands nothing but the hook of what it dropped. -/
def Hosted (st : List Frame) : Prop := st.IsChain fun f g => g.isAdmitting → f.isTold

/-- No loop that makes room is on top. -/
def Free (st : List Frame) : Prop := ∀ f ∈ st.head?, f.isAdmitting = false

theorem not_admitting_of_isHook {f : Frame} (h : f.isHook) : f.isAdmitting = false := by
  cases f <;> simp_all [Frame.isHook, Frame.isAdmitting]

namespace Hosted

variable {st fs : List Frame} {f : Frame}

theorem suffix (h : Hosted st) {st' : List Frame} (hs : st' <:+ st) : Hosted st' :=
  List.IsChain.suffix h hs

/-- Below a frame that is no such hook, no loop makes room. -/
theorem free_tail (h : Hosted (f :: st)) (hf : f.isTold = false) : Free st := by
  intro g hg
  obtain ⟨st', rfl⟩ := List.head?_eq_some_iff.mp hg
  cases ha : g.isAdmitting with
  | false => rfl
  | true =>
    have htold := (List.isChain_cons_cons.mp h).1 ha
    rw [hf] at htold
    exact absurd htold Bool.false_ne_true

theorem cons (h : Hosted st) (hf : Free st ∨ f.isTold = true) : Hosted (f :: st) := by
  cases st with
  | nil => exact List.isChain_singleton f
  | cons g st =>
    refine List.isChain_cons_cons.mpr ⟨fun ha => ?_, h⟩
    rcases hf with hfree | htold
    · rw [hfree g rfl] at ha
      exact absurd ha Bool.false_ne_true
    · exact htold

theorem append (h : Hosted st) (hfree : Free st) (hfs : ∀ f ∈ fs, f.isAdmitting = false) :
    Hosted (fs ++ st) ∧ Free (fs ++ st) := by
  induction fs with
  | nil => exact ⟨h, hfree⟩
  | cons f fs ih =>
    obtain ⟨hrest, hfree'⟩ := ih fun g hg => hfs g (List.mem_cons_of_mem f hg)
    refine ⟨hrest.cons (.inl hfree'), fun g hg => ?_⟩
    obtain rfl := Option.some.inj hg
    exact hfs f List.mem_cons_self

/-- What an aborted build leaves is no loop that makes room. -/
theorem free_abort (h : Hosted (f :: st)) (hf : f.isTold = false) :
    Free (SendPacer.abort st) := by
  induction st generalizing f with
  | nil => exact fun g hg => nomatch hg
  | cons g st ih =>
    unfold SendPacer.abort
    cases hg : g.isAtOnce with
    | true =>
      rw [List.dropWhile_cons_of_pos hg]
      refine ih (h.suffix (List.suffix_cons f _)) ?_
      cases g <;> simp_all [Frame.isAtOnce, Frame.isTold]
    | false =>
      rw [List.dropWhile_cons_of_neg (by simp [hg])]
      exact h.free_tail hf

end Hosted

namespace SendPacer

/-- The stack ends on a part of what it was, with no loop that makes room on top, and above
it are frames that are none. -/
def Rests (s t : SendPacer) : Prop :=
  ∃ fs st, t.stack = fs ++ st ∧ st <:+ s.stack ∧ Free st ∧ ∀ f ∈ fs, f.isAdmitting = false

namespace Rests

variable {s t u : SendPacer} {e : Entry} {a : Answers} {f : Frame} {st : List Frame}

theorem hosted (h : Rests s t) (hs : Hosted s.stack) : Hosted t.stack ∧ Free t.stack := by
  obtain ⟨fs, st, hstack, hst, hfree, hfs⟩ := h
  rw [hstack]
  exact (hs.suffix hst).append hfree hfs

theorem refl (h : Free s.stack) : Rests s s :=
  ⟨[], s.stack, rfl, List.suffix_refl _, h, fun _ hf => absurd hf List.not_mem_nil⟩

theorem same (h : Rests s t) (hstack : u.stack = t.stack) : Rests s u := by
  obtain ⟨fs, st, hst⟩ := h
  exact ⟨fs, st, hstack ▸ hst⟩

theorem push (h : Rests s t) (hf : f.isAdmitting = false) : Rests s (t.push f) := by
  obtain ⟨fs, st, hstack, hst, hfree, hfs⟩ := h
  refine ⟨f :: fs, st, congrArg (f :: ·) hstack, hst, hfree, fun g hg => ?_⟩
  rcases List.mem_cons.mp hg with rfl | hg
  · exact hf
  · exact hfs g hg

theorem hooked (h : Rests s t) (hh : Hooked t u) : Rests s u := by
  obtain ⟨fs, st, hstack, hst, hfree, hfs⟩ := h
  obtain ⟨hooks, hstack', hhooks⟩ := hh.stack
  refine ⟨hooks ++ fs, st, by rw [hstack', hstack, List.append_assoc], hst, hfree, fun g hg => ?_⟩
  rcases List.mem_append.mp hg with hg | hg
  · exact not_admitting_of_isHook (hhooks g hg)
  · exact hfs g hg

/-- The frame on top is done with. -/
theorem pop (hs : s.stack = f :: st) (hhost : Hosted s.stack) (hf : f.isTold = false) :
    Rests s (s.withStack st) := by
  rw [hs] at hhost
  exact ⟨[], st, rfl, hs ▸ List.suffix_cons f st, hhost.free_tail hf,
    fun _ hg => absurd hg List.not_mem_nil⟩

theorem popAbort (hs : s.stack = f :: st) (hhost : Hosted s.stack) (hf : f.isTold = false) :
    Rests s (s.withStack (abort st)) := by
  rw [hs] at hhost
  exact ⟨[], abort st, rfl, (abort_suffix st).trans (hs ▸ List.suffix_cons f st),
    hhost.free_abort hf, fun _ hg => absurd hg List.not_mem_nil⟩

theorem drain (h : Rests s t) : Rests s t.drain := by
  unfold SendPacer.drain
  split
  · exact h
  · exact (h.same (u := t.halt false) rfl).push rfl

theorem redrain (h : Rests s t) : Rests s t.redrain := by
  unfold SendPacer.redrain
  split
  · exact h.drain
  · exact drain (h.same rfl)

theorem enqueue (h : Rests s t) (e : Entry) : Rests s (t.enqueue e) := redrain (h.same rfl)

theorem sendNow (h : Rests s t) (text : String) (lane charged : Bool) :
    Rests s (t.sendNow e text lane charged a) := by
  unfold SendPacer.sendNow
  split
  · refine hooked (h.same ?_) (hooked_callSent _ _)
    cases charged <;> rfl
  · exact (h.same (u := t.note .refused) rfl).hooked (hooked_refuse _ _)

theorem sendUnit (h : Rests s t) (lines : List String) (charged : Bool) :
    Rests s (t.sendUnit e lines charged a) := by
  have hnote (went : List String) : Rests s (if went = [] then t
      else t.note (.sent e went charged charged t.now)) := by
    split
    · exact h
    · exact h.same rfl
  unfold SendPacer.sendUnit
  dsimp only
  split
  · refine hooked (same (hnote (taken a.takes 0 lines)) ?_) (hooked_callSent _ _)
    cases charged <;> rfl
  · refine hooked (same (hnote (taken a.takes 0 lines)) ?_) (hooked_refuse _ _)
    split <;> rfl

theorem sendAtOnce (h : Rests s t) : Rests s (t.sendAtOnce e a) := by
  unfold SendPacer.sendAtOnce
  split
  · exact h.sendUnit _ _
  · exact h.push rfl
  · exact h.sendNow _ _ _

theorem drainTurn (hs : s.stack = .drain :: st) (hhost : Hosted s.stack) :
    Rests s (s.drainTurn st a) := by
  have hpop := pop hs hhost rfl
  have htop : Rests s s := refl fun f hf => by
    rw [hs] at hf
    obtain rfl := Option.some.inj hf
    rfl
  have htail (e : Entry) : Rests s (s.setLane e.priority (s.lanes e.priority).tail) := htop.same rfl
  have hstop (e : Entry) : Rests s (((s.setLane e.priority (s.lanes e.priority).tail).halt
      true).withStack (.drainEnd :: st)) :=
    (hpop.push (f := .drainEnd) rfl).same rfl
  unfold SendPacer.drainTurn
  split
  · exact hpop
  split
  · exact hpop.same rfl
  split
  · exact hpop.same rfl
  dsimp only
  rename_i e _ _ _
  split
  · exact (htail e).same rfl
  split
  · exact (htail e).push rfl
  · split
    · exact (htail _).sendNow _ _ _
    · exact (hstop _).sendNow _ _ _
  · split
    · exact (htail _).sendUnit _ _
    · exact (hstop _).sendUnit _ _

theorem atOnceTurn {i : Nat} {items : List Made} (hs : s.stack = .atOnce e i items :: st)
    (hhost : Hosted s.stack) : Rests s (s.atOnceTurn st e i a items) := by
  have hpop := pop hs hhost rfl
  cases items with
  | nil => exact hpop.hooked (hooked_callSent _ _)
  | cons m items =>
    have hloop : Rests s (s.withStack (.atOnce e (i + 1) items :: st)) :=
      hpop.push (f := .atOnce e (i + 1) items) rfl
    unfold SendPacer.atOnceTurn
    dsimp only
    split
    · split
      · exact hloop.sendNow _ _ _
      · exact (popAbort hs hhost rfl).sendNow _ _ _
    · exact hloop.push rfl

theorem drop (h : Rests s t) : Rests s t.drop :=
  hooked (h.same (u := ({ t.newSet with lanes := fun _ => [], since := 0, timer := none,
                                          refusal := t.nextSet } : SendPacer).note .dropped) rfl)
    (hooked_tell _ _ _)

end Rests

variable {s t : SendPacer} {e : Entry} {a : Answers}

theorem tell_stack (s : SendPacer) (set : Nat) (names : List Name) :
    ((s.tell set names).stack = s.stack ∧ ∀ p ∈ names, p ∈ s.sets set) ∨
      ∃ rest, (s.tell set names).stack = .told set rest :: s.stack := by
  induction names with
  | nil => exact .inl ⟨rfl, fun p hp => absurd hp List.not_mem_nil⟩
  | cons p names ih =>
    unfold tell
    split
    · rename_i hp
      refine ih.imp_left fun h => ⟨h.1, fun q hq => ?_⟩
      rcases List.mem_cons.mp hq with rfl | hq
      · exact hp
      · exact h.2 q hq
    · exact .inr ⟨names, rfl⟩

theorem tell_of_told {set : Nat} {names : List Name} (h : ∀ p ∈ names, p ∈ s.sets set) :
    s.tell set names = s := by
  induction names with
  | nil => rfl
  | cons p names ih =>
    unfold tell
    rw [if_pos (h p List.mem_cons_self)]
    exact ih fun q hq => h q (List.mem_cons_of_mem p hq)

/-- What is dropped is told: none of it was told before. -/
theorem tellAfresh_stack (s : SendPacer) {names : List Name} (h : names ≠ []) :
    ∃ set rest, (s.tellAfresh names).stack = .told set rest :: s.stack := by
  rcases tell_stack s.newSet s.nextSet names with ⟨-, hall⟩ | ⟨rest, hstack⟩
  · obtain ⟨p, ps, rfl⟩ := List.exists_cons_of_ne_nil h
    have hp := hall p List.mem_cons_self
    simp [newSet] at hp
  · exact ⟨s.nextSet, rest, hstack⟩

theorem chain_ne_nil {p : Name} (h : p ≠ []) : chain p ≠ [] := by
  simpa [chain] using h

/-- What a step does to a loop that makes room, and what it leaves on top when that is one. -/
inductive Onto (s : SendPacer) (ev : Event) (t : SendPacer) : Prop
  | rests (h : Rests s t)
  | same (stack : t.stack = s.stack) (lanes : t.lanes = s.lanes) (disposed : t.disposed = s.disposed)
  /-- A write found no predecessor under its key. -/
  | asks (e : Entry) (k : String) (free : Free s.stack) (stack : t.stack = .admitting e :: s.stack)
      (key : e.key = some k) (none : t.findKey k = none)
  /-- The hook of what was dropped runs. -/
  | drops (set : Nat) (names : List Name) (stack : t.stack = .told set names :: s.stack)
  /-- Such a hook returns, and the next one runs, if one is left. -/
  | told (set : Nat) (names : List Name) (st : List Frame) (r : Return) (event : ev = .returns r)
      (ends : r = .done ∨ r = .throws) (top : s.stack = .told set names :: st)
      (tells : t = (s.withStack st).tell set names)

theorem onto_queueUp (hfree : Free s.stack) (hstack : t.stack = s.stack) (ev : Event) :
    Onto s ev (t.queueUp e) := by
  have hrests : Rests s t := (Rests.refl hfree).same hstack
  unfold queueUp
  split
  · exact .rests (hrests.enqueue e)
  · next k hkey =>
    split
    · exact .rests (hrests.same rfl)
    · next hnone => exact .asks e k hfree (congrArg (Frame.admitting e :: ·) hstack) hkey hnone

theorem onto_write (hfree : Free s.stack) (item : Item) (o : WriteOptions) (ev : Event) :
    Onto s ev (s.write item o a) := by
  have hnew (e : Entry) : Rests s (s.admitNew e).takeSeq := (Rests.refl hfree).same rfl
  have hqueue (e : Entry) : Onto s ev ((s.admitNew e).takeSeq.queueUp e) :=
    onto_queueUp (t := (s.admitNew e).takeSeq) hfree rfl ev
  unfold SendPacer.write
  split
  · exact .rests (((Rests.refl hfree).same (u := s.takeId) rfl).hooked (hooked_tellGone _ _))
  dsimp only
  split
  · exact .rests (hnew _).sendAtOnce
  split
  · split
    · exact .rests ((hnew _).sendNow _ _ _)
    · exact hqueue _
  · exact hqueue _

theorem onto_call (hfree : Free s.stack) (c : Call) (ev : Event) : Onto s ev (s.call a c) := by
  have hrests : Rests s s := .refl hfree
  cases c with
  | write item o => exact onto_write hfree item o ev
  | unit lines p =>
    have hnew (e : Entry) : Rests s (s.admitNew e) := hrests.same rfl
    show Onto s ev (s.unit lines p a)
    unfold SendPacer.unit
    split
    · exact .rests ((hrests.same (u := s.takeId) rfl).hooked (hooked_tellGone _ _))
    dsimp only
    split
    · exact .rests (hnew _).sendAtOnce
    · exact .rests ((hnew _).enqueue _)
  | cancel root =>
    show Onto s ev (s.cancel root)
    unfold cancel
    split
    · exact .rests hrests
    · exact .rests (hrests.same rfl)
  | redrain => exact .rests hrests.redrain
  | resume => exact .rests hrests.drain
  | drop => exact .rests hrests.drop
  | dispose => exact .rests (Rests.drop (hrests.same rfl))

theorem onto_admitTurn (maxKeyed : Nat) {st : List Frame} (hs : s.stack = .admitting e :: st)
    (hhost : Hosted s.stack) (hnamed : ∀ q ∈ s.keyed, q ∈ s.all ∧ q.name ≠ []) :
    Onto s (.turn a) (s.admitTurn maxKeyed st e) := by
  have hpop := Rests.pop hs hhost rfl
  unfold admitTurn
  split
  · exact .rests (hpop.hooked (hooked_tellGone _ _))
  split
  · split
    · next q hq =>
      obtain ⟨hmem, hname⟩ := hnamed q (List.mem_of_mem_head? hq)
      have hroot : q ∈ s.ofRoot q.root := List.mem_filter.mpr ⟨hmem, by simp⟩
      have hnames : (s.ofRoot q.root).flatMap (fun x => chain x.name) ≠ [] := by
        intro hnil
        exact chain_ne_nil hname (List.flatMap_eq_nil_iff.mp hnil q hroot)
      obtain ⟨set, rest, hstack⟩ := tellAfresh_stack (s.removeRoot q.root) hnames
      exact .drops set rest hstack
    · exact .same rfl rfl rfl
  · exact .rests (hpop.enqueue e)

theorem onto_turn (maxKeyed : Nat) {f : Frame} {st : List Frame} (hs : s.stack = f :: st)
    (hhost : Hosted s.stack) (hnamed : ∀ q ∈ s.keyed, q ∈ s.all ∧ q.name ≠ []) :
    Onto s (.turn a) (s.turn maxKeyed st a f) := by
  cases f with
  | drain => exact .rests (.drainTurn hs hhost)
  | drainEnd => exact .rests (.pop hs hhost rfl)
  | atOnce e i items => exact .rests (.atOnceTurn hs hhost)
  | admitting e => exact onto_admitTurn maxKeyed hs hhost hnamed
  | building | buildingNow | sent | told => exact .same rfl rfl rfl

theorem onto_return (r : Return) {f : Frame} {st : List Frame} (hs : s.stack = f :: st)
    (hhost : Hosted s.stack) : Onto s (.returns r) (s.return_ st r f) := by
  cases f with
  | sent hooks =>
    have hpop := Rests.pop hs hhost rfl
    cases r with
    | done => exact .rests (hpop.hooked (hooked_callSent _ _))
    | throws => exact .rests hpop
    | built | made => exact .same rfl rfl rfl
  | told set names =>
    cases r with
    | done => exact .told set names st _ rfl (.inl rfl) hs rfl
    | throws => exact .told set names st _ rfl (.inr rfl) hs rfl
    | built | made => exact .same rfl rfl rfl
  | building e =>
    have hpop := Rests.pop hs hhost rfl
    unfold SendPacer.return_
    dsimp only
    split
    · exact .rests (hpop.hooked (hooked_tellAfresh _ _))
    · split
      · exact .rests (hpop.same rfl)
      · exact .same rfl rfl rfl
  | buildingNow e =>
    have hpop := Rests.pop hs hhost rfl
    unfold SendPacer.return_
    dsimp only
    split
    · exact .rests ((Rests.popAbort hs hhost rfl).hooked (hooked_refuse _ _))
    · split
      · exact .rests hpop
      · exact .rests ((hpop.push (f := .atOnce e 0 _) rfl).same rfl)
      · exact .same rfl rfl rfl
  | drain | drainEnd | atOnce | admitting => exact .same rfl rfl rfl

theorem onto_step (maxKeyed : Nat) (hhost : Hosted s.stack)
    (hnamed : ∀ q ∈ s.keyed, q ∈ s.all ∧ q.name ≠ []) (ev : Event) :
    Onto s ev (s.step maxKeyed ev) := by
  cases ev with
  | clock t => exact .same rfl rfl rfl
  | call c a =>
    unfold step
    dsimp only
    split
    · next hforeign =>
      refine onto_call (fun f hf => ?_) c _
      rw [foreign, Option.all_eq_true] at hforeign
      have hf := hforeign f hf
      cases f <;> simp_all [Frame.isForeign, Frame.isAdmitting]
    · exact .same rfl rfl rfl
  | turn a =>
    unfold step
    dsimp only
    split
    · next hs => exact onto_turn maxKeyed hs hhost hnamed
    · exact .same rfl rfl rfl
  | returns r =>
    unfold step
    dsimp only
    split
    · next hs => exact onto_return r hs hhost
    · exact .same rfl rfl rfl
  | fire =>
    unfold step
    dsimp only
    split
    · next h =>
      refine .rests (Rests.drain ((Rests.refl fun f hf => ?_).same (u := s.setTimer none) rfl))
      rw [h.1] at hf
      exact nomatch hf
    · exact .same rfl rfl rfl

theorem Onto.hosted {ev : Event} (h : Onto s ev t) (hs : Hosted s.stack) : Hosted t.stack := by
  cases h with
  | rests h => exact (h.hosted hs).1
  | same stack lanes disposed => rwa [stack]
  | asks e k free stack key none => exact stack ▸ hs.cons (.inl free)
  | drops set names stack => exact stack ▸ hs.cons (.inr rfl)
  | told set names st r event ends top tells =>
    rw [top] at hs
    have htail := hs.suffix (List.suffix_cons _ st)
    rcases tell_stack (s.withStack st) set names with ⟨hstack, -⟩ | ⟨rest, hstack⟩
    · rw [tells, hstack]
      exact htail
    · rw [tells, hstack]
      exact htail.cons (.inr rfl)

end SendPacer

end Lurker.Outbound
