import Mathlib.Data.List.Pairwise
import Lurker.Replies.Lives

/-!
# Turns

A query whose replies name nothing is out alone of its kind, whatever the server, the clients
and the clock do. So such a reply is for the one query whose turn it is, and a query that waits
has one to wait for.
-/

namespace Lurker.Replies

open Irc (Str)
open Irc.History (QueryEnd)

attribute [local instance] Irc.str_lawfulBEq

/-- Two queries that may be out together. -/
def Apart (a b : Query) : Prop := a.form = b.form → a.form ∉ WAITS

theorem Apart.symm {a b : Query} (h : Apart a b) : Apart b a := fun heq => heq.symm ▸ h heq.symm

instance : Std.Symm Apart := ⟨fun _ _ => Apart.symm⟩

/-- The lines a query of a form may be owed. -/
def wantsOf : Form → List Str
  | .mode => ["329".toList]
  | .topic => ["333".toList]
  | .modelist => ["368", "349", "347", "729"].map String.toList
  | form => (END_AFTER_ERROR form).toList

/-- The queries out keep their turns, each that waits waits for one, if it is not spared, and
what is owed follows. -/
structure Turns (env : Env) (spared : Query → Prop) (r : Router) : Prop where
  apart : r.ahead.Pairwise Apart
  behind : ∀ w ∈ r.waiting, spared w ∨ ∃ o ∈ r.ahead, Router.blocks env o w = true
  owed : ∀ q wants, r.settle = some (q, wants) → wants ∈ wantsOf q.form

section Blocks

variable {env : Env} {o o' q w : Query}

theorem blocks_fold {env' : Env} (h : env'.fold = env.fold) (o q : Query) :
    Router.blocks env' o q = Router.blocks env o q := by
  simp only [Router.blocks, h]

/-- What a query is blocked by is known by its form and channel. -/
theorem blocks_like (hform : o'.form = o.form) (hchannel : o'.channel = o.channel)
    (h : Router.blocks env o q = true) : Router.blocks env o' q = true := by
  simpa only [Router.blocks, hform, hchannel] using h

theorem mode_not_waits : Form.mode ∉ WAITS := by decide

theorem blocks_iff : Router.blocks env o q = true ↔
    q.form ∈ WAITS ∧ o.form = q.form ∨
      q.form = .mode ∧ q.asker.any Asker.isClient = true ∧ o.form = .mode ∧
        env.fold o.channel = env.fold q.channel := by
  by_cases hwaits : q.form ∈ WAITS
  · have hmode : q.form ≠ .mode := fun heq => mode_not_waits (heq ▸ hwaits)
    simp only [Router.blocks, List.contains_iff_mem, hwaits, ↓reduceIte, decide_eq_true_eq,
      true_and, hmode, false_and, or_false]
  · by_cases hclient : q.form = .mode ∧ q.asker.any Asker.isClient = true
    · simp only [Router.blocks, List.contains_iff_mem, hclient, mode_not_waits, ↓reduceIte,
        decide_true, Bool.and_self, Bool.and_eq_true, decide_eq_true_eq, false_and, true_and,
        false_or]
    · simp only [Router.blocks, List.contains_iff_mem, hwaits, ↓reduceIte, Bool.and_eq_true,
        decide_eq_true_eq, hclient, Bool.false_eq_true, false_and, false_or, ← and_assoc]

/-- Who blocks one that blocks a query blocks the query too, and so does who waits beside it. -/
theorem blocks_shared (h : Router.blocks env o w = true) (hq : Router.blocks env o q = true) :
    Router.blocks env q w = true ∧
      ∀ o', Router.blocks env o' q = true → Router.blocks env o' w = true := by
  simp only [blocks_iff] at h hq ⊢
  rcases h with ⟨hw, how⟩ | ⟨hw, hclient, how, hsame⟩
  · have hqw : q.form = w.form := by
      rcases hq with ⟨-, hoq⟩ | ⟨-, -, hoq, -⟩
      · exact hoq.symm.trans how
      · exact absurd (hoq.symm.trans how ▸ hw) mode_not_waits
    refine ⟨.inl ⟨hw, hqw⟩, fun o' ho' => .inl ⟨hw, ?_⟩⟩
    rcases ho' with ⟨-, hoq⟩ | ⟨hq', -⟩
    · exact hoq.trans hqw
    · exact absurd (hq'.symm.trans hqw ▸ hw) mode_not_waits
  · obtain ⟨hqm, hqs⟩ : q.form = .mode ∧ env.fold q.channel = env.fold w.channel := by
      rcases hq with ⟨hwaits, hoq⟩ | ⟨hq', -, -, hoq⟩
      · exact absurd (hoq.symm.trans how ▸ hwaits) mode_not_waits
      · exact ⟨hq', hoq.symm.trans hsame⟩
    refine ⟨.inr ⟨hw, hclient, hqm, hqs⟩, fun o' ho' => ?_⟩
    rcases ho' with ⟨hwaits, -⟩ | ⟨-, -, hom, hos⟩
    · exact absurd (hqm ▸ hwaits) mode_not_waits
    · exact .inr ⟨hw, hclient, hom, hos.trans hqs⟩

end Blocks

/-- What a query is told apart by where it blocks another. -/
def Query.kind (q : Query) : Form × Str := (q.form, q.channel)

/-- Nothing is out, owed or waiting. -/
def Router.Idle (r : Router) : Prop := r.wire = [] ∧ r.settle = none ∧ r.waiting = []

namespace Turns

variable {env : Env} {spared : Query → Prop} {slack : Prop} {stays : Nat → Prop}
  {hand : List Query} {r : Router} {q : Query}

theorem pairwise_kind {l : List Query} :
    l.Pairwise Apart ↔ (l.map Query.kind).Pairwise fun a b => a.1 = b.1 → a.1 ∉ WAITS := by
  rw [List.pairwise_map]
  rfl

/-- The same kinds out. -/
theorem like (h : Turns env spared r) {r' : Router}
    (hkinds : (r'.ahead.map Query.kind).Perm (r.ahead.map Query.kind))
    (hwaiting : ∀ w ∈ r'.waiting, w ∈ r.waiting)
    (howed : ∀ q wants, r'.settle = some (q, wants) → wants ∈ wantsOf q.form) :
    Turns env spared r' := by
  refine ⟨?_, fun w hw => ?_, howed⟩
  · rw [pairwise_kind]
    exact (hkinds.pairwise_iff fun hab heq => heq.symm ▸ hab heq.symm).mpr
      (pairwise_kind.mp h.apart)
  · rcases h.behind w (hwaiting w hw) with hspared | ⟨o, ho, hblocks⟩
    · exact .inl hspared
    · obtain ⟨o', ho', heq⟩ := List.mem_map.mp (hkinds.mem_iff.mpr (List.mem_map_of_mem ho))
      obtain ⟨hform, hchannel⟩ := Prod.mk.inj heq
      exact .inr ⟨o', ho', blocks_like hform hchannel hblocks⟩

theorem note (h : Turns env spared r) (outs : List Out) : Turns env spared (r.note outs) :=
  ⟨h.apart, h.behind, h.owed⟩

/-- A query joins those out that it waits for none of. -/
theorem putOn (h : Turns env spared r) (hfree : r.mustWait env q = false)
    (hspared : ∀ w, spared w → slack ∨ Router.blocks env q w = true) :
    Turns env (fun _ => slack) { r with wire := r.wire ++ [q] } := by
  have hahead : ({ r with wire := r.wire ++ [q] } : Router).ahead.Perm (q :: r.ahead) := by
    simp only [Router.ahead, List.append_assoc, List.singleton_append]
    exact List.perm_middle
  have hnone : ∀ o ∈ r.ahead, Router.blocks env o q = false := by
    intro o ho
    exact Bool.eq_false_iff.mpr fun hblocks =>
      Bool.eq_false_iff.mp hfree (List.any_eq_true.mpr ⟨o, ho, hblocks⟩)
  refine ⟨(hahead.pairwise_iff fun hab => hab.symm).mpr (List.pairwise_cons.mpr ⟨?_, h.apart⟩),
    fun w hw => ?_, h.owed⟩
  · intro o ho heq hwaits
    have hblocks : Router.blocks env o q = true := blocks_iff.mpr (.inl ⟨hwaits, heq.symm⟩)
    rw [hnone o ho] at hblocks
    cases hblocks
  · rcases h.behind w hw with hspare | ⟨o, ho, hblocks⟩
    · refine (hspared w hspare).imp id fun hblocks => ?_
      exact ⟨q, hahead.mem_iff.mpr List.mem_cons_self, hblocks⟩
    · exact .inr ⟨o, hahead.mem_iff.mpr (List.mem_cons_of_mem _ ho), hblocks⟩

/-- A line has gone: the wire holds the same. -/
theorem markSent (hb : Books stays hand r) (h : Turns env spared r) (hq : q ∈ r.wire) :
    Turns env spared (r.markSent q) := by
  refine h.like ?_ (fun w hw => hw) h.owed
  have hperm := (perm_takeOff hb.wire_nodup hq).map Query.kind
  simp only [Router.ahead, Router.markSent, List.map_append, List.map_cons, List.map_nil] at hperm ⊢
  exact hperm.append_right _

theorem dispatchNow (hb : Books stays (q :: hand) r) (h : Turns env spared r)
    (hsend : slack ∨ env.canSend = true)
    (hspared : ∀ w, spared w →
      slack ∨ ∃ o, Router.blocks env o w = true ∧ Router.blocks env o q = true) :
    Turns env (fun _ => slack) (r.dispatchNow env q) := by
  unfold Router.dispatchNow
  split
  · rename_i hwait
    obtain ⟨o, ho, hblocks⟩ := List.any_eq_true.mp hwait
    refine ⟨h.apart, fun w hw => ?_, h.owed⟩
    rcases List.mem_append.mp hw with hw | hw
    · rcases h.behind w hw with hspare | hbehind
      · refine (hspared w hspare).imp id fun ⟨o', hw', hq'⟩ => ?_
        exact ⟨o, ho, (blocks_shared hw' hq').2 o hblocks⟩
      · exact .inr hbehind
    · rw [List.mem_singleton.mp hw]
      exact .inr ⟨o, ho, hblocks⟩
  · rename_i hfree
    rw [Bool.not_eq_true] at hfree
    split
    · rename_i hcannot
      -- With nobody put on the wire, whoever was spared goes on waiting for none.
      have hslack : slack := hsend.resolve_right fun hcan => by
        rw [hcan] at hcannot
        cases hcannot
      exact ⟨h.apart, fun _ _ => .inl hslack, h.owed⟩
    · have hput := h.putOn hfree fun w hspare =>
        (hspared w hspare).imp id fun ⟨_, hw', hq'⟩ => (blocks_shared hw' hq').1
      dsimp only
      split
      · exact markSent hb.queueUp (hput.note _) (List.mem_append_right _ List.mem_cons_self)
      · exact hput.note _

/-- All in hand go out, or wait. -/
theorem dispatchAll (l : List Query) (hb : Books stays (l ++ hand) r)
    (h : Turns env (fun _ => slack) r) (hsend : slack ∨ env.canSend = true) :
    Turns env (fun _ => slack) (l.foldl (fun r q => r.dispatchNow env q) r) := by
  induction l generalizing r with
  | nil => exact h
  | cons q l ih =>
    exact ih (hb.dispatchNow env) (h.dispatchNow hb hsend fun _ hslack => .inl hslack)

theorem dispatch (hb : Books stays (q :: hand) r) (h : Turns env (fun _ => slack) r)
    (hsend : slack ∨ env.canSend = true) : Turns env (fun _ => slack) (r.dispatch env q) := by
  unfold Router.dispatch
  split
  · exact h.note _
  · split
    · exact h.note _
    · dsimp only
      have hoff := hb.stepAside env
      have haside : Turns env (fun w => slack ∨ ∃ o, Router.blocks env o w = true ∧
          Router.blocks env o q = true)
          (({ r with wire := r.wire.filter (!Router.stepsAside env q ·) } : Router).note
            ((r.wire.filter (Router.stepsAside env q)).map (.cancelled ·.id))) := by
        refine ⟨h.apart.sublist (List.filter_sublist.append_right _), fun w hw => ?_, h.owed⟩
        rcases h.behind w hw with hslack | ⟨o, ho, hblocks⟩
        · exact .inl (.inl hslack)
        by_cases hsteps : Router.stepsAside env q o = true
        · simp only [Router.stepsAside, Bool.and_eq_true] at hsteps
          exact .inl (.inr ⟨o, hblocks, hsteps.2.2⟩)
        · refine .inr ⟨o, ?_, hblocks⟩
          rcases List.mem_append.mp ho with ho | ho
          · exact List.mem_append_left _ (List.mem_filter.mpr ⟨ho, by simpa using hsteps⟩)
          · exact List.mem_append_right _ ho
      exact dispatchAll _ (hoff.dispatchNow env) (haside.dispatchNow hoff hsend fun w hw => hw) hsend

/-- Whatever waited, each that waits again waits for one. -/
theorem releaseWaiting (hb : Books stays hand r) (h : Turns env spared r)
    (hsend : slack ∨ env.canSend = true) : Turns env (fun _ => slack) (r.releaseWaiting env) := by
  have hall : ∀ (l : List Query) (r : Router), Books stays (l ++ hand) r →
      Turns env (fun _ => slack) r →
        Turns env (fun _ => slack) (l.foldl (fun r q => r.dispatch env q) r) := by
    intro l
    induction l with
    | nil => exact fun _ _ h => h
    | cons q l ih => exact fun r hb h => ih _ (hb.dispatch env) (h.dispatch hb hsend)
  exact hall _ _ hb.toHand ⟨h.apart, fun w hw => absurd hw List.not_mem_nil, h.owed⟩

/-- What a query on the wire reads does not change its kind. -/
theorem kind_reads {q' : Query} (h : Reads q q') : q'.kind = q.kind := by
  simp only [Query.kind, h.form, h.channel]

theorem weaken (h : Turns env (fun _ => slack) r) (hslack : ∀ w, slack → spared w) :
    Turns env spared r :=
  ⟨h.apart, fun w hw => (h.behind w hw).imp (hslack w) id, h.owed⟩

/-- A query that ends may keep its turn until the next line. -/
theorem finish (hb : Books stays [] r) (h : Turns env spared r) (hslack : ∀ w, slack → spared w)
    (hsend : slack ∨ env.canSend = true) (hnone : r.settle = none) (hq : q ∈ r.wire) {q' : Query}
    (hreads : Reads q q') {wants : Option Str} {how : QueryEnd} (hends : Books.EndsBy q' wants how)
    (hwants : ∀ w, wants = some w → w ∈ wantsOf q.form) :
    Turns env spared (r.finish env q' wants how) := by
  unfold Router.finish
  cases wants with
  | none =>
    have hover : Turns env (fun _ => True) ((r.takeOffWire q'.id).note [.ended q'.id how]) :=
      ⟨h.apart.sublist (List.filter_sublist.append_right _), fun _ _ => .inl trivial, h.owed⟩
    exact (hover.releaseWaiting (hb.endNow hq hreads.same hends) hsend).weaken hslack
  | some wants =>
    have hahead : r.ahead = r.wire := by
      simp only [Router.ahead, hnone, Option.map_none, Option.toList_none, List.append_nil]
    refine h.like ?_ (fun w hw => hw) fun x w hx => ?_
    · have hperm := (perm_takeOff hb.wire_nodup hq).map Query.kind
      rw [hahead]
      simp only [Router.ahead, Router.note, Router.takeOffWire, Option.map_some, Option.toList_some,
        List.map_append, List.map_cons, List.map_nil, hreads.id, kind_reads hreads] at hperm ⊢
      exact hperm
    · obtain ⟨rfl, rfl⟩ := Prod.mk.inj (Option.some.inj hx)
      rw [hreads.form]
      exact hwants wants rfl

/-- The line a query is owed is one of its form's. -/
theorem trailerOf_wants {l : Line} {w : Str} (h : trailerOf l q = some w) : w ∈ wantsOf q.form := by
  unfold trailerOf at h
  split at h
  · rename_i hform
    rw [hform, ← Option.some.inj h]
    exact List.mem_cons_self
  · rename_i hform
    split at h
    · rw [hform, ← Option.some.inj h]
      exact List.mem_cons_self
    · cases h
  · cases h

theorem endAfterError_wants {w : Str} (h : endAfterError q = some w) : w ∈ wantsOf q.form := by
  unfold endAfterError at h
  split at h
  · rename_i hform
    rw [hform]
    obtain ⟨⟨item, ending⟩, hletter, rfl⟩ := Option.map_eq_some_iff.mp h
    obtain ⟨c, -, hc⟩ := Option.bind_eq_some_iff.mp hletter
    exact listMode_ending hc
  · have hform : q.form ≠ .mode ∧ q.form ≠ .topic := by
      constructor <;> intro heq <;> rw [heq] at h <;> cases h
    unfold wantsOf
    split
    · exact absurd ‹_› hform.1
    · exact absurd ‹_› hform.2
    · contradiction
    · exact Option.mem_toList.mpr h

theorem claim (hb : Books stays [] r) (h : Turns env spared r) (hslack : ∀ w, slack → spared w)
    (hsend : slack ∨ env.canSend = true) (hnone : r.settle = none) {l : Line}
    {r' : Router} {owner : Owner} (hclaim : r.claim env l = some (r', owner)) :
    Turns env spared r' := by
  unfold Router.claim at hclaim
  split at hclaim
  · rename_i q q' hhears
    obtain ⟨hq, -, hrole⟩ := hearer_eq_some hhears
    have hreads := reads_roleOf hrole
    obtain ⟨rfl, -⟩ := Prod.mk.inj (Option.some.inj hclaim)
    have hself : ∀ x ∈ r.wire, (if x.id = q.id then q' else x).kind = x.kind := by
      intro x hx
      split
      · rename_i hid
        rw [kind_reads hreads, hb.wire_unique hq hx hid]
      · rfl
    refine h.like ?_ (fun w hw => hw) h.owed
    have hsame : (r.wire.map fun x => if x.id = q.id then q' else x).map Query.kind =
        r.wire.map Query.kind := by
      rw [List.map_map]
      exact List.map_congr_left hself
    simp only [Router.ahead, List.map_append, hsame]
    exact .refl _
  · rename_i q q' hhears
    obtain ⟨hq, -, hrole⟩ := hearer_eq_some hhears
    have hends := hb.ends_of hq hrole
    obtain ⟨rfl, -⟩ := Prod.mk.inj (Option.some.inj hclaim)
    exact h.finish hb hslack hsend hnone hq (reads_roleOf hrole) hends fun w hw => trailerOf_wants hw
  · obtain ⟨q, hq, heq⟩ := Option.map_eq_some_iff.mp hclaim
    obtain ⟨rfl, -⟩ := Prod.mk.inj heq
    exact h.finish hb hslack hsend hnone (List.mem_of_find?_eq_some hq) (.refl q) (.inl rfl)
      fun w hw => endAfterError_wants hw

theorem noteModes (h : Turns env spared r) (env' : Env) (l : Line) :
    Turns env spared (r.noteModes env' l) := by
  obtain ⟨modes, heq⟩ := noteModes_eq env' r l
  rw [heq]
  exact ⟨h.apart, h.behind, h.owed⟩

theorem claimed (hb : Books stays [] r) (h : Turns env spared r) (hslack : ∀ w, slack → spared w)
    (hsend : slack ∨ env.canSend = true) (hnone : r.settle = none) (l : Line) :
    Turns env spared (r.claimed env l).1 := by
  rcases claimed_cases env r l with ⟨orphans, owner, -, heq⟩ | ⟨-, ⟨-, heq⟩ | hclaim⟩
  · rw [heq]
    exact ⟨h.apart, h.behind, h.owed⟩
  · rw [heq]
    exact h
  · exact h.claim hb hslack hsend hnone hclaim

/-- The claim on the next line is given up. -/
theorem unsettle (h : Turns env spared r) :
    Turns env (fun _ => True) { r with settle := none } := by
  refine ⟨h.apart.sublist ?_, fun _ _ => .inl trivial, fun _ _ hsettle => (nomatch hsettle)⟩
  simp only [Router.ahead, Option.map_none, Option.toList_none, List.append_nil]
  exact List.sublist_append_left _ _

theorem noteServerLine (hb : Books stays [] r) (h : Turns env (fun _ => slack) r)
    (hsend : slack ∨ env.canSend = true) (l : Line) :
    Turns env (fun _ => slack) (r.noteServerLine env l).1 := by
  have hbooks := hb.noteModes env l
  have hmodes := h.noteModes env l
  unfold Router.noteServerLine
  dsimp only
  split
  · rename_i hnone
    exact hmodes.claimed hbooks (fun _ => id) hsend hnone l
  · rename_i q wants hsettle
    split
    · exact (hmodes.unsettle.note _).releaseWaiting (hbooks.trailed hsettle) hsend
    · exact (hmodes.unsettle.claimed hbooks.unsettle (fun _ _ => trivial) hsend rfl l).releaseWaiting
        (hbooks.unsettle.claimed rfl env l) hsend

theorem settleTimeout (hb : Books stays [] r) (h : Turns env (fun _ => slack) r)
    (hsend : slack ∨ env.canSend = true) : Turns env (fun _ => slack) (r.settleTimeout env) := by
  unfold Router.settleTimeout
  split
  · exact h.unsettle.releaseWaiting hb.unsettle hsend
  · exact h

theorem timeout (hb : Books stays [] r) (h : Turns env (fun _ => slack) r)
    (hsend : slack ∨ env.canSend = true) (id : Nat) : Turns env (fun _ => slack) (r.timeout env id) := by
  unfold Router.timeout
  split
  · exact h
  · rename_i q hfind
    have hcond := List.find?_some hfind
    simp only [Bool.and_eq_true, decide_eq_true_eq] at hcond
    rw [← hcond.1]
    have hover := hb.overdue (List.mem_of_find?_eq_some hfind)
    have hrest : Turns env (fun _ => True) (({ r.takeOffWire q.id with
        orphanBatches := if q.batchRef ≠ [] then
          (if ORPHANS ≤ r.orphanBatches.size then .empty else r.orphanBatches).set q.batchRef q.asker
          else r.orphanBatches } : Router).note (Router.abortOf q ++ [.ended q.id .timeout])) := by
      exact ⟨h.apart.sublist (List.filter_sublist.append_right _), fun _ _ => .inl trivial, h.owed⟩
    exact hrest.releaseWaiting (hover _) hsend

theorem reset (env : Env) (r : Router) : Turns env (fun _ => slack) r.reset := by
  exact ⟨List.Pairwise.nil, fun w hw => absurd hw List.not_mem_nil, fun _ _ hs => (nomatch hs)⟩

theorem wentOut (hb : Books stays [] r) (h : Turns env (fun _ => slack) r) (id : Nat) :
    Turns env (fun _ => slack) (r.wentOut id) := by
  unfold Router.wentOut
  split
  · rename_i q hfind
    exact h.markSent hb (List.mem_of_find?_eq_some hfind)
  · exact h

theorem send (hb : Books stays [] r) (h : Turns env (fun _ => slack) r)
    (hsend : slack ∨ env.canSend = true) (asker : Asker) (line : Str) :
    Turns env (fun _ => slack) (r.send env asker line) := by
  unfold Router.send
  split
  · exact h.note _
  · rename_i found hfound
    have hnew := classify_new hfound
    exact dispatch (hb.ask rfl hnew.fits) ⟨h.apart, h.behind, h.owed⟩ hsend

theorem kind_orphan (c : Nat) (q : Query) : (Router.orphan c q).kind = q.kind := by
  unfold Router.orphan
  split <;> rfl

theorem dropClient (hb : Books (fun _ => False) [] r) (h : Turns env (fun _ => slack) r)
    (hsend : slack ∨ env.canSend = true) (c : Nat) : Turns env (fun _ => slack) (r.dropClient env c) := by
  have howed : ∀ q w, (r.withdraw c).settle = some (q, w) → w ∈ wantsOf q.form := by
    intro q w hq
    obtain ⟨⟨x, w'⟩, hx, heq⟩ := Option.map_eq_some_iff.mp hq
    obtain ⟨rfl, rfl⟩ := Prod.mk.inj heq
    have hform : (Router.orphan c x).form = x.form := congrArg Prod.fst (kind_orphan c x)
    rw [hform]
    exact h.owed x w' hx
  have hkinds : (r.withdraw c).ahead.map Query.kind =
      ((r.wire.filter fun q => !(Router.isOf c q && !q.sent)) ++
        (r.settle.map Prod.fst).toList).map Query.kind := by
    simp only [Router.ahead, Router.withdraw, Router.note, List.map_append, List.map_map,
      Function.comp_def, kind_orphan]
    cases r.settle <;> simp only [Option.map_none, Option.map_some, Option.toList_none,
      Option.toList_some, List.map_nil, List.map_cons, kind_orphan]
  unfold Router.dropClient
  split
  · have hrest : Turns env (fun _ => True) (r.withdraw c) := by
      refine ⟨?_, fun _ _ => .inl trivial, howed⟩
      rw [pairwise_kind, hkinds, ← pairwise_kind]
      exact h.apart.sublist (List.filter_sublist.append_right _)
    exact hrest.releaseWaiting (hb.withdraw id) hsend
  · rename_i hnone
    have hall : (r.wire.filter fun q => !(Router.isOf c q && !q.sent)) = r.wire := by
      apply List.filter_eq_self.mpr
      intro q hq
      rw [Bool.not_eq_true']
      exact Bool.eq_false_iff.mpr fun hany => hnone (List.any_eq_true.mpr ⟨q, hq, hany⟩)
    rw [hall] at hkinds
    refine h.like (hkinds ▸ .refl _) (fun w hw => List.mem_of_mem_filter hw) howed

theorem idle_noteModes (h : r.Idle) (l : Line) : (r.noteModes env l).Idle := by
  obtain ⟨modes, heq⟩ := noteModes_eq env r l
  rw [heq]
  exact h

theorem idle_claimed (h : r.Idle) (l : Line) : (r.claimed env l).1.Idle := by
  have hclaim : r.claim env l = none := by
    simp only [Router.claim, Router.hearer, h.1, List.findSome?_nil, List.find?_nil,
      Option.map_none]
  rcases claimed_cases env r l with ⟨orphans, owner, -, heq⟩ | ⟨-, ⟨-, heq⟩ | hsome⟩
  · rw [heq]
    exact h
  · rw [heq]
    exact h
  · rw [hclaim] at hsome
    cases hsome

theorem idle_dispatch (h : r.Idle) (hcannot : env.canSend = false) : (r.dispatch env q).Idle := by
  unfold Router.dispatch
  split
  · exact h
  · split
    · exact h
    · have haside : r.wire.filter (Router.stepsAside env q) = [] := by
        rw [h.1, List.filter_nil]
      have hrest : ({ r with wire := r.wire.filter (!Router.stepsAside env q ·) } : Router).Idle := by
        refine ⟨?_, h.2⟩
        simp only [h.1, List.filter_nil]
      dsimp only
      rw [haside, List.map_nil, List.foldl_nil]
      unfold Router.dispatchNow
      split
      · rename_i hwait
        obtain ⟨o, ho, -⟩ := List.any_eq_true.mp hwait
        simp only [Router.ahead, Router.note, hrest.1, h.2.1, Option.map_none, Option.toList_none,
          List.append_nil, List.not_mem_nil] at ho
      · rw [hcannot, Bool.not_false, if_pos rfl]
        exact hrest

/-- What finds nothing out and cannot write leaves nothing out. -/
theorem idle_step {e : Env × Event} (hidle : r.Idle) (hcannot : e.1.canSend = false) :
    (r.step e).Idle := by
  obtain ⟨env, e⟩ := e
  obtain ⟨hwire, hsettle, hwaiting⟩ := hidle
  cases e with
  | send asker line =>
    simp only [Router.step, Router.send]
    split
    · exact ⟨hwire, hsettle, hwaiting⟩
    · exact idle_dispatch ⟨hwire, hsettle, hwaiting⟩ hcannot
  | went id =>
    simp only [Router.step, Router.wentOut, hwire, List.find?_nil]
    exact ⟨hwire, hsettle, hwaiting⟩
  | line l =>
    have hmodes : (r.noteModes env l).Idle := idle_noteModes ⟨hwire, hsettle, hwaiting⟩ l
    simp only [Router.step, Router.noteServerLine, hmodes.2.1]
    exact idle_claimed hmodes l
  | settleTimeout =>
    simp only [Router.step, Router.settleTimeout, hsettle]
    exact ⟨hwire, hsettle, hwaiting⟩
  | timeout id =>
    simp only [Router.step, Router.timeout, hwire, List.find?_nil]
    exact ⟨hwire, hsettle, hwaiting⟩
  | reset => exact ⟨rfl, rfl, rfl⟩
  | dropClient c =>
    simp only [Router.step, Router.dropClient, Router.withdraw, Router.note, hwire, hsettle,
      hwaiting, List.any_nil]
    exact ⟨rfl, rfl, rfl⟩

theorem of_idle (h : r.Idle) : Turns env spared r := by
  obtain ⟨hwire, hsettle, hwaiting⟩ := h
  refine ⟨?_, ?_, ?_⟩
  · simp only [Router.ahead, hwire, hsettle, Option.map_none, Option.toList_none, List.append_nil,
      List.Pairwise.nil]
  · simp only [hwaiting, List.not_mem_nil, false_implies, implies_true]
  · simp only [hsettle, reduceCtorEq, false_implies, implies_true]

/-- The connection takes lines while a query is out, all under one case mapping. -/
def Writes (env : Env) (r : Router) (e : Env × Event) : Prop :=
  e.2 = .reset ∨ e.1.canSend = false ∧ r.Idle ∨ e.1.fold = env.fold ∧ e.1.canSend = true

theorem step {e : Env × Event} (hb : Books (fun _ => False) [] r) (h : Turns env (fun _ => slack) r)
    (hwrites : slack ∨ Writes env r e) : Turns env (fun _ => slack) (r.step e) := by
  have hto : ∀ {env' : Env} {r : Router}, slack ∨ env'.fold = env.fold →
      Turns env (fun _ => slack) r → Turns env' (fun _ => slack) r := by
    rintro env' r (hslack | hfold) h
    · exact ⟨h.apart, fun _ _ => .inl hslack, h.owed⟩
    · exact ⟨h.apart, by simpa only [blocks_fold hfold] using h.behind, h.owed⟩
  have hback : ∀ {env' : Env} {r : Router}, slack ∨ env'.fold = env.fold →
      Turns env' (fun _ => slack) r → Turns env (fun _ => slack) r := by
    rintro env' r (hslack | hfold) h
    · exact ⟨h.apart, fun _ _ => .inl hslack, h.owed⟩
    · exact ⟨h.apart, by simpa only [blocks_fold hfold] using h.behind, h.owed⟩
  by_cases hreset : e.2 = .reset
  · obtain ⟨env', e⟩ := e
    cases hreset
    exact reset env r
  by_cases hidle : e.1.canSend = false ∧ r.Idle
  · exact of_idle (idle_step hidle.2 hidle.1)
  have hfold : slack ∨ e.1.fold = env.fold :=
    hwrites.imp id fun hw => ((hw.resolve_left hreset).resolve_left hidle).1
  have hsend : slack ∨ e.1.canSend = true :=
    hwrites.imp id fun hw => ((hw.resolve_left hreset).resolve_left hidle).2
  obtain ⟨env', e⟩ := e
  cases e with
  | send asker line => exact hback hfold ((hto hfold h).send hb hsend asker line)
  | went id => exact h.wentOut hb id
  | line l => exact hback hfold ((hto hfold h).noteServerLine hb hsend l)
  | settleTimeout => exact hback hfold ((hto hfold h).settleTimeout hb hsend)
  | timeout id => exact hback hfold ((hto hfold h).timeout hb hsend id)
  | reset => exact reset env r
  | dropClient c => exact hback hfold ((hto hfold h).dropClient hb hsend c)

theorem run {cond : Router → Env × Event → Prop} (hcond : ∀ r e, cond r e → slack ∨ Writes env r e)
    {es : List (Env × Event)} (hwithin : Run.Within Router.step cond newRouter es) :
    Turns env (fun _ => slack) (reached es) := by
  have hboth : Books (fun _ => False) [] (reached es) ∧ Turns env (fun _ => slack) (reached es) := by
    refine Run.invariant_within (P := fun r => Books (fun _ => False) [] r ∧
      Turns env (fun _ => slack) r) Router.step ⟨.init _, of_idle ⟨rfl, rfl, rfl⟩⟩ ?_ es hwithin
    intro r e h hc
    exact ⟨h.1.step e fun _ _ hfalse => hfalse, h.2.step h.1 (hcond r e hc)⟩
  exact hboth.2

end Turns

/-- A query that waits is behind one out, or behind one that is owed a line. -/
theorem waits_behind {env : Env} {es : List (Env × Event)}
    (hwrites : Run.Within Router.step (Turns.Writes env) newRouter es) :
    ∀ w ∈ (reached es).waiting, ∃ o ∈ (reached es).ahead, Router.blocks env o w = true := by
  have hturns : Turns env (fun _ => False) (reached es) :=
    Turns.run (fun _ _ => .inr) hwrites
  exact fun w hw => (hturns.behind w hw).resolve_left id

/-- Two clients ask who is there, the second while the first is answered. -/
def whoRun : List (Env × Event) :=
  [asks 1 "WHO #a", asks 2 "WHO #b", hearsLine "352" ["me", "#a", "u", "h", "s", "bob"]]

theorem waits_behind_sample : (reached whoRun).waiting.map (·.id) = [1] ∧
    ∀ w ∈ (reached whoRun).waiting, ∃ o ∈ (reached whoRun).ahead,
      Router.blocks sampleEnv o w = true :=
  ⟨by decide +kernel, waits_behind
    ⟨.inr (.inr ⟨rfl, rfl⟩), .inr (.inr ⟨rfl, rfl⟩), .inr (.inr ⟨rfl, rfl⟩), trivial⟩⟩

section Turn

variable {env : Env} {l : Line} {q x : Query}

/-- No other kind of line is one that ends by turn. -/
theorem waits_apart (form' : Form) : ∀ form ∈ WAITS, form' ≠ form → ∀ c ∈ commandsOf form,
    c ∉ commandsOf form' ∧ c ∉ wantsOf form' ∧ isWhoisReply c = false := by
  cases form' <;> decide +kernel

theorem waits_command (hwaits : q.form ∈ WAITS) (hrole : roleOf env l q ≠ none) :
    l.command ∈ commandsOf q.form := by
  obtain ⟨⟨role, q'⟩, hrole⟩ := Option.ne_none_iff_exists'.mp hrole
  rcases roleOf_command hrole with hcommand | ⟨hform, -⟩ | ⟨hform, -⟩
  · exact hcommand
  · rw [hform] at hwaits
    exact absurd hwaits (by decide)
  · rw [hform] at hwaits
    exact absurd hwaits (by decide)

/-- Outside every batch, a line that is to a query by turn is to its kind alone. -/
theorem waits_form (hwaits : q.form ∈ WAITS) (hcommand : l.command ∈ commandsOf q.form)
    (hbatch : l.batch = none) (hinner : [] ∉ x.inner) (hrole : roleOf env l x ≠ none) :
    x.form = q.form := by
  by_contra hne
  obtain ⟨hother, -, hwhois⟩ := waits_apart _ _ hwaits hne _ hcommand
  obtain ⟨⟨role, x'⟩, hrole⟩ := Option.ne_none_iff_exists'.mp hrole
  rcases roleOf_command hrole with hof | ⟨-, hof⟩ | ⟨-, -, -, hinside⟩
  · exact hother hof
  · rw [hwhois] at hof
    cases hof
  · simp only [insideBatch, hbatch, reduceCtorEq, decide_false, Bool.false_or, Option.getD_none,
      List.contains_iff_mem] at hinside
    exact hinner hinside

/-- A line that is to one query alone goes to its asker. -/
theorem claim_alone {r : Router} (hq : q ∈ r.wire) (hsent : q.sent = true)
    (hrole : roleOf env l q ≠ none)
    (halone : ∀ x ∈ r.wire, roleOf env l x ≠ none → x = q) :
    ∃ r', r.claim env l = some (r', Router.ownerOf q.asker) := by
  cases hhears : r.hearer env l with
  | none =>
    have hnone := List.findSome?_eq_none_iff.mp hhears q hq
    rw [if_pos hsent, Option.map_eq_none_iff] at hnone
    exact absurd hnone hrole
  | some got =>
    obtain ⟨x, role, x'⟩ := got
    obtain ⟨hx, -, hof⟩ := hearer_eq_some hhears
    have hself : x = q := halone x hx (hof ▸ Option.some_ne_none _)
    unfold Router.claim
    rw [hhears, hself]
    cases role with
    | body => exact ⟨_, rfl⟩
    | ends => exact ⟨_, rfl⟩

/-- A line outside every batch is of none kept, unless it closes one. -/
theorem claimOrphan_none {r : Router} (hbatch : l.batch = none) (hcommand : l.command ≠ "BATCH".toList) :
    r.claimOrphan l = none := by
  have his : is l "BATCH" = false := decide_eq_false hcommand
  simp only [Router.claimOrphan, his, Bool.false_and, Bool.false_eq_true, ↓reduceIte, hbatch,
    Option.filter_none, Option.bind_none]

theorem claimed_alone {r : Router} (hq : q ∈ r.wire) (hsent : q.sent = true)
    (hrole : roleOf env l q ≠ none) (halone : ∀ x ∈ r.wire, roleOf env l x ≠ none → x = q)
    (horphan : r.claimOrphan l = none) : (r.claimed env l).2 = Router.ownerOf q.asker := by
  obtain ⟨r', hclaim⟩ := claim_alone hq hsent hrole halone
  simp only [Router.claimed, horphan, hclaim, Option.orElse_none, Option.getD_some]

end Turn

/-- Whatever the order of things: a reply that names nothing is its asker's. While a query that
waits its turn is out, the lines of its kind are its own, and it is the only one of it out. -/
theorem reply_by_turn (es : List (Env × Event)) {env : Env} {l : Line} {q : Query}
    (hq : q ∈ (reached es).wire) (hsent : q.sent = true) (hwaits : q.form ∈ WAITS)
    (hrole : roleOf env l q ≠ none) (hbatch : l.batch = none)
    (hinner : ∀ x ∈ (reached es).wire, [] ∉ x.inner) :
    ((reached es).noteServerLine env l).2 = Router.ownerOf q.asker ∧
      ∀ x ∈ (reached es).wire, x.form = q.form → x = q := by
  have hturns : Turns sampleEnv (fun _ => True) (reached es) := by
    have hwithin : Run.Within Router.step (fun _ _ => True) newRouter es :=
      Run.within_of_after _ fun _ _ _ _ => trivial
    exact Turns.run (fun _ _ _ => .inl trivial) hwithin
  have hcommand := waits_command hwaits hrole
  have hapart : ∀ x ∈ (reached es).ahead, x.form = q.form → x = q := by
    intro x hx hform
    by_contra hne
    have hqx := hturns.apart.forall (List.mem_append_left _ hq) hx (Ne.symm hne)
    exact hqx hform.symm hwaits
  have halone : ∀ x ∈ (reached es).wire, roleOf env l x ≠ none → x = q := fun x hx hof =>
    hapart x (List.mem_append_left _ hx) (waits_form hwaits hcommand hbatch (hinner x hx) hof)
  refine ⟨?_, fun x hx => hapart x (List.mem_append_left _ hx)⟩
  have horphan : ∀ r : Router, r.claimOrphan l = none := fun r =>
    claimOrphan_none hbatch fun heq => by
      rw [heq] at hcommand
      revert hcommand hwaits
      cases q.form <;> decide
  obtain ⟨modes, heq⟩ := noteModes_eq env (reached es) l
  unfold Router.noteServerLine
  rw [heq]
  dsimp only
  split
  · exact claimed_alone hq hsent hrole halone (horphan _)
  · rename_i x wants hsettle
    split
    · -- What is owed to another kind is no line of this one.
      rename_i hsettles
      have howed : l.command = wants := of_decide_eq_true (Bool.and_eq_true_iff.mp hsettles).1
      have hform : x.form ≠ q.form := by
        intro hsame
        have hqx := (List.pairwise_append.mp hturns.apart).2.2 q hq x (by
          rw [hsettle]
          exact List.mem_singleton_self x)
        exact hqx hsame.symm hwaits
      exact absurd (howed ▸ hturns.owed x wants hsettle)
        (waits_apart _ _ hwaits hform _ hcommand).2.1
    · exact claimed_alone hq hsent hrole halone (horphan _)

/-- The first one's WHO, out and heard of. -/
def whoA : Query :=
  { spec .who "WHO".toList with
    targets := ["#a".toList]
    abort := some ("315".toList, ["#a".toList])
    id := 0
    asker := some (.client 1)
    line := "WHO #a".toList
    started := true
    sent := true }

theorem reply_by_turn_sample :
    ((reached whoRun).noteServerLine sampleEnv
        ⟨"315".toList, "315".toList, ["me".toList, "*".toList], none⟩).2 = .asker (.client 1) ∧
      ∀ x ∈ (reached whoRun).wire, x.form = .who → x = whoA :=
  reply_by_turn whoRun (q := whoA) (by decide +kernel) rfl (by decide) (by decide) (by decide)
    (by decide +kernel)

end Lurker.Replies
