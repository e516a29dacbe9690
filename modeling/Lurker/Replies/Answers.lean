import Lurker.Replies.Lives

/-!
# Replies find their askers

A server answers the queries of one connection in the order they reach it, each by one run of
lines. While none is given up by the clock, every line of a reply goes to the one who asked for
it, whoever else has asked what in the meantime.
-/

namespace Lurker.Replies

open Irc (Str)
open Irc.History (QueryEnd)

attribute [local instance] Irc.str_lawfulBEq

/-- A query as it goes. -/
def Query.asSent (q : Query) : Query := { q with sent := true }

/-- What the log says went, by the queries asked. -/
def wentOf (asked : List Query) : Out → Option Query
  | .went id => asked[id]?.map Query.asSent
  | _ => none

/-- The queries that go between two states. -/
def gone (r r' : Router) : List Query :=
  (r'.log.drop r.log.length).filterMap (wentOf r'.asked)

/-- What has not gone is as it was asked. -/
structure Made (r : Router) : Prop where
  asked : ∀ q ∈ r.asked, q.sent = false ∧ q.batchRef = []
  wire : ∀ q ∈ r.wire, q.sent = false → q ∈ r.asked
  waiting : ∀ q ∈ r.waiting, q ∈ r.asked

/-- Some queries go, after those that went, and nothing else changes at the server. -/
structure Goes (r r' : Router) (qs : List Query) : Prop where
  made : Made r'
  wire : r'.wire.filter (·.sent) = r.wire.filter (·.sent) ++ qs.map Query.asSent
  log : ∃ outs, r'.log = r.log ++ outs ∧ outs.filterMap (wentOf r.asked) = qs.map Query.asSent
  fresh : ∀ q ∈ qs, q ∈ r.asked
  settle : r'.settle = r.settle
  orphans : r'.orphanBatches = r.orphanBatches
  asked : r'.asked = r.asked

section Going

variable {stays : Nat → Prop} {hand qs : List Query} {r r' r'' : Router} {q : Query}

namespace Goes

theorem refl (h : Made r) : Goes r r [] := by
  refine ⟨h, ?_, ⟨[], ?_, rfl⟩, fun _ hq => absurd hq List.not_mem_nil, rfl, rfl, rfl⟩
  · rw [List.map_nil, List.append_nil]
  · rw [List.append_nil]

theorem trans {qs' : List Query} (h : Goes r r' qs) (h' : Goes r' r'' qs') :
    Goes r r'' (qs ++ qs') := by
  obtain ⟨outs, hlog, hwent⟩ := h.log
  obtain ⟨outs', hlog', hwent'⟩ := h'.log
  refine ⟨h'.made, ?_, ⟨outs ++ outs', ?_, ?_⟩, fun q hq => ?_, h'.settle.trans h.settle,
    h'.orphans.trans h.orphans, h'.asked.trans h.asked⟩
  · rw [h'.wire, h.wire, List.append_assoc, List.map_append]
  · rw [hlog', hlog, List.append_assoc]
  · rw [h.asked] at hwent'
    rw [List.filterMap_append, List.map_append, hwent, hwent']
  · rcases List.mem_append.mp hq with hq | hq
    · exact h.fresh q hq
    · exact h.asked ▸ h'.fresh q hq

/-- What is said of no line that went changes nothing. -/
theorem note (h : Made r) (outs : List Out) (hquiet : ∀ o ∈ outs, wentOf r.asked o = none) :
    Goes r (r.note outs) [] := by
  refine ⟨⟨h.asked, h.wire, h.waiting⟩, ?_, ⟨outs, rfl, ?_⟩, fun _ hq => absurd hq List.not_mem_nil,
    rfl, rfl, rfl⟩
  · rw [List.map_nil, List.append_nil]
    rfl
  · rw [List.map_nil]
    exact List.filterMap_eq_nil_iff.mpr hquiet

end Goes

theorem wentOf_abortOf {asked : List Query} {o : Out} (ho : o ∈ Router.abortOf q) :
    wentOf asked o = none := by
  unfold Router.abortOf at ho
  split at ho
  · split at ho
    · rw [List.mem_singleton.mp ho]
      rfl
    · cases ho
  · cases ho

/-- A line in the send queue goes: it is the last the server gets. -/
theorem goes_markSent (hb : Books stays hand r) (h : Made r) (hq : q ∈ r.wire)
    (hunsent : q.sent = false) : Goes r (r.markSent q) [q] := by
  have hasked := h.wire q hq hunsent
  have hkept : (r.wire.filter (·.id ≠ q.id)).filter (·.sent) = r.wire.filter (·.sent) := by
    rw [List.filter_filter]
    apply List.filter_congr
    intro x hx
    by_cases hid : x.id = q.id
    · rw [hb.wire_unique hq hx hid, hunsent, Bool.false_and]
    · rw [decide_eq_true hid, Bool.and_true]
  refine ⟨⟨h.asked, fun x hx hsent => ?_, h.waiting⟩, ?_, ⟨[.went q.id], rfl, ?_⟩, fun x hx => ?_,
    rfl, rfl, rfl⟩
  · rcases List.mem_append.mp hx with hx | hx
    · exact h.wire x (List.mem_of_mem_filter hx) hsent
    · rw [List.mem_singleton.mp hx] at hsent
      cases hsent
  · simp only [Router.markSent, List.filter_append, hkept, List.filter_cons_of_pos, List.filter_nil,
      List.map_cons, List.map_nil, Query.asSent]
  · simp only [List.filterMap_cons, wentOf, hb.numbered q hasked, Option.map_some,
      List.filterMap_nil, List.map_cons, List.map_nil]
  · rw [List.mem_singleton.mp hx]
    exact hasked

theorem goes_dispatchNow (env : Env) (hb : Books stays (q :: hand) r) (h : Made r) (hq : q ∈ r.asked) :
    ∃ qs, Goes r (r.dispatchNow env q) qs := by
  have hunsent := (h.asked q hq).1
  unfold Router.dispatchNow
  split
  · refine ⟨[], ⟨h.asked, h.wire, fun x hx => ?_⟩, ?_, ⟨[], ?_, rfl⟩,
      fun _ hx => absurd hx List.not_mem_nil, rfl, rfl, rfl⟩
    · rcases List.mem_append.mp hx with hx | hx
      · exact h.waiting x hx
      · rw [List.mem_singleton.mp hx]
        exact hq
    · rw [List.map_nil, List.append_nil]
    · rw [List.append_nil]
  · split
    · refine ⟨[], Goes.note h _ fun o ho => ?_⟩
      rcases List.mem_append.mp ho with ho | ho
      · exact wentOf_abortOf ho
      · rw [List.mem_singleton.mp ho]
        rfl
    · have hqueued : Goes r (({ r with wire := r.wire ++ [q] } : Router).note
          [.queued q.id q.line]) [] := by
        refine ⟨⟨h.asked, fun x hx hsent => ?_, h.waiting⟩, ?_, ⟨_, rfl, rfl⟩,
          fun _ hx => absurd hx List.not_mem_nil, rfl, rfl, rfl⟩
        · rcases List.mem_append.mp hx with hx | hx
          · exact h.wire x hx hsent
          · rw [List.mem_singleton.mp hx]
            exact hq
        · simp only [Router.note, List.filter_append, List.filter_cons, hunsent, Bool.false_eq_true,
            ↓reduceIte, List.filter_nil, List.map_nil]
      dsimp only
      split
      · exact ⟨_, hqueued.trans (goes_markSent hb.queueUp hqueued.made
          (List.mem_append_right _ List.mem_cons_self) hunsent)⟩
      · exact ⟨_, hqueued⟩

theorem goes_dispatchAll (env : Env) (l : List Query) (hb : Books stays (l ++ hand) r) (h : Made r)
    (hl : ∀ q ∈ l, q ∈ r.asked) : ∃ qs, Goes r (l.foldl (fun r q => r.dispatchNow env q) r) qs := by
  induction l generalizing r with
  | nil => exact ⟨[], .refl h⟩
  | cons q l ih =>
    obtain ⟨qs, hfirst⟩ := goes_dispatchNow env hb h (hl q List.mem_cons_self)
    obtain ⟨qs', hrest⟩ := ih (hb.dispatchNow env) hfirst.made
      fun x hx => hfirst.asked ▸ hl x (List.mem_cons_of_mem _ hx)
    exact ⟨_, hfirst.trans hrest⟩

theorem goes_dispatch (env : Env) (hb : Books stays (q :: hand) r) (h : Made r) (hq : q ∈ r.asked) :
    ∃ qs, Goes r (r.dispatch env q) qs := by
  unfold Router.dispatch
  split
  · refine ⟨[], Goes.note h _ fun o ho => ?_⟩
    rw [List.mem_singleton.mp ho]
    rfl
  · split
    · refine ⟨[], Goes.note h _ fun o ho => ?_⟩
      rw [List.mem_singleton.mp ho]
      rfl
    · dsimp only
      have hoff := hb.stepAside env
      have haside : Goes r (({ r with wire := r.wire.filter (!Router.stepsAside env q ·) } :
          Router).note ((r.wire.filter (Router.stepsAside env q)).map (.cancelled ·.id))) [] := by
        refine ⟨⟨h.asked, fun x hx => h.wire x (List.mem_of_mem_filter hx), h.waiting⟩, ?_,
          ⟨_, rfl, ?_⟩, fun _ hx => absurd hx List.not_mem_nil, rfl, rfl, rfl⟩
        · rw [List.map_nil, List.append_nil]
          simp only [Router.note, List.filter_filter]
          apply List.filter_congr
          intro x _
          cases hsent : x.sent with
          | false => rw [Bool.false_and]
          | true => simp only [Router.stepsAside, hsent, Bool.not_true, Bool.false_and,
              Bool.and_false, Bool.not_false, Bool.and_self]
        · apply List.filterMap_eq_nil_iff.mpr
          intro o ho
          obtain ⟨x, -, rfl⟩ := List.mem_map.mp ho
          rfl
      obtain ⟨qs, hnow⟩ := goes_dispatchNow env hoff haside.made hq
      obtain ⟨qs', hrest⟩ := goes_dispatchAll env (r.wire.filter (Router.stepsAside env q))
        (hoff.dispatchNow env) hnow.made fun x hx => by
          rw [hnow.asked]
          have hsteps := (List.mem_filter.mp hx).2
          simp only [Router.stepsAside, Bool.and_eq_true, Bool.not_eq_true'] at hsteps
          exact h.wire x (List.mem_of_mem_filter hx) hsteps.2.1.1
      exact ⟨_, (haside.trans hnow).trans hrest⟩

theorem goes_releaseWaiting (env : Env) (hb : Books stays hand r) (h : Made r) :
    ∃ qs, Goes r (r.releaseWaiting env) qs := by
  have hall : ∀ (l : List Query) (r : Router), Books stays (l ++ hand) r → Made r →
      (∀ q ∈ l, q ∈ r.asked) → ∃ qs, Goes r (l.foldl (fun r q => r.dispatch env q) r) qs := by
    intro l
    induction l with
    | nil => exact fun r _ h _ => ⟨[], .refl h⟩
    | cons q l ih =>
      intro r hb h hl
      obtain ⟨qs, hfirst⟩ := goes_dispatch env hb h (hl q List.mem_cons_self)
      obtain ⟨qs', hrest⟩ := ih _ (hb.dispatch env) hfirst.made
        fun x hx => hfirst.asked ▸ hl x (List.mem_cons_of_mem _ hx)
      exact ⟨_, hfirst.trans hrest⟩
  have hhand : Goes r { r with waiting := [] } [] := by
    refine ⟨⟨h.asked, h.wire, fun x hx => absurd hx List.not_mem_nil⟩, ?_, ⟨[], ?_, rfl⟩,
      fun _ hx => absurd hx List.not_mem_nil, rfl, rfl, rfl⟩
    · rw [List.map_nil, List.append_nil]
    · rw [List.append_nil]
  obtain ⟨qs, hreleased⟩ := hall r.waiting _ hb.toHand hhand.made h.waiting
  exact ⟨_, hhand.trans hreleased⟩

end Going

/-- The queries the server has, the first as far as it is answered, and the line that the last
one answered may still be followed by. -/
structure Server where
  pending : List Query
  owed : Option (Query × Str)

namespace Server

variable (env : Env)

/-- The line owed, if it is. -/
def trails (s : Server) (l : Line) : Option Query :=
  s.owed.bind fun (q, wants) => if settles env l q wants then some q else none

/-- The query a line is a reply to: one owed the line, or else the first. -/
def drawnBy (s : Server) (l : Line) : Option Query :=
  (s.trails env l).orElse fun _ => s.pending.head?.filter fun q =>
    (roleOf env l q).isSome || isErrorFor env l q

/-- How far a line gets the reply to the first query. -/
def tells (pending : List Query) (l : Line) : Server :=
  match pending with
  | [] => ⟨[], none⟩
  | q :: rest =>
    match roleOf env l q with
    | some (.body, q') => ⟨q' :: rest, none⟩
    | some (.ends, q') => ⟨rest, (trailerOf l q).map (q', ·)⟩
    | none =>
      if isErrorFor env l q then ⟨rest, (endAfterError q).map (q, ·)⟩ else ⟨q :: rest, none⟩

def speaks (s : Server) (l : Line) : Server :=
  if (s.trails env l).isSome then ⟨s.pending, none⟩ else tells env s.pending l

/-- A line is of the reply in turn, or answers no query that the server has. -/
def InTurn (s : Server) (l : Line) : Prop :=
  s.drawnBy env l = none → ∀ q ∈ s.pending, roleOf env l q = none ∧ isErrorFor env l q = false

/-- A client that detached has nobody to hear. -/
def detach (s : Server) (client : Nat) : Server :=
  ⟨s.pending.map (Router.orphan client),
    s.owed.map fun (q, wants) => (Router.orphan client q, wants)⟩

/-- What an event changes at the server. -/
def hears (s : Server) : Event → Server
  | .line l => s.speaks env l
  | .settleTimeout => ⟨s.pending, none⟩
  | .reset => ⟨[], none⟩
  | .dropClient c => s.detach c
  | .send _ _ | .went _ | .timeout _ => s

end Server

/-- The router and the server at the other end. -/
structure World where
  router : Router
  server : Server

namespace World

def init : World := ⟨newRouter, ⟨[], none⟩⟩

/-- An event, and the queries that go by it. -/
def step (w : World) (e : Env × Event) : World :=
  let router := w.router.step e
  let server := w.server.hears e.1 e.2
  ⟨router, ⟨server.pending ++ gone w.router router, server.owed⟩⟩

/-- The server answers in turn, and the clock gives no query up. -/
def InOrder (w : World) (e : Env × Event) : Prop :=
  match e.2 with
  | .line l => w.server.InTurn e.1 l
  | .timeout _ => False
  | _ => True

end World

/-- The router tracks the server: what went is what the server has, in that order, and only the
first is begun. -/
structure Tracks (r : Router) (s : Server) : Prop where
  made : Made r
  wire : r.wire.filter (·.sent) = s.pending
  owed : r.settle = s.owed
  unread : ∀ q ∈ s.pending.tail, q.batchRef = []
  orphans : r.orphanBatches = .empty

structure Follows (r : Router) (s : Server) : Prop extends Tracks r s where
  books : Books (fun _ => False) [] r

section Following

variable {env : Env} {r r' : Router} {s : Server} {l : Line} {q : Query}

/-- What goes is at the end of what the server has. -/
theorem Tracks.goes (h : Tracks r s) {qs : List Query} (hgoes : Goes r r' qs) :
    Tracks r' ⟨s.pending ++ qs.map Query.asSent, s.owed⟩ := by
  refine ⟨hgoes.made, ?_, hgoes.settle.trans h.owed, fun q hq => ?_,
    hgoes.orphans.trans h.orphans⟩
  · rw [hgoes.wire, h.wire]
  · have hnew : ∀ q ∈ qs.map Query.asSent, q.batchRef = [] := by
      intro q hq
      obtain ⟨x, hx, rfl⟩ := List.mem_map.mp hq
      exact (h.made.asked x (hgoes.fresh x hx)).2
    cases hpending : s.pending with
    | nil =>
      rw [hpending, List.nil_append] at hq
      exact hnew q (List.mem_of_mem_tail hq)
    | cons x rest =>
      rw [hpending, List.cons_append, List.tail_cons] at hq
      rcases List.mem_append.mp hq with hq | hq
      · exact h.unread q (by rwa [hpending, List.tail_cons])
      · exact hnew q hq

/-- The server's next state was reached on the way to the router's, and what went since follows. -/
structure Lands (r r' : Router) (s : Server) (mid : Router) (qs : List Query) : Prop where
  tracks : Tracks mid s
  log : ∃ outs, mid.log = r.log ++ outs ∧ ∀ o ∈ outs, wentOf mid.asked o = none
  goes : Goes mid r' qs

theorem Lands.of_log (h : Tracks r' s) (hlog : r'.log = r.log) : Lands r r' s r' [] := by
  refine ⟨h, ⟨[], ?_, fun _ ho => absurd ho List.not_mem_nil⟩, .refl h.made⟩
  rw [hlog, List.append_nil]

theorem Lands.gone {mid : Router} {qs : List Query} (h : Lands r r' s mid qs) :
    gone r r' = qs.map Query.asSent := by
  obtain ⟨outs, hlog, hquiet⟩ := h.log
  obtain ⟨more, hmore, hwent⟩ := h.goes.log
  have hdrop : r'.log.drop r.log.length = outs ++ more := by
    rw [hmore, hlog, List.append_assoc, List.drop_left]
  rw [Replies.gone, hdrop, List.filterMap_append, h.goes.asked,
    List.filterMap_eq_nil_iff.mpr hquiet, List.nil_append, hwent]

theorem Lands.ends {mid : Router} {qs : List Query} (h : Lands r r' s mid qs)
    (hbooks : Books (fun _ => False) [] r') :
    Follows r' ⟨s.pending ++ Replies.gone r r', s.owed⟩ := by
  rw [h.gone]
  exact ⟨h.tracks.goes h.goes, hbooks⟩

/-- What waited may go after. -/
theorem Lands.release {mid : Router} {qs : List Query} (h : Lands r r' s mid qs) (env : Env)
    (hbooks : Books (fun _ => False) [] r') :
    ∃ qs, Lands r (r'.releaseWaiting env) s mid qs := by
  obtain ⟨more, hgoes⟩ := goes_releaseWaiting env hbooks h.goes.made
  exact ⟨_, h.tracks, h.log, h.goes.trans hgoes⟩

theorem Lands.since {r₀ mid : Router} {qs : List Query} (h : Lands r r' s mid qs)
    (hlog : r.log = r₀.log) : Lands r₀ r' s mid qs :=
  ⟨h.tracks, hlog ▸ h.log, h.goes⟩

def errorCommands : List Str :=
  COMMAND_ERRORS ++ TARGET_ERRORS ++ ["FAIL", "431", "406"].map String.toList

theorem isErrorFor_command (h : isErrorFor env l q = true) : l.command ∈ errorCommands := by
  simp only [errorCommands, List.mem_append]
  unfold isErrorFor at h
  split at h
  · exact .inl (.inl (List.contains_iff_mem.mp ‹_›))
  · split at h
    · exact .inr (of_decide_eq_true ‹_› ▸ by decide)
    · split at h
      · exact .inl (.inr (List.contains_iff_mem.mp ‹_›))
      · split at h
        · exact .inr (of_decide_eq_true ‹_› ▸ by decide)
        · split at h
          · exact .inr (of_decide_eq_true ‹_› ▸ by decide)
          · cases h

theorem errors_apart (form : Form) :
    ∀ c ∈ errorCommands, c ∉ commandsOf form ∧ isWhoisReply c = false := by
  cases form <;> decide +kernel

/-- An error is part of no reply. -/
theorem error_no_role {x : Query} (herror : isErrorFor env l q = true) (hunread : x.batchRef = []) :
    roleOf env l x = none := by
  obtain ⟨hother, hwhois⟩ := errors_apart x.form _ (isErrorFor_command herror)
  by_contra hrole
  obtain ⟨⟨role, x'⟩, hrole⟩ := Option.ne_none_iff_exists'.mp hrole
  rcases roleOf_command hrole with hof | ⟨-, hof⟩ | ⟨-, -, hopen, -⟩
  · exact hother hof
  · rw [hwhois] at hof
    cases hof
  · exact hopen hunread

theorem hearer_filter : r.hearer env l =
    (r.wire.filter (·.sent)).findSome? fun q => (roleOf env l q).map (q, ·) := by
  unfold Router.hearer
  induction r.wire with
  | nil => rfl
  | cons q wire ih =>
    rw [List.findSome?_cons, ih]
    cases hsent : q.sent with
    | false => rw [List.filter_cons_of_neg (by simp [hsent])]; rfl
    | true => rw [List.filter_cons_of_pos hsent, List.findSome?_cons]; rfl

theorem erring_filter : (r.wire.find? fun q => q.sent && isErrorFor env l q) =
    (r.wire.filter (·.sent)).find? (isErrorFor env l) := by
  rw [List.find?_filter]
  congr 1
  funext q
  rw [Bool.decide_and, Bool.decide_coe, Bool.decide_coe]

theorem Follows.pending_nodup (h : Follows r s) : (s.pending.map (·.id)).Nodup := by
  rw [← h.wire]
  exact h.books.wire_nodup.sublist (List.filter_sublist.map _)

theorem Follows.mem_wire (h : Follows r s) (hq : q ∈ s.pending) : q ∈ r.wire ∧ q.sent = true := by
  rw [← h.wire] at hq
  exact List.mem_filter.mp hq

/-- The first query the server has is on the wire, and off it the server has the others. -/
theorem first_off {rest : List Query} {owed : Option (Query × Str)}
    (h : Follows r ⟨q :: rest, owed⟩) :
    q ∈ r.wire ∧ (r.wire.filter (·.id ≠ q.id)).filter (·.sent) = rest := by
  refine ⟨(h.mem_wire List.mem_cons_self).1, ?_⟩
  rw [List.filter_filter, List.filter_congr (fun x _ => Bool.and_comm _ _), ← List.filter_filter,
    h.wire, List.filter_cons_of_neg (by simp)]
  apply List.filter_eq_self.mpr
  intro x hx
  apply decide_eq_true
  intro hid
  exact (List.nodup_cons.mp h.pending_nodup).1 (List.mem_map.mpr ⟨x, hx, hid⟩)

/-- The first query is over: it leaves the wire, and may be owed a line. -/
theorem finish_lands {q' : Query} {rest : List Query} (h : Follows r ⟨q :: rest, none⟩)
    (hreads : Reads q q') {wants : Option Str} {how : QueryEnd}
    (hends : Books.EndsBy q' wants how) :
    ∃ mid qs, Lands r (r.finish env q' wants how) ⟨rest, wants.map (q', ·)⟩ mid qs := by
  obtain ⟨hq, hrest⟩ := first_off h
  rw [← hreads.id] at hrest
  have hmade : Made (r.takeOffWire q'.id) :=
    ⟨h.made.asked, fun x hx => h.made.wire x (List.mem_of_mem_filter hx), h.made.waiting⟩
  have hunread : ∀ x ∈ rest.tail, x.batchRef = [] := fun x hx => h.unread x (List.mem_of_mem_tail hx)
  have hquiet : ∀ o ∈ [Out.ended q'.id how], ∀ asked, wentOf asked o = none := by
    intro o ho asked
    rw [List.mem_singleton.mp ho]
    rfl
  cases wants with
  | none =>
    have hbooks := h.books.endNow hq hreads.same hends
    have hmid : Tracks ((r.takeOffWire q'.id).note [.ended q'.id how]) ⟨rest, none⟩ :=
      ⟨⟨hmade.asked, hmade.wire, hmade.waiting⟩, hrest, h.owed, hunread, h.orphans⟩
    obtain ⟨qs, hgoes⟩ := goes_releaseWaiting env hbooks hmid.made
    exact ⟨_, qs, hmid, ⟨_, rfl, fun o ho => hquiet o ho _⟩, hgoes⟩
  | some wants =>
    have hmid : Tracks (r.finish env q' (some wants) how) ⟨rest, some (q', wants)⟩ :=
      ⟨⟨hmade.asked, hmade.wire, hmade.waiting⟩, hrest, rfl, hunread, h.orphans⟩
    exact ⟨_, [], hmid, ⟨_, rfl, fun o ho => hquiet o ho _⟩, .refl hmid.made⟩

/-- The first query heard a line: it is the first still. -/
theorem hears_tracks {q' : Query} {rest : List Query} (h : Follows r ⟨q :: rest, none⟩)
    (hreads : Reads q q') :
    Tracks { r with wire := r.wire.map fun x => if x.id = q.id then q' else x }
      ⟨q' :: rest, none⟩ := by
  have hsent : q'.sent = true := hreads.sent.trans (h.mem_wire List.mem_cons_self).2
  refine ⟨⟨h.made.asked, fun x hx hunsent => ?_, h.made.waiting⟩, ?_,
    h.owed, h.unread, h.orphans⟩
  · obtain ⟨y, hy, rfl⟩ := List.mem_map.mp hx
    split at hunsent
    · rw [hsent] at hunsent
      cases hunsent
    · rename_i hne
      rw [if_neg hne]
      exact h.made.wire y hy hunsent
  · have hq := (h.mem_wire List.mem_cons_self).1
    have hsame : r.wire.filter ((·.sent) ∘ fun x => if x.id = q.id then q' else x) =
        r.wire.filter (·.sent) := by
      apply List.filter_congr
      intro x hx
      rw [Function.comp_apply]
      split
      · rw [h.books.wire_unique hq hx ‹_›, hreads.sent]
      · rfl
    have hrest : rest.map (fun x => if x.id = q.id then q' else x) = rest.map id := by
      apply List.map_congr_left
      intro x hx
      apply if_neg
      intro hid
      exact (List.nodup_cons.mp h.pending_nodup).1 (List.mem_map.mpr ⟨x, hx, hid⟩)
    show (r.wire.map fun x => if x.id = q.id then q' else x).filter (·.sent) = q' :: rest
    rw [List.filter_map, hsame, h.wire, List.map_cons, if_pos rfl, hrest, List.map_id]

theorem claimOrphan_empty (h : r.orphanBatches = .empty) : r.claimOrphan l = none := by
  simp only [Router.claimOrphan, h, OrderedMap.get?_empty, Option.map_none, Option.bind_fun_none]

theorem claimed_lands {pending : List Query} (h : Follows r ⟨pending, none⟩)
    (hturn : (⟨pending, none⟩ : Server).InTurn env l) :
    (r.claimed env l).2 = ((⟨pending, none⟩ : Server).drawnBy env l).elim (Router.unclaimed l)
      (Router.ownerOf ·.asker) ∧
    ∃ mid qs, Lands r (r.claimed env l).1 (Server.tells env pending l) mid qs := by
  have hhearer : r.hearer env l = pending.findSome? fun q => (roleOf env l q).map (q, ·) := by
    rw [hearer_filter, h.wire]
  have herring : (r.wire.find? fun q => q.sent && isErrorFor env l q) =
      pending.find? (isErrorFor env l) := by
    rw [erring_filter, h.wire]
  have hclaimed : r.claimed env l = (r.claim env l).getD (r, Router.unclaimed l) := by
    rw [Router.claimed, claimOrphan_empty h.orphans, Option.orElse_none]
  rw [hclaimed]
  cases pending with
  | nil =>
    have hclaim : r.claim env l = none := by
      simp only [Router.claim, hhearer, List.findSome?_nil, herring, List.find?_nil, Option.map_none]
    rw [hclaim]
    exact ⟨rfl, r, [], .of_log h.toTracks rfl⟩
  | cons q rest =>
    have hq := (first_off h).1
    cases hrole : roleOf env l q with
    | some got =>
      obtain ⟨role, q'⟩ := got
      have hreads := reads_roleOf hrole
      have hdrawn : (⟨q :: rest, none⟩ : Server).drawnBy env l = some q := by
        simp only [Server.drawnBy, Server.trails, Option.bind_none, Option.orElse_none,
          List.head?_cons, hrole, Option.isSome_some, Bool.true_or, Option.filter_some_pos]
      have hhears : r.hearer env l = some (q, role, q') := by
        rw [hhearer, List.findSome?_cons, hrole]
        rfl
      rw [hdrawn]
      cases role with
      | body =>
        have hclaim : r.claim env l = some ({ r with
            wire := r.wire.map fun x => if x.id = q.id then q' else x },
            Router.ownerOf q.asker) := by
          rw [Router.claim, hhears]
        have htells : Server.tells env (q :: rest) l = ⟨q' :: rest, none⟩ := by
          simp only [Server.tells, hrole]
        rw [hclaim, htells]
        exact ⟨rfl, _, [], .of_log (hears_tracks h hreads) rfl⟩
      | ends =>
        have hclaim : r.claim env l = some (r.finish env q' (trailerOf l q)
            (if is l "774" then .postponed else .replied), Router.ownerOf q.asker) := by
          rw [Router.claim, hhears]
        have htells : Server.tells env (q :: rest) l =
            ⟨rest, (trailerOf l q).map (q', ·)⟩ := by
          simp only [Server.tells, hrole]
        rw [hclaim, htells]
        exact ⟨rfl, finish_lands h hreads (h.books.ends_of hq hrole)⟩
    | none =>
      cases herror : isErrorFor env l q with
      | true =>
        have hnone : r.hearer env l = none := by
          rw [hhearer, List.findSome?_eq_none_iff]
          intro x hx
          rcases List.mem_cons.mp hx with rfl | hx
          · rw [hrole, Option.map_none]
          · rw [error_no_role herror (h.unread x hx), Option.map_none]
        have hclaim : r.claim env l =
            some (r.finish env q (endAfterError q) .error, Router.ownerOf q.asker) := by
          rw [Router.claim, hnone, herring, List.find?_cons_of_pos herror]
          rfl
        have hdrawn : (⟨q :: rest, none⟩ : Server).drawnBy env l = some q := by
          simp only [Server.drawnBy, Server.trails, Option.bind_none, Option.orElse_none,
            List.head?_cons, herror, Bool.or_true, Option.filter_some_pos]
        have htells : Server.tells env (q :: rest) l =
            ⟨rest, (endAfterError q).map (q, ·)⟩ := by
          simp only [Server.tells, hrole, herror, ↓reduceIte]
        rw [hclaim, hdrawn, htells]
        exact ⟨rfl, finish_lands h (.refl q) (.inl rfl)⟩
      | false =>
        have hdrawn : (⟨q :: rest, none⟩ : Server).drawnBy env l = none := by
          simp only [Server.drawnBy, Server.trails, Option.bind_none, Option.orElse_none,
            List.head?_cons, hrole, herror, Option.isSome_none, Bool.or_false,
            Option.filter_some_neg]
        have hall := hturn hdrawn
        have hnone : r.hearer env l = none := by
          rw [hhearer, List.findSome?_eq_none_iff]
          intro x hx
          rw [(hall x hx).1, Option.map_none]
        have hclaim : r.claim env l = none := by
          rw [Router.claim, hnone, herring, List.find?_eq_none.mpr fun x hx => by
            rw [(hall x hx).2]
            exact Bool.false_ne_true]
          rfl
        have htells : Server.tells env (q :: rest) l = ⟨q :: rest, none⟩ := by
          simp only [Server.tells, hrole, herror, Bool.false_eq_true, ↓reduceIte]
        rw [hclaim, hdrawn, htells]
        exact ⟨rfl, r, [], .of_log h.toTracks rfl⟩

theorem line_lands (h : Follows r s) (hturn : s.InTurn env l) :
    (r.noteServerLine env l).2 =
      (s.drawnBy env l).elim (Router.unclaimed l) (Router.ownerOf ·.asker) ∧
    ∃ mid qs, Lands r (r.noteServerLine env l).1 (s.speaks env l) mid qs := by
  obtain ⟨modes, heq⟩ := noteModes_eq env r l
  have hmodes : Follows { r with modes := modes } s :=
    ⟨⟨⟨h.made.asked, h.made.wire, h.made.waiting⟩, h.wire, h.owed, h.unread, h.orphans⟩,
      h.books.perm (.refl _) rfl rfl rfl⟩
  obtain ⟨pending, owed⟩ := s
  unfold Router.noteServerLine
  rw [heq]
  dsimp only
  split
  · rename_i hnone
    obtain rfl : owed = none := h.owed.symm.trans hnone
    obtain ⟨howner, mid, qs, hlands⟩ := claimed_lands hmodes hturn
    exact ⟨howner, mid, qs, hlands.since rfl⟩
  · rename_i q wants hsome
    obtain rfl : owed = some (q, wants) := h.owed.symm.trans hsome
    have hover : Follows { r with modes := modes, settle := none } ⟨pending, none⟩ :=
      ⟨⟨⟨h.made.asked, h.made.wire, h.made.waiting⟩, h.wire, rfl, h.unread, h.orphans⟩,
        hmodes.books.unsettle⟩
    cases hsettles : settles env l q wants with
    | true =>
      have htrails : (⟨pending, some (q, wants)⟩ : Server).trails env l = some q := by
        simp only [Server.trails, Option.bind_some, hsettles, ↓reduceIte]
      have hbooks := hmodes.books.trailed (hmodes.owed)
      have hmid : Tracks (({ r with modes := modes, settle := none } : Router).note
          [.trailed q.id]) ⟨pending, none⟩ :=
        ⟨⟨h.made.asked, h.made.wire, h.made.waiting⟩, h.wire, rfl, h.unread, h.orphans⟩
      obtain ⟨qs, hgoes⟩ := goes_releaseWaiting env hbooks hmid.made
      simp only [Server.drawnBy, Server.speaks, htrails, Option.orElse_some, Option.elim_some,
        Option.isSome_some, ↓reduceIte, true_and]
      refine ⟨_, qs, hmid, ⟨_, rfl, fun o ho => ?_⟩, hgoes⟩
      rw [List.mem_singleton.mp ho]
      rfl
    | false =>
      have htrails : (⟨pending, some (q, wants)⟩ : Server).trails env l = none := by
        simp only [Server.trails, Option.bind_some, hsettles, Bool.false_eq_true, ↓reduceIte]
      have hdrawn : (⟨pending, some (q, wants)⟩ : Server).drawnBy env l =
          (⟨pending, none⟩ : Server).drawnBy env l := by
        simp only [Server.drawnBy, htrails]
        rfl
      have hspeaks : (⟨pending, some (q, wants)⟩ : Server).speaks env l =
          Server.tells env pending l := by
        simp only [Server.speaks, htrails, Option.isSome_none, Bool.false_eq_true, ↓reduceIte]
      obtain ⟨howner, mid, qs, hlands⟩ := claimed_lands hover fun hnone => hturn (hdrawn.trans hnone)
      obtain ⟨qs', hreleased⟩ := hlands.release env (hover.books.claimed rfl env l)
      simp only [Bool.false_eq_true, ↓reduceIte]
      rw [hdrawn, hspeaks]
      exact ⟨howner, mid, qs', hreleased.since rfl⟩

theorem send_lands (h : Follows r s) (env : Env) (asker : Asker) (line : Str) :
    ∃ mid qs, Lands r (r.send env asker line) s mid qs := by
  unfold Router.send
  split
  · refine ⟨r, [], h.toTracks, (Lands.of_log h.toTracks rfl).log, Goes.note h.made _ fun o ho => ?_⟩
    rw [List.mem_singleton.mp ho]
    rfl
  · rename_i found hfound
    have hnew := classify_new hfound
    set q : Query := ⟨found, r.asked.length, some asker, line, false, false⟩
    have hmid : Tracks { r with asked := r.asked ++ [q] } s := by
      refine ⟨⟨fun x hx => ?_, fun x hx hsent => ?_, fun x hx => ?_⟩, h.wire, h.owed, h.unread,
        h.orphans⟩
      · rcases List.mem_append.mp hx with hx | hx
        · exact h.made.asked x hx
        · rw [List.mem_singleton.mp hx]
          exact ⟨rfl, hnew.batchRef⟩
      · exact List.mem_append_left _ (h.made.wire x hx hsent)
      · exact List.mem_append_left _ (h.made.waiting x hx)
    obtain ⟨qs, hgoes⟩ := goes_dispatch env (h.books.ask rfl hnew.fits) hmid.made
      (List.mem_append_right _ List.mem_cons_self)
    exact ⟨_, qs, hmid, (Lands.of_log hmid rfl).log, hgoes⟩

theorem wentOut_lands (h : Follows r s) (id : Nat) : ∃ mid qs, Lands r (r.wentOut id) s mid qs := by
  unfold Router.wentOut
  split
  · rename_i x hfind
    have hcond := List.find?_some hfind
    simp only [Bool.and_eq_true, Bool.not_eq_true'] at hcond
    exact ⟨r, [x], h.toTracks, (Lands.of_log h.toTracks rfl).log,
      goes_markSent h.books h.made (List.mem_of_find?_eq_some hfind) hcond.2⟩
  · exact ⟨r, [], .of_log h.toTracks rfl⟩

theorem settleTimeout_lands (h : Follows r s) (env : Env) :
    ∃ mid qs, Lands r (r.settleTimeout env) ⟨s.pending, none⟩ mid qs := by
  have hover : Tracks { r with settle := none } ⟨s.pending, none⟩ :=
    ⟨⟨h.made.asked, h.made.wire, h.made.waiting⟩, h.wire, rfl, h.unread, h.orphans⟩
  unfold Router.settleTimeout
  split
  · have hlands : Lands r { r with settle := none } ⟨s.pending, none⟩ _ [] := .of_log hover rfl
    exact ⟨_, hlands.release env h.books.unsettle⟩
  · rename_i hnone
    rw [Bool.not_eq_true, Option.isSome_eq_false_iff, Option.isNone_iff_eq_none] at hnone
    have hsame : Tracks r ⟨s.pending, none⟩ := ⟨h.made, h.wire, hnone, h.unread, h.orphans⟩
    exact ⟨r, [], .of_log hsame rfl⟩

theorem reset_lands (r : Router) (hmade : Made r) :
    ∃ mid qs, Lands r r.reset ⟨[], none⟩ mid qs := by
  have hmid : Tracks r.reset ⟨[], none⟩ :=
    ⟨⟨hmade.asked, fun _ hx => absurd hx List.not_mem_nil, fun _ hx => absurd hx List.not_mem_nil⟩,
      rfl, rfl, fun _ hx => absurd hx List.not_mem_nil, rfl⟩
  refine ⟨_, [], hmid, ⟨_, List.append_assoc _ _ _, fun o ho => ?_⟩, .refl hmid.made⟩
  rcases List.mem_append.mp ho with ho | ho
  · obtain ⟨x, -, ho⟩ := List.mem_flatMap.mp ho
    rcases List.mem_cons.mp ho with rfl | ho
    · rfl
    · rw [List.mem_singleton.mp ho]
      rfl
  · obtain ⟨x, -, ho⟩ := List.mem_flatMap.mp ho
    rcases List.mem_append.mp ho with ho | ho
    · exact wentOf_abortOf ho
    · rw [List.mem_singleton.mp ho]
      rfl

theorem orphan_sent (c : Nat) (q : Query) : (Router.orphan c q).sent = q.sent := by
  unfold Router.orphan
  split <;> rfl

theorem orphan_batchRef (c : Nat) (q : Query) : (Router.orphan c q).batchRef = q.batchRef := by
  unfold Router.orphan
  split <;> rfl

/-- A query that has not gone is not orphaned: it goes with its client. -/
theorem withdraw_tracks (h : Follows r s) (c : Nat) : Tracks (r.withdraw c) (s.detach c) := by
  refine ⟨⟨h.made.asked, fun x hx hunsent => ?_, fun x hx => ?_⟩, ?_, ?_, fun x hx => ?_, h.orphans⟩
  · obtain ⟨y, hy, rfl⟩ := List.mem_map.mp hx
    obtain ⟨hy, hstays⟩ := List.mem_filter.mp hy
    rw [orphan_sent] at hunsent
    have hother : Router.isOf c y = false := by
      simpa only [hunsent, Bool.not_false, Bool.and_true, Bool.not_eq_true'] using hstays
    have hself : Router.orphan c y = y := by
      rw [Router.orphan, hother, if_neg Bool.false_ne_true]
    rw [hself]
    exact h.made.wire y hy hunsent
  · exact h.made.waiting x (List.mem_of_mem_filter hx)
  · have hsent : ∀ x : Query, ((·.sent) ∘ Router.orphan c) x = x.sent := orphan_sent c
    show ((r.wire.filter fun q => !(Router.isOf c q && !q.sent)).map (Router.orphan c)).filter
      (·.sent) = s.pending.map (Router.orphan c)
    rw [List.filter_map, List.filter_congr fun x _ => hsent x, List.filter_filter, ← h.wire]
    congr 1
    apply List.filter_congr
    intro x _
    cases x.sent with
    | false => rw [Bool.false_and]
    | true => simp only [Bool.not_true, Bool.and_false, Bool.not_false, Bool.and_self]
  · show r.settle.map _ = _
    rw [h.owed]
    rfl
  · rw [Server.detach, ← List.map_tail] at hx
    obtain ⟨y, hy, rfl⟩ := List.mem_map.mp hx
    rw [orphan_batchRef]
    exact h.unread y hy

theorem dropClient_lands (h : Follows r s) (env : Env) (c : Nat) :
    ∃ mid qs, Lands r (r.dropClient env c) (s.detach c) mid qs := by
  have hmid := withdraw_tracks h c
  have hlands : Lands r (r.withdraw c) (s.detach c) (r.withdraw c) [] := by
    refine ⟨hmid, ⟨_, rfl, fun o ho => ?_⟩, .refl hmid.made⟩
    rcases List.mem_append.mp ho with ho | ho
    · obtain ⟨x, -, ho⟩ := List.mem_flatMap.mp ho
      rw [List.mem_singleton.mp ho]
      rfl
    · obtain ⟨x, -, ho⟩ := List.mem_flatMap.mp ho
      rcases List.mem_cons.mp ho with rfl | ho
      · rfl
      · rw [List.mem_singleton.mp ho]
        rfl
  unfold Router.dropClient
  split
  · exact ⟨_, hlands.release env (h.books.withdraw id)⟩
  · exact ⟨_, [], hlands⟩

end Following

namespace Follows

/-- The router goes on following the server, whatever comes in order. -/
theorem step {w : World} (h : Follows w.router w.server) {e : Env × Event} (horder : w.InOrder e) :
    Follows (w.step e).router (w.step e).server := by
  have hbooks := h.books.step e fun _ _ hfalse => hfalse
  have hlands : ∃ mid qs, Lands w.router (w.router.step e) (w.server.hears e.1 e.2) mid qs := by
    obtain ⟨env, e⟩ := e
    cases e with
    | send asker line => exact send_lands h env asker line
    | went id => exact wentOut_lands h id
    | line l => exact (line_lands h horder).2
    | settleTimeout => exact settleTimeout_lands h env
    | timeout id => exact horder.elim
    | reset => exact reset_lands w.router h.made
    | dropClient c => exact dropClient_lands h env c
  obtain ⟨mid, qs, hlands⟩ := hlands
  exact hlands.ends hbooks

theorem init : Follows World.init.router World.init.server :=
  ⟨⟨⟨fun _ hq => absurd hq List.not_mem_nil, fun _ hq => absurd hq List.not_mem_nil,
    fun _ hq => absurd hq List.not_mem_nil⟩, rfl, rfl, fun _ hq => absurd hq List.not_mem_nil, rfl⟩,
    .init _⟩

theorem run {es : List (Env × Event)} (horder : Run.Within World.step World.InOrder World.init es) :
    Follows (Run.after World.step World.init es).router (Run.after World.step World.init es).server :=
  Run.invariant_within (P := fun w => Follows w.router w.server) World.step init
    (fun _ _ h hw => h.step hw) es horder

end Follows

/-- In every run in which the server answers in turn and no query is given up, what went is what
the server has, a line of a reply goes to the one who asked, and any other to nobody in particular,
whatever was asked around it. -/
theorem replies_find_askers {es : List (Env × Event)}
    (horder : Run.Within World.step World.InOrder World.init es) {env : Env} {l : Line}
    (hturn : (Run.after World.step World.init es).server.InTurn env l) :
    (Run.after World.step World.init es).router.wire.filter (·.sent) =
        (Run.after World.step World.init es).server.pending ∧
      ((Run.after World.step World.init es).router.noteServerLine env l).2 =
        ((Run.after World.step World.init es).server.drawnBy env l).elim (Router.unclaimed l)
          (Router.ownerOf ·.asker) :=
  ⟨(Follows.run horder).wire, (line_lands (Follows.run horder) hturn).1⟩

/-- Two clients and Lurker ask at once, and the server is at the second's reply. -/
def mixedRun : List (Env × Event) :=
  [asks 1 "WHOIS bob", (sampleEnv, .send .lurker "MODE #a".toList), asks 2 "WHO #b",
    hearsLine "311" ["me", "bob", "u", "h"], hearsLine "318" ["me", "bob"],
    hearsLine "324" ["me", "#a", "+nt"]]

theorem replies_find_askers_sample :
    ((Run.after World.step World.init mixedRun).router.noteServerLine sampleEnv
      ⟨"329".toList, "329".toList, ["me", "#a", "1"].map String.toList, none⟩).2 =
        .asker .lurker := by
  have horder : Run.Within World.step World.InOrder World.init mixedRun :=
    ⟨trivial, trivial, trivial, fun hnone => absurd hnone (by decide +kernel),
      fun hnone => absurd hnone (by decide +kernel), fun hnone => absurd hnone (by decide +kernel),
      trivial⟩
  refine (replies_find_askers horder fun hnone => absurd hnone (by decide +kernel)).2.trans ?_
  decide +kernel

end Lurker.Replies
