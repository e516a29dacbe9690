import Lurker.Engine.Claims
import Lurker.Lib.Run

/-!
# Every step is a sequence of moves

The operations of `EngineServer`, taken apart. What a step lets go of and what
it takes in shows in its kind of move: everything else is calm.
-/

namespace Lurker.Engine.Server

open Relation (ReflTransGen)

section

variable (env : Platform) (o : ServerOptions) (c : Cause)

abbrev Calms : Server → Server → Prop := ReflTransGen (Calm env o c)

abbrev Moves : Server → Server → Prop := ReflTransGen (Move env o c)

end

section

variable {env : Platform} {o : ServerOptions} {c : Cause} {s t v : Server} {l : LinkId} {k : Nat}
  {n : SocketId}

theorem Calms.moves (h : Calms env o c s t) : Moves env o c s t :=
  ReflTransGen.mono (fun _ _ => Move.calm) _ _ h

/-- What every move keeps, a sequence of them keeps. -/
theorem Moves.keep {P : Server → Prop} (hstep : ∀ {s t}, Move env o c s t → P s → P t)
    (h : Moves env o c s t) (hs : P s) : P t := by
  induction h with
  | refl => exact hs
  | tail _ hm ih => exact hstep hm ih

theorem Moves.wf (h : Moves env o c s t) (hs : s.Wf) : t.Wf := h.keep Move.wf hs

theorem Calms.wf (h : Calms env o c s t) (hs : s.Wf) : t.Wf := h.moves.wf hs

/-- Where `close` leaves an upstream; ending on the spot is the rest of it. -/
theorem closeUpstream_calms (h : s.Mapped n ∨ (s.upstream n).sink = none) :
    Calms env o c s (s.closeUpstream n) := by
  have hk := Upstream.keeps_close (s.upstream n)
  have ht : Calm env o c s (s.setUpstream n (s.upstream n).close.1) :=
    .touch hk (Upstream.burstDone_close _)
  simp only [closeUpstream]
  split
  · refine (ReflTransGen.single ht).tail (.ended ?_)
    have hself : (s.setUpstream n (s.upstream n).close.1).upstream n = (s.upstream n).close.1 := by
      rw [setUpstream_upstream, if_pos rfl]
    rw [Mapped, hself, hk.id, hk.sink]
    exact h
  · exact .single ht

/-- Retiring a socket and closing it. -/
theorem retire_close_calms : Calms env o c s ((s.retire n).closeUpstream n) := by
  have hsink : ((s.retire n).upstream n).sink = none := by
    rw [retire_upstream, if_pos rfl]
    exact (Upstream.sameSocket_silence _ _).2.1
  simp only [closeUpstream]
  split
  · refine (ReflTransGen.single (.cut n)).tail (.ended (.inr ?_))
    simp only [setUpstream_upstream, if_pos]
    exact (Upstream.keeps_close _).sink.trans hsink
  · exact .single (.cut n)

/-- With one claimant, dropping its claim drops all. -/
theorem unclaim_eq_unclaimAll (hs : s.Wf) (h : s.Claims l n) : s.unclaim l n = s.unclaimAll n := by
  have hl : (s.unclaim l n).link = (s.unclaimAll n).link := by
    funext l'
    simp only [unclaim, unclaimAll, modifyLink_link]
    by_cases hl : l' = l
    · subst hl
      simp only [↓reduceIte, (hs.claims h).1]
    · rw [if_neg hl]
      split
      · have hn : n ∉ (s.link l').claimed := fun hc => hl (hs.claims_unique hc h)
        have hf : (s.link l').claimed.filter (· ≠ n) = (s.link l').claimed :=
          List.filter_eq_self.mpr (fun a ha => by
            simp only [ne_eq, decide_eq_true_eq]; rintro rfl; exact hn ha)
        simp only [AppLink.unclaim, hf]
      · rfl
  exact congrArg (fun f => { s with link := f }) hl

theorem unclaim_silence (hs : s.Wf) (h : s.Claims l n) :
    (s.unclaim l n).silence n = s.retire n := by
  rw [unclaim_eq_unclaimAll hs h, retire]

/-- With no claimant, silencing a socket retires it. -/
theorem silence_eq_retire (h : ∀ l, ¬ s.Claims l n) : s.silence n = s.retire n := by
  have hl : s.link = (s.unclaimAll n).link := by
    funext l'
    simp only [unclaimAll]
    split
    · have hf : (s.link l').claimed.filter (· ≠ n) = (s.link l').claimed :=
        List.filter_eq_self.mpr (fun a ha => by
          simp only [ne_eq, decide_eq_true_eq]; rintro rfl; exact h l' ha)
      simp only [AppLink.unclaim, hf]
    · rfl
  have hs : s = s.unclaimAll n := congrArg (fun f => { s with link := f }) hl
  rw [retire, ← hs]

/-- A retired socket that is closed is over. -/
theorem closeUpstream_over (h : (s.upstream n).sink = none) :
    ((s.closeUpstream n).upstream n).Over := by
  have hk := Upstream.keeps_close (s.upstream n)
  have h2 : ((s.setUpstream n (s.upstream n).close.1).upstream n).Over := by
    rw [setUpstream_upstream, if_pos rfl]
    exact ⟨hk.sink.trans h, .inl (Upstream.closing_close _)⟩
  simp only [closeUpstream]
  split
  · by_cases hst : ((s.setUpstream n (s.upstream n).close.1).upstream n).state = .closed
    · rw [onUpstreamClose, if_pos hst]
      exact h2
    · obtain ⟨-, -, -, -, -, hu, -⟩ := onUpstreamClose_spec hst
      rw [hu, if_pos rfl]
      obtain ⟨-, hcs, hsink, -⟩ := Upstream.onClose_spec hst
      exact ⟨hsink, .inr hcs⟩
  · exact h2

theorem closeUpstream_get {id : String} {m : SocketId}
    (h : (s.closeUpstream n).upstreams.get? id = some m) : s.upstreams.get? id = some m := by
  simp only [closeUpstream] at h
  split at h
  · by_cases hst : ((s.setUpstream n (s.upstream n).close.1).upstream n).state = .closed
    · rw [onUpstreamClose, if_pos hst] at h
      exact h
    · rw [(onUpstreamClose_spec hst).1] at h
      split at h
      · rw [OrderedMap.get?_delete] at h
        split at h
        · cases h
        · exact h
      · exact h
  · exact h

theorem closeUpstream_links : (s.closeUpstream n).links = s.links ∧
    ∀ l, ((s.closeUpstream n).link l).authed = (s.link l).authed ∧
      ((s.closeUpstream n).link l).instanceId = (s.link l).instanceId := by
  simp only [closeUpstream]
  split
  · by_cases hst : ((s.setUpstream n (s.upstream n).close.1).upstream n).state = .closed
    · rw [onUpstreamClose, if_pos hst]
      exact ⟨rfl, fun _ => ⟨rfl, rfl⟩⟩
    · obtain ⟨-, hl, -, -, -, -, hk⟩ := onUpstreamClose_spec hst
      refine ⟨hl, fun l => ?_⟩
      have hd : ∀ s : Server, ((s.deliver n (fun _ u => u.onClose)).link l).authed =
          (s.link l).authed ∧ ((s.deliver n (fun _ u => u.onClose)).link l).instanceId =
          (s.link l).instanceId := by
        intro s
        rw [deliver_link]
        split
        · exact ⟨write_authed _ _, write_instanceId _ _⟩
        · exact ⟨rfl, rfl⟩
      rw [hk]
      simp only
      split
      · exact hd _
      · exact hd _
  · exact ⟨rfl, fun _ => ⟨rfl, rfl⟩⟩

theorem dial_after_close_calms (hc : c = some (l, k)) {dial : DialRequest}
    (hl : l ∈ s.links) (ha : (s.link l).authed = true)
    (hn : s.upstreams.get? dial.id = some n) :
    Calms env o c s (((s.retire n).closeUpstream n).dialAfresh env o l k dial) := by
  have hsink : ((s.retire n).upstream n).sink = none := by
    rw [retire_upstream, if_pos rfl]
    exact (Upstream.sameSocket_silence _ _).2.1
  obtain ⟨hlinks, hlink⟩ := closeUpstream_links (s := s.retire n) (n := n)
  refine retire_close_calms.tail (.dial hc (hlinks ▸ hl) ?_ fun m hm => ?_)
  · exact ((hlink l).1.trans unclaimAll_link.1).trans ha
  · obtain rfl := Option.some.inj ((closeUpstream_get hm).symm.trans hn)
    exact closeUpstream_over hsink

theorem handOver_calms (hc : c = some (l, k)) (hs : s.Wf) (h : s.Claims l n)
    (payload : AttachedPayload) : Calms env o c s (s.handOver env l k n payload) := by
  simp only [handOver]
  split
  · rw [unclaim_silence hs h]
    exact retire_close_calms.tail (.reply hc rfl)
  · refine (ReflTransGen.single (.reply hc rfl)).tail (.flush (.inl ?_) ?_)
    · exact (hs.claims h).2.2.1
    · exact Upstream.flushAfterAttach_emits

/-- What follows a contest the link won. -/
theorem attached_calms (hc : c = some (l, k)) (hs : s.Wf) {dial : DialRequest}
    (hl : l ∈ s.links) (ha : (s.link l).authed = true)
    (hn : s.upstreams.get? dial.id = some n)
    (hi : (s.upstream n).opts.instanceId = (s.link l).instanceId)
    (hw : s.contest l n = (t, none)) :
    Calm env o c s (t.attachTo l k n).1 ∧
      Calms env o c (t.attachTo l k n).1 (s.attachHeld env o l k n dial) := by
  have hm : s.Mapped n := by rw [Mapped, (hs.mapped hn).1]; exact hn
  have hat : Calm env o c s (t.attachTo l k n).1 := .attach hc hl ha hm hi hw
  refine ⟨hat, ?_⟩
  have hv := hat.wf hs
  have hcl : (t.attachTo l k n).1.Claims l n := (claims_attachTo hs hw k).mpr (.inr ⟨rfl, rfl⟩)
  have hup : (t.attachTo l k n).1.upstreams = s.upstreams := (contest_upstream hw).2.1
  simp only [attachHeld, hw]
  generalize t.attachTo l k n = r at hv hcl hup ⊢
  obtain ⟨v, a⟩ := r
  cases a with
  | dialing => exact .single (.reply hc rfl)
  | unregistered =>
    simp only at hv hcl hup ⊢
    rw [unclaim_silence hv hcl]
    exact dial_after_close_calms hc (hv.claims hcl).1 (hv.claims hcl).2.1 (hup ▸ hn)
  | payload p => exact handOver_calms hc hv hcl p

theorem attachHeld_calms (hc : c = some (l, k)) (hs : s.Wf) {dial : DialRequest}
    (hl : l ∈ s.links) (ha : (s.link l).authed = true)
    (hn : s.upstreams.get? dial.id = some n)
    (hi : (s.upstream n).opts.instanceId = (s.link l).instanceId) :
    Calms env o c s (s.attachHeld env o l k n dial) := by
  cases hw : s.contest l n with
  | mk t r =>
    cases r with
    | some other =>
      simp only [attachHeld, hw, contest_lost hw]
      exact .single (.reply hc rfl)
    | none =>
      obtain ⟨hat, hrest⟩ := attached_calms hc hs hl ha hn hi hw
      exact .head hat hrest

theorem connect_calms (hc : c = some (l, k)) (hs : s.Wf) (hl : l ∈ s.links)
    (ha : (s.link l).authed = true) (frame : ConnectFrame) :
    Calms env o c s (s.connect env o l k frame) := by
  unfold connect
  split
  · exact .single (.reply hc rfl)
  · rename_i dial hv
    split
    · rename_i hn
      exact .single (.dial hc hl ha (fun m hm => by rw [hn] at hm; exact nomatch hm))
    · rename_i n hn
      split
      · exact .single (.reply hc rfl)
      · rename_i hi
        split
        · rename_i hcl
          have hclosing : (s.upstream n).closing = true :=
            hcl.resolve_right (hs.mapped hn).2.2
          refine (ReflTransGen.single (.retire hclosing)).tail (.dial hc hl ?_ ?_)
          · exact unclaimAll_link.1.trans ha
          · intro m hm
            obtain rfl := Option.some.inj (hm.symm.trans hn)
            rw [retire_upstream, if_pos rfl]
            obtain ⟨hsame, hsink, -⟩ := Upstream.sameSocket_silence (s.upstream m) s.now
            exact ⟨hsink, .inl (hsame.closing.trans hclosing)⟩
        · split
          · exact dial_after_close_calms hc hl ha hn
          · exact attachHeld_calms hc hs hl ha hn (not_not.mp hi)

/-- A claim taken by a `close`, and the frame that says so, in either order. -/
theorem unclaim_send_silence (hs : s.Wf) (h : s.Claims l n) (origin : Origin) (f : EngineToApp) :
    ((s.unclaim l n).send l origin f).silence n = (s.send l origin f).retire n := by
  have hw : ∀ k : AppLink, (k.unclaim n).write [{ frame := f, origin }] =
      (k.write [{ frame := f, origin }]).unclaim n := by
    intro k
    cases hd : k.destroyed <;> simp [AppLink.write, AppLink.unclaim, hd]
  have hu : (s.unclaim l n).send l origin f = (s.send l origin f).unclaim l n := by
    have hk : ((s.unclaim l n).send l origin f).link = ((s.send l origin f).unclaim l n).link := by
      funext l'
      simp only [send, unclaim, modifyLink_link]
      by_cases hl : l' = l
      · simp only [hl, ↓reduceIte, hw]
      · simp only [if_neg hl]
    exact congrArg (fun k => { s with link := k }) hk
  have ha : s.Alike (s.send l origin f) := alike_write _ _ _
  rw [hu]
  exact unclaim_silence (ha.wf hs) (ha.claims_iff.mpr h)

/-- A `close` from a link without the claim, once the contest is won. -/
theorem contest_close_calms (hs : s.Wf) (hl : ¬ s.Claims l n) (hm : s.Mapped n)
    (hw : s.contest l n = (t, none)) : Calms env o c s ((t.silence n).closeUpstream n) := by
  rcases contest_won hw with ⟨ho, rfl⟩ | ⟨other, ho, -, rfl⟩
  · have hnone : ∀ l', ¬ t.Claims l' n := by
      intro l' hc
      obtain rfl := Option.some.inj (holderOf_none hs ho hc)
      exact hl hc
    rw [silence_eq_retire hnone]
    exact retire_close_calms
  · rw [unclaim_send_silence hs (holderOf_some ho).2.1]
    exact .head (.detached (holderOf_some ho).2.1) retire_close_calms

theorem release_moves (hc : c = some (l, k)) (h : s.Claims l n) : Moves env o c s (s.release l n) := by
  rw [release, if_pos (show n ∈ (s.link l).claimed from h)]
  exact (.head (.letGo hc h) (.single (.calm (.offer n (some l)))))

theorem drive_cases (hs : s.Wf) (h : s.Claims l n) (op : SocketOp) :
    Calms env o c s (s.drive l n op) ∨ op = .detach ∧ s.drive l n op = s.release l n := by
  cases op with
  | write line =>
    exact .inl (.single (.touch (Upstream.keeps_rawWrite _ _) (Upstream.burstDone_rawWrite _ _)))
  | ack seq => exact .inl (.single (.ack n seq))
  | detach => exact .inr ⟨rfl, rfl⟩
  | close => exact .inl (closeUpstream_calms (.inl (hs.claims h).2.2.1))

/-- A frame about one socket is calm unless it lets go of the socket. -/
theorem socketOp_cases (hc : c = some (l, k)) (hs : s.Wf) (id : String) (op : SocketOp) :
    Calms env o c s (s.socketOp l k id op) ∨
      op = .detach ∧ ∃ n, s.upstreams.get? id = some n ∧ s.Claims l n ∧
        s.socketOp l k id op = s.release l n := by
  have hfail : ∀ message, Calms env o c s (s.fail l k message (some id)) :=
    fun _ => .single (.reply hc rfl)
  unfold socketOp
  split
  · exact .inl (hfail _)
  · rename_i n hn
    have hm : s.Mapped n := by rw [Mapped, (hs.mapped hn).1]; exact hn
    split
    · exact .inl (hfail _)
    · split
      · rename_i hcl
        exact (drive_cases hs hcl op).imp_right (fun h => ⟨h.1, n, hn, hcl, h.2⟩)
      · rename_i hcl
        split
        · exact .inl (.single (.ack n _))
        · split
          · rename_i t r hw
            rw [contest_lost hw]
            exact .inl (hfail _)
          · rename_i t hw
            exact .inl (contest_close_calms hs hcl hm hw)
        · exact .inl (hfail _)

/-- A link that is refused is told why and dropped. -/
theorem refused_calms (hc : c = some (l, k)) (message : String) :
    Calms env o c s ((s.fail l k message none).destroyLink l) :=
  .head (.reply hc rfl) (.single (.linkDestroyed l))

theorem hello_moves (hc : c = some (l, k)) (hl : l ∈ s.links) (ha : (s.link l).authed = false)
    (f : HelloFrame) : Moves env o c s (s.hello env o l k f) := by
  unfold hello
  split
  · exact (refused_calms hc _).moves
  · exact .head (.authenticate hl ha f) (.single (.calm (.reply hc rfl)))

/-- A frame is calm unless it lets go of a socket or brings its link in. -/
theorem dispatch_cases (hc : c = some (l, k)) (hs : s.Wf) (hl : l ∈ s.links)
    (frame : AppToEngine) :
    Calms env o c s (s.dispatch env o l k frame) ∨
      (∃ id n, frame = .detach id ∧ s.upstreams.get? id = some n ∧ s.Claims l n ∧
        s.dispatch env o l k frame = s.release l n) ∨
      ∃ f, frame = .hello f ∧ (s.link l).authed = false ∧
        s.dispatch env o l k frame = s.hello env o l k f := by
  have hop : ∀ id op, frame = .detach id ∨ op ≠ .detach →
      s.dispatch env o l k frame = s.socketOp l k id op →
      Calms env o c s (s.dispatch env o l k frame) ∨
        (∃ id n, frame = .detach id ∧ s.upstreams.get? id = some n ∧ s.Claims l n ∧
          s.dispatch env o l k frame = s.release l n) ∨
        ∃ f, frame = .hello f ∧ (s.link l).authed = false ∧
          s.dispatch env o l k frame = s.hello env o l k f := by
    intro id op hfr he
    rw [he]
    rcases socketOp_cases hc hs id op with h | ⟨hd, n, hn, hcl, h⟩
    · exact .inl h
    · exact .inr (.inl ⟨id, n, hfr.resolve_right (fun h => h hd), hn, hcl, h⟩)
  by_cases ha : (s.link l).authed = true
  · cases frame with
    | hello f => refine .inl ?_; simp only [dispatch, ha, ↓reduceIte]; exact .refl
    | ping => refine .inl ?_; simp only [dispatch, ha, ↓reduceIte]; exact .single (.reply hc rfl)
    | pong => refine .inl ?_; simp only [dispatch, ha, ↓reduceIte]; exact .refl
    | connect f =>
      refine .inl ?_; simp only [dispatch, ha, ↓reduceIte]; exact connect_calms hc hs hl ha f
    | list => refine .inl ?_; simp only [dispatch, ha, ↓reduceIte]; exact .single (.reply hc rfl)
    | write id line => exact hop id (.write line) (.inr nofun) (by simp only [dispatch, ha, ↓reduceIte])
    | ack id seq => exact hop id (.ack seq) (.inr nofun) (by simp only [dispatch, ha, ↓reduceIte])
    | detach id => exact hop id .detach (.inl rfl) (by simp only [dispatch, ha, ↓reduceIte])
    | close id => exact hop id .close (.inr nofun) (by simp only [dispatch, ha, ↓reduceIte])
    | unknown op =>
      refine .inl ?_; simp only [dispatch, ha, ↓reduceIte]; exact .single (.reply hc rfl)
  · cases frame with
    | hello f =>
      exact .inr (.inr ⟨f, rfl, by simpa using ha, by simp only [dispatch, ha]; rfl⟩)
    | _ =>
      refine .inl ?_
      simp only [dispatch, ha]
      exact refused_calms hc _

theorem dispatch_moves (hc : c = some (l, k)) (hs : s.Wf) (hl : l ∈ s.links)
    (frame : AppToEngine) : Moves env o c s (s.dispatch env o l k frame) := by
  rcases @dispatch_cases env o _ _ _ _ hc hs hl frame with
    h | ⟨-, n, -, -, hcl, h⟩ | ⟨f, -, ha, h⟩
  · exact h.moves
  · rw [h]; exact release_moves hc hcl
  · rw [h]; exact hello_moves hc hl ha f

theorem onFrame_moves (hs : s.Wf) (frame : AppToEngine) :
    Moves env o (some (l, (s.link l).read)) s (s.onFrame env o l frame) := by
  unfold onFrame
  split
  · rename_i h
    have hr : Calm env o (some (l, (s.link l).read)) s (s.modifyLink l (·.readOne)) := .read l
    exact .head (.calm hr) (dispatch_moves rfl (hr.wf hs) h.1 frame)
  · exact .refl

/-- A fold of calm steps over sockets whose ids mean them. -/
theorem foldl_calms {f : Server → SocketId → Server} {P : Server → SocketId → Prop}
    (hf : ∀ {s n}, s.Wf → P s n → Calms env o c s (f s n) ∧ ∀ m, P s m → P (f s n) m)
    (ns : List SocketId) (hs : s.Wf) (h : ∀ n ∈ ns, P s n) : Calms env o c s (ns.foldl f s) := by
  induction ns generalizing s with
  | nil => exact .refl
  | cons n ns ih =>
    obtain ⟨hstep, hkeep⟩ := hf hs (h n List.mem_cons_self)
    exact hstep.trans (ih (hstep.wf hs) (fun m hm => hkeep m (h m (List.mem_cons_of_mem _ hm))))

theorem offer_calms (released : List SocketId) (except : Option LinkId) :
    Calms env o c s (s.offer released except) := by
  unfold offer
  induction released generalizing s with
  | nil => exact .refl
  | cons n ns ih => exact .head (.offer n except) ih

theorem onDrain_calms (hs : s.Wf) : Calms env o c s (s.onDrain l) := by
  unfold onDrain
  split
  · refine foldl_calms (P := Mapped) (fun {s n} hs hn => ?_) _ hs
      (fun n hn => (hs.claims hn).2.2.1)
    have hfl : Calm env o c s (s.deliver n (fun ok u => u.resume ok)) :=
      .flush (.inl hn) Upstream.resume_emits
    exact ⟨.single hfl, fun m hm => (s.alike_flush n Upstream.resume_emits).mapped_iff.mpr hm⟩
  · exact .refl

theorem onLinkClose_moves : Moves env o c s (s.onLinkClose l) := by
  unfold onLinkClose
  split
  · exact .head (.dropLink l) (offer_calms _ _).moves
  · exact .refl

theorem hasSocket_fresh (hs : s.Wf)
    (h : (s.upstream n).hasSocket = true ∨ (s.upstream n).proxyDialPending = true ∨
      (s.upstream n).state ≠ .dialing) : s.Mapped n ∨ (s.upstream n).sink = none := by
  by_cases hm : s.Mapped n
  · exact .inl hm
  · refine .inr ((hs.stray hm).resolve_right fun hi => ?_).1
    rcases h with h | h | h
    · rw [hi.1] at h; exact nomatch h
    · rw [hi.2.1] at h; exact nomatch h
    · exact h hi.2.2

/-- Numbering a line and relaying what is owed. -/
theorem pushed_calms (hs : s.Wf) (hst : (s.upstream n).state ≠ .dialing) (line : String) :
    Calms env o c s (((s.pushLine n line).modifyUpstream n
      (·.noteBurstEnd (s.upstream n).buffer.nextSeq)).deliver n
        (fun ok u => Upstream.flush ok (u, []))) := by
  have hpush : Calm env o c s (s.pushLine n line) := .push n line
  have hu := s.pushLine_nextSeq n line
  have hnote : Calm env o c (s.pushLine n line) ((s.pushLine n line).modifyUpstream n
      (·.noteBurstEnd (s.upstream n).buffer.nextSeq)) :=
    .touch (Upstream.keeps_noteBurstEnd _ (by rw [hu]; exact Nat.lt_succ_self _))
      (Upstream.burstDone_noteBurstEnd _ _)
  refine ((ReflTransGen.single hpush).tail hnote).tail (.flush (hasSocket_fresh ?_ ?_) ?_)
  · exact hnote.wf (hpush.wf hs)
  · refine .inr (.inr ?_)
    rw [modifyUpstream, setUpstream_upstream, if_pos rfl]
    have hk := Upstream.keeps_noteBurstEnd ((s.pushLine n line).upstream n)
      (by rw [hu]; exact Nat.lt_succ_self (s.upstream n).buffer.nextSeq)
    rw [hk.state]
    obtain ⟨j, hj⟩ := s.pushLine_upstream n n line
    rw [hj, if_pos rfl]
    exact hst
  · intro ok u
    obtain ⟨fs, hfs, he⟩ := Upstream.flush_emits ok u []
    rw [hfs]
    exact he

theorem onLine_moves (hs : s.Wf) (ho : (s.upstream n).state = .opened) (line : String) :
    Moves env o c s (s.onLine env n line) := by
  unfold onLine
  split
  · exact .refl
  · rename_i msg _
    split
    · exact .single (.calm (.touch (Upstream.keeps_answerPing _ _)
        (Upstream.burstDone_answerPing _ _)))
    · have hk := Upstream.keeps_trackLine env (s.upstream n) line msg
      have hreg : Move env o c s (s.setUpstream n ((s.upstream n).trackLine env line msg).1) :=
        .registered hk (hk.state.trans ho)
      have hwf := hreg.wf hs
      generalize hv : s.setUpstream n ((s.upstream n).trackLine env line msg).1 = v at hreg hwf
      have hst : (v.upstream n).state ≠ .dialing := by
        rw [← hv, setUpstream_upstream, if_pos rfl, hk.state, ho]
        exact nofun
      simp only [hv]
      split
      · have ha := alike_offerOne v n (v.releasedBy n)
        refine .head hreg ((offer_calms [n] (v.releasedBy n)).moves.trans ?_)
        refine (pushed_calms (ha.wf hwf) ?_ line).moves
        rw [(offerOne_frame _ _ _).1]
        exact hst
      · exact .head hreg (pushed_calms hwf hst line).moves

theorem onData_moves (hs : s.Wf) (ho : (s.upstream n).state = .opened) (line : String) :
    Moves env o c s (s.onData env n line) := by
  unfold onData
  split
  · exact .single (.calm (.touch (Upstream.keeps_dropPeer _ _) rfl))
  · split
    · exact .refl
    · exact onLine_moves hs ho line

theorem reapOrphans_calms (hs : s.Wf) : Calms env o c s (s.reapOrphans o) := by
  unfold reapOrphans
  split
  · exact .refl
  · refine foldl_calms (P := fun _ _ => True) (fun {s n} hs _ => ⟨?_, fun _ _ => trivial⟩) _ hs
      (fun _ _ => trivial)
    simp only
    split
    · rename_i h
      have hsink : (s.upstream n).sink = none := by
        simp only [Upstream.attached, Bool.and_eq_true, Bool.not_eq_true', Option.isSome_eq_false_iff,
          Option.isNone_iff_eq_none] at h
        exact h.1.1.1
      have hw := Upstream.keeps_rawWrite (s.upstream n)
        ("QUIT :" ++ "Lurker: no app returned for this connection")
      refine .head (.touch hw (Upstream.burstDone_rawWrite _ _)) (closeUpstream_calms (.inr ?_))
      rw [setUpstream_upstream, if_pos rfl, hw.sink]
      exact hsink
    · exact .refl

/-- The frame a step is the processing of, if it is one. -/
def causeOf (s : Server) : Event → Cause
  | .frame l _ => some (l, (s.link l).read)
  | _ => none

/-- A proxied dial that ends without a socket in use ends its session. -/
theorem tunnelOver_calms (hs : s.Wf) (hp : (s.upstream n).proxyDialPending = true) {u : Upstream}
    (hk : (s.upstream n).Keeps u) (hb : u.burstDone = (s.upstream n).burstDone) :
    Calms env o c s ((s.setUpstream n u).onUpstreamClose n) := by
  refine .head (.touch hk hb) (.single (.ended ?_))
  have hn := hasSocket_fresh hs (.inr (.inl hp))
  rw [Mapped, setUpstream_upstream, if_pos rfl, hk.id, hk.sink]
  exact hn

/-- The events that neither bring a link or a session in nor let go of one. -/
def Event.quiet : Event → Bool
  | .accept _ | .frame .. | .linkClosed _ | .line .. => false
  | _ => true

theorem step_calms (hs : s.Wf) {e : Event} (hq : e.quiet = true) :
    Calms env o (s.causeOf e) s (s.step env o e) := by
  cases e with
  | accept accepts => exact nomatch hq
  | frame l f => exact nomatch hq
  | drain l => exact onDrain_calms hs
  | linkDestroyed l => exact .single (.linkDestroyed l)
  | linkClosed l => exact nomatch hq
  | tcpConnect n l r =>
    simp only [step]
    split
    · exact .single (.touch (Upstream.keeps_onTcpConnect _ _ _)
        (Upstream.burstDone_onTcpConnect _ _ _))
    · exact .refl
  | tunnel n l r =>
    simp only [step]
    split
    · rename_i hp
      simp only [onTunnel]
      split
      · exact tunnelOver_calms hs hp (Upstream.keeps_tunnelOver _) rfl
      · exact .single (.touch (Upstream.keeps_onTunnel _ hp _ _) rfl)
    · exact .refl
  | tunnelFailed n e =>
    simp only [step]
    split
    · rename_i hp
      exact tunnelOver_calms hs hp ((Upstream.keeps_tunnelOver _).trans
        (Upstream.keeps_lastError _ _)) rfl
    · exact .refl
  | opened n l r =>
    simp only [step]
    split
    · rename_i h
      exact .single (.opened (hasSocket_fresh hs (.inl h.1.1)) h.2 (hs.dialing h.2) l r)
    · exact .refl
  | line n line => exact nomatch hq
  | socketError n e =>
    simp only [step]
    split
    · exact .single (.touch (Upstream.keeps_lastError _ _) rfl)
    · exact .refl
  | dialTimeout n =>
    simp only [step]
    split
    · exact .single (.touch (Upstream.keeps_dropPeer _ _) rfl)
    · exact .refl
  | socketClosed n =>
    simp only [step]
    split
    · rename_i h
      exact .single (.ended (hasSocket_fresh hs (.inl h)))
    · exact .refl
  | reap => exact reapOrphans_calms hs
  | tick now => exact .single (.tick now)

theorem step_moves (hs : s.Wf) (e : Event) :
    Moves env o (s.causeOf e) s (s.step env o e) := by
  by_cases hq : e.quiet = true
  · exact (step_calms hs hq).moves
  · cases e with
    | accept accepts => exact .single (.accept accepts)
    | frame l f => exact onFrame_moves hs f
    | linkClosed l => exact onLinkClose_moves
    | line n line =>
      simp only [step]
      split
      · rename_i h
        exact onData_moves hs h.2 line
      · exact .refl
    | _ => exact absurd rfl hq

theorem step_wf (hs : s.Wf) (e : Event) : (s.step env o e).Wf := (step_moves hs e).wf hs

/-- The agreement holds after every run. -/
theorem run_wf (env : Platform) (o : ServerOptions) (es : List Event) :
    (Run.after (step env o) (init o) es).Wf :=
  Run.invariant (step env o) (wf_init o) (fun _ e hs => step_wf hs e) es

end

end Lurker.Engine.Server
