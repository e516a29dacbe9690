import Lurker.Engine.Slim
import Lurker.Engine.Steps
import Lurker.Lib.Run

/-!
# Every frame a run writes is one its reader takes

Only the replay is measured before it is sent. Whatever else a frame carries came in with an
event (an id with a frame of the app's, a line, an address or an error with a socket's) or
is a list of what is held, so each step that brings something in has to leave room for it,
and each that lists has to have a list that fits.
-/

namespace Lurker.Engine.Server

variable (env : Platform) (o : ServerOptions)

/-- A `connect` is refused with a text that fits, or is for an id that there is room for. -/
def ConnectFits (s : Server) (l : LinkId) (frame : ConnectFrame) : Prop :=
  match validateConnect env frame with
  | .error message => 25 + frame.failId.elim 0 (6 + width ·) + width message ≤ MAX_FRAME_BYTES
  | .ok dial =>
    RoomFor dial.id ∧
      ∀ e ∈ env.dialThrows ⟨dial, (s.link l).instanceId⟩, ErrorFits dial.id e

/-- The sessions a link is told of when it comes in. -/
def HelloFits (s : Server) (l : LinkId) (f : HelloFrame) : Prop :=
  helloProblem env o f = none →
    67 + shown PROTOCOL_MAJOR + shown PROTOCOL_MINOR + width o.version +
      listed (((s.authenticate l f).heldFor l).map width) ≤ MAX_FRAME_BYTES

def ListingFits (s : Server) : Prop :=
  33 + listed ((s.listing.map (·.json)).map utf16Length) ≤ MAX_FRAME_BYTES

/-- A frame of the app's that is dispatched. -/
def DispatchFits (s : Server) (l : LinkId) (frame : AppToEngine) : Prop :=
  if (s.link l).authed then
    match frame with
    | .connect f => ConnectFits env s l f
    | .list => s.ListingFits
    | .write id _ | .ack id _ | .detach id | .close id => RoomFor id
    | .unknown op => 25 + width ("unknown op " ++ op) ≤ MAX_FRAME_BYTES
    | .hello _ | .ping | .pong => True
  else
    match frame with
    | .hello f => HelloFits env o s l f
    | _ => True

/-- A line that goes into the backlog. -/
def stores (line : String) : Bool :=
  utf16Length line ≤ MAX_IRC_LINE && line ≠ "" &&
    (env.ircLineParser line).any fun msg => env.toUpperCase msg.command ≠ "PING"

/-- A line that is stored leaves room for the frame that delivers it. -/
def ArrivalFits (s : Server) (n : SocketId) (line : String) : Prop :=
  stores env line = true →
    (s.upstream n).buffer.nextSeq < numberLimit ∧
      LineFits (s.upstream n).id (s.upstream n).buffer.nextSeq line

/-- What a step brings in, or lists, leaves room for the frames that carry it. -/
def EventFits (s : Server) : Event → Prop
  | .frame l f =>
    l ∈ s.links ∧ (s.link l).destroyed = false → DispatchFits env o (s.modifyLink l (·.readOne)) l f
  | .tcpConnect n l r | .tunnel n l r | .opened n l r => EndsFit env (s.upstream n) l r
  | .line n line => ArrivalFits env s n line
  | .socketError n e | .tunnelFailed n e => ErrorFits (s.upstream n).id e
  | .tick now => now.natAbs < numberLimit
  | .accept _ | .drain _ | .linkDestroyed _ | .linkClosed _ | .dialTimeout _ | .socketClosed _
  | .reap => True

instance (s : Server) (l : LinkId) (frame : ConnectFrame) : Decidable (ConnectFits env s l frame) :=
  match h : validateConnect env frame with
  | .error message =>
    decidable_of_iff (25 + frame.failId.elim 0 (6 + width ·) + width message ≤ MAX_FRAME_BYTES)
      (by rw [ConnectFits, h])
  | .ok dial =>
    decidable_of_iff (RoomFor dial.id ∧
        ∀ e ∈ env.dialThrows ⟨dial, (s.link l).instanceId⟩, ErrorFits dial.id e)
      (by rw [ConnectFits, h])

instance (s : Server) (l : LinkId) (f : HelloFrame) : Decidable (HelloFits env o s l f) :=
  inferInstanceAs (Decidable (_ → _))

instance (s : Server) : Decidable s.ListingFits := inferInstanceAs (Decidable (_ ≤ _))

instance (s : Server) (n : SocketId) (line : String) : Decidable (ArrivalFits env s n line) :=
  inferInstanceAs (Decidable (_ → _))

instance (s : Server) (l : LinkId) (frame : AppToEngine) : Decidable (DispatchFits env o s l frame) :=
  if h : (s.link l).authed = true then
    match frame with
    | .connect f => decidable_of_iff (ConnectFits env s l f) (by rw [DispatchFits, if_pos h])
    | .list => decidable_of_iff s.ListingFits (by rw [DispatchFits, if_pos h])
    | .write id _ => decidable_of_iff (RoomFor id) (by rw [DispatchFits, if_pos h])
    | .ack id _ => decidable_of_iff (RoomFor id) (by rw [DispatchFits, if_pos h])
    | .detach id => decidable_of_iff (RoomFor id) (by rw [DispatchFits, if_pos h])
    | .close id => decidable_of_iff (RoomFor id) (by rw [DispatchFits, if_pos h])
    | .unknown op =>
      decidable_of_iff (25 + width ("unknown op " ++ op) ≤ MAX_FRAME_BYTES)
        (by rw [DispatchFits, if_pos h])
    | .hello _ | .ping | .pong => .isTrue (by rw [DispatchFits, if_pos h]; trivial)
  else
    match frame with
    | .hello f => decidable_of_iff (HelloFits env o s l f) (by rw [DispatchFits, if_neg h])
    | .connect _ | .list | .write _ _ | .ack _ _ | .detach _ | .close _ | .unknown _ | .ping | .pong =>
      .isTrue (by rw [DispatchFits, if_neg h]; trivial)

instance (s : Server) : ∀ e, Decidable (EventFits env o s e)
  | .frame _ _ => inferInstanceAs (Decidable (_ → _))
  | .tcpConnect n l r | .tunnel n l r | .opened n l r =>
    inferInstanceAs (Decidable (EndsFit env (s.upstream n) l r))
  | .line n line => inferInstanceAs (Decidable (ArrivalFits env s n line))
  | .socketError n e | .tunnelFailed n e =>
    inferInstanceAs (Decidable (ErrorFits (s.upstream n).id e))
  | .tick now => inferInstanceAs (Decidable (now.natAbs < numberLimit))
  | .accept _ | .drain _ | .linkDestroyed _ | .linkClosed _ | .dialTimeout _ | .socketClosed _
  | .reap => .isTrue trivial

/-- A link that is or may still be authed has been sent only frames that fit. -/
def LinkFits (k : AppLink) : Prop :=
  k.authed = true ∨ k.destroyed = false → ∀ x ∈ k.sent, Fits env x.frame

structure Slim (s : Server) : Prop where
  upstream : ∀ n, SlimUpstream env (s.upstream n)
  link : ∀ l, LinkFits env (s.link l)
  now : s.now.natAbs < numberLimit

variable {env o}

theorem linkFits_write {k : AppLink} (h : LinkFits env k) {fs : List Sent}
    (hfs : ∀ x ∈ fs, Fits env x.frame) : LinkFits env (k.write fs) := by
  unfold AppLink.write
  split
  · exact h
  · intro hlive x hx
    rcases List.mem_append.mp hx with hx | hx
    exacts [h hlive x hx, hfs x hx]

theorem linkFits_claim {k : AppLink} (h : LinkFits env k) (n : SocketId) :
    LinkFits env (k.claim n) := by
  unfold AppLink.claim
  split <;> exact h

section Slim

variable {s : Server} {l : LinkId} {n : SocketId} {k : Nat}

theorem slim_modifyLink (hs : Slim env s) {f : AppLink → AppLink}
    (hf : LinkFits env (s.link l) → LinkFits env (f (s.link l))) : Slim env (s.modifyLink l f) where
  upstream := hs.upstream
  link := fun l' => by
    rw [modifyLink_link]
    split
    exacts [hf (hs.link l), hs.link l']
  now := hs.now

theorem slim_setUpstream (hs : Slim env s) {u : Upstream} (hu : SlimUpstream env u) :
    Slim env (s.setUpstream n u) where
  upstream := fun n' => by
    rw [setUpstream_upstream]
    split
    exacts [hu, hs.upstream n']
  link := hs.link
  now := hs.now

theorem slim_carries (hs : Slim env s) {f : Upstream → Upstream}
    (hf : Upstream.Carries (s.upstream n) (f (s.upstream n))) : Slim env (s.modifyUpstream n f) :=
  slim_setUpstream hs (Upstream.Carries.slim (hs.upstream n) hf)

theorem slim_send (hs : Slim env s) {origin : Origin} {f : EngineToApp} (hf : Fits env f) :
    Slim env (s.send l origin f) :=
  slim_modifyLink hs fun h => linkFits_write h fun x hx => by
    rw [List.mem_singleton.mp hx]
    exact hf

theorem slim_deliver (hs : Slim env s) {op : (Nat → Bool) → Upstream → Upstream.Delivery}
    (hop : ∀ ok, SlimUpstream env (op ok (s.upstream n)).1 ∧
      ∀ f ∈ (op ok (s.upstream n)).2, Fits env f) : Slim env (s.deliver n op) := by
  obtain ⟨hu, hfs⟩ := hop (s.sinkTakes n)
  unfold deliver
  split
  · exact slim_setUpstream hs hu
  · refine slim_modifyLink (slim_setUpstream hs hu) fun h => linkFits_write h fun x hx => ?_
    obtain ⟨f, hf, rfl⟩ := List.mem_map.mp hx
    exact hfs f hf

theorem slim_flush (hs : Slim env s) {op : (Nat → Bool) → Upstream → Upstream.Delivery}
    (hop : ∀ ok u, Upstream.Emits u (op ok u).2 (op ok u).1) : Slim env (s.deliver n op) :=
  slim_deliver hs fun ok => (hop ok _).slim (hs.upstream n)

/-- A state that differs in nothing that is carried into frames. -/
theorem Slim.of_eq {t : Server} (hs : Slim env s) (hu : t.upstream = s.upstream)
    (hl : t.link = s.link) (hnow : t.now = s.now) : Slim env t :=
  ⟨hu ▸ hs.upstream, hl ▸ hs.link, hnow ▸ hs.now⟩

theorem slim_unclaim (hs : Slim env s) : Slim env (s.unclaim l n) := slim_modifyLink hs fun h => h

theorem slim_claim (hs : Slim env s) : Slim env (s.claim l n) :=
  slim_modifyLink hs fun h => linkFits_claim h n

theorem slim_unclaimAll (hs : Slim env s) : Slim env (s.unclaimAll n) where
  upstream := hs.upstream
  link := fun l => by
    simp only [unclaimAll]
    split <;> exact hs.link l
  now := hs.now

theorem offerOne_now (except : Option LinkId) : (s.offerOne n except).now = s.now := by
  unfold offerOne
  split <;> rfl

theorem slim_offerOne (hs : Slim env s) (except : Option LinkId) :
    Slim env (s.offerOne n except) where
  upstream := by
    rw [(offerOne_frame _ _ except).1]
    exact hs.upstream
  link := fun l => by
    rcases s.offerOne_link l n except with h | ⟨-, -, -, h⟩
    · rw [h]
      exact hs.link l
    · rw [h]
      refine linkFits_write (hs.link l) fun x hx => ?_
      rw [List.mem_singleton.mp hx]
      exact (hs.upstream n).id.held
  now := by
    rw [offerOne_now]
    exact hs.now

theorem slim_foldl {f : Server → SocketId → Server} (hf : ∀ t n, Slim env t → Slim env (f t n))
    (ns : List SocketId) : ∀ {s}, Slim env s → Slim env (ns.foldl f s) := by
  induction ns with
  | nil => exact fun hs => hs
  | cons n ns ih => exact fun hs => ih (hf _ n hs)

theorem slim_offer (hs : Slim env s) (released : List SocketId) (except : Option LinkId) :
    Slim env (s.offer released except) :=
  slim_foldl (fun _ _ ht => slim_offerOne ht except) released hs

theorem slim_contest (hs : Slim env s) : Slim env (s.contest l n).1 := by
  unfold contest
  split
  · exact hs
  · split
    · exact hs
    · exact slim_send (slim_unclaim hs) (hs.upstream n).id.detached

theorem slim_onUpstreamClose (hs : Slim env s) : Slim env (s.onUpstreamClose n) := by
  unfold onUpstreamClose
  split
  · exact hs
  · have hclosed : Slim env (s.deliver n fun _ u => u.onClose) :=
      slim_deliver hs fun _ => Upstream.slim_onClose (hs.upstream n)
    simp only
    split
    · exact slim_unclaimAll (hclosed.of_eq rfl rfl rfl)
    · exact slim_unclaimAll (hclosed.of_eq rfl rfl rfl)

theorem slim_silence (hs : Slim env s) : Slim env (s.silence n) :=
  slim_carries hs (Upstream.carries_silence _)

theorem slim_closeUpstream (hs : Slim env s) : Slim env (s.closeUpstream n) := by
  have hclosing : Slim env (s.setUpstream n (s.upstream n).close.1) :=
    slim_setUpstream hs (Upstream.Carries.slim (hs.upstream n) Upstream.carries_close)
  simp only [closeUpstream]
  split
  · exact slim_onUpstreamClose hclosing
  · exact hclosing

theorem slim_retire (hs : Slim env s) : Slim env (s.retire n) := slim_silence (slim_unclaimAll hs)

theorem slim_newUpstream {dial : DialRequest} (hid : RoomFor dial.id) :
    SlimUpstream env (s.newUpstream env o l k dial) := by
  refine Upstream.slim_attach ?_ _ _ _
  exact ⟨hid, .inl ⟨rfl, rfl⟩, fun _ h => (by cases h), slimBuffer_new _⟩

theorem slim_startDial (hs : Slim env s) {dial : DialRequest} (hid : RoomFor dial.id) :
    Slim env (s.startDial env o l k dial) := by
  have hdialing : Slim env { s with
      nextSocket := s.nextSocket + 1
      upstream := Function.update s.upstream s.nextSocket (s.newUpstream env o l k dial)
      budget := s.budget.register s.nextSocket
      upstreams := s.upstreams.set dial.id s.nextSocket } := by
    refine ⟨fun n => ?_, hs.link, hs.now⟩
    simp only [Function.update_apply]
    split
    exacts [slim_newUpstream hid, hs.upstream n]
  exact slim_send (slim_claim hdialing) hid.dialing

theorem newUpstream_opts (dial : DialRequest) :
    (s.newUpstream env o l k dial).opts = ⟨dial, (s.link l).instanceId⟩ :=
  (Upstream.sameSocket_attach _ _ _ _).1.opts

theorem newUpstream_dialed {dial : DialRequest} :
    (s.newUpstream env o l k dial).dialed = false := by
  unfold newUpstream Upstream.attach
  split
  · split <;> rfl
  · rfl

theorem slim_dialAfresh (hs : Slim env s) {dial : DialRequest} (hid : RoomFor dial.id)
    (hthrows : ∀ e ∈ env.dialThrows ⟨dial, (s.link l).instanceId⟩, ErrorFits dial.id e) :
    Slim env (s.dialAfresh env o l k dial) := by
  have hstart : Slim env (s.startDial env o l k dial) := slim_startDial hs hid
  simp only [dialAfresh]
  split
  · rename_i u hu
    exact slim_setUpstream hstart
      (Upstream.Carries.slim (slim_newUpstream hid) (Upstream.carries_dial hu))
  · rename_i e he
    have hdropped : Slim env { s.startDial env o l k dial with
        upstreams := (s.startDial env o l k dial).upstreams.delete dial.id } :=
      hstart.of_eq rfl rfl rfl
    refine slim_send (slim_unclaim hdropped) (ErrorFits.closed (hthrows e ?_))
    rw [← newUpstream_opts (o := o) (k := k)]
    exact Upstream.dial_error he newUpstream_dialed

theorem slim_handOver (hs : Slim env s) (payload : AttachedPayload) :
    Slim env (s.handOver env l k n payload) := by
  simp only [handOver]
  split
  · refine slim_send (slim_closeUpstream (slim_silence (slim_unclaim hs))) ?_
    exact ((hs.upstream n).id.errorFits (by decide)).closed
  · rename_i hsize
    refine slim_flush (slim_send hs ?_) Upstream.flushAfterAttach_emits
    rw [utf16Length_encodeFrame] at hsize
    unfold Fits
    omega

theorem slim_attachTo (hs : Slim env s) : Slim env (s.attachTo l k n).1 :=
  slim_setUpstream (slim_claim hs) (Upstream.slim_attach (hs.upstream n) _ _ _)

theorem slim_attachHeld (hs : Slim env s) {dial : DialRequest} (hid : RoomFor dial.id)
    (hthrows : ∀ e ∈ env.dialThrows ⟨dial, (s.link l).instanceId⟩, ErrorFits dial.id e) :
    Slim env (s.attachHeld env o l k n dial) := by
  have hcontest : Slim env (s.contest l n).1 := slim_contest hs
  unfold attachHeld
  split
  · rename_i t other heq
    rw [heq] at hcontest
    exact slim_send hcontest hid.detached
  · rename_i t heq
    rw [heq] at hcontest
    have hattach : Slim env (t.attachTo l k n).1 := slim_attachTo hcontest
    split
    · rename_i v hv
      rw [hv] at hattach
      exact slim_send hattach hid.dialing
    · rename_i v hv
      rw [hv] at hattach
      refine slim_dialAfresh (slim_closeUpstream (slim_silence (slim_unclaim hattach))) hid ?_
      have hinstance : ((((v.unclaim l n).silence n).closeUpstream n).link l).instanceId =
          (s.link l).instanceId := by
        rw [(closeUpstream_links.2 l).2]
        have hv' : v = (t.attachTo l k n).1 := by rw [hv]
        rw [hv']
        exact (unclaim_link.2.1.trans claim_link.2.1).trans ((contest_upstream heq).2.2.2.2.2.2 l).2.1
      rwa [hinstance]
    · rename_i v p hv
      rw [hv] at hattach
      exact slim_handOver hattach p

theorem slim_fail (hs : Slim env s) {id : Option String} {message : String}
    (h : 25 + (id.filter (· ≠ "")).elim 0 (6 + width ·) + width message ≤ MAX_FRAME_BYTES) :
    Slim env (s.fail l k message id) := by
  refine slim_send hs ?_
  rw [Fits, size_error]
  exact h

/-- A short refusal, to the id it is about. -/
theorem slim_refuse (hs : Slim env s) {id : String} (hid : RoomFor id) {message : String}
    (hm : width message ≤ 89) : Slim env (s.fail l k message (some id)) :=
  slim_send hs (hid.refused hm)

theorem slim_connect (hs : Slim env s) {frame : ConnectFrame} (h : ConnectFits env s l frame) :
    Slim env (s.connect env o l k frame) := by
  unfold ConnectFits at h
  unfold connect
  split
  · rename_i message hm
    rw [hm] at h
    exact slim_fail hs h
  · rename_i dial hd
    rw [hd] at h
    obtain ⟨hid, hthrows⟩ := h
    split
    · exact slim_dialAfresh hs hid hthrows
    · rename_i n _
      split
      · exact slim_refuse hs hid (by decide)
      · split
        · refine slim_dialAfresh (slim_retire hs) hid ?_
          rwa [show ((s.retire n).link l).instanceId = _ from unclaimAll_link.2.1]
        · split
          · refine slim_dialAfresh (slim_closeUpstream (slim_retire hs)) hid ?_
            rwa [(closeUpstream_links.2 l).2,
              show ((s.retire n).link l).instanceId = _ from unclaimAll_link.2.1]
          · exact slim_attachHeld hs hid hthrows

theorem slim_destroyLink (hs : Slim env s) : Slim env (s.destroyLink l) :=
  slim_modifyLink hs fun h hlive => h (hlive.imp_right fun hd => by cases hd)

theorem slim_letGo (hs : Slim env s) : Slim env (s.letGo l n) := by
  have hdetached : Slim env ((s.unclaim l n).modifyUpstream n (·.detach s.now)) :=
    slim_carries (slim_unclaim hs) (Upstream.carries_detach _)
  exact hdetached.of_eq rfl rfl rfl

theorem slim_release (hs : Slim env s) : Slim env (s.release l n) := by
  unfold release
  split
  exacts [slim_offer (slim_letGo hs) _ _, hs]

theorem slim_drive (hs : Slim env s) (op : SocketOp) : Slim env (s.drive l n op) := by
  cases op with
  | write line => exact slim_carries hs (Upstream.carries_rawWrite line)
  | ack seq => exact slim_setUpstream hs (Upstream.slim_ack (hs.upstream n) seq)
  | detach => exact slim_release hs
  | close => exact slim_closeUpstream hs

theorem slim_socketOp (hs : Slim env s) {id : String} (hid : RoomFor id) (op : SocketOp) :
    Slim env (s.socketOp l k id op) := by
  unfold socketOp
  split
  · exact slim_refuse hs hid (by decide)
  · rename_i n _
    split
    · exact slim_refuse hs hid (by decide)
    · split
      · exact slim_drive hs op
      · split
        · exact slim_drive hs _
        · have hcontest : Slim env (s.contest l n).1 := slim_contest hs
          split
          · rename_i t other heq
            rw [heq] at hcontest
            exact slim_refuse hcontest hid (by decide)
          · rename_i t heq
            rw [heq] at hcontest
            exact slim_drive (slim_silence hcontest) .close
        · exact slim_refuse hs hid (by decide)

/-- A link that is turned away is no longer read from, and was never let in. -/
theorem slim_turnAway (hs : Slim env s) (ha : (s.link l).authed = false) (message : String) :
    Slim env ((s.fail l k message none).destroyLink l) := by
  refine ⟨hs.upstream, fun l' => ?_, hs.now⟩
  simp only [destroyLink, fail, send, modifyLink_link]
  by_cases hl : l' = l
  · subst hl
    rw [if_pos rfl]
    intro hlive
    rcases hlive with h | h
    · have hnot : ((s.link l').write _).authed = true := h
      rw [write_authed, ha] at hnot
      cases hnot
    · cases h
  · rw [if_neg hl, if_neg hl]
    exact hs.link l'

theorem slim_authenticate (hs : Slim env s) (hd : (s.link l).destroyed = false) (f : HelloFrame) :
    Slim env (s.authenticate l f) :=
  slim_modifyLink hs fun h _ => h (.inr hd)

theorem slim_hello (hs : Slim env s) (ha : (s.link l).authed = false)
    (hd : (s.link l).destroyed = false) {f : HelloFrame} (h : HelloFits env o s l f) :
    Slim env (s.hello env o l k f) := by
  unfold hello
  split
  · exact slim_turnAway hs ha _
  · rename_i hok
    refine slim_send (slim_authenticate hs hd f) ?_
    rw [Fits, size_hello]
    exact h hok

theorem slim_dispatch (hs : Slim env s) (hd : (s.link l).destroyed = false) {frame : AppToEngine}
    (h : DispatchFits env o s l frame) : Slim env (s.dispatch env o l k frame) := by
  unfold DispatchFits at h
  unfold dispatch
  split
  · rename_i ha
    rw [if_pos ha] at h
    cases frame with
    | hello f => exact hs
    | ping => exact slim_send hs pong_fits
    | pong => exact hs
    | connect f => exact slim_connect hs h
    | list =>
      refine slim_send hs ?_
      rw [Fits, size_listing]
      exact h
    | write id line => exact slim_socketOp hs h _
    | ack id seq => exact slim_socketOp hs h _
    | detach id => exact slim_socketOp hs h _
    | close id => exact slim_socketOp hs h _
    | unknown op => exact slim_fail hs h
  · rename_i ha
    rw [if_neg ha] at h
    have ha : (s.link l).authed = false := Bool.eq_false_iff.mpr ha
    cases frame with
    | hello f => exact slim_hello hs ha hd h
    | _ => exact slim_turnAway hs ha _

theorem slim_onFrame (hs : Slim env s) {frame : AppToEngine}
    (h : l ∈ s.links ∧ (s.link l).destroyed = false →
      DispatchFits env o (s.modifyLink l (·.readOne)) l frame) :
    Slim env (s.onFrame env o l frame) := by
  unfold onFrame
  split
  · rename_i hl
    refine slim_dispatch (slim_modifyLink hs fun h => h) ?_ (h hl)
    rw [modifyLink_link, if_pos rfl]
    exact hl.2
  · exact hs

theorem slim_accept (hs : Slim env s) (accepts : Nat → Bool) : Slim env (s.accept accepts) where
  upstream := hs.upstream
  link := fun l => by
    rw [accept_link]
    split
    · exact fun _ x hx => by cases hx
    · exact hs.link l
  now := hs.now

theorem slim_onDrain (hs : Slim env s) : Slim env (s.onDrain l) := by
  unfold onDrain
  split
  · exact slim_foldl (fun _ _ ht => slim_flush ht Upstream.resume_emits) _ hs
  · exact hs

theorem slim_dropLink (hs : Slim env s) : Slim env (s.dropLink l) := by
  have hgone : Slim env { s with links := s.links.filter (· ≠ l) } := hs.of_eq rfl rfl rfl
  have hdetached := slim_foldl (f := fun s n => s.modifyUpstream n (·.detach s.now))
    (fun _ _ ht => slim_carries ht (Upstream.carries_detach _)) (s.link l).claimed hgone
  refine slim_modifyLink (f := fun a => { a with claimed := [], destroyed := true }) hdetached ?_
  exact fun h hlive => h (hlive.imp_right fun hd => by cases hd)

theorem slim_onLinkClose (hs : Slim env s) : Slim env (s.onLinkClose l) := by
  unfold onLinkClose
  split
  exacts [slim_offer (slim_dropLink hs) _ _, hs]

theorem slim_reclaim (hs : Slim env s) : Slim env s.reclaim where
  upstream := fun n => by
    obtain ⟨k, hk, -⟩ := s.budget.reclaim_drops s.now (fun n => (s.upstream n).buffer) n
    refine Upstream.slim_buffer (hs.upstream n) ?_
    rw [hk]
    exact (hs.upstream n).buffer.drops hs.now k
  link := hs.link
  now := hs.now

theorem slim_pushLine (hs : Slim env s) {line : String}
    (hseq : (s.upstream n).buffer.nextSeq < numberLimit)
    (hline : LineFits (s.upstream n).id (s.upstream n).buffer.nextSeq line) :
    Slim env (s.pushLine n line) := by
  refine slim_reclaim (slim_setUpstream hs (Upstream.slim_buffer (hs.upstream n) ?_))
  exact ((hs.upstream n).buffer.append hseq hline).trim hs.now

/-- A burst's end is noted and what is owed is relayed. -/
theorem slim_relay (hs : Slim env s) (seq : Nat) :
    Slim env ((s.modifyUpstream n (·.noteBurstEnd seq)).deliver n
      (fun ok u => Upstream.flush ok (u, []))) := by
  refine slim_flush (slim_carries hs (Upstream.carries_noteBurstEnd seq)) fun ok u => ?_
  obtain ⟨fs, hfs, he⟩ := Upstream.flush_emits ok u []
  rw [hfs]
  exact he

theorem slim_onLine (hs : Slim env s) {line : String}
    (h : ∀ msg, env.ircLineParser line = some msg → env.toUpperCase msg.command ≠ "PING" →
      (s.upstream n).buffer.nextSeq < numberLimit ∧
        LineFits (s.upstream n).id (s.upstream n).buffer.nextSeq line) :
    Slim env (s.onLine env n line) := by
  unfold onLine
  split
  · exact hs
  · rename_i msg hmsg
    split
    · exact slim_carries hs (Upstream.carries_answerPing _)
    · rename_i hping
      obtain ⟨hseq, hline⟩ := h msg hmsg hping
      have hcarries := @Upstream.carries_trackLine env (s.upstream n) line msg
      have htracked : Slim env (s.setUpstream n ((s.upstream n).trackLine env line msg).1) :=
        slim_setUpstream hs (Upstream.Carries.slim (hs.upstream n) hcarries)
      have hup : (s.setUpstream n ((s.upstream n).trackLine env line msg).1).upstream n =
          ((s.upstream n).trackLine env line msg).1 := by
        rw [setUpstream_upstream, if_pos rfl]
      rw [← hcarries.buffer, ← hup] at hseq
      rw [← hcarries.id, ← hcarries.buffer, ← hup] at hline
      simp only
      generalize s.setUpstream n ((s.upstream n).trackLine env line msg).1 = t at *
      split
      · have hoffered := slim_offerOne (n := n) htracked (t.releasedBy n)
        rw [← (offerOne_frame t n (t.releasedBy n)).1] at hseq hline
        exact slim_relay (slim_pushLine hoffered hseq hline) _
      · exact slim_relay (slim_pushLine htracked hseq hline) _

theorem slim_dropPeer (hs : Slim env s) {why : String} (hwhy : width why ≤ 90) :
    Slim env (s.modifyUpstream n (·.dropPeer why)) :=
  slim_setUpstream hs (Upstream.slim_dropPeer (hs.upstream n) hwhy)

theorem slim_onData (hs : Slim env s) {line : String} (h : ArrivalFits env s n line) :
    Slim env (s.onData env n line) := by
  unfold onData
  split
  · exact slim_dropPeer hs (by decide)
  · rename_i hlen
    split
    · exact hs
    · rename_i hne
      refine slim_onLine hs fun msg hmsg hping => h ?_
      simp [stores, hmsg, hping, hne, not_lt.mp hlen]

theorem slim_onTunnel (hs : Slim env s) {l r : Endpoint} (h : EndsFit env (s.upstream n) l r) :
    Slim env (s.onTunnel n l r) := by
  unfold onTunnel
  split
  · exact slim_onUpstreamClose (slim_carries hs ⟨rfl, rfl, rfl, rfl, rfl, rfl⟩)
  · exact slim_setUpstream hs (Upstream.slim_onTunnel (hs.upstream n) h)

theorem slim_onTunnelFailed (hs : Slim env s) {e : String} (h : ErrorFits (s.upstream n).id e) :
    Slim env (s.onTunnelFailed n e) := by
  refine slim_onUpstreamClose (slim_setUpstream hs ?_)
  exact Upstream.Carries.slim (Upstream.slim_lastError (hs.upstream n) h)
    ⟨rfl, rfl, rfl, rfl, rfl, rfl⟩

theorem slim_reapOrphans (hs : Slim env s) : Slim env (s.reapOrphans o) := by
  unfold reapOrphans
  split
  · exact hs
  · refine slim_foldl (fun t n ht => ?_) _ hs
    simp only
    split
    · exact slim_closeUpstream (slim_carries ht (Upstream.carries_rawWrite _))
    · exact ht

theorem slim_step (hs : Slim env s) {e : Event} (h : EventFits env o s e) :
    Slim env (s.step env o e) := by
  cases e with
  | accept accepts => exact slim_accept hs accepts
  | frame l f => exact slim_onFrame hs h
  | drain l => exact slim_onDrain hs
  | linkDestroyed l => exact slim_destroyLink hs
  | linkClosed l => exact slim_onLinkClose hs
  | tcpConnect n l r =>
    simp only [step]
    split
    exacts [slim_setUpstream hs (Upstream.slim_onTcpConnect (hs.upstream n) h), hs]
  | tunnel n l r =>
    simp only [step]
    split
    exacts [slim_onTunnel hs h, hs]
  | tunnelFailed n e =>
    simp only [step]
    split
    exacts [slim_onTunnelFailed hs h, hs]
  | opened n l r =>
    simp only [step]
    split
    exacts [slim_deliver hs fun _ => Upstream.slim_onOpen (hs.upstream n) h, hs]
  | line n line =>
    simp only [step]
    split
    exacts [slim_onData hs h, hs]
  | socketError n e =>
    simp only [step]
    split
    exacts [slim_setUpstream hs (Upstream.slim_lastError (hs.upstream n) h), hs]
  | dialTimeout n =>
    simp only [step]
    split
    exacts [slim_dropPeer hs (by decide), hs]
  | socketClosed n =>
    simp only [step]
    split
    exacts [slim_onUpstreamClose hs, hs]
  | reap => exact slim_reapOrphans hs
  | tick now => exact ⟨hs.upstream, hs.link, h⟩

theorem slim_init (env : Platform) (o : ServerOptions) : Slim env (init o) where
  upstream := fun n => by
    refine ⟨?_, .inl ⟨rfl, rfl⟩, fun _ h => (by cases h), slimBuffer_new 0⟩
    show 120 + width "" ≤ MAX_FRAME_BYTES
    decide
  link := fun l _ x hx => by cases hx
  now := by
    show (0 : Int).natAbs < numberLimit
    decide

end Slim

/-- In a run that makes room for what it brings in and lists, every frame written to an
authed link is one its reader takes. -/
theorem run_frames_fit (env : Platform) (o : ServerOptions) (es : List Event)
    (h : Run.Within (step env o) (EventFits env o) (init o) es) :
    ∀ l, ((Run.after (step env o) (init o) es).link l).authed = true →
      ∀ x ∈ ((Run.after (step env o) (init o) es).link l).sent, ∃ text,
        encodeFrame env.showSocket x.frame = text ++ "\n" ∧ utf16Length text ≤ MAX_FRAME_BYTES := by
  have hslim : Slim env (Run.after (step env o) (init o) es) :=
    Run.invariant_within (step env o) (slim_init env o) (fun _ _ hs he => slim_step hs he) es h
  intro l ha x hx
  exact ⟨_, rfl, hslim.link l (.inl ha) x hx⟩

/-- A link that dials a socket and is sent its first lines. -/
theorem run_frames_fit_registered :
    ∃ text, encodeFrame Platform.plain.showSocket (.line "i:1" 1 ":srv 001 me :hi") = text ++ "\n" ∧
      utf16Length text ≤ MAX_FRAME_BYTES :=
  run_frames_fit .plain smallOptions (arriving 0 1 ++ registering 0 0) (by decide +kernel) 0
    (by decide +kernel) ⟨.line "i:1" 1 ":srv 001 me :hi", .socket 0 1, true⟩ (by decide +kernel)

/-- An id of so many letters. -/
def letters (n : Nat) : String := String.ofList (List.replicate n 'a')

theorem width_letters (n : Nat) : width (letters n) = n + 2 := by
  have hquote : utf16Length "\"" = 1 := by decide
  have hone : (if 'a'.val.toNat < 0x10000 then 1 else 2) = 1 := by decide
  have hflat : (List.replicate n 'a').flatMap escapeChar = List.replicate n 'a' := by
    induction n with
    | zero => rfl
    | succ n ih =>
      rw [List.replicate_succ, List.flatMap_cons, ih]
      rfl
  rw [width, jsonString, utf16Length_append, utf16Length_append, hquote, letters,
    String.toList_ofList, hflat, utf16Length_ofList, List.map_replicate, hone,
    List.sum_replicate_nat]
  omega

/-- An id that nothing is held under is quoted back in the refusal. -/
theorem unknown_id_refused {id : String} (hid : id ≠ "") :
    let s := Run.after (step .plain smallOptions) (init smallOptions)
      (arriving 0 1 ++ [.frame 0 (.write id "")])
    (s.link 0).authed = true ∧
      ⟨.error (some id) "unknown connection", .reply 1, false⟩ ∈ (s.link 0).sent := by
  rw [Run.after_concat]
  generalize hs : Run.after (step .plain smallOptions) (init smallOptions) (arriving 0 1) = s
  have hlive : 0 ∈ s.links ∧ (s.link 0).destroyed = false := by
    rw [← hs]
    decide +kernel
  have ha : (s.link 0).authed = true := by
    rw [← hs]
    decide +kernel
  have hread : (s.link 0).read = 1 := by
    rw [← hs]
    decide +kernel
  have hnone : s.upstreams.get? id = none := by
    rw [← hs]
    rfl
  have hkey : (some id).filter (· ≠ "") = some id := by
    rw [Option.filter_some, if_pos (decide_eq_true hid)]
  simp only [step, onFrame, if_pos hlive, dispatch, modifyLink_link, AppLink.readOne, ha, if_true,
    socketOp, modifyLink_upstreams, hnone, fail, send, hread, hkey]
  refine ⟨?_, ?_⟩
  · rw [write_authed]
  · rw [AppLink.write, if_neg (by rw [hlive.2]; exact Bool.false_ne_true)]
    exact List.mem_append_right _ (List.mem_singleton_self _)

/-- A refusal is too long when the id leaves no room for the rest of it. -/
theorem refusal_of_width {id : String} (hid : id ≠ "") (hlong : MAX_FRAME_BYTES < 51 + width id) :
    ∃ es l x, ((Run.after (step .plain smallOptions) (init smallOptions) es).link l).authed = true ∧
      x ∈ ((Run.after (step .plain smallOptions) (init smallOptions) es).link l).sent ∧
      MAX_FRAME_BYTES + 1 < utf16Length (encodeFrame Platform.plain.showSocket x.frame) := by
  obtain ⟨ha, hx⟩ := unknown_id_refused hid
  refine ⟨_, 0, _, ha, hx, ?_⟩
  have hmessage : width "unknown connection" = 20 := by decide +kernel
  rw [utf16Length_encodeFrame, size_error, Option.elim_some, hmessage]
  omega

/-- A `write` of an id of 262098 letters is a frame of 262130 characters, which the engine's
reader takes; the refusal is one of 262151, which the app's does not. -/
theorem refusal_too_long :
    ∃ es l x, ((Run.after (step .plain smallOptions) (init smallOptions) es).link l).authed = true ∧
      x ∈ ((Run.after (step .plain smallOptions) (init smallOptions) es).link l).sent ∧
      MAX_FRAME_BYTES + 1 < utf16Length (encodeFrame Platform.plain.showSocket x.frame) := by
  have hwidth := width_letters 262098
  refine @refusal_of_width (letters 262098) (fun h => ?_) ?_
  · rw [h] at hwidth
    have hempty : width "" = 2 := by decide
    omega
  · rw [hwidth]
    show 256 * 1024 < 51 + (262098 + 2)
    omega

end Lurker.Engine.Server
