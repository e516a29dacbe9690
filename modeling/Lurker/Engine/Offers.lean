import Lurker.Engine.Logs

/-!
# No registered session is stranded

A session nobody claims is one every link of its instance has been told of:
by its hello, or by an offer when the session was let go of, lost its link, or
finished registering with nobody attached. `Watched` runs the engine beside a
record of who was told of what, kept from the frames on the links alone.

A registration that completes with nobody attached is not offered to the link
`releasedBy` names. The engine never takes that name back: a link that let go of
the socket while it registered stays named when somebody claims the socket after
it and loses it, and then hears nothing.
-/

namespace Lurker.Engine.Server

/-- A session that no link claims. -/
def Unheld (s : Server) (n : SocketId) : Prop :=
  s.isSession n = true ∧ ∀ l ∈ s.links, ¬ s.Claims l n

instance (s : Server) (n : SocketId) : Decidable (s.Unheld n) :=
  inferInstanceAs (Decidable (_ ∧ _))

/-- A link that is up, and speaks for the instance of `n`. -/
structure MayAttach (s : Server) (l : LinkId) (n : SocketId) : Prop where
  listed : l ∈ s.links
  authed : (s.link l).authed = true
  up : (s.link l).destroyed = false
  instanceId : (s.upstream n).opts.instanceId = (s.link l).instanceId

/-- The frames that tell a link of the session under `id`. -/
def tellsOf (id : String) : EngineToApp → Prop
  | .held i => i = id
  | .hello _ _ _ held => id ∈ held
  | _ => False

/-- Between `s` and `t` the link was told of the session `n`. -/
def ToldIn (s t : Server) (l : LinkId) (n : SocketId) : Prop :=
  ∃ x ∈ (t.link l).sent.drop (s.link l).sent.length, tellsOf (t.upstream n).id x.frame

/-- The engine, and who has been told of an unclaimed session since it last
became one; `detachedBy` is the link whose `detach` let go of a socket that
nobody has claimed since. -/
structure Watched where
  server : Server
  told : LinkId → SocketId → Prop
  detachedBy : SocketId → Option LinkId

namespace Watched

def init (o : ServerOptions) : Watched := ⟨Server.init o, fun _ _ => False, fun _ => none⟩

/-- The link whose `detach` for a session it claims the engine reads in this step. -/
def noteDetach (s : Server) (by_ : SocketId → Option LinkId) (n : SocketId) :
    Event → Option LinkId
  | .frame l (.detach id) =>
      if s.upstreams.get? id = some n ∧ s.Claims l n ∧ (s.link l).destroyed = false then some l
      else by_ n
  | _ => by_ n

def step (env : Platform) (o : ServerOptions) (w : Watched) (e : Event) : Watched where
  server := w.server.step env o e
  told l n := ToldIn w.server (w.server.step env o e) l n ∨ w.told l n ∧ w.server.Unheld n
  detachedBy n :=
    if ((w.server.step env o e).holderOf n none).isSome then none
    else noteDetach w.server w.detachedBy n e

/-- Every link that may attach to an unclaimed session has been told of it since
it became one, but for the link that let go of it itself. -/
def Reached (w : Watched) : Prop :=
  ∀ l n, w.server.Unheld n → w.server.MayAttach l n → w.told l n ∨ w.detachedBy n = some l

end Watched

/-- The line completes the registration of a socket with nobody attached to it. -/
def FinishesAlone (env : Platform) (s : Server) (n : SocketId) (line : String) : Prop :=
  s.socketUp n ∧ (s.upstream n).state = .opened ∧ (s.upstream n).closing = false ∧
    (s.upstream n).burstDone = false ∧ (s.upstream n).sink = none ∧
    utf16Length line ≤ MAX_IRC_LINE ∧ line ≠ "" ∧
    (env.ircLineParser line).any (fun msg => Upstream.endsBurst (env.toUpperCase msg.command)) = true

instance (env : Platform) (s : Server) (n : SocketId) (line : String) :
    Decidable (s.FinishesAlone env n line) :=
  inferInstanceAs (Decidable (_ ∧ _))

/-- No registration completes unattended while `releasedBy` names a link that may attach, and
whose `detach` is not what left the socket to itself. -/
def Watched.Current (env : Platform) (w : Watched) : Event → Prop
  | .line n line => w.server.FinishesAlone env n line → ∀ l, w.server.MayAttach l n →
      w.server.releasedBy n = some l → w.detachedBy n = some l
  | _ => True

section

variable {env : Platform} {o : ServerOptions} {c : Cause} {s t v : Server} {l : LinkId} {k : Nat}
  {n m : SocketId}

theorem isSession_iff : s.isSession n = true ↔ (s.upstream n).state = .opened ∧
    (s.upstream n).burstDone = true ∧ (s.upstream n).closing = false := by
  simp [isSession, Upstream.registered, and_assoc]

/-- `t` has no unclaimed session and no link to tell that `s` did not have. -/
structure Stays (s t : Server) : Prop where
  unheld : ∀ {n}, t.Unheld n → s.Unheld n
  mayAttach : ∀ {l n}, t.Unheld n → t.MayAttach l n → s.MayAttach l n
  id : ∀ {n}, t.Unheld n → (t.upstream n).id = (s.upstream n).id
  sent : ∀ l, (s.link l).sent <+: (t.link l).sent

theorem Stays.refl (s : Server) : Stays s s :=
  ⟨fun h => h, fun _ h => h, fun _ => rfl, fun _ => List.prefix_refl _⟩

theorem Stays.trans (h : Stays s t) (h' : Stays t v) : Stays s v where
  unheld hu := h.unheld (h'.unheld hu)
  mayAttach hu ha := h.mayAttach (h'.unheld hu) (h'.mayAttach hu ha)
  id hu := (h'.id hu).trans (h.id (h'.unheld hu))
  sent l := (h.sent l).trans (h'.sent l)

/-- What has to be seen of a move for it to strand nobody. -/
theorem Stays.intro
    (hsess : ∀ {n}, t.isSession n = true → s.isSession n = true ∧
      ((t.upstream n).id = (s.upstream n).id ∧
        (t.upstream n).opts.instanceId = (s.upstream n).opts.instanceId) ∧
      ∀ l, s.Claims l n → ∃ l' ∈ t.links, t.Claims l' n)
    (hlinks : ∀ {l}, l ∈ t.links → l ∈ s.links)
    (hlink : ∀ l, (t.link l).authed = (s.link l).authed ∧
      (t.link l).instanceId = (s.link l).instanceId ∧
      ((t.link l).destroyed = false → (s.link l).destroyed = false))
    (hsent : ∀ l, (s.link l).sent <+: (t.link l).sent) : Stays s t where
  unheld hu := by
    obtain ⟨h1, -, h3⟩ := hsess hu.1
    refine ⟨h1, fun l _ hc => ?_⟩
    obtain ⟨l', hl', hc'⟩ := h3 l hc
    exact hu.2 l' hl' hc'
  mayAttach {l n} hu ha := by
    obtain ⟨-, h2, -⟩ := hsess hu.1
    obtain ⟨g1, g2, g3⟩ := hlink l
    exact ⟨hlinks ha.listed, g1 ▸ ha.authed, g3 ha.up, by rw [← h2.2, ← g2]; exact ha.instanceId⟩
  id hu := (hsess hu.1).2.1.1
  sent := hsent

theorem Alike.stays (ha : s.Alike t) (hs : s.Wf)
    (hsess : ∀ {n}, t.isSession n = true → s.isSession n = true)
    (hdest : ∀ l, (t.link l).destroyed = false → (s.link l).destroyed = false)
    (hsent : ∀ l, (s.link l).sent <+: (t.link l).sent) : Stays s t := by
  refine .intro (fun {n} hn => ⟨hsess hn, ⟨(ha.upstream n).1, (ha.upstream n).2.1⟩, fun l hc => ?_⟩)
    (fun hl => ha.links ▸ hl) (fun l => ⟨(ha.link l).2.1, (ha.link l).2.2, hdest l⟩) hsent
  exact ⟨l, ha.links ▸ (hs.claims hc).1, ha.claims_iff.mpr hc⟩

/-- A session of `u` was one of the socket it replaces. -/
theorem session_setUpstream {u : Upstream} (h : u.state = .opened → u.burstDone = true →
      u.closing = false → s.isSession n = true)
    (hm : (s.setUpstream n u).isSession m = true) : s.isSession m = true := by
  rw [isSession_iff, setUpstream_upstream] at hm
  split at hm
  · rename_i he
    subst he
    exact h hm.1 hm.2.1 hm.2.2
  · exact isSession_iff.mpr hm

theorem session_keeps {u : Upstream} (hu : (s.upstream n).Keeps u)
    (hr : u.burstDone = true → (s.upstream n).burstDone = true)
    (hm : (s.setUpstream n u).isSession m = true) : s.isSession m = true := by
  refine session_setUpstream (fun h1 h2 h3 => isSession_iff.mpr ⟨hu.state ▸ h1, hr h2, ?_⟩) hm
  cases hc : (s.upstream n).closing with
  | false => rfl
  | true => rw [hu.closing hc] at h3; exact nomatch h3

theorem session_deliver {op : (Nat → Bool) → Upstream → Upstream.Delivery}
    (hm : (s.deliver n op).isSession m = true) :
    (s.setUpstream n (op (s.sinkTakes n) (s.upstream n)).1).isSession m = true := by
  rw [isSession_iff, deliver_upstream] at hm
  rw [isSession_iff, setUpstream_upstream]
  exact hm

theorem send_destroyed {l' : LinkId} {origin : Origin} {f : EngineToApp} :
    ((s.send l' origin f).link l).destroyed = (s.link l).destroyed := by
  simp only [send, modifyLink_link]
  split
  · rename_i h; rw [h]; exact write_destroyed _ _
  · rfl

/-- A socket that stops being a session leaves the others as they were. -/
theorem stays_without (hs : s.Wf) (hu : ∀ m, m ≠ n → t.upstream m = s.upstream m)
    (hn : t.isSession n = false) (hlinks : t.links = s.links)
    (hcl : ∀ {l m}, m ≠ n → s.Claims l m → t.Claims l m)
    (hlink : ∀ l, (t.link l).authed = (s.link l).authed ∧
      (t.link l).instanceId = (s.link l).instanceId ∧
      (t.link l).destroyed = (s.link l).destroyed)
    (hsent : ∀ l, (s.link l).sent <+: (t.link l).sent) : Stays s t := by
  refine .intro (fun {m} hm => ?_) (fun hl => hlinks ▸ hl)
    (fun l => ⟨(hlink l).1, (hlink l).2.1, fun h => (hlink l).2.2 ▸ h⟩) hsent
  have hne : m ≠ n := by rintro rfl; rw [hn] at hm; exact nomatch hm
  refine ⟨?_, by rw [hu m hne]; exact ⟨rfl, rfl⟩, fun l hc => ?_⟩
  · rw [isSession_iff, hu m hne] at hm
    exact isSession_iff.mpr hm
  · exact ⟨l, hlinks ▸ (hs.claims hc).1, hcl hne hc⟩

theorem dialAfresh_link (dial : DialRequest) (l' : LinkId) :
    ((s.dialAfresh env o l k dial).link l').authed = (s.link l').authed ∧
      ((s.dialAfresh env o l k dial).link l').instanceId = (s.link l').instanceId ∧
      ((s.dialAfresh env o l k dial).link l').destroyed = (s.link l').destroyed := by
  have hstart : ((s.startDial env o l k dial).link l').destroyed = (s.link l').destroyed := by
    rw [startDial_link]
    split
    · rename_i h
      subst h
      rw [write_destroyed]
      unfold AppLink.claim
      split <;> rfl
    · rfl
  have hd : ((s.startDial env o l k dial).link l').authed = (s.link l').authed ∧
      ((s.startDial env o l k dial).link l').instanceId = (s.link l').instanceId ∧
      ((s.startDial env o l k dial).link l').destroyed = (s.link l').destroyed :=
    ⟨startDial_links.1, startDial_links.2, hstart⟩
  simp only [dialAfresh]
  split
  · exact hd
  · simp only [send, modifyLink_link]
    split
    · rename_i h
      subst h
      rw [write_authed, write_instanceId, write_destroyed]
      exact ⟨unclaim_link.1.trans hd.1, unclaim_link.2.1.trans hd.2.1,
        unclaim_link.2.2.2.1.trans hd.2.2⟩
    · exact ⟨unclaim_link.1.trans hd.1, unclaim_link.2.1.trans hd.2.1,
        unclaim_link.2.2.2.1.trans hd.2.2⟩

theorem dialAfresh_claims (hs : s.Wf) (dial : DialRequest) {l' : LinkId} (h : s.Claims l' m) :
    (s.dialAfresh env o l k dial).Claims l' m := by
  have hne : m ≠ s.nextSocket := by
    rintro rfl
    exact hs.fresh_claims (Nat.le_refl _) h
  have hstart : (s.startDial env o l k dial).Claims l' m :=
    (claims_startDial hs).mpr (.inl ⟨h, hne⟩)
  simp only [dialAfresh]
  split
  · exact hstart
  · refine (alike_write _ _ _).claims_iff.mpr (claims_unclaim.mpr ⟨hstart, fun h => hne h.2⟩)

theorem offerOne_stays (hs : s.Wf) (n : SocketId) (except : Option LinkId) :
    Stays s (s.offerOne n except) := by
  refine (s.alike_offerOne n except).stays hs (fun hn => ?_) (fun l h => ?_) (fun l => ?_)
  · rw [isSession_iff, (s.offerOne_frame n except).1] at hn
    exact isSession_iff.mpr hn
  · rcases s.offerOne_link l n except with he | ⟨-, -, -, he⟩
    · rw [he] at h; exact h
    · rw [he, write_destroyed] at h; exact h
  · rcases s.offerOne_link l n except with he | ⟨-, -, -, he⟩
    · exact he ▸ List.prefix_refl _
    · rw [he, write_sent]
      exact List.prefix_append _ _

theorem offer_stays (hs : s.Wf) (released : List SocketId) (except : Option LinkId) :
    Stays s (s.offer released except) ∧ (s.offer released except).Wf ∧
      (s.offer released except).upstream = s.upstream := by
  induction released generalizing s with
  | nil => exact ⟨.refl s, hs, rfl⟩
  | cons n ns ih =>
    obtain ⟨h1, h2, h3⟩ := ih ((s.alike_offerOne n except).wf hs)
    exact ⟨(offerOne_stays hs n except).trans h1, h2, h3.trans (s.offerOne_frame n except).1⟩

section

variable (hsent : ∀ l, (s.link l).sent <+: (t.link l).sent)

include hsent

/-- A socket that is ended, and that nobody claims any more. -/
theorem unclaimed_stays (hs : s.Wf) (hu : ∀ m, m ≠ n → t.upstream m = s.upstream m)
    (hclosing : (t.upstream n).closing = true) (hlinks : t.links = s.links)
    (hlink : t.link = (s.unclaimAll n).link) : Stays s t := by
  refine stays_without hs hu (by simp [isSession, hclosing]) hlinks (fun {l m} hm hc => ?_)
    (fun l => ?_) hsent
  · have hkept : (s.unclaimAll n).Claims l m := (claims_unclaimAll hs).mpr ⟨hc, hm⟩
    rw [Claims, hlink]
    exact hkept
  · rw [hlink]
    exact ⟨unclaimAll_link.1, unclaimAll_link.2.1, unclaimAll_link.2.2.2.1⟩

theorem opened_stays (hs : s.Wf) (hd : (s.upstream n).state = .dialing)
    (hr : (s.upstream n).burstDone = false) {r r' : Endpoint}
    (ht : t = s.deliver n (fun _ u => u.onOpen r r')) : Stays s t := by
  subst ht
  refine (s.alike_opened _ hd r r').stays hs (fun hm => session_setUpstream ?_ (session_deliver hm))
    (fun l h => (deliver_link_keeps _).2.2.2.symm.trans h) hsent
  intro _ hb
  have he : ∀ u : Upstream, (u.onOpen r r').1.burstDone = u.burstDone := by
    intro u
    unfold Upstream.onOpen
    split <;> rfl
  rw [he, hr] at hb
  exact nomatch hb

theorem flush_stays (hs : s.Wf) {op : (Nat → Bool) → Upstream → Upstream.Delivery}
    (hop : ∀ ok u, Upstream.Emits u (op ok u).2 (op ok u).1) (ht : t = s.deliver n op) :
    Stays s t := by
  subst ht
  refine (s.alike_flush _ hop).stays hs (fun hm => session_setUpstream ?_ (session_deliver hm))
    (fun l h => (deliver_link_keeps _).2.2.2.symm.trans h) hsent
  obtain ⟨hsame, -⟩ := (hop (s.sinkTakes _) (s.upstream _)).sameSocket
  intro h1 h2 h3
  exact isSession_iff.mpr ⟨hsame.state ▸ h1, hsame.burstDone ▸ h2, hsame.closing ▸ h3⟩

/-- An attachment takes a claim over or makes one, and ends no session. -/
theorem attach_stays (hs : s.Wf) (hl : l ∈ s.links) {u : Server} (hw : s.contest l n = (u, none))
    (ht : t = (u.attachTo l k n).1) : Stays s t := by
  subst ht
  obtain ⟨hup, -, hlinks, -, -, -, hlk⟩ := contest_upstream hw
  obtain ⟨hu, -, hk⟩ := attachTo_spec (t := u) (l := l) (n := n) k
  have hsame : ∀ m, (s.upstream m).SameSocket ((u.attachTo l k n).1.upstream m) := by
    intro m
    rw [hu, hup]
    split
    · rename_i h; subst h; exact (Upstream.sameSocket_attach _ _ _ _).1
    · exact .refl _
  refine .intro (fun {m} hm => ?_) (fun h => hlinks ▸ h) (fun l' => ?_) hsent
  · rw [isSession_iff, (hsame m).state, (hsame m).burstDone, (hsame m).closing] at hm
    refine ⟨isSession_iff.mpr hm, ⟨(hsame m).id, congrArg (·.instanceId) (hsame m).opts⟩,
      fun l' hc => ?_⟩
    by_cases hmn : m = n
    · exact ⟨l, hlinks.symm ▸ hl, (claims_attachTo hs hw k).mpr (.inr ⟨rfl, hmn⟩)⟩
    · exact ⟨l', hlinks.symm ▸ (hs.claims hc).1, (claims_attachTo hs hw k).mpr (.inl ⟨hc, hmn⟩)⟩
  · rw [hk]
    refine ⟨claim_link.1.trans (hlk l').1, claim_link.2.1.trans (hlk l').2.1, fun h => ?_⟩
    exact (hlk l').2.2 ▸ (claim_link.2.2.2.1 ▸ h)

theorem dial_stays (hs : s.Wf) {dial : DialRequest} (ht : t = s.dialAfresh env o l k dial) :
    Stays s t := by
  subst ht
  obtain ⟨u, hup, -, -, -, -, hst, -⟩ := s.dialAfresh_upstream l env o k dial
  refine stays_without (n := s.nextSocket) hs (fun m hm => by rw [hup, if_neg hm]) ?_ ?_
    (fun _ hc => dialAfresh_claims hs dial hc) (dialAfresh_link dial) hsent
  · have h : ((s.dialAfresh env o l k dial).upstream s.nextSocket).state = .dialing := by
      rw [hup, if_pos rfl, hst]
    simp [isSession, h]
  · simp only [dialAfresh]; split <;> rfl

theorem ended_stays (hs : s.Wf) (ht : t = s.onUpstreamClose n) : Stays s t := by
  subst ht
  by_cases hst : (s.upstream n).state = .closed
  · rw [onUpstreamClose, if_pos hst]; exact .refl s
  · obtain ⟨-, hlinks, -, -, -, hu, -⟩ := onUpstreamClose_spec hst
    refine stays_without (n := n) hs (fun m hm => by rw [hu, if_neg hm]) ?_ hlinks ?_ ?_ hsent
    · have h : ((s.onUpstreamClose n).upstream n).state = .closed := by
        rw [hu, if_pos rfl, (Upstream.onClose_spec hst).2.1]
      simp [isSession, h]
    · exact fun hm hc => (claims_onUpstreamClose hs hst).mpr ⟨hc, hm⟩
    · exact fun l => onUpstreamClose_link hst

end

theorem Calm.stays (h : Calm env o c s t) (hs : s.Wf) : Stays s t := by
  have hsent : ∀ l, (s.link l).sent <+: (t.link l).sent := by
    intro l
    obtain ⟨new, hnew, -⟩ := h.grew hs l
    exact ⟨new, hnew.symm⟩
  cases h with
  | tick now =>
    exact .intro (fun hn => ⟨hn, ⟨rfl, rfl⟩, fun l hc => ⟨l, (hs.claims hc).1, hc⟩⟩) id
      (fun _ => ⟨rfl, rfl, id⟩) hsent
  | read l =>
    refine (s.alike_modifyLink l (f := (·.readOne)) (fun _ => ⟨rfl, rfl, rfl⟩)).stays hs id
      (fun l' => ?_) hsent
    rw [modifyLink_link]
    split
    · rename_i h; rw [h]; exact id
    · exact id
  | linkDestroyed l =>
    refine (s.alike_modifyLink l (f := (·.destroy)) (fun _ => ⟨rfl, rfl, rfl⟩)).stays hs id
      (fun l' => ?_) hsent
    rw [modifyLink_link]
    split
    · exact nofun
    · exact id
  | reply hc hf =>
    exact (s.alike_write _ _).stays hs id (fun _ h => send_destroyed.symm.trans h) hsent
  | detached hn =>
    exact (s.alike_write _ _).stays hs id (fun _ h => send_destroyed.symm.trans h) hsent
  | offer n except => exact offerOne_stays hs n except
  | touch hu hr =>
    exact (s.alike_keeps _ hu (fun _ => hr)).stays hs (session_keeps hu (fun h => hr ▸ h))
      (fun _ => id) hsent
  | opened hn hd hr l r => exact opened_stays hsent hs hd hr rfl
  | flush hn hop => exact flush_stays hsent hs hop rfl
  | push n line =>
    refine (s.alike_push n line).stays hs (fun {m} hm => ?_) (fun _ => id) hsent
    obtain ⟨j, hj⟩ := s.pushLine_upstream n m line
    rw [isSession_iff, hj] at hm
    rw [isSession_iff]
    split at hm
    · rename_i h; subst h; exact hm
    · exact hm
  | ack n seq =>
    exact (s.alike_ack n seq).stays hs (session_setUpstream (fun h1 h2 h3 =>
      isSession_iff.mpr ⟨h1, h2, h3⟩)) (fun _ => id) hsent
  | @retire n hc =>
    refine unclaimed_stays (n := n) hsent hs (fun m hm => by rw [retire_upstream, if_neg hm]) ?_ rfl rfl
    rw [retire_upstream, if_pos rfl]
    exact (Upstream.sameSocket_silence _ _).1.closing.trans hc
  | cut n =>
    refine unclaimed_stays (n := n) hsent hs (fun m hm => ?_) ?_ rfl rfl
    · rw [modifyUpstream, setUpstream_upstream, if_neg hm, retire_upstream, if_neg hm]
    · rw [modifyUpstream, setUpstream_upstream, if_pos rfl]
      exact Upstream.closing_close _
  | attach hc hl ha hn hi hw => exact attach_stays hsent hs hl hw rfl
  | dial hc hl ha hv => exact dial_stays hsent hs rfl
  | ended hn => exact ended_stays hsent hs rfl

theorem Calms.stays (h : Calms env o c s t) (hs : s.Wf) : Stays s t := by
  have key : t.Wf ∧ Stays s t := by
    induction h with
    | refl => exact ⟨hs, .refl s⟩
    | tail _ hc ih => exact ⟨hc.wf ih.1, ih.2.trans (hc.stays ih.1)⟩
  exact key.2

theorem mem_drop_of_prefix {α : Type} {a b : List α} {x : α} {i j : Nat} (hx : x ∈ a.drop i)
    (hab : a <+: b) (hij : j ≤ i) : x ∈ b.drop j := by
  obtain ⟨r, rfl⟩ := hab
  rw [List.drop_append]
  refine List.mem_append_left _ ?_
  rw [← Nat.sub_add_cancel hij, Nat.add_comm, ← List.drop_drop] at hx
  exact List.mem_of_mem_drop hx

/-- What a link is told on the way from `s` to `t`, it is told between them. -/
theorem ToldIn.widen {s' t' : Server} (h : ToldIn s' t' l n)
    (hs : (s.link l).sent <+: (s'.link l).sent) (ht : (t'.link l).sent <+: (t.link l).sent)
    (hid : (t.upstream n).id = (t'.upstream n).id) : ToldIn s t l n := by
  obtain ⟨x, hx, hp⟩ := h
  exact ⟨x, mem_drop_of_prefix hx ht hs.length_le, by rw [hid]; exact hp⟩

theorem holderOf_isNone (h : s.Unheld n) : s.holderOf n none = none := by
  cases ho : s.holderOf n none with
  | none => rfl
  | some l => exact absurd (holderOf_some ho).2.1 (h.2 l (holderOf_some ho).1)

/-- Offers change nothing a session or a claim is decided by. -/
theorem offerOne_iff (except : Option LinkId) :
    ((s.offerOne m except).Unheld n ↔ s.Unheld n) ∧
      ((s.offerOne m except).MayAttach l n ↔ s.MayAttach l n) := by
  have ha := s.alike_offerOne m except
  obtain ⟨hu, -, hl, -⟩ := s.offerOne_frame m except
  have hd : ((s.offerOne m except).link l).destroyed = (s.link l).destroyed := by
    rcases s.offerOne_link l m except with he | ⟨-, -, -, he⟩
    · rw [he]
    · rw [he, write_destroyed]
  constructor
  · simp only [Unheld, isSession, hu, hl, ha.claims_iff]
  · constructor
    · rintro ⟨h1, h2, h3, h4⟩
      exact ⟨hl ▸ h1, (ha.link l).2.1 ▸ h2, hd ▸ h3, by rw [hu, (ha.link l).2.2] at h4; exact h4⟩
    · rintro ⟨h1, h2, h3, h4⟩
      exact ⟨hl.symm ▸ h1, (ha.link l).2.1.trans h2, hd.trans h3,
        by rw [hu, (ha.link l).2.2]; exact h4⟩

/-- An unclaimed session is offered to every link that may attach to it. -/
theorem offerOne_tells {except : Option LinkId} (hu : s.Unheld n) (hm : s.MayAttach l n)
    (hx : some l ≠ except) : ToldIn s (s.offerOne n except) l n := by
  have ho : s.offersTo n except l = true := by
    simp [offersTo, hx, hm.authed, hm.up, hm.instanceId]
  have hlink : (s.offerOne n except).link l =
      (s.link l).write [{ frame := .held (s.upstream n).id, origin := .notice n }] := by
    simp [offerOne, hu.1, holderOf_isNone hu, hm.listed, ho]
  refine ⟨{ frame := .held (s.upstream n).id, origin := .notice n }, ?_, ?_⟩
  · rw [hlink, write_sent, hm.up]
    simp
  · rw [(s.offerOne_frame n except).1]
    rfl

theorem offer_tells {except : Option LinkId} (released : List SocketId) (hs : s.Wf)
    (hn : n ∈ released) (hu : s.Unheld n) (hm : s.MayAttach l n) (hx : some l ≠ except) :
    ToldIn s (s.offer released except) l n := by
  induction released generalizing s with
  | nil => exact absurd hn List.not_mem_nil
  | cons m ns ih =>
    have hwf := (s.alike_offerOne m except).wf hs
    obtain ⟨hu', hm'⟩ := offerOne_iff (s := s) (m := m) (n := n) (l := l) except
    change ToldIn s ((s.offerOne m except).offer ns except) l n
    rcases List.mem_cons.mp hn with rfl | hn
    · obtain ⟨hrest, -, hup⟩ := offer_stays hwf ns except
      exact (offerOne_tells hu hm hx).widen (List.prefix_refl _) (hrest.sent l) (by rw [hup])
    · exact (ih hwf hn (hu'.mpr hu) (hm'.mpr hm)).widen ((offerOne_stays hs m except).sent l)
        (List.prefix_refl _) rfl

theorem Wf.session_mapped (hs : s.Wf) (h : s.isSession n = true) : s.Mapped n := by
  obtain ⟨h1, h2, h3⟩ := isSession_iff.mp h
  by_contra hm
  rcases hs.stray hm with ⟨-, h | h⟩ | h
  · rw [h] at h3; exact nomatch h3
  · rw [h] at h1; exact nomatch h1
  · rw [h.2.2] at h1; exact nomatch h1

/-- What a step does for each unclaimed session it leaves and each link that may
attach to it: it keeps both as they were, it tells the link, or the link is excused. -/
def Informs (excused : LinkId → SocketId → Prop) (s t : Server) : Prop :=
  ∀ l n, t.Unheld n → t.MayAttach l n →
    ToldIn s t l n ∨ s.Unheld n ∧ s.MayAttach l n ∨ excused l n

section

variable {p q : LinkId → SocketId → Prop}

theorem Stays.informs (h : Stays s t) : Informs p s t :=
  fun _ _ hu hm => .inr (.inl ⟨h.unheld hu, h.mayAttach hu hm⟩)

theorem Informs.mono (h : Informs p s t) (hp : ∀ l n, t.Unheld n → p l n → q l n) :
    Informs q s t := by
  intro l n hu hm
  rcases h l n hu hm with ht | hk | he
  · exact .inl ht
  · exact .inr (.inl hk)
  · exact .inr (.inr (hp l n hu he))

theorem Informs.head (h : Stays s t) (h' : Informs p t v) : Informs p s v := by
  intro l n hu hm
  rcases h' l n hu hm with ht | ⟨hu', hm'⟩ | he
  · exact .inl (ht.widen (h.sent l) (List.prefix_refl _) rfl)
  · exact .inr (.inl ⟨h.unheld hu', h.mayAttach hu' hm'⟩)
  · exact .inr (.inr he)

theorem Informs.tail (h : Informs p s t) (h' : Stays t v) : Informs p s v := by
  intro l n hu hm
  rcases h l n (h'.unheld hu) (h'.mayAttach hu hm) with ht | hk | he
  · exact .inl (ht.widen (List.prefix_refl _) (h'.sent l) (h'.id hu))
  · exact .inr (.inl hk)
  · exact .inr (.inr he)

end

theorem release_informs (hs : s.Wf) (h : s.Claims l n) :
    Informs (fun l' m => l' = l ∧ m = n) s (s.release l n) := by
  rw [release, if_pos (show n ∈ (s.link l).claimed from h)]
  have hv := hs.letGo h
  obtain ⟨hst, -, hup⟩ := offer_stays hv [n] (some l)
  have hlink : ∀ l', ((s.letGo l n).link l').authed = (s.link l').authed ∧
      ((s.letGo l n).link l').instanceId = (s.link l').instanceId ∧
      ((s.letGo l n).link l').sent = (s.link l').sent ∧
      ((s.letGo l n).link l').destroyed = (s.link l').destroyed := by
    intro l'
    have hu := @unclaim_link s l l' n
    exact ⟨hu.1, hu.2.1, hu.2.2.1, hu.2.2.2.1⟩
  intro l' m hu hm
  have hu' := hst.unheld hu
  have hm' := hst.mayAttach hu hm
  by_cases hmn : m = n
  · subst hmn
    by_cases hl : l' = l
    · exact .inr (.inr ⟨hl, rfl⟩)
    · refine .inl ((offer_tells [m] hv (by simp) hu' hm' ?_).widen ?_ (List.prefix_refl _) rfl)
      · exact fun h => hl (Option.some.inj h)
      · exact (hlink l').2.2.1 ▸ List.prefix_refl _
  · have hsame : (s.letGo l n).upstream m = s.upstream m := by
      rw [letGo_upstream, if_neg hmn]
    refine .inr (.inl ⟨⟨?_, fun l'' hl'' hc => ?_⟩, ⟨hm'.listed, ?_, ?_, ?_⟩⟩)
    · have h1 := hu'.1
      rw [isSession_iff, hsame] at h1
      exact isSession_iff.mpr h1
    · exact hu'.2 l'' hl'' ((claims_unclaim (s := s)).mpr ⟨hc, fun h' => hmn h'.2⟩)
    · rw [← (hlink l').1]; exact hm'.authed
    · rw [← (hlink l').2.2.2]; exact hm'.up
    · rw [← (hlink l').2.1, ← hsame]; exact hm'.instanceId

theorem onLinkClose_informs {p : LinkId → SocketId → Prop} (hs : s.Wf) :
    Informs p s (s.onLinkClose l) := by
  unfold onLinkClose
  split
  · have hv := hs.dropLink l
    obtain ⟨-, -, -, hlinks, -, hlink, hup⟩ := s.dropLink_spec (l := l)
    obtain ⟨hst, -, -⟩ := offer_stays hv (s.link l).claimed none
    have hsent : ∀ l', ((s.dropLink l).link l').sent = (s.link l').sent := by
      intro l'
      rw [hlink]
      split
      · rename_i h; rw [h]
      · rfl
    intro l' m hu hm
    have hu' := hst.unheld hu
    have hm' := hst.mayAttach hu hm
    by_cases hc : s.Claims l m
    · refine .inl ((offer_tells _ hv hc hu' hm' (Option.some_ne_none l')).widen ?_ (List.prefix_refl _) rfl)
      exact hsent l' ▸ List.prefix_refl _
    · have hsame : (s.dropLink l).upstream m = s.upstream m := by rw [hup, if_neg hc]
      have hl' : l' ∈ s.links ∧ l' ≠ l := by
        have := hm'.listed
        rw [hlinks, List.mem_filter] at this
        exact ⟨this.1, by simpa using this.2⟩
      have hk : (s.dropLink l).link l' = s.link l' := by rw [hlink, if_neg hl'.2]
      refine .inr (.inl ⟨⟨?_, fun l'' hl'' hc' => ?_⟩, ⟨hl'.1, ?_, ?_, ?_⟩⟩)
      · have h1 := hu'.1
        rw [isSession_iff, hsame] at h1
        exact isSession_iff.mpr h1
      · have hne : l'' ≠ l := by rintro rfl; exact hc hc'
        refine hu'.2 l'' ?_ ?_
        · rw [hlinks, List.mem_filter]
          exact ⟨hl'', by simpa using hne⟩
        · rw [Claims, hlink, if_neg hne]; exact hc'
      · rw [← hk]; exact hm'.authed
      · rw [← hk]; exact hm'.up
      · rw [← hk, ← hsame]; exact hm'.instanceId
  · exact (Stays.refl s).informs

theorem accept_informs {p : LinkId → SocketId → Prop} (hs : s.Wf) (accepts : Nat → Bool) :
    Informs p s (s.accept accepts) := by
  intro l m hu hm
  have hne : l ≠ s.nextLink := by
    rintro rfl
    have := hm.authed
    rw [accept_link, if_pos rfl] at this
    exact nomatch this
  have hk : (s.accept accepts).link l = s.link l := by rw [accept_link, if_neg hne]
  refine .inr (.inl ⟨⟨hu.1, fun l' hl' hc => ?_⟩, ⟨?_, hk ▸ hm.authed, hk ▸ hm.up, ?_⟩⟩)
  · have hne' : l' ≠ s.nextLink := by rintro rfl; exact Nat.lt_irrefl _ (hs.links hl')
    refine hu.2 l' (List.mem_append_left _ hl') ?_
    rw [Claims, accept_link, if_neg hne']
    exact hc
  · rcases List.mem_append.mp hm.listed with h | h
    · exact h
    · exact absurd (List.mem_singleton.mp h) hne
  · rw [← hk]; exact hm.instanceId

theorem mem_heldFor (hs : s.Wf) (hu : s.Unheld n)
    (hi : (s.upstream n).opts.instanceId = (s.link l).instanceId) :
    (s.upstream n).id ∈ s.heldFor l := by
  refine List.mem_map.mpr ⟨n, ?_, rfl⟩
  rw [List.mem_filter, List.mem_filter]
  refine ⟨⟨OrderedMap.mem_values.mpr ⟨_, hs.session_mapped hu.1⟩, by simpa using hi⟩, ?_⟩
  have hh : s.holderOf n (some l) = none := by
    cases ho : s.holderOf n (some l) with
    | none => rfl
    | some l' => exact absurd (holderOf_some ho).2.1 (hu.2 l' (holderOf_some ho).1)
  simp [hu.1, hh]

/-- A link's hello lists every unclaimed session of its instance. -/
theorem hello_informs {p : LinkId → SocketId → Prop} (hs : s.Wf)
    (ha : (s.link l).authed = false) (f : HelloFrame) : Informs p s (s.hello env o l k f) := by
  unfold hello
  split
  · rename_i message _
    have hr : Calms env o (some (l, k)) s ((s.fail l k message none).destroyLink l) :=
      refused_calms rfl message
    exact (hr.stays hs).informs
  · have hv := hs.authenticate ha f
    have hvl : ∀ l', l' ≠ l → (s.authenticate l f).link l' = s.link l' := by
      intro l' h
      rw [authenticate, modifyLink_link, if_neg h]
    have hvc : ∀ {l' m}, (s.authenticate l f).Claims l' m ↔ s.Claims l' m := by
      intro l' m
      rw [Claims, authenticate, modifyLink_link]
      split
      · rename_i h; rw [h]; rfl
      · rfl
    have hvs : ((s.authenticate l f).link l).sent = (s.link l).sent := by
      rw [authenticate, modifyLink_link, if_pos rfl]
    generalize hv' : s.authenticate l f = v at *
    simp only
    have hvu : v.upstream = s.upstream := by rw [← hv']; rfl
    have hvk : v.links = s.links := by rw [← hv']; rfl
    have hcalm : Calm env o (some (l, k)) v (v.send l (.reply k)
        (.hello PROTOCOL_MAJOR PROTOCOL_MINOR o.version (v.heldFor l))) := .reply rfl rfl
    have hst := hcalm.stays hv
    intro l' m hu hm
    have hu' := hst.unheld hu
    have hm' := hst.mayAttach hu hm
    by_cases hl : l' = l
    · subst hl
      refine .inl ⟨⟨.hello PROTOCOL_MAJOR PROTOCOL_MINOR o.version (v.heldFor l'), .reply k, false⟩,
        ?_, mem_heldFor hv hu' hm'.instanceId⟩
      simp only [send, modifyLink_link, ↓reduceIte, write_sent, hm'.up, hvs]
      simp
    · refine .inr (.inl ⟨⟨?_, fun l'' hl'' hc => ?_⟩, ⟨?_, ?_, ?_, ?_⟩⟩)
      · have h1 := hu'.1
        rw [isSession_iff, hvu] at h1
        exact isSession_iff.mpr h1
      · exact hu'.2 l'' (hvk ▸ hl'') (hvc.mpr hc)
      · exact hvk ▸ hm'.listed
      · exact hvl l' hl ▸ hm'.authed
      · exact hvl l' hl ▸ hm'.up
      · rw [← hvl l' hl, ← hvu]; exact hm'.instanceId

/-- The link that the unattended registration of `n` is not offered to. -/
def Spared (s : Server) (n : SocketId) (l : LinkId) (m : SocketId) : Prop :=
  m = n ∧ (s.upstream n).closing = false ∧ s.MayAttach l n ∧ s.releasedBy n = some l

/-- Finishing registration makes a socket a session; with nobody attached it is
offered at once. -/
theorem registered_informs (hs : s.Wf) {u : Upstream} (hk : (s.upstream n).Keeps u)
    (ho : (s.upstream n).state = .opened) :
    Informs (fun l' m => s.Spared n l' m ∧ (s.upstream n).sink = none) s
      (if (s.upstream n).sink.isNone = true then
        (s.setUpstream n u).offer [n] (s.releasedBy n) else s.setUpstream n u) := by
  have hv := (s.alike_keeps n hk (fun hd => by
    rw [hk.state, ho] at hd; exact nomatch hd)).wf hs
  have hown : (s.setUpstream n u).upstream n = u := by rw [setUpstream_upstream, if_pos rfl]
  have hother : ∀ {m l'}, m ≠ n → (s.setUpstream n u).Unheld m →
      (s.setUpstream n u).MayAttach l' m → s.Unheld m ∧ s.MayAttach l' m := by
    intro m l' hmn hu hm
    have hsame : (s.setUpstream n u).upstream m = s.upstream m := by
      rw [setUpstream_upstream, if_neg hmn]
    refine ⟨⟨?_, hu.2⟩, hm.listed, hm.authed, hm.up, hsame ▸ hm.instanceId⟩
    have h1 := hu.1
    rw [isSession_iff, hsame] at h1
    exact isSession_iff.mpr h1
  intro l' m hu hm
  by_cases hsink : (s.upstream n).sink.isNone = true
  · rw [if_pos hsink] at hu hm ⊢
    obtain ⟨hst, -, -⟩ := offer_stays hv [n] (s.releasedBy n)
    have hu' := hst.unheld hu
    have hm' := hst.mayAttach hu hm
    by_cases hmn : m = n
    · subst hmn
      by_cases hx : some l' = s.releasedBy m
      · have hclosing : (s.upstream m).closing = false := by
          have hopen := (isSession_iff.mp hu'.1).2.2
          rw [hown] at hopen
          cases hc : (s.upstream m).closing with
          | false => rfl
          | true => rw [hk.closing hc] at hopen; exact hopen
        have hinst : (s.upstream m).opts.instanceId = (s.link l').instanceId := by
          rw [← hk.instanceId, ← hown]
          exact hm'.instanceId
        exact .inr (.inr ⟨⟨rfl, hclosing, ⟨hm'.listed, hm'.authed, hm'.up, hinst⟩, hx.symm⟩,
          Option.isNone_iff_eq_none.mp hsink⟩)
      · exact .inl (offer_tells [m] hv (by simp) hu' hm' hx)
    · exact .inr (.inl (hother hmn hu' hm'))
  · rw [if_neg hsink] at hu hm ⊢
    by_cases hmn : m = n
    · subst hmn
      obtain ⟨l0, hl0⟩ : ∃ l0, (s.upstream m).sink = some l0 := by
        cases h : (s.upstream m).sink with
        | none => rw [h] at hsink; exact absurd rfl hsink
        | some l0 => exact ⟨l0, rfl⟩
      have hc : (s.setUpstream m u).Claims l0 m :=
        hv.sink (hv.session_mapped hu.1) (by rw [hown, hk.sink, hl0])
      exact absurd hc (hu.2 l0 (hv.claims hc).1)
    · exact .inr (.inl (hother hmn hu hm))

/-- A line that completes a registration nobody attends is followed by an offer. -/
theorem onLine_informs (o : ServerOptions) (hs : s.Wf) (hup : s.socketUp n)
    (ho : (s.upstream n).state = .opened) {line : String} (hlen : utf16Length line ≤ MAX_IRC_LINE)
    (hne : line ≠ "") :
    Informs (fun l' m => s.Spared n l' m ∧ s.FinishesAlone env n line) s (s.onLine env n line) := by
  unfold onLine
  split
  · exact (Stays.refl s).informs
  · rename_i msg hmsg
    split
    · have ht : Calm env o none s (s.modifyUpstream n (·.answerPing msg.params)) :=
        .touch (Upstream.keeps_answerPing _ _) (Upstream.burstDone_answerPing _ _)
      exact (ht.stays hs).informs
    · have hk := Upstream.keeps_trackLine env (s.upstream n) line msg
      have hreg := Upstream.trackLine_registered env (s.upstream n) line msg
      have halone := Upstream.trackLine_unattended env (s.upstream n) line msg
      generalize (s.upstream n).trackLine env line msg = r at hk hreg halone
      have hv : (s.setUpstream n r.1).Wf := (s.alike_keeps n hk (fun hd => by
        rw [hk.state, ho] at hd; exact nomatch hd)).wf hs
      have hvo : ((s.setUpstream n r.1).upstream n).state ≠ .dialing := by
        rw [setUpstream_upstream, if_pos rfl, hk.state, ho]
        exact nofun
      simp only
      rcases hreg with ⟨hr, hb⟩ | ⟨-, -, hr⟩
      · rw [hr, if_neg nofun]
        have hpush : Calms env o none (s.setUpstream n r.1) _ := pushed_calms hv hvo line
        have ht : Calm env o none s (s.setUpstream n r.1) := .touch hk hb
        exact ((ht.stays hs).trans (hpush.stays hv)).informs
      · rw [hr]
        have hi := registered_informs hs hk ho
        by_cases hsink : (s.upstream n).sink.isNone = true
        · rw [if_pos hsink] at hi
          rw [if_pos (congrArg some hsink)]
          obtain ⟨-, hw, hup'⟩ := offer_stays hv [n] (s.releasedBy n)
          have hpush : Calms env o none
              ((s.setUpstream n r.1).offer [n] (s.releasedBy n)) _ :=
            pushed_calms hw (by rw [hup']; exact hvo) line
          refine (hi.mono fun l' m _ h => ⟨h.1, ?_⟩).tail (hpush.stays hw)
          obtain ⟨hb, hnone, hend⟩ := halone.mp (hr.trans (congrArg some hsink))
          exact ⟨hup, ho, h.1.2.1, hb, hnone, hlen, hne, by rw [hmsg]; exact hend⟩
        · rw [if_neg hsink] at hi
          rw [if_neg (fun h => hsink (Option.some.inj h))]
          have hpush : Calms env o none (s.setUpstream n r.1) _ := pushed_calms hv hvo line
          refine (hi.mono fun l' m _ h => ?_).tail (hpush.stays hv)
          exact absurd (Option.isNone_iff_eq_none.mpr h.2) hsink

theorem onData_informs (o : ServerOptions) (hs : s.Wf) (hup : s.socketUp n)
    (ho : (s.upstream n).state = .opened) (line : String) :
    Informs (fun l' m => s.Spared n l' m ∧ s.FinishesAlone env n line) s (s.onData env n line) := by
  unfold onData
  split
  · have ht : Calm env o none s (s.modifyUpstream n
        (·.dropPeer "peer sent an over-long line")) := .touch (Upstream.keeps_dropPeer _ _) rfl
    exact (ht.stays hs).informs
  · split
    · exact (Stays.refl s).informs
    · exact onLine_informs o hs hup ho (Nat.not_lt.mp ‹_›) ‹_›

theorem onFrame_informs (hs : s.Wf) (frame : AppToEngine) :
    Informs (fun l' m => Watched.noteDetach s (fun _ => none) m (.frame l frame) = some l') s
      (s.onFrame env o l frame) := by
  unfold onFrame
  split
  · rename_i hg
    have hr : Calm env o (some (l, (s.link l).read)) s (s.modifyLink l (·.readOne)) := .read l
    have hw := hr.wf hs
    refine Informs.head (hr.stays hs) ?_
    rcases dispatch_cases (c := some (l, (s.link l).read)) (k := (s.link l).read) rfl hw hg.1 frame
      with hc | ⟨id, n, hfr, hn, hcl, he⟩ | ⟨f, -, ha, he⟩
    · exact (hc.stays hw).informs
    · subst hfr
      rw [he]
      refine (release_informs hw hcl).mono fun l' m _ h => ?_
      obtain ⟨rfl, rfl⟩ := h
      have hclaims : s.Claims l' m := by
        rw [Claims, modifyLink_link, if_pos rfl] at hcl
        exact hcl
      simp only [Watched.noteDetach]
      rw [if_pos ⟨hn, hclaims, hg.2⟩]
    · rw [he]; exact hello_informs hw ha f
  · exact (Stays.refl s).informs

/-- What a step does for the unclaimed sessions it leaves: it passes over the link
whose `detach` it reads, and the one an unattended registration spares. -/
theorem step_informs (hs : s.Wf) (e : Event) :
    Informs (fun l m => Watched.noteDetach s (fun _ => none) m e = some l ∨
      ∃ line, e = .line m line ∧ s.Spared m l m ∧ s.FinishesAlone env m line) s
      (s.step env o e) := by
  by_cases hq : e.quiet = true
  · exact ((step_calms hs hq).stays hs).informs
  · cases e with
    | accept accepts => exact accept_informs hs accepts
    | frame l f => exact (onFrame_informs hs f).mono fun _ _ _ h => .inl h
    | linkClosed l => exact onLinkClose_informs hs
    | line n line =>
      simp only [step]
      split
      · rename_i h
        refine (onData_informs o hs h.1 h.2 line).mono fun l m _ hsp => .inr ⟨line, ?_⟩
        obtain ⟨⟨rfl, hsp⟩, hfin⟩ := hsp
        exact ⟨rfl, ⟨rfl, hsp⟩, hfin⟩
      · exact (Stays.refl s).informs
    | _ => exact absurd rfl hq

namespace Watched

variable {w : Watched} {e : Event}

/-- A session nobody claims is let go of by nobody. -/
theorem noteDetach_unheld (hs : s.Wf) (hu : s.Unheld n) (by_ : SocketId → Option LinkId) :
    noteDetach s by_ n e = by_ n := by
  cases e with
  | frame l f =>
    cases f with
    | detach id =>
      simp only [noteDetach]
      rw [if_neg (fun h => hu.2 l (hs.claims h.2.1).1 h.2.1)]
    | _ => rfl
  | _ => rfl

/-- What a step notes, it notes whatever was noted before. -/
theorem noteDetach_some (h : noteDetach s (fun _ => none) n e = some l)
    (by_ : SocketId → Option LinkId) : noteDetach s by_ n e = some l := by
  unfold noteDetach at h
  split at h
  · split at h
    · rename_i hd
      rw [noteDetach, if_pos hd]
      exact h
    · cases h
  · cases h

theorem step_detachedBy (hu : (w.server.step env o e).Unheld n) :
    (Watched.step env o w e).detachedBy n = noteDetach w.server w.detachedBy n e := by
  simp only [Watched.step]
  rw [if_neg (by rw [holderOf_isNone hu]; exact nofun)]

theorem Reached.step (hs : w.server.Wf) (hw : w.Reached) (hc : w.Current env e) :
    (w.step env o e).Reached := by
  intro l n hu hm
  rw [step_detachedBy hu]
  rcases step_informs hs e l n hu hm with htold | ⟨hu', hm'⟩ | hnote | ⟨line, rfl, hsp, hfin⟩
  · exact .inl (.inl htold)
  · rcases hw l n hu' hm' with h | h
    · exact .inl (.inr ⟨h, hu'⟩)
    · exact .inr ((noteDetach_unheld hs hu' _).trans h)
  · exact .inr (noteDetach_some hnote _)
  · exact .inr (hc hfin l hsp.2.2.1 hsp.2.2.2)

end Watched

/-- A line is numbered, and relayed to nobody when nobody is attached. -/
theorem relay_unattended (hsink : (s.upstream n).sink = none) (line : String) :
    let t := ((s.pushLine n line).modifyUpstream n
      (·.noteBurstEnd (s.upstream n).buffer.nextSeq)).deliver n (fun ok u => Upstream.flush ok (u, []))
    s.Alike t ∧ t.link = s.link ∧ t.isSession n = s.isSession n := by
  intro t
  obtain ⟨j, hj⟩ := s.pushLine_upstream n n line
  rw [if_pos rfl] at hj
  have hseq : (s.upstream n).buffer.nextSeq < ((s.pushLine n line).upstream n).buffer.nextSeq :=
    s.pushLine_nextSeq n line ▸ Nat.lt_succ_self _
  have hk := Upstream.keeps_noteBurstEnd ((s.pushLine n line).upstream n) hseq
  have hbd := Upstream.burstDone_noteBurstEnd ((s.pushLine n line).upstream n)
    (s.upstream n).buffer.nextSeq
  have hcl := Upstream.closing_noteBurstEnd ((s.pushLine n line).upstream n)
    (s.upstream n).buffer.nextSeq
  have hnote : s.Alike ((s.pushLine n line).modifyUpstream n
      (·.noteBurstEnd (s.upstream n).buffer.nextSeq)) :=
    (alike_push _ _ _).trans (alike_keeps _ n hk fun _ => hbd)
  have hnone := ((hnote.upstream n).2.2).trans hsink
  refine ⟨hnote.trans (alike_flush _ n fun ok u => ?_), ?_, ?_⟩
  · obtain ⟨fs, hfs, he⟩ := Upstream.flush_emits ok u []
    rw [hfs]
    exact he
  · funext l
    rw [deliver_link, if_neg (by rw [hnone]; exact nofun)]
    rfl
  · have hown : t.upstream n =
        ((s.pushLine n line).upstream n).noteBurstEnd (s.upstream n).buffer.nextSeq := by
      rw [deliver_upstream, if_pos rfl, Upstream.flush, if_pos (by rw [hnone]; rfl), modifyUpstream,
        setUpstream_upstream, if_pos rfl]
    simp only [isSession, Upstream.registered, hown, hk.state, hbd, hcl]
    rw [hj]

/-- An unattended registration leaves a session that nobody claims, and its step
says nothing to the link `releasedBy` names. -/
theorem FinishesAlone.spec {line : String} (h : s.FinishesAlone env n line)
    (hr : s.releasedBy n = some l) :
    (s.step env o (.line n line)).isSession n = true ∧ s.Alike (s.step env o (.line n line)) ∧
      (s.step env o (.line n line)).link l = s.link l := by
  obtain ⟨hup, ho, hcl, hb, hsink, hlen, hne, hmsg⟩ := h
  obtain ⟨msg, hmsg, hend⟩ := Option.any_eq_true _ _ |>.mp hmsg
  have hping : env.toUpperCase msg.command ≠ "PING" := by
    intro hp
    rw [hp] at hend
    exact absurd hend (by decide)
  have hk := Upstream.keeps_trackLine env (s.upstream n) line msg
  have hclosing := Upstream.closing_trackLine env (s.upstream n) line msg
  have hreg := Upstream.trackLine_registered env (s.upstream n) line msg
  have halone := (Upstream.trackLine_unattended env (s.upstream n) line msg).mpr ⟨hb, hsink, hend⟩
  simp only [step]
  rw [if_pos ⟨hup, ho⟩, onData, if_neg (Nat.not_lt.mpr hlen), if_neg hne]
  simp only [onLine, hmsg]
  rw [if_neg hping, if_pos halone]
  generalize (s.upstream n).trackLine env line msg = r at hk hclosing hreg halone
  have hbd : r.1.burstDone = true := by
    rcases hreg with ⟨hnone, -⟩ | ⟨-, hd, -⟩
    · rw [hnone] at halone
      cases halone
    · exact hd
  have htrack : s.Alike (s.setUpstream n r.1) :=
    s.alike_keeps n hk (fun hd => by rw [hk.state, ho] at hd; cases hd)
  -- the offer passes over the one link
  have hoffer : s.Alike ((s.setUpstream n r.1).offerOne n (s.releasedBy n)) ∧
      ((s.setUpstream n r.1).offerOne n (s.releasedBy n)).link l = s.link l ∧
      ((s.setUpstream n r.1).offerOne n (s.releasedBy n)).upstream n = r.1 := by
    refine ⟨htrack.trans (alike_offerOne _ _ _), ?_, ?_⟩
    · rcases (s.setUpstream n r.1).offerOne_link l n (s.releasedBy n) with he | ⟨-, -, hx, -⟩
      · exact he
      · simp [offersTo, hr] at hx
    · rw [(offerOne_frame _ _ _).1, setUpstream_upstream, if_pos rfl]
  have hrel : (s.setUpstream n r.1).releasedBy n = s.releasedBy n := rfl
  simp only [offer, List.foldl_cons, List.foldl_nil, hrel]
  obtain ⟨halike, hlink, hown⟩ := hoffer
  generalize (s.setUpstream n r.1).offerOne n (s.releasedBy n) = v at halike hlink hown ⊢
  obtain ⟨hrelay, hlinks, hsession⟩ := relay_unattended (hown.symm ▸ hk.sink.trans hsink) line
  refine ⟨?_, halike.trans hrelay, (congrFun hlinks l).trans hlink⟩
  rw [hsession, isSession_iff, hown, hk.state, hclosing]
  exact ⟨ho, hbd, hcl⟩

/-- A registration that spares a link it should not leaves the session unheard of there. -/
theorem Watched.Reached.not_step {w : Watched} {e : Event} (hs : w.server.Wf)
    (hc : ¬ w.Current env e) : ¬ (w.step env o e).Reached := by
  cases e with
  | line n line =>
    simp only [Current, Classical.not_imp, not_forall] at hc
    obtain ⟨hfin, l, hm, hr, hby⟩ := hc
    obtain ⟨hsession, halike, hlink⟩ := @FinishesAlone.spec env o _ _ _ _ hfin hr
    have hnew : ¬ w.server.Unheld n := by
      intro hu
      have hburst := hfin.2.2.2.1
      rw [(isSession_iff.mp hu.1).2.1] at hburst
      exact nomatch hburst
    have hunheld : (w.server.step env o (.line n line)).Unheld n := by
      refine ⟨hsession, fun l' _ hcl => ?_⟩
      have hsink := (hs.claims (halike.claims_iff.mp hcl)).2.2.2.1
      rw [hfin.2.2.2.2.1] at hsink
      exact nomatch hsink
    have hmay : (w.server.step env o (.line n line)).MayAttach l n := by
      refine ⟨halike.links ▸ hm.listed, hlink ▸ hm.authed, hlink ▸ hm.up, ?_⟩
      rw [(halike.upstream n).2.1, hlink]
      exact hm.instanceId
    intro hreached
    rcases hreached l n hunheld hmay with (⟨x, hx, -⟩ | ⟨-, hu⟩) | hd
    · change x ∈ ((w.server.step env o (.line n line)).link l).sent.drop _ at hx
      rw [hlink, List.drop_length] at hx
      exact absurd hx List.not_mem_nil
    · exact hnew hu
    · rw [step_detachedBy hunheld] at hd
      exact hby hd
  | _ => exact absurd trivial hc

/-- Whatever the order of hellos, link deaths, detaches, takeovers and completed registrations,
every link that may attach to an unclaimed session has been told of it since it became one, but
for the link that let go of it: in every state of a run exactly when no registration of the run
completes unattended while `releasedBy` names a link that let go of the socket before somebody
claimed it again. -/
theorem no_session_stranded (env : Platform) (o : ServerOptions) (es : List Event) :
    (Run.after (Watched.step env o) (Watched.init o) es).server =
        Run.after (step env o) (init o) es ∧
      ((∀ es', es' <+: es → (Run.after (Watched.step env o) (Watched.init o) es').Reached) ↔
        Run.Within (Watched.step env o) (Watched.Current env) (Watched.init o) es) := by
  have hwf (es : List Event) : (Run.after (Watched.step env o) (Watched.init o) es).server.Wf :=
    Run.invariant (Watched.step env o) (P := fun w => w.server.Wf) (wf_init o)
      (fun _ e h => step_wf h e) es
  have hinit : (Watched.init o).Reached :=
    fun _ _ hu => absurd hu.1 (by simp [isSession, Watched.init, init])
  refine ⟨Run.after_view (Watched.step env o) (fun _ _ => rfl) _ es, fun h => ?_, fun h es' hes => ?_⟩
  · apply Run.within_of_after
    intro es' e es'' he
    by_contra hc
    apply Watched.Reached.not_step (hwf es') hc (o := o)
    rw [← Run.after_concat (Watched.step env o)]
    exact h _ ⟨es'', by rw [he]; simp⟩
  · obtain ⟨rest, rfl⟩ := hes
    have hrun := ((Run.within_append (Watched.step env o)).mp h).1
    have key := Run.invariant_within (Watched.step env o)
      (P := fun w => w.server.Wf ∧ w.Reached) ⟨wf_init o, hinit⟩
      (fun _ e hw hc => ⟨step_wf hw.1 e, hw.2.step hw.1 hc⟩) es' hrun
    exact key.2

/-- A second link whose hello came while the first still held the session is told
of it when the first is lost. -/
theorem no_session_stranded_link_lost :
    let w := Run.after (Watched.step .plain smallOptions) (Watched.init smallOptions)
      (arriving 0 1 ++ registering 0 0 ++ arriving 1 2 ++ [.linkClosed 0])
    w.told 1 0 ∨ w.detachedBy 0 = some 1 := by
  intro w
  have hrun : Run.Within (Watched.step .plain smallOptions) (Watched.Current .plain)
      (Watched.init smallOptions) (arriving 0 1 ++ registering 0 0 ++ arriving 1 2 ++ [.linkClosed 0]) :=
    ⟨trivial, trivial, trivial, trivial, fun hf => absurd hf (by decide +kernel),
      fun hf => absurd hf (by decide +kernel), trivial, trivial, trivial, trivial⟩
  have h := (no_session_stranded .plain smallOptions _).2.mpr hrun
  have hu : w.server.Unheld 0 := by decide +kernel
  have hm : w.server.MayAttach 1 0 :=
    { listed := by decide +kernel
      authed := by decide +kernel
      up := by decide +kernel
      instanceId := by decide +kernel }
  exact h _ (List.prefix_refl _) 1 0 hu hm

/-- The first link lets go of a socket that is still registering and claims it again; a newer one
takes it over and is lost. -/
def handedRound : List Event :=
  let dial : Event := .frame 0 (.connect (.toHost "i:1" "irc.example" 6667))
  arriving 0 1 ++ [dial, .frame 0 (.detach "i:1"), dial] ++ arriving 1 2 ++
    [.frame 1 (.connect (.toHost "i:1" "irc.example" 6667)), .linkClosed 1,
      .opened 0 someEndpoint someEndpoint, .line 0 ":srv 001 me :hi"]

/-- When the socket registers, the first link is not told of it. -/
theorem released_link_unheard :
    ¬ (Run.after (Watched.step .plain smallOptions) (Watched.init smallOptions)
      (handedRound ++ [.line 0 ":srv 376 me :end"])).Reached := by
  rw [Run.after_concat]
  refine Watched.Reached.not_step ?_ fun hc => ?_
  · exact Run.invariant (Watched.step .plain smallOptions) (P := fun w => w.server.Wf)
      (wf_init smallOptions) (fun _ e h => step_wf h e) handedRound
  · have hby := hc (by decide +kernel) 0
      { listed := by decide +kernel
        authed := by decide +kernel
        up := by decide +kernel
        instanceId := by decide +kernel } (by decide +kernel)
    exact absurd hby (by decide +kernel)

end

end Lurker.Engine.Server
