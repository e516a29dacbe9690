import Lurker.Engine.Spares

/-!
# Instances that share an engine

What a link is told does not depend on the sessions of other instances. `Blind`
relates a listener to one from which the sessions of an instance were removed;
every frame of another instance's link keeps the two in step, and writes the
same frames to every link.
-/

namespace Lurker.Engine

/-- The socket a frame is written for, when it is not a reply. -/
def Origin.socket? : Origin → Option SocketId
  | .reply _ => none
  | .socket n _ => some n
  | .notice n => some n

/-- A link without its claims. -/
def AppLink.bare (k : AppLink) : AppLink := { k with claimed := [] }

namespace Server

/-- Whether the socket `n` belongs to some other instance than `j`. -/
def others (s : Server) (j : String) (n : SocketId) : Bool := (s.upstream n).opts.instanceId ≠ j

/-- The listener without the sessions of `j`, whatever the shared budget then says. -/
def without (s : Server) (j : String) (budget : ByteBudget SocketId) : Server :=
  { s with
    upstreams := s.upstreams.filterValues (s.others j)
    upstream := fun n => if s.others j n then s.upstream n else (init ⟨"", 0, 0, "", 0⟩).upstream n
    link := fun l => { s.link l with claimed := (s.link l).claimed.filter (s.others j) }
    budget }

/-- `w` is `s` without the sessions of `j`. -/
structure Blind (j : String) (s w : Server) : Prop where
  upstreams : w.upstreams = s.upstreams.filterValues (s.others j)
  upstream : ∀ {n}, s.others j n = true → w.upstream n = s.upstream n
  nextSocket : w.nextSocket = s.nextSocket
  links : w.links = s.links
  now : w.now = s.now
  link : ∀ l, (w.link l).bare = (s.link l).bare
  claims : ∀ {l n}, w.Claims l n ↔ s.Claims l n ∧ s.others j n = true

section

variable {env : Platform} {o : ServerOptions} {j : String} {s w t v : Server} {l : LinkId} {k : Nat}
  {n m : SocketId} {id : String}

theorem without_blind (s : Server) (j : String) (budget : ByteBudget SocketId) :
    Blind j s (s.without j budget) where
  upstreams := rfl
  upstream h := if_pos h
  nextSocket := rfl
  links := rfl
  now := rfl
  link _ := rfl
  claims := by simp only [Claims, without, List.mem_filter, implies_true]

namespace Blind

theorem get? (h : Blind j s w) (id : String) :
    w.upstreams.get? id = (s.upstreams.get? id).filter (s.others j) := by
  rw [h.upstreams, OrderedMap.get?_filterValues]

theorem get?_eq (h : Blind j s w) (hid : ∀ n, s.upstreams.get? id = some n → s.others j n = true) :
    w.upstreams.get? id = s.upstreams.get? id := by
  rw [h.get?]
  cases hn : s.upstreams.get? id with
  | none => rfl
  | some n => simp [hid n hn]

theorem get?_iff (h : Blind j s w) (hn : s.others j n = true) :
    w.upstreams.get? id = some n ↔ s.upstreams.get? id = some n := by
  rw [h.get?, Option.filter_eq_some_iff]
  exact and_iff_left hn

theorem field {α : Type} (f : AppLink → α) (hf : ∀ k, f k.bare = f k) (h : Blind j s w) (l : LinkId) :
    f (w.link l) = f (s.link l) := by
  rw [← hf (w.link l), h.link, hf]

theorem instanceId (h : Blind j s w) (l : LinkId) : (w.link l).instanceId = (s.link l).instanceId :=
  h.field (·.instanceId) (fun _ => rfl) l

theorem claims_iff (h : Blind j s w) (hn : s.others j n = true) : w.Claims l n ↔ s.Claims l n :=
  h.claims.trans (and_iff_left hn)

theorem holderOf (h : Blind j s w) (hn : s.others j n = true) (except : Option LinkId) :
    w.holderOf n except = s.holderOf n except := by
  unfold Server.holderOf
  rw [h.links]
  congr 1
  funext l
  rw [show decide (n ∈ (w.link l).claimed) = decide (n ∈ (s.link l).claimed) from
    decide_eq_decide.mpr (h.claims_iff hn)]

theorem modifyLink (h : Blind j s w) (l : LinkId) {f : AppLink → AppLink}
    (hf : ∀ k, (f k).bare = (f k.bare).bare)
    (hc : ∀ {n}, n ∈ (f (w.link l)).claimed ↔ n ∈ (f (s.link l)).claimed ∧ s.others j n = true) :
    Blind j (s.modifyLink l f) (w.modifyLink l f) where
  upstreams := h.upstreams
  upstream := h.upstream
  nextSocket := h.nextSocket
  links := h.links
  now := h.now
  link l' := by
    rw [modifyLink_link, modifyLink_link]
    split
    · rw [hf, h.link, ← hf]
    · exact h.link l'
  claims {l' n} := by
    rw [Claims, Claims, modifyLink_link, modifyLink_link]
    split
    · exact hc
    · exact h.claims

theorem bare_write (k : AppLink) (fs : List Sent) : (k.write fs).bare = (k.bare.write fs).bare := by
  unfold AppLink.write
  cases hk : k.destroyed <;> simp [AppLink.bare, hk]

theorem write (h : Blind j s w) (l : LinkId) (fs : List Sent) :
    Blind j (s.modifyLink l (·.write fs)) (w.modifyLink l (·.write fs)) :=
  h.modifyLink l (bare_write · fs) (by rw [write_claimed, write_claimed]; exact h.claims)

theorem send (h : Blind j s w) (l : LinkId) (origin : Origin) (f : EngineToApp) :
    Blind j (s.send l origin f) (w.send l origin f) := h.write l _

theorem claim (h : Blind j s w) (l : LinkId) (hn : s.others j n = true) :
    Blind j (s.claim l n) (w.claim l n) := by
  have hb : ∀ k : AppLink, (k.claim n).bare = k.bare := by
    intro k
    unfold AppLink.claim
    split <;> rfl
  refine h.modifyLink l (fun k => (hb k).trans ((hb k.bare).trans rfl).symm) (fun {m} => ?_)
  have hk : ∀ k : AppLink, m ∈ (k.claim n).claimed ↔ m ∈ k.claimed ∨ m = n := by
    intro k
    unfold AppLink.claim
    split
    · rename_i hn
      exact ⟨.inl, fun h' => h'.elim id (fun h'' => h'' ▸ hn)⟩
    · simp
  rw [hk, hk]
  constructor
  · rintro (hc | rfl)
    · exact ⟨.inl (h.claims.mp hc).1, (h.claims.mp hc).2⟩
    · exact ⟨.inr rfl, hn⟩
  · rintro ⟨hc | hc, hm⟩
    · exact .inl (h.claims.mpr ⟨hc, hm⟩)
    · exact .inr hc

theorem unclaim (h : Blind j s w) (l : LinkId) (n : SocketId) :
    Blind j (s.unclaim l n) (w.unclaim l n) := by
  refine h.modifyLink l (fun k => rfl) (fun {m} => ?_)
  simp only [AppLink.unclaim, List.mem_filter]
  exact (and_congr_left' h.claims).trans and_right_comm

theorem unclaimAll (h : Blind j s w) (n : SocketId) : Blind j (s.unclaimAll n) (w.unclaimAll n) where
  upstreams := h.upstreams
  upstream := h.upstream
  nextSocket := h.nextSocket
  links := h.links
  now := h.now
  link l := by
    simp only [Server.unclaimAll, h.links]
    split
    · exact h.link l
    · exact h.link l
  claims {l m} := by
    simp only [Claims, Server.unclaimAll, h.links]
    split
    · simp only [AppLink.unclaim, List.mem_filter]
      exact (and_congr_left' h.claims).trans and_right_comm
    · exact h.claims

theorem setUpstream (h : Blind j s w) {u : Upstream}
    (hu : u.opts.instanceId = (s.upstream n).opts.instanceId) :
    Blind j (s.setUpstream n u) (w.setUpstream n u) := by
  have ho : (s.setUpstream n u).others j = s.others j := by
    funext m
    simp only [others, setUpstream_upstream]
    split
    · rename_i hm; rw [hm, hu]
    · rfl
  refine ⟨?_, fun {m} hm => ?_, h.nextSocket, h.links, h.now, h.link, ?_⟩
  · rw [ho]; exact h.upstreams
  · rw [ho] at hm
    rw [setUpstream_upstream, setUpstream_upstream, h.upstream hm]
  · rw [ho]; exact h.claims

theorem modifyUpstream (h : Blind j s w) (hn : s.others j n = true) {f : Upstream → Upstream}
    (hf : (f (s.upstream n)).opts.instanceId = (s.upstream n).opts.instanceId) :
    Blind j (s.modifyUpstream n f) (w.modifyUpstream n f) := by
  rw [Server.modifyUpstream, Server.modifyUpstream, h.upstream hn]
  exact h.setUpstream hf

theorem deliver (h : Blind j s w) (hn : s.others j n = true)
    {op : (Nat → Bool) → Upstream → Upstream.Delivery}
    (hop : ∀ ok u, (op ok u).1.opts.instanceId = u.opts.instanceId) :
    Blind j (s.deliver n op) (w.deliver n op) := by
  have htakes : ∀ l, (w.link l).takes = (s.link l).takes := h.field (·.takes) (fun _ => rfl)
  simp only [Server.deliver, sinkTakes, h.upstream hn]
  cases hs : (s.upstream n).sink with
  | none => exact h.setUpstream (hop _ _)
  | some l =>
    simp only [Option.elim, htakes, fromSocket, h.upstream hn]
    rw [show decide (n ∈ (w.link l).claimed) = decide (n ∈ (s.link l).claimed) from
      decide_eq_decide.mpr (h.claims_iff hn)]
    exact (h.setUpstream (hop _ _)).write l _

theorem budget (h : Blind j s w) (b b' : ByteBudget SocketId) :
    Blind j { s with budget := b } { w with budget := b' } :=
  ⟨h.upstreams, h.upstream, h.nextSocket, h.links, h.now, h.link, h.claims⟩

theorem delete (h : Blind j s w) (id : String) :
    Blind j { s with upstreams := s.upstreams.delete id }
      { w with upstreams := w.upstreams.delete id } where
  upstreams := by
    change w.upstreams.delete id = (s.upstreams.delete id).filterValues (s.others j)
    rw [h.upstreams, OrderedMap.filterValues_delete]
  upstream := h.upstream
  nextSocket := h.nextSocket
  links := h.links
  now := h.now
  link := h.link
  claims := h.claims

theorem others_setUpstream {u : Upstream} (hu : u.opts.instanceId = (s.upstream n).opts.instanceId) :
    (s.setUpstream n u).others j = s.others j := by
  funext m
  simp only [others, setUpstream_upstream]
  split
  · rename_i hm; rw [hm, hu]
  · rfl

theorem others_deliver {op : (Nat → Bool) → Upstream → Upstream.Delivery}
    (hop : ∀ ok u, (op ok u).1.opts.instanceId = u.opts.instanceId) :
    (s.deliver n op).others j = s.others j := by
  funext m
  simp only [others, deliver_upstream]
  split
  · rename_i hm; rw [hm, hop]
  · rfl

theorem onClose_instanceId (u : Upstream) : u.onClose.1.opts.instanceId = u.opts.instanceId := by
  unfold Upstream.onClose
  split <;> rfl

theorem onUpstreamClose (h : Blind j s w) (hn : s.others j n = true) :
    Blind j (s.onUpstreamClose n) (w.onUpstreamClose n) := by
  simp only [Server.onUpstreamClose, h.upstream hn]
  split
  · exact h
  · have hd := h.deliver hn (fun _ u => onClose_instanceId u)
    have hn' : (s.deliver n (fun _ u => u.onClose)).others j n = true := by
      rw [others_deliver (fun _ u => onClose_instanceId u)]; exact hn
    rw [hd.upstream hn']
    generalize s.deliver n (fun _ u => u.onClose) = s' at hd hn' ⊢
    generalize w.deliver n (fun _ u => u.onClose) = w' at hd ⊢
    have hb := hd.budget (s'.budget.unregister n) (w'.budget.unregister n)
    refine unclaimAll ?_ n
    by_cases hg : s'.upstreams.get? (s'.upstream n).id = some n
    · rw [if_pos hg, if_pos ((hd.get?_iff hn').mpr hg)]
      exact hb.delete _
    · rw [if_neg hg, if_neg (fun h' => hg ((hd.get?_iff hn').mp h'))]
      exact hb

theorem closeUpstream (h : Blind j s w) (hn : s.others j n = true) :
    Blind j (s.closeUpstream n) (w.closeUpstream n) := by
  have hk := (Upstream.keeps_close (s.upstream n)).instanceId
  have ht := h.setUpstream (u := (s.upstream n).close.1) hk
  simp only [Server.closeUpstream, h.upstream hn]
  split
  · refine ht.onUpstreamClose ?_
    rw [others_setUpstream hk]; exact hn
  · exact ht

theorem others_onUpstreamClose : (s.onUpstreamClose n).others j = s.others j := by
  by_cases hst : (s.upstream n).state = .closed
  · rw [Server.onUpstreamClose, if_pos hst]
  · funext m
    simp only [others, (onUpstreamClose_spec hst).2.2.2.2.2.1]
    split
    · rename_i hm; rw [hm, onClose_instanceId]
    · rfl

theorem others_closeUpstream : (s.closeUpstream n).others j = s.others j := by
  have hk := others_setUpstream (j := j) (Upstream.keeps_close (s.upstream n)).instanceId
  simp only [Server.closeUpstream]
  split
  · exact others_onUpstreamClose.trans hk
  · exact hk

theorem silence (h : Blind j s w) (hn : s.others j n = true) :
    Blind j (s.silence n) (w.silence n) := by
  rw [Server.silence, Server.silence, h.now]
  refine h.modifyUpstream hn ?_
  exact congrArg (·.instanceId) (Upstream.sameSocket_silence (s.upstream n) s.now).1.opts

theorem others_silence : (s.silence n).others j = s.others j :=
  others_setUpstream
    (congrArg (·.instanceId) (Upstream.sameSocket_silence (s.upstream n) s.now).1.opts)

theorem retire (h : Blind j s w) (hn : s.others j n = true) : Blind j (s.retire n) (w.retire n) :=
  (h.unclaimAll n).silence hn

/-- A socket of another instance is created under an id that is not `j`'s. -/
theorem created (h : Blind j s w) (hs : s.Wf) {u : Upstream} (hu : u.opts.instanceId ≠ j)
    (hid : ∀ n, s.upstreams.get? id = some n → s.others j n = true) (b b' : ByteBudget SocketId) :
    Blind j
      { s with
        nextSocket := s.nextSocket + 1
        upstream := Function.update s.upstream s.nextSocket u
        budget := b
        upstreams := s.upstreams.set id s.nextSocket }
      { w with
        nextSocket := s.nextSocket + 1
        upstream := Function.update w.upstream s.nextSocket u
        budget := b'
        upstreams := w.upstreams.set id s.nextSocket } := by
  generalize ht : ({ s with
        nextSocket := s.nextSocket + 1
        upstream := Function.update s.upstream s.nextSocket u
        budget := b
        upstreams := s.upstreams.set id s.nextSocket } : Server) = t
  have hother : ∀ {m}, m ≠ s.nextSocket → t.others j m = s.others j m := by
    intro m hm
    simp only [← ht, others, Function.update_of_ne hm]
  have hself : t.others j s.nextSocket = true := by
    simp only [← ht, others, Function.update_self, decide_eq_true_eq]
    exact hu
  have hmap : t.upstreams = s.upstreams.set id s.nextSocket := by rw [← ht]
  have hup : t.upstream = Function.update s.upstream s.nextSocket u := by rw [← ht]
  have hold : ∀ i m, s.upstreams.get? i = some m → t.others j m = s.others j m := by
    intro i m hm
    refine hother ?_
    rintro rfl
    exact hs.fresh (Nat.le_refl _) hm
  refine ⟨?_, fun {m} hm => ?_, by rw [← ht], by rw [← ht]; exact h.links,
    by rw [← ht]; exact h.now, fun l => by rw [← ht]; exact h.link l, fun {l m} => ?_⟩
  · rw [hmap, OrderedMap.filterValues_set hself (fun m hm => (hold _ m hm).trans (hid m hm)),
      OrderedMap.filterValues_congr hold]
    exact congrArg (OrderedMap.set · id s.nextSocket) h.upstreams
  · rw [hup]
    change Function.update w.upstream s.nextSocket u m = _
    by_cases hne : m = s.nextSocket
    · rw [hne, Function.update_self, Function.update_self]
    · rw [Function.update_of_ne hne, Function.update_of_ne hne]
      exact h.upstream (hother hne ▸ hm)
  · have hl : t.link = s.link := by rw [← ht]
    rw [show t.Claims l m ↔ s.Claims l m by rw [Claims, Claims, hl]]
    refine h.claims.trans (and_congr_right fun hc => ?_)
    rw [hother]
    rintro rfl
    exact hs.fresh_claims (Nat.le_refl _) hc

theorem newUpstream (h : Blind j s w) (dial : DialRequest) :
    w.newUpstream env o l k dial = s.newUpstream env o l k dial := by
  simp only [Server.newUpstream, h.nextSocket, h.instanceId l, h.now]

theorem startDial (h : Blind j s w) (hs : s.Wf) (hl : (s.link l).instanceId ≠ j) {dial : DialRequest}
    (hid : ∀ n, s.upstreams.get? dial.id = some n → s.others j n = true) :
    Blind j (s.startDial env o l k dial) (w.startDial env o l k dial) := by
  have hc := h.created hs (u := s.newUpstream env o l k dial) hl hid
    (s.budget.register s.nextSocket) (w.budget.register s.nextSocket)
  simp only [Server.startDial, h.newUpstream, h.nextSocket]
  refine (hc.claim l ?_).send l _ _
  simp only [others, Function.update_self, decide_eq_true_eq]
  exact hl

theorem dialAfresh (h : Blind j s w) (hs : s.Wf) (hl : (s.link l).instanceId ≠ j)
    {dial : DialRequest} (hid : ∀ n, s.upstreams.get? dial.id = some n → s.others j n = true) :
    Blind j (s.dialAfresh env o l k dial) (w.dialAfresh env o l k dial) := by
  have ht := @startDial env o _ _ _ _ k h hs hl _ hid
  simp only [Server.dialAfresh, h.newUpstream, h.nextSocket]
  split
  · rename_i u hd
    refine ht.setUpstream ?_
    rw [startDial_upstream, if_pos rfl]
    exact (Upstream.dial_spec hd).2.1
  · exact ((ht.delete dial.id).unclaim l s.nextSocket).send l _ _

/-- A contest over a session comes out the same way. -/
theorem contest (h : Blind j s w) (hn : s.others j n = true) :
    Blind j (s.contest l n).1 (w.contest l n).1 ∧ (w.contest l n).2 = (s.contest l n).2 := by
  have hg : ∀ l, (w.link l).generation = (s.link l).generation :=
    h.field (·.generation) (fun _ => rfl)
  simp only [Server.contest, h.holderOf hn, h.upstream hn]
  cases s.holderOf n (some l) with
  | none => exact ⟨h, rfl⟩
  | some other =>
    simp only [hg]
    split
    · exact ⟨h, rfl⟩
    · exact ⟨(h.unclaim other n).send other _ _, rfl⟩

theorem attachTo (h : Blind j s w) (hn : s.others j n = true) :
    Blind j (s.attachTo l k n).1 (w.attachTo l k n).1 ∧
      (w.attachTo l k n).2 = (s.attachTo l k n).2 := by
  have hu : (w.claim l n).upstream n = (s.claim l n).upstream n := h.upstream hn
  simp only [Server.attachTo, hu]
  rw [show (w.claim l n).now = (s.claim l n).now from h.now]
  refine ⟨(h.claim l hn).setUpstream ?_, rfl⟩
  exact congrArg (·.instanceId) (Upstream.sameSocket_attach _ _ _ _).1.opts

theorem others_attachTo : (s.attachTo l k n).1.others j = s.others j :=
  others_setUpstream (s := s.claim l n)
    (congrArg (·.instanceId) (Upstream.sameSocket_attach _ _ _ _).1.opts)

theorem handOver (h : Blind j s w) (hn : s.others j n = true) (payload : AttachedPayload) :
    Blind j (s.handOver env l k n payload) (w.handOver env l k n payload) := by
  simp only [Server.handOver, h.upstream hn]
  split
  · have hc := (h.unclaim l n).silence hn
    refine (hc.closeUpstream ?_).send l _ _
    rw [others_silence]; exact hn
  · refine (h.send l _ _).deliver hn (fun ok u => ?_)
    exact congrArg (·.instanceId) (Upstream.flushAfterAttach_emits ok u).sameSocket.1.opts

/-- Ending a session and dialing another under its id. -/
theorem close_dial (h : Blind j s w) (hs : s.Wf) (hl : (s.link l).instanceId ≠ j)
    {dial : DialRequest} (hn : s.others j n = true) (hid : s.upstreams.get? dial.id = some n) :
    Blind j (((s.retire n).closeUpstream n).dialAfresh env o l k dial)
      (((w.retire n).closeUpstream n).dialAfresh env o l k dial) := by
  have hr : others (s.retire n) j = s.others j := others_silence (s := s.unclaimAll n)
  have hc := (h.retire hn).closeUpstream (hr ▸ hn)
  have hw : Calms env o none s ((s.retire n).closeUpstream n) := retire_close_calms
  refine hc.dialAfresh (hw.wf hs) ?_ (fun m hm => ?_)
  · rw [(closeUpstream_links.2 l).2]
    change ((s.unclaimAll n).link l).instanceId ≠ j
    rw [unclaimAll_link.2.1]
    exact hl
  · obtain rfl := Option.some.inj ((closeUpstream_get hm).symm.trans hid)
    rw [others_closeUpstream, hr]
    exact hn

theorem attachHeld (h : Blind j s w) (hs : s.Wf) {dial : DialRequest} (hk : l ∈ s.links)
    (ha : (s.link l).authed = true) (hl : (s.link l).instanceId ≠ j)
    (hid : s.upstreams.get? dial.id = some n)
    (hi : (s.upstream n).opts.instanceId = (s.link l).instanceId) :
    Blind j (s.attachHeld env o l k n dial) (w.attachHeld env o l k n dial) := by
  have hn : s.others j n = true := by simp only [others, hi]; exact decide_eq_true hl
  obtain ⟨hc, hr⟩ := h.contest (l := l) hn
  cases hw : s.contest l n with
  | mk t r =>
    cases hw' : w.contest l n with
    | mk t' r' =>
      rw [hw, hw'] at hc
      rw [hw, hw'] at hr
      simp only at hc hr
      subst hr
      cases r' with
      | some other =>
        simp only [Server.attachHeld, hw, hw']
        exact hc.send l _ _
      | none =>
        obtain ⟨hat, -⟩ := @attached_calms env o (some (l, k)) s _ l k _ rfl hs _ hk ha hid hi hw
        have hv := hat.wf hs
        obtain ⟨hup, hmap, -, -, -, -, hlink⟩ := contest_upstream hw
        have hcl : (t.attachTo l k n).1.Claims l n := (claims_attachTo hs hw k).mpr (.inr ⟨rfl, rfl⟩)
        have hot : t.others j = s.others j := by funext m; simp only [others, hup]
        have hb := hc.attachTo (k := k) (l := l) (hot ▸ hn)
        have ho : (t.attachTo l k n).1.others j n = true := by
          rw [others_attachTo, hot]; exact hn
        have hi' : ((t.attachTo l k n).1.link l).instanceId ≠ j := by
          rw [(attachTo_spec k).2.2, claim_link.2.1, (hlink l).2.1]
          exact hl
        have hmap' : (t.attachTo l k n).1.upstreams.get? dial.id = some n := by
          change t.upstreams.get? dial.id = _
          rw [hmap]; exact hid
        simp only [Server.attachHeld, hw, hw']
        generalize t.attachTo l k n = p at hv hcl hb ho hi' hmap' ⊢
        generalize t'.attachTo l k n = p' at hb ⊢
        obtain ⟨v, a⟩ := p
        obtain ⟨v', a'⟩ := p'
        obtain ⟨hb, ha'⟩ := hb
        simp only at hb ha'
        subst ha'
        cases a' with
        | dialing => exact hb.send l _ _
        | unregistered =>
          have hu : Blind j ((v.unclaim l n).silence n) ((v'.unclaim l n).silence n) :=
            (hb.unclaim l n).silence ho
          have hos : ((v.unclaim l n).silence n).others j = v.others j :=
            others_silence (s := v.unclaim l n)
          refine (hu.closeUpstream (hos ▸ ho)).dialAfresh ?_ ?_ (fun m hm => ?_)
          · rw [unclaim_silence hv hcl]
            exact (@retire_close_calms env o none _ _).wf hv
          · rw [(closeUpstream_links.2 l).2]
            change ((v.unclaim l n).link l).instanceId ≠ j
            rw [unclaim_link.2.1]
            exact hi'
          · have hm' : v.upstreams.get? dial.id = some m :=
              closeUpstream_get (s := (v.unclaim l n).silence n) hm
            obtain rfl := Option.some.inj (hm'.symm.trans hmap')
            rw [others_closeUpstream, hos]
            exact ho
        | payload q => exact hb.handOver ho q

theorem connect (h : Blind j s w) (hs : s.Wf) (hk : l ∈ s.links) (ha : (s.link l).authed = true)
    (hl : (s.link l).instanceId ≠ j) (frame : ConnectFrame)
    (hid : ∀ n i, frame.id = some i → s.upstreams.get? i = some n → s.others j n = true) :
    Blind j (s.connect env o l k frame) (w.connect env o l k frame) := by
  unfold Server.connect
  cases hv : validateConnect env frame with
  | error message => exact h.send l _ _
  | ok dial =>
    have hd := fun n => hid n dial.id (validateConnect_id hv).1
    simp only [h.get?_eq hd]
    cases hn : s.upstreams.get? dial.id with
    | none => exact h.dialAfresh hs hl hd
    | some n =>
      have ho := hd n hn
      simp only [h.upstream ho, h.instanceId l]
      split
      · exact h.send l _ _
      · rename_i hi
        split
        · have hr : Server.others (s.retire n) j = s.others j := others_silence (s := s.unclaimAll n)
          refine (h.retire ho).dialAfresh (hs.retire n) ?_ (fun m hm => ?_)
          · change ((s.unclaimAll n).link l).instanceId ≠ j
            rw [unclaimAll_link.2.1]
            exact hl
          · rw [hr]
            exact hd m hm
        · split
          · exact h.close_dial hs hl ho hn
          · exact h.attachHeld hs hk ha hl hn (not_not.mp hi)

theorem isSession (h : Blind j s w) (hn : s.others j n = true) : w.isSession n = s.isSession n := by
  simp only [Server.isSession, h.upstream hn]

theorem offerOne (h : Blind j s w) (hn : s.others j n = true) (except : Option LinkId) :
    Blind j (s.offerOne n except) (w.offerOne n except) := by
  have hto : ∀ l, w.offersTo n except l = s.offersTo n except l := by
    intro l
    simp only [offersTo, h.upstream hn, h.instanceId l, h.field (·.authed) (fun _ => rfl) l,
      h.field (·.destroyed) (fun _ => rfl) l]
  simp only [Server.offerOne, h.isSession hn, h.holderOf hn, h.links, hto, h.upstream hn]
  split
  · refine ⟨h.upstreams, h.upstream, h.nextSocket, rfl, h.now, fun l => ?_, fun {l m} => ?_⟩
    · simp only
      split
      · rw [bare_write, h.link, ← bare_write]
      · exact h.link l
    · simp only [Claims]
      split
      · rw [write_claimed, write_claimed]; exact h.claims
      · exact h.claims
  · exact h

theorem release (h : Blind j s w) (l : LinkId) (hn : s.others j n = true) :
    Blind j (s.release l n) (w.release l n) := by
  have hc : n ∈ (w.link l).claimed ↔ n ∈ (s.link l).claimed := h.claims_iff hn
  have hd : ((s.upstream n).detach s.now).opts.instanceId = (s.upstream n).opts.instanceId :=
    congrArg (·.instanceId) (Upstream.sameSocket_detach (s.upstream n) s.now).1.opts
  have hlet : Blind j (s.letGo l n) (w.letGo l n) := by
    have hb : Blind j ((s.unclaim l n).modifyUpstream n (·.detach s.now))
        ((w.unclaim l n).modifyUpstream n (·.detach w.now)) := by
      rw [h.now]
      exact (h.unclaim l n).modifyUpstream hn hd
    exact ⟨hb.upstreams, fun hm => hb.upstream hm, hb.nextSocket, hb.links, hb.now, hb.link, hb.claims⟩
  have ho : (s.letGo l n).others j = s.others j :=
    others_setUpstream (s := s.unclaim l n) hd
  unfold Server.release
  by_cases hcl : n ∈ (s.link l).claimed
  · rw [if_pos hcl, if_pos (hc.mpr hcl)]
    exact hlet.offerOne (ho ▸ hn) (some l)
  · rw [if_neg hcl, if_neg (fun h' => hcl (hc.mp h'))]
    exact h

theorem drive (h : Blind j s w) (l : LinkId) (hn : s.others j n = true) (op : SocketOp) :
    Blind j (s.drive l n op) (w.drive l n op) := by
  cases op with
  | write line =>
    exact h.modifyUpstream (f := (·.write line)) hn (Upstream.keeps_rawWrite _ line).instanceId
  | ack seq => exact h.modifyUpstream (f := (·.ack seq)) hn rfl
  | detach => exact h.release l hn
  | close => exact h.closeUpstream hn

theorem socketOp (h : Blind j s w) (l : LinkId) (op : SocketOp)
    (hid : ∀ n, s.upstreams.get? id = some n → s.others j n = true) :
    Blind j (s.socketOp l k id op) (w.socketOp l k id op) := by
  simp only [Server.socketOp, h.get?_eq hid]
  cases hn : s.upstreams.get? id with
  | none => exact h.send l _ _
  | some n =>
    have ho := hid n hn
    have hc : n ∈ (w.link l).claimed ↔ n ∈ (s.link l).claimed := h.claims_iff ho
    simp only [h.upstream ho, h.instanceId l]
    split
    · exact h.send l _ _
    · by_cases hcl : n ∈ (s.link l).claimed
      · rw [if_pos hcl, if_pos (hc.mpr hcl)]
        exact h.drive l ho op
      · rw [if_neg hcl, if_neg (fun h' => hcl (hc.mp h'))]
        cases op with
        | write line => exact h.send l _ _
        | detach => exact h.send l _ _
        | ack seq => exact h.drive l ho _
        | close =>
          obtain ⟨hb, hr⟩ := h.contest (l := l) ho
          have hot : (s.contest l n).1.others j n = true := by
            simp only [Server.contest]
            split
            · exact ho
            · split <;> exact ho
          simp only
          generalize s.contest l n = p at hb hr hot ⊢
          generalize w.contest l n = p' at hb hr ⊢
          obtain ⟨t, r⟩ := p
          obtain ⟨t', r'⟩ := p'
          simp only at hb hr hot
          subst hr
          cases r' with
          | some other => exact hb.send l _ _
          | none =>
            refine (hb.silence hot).drive l ?_ _
            rw [others_silence]; exact hot

/-- What a hello lists does not depend on another instance's sessions. -/
theorem heldFor (h : Blind j s w) (hl : (s.link l).instanceId ≠ j) : w.heldFor l = s.heldFor l := by
  have hother : ∀ n, (s.upstream n).opts.instanceId = (s.link l).instanceId → s.others j n = true := by
    intro n hn
    simp only [others, hn]
    exact decide_eq_true hl
  have hmine : w.upstreams.values.filter
        (fun n => (w.upstream n).opts.instanceId = (w.link l).instanceId) =
      s.upstreams.values.filter
        (fun n => (s.upstream n).opts.instanceId = (s.link l).instanceId) := by
    rw [h.upstreams, OrderedMap.values_filterValues, List.filter_filter]
    refine List.filter_congr fun n _ => ?_
    rw [h.instanceId l]
    by_cases hn : s.others j n = true
    · rw [h.upstream hn, hn, Bool.and_true]
    · have hne : ¬ (s.upstream n).opts.instanceId = (s.link l).instanceId :=
        fun he => hn (hother n he)
      simp [hn, hne]
  unfold Server.heldFor
  rw [hmine]
  have hmem : ∀ n ∈ s.upstreams.values.filter
      (fun n => (s.upstream n).opts.instanceId = (s.link l).instanceId), s.others j n = true :=
    fun n hn => hother n (by simpa using (List.mem_filter.mp hn).2)
  rw [List.filter_congr (fun n hn => by rw [h.isSession (hmem n hn), h.holderOf (hmem n hn)])]
  refine List.map_congr_left fun n hn => ?_
  rw [h.upstream (hmem n (List.mem_of_mem_filter hn))]

theorem hello (h : Blind j s w) (f : HelloFrame) (hf : f.instanceId ≠ some j) :
    Blind j (s.hello env o l k f) (w.hello env o l k f) := by
  unfold Server.hello
  split
  · exact (h.send l _ _).modifyLink l (fun _ => rfl) (h.send l _ _).claims
  · rename_i hp
    have ha : Blind j (s.authenticate l f) (w.authenticate l f) :=
      h.modifyLink l (fun _ => rfl) h.claims
    have hl : ((s.authenticate l f).link l).instanceId ≠ j := by
      simp only [authenticate, modifyLink_link, ↓reduceIte]
      have hsome : (f.instanceId.filter (· ≠ "")).isSome = true := by
        unfold helloProblem at hp
        split at hp
        · cases hp
        · split at hp
          · cases hp
          · split at hp
            · cases hp
            · rename_i hi
              rw [← Option.not_isNone, Bool.eq_false_iff.mpr hi]
              rfl
      obtain ⟨i, hi⟩ := Option.isSome_iff_exists.mp hsome
      rw [(Option.filter_eq_some_iff.mp hi).1]
      exact fun he => hf (by rw [(Option.filter_eq_some_iff.mp hi).1]; exact congrArg some he)
    simp only [ha.heldFor hl]
    exact ha.send l _ _

/-- A frame that is neither a listing's nor about one of `j`'s sessions has the
same effect on both listeners. -/
theorem dispatch (h : Blind j s w) (hs : s.Wf) (hk : l ∈ s.links)
    (hl : (s.link l).authed = true → (s.link l).instanceId ≠ j) {frame : AppToEngine}
    (hello : (s.link l).authed = false → ∀ f, frame = .hello f → f.instanceId ≠ some j)
    (hlist : frame ≠ .list)
    (hid : (s.link l).authed = true → ∀ i n, frame.names = some i →
      s.upstreams.get? i = some n → s.others j n = true) :
    Blind j (s.dispatch env o l k frame) (w.dispatch env o l k frame) := by
  simp only [Server.dispatch, h.field (·.authed) (fun _ => rfl) l]
  by_cases ha : (s.link l).authed = true
  · replace hid := hid ha
    simp only [ha, ↓reduceIte]
    cases frame with
    | hello f => exact h
    | ping => exact h.send l _ _
    | pong => exact h
    | connect f => exact h.connect hs hk ha (hl ha) f (fun n i => hid i n)
    | list => exact absurd rfl hlist
    | write id line => exact h.socketOp l _ (fun n => hid id n rfl)
    | ack id seq => exact h.socketOp l _ (fun n => hid id n rfl)
    | detach id => exact h.socketOp l _ (fun n => hid id n rfl)
    | close id => exact h.socketOp l _ (fun n => hid id n rfl)
    | unknown op => exact h.send l _ _
  · have hr := (h.send l (.reply k) (.error none "hello first")).modifyLink l (f := (·.destroy))
      (fun _ => rfl) (h.send l (.reply k) (.error none "hello first")).claims
    simp only [ha]
    cases frame with
    | hello f => exact h.hello f (hello (Bool.eq_false_iff.mpr ha) f rfl)
    | _ => exact hr

/-- The same for the whole step that reads the frame. -/
theorem frame (h : Blind j s w) (hs : s.Wf)
    (hl : (s.link l).authed = true → (s.link l).instanceId ≠ j) {frame : AppToEngine}
    (hello : (s.link l).authed = false → ∀ f, frame = .hello f → f.instanceId ≠ some j)
    (hlist : frame ≠ .list)
    (hid : (s.link l).authed = true → ∀ i n, frame.names = some i →
      s.upstreams.get? i = some n → s.others j n = true) :
    Blind j (s.step env o (.frame l frame)) (w.step env o (.frame l frame)) := by
  simp only [step, onFrame, h.links, h.field (·.destroyed) (fun _ => rfl) l,
    h.field (·.read) (fun _ => rfl) l]
  split
  · rename_i hread
    have hr : Blind j (s.modifyLink l (·.readOne)) (w.modifyLink l (·.readOne)) :=
      h.modifyLink l (fun _ => rfl) h.claims
    have ha := s.alike_modifyLink l (f := (·.readOne)) (fun _ => ⟨rfl, rfl, rfl⟩)
    refine hr.dispatch (ha.wf hs) hread.1 ?_ ?_ hlist ?_
    · rw [(ha.link l).2.1, (ha.link l).2.2]
      exact hl
    · rw [(ha.link l).2.1]
      exact hello
    · rw [(ha.link l).2.1]
      exact hid
  · exact h

end Blind

/-- What a link and a socket are known by does not change. -/
structure Steady (s t : Server) : Prop where
  nextSocket : s.nextSocket ≤ t.nextSocket
  upstream : ∀ n, n < s.nextSocket → (t.upstream n).id = (s.upstream n).id ∧
    (t.upstream n).opts.instanceId = (s.upstream n).opts.instanceId
  link : ∀ l, (s.link l).authed = true →
    (t.link l).authed = true ∧ (t.link l).instanceId = (s.link l).instanceId ∨ (t.link l).sent = []

theorem Alike.steady (h : s.Alike t) : Steady s t :=
  ⟨Nat.le_of_eq h.nextSocket.symm, fun n _ => ⟨(h.upstream n).1, (h.upstream n).2.1⟩,
    fun l ha => .inl ⟨(h.link l).2.1.trans ha, (h.link l).2.2⟩⟩

/-- A move that changes who listens to which sockets, and no socket itself. -/
theorem Steady.sameSocket (hn : t.nextSocket = s.nextSocket)
    (hu : ∀ n, (s.upstream n).SameSocket (t.upstream n))
    (hl : ∀ l, (t.link l).authed = (s.link l).authed ∧
      (t.link l).instanceId = (s.link l).instanceId) : Steady s t :=
  ⟨Nat.le_of_eq hn.symm, fun n _ => ⟨(hu n).id, congrArg (·.instanceId) (hu n).opts⟩,
    fun l ha => .inl ⟨(hl l).1.trans ha, (hl l).2⟩⟩

theorem retire_steady (n : SocketId) : Steady s (s.retire n) := by
  refine .sameSocket rfl (fun m => ?_) (fun l => ⟨unclaimAll_link.1, unclaimAll_link.2.1⟩)
  rw [retire_upstream]
  split
  · rename_i h; subst h; exact (Upstream.sameSocket_silence _ _).1
  · exact .refl _

theorem Steady.trans (h : Steady s t) (h' : Steady t v)
    (hsent : ∀ l, (t.link l).sent = [] → (v.link l).sent = []) : Steady s v where
  nextSocket := Nat.le_trans h.nextSocket h'.nextSocket
  upstream n hn := by
    obtain ⟨h1, h2⟩ := h.upstream n hn
    obtain ⟨h1', h2'⟩ := h'.upstream n (Nat.lt_of_lt_of_le hn h.nextSocket)
    exact ⟨h1'.trans h1, h2'.trans h2⟩
  link l ha := by
    rcases h.link l ha with ⟨h1, h2⟩ | h1
    · exact (h'.link l h1).imp_left (fun h' => ⟨h'.1, h'.2.trans h2⟩)
    · exact .inr (hsent l h1)

theorem Calm.steady {c : Cause} (h : Calm env o c s t) : Steady s t := by
  cases h with
  | tick now => exact ⟨Nat.le_refl _, fun _ _ => ⟨rfl, rfl⟩, fun _ ha => .inl ⟨ha, rfl⟩⟩
  | read l => exact (s.alike_modifyLink l (f := (·.readOne)) (fun _ => ⟨rfl, rfl, rfl⟩)).steady
  | linkDestroyed l =>
    exact (s.alike_modifyLink l (f := (·.destroy)) (fun _ => ⟨rfl, rfl, rfl⟩)).steady
  | reply hc hf => exact (s.alike_write _ _).steady
  | detached hn => exact (s.alike_write _ _).steady
  | offer n except => exact (s.alike_offerOne n except).steady
  | touch hu hr => exact (s.alike_keeps _ hu (fun _ => hr)).steady
  | opened hn hd hr l r => exact (s.alike_opened _ hd l r).steady
  | flush hn hop => exact (s.alike_flush _ hop).steady
  | push n line => exact (s.alike_push n line).steady
  | ack n seq => exact (s.alike_ack n seq).steady
  | retire hc => exact retire_steady _
  | cut n =>
    exact (retire_steady n).trans ((s.retire n).alike_keeps n (Upstream.keeps_close _)
      (fun _ => Upstream.burstDone_close _)).steady (fun _ h => h)
  | attach hc hl ha hn hi hw =>
    rename_i u l k n
    obtain ⟨hup, -, -, -, hns, -, hlk⟩ := contest_upstream hw
    obtain ⟨hu, -, hk⟩ := attachTo_spec (t := u) (l := l) (n := n) k
    refine .sameSocket hns (fun m => ?_) (fun l' => ?_)
    · rw [hu, hup]
      split
      · rename_i h; subst h; exact (Upstream.sameSocket_attach _ _ _ _).1
      · exact .refl _
    · rw [hk]
      exact ⟨claim_link.1.trans (hlk l').1, claim_link.2.1.trans (hlk l').2.1⟩
  | dial hc hl ha hv =>
    rename_i l k dial
    obtain ⟨u, hup, -⟩ := s.dialAfresh_upstream l env o k dial
    refine ⟨?_, fun n hn => ?_, fun l' ha' => ?_⟩
    · simp only [dialAfresh]
      split <;> exact Nat.le_succ _
    · rw [hup, if_neg (Nat.ne_of_lt hn)]; exact ⟨rfl, rfl⟩
    · obtain ⟨h1, h2, -⟩ := @dialAfresh_link env o s l k dial l'
      exact .inl ⟨h1.trans ha', h2⟩
  | @ended n hn =>
    by_cases hst : (s.upstream n).state = .closed
    · rw [onUpstreamClose, if_pos hst]
      exact ⟨Nat.le_refl _, fun _ _ => ⟨rfl, rfl⟩, fun _ ha => .inl ⟨ha, rfl⟩⟩
    · obtain ⟨-, -, -, hns, -, hu, -⟩ := onUpstreamClose_spec hst
      refine ⟨Nat.le_of_eq hns.symm, fun m _ => ?_, fun l ha => ?_⟩
      · rw [hu]
        split
        · rename_i h
          subst h
          have ho := (Upstream.onClose_spec hst).1
          exact ⟨congrArg (·.dial.id) ho, congrArg (·.instanceId) ho⟩
        · exact ⟨rfl, rfl⟩
      · obtain ⟨h1, h2, -⟩ := onUpstreamClose_link (l := l) hst
        exact .inl ⟨h1.trans ha, h2⟩

theorem Move.steady {c : Cause} (h : Move env o c s t) : Steady s t := by
  cases h with
  | calm h => exact h.steady
  | accept accepts =>
    refine ⟨Nat.le_refl _, fun _ _ => ⟨rfl, rfl⟩, fun l ha => ?_⟩
    rw [accept_link]
    split
    · exact .inr rfl
    · exact .inl ⟨ha, rfl⟩
  | @authenticate l hl ha f =>
    refine ⟨Nat.le_refl _, fun _ _ => ⟨rfl, rfl⟩, fun l' ha' => .inl ?_⟩
    have hne : l' ≠ l := by rintro rfl; rw [ha] at ha'; cases ha'
    rw [Server.authenticate, modifyLink_link, if_neg hne]
    exact ⟨ha', rfl⟩
  | letGo hc h =>
    refine .sameSocket rfl (fun m => ?_) (fun l' => ⟨unclaim_link.1, unclaim_link.2.1⟩)
    rw [letGo_upstream]
    split
    · rename_i h; subst h; exact (Upstream.sameSocket_detach _ _).1
    · exact .refl _
  | dropLink l =>
    obtain ⟨-, hns, -, -, -, hlink, hu⟩ := s.dropLink_spec (l := l)
    refine .sameSocket hns (fun m => ?_) (fun l' => ?_)
    · rw [hu]
      split
      · exact (Upstream.sameSocket_detach _ _).1
      · exact .refl _
    · rw [hlink]
      split
      · rename_i h; subst h; exact ⟨rfl, rfl⟩
      · exact ⟨rfl, rfl⟩
  | registered hu ho =>
    exact (s.alike_keeps _ hu (fun hd => by rw [ho] at hd; cases hd)).steady

/-- A frame about a socket stands on the log of a link of the socket's instance,
and names the socket's id. -/
def Apart (s : Server) : Prop :=
  ∀ l, ∀ x ∈ (s.link l).sent, ∀ n, x.origin.socket? = some n → n < s.nextSocket ∧
    (s.link l).authed = true ∧ (s.upstream n).opts.instanceId = (s.link l).instanceId ∧
    x.frame.about = some (s.upstream n).id

theorem Written.apart {c : Cause} {x : Sent} (h : Written c s l x) (hs : s.Wf) {n : SocketId}
    (hn : x.origin.socket? = some n) : n < s.nextSocket ∧ (s.link l).authed = true ∧
      (s.upstream n).opts.instanceId = (s.link l).instanceId ∧
      x.frame.about = some (s.upstream n).id := by
  cases h with
  | reply hc hf => exact nomatch hn
  | detached h =>
    obtain rfl := Option.some.inj hn
    obtain ⟨-, ha, hm, -, hi⟩ := hs.claims h
    exact ⟨(hs.mapped hm).2.1, ha, hi, rfl⟩
  | held h hl ha hi =>
    obtain rfl := Option.some.inj hn
    exact ⟨(hs.mapped (hs.session_mapped h)).2.1, ha, hi, rfl⟩
  | socket h hf =>
    obtain rfl := Option.some.inj hn
    obtain ⟨-, ha, hm, -, hi⟩ := hs.claims h
    exact ⟨(hs.mapped hm).2.1, ha, hi, hf⟩

theorem Move.apart {c : Cause} (h : Move env o c s t) (hs : s.Wf) (ha : s.Apart) : t.Apart := by
  intro l x hx n hn
  rcases h.grew hs l with ⟨new, hnew, hw⟩ | hnil
  · have hold : n < s.nextSocket ∧ (s.link l).authed = true ∧
        (s.upstream n).opts.instanceId = (s.link l).instanceId ∧
        x.frame.about = some (s.upstream n).id := by
      rw [hnew] at hx
      exact (List.mem_append.mp hx).elim (fun hx => ha l x hx n hn) (fun hx => (hw x hx).apart hs hn)
    obtain ⟨h1, h2, h3, h4⟩ := hold
    obtain ⟨g1, g2⟩ := h.steady.upstream n h1
    obtain ⟨k1, k2⟩ := (h.steady.link l h2).resolve_right (fun h0 => by
      rw [h0] at hx; exact absurd hx List.not_mem_nil)
    exact ⟨Nat.lt_of_lt_of_le h1 h.steady.nextSocket, k1, by rw [g2, h3, k2], by rw [h4, g1]⟩
  · rw [hnil] at hx
    exact absurd hx List.not_mem_nil

theorem run_apart (env : Platform) (o : ServerOptions) (es : List Event) :
    (Run.after (step env o) (init o) es).Apart := by
  refine (Run.invariant (step env o) (P := fun s => s.Wf ∧ s.Apart)
    ⟨wf_init o, fun l x hx => absurd hx List.not_mem_nil⟩ (fun s e hs => ?_) es).2
  exact (step_moves hs.1 e).keep (P := fun s => s.Wf ∧ s.Apart)
    (fun hm hs => ⟨hm.wf hs.1, hm.apart hs.1 hs.2⟩) hs

/-- The frame does not come from a link of `j`, nor make its link one. -/
def Outside (s : Server) (l : LinkId) (frame : AppToEngine) (j : String) : Prop :=
  ((s.link l).authed = true → (s.link l).instanceId ≠ j) ∧
    ((s.link l).authed = false → ∀ f, frame = .hello f → f.instanceId ≠ some j)

/-- The frame names an id under which a session of `j` is held. -/
def Names (s : Server) (frame : AppToEngine) (j : String) : Prop :=
  ∃ i n, frame.names = some i ∧ s.upstreams.get? i = some n ∧ (s.upstream n).opts.instanceId = j

/-- A frame that names another instance's session is answered with an error. -/
theorem dispatch_names (ha : (s.link l).authed = true) {frame : AppToEngine} (hid : frame.names = some id)
    (hn : s.upstreams.get? id = some n)
    (hi : (s.upstream n).opts.instanceId ≠ (s.link l).instanceId) :
    s.dispatch env o l k frame =
        s.fail l k "connection id belongs to another instance" (some id) ∨
      ∃ f message, frame = .connect f ∧ validateConnect env f = .error message ∧
        s.dispatch env o l k frame = s.fail l k message (some id) := by
  simp only [dispatch, ha, ↓reduceIte]
  cases frame with
  | connect f =>
    have hf : f.id = some id := hid
    simp only [connect]
    cases hv : validateConnect env f with
    | error message => exact .inr ⟨f, message, rfl, hv, by rw [hf]⟩
    | ok dial =>
      obtain rfl := Option.some.inj (hf.symm.trans (validateConnect_id hv).1)
      simp only [hn, ne_eq, hi, not_false_eq_true, ↓reduceIte, true_or]
  | write i line =>
    obtain rfl := Option.some.inj hid
    simp only [socketOp, hn, ne_eq, hi, not_false_eq_true, ↓reduceIte, true_or]
  | ack i seq =>
    obtain rfl := Option.some.inj hid
    simp only [socketOp, hn, ne_eq, hi, not_false_eq_true, ↓reduceIte, true_or]
  | detach i =>
    obtain rfl := Option.some.inj hid
    simp only [socketOp, hn, ne_eq, hi, not_false_eq_true, ↓reduceIte, true_or]
  | close i =>
    obtain rfl := Option.some.inj hid
    simp only [socketOp, hn, ne_eq, hi, not_false_eq_true, ↓reduceIte, true_or]
  | _ => cases hid

/-- What keeps the sessions of `j` and a link outside it apart in the step that
reads a frame of the link. -/
structure Isolated (env : Platform) (o : ServerOptions) (s : Server) (l : LinkId)
    (frame : AppToEngine) (j : String) : Prop where
  /-- No session of `j` changes. -/
  spared : ∀ u, u < s.nextSocket → (s.upstream u).opts.instanceId = j →
    Spares s (s.step env o (.frame l frame)) u
  /-- Every link is sent what it would be sent if `j` had no sessions. -/
  blind : frame ≠ .list → ((s.link l).authed = true → ¬ s.Names frame j) → ∀ budget l',
    (((s.without j budget).step env o (.frame l frame)).link l').sent =
      ((s.step env o (.frame l frame)).link l').sent
  /-- A frame that names a session of `j` is answered with an error, if at all. -/
  refused : (s.link l).authed = true → s.Names frame j → ∀ l',
    ((s.step env o (.frame l frame)).link l').sent = (s.link l').sent ∨
      l' = l ∧ ∃ message, ((s.step env o (.frame l frame)).link l).sent = (s.link l).sent ++
        [⟨.error (frame.names.filter (· ≠ "")) message, .reply (s.link l).read, false⟩]

theorem isolated_refused (env : Platform) (o : ServerOptions) {frame : AppToEngine}
    (ho : s.Outside l frame j) (ha : (s.link l).authed = true) (hj : s.Names frame j) (l' : LinkId) :
    ((s.step env o (.frame l frame)).link l').sent = (s.link l').sent ∨
      l' = l ∧ ∃ message, ((s.step env o (.frame l frame)).link l).sent = (s.link l).sent ++
        [⟨.error (frame.names.filter (· ≠ "")) message, .reply (s.link l).read, false⟩] := by
  obtain ⟨i, n, hid, hn, hi⟩ := hj
  simp only [step, onFrame]
  split
  · rename_i hread
    have hk : ((s.modifyLink l (·.readOne)).link l).authed = true ∧
        ((s.modifyLink l (·.readOne)).link l).instanceId = (s.link l).instanceId := by
      rw [modifyLink_link, if_pos rfl]
      exact ⟨ha, rfl⟩
    have hne : ((s.modifyLink l (·.readOne)).upstream n).opts.instanceId ≠
        ((s.modifyLink l (·.readOne)).link l).instanceId := by
      rw [hk.2]
      change (s.upstream n).opts.instanceId ≠ _
      rw [hi]
      exact (ho.1 ha).symm
    obtain ⟨message, hm⟩ : ∃ message, (s.modifyLink l (·.readOne)).dispatch env o l
        (s.link l).read frame =
          (s.modifyLink l (·.readOne)).fail l (s.link l).read message (some i) := by
      rcases @dispatch_names env o _ _ (s.link l).read _ _ hk.1 _ hid hn hne with h |
        ⟨-, message, -, -, h⟩
      · exact ⟨_, h⟩
      · exact ⟨message, h⟩
    rw [hm, hid]
    by_cases hl : l' = l
    · subst hl
      refine .inr ⟨rfl, message, ?_⟩
      simp only [fail, send, modifyLink_link, ↓reduceIte, write_sent]
      have hup : ((s.link l').readOne).destroyed = false := hread.2
      rw [hup]
      rfl
    · refine .inl ?_
      simp only [fail, send, modifyLink_link, if_neg hl]
  · exact .inl rfl

/-- Sessions are partitioned by instance: in every reachable state a link's log
holds frames of its own instance's sockets only, and a frame of a link outside
`j` is isolated from the sessions of `j`. -/
theorem instances_isolated (env : Platform) (o : ServerOptions) (es : List Event) :
    let s := Run.after (step env o) (init o) es
    (∀ l, ∀ x ∈ (s.link l).sent, ∀ n, x.origin.socket? = some n →
      (s.link l).authed = true ∧ (s.upstream n).opts.instanceId = (s.link l).instanceId ∧
        x.frame.about = some (s.upstream n).id) ∧
    ∀ l frame j, s.Outside l frame j → Isolated env o s l frame j := by
  intro s
  have hs : s.Wf := run_wf env o es
  refine ⟨fun l x hx n hn => (run_apart env o es l x hx n hn).2, fun l frame j ho => ?_⟩
  refine ⟨fun u hu hi => ?_, fun hlist hnames budget l' => ?_, isolated_refused env o ho⟩
  · exact frame_spares hs hu (fun ha => .inl (hi ▸ (ho.1 ha).symm))
  · have hb := @Blind.frame env o _ _ _ _ (without_blind s j budget) hs ho.1 _ ho.2 hlist
      (fun ha i n hid hn => by
        simp only [others, decide_eq_true_eq]
        exact fun he => hnames ha ⟨i, n, hid, hn, he⟩)
    exact hb.field (·.sent) (fun _ => rfl) l'

/-- A link of the instance `j` comes in as number 1, beside a session of `i`. -/
theorem instances_isolated_close :
    let s := Run.after (step .plain smallOptions) (init smallOptions)
      (arriving 0 1 ++ registering 0 0 ++
        [.accept (fun _ => true), .frame 1 (.hello (.ofApp "s" "j" 1))])
    Spares s (s.step .plain smallOptions (.frame 1 (.close "i:1"))) 0 := by
  intro s
  have h := instances_isolated .plain smallOptions (arriving 0 1 ++ registering 0 0 ++
    [.accept (fun _ => true), .frame 1 (.hello (.ofApp "s" "j" 1))])
  have ho : s.Outside 1 (.close "i:1") "i" := ⟨by decide +kernel, fun _ => nofun⟩
  exact (h.2 1 (.close "i:1") "i" ho).spared 0 (by decide +kernel) (by decide +kernel)

/-- What a link is told of an id does depend on whether another instance holds it. -/
theorem held_id_refused :
    ¬ ∀ (env : Platform) (o : ServerOptions) (es : List Event) (l : LinkId) (frame : AppToEngine)
      (j : String) (budget : ByteBudget SocketId),
      let s := Run.after (step env o) (init o) es
      s.Outside l frame j →
        (((s.without j budget).step env o (.frame l frame)).link l).sent =
          ((s.step env o (.frame l frame)).link l).sent := by
  intro h
  have hs := h .plain smallOptions (arriving 0 1 ++ registering 0 0 ++
    [.accept (fun _ => true), .frame 1 (.hello (.ofApp "s" "j" 1))]) 1
    (.connect (.toHost "i:1" "irc.example" 6667)) "i" ⟨10000, 0, []⟩
    ⟨by decide +kernel, fun _ => nofun⟩
  revert hs
  decide +kernel

end

end Server

end Lurker.Engine
