import Lurker.Engine.Contest

/-!
# The reach of one frame

A frame drives at most the socket its id means, and only for a link of that
socket's instance. Every other socket is spared: it keeps its state, its
backlog, its claims and what its id means.
-/

namespace Lurker.Engine.Server

/-- Nothing about the socket `u` differs between `s` and `t`. -/
structure Spares (s t : Server) (u : SocketId) : Prop where
  upstream : t.upstream u = s.upstream u
  claims : ∀ l, t.Claims l u ↔ s.Claims l u
  mapped : t.Mapped u ↔ s.Mapped u
  nextSocket : s.nextSocket ≤ t.nextSocket

section

variable {env : Platform} {o : ServerOptions} {c : Cause} {s t v : Server} {l : LinkId} {k : Nat}
  {n u : SocketId} {id : String}

namespace Spares

theorem refl (s : Server) (u : SocketId) : Spares s s u :=
  ⟨rfl, fun _ => Iff.rfl, Iff.rfl, Nat.le_refl _⟩

theorem trans (h : Spares s t u) (h' : Spares t v u) : Spares s v u where
  upstream := h'.upstream.trans h.upstream
  claims l := (h'.claims l).trans (h.claims l)
  mapped := h'.mapped.trans h.mapped
  nextSocket := Nat.le_trans h.nextSocket h'.nextSocket

end Spares

theorem Alike.spares (ha : s.Alike t) (h : t.upstream u = s.upstream u) : Spares s t u :=
  ⟨h, fun _ => ha.claims_iff, ha.mapped_iff, Nat.le_of_eq ha.nextSocket.symm⟩

theorem send_spares (l : LinkId) (origin : Origin) (f : EngineToApp) :
    Spares s (s.send l origin f) u :=
  (alike_write _ _ _).spares rfl

theorem setUpstream_spares (h : u ≠ n) (v : Upstream) : Spares s (s.setUpstream n v) u := by
  have hu : (s.setUpstream n v).upstream u = s.upstream u := by rw [setUpstream_upstream, if_neg h]
  exact ⟨hu, fun _ => Iff.rfl, by rw [Mapped, hu]; rfl, Nat.le_refl _⟩

theorem deliver_spares (h : u ≠ n) (op : (Nat → Bool) → Upstream → Upstream.Delivery) :
    Spares s (s.deliver n op) u := by
  have hu : (s.deliver n op).upstream u = s.upstream u := by rw [deliver_upstream, if_neg h]
  obtain ⟨hmap, -, -, hns, -⟩ := s.deliver_frame n op
  exact ⟨hu, fun l => by rw [Claims, (deliver_link_keeps _).1]; rfl, by rw [Mapped, hu, hmap]; rfl,
    Nat.le_of_eq hns.symm⟩

theorem onUpstreamClose_spares (hs : s.Wf) (h : u ≠ n) : Spares s (s.onUpstreamClose n) u := by
  by_cases hst : (s.upstream n).state = .closed
  · rw [onUpstreamClose, if_pos hst]; exact .refl s u
  · obtain ⟨hmap, -, -, hns, -, hup, -⟩ := onUpstreamClose_spec hst
    have hu : (s.onUpstreamClose n).upstream u = s.upstream u := by rw [hup, if_neg h]
    refine ⟨hu, fun l => ?_, ?_, Nat.le_of_eq hns.symm⟩
    · rw [claims_onUpstreamClose hs hst]
      exact ⟨And.left, fun hc => ⟨hc, h⟩⟩
    · rw [Mapped, hu, hmap]
      split
      · rename_i hn
        rw [OrderedMap.get?_delete]
        split
        · rename_i hid
          refine ⟨fun h => (by cases h), fun hm => absurd ?_ h⟩
          rw [Mapped, hid] at hm
          exact Option.some.inj (hm.symm.trans hn)
        · rfl
      · rfl

theorem retire_spares (hs : s.Wf) (h : u ≠ n) : Spares s (s.retire n) u := by
  have hu : (s.retire n).upstream u = s.upstream u := by rw [retire_upstream, if_neg h]
  exact ⟨hu, fun _ => (claims_unclaimAll hs).trans ⟨And.left, fun hc => ⟨hc, h⟩⟩,
    by rw [Mapped, hu]; rfl, Nat.le_refl _⟩

theorem closeUpstream_spares (hs : s.Wf) (h : u ≠ n) : Spares s (s.closeUpstream n) u := by
  have hk := Upstream.keeps_close (s.upstream n)
  have hw : (s.setUpstream n (s.upstream n).close.1).Wf :=
    (s.alike_keeps n hk (fun _ => Upstream.burstDone_close _)).wf hs
  have ht : Spares s (s.setUpstream n (s.upstream n).close.1) u := setUpstream_spares h _
  simp only [closeUpstream]
  split
  · exact ht.trans (onUpstreamClose_spares hw h)
  · exact ht

theorem retire_close_spares (hs : s.Wf) (h : u ≠ n) :
    Spares s ((s.retire n).closeUpstream n) u :=
  (retire_spares hs h).trans (closeUpstream_spares (hs.retire n) h)

/-- A dial leaves every socket that its id does not mean alone. -/
theorem dialAfresh_spares (hs : s.Wf) (h : u < s.nextSocket) {dial : DialRequest}
    (hid : s.upstreams.get? dial.id ≠ some u) : Spares s (s.dialAfresh env o l k dial) u := by
  have hne : u ≠ s.nextSocket := Nat.ne_of_lt h
  obtain ⟨v, hup, -⟩ := s.dialAfresh_upstream l env o k dial
  have hu : (s.dialAfresh env o l k dial).upstream u = s.upstream u := by rw [hup, if_neg hne]
  have hstart : ∀ l', (s.startDial env o l k dial).Claims l' u ↔ s.Claims l' u := by
    intro l'
    rw [claims_startDial hs]
    exact ⟨fun h' => (h'.resolve_right (fun h'' => hne h''.2)).1, fun h' => .inl ⟨h', hne⟩⟩
  have hset : ∀ i, (s.upstreams.set dial.id s.nextSocket).get? i = some u ↔
      s.upstreams.get? i = some u := by
    intro i
    rw [OrderedMap.get?_set]
    split
    · rename_i hi
      exact ⟨fun h' => absurd (Option.some.inj h').symm hne, fun h' => absurd (hi ▸ h') hid⟩
    · rfl
  refine ⟨hu, fun l' => ?_, ?_, ?_⟩
  · simp only [dialAfresh]
    split
    · exact hstart l'
    · refine ((alike_write _ _ _).claims_iff.trans claims_unclaim).trans ?_
      exact ⟨fun h' => (hstart l').mp h'.1, fun h' => ⟨(hstart l').mpr h', fun h'' => hne h''.2⟩⟩
  · rw [Mapped, hu]
    simp only [dialAfresh]
    split
    · exact hset _
    · change ((s.upstreams.set dial.id s.nextSocket).delete dial.id).get? _ = _ ↔ _
      rw [OrderedMap.get?_delete]
      split
      · rename_i hi
        exact ⟨fun h => (by cases h), fun h' => absurd (hi ▸ h') hid⟩
      · exact hset _
  · simp only [dialAfresh]
    split <;> exact Nat.le_succ _

theorem retire_close_dial_spares (hs : s.Wf) (h : u < s.nextSocket) {dial : DialRequest}
    (hn : s.upstreams.get? dial.id = some n) (hne : u ≠ n) :
    Spares s (((s.retire n).closeUpstream n).dialAfresh env o l k dial) u := by
  have hrc : Calms env o none s ((s.retire n).closeUpstream n) := retire_close_calms
  have hsp : Spares s ((s.retire n).closeUpstream n) u := retire_close_spares hs hne
  refine hsp.trans (dialAfresh_spares (hrc.wf hs) (Nat.lt_of_lt_of_le h hsp.nextSocket) fun hm => ?_)
  exact hne (Option.some.inj ((closeUpstream_get hm).symm.trans hn))

theorem handOver_spares (hs : s.Wf) (hc : s.Claims l n) (h : u ≠ n) (payload : AttachedPayload) :
    Spares s (s.handOver env l k n payload) u := by
  simp only [handOver]
  split
  · rw [unclaim_silence hs hc]
    exact (retire_close_spares hs h).trans (send_spares _ _ _)
  · exact (send_spares _ _ _).trans (deliver_spares h _)

theorem attachTo_spares (hs : s.Wf) (hw : s.contest l n = (t, none)) (h : u ≠ n) :
    Spares s (t.attachTo l k n).1 u := by
  obtain ⟨hup, hmap, -, -, hns, -⟩ := contest_upstream hw
  have hu : (t.attachTo l k n).1.upstream u = s.upstream u := by
    rw [(attachTo_spec k).1, if_neg h, hup]
  refine ⟨hu, fun l' => ?_, ?_, Nat.le_of_eq hns.symm⟩
  · rw [claims_attachTo hs hw]
    exact ⟨fun h' => (h'.resolve_right (fun h'' => h h''.2)).1, fun h' => .inl ⟨h', h⟩⟩
  · rw [Mapped, hu]
    change t.upstreams.get? _ = _ ↔ _
    rw [hmap]; rfl

theorem attachHeld_spares (hs : s.Wf) (hu : u < s.nextSocket) {dial : DialRequest}
    (hl : l ∈ s.links) (ha : (s.link l).authed = true)
    (hn : s.upstreams.get? dial.id = some n)
    (hi : (s.upstream n).opts.instanceId = (s.link l).instanceId) (h : u ≠ n) :
    Spares s (s.attachHeld env o l k n dial) u := by
  cases hw : s.contest l n with
  | mk t r =>
    cases r with
    | some other =>
      simp only [attachHeld, hw, contest_lost hw]
      exact send_spares _ _ _
    | none =>
      have hat := (@attached_calms env o (some (l, k)) s _ l k _ rfl hs _ hl ha hn hi hw).1
      have hsp := attachTo_spares (k := k) hs hw h
      have hv := hat.wf hs
      have hcl : (t.attachTo l k n).1.Claims l n := (claims_attachTo hs hw k).mpr (.inr ⟨rfl, rfl⟩)
      have hup : (t.attachTo l k n).1.upstreams = s.upstreams := (contest_upstream hw).2.1
      simp only [attachHeld, hw]
      generalize t.attachTo l k n = r at hv hcl hup hsp ⊢
      obtain ⟨v, a⟩ := r
      refine hsp.trans ?_
      cases a with
      | dialing => exact send_spares _ _ _
      | unregistered =>
        simp only at hv hcl hup hsp ⊢
        rw [unclaim_silence hv hcl]
        exact retire_close_dial_spares hv (Nat.lt_of_lt_of_le hu hsp.nextSocket) (hup ▸ hn) h
      | payload p => exact handOver_spares hv hcl h p

/-- A `connect` reaches the socket its id means, when that is the link's own instance's. -/
theorem connect_spares (hs : s.Wf) (hu : u < s.nextSocket) (hl : l ∈ s.links)
    (ha : (s.link l).authed = true) (frame : ConnectFrame)
    (h : (s.upstream u).opts.instanceId ≠ (s.link l).instanceId ∨ frame.id ≠ some (s.upstream u).id) :
    Spares s (s.connect env o l k frame) u := by
  unfold connect
  split
  · exact send_spares _ _ _
  · rename_i dial hv
    have hid := (validateConnect_id hv).1
    split
    · rename_i hn
      exact dialAfresh_spares hs hu (by rw [hn]; exact nofun)
    · rename_i n hn
      split
      · exact send_spares _ _ _
      · rename_i hi
        have hne : u ≠ n := by
          rintro rfl
          rcases h with h | h
          · exact h (not_not.mp hi)
          · exact h (by rw [hid, (hs.mapped hn).1])
        split
        · have hsp := retire_spares hs hne
          refine hsp.trans (dialAfresh_spares (hs.retire n) (Nat.lt_of_lt_of_le hu hsp.nextSocket) ?_)
          exact fun hm => hne (Option.some.inj (hm.symm.trans hn))
        · split
          · exact retire_close_dial_spares hs hu hn hne
          · exact attachHeld_spares hs hu hl ha hn (not_not.mp hi) hne

theorem offer_spares (released : List SocketId) (except : Option LinkId) :
    Spares s (s.offer released except) u := by
  unfold offer
  induction released generalizing s with
  | nil => exact .refl s u
  | cons m ns ih =>
    exact ((s.alike_offerOne m except).spares (by rw [(s.offerOne_frame m except).1])).trans ih

theorem release_spares (h : u ≠ n) : Spares s (s.release l n) u := by
  unfold release
  split
  · have hu : (s.letGo l n).upstream u = s.upstream u := by rw [letGo_upstream, if_neg h]
    refine Spares.trans ⟨hu, fun l' => ?_, by rw [Mapped, hu]; rfl, Nat.le_refl _⟩ (offer_spares _ _)
    exact (claims_unclaim (s := s)).trans ⟨And.left, fun hc => ⟨hc, fun h' => h h'.2⟩⟩
  · exact .refl s u

theorem drive_spares (hs : s.Wf) (h : u ≠ n) (op : SocketOp) : Spares s (s.drive l n op) u := by
  cases op with
  | write line => exact setUpstream_spares h _
  | ack seq => exact setUpstream_spares h _
  | detach => exact release_spares h
  | close => exact closeUpstream_spares hs h

/-- A contest over another socket, and the silence that follows a `close`. -/
theorem contest_silence_close_spares (hs : s.Wf) (hl : ¬ s.Claims l n) (h : u ≠ n)
    (hw : s.contest l n = (t, none)) : Spares s ((t.silence n).closeUpstream n) u := by
  rcases contest_won hw with ⟨ho, rfl⟩ | ⟨other, ho, -, rfl⟩
  · have hnone : ∀ l', ¬ t.Claims l' n := by
      intro l' hc
      obtain rfl := Option.some.inj (holderOf_none hs ho hc)
      exact hl hc
    rw [silence_eq_retire hnone]
    exact retire_close_spares hs h
  · rw [unclaim_send_silence hs (holderOf_some ho).2.1]
    refine (send_spares other _ _).trans (retire_close_spares ?_ h)
    exact (s.alike_write _ _).wf hs

theorem socketOp_spares (hs : s.Wf) (op : SocketOp)
    (h : (s.upstream u).opts.instanceId ≠ (s.link l).instanceId ∨ id ≠ (s.upstream u).id) :
    Spares s (s.socketOp l k id op) u := by
  unfold socketOp
  split
  · exact send_spares _ _ _
  · rename_i n hn
    split
    · exact send_spares _ _ _
    · rename_i hi
      have hne : u ≠ n := by
        rintro rfl
        rcases h with h | h
        · exact h (not_not.mp hi)
        · exact h (hs.mapped hn).1.symm
      split
      · exact drive_spares hs hne op
      · rename_i hcl
        split
        · exact drive_spares hs hne _
        · split
          · rename_i t r hw
            rw [contest_lost hw]
            exact send_spares _ _ _
          · rename_i t hw
            exact contest_silence_close_spares hs hcl hne hw
        · exact send_spares _ _ _

theorem authenticate_spares (f : HelloFrame) : Spares s (s.authenticate l f) u := by
  refine ⟨rfl, fun l' => ?_, Iff.rfl, Nat.le_refl _⟩
  rw [Claims, authenticate, modifyLink_link]
  split
  · rename_i h; rw [h]; rfl
  · rfl

theorem refused_spares (message : String) :
    Spares s ((s.fail l k message none).destroyLink l) u :=
  (send_spares _ _ _).trans
    ((alike_modifyLink _ _ (f := (·.destroy)) (fun _ => ⟨rfl, rfl, rfl⟩)).spares rfl)

theorem dispatch_spares (hs : s.Wf) (hu : u < s.nextSocket) (hl : l ∈ s.links)
    {frame : AppToEngine}
    (h : (s.link l).authed = true → (s.upstream u).opts.instanceId ≠ (s.link l).instanceId ∨
      frame.names ≠ some (s.upstream u).id) : Spares s (s.dispatch env o l k frame) u := by
  have hop : ∀ {id : String}, (s.upstream u).opts.instanceId ≠ (s.link l).instanceId ∨
      some id ≠ some (s.upstream u).id → (s.upstream u).opts.instanceId ≠ (s.link l).instanceId ∨
      id ≠ (s.upstream u).id := fun h => h.imp_right (fun h h' => h (congrArg some h'))
  by_cases ha : (s.link l).authed = true
  · replace h := h ha
    simp only [dispatch, ha, ↓reduceIte]
    cases frame with
    | hello f => exact .refl s u
    | ping => exact send_spares _ _ _
    | pong => exact .refl s u
    | connect f => exact connect_spares hs hu hl ha f h
    | list => exact send_spares _ _ _
    | write id line => exact socketOp_spares hs _ (hop h)
    | ack id seq => exact socketOp_spares hs _ (hop h)
    | detach id => exact socketOp_spares hs _ (hop h)
    | close id => exact socketOp_spares hs _ (hop h)
    | unknown op => exact send_spares _ _ _
  · simp only [dispatch, ha]
    cases frame with
    | hello f =>
      change Spares s (s.hello env o l k f) u
      unfold hello
      split
      · exact refused_spares _
      · exact (authenticate_spares f).trans (send_spares _ _ _)
    | _ => exact refused_spares _

/-- A frame leaves every socket alone that it does not name, or that belongs to
another instance than its link. -/
theorem frame_spares (hs : s.Wf) (hu : u < s.nextSocket) {frame : AppToEngine}
    (h : (s.link l).authed = true → (s.upstream u).opts.instanceId ≠ (s.link l).instanceId ∨
      frame.names ≠ some (s.upstream u).id) : Spares s (s.step env o (.frame l frame)) u := by
  simp only [step, onFrame]
  split
  · rename_i hread
    have ha := s.alike_modifyLink l (f := (·.readOne)) (fun _ => ⟨rfl, rfl, rfl⟩)
    have hr : Spares s (s.modifyLink l (·.readOne)) u := ha.spares rfl
    refine hr.trans (dispatch_spares (ha.wf hs) hu hread.1 ?_)
    rw [(ha.link l).2.1, (ha.link l).2.2]
    exact h
  · exact .refl s u

end

end Lurker.Engine.Server
