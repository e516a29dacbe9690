import Lurker.Engine.Offers

/-!
# Newest process wins

A frame of one link about a session that another link holds either leaves the
session with its holder or takes it, and then the holder is told. `contest`
decides which, by the ages of the two processes. A `connect` that asks for
another destination does not go through it.
-/

namespace Lurker.Engine

/-- The id a frame names, if it names one. -/
def AppToEngine.names : AppToEngine → Option String
  | .connect f => f.id
  | .write id _ => some id
  | .ack id _ => some id
  | .detach id => some id
  | .close id => some id
  | _ => none

namespace Server

/-- The session `u`, held by `m` in `s`, is as it was and still delivers to `m`. -/
structure StaysWith (s t : Server) (m : LinkId) (u : SocketId) : Prop where
  state : (t.upstream u).state = (s.upstream u).state
  closing : (t.upstream u).closing = false
  claims : t.Claims m u
  sink : (t.upstream u).sink = some m

/-- Between `s` and `t` the link `m` was sent `detached` for the session `u`. -/
def ToldDetached (s t : Server) (m : LinkId) (u : SocketId) : Prop :=
  ∃ x ∈ (t.link m).sent.drop (s.link m).sent.length, x.frame = .detached (s.upstream u).id

/-- What "newest process wins" asks of a step that reads a frame of `l`, for a
session `u` that `m` holds. Nothing can be sent to a link that is destroyed. -/
structure NewestWins (s t : Server) (l m : LinkId) (u : SocketId) : Prop where
  newer : (s.link l).generation < (s.link m).generation → StaysWith s t m u
  told : (s.link m).destroyed = false → ¬ t.Claims m u → ToldDetached s t m u

/-- The frame is read, and asks to dial the id of `u` to another destination. -/
def Redials (env : Platform) (s : Server) (l : LinkId) (frame : AppToEngine) (u : SocketId) : Prop :=
  l ∈ s.links ∧ (s.link l).destroyed = false ∧ (s.link l).authed = true ∧
    (s.upstream u).opts.instanceId = (s.link l).instanceId ∧
    ∃ f dial, frame = .connect f ∧ validateConnect env f = .ok dial ∧
      (s.upstream u).matchesDial env dial = false

section

variable {env : Platform} {o : ServerOptions} {c : Cause} {s t v : Server} {l m : LinkId} {k : Nat}
  {u : SocketId} {id : String}

theorem StaysWith.newestWins (h : StaysWith s t m u) : NewestWins s t l m u :=
  ⟨fun _ => h, fun _ hn => absurd h.claims hn⟩

theorem Alike.staysWith (ha : s.Alike t) (hs : s.Wf) (h : s.Claims m u)
    (hst : (t.upstream u).state = (s.upstream u).state)
    (hcl : (t.upstream u).closing = false) : StaysWith s t m u :=
  ⟨hst, hcl, ha.claims_iff.mpr h, ((ha.upstream u).2.2).trans (hs.claims h).2.2.2.1⟩

theorem send_staysWith {origin : Origin} {f : EngineToApp} (hs : s.Wf) (h : s.Claims m u)
    (hcl : (s.upstream u).closing = false) : StaysWith s (s.send l origin f) m u :=
  (alike_write _ _ _).staysWith hs h rfl hcl

theorem refused_staysWith {message : String} (hs : s.Wf) (h : s.Claims m u)
    (hcl : (s.upstream u).closing = false) :
    StaysWith s ((s.fail l k message none).destroyLink l) m u :=
  ((alike_write _ _ _).trans (alike_modifyLink _ _ (f := (·.destroy)) (fun _ => ⟨rfl, rfl, rfl⟩))).staysWith
    hs h rfl hcl

theorem ack_staysWith {seq : Int} (hs : s.Wf) (h : s.Claims m u)
    (hcl : (s.upstream u).closing = false) :
    StaysWith s (s.modifyUpstream u (·.ack seq)) m u := by
  have hu : (s.modifyUpstream u (·.ack seq)).upstream u = (s.upstream u).ack seq := by
    rw [modifyUpstream, setUpstream_upstream, if_pos rfl]
  exact (s.alike_ack u seq).staysWith hs h (by rw [hu]; rfl) (by rw [hu]; exact hcl)

/-- The contest over a session another link holds goes to the newer process. -/
theorem contest_held (hs : s.Wf) (h : s.Claims m u) (hne : l ≠ m) :
    s.contest l u =
      if (s.link l).generation < (s.link m).generation then (s, some m)
      else ((s.unclaim m u).send m (.notice u) (.detached (s.upstream u).id), none) := by
  have ho : s.holderOf u (some l) = some m := by
    cases ho : s.holderOf u (some l) with
    | none => exact absurd (Option.some.inj (holderOf_none hs ho h)).symm hne
    | some m' => rw [hs.claims_unique (holderOf_some ho).2.1 h]
  simp only [contest, ho]

theorem ToldDetached.of_sent (hup : (s.link m).destroyed = false)
    (h : ((s.send m (.notice u) (.detached (s.upstream u).id)).link m).sent <+: (t.link m).sent) :
    ToldDetached s t m u := by
  simp only [send, modifyLink_link, ↓reduceIte, write_sent, hup, Bool.false_eq_true] at h
  refine ⟨⟨.detached (s.upstream u).id, .notice u, false⟩, ?_, rfl⟩
  refine mem_drop_of_prefix (i := (s.link m).sent.length) ?_ h (Nat.le_refl _)
  rw [List.drop_append_of_le_length (Nat.le_refl _), List.drop_length, List.nil_append]
  exact List.mem_singleton_self _

/-- A link that is told in a contest it loses, whatever follows. -/
theorem taken_newestWins (hg : ¬ (s.link l).generation < (s.link m).generation)
    (h : ((s.send m (.notice u) (.detached (s.upstream u).id)).link m).sent <+: (t.link m).sent) :
    NewestWins s t l m u :=
  ⟨fun hlt => absurd hlt hg, fun hup _ => .of_sent hup h⟩

theorem attachHeld_newestWins (hs : s.Wf) {dial : DialRequest} (hl : l ∈ s.links)
    (ha : (s.link l).authed = true) (hn : s.upstreams.get? dial.id = some u)
    (hi : (s.upstream u).opts.instanceId = (s.link l).instanceId) (h : s.Claims m u) (hne : l ≠ m)
    (hcl : (s.upstream u).closing = false) :
    NewestWins s (s.attachHeld env o l k u dial) l m u := by
  have hw := contest_held hs h hne
  split at hw
  · simp only [attachHeld, hw]
    exact (send_staysWith hs h hcl).newestWins
  · rename_i hg
    obtain ⟨hat, hrest⟩ := @attached_calms env o (some (l, k)) s _ l k _ rfl hs _ hl ha hn hi hw
    refine taken_newestWins hg (List.IsPrefix.trans ?_ ((hrest.stays (hat.wf hs)).sent m))
    rw [(attachTo_spec k).2.2, claim_link.2.2.1]
    have hu : ∀ a : AppLink, ∀ fs, ((a.unclaim u).write fs).sent = (a.write fs).sent := by
      intro a fs
      rw [write_sent, write_sent]
      rfl
    simp only [send, unclaim, modifyLink_link, ↓reduceIte, hu]
    exact List.prefix_refl _

theorem close_newestWins (env : Platform) (o : ServerOptions) (hs : s.Wf) (h : s.Claims m u)
    (hne : l ≠ m) (hcl : (s.upstream u).closing = false) :
    NewestWins s
      (match s.contest l u with
        | (s, some _) => s.fail l k "not attached to this connection" (some id)
        | (s, none) => (s.silence u).drive l u .close) l m u := by
  have hw := contest_held hs h hne
  split at hw
  · simp only [hw]
    exact (send_staysWith hs h hcl).newestWins
  · rename_i hg
    simp only [hw, drive]
    rw [unclaim_send_silence hs h]
    have ht : Calm env o none s (s.send m (.notice u) (.detached (s.upstream u).id)) := .detached h
    have hr : Calms env o none (s.send m (.notice u) (.detached (s.upstream u).id))
      (((s.send m (.notice u) (.detached (s.upstream u).id)).retire u).closeUpstream u) :=
        retire_close_calms
    exact taken_newestWins hg ((hr.stays (ht.wf hs)).sent m)

theorem socketOp_newestWins (env : Platform) (o : ServerOptions) (hs : s.Wf) (op : SocketOp) (hn : s.upstreams.get? id = some u)
    (h : s.Claims m u) (hne : l ≠ m) (hcl : (s.upstream u).closing = false) :
    NewestWins s (s.socketOp l k id op) l m u := by
  have hnot : u ∉ (s.link l).claimed := fun hc => hne (hs.claims_unique hc h)
  simp only [socketOp, hn, if_neg hnot]
  split
  · exact (send_staysWith hs h hcl).newestWins
  · cases op with
    | ack seq => exact (ack_staysWith hs h hcl).newestWins
    | close => exact close_newestWins env o hs h hne hcl
    | write line => exact (send_staysWith hs h hcl).newestWins
    | detach => exact (send_staysWith hs h hcl).newestWins

theorem connect_redials (hs : s.Wf) {f : ConnectFrame} {dial : DialRequest}
    (hv : validateConnect env f = .ok dial) (hn : s.upstreams.get? dial.id = some u)
    (hi : (s.upstream u).opts.instanceId = (s.link l).instanceId)
    (hcl : (s.upstream u).closing = false) (hd : (s.upstream u).matchesDial env dial = false) :
    s.connect env o l k f = ((s.retire u).closeUpstream u).dialAfresh env o l k dial := by
  have hst : ¬((s.upstream u).closing = true ∨ (s.upstream u).state = .closed) := by
    rintro (h | h)
    · rw [hcl] at h; exact nomatch h
    · exact (hs.mapped hn).2.2 h
  simp only [connect, hv, hn, hi, ne_eq, not_true_eq_false, ↓reduceIte, hd, if_neg hst]

/-- A dial concerns no link but the one that asks for it. -/
theorem dialAfresh_link_other (hne : m ≠ l) (dial : DialRequest) :
    (s.dialAfresh env o l k dial).link m = s.link m := by
  have hstart : (s.startDial env o l k dial).link m = s.link m := by
    rw [startDial_link, if_neg hne]
  simp only [dialAfresh]
  split
  · exact hstart
  · simp only [send, unclaim, modifyLink_link, if_neg hne]
    exact hstart

/-- A retired socket that is closed has no claimant, and nobody is told. -/
theorem retire_close_link (hs : s.Wf) :
    ¬ ((s.retire u).closeUpstream u).Claims m u ∧
      (((s.retire u).closeUpstream u).link m).sent = (s.link m).sent := by
  have hr := hs.retire u
  have hsink : ((s.retire u).upstream u).sink = none := by
    rw [retire_upstream, if_pos rfl]
    exact (Upstream.sameSocket_silence _ _).2.1
  have hno : ¬ (s.retire u).Claims m u := fun hc => ((claims_unclaimAll hs).mp hc).2 rfl
  have hsent : ((s.retire u).link m).sent = (s.link m).sent := unclaimAll_link.2.2.1
  have hk := Upstream.keeps_close ((s.retire u).upstream u)
  have hw : ((s.retire u).setUpstream u ((s.retire u).upstream u).close.1).Wf :=
    ((s.retire u).alike_keeps u hk (fun _ => Upstream.burstDone_close _)).wf hr
  simp only [closeUpstream]
  split
  · by_cases hst : (((s.retire u).setUpstream u ((s.retire u).upstream u).close.1).upstream u).state
        = .closed
    · rw [onUpstreamClose, if_pos hst]
      exact ⟨hno, hsent⟩
    · refine ⟨fun hc => ((claims_onUpstreamClose hw hst).mp hc).2 rfl, ?_⟩
      rw [(onUpstreamClose_spec hst).2.2.2.2.2.2]
      have hn : (((s.retire u).setUpstream u ((s.retire u).upstream u).close.1).upstream u).sink ≠
          some m := by
        rw [setUpstream_upstream, if_pos rfl, hk.sink, hsink]
        exact fun h => by cases h
      simp only [deliver_link, if_neg hn]
      split <;> exact hsent
  · exact ⟨hno, hsent⟩

theorem connect_newestWins (hs : s.Wf) {f : ConnectFrame} (hid : f.id = some id)
    (hn : s.upstreams.get? id = some u) (hl : l ∈ s.links) (hup : (s.link l).destroyed = false)
    (ha : (s.link l).authed = true) (h : s.Claims m u) (hne : l ≠ m)
    (hcl : (s.upstream u).closing = false) (hr : ¬ Redials env s l (.connect f) u) :
    NewestWins s (s.connect env o l k f) l m u := by
  unfold connect
  split
  · exact (send_staysWith hs h hcl).newestWins
  · rename_i dial hv
    obtain rfl := Option.some.inj (hid.symm.trans (validateConnect_id hv).1)
    simp only [hn]
    split
    · exact (send_staysWith hs h hcl).newestWins
    · rename_i hi
      split
      · rename_i hover
        rcases hover with hc | hst
        · rw [hcl] at hc; cases hc
        · exact absurd hst (hs.mapped hn).2.2
      · split
        · rename_i hd
          exact absurd ⟨hl, hup, ha, not_not.mp hi, f, dial, rfl, hv, hd⟩ hr
        · exact attachHeld_newestWins hs hl ha hn (not_not.mp hi) h hne hcl

theorem dispatch_newestWins (hs : s.Wf) {frame : AppToEngine} (hid : frame.names = some id)
    (hn : s.upstreams.get? id = some u) (hl : l ∈ s.links) (hup : (s.link l).destroyed = false)
    (h : s.Claims m u) (hne : l ≠ m) (hcl : (s.upstream u).closing = false)
    (hr : ¬ Redials env s l frame u) : NewestWins s (s.dispatch env o l k frame) l m u := by
  by_cases ha : (s.link l).authed = true
  · cases frame with
    | connect f =>
      simp only [dispatch, ha, ↓reduceIte]
      exact connect_newestWins hs hid hn hl hup ha h hne hcl hr
    | write i line =>
      obtain rfl := Option.some.inj hid
      simp only [dispatch, ha, ↓reduceIte]
      exact socketOp_newestWins env o hs _ hn h hne hcl
    | ack i seq =>
      obtain rfl := Option.some.inj hid
      simp only [dispatch, ha, ↓reduceIte]
      exact socketOp_newestWins env o hs _ hn h hne hcl
    | detach i =>
      obtain rfl := Option.some.inj hid
      simp only [dispatch, ha, ↓reduceIte]
      exact socketOp_newestWins env o hs _ hn h hne hcl
    | close i =>
      obtain rfl := Option.some.inj hid
      simp only [dispatch, ha, ↓reduceIte]
      exact socketOp_newestWins env o hs _ hn h hne hcl
    | _ => cases hid
  · have hrf := (@refused_staysWith _ l _ k _ "hello first" hs h hcl).newestWins
      (l := l)
    cases frame with
    | hello f => cases hid
    | _ => simp only [dispatch, ha]; exact hrf

/-- A session dialed elsewhere is taken without a contest and without a word. -/
theorem dispatch_redials (hs : s.Wf) {frame : AppToEngine} (hid : frame.names = some id)
    (hn : s.upstreams.get? id = some u) (hne : l ≠ m)
    (hcl : (s.upstream u).closing = false) (hr : Redials env s l frame u) :
    ¬ (s.dispatch env o l k frame).Claims m u ∧
      ((s.dispatch env o l k frame).link m).sent = (s.link m).sent := by
  obtain ⟨-, -, ha, hi, f, dial, rfl, hv, hd⟩ := hr
  obtain rfl := Option.some.inj (hid.symm.trans (validateConnect_id hv).1)
  simp only [dispatch, ha, ↓reduceIte]
  rw [connect_redials hs hv hn hi hcl hd, Claims, dialAfresh_link_other (Ne.symm hne)]
  exact retire_close_link hs

/-- Of the state a frame is read in, only how many were read differs from the one before. -/
theorem newestWins_readOne (h : NewestWins (s.modifyLink l (·.readOne)) t l m u) :
    NewestWins s t l m u := by
  have hk : ∀ l', ((s.modifyLink l (·.readOne)).link l').generation = (s.link l').generation ∧
      ((s.modifyLink l (·.readOne)).link l').sent = (s.link l').sent ∧
      ((s.modifyLink l (·.readOne)).link l').destroyed = (s.link l').destroyed := by
    intro l'
    rw [modifyLink_link]
    split
    · rename_i h; subst h; exact ⟨rfl, rfl, rfl⟩
    · exact ⟨rfl, rfl, rfl⟩
  obtain ⟨h1, h2⟩ := h
  rw [(hk l).1, (hk m).1] at h1
  rw [(hk m).2.2, ToldDetached, (hk m).2.1] at h2
  exact ⟨fun hg => { h1 hg with }, h2⟩

/-- In every reachable state, a frame of `l` about a session that `m` holds and
nobody is closing obeys "newest process wins" unless it redials the session's id
elsewhere; and one that does obeys it only where there is nothing to obey, `m`
being no newer and its link destroyed. -/
theorem newest_process_wins (env : Platform) (o : ServerOptions) (es : List Event) (l m : LinkId)
    (u : SocketId) (id : String) (frame : AppToEngine) :
    let s := Run.after (step env o) (init o) es
    frame.names = some id → s.upstreams.get? id = some u → s.Claims m u → l ≠ m →
      (s.upstream u).closing = false →
      (NewestWins s (s.step env o (.frame l frame)) l m u ↔
        ¬ Redials env s l frame u ∨
          (s.link m).destroyed = true ∧ (s.link m).generation ≤ (s.link l).generation) := by
  intro s hid hn h hne hcl
  have hs : s.Wf := run_wf env o es
  have hrw := s.alike_modifyLink l (f := (·.readOne)) (fun _ => ⟨rfl, rfl, rfl⟩)
  have hs' := hrw.wf hs
  have h' := hrw.claims_iff.mpr h
  have hk : ∀ l', ((s.modifyLink l (·.readOne)).link l').destroyed = (s.link l').destroyed ∧
      ((s.modifyLink l (·.readOne)).link l').authed = (s.link l').authed ∧
      ((s.modifyLink l (·.readOne)).link l').instanceId = (s.link l').instanceId ∧
      ((s.modifyLink l (·.readOne)).link l').sent = (s.link l').sent := by
    intro l'
    rw [modifyLink_link]
    split
    · rename_i h; subst h; exact ⟨rfl, rfl, rfl, rfl⟩
    · exact ⟨rfl, rfl, rfl, rfl⟩
  have hred : Redials env (s.modifyLink l (·.readOne)) l frame u ↔ Redials env s l frame u := by
    simp only [Redials, hk, modifyLink_links, modifyLink_upstream]
  by_cases hread : l ∈ s.links ∧ (s.link l).destroyed = false
  · have hstep : s.step env o (.frame l frame) =
        (s.modifyLink l (·.readOne)).dispatch env o l (s.link l).read frame := by
      simp only [step, onFrame, if_pos hread]
    rw [hstep]
    by_cases hr : Redials env s l frame u
    · obtain ⟨hlost, hsent⟩ := @dispatch_redials env o _ _ _ (s.link l).read _ _
        hs' _ hid hn hne hcl (hred.mpr hr)
      rw [(hk m).2.2.2] at hsent
      refine ⟨fun hw => .inr ⟨?_, ?_⟩, fun hw => ?_⟩
      · by_contra hup
        obtain ⟨x, hx, -⟩ := hw.told (by simpa using hup) hlost
        rw [hsent, List.drop_length] at hx
        exact List.not_mem_nil hx
      · by_contra hg
        exact hlost (hw.newer (by omega)).claims
      · obtain ⟨hd, hg⟩ := hw.resolve_left (not_not.mpr hr)
        exact ⟨fun hlt => by omega, fun hup => by rw [hd] at hup; cases hup⟩
    · refine iff_of_true (newestWins_readOne ?_) (.inl hr)
      exact dispatch_newestWins hs' hid hn hread.1 ((hk l).1.trans hread.2) h' hne hcl
        (fun h => hr (hred.mp h))
  · have hstep : s.step env o (.frame l frame) = s := by
      simp only [step, onFrame, if_neg hread]
    rw [hstep]
    refine iff_of_true (StaysWith.newestWins ⟨rfl, hcl, h, (hs.claims h).2.2.2.1⟩) (.inl ?_)
    exact fun hr => hread ⟨hr.1, hr.2.1⟩

/-- An older process that asks to close a session of a newer one does not get it. -/
theorem newest_process_wins_close :
    let s := Run.after (step .plain smallOptions) (init smallOptions)
      (arriving 0 2 ++ registering 0 0 ++ arriving 1 1)
    NewestWins s (s.step .plain smallOptions (.frame 1 (.close "i:1"))) 1 0 0 := by
  intro s
  have h := newest_process_wins .plain smallOptions
    (arriving 0 2 ++ registering 0 0 ++ arriving 1 1) 1 0 0 "i:1" (.close "i:1")
    rfl (by decide +kernel) (by decide +kernel) (by decide) (by decide +kernel)
  refine h.mpr (.inl ?_)
  rintro ⟨-, -, -, -, f, -, hf, -⟩
  exact nomatch hf

/-- The older process takes the session by asking for another host. -/
theorem older_process_redials :
    ¬ ∀ (env : Platform) (o : ServerOptions) (es : List Event) (l m : LinkId) (u : SocketId)
      (id : String) (frame : AppToEngine),
      let s := Run.after (step env o) (init o) es
      frame.names = some id → s.upstreams.get? id = some u → s.Claims m u → l ≠ m →
        (s.upstream u).closing = false → NewestWins s (s.step env o (.frame l frame)) l m u := by
  intro h
  have hw := h .plain smallOptions (arriving 0 2 ++ registering 0 0 ++ arriving 1 1) 1 0 0 "i:1"
    (.connect (.toHost "i:1" "other.example" 6667)) rfl (by decide +kernel) (by decide +kernel)
    (by decide) (by decide +kernel)
  have hlost : ¬ ((Run.after (step .plain smallOptions) (init smallOptions)
      (arriving 0 2 ++ registering 0 0 ++ arriving 1 1)).step .plain smallOptions
        (.frame 1 (.connect (.toHost "i:1" "other.example" 6667)))).Claims 0 0 := by
    decide +kernel
  exact hlost (hw.newer (by decide +kernel)).claims

end

end Server

end Lurker.Engine
