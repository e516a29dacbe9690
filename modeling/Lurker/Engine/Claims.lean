import Lurker.Engine.Moves

/-!
# Claims, sinks and the id map

`Wf` is the agreement of the three structures that say who a socket's lines go
to. Every move preserves it.
-/

namespace Lurker.Engine.Server

/-- The claim sets, the sinks and the id map of a listener agree. -/
structure Wf (s : Server) : Prop where
  mapped : ∀ {id n}, s.upstreams.get? id = some n →
    (s.upstream n).id = id ∧ n < s.nextSocket ∧ (s.upstream n).state ≠ .closed
  claims : ∀ {l n}, s.Claims l n → l ∈ s.links ∧ (s.link l).authed = true ∧ s.Mapped n ∧
    (s.upstream n).sink = some l ∧ (s.upstream n).opts.instanceId = (s.link l).instanceId
  sink : ∀ {l n}, s.Mapped n → (s.upstream n).sink = some l → s.Claims l n
  stray : ∀ {n}, ¬ s.Mapped n → (s.upstream n).Over ∨ (s.upstream n).Inert
  dialing : ∀ {n}, (s.upstream n).state = .dialing → (s.upstream n).burstDone = false
  links : ∀ {l}, l ∈ s.links → l < s.nextLink

/-- `t` agrees with `s` on everything the claims are about. -/
structure Alike (s t : Server) : Prop where
  upstreams : t.upstreams = s.upstreams
  nextSocket : t.nextSocket = s.nextSocket
  links : t.links = s.links
  nextLink : t.nextLink = s.nextLink
  link : ∀ l, (t.link l).claimed = (s.link l).claimed ∧ (t.link l).authed = (s.link l).authed ∧
    (t.link l).instanceId = (s.link l).instanceId
  upstream : ∀ n, (t.upstream n).id = (s.upstream n).id ∧
    (t.upstream n).opts.instanceId = (s.upstream n).opts.instanceId ∧
    (t.upstream n).sink = (s.upstream n).sink
  state : ∀ n, (t.upstream n).state = (s.upstream n).state ∨
    (s.upstream n).state = .dialing ∧ (t.upstream n).state = .opened
  closing : ∀ n, (s.upstream n).closing = true → (t.upstream n).closing = true
  inert : ∀ n, (s.upstream n).Inert → (t.upstream n).Inert
  burst : ∀ n, (t.upstream n).state = .dialing → (t.upstream n).burstDone = (s.upstream n).burstDone

namespace Alike

variable {s t : Server}

theorem mapped_iff (h : s.Alike t) {n : SocketId} : t.Mapped n ↔ s.Mapped n := by
  simp only [Mapped, h.upstreams, (h.upstream n).1]

theorem claims_iff (h : s.Alike t) {l : LinkId} {n : SocketId} : t.Claims l n ↔ s.Claims l n := by
  simp only [Claims, (h.link l).1]

theorem wf (h : s.Alike t) (hs : s.Wf) : t.Wf where
  mapped := by
    intro id n hn
    rw [h.upstreams] at hn
    obtain ⟨hid, hlt, hst⟩ := hs.mapped hn
    refine ⟨(h.upstream n).1.trans hid, h.nextSocket ▸ hlt, ?_⟩
    rcases h.state n with he | ⟨-, he⟩
    · rwa [he]
    · rw [he]; exact nofun
  claims := by
    intro l n hc
    obtain ⟨hl, ha, hm, hsink, hi⟩ := hs.claims (h.claims_iff.mp hc)
    obtain ⟨-, hu2, hu3⟩ := h.upstream n
    obtain ⟨-, hl2, hl3⟩ := h.link l
    exact ⟨h.links ▸ hl, hl2.trans ha, h.mapped_iff.mpr hm, hu3.trans hsink,
      by rw [hu2, hl3, hi]⟩
  sink := by
    intro l n hm hsink
    rw [(h.upstream n).2.2] at hsink
    exact h.claims_iff.mpr (hs.sink (h.mapped_iff.mp hm) hsink)
  stray := by
    intro n hm
    rcases hs.stray (fun hn => hm (h.mapped_iff.mpr hn)) with h1 | h1
    · refine .inl ⟨(h.upstream n).2.2.trans h1.1, h1.2.imp (h.closing n) fun hst => ?_⟩
      rcases h.state n with he | ⟨he, -⟩
      · exact he.trans hst
      · rw [hst] at he; exact nomatch he
    · exact .inr (h.inert n h1)
  dialing := by
    intro n hd
    rw [h.burst n hd]
    rcases h.state n with he | ⟨-, he⟩
    · exact hs.dialing (he ▸ hd)
    · rw [he] at hd; exact nomatch hd
  links := by
    intro l hl
    rw [h.links] at hl
    rw [h.nextLink]
    exact hs.links hl

end Alike

section Effects

variable (s : Server) (l l' : LinkId) (n m : SocketId)

theorem write_claimed (k : AppLink) (fs : List Sent) : (k.write fs).claimed = k.claimed := by
  unfold AppLink.write; split <;> rfl

theorem write_authed (k : AppLink) (fs : List Sent) : (k.write fs).authed = k.authed := by
  unfold AppLink.write; split <;> rfl

theorem write_instanceId (k : AppLink) (fs : List Sent) :
    (k.write fs).instanceId = k.instanceId := by
  unfold AppLink.write; split <;> rfl

theorem write_destroyed (k : AppLink) (fs : List Sent) : (k.write fs).destroyed = k.destroyed := by
  unfold AppLink.write; split <;> rfl

/-- Changing a link in nothing that its claims depend on. -/
theorem alike_modifyLink {f : AppLink → AppLink}
    (hf : ∀ k, (f k).claimed = k.claimed ∧ (f k).authed = k.authed ∧
      (f k).instanceId = k.instanceId) : s.Alike (s.modifyLink l f) where
  upstreams := rfl
  nextSocket := rfl
  links := rfl
  nextLink := rfl
  link := by
    intro l'
    rw [modifyLink_link]
    split
    · rename_i h
      rw [h]
      exact hf _
    · exact ⟨rfl, rfl, rfl⟩
  upstream _ := ⟨rfl, rfl, rfl⟩
  state _ := .inl rfl
  closing _ h := h
  inert _ h := h
  burst _ _ := rfl

theorem alike_write (fs : List Sent) : s.Alike (s.modifyLink l (·.write fs)) :=
  s.alike_modifyLink l (fun k => ⟨write_claimed k fs, write_authed k fs, write_instanceId k fs⟩)

/-- Changing a socket in nothing that its claims depend on. -/
theorem alike_setUpstream {u : Upstream} (hid : u.id = (s.upstream n).id)
    (hi : u.opts.instanceId = (s.upstream n).opts.instanceId)
    (hsink : u.sink = (s.upstream n).sink)
    (hst : u.state = (s.upstream n).state ∨
      (s.upstream n).state = .dialing ∧ u.state = .opened)
    (hcl : (s.upstream n).closing = true → u.closing = true)
    (hin : (s.upstream n).Inert → u.Inert)
    (hb : u.state = .dialing → u.burstDone = (s.upstream n).burstDone) :
    s.Alike (s.setUpstream n u) where
  upstreams := rfl
  nextSocket := rfl
  links := rfl
  nextLink := rfl
  link _ := ⟨rfl, rfl, rfl⟩
  upstream m := by
    rw [setUpstream_upstream]
    split
    · rename_i h; subst h; exact ⟨hid, hi, hsink⟩
    · exact ⟨rfl, rfl, rfl⟩
  state m := by
    rw [setUpstream_upstream]
    split
    · rename_i h; subst h; exact hst
    · exact .inl rfl
  closing m := by
    rw [setUpstream_upstream]
    split
    · rename_i h; subst h; exact hcl
    · exact id
  inert m := by
    rw [setUpstream_upstream]
    split
    · rename_i h; subst h; exact hin
    · exact id
  burst m := by
    rw [setUpstream_upstream]
    split
    · rename_i h; subst h; exact hb
    · exact fun _ => rfl

theorem alike_keeps {u : Upstream} (h : (s.upstream n).Keeps u)
    (hb : u.state = .dialing → u.burstDone = (s.upstream n).burstDone) :
    s.Alike (s.setUpstream n u) :=
  s.alike_setUpstream n h.id h.instanceId h.sink (.inl h.state) h.closing h.inert hb

theorem Alike.trans {s t v : Server} (h : s.Alike t) (h' : t.Alike v) : s.Alike v where
  upstreams := h'.upstreams.trans h.upstreams
  nextSocket := h'.nextSocket.trans h.nextSocket
  links := h'.links.trans h.links
  nextLink := h'.nextLink.trans h.nextLink
  link l := by
    obtain ⟨h1, h2, h3⟩ := h.link l
    obtain ⟨h1', h2', h3'⟩ := h'.link l
    exact ⟨h1'.trans h1, h2'.trans h2, h3'.trans h3⟩
  upstream n := by
    obtain ⟨h1, h2, h3⟩ := h.upstream n
    obtain ⟨h1', h2', h3'⟩ := h'.upstream n
    exact ⟨h1'.trans h1, h2'.trans h2, h3'.trans h3⟩
  state n := by
    rcases h.state n with h1 | ⟨h1, h2⟩ <;> rcases h'.state n with h1' | ⟨h1', h2'⟩
    · exact .inl (h1'.trans h1)
    · exact .inr ⟨h1 ▸ h1', h2'⟩
    · exact .inr ⟨h1, h1'.trans h2⟩
    · rw [h2] at h1'; exact nomatch h1'
  closing n := h'.closing n ∘ h.closing n
  inert n := h'.inert n ∘ h.inert n
  burst n hd := by
    have hd' : (t.upstream n).state = .dialing := by
      rcases h'.state n with h1' | ⟨h1', h2'⟩
      · rw [← h1']; exact hd
      · rw [h2'] at hd; exact nomatch hd
    rw [h'.burst n hd, h.burst n hd']

theorem deliver_upstream (op : (Nat → Bool) → Upstream → Upstream.Delivery) :
    (s.deliver n op).upstream m =
      if m = n then (op (s.sinkTakes n) (s.upstream n)).1 else s.upstream m := by
  unfold deliver
  split
  · exact setUpstream_upstream _ _ _ _
  · exact setUpstream_upstream _ _ _ _

/-- A delivery writes to the sink's link, and nowhere else. -/
theorem deliver_link (op : (Nat → Bool) → Upstream → Upstream.Delivery) :
    (s.deliver n op).link l =
      if (s.upstream n).sink = some l then
        (s.link l).write (s.fromSocket l n (op (s.sinkTakes n) (s.upstream n)).2)
      else s.link l := by
  unfold deliver
  split
  · rename_i h
    rw [h, if_neg nofun]
    rfl
  · rename_i l' h
    rw [h, modifyLink_link]
    by_cases hl : l = l'
    · subst hl; simp
    · rw [if_neg hl, if_neg (fun h' => hl (Option.some.inj h').symm)]
      rfl

theorem deliver_frame (op : (Nat → Bool) → Upstream → Upstream.Delivery) :
    (s.deliver n op).upstreams = s.upstreams ∧ (s.deliver n op).links = s.links ∧
      (s.deliver n op).nextLink = s.nextLink ∧ (s.deliver n op).nextSocket = s.nextSocket ∧
      (s.deliver n op).now = s.now ∧ (s.deliver n op).releasedBy = s.releasedBy := by
  unfold deliver
  split <;> exact ⟨rfl, rfl, rfl, rfl, rfl, rfl⟩

theorem alike_deliver {op : (Nat → Bool) → Upstream → Upstream.Delivery}
    (h : s.Alike (s.setUpstream n (op (s.sinkTakes n) (s.upstream n)).1)) :
    s.Alike (s.deliver n op) := by
  unfold deliver
  split
  · exact h
  · exact h.trans (alike_write _ _ _)

theorem alike_flush {op : (Nat → Bool) → Upstream → Upstream.Delivery}
    (hop : ∀ ok u, Upstream.Emits u (op ok u).2 (op ok u).1) : s.Alike (s.deliver n op) := by
  obtain ⟨h, hsink, -⟩ := (hop (s.sinkTakes n) (s.upstream n)).sameSocket
  exact s.alike_deliver n (s.alike_setUpstream n h.id (congrArg (·.instanceId) h.opts) hsink
    (.inl h.state) (fun hc => h.closing.trans hc) h.inert (fun _ => h.burstDone))

theorem alike_opened (hd : (s.upstream n).state = .dialing) (r r' : Endpoint) :
    s.Alike (s.deliver n (fun _ u => u.onOpen r r')) := by
  apply alike_deliver
  simp only [Upstream.onOpen]
  split
  · exact s.alike_keeps n (.refl _) (fun _ => rfl)
  · rename_i hs
    refine s.alike_setUpstream n rfl rfl rfl (.inr ⟨hd, rfl⟩) id (fun hi => ?_) nofun
    simp [hi.1] at hs

theorem reclaim_upstream :
    ∃ j, s.reclaim.upstream n =
      { s.upstream n with buffer := (s.upstream n).buffer.drops s.now j } := by
  obtain ⟨j, hj, -⟩ := s.budget.reclaim_drops s.now (fun n => (s.upstream n).buffer) n
  exact ⟨j, by simp only [reclaim, hj]⟩

/-- A pushed line is numbered, and the byte caps then drop what they must. -/
theorem pushLine_upstream (line : String) :
    ∃ j, (s.pushLine n line).upstream m =
      if m = n then
        { s.upstream n with buffer := ((s.upstream n).buffer.append line).drops s.now j }
      else { s.upstream m with buffer := (s.upstream m).buffer.drops s.now j } := by
  obtain ⟨⟨i, hi, -⟩, -⟩ := ((s.upstream n).buffer.append line).trim_spec s.now
  obtain ⟨j, hj⟩ := (s.modifyUpstream n (fun u =>
    { u with buffer := (u.buffer.append line).trim s.now })).reclaim_upstream m
  simp only [pushLine]
  rw [hj]
  simp only [modifyUpstream, setUpstream_upstream, setUpstream_now]
  by_cases hm : m = n
  · refine ⟨i + j, ?_⟩
    simp only [hm, ↓reduceIte, hi, LineBuffer.drops_drops]
  · exact ⟨j, by simp only [hm, ↓reduceIte]⟩

theorem pushLine_nextSeq (line : String) :
    ((s.pushLine n line).upstream n).buffer.nextSeq = (s.upstream n).buffer.nextSeq + 1 := by
  obtain ⟨j, hj⟩ := s.pushLine_upstream n n line
  rw [hj, if_pos rfl]
  exact LineBuffer.nextSeq_drops _ _ _

theorem alike_push (line : String) : s.Alike (s.pushLine n line) where
  upstreams := rfl
  nextSocket := rfl
  links := rfl
  nextLink := rfl
  link _ := ⟨rfl, rfl, rfl⟩
  upstream m := by
    obtain ⟨j, hj⟩ := s.pushLine_upstream n m line
    rw [hj]
    split
    · rename_i h; subst h; exact ⟨rfl, rfl, rfl⟩
    · exact ⟨rfl, rfl, rfl⟩
  state m := by
    obtain ⟨j, hj⟩ := s.pushLine_upstream n m line
    rw [hj]
    split
    · rename_i h; subst h; exact .inl rfl
    · exact .inl rfl
  closing m hm := by
    obtain ⟨j, hj⟩ := s.pushLine_upstream n m line
    rw [hj]
    split
    · rename_i h; subst h; exact hm
    · exact hm
  inert m hm := by
    obtain ⟨j, hj⟩ := s.pushLine_upstream n m line
    rw [hj]
    split
    · rename_i h; subst h; exact hm
    · exact hm
  burst m _ := by
    obtain ⟨j, hj⟩ := s.pushLine_upstream n m line
    rw [hj]
    split
    · rename_i h; subst h; rfl
    · rfl

theorem alike_ack (seq : Int) : s.Alike (s.modifyUpstream n (·.ack seq)) :=
  s.alike_setUpstream n rfl rfl rfl (.inl rfl) id id (fun _ => rfl)

theorem offerOne_link (except : Option LinkId) :
    (s.offerOne n except).link l = s.link l ∨
      s.isSession n = true ∧ l ∈ s.links ∧ s.offersTo n except l = true ∧
        (s.offerOne n except).link l =
          (s.link l).write [{ frame := .held (s.upstream n).id, origin := .notice n }] := by
  unfold offerOne
  split
  · rename_i h
    simp only
    split
    · rename_i hl
      exact .inr ⟨(Bool.and_eq_true _ _ ▸ h).1, hl.1, hl.2, rfl⟩
    · exact .inl rfl
  · exact .inl rfl

theorem offerOne_frame (except : Option LinkId) :
    (s.offerOne n except).upstream = s.upstream ∧ (s.offerOne n except).upstreams = s.upstreams ∧
      (s.offerOne n except).links = s.links ∧ (s.offerOne n except).nextLink = s.nextLink ∧
      (s.offerOne n except).nextSocket = s.nextSocket := by
  unfold offerOne
  split <;> exact ⟨rfl, rfl, rfl, rfl, rfl⟩

theorem alike_offerOne (except : Option LinkId) : s.Alike (s.offerOne n except) := by
  obtain ⟨h1, h2, h3, h4, h5⟩ := s.offerOne_frame n except
  refine ⟨h2, h5, h3, h4, fun l => ?_, fun m => ?_, fun m => ?_, fun m hm => ?_, fun m hm => ?_,
    fun m _ => ?_⟩
  · rcases s.offerOne_link l n except with h | ⟨-, -, -, h⟩
    · rw [h]; exact ⟨rfl, rfl, rfl⟩
    · rw [h]; exact ⟨write_claimed _ _, write_authed _ _, write_instanceId _ _⟩
  · rw [h1]; exact ⟨rfl, rfl, rfl⟩
  · rw [h1]; exact .inl rfl
  · rw [h1]; exact hm
  · rw [h1]; exact hm
  · rw [h1]

end Effects

section ClaimMoves

variable {s t : Server} {l l' : LinkId} {n m : SocketId}

theorem claims_claim : (s.claim l n).Claims l' m ↔ s.Claims l' m ∨ l' = l ∧ m = n := by
  have hk : ∀ k : AppLink, m ∈ (k.claim n).claimed ↔ m ∈ k.claimed ∨ m = n := by
    intro k
    unfold AppLink.claim
    split
    · rename_i h
      exact ⟨.inl, fun h' => h'.elim id (fun h'' => h'' ▸ h)⟩
    · simp
  simp only [Claims, claim, modifyLink_link]
  split
  · rename_i h; subst h; simp [hk]
  · rename_i h; simp [h]

theorem claims_unclaim : (s.unclaim l n).Claims l' m ↔ s.Claims l' m ∧ ¬(l' = l ∧ m = n) := by
  simp only [Claims, unclaim, modifyLink_link]
  split
  · rename_i h; subst h; simp [AppLink.unclaim]
  · rename_i h; simp [h]

theorem unclaim_link : ((s.unclaim l n).link l').authed = (s.link l').authed ∧
    ((s.unclaim l n).link l').instanceId = (s.link l').instanceId ∧
    ((s.unclaim l n).link l').sent = (s.link l').sent ∧
    ((s.unclaim l n).link l').destroyed = (s.link l').destroyed ∧
    ((s.unclaim l n).link l').read = (s.link l').read := by
  simp only [unclaim, modifyLink_link]
  split
  · rename_i h; subst h; exact ⟨rfl, rfl, rfl, rfl, rfl⟩
  · exact ⟨rfl, rfl, rfl, rfl, rfl⟩

theorem claims_unclaimAll (hs : s.Wf) :
    (s.unclaimAll n).Claims l m ↔ s.Claims l m ∧ m ≠ n := by
  simp only [Claims, unclaimAll]
  split
  · simp [AppLink.unclaim]
  · rename_i h
    constructor
    · intro hc
      exact absurd (hs.claims hc).1 h
    · exact fun hc => absurd (hs.claims hc.1).1 h

/-- Sessions let go of: each loses its claim and its sink together. -/
theorem Wf.letGone (hs : s.Wf) (gone : SocketId → Prop) (hup : t.upstreams = s.upstreams)
    (hns : t.nextSocket = s.nextSocket) (hnl : t.nextLink = s.nextLink)
    (hlinks : ∀ {l}, l ∈ t.links → l ∈ s.links)
    (hlink : ∀ l, (t.link l).authed = (s.link l).authed ∧
      (t.link l).instanceId = (s.link l).instanceId)
    (hcl : ∀ {l m}, t.Claims l m ↔ s.Claims l m ∧ ¬ gone m)
    (hin : ∀ {l m}, t.Claims l m → l ∈ t.links)
    (hgone : ∀ {m}, gone m → (s.upstream m).SameSocket (t.upstream m) ∧ (t.upstream m).sink = none)
    (hkept : ∀ {m}, ¬ gone m → t.upstream m = s.upstream m) : t.Wf := by
  have hsame : ∀ m, (s.upstream m).SameSocket (t.upstream m) := by
    intro m
    by_cases h : gone m
    · exact (hgone h).1
    · rw [hkept h]; exact .refl _
  have hmap : ∀ {m}, t.Mapped m ↔ s.Mapped m := by
    intro m
    simp only [Mapped, hup, (hsame m).id]
  refine ⟨?_, ?_, ?_, ?_, ?_, ?_⟩
  · intro id m hm
    rw [hup] at hm
    obtain ⟨h1, h2, h3⟩ := hs.mapped hm
    exact ⟨(hsame m).id.trans h1, hns ▸ h2, (hsame m).state ▸ h3⟩
  · intro l m hc
    obtain ⟨hc', hg⟩ := hcl.mp hc
    obtain ⟨-, ha, hm, hsink, hi⟩ := hs.claims hc'
    exact ⟨hin hc, (hlink l).1.trans ha, hmap.mpr hm, by rw [hkept hg]; exact hsink,
      by rw [(hsame m).opts, (hlink l).2]; exact hi⟩
  · intro l m hm hsink
    by_cases hg : gone m
    · rw [(hgone hg).2] at hsink; cases hsink
    · rw [hkept hg] at hsink
      exact hcl.mpr ⟨hs.sink (hmap.mp hm) hsink, hg⟩
  · intro m hm
    refine (hs.stray (fun h => hm (hmap.mpr h))).imp (fun ho => (hsame m).isOver ?_ ho) (hsame m).inert
    by_cases hg : gone m
    · exact (hgone hg).2
    · rw [hkept hg]; exact ho.1
  · intro m hd
    rw [(hsame m).state] at hd
    rw [(hsame m).burstDone]
    exact hs.dialing hd
  · intro l hl
    rw [hnl]
    exact hs.links (hlinks hl)

/-- At most one link claims a socket: its sink. -/
theorem Wf.claims_unique (hs : s.Wf) (h : s.Claims l n) (h' : s.Claims l' n) : l = l' :=
  Option.some.inj ((hs.claims h).2.2.2.1.symm.trans (hs.claims h').2.2.2.1)

theorem unclaimAll_link : ((s.unclaimAll n).link l).authed = (s.link l).authed ∧
    ((s.unclaimAll n).link l).instanceId = (s.link l).instanceId ∧
    ((s.unclaimAll n).link l).sent = (s.link l).sent ∧
    ((s.unclaimAll n).link l).destroyed = (s.link l).destroyed ∧
    ((s.unclaimAll n).link l).read = (s.link l).read := by
  simp only [unclaimAll]
  split <;> exact ⟨rfl, rfl, rfl, rfl, rfl⟩

theorem retire_upstream :
    (s.retire n).upstream m = if m = n then (s.upstream n).silence s.now else s.upstream m :=
  setUpstream_upstream _ _ _ _

theorem Wf.retire (hs : s.Wf) (n : SocketId) : (s.retire n).Wf := by
  have hcl : ∀ {l m}, (s.retire n).Claims l m ↔ s.Claims l m ∧ ¬ m = n := claims_unclaimAll hs
  refine hs.letGone (· = n) rfl rfl rfl id (fun l => ?_) hcl (fun hc => ?_) ?_ ?_
  · exact ⟨unclaimAll_link.1, unclaimAll_link.2.1⟩
  · exact (hs.claims (hcl.mp hc).1).1
  · rintro m rfl
    rw [retire_upstream, if_pos rfl]
    exact ⟨(Upstream.sameSocket_silence _ _).1, (Upstream.sameSocket_silence _ _).2.1⟩
  · intro m hm
    rw [retire_upstream, if_neg hm]

theorem Wf.cut (hs : s.Wf) (n : SocketId) : ((s.retire n).modifyUpstream n (·.close.1)).Wf :=
  ((s.retire n).alike_keeps n (Upstream.keeps_close _)
    (fun _ => Upstream.burstDone_close _)).wf (hs.retire n)

theorem letGo_upstream : (s.letGo l n).upstream m =
    if m = n then (s.upstream n).detach s.now else s.upstream m :=
  setUpstream_upstream _ _ _ _

theorem Wf.letGo (hs : s.Wf) (h : s.Claims l n) : (s.letGo l n).Wf := by
  have hcl : ∀ {l' m}, (s.letGo l n).Claims l' m ↔ s.Claims l' m ∧ ¬ m = n := by
    intro l' m
    refine (claims_unclaim (s := s)).trans (and_congr_right fun hc => not_congr ?_)
    refine ⟨And.right, fun hm => ⟨?_, hm⟩⟩
    subst hm
    exact hs.claims_unique hc h
  refine hs.letGone (· = n) rfl rfl rfl id (fun l' => ?_) hcl (fun hc => ?_) ?_ ?_
  · exact ⟨unclaim_link.1, unclaim_link.2.1⟩
  · exact (hs.claims (hcl.mp hc).1).1
  · rintro m rfl
    rw [letGo_upstream, if_pos rfl]
    exact ⟨(Upstream.sameSocket_detach _ _).1, (Upstream.sameSocket_detach _ _).2.1⟩
  · intro m hm
    rw [letGo_upstream, if_neg hm]

theorem foldl_detach (released : List SocketId) :
    let t := released.foldl (fun s n => s.modifyUpstream n (·.detach s.now)) s
    t.upstreams = s.upstreams ∧ t.nextSocket = s.nextSocket ∧ t.nextLink = s.nextLink ∧
      t.links = s.links ∧ t.link = s.link ∧ t.releasedBy = s.releasedBy ∧
      ∀ m, t.upstream m = if m ∈ released then (s.upstream m).detach s.now else s.upstream m := by
  induction released generalizing s with
  | nil => exact ⟨rfl, rfl, rfl, rfl, rfl, rfl, fun m => by simp⟩
  | cons n rest ih =>
    obtain ⟨h1, h2, h3, h4, h5, h6, h7⟩ := ih (s := s.modifyUpstream n (·.detach s.now))
    refine ⟨h1, h2, h3, h4, h5, h6, fun m => ?_⟩
    simp only [List.foldl_cons]
    rw [h7 m]
    simp only [modifyUpstream, setUpstream_upstream, setUpstream_now, List.mem_cons]
    by_cases hm : m = n
    · subst hm
      simp only [↓reduceIte, true_or]
      split
      · exact Upstream.detach_of_none (Upstream.sameSocket_detach _ _).2.1 _
      · rfl
    · simp only [hm, ↓reduceIte, false_or]

theorem dropLink_spec : (s.dropLink l).upstreams = s.upstreams ∧
    (s.dropLink l).nextSocket = s.nextSocket ∧ (s.dropLink l).nextLink = s.nextLink ∧
    (s.dropLink l).links = s.links.filter (· ≠ l) ∧ (s.dropLink l).releasedBy = s.releasedBy ∧
    (∀ l', (s.dropLink l).link l' = if l' = l then
      { s.link l with claimed := [], destroyed := true } else s.link l') ∧
    ∀ m, (s.dropLink l).upstream m =
      if s.Claims l m then (s.upstream m).detach s.now else s.upstream m := by
  obtain ⟨h1, h2, h3, h4, h5, h6, h7⟩ :=
    foldl_detach (s := { s with links := s.links.filter (· ≠ l) }) (s.link l).claimed
  refine ⟨h1, h2, h3, h4, h6, fun l' => ?_, h7⟩
  simp only [dropLink, modifyLink_link, h5]

theorem Wf.dropLink (hs : s.Wf) (l : LinkId) : (s.dropLink l).Wf := by
  obtain ⟨hup, hns, hnl, hlinks, -, hlink, hu⟩ := s.dropLink_spec (l := l)
  have hcl : ∀ {l' m}, (s.dropLink l).Claims l' m ↔ s.Claims l' m ∧ ¬ s.Claims l m := by
    intro l' m
    simp only [Claims, hlink]
    split
    · rename_i h; subst h; simp
    · rename_i h
      refine ⟨fun hc => ⟨hc, fun hc' => h (hs.claims_unique hc hc')⟩, And.left⟩
  refine hs.letGone (s.Claims l) hup hns hnl ?_ ?_ hcl ?_ ?_ ?_
  · intro l' hl'
    rw [hlinks] at hl'
    exact List.mem_of_mem_filter hl'
  · intro l'
    rw [hlink]
    split
    · rename_i h; subst h; exact ⟨rfl, rfl⟩
    · exact ⟨rfl, rfl⟩
  · intro l' m hc
    obtain ⟨hc', hn⟩ := hcl.mp hc
    rw [hlinks, List.mem_filter]
    refine ⟨(hs.claims hc').1, ?_⟩
    simp only [ne_eq, decide_eq_true_eq]
    rintro rfl
    exact hn hc'
  · intro m hg
    rw [hu, if_pos hg]
    exact ⟨(Upstream.sameSocket_detach _ _).1, (Upstream.sameSocket_detach _ _).2.1⟩
  · intro m hg
    rw [hu, if_neg hg]

/-- What the end of a socket leaves behind. -/
theorem onUpstreamClose_spec (hst : (s.upstream n).state ≠ .closed) :
    (s.onUpstreamClose n).upstreams =
        (if s.Mapped n then s.upstreams.delete (s.upstream n).id else s.upstreams) ∧
      (s.onUpstreamClose n).links = s.links ∧ (s.onUpstreamClose n).nextLink = s.nextLink ∧
      (s.onUpstreamClose n).nextSocket = s.nextSocket ∧
      (s.onUpstreamClose n).releasedBy = s.releasedBy ∧
      (∀ m, (s.onUpstreamClose n).upstream m =
        if m = n then (s.upstream n).onClose.1 else s.upstream m) ∧
      ∀ l, (s.onUpstreamClose n).link l =
        let k := (s.deliver n (fun _ u => u.onClose)).link l
        if l ∈ s.links then k.unclaim n else k := by
  obtain ⟨hup, hl, hnl, hns, -, hrel⟩ := s.deliver_frame n (fun _ u => u.onClose)
  have hid : ((s.deliver n (fun _ u => u.onClose)).upstream n).id = (s.upstream n).id := by
    rw [deliver_upstream, if_pos rfl]
    exact congrArg (·.dial.id) (Upstream.onClose_spec hst).1
  simp only [onUpstreamClose, if_neg hst, unclaimAll, hid, hup, Mapped]
  refine ⟨?_, ?_, ?_, ?_, ?_, ?_, ?_⟩
  · split <;> rename_i h <;> simp only [h, ↓reduceIte]
  · split <;> exact hl
  · split <;> exact hnl
  · split <;> exact hns
  · split <;> exact hrel
  · intro m
    rw [← deliver_upstream s n m (fun _ u => u.onClose)]
    split <;> rfl
  · intro l
    split <;> simp only [hl]

theorem deliver_link_keeps (op : (Nat → Bool) → Upstream → Upstream.Delivery) :
    ((s.deliver n op).link l).claimed = (s.link l).claimed ∧
      ((s.deliver n op).link l).authed = (s.link l).authed ∧
      ((s.deliver n op).link l).instanceId = (s.link l).instanceId ∧
      ((s.deliver n op).link l).destroyed = (s.link l).destroyed := by
  rw [deliver_link]
  split
  · exact ⟨write_claimed _ _, write_authed _ _, write_instanceId _ _, write_destroyed _ _⟩
  · exact ⟨rfl, rfl, rfl, rfl⟩

theorem onUpstreamClose_link (hst : (s.upstream n).state ≠ .closed) :
    ((s.onUpstreamClose n).link l).authed = (s.link l).authed ∧
      ((s.onUpstreamClose n).link l).instanceId = (s.link l).instanceId ∧
      ((s.onUpstreamClose n).link l).destroyed = (s.link l).destroyed := by
  rw [(onUpstreamClose_spec hst).2.2.2.2.2.2]
  simp only
  split
  · exact (deliver_link_keeps _).2
  · exact (deliver_link_keeps _).2

/-- The end of a socket takes its claims with it. -/
theorem claims_onUpstreamClose (hs : s.Wf) (hst : (s.upstream n).state ≠ .closed) :
    (s.onUpstreamClose n).Claims l m ↔ s.Claims l m ∧ m ≠ n := by
  simp only [Claims, (onUpstreamClose_spec hst).2.2.2.2.2.2]
  split
  · simp [AppLink.unclaim, (deliver_link_keeps _).1]
  · rename_i h
    rw [(deliver_link_keeps _).1]
    exact ⟨fun hc => absurd (hs.claims hc).1 h, fun hc => absurd (hs.claims hc.1).1 h⟩

theorem Wf.ended (hs : s.Wf) (n : SocketId) : (s.onUpstreamClose n).Wf := by
  by_cases hst : (s.upstream n).state = .closed
  · rw [onUpstreamClose, if_pos hst]; exact hs
  obtain ⟨hup, hlinks, hnl, hns, -, hu, -⟩ := onUpstreamClose_spec hst
  obtain ⟨ho, hcs, hsink, -⟩ := Upstream.onClose_spec hst
  have hid : ∀ m, ((s.onUpstreamClose n).upstream m).id = (s.upstream m).id := by
    intro m
    rw [hu]
    split
    · rename_i h; subst h; exact congrArg (·.dial.id) ho
    · rfl
  have hget : ∀ {id m}, (s.onUpstreamClose n).upstreams.get? id = some m ↔
      s.upstreams.get? id = some m ∧ m ≠ n := by
    intro id m
    rw [hup]
    split
    · rename_i hm
      rw [OrderedMap.get?_delete]
      split
      · rename_i h
        subst h
        exact ⟨fun h => (by cases h), fun h => absurd (Option.some.inj (h.1.symm.trans hm)) h.2⟩
      · rename_i h
        refine ⟨fun h' => ⟨h', ?_⟩, And.left⟩
        rintro rfl
        exact h (hs.mapped h').1.symm
    · rename_i hm
      refine ⟨fun h' => ⟨h', ?_⟩, And.left⟩
      rintro rfl
      exact hm (by rw [Mapped, (hs.mapped h').1]; exact h')
  have hmap : ∀ {m}, (s.onUpstreamClose n).Mapped m ↔ s.Mapped m ∧ m ≠ n := by
    intro m
    simp only [Mapped, hid, hget]
  have hlink := fun l => onUpstreamClose_link (l := l) hst
  have hcl := fun {l m} => claims_onUpstreamClose (l := l) (m := m) hs hst
  refine ⟨?_, ?_, ?_, ?_, ?_, ?_⟩
  · intro id m hm
    obtain ⟨hm, hne⟩ := hget.mp hm
    obtain ⟨h1, h2, h3⟩ := hs.mapped hm
    exact ⟨(hid m).trans h1, hns ▸ h2, by rw [hu, if_neg hne]; exact h3⟩
  · intro l m hc
    obtain ⟨hc, hne⟩ := hcl.mp hc
    obtain ⟨h1, h2, h3, h4, h5⟩ := hs.claims hc
    rw [hlinks, (hlink l).1, (hlink l).2.1, hu, if_neg hne]
    exact ⟨h1, h2, hmap.mpr ⟨h3, hne⟩, h4, h5⟩
  · intro l m hm hsink'
    obtain ⟨hm, hne⟩ := hmap.mp hm
    rw [hu, if_neg hne] at hsink'
    exact hcl.mpr ⟨hs.sink hm hsink', hne⟩
  · intro m hm
    rw [hu]
    split
    · exact .inl ⟨hsink, .inr hcs⟩
    · rename_i hne
      exact hs.stray (fun h => hm (hmap.mpr ⟨h, hne⟩))
  · intro m hd
    rw [hu] at hd ⊢
    by_cases hm : m = n
    · rw [if_pos hm, hcs] at hd; cases hd
    · rw [if_neg hm] at hd ⊢; exact hs.dialing hd
  · intro l hl'
    rw [hlinks] at hl'
    rw [hnl]
    exact hs.links hl'

theorem holderOf_some {except : Option LinkId} (h : s.holderOf n except = some l) :
    l ∈ s.links ∧ s.Claims l n ∧ some l ≠ except := by
  have hm := List.mem_of_find?_eq_some h
  have hp := List.find?_some h
  simp only [Bool.and_eq_true, decide_eq_true_eq] at hp
  exact ⟨hm, hp.2, hp.1⟩

theorem holderOf_none (hs : s.Wf) {except : Option LinkId} (h : s.holderOf n except = none)
    (hc : s.Claims l n) : some l = except := by
  have hp := List.find?_eq_none.mp h l (hs.claims hc).1
  simp only [Bool.and_eq_true, decide_eq_true_eq, not_and] at hp
  by_contra hne
  exact hp hne hc

/-- A contest the link wins: nobody else claimed the socket, or no newer process
did, which has been told. -/
theorem contest_won (h : s.contest l n = (t, none)) :
    s.holderOf n (some l) = none ∧ t = s ∨
      ∃ other, s.holderOf n (some l) = some other ∧
        (s.link other).generation ≤ (s.link l).generation ∧
        t = (s.unclaim other n).send other (.notice n) (.detached (s.upstream n).id) := by
  unfold contest at h
  split at h
  · rename_i ho
    exact .inl ⟨ho, (Prod.mk.inj h).1.symm⟩
  · rename_i other ho
    split at h
    · exact nomatch (Prod.mk.inj h).2
    · rename_i hg
      exact .inr ⟨other, ho, by omega, (Prod.mk.inj h).1.symm⟩

/-- A contest the link loses changes nothing. -/
theorem contest_lost (h : s.contest l n = (t, some l')) : t = s := by
  unfold contest at h
  split at h
  · exact nomatch (Prod.mk.inj h).2
  · split at h
    · exact (Prod.mk.inj h).1.symm
    · exact nomatch (Prod.mk.inj h).2

theorem contest_upstream (h : s.contest l n = (t, none)) :
    t.upstream = s.upstream ∧ t.upstreams = s.upstreams ∧ t.links = s.links ∧
      t.nextLink = s.nextLink ∧ t.nextSocket = s.nextSocket ∧ t.releasedBy = s.releasedBy ∧
      ∀ l', (t.link l').authed = (s.link l').authed ∧
        (t.link l').instanceId = (s.link l').instanceId ∧
        (t.link l').destroyed = (s.link l').destroyed := by
  rcases contest_won h with ⟨-, rfl⟩ | ⟨other, -, -, rfl⟩
  · exact ⟨rfl, rfl, rfl, rfl, rfl, rfl, fun _ => ⟨rfl, rfl, rfl⟩⟩
  · refine ⟨rfl, rfl, rfl, rfl, rfl, rfl, fun l' => ?_⟩
    simp only [send, unclaim, modifyLink_link]
    by_cases hl : l' = other
    · subst hl
      simp only [↓reduceIte, write_authed, write_instanceId, write_destroyed]
      exact ⟨rfl, rfl, rfl⟩
    · simp only [if_neg hl, and_self]

/-- Winning a contest takes the claim from whoever else had it. -/
theorem contest_claims (hs : s.Wf) (h : s.contest l n = (t, none)) :
    t.Claims l' m ↔ s.Claims l' m ∧ ¬(m = n ∧ l' ≠ l) := by
  rcases contest_won h with ⟨ho, rfl⟩ | ⟨other, ho, -, rfl⟩
  · refine ⟨fun hc => ⟨hc, ?_⟩, And.left⟩
    rintro ⟨rfl, hne⟩
    exact hne (Option.some.inj (holderOf_none hs ho hc))
  · obtain ⟨-, hco, hne⟩ := holderOf_some ho
    have hw : ((s.unclaim other n).send other (.notice n)
        (.detached (s.upstream n).id)).Claims l' m ↔ (s.unclaim other n).Claims l' m :=
      (alike_write _ _ _).claims_iff
    rw [hw, claims_unclaim]
    refine and_congr_right fun hc => not_congr ⟨?_, ?_⟩
    · rintro ⟨rfl, rfl⟩
      exact ⟨rfl, fun h => hne (congrArg some h)⟩
    · rintro ⟨rfl, -⟩
      exact ⟨hs.claims_unique hc hco, rfl⟩

theorem attachTo_spec (k : Nat) :
    (∀ m, (t.attachTo l k n).1.upstream m =
        if m = n then ((t.upstream n).attach t.now l k).1 else t.upstream m) ∧
      (t.attachTo l k n).2 = ((t.upstream n).attach t.now l k).2 ∧
      (t.attachTo l k n).1.link = (t.claim l n).link :=
  ⟨fun _ => setUpstream_upstream _ _ _ _, rfl, rfl⟩

theorem claim_link : ((s.claim l n).link l').authed = (s.link l').authed ∧
    ((s.claim l n).link l').instanceId = (s.link l').instanceId ∧
    ((s.claim l n).link l').sent = (s.link l').sent ∧
    ((s.claim l n).link l').destroyed = (s.link l').destroyed ∧
    ((s.claim l n).link l').read = (s.link l').read := by
  simp only [claim, modifyLink_link]
  split
  · rename_i h
    subst h
    unfold AppLink.claim
    split <;> exact ⟨rfl, rfl, rfl, rfl, rfl⟩
  · exact ⟨rfl, rfl, rfl, rfl, rfl⟩

/-- A socket gets its link: its id means it, and nobody loses a sink to it. -/
theorem Wf.taken (hs : s.Wf) {u : Upstream}
    (hup : ∀ m, t.upstream m = if m = n then u else s.upstream m)
    (hget : ∀ id, t.upstreams.get? id = if id = u.id then some n else s.upstreams.get? id)
    (hcl : ∀ {l' m}, t.Claims l' m ↔ s.Claims l' m ∧ m ≠ n ∨ l' = l ∧ m = n)
    (hlink : ∀ l', (t.link l').authed = (s.link l').authed ∧
      (t.link l').instanceId = (s.link l').instanceId)
    (hlinks : t.links = s.links) (hnl : t.nextLink = s.nextLink)
    (hns : s.nextSocket ≤ t.nextSocket) (hnn : n < t.nextSocket)
    (hl : l ∈ s.links) (ha : (s.link l).authed = true)
    (hsink : u.sink = some l) (hi : u.opts.instanceId = (s.link l).instanceId)
    (hst : u.state ≠ .closed) (hd : u.state = .dialing → u.burstDone = false)
    (hold : ∀ {m}, m ≠ n → s.upstreams.get? u.id = some m → (s.upstream m).Over)
    (hn : ∀ {id}, s.upstreams.get? id = some n → id = u.id) : t.Wf := by
  have hother : ∀ {m}, m ≠ n → t.upstream m = s.upstream m := fun h => by rw [hup, if_neg h]
  have hself : t.upstream n = u := by rw [hup, if_pos rfl]
  have hmapn : t.Mapped n := by rw [Mapped, hself, hget, if_pos rfl]
  have hmap : ∀ {m}, m ≠ n → (t.Mapped m ↔ s.Mapped m ∧ (s.upstream m).id ≠ u.id) := by
    intro m hm
    rw [Mapped, hother hm, hget]
    split
    · rename_i h
      exact ⟨fun h' => absurd (Option.some.inj h').symm hm, fun h' => absurd h h'.2⟩
    · rename_i h
      exact ⟨fun h' => ⟨h', h⟩, And.left⟩
  refine ⟨?_, ?_, ?_, ?_, ?_, ?_⟩
  · intro id m hm
    rw [hget] at hm
    split at hm
    · rename_i h
      obtain rfl := Option.some.inj hm
      exact ⟨by rw [hself, h], hnn, by rw [hself]; exact hst⟩
    · rename_i h
      have hne : m ≠ n := by rintro rfl; exact h (hn hm)
      obtain ⟨h1, h2, h3⟩ := hs.mapped hm
      rw [hother hne]
      exact ⟨h1, Nat.lt_of_lt_of_le h2 hns, h3⟩
  · intro l' m hc
    rcases hcl.mp hc with ⟨hc, hne⟩ | ⟨rfl, rfl⟩
    · obtain ⟨h1, h2, h3, h4, h5⟩ := hs.claims hc
      have hid : (s.upstream m).id ≠ u.id := by
        intro he
        rw [(hold hne (he ▸ h3)).1] at h4
        cases h4
      rw [hother hne, hlinks, (hlink l').1, (hlink l').2]
      exact ⟨h1, h2, (hmap hne).mpr ⟨h3, hid⟩, h4, h5⟩
    · rw [hself, hlinks, (hlink l').1, (hlink l').2]
      exact ⟨hl, ha, hmapn, hsink, hi⟩
  · intro l' m hm hs'
    by_cases hne : m = n
    · subst hne
      rw [hself, hsink] at hs'
      exact hcl.mpr (.inr ⟨(Option.some.inj hs').symm, rfl⟩)
    · rw [hother hne] at hs'
      exact hcl.mpr (.inl ⟨hs.sink ((hmap hne).mp hm).1 hs', hne⟩)
  · intro m hm
    have hne : m ≠ n := by rintro rfl; exact hm hmapn
    rw [hother hne]
    by_cases hsm : s.Mapped m
    · have hid : (s.upstream m).id = u.id := by
        by_contra h
        exact hm ((hmap hne).mpr ⟨hsm, h⟩)
      exact .inl (hold hne (hid ▸ hsm))
    · exact hs.stray hsm
  · intro m hd'
    by_cases hne : m = n
    · subst hne
      rw [hself] at hd' ⊢
      exact hd hd'
    · rw [hother hne] at hd' ⊢
      exact hs.dialing hd'
  · intro l' hl'
    rw [hlinks] at hl'
    rw [hnl]
    exact hs.links hl'

/-- Attaching takes over the one claim there is. -/
theorem claims_attachTo (hs : s.Wf) (hw : s.contest l n = (t, none)) (k : Nat) :
    (t.attachTo l k n).1.Claims l' m ↔ s.Claims l' m ∧ m ≠ n ∨ l' = l ∧ m = n := by
  have h1 : (t.attachTo l k n).1.Claims l' m ↔ (t.claim l n).Claims l' m := by
    simp only [Claims, (attachTo_spec k).2.2]
  rw [h1, claims_claim, contest_claims hs hw]
  constructor
  · rintro (⟨hc, hne⟩ | h)
    · by_cases hm : m = n
      · exact .inr ⟨not_not.mp (fun h => hne ⟨hm, h⟩), hm⟩
      · exact .inl ⟨hc, hm⟩
    · exact .inr h
  · rintro (⟨hc, hne⟩ | h)
    · exact .inl ⟨hc, fun h => hne h.1⟩
    · exact .inr h

theorem Wf.attach (hs : s.Wf) {k : Nat} (hl : l ∈ s.links) (ha : (s.link l).authed = true)
    (hn : s.Mapped n) (hi : (s.upstream n).opts.instanceId = (s.link l).instanceId)
    (hw : s.contest l n = (t, none)) : (t.attachTo l k n).1.Wf := by
  obtain ⟨hup, hmap, hlinks, hnl, hns, -, hlk⟩ := contest_upstream hw
  obtain ⟨hu, -, hk⟩ := attachTo_spec (t := t) (l := l) (n := n) k
  obtain ⟨hsame, hsink, -, -, -⟩ := Upstream.sameSocket_attach (t.upstream n) t.now l k
  rw [hup] at hsame
  have hid : ((t.upstream n).attach t.now l k).1.id = (s.upstream n).id := by
    rw [hup]; exact hsame.id
  obtain ⟨-, hlt, hst⟩ := hs.mapped hn
  refine hs.taken (u := ((t.upstream n).attach t.now l k).1) (l := l) (n := n)
    (fun m => by rw [hu, hup]) (fun id => ?_) ?_ (fun l' => ?_) hlinks hnl ?_ ?_ hl ha hsink ?_ ?_
    ?_ ?_ ?_
  · change t.upstreams.get? id = _
    rw [hmap, hid]
    split
    · rename_i h; rw [h]; exact hn
    · rfl
  · exact fun {l' m} => claims_attachTo hs hw k
  · rw [hk]
    exact ⟨claim_link.1.trans (hlk l').1, claim_link.2.1.trans (hlk l').2.1⟩
  · exact Nat.le_of_eq hns.symm
  · exact hns ▸ hlt
  · rw [hup]; rw [hsame.opts]; exact hi
  · rw [hup]; rw [hsame.state]; exact hst
  · rw [hup]
    intro hd
    rw [hsame.state] at hd
    rw [hsame.burstDone]
    exact hs.dialing hd
  · intro m hne hm
    rw [hid] at hm
    exact absurd (Option.some.inj (hm.symm.trans hn)) hne
  · intro id hm
    rw [hid]
    exact (hs.mapped hm).1.symm

section Dialing

variable (env : Platform) (o : ServerOptions) (s) (l) (k : Nat) (dial : DialRequest)

/-- A socket just created: attached to its link and not dialed yet. -/
theorem newUpstream_spec :
    (s.newUpstream env o l k dial).id = dial.id ∧
      (s.newUpstream env o l k dial).opts.instanceId = (s.link l).instanceId ∧
      (s.newUpstream env o l k dial).sink = some l ∧
      (s.newUpstream env o l k dial).attachedBy = k ∧
      (s.newUpstream env o l k dial).Inert ∧
      (s.newUpstream env o l k dial).burstDone = false ∧
      (s.newUpstream env o l k dial).buffer = .new o.bufferBytes ∧
      (s.newUpstream env o l k dial).sentSeq = 0 ∧
      (s.newUpstream env o l k dial).burstEndSeq = 0 ∧
      (s.newUpstream env o l k dial).quietClose = false :=
  ⟨rfl, rfl, rfl, rfl, ⟨rfl, rfl, rfl⟩, rfl, rfl, rfl, rfl, rfl⟩

theorem startDial_upstream (m : SocketId) : (s.startDial env o l k dial).upstream m =
    if m = s.nextSocket then s.newUpstream env o l k dial else s.upstream m := by
  change Function.update s.upstream s.nextSocket _ m = _
  rw [Function.update_apply]

theorem startDial_link (l' : LinkId) : (s.startDial env o l k dial).link l' =
    if l' = l then ((s.link l).claim s.nextSocket).write
      [{ frame := .dialing dial.id, origin := .reply k }] else s.link l' := by
  simp only [startDial, send, claim, modifyLink_link]
  split <;> rfl

/-- What a dial does to the sockets: it adds one, which no id means if it threw. -/
theorem dialAfresh_upstream : ∃ u, (∀ m, (s.dialAfresh env o l k dial).upstream m =
      if m = s.nextSocket then u else s.upstream m) ∧
    u.id = dial.id ∧ u.opts.instanceId = (s.link l).instanceId ∧ u.sink = some l ∧
    u.attachedBy = k ∧ u.state = .dialing ∧ u.burstDone = false ∧
    u.buffer = .new o.bufferBytes ∧ u.sentSeq = 0 ∧ u.burstEndSeq = 0 ∧
    ((∃ e, (s.newUpstream env o l k dial).dial env = .error e) → u.Inert) := by
  obtain ⟨h1, h2, h3, h4, h5, h6, h7, h8, h9, -⟩ := s.newUpstream_spec l env o k dial
  simp only [dialAfresh]
  split
  · rename_i v hv
    obtain ⟨g1, g2, g3, g4, g5, g6, g7, g8, g9, -⟩ := Upstream.dial_spec hv
    refine ⟨v, fun m => ?_, g1.trans h1, g2.trans h2, g3.trans h3, g6.trans h4,
      g4.trans h5.2.2, g5.trans h6, g7.trans h7, g8.trans h8, g9.trans h9, ?_⟩
    · rw [setUpstream_upstream, startDial_upstream]
      split <;> simp_all
    · rintro ⟨e, he⟩
      rw [hv] at he
      exact nomatch he
  · exact ⟨_, s.startDial_upstream l env o k dial, h1, h2, h3, h4, h5.2.2, h6, h7, h8, h9,
      fun _ => h5⟩

end Dialing

theorem Wf.fresh (hs : s.Wf) {id : String} {m : SocketId} (h : s.nextSocket ≤ m) :
    s.upstreams.get? id ≠ some m :=
  fun hm => absurd h (Nat.not_le.mpr (hs.mapped hm).2.1)

theorem Wf.fresh_claims (hs : s.Wf) (h : s.nextSocket ≤ m) : ¬ s.Claims l m :=
  fun hc => hs.fresh h (hs.claims hc).2.2.1

section Dialing

variable {env : Platform} {o : ServerOptions} {k : Nat} {dial : DialRequest}

theorem startDial_links : ((s.startDial env o l k dial).link l').authed = (s.link l').authed ∧
    ((s.startDial env o l k dial).link l').instanceId = (s.link l').instanceId := by
  let t : Server := { s with
    nextSocket := s.nextSocket + 1
    upstream := Function.update s.upstream s.nextSocket (s.newUpstream env o l k dial)
    budget := s.budget.register s.nextSocket
    upstreams := s.upstreams.set dial.id s.nextSocket }
  obtain ⟨-, h2, h3⟩ := ((t.claim l s.nextSocket).alike_write l
    [{ frame := .dialing dial.id, origin := .reply k }]).link l'
  exact ⟨h2.trans (claim_link (s := t)).1, h3.trans (claim_link (s := t)).2.1⟩

theorem claims_startDial (hs : s.Wf) : (s.startDial env o l k dial).Claims l' m ↔
    s.Claims l' m ∧ m ≠ s.nextSocket ∨ l' = l ∧ m = s.nextSocket := by
  have h : (s.startDial env o l k dial).Claims l' m ↔
      s.Claims l' m ∨ l' = l ∧ m = s.nextSocket := by
    let t : Server := { s with
      nextSocket := s.nextSocket + 1
      upstream := Function.update s.upstream s.nextSocket (s.newUpstream env o l k dial)
      budget := s.budget.register s.nextSocket
      upstreams := s.upstreams.set dial.id s.nextSocket }
    exact ((t.claim l s.nextSocket).alike_write l
      [{ frame := .dialing dial.id, origin := .reply k }]).claims_iff.trans
      (claims_claim (s := t))
  rw [h]
  refine or_congr_left (iff_self_and.mpr ?_)
  rintro hc rfl
  exact hs.fresh_claims (Nat.le_refl _) hc

/-- A dial that threw leaves the id meaning nothing and its socket inert. -/
theorem Wf.dialThrew (hs : s.Wf) {u : Upstream}
    (hup : ∀ m, t.upstream m = if m = s.nextSocket then u else s.upstream m)
    (hget : ∀ id, t.upstreams.get? id = if id = dial.id then none else s.upstreams.get? id)
    (hcl : ∀ {l' m}, t.Claims l' m ↔ s.Claims l' m ∧ m ≠ s.nextSocket)
    (hlink : ∀ l', (t.link l').authed = (s.link l').authed ∧
      (t.link l').instanceId = (s.link l').instanceId)
    (hlinks : t.links = s.links) (hnl : t.nextLink = s.nextLink)
    (hns : s.nextSocket ≤ t.nextSocket) (hin : u.Inert) (hb : u.burstDone = false)
    (hid : u.id = dial.id)
    (hold : ∀ n, s.upstreams.get? dial.id = some n → (s.upstream n).Over) : t.Wf := by
  have hother : ∀ {m}, m ≠ s.nextSocket → t.upstream m = s.upstream m :=
    fun h => by rw [hup, if_neg h]
  have hself : t.upstream s.nextSocket = u := by rw [hup, if_pos rfl]
  have hne : ∀ {id m}, s.upstreams.get? id = some m → m ≠ s.nextSocket := by
    rintro id m h rfl
    exact hs.fresh (Nat.le_refl _) h
  have hget' : ∀ {id m}, t.upstreams.get? id = some m ↔
      s.upstreams.get? id = some m ∧ id ≠ dial.id := by
    intro id m
    rw [hget]
    split
    · rename_i h; exact ⟨fun h => (by cases h), fun h' => absurd h h'.2⟩
    · rename_i h; exact ⟨fun h' => ⟨h', h⟩, And.left⟩
  refine ⟨?_, ?_, ?_, ?_, ?_, ?_⟩
  · intro id m hm
    obtain ⟨hm, -⟩ := hget'.mp hm
    obtain ⟨h1, h2, h3⟩ := hs.mapped hm
    rw [hother (hne hm)]
    exact ⟨h1, Nat.lt_of_lt_of_le h2 hns, h3⟩
  · intro l' m hc
    obtain ⟨hc, hm⟩ := hcl.mp hc
    obtain ⟨h1, h2, h3, h4, h5⟩ := hs.claims hc
    rw [Mapped, hother hm, hlinks, (hlink l').1, (hlink l').2]
    refine ⟨h1, h2, hget'.mpr ⟨h3, fun he => ?_⟩, h4, h5⟩
    rw [(hold m (he ▸ h3)).1] at h4
    cases h4
  · intro l' m hm hs'
    by_cases hn : m = s.nextSocket
    · subst hn
      rw [Mapped, hself, hid] at hm
      exact absurd rfl (hget'.mp hm).2
    · rw [Mapped, hother hn] at hm
      rw [hother hn] at hs'
      exact hcl.mpr ⟨hs.sink (hget'.mp hm).1 hs', hn⟩
  · intro m hm
    by_cases hn : m = s.nextSocket
    · subst hn; rw [hself]; exact .inr hin
    · rw [Mapped, hother hn, hget'] at hm
      rw [hother hn]
      by_cases hsm : s.Mapped m
      · have hd : (s.upstream m).id = dial.id := not_not.mp (fun h => hm ⟨hsm, h⟩)
        exact .inl (hold m (hd ▸ hsm))
      · exact hs.stray hsm
  · intro m hd
    by_cases hn : m = s.nextSocket
    · subst hn; rw [hself]; exact hb
    · rw [hother hn] at hd ⊢; exact hs.dialing hd
  · intro l' hl'
    rw [hlinks] at hl'
    rw [hnl]
    exact hs.links hl'

theorem Wf.dialAfresh (hs : s.Wf) (hl : l ∈ s.links) (ha : (s.link l).authed = true)
    (hv : ∀ n, s.upstreams.get? dial.id = some n → (s.upstream n).Over) :
    (s.dialAfresh env o l k dial).Wf := by
  obtain ⟨u, hup, hid, hi, hsink, -, hst, hbd, -, -, -, hin⟩ :=
    s.dialAfresh_upstream l env o k dial
  have hn : ∀ {id}, s.upstreams.get? id ≠ some s.nextSocket := hs.fresh (Nat.le_refl _)
  cases hd : (s.newUpstream env o l k dial).dial env with
  | ok v =>
    have ht : s.dialAfresh env o l k dial =
        (s.startDial env o l k dial).setUpstream s.nextSocket v := by
      simp only [Server.dialAfresh, hd]
    rw [ht] at hup ⊢
    refine hs.taken (l := l) hup (fun id => ?_) (claims_startDial hs) (fun _ => startDial_links)
      rfl rfl (Nat.le_succ _) (Nat.lt_succ_self _) hl ha hsink hi ?_ (fun _ => hbd)
      (fun _ h => hv _ (hid ▸ h)) (fun h => absurd h hn)
    · change (s.upstreams.set dial.id s.nextSocket).get? id = _
      rw [OrderedMap.get?_set, hid]
    · rw [hst]; exact nofun
  | error e =>
    have ht : s.dialAfresh env o l k dial = (({ s.startDial env o l k dial with
        upstreams := (s.upstreams.set dial.id s.nextSocket).delete dial.id }).unclaim l
          s.nextSocket).send l (.reply k) (.closed dial.id (some e)) := by
      simp only [Server.dialAfresh, hd]
      rfl
    rw [ht] at hup ⊢
    refine hs.dialThrew hup (fun id => ?_) ?_ (fun l' => ?_) rfl rfl
      (Nat.le_succ _) (hin ⟨e, hd⟩) hbd hid hv
    · change ((s.upstreams.set dial.id s.nextSocket).delete dial.id).get? id = _
      rw [OrderedMap.get?_delete, OrderedMap.get?_set]
      split <;> rfl
    · intro l' m
      refine ((alike_write _ _ _).claims_iff.trans claims_unclaim).trans ?_
      refine (and_congr_left' (claims_startDial hs)).trans ?_
      constructor
      · rintro ⟨h | h, hne⟩
        · exact h
        · exact absurd h hne
      · exact fun h => ⟨.inl h, fun h' => h.2 h'.2⟩
    · let v : Server := { s.startDial env o l k dial with
        upstreams := (s.upstreams.set dial.id s.nextSocket).delete dial.id }
      obtain ⟨-, h2, h3⟩ := ((v.unclaim l s.nextSocket).alike_write l
        [{ frame := .closed dial.id (some e), origin := .reply k }]).link l'
      have hk : ((v.unclaim l s.nextSocket).link l').authed = (v.link l').authed ∧
          ((v.unclaim l s.nextSocket).link l').instanceId = (v.link l').instanceId :=
        ⟨unclaim_link.1, unclaim_link.2.1⟩
      exact ⟨(h2.trans hk.1).trans startDial_links.1, (h3.trans hk.2).trans startDial_links.2⟩

end Dialing

theorem accept_link (accepts : Nat → Bool) : (s.accept accepts).link l =
    if l = s.nextLink then { accepts } else s.link l := by
  change Function.update s.link s.nextLink { accepts } l = _
  rw [Function.update_apply]

theorem Wf.accept (hs : s.Wf) (accepts : Nat → Bool) : (s.accept accepts).Wf := by
  have hne : ∀ {l n}, s.Claims l n → l ≠ s.nextLink := by
    rintro l n hc rfl
    exact Nat.lt_irrefl _ (hs.links (hs.claims hc).1)
  have hcl : ∀ {l n}, (s.accept accepts).Claims l n ↔ s.Claims l n := by
    intro l n
    simp only [Claims, accept_link]
    split
    · rename_i h
      exact ⟨fun h' => absurd h' (List.not_mem_nil), fun h' => absurd h (hne h')⟩
    · rfl
  refine ⟨hs.mapped, fun {l n} hc => ?_, fun hm hk => hcl.mpr (hs.sink hm hk), hs.stray,
    hs.dialing, fun {l} hl => ?_⟩
  · have hc' := hcl.mp hc
    obtain ⟨h1, h2, h3, h4, h5⟩ := hs.claims hc'
    rw [accept_link, if_neg (hne hc')]
    exact ⟨List.mem_append_left _ h1, h2, h3, h4, h5⟩
  · change l ∈ s.links ++ [s.nextLink] at hl
    change l < s.nextLink + 1
    rcases List.mem_append.mp hl with h | h
    · exact Nat.lt_succ_of_lt (hs.links h)
    · rw [List.mem_singleton.mp h]; exact Nat.lt_succ_self _

theorem Wf.authenticate (hs : s.Wf) (ha : (s.link l).authed = false) (f : HelloFrame) :
    (s.authenticate l f).Wf := by
  have hcl : ∀ {l' n}, (s.authenticate l f).Claims l' n ↔ s.Claims l' n := by
    intro l' n
    simp only [Claims, Server.authenticate, modifyLink_link]
    split
    · rename_i h; rw [h]
    · rfl
  refine ⟨hs.mapped, fun {l' n} hc => ?_, fun hm hk => hcl.mpr (hs.sink hm hk), hs.stray,
    hs.dialing, hs.links⟩
  obtain ⟨h1, h2, h3, h4, h5⟩ := hs.claims (hcl.mp hc)
  have hne : l' ≠ l := by rintro rfl; rw [ha] at h2; exact nomatch h2
  simp only [Server.authenticate, modifyLink_link, if_neg hne]
  exact ⟨h1, h2, h3, h4, h5⟩

end ClaimMoves

section

variable {env : Platform} {o : ServerOptions} {c : Cause} {s t : Server}

theorem Calm.wf (h : Calm env o c s t) (hs : s.Wf) : t.Wf := by
  cases h with
  | tick now => exact ⟨hs.mapped, hs.claims, hs.sink, hs.stray, hs.dialing, hs.links⟩
  | read l => exact (s.alike_modifyLink l (f := (·.readOne)) (fun _ => ⟨rfl, rfl, rfl⟩)).wf hs
  | linkDestroyed l =>
    exact (s.alike_modifyLink l (f := (·.destroy)) (fun _ => ⟨rfl, rfl, rfl⟩)).wf hs
  | reply hc hf => exact (s.alike_write _ _).wf hs
  | detached hn => exact (s.alike_write _ _).wf hs
  | offer n except => exact (s.alike_offerOne n except).wf hs
  | touch hu hr => exact (s.alike_keeps _ hu (fun _ => hr)).wf hs
  | opened hn hd hr l r => exact (s.alike_opened _ hd l r).wf hs
  | flush hn hop => exact (s.alike_flush _ hop).wf hs
  | push n line => exact (s.alike_push n line).wf hs
  | ack n seq => exact (s.alike_ack n seq).wf hs
  | retire hc => exact hs.retire _
  | cut n => exact hs.cut n
  | attach hc hl ha hn hi hw => exact hs.attach hl ha hn hi hw
  | dial hc hl ha hv => exact hs.dialAfresh hl ha hv
  | ended hn => exact hs.ended _

theorem Move.wf (h : Move env o c s t) (hs : s.Wf) : t.Wf := by
  cases h with
  | calm h => exact h.wf hs
  | accept accepts => exact hs.accept accepts
  | authenticate hl ha f => exact hs.authenticate ha f
  | letGo hc h => exact hs.letGo h
  | dropLink l => exact hs.dropLink l
  | registered hu ho =>
    exact (s.alike_keeps _ hu (fun hd => by rw [ho] at hd; exact nomatch hd)).wf hs

theorem wf_init (o : ServerOptions) : (init o).Wf where
  mapped h := nomatch h
  claims h := absurd h List.not_mem_nil
  sink h := nomatch h
  stray _ := .inr ⟨rfl, rfl, rfl⟩
  dialing _ := rfl
  links h := absurd h List.not_mem_nil

end

end Lurker.Engine.Server
