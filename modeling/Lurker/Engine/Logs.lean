import Lurker.Engine.Steps

/-!
# What is written to the links

Each move appends to the links' logs, and every frame it appends has one of
four reasons. From this follows that lines only ever go to the claimant.
-/

namespace Lurker.Engine.Server

/-- Why a move that starts from `s` may append a frame to the log of `l`. -/
inductive Written (c : Cause) (s : Server) (l : LinkId) : Sent → Prop
  | reply {k : Nat} (hc : c = some (l, k)) {frame : EngineToApp} (hf : isTraffic frame = false) :
      Written c s l { frame, origin := .reply k }
  | detached {n : SocketId} (hn : s.Claims l n) :
      Written c s l { frame := .detached (s.upstream n).id, origin := .notice n }
  | held {n : SocketId} (hn : s.isSession n = true) (hl : l ∈ s.links)
      (ha : (s.link l).authed = true)
      (hi : (s.upstream n).opts.instanceId = (s.link l).instanceId) :
      Written c s l { frame := .held (s.upstream n).id, origin := .notice n }
  | socket {n : SocketId} (hn : s.Claims l n) {frame : EngineToApp}
      (hf : frame.about = some (s.upstream n).id) :
      Written c s l { frame, origin := .socket n (s.upstream n).attachedBy, claimed := true }

section

variable {env : Platform} {o : ServerOptions} {c : Cause} {s t : Server} {l : LinkId} {k : Nat}
  {n : SocketId}

theorem write_sent (k : AppLink) (fs : List Sent) :
    (k.write fs).sent = k.sent ++ if k.destroyed then [] else fs := by
  unfold AppLink.write
  split <;> simp [*]

/-- Between `s` and `t` the log of `l` only grew, by frames that `P` allows. -/
def Grew (P : Sent → Prop) (a b : AppLink) : Prop :=
  ∃ new, b.sent = a.sent ++ new ∧ ∀ x ∈ new, P x

namespace Grew

variable {P : Sent → Prop} {a b d : AppLink}

theorem same (h : b.sent = a.sent) : Grew P a b := ⟨[], by simp [h], by simp⟩

theorem trans (h : Grew P a b) (h' : Grew P b d) : Grew P a d := by
  obtain ⟨xs, hx, hp⟩ := h
  obtain ⟨ys, hy, hq⟩ := h'
  refine ⟨xs ++ ys, by rw [hy, hx, List.append_assoc], fun x hm => ?_⟩
  exact (List.mem_append.mp hm).elim (hp x) (hq x)

theorem write {fs : List Sent} (h : ∀ x ∈ fs, P x) : Grew P a (a.write fs) := by
  refine ⟨_, write_sent a fs, fun x hx => h x ?_⟩
  split at hx
  · exact absurd hx List.not_mem_nil
  · exact hx

end Grew

theorem grew_send {P : Sent → Prop} {l' : LinkId} {origin : Origin} {f : EngineToApp}
    (h : l = l' → P { frame := f, origin }) : Grew P (s.link l) ((s.send l' origin f).link l) := by
  simp only [send, modifyLink_link]
  split
  · rename_i hl
    rw [← hl]
    exact .write (fun x hx => by rw [List.mem_singleton.mp hx]; exact h hl)
  · exact .same rfl

/-- What a socket writes, it writes to the link that claims it. -/
theorem grew_deliver (hs : s.Wf) (hn : s.Mapped n ∨ (s.upstream n).sink = none)
    {op : (Nat → Bool) → Upstream → Upstream.Delivery}
    (hop : ∀ ok u, ∀ f ∈ (op ok u).2, f.about = some u.id) :
    Grew (Written c s l) (s.link l) ((s.deliver n op).link l) := by
  rw [deliver_link]
  split
  · rename_i hsink
    have hcl : s.Claims l n := hs.sink (hn.resolve_right (by rw [hsink]; exact nofun)) hsink
    refine .write (fun x hx => ?_)
    obtain ⟨f, hf, rfl⟩ := List.mem_map.mp hx
    rw [decide_eq_true (show n ∈ (s.link l).claimed from hcl)]
    exact .socket hcl (hop _ _ f hf)
  · exact .same rfl

theorem grew_dialAfresh (hc : c = some (l, k)) (dial : DialRequest) (l' : LinkId) :
    Grew (Written c s l') (s.link l') ((s.dialAfresh env o l k dial).link l') := by
  have hstart : Grew (Written c s l') (s.link l') ((s.startDial env o l k dial).link l') := by
    rw [startDial_link]
    split
    · rename_i h
      subst h
      refine Grew.trans (.same ?_) (.write (fun x hx => ?_))
      · unfold AppLink.claim; split <;> rfl
      · rw [List.mem_singleton.mp hx]; exact .reply hc rfl
    · exact .same rfl
  simp only [dialAfresh]
  split
  · exact hstart
  · refine hstart.trans ((Grew.same ?_).trans (grew_send (fun h => ?_)))
    · exact unclaim_link.2.2.1
    · rw [h]; exact .reply hc rfl

theorem grew_onUpstreamClose (hs : s.Wf) (hn : s.Mapped n ∨ (s.upstream n).sink = none) :
    Grew (Written c s l) (s.link l) ((s.onUpstreamClose n).link l) := by
  by_cases hst : (s.upstream n).state = .closed
  · rw [onUpstreamClose, if_pos hst]; exact .same rfl
  · obtain ⟨-, -, -, -, -, -, hk⟩ := onUpstreamClose_spec hst
    refine (grew_deliver hs hn (fun _ u => Upstream.about_onClose u)).trans (.same ?_)
    rw [hk]
    simp only
    split <;> rfl

theorem Calm.grew (h : Calm env o c s t) (hs : s.Wf) (l : LinkId) :
    Grew (Written c s l) (s.link l) (t.link l) := by
  cases h with
  | tick now => exact .same rfl
  | read l' =>
    refine .same ?_
    rw [modifyLink_link]
    split
    · rename_i h; rw [h]; rfl
    · rfl
  | linkDestroyed l' =>
    refine .same ?_
    rw [destroyLink, modifyLink_link]
    split
    · rename_i h; rw [h]; rfl
    · rfl
  | reply hc hf =>
    refine grew_send (fun h => ?_)
    subst h
    exact .reply hc hf
  | detached hn => exact grew_send (fun h => h ▸ .detached hn)
  | offer n except =>
    rcases s.offerOne_link l n except with h | ⟨h1, h2, ho, h⟩
    · exact .same (congrArg AppLink.sent h)
    · rw [h]
      simp only [offersTo, Bool.and_eq_true, decide_eq_true_eq] at ho
      exact .write (fun x hx => by
        rw [List.mem_singleton.mp hx]; exact .held h1 h2 ho.1.1.2 ho.2.symm)
  | touch hu hr => exact .same rfl
  | opened hn hd hr r r' => exact grew_deliver hs hn (fun _ u => Upstream.about_onOpen u r r')
  | flush hn hop => exact grew_deliver hs hn (fun ok u => (hop ok u).about)
  | push n line => exact .same rfl
  | ack n seq => exact .same rfl
  | retire hc => exact .same unclaimAll_link.2.2.1
  | cut n => exact .same unclaimAll_link.2.2.1
  | attach hc hl ha hn hi hw =>
    rename_i u l' k n
    refine (?_ : Grew _ (s.link l) (u.link l)).trans (.same claim_link.2.2.1)
    rcases contest_won hw with ⟨-, rfl⟩ | ⟨other, ho, -, rfl⟩
    · exact .same rfl
    · refine (Grew.same unclaim_link.2.2.1).trans (grew_send (fun h => ?_))
      exact h ▸ .detached (holderOf_some ho).2.1
  | dial hc hl ha hv => exact grew_dialAfresh hc _ l
  | ended hn => exact grew_onUpstreamClose hs hn

/-- A move appends to the logs; a new link starts with an empty one. -/
theorem Move.grew (h : Move env o c s t) (hs : s.Wf) (l : LinkId) :
    Grew (Written c s l) (s.link l) (t.link l) ∨ (t.link l).sent = [] := by
  cases h with
  | calm h => exact .inl (h.grew hs l)
  | accept accepts =>
    rw [accept_link]
    split
    · exact .inr rfl
    · exact .inl (.same rfl)
  | authenticate hl ha f =>
    refine .inl (.same ?_)
    simp only [Server.authenticate, modifyLink_link]
    split
    · rename_i h; rw [h]
    · rfl
  | letGo hc h => exact .inl (.same unclaim_link.2.2.1)
  | dropLink l' =>
    refine .inl (.same ?_)
    rw [dropLink_spec.2.2.2.2.2.1]
    split
    · rename_i h; rw [h]
    · rfl
  | registered hu ho => exact .inl (.same rfl)

/-- Every frame of a socket was written to the link that claimed the socket then. -/
def Faithful (s : Server) : Prop :=
  ∀ l, ∀ x ∈ (s.link l).sent, isTraffic x.frame = true →
    x.claimed = true ∧ ∃ n k, x.origin = .socket n k

theorem Move.faithful (h : Move env o c s t) (hs : s.Wf) (hf : s.Faithful) : t.Faithful := by
  intro l x hx ht
  rcases h.grew hs l with ⟨new, hnew, hw⟩ | hnil
  · rw [hnew] at hx
    rcases List.mem_append.mp hx with hx | hx
    · exact hf l x hx ht
    · cases hw x hx with
      | reply hc hr => rw [hr] at ht; exact nomatch ht
      | detached hn => exact nomatch ht
      | held hn hl ha hi => exact nomatch ht
      | socket hn hf => exact ⟨rfl, _, _, rfl⟩
  · rw [hnil] at hx
    exact absurd hx List.not_mem_nil

theorem run_faithful (env : Platform) (o : ServerOptions) (es : List Event) :
    (Run.after (step env o) (init o) es).Faithful := by
  refine (Run.invariant (step env o) (P := fun s => s.Wf ∧ s.Faithful)
    ⟨wf_init o, fun l x hx => absurd hx List.not_mem_nil⟩ (fun s e hs => ?_) es).2
  exact (step_moves hs.1 e).keep (P := fun s => s.Wf ∧ s.Faithful)
    (fun hm hs => ⟨hm.wf hs.1, hm.faithful hs.1 hs.2⟩) hs

/-- In every reachable state the claims, the sinks and the id map agree, a claim
is exclusive, and lines have only ever gone to the claimant of the moment. -/
theorem claims_exclusive_and_delivered (env : Platform) (o : ServerOptions) (es : List Event) :
    let s := Run.after (step env o) (init o) es
    (∀ id n, s.upstreams.get? id = some n →
      (∀ l l', s.Claims l n → s.Claims l' n → l = l') ∧
      (∀ l, s.Claims l n → l ∈ s.links ∧ (s.upstream n).sink = some l ∧
        (s.upstream n).opts.instanceId = (s.link l).instanceId) ∧
      ((∀ l, ¬ s.Claims l n) → (s.upstream n).sink = none)) ∧
    ∀ l x, x ∈ (s.link l).sent → ∀ id seq text, x.frame = .line id seq text →
      x.claimed = true ∧ ∃ n k, x.origin = .socket n k := by
  intro s
  have hs : s.Wf := run_wf env o es
  refine ⟨fun id n hn => ⟨fun l l' h h' => hs.claims_unique h h', fun l h => ?_, fun h => ?_⟩, ?_⟩
  · obtain ⟨hl, -, -, hsink, hi⟩ := hs.claims h
    exact ⟨hl, hsink, hi⟩
  · have hm : s.Mapped n := by rw [Mapped, (hs.mapped hn).1]; exact hn
    cases hsink : (s.upstream n).sink with
    | none => rfl
    | some l => exact absurd (hs.sink hm hsink) (h l)
  · intro l x hx id seq text hf
    exact run_faithful env o es l x hx (by rw [hf]; rfl)

/-- A link that dialed a socket claims it, and its first line was written under the claim. -/
theorem claims_exclusive_and_delivered_registered :
    let s := Run.after (step .plain smallOptions) (init smallOptions)
      (arriving 0 1 ++ registering 0 0)
    (0 ∈ s.links ∧ (s.upstream 0).sink = some 0 ∧
      (s.upstream 0).opts.instanceId = (s.link 0).instanceId) ∧
    ∃ n k, (Sent.mk (.line "i:1" 1 ":srv 001 me :hi") (.socket 0 1) true).origin =
      .socket n k := by
  have h := claims_exclusive_and_delivered .plain smallOptions (arriving 0 1 ++ registering 0 0)
  exact ⟨(h.1 "i:1" 0 (by decide +kernel)).2.1 0 (by decide +kernel),
    (h.2 0 ⟨.line "i:1" 1 ":srv 001 me :hi", .socket 0 1, true⟩ (by decide +kernel)
      "i:1" 1 ":srv 001 me :hi" rfl).2⟩

end

end Lurker.Engine.Server
