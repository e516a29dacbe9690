import Lurker.E2e.Message

/-!
# No recipient is left on a stale key

The manager with the REKEYs that were taken from it and are on their way, and
the keys that readers were given. A socket may die with REKEYs on their way;
each is then handed back, the one taken first at first. Handing one back while
an older one for the same reader is already back discards it.
-/

namespace Lurker.E2e

open Manager

structure RekeyWorld where
  m : Manager
  /-- Taken and neither delivered nor handed back, in the order they were taken. -/
  inFlight : List PendingRekeySend
  /-- The keys readers were given, by a KEYRSP or a REKEY. -/
  delivered : List Wrapped

namespace RekeyWorld

inductive Event where
  | rotate (channel : Text)
  | prepare (fresh : Key) (channel : Text)
  | encrypt (now : Nat) (fresh : Key) (msgid : Random msgidLen) (nonces : Nat → Random nonceLen)
      (channel plaintext : Text)
  | take
  /-- The REKEY at a place among those in flight arrives. -/
  | deliver (n : Nat)
  /-- The one taken first was dropped with its socket. -/
  | handBack

variable (aead : Aead) (wrappable : Bytes → Bool)

def step (w : RekeyWorld) : Event → RekeyWorld
  | .rotate channel => { w with m := (rotateChannel w.m channel).2 }
  | .prepare fresh channel => { w with m := prepareOutgoing wrappable w.m fresh channel }
  | .encrypt now fresh msgid nonces channel plaintext =>
    { w with m := (encryptOutgoing aead wrappable w.m now fresh msgid nonces channel plaintext).2 }
  | .take =>
    let (sends, m) := takePendingRekeySends w.m
    { w with m := m, inFlight := w.inFlight ++ sends }
  | .deliver n =>
    match w.inFlight[n]? with
    | some s => { w with inFlight := w.inFlight.eraseIdx n, delivered := w.delivered ++ [s.body] }
    | none => w
  | .handBack =>
    match w.inFlight with
    | s :: rest => { w with m := putBackRekeySend w.m s, inFlight := rest }
    | [] => w

/-- A wrapped key is one for a recipient: on its channel and to its pinned key. -/
def Serves (k : Keyring) (b : Wrapped) (r : OutgoingRecipient) : Prop :=
  nocase b.channel = nocase r.channel ∧
    ∃ peer, k.getPeerByFingerprint r.fingerprint = some peer ∧ b.pubkey = peer.pubkey

/-- A key was delivered to a recipient, or is on its way, or is queued behind
every other one for it. -/
inductive Covered (w : RekeyWorld) (r : OutgoingRecipient) (sk : Key) : Prop
  | delivered {b : Wrapped} (mem : b ∈ w.delivered) (serves : Serves w.m.keyring b r)
      (key : b.sk = sk)
  | inFlight {s : PendingRekeySend} (mem : s ∈ w.inFlight) (serves : Serves w.m.keyring s.body r)
      (key : s.body.sk = sk)
  | queued {before after : List PendingRekeySend} {s : PendingRekeySend}
      (queue : w.m.pendingRekey = before ++ s :: after) (serves : Serves w.m.keyring s.body r)
      (key : s.body.sk = sk)
      (last : ∀ t ∈ after, Serves w.m.keyring t.body r → t.body.sk = sk)

/-- Every recipient's channel has a key, and the recipient has it or will. -/
def UpToDate (w : RekeyWorld) : Prop :=
  ∀ r ∈ w.m.keyring.recipients.rows, ∃ sess,
    w.m.keyring.getOutgoingSession r.channel = some sess ∧ Covered w r sess.sk

/-- Where a send rotates, a REKEY can be made for every recipient. -/
def Distributable (m : Manager) (channel : Text) : Prop :=
  ∀ sess, m.keyring.getOutgoingSession channel = some sess → sess.pendingRotation = true →
    ∀ r ∈ m.keyring.listOutgoingRecipients channel, ∃ peer,
      m.keyring.getPeerByFingerprint r.fingerprint = some peer ∧ wrappable peer.pubkey = true

/-- The queue has no REKEY with another key or reader that would stand in for
this one or behind it. -/
def Fits (queue : List PendingRekeySend) (s : PendingRekeySend) : Prop :=
  ∀ t ∈ queue, (t.channel = s.channel ∧ t.targetHandle = s.targetHandle) ∨
      (nocase t.body.channel = nocase s.body.channel ∧ t.body.pubkey = s.body.pubkey) →
    nocase t.body.channel = nocase s.body.channel ∧ t.body.pubkey = s.body.pubkey ∧
      t.body.sk = s.body.sk

/-- A send distributes its rotation, and what is handed back and carries the
current key meets no REKEY with another key. -/
def Careful (w : RekeyWorld) : Event → Prop
  | .prepare _ channel => Distributable wrappable w.m channel
  | .encrypt _ _ _ _ channel plaintext =>
    (∃ cfg, w.m.keyring.getChannelConfig channel = some cfg ∧ cfg.enabled = true) →
      (∃ chunks, splitPlaintext plaintext = .ok chunks) → Distributable wrappable w.m channel
  | .handBack => ∀ s rest, w.inFlight = s :: rest →
    (∃ sess, w.m.keyring.getOutgoingSession s.body.channel = some sess ∧ s.body.sk = sess.sk) →
      Fits w.m.pendingRekey s
  | _ => True

variable {aead wrappable} {w : RekeyWorld} {r : OutgoingRecipient}

/-- A REKEY of a rotation serves each recipient of the channel and carries the fresh key. -/
theorem rekeySends_serves {k : Keyring} {channel : Text} (fresh : Key) {peer : PeerRecord}
    (hr : r ∈ k.listOutgoingRecipients channel)
    (hpeer : k.getPeerByFingerprint r.fingerprint = some peer) (hwrap : wrappable peer.pubkey = true) :
    ∃ s ∈ rekeySends wrappable k channel fresh, Serves k s.body r := by
  refine ⟨⟨channel, peer.lastHandle.getD r.handle, ⟨channel, peer.pubkey, fresh⟩⟩, ?_, ?_⟩
  · refine List.mem_filterMap.mpr ⟨r, hr, ?_⟩
    rw [hpeer]
    exact if_pos hwrap
  · exact ⟨(Keyring.mem_listOutgoingRecipients.mp hr).2.symm, peer, hpeer, rfl⟩

theorem mem_rekeySends {k : Keyring} {channel : Text} {fresh : Key} {s : PendingRekeySend}
    (h : s ∈ rekeySends wrappable k channel fresh) :
    s.body.channel = channel ∧ s.body.sk = fresh := by
  obtain ⟨r, -, hs⟩ := List.mem_filterMap.mp h
  split at hs
  · cases hs
  split at hs
  · cases hs
    exact ⟨rfl, rfl⟩
  · cases hs

/-- Making a key keeps every recipient covered: those of the channel by the
REKEYs just queued, the others as they were. -/
theorem upToDate_getOrGenerate {fresh : Key} {channel : Text}
    (hdist : Distributable wrappable w.m channel) (h : UpToDate w) :
    UpToDate { w with m := (getOrGenerateOutgoingKey wrappable w.m fresh channel).2 } := by
  unfold getOrGenerateOutgoingKey
  split
  case h_2 hnone =>
    -- no recipient is on a channel without a key
    intro r hr
    obtain ⟨sess, hsess, hcovered⟩ := h r hr
    have hne : nocase r.channel ≠ nocase channel := fun heq => by
      unfold Keyring.getOutgoingSession at hsess hnone
      rw [heq, hnone] at hsess
      cases hsess
    refine ⟨sess, (Keyring.getOutgoingSession_setOutgoingSession_of_ne hne).trans hsess, ?_⟩
    cases hcovered with
    | delivered mem serves key => exact .delivered mem serves key
    | inFlight mem serves key => exact .inFlight mem serves key
    | queued queue serves key last => exact .queued queue serves key last
  case h_1 sess₀ hsess₀ =>
    split
    case isFalse => exact h
    case isTrue hrot =>
      intro r hr
      by_cases hchannel : nocase r.channel = nocase channel
      · obtain ⟨sess', hsess', hsk, -⟩ :=
          Keyring.getOutgoingSession_setOutgoingSession w.m.keyring channel fresh
        refine ⟨sess', ?_, ?_⟩
        · unfold Keyring.getOutgoingSession at hsess' ⊢
          rw [hchannel]
          exact hsess'
        rw [hsk]
        have hmem : r ∈ w.m.keyring.listOutgoingRecipients channel :=
          Keyring.mem_listOutgoingRecipients.mpr ⟨hr, hchannel⟩
        obtain ⟨peer, hpeer, hwrap⟩ := hdist sess₀ hsess₀ hrot r hmem
        obtain ⟨s, hs, hserves⟩ := rekeySends_serves fresh hmem hpeer hwrap
        obtain ⟨before, after, hsplit⟩ := List.append_of_mem hs
        have hqueue : w.m.pendingRekey ++ rekeySends wrappable w.m.keyring channel fresh =
            (w.m.pendingRekey ++ before) ++ s :: after := by
          rw [hsplit, List.append_assoc]
        refine .queued hqueue hserves (mem_rekeySends hs).2 fun t ht _ => ?_
        exact (mem_rekeySends (hsplit ▸ List.mem_append_right _ (List.mem_cons_of_mem _ ht))).2
      · obtain ⟨sess, hsess, hcovered⟩ := h r hr
        refine ⟨sess, (Keyring.getOutgoingSession_setOutgoingSession_of_ne hchannel).trans hsess, ?_⟩
        cases hcovered with
        | delivered mem serves key => exact .delivered mem serves key
        | inFlight mem serves key => exact .inFlight mem serves key
        | @queued before after s queue serves key last =>
          have hqueue : w.m.pendingRekey ++ rekeySends wrappable w.m.keyring channel fresh =
              before ++ s :: (after ++ rekeySends wrappable w.m.keyring channel fresh) := by
            rw [queue, List.append_assoc, List.cons_append]
          refine .queued hqueue serves key ?_
          · intro t ht hserves
            rcases List.mem_append.mp ht with ht | ht
            · exact last t ht hserves
            · have hother := hserves.1
              rw [(mem_rekeySends ht).1] at hother
              exact absurd hother.symm hchannel

/-- Encrypting touches the manager only to make a key. -/
theorem encryptOutgoing_manager (aead : Aead) (wrappable : Bytes → Bool) (m : Manager) (now : Nat)
    (fresh : Key) (msgid : Random msgidLen) (nonces : Nat → Random nonceLen)
    (channel plaintext : Text) :
    (encryptOutgoing aead wrappable m now fresh msgid nonces channel plaintext).2 = m ∨
      ((∃ cfg, m.keyring.getChannelConfig channel = some cfg ∧ cfg.enabled = true) ∧
        (∃ chunks, splitPlaintext plaintext = .ok chunks) ∧
        (encryptOutgoing aead wrappable m now fresh msgid nonces channel plaintext).2 =
          (getOrGenerateOutgoingKey wrappable m fresh channel).2) := by
  unfold encryptOutgoing
  split
  · exact .inl rfl
  rename_i cfg hcfg
  split
  · exact .inl rfl
  rename_i henabled
  split
  · exact .inl rfl
  rename_i chunks hchunks
  refine .inr ⟨⟨cfg, hcfg, by simpa using henabled⟩, ⟨chunks, hchunks⟩, ?_⟩
  dsimp only
  split <;> rfl

theorem upToDate_rotate {channel : Text} (h : UpToDate w) :
    UpToDate { w with m := (rotateChannel w.m channel).2 } := by
  unfold rotateChannel
  split
  · exact h
  intro r hr
  obtain ⟨sess, hsess, hcovered⟩ := h r hr
  obtain ⟨sess', hsess', hsk⟩ :=
    Keyring.getOutgoingSession_markOutgoingPendingRotation channel hsess
  refine ⟨sess', hsess', ?_⟩
  rw [hsk]
  cases hcovered with
  | delivered mem serves key => exact .delivered mem serves key
  | inFlight mem serves key => exact .inFlight mem serves key
  | queued queue serves key last => exact .queued queue serves key last

theorem upToDate_take (h : UpToDate w) : UpToDate (step aead wrappable w .take) := by
  intro r hr
  obtain ⟨sess, hsess, hcovered⟩ := h r hr
  refine ⟨sess, hsess, ?_⟩
  cases hcovered with
  | delivered mem serves key => exact .delivered mem serves key
  | inFlight mem serves key => exact .inFlight (List.mem_append_left _ mem) serves key
  | queued queue serves key _ =>
    refine .inFlight (List.mem_append_right _ ?_) serves key
    rw [queue]
    exact List.mem_append_right _ List.mem_cons_self

theorem upToDate_deliver {n : Nat} (h : UpToDate w) :
    UpToDate (step aead wrappable w (.deliver n)) := by
  simp only [step]
  split
  case h_2 => exact h
  case h_1 d hd =>
    intro r hr
    obtain ⟨sess, hsess, hcovered⟩ := h r hr
    refine ⟨sess, hsess, ?_⟩
    cases hcovered with
    | delivered mem serves key => exact .delivered (List.mem_append_left _ mem) serves key
    | queued queue serves key last => exact .queued queue serves key last
    | @inFlight s mem serves key =>
      obtain ⟨i, hi, rfl⟩ := List.mem_iff_getElem.mp mem
      by_cases hin : i = n
      · subst hin
        rw [List.getElem?_eq_getElem hi] at hd
        cases hd
        exact .delivered (List.mem_append_right _ List.mem_cons_self) serves key
      · exact .inFlight (List.mem_eraseIdx_iff_getElem.mpr ⟨i, hi, hin, rfl⟩) serves key

/-- In a queue where every REKEY for a recipient has one key, the first is as
good as the last. -/
theorem covered_of_mem {sk : Key} {s : PendingRekeySend} (hs : s ∈ w.m.pendingRekey)
    (hserves : Serves w.m.keyring s.body r) (hkey : s.body.sk = sk)
    (hall : ∀ t ∈ w.m.pendingRekey, Serves w.m.keyring t.body r → t.body.sk = sk) :
    Covered w r sk := by
  obtain ⟨before, after, hsplit⟩ := List.append_of_mem hs
  refine .queued hsplit hserves hkey fun t ht => hall t ?_
  rw [hsplit]
  exact List.mem_append_right _ (List.mem_cons_of_mem _ ht)

theorem upToDate_handBack (hcareful : Careful wrappable w .handBack) (h : UpToDate w) :
    UpToDate (step aead wrappable w .handBack) := by
  simp only [step]
  split
  case h_2 => exact h
  case h_1 s rest hflight =>
    -- the queue afterwards: with the REKEY in front, or as it was
    have hqueue : (putBackRekeySend w.m s).keyring = w.m.keyring ∧
        ((putBackRekeySend w.m s).pendingRekey = s :: w.m.pendingRekey ∨
          ((putBackRekeySend w.m s).pendingRekey = w.m.pendingRekey ∧ ∃ t ∈ w.m.pendingRekey,
            t.channel = s.channel ∧ t.targetHandle = s.targetHandle)) := by
      unfold putBackRekeySend
      split
      case isFalse => exact ⟨rfl, .inl rfl⟩
      case isTrue hany =>
        obtain ⟨t, ht, heq⟩ := List.any_eq_true.mp hany
        exact ⟨rfl, .inr ⟨rfl, t, ht, by simpa using heq⟩⟩
    obtain ⟨hkeyring, hqueue⟩ := hqueue
    intro r hr
    rw [hkeyring] at hr
    obtain ⟨sess, hsess, hcovered⟩ := h r hr
    refine ⟨sess, by rw [hkeyring]; exact hsess, ?_⟩
    have hserves' {b : Wrapped} (hb : Serves w.m.keyring b r) :
        Serves (putBackRekeySend w.m s).keyring b r := hkeyring.symm ▸ hb
    cases hcovered with
    | delivered mem serves key => exact .delivered mem (hserves' serves) key
    | @queued before after t queue serves key last =>
      rcases hqueue with hcons | ⟨hsame, -⟩
      · have hback : (putBackRekeySend w.m s).pendingRekey = (s :: before) ++ t :: after :=
          hcons.trans (by rw [queue]; rfl)
        refine .queued hback (hserves' serves) key fun t ht hs => last t ht (hkeyring ▸ hs)
      · exact .queued (hsame.trans queue) (hserves' serves) key
          fun t ht hs => last t ht (hkeyring ▸ hs)
    | @inFlight t mem serves key =>
      rw [hflight] at mem
      rcases List.mem_cons.mp mem with rfl | mem
      case inr => exact .inFlight mem (hserves' serves) key
      -- it is the one handed back, and it carries the current key
      obtain ⟨hchannel, peer, hpeer, hpubkey⟩ := serves
      have hfits : Fits w.m.pendingRekey t := by
        refine hcareful t rest hflight ⟨sess, ?_, key⟩
        unfold Keyring.getOutgoingSession at hsess ⊢
        rw [hchannel]
        exact hsess
      have hall : ∀ q ∈ w.m.pendingRekey, Serves w.m.keyring q.body r → q.body.sk = sess.sk := by
        rintro q hq ⟨hqchannel, peer', hpeer', hqpubkey⟩
        rw [hpeer] at hpeer'
        cases hpeer'
        obtain ⟨-, -, hsk⟩ := hfits q hq (.inr ⟨hqchannel.trans hchannel.symm,
          hqpubkey.trans hpubkey.symm⟩)
        rw [hsk, key]
      rcases hqueue with hcons | ⟨hsame, q, hq, heq⟩
      · have hback : (putBackRekeySend w.m t).pendingRekey = [] ++ t :: w.m.pendingRekey := hcons
        refine .queued hback (hserves' ⟨hchannel, peer, hpeer, hpubkey⟩) key fun q hq hs => hall q hq (hkeyring ▸ hs)
      · obtain ⟨hqchannel, hqpubkey, hsk⟩ := hfits q hq (.inl heq)
        have hserves : Serves w.m.keyring q.body r :=
          ⟨hqchannel.trans hchannel, peer, hpeer, hqpubkey.trans hpubkey⟩
        exact covered_of_mem (hsame.symm ▸ hq) (hserves' hserves) (hsk.trans key) fun p hp hs =>
          hall p (hsame ▸ hp) (hkeyring ▸ hs)

theorem upToDate_step (e : Event) (hcareful : Careful wrappable w e) (h : UpToDate w) :
    UpToDate (step aead wrappable w e) := by
  cases e with
  | rotate channel => exact upToDate_rotate h
  | prepare fresh channel => exact upToDate_getOrGenerate hcareful h
  | encrypt now fresh msgid nonces channel plaintext =>
    simp only [step]
    rcases encryptOutgoing_manager aead wrappable w.m now fresh msgid nonces channel plaintext with
      heq | ⟨hcfg, hchunks, heq⟩
    · rw [heq]
      exact h
    · rw [heq]
      exact upToDate_getOrGenerate (hcareful hcfg hchunks) h
  | take => exact upToDate_take h
  | deliver n => exact upToDate_deliver h
  | handBack => exact upToDate_handBack hcareful h

/-- In every run whose steps are careful each recipient has the current key,
or its REKEY is on its way or queued last. -/
theorem rotation_reaches_recipients (hstart : UpToDate w) (es : List Event)
    (hrun : Run.Within (step aead wrappable) (Careful wrappable) w es) :
    UpToDate (Run.after (step aead wrappable) w es) :=
  Run.invariant_within _ hstart (fun _ e h hcareful => upToDate_step e hcareful h) es hrun

section Sample

open Sample

def peerKey : Bytes := [5]

def key (n : Nat) : Key := ⟨List.replicate 32 (UInt8.ofNat n), List.length_replicate⟩

def keyring : Keyring :=
  ((Keyring.fresh.upsertPeer ⟨[1], peerKey, some handle, 0, .trusted⟩).recordOutgoingRecipient
    ⟨channel, handle, [1], 0⟩).setOutgoingSession channel (key 0)

/-- One channel with one recipient, who was given its key in a KEYRSP. -/
def world : RekeyWorld := ⟨.start 1 1 [] [] keyring, [], [⟨channel, peerKey, key 0⟩]⟩

theorem upToDate_world : UpToDate world := by
  intro r hr
  obtain rfl : r = ⟨channel, handle, [1], 0⟩ := List.mem_singleton.mp hr
  exact ⟨⟨channel, key 0, false⟩, by decide, .delivered (b := ⟨channel, peerKey, key 0⟩)
    List.mem_cons_self ⟨rfl, _, rfl, rfl⟩ rfl⟩

/-- One rotation whose REKEY is dropped and sent again. -/
def oneRotation : List Event :=
  [.rotate channel, .prepare (key 1) channel, .take, .handBack, .take, .deliver 0]

/-- Two rotations, both REKEYs on their way when the socket dies. -/
def twoRotations : List Event :=
  [.rotate channel, .prepare (key 1) channel, .take, .rotate channel, .prepare (key 2) channel,
    .take, .handBack, .handBack]

theorem rotation_reaches_recipients_once :
    UpToDate (Run.after (step xchacha fun _ => true) world oneRotation) := by
  refine rotation_reaches_recipients upToDate_world oneRotation
    ⟨trivial, ?_, trivial, ?_, trivial, trivial, trivial⟩
  · intro sess _ _ r hr
    obtain ⟨hr, -⟩ := Keyring.mem_listOutgoingRecipients.mp hr
    obtain rfl : r = ⟨channel, handle, [1], 0⟩ := List.mem_singleton.mp hr
    exact ⟨_, rfl, rfl⟩
  · rintro s rest _ _ t ht
    cases ht

/-- The REKEY with the current key is handed back second and discarded. -/
theorem recipient_left_stale :
    UpToDate world ∧ ¬ UpToDate (Run.after (step xchacha fun _ => true) world twoRotations) := by
  refine ⟨upToDate_world, fun h => ?_⟩
  obtain ⟨sess, hsess, hcovered⟩ := h ⟨channel, handle, [1], 0⟩ (by decide +kernel)
  have hkey : sess = ⟨channel, key 2, false⟩ := by
    have : (Run.after (step xchacha fun _ => true) world twoRotations).m.keyring.getOutgoingSession
        channel = some ⟨channel, key 2, false⟩ := by decide +kernel
    exact Option.some.inj (hsess.symm.trans this)
  subst hkey
  have hqueue : (Run.after (step xchacha fun _ => true) world twoRotations).m.pendingRekey =
      [⟨channel, handle, ⟨channel, peerKey, key 1⟩⟩] := by decide +kernel
  have hdelivered : (Run.after (step xchacha fun _ => true) world twoRotations).delivered =
      [⟨channel, peerKey, key 0⟩] := by decide +kernel
  have hflight : (Run.after (step xchacha fun _ => true) world twoRotations).inFlight = [] := by
    decide +kernel
  cases hcovered with
  | delivered mem _ hsk =>
    rw [hdelivered] at mem
    rw [List.mem_singleton.mp mem] at hsk
    exact absurd hsk (by decide)
  | inFlight mem _ _ =>
    rw [hflight] at mem
    cases mem
  | @queued before after s queue _ hsk _ =>
    have hs : s ∈ before ++ s :: after := List.mem_append_right _ List.mem_cons_self
    rw [← queue, hqueue] at hs
    rw [List.mem_singleton.mp hs] at hsk
    exact absurd hsk (by decide)

end Sample

end RekeyWorld

end Lurker.E2e
