import Lurker.E2e.Trust

/-!
# Inbound handshakes and the pins

What one inbound body, one local request or one accept does to the rows that
carry trust: the peers and the incoming sessions. Each handler is read once for
its effect on them; only a response that passes the classification and then
meets a session pinned to another key writes before it warns.
-/

namespace Lurker.E2e

/-- The outcome warns: the only warnings of an inbound body are those of trust on first use. -/
def HandshakeOutcome.warns (o : HandshakeOutcome) : Prop := ∃ n, o.notice = some n ∧ n.level = .warn

namespace Manager

variable (c : Crypto)

inductive Act where
  | inbound (now : Nat) (allowIncoming allowOutgoing : Bool) (d : Draws) (handle : Text)
      (nick : Option Text) (body : HandshakeBody)
  | initiate (now : Nat) (d : Draws) (channel : Text) (peerHandle : Option Text)
  | autoInitiate (now : Nat) (allowOutgoing : Bool) (d : Draws) (channel peerHandle : Text)
  | accept (now : Nat) (allowOutgoing : Bool) (d : Draws) (handle channel : Text)

def Act.isInbound : Act → Bool
  | .inbound .. => true
  | _ => false

/-- The state after an act, with what a handshake answers. -/
def act (m : Manager) : Act → HandshakeOutcome × Manager
  | .inbound now allowIncoming allowOutgoing d handle nick body =>
    handleHandshakeBody c m now allowIncoming allowOutgoing d handle nick body
  | .initiate now d channel peerHandle => ({}, buildKeyReqStruct m now d channel peerHandle)
  | .autoInitiate now allowOutgoing d channel peerHandle =>
    ({}, (autoHandshakeBody m now allowOutgoing d channel peerHandle).2)
  | .accept now allowOutgoing d handle channel =>
    acceptPending c m now allowOutgoing d handle channel

def actStep (m : Manager) (a : Act) : Manager := (act c m a).2

/-- A key that an act delivers in a message signed by the key of a fingerprint. -/
inductive SealedBy (m : Manager) : Act → Bytes → Key → Prop
  | rsp {now : Nat} {ai ao : Bool} {d : Draws} {handle : Text} {nick : Option Text} {rsp : KeyWrap}
      {ph : PendingHandshake} {sk : Key} (pending : ph ∈ m.pending.values)
      (signed : c.verify rsp.pubkey (sigPayloadKeyRsp rsp) rsp.sig = true)
      (unwrapped : unwrapRsp c rsp ph = some sk) :
      SealedBy m (.inbound now ai ao d handle nick (.keyRsp rsp)) (c.fingerprint rsp.pubkey) sk
  | rekey {now : Nat} {ai ao : Bool} {d : Draws} {handle : Text} {nick : Option Text}
      {rekey : KeyWrap} {sk : Key}
      (signed : c.verify rekey.pubkey (sigPayloadKeyRekey rekey) rekey.sig = true)
      (unwrapped : unwrapRekey c m.secret rekey = some sk) :
      SealedBy m (.inbound now ai ao d handle nick (.rekey rekey)) (c.fingerprint rekey.pubkey) sk

/-- What a peer's row pins. -/
def pin (p : PeerRecord) : Bytes × Bytes × TrustStatus := (p.fingerprint, p.pubkey, p.globalStatus)

/-- No row has another fingerprint, key or trust status. -/
def Untouched (k k' : Keyring) : Prop :=
  k'.peers.rows.map pin = k.peers.rows.map pin ∧ k'.incoming = k.incoming

/-- What an act may do to the pins. -/
structure Pinned (m : Manager) (a : Act) : Prop where
  /-- A session keeps its fingerprint and its status, and changes its key only for a sealed one. -/
  sessions : ∀ s ∈ m.keyring.incoming.rows, ∃ s' ∈ (actStep c m a).keyring.incoming.rows,
    s'.key = s.key ∧ s'.fingerprint = s.fingerprint ∧ s'.status = s.status ∧
      (s'.sk = s.sk ∨ SealedBy c m a s.fingerprint s'.sk)
  /-- A session is installed with a key sealed by its fingerprint's. -/
  installed : ∀ s' ∈ (actStep c m a).keyring.incoming.rows,
    (∃ s ∈ m.keyring.incoming.rows, s.key = s'.key) ∨ SealedBy c m a s'.fingerprint s'.sk
  /-- An inbound body leaves a revoked peer revoked. -/
  revoked : a.isInbound = true → ∀ p ∈ m.keyring.peers.rows, p.globalStatus = .revoked →
    ∃ p' ∈ (actStep c m a).keyring.peers.rows,
      p'.fingerprint = p.fingerprint ∧ p'.globalStatus = .revoked
  /-- An inbound body that warns changes nothing that is pinned. -/
  warned : a.isInbound = true → (act c m a).1.warns →
    Untouched m.keyring (actStep c m a).keyring

/-- A response that passes the classification finds no session pinned to
another fingerprint, unless its own peer is trusted already. -/
def NoLateMismatch (m : Manager) : Act → Prop
  | .inbound now _ _ _ handle _ (.keyRsp rsp) =>
    hasPendingForChannel m rsp.channel = true →
    c.verify rsp.pubkey (sigPayloadKeyRsp rsp) rsp.sig = true →
    (consumePendingForKeyRsp c m now rsp).1.isSome = true →
    isTofuBlock (classifyPeerChange c m.keyring (c.fingerprint rsp.pubkey) handle) = false →
    ∀ sess, m.keyring.getIncomingSession handle rsp.channel = some sess →
      sess.fingerprint ≠ c.fingerprint rsp.pubkey →
      ∃ peer, m.keyring.getPeerByFingerprint (c.fingerprint rsp.pubkey) = some peer ∧
        peer.globalStatus = .trusted
  | _ => True

section Effects

variable {c} {m : Manager} {k k' : Keyring}

theorem stashKeyChange_keyring {now : Nat} {handle channel : Text} {change : ClassifyResult}
    {pubkey : Bytes} : (stashKeyChange c m now handle change pubkey channel).keyring = m.keyring := by
  unfold stashKeyChange
  cases change <;> rfl

/-- The rows that carry trust are the same. -/
def SameTrust (k k' : Keyring) : Prop := k'.peers = k.peers ∧ k'.incoming = k.incoming

theorem SameTrust.untouched (h : SameTrust k k') : Untouched k k' := by
  rw [Untouched, h.1]
  exact ⟨rfl, h.2⟩

theorem getOrGenerateOutgoingKey_trust (wrappable : Bytes → Bool) (m : Manager) (fresh : Key)
    (channel : Text) :
    SameTrust m.keyring (getOrGenerateOutgoingKey wrappable m fresh channel).2.keyring := by
  unfold getOrGenerateOutgoingKey
  split
  · split
    · exact ⟨rfl, rfl⟩
    · exact ⟨rfl, rfl⟩
  · exact ⟨rfl, rfl⟩

/-- Answering a request trusts its key, and warns of nothing. -/
theorem buildKeyRspAndReciprocal_effect (c : Crypto) (m : Manager) (now : Nat)
    (allowOutgoing : Bool) (d : Draws) (handle : Text) (req : KeyReq) (alreadyTrusted : Bool) :
    let r := buildKeyRspAndReciprocal c m now allowOutgoing d handle req alreadyTrusted
    SameTrust (m.keyring.setPeerStatus (c.fingerprint req.pubkey) .trusted) r.2.keyring ∧
      r.1.notice = none := by
  unfold buildKeyRspAndReciprocal
  have h := getOrGenerateOutgoingKey_trust c.wrappable
    { m with keyring := m.keyring.setPeerStatus (c.fingerprint req.pubkey) .trusted }
    d.fresh req.channel
  dsimp only
  split
  · exact ⟨⟨h.1, h.2⟩, rfl⟩
  · split
    · exact ⟨⟨h.1, h.2⟩, rfl⟩
    · exact ⟨⟨h.1, h.2⟩, rfl⟩

theorem mem_peers_setPeerStatus {fp : Bytes} {status : TrustStatus} {p : PeerRecord}
    (hp : p ∈ k.peers.rows) (hfp : p.fingerprint ≠ fp) :
    p ∈ (k.setPeerStatus fp status).peers.rows :=
  (Table.mem_update (by intro _; rfl)).mpr (.inl ⟨hp, decide_eq_false hfp⟩)

theorem mem_peers_upsertPeer {p q : PeerRecord} (hp : p ∈ k.peers.rows)
    (hfp : p.fingerprint ≠ q.fingerprint) : p ∈ (k.upsertPeer q).peers.rows :=
  (Table.mem_upsert (by intro _; rfl)).mpr (.inl ⟨hp, hfp⟩)

/-- A key that is not blocked is not a revoked peer's. -/
theorem ne_of_not_block {fp : Bytes} {handle : Text} {p : PeerRecord}
    (h : isTofuBlock (classifyPeerChange c k fp handle) = false) (hp : p ∈ k.peers.rows)
    (hrevoked : p.globalStatus = .revoked) : p.fingerprint ≠ fp := by
  rintro rfl
  unfold classifyPeerChange Keyring.getPeerByFingerprint at h
  rw [Table.get?_eq_some.mpr ⟨hp, rfl⟩] at h
  simp only at h
  rw [if_pos hrevoked] at h
  cases h

/-- Installing under strict trust: nothing on a mismatch, a key in place, or a new row. -/
theorem installIncomingSessionStrict_none {s : IncomingSession}
    (h : k.installIncomingSessionStrict s = none) :
    ∃ sess, k.getIncomingSession s.handle s.channel = some sess ∧
      sess.fingerprint ≠ s.fingerprint := by
  unfold Keyring.installIncomingSessionStrict at h
  split at h
  case h_2 => cases h
  case h_1 sess hsess =>
    split at h
    · exact ⟨sess, hsess, ‹_›⟩
    · cases h

theorem installIncomingSessionStrict_pin {s sess : IncomingSession}
    (h : k.installIncomingSessionStrict s = some k')
    (hsess : k.getIncomingSession s.handle s.channel = some sess) :
    sess.fingerprint = s.fingerprint := by
  unfold Keyring.installIncomingSessionStrict at h
  rw [hsess] at h
  dsimp only at h
  split at h
  · cases h
  · exact not_not.mp ‹_›

theorem installIncomingSessionStrict_peers {s : IncomingSession}
    (h : k.installIncomingSessionStrict s = some k') : k'.peers = k.peers := by
  unfold Keyring.installIncomingSessionStrict at h
  split at h
  · split at h
    · cases h
    · cases h; rfl
  · cases h; rfl

theorem installIncomingSessionStrict_kept {s r : IncomingSession}
    (h : k.installIncomingSessionStrict s = some k') (hr : r ∈ k.incoming.rows) :
    ∃ r' ∈ k'.incoming.rows, r'.key = r.key ∧ r'.fingerprint = r.fingerprint ∧
      r'.status = r.status ∧ (r'.sk = r.sk ∨ (r.fingerprint = s.fingerprint ∧ r'.sk = s.sk)) := by
  unfold Keyring.installIncomingSessionStrict at h
  split at h
  case h_1 sess hsess =>
    split at h
    · cases h
    rename_i hfp
    cases h
    by_cases hkey : r.key = s.key
    · -- the row of the session, pinned to the fingerprint of the message
      obtain ⟨hmem, hskey⟩ := Table.get?_eq_some.mp hsess
      have hrs : r = sess := Table.eq_of_key hr hmem (hkey.trans hskey.symm)
      refine ⟨{ r with sk := s.sk }, (Table.mem_update (by intro _; rfl)).mpr (.inr ⟨r, hr, decide_eq_true hkey, rfl⟩),
        rfl, rfl, rfl, .inr ⟨?_, rfl⟩⟩
      rw [hrs]
      exact not_not.mp hfp
    · exact ⟨r, (Table.mem_update (by intro _; rfl)).mpr (.inl ⟨hr, decide_eq_false hkey⟩), rfl, rfl, rfl, .inl rfl⟩
  case h_2 hnone =>
    cases h
    have hkey : r.key ≠ s.key := Table.get?_eq_none.mp hnone r hr
    exact ⟨r, (Table.mem_upsert (by intro _; rfl)).mpr (.inl ⟨hr, hkey⟩), rfl, rfl, rfl, .inl rfl⟩

theorem installIncomingSessionStrict_new {s r' : IncomingSession}
    (h : k.installIncomingSessionStrict s = some k') (hr' : r' ∈ k'.incoming.rows) :
    (∃ r ∈ k.incoming.rows, r.key = r'.key) ∨
      (r'.fingerprint = s.fingerprint ∧ r'.sk = s.sk) := by
  unfold Keyring.installIncomingSessionStrict at h
  split at h
  case h_1 sess hsess =>
    split at h
    · cases h
    cases h
    rcases (Table.mem_update (by intro _; rfl)).mp hr' with ⟨hr, -⟩ | ⟨r, hr, -, rfl⟩
    · exact .inl ⟨r', hr, rfl⟩
    · exact .inl ⟨r, hr, rfl⟩
  case h_2 =>
    cases h
    rcases (Table.mem_upsert (by intro _; rfl)).mp hr' with ⟨hr, -⟩ | ⟨r, hr, -, rfl⟩ | ⟨rfl, -⟩
    · exact .inl ⟨r', hr, rfl⟩
    · exact .inl ⟨r, hr, rfl⟩
    · exact .inr ⟨rfl, rfl⟩

/-- A response leaves the rows alone but for the pending map until its key is found. -/
theorem consumePendingForKeyRsp_keyring (c : Crypto) (m : Manager) (now : Nat) (rsp : KeyWrap) :
    (consumePendingForKeyRsp c m now rsp).2.keyring = m.keyring := by
  unfold consumePendingForKeyRsp
  dsimp only
  split <;> rfl

/-- The key of a response comes from a pending handshake. -/
theorem consumePendingForKeyRsp_some {now : Nat} {rsp : KeyWrap} {sk : Key}
    (h : (consumePendingForKeyRsp c m now rsp).1 = some sk) :
    ∃ ph ∈ m.pending.values, unwrapRsp c rsp ph = some sk := by
  unfold consumePendingForKeyRsp at h
  dsimp only at h
  split at h
  · cases h
  rename_i key ph hfind
  refine ⟨ph, ?_, h⟩
  have hmem := List.mem_of_find?_eq_some hfind
  have hswept := List.mem_reverse.mp (List.mem_of_mem_take (List.mem_reverse.mp hmem))
  exact List.mem_map.mpr ⟨_, (List.mem_filter.mp hswept).1, rfl⟩

/-- Seeing and trusting a peer without touching a row: it was trusted before. -/
theorem trusted_of_untouched {now : Nat} {fp pubkey : Bytes} {handle : Text}
    (h : Untouched k ((upsertSeenPeer k now fp pubkey handle).setPeerStatus fp .trusted)) :
    ∃ peer, k.getPeerByFingerprint fp = some peer ∧ peer.globalStatus = .trusted := by
  have hseen : ∃ p, (upsertSeenPeer k now fp pubkey handle).getPeerByFingerprint fp = some p :=
    ⟨_, (Table.get?_upsert (by intro _; rfl)).trans (if_pos rfl)⟩
  obtain ⟨p, hp⟩ := hseen
  obtain ⟨hmem, hfp⟩ := Table.get?_eq_some.mp hp
  have hpin : (fp, p.pubkey, TrustStatus.trusted) ∈
      ((upsertSeenPeer k now fp pubkey handle).setPeerStatus fp .trusted).peers.rows.map pin := by
    refine List.mem_map.mpr ⟨{ p with globalStatus := .trusted },
      (Table.mem_update (by intro _; rfl)).mpr (.inr ⟨p, hmem, decide_eq_true hfp, rfl⟩), ?_⟩
    rw [← hfp]
    rfl
  rw [h.1] at hpin
  obtain ⟨q, hq, heq⟩ := List.mem_map.mp hpin
  simp only [pin, Prod.mk.injEq] at heq
  exact ⟨q, Table.get?_eq_some.mpr ⟨hq, heq.1⟩, heq.2.2⟩

/-- Seeing and trusting a peer that is trusted changes nothing that is pinned. -/
theorem untouched_of_trusted (now : Nat) {fp : Bytes} (pubkey : Bytes) (handle : Text)
    {peer : PeerRecord}
    (hpeer : k.getPeerByFingerprint fp = some peer) (htrusted : peer.globalStatus = .trusted) :
    Untouched k ((upsertSeenPeer k now fp pubkey handle).setPeerStatus fp .trusted) := by
  obtain ⟨hmem, hfp⟩ := Table.get?_eq_some.mp hpeer
  refine ⟨?_, rfl⟩
  have hkey : fp ∈ k.peers.rows.map PeerRecord.fingerprint := List.mem_map.mpr ⟨peer, hmem, hfp⟩
  unfold upsertSeenPeer Keyring.setPeerStatus Keyring.upsertPeer Table.upsert Table.update
  dsimp only
  rw [dif_pos hkey]
  dsimp only
  rw [List.map_map, List.map_map]
  refine List.map_congr_left fun p hp => ?_
  by_cases hpfp : p.fingerprint = fp
  · -- the peer itself, trusted before
    obtain rfl : p = peer := Table.eq_of_key hp hmem (hpfp.trans hfp.symm)
    simp [pin, hpfp, htrusted]
  · simp [hpfp]

end Effects

section Acts

variable {c} {m : Manager}

/-- An act that leaves the rows of trust alone. -/
theorem pinned_of_sameTrust {a : Act} (h : SameTrust m.keyring (actStep c m a).keyring) :
    Pinned c m a where
  sessions := fun s hs => ⟨s, h.2 ▸ hs, rfl, rfl, rfl, .inl rfl⟩
  installed := fun s hs => .inl ⟨s, h.2 ▸ hs, rfl⟩
  revoked := fun _ p hp hrevoked => ⟨p, h.1 ▸ hp, rfl, hrevoked⟩
  warned := fun _ _ => h.untouched

/-- An act that leaves the sessions alone and warns of nothing. -/
theorem pinned_of_incoming {a : Act} (h : (actStep c m a).keyring.incoming = m.keyring.incoming)
    (hrevoked : a.isInbound = true → ∀ p ∈ m.keyring.peers.rows, p.globalStatus = .revoked →
      p ∈ (actStep c m a).keyring.peers.rows)
    (hquiet : a.isInbound = true → ¬ (act c m a).1.warns) : Pinned c m a where
  sessions := fun s hs => ⟨s, h ▸ hs, rfl, rfl, rfl, .inl rfl⟩
  installed := fun s hs => .inl ⟨s, h ▸ hs, rfl⟩
  revoked := fun hin p hp hr => ⟨p, hrevoked hin p hp hr, rfl, hr⟩
  warned := fun hin hw => absurd hw (hquiet hin)

theorem not_warns_info {o : HandshakeOutcome} {text : String} (h : o.notice = some ⟨.info, text⟩) :
    ¬ o.warns := by
  rintro ⟨n, hn, hlevel⟩
  rw [h] at hn
  cases hn
  cases hlevel

theorem not_warns_none {o : HandshakeOutcome} (h : o.notice = none) : ¬ o.warns := by
  rintro ⟨n, hn, -⟩
  rw [h] at hn
  cases hn

/-- An act that installs a sealed key under strict trust and warns of nothing. -/
theorem pinned_of_install {a : Act} {k k' : Keyring} {session : IncomingSession}
    (hinstall : k.installIncomingSessionStrict session = some k')
    (hstep : (actStep c m a).keyring = k') (hincoming : k.incoming = m.keyring.incoming)
    (hsealed : SealedBy c m a session.fingerprint session.sk)
    (hrevoked : ∀ p ∈ m.keyring.peers.rows, p.globalStatus = .revoked → p ∈ k.peers.rows)
    (hquiet : ¬ (act c m a).1.warns) : Pinned c m a where
  sessions s hs := by
    rw [← hincoming] at hs
    obtain ⟨s', hs', hkey, hfp, hstatus, hsk⟩ := installIncomingSessionStrict_kept hinstall hs
    rw [hstep]
    refine ⟨s', hs', hkey, hfp, hstatus, hsk.imp id fun h => ?_⟩
    rw [h.1, h.2]
    exact hsealed
  installed s' hs' := by
    rw [hstep] at hs'
    rw [← hincoming]
    refine (installIncomingSessionStrict_new hinstall hs').imp id fun h => ?_
    rw [h.1, h.2]
    exact hsealed
  revoked _ p hp hr := by
    rw [hstep, installIncomingSessionStrict_peers hinstall]
    exact ⟨p, hrevoked p hp hr, rfl, hr⟩
  warned _ hw := absurd hw hquiet

/-- An inbound body that has its peer seen and trusted before it warns touches what is pinned
unless the peer was trusted. -/
theorem pinned_late {a : Act} {now : Nat} {fp pubkey : Bytes} {handle : Text}
    (hin : a.isInbound = true) (hwarns : (act c m a).1.warns)
    (hstep : (actStep c m a).keyring =
      (upsertSeenPeer m.keyring now fp pubkey handle).setPeerStatus fp .trusted)
    (hrevoked : ∀ p ∈ m.keyring.peers.rows, p.globalStatus = .revoked → p.fingerprint ≠ fp) :
    Pinned c m a ↔
      ∃ peer, m.keyring.getPeerByFingerprint fp = some peer ∧ peer.globalStatus = .trusted := by
  constructor
  · intro h
    have huntouched := h.warned hin hwarns
    rw [hstep] at huntouched
    exact trusted_of_untouched huntouched
  · rintro ⟨peer, hpeer, htrusted⟩
    have huntouched := untouched_of_trusted now pubkey handle hpeer htrusted
    rw [← hstep] at huntouched
    refine ⟨fun s hs => ?_, fun s' hs' => ?_, fun _ p hp hr => ?_, fun _ _ => huntouched⟩
    · exact ⟨s, huntouched.2 ▸ hs, rfl, rfl, rfl, .inl rfl⟩
    · exact .inl ⟨s', huntouched.2 ▸ hs', rfl⟩
    · rw [hstep]
      have hne := hrevoked p hp hr
      exact ⟨p, mem_peers_setPeerStatus (mem_peers_upsertPeer hp hne) hne, rfl, hr⟩

theorem pinned_keyReq {now : Nat} {ai ao : Bool} {d : Draws} {handle : Text} {nick : Option Text}
    {req : KeyReq} : Pinned c m (.inbound now ai ao d handle nick (.keyReq req)) := by
  have hact : act c m (.inbound now ai ao d handle nick (.keyReq req)) =
      handleKeyReq c m now ai ao d handle nick req := rfl
  unfold handleKeyReq at hact
  split at hact
  · exact pinned_of_sameTrust (by rw [actStep, hact]; exact ⟨rfl, rfl⟩)
  split at hact
  · exact pinned_of_sameTrust (by rw [actStep, hact]; exact ⟨rfl, rfl⟩)
  split at hact
  · exact pinned_of_sameTrust (by rw [actStep, hact]; exact ⟨rfl, rfl⟩)
  dsimp only at hact
  split at hact
  · exact pinned_of_sameTrust (by rw [actStep, hact]; exact ⟨rfl, rfl⟩)
  rename_i mode _
  split at hact
  · refine pinned_of_sameTrust ?_
    rw [actStep, hact]
    dsimp only
    rw [stashKeyChange_keyring]
    exact ⟨rfl, rfl⟩
  rename_i hblock
  have hblock := Bool.eq_false_iff.mpr hblock
  -- from here the peer is seen, and a revoked one is another
  have hseen (p : PeerRecord) (hp : p ∈ m.keyring.peers.rows) (hr : p.globalStatus = .revoked) :
      p ∈ (upsertSeenPeer m.keyring now (c.fingerprint req.pubkey) req.pubkey handle).peers.rows :=
    mem_peers_upsertPeer hp (ne_of_not_block hblock hp hr)
  split at hact
  · refine pinned_of_incoming (by rw [actStep, hact]; rfl) (fun _ p hp hr => ?_) fun _ => ?_
    · rw [actStep, hact]
      exact hseen p hp hr
    · rw [hact]
      exact not_warns_info rfl
  · refine pinned_of_incoming (by rw [actStep, hact]; rfl) (fun _ p hp hr => ?_) fun _ => ?_
    · rw [actStep, hact]
      exact hseen p hp hr
    · rw [hact]
      exact not_warns_none rfl
  · obtain ⟨⟨hpeers, hincoming⟩, hnotice⟩ := buildKeyRspAndReciprocal_effect c
      { m with keyring :=
        upsertSeenPeer m.keyring now (c.fingerprint req.pubkey) req.pubkey handle }
      now ao d handle req (hasTrustedIncoming
        (upsertSeenPeer m.keyring now (c.fingerprint req.pubkey) req.pubkey handle) handle req.channel)
    refine pinned_of_incoming ?_ (fun _ p hp hr => ?_) fun _ => ?_
    · rw [actStep, hact, hincoming]
      rfl
    · rw [actStep, hact, hpeers]
      exact mem_peers_setPeerStatus (hseen p hp hr) (ne_of_not_block hblock hp hr)
    · rw [hact]
      exact not_warns_none hnotice

theorem pinned_rekey {now : Nat} {ai ao : Bool} {d : Draws} {handle : Text} {nick : Option Text}
    {rekey : KeyWrap} : Pinned c m (.inbound now ai ao d handle nick (.rekey rekey)) := by
  have hact : act c m (.inbound now ai ao d handle nick (.rekey rekey)) =
      handleRekey c m now ai handle rekey := rfl
  unfold handleRekey at hact
  split at hact
  · exact pinned_of_sameTrust (by rw [actStep, hact]; exact ⟨rfl, rfl⟩)
  split at hact
  · exact pinned_of_sameTrust (by rw [actStep, hact]; exact ⟨rfl, rfl⟩)
  split at hact
  · exact pinned_of_sameTrust (by rw [actStep, hact]; exact ⟨rfl, rfl⟩)
  rename_i hsigned
  dsimp only at hact
  split at hact
  · exact pinned_of_sameTrust (by rw [actStep, hact]; exact ⟨rfl, rfl⟩)
  split at hact
  · exact pinned_of_sameTrust (by rw [actStep, hact]; exact ⟨rfl, rfl⟩)
  split at hact
  · refine pinned_of_sameTrust ?_
    rw [actStep, hact]
    dsimp only
    rw [stashKeyChange_keyring]
    exact ⟨rfl, rfl⟩
  split at hact
  · exact pinned_of_sameTrust (by rw [actStep, hact]; exact ⟨rfl, rfl⟩)
  rename_i sk hsk
  split at hact
  case h_1 hnone =>
    refine pinned_of_sameTrust ?_
    rw [actStep, hact]
    dsimp only
    rw [stashKeyChange_keyring]
    exact ⟨rfl, rfl⟩
  case h_2 keyring hinstall =>
    have hsealed : SealedBy c m (.inbound now ai ao d handle nick (.rekey rekey))
        (c.fingerprint rekey.pubkey) sk := .rekey (by simpa using hsigned) hsk
    refine pinned_of_install hinstall (by rw [actStep, hact]) rfl hsealed (fun _ hp _ => hp) ?_
    rw [hact]
    exact not_warns_none rfl

/-- A response may touch what is pinned and warn only by a late mismatch. -/
theorem pinned_keyRsp {now : Nat} {ai ao : Bool} {d : Draws} {handle : Text} {nick : Option Text}
    {rsp : KeyWrap} : Pinned c m (.inbound now ai ao d handle nick (.keyRsp rsp)) ↔
      NoLateMismatch c m (.inbound now ai ao d handle nick (.keyRsp rsp)) := by
  have hact : act c m (.inbound now ai ao d handle nick (.keyRsp rsp)) =
      handleKeyRsp c m now handle rsp := rfl
  unfold handleKeyRsp at hact
  unfold NoLateMismatch
  dsimp only
  split at hact
  case isTrue hpending =>
    refine iff_of_true (pinned_of_sameTrust (by rw [actStep, hact]; exact ⟨rfl, rfl⟩)) ?_
    intro hp
    rw [hp] at hpending
    cases hpending
  case isFalse hpending =>
  split at hact
  case isTrue hverify =>
    refine iff_of_true (pinned_of_sameTrust (by rw [actStep, hact]; exact ⟨rfl, rfl⟩)) ?_
    intro _ hv
    rw [hv] at hverify
    cases hverify
  case isFalse hverify =>
  have hkeyring := consumePendingForKeyRsp_keyring c m now rsp
  split at hact
  case h_1 m₁ hconsume =>
    rw [hconsume] at hkeyring ⊢
    refine iff_of_true (pinned_of_sameTrust ?_) fun _ _ hk => nomatch hk
    rw [actStep, hact]
    change SameTrust m.keyring m₁.keyring
    rw [show m₁.keyring = m.keyring from hkeyring]
    exact ⟨rfl, rfl⟩
  case h_2 sk m₁ hconsume =>
  obtain ⟨ph, hph, hunwrap⟩ := consumePendingForKeyRsp_some (congrArg Prod.fst hconsume)
  rw [hconsume] at hkeyring ⊢
  have hkeyring : m₁.keyring = m.keyring := hkeyring
  dsimp only at hact
  rw [hkeyring] at hact
  split at hact
  case isTrue hblock =>
    refine iff_of_true (pinned_of_sameTrust ?_) fun _ _ _ hb => ?_
    · rw [actStep, hact]
      dsimp only
      rw [stashKeyChange_keyring, hkeyring]
      exact ⟨rfl, rfl⟩
    · rw [hb] at hblock
      cases hblock
  case isFalse hblock =>
  have hblock := Bool.eq_false_iff.mpr hblock
  have hrevoked : ∀ p ∈ m.keyring.peers.rows, p.globalStatus = .revoked →
      p.fingerprint ≠ c.fingerprint rsp.pubkey := fun p hp hr => ne_of_not_block hblock hp hr
  split at hact
  case h_2 keyring hinstall =>
    have hsealed : SealedBy c m (.inbound now ai ao d handle nick (.keyRsp rsp))
        (c.fingerprint rsp.pubkey) sk := .rsp hph (by simpa using hverify) hunwrap
    refine iff_of_true (pinned_of_install hinstall (by rw [actStep, hact]) rfl hsealed
      (fun p hp hr => mem_peers_setPeerStatus (mem_peers_upsertPeer hp (hrevoked p hp hr))
        (hrevoked p hp hr)) ?_) ?_
    · rw [hact]
      exact not_warns_info rfl
    · -- what was installed was not pinned to another key
      intro _ _ _ _ sess hsess hfp
      exact absurd (installIncomingSessionStrict_pin hinstall hsess) hfp
  case h_1 hinstall =>
    obtain ⟨sess, hsess, hfp⟩ := installIncomingSessionStrict_none hinstall
    have hstep : (actStep c m (.inbound now ai ao d handle nick (.keyRsp rsp))).keyring =
        (upsertSeenPeer m.keyring now (c.fingerprint rsp.pubkey) rsp.pubkey
          handle).setPeerStatus (c.fingerprint rsp.pubkey) .trusted := by
      rw [actStep, hact]
      dsimp only
      rw [stashKeyChange_keyring]
    rw [pinned_late rfl (by rw [hact]; exact ⟨_, rfl, rfl⟩) hstep hrevoked]
    constructor
    · intro h _ _ _ _ _ _ _
      exact h
    · intro h
      exact h (by simpa using hpending) (by simpa using hverify) rfl hblock sess hsess hfp

theorem pinned_iff (a : Act) : Pinned c m a ↔ NoLateMismatch c m a := by
  cases a with
  | inbound now ai ao d handle nick body =>
    cases body with
    | malformed => exact iff_of_true (pinned_of_sameTrust ⟨rfl, rfl⟩) trivial
    | keyReq req => exact iff_of_true pinned_keyReq trivial
    | keyRsp rsp => exact pinned_keyRsp
    | rekey rekey => exact iff_of_true pinned_rekey trivial
  | initiate now d channel peerHandle =>
    exact iff_of_true (pinned_of_sameTrust ⟨rfl, rfl⟩) trivial
  | autoInitiate now ao d channel peerHandle =>
    refine iff_of_true (pinned_of_sameTrust ?_) trivial
    unfold actStep act autoHandshakeBody
    dsimp only
    split
    · split <;> exact ⟨rfl, rfl⟩
    · split <;> exact ⟨rfl, rfl⟩
  | accept now ao d handle channel =>
    refine iff_of_true ?_ trivial
    have hact : act c m (.accept now ao d handle channel) =
        acceptPending c m now ao d handle channel := rfl
    unfold acceptPending at hact
    dsimp only at hact
    split at hact
    · exact pinned_of_sameTrust (by rw [actStep, hact]; exact ⟨rfl, rfl⟩)
    rename_i entry _
    refine pinned_of_incoming ?_ (fun h => nomatch h) fun h => nomatch h
    rw [actStep, hact, (buildKeyRspAndReciprocal_effect ..).1.2]
    rfl

/-- The pins hold at every step of a run exactly when no step meets a late mismatch. -/
theorem pins_hold (es : List Act) :
    Run.Within (actStep c) (Pinned c) m es ↔ Run.Within (actStep c) (NoLateMismatch c) m es := by
  induction es generalizing m with
  | nil => exact Iff.rfl
  | cons a es ih => exact and_congr (pinned_iff a) ih

end Acts

end Manager

namespace Sample

open Manager

/-- A platform with the signature of a payload in the clear. -/
def crypto : Crypto where
  aead := ⟨fun _ _ _ pt => pt, fun _ _ _ ct => some ct⟩
  lower := List.map Char.toLower
  fingerprint := id
  fingerprintWords := fun _ => ""
  verify := fun pubkey payload sig => sig = pubkey ++ payload
  deriveWrapKey := fun _ _ _ => some sk
  ed25519SeedToX25519 := id
  wrappable := fun _ => true
  globMatchCi := fun _ _ => false

def draws (n : UInt8) : Draws :=
  ⟨⟨List.replicate 32 n, List.length_replicate⟩, [n], ⟨List.replicate 16 n, List.length_replicate⟩⟩

/-- A request for our key, signed by its own. -/
def request (pubkey : Bytes) (nonce : UInt8) : HandshakeBody :=
  let req : KeyReq := ⟨channel, pubkey, [], [nonce], []⟩
  .keyReq { req with sig := pubkey ++ sigPayloadKeyReq req }

/-- A response with a key, signed by the responder's. -/
def response (pubkey : Bytes) (nonce : UInt8) : HandshakeBody :=
  let rsp : KeyWrap := ⟨channel, pubkey, [], [], sk.1, [nonce], []⟩
  .keyRsp { rsp with sig := pubkey ++ sigPayloadKeyRsp rsp }

/-- A body that arrives from a handle at second 1000. -/
def arrives (n : UInt8) (handle : Text) (body : HandshakeBody) : Act :=
  .inbound 1000000 true true (draws n) handle none body

def elsewhere : Text := ['v', '@', 'h']

/-- Two keys at one handle: one prompted and was left waiting; another, known
elsewhere, appeared there, was reverified, and has the session. -/
def twoKeys : Manager :=
  let m := Manager.start 1 1 [] [] (Keyring.fresh.setChannelConfig ⟨channel, true, .normal⟩)
  let m := actStep crypto m (arrives 0 handle (request [2] 0))
  let m := actStep crypto m (arrives 1 elsewhere (request [1] 1))
  let m := actStep crypto m (arrives 2 handle (request [1] 2))
  let m := (reverifyPeer crypto m 1000000 handle).2
  let m := actStep crypto m (.initiate 1000000 (draws 3) channel (some handle))
  let m := actStep crypto m (arrives 4 handle (response [1] 4))
  actStep crypto m (.initiate 1000000 (draws 5) channel (some handle))

end Sample

namespace Manager

open Sample

/-- The response of the key left waiting ends in a warning, and is trusted from then on. -/
theorem late_mismatch_trusts :
    let a := arrives 6 handle (response [2] 6)
    ¬ Pinned crypto twoKeys a ∧ (act crypto twoKeys a).1.warns ∧
      (twoKeys.keyring.getPeerByFingerprint [2]).map PeerRecord.globalStatus = some .pending ∧
      ((actStep crypto twoKeys a).keyring.getPeerByFingerprint [2]).map PeerRecord.globalStatus =
        some .trusted := by
  intro a
  have hwarns : (act crypto twoKeys a).1.warns := ⟨_, rfl, by decide +kernel⟩
  refine ⟨fun h => ?_, hwarns, by decide +kernel, by decide +kernel⟩
  exact absurd (h.warned rfl hwarns).1 (by decide +kernel)

end Manager

end Lurker.E2e
