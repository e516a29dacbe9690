import Lurker.E2e.Rekey

/-!
# Handshakes and trust

The inbound handlers (KEYREQ, KEYRSP, REKEY), the local acts that answer them,
and the acts on trust. A handler verifies the signature before it touches
anything, classifies the key against what is pinned, and installs sessions
under strict trust on first use. An exception inside a handler drops the rest of
it and keeps what was written before.
-/

namespace Lurker.E2e

/-- What the manager takes from the platform and from the crypto libraries. -/
structure Crypto where
  aead : Aead
  /-- `String.prototype.toLowerCase` -/
  lower : Text → Text
  fingerprint : Bytes → Bytes
  /-- The words a fingerprint is read aloud as. -/
  fingerprintWords : Bytes → String
  verify : Bytes → Bytes → Bytes → Bool
  /-- The wrap key of our secret, their public point and an info string, if the point is one. -/
  deriveWrapKey : Bytes → Bytes → Bytes → Option Key
  /-- Our identity as a Diffie-Hellman secret. -/
  ed25519SeedToX25519 : Bytes → Bytes
  /-- Whether a key can be wrapped to a public key. -/
  wrappable : Bytes → Bool
  globMatchCi : Text → Text → Bool

/-- What a step draws at random. -/
structure Draws where
  fresh : Key
  ephSecret : Bytes
  nonce : Random 16

inductive NoticeLevel where
  | info
  | warn
  deriving DecidableEq

structure UserNotice where
  level : NoticeLevel
  text : String

inductive Reply where
  | keyRsp (wrapped : Wrapped)
  | keyReq (channel : Text)
  deriving DecidableEq

structure HandshakeOutcome where
  replies : List Reply := []
  notice : Option UserNotice := none
  channel : Option Text := none

inductive ClassifyResult where
  | new
  | known
  | handleChanged
  | fingerprintChanged
  | revoked
  deriving DecidableEq

def isTofuBlock : ClassifyResult → Bool
  | .revoked | .fingerprintChanged | .handleChanged => true
  | .new | .known => false

/-- What `parseHandshake` makes of a body. -/
inductive HandshakeBody where
  | malformed
  | keyReq (req : KeyReq)
  | keyRsp (rsp : KeyWrap)
  | rekey (rekey : KeyWrap)

def sigPayload (label : Text) (channel : Text) (parts : List Bytes) : Bytes :=
  utf8Encode (label ++ [':']) ++ utf8Encode channel ++ parts.flatMap (0x3a :: ·)

def sigPayloadKeyReq (r : KeyReq) : Bytes :=
  sigPayload ['K', 'E', 'Y', 'R', 'E', 'Q'] r.channel [r.pubkey, r.ephX25519, r.nonce]

def wrapParts (r : KeyWrap) : List Bytes :=
  [r.pubkey, r.ephemeralPub, r.wrapNonce, r.wrapCt, r.nonce]

def sigPayloadKeyRsp (r : KeyWrap) : Bytes :=
  sigPayload ['K', 'E', 'Y', 'R', 'S', 'P'] r.channel (wrapParts r)

def sigPayloadKeyRekey (r : KeyWrap) : Bytes :=
  sigPayload ['R', 'E', 'K', 'E', 'Y'] r.channel (wrapParts r)

def wrapInfo (channel : Text) : Bytes :=
  utf8Encode (proto ++ ['-', 'W', 'R', 'A', 'P', ':'] ++ channel)

def rekeyInfo (channel : Text) : Bytes :=
  utf8Encode (proto ++ ['-', 'R', 'E', 'K', 'E', 'Y', ':'] ++ channel)

namespace Manager

def pendingTtl : Nat := 600000
def pendingInboundTtl : Nat := 1800000
def keyChangeTtl : Nat := 1800000
def pendingMax : Nat := 4096
def rekeyReplayTtl : Nat := 86400000

/-- Drop the entries past their time, then the oldest beyond `max`. -/
def sweepMap {ν : Type} (m : OrderedMap Text ν) (createdAt : ν → Nat) (now ttl max : Nat) :
    OrderedMap Text ν :=
  let m := m.filterValues fun v => now ≤ createdAt v + ttl
  m.restrict (m.entries.reverse.take max).reverse
    (by simpa using (List.take_sublist max m.entries.reverse).reverse)

def sweepPending (m : Manager) (now : Nat) : Manager :=
  { m with pending := sweepMap m.pending PendingHandshake.createdAt now pendingTtl pendingMax }

variable (c : Crypto)

def eqLower (a b : Text) : Bool := c.lower a = c.lower b

/-- What the maps scoped to a peer are keyed by. -/
def peerKey (m : Manager) (handle : Text) : Text := m.tenantKey ++ ':' :: c.lower handle

def inboundKey (m : Manager) (handle channel : Text) : Text :=
  peerKey c m handle ++ ':' :: c.lower channel

def autotrustMatches (k : Keyring) (handle channel : Text) : Bool :=
  k.autotrust.rows.any fun r =>
    (nocase r.scope = nocase ['g', 'l', 'o', 'b', 'a', 'l'] || nocase r.scope = nocase channel) &&
      c.globMatchCi r.handlePattern handle

def effectiveMode (m : Manager) (handle channel : Text) : Option ChannelMode :=
  match m.keyring.getChannelConfig channel with
  | none => none
  | some cfg =>
    if !cfg.enabled then none
    else if autotrustMatches c m.keyring handle channel then some .autoAccept
    else some cfg.mode

/-- By fingerprint first; only an unknown one consults the pin of the handle. -/
def classifyPeerChange (k : Keyring) (fp : Bytes) (handle : Text) : ClassifyResult :=
  match k.getPeerByFingerprint fp with
  | some byFp =>
    if byFp.globalStatus = .revoked then .revoked
    else
      match byFp.lastHandle with
      | none => .handleChanged
      | some h => if h = [] ∨ !eqLower c h handle then .handleChanged else .known
  | none =>
    match k.getPeerByHandle handle with
    | some byHandle => if byHandle.fingerprint ≠ fp then .fingerprintChanged else .new
    | none => .new

def hasTrustedIncoming (k : Keyring) (handle channel : Text) : Bool :=
  match k.getIncomingSession handle channel with
  | some sess => sess.status = .trusted
  | none => false

def tofuWarning (handle : Text) (change : ClassifyResult) (newFp : Bytes) : UserNotice :=
  let handle := String.ofList handle
  let keyInfo := " — key " ++ String.ofList ((hex newFp).take 16) ++ "… (" ++
    c.fingerprintWords newFp ++ ")"
  let reverify := keyInfo ++ " — verify out-of-band, then /e2e reverify " ++ handle ++
    " to accept it"
  let text := match change with
    | .revoked => "Ignoring encrypted handshake from revoked peer " ++ handle
    | .handleChanged =>
      "⚠ a known encryption key appeared under a new handle (" ++ handle ++ ")" ++ reverify
    | _ => "⚠ encryption key changed for " ++ handle ++ reverify
  ⟨.warn, text⟩

/-- Remember a change of key or handle for a later reverify. -/
def stashKeyChange (m : Manager) (now : Nat) (handle : Text) (change : ClassifyResult)
    (pubkey : Bytes) (channel : Text) : Manager :=
  let stash (kind : KeyChange) : Manager :=
    let swept := sweepMap m.pendingKeyChange PendingKeyChange.createdAt now keyChangeTtl pendingMax
    { m with pendingKeyChange := swept.set (peerKey c m handle) ⟨kind, pubkey, channel, now⟩ }
  match change with
  | .fingerprintChanged => stash .fingerprintChanged
  | .handleChanged => stash .handleChanged
  | _ => m

def clearKeyChange (m : Manager) (handle : Text) : Manager :=
  { m with pendingKeyChange := m.pendingKeyChange.delete (peerKey c m handle) }

/-- Remember our ephemeral for the response. -/
def buildKeyReqStruct (m : Manager) (now : Nat) (d : Draws) (channel : Text)
    (peerHandle : Option Text) : Manager :=
  let m := sweepPending m now
  let key := m.tenantKey ++ ':' :: (channel ++ ':' :: hex d.nonce.1)
  { m with pending := m.pending.set key ⟨channel, peerHandle, d.ephSecret, now⟩ }

/-- A KEYREQ after ciphertext we could not read, as the limiter allows. -/
def autoHandshakeBody (m : Manager) (now : Nat) (allowOutgoing : Bool) (d : Draws)
    (channel peerHandle : Text) : Option Reply × Manager :=
  match m.keyring.getPeerByHandle peerHandle with
  | some peer =>
    if peer.globalStatus = .revoked ∨ !allowOutgoing then (none, m)
    else (some (.keyReq channel), buildKeyReqStruct m now d channel (some peerHandle))
  | none =>
    if !allowOutgoing then (none, m)
    else (some (.keyReq channel), buildKeyReqStruct m now d channel (some peerHandle))

/-- Answer a request: trust its key, make sure we have a key for the channel,
record the reader, wrap our key to the request's ephemeral, and ask for theirs. -/
def buildKeyRspAndReciprocal (m : Manager) (now : Nat) (allowOutgoing : Bool) (d : Draws)
    (handle : Text) (req : KeyReq) (alreadyTrusted : Bool) : HandshakeOutcome × Manager :=
  let fp := c.fingerprint req.pubkey
  let m := { m with keyring := m.keyring.setPeerStatus fp .trusted }
  let (ourSk, m) := getOrGenerateOutgoingKey c.wrappable m d.fresh req.channel
  let m := { m with
    keyring := m.keyring.recordOutgoingRecipient ⟨req.channel, handle, fp, nowUnix now⟩ }
  match c.deriveWrapKey d.ephSecret req.ephX25519 (wrapInfo req.channel) with
  | none => ({}, m)
  | some _ =>
    let rsp := Reply.keyRsp ⟨req.channel, req.pubkey, ourSk⟩
    if !alreadyTrusted && allowOutgoing then
      ({ replies := [rsp, .keyReq req.channel] },
        buildKeyReqStruct m now d req.channel (some handle))
    else ({ replies := [rsp] }, m)

def upsertSeenPeer (k : Keyring) (now : Nat) (fp pubkey : Bytes) (handle : Text) : Keyring :=
  k.upsertPeer ⟨fp, pubkey, some handle, nowUnix now, .pending⟩

def cachePendingInbound (m : Manager) (now : Nat) (handle : Text) (req : KeyReq) : Manager :=
  let swept := sweepMap m.pendingInbound PendingInbound.createdAt now pendingInboundTtl pendingMax
  { m with
    pendingInbound := swept.set (inboundKey c m handle req.channel) ⟨handle, req.channel, req, now⟩ }

def handleKeyReq (m : Manager) (now : Nat) (allowIncoming allowOutgoing : Bool) (d : Draws)
    (handle : Text) (nick : Option Text) (req : KeyReq) : HandshakeOutcome × Manager :=
  if !allowIncoming then ({}, m)
  else if req.pubkey = m.pubkey then ({}, m)
  else if !c.verify req.pubkey (sigPayloadKeyReq req) req.sig then ({}, m)
  else
    let who := String.ofList (nick.getD handle)
    let channel := String.ofList req.channel
    match effectiveMode c m handle req.channel with
    | none =>
      ({ notice := some ⟨.info, who ++ " wants an encrypted session on " ++ channel ++
            " — enable it with /e2e on " ++ channel ++ ", then /e2e handshake " ++ who⟩,
         channel := some req.channel }, m)
    | some mode =>
      let fp := c.fingerprint req.pubkey
      let change := classifyPeerChange c m.keyring fp handle
      if isTofuBlock change then
        ({ notice := some (tofuWarning c handle change fp), channel := some req.channel },
          stashKeyChange c m now handle change req.pubkey req.channel)
      else
        let m := { m with keyring := upsertSeenPeer m.keyring now fp req.pubkey handle }
        let alreadyTrusted := hasTrustedIncoming m.keyring handle req.channel
        match mode, alreadyTrusted with
        | .normal, false =>
          ({ notice := some ⟨.info, who ++ " wants to start an encrypted session on " ++ channel ++
                " — /e2e accept " ++ who⟩,
             channel := some req.channel }, cachePendingInbound c m now handle req)
        | .quiet, false => ({}, m)
        | _, _ => buildKeyRspAndReciprocal c m now allowOutgoing d handle req alreadyTrusted

def hasPendingForChannel (m : Manager) (channel : Text) : Bool :=
  m.pending.values.any fun ph => ph.channel = channel

/-- What a response unwraps to under one pending handshake. -/
def unwrapRsp (rsp : KeyWrap) (ph : PendingHandshake) : Option Key :=
  if ph.channel ≠ rsp.channel then none
  else
    let info := wrapInfo rsp.channel
    match c.deriveWrapKey ph.ephSecret rsp.ephemeralPub info with
    | none => none
    | some wrapKey =>
      match c.aead.decrypt wrapKey rsp.wrapNonce info rsp.wrapCt with
      | none => none
      | some sk => if h : sk.length = 32 then some ⟨sk, h⟩ else none

/-- The key of a response, from the first pending handshake it unwraps under,
which is consumed. -/
def consumePendingForKeyRsp (m : Manager) (now : Nat) (rsp : KeyWrap) : Option Key × Manager :=
  let m := sweepPending m now
  match m.pending.entries.find? fun e => (unwrapRsp c rsp e.2).isSome with
  | none => (none, m)
  | some (key, ph) => (unwrapRsp c rsp ph, { m with pending := m.pending.delete key })

def handleKeyRsp (m : Manager) (now : Nat) (handle : Text) (rsp : KeyWrap) :
    HandshakeOutcome × Manager :=
  if !hasPendingForChannel m rsp.channel then ({}, m)
  else if !c.verify rsp.pubkey (sigPayloadKeyRsp rsp) rsp.sig then ({}, m)
  else
    match consumePendingForKeyRsp c m now rsp with
    | (none, m) => ({}, m)
    | (some sk, m) =>
      let fp := c.fingerprint rsp.pubkey
      let change := classifyPeerChange c m.keyring fp handle
      if isTofuBlock change then
        ({ notice := some (tofuWarning c handle change fp), channel := some rsp.channel },
          stashKeyChange c m now handle change rsp.pubkey rsp.channel)
      else
        -- we initiated, so the response is our consent
        let m := { m with keyring :=
          (upsertSeenPeer m.keyring now fp rsp.pubkey handle).setPeerStatus fp .trusted }
        match m.keyring.installIncomingSessionStrict ⟨handle, rsp.channel, fp, sk, .trusted⟩ with
        | none =>
          ({ notice := some (tofuWarning c handle .fingerprintChanged fp),
             channel := some rsp.channel },
            stashKeyChange c m now handle .fingerprintChanged rsp.pubkey rsp.channel)
        | some keyring =>
          ({ notice := some ⟨.info, "encrypted session established with " ++
                String.ofList handle ++ " on " ++ String.ofList rsp.channel⟩,
             channel := some rsp.channel }, { m with keyring := keyring })

/-- What a REKEY unwraps to under our identity. -/
def unwrapRekey (secret : Bytes) (rekey : KeyWrap) : Option Key :=
  let info := rekeyInfo rekey.channel
  match c.deriveWrapKey (c.ed25519SeedToX25519 secret) rekey.ephemeralPub info with
  | none => none
  | some wrapKey =>
    match c.aead.decrypt wrapKey rekey.wrapNonce info rekey.wrapCt with
    | none => none
    | some sk => if h : sk.length = 32 then some ⟨sk, h⟩ else none

def rekeyReplayKey (m : Manager) (handle : Text) (rekey : KeyWrap) : Text :=
  peerKey c m handle ++ ':' :: (c.lower rekey.channel ++ ':' :: Base64.encode rekey.nonce)

def handleRekey (m : Manager) (now : Nat) (allowIncoming : Bool) (handle : Text) (rekey : KeyWrap) :
    HandshakeOutcome × Manager :=
  if !allowIncoming then ({}, m)
  else if rekey.pubkey = m.pubkey then ({}, m)
  else if !c.verify rekey.pubkey (sigPayloadKeyRekey rekey) rekey.sig then ({}, m)
  else
    let (isFresh, rekeyReplay) :=
      m.rekeyReplay.observe now (rekeyReplayKey c m handle rekey) rekeyReplayTtl
    let m := { m with rekeyReplay := rekeyReplay }
    if !isFresh then ({}, m)
    else
      let fp := c.fingerprint rekey.pubkey
      let change := classifyPeerChange c m.keyring fp handle
      if change = .new then ({}, m)
      else if isTofuBlock change then
        ({ notice := some (tofuWarning c handle change fp), channel := some rekey.channel },
          stashKeyChange c m now handle change rekey.pubkey rekey.channel)
      else
        match unwrapRekey c m.secret rekey with
        | none => ({}, m)
        | some sk =>
          match m.keyring.installIncomingSessionStrict
              ⟨handle, rekey.channel, fp, sk, .trusted⟩ with
          | none =>
            ({ notice := some (tofuWarning c handle .fingerprintChanged fp),
               channel := some rekey.channel },
              stashKeyChange c m now handle .fingerprintChanged rekey.pubkey rekey.channel)
          | some keyring => ({}, { m with keyring := keyring })

/-- Process an inbound handshake body. -/
def handleHandshakeBody (m : Manager) (now : Nat) (allowIncoming allowOutgoing : Bool) (d : Draws)
    (handle : Text) (nick : Option Text) : HandshakeBody → HandshakeOutcome × Manager
  | .malformed => ({}, m)
  | .keyReq req => handleKeyReq c m now allowIncoming allowOutgoing d handle nick req
  | .keyRsp rsp => handleKeyRsp c m now handle rsp
  | .rekey rekey => handleRekey c m now allowIncoming handle rekey

/-- Accept a request cached for it. -/
def acceptPending (m : Manager) (now : Nat) (allowOutgoing : Bool) (d : Draws)
    (handle channel : Text) : HandshakeOutcome × Manager :=
  let key := inboundKey c m handle channel
  match m.pendingInbound.get? key with
  | none =>
    ({ notice := some ⟨.warn, "no pending handshake from " ++ String.ofList handle ++
          " to accept"⟩, channel := some channel }, m)
  | some entry =>
    let m := { m with pendingInbound := m.pendingInbound.delete key }
    buildKeyRspAndReciprocal c m now allowOutgoing d handle entry.req
      (hasTrustedIncoming m.keyring handle channel)

end Manager

end Lurker.E2e
