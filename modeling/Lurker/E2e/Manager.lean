import Lurker.E2e.Chunk
import Lurker.E2e.Keyring
import Lurker.E2e.Replay

/-!
# The manager and its outgoing keys

The state of the manager for one account on one network, and the part of it
that makes, rotates and distributes the key we encrypt a channel with. A
rotation is lazy: it flags the session, and the next send makes the fresh key
and queues a REKEY for every recipient.
-/

namespace Lurker.E2e

/-- What `randomBytes(n)` draws. -/
abbrev Random (n : Nat) := { bs : Bytes // bs.length = n }

structure KeyReq where
  channel : Text
  pubkey : Bytes
  ephX25519 : Bytes
  nonce : Bytes
  sig : Bytes
  deriving DecidableEq

/-- A KEYRSP or a REKEY: a session key wrapped to its reader. -/
structure KeyWrap where
  channel : Text
  pubkey : Bytes
  ephemeralPub : Bytes
  wrapNonce : Bytes
  wrapCt : Bytes
  nonce : Bytes
  sig : Bytes
  deriving DecidableEq

/-- A session key we wrapped: to the static key of a peer (REKEY) or to the
ephemeral of a request that key signed (KEYRSP). -/
structure Wrapped where
  channel : Text
  pubkey : Bytes
  sk : Key
  deriving DecidableEq

/-- A REKEY waiting for the IRC layer to ship. -/
structure PendingRekeySend where
  channel : Text
  targetHandle : Text
  /-- What the body delivers, and to whom. -/
  body : Wrapped
  deriving DecidableEq

structure PendingHandshake where
  channel : Text
  peerHandle : Option Text
  ephSecret : Bytes
  createdAt : Nat

structure PendingInbound where
  handle : Text
  channel : Text
  req : KeyReq
  createdAt : Nat

inductive KeyChange where
  | fingerprintChanged
  | handleChanged
  deriving DecidableEq

/-- A blocked change of key or handle, kept for a later reverify. -/
structure PendingKeyChange where
  kind : KeyChange
  newPubkey : Bytes
  channel : Text
  createdAt : Nat

structure Manager where
  userId : Nat
  networkId : Nat
  tsToleranceSecs : Nat
  /-- Our own identity. -/
  pubkey : Bytes
  secret : Bytes
  keyring : Keyring
  /-- By channel and nonce. -/
  pending : OrderedMap Text PendingHandshake
  pendingInbound : OrderedMap Text PendingInbound
  pendingKeyChange : OrderedMap Text PendingKeyChange
  pendingRekey : List PendingRekeySend
  replay : ReplayCache
  rekeyReplay : ReplayCache

namespace Manager

/-- A manager that has just started on a keyring. -/
def start (userId networkId : Nat) (pubkey secret : Bytes) (keyring : Keyring) : Manager where
  userId := userId
  networkId := networkId
  tsToleranceSecs := 300
  pubkey := pubkey
  secret := secret
  keyring := keyring
  pending := .empty
  pendingInbound := .empty
  pendingKeyChange := .empty
  pendingRekey := []
  replay := .empty 100000
  rekeyReplay := .empty 10000

def nowUnix (now : Nat) : Nat := now / 1000

def tenantKey (m : Manager) : Text := decimal m.userId ++ ':' :: decimal m.networkId

section Rotation

-- whether a public key maps to a curve point that a key can be wrapped to
variable (wrappable : Bytes → Bool)

/-- The REKEYs of a rotation, one for each remaining recipient with a pin. -/
def rekeySends (k : Keyring) (channel : Text) (freshSk : Key) : List PendingRekeySend :=
  (k.listOutgoingRecipients channel).filterMap fun r =>
    match k.getPeerByFingerprint r.fingerprint with
    | none => none
    | some peer =>
      if wrappable peer.pubkey then
        some { channel, targetHandle := peer.lastHandle.getD r.handle,
               body := ⟨channel, peer.pubkey, freshSk⟩ }
      else none

def queueRekeyDistribution (m : Manager) (channel : Text) (freshSk : Key) : Manager :=
  { m with pendingRekey := m.pendingRekey ++ rekeySends wrappable m.keyring channel freshSk }

/-- Our key for a channel: the one we have, or `fresh` when there is none or a
rotation is pending. -/
def getOrGenerateOutgoingKey (m : Manager) (fresh : Key) (channel : Text) : Key × Manager :=
  match m.keyring.getOutgoingSession channel with
  | some sess =>
    if sess.pendingRotation then
      let m := queueRekeyDistribution wrappable m channel fresh
      (fresh, { m with keyring := m.keyring.setOutgoingSession channel fresh })
    else (sess.sk, m)
  | none => (fresh, { m with keyring := m.keyring.setOutgoingSession channel fresh })

/-- The key is the session's afterwards, and no rotation is pending. -/
theorem getOrGenerateOutgoingKey_session (m : Manager) (fresh : Key) (channel : Text) :
    ∃ sess, (getOrGenerateOutgoingKey wrappable m fresh channel).2.keyring.getOutgoingSession
        channel = some sess ∧ sess.sk = (getOrGenerateOutgoingKey wrappable m fresh channel).1 ∧
      sess.pendingRotation = false := by
  unfold getOrGenerateOutgoingKey
  split
  case h_1 sess heq =>
    split
    case isTrue => exact Keyring.getOutgoingSession_setOutgoingSession ..
    case isFalse hrot => exact ⟨sess, heq, rfl, by simpa using hrot⟩
  case h_2 heq => exact Keyring.getOutgoingSession_setOutgoingSession ..

def prepareOutgoing (m : Manager) (fresh : Key) (channel : Text) : Manager :=
  (getOrGenerateOutgoingKey wrappable m fresh channel).2

end Rotation

/-- Flag a channel's key for rotation; `false` when there is none yet. -/
def rotateChannel (m : Manager) (channel : Text) : Bool × Manager :=
  match m.keyring.getOutgoingSession channel with
  | none => (false, m)
  | some _ => (true, { m with keyring := m.keyring.markOutgoingPendingRotation channel })

def takePendingRekeySends (m : Manager) : List PendingRekeySend × Manager :=
  (m.pendingRekey, { m with pendingRekey := [] })

/-- A REKEY that never reached the wire goes back to the front of the queue,
unless the queue holds one for the same channel and handle. -/
def putBackRekeySend (m : Manager) (send : PendingRekeySend) : Manager :=
  if m.pendingRekey.any fun s => s.channel = send.channel ∧ s.targetHandle = send.targetHandle then m
  else { m with pendingRekey := send :: m.pendingRekey }

end Manager

end Lurker.E2e
