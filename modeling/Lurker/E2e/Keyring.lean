import Lurker.Lib.Table
import Lurker.E2e.Encoding
import Mathlib.Data.List.Sort

/-!
# The keyring

The tables of one account on one network and the statements over them. The
columns that hold a handle or a channel compare without the case of the ASCII
letters (`COLLATE NOCASE`), also inside a primary key; a row keeps the spelling
it was inserted with.
-/

namespace Lurker.E2e

/-- A 32-byte session key. -/
abbrev Key := { bs : Bytes // bs.length = 32 }

/-- What `COLLATE NOCASE` compares: the text with its ASCII letters folded. -/
def nocase (s : Text) : Text := s.map Char.toLower

inductive TrustStatus where
  | pending
  | trusted
  | revoked
  deriving DecidableEq

inductive ChannelMode where
  | autoAccept
  | normal
  | quiet
  deriving DecidableEq

structure PeerRecord where
  fingerprint : Bytes
  pubkey : Bytes
  lastHandle : Option Text
  lastSeen : Nat
  globalStatus : TrustStatus
  deriving DecidableEq

structure IncomingSession where
  handle : Text
  channel : Text
  fingerprint : Bytes
  sk : Key
  status : TrustStatus
  deriving DecidableEq

structure OutgoingSession where
  channel : Text
  sk : Key
  pendingRotation : Bool
  deriving DecidableEq

structure OutgoingRecipient where
  channel : Text
  handle : Text
  fingerprint : Bytes
  firstSentAt : Nat
  deriving DecidableEq

structure ChannelConfig where
  channel : Text
  enabled : Bool
  mode : ChannelMode
  deriving DecidableEq

structure AutotrustRule where
  scope : Text
  handlePattern : Text
  deriving DecidableEq

def IncomingSession.key (s : IncomingSession) : Text × Text := (nocase s.handle, nocase s.channel)

def OutgoingSession.key (s : OutgoingSession) : Text := nocase s.channel

def OutgoingRecipient.key (r : OutgoingRecipient) : Text × Text := (nocase r.channel, nocase r.handle)

def ChannelConfig.key (c : ChannelConfig) : Text := nocase c.channel

def AutotrustRule.key (r : AutotrustRule) : Text × Text := (nocase r.scope, r.handlePattern)

/-- Whether `last_handle = ?` selects a peer. -/
def PeerRecord.atHandle (handle : Text) (p : PeerRecord) : Bool :=
  match p.lastHandle with
  | some h => nocase h = nocase handle
  | none => false

structure Keyring where
  peers : Table PeerRecord PeerRecord.fingerprint
  incoming : Table IncomingSession IncomingSession.key
  outgoing : Table OutgoingSession OutgoingSession.key
  recipients : Table OutgoingRecipient OutgoingRecipient.key
  configs : Table ChannelConfig ChannelConfig.key
  autotrust : Table AutotrustRule AutotrustRule.key

namespace Keyring

/-- A network with no encryption state. -/
def fresh : Keyring := ⟨.empty, .empty, .empty, .empty, .empty, .empty⟩

/-- Insert a peer, or refresh where and when a known one was last seen. The
trust status of a known peer is not touched. -/
def upsertPeer (k : Keyring) (p : PeerRecord) : Keyring :=
  let refresh (q : PeerRecord) := { q with lastHandle := p.lastHandle, lastSeen := p.lastSeen }
  { k with peers := k.peers.upsert p refresh fun _ => rfl }

def setPeerStatus (k : Keyring) (fp : Bytes) (status : TrustStatus) : Keyring :=
  let set (p : PeerRecord) := { p with globalStatus := status }
  { k with peers := k.peers.update (fun p => p.fingerprint = fp) set fun _ => rfl }

def getPeerByFingerprint (k : Keyring) (fp : Bytes) : Option PeerRecord := k.peers.get? fp

/-- The most recently seen peer at a handle, the earliest inserted among equals. -/
def getPeerByHandle (k : Keyring) (handle : Text) : Option PeerRecord :=
  (k.peers.rows.filter (PeerRecord.atHandle handle)).foldl
    (fun best p => match best with
      | some q => if q.lastSeen < p.lastSeen then some p else some q
      | none => some p) none

def deletePeerByFingerprint (k : Keyring) (fp : Bytes) : Keyring :=
  { k with peers := k.peers.delete fun p => p.fingerprint = fp }

def getIncomingSession (k : Keyring) (handle channel : Text) : Option IncomingSession :=
  k.incoming.get? (nocase handle, nocase channel)

/-- Install under strict TOFU: nothing when the session is pinned to another
fingerprint, only a new key when it is pinned to this one. -/
def installIncomingSessionStrict (k : Keyring) (s : IncomingSession) : Option Keyring :=
  match k.getIncomingSession s.handle s.channel with
  | some existing =>
    if existing.fingerprint ≠ s.fingerprint then none
    else
      let refresh (r : IncomingSession) := { r with sk := s.sk }
      some { k with incoming := k.incoming.update (fun r => r.key = s.key) refresh fun _ => rfl }
  | none =>
    let replace (r : IncomingSession) :=
      { r with fingerprint := s.fingerprint, sk := s.sk, status := s.status }
    some { k with incoming := k.incoming.upsert s replace fun _ => rfl }

def updateIncomingStatus (k : Keyring) (handle channel : Text) (status : TrustStatus) : Keyring :=
  let here (r : IncomingSession) : Bool := r.key = (nocase handle, nocase channel)
  { k with incoming := k.incoming.update here (fun r => { r with status := status }) fun _ => rfl }

def deleteIncomingSession (k : Keyring) (handle channel : Text) : Keyring :=
  { k with incoming := k.incoming.delete fun r => r.key = (nocase handle, nocase channel) }

def incomingForHandle (handle : Text) (r : IncomingSession) : Bool := nocase r.handle = nocase handle

def deleteIncomingSessionsForHandle (k : Keyring) (handle : Text) : Nat × Keyring :=
  (k.incoming.rows.countP (incomingForHandle handle),
    { k with incoming := k.incoming.delete (incomingForHandle handle) })

def revokeIncomingSessionsForHandle (k : Keyring) (handle : Text) : Nat × Keyring :=
  let revoke (r : IncomingSession) := { r with status := .revoked }
  (k.incoming.rows.countP (incomingForHandle handle),
    { k with incoming := k.incoming.update (incomingForHandle handle) revoke fun _ => rfl })

def listIncomingChannelsForHandle (k : Keyring) (handle : Text) : List Text :=
  (k.incoming.rows.filter (incomingForHandle handle)).map IncomingSession.channel

def getOutgoingSession (k : Keyring) (channel : Text) : Option OutgoingSession :=
  k.outgoing.get? (nocase channel)

def setOutgoingSession (k : Keyring) (channel : Text) (sk : Key) : Keyring :=
  let replace (s : OutgoingSession) := { s with sk := sk, pendingRotation := false }
  { k with outgoing := k.outgoing.upsert ⟨channel, sk, false⟩ replace fun _ => rfl }

theorem getOutgoingSession_setOutgoingSession (k : Keyring) (channel : Text) (sk : Key) :
    ∃ sess, (k.setOutgoingSession channel sk).getOutgoingSession channel = some sess ∧
      sess.sk = sk ∧ sess.pendingRotation = false := by
  have hget : (k.setOutgoingSession channel sk).getOutgoingSession channel = _ :=
    Table.get?_upsert (by intro _; rfl)
  refine ⟨_, hget.trans (if_pos rfl), ?_⟩
  cases k.outgoing.get? (OutgoingSession.key ⟨channel, sk, false⟩) with
  | none => exact ⟨rfl, rfl⟩
  | some sess => exact ⟨rfl, rfl⟩

theorem getOutgoingSession_setOutgoingSession_of_ne {k : Keyring} {channel channel' : Text}
    {sk : Key} (h : nocase channel' ≠ nocase channel) :
    (k.setOutgoingSession channel sk).getOutgoingSession channel' =
      k.getOutgoingSession channel' :=
  (Table.get?_upsert (by intro _; rfl)).trans (if_neg h)

def markOutgoingPendingRotation (k : Keyring) (channel : Text) : Keyring :=
  let mark (s : OutgoingSession) := { s with pendingRotation := true }
  { k with outgoing := k.outgoing.update (fun s => s.key = nocase channel) mark fun _ => rfl }

/-- Flagging a session for rotation keeps its key. -/
theorem getOutgoingSession_markOutgoingPendingRotation {k : Keyring} (channel : Text)
    {channel' : Text} {sess : OutgoingSession} (h : k.getOutgoingSession channel' = some sess) :
    ∃ sess', (k.markOutgoingPendingRotation channel).getOutgoingSession channel' = some sess' ∧
      sess'.sk = sess.sk := by
  have hget : (k.markOutgoingPendingRotation channel).getOutgoingSession channel' = _ :=
    Table.get?_update (by intro _; rfl)
  rw [show k.outgoing.get? (nocase channel') = some sess from h, Option.map_some] at hget
  refine ⟨_, hget, ?_⟩
  split <;> rfl

def recipientForHandle (handle : Text) (r : OutgoingRecipient) : Bool :=
  nocase r.handle = nocase handle

/-- Insert a recipient; a known one takes the new fingerprint. -/
def recordOutgoingRecipient (k : Keyring) (r : OutgoingRecipient) : Keyring :=
  let repin (q : OutgoingRecipient) := { q with fingerprint := r.fingerprint }
  { k with recipients := k.recipients.upsert r repin fun _ => rfl }

/-- The recipients of our key on a channel, first sent to first. -/
def listOutgoingRecipients (k : Keyring) (channel : Text) : List OutgoingRecipient :=
  (k.recipients.rows.filter fun r => nocase r.channel = nocase channel).mergeSort
    fun r r' => r.firstSentAt ≤ r'.firstSentAt

theorem mem_listOutgoingRecipients {k : Keyring} {channel : Text} {r : OutgoingRecipient} :
    r ∈ k.listOutgoingRecipients channel ↔
      r ∈ k.recipients.rows ∧ nocase r.channel = nocase channel := by
  unfold listOutgoingRecipients
  rw [List.mem_mergeSort]
  simp

def removeOutgoingRecipient (k : Keyring) (channel handle : Text) : Keyring :=
  { k with recipients := k.recipients.delete fun r => r.key = (nocase channel, nocase handle) }

def deleteOutgoingRecipientsForHandle (k : Keyring) (handle : Text) : Nat × Keyring :=
  (k.recipients.rows.countP (recipientForHandle handle),
    { k with recipients := k.recipients.delete (recipientForHandle handle) })

def listOutgoingChannelsForHandle (k : Keyring) (handle : Text) : List Text :=
  (k.recipients.rows.filter (recipientForHandle handle)).map OutgoingRecipient.channel

def getChannelConfig (k : Keyring) (channel : Text) : Option ChannelConfig :=
  k.configs.get? (nocase channel)

def setChannelConfig (k : Keyring) (c : ChannelConfig) : Keyring :=
  let replace (d : ChannelConfig) := { d with enabled := c.enabled, mode := c.mode }
  { k with configs := k.configs.upsert c replace fun _ => rfl }

/-- `INSERT OR IGNORE` -/
def addAutotrust (k : Keyring) (scope pattern : Text) : Keyring :=
  { k with autotrust := k.autotrust.upsert ⟨scope, pattern⟩ id fun _ => rfl }

def removeAutotrust (k : Keyring) (scope pattern : Text) : Keyring :=
  { k with autotrust := k.autotrust.delete fun r => r.key = (nocase scope, pattern) }

end Keyring

end Lurker.E2e
