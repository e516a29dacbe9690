import Lurker.E2e.Handshake

/-!
# Acts on trust

What the user does to the keyring by hand: revoke and restore a peer, forget
one, accept a blocked change of key or handle, decline a prompt, configure a
channel. A revoke finds who can read us by handle, in the incoming sessions and
the recipients of our keys, and flags those channels for rotation; the others
delete rows and flag nothing.
-/

namespace Lurker.E2e

inductive ReverifyOutcome where
  | applied (change : KeyChange) (oldFpHex newFpHex : String)
  | cleared (count : Nat)
  | notFound
  deriving DecidableEq

namespace Manager

variable (c : Crypto)

/-- Cut a channel off from whoever reads it under a handle. -/
def cutOff (handle : Text) (k : Keyring) (channel : Text) : Keyring :=
  (k.markOutgoingPendingRotation channel).removeOutgoingRecipient channel handle

/-- The channels where a handle can read us or we can read it. -/
def channelsOfHandle (k : Keyring) (handle : Text) : List Text :=
  (k.listIncomingChannelsForHandle handle ++ k.listOutgoingChannelsForHandle handle).dedup

/-- Revoke a peer and its sessions, and flag our key for rotation wherever it reads us. -/
def revokePeer (m : Manager) (handle : Text) : Bool × Manager :=
  let peer := m.keyring.getPeerByHandle handle
  let k := match peer with
    | some p => m.keyring.setPeerStatus p.fingerprint .revoked
    | none => m.keyring
  let channels := channelsOfHandle k handle
  let (revoked, k) := k.revokeIncomingSessionsForHandle handle
  let m := { m with keyring := channels.foldl (cutOff handle) k }
  (peer.isSome || 0 < revoked, clearKeyChange c m handle)

/-- Restore a revoked peer and its sessions. -/
def unrevokePeer (m : Manager) (handle : Text) : Bool × Manager :=
  match m.keyring.getPeerByHandle handle with
  | none => (false, m)
  | some p =>
    if p.globalStatus ≠ .revoked then (false, m)
    else
      let k := m.keyring.setPeerStatus p.fingerprint .trusted
      let restore (k : Keyring) (channel : Text) := k.updateIncomingStatus handle channel .trusted
      (true, { m with keyring := (k.listIncomingChannelsForHandle handle).foldl restore k })

def initiatedTo (handle : Text) (ph : PendingHandshake) : Bool :=
  match ph.peerHandle with
  | some h => h ≠ [] && eqLower c h handle
  | none => false

/-- Drop the handshakes we began with a handle and the prompts it left. -/
def clearPendingForHandle (m : Manager) (handle : Text) : Nat × Manager :=
  let ours := initiatedTo c handle
  let theirs (pi : PendingInbound) := eqLower c pi.handle handle
  (m.pending.values.countP ours + m.pendingInbound.values.countP theirs,
    { m with
      pending := m.pending.filterValues fun ph => !ours ph
      pendingInbound := m.pendingInbound.filterValues fun pi => !theirs pi })

/-- Forget a peer: its pin, its sessions, what it reads, and what is pending. -/
def forgetPeer (m : Manager) (handle : Text) : Nat × Manager :=
  let (pinned, k) := match m.keyring.getPeerByHandle handle with
    | some p => (1, m.keyring.deletePeerByFingerprint p.fingerprint)
    | none => (0, m.keyring)
  let (sessions, k) := k.deleteIncomingSessionsForHandle handle
  let (readers, k) := k.deleteOutgoingRecipientsForHandle handle
  let (pending, m) := clearPendingForHandle c { m with keyring := k } handle
  (pinned + sessions + readers + pending, clearKeyChange c m handle)

/-- Forget a peer on one channel and keep its pin. -/
def forgetPeerOnChannel (m : Manager) (handle channel : Text) : Bool × Manager :=
  let hadSession := (m.keyring.getIncomingSession handle channel).isSome
  let key := inboundKey c m handle channel
  let hadPending := (m.pendingInbound.get? key).isSome
  let ours (ph : PendingHandshake) := eqLower c ph.channel channel && initiatedTo c handle ph
  let hadOutbound := m.pending.values.any ours
  (hadSession || hadPending || hadOutbound,
    { m with
      pendingInbound := m.pendingInbound.delete key
      keyring := (m.keyring.deleteIncomingSession handle channel).removeOutgoingRecipient
        channel handle
      pending := m.pending.filterValues fun ph => !ours ph })

def fingerprintHex (fp : Bytes) : String := String.ofList (hex fp)

/-- Pin a key to a handle as trusted, and drop whoever read us under the handle. -/
def pinNew (m : Manager) (now : Nat) (handle : Text) (newPubkey : Bytes) : Manager :=
  let newFp := c.fingerprint newPubkey
  let k := (upsertSeenPeer m.keyring now newFp newPubkey handle).setPeerStatus newFp .trusted
  let k := (k.deleteOutgoingRecipientsForHandle handle).2
  clearKeyChange c (clearPendingForHandle c { m with keyring := k } handle).2 handle

/-- Drop what is left of a peer under a handle it moved from. -/
def dropHandle (m : Manager) (handle : Text) : Manager :=
  let k := (m.keyring.deleteIncomingSessionsForHandle handle).2
  let k := (k.deleteOutgoingRecipientsForHandle handle).2
  (clearPendingForHandle c { m with keyring := k } handle).2

/-- Pin a remembered change of key or handle. -/
def applyStashedKeyChange (m : Manager) (now : Nat) (handle : Text) (stash : PendingKeyChange) :
    ReverifyOutcome × Manager :=
  let newFp := c.fingerprint stash.newPubkey
  match stash.kind with
  | .fingerprintChanged =>
    let old := m.keyring.getPeerByHandle handle
    let k := match old with
      | some p =>
        if p.fingerprint ≠ newFp then m.keyring.deletePeerByFingerprint p.fingerprint
        else m.keyring
      | none => m.keyring
    let k := (k.deleteIncomingSessionsForHandle handle).2
    let oldFpHex := (old.map fun p => fingerprintHex p.fingerprint).getD "(unknown)"
    (.applied .fingerprintChanged oldFpHex (fingerprintHex newFp),
      pinNew c { m with keyring := k } now handle stash.newPubkey)
  | .handleChanged =>
    let m := match (m.keyring.getPeerByFingerprint newFp).bind PeerRecord.lastHandle with
      | some oldHandle =>
        if oldHandle ≠ [] ∧ !eqLower c oldHandle handle then dropHandle c m oldHandle else m
      | none => m
    (.applied .handleChanged (fingerprintHex newFp) (fingerprintHex newFp),
      pinNew c m now handle stash.newPubkey)

/-- The change remembered for a handle, while it is live. -/
def liveStash (m : Manager) (now : Nat) (handle : Text) : Option PendingKeyChange :=
  (m.pendingKeyChange.get? (peerKey c m handle)).filter fun stash =>
    now ≤ stash.createdAt + keyChangeTtl

/-- Accept the change remembered for a handle, or forget the handle when there is none. -/
def reverifyPeer (m : Manager) (now : Nat) (handle : Text) : ReverifyOutcome × Manager :=
  match liveStash c m now handle with
  | some stash => applyStashedKeyChange c m now handle stash
  | none =>
    let (cleared, m) := forgetPeer c (clearKeyChange c m handle) handle
    (if 0 < cleared then .cleared cleared else .notFound, m)

/-- Decline a cached request: revoke the session of this channel only. -/
def declinePeer (m : Manager) (handle channel : Text) : Bool × Manager :=
  let key := inboundKey c m handle channel
  if (m.pendingInbound.get? key).isNone then (false, m)
  else
    let m := { m with
      pendingInbound := m.pendingInbound.delete key
      keyring := m.keyring.updateIncomingStatus handle channel .revoked }
    (true, clearKeyChange c m handle)

def setChannelConfig (m : Manager) (channel : Text) (enabled : Bool) (mode : ChannelMode) :
    Manager :=
  { m with keyring := m.keyring.setChannelConfig ⟨channel, enabled, mode⟩ }

/-- Change the mode of a channel; one never configured is enabled. -/
def setChannelMode (m : Manager) (channel : Text) (mode : ChannelMode) : Manager :=
  let enabled := ((m.keyring.getChannelConfig channel).map ChannelConfig.enabled).getD true
  setChannelConfig m channel enabled mode

def addAutotrust (m : Manager) (scope pattern : Text) : Manager :=
  { m with keyring := m.keyring.addAutotrust scope pattern }

/-- Remove the rules whose pattern is this one, without regard to case, from every scope. -/
def removeAutotrust (m : Manager) (pattern : Text) : Nat × Manager :=
  let rules := m.keyring.autotrust.rows.filter fun r => eqLower c r.handlePattern pattern
  (rules.length,
    { m with keyring :=
      rules.foldl (fun k r => k.removeAutotrust r.scope r.handlePattern) m.keyring })

end Manager

end Lurker.E2e
