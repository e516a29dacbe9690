import Lurker.Lib.Json
import Lurker.Lib.Table
import Lurker.E2e.Keyring
import Mathlib.Logic.Function.Basic

/-!
# The portable keyring

An account's identity and one network's keyring as a JSON document with its bytes in hexadecimal,
and the import that puts such a document in their place. A document is checked as a whole before
anything is stored.
-/

namespace Lurker.E2e.Portable

variable {Num : Type}

/-- The numbers, and what the JSON parser says of a text it refuses. -/
structure Platform (Num : Type) extends Json.Arithmetic Num where
  isInteger : Num → Bool
  /-- `EXPORT_VERSION`, the number 1. -/
  exportVersion : Num
  syntaxError : CodeUnits → CodeUnits

/-- Hard ceiling on an import payload. -/
def maxImportBytes : Nat := 4 * 1024 * 1024

structure IdentityRow (Num : Type) where
  pubkey : Bytes
  privkey : Bytes
  fingerprint : Bytes
  createdAt : Num

structure PeerRecord (Num : Type) where
  fingerprint : Bytes
  pubkey : Bytes
  lastHandle : Option CodeUnits
  lastNick : Option CodeUnits
  firstSeen : Num
  lastSeen : Num
  globalStatus : TrustStatus

structure IncomingSession (Num : Type) where
  handle : CodeUnits
  channel : CodeUnits
  fingerprint : Bytes
  sk : Bytes
  status : TrustStatus
  createdAt : Num

structure OutgoingSession (Num : Type) where
  channel : CodeUnits
  sk : Bytes
  createdAt : Num
  pendingRotation : Bool

structure ChannelConfig where
  channel : CodeUnits
  enabled : Bool
  mode : ChannelMode

structure AutotrustRule where
  scope : CodeUnits
  handlePattern : CodeUnits

structure ValidatedKeyring (Num : Type) where
  identity : IdentityRow Num
  peers : List (PeerRecord Num)
  incoming : List (IncomingSession Num)
  outgoing : List (OutgoingSession Num)
  channels : List ChannelConfig
  autotrust : List AutotrustRule

structure ExportInput (Num : Type) extends ValidatedKeyring Num where
  exportedAt : Num

def statusText : TrustStatus → CodeUnits
  | .pending => units "pending"
  | .trusted => units "trusted"
  | .revoked => units "revoked"

def modeText : ChannelMode → CodeUnits
  | .autoAccept => units "auto-accept"
  | .normal => units "normal"
  | .quiet => units "quiet"

def hex (u8 : Bytes) : CodeUnits :=
  u8.flatMap fun b => [Json.hexDigit (b.toNat / 16), Json.hexDigit (b.toNat % 16)]

/-- A property of an object literal. -/
def property (name : String) (v : Json Num) : CodeUnits × Json Num := (units name, v)

def hexJson (u8 : Bytes) : Json Num := .str (hex u8)

def nullableJson : Option CodeUnits → Json Num
  | none => .null
  | some s => .str s

def identityJson (i : IdentityRow Num) : Json Num :=
  .obj [property "pubkey" (hexJson i.pubkey), property "privkey" (hexJson i.privkey),
    property "fingerprint" (hexJson i.fingerprint), property "createdAt" (.num i.createdAt)]

def peerJson (p : PeerRecord Num) : Json Num :=
  .obj [property "fingerprint" (hexJson p.fingerprint), property "pubkey" (hexJson p.pubkey),
    property "lastHandle" (nullableJson p.lastHandle),
    property "lastNick" (nullableJson p.lastNick), property "firstSeen" (.num p.firstSeen),
    property "lastSeen" (.num p.lastSeen),
    property "globalStatus" (.str (statusText p.globalStatus))]

def incomingJson (s : IncomingSession Num) : Json Num :=
  .obj [property "handle" (.str s.handle), property "channel" (.str s.channel),
    property "fingerprint" (hexJson s.fingerprint), property "sk" (hexJson s.sk),
    property "status" (.str (statusText s.status)), property "createdAt" (.num s.createdAt)]

def outgoingJson (o : OutgoingSession Num) : Json Num :=
  .obj [property "channel" (.str o.channel), property "sk" (hexJson o.sk),
    property "createdAt" (.num o.createdAt), property "pendingRotation" (.bool o.pendingRotation)]

def channelJson (c : ChannelConfig) : Json Num :=
  .obj [property "channel" (.str c.channel), property "enabled" (.bool c.enabled),
    property "mode" (.str (modeText c.mode))]

def autotrustJson (a : AutotrustRule) : Json Num :=
  .obj [property "scope" (.str a.scope), property "handlePattern" (.str a.handlePattern)]

/-- Serialize already-read keyring rows into the portable document. -/
def buildPortable (P : Platform Num) (input : ExportInput Num) : Json Num :=
  .obj [property "version" (.num P.exportVersion), property "exportedAt" (.num input.exportedAt),
    property "identity" (identityJson input.identity),
    property "peers" (.arr (input.peers.map peerJson)),
    property "incomingSessions" (.arr (input.incoming.map incomingJson)),
    property "outgoingSessions" (.arr (input.outgoing.map outgoingJson)),
    property "channels" (.arr (input.channels.map channelJson)),
    property "autotrust" (.arr (input.autotrust.map autotrustJson))]

def serializePortable (P : Platform Num) (doc : Json Num) : CodeUnits :=
  Json.stringify P.toArithmetic doc

inductive Thrown where
  | e2e (kind : E2eErrorKind) (message : CodeUnits)
  | typeError (message : CodeUnits)
  deriving DecidableEq

def Thrown.message : Thrown → CodeUnits
  | .e2e _ message => message
  | .typeError message => message

def keyringError {α : Type} (message : CodeUnits) : Except Thrown α := .error (.e2e .keyring message)

def require (b : Bool) (message : CodeUnits) : Except Thrown Unit :=
  if b then .ok () else keyringError message

/-- A property read, which throws on null. -/
def read (record : Json Num) (name : String) : Except Thrown (Option (Json Num)) :=
  if record.isNull then
    .error (.typeError (units s!"Cannot read properties of null (reading '{name}')"))
  else .ok (record.member (units name))

def parseStatus (s : CodeUnits) : TrustStatus :=
  if s = units "trusted" then .trusted else if s = units "revoked" then .revoked else .pending

def parseMode (s : CodeUnits) : ChannelMode :=
  if s = units "auto-accept" ∨ s = units "auto" then .autoAccept
  else if s = units "quiet" then .quiet
  else .normal

def unhex : CodeUnits → Bytes
  | a :: b :: s =>
    UInt8.ofNat (16 * (Json.hexValue a).getD 0 + (Json.hexValue b).getD 0) :: unhex s
  | _ => []

def isHex (s : CodeUnits) : Bool := s.all fun c => (Json.hexValue c).isSome

/-- Strict hex to exactly `len` bytes. -/
def parseHex (field : String) (s : Option (Json Num)) (len : Nat) : Except Thrown Bytes :=
  match s with
  | some (.str s) =>
    if isHex s then
      if s.length ≠ len * 2 then
        keyringError (units
          s!"{field}: expected {len} bytes (hex length {len * 2}), got {s.length}")
      else .ok (unhex s)
    else keyringError (units s!"{field}: invalid hex")
  | _ => keyringError (units s!"{field}: invalid hex")

def strField (field : String) (s : Option (Json Num)) : Except Thrown CodeUnits :=
  match s with
  | some (.str s) => .ok s
  | _ => keyringError (units s!"{field}: expected a string")

/-- Null or absent is null, a string passes through, any other type is rejected. -/
def nullableStr (field : String) (s : Option (Json Num)) : Except Thrown (Option CodeUnits) :=
  match s with
  | none | some .null => .ok none
  | some (.str s) => .ok (some s)
  | _ => keyringError (units s!"{field}: expected a string or null")

def intField (P : Platform Num) (field : String) (n : Option (Json Num)) : Except Thrown Num :=
  match n with
  | some (.num n) =>
    if P.isInteger n then .ok n else keyringError (units s!"{field}: expected an integer")
  | _ => keyringError (units s!"{field}: expected an integer")

/-- A property that is the value `true`, and no other that counts as true. -/
def isTrue : Option (Json Num) → Bool
  | some (.bool b) => b
  | _ => false

def parseIdentity (P : Platform Num) (doc : Json Num) : Except Thrown (IdentityRow Num) := do
  let pubkey ← parseHex "identity.pubkey" (← read doc "pubkey") 32
  let privkey ← parseHex "identity.privkey" (← read doc "privkey") 32
  let fingerprint ← parseHex "identity.fingerprint" (← read doc "fingerprint") 16
  let createdAt ← intField P "identity.createdAt" (← read doc "createdAt")
  return ⟨pubkey, privkey, fingerprint, createdAt⟩

def parsePeer (P : Platform Num) (i : Nat) (p : Json Num) : Except Thrown (PeerRecord Num) := do
  let fingerprint ← parseHex s!"peers[{i}].fingerprint" (← read p "fingerprint") 16
  let pubkey ← parseHex s!"peers[{i}].pubkey" (← read p "pubkey") 32
  let lastHandle ← nullableStr s!"peers[{i}].lastHandle" (← read p "lastHandle")
  let lastNick ← nullableStr s!"peers[{i}].lastNick" (← read p "lastNick")
  let firstSeen ← intField P s!"peers[{i}].firstSeen" (← read p "firstSeen")
  let lastSeen ← intField P s!"peers[{i}].lastSeen" (← read p "lastSeen")
  let status ← strField s!"peers[{i}].globalStatus" (← read p "globalStatus")
  return ⟨fingerprint, pubkey, lastHandle, lastNick, firstSeen, lastSeen, parseStatus status⟩

def parseIncoming (P : Platform Num) (i : Nat) (s : Json Num) :
    Except Thrown (IncomingSession Num) := do
  let handle ← strField s!"incomingSessions[{i}].handle" (← read s "handle")
  let channel ← strField s!"incomingSessions[{i}].channel" (← read s "channel")
  let fingerprint ← parseHex s!"incomingSessions[{i}].fingerprint" (← read s "fingerprint") 16
  let sk ← parseHex s!"incomingSessions[{i}].sk" (← read s "sk") 32
  let status ← strField s!"incomingSessions[{i}].status" (← read s "status")
  let createdAt ← intField P s!"incomingSessions[{i}].createdAt" (← read s "createdAt")
  return ⟨handle, channel, fingerprint, sk, parseStatus status, createdAt⟩

def parseOutgoing (P : Platform Num) (i : Nat) (o : Json Num) :
    Except Thrown (OutgoingSession Num) := do
  let channel ← strField s!"outgoingSessions[{i}].channel" (← read o "channel")
  let sk ← parseHex s!"outgoingSessions[{i}].sk" (← read o "sk") 32
  let createdAt ← intField P s!"outgoingSessions[{i}].createdAt" (← read o "createdAt")
  let pendingRotation ← read o "pendingRotation"
  return ⟨channel, sk, createdAt, isTrue pendingRotation⟩

def parseChannel (i : Nat) (c : Json Num) : Except Thrown ChannelConfig := do
  let channel ← strField s!"channels[{i}].channel" (← read c "channel")
  let enabled ← read c "enabled"
  let mode ← strField s!"channels[{i}].mode" (← read c "mode")
  return ⟨channel, isTrue enabled, parseMode mode⟩

def parseAutotrust (i : Nat) (a : Json Num) : Except Thrown AutotrustRule := do
  let scope ← strField s!"autotrust[{i}].scope" (← read a "scope")
  let handlePattern ← strField s!"autotrust[{i}].handlePattern" (← read a "handlePattern")
  return ⟨scope, handlePattern⟩

/-- `map` with the index, from the first that throws on. -/
def mapFrom {α : Type} (f : Nat → Json Num → Except Thrown α) :
    Nat → List (Json Num) → Except Thrown (List α)
  | _, [] => .ok []
  | i, v :: vs => do
    let a ← f i v
    let as ← mapFrom f (i + 1) vs
    return a :: as

/-- `typeof v === 'object'` and not null. -/
def isObject : Option (Json Num) → Bool
  | some (.obj _) | some (.arr _) => true
  | _ => false

/-- The elements of a property that must be an array. -/
def arrayField (doc : Json Num) (field : String) : Except Thrown (List (Json Num)) :=
  match doc.member (units field) with
  | some (.arr vs) => .ok vs
  | _ => keyringError (units s!"import: {field} must be an array")

/-- A value in a template. -/
def shown (P : Platform Num) : Option (Json Num) → Option CodeUnits
  | none => some (units "undefined")
  | some v => v.asString P.toArithmetic

variable [DecidableEq Num]

def isVersion (P : Platform Num) : Option (Json Num) → Bool
  | some (.num n) => n = P.exportVersion
  | _ => false

def checkVersion (P : Platform Num) (version : Option (Json Num)) : Except Thrown Unit :=
  if isVersion P version then .ok ()
  else match shown P version with
    | none => .error (.typeError (units "Cannot convert object to primitive value"))
    | some got =>
      keyringError (units "unsupported export version: got " ++ got ++ units ", expected 1")

/-- The checks of a parsed document. -/
def validate (P : Platform Num) (doc : Json Num) : Except Thrown (ValidatedKeyring Num) := do
  require (isObject (some doc)) (units "import: not a JSON object")
  checkVersion P (doc.member (units "version"))
  let identityDoc := doc.member (units "identity")
  require (isObject identityDoc) (units "import: missing identity")
  let peerDocs ← arrayField doc "peers"
  let incomingDocs ← arrayField doc "incomingSessions"
  let outgoingDocs ← arrayField doc "outgoingSessions"
  let channelDocs ← arrayField doc "channels"
  let autotrustDocs ← arrayField doc "autotrust"
  let identity ← parseIdentity P (identityDoc.getD .null)
  let peers ← mapFrom (parsePeer P) 0 peerDocs
  let incoming ← mapFrom (parseIncoming P) 0 incomingDocs
  let outgoing ← mapFrom (parseOutgoing P) 0 outgoingDocs
  let channels ← mapFrom parseChannel 0 channelDocs
  let autotrust ← mapFrom parseAutotrust 0 autotrustDocs
  return ⟨identity, peers, incoming, outgoing, channels, autotrust⟩

/-- Parse JSON and validate the entire structure before returning decoded bytes. -/
def parseAndValidate (P : Platform Num) (json : CodeUnits) :
    Except Thrown (ValidatedKeyring Num) :=
  if maxImportBytes < json.length then
    keyringError (units s!"import too large (max {maxImportBytes} bytes)")
  else match Json.parse P.toArithmetic json with
    | none => keyringError (units "parse json: " ++ P.syntaxError json)
    | some doc => validate P doc

/-- A user and one of its networks. -/
abbrev Tenant := Nat × Nat

/-- What `COLLATE NOCASE` compares. -/
def nocase (s : CodeUnits) : CodeUnits := s.map fun c => if 0x41 ≤ c ∧ c ≤ 0x5a then c + 0x20 else c

structure AutotrustRow (Num : Type) extends AutotrustRule where
  createdAt : Num

structure OutgoingRecipient (Num : Type) where
  channel : CodeUnits
  handle : CodeUnits
  fingerprint : Bytes
  firstSentAt : Num

def peerKey (r : Tenant × PeerRecord Num) : Tenant × Bytes := (r.1, r.2.fingerprint)

def incomingKey (r : Tenant × IncomingSession Num) : Tenant × CodeUnits × CodeUnits :=
  (r.1, nocase r.2.handle, nocase r.2.channel)

def outgoingKey (r : Tenant × OutgoingSession Num) : Tenant × CodeUnits := (r.1, nocase r.2.channel)

def channelKey (r : Tenant × ChannelConfig) : Tenant × CodeUnits := (r.1, nocase r.2.channel)

def autotrustKey (r : Tenant × AutotrustRow Num) : Tenant × CodeUnits × CodeUnits :=
  (r.1, nocase r.2.scope, r.2.handlePattern)

def recipientKey (r : Tenant × OutgoingRecipient Num) : Tenant × CodeUnits × CodeUnits :=
  (r.1, nocase r.2.channel, nocase r.2.handle)

/-- The tables of every account and network. -/
structure Stored (Num : Type) where
  identity : Table (Nat × IdentityRow Num) Prod.fst
  peers : Table (Tenant × PeerRecord Num) peerKey
  incoming : Table (Tenant × IncomingSession Num) incomingKey
  outgoing : Table (Tenant × OutgoingSession Num) outgoingKey
  channels : Table (Tenant × ChannelConfig) channelKey
  autotrust : Table (Tenant × AutotrustRow Num) autotrustKey
  recipients : Table (Tenant × OutgoingRecipient Num) recipientKey

namespace Stored

def loadIdentity (s : Stored Num) (userId : Nat) : Option (IdentityRow Num) :=
  (s.identity.get? userId).map (·.2)

def saveIdentity (s : Stored Num) (userId : Nat) (id : IdentityRow Num) : Stored Num :=
  { s with identity := s.identity.upsert (userId, id) (fun r => (r.1, id)) fun _ => rfl }

/-- A known peer keeps its key, its first sighting and its status. -/
def upsertPeer (s : Stored Num) (t : Tenant) (p : PeerRecord Num) : Stored Num :=
  let seen (q : PeerRecord Num) :=
    { q with lastHandle := p.lastHandle, lastNick := p.lastNick, lastSeen := p.lastSeen }
  { s with peers := s.peers.upsert (t, p) (fun r => (r.1, seen r.2)) fun _ => rfl }

def setIncomingSession (s : Stored Num) (t : Tenant) (i : IncomingSession Num) : Stored Num :=
  let set (q : IncomingSession Num) :=
    { i with handle := q.handle, channel := q.channel }
  { s with incoming := s.incoming.upsert (t, i) (fun r => (r.1, set r.2)) fun _ => rfl }

def setOutgoingSession (s : Stored Num) (t : Tenant) (channel : CodeUnits) (sk : Bytes)
    (createdAt : Num) : Stored Num :=
  let set (q : OutgoingSession Num) : OutgoingSession Num := ⟨q.channel, sk, createdAt, false⟩
  { s with
    outgoing := s.outgoing.upsert (t, ⟨channel, sk, createdAt, false⟩) (fun r => (r.1, set r.2))
      fun _ => rfl }

def markOutgoingPendingRotation (s : Stored Num) (t : Tenant) (channel : CodeUnits) : Stored Num :=
  { s with
    outgoing := s.outgoing.update (fun r => outgoingKey r = (t, nocase channel))
      (fun r => (r.1, { r.2 with pendingRotation := true })) fun _ => rfl }

def setChannelConfig (s : Stored Num) (t : Tenant) (c : ChannelConfig) : Stored Num :=
  let set (q : ChannelConfig) := { c with channel := q.channel }
  { s with channels := s.channels.upsert (t, c) (fun r => (r.1, set r.2)) fun _ => rfl }

/-- `INSERT OR IGNORE` -/
def addAutotrust (s : Stored Num) (t : Tenant) (a : AutotrustRule) (now : Num) : Stored Num :=
  { s with autotrust := s.autotrust.upsert (t, ⟨a, now⟩) id fun _ => rfl }

/-- The rows of one network, of every table but the identities. -/
def deleteAll (s : Stored Num) (t : Tenant) : Stored Num :=
  { s with
    peers := s.peers.delete (·.1 = t)
    incoming := s.incoming.delete (·.1 = t)
    outgoing := s.outgoing.delete (·.1 = t)
    channels := s.channels.delete (·.1 = t)
    autotrust := s.autotrust.delete (·.1 = t)
    recipients := s.recipients.delete (·.1 = t) }

/-- Replace this network's keyring from a validated import, and set the account identity. -/
def replaceKeyringForImport (s : Stored Num) (userId networkId : Nat) (data : ValidatedKeyring Num)
    (now : Num) : Stored Num :=
  let t := (userId, networkId)
  let s := (s.saveIdentity userId data.identity).deleteAll t
  let s := data.peers.foldl (·.upsertPeer t ·) s
  let s := data.incoming.foldl (·.setIncomingSession t ·) s
  let s := data.outgoing.foldl (fun s o =>
    let s := s.setOutgoingSession t o.channel o.sk o.createdAt
    if o.pendingRotation then s.markOutgoingPendingRotation t o.channel else s) s
  let s := data.channels.foldl (·.setChannelConfig t ·) s
  data.autotrust.foldl (·.addAutotrust t · now) s

end Stored

/-- What the manager keeps of the accounts: the rows, and the identities it has loaded. -/
structure Manager (Num : Type) where
  stored : Stored Num
  identities : Nat → Option (IdentityRow Num)

structure PortableCounts where
  peers : Nat
  incoming : Nat
  outgoing : Nat
  channels : Nat
  autotrust : Nat

inductive ImportResult where
  | ok (counts : PortableCounts) (identityChanged : Bool) (fingerprintHex : CodeUnits)
  | failed (reason : CodeUnits)

/-- Replace this network's keyring with a well-formed document; a malformed one changes nothing. -/
def importKeyring (P : Platform Num) (m : Manager Num) (userId networkId : Nat) (json : CodeUnits)
    (now : Num) : ImportResult × Manager Num :=
  match parseAndValidate P json with
  | .ok data =>
    let identityChanged := match m.stored.loadIdentity userId with
      | none => true
      | some current => current.fingerprint ≠ data.identity.fingerprint
    (.ok ⟨data.peers.length, data.incoming.length, data.outgoing.length, data.channels.length,
        data.autotrust.length⟩ identityChanged (hex data.identity.fingerprint),
      { m with
        stored := m.stored.replaceKeyringForImport userId networkId data now
        identities := Function.update m.identities userId none })
  | .error err => (.failed err.message, m)

end Lurker.E2e.Portable
