import Mathlib.Data.List.Basic
import Mathlib.Algebra.BigOperators.Group.List.Basic
import Mathlib.Algebra.GroupWithZero.Nat

/-!
# The wire contract between the engine and the app

The frames of `engine/protocol.ts`, one constructor for each `op`, and
`encodeFrame`, whose length the engine checks before it hands a replay over.
Fields the engine tests with `typeof` are optional: `none` is a field that is
absent or not a string. Line numbers, counts and ports are naturals; times are
integers, since the clock they come from may be set back.
-/

namespace Lurker.Engine

/-- An app link, named by the order of its accept. -/
abbrev LinkId := Nat

/-- An IRC socket, named by the order of its dial (`EngineUpstream.socketId`). -/
abbrev SocketId := Nat

def PROTOCOL_MAJOR : Int := 1
def PROTOCOL_MINOR : Int := 6

/-- The longest frame either side's reader accepts. -/
def MAX_FRAME_BYTES : Nat := 256 * 1024

structure Endpoint where
  address : String
  port : Nat
  deriving DecidableEq, Repr

/-- A run of inbound lines the engine had to drop. -/
structure Gap where
  firstDroppedSeq : Nat
  lastDroppedSeq : Nat
  at_ : Int
  deriving DecidableEq, Repr

/-- The seqs a gap covers. -/
def Gap.covers (g : Gap) (k : Nat) : Prop := g.firstDroppedSeq ≤ k ∧ k ≤ g.lastDroppedSeq

instance (g : Gap) (k : Nat) : Decidable (g.covers k) := inferInstanceAs (Decidable (_ ∧ _))

inductive InfoState
  | dialing | opened | closing
  deriving DecidableEq, Repr

structure ConnectionInfo where
  id : String
  state : InfoState
  attached : Bool
  nick : Option String
  channelCount : Nat
  bufferedLines : Nat
  bufferedBytes : Int
  detachedForMs : Option Int
  deriving DecidableEq, Repr

/-- A JSON value read with `Number(…)`: the integer it is, if it is one, and
how `String(…)` shows it. -/
structure NumberField where
  value : Option Int
  text : String
  deriving DecidableEq, Repr

structure ClientCertField where
  cert : Option String
  key : Option String
  deriving DecidableEq, Repr

structure ProxyField where
  type : Option String
  host : Option String
  port : NumberField
  username : Option String
  password : Option String
  deriving DecidableEq, Repr

structure ConnectFrame where
  id : Option String
  host : Option String
  port : NumberField
  tls : Bool
  rejectUnauthorized : Bool
  outgoingAddr : Option String
  ident : Option String
  clientCert : Option ClientCertField
  proxy : Option ProxyField
  deriving DecidableEq, Repr

structure HelloFrame where
  protocol : Int
  protocolText : String
  secret : Option String
  instanceId : Option String
  /-- `Number(app.startedAt) || 0`, counted in the thousandths of a
  millisecond the app resolves it to; only its order is ever read. -/
  startedAt : Int
  deriving DecidableEq, Repr

/-- The hello of an app that speaks this protocol. -/
def HelloFrame.ofApp (secret instanceId : String) (startedAt : Int) : HelloFrame :=
  ⟨PROTOCOL_MAJOR, toString PROTOCOL_MAJOR, some secret, some instanceId, startedAt⟩

/-- A `connect` without TLS, bind address, certificate or proxy. -/
def ConnectFrame.toHost (id host : String) (port : Nat) : ConnectFrame where
  id := some id
  host := some host
  port := ⟨some port, toString port⟩
  tls := false
  rejectUnauthorized := true
  outgoingAddr := none
  ident := none
  clientCert := none
  proxy := none

inductive AppToEngine
  | hello (frame : HelloFrame)
  | ping
  | pong
  | connect (frame : ConnectFrame)
  | write (id line : String)
  | ack (id : String) (seq : Int)
  | detach (id : String)
  | close (id : String)
  | list
  | unknown (op : String)
  deriving DecidableEq, Repr

structure AttachedPayload where
  localEnd : Endpoint
  remoteEnd : Endpoint
  socket : SocketId
  replay : List String
  nick : Option String
  channels : List String
  detachedForMs : Int
  unattended : Bool
  deriving DecidableEq, Repr

inductive EngineToApp
  | hello (protocol minor : Int) (version : String) (held : List String)
  | pong
  | dialing (id : String)
  | opened (id : String) (localEnd remoteEnd : Endpoint) (socket : SocketId)
  | attached (id : String) (payload : AttachedPayload)
  | line (id : String) (seq : Nat) (line : String)
  | live (id : String)
  | gap (id : String) (gap : Gap)
  | detached (id : String)
  | closed (id : String) (error : Option String)
  | held (id : String)
  | listing (connections : List ConnectionInfo)
  | error (id : Option String) (message : String)
  deriving DecidableEq, Repr

/-- The connection a frame is about, if it is about one. -/
def EngineToApp.about : EngineToApp → Option String
  | .hello .. => none
  | .pong => none
  | .listing _ => none
  | .error id _ => id
  | .dialing id => some id
  | .opened id _ _ _ => some id
  | .attached id _ => some id
  | .line id _ _ => some id
  | .live id => some id
  | .gap id _ => some id
  | .detached id => some id
  | .closed id _ => some id
  | .held id => some id

/-- The length of a JavaScript string: its UTF-16 code units. -/
def utf16Length (s : String) : Nat :=
  (s.toList.map (fun c => if c.val.toNat < 0x10000 then 1 else 2)).sum

theorem utf16Length_append (s t : String) :
    utf16Length (s ++ t) = utf16Length s + utf16Length t := by
  simp [utf16Length, String.toList_append]

theorem utf16Length_ofList (cs : List Char) :
    utf16Length (String.ofList cs) = (cs.map (fun c => if c.val.toNat < 0x10000 then 1 else 2)).sum := by
  simp [utf16Length]

private def hexDigit (n : Nat) : Char :=
  if n < 10 then Char.ofNat (48 + n) else Char.ofNat (87 + n)

/-- How `JSON.stringify` writes one character of a string. -/
def escapeChar (c : Char) : List Char :=
  if c = '"' then ['\\', '"']
  else if c = '\\' then ['\\', '\\']
  else if c.val.toNat = 8 then ['\\', 'b']
  else if c.val.toNat = 9 then ['\\', 't']
  else if c.val.toNat = 10 then ['\\', 'n']
  else if c.val.toNat = 12 then ['\\', 'f']
  else if c.val.toNat = 13 then ['\\', 'r']
  else if c.val.toNat < 32 then
    ['\\', 'u', '0', '0', hexDigit (c.val.toNat / 16), hexDigit (c.val.toNat % 16)]
  else [c]

def jsonString (s : String) : String := "\"" ++ String.ofList (s.toList.flatMap escapeChar) ++ "\""

def jsonBool (b : Bool) : String := if b then "true" else "false"

def jsonNullable (o : Option String) : String := o.elim "null" jsonString

/-- `Array.prototype.join`. -/
def joinWith (sep : String) : List String → String
  | [] => ""
  | [x] => x
  | x :: y :: ys => x ++ sep ++ joinWith sep (y :: ys)

def jsonArray (xs : List String) : String := "[" ++ joinWith "," xs ++ "]"

def jsonObject (fields : List (String × String)) : String :=
  "\x7b" ++ joinWith "," (fields.map (fun f => jsonString f.1 ++ ":" ++ f.2)) ++ "\x7d"

def Endpoint.json (e : Endpoint) : String :=
  jsonObject [("address", jsonString e.address), ("port", toString e.port)]

def Gap.json (g : Gap) : String :=
  jsonObject [("firstDroppedSeq", toString g.firstDroppedSeq),
    ("lastDroppedSeq", toString g.lastDroppedSeq), ("at", toString g.at_)]

def InfoState.name : InfoState → String
  | .dialing => "dialing"
  | .opened => "open"
  | .closing => "closing"

def ConnectionInfo.json (i : ConnectionInfo) : String :=
  jsonObject [("id", jsonString i.id), ("state", jsonString i.state.name),
    ("attached", jsonBool i.attached), ("nick", jsonNullable i.nick),
    ("channelCount", toString i.channelCount), ("bufferedLines", toString i.bufferedLines),
    ("bufferedBytes", toString i.bufferedBytes),
    ("detachedForMs", i.detachedForMs.elim "null" toString)]

def AttachedPayload.fields (showSocket : SocketId → String) (p : AttachedPayload) :
    List (String × String) :=
  [("local", p.localEnd.json), ("remote", p.remoteEnd.json),
    ("socket", jsonString (showSocket p.socket)),
    ("replay", jsonArray (p.replay.map jsonString)), ("nick", jsonNullable p.nick),
    ("channels", jsonArray (p.channels.map jsonString)),
    ("detachedForMs", toString p.detachedForMs), ("unattended", jsonBool p.unattended)]

/-- The members of a frame's JSON object, in the order the engine builds them. -/
def EngineToApp.fields (showSocket : SocketId → String) : EngineToApp → List (String × String)
  | .hello protocol minor version ids =>
      [("op", jsonString "hello"), ("protocol", toString protocol), ("minor", toString minor),
        ("engine", jsonObject [("version", jsonString version)]),
        ("held", jsonArray (ids.map jsonString))]
  | .pong => [("op", jsonString "pong")]
  | .dialing id => [("op", jsonString "dialing"), ("id", jsonString id)]
  | .opened id l r socket =>
      [("op", jsonString "open"), ("id", jsonString id), ("local", l.json), ("remote", r.json),
        ("socket", jsonString (showSocket socket))]
  | .attached id payload =>
      [("op", jsonString "attached"), ("id", jsonString id)] ++ payload.fields showSocket
  | .line id seq text =>
      [("op", jsonString "line"), ("id", jsonString id), ("seq", toString seq),
        ("line", jsonString text)]
  | .live id => [("op", jsonString "live"), ("id", jsonString id)]
  | .gap id g => [("op", jsonString "gap"), ("id", jsonString id), ("gap", g.json)]
  | .detached id =>
      [("op", jsonString "detached"), ("id", jsonString id), ("reason", jsonString "taken-over")]
  | .closed id err =>
      [("op", jsonString "closed"), ("id", jsonString id)] ++
        (err.map (fun e => ("error", jsonString e))).toList
  | .held id => [("op", jsonString "held"), ("id", jsonString id)]
  | .listing connections =>
      [("op", jsonString "listing"), ("connections", jsonArray (connections.map (·.json)))]
  | .error id message =>
      [("op", jsonString "error")] ++ (id.map (fun i => ("id", jsonString i))).toList ++
        [("message", jsonString message)]

/-- One frame is one JSON object on one line. -/
def encodeFrame (showSocket : SocketId → String) (frame : EngineToApp) : String :=
  jsonObject (frame.fields showSocket) ++ "\n"

end Lurker.Engine
