import Lurker.Lib.OrderedMap
import Lurker.Engine.Dial
import Lurker.Engine.LineBuffer

/-!
# One held IRC socket

`EngineUpstream` of `engine/upstream.ts`. An operation returns the upstream it
leaves; one that sends frames also returns them, in order, for the caller to
write to the attached link. Whether the link is over its high-water mark after
its next frames is the argument `ok`: `ok i` answers the `i`-th frame written
by the call.

`attachedBy` and `wrote` record history the code does not keep: which frame of
the attached link made the attachment, and what was written to the IRC socket.
-/

namespace Lurker.Engine

/-- IRCv3 caps a line at 8191 bytes; the guard is double that. -/
def MAX_IRC_LINE : Nat := 16 * 1024

/-- The recorded registration burst stops growing here. -/
def MAX_BURST_BYTES : Nat := 64 * 1024

def FALLBACK_USERHOST : String := "~lurker@engine.invalid"

inductive UpstreamState
  | dialing | opened | closed
  deriving DecidableEq, Repr

/-- A recorded registration line, and which of our channels it was about. -/
structure BurstLine where
  line : String
  chan : Option String
  deriving DecidableEq, Repr

structure Upstream where
  opts : UpstreamOptions
  /-- This socket's identity on the wire to the app. -/
  socketId : SocketId
  proxyCred : String
  buffer : LineBuffer
  state : UpstreamState := .dialing
  dialed : Bool := false
  proxyDialPending : Bool := false
  closing : Bool := false
  localEnd : Option Endpoint := none
  remoteEnd : Option Endpoint := none
  nick : Option String := none
  pingsAnsweredDetached : Nat := 0
  hasSocket : Bool := false
  socketDestroyed : Bool := false
  lastError : Option String := none
  burst : List BurstLine := []
  burstBytes : Nat := 0
  burstFull : Bool := false
  burstDone : Bool := false
  burstEndSeq : Nat := 0
  registeredUnattended : Bool := false
  nickAtBurstEnd : Option String := none
  hostmask : Option String := none
  caps : List String := []
  capsAtBurstEnd : Option (List String) := none
  serverName : Option String := none
  channels : OrderedMap String String := .empty
  sink : Option LinkId := none
  attachedBy : Nat := 0
  quietClose : Bool := false
  stalled : Bool := false
  sentSeq : Nat := 0
  liveAfterSeq : Option Nat := none
  detachedAt : Option Int := none
  wrote : List String := []

namespace Upstream

def id (u : Upstream) : String := u.opts.dial.id

def new (env : Platform) (socketId : SocketId) (opts : UpstreamOptions) (bufferBytes : Int) :
    Upstream where
  opts := opts
  socketId := socketId
  proxyCred := proxyCredDigest env opts.dial.proxy
  buffer := .new bufferBytes

def attached (u : Upstream) : Bool := u.sink.isSome

def registered (u : Upstream) : Bool := u.burstDone

def matchesDial (env : Platform) (u : Upstream) (frame : DialRequest) : Bool :=
  Engine.matchesDial env u.opts u.proxyCred frame

/-- Start the dial, or report what it throws. A proxied dial has no socket yet. -/
def dial (env : Platform) (u : Upstream) : Except String Upstream :=
  if u.dialed then .error "EngineUpstream.dial() is once per instance"
  else if u.opts.dial.proxy.isSome then
    .ok { u with dialed := true, proxyDialPending := true }
  else
    match env.dialThrows u.opts with
    | some e => .error e
    | none =>
      .ok { u with
        dialed := true
        hasSocket := true
        opts.dial.clientCert := u.opts.dial.clientCert.map (fun c => { c with key := "" }) }

/-- TCP is up, before any TLS handshake. -/
def onTcpConnect (u : Upstream) (l r : Endpoint) : Upstream :=
  if u.closing then u else { u with localEnd := some l, remoteEnd := some r }

/-- The proxied dial produced a tunnel: it becomes the socket. -/
def onTunnel (u : Upstream) (l r : Endpoint) : Upstream :=
  { u with
    proxyDialPending := false
    hasSocket := true
    opts.dial.clientCert := u.opts.dial.clientCert.map (fun c => { c with key := "" })
    opts.dial.proxy := u.opts.dial.proxy.map (fun p => { p with password := p.password.map (fun _ => "") })
    localEnd := some l
    remoteEnd := some r }

def openedAt (u : Upstream) (l r : Endpoint) : Upstream :=
  { u with state := .opened, localEnd := some l, remoteEnd := some r }

def onOpen (u : Upstream) (l r : Endpoint) : Upstream × List EngineToApp :=
  if !u.hasSocket || u.closing then (u, [])
  else
    let l := u.localEnd.getD l
    let r := u.remoteEnd.getD r
    (u.openedAt l r, u.sink.elim [] (fun _ => [.opened u.id l r u.socketId]))

/-- Give the peer up; the socket's `close` event does the rest. -/
def dropPeer (u : Upstream) (why : String) : Upstream :=
  { u with lastError := some why, socketDestroyed := u.socketDestroyed || u.hasSocket }

def rawWrite (u : Upstream) (line : String) : Upstream :=
  if u.state = .opened ∧ u.closing = false ∧ u.hasSocket = true then
    { u with wrote := u.wrote ++ [line] }
  else u

def write (u : Upstream) (line : String) : Upstream := u.rawWrite line

/-- The nick of a message's prefix. -/
def prefixNick (source : Option String) : String :=
  String.ofList ((source.getD "").toList.takeWhile (· ≠ '!'))

/-- What follows the first `!` of a prefix, when there is one. -/
def prefixUserhost (source : String) : Option String :=
  match source.toList.dropWhile (· ≠ '!') with
  | [] => none
  | _ :: rest => some (String.ofList rest)

/-- The truthiness of a string in the code: present and not empty. -/
def nonEmpty (s : Option String) : Option String := s.filter (· ≠ "")

def isSelf (env : Platform) (u : Upstream) (nick : String) : Bool :=
  (nonEmpty u.nick).any (fun n => env.toLowerCase nick = env.toLowerCase n)

def setNick (u : Upstream) (nick : String) : Upstream := { u with nick := some nick }

def setHostmask (u : Upstream) (userhost : String) : Upstream := { u with hostmask := some userhost }

/-- We are in a channel, spelled as the server spelled it. -/
def enter (env : Platform) (u : Upstream) (chan : String) : Upstream :=
  { u with channels := u.channels.set (env.toLowerCase chan) chan }

def leave (env : Platform) (u : Upstream) (chan : String) : Upstream :=
  { u with channels := u.channels.delete (env.toLowerCase chan) }

def noteHostmask (u : Upstream) (source : Option String) : Upstream :=
  match (nonEmpty source).bind prefixUserhost with
  | some userhost => u.setHostmask userhost
  | none => u

/-- The parts of a string between single spaces. -/
def splitSpaces (s : String) : List String :=
  let rec go : List Char → List Char → List String
    | [], word => [String.ofList word.reverse]
    | c :: cs, word => if c = ' ' then String.ofList word.reverse :: go cs [] else go cs (c :: word)
  go s.toList []

/-- One token of a CAP ACK or DEL: the cap it names, and whether it goes off. -/
def capToken (isDel : Bool) (token : String) : String × Bool :=
  match token.toList with
  | '-' :: rest => (String.ofList (rest.takeWhile (· ≠ '=')), true)
  | cs => (String.ofList (cs.takeWhile (· ≠ '=')), isDel)

/-- What one token of a CAP ACK or DEL does to the set of enabled caps. -/
def applyCap (isDel : Bool) (caps : List String) (token : String) : List String :=
  if token = "" then caps
  else
    let (name, off) := capToken isDel token
    if name = "" then caps
    else if off then caps.filter (· ≠ name)
    else if name ∈ caps then caps
    else caps ++ [name]

/-- The two CAP subcommands that change what is on. -/
def trackedCaps (env : Platform) (caps : List String) (params : List String) : List String :=
  if params.length < 3 then caps
  else
    let sub := env.toUpperCase (params.getD 1 "")
    if sub ≠ "ACK" ∧ sub ≠ "DEL" then caps
    else (splitSpaces (params.getLastD "")).foldl (applyCap (sub = "DEL")) caps

def trackCaps (env : Platform) (u : Upstream) (params : List String) : Upstream :=
  { u with caps := trackedCaps env u.caps params }

/-- A rename the code follows: it carries a reason, and a name a channel can have. -/
def renameOk (params : List String) : Bool :=
  3 ≤ params.length && !(params.getD 1 "").toList.any (fun c => isJsSpace c || c = ',')

/-- Apply an own-state line; true when it was own channel movement. -/
def track (env : Platform) (u : Upstream) (command : String) (source : Option String)
    (params : List String) : Upstream × Bool :=
  let self := u.isSelf env (prefixNick source)
  let p0 := params.getD 0 ""
  let p1 := params.getD 1 ""
  if command = "NICK" ∧ self then
    ((if p0 = "" then u else u.setNick p0).noteHostmask source, false)
  else if command = "JOIN" ∧ self then
    ((if p0 = "" then u else u.enter env p0).noteHostmask source, true)
  else if command = "PART" ∧ self then (u.leave env p0, true)
  else if command = "KICK" ∧ u.isSelf env p1 then (u.leave env p0, true)
  else if command = "RENAME" then
    if p0 = "" ∨ p1 = "" then (u, false)
    else if (u.channels.get? (env.toLowerCase p0)).isNone then (u, false)
    else if renameOk params then ((u.leave env p0).enter env p1, true)
    else (u, false)
  else if command = "CHGHOST" ∧ self then
    (if p0 ≠ "" ∧ p1 ≠ "" then u.setHostmask (p0 ++ "@" ++ p1) else u, false)
  else (u, false)

/-- Which of the channels we are in a line names in a middle parameter. -/
def channelNamed (env : Platform) (u : Upstream) (params : List String) : Option String :=
  (params.dropLast.map env.toLowerCase).find? (fun key => key ≠ "" && (u.channels.get? key).isSome)

/-- Latched once a line did not fit, so that the burst is a contiguous run. -/
def setBurstFull (u : Upstream) (full : Bool) : Upstream := { u with burstFull := full }

def keepBurstLine (u : Upstream) (b : BurstLine) (bytes : Nat) : Upstream :=
  { u with burst := u.burst ++ [b], burstBytes := u.burstBytes + bytes }

def recordBurst (env : Platform) (u : Upstream) (line : String) (params : List String)
    (force : Bool) : Upstream :=
  let bytes := line.utf8ByteSize + 2
  let full := u.burstFull || decide (MAX_BURST_BYTES < u.burstBytes + bytes)
  if full && !force then u.setBurstFull full
  else (u.setBurstFull full).keepBurstLine ⟨line, u.channelNamed env params⟩ bytes

/-- The numerics that end a registration burst. -/
def endsBurst (command : String) : Bool := command = "376" || command = "422"

/-- The server's welcome: our nick as it confirmed it, and its own name. -/
def noteWelcome (u : Upstream) (msg : IrcMessage) : Upstream :=
  { u with nick := nonEmpty msg.params.head?, serverName := nonEmpty msg.source }

/-- What a line says about our own state, and whether it was own channel movement. -/
def trackState (env : Platform) (u : Upstream) (msg : IrcMessage) : Upstream × Bool :=
  let command := env.toUpperCase msg.command
  let u := if command = "001" then u.noteWelcome msg else u
  let u := if command = "CAP" then u.trackCaps env msg.params else u
  if (nonEmpty u.nick).isSome then u.track env command msg.source msg.params else (u, false)

/-- The registration burst is over. -/
def endBurst (u : Upstream) : Upstream :=
  { u with
    burstDone := true
    capsAtBurstEnd := some u.caps
    nickAtBurstEnd := u.nick
    registeredUnattended := u.sink.isNone }

/-- The tracking half of `onLine`: everything before the line is numbered. The
answer says whether registration has just completed, and with nobody attached. -/
def trackLine (env : Platform) (u : Upstream) (line : String) (msg : IrcMessage) :
    Upstream × Option Bool :=
  let command := env.toUpperCase msg.command
  let t := u.trackState env msg
  if t.1.burstDone then (t.1, none)
  else
    let v := if t.2 then t.1 else t.1.recordBurst env line msg.params (endsBurst command)
    if endsBurst command then (v.endBurst, some v.sink.isNone) else (v, none)

/-- The seq of the last burst line, noted once it is known. -/
def noteBurstEnd (u : Upstream) (seq : Nat) : Upstream :=
  if u.burstDone ∧ u.burstEndSeq = 0 then { u with burstEndSeq := seq } else u

/-- A PING is answered here and never forwarded. -/
def answerPing (u : Upstream) (params : List String) : Upstream :=
  let u := u.rawWrite (params.getLast?.elim "PONG" ("PONG :" ++ ·))
  if u.sink.isNone then { u with pingsAnsweredDetached := u.pingsAnsweredDetached + 1 } else u

/-- A delivery in progress: the upstream and the frames written so far. -/
abbrev Delivery := Upstream × List EngineToApp

/-- The sink has been sent everything up to `seq`. -/
def sentUpTo (u : Upstream) (seq : Nat) : Upstream := { u with sentSeq := seq }

def takeGap (u : Upstream) : Upstream := { u with buffer := u.buffer.takeGap }

/-- The sink is over its high-water mark. -/
def stall (u : Upstream) : Upstream := { u with stalled := true }

/-- The sink has drained. -/
def unstall (u : Upstream) : Upstream := { u with stalled := false }

/-- What the upstream notes about its sink: backpressure, and when `live` is due. -/
def noteSink (u : Upstream) (stalled : Bool) (liveAfterSeq : Option Nat) : Upstream :=
  { u with stalled, liveAfterSeq }

def sendLive (d : Delivery) : Delivery :=
  (d.1.noteSink d.1.stalled none, if d.1.sink.isSome then d.2 ++ [.live d.1.id] else d.2)

/-- The index of the first pending line the sink is still owed. -/
def firstOwed (u : Upstream) : Nat :=
  match u.buffer.lines with
  | [] => 0
  | b :: _ => if b.seq ≤ u.sentSeq then u.sentSeq - b.seq + 1 else 0

/-- The loop of `flush` over the owed lines; a stall ends it early. -/
def flushLines (ok : Nat → Bool) : List BufferedLine → Delivery → Delivery
  | [], d => d
  | b :: rest, (u, out) =>
      let sent : Delivery := (u.sentUpTo b.seq, out ++ [.line u.id b.seq b.line])
      let d := if u.liveAfterSeq.any (· ≤ b.seq) then sendLive sent else sent
      if ok out.length then flushLines ok rest d else (d.1.stall, d.2)

/-- `flush`, once the hole has been dealt with. -/
def flushPending (ok : Nat → Bool) (d : Delivery) : Delivery :=
  let d := flushLines ok (d.1.buffer.lines.drop d.1.firstOwed) d
  if d.1.stalled then d else if d.1.liveAfterSeq.isSome then sendLive d else d

/-- The hole `flush` reports: one the sink has not been sent the lines of. -/
def gapToReport (u : Upstream) : Option Gap :=
  u.buffer.gap.filter (fun g => u.sentSeq < g.lastDroppedSeq)

/-- Send the unacked backlog to the current sink, stopping when it is full. -/
def flush (ok : Nat → Bool) (d : Delivery) : Delivery :=
  if d.1.sink.isNone || d.1.stalled then d
  else
    match d.1.gapToReport with
    | none => flushPending ok d
    | some g =>
      let sent : Delivery := (d.1.takeGap, d.2 ++ [.gap d.1.id g])
      if ok d.2.length then flushPending ok sent else (sent.1.stall, sent.2)

def resume (ok : Nat → Bool) (u : Upstream) : Delivery := flush ok (u.unstall, [])

def ack (u : Upstream) (seq : Int) : Upstream := { u with buffer := u.buffer.ack seq }

/-- What the caps have done since the burst closed, as lines that do it. -/
def capDelta (u : Upstream) : List String :=
  match u.capsAtBurstEnd with
  | none => []
  | some before =>
    let gone := before.filter (fun c => c ∉ u.caps)
    let added := u.caps.filter (fun c => c ∉ before)
    let source := (nonEmpty u.serverName).elim "" (fun s => ":" ++ s ++ " ")
    let target := ((nonEmpty u.nickAtBurstEnd).or (nonEmpty u.nick)).getD "*"
    let say (sub : String) (caps : List String) : List String :=
      if caps = [] then []
      else [source ++ "CAP " ++ target ++ " " ++ sub ++ " :" ++ joinWith " " caps]
    say "DEL" gone ++ say "ACK" added

/-- The recorded lines a replay keeps: all but those about a channel since left. -/
def keptBurst (u : Upstream) : List BurstLine :=
  u.burst.filter (fun b => (nonEmpty b.chan).all (fun c => (u.channels.get? c).isSome))

def replaySet (u : Upstream) : List String :=
  let out := u.keptBurst.map (·.line)
  match nonEmpty u.nick with
  | none => out
  | some nick =>
    let userhost := (nonEmpty u.hostmask).getD FALLBACK_USERHOST
    let renick := match nonEmpty u.nickAtBurstEnd with
      | some old => if old ≠ nick then [":" ++ old ++ "!" ++ userhost ++ " NICK :" ++ nick] else []
      | none => []
    out ++ u.capDelta ++ renick ++
      u.channels.values.map (fun chan => ":" ++ nick ++ "!" ++ userhost ++ " JOIN " ++ chan)

inductive AttachResult
  | dialing
  | unregistered
  | payload (p : AttachedPayload)
  deriving DecidableEq, Repr

/-- The socket has a new sink, whose frame number `frame` asked for it. -/
def takeSink (u : Upstream) (sink : LinkId) (frame : Nat) : Upstream :=
  { u with sink := some sink, attachedBy := frame, stalled := false, detachedAt := none }

/-- Everything pending is owed. -/
def rewind (u : Upstream) : Upstream := { u with sentSeq := 0 }

/-- The replay is the delivery of the burst: what it covers is not owed again. -/
def skipBurst (u : Upstream) : Upstream :=
  { u with
    buffer := u.buffer.ack u.burstEndSeq
    sentSeq := u.burstEndSeq
    liveAfterSeq := some ((u.buffer.ack u.burstEndSeq).lines.getLast?.elim 0 (·.seq)) }

def attachedPayload (u : Upstream) (l r : Endpoint) (detachedForMs : Int) : AttachedPayload where
  localEnd := l
  remoteEnd := r
  socket := u.socketId
  replay := u.replaySet
  nick := u.nick
  channels := u.channels.values
  detachedForMs := detachedForMs
  unattended := u.registeredUnattended

/-- Claim the socket for a sink; `frame` is the sink's frame that asked for it. -/
def attach (u : Upstream) (now : Int) (sink : LinkId) (frame : Nat) : Upstream × AttachResult :=
  let v := u.takeSink sink frame
  match u.state, u.localEnd, u.remoteEnd with
  | .opened, some l, some r =>
    if u.burstDone then
      (v.skipBurst, .payload (v.skipBurst.attachedPayload l r (u.detachedAt.elim 0 (now - ·))))
    else (v, .unregistered)
  | _, _, _ => (v.rewind, .dialing)

/-- Called by the server right after it has sent the `attached` frame. -/
def flushAfterAttach (ok : Nat → Bool) (u : Upstream) : Delivery :=
  flush ok (if u.liveAfterSeq = some 0 then sendLive (u, []) else (u, []))

def dropSink (u : Upstream) (now : Int) : Upstream :=
  { u with sink := none, stalled := false, liveAfterSeq := none, detachedAt := some now }

def detach (u : Upstream) (now : Int) : Upstream := if u.sink.isNone then u else u.dropSink now

/-- The `closed` of this socket has nobody to go to. -/
def quieten (u : Upstream) : Upstream := { u with quietClose := true }

/-- Nobody hears from this socket again. -/
def silence (u : Upstream) (now : Int) : Upstream := (u.detach now).quieten

/-- What is left of a socket that is gone. -/
def gone (u : Upstream) : Upstream :=
  { u with state := .closed, buffer := u.buffer.dispose, sink := none }

/-- The socket is gone. -/
def onClose (u : Upstream) : Upstream × List EngineToApp :=
  if u.state = .closed then (u, [])
  else
    (u.gone, if u.quietClose = false ∧ u.sink.isSome then [.closed u.id (nonEmpty u.lastError)]
      else [])

/-- What ending a socket asks of its owner: nothing yet, or the bookkeeping of a
close that happened on the spot (a proxied dial has no socket to wait for). -/
def destroy (u : Upstream) : Upstream × Bool :=
  ({ u with closing := true, socketDestroyed := u.socketDestroyed || u.hasSocket },
    u.proxyDialPending && decide (u.state ≠ .closed))

def startClose (u : Upstream) : Upstream := { u with closing := true, quietClose := true }

/-- End the IRC socket; the app asked. -/
def close (u : Upstream) : Upstream × Bool :=
  if u.closing then (u, false)
  else if u.state = .opened then (u.startClose, false)
  else u.startClose.destroy

def info (u : Upstream) (now : Int) : ConnectionInfo where
  id := u.id
  state := if u.closing then .closing else
    match u.state with
    | .dialing => .dialing
    | .opened => .opened
    | .closed => .closing
  attached := u.attached
  nick := u.nick
  channelCount := u.channels.entries.length
  bufferedLines := u.buffer.length
  bufferedBytes := u.buffer.bytes
  detachedForMs := u.detachedAt.map (now - ·)

end Upstream

end Lurker.Engine
