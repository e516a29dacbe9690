import Mathlib.Logic.Function.Basic
import Lurker.Engine.Upstream

/-!
# The engine's listener

`EngineServer` of `engine/server.ts`: app links, the upstreams they claim, and
the map that says which socket an id means. JavaScript objects are entries of
two heaps, `link` and `upstream`; a link that has closed and a socket whose id
was dialed afresh keep their entries, as the code's closures keep the objects.

Everything written to a link stays in its `sent`, with why it was written; a
destroyed link takes nothing more. Whether the `i`-th frame written to a link
leaves it under its high-water mark is `accepts i`, fixed when the link is
accepted and otherwise arbitrary.
-/

namespace Lurker.Engine

structure ServerOptions where
  secret : String
  bufferBytes : Int
  bufferTotalBytes : Int
  version : String
  orphanMs : Int := 0

/-- Why a frame was written to a link: to answer the `k`-th frame read from it,
by a socket the link's `k`-th frame attached, or to tell it about a session. -/
inductive Origin
  | reply (k : Nat)
  | socket (n : SocketId) (k : Nat)
  | notice (n : SocketId)
  deriving DecidableEq, Repr

/-- A frame written to a link, why, and whether the link claimed the socket that
wrote it at that moment. -/
structure Sent where
  frame : EngineToApp
  origin : Origin
  claimed : Bool := false
  deriving DecidableEq, Repr

structure AppLink where
  authed : Bool := false
  claimed : List SocketId := []
  generation : Int := 0
  instanceId : String := ""
  destroyed : Bool := false
  /-- How many frames the engine has read from the link. -/
  read : Nat := 0
  sent : List Sent := []
  accepts : Nat → Bool

namespace AppLink

/-- Whether the link is still under its high-water mark after its next frames. -/
def takes (k : AppLink) (i : Nat) : Bool := !k.destroyed && k.accepts (k.sent.length + i)

def write (k : AppLink) (fs : List Sent) : AppLink :=
  if k.destroyed then k else { k with sent := k.sent ++ fs }

def claim (k : AppLink) (n : SocketId) : AppLink :=
  if n ∈ k.claimed then k else { k with claimed := k.claimed ++ [n] }

def unclaim (k : AppLink) (n : SocketId) : AppLink :=
  { k with claimed := k.claimed.filter (· ≠ n) }

/-- One more frame has been read. -/
def readOne (k : AppLink) : AppLink := { k with read := k.read + 1 }

def destroy (k : AppLink) : AppLink := { k with destroyed := true }

end AppLink

structure Server where
  upstreams : OrderedMap String SocketId
  upstream : SocketId → Upstream
  nextSocket : SocketId
  links : List LinkId
  link : LinkId → AppLink
  nextLink : LinkId
  budget : ByteBudget SocketId
  releasedBy : SocketId → Option LinkId
  now : Int

namespace Server

def init (o : ServerOptions) : Server where
  upstreams := .empty
  upstream n := { opts := .blank, socketId := n, proxyCred := "", buffer := .new 0 }
  nextSocket := 0
  links := []
  link _ := { accepts := fun _ => true }
  nextLink := 0
  budget := { max := o.bufferTotalBytes, used := 0, buffers := [] }
  releasedBy _ := none
  now := 0

def modifyLink (s : Server) (l : LinkId) (f : AppLink → AppLink) : Server :=
  { s with link := Function.update s.link l (f (s.link l)) }

/-- Store an upstream; what its buffer gained or lost, the budget does too. -/
def setUpstream (s : Server) (n : SocketId) (u : Upstream) : Server :=
  { s with
    upstream := Function.update s.upstream n u
    budget.used := s.budget.used + (u.buffer.bytes - (s.upstream n).buffer.bytes) }

def modifyUpstream (s : Server) (n : SocketId) (f : Upstream → Upstream) : Server :=
  s.setUpstream n (f (s.upstream n))

section Heaps

variable (s : Server) (l l' : LinkId) (n n' : SocketId) (f : AppLink → AppLink) (u : Upstream)

theorem modifyLink_link :
    (s.modifyLink l f).link l' = if l' = l then f (s.link l) else s.link l' := by
  simp only [modifyLink, Function.update_apply]

theorem setUpstream_upstream :
    (s.setUpstream n u).upstream n' = if n' = n then u else s.upstream n' := by
  simp only [setUpstream, Function.update_apply]

@[simp] theorem modifyLink_upstream : (s.modifyLink l f).upstream = s.upstream := rfl

@[simp] theorem modifyLink_upstreams : (s.modifyLink l f).upstreams = s.upstreams := rfl

@[simp] theorem modifyLink_links : (s.modifyLink l f).links = s.links := rfl

@[simp] theorem modifyLink_nextSocket : (s.modifyLink l f).nextSocket = s.nextSocket := rfl

@[simp] theorem modifyLink_nextLink : (s.modifyLink l f).nextLink = s.nextLink := rfl

@[simp] theorem modifyLink_now : (s.modifyLink l f).now = s.now := rfl

@[simp] theorem setUpstream_link : (s.setUpstream n u).link = s.link := rfl

@[simp] theorem setUpstream_upstreams : (s.setUpstream n u).upstreams = s.upstreams := rfl

@[simp] theorem setUpstream_links : (s.setUpstream n u).links = s.links := rfl

@[simp] theorem setUpstream_nextSocket : (s.setUpstream n u).nextSocket = s.nextSocket := rfl

@[simp] theorem setUpstream_nextLink : (s.setUpstream n u).nextLink = s.nextLink := rfl

@[simp] theorem setUpstream_now : (s.setUpstream n u).now = s.now := rfl

end Heaps

def send (s : Server) (l : LinkId) (origin : Origin) (frame : EngineToApp) : Server :=
  s.modifyLink l (·.write [{ frame, origin }])

def fail (s : Server) (l : LinkId) (k : Nat) (message : String) (id : Option String) : Server :=
  s.send l (.reply k) (.error (id.filter (· ≠ "")) message)

/-- What the sink of `n` will say about its high-water mark, frame by frame. -/
def sinkTakes (s : Server) (n : SocketId) : Nat → Bool :=
  (s.upstream n).sink.elim (fun _ => false) (fun l => (s.link l).takes)

/-- Frames of the socket `n`, as they stand on its sink's link. -/
def fromSocket (s : Server) (l : LinkId) (n : SocketId) (fs : List EngineToApp) : List Sent :=
  fs.map (fun f => ⟨f, .socket n (s.upstream n).attachedBy, decide (n ∈ (s.link l).claimed)⟩)

/-- Run an operation of an upstream that may write frames to its sink. -/
def deliver (s : Server) (n : SocketId) (op : (Nat → Bool) → Upstream → Upstream.Delivery) :
    Server :=
  let d := op (s.sinkTakes n) (s.upstream n)
  match (s.upstream n).sink with
  | none => s.setUpstream n d.1
  | some l => (s.setUpstream n d.1).modifyLink l (·.write (s.fromSocket l n d.2))

def unclaim (s : Server) (l : LinkId) (n : SocketId) : Server := s.modifyLink l (·.unclaim n)

/-- `for (const l of this.links) l.claimed.delete(u)`. -/
def unclaimAll (s : Server) (n : SocketId) : Server :=
  { s with link := fun l => if l ∈ s.links then (s.link l).unclaim n else s.link l }

def claim (s : Server) (l : LinkId) (n : SocketId) : Server := s.modifyLink l (·.claim n)

/-- Something an app can attach to: open, registered, and not on its way out. -/
def isSession (s : Server) (n : SocketId) : Bool :=
  (s.upstream n).state = .opened && (s.upstream n).registered && !(s.upstream n).closing

/-- The link holding `n`, if any, other than `except`. -/
def holderOf (s : Server) (n : SocketId) (except : Option LinkId) : Option LinkId :=
  s.links.find? (fun l => some l ≠ except && decide (n ∈ (s.link l).claimed))

/-- The sessions a link may attach to: all its instance's that no other link claims. -/
def heldFor (s : Server) (l : LinkId) : List String :=
  ((s.upstreams.values.filter
      (fun n => (s.upstream n).opts.instanceId = (s.link l).instanceId)).filter
    (fun n => s.isSession n && (s.holderOf n (some l)).isNone)).map (fun n => (s.upstream n).id)

/-- Whether `offer` tells link `l` about session `n`. -/
def offersTo (s : Server) (n : SocketId) (except : Option LinkId) (l : LinkId) : Bool :=
  some l ≠ except && (s.link l).authed && !(s.link l).destroyed &&
    decide ((s.link l).instanceId = (s.upstream n).opts.instanceId)

/-- Offer one session to every link that may attach to it. -/
def offerOne (s : Server) (n : SocketId) (except : Option LinkId) : Server :=
  if s.isSession n && (s.holderOf n none).isNone then
    { s with
      link := fun l =>
        if l ∈ s.links ∧ s.offersTo n except l = true then
          (s.link l).write [{ frame := .held (s.upstream n).id, origin := .notice n }]
        else s.link l }
  else s

/-- Offer sessions that have just become unclaimed to the instance's other links. -/
def offer (s : Server) (released : List SocketId) (except : Option LinkId) : Server :=
  released.foldl (fun s n => s.offerOne n except) s

/-- Newest wins: the holder refuses, or it is superseded and told so. -/
def contest (s : Server) (l : LinkId) (n : SocketId) : Server × Option LinkId :=
  match s.holderOf n (some l) with
  | none => (s, none)
  | some other =>
    if (s.link l).generation < (s.link other).generation then (s, some other)
    else
      ((s.unclaim other n).send other (.notice n) (.detached (s.upstream n).id), none)

/-- An upstream's socket is gone: its `close` and the server's `closed` hook. -/
def onUpstreamClose (s : Server) (n : SocketId) : Server :=
  if (s.upstream n).state = .closed then s
  else
    let s := s.deliver n (fun _ u => u.onClose)
    let s := { s with budget := s.budget.unregister n }
    let id := (s.upstream n).id
    let s := if s.upstreams.get? id = some n then { s with upstreams := s.upstreams.delete id } else s
    s.unclaimAll n

def silence (s : Server) (n : SocketId) : Server := s.modifyUpstream n (·.silence s.now)

/-- `EngineUpstream.close`; a proxied dial in flight ends on the spot. -/
def closeUpstream (s : Server) (n : SocketId) : Server :=
  let r := (s.upstream n).close
  let s := s.setUpstream n r.1
  if r.2 then s.onUpstreamClose n else s

def quitUpstream (s : Server) (n : SocketId) (message : String) : Server :=
  (s.modifyUpstream n (·.rawWrite ("QUIT :" ++ message))).closeUpstream n

section Connect

variable (env : Platform) (o : ServerOptions)

/-- The upstream a dial creates, its link attached. -/
def newUpstream (s : Server) (l : LinkId) (k : Nat) (dial : DialRequest) : Upstream :=
  ((Upstream.new env s.nextSocket ⟨dial, (s.link l).instanceId⟩ o.bufferBytes).attach s.now l k).1

/-- The id means the new socket and the link claims it, before anything is dialed. -/
def startDial (s : Server) (l : LinkId) (k : Nat) (dial : DialRequest) : Server :=
  let n := s.nextSocket
  let t := { s with
    nextSocket := n + 1
    upstream := Function.update s.upstream n (s.newUpstream env o l k dial)
    budget := s.budget.register n
    upstreams := s.upstreams.set dial.id n }
  (t.claim l n).send l (.reply k) (.dialing dial.id)

/-- Dial a fresh socket under the request's id. -/
def dialAfresh (s : Server) (l : LinkId) (k : Nat) (dial : DialRequest) : Server :=
  let n := s.nextSocket
  let t := s.startDial env o l k dial
  match (s.newUpstream env o l k dial).dial env with
  | .ok u => t.setUpstream n u
  | .error e =>
    (({ t with upstreams := t.upstreams.delete dial.id }).unclaim l n).send l (.reply k)
      (.closed dial.id (some e))

/-- End a socket that a dial is about to replace; nothing it says is heard. -/
def retire (s : Server) (n : SocketId) : Server := (s.unclaimAll n).silence n

/-- Hand the replay over, or end a session whose replay no reader would accept. -/
def handOver (s : Server) (l : LinkId) (k : Nat) (n : SocketId) (payload : AttachedPayload) :
    Server :=
  let id := (s.upstream n).id
  let attached := EngineToApp.attached id payload
  if MAX_FRAME_BYTES < utf16Length (encodeFrame env.showSocket attached) then
    (((s.unclaim l n).silence n).closeUpstream n).send l (.reply k)
      (.closed id (some "replay too large to hand over"))
  else
    (s.send l (.reply k) attached).deliver n (fun ok u => u.flushAfterAttach ok)

/-- The link claims `n`, and its `k`-th frame attaches to it. -/
def attachTo (s : Server) (l : LinkId) (k : Nat) (n : SocketId) : Server × Upstream.AttachResult :=
  let s := s.claim l n
  let r := (s.upstream n).attach s.now l k
  (s.setUpstream n r.1, r.2)

/-- Attach to the socket held under the id, once nobody newer holds it. -/
def attachHeld (s : Server) (l : LinkId) (k : Nat) (n : SocketId) (dial : DialRequest) : Server :=
  match s.contest l n with
  | (s, some _) => s.send l (.reply k) (.detached dial.id)
  | (s, none) =>
    match s.attachTo l k n with
    | (s, .dialing) => s.send l (.reply k) (.dialing dial.id)
    | (s, .unregistered) =>
      (((s.unclaim l n).silence n).closeUpstream n).dialAfresh env o l k dial
    | (s, .payload p) => s.handOver env l k n p

def connect (s : Server) (l : LinkId) (k : Nat) (frame : ConnectFrame) : Server :=
  match validateConnect env frame with
  | .error message => s.fail l k message frame.id
  | .ok dial =>
    match s.upstreams.get? dial.id with
    | none => s.dialAfresh env o l k dial
    | some n =>
      if (s.upstream n).opts.instanceId ≠ (s.link l).instanceId then
        s.fail l k "connection id belongs to another instance" (some dial.id)
      else if (s.upstream n).closing ∨ (s.upstream n).state = .closed then
        (s.retire n).dialAfresh env o l k dial
      else if (s.upstream n).matchesDial env dial = false then
        ((s.retire n).closeUpstream n).dialAfresh env o l k dial
      else s.attachHeld env o l k n dial

end Connect

/-- The link's claim is dropped and the session waits for its next one. -/
def letGo (s : Server) (l : LinkId) (n : SocketId) : Server :=
  let s := (s.unclaim l n).modifyUpstream n (·.detach s.now)
  { s with releasedBy := Function.update s.releasedBy n (some l) }

/-- A link lets go of a session on purpose. -/
def release (s : Server) (l : LinkId) (n : SocketId) : Server :=
  if n ∈ (s.link l).claimed then (s.letGo l n).offer [n] (some l) else s

def destroyLink (s : Server) (l : LinkId) : Server := s.modifyLink l (·.destroy)

/-- What `hello` is refused for, when it is. -/
def helloProblem (env : Platform) (o : ServerOptions) (f : HelloFrame) : Option String :=
  if f.protocol ≠ PROTOCOL_MAJOR then
    some ("protocol major mismatch: engine speaks " ++ toString PROTOCOL_MAJOR ++
      ", app speaks " ++ f.protocolText)
  else if env.sha256 (f.secret.getD "") ≠ env.sha256 o.secret then some "bad secret"
  else if (f.instanceId.filter (· ≠ "")).isNone then some "hello needs an instance"
  else none

/-- What a link is from its hello on. -/
def authenticate (s : Server) (l : LinkId) (f : HelloFrame) : Server :=
  s.modifyLink l (fun a =>
    { a with authed := true, instanceId := f.instanceId.getD "", generation := f.startedAt })

def hello (env : Platform) (o : ServerOptions) (s : Server) (l : LinkId) (k : Nat)
    (f : HelloFrame) : Server :=
  match helloProblem env o f with
  | some message => (s.fail l k message none).destroyLink l
  | none =>
    let s := s.authenticate l f
    s.send l (.reply k) (.hello PROTOCOL_MAJOR PROTOCOL_MINOR o.version (s.heldFor l))

/-- The frames that drive one held socket. -/
inductive SocketOp
  | write (line : String)
  | ack (seq : Int)
  | detach
  | close

/-- What the claiming link's frame does; an ack does it from any link. -/
def drive (s : Server) (l : LinkId) (n : SocketId) : SocketOp → Server
  | .write line => s.modifyUpstream n (·.write line)
  | .ack seq => s.modifyUpstream n (·.ack seq)
  | .detach => s.release l n
  | .close => s.closeUpstream n

def socketOp (s : Server) (l : LinkId) (k : Nat) (id : String) (op : SocketOp) : Server :=
  match s.upstreams.get? id with
  | none => s.fail l k "unknown connection" (some id)
  | some n =>
    if (s.upstream n).opts.instanceId ≠ (s.link l).instanceId then
      s.fail l k "connection id belongs to another instance" (some id)
    else if n ∈ (s.link l).claimed then s.drive l n op
    else
      match op with
      | .ack _ => s.drive l n op
      | .close =>
        match s.contest l n with
        | (s, some _) => s.fail l k "not attached to this connection" (some id)
        | (s, none) => (s.silence n).drive l n .close
      | _ => s.fail l k "not attached to this connection" (some id)

/-- Every upstream's listing entry. -/
def listing (s : Server) : List ConnectionInfo :=
  s.upstreams.values.map (fun n => (s.upstream n).info s.now)

def dispatch (env : Platform) (o : ServerOptions) (s : Server) (l : LinkId) (k : Nat)
    (frame : AppToEngine) : Server :=
  if (s.link l).authed then
    match frame with
    | .hello _ => s
    | .ping => s.send l (.reply k) .pong
    | .pong => s
    | .connect f => s.connect env o l k f
    | .list => s.send l (.reply k) (.listing s.listing)
    | .write id line => s.socketOp l k id (.write line)
    | .ack id seq => s.socketOp l k id (.ack seq)
    | .detach id => s.socketOp l k id .detach
    | .close id => s.socketOp l k id .close
    | .unknown op => s.fail l k ("unknown op " ++ op) none
  else
    match frame with
    | .hello f => s.hello env o l k f
    | _ => (s.fail l k "hello first" none).destroyLink l

/-- One frame read from a link. -/
def onFrame (env : Platform) (o : ServerOptions) (s : Server) (l : LinkId) (frame : AppToEngine) :
    Server :=
  if l ∈ s.links ∧ (s.link l).destroyed = false then
    let k := (s.link l).read
    (s.modifyLink l (·.readOne)).dispatch env o l k frame
  else s

def accept (s : Server) (accepts : Nat → Bool) : Server :=
  { s with
    links := s.links ++ [s.nextLink]
    link := Function.update s.link s.nextLink { accepts }
    nextLink := s.nextLink + 1 }

def onDrain (s : Server) (l : LinkId) : Server :=
  if l ∈ s.links ∧ (s.link l).destroyed = false then
    (s.link l).claimed.foldl (fun s n => s.deliver n (fun ok u => u.resume ok)) s
  else s

/-- The link is gone, and what it claimed is held. -/
def dropLink (s : Server) (l : LinkId) : Server :=
  let released := (s.link l).claimed
  let s := { s with links := s.links.filter (· ≠ l) }
  let s := released.foldl (fun s n => s.modifyUpstream n (·.detach s.now)) s
  s.modifyLink l ({ · with claimed := [], destroyed := true })

def onLinkClose (s : Server) (l : LinkId) : Server :=
  if l ∈ s.links then (s.dropLink l).offer (s.link l).claimed none else s

/-- Drop oldest lines of the largest buffers until the shared budget fits. -/
def reclaim (s : Server) : Server :=
  let r := s.budget.reclaim s.now (fun n => (s.upstream n).buffer)
  { s with budget := r.1, upstream := fun n => { s.upstream n with buffer := r.2 n } }

/-- `LineBuffer.push`. -/
def pushLine (s : Server) (n : SocketId) (line : String) : Server :=
  (s.modifyUpstream n (fun u =>
    { u with buffer := (u.buffer.append line).trim s.now })).reclaim

def onLine (env : Platform) (s : Server) (n : SocketId) (line : String) : Server :=
  match env.ircLineParser line with
  | none => s
  | some msg =>
    if env.toUpperCase msg.command = "PING" then s.modifyUpstream n (·.answerPing msg.params)
    else
      let r := (s.upstream n).trackLine env line msg
      let s := s.setUpstream n r.1
      let s := if r.2 = some true then s.offer [n] (s.releasedBy n) else s
      let seq := (s.upstream n).buffer.nextSeq
      let s := (s.pushLine n line).modifyUpstream n (·.noteBurstEnd seq)
      s.deliver n (fun ok u => Upstream.flush ok (u, []))

/-- A complete line arrived, its terminator taken off. -/
def onData (env : Platform) (s : Server) (n : SocketId) (line : String) : Server :=
  if MAX_IRC_LINE < utf16Length line then
    s.modifyUpstream n (·.dropPeer "peer sent an over-long line")
  else if line = "" then s
  else s.onLine env n line

/-- The proxied dial of `n` produced a tunnel. -/
def onTunnel (s : Server) (n : SocketId) (l r : Endpoint) : Server :=
  if (s.upstream n).closing ∨ (s.upstream n).state = .closed then
    (s.modifyUpstream n ({ · with proxyDialPending := false })).onUpstreamClose n
  else s.modifyUpstream n (·.onTunnel l r)

/-- The proxied dial of `n` failed. -/
def onTunnelFailed (s : Server) (n : SocketId) (err : String) : Server :=
  (s.modifyUpstream n
    ({ · with proxyDialPending := false, lastError := some err })).onUpstreamClose n

/-- End a session nobody has claimed for `orphanMs`. -/
def reapOrphans (o : ServerOptions) (s : Server) : Server :=
  if o.orphanMs ≤ 0 then s
  else
    s.upstreams.values.foldl (fun s n =>
      let u := s.upstream n
      if !u.attached && !u.closing && decide (u.state = .opened) &&
          u.detachedAt.any (fun since => since < s.now - o.orphanMs) then
        s.quitUpstream n "Lurker: no app returned for this connection"
      else s) s

/-- What can happen to the engine. A socket's events come from Node: a line
only from an open socket, a `close` only from one that exists. -/
inductive Event
  | accept (accepts : Nat → Bool)
  | frame (l : LinkId) (frame : AppToEngine)
  | drain (l : LinkId)
  | linkDestroyed (l : LinkId)
  | linkClosed (l : LinkId)
  | tcpConnect (n : SocketId) (localEnd remoteEnd : Endpoint)
  | tunnel (n : SocketId) (localEnd remoteEnd : Endpoint)
  | tunnelFailed (n : SocketId) (err : String)
  | opened (n : SocketId) (localEnd remoteEnd : Endpoint)
  | line (n : SocketId) (line : String)
  | socketError (n : SocketId) (err : String)
  | dialTimeout (n : SocketId)
  | socketClosed (n : SocketId)
  | reap
  | tick (now : Int)

/-- A socket that can still produce events other than its `close`. -/
def socketUp (s : Server) (n : SocketId) : Prop :=
  (s.upstream n).hasSocket = true ∧ (s.upstream n).socketDestroyed = false

instance (s : Server) (n : SocketId) : Decidable (s.socketUp n) :=
  inferInstanceAs (Decidable (_ ∧ _))

def step (env : Platform) (o : ServerOptions) (s : Server) : Event → Server
  | .accept accepts => s.accept accepts
  | .frame l f => s.onFrame env o l f
  | .drain l => s.onDrain l
  | .linkDestroyed l => s.destroyLink l
  | .linkClosed l => s.onLinkClose l
  | .tcpConnect n l r =>
      if s.socketUp n ∧ (s.upstream n).state = .dialing then
        s.modifyUpstream n (·.onTcpConnect l r) else s
  | .tunnel n l r => if (s.upstream n).proxyDialPending then s.onTunnel n l r else s
  | .tunnelFailed n e => if (s.upstream n).proxyDialPending then s.onTunnelFailed n e else s
  | .opened n l r =>
      if s.socketUp n ∧ (s.upstream n).state = .dialing then
        s.deliver n (fun _ u => u.onOpen l r) else s
  | .line n line =>
      if s.socketUp n ∧ (s.upstream n).state = .opened then s.onData env n line else s
  | .socketError n e =>
      if s.socketUp n then s.modifyUpstream n ({ · with lastError := some e }) else s
  | .dialTimeout n =>
      if s.socketUp n ∧ (s.upstream n).state = .dialing then
        s.modifyUpstream n (·.dropPeer "dial timed out") else s
  | .socketClosed n => if (s.upstream n).hasSocket then s.onUpstreamClose n else s
  | .reap => s.reapOrphans o
  | .tick now => { s with now }

def smallOptions : ServerOptions where
  secret := "s"
  bufferBytes := 1000
  bufferTotalBytes := 10000
  version := "1"

def someEndpoint : Endpoint := ⟨"10.0.0.1", 6667⟩

/-- A link of the instance `i` comes in as number `l`. -/
def arriving (l : LinkId) (generation : Int) : List Event :=
  [.accept (fun _ => true), .frame l (.hello (.ofApp "s" "i" generation))]

/-- The link dials the socket `n`, which registers. -/
def registering (l : LinkId) (n : SocketId) : List Event :=
  [.frame l (.connect (.toHost "i:1" "irc.example" 6667)), .opened n someEndpoint someEndpoint,
    .line n ":srv 001 me :hi", .line n ":srv 376 me :end"]

end Server

end Lurker.Engine
