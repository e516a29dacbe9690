import Mathlib.Logic.Relation
import Lurker.Engine.Delivery
import Lurker.Engine.Server

/-!
# The indivisible moves of the listener

Every step of the engine is a sequence of moves, each of which leaves the
claims, the sinks and the id map in agreement. A move is an operation of
`EngineServer` with what it relies on; an invariant is proved once per move.
The moves that let go of a session, and those that bring a link in, are kept
apart from the calm ones, which leave nobody to be told anything.
-/

namespace Lurker.Engine.Server

/-- The id of `n` still means `n`. -/
def Mapped (s : Server) (n : SocketId) : Prop := s.upstreams.get? (s.upstream n).id = some n

instance (s : Server) (n : SocketId) : Decidable (s.Mapped n) :=
  inferInstanceAs (Decidable (_ = _))

def Claims (s : Server) (l : LinkId) (n : SocketId) : Prop := n ∈ (s.link l).claimed

instance (s : Server) (l : LinkId) (n : SocketId) : Decidable (s.Claims l n) :=
  inferInstanceAs (Decidable (_ ∈ _))

/-- The frames that deliver a socket's lines. -/
def isTraffic : EngineToApp → Bool
  | .line .. => true
  | .gap .. => true
  | .live .. => true
  | _ => false

/-- The processing a move belongs to: of the `k`-th frame read from a link, or none. -/
abbrev Cause := Option (LinkId × Nat)

section Moves

variable (env : Platform) (o : ServerOptions) (c : Cause)

/-- Moves after which every unclaimed session was one before. -/
inductive Calm : Server → Server → Prop
  | tick {s : Server} (now : Int) : Calm s { s with now }
  | read {s : Server} (l : LinkId) : Calm s (s.modifyLink l (·.readOne))
  | linkDestroyed {s : Server} (l : LinkId) : Calm s (s.destroyLink l)
  | reply {s : Server} {l : LinkId} {k : Nat} (hc : c = some (l, k)) {frame : EngineToApp}
      (hf : isTraffic frame = false) : Calm s (s.send l (.reply k) frame)
  | detached {s : Server} {l : LinkId} {n : SocketId} (hn : s.Claims l n) :
      Calm s (s.send l (.notice n) (.detached (s.upstream n).id))
  | offer {s : Server} (n : SocketId) (except : Option LinkId) : Calm s (s.offerOne n except)
  | touch {s : Server} {n : SocketId} {u : Upstream} (hu : (s.upstream n).Keeps u)
      (hr : u.burstDone = (s.upstream n).burstDone) : Calm s (s.setUpstream n u)
  | opened {s : Server} {n : SocketId} (hn : s.Mapped n ∨ (s.upstream n).sink = none)
      (hd : (s.upstream n).state = .dialing) (hr : (s.upstream n).burstDone = false)
      (l r : Endpoint) : Calm s (s.deliver n (fun _ u => u.onOpen l r))
  | flush {s : Server} {n : SocketId} (hn : s.Mapped n ∨ (s.upstream n).sink = none)
      {op : (Nat → Bool) → Upstream → Upstream.Delivery}
      (hop : ∀ ok u, Upstream.Emits u (op ok u).2 (op ok u).1) : Calm s (s.deliver n op)
  | push {s : Server} (n : SocketId) (line : String) : Calm s (s.pushLine n line)
  | ack {s : Server} (n : SocketId) (seq : Int) : Calm s (s.modifyUpstream n (·.ack seq))
  | retire {s : Server} {n : SocketId} (hc : (s.upstream n).closing = true) : Calm s (s.retire n)
  | cut {s : Server} (n : SocketId) : Calm s ((s.retire n).modifyUpstream n (·.close.1))
  | attach {s t : Server} {l : LinkId} {k : Nat} (hc : c = some (l, k)) {n : SocketId}
      (hl : l ∈ s.links) (ha : (s.link l).authed = true) (hn : s.Mapped n)
      (hi : (s.upstream n).opts.instanceId = (s.link l).instanceId)
      (hw : s.contest l n = (t, none)) : Calm s (t.attachTo l k n).1
  | dial {s : Server} {l : LinkId} {k : Nat} (hc : c = some (l, k)) {dial : DialRequest}
      (hl : l ∈ s.links) (ha : (s.link l).authed = true)
      (hv : ∀ n, s.upstreams.get? dial.id = some n → (s.upstream n).Over) :
      Calm s (s.dialAfresh env o l k dial)
  | ended {s : Server} {n : SocketId} (hn : s.Mapped n ∨ (s.upstream n).sink = none) :
      Calm s (s.onUpstreamClose n)

inductive Move : Server → Server → Prop
  | calm {s t : Server} (h : Calm env o c s t) : Move s t
  | accept {s : Server} (accepts : Nat → Bool) : Move s (s.accept accepts)
  | authenticate {s : Server} {l : LinkId} (hl : l ∈ s.links) (ha : (s.link l).authed = false)
      (f : HelloFrame) : Move s (s.authenticate l f)
  | letGo {s : Server} {l : LinkId} {k : Nat} (hc : c = some (l, k)) {n : SocketId}
      (h : s.Claims l n) : Move s (s.letGo l n)
  | dropLink {s : Server} (l : LinkId) : Move s (s.dropLink l)
  | registered {s : Server} {n : SocketId} {u : Upstream} (hu : (s.upstream n).Keeps u)
      (ho : u.state = .opened) : Move s (s.setUpstream n u)

end Moves

end Lurker.Engine.Server
