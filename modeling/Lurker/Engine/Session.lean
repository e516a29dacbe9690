import Lurker.Engine.Delivery
import Lurker.Lib.Run

/-!
# One held socket by itself

An upstream without the listener around it: what can happen to it is an `Act`,
and an act answers with the frames it writes to the sink. How many lines the
shared budget takes from its buffer, and what its sink says about
backpressure, are arbitrary here.
-/

namespace Lurker.Engine

/-- What can happen to one upstream. -/
inductive Act
  | dial
  | tunnel (localEnd remoteEnd : Endpoint)
  | opened (localEnd remoteEnd : Endpoint)
  | line (text : String) (now : Int) (forced : Nat) (ok : Nat → Bool)
  | shed (now : Int) (forced : Nat)
  | write (line : String)
  | ack (seq : Int)
  | resume (ok : Nat → Bool)
  | attach (sink : LinkId) (frame : Nat) (now : Int) (ok : Nat → Bool)
  | detach (now : Int)
  | close

namespace Upstream

/-- `LineBuffer.push`: its own cap is enforced, then the shared one. -/
def store (u : Upstream) (now : Int) (forced : Nat) (text : String) : Upstream :=
  { u with buffer := ((u.buffer.append text).trim now).drops now forced }

/-- Lines dropped under global pressure. -/
def shed (u : Upstream) (now : Int) (forced : Nat) : Upstream :=
  { u with buffer := u.buffer.drops now forced }

def onLine (env : Platform) (u : Upstream) (text : String) (now : Int) (forced : Nat)
    (ok : Nat → Bool) : Delivery :=
  match env.ircLineParser text with
  | none => (u, [])
  | some msg =>
    if env.toUpperCase msg.command = "PING" then (u.answerPing msg.params, [])
    else
      let v := (u.trackLine env text msg).1
      flush ok ((v.store now forced text).noteBurstEnd v.buffer.nextSeq, [])

/-- An attachment, and the backlog that follows the replay. -/
def attachTo (u : Upstream) (sink : LinkId) (frame : Nat) (now : Int) (ok : Nat → Bool) : Delivery :=
  match u.attach now sink frame with
  | (v, .payload _) => v.flushAfterAttach ok
  | (v, _) => (v, [])

def act (env : Platform) (u : Upstream) : Act → Delivery
  | .dial => ((u.dial env).toOption.getD u, [])
  | .tunnel l r => (if u.proxyDialPending then u.onTunnel l r else u, [])
  | .opened l r => if u.state = .dialing then u.onOpen l r else (u, [])
  | .line text now forced ok => u.onLine env text now forced ok
  | .shed now forced => (u.shed now forced, [])
  | .write line => (u.write line, [])
  | .ack seq => (u.ack seq, [])
  | .resume ok => u.resume ok
  | .attach sink frame now ok => u.attachTo sink frame now ok
  | .detach now => (u.detach now, [])
  | .close => (u.close.1, [])

end Upstream

/-- An upstream, what it has written since it last got a sink, and the acks since
then, each with what the sink had been sent. -/
structure Attachment where
  upstream : Upstream
  told : List EngineToApp := []
  /-- The last line of the burst, when the attachment began with a replay of it. -/
  covered : Nat := 0
  acks : List (Nat × Int) := []

namespace Attachment

def step (env : Platform) (w : Attachment) (a : Act) : Attachment :=
  let r := w.upstream.act env a
  match a with
  | .attach sink frame now _ =>
    { upstream := r.1
      told := r.2
      covered := match (w.upstream.attach now sink frame).2 with
        | .payload _ => w.upstream.burstEndSeq
        | _ => 0
      acks := [] }
  | .ack seq =>
    { w with upstream := r.1, told := w.told ++ r.2, acks := w.acks ++ [(w.upstream.sentSeq, seq)] }
  | _ => { w with upstream := r.1, told := w.told ++ r.2 }

/-- The line `k` was acked since the sink attached, before the sink was sent it. -/
def AckedUnsent (w : Attachment) (k : Nat) : Prop := ∃ a ∈ w.acks, a.1 < k ∧ (k : Int) ≤ a.2

end Attachment

/-- The line `k` is announced by a frame: sent, or reported lost. -/
def EngineToApp.Announces : EngineToApp → Nat → Prop
  | .line _ seq _, k => seq = k
  | .gap _ g, k => g.covers k
  | _, _ => False

/-- The order of the announcements to one sink. A gap may reach back over lines
that were sent; nothing else is announced twice. -/
def EngineToApp.Before : EngineToApp → EngineToApp → Prop
  | .line _ a _, .line _ b _ => a < b
  | .gap _ g, .line _ b _ => g.lastDroppedSeq < b
  | .gap _ g, .gap _ h => g.lastDroppedSeq < h.firstDroppedSeq
  | _, _ => True

end Lurker.Engine
