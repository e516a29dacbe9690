import Mathlib.Algebra.Order.Field.Rat
import Mathlib.Data.List.Infix
import Mathlib.Data.List.Range
import Mathlib.Logic.Function.Basic
import Mathlib.Tactic.Positivity

/-!
# The outbound queue of one IRC connection

`SendPacer` of `services/sendPacer.ts`, as a machine. The queue hands control
to code that is not its own in four places: a thunk, a line made when it goes,
an `onSent` hook and an `onDropped` hook. That code may call back into the
queue, so each such place is a `Frame` on a stack, and a step is a call, a
return, one turn of a loop, or the timer. The questions the queue asks
(`ready`, `holding`, `live`, `paced`) and the socket's answer come with the step.

An item is named by where it stands: a written item by the number of its
write, what its thunk makes by the item's name and a position. `Entry.origin`
of the source is the name without its last position. A hook that is absent is
one that does nothing. Times are milliseconds.
-/

namespace Lurker.Outbound

def BASE_COST_MS : ℚ := 2000

def COST_PER_100_BYTES_MS : ℚ := 1000

/-- How far ahead of real time the server's clock may run before a line waits. -/
def BURST_BUDGET_MS : ℚ := 10000

/-- What one line of this many bytes, CRLF included, advances the server's clock by. -/
def lineCostMs (bytes : Nat) : ℚ := BASE_COST_MS + (bytes / 100 : Nat) * COST_PER_100_BYTES_MS

def costOf (line : String) : ℚ := lineCostMs (line.utf8ByteSize + 2)

theorem costOf_pos (line : String) : 0 < costOf line := by
  unfold costOf lineCostMs BASE_COST_MS COST_PER_100_BYTES_MS
  positivity

/-- JavaScript's `\w`. -/
def isWordChar (c : Char) : Bool := c.isAlphanum || c = '_'

/-- The characters `\S` refuses. -/
def isSpace (c : Char) : Bool :=
  let n := c.val.toNat
  (9 ≤ n && n ≤ 13) || n = 32 || n = 0xa0 || n = 0x1680 || (0x2000 ≤ n && n ≤ 0x200a) ||
    n = 0x2028 || n = 0x2029 || n = 0x202f || n = 0x205f || n = 0x3000 || n = 0xfeff

/-- A leading message-tag block and its space, when there is one. -/
def dropTags : List Char → List Char
  | '@' :: cs =>
    match cs.span (fun c => !isSpace c) with
    | (_ :: _, ' ' :: rest) => rest
    | _ => '@' :: cs
  | cs => cs

/-- The word at the front, whatever its case, and a word boundary after it. -/
def startsWithWord (word : List Char) (cs : List Char) : Bool :=
  (cs.take word.length).map Char.toUpper = word &&
    ((cs.drop word.length).head?.all (fun c => !isWordChar c))

/-- PING, PONG and QUIT, which waiting would only make wrong. -/
def immediate (line : String) : Bool :=
  let cs := dropTags line.toList
  startsWithWord ['P', 'I', 'N', 'G'] cs || startsWithWord ['P', 'O', 'N', 'G'] cs ||
    startsWithWord ['Q', 'U', 'I', 'T'] cs

inductive Priority
  | high | normal | low
  deriving DecidableEq

/-- Which lane goes before which. -/
def Priority.rank : Priority → Nat
  | .high => 0
  | .normal => 1
  | .low => 2

abbrev Name := List Nat

/-- An item and the items it expanded from, nearest first. -/
def chain (p : Name) : List Name := (List.range p.length).map (fun i => p.take (p.length - i))

inductive Body
  | text (s : String)
  /-- A thunk; or a line whose text is made when it goes. -/
  | build (lazyText : Bool)
  | unit (lines : List String)
  deriving DecidableEq

structure Entry where
  name : Name
  priority : Priority
  /-- Arrival order, across lanes. -/
  seq : Option Nat := none
  body : Body
  key : Option String := none
  /-- Whether a `live` check is asked at its turn. -/
  live : Bool := false
  /-- Whose `onSent` follows its line, in order. -/
  onSent : List Name
  unpaced : Bool := false
  deriving DecidableEq

/-- The number of the write an item comes from. -/
def Entry.root (e : Entry) : Nat := e.name.headD 0

/-- The names of the lines an entry is: none for what is yet to be built. -/
def Entry.lineNames (e : Entry) : List Name :=
  match e.body with
  | .build _ => []
  | _ => [e.name]

/-- One of the things a thunk makes. -/
inductive Made
  | text (s : String)
  | lazyText
  | thunk
  deriving DecidableEq

/-- The `i`-th thing the thunk of `e` made, as the entry that goes in its place. A
line made when it goes keeps its `onSent` for the line it becomes. -/
def Entry.child (e : Entry) (i : Nat) (m : Made) : Entry where
  name := e.name ++ [i]
  priority := e.priority
  body := match m with
    | .text s => .text s
    | .lazyText => .build true
    | .thunk => .build false
  live := e.live
  onSent := match m with
    | .text _ => [if e.body = .build true then e.name else e.name ++ [i]]
    | _ => []
  unpaced := e.unpaced

/-- What a thunk made, in its place: the item's own `onSent` follows its last line. -/
def Entry.children (e : Entry) (items : List Made) : List Entry :=
  items.mapIdx (fun i m =>
    let own := e.child i m
    if i + 1 = items.length then { own with onSent := own.onSent ++ e.onSent } else own)

/-- Where control was handed away, or what is still to do once it comes back. -/
inductive Frame
  /-- The loop of `drain`, about to look at the head. -/
  | drain
  /-- `drain` on its way out. -/
  | drainEnd
  /-- `expand`: the thunk is running. -/
  | building (e : Entry)
  /-- `sendAtOnce`: the thunk is running. -/
  | buildingNow (e : Entry)
  /-- `sendAtOnce`: the loop over what the thunk made, from position `i` on. -/
  | atOnce (e : Entry) (i : Nat) (items : List Made)
  /-- `write`: the loop that makes room for a keyed item. -/
  | admitting (e : Entry)
  /-- An `onSent` hook is running; these follow. -/
  | sent (hooks : List Name)
  /-- An `onDropped` hook is running; these follow, unless told by then. -/
  | told (set : Nat) (names : List Name)
  deriving DecidableEq

def Frame.isDrain : Frame → Bool
  | .drain | .drainEnd => true
  | _ => false

def Frame.isAtOnce : Frame → Bool
  | .atOnce .. => true
  | _ => false

/-- Code that is not the queue's is running. -/
def Frame.isForeign : Frame → Bool
  | .building _ | .buildingNow _ | .sent _ | .told .. => true
  | _ => false

/-- What has happened, for the results to speak about. -/
inductive Note
  /-- Lines an item made, by name. -/
  | made (names : List Name)
  /-- An item went into its lane. -/
  | queued (e : Entry)
  /-- Lines of an entry put on the socket, back to back. -/
  | sent (e : Entry) (lines : List String) (fromLane charged : Bool) (time : ℚ)
  /-- The socket refused a line. -/
  | refused
  /-- An entry's turn came when its item was no longer wanted. -/
  | skipped (root : Nat)
  | onSent (p : Name)
  | onDropped (p : Name)
  /-- A `cancel` of the item returned true. -/
  | cancelled (root : Nat)
  /-- `drop`: a new socket. -/
  | dropped
  deriving DecidableEq

structure SendPacer where
  lanes : Priority → List Entry := fun _ => []
  timer : Option ℚ := none
  disposed : Bool := false
  /-- The server's clock for us, as far as we can tell. -/
  since : ℚ := 0
  seq : Nat := 0
  /-- The sets of items told dropped; `refusal` is `toldAtRefusal`. -/
  sets : Nat → List Name := fun _ => []
  nextSet : Nat := 1
  refusal : Nat := 0
  nextId : Nat := 0
  now : ℚ := 0
  stack : List Frame := []
  log : List Note := []
  /-- The last drain stopped before a head that could not go, or that was refused. -/
  halted : Bool := false

/-- What the connection and the socket answer during one step. -/
structure Answers where
  ready : Bool := true
  holding : Bool := false
  wanted : Bool := true
  paced : Bool := true
  /-- Whether the socket takes the `i`-th line of the step. -/
  takes : Nat → Bool := fun _ => true

namespace SendPacer

def draining (s : SendPacer) : Bool := s.stack.any Frame.isDrain

def all (s : SendPacer) : List Entry := s.lanes .high ++ s.lanes .normal ++ s.lanes .low

/-- The next item to go: the first of the first lane with any. -/
def head (s : SendPacer) : Option Entry := s.all.head?

def setLane (s : SendPacer) (p : Priority) (es : List Entry) : SendPacer :=
  { s with lanes := Function.update s.lanes p es }

@[simp] theorem lanes_setLane {s : SendPacer} {p : Priority} {es : List Entry} :
    (s.setLane p es).lanes p = es :=
  Function.update_self ..

theorem lanes_setLane_of_ne {s : SendPacer} {p q : Priority} (h : q ≠ p) {es : List Entry} :
    (s.setLane p es).lanes q = s.lanes q :=
  Function.update_of_ne h ..

def note (s : SendPacer) (n : Note) : SendPacer := { s with log := s.log ++ [n] }

def push (s : SendPacer) (f : Frame) : SendPacer := { s with stack := f :: s.stack }

def withStack (s : SendPacer) (fs : List Frame) : SendPacer := { s with stack := fs }

def setTimer (s : SendPacer) (t : Option ℚ) : SendPacer := { s with timer := t }

def halt (s : SendPacer) (b : Bool) : SendPacer := { s with halted := b }

/-- Run the `onSent` hooks of a line that went, in order. -/
def callSent (s : SendPacer) : List Name → SendPacer
  | [] => s
  | p :: hooks => (s.note (.onSent p)).push (.sent hooks)

def addTold (s : SendPacer) (set : Nat) (p : Name) : SendPacer :=
  { s with sets := Function.update s.sets set (p :: s.sets set) }

/-- Tell each of these once: up to the first that has not been told. -/
def tell (s : SendPacer) (set : Nat) : List Name → SendPacer
  | [] => s
  | p :: names =>
    if p ∈ s.sets set then s.tell set names
    else ((s.addTold set p).note (.onDropped p)).push (.told set names)

def newSet (s : SendPacer) : SendPacer :=
  { s with sets := Function.update s.sets s.nextSet [], nextSet := s.nextSet + 1 }

/-- `tellDropped` with a set of its own. -/
def tellAfresh (s : SendPacer) (names : List Name) : SendPacer := s.newSet.tell s.nextSet names

/-- The socket refused the entry's line, or it failed to build. -/
def refuse (s : SendPacer) (e : Entry) : SendPacer := s.tell s.refusal (chain e.name)

def charge (s : SendPacer) (cost time : ℚ) (capped : Bool) : SendPacer :=
  let charged := max s.since time + cost
  { s with since := if capped then min charged (max s.since (time + BURST_BUDGET_MS)) else charged }

/-- What a line is charged: nothing while unpaced. -/
def price (a : Answers) (line : String) : ℚ := if a.paced then costOf line else 0

/-- One line to the socket. -/
def sendNow (s : SendPacer) (e : Entry) (text : String) (fromLane charged : Bool) (a : Answers) :
    SendPacer :=
  if a.takes 0 then
    let s := s.note (.sent e [text] fromLane charged s.now)
    (if charged then s.charge (price a text) s.now e.unpaced else s).callSent e.onSent
  else (s.note .refused).refuse e

/-- The lines the socket takes before it refuses one. -/
def taken (takes : Nat → Bool) : Nat → List String → List String
  | _, [] => []
  | i, l :: ls => if takes i then l :: taken takes (i + 1) ls else []

def total (a : Answers) (lines : List String) : ℚ := (lines.map (price a)).sum

/-- A unit's lines, back to back; what went before a refusal is charged. -/
def sendUnit (s : SendPacer) (e : Entry) (lines : List String) (charged : Bool) (a : Answers) :
    SendPacer :=
  let went := taken a.takes 0 lines
  let cost := total a went
  let t := if went = [] then s else s.note (.sent e went charged charged s.now)
  if went = lines then (if charged then t.charge cost s.now false else t).callSent e.onSent
  else ((if charged ∧ cost ≠ 0 then t.charge cost s.now false else t).note .refused).refuse e

/-- `drain`, unless one runs or a wait is on. -/
def drain (s : SendPacer) : SendPacer :=
  if s.timer.isSome || s.draining then s else (s.halt false).push .drain

/-- Pick the head again: a wait scheduled for the old one is not its wait. -/
def redrain (s : SendPacer) : SendPacer := (if s.draining then s else s.setTimer none).drain

/-- What the head must fit under the budget with: a thunk, the shortest line; a
unit, its first. -/
def admission (e : Entry) : ℚ :=
  match e.body with
  | .build _ => BASE_COST_MS
  | .unit lines => costOf (lines.headD "")
  | .text s => costOf s

/-- How long the head must wait. -/
def excess (s : SendPacer) (e : Entry) : ℚ := s.since - s.now + admission e - BURST_BUDGET_MS

/-- Whether the socket takes all of the entry. -/
def goes (a : Answers) (e : Entry) : Bool :=
  match e.body with
  | .unit lines => taken a.takes 0 lines = lines
  | _ => a.takes 0

/-- One turn of `drain`'s loop; `st` is the stack below it. -/
def drainTurn (s : SendPacer) (st : List Frame) (a : Answers) : SendPacer :=
  match s.head with
  | none => s.withStack st
  | some e =>
    if !a.ready || a.holding then (s.halt true).withStack st
    else if a.paced && !e.unpaced && 0 < s.excess e then
      (s.setTimer (some (s.now + s.excess e))).withStack st
    else
      let s := s.setLane e.priority (s.lanes e.priority).tail
      if e.live && !a.wanted then s.note (.skipped e.root)
      else
        match e.body with
        | .build _ => s.push (.building e)
        | .text t =>
          if a.takes 0 then s.sendNow e t true true a
          else ((s.halt true).withStack (.drainEnd :: st)).sendNow e t true true a
        | .unit lines =>
          if goes a e then s.sendUnit e lines true a
          else ((s.halt true).withStack (.drainEnd :: st)).sendUnit e lines true a

/-- What a thunk made takes its place at the head of its lane. -/
def expand (s : SendPacer) (e : Entry) (items : List Made) : SendPacer :=
  (s.setLane e.priority (e.children items ++ s.lanes e.priority)).note
    (.made ((e.children items).flatMap Entry.lineNames))

/-- The enclosing calls of `sendAtOnce` return false. -/
def abort (st : List Frame) : List Frame := st.dropWhile Frame.isAtOnce

/-- Past the queue, uncharged. -/
def sendAtOnce (s : SendPacer) (e : Entry) (a : Answers) : SendPacer :=
  match e.body with
  | .unit lines => s.sendUnit e lines false a
  | .build _ => s.push (.buildingNow e)
  | .text t => s.sendNow e t false false a

/-- One turn of the loop over what a thunk made before registration. -/
def atOnceTurn (s : SendPacer) (st : List Frame) (e : Entry) (i : Nat) (a : Answers) :
    List Made → SendPacer
  | [] => (s.withStack st).callSent e.onSent
  | m :: items =>
    let own := e.child i m
    match own.body with
    | .text t =>
      if a.takes 0 then (s.withStack (.atOnce e (i + 1) items :: st)).sendNow own t false false a
      else (s.withStack (abort st)).sendNow own t false false a
    | _ => s.withStack (.buildingNow own :: .atOnce e (i + 1) items :: st)

structure WriteOptions where
  priority : Priority := .normal
  key : Option String := none
  live : Bool := false
  unpaced : Bool := false

inductive Item
  | text (s : String)
  | thunk

/-- An item that will not go at all is told, past every set. -/
def tellGone (s : SendPacer) (p : Name) : SendPacer := (s.note (.onDropped p)).push (.sent [])

def nextName (s : SendPacer) : Name := [s.nextId]

def takeId (s : SendPacer) : SendPacer := { s with nextId := s.nextId + 1 }

def takeSeq (s : SendPacer) : SendPacer := { s with seq := s.seq + 1 }

/-- An item is new, under the next name. -/
def admitNew (s : SendPacer) (e : Entry) : SendPacer := s.takeId.note (.made e.lineNames)

/-- Behind what waits in its lane. -/
def enqueue (s : SendPacer) (e : Entry) : SendPacer :=
  ((s.setLane e.priority (s.lanes e.priority ++ [e])).note (.queued e)).redrain

/-- The first entry waiting under a key, and its lane. -/
def findKey (s : SendPacer) (k : String) : Option Entry := s.all.find? (fun q => q.key = some k)

/-- Where its predecessor stood, as old as it was. -/
def replace (s : SendPacer) (q e : Entry) : SendPacer :=
  let e : Entry := { e with priority := q.priority, seq := q.seq }
  (s.setLane q.priority ((s.lanes q.priority).map (fun x => if x = q then e else x))).note
    (.queued e)

/-- Into its predecessor's place, or behind its lane once there is room. -/
def queueUp (s : SendPacer) (e : Entry) : SendPacer :=
  match e.key with
  | none => s.enqueue e
  | some k =>
    match s.findKey k with
    | some q => s.replace q e
    | none => s.push (.admitting e)

def write (s : SendPacer) (item : Item) (o : WriteOptions) (a : Answers) : SendPacer :=
  if s.disposed then s.takeId.tellGone s.nextName
  else
    let e : Entry :=
      { name := s.nextName, priority := o.priority, seq := some s.seq
        body := match item with
          | .text t => .text t
          | .thunk => .build false
        key := o.key, live := o.live, onSent := [s.nextName], unpaced := o.unpaced }
    let s := (s.admitNew e).takeSeq
    if !a.ready then s.sendAtOnce e a
    else
      match item with
      | .text t =>
        if immediate t then s.sendNow e t false true a
        else s.queueUp e
      | .thunk => s.queueUp e

def unit (s : SendPacer) (lines : List String) (p : Priority) (a : Answers) : SendPacer :=
  if s.disposed || lines = [] then s.takeId.tellGone s.nextName
  else
    let e : Entry := { name := s.nextName, priority := p, body := .unit lines, onSent := [s.nextName] }
    let s := s.admitNew e
    if !a.ready then s.sendAtOnce e a else s.enqueue e

/-- The item and everything it expanded to, where it waits. -/
def ofRoot (s : SendPacer) (root : Nat) : List Entry := s.all.filter (fun q => q.root = root)

def removeRoot (s : SendPacer) (root : Nat) : SendPacer :=
  { s with lanes := fun p => (s.lanes p).filter (fun q => q.root ≠ root) }

def cancel (s : SendPacer) (root : Nat) : SendPacer :=
  if s.ofRoot root = [] then s else (s.removeRoot root).note (.cancelled root)

/-- The keyed items waiting, oldest first. -/
def keyed (s : SendPacer) : List Entry :=
  (s.all.filter (fun q => q.key.isSome)).mergeSort (fun q r => q.seq.getD 0 ≤ r.seq.getD 0)

/-- One turn of the loop that makes room for a keyed item. -/
def admitTurn (maxKeyed : Nat) (s : SendPacer) (st : List Frame) (e : Entry) : SendPacer :=
  if s.disposed then (s.withStack st).tellGone e.name
  else if maxKeyed ≤ s.keyed.length then
    match s.keyed.head? with
    | some q => (s.removeRoot q.root).tellAfresh ((s.ofRoot q.root).flatMap (fun x => chain x.name))
    | none => s
  else (s.withStack st).enqueue e

/-- A new socket: what waited was meant for the old one. -/
def drop (s : SendPacer) : SendPacer :=
  let gone := s.all
  let told := s.refusal
  let s := { s.newSet with lanes := fun _ => [], since := 0, timer := none, refusal := s.nextSet }
  (s.note .dropped).tell told (gone.flatMap (fun e => chain e.name))

/-- The connection is gone for good. -/
def dispose (s : SendPacer) : SendPacer := drop { s with disposed := true }

end SendPacer

inductive Call
  | write (item : SendPacer.Item) (o : SendPacer.WriteOptions)
  | unit (lines : List String) (p : Priority)
  | cancel (root : Nat)
  | redrain
  | resume
  | drop
  | dispose

/-- How a thunk or a hook ends. -/
inductive Return
  | done
  | throws
  /-- A thunk made these. -/
  | built (items : List Made)
  /-- A line's text, made when it goes; `none` sends nothing. -/
  | made (text : Option String)

inductive Event
  | clock (time : ℚ)
  | call (c : Call) (a : Answers)
  | turn (a : Answers)
  | returns (r : Return)
  | fire

namespace SendPacer

def call (s : SendPacer) (a : Answers) : Call → SendPacer
  | .write item o => s.write item o a
  | .unit lines p => s.unit lines p a
  | .cancel root => s.cancel root
  | .redrain => s.redrain
  | .resume => s.drain
  | .drop => s.drop
  | .dispose => s.dispose

/-- What a thunk's return makes, when it is one the thunk can give. -/
def madeBy (e : Entry) : Return → Option (List Made)
  | .built items => if e.body = .build false then some items else none
  | .made text => if e.body = .build true then some (text.toList.map .text) else none
  | _ => none

/-- Control comes back to the frame on top; `st` is the stack below it. -/
def return_ (s : SendPacer) (st : List Frame) (r : Return) : Frame → SendPacer
  | .sent hooks =>
    match r with
    | .done => (s.withStack st).callSent hooks
    | .throws => s.withStack st
    | _ => s
  | .told set names =>
    match r with
    | .done | .throws => (s.withStack st).tell set names
    | _ => s
  | .building e =>
    match r with
    | .throws => (s.withStack st).tellAfresh (chain e.name)
    | r =>
      match madeBy e r with
      | some items => (s.withStack st).expand e items
      | none => s
  | .buildingNow e =>
    match r with
    | .throws => (s.withStack (abort st)).refuse e
    | r =>
      match madeBy e r with
      | some [] => s.withStack st
      | some (m :: items) =>
        (s.withStack (.atOnce e 0 (m :: items) :: st)).note
          (.made ((e.children (m :: items)).flatMap Entry.lineNames))
      | none => s
  | _ => s

/-- One turn of the loop on top of the stack. -/
def turn (maxKeyed : Nat) (s : SendPacer) (st : List Frame) (a : Answers) : Frame → SendPacer
  | .drain => s.drainTurn st a
  | .drainEnd => s.withStack st
  | .atOnce e i items => s.atOnceTurn st e i a items
  | .admitting e => s.admitTurn maxKeyed st e
  | _ => s

/-- Foreign code is running: a hook, a thunk, or whoever owns the queue. -/
def foreign (s : SendPacer) : Bool := s.stack.head?.all Frame.isForeign

def step (maxKeyed : Nat) (s : SendPacer) : Event → SendPacer
  | .clock t => { s with now := max s.now t }
  | .call c a => if s.foreign then s.call a c else s
  | .turn a =>
    match s.stack with
    | f :: st => s.turn maxKeyed st a f
    | [] => s
  | .returns r =>
    match s.stack with
    | f :: st => s.return_ st r f
    | [] => s
  | .fire => if s.stack = [] ∧ s.timer.isSome then (s.setTimer none).drain else s

end SendPacer

end Lurker.Outbound
