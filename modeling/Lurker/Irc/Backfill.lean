import Lurker.E2e.RawGuard
import Lurker.Lib.Cursor
import Lurker.Lib.OrderedMap
import Lurker.Lib.Run

/-!
# Filling a gap from the network's history

A walk asks the network for one target's lines between two times, page by page, or for the
targets that had a line in the gap, each of which is then walked. One request is on the
wire at a time, and the reply router says when its batch has closed. A link to the engine
that drops takes the request with it, not the socket it was sent on: the page is asked for
again, and the answer to the first request may still come. As long as none is to come
whenever a walk goes on, every walk reads the whole of its gap and ends.
-/

namespace Lurker.Irc.History

open E2e (decimal isChannelTarget)

attribute [local instance] str_lawfulBEq

/-- The newest line each buffer holds, by folded target. Instants are in milliseconds; their texts,
of one ISO format, are in the same order. -/
abbrev Anchors := OrderedMap Str Int

/-- How a query ended. -/
inductive QueryEnd
  | replied
  | postponed
  | error
  | timeout
deriving DecidableEq

inductive LogLevel
  | info
  | warn
deriving DecidableEq

/-- What a walk needs from its connection, as far as it answers. -/
structure Host where
  limit : Nat
  fold : Str → Str

def BACKFILL_LIMIT_CAP : Nat := 1000

def BOUND_FUZZ_MS : Int := 1000

def ASKED_REMEMBERED : Nat := 1000

def UNANSWERED_STRIKES : Nat := 2

/-- The type of a batch that names targets. -/
def targetsType : Str := "draft/chathistory-targets".toList

/-- The type of a batch of one target's lines. -/
def chathistoryType : Str := "chathistory".toList

/-- A window of one target, with the TARGETS walk that named it if one did, or the targets
of a window. -/
inductive Kind
  | between (target : Str) (fetched : Nat) (spawner : Option Nat)
  | targets (origin : Int) (anchors : Anchors) (seen : List Str)

/-- `made` tells one walk from another: which of those made it is. `lower` and `upper` are the
source's `from` and `to`. -/
structure Walk where
  made : Nat
  lower : Int
  upper : Int
  pages : Nat
  kind : Kind

/-- The target a walk asks about; none for the targets of a window. -/
def Walk.about (walk : Walk) : Option Str :=
  match walk.kind with
  | .between target _ _ => some target
  | .targets .. => none

/-- A CHATHISTORY line, by what it asks: BETWEEN of a target, or TARGETS. `number` is which of
the lines sent it is. -/
structure Request where
  number : Nat
  walk : Nat
  about : Option Str
  lower : Int
  upper : Int
  limit : Nat
deriving DecidableEq

/-- The page being read. -/
structure Active where
  request : Nat
  walk : Walk
  limit : Nat
  ref : Option Str
  lines : Nat
  messages : Nat
  newest : Option Int
  last : Bool
  found : OrderedMap Str Int

/-- The walks, with every one as it was made and every line handed to the host. -/
structure Backfill where
  queue : List Walk
  active : Option Active
  asked : List Str
  available : Bool
  unanswered : Nat
  walks : List Walk
  sent : List Request
  logged : List (LogLevel × Str)

def newBackfill : Backfill := ⟨[], none, [], true, 0, [], [], []⟩

def Host.cap (host : Host) : Nat :=
  if 0 < host.limit then min host.limit BACKFILL_LIMIT_CAP else BACKFILL_LIMIT_CAP

def newestOf (anchors : Anchors) : Option Int :=
  anchors.values.foldl
    (fun newest time => if newest.all (· < time) then some time else newest) none

namespace Backfill

variable (host : Host)

/-- The request a walk makes next. -/
def ask (s : Backfill) (walk : Walk) : Request :=
  ⟨s.sent.length, walk.made, walk.about, walk.lower, walk.upper, host.cap⟩

def next (s : Backfill) : Backfill :=
  if s.active.isSome || !s.available then s
  else
    match s.queue with
    | [] => s
    | walk :: queue =>
      { s with
        queue := queue
        active := some ⟨s.sent.length, walk, host.cap, none, 0, 0, none, false, .empty⟩
        sent := s.sent ++ [s.ask host walk] }

/-- A walk goes to the end of the queue. -/
def push (s : Backfill) (lower upper : Int) (kind : Kind) : Backfill :=
  let walk : Walk := ⟨s.walks.length, lower, upper, 0, kind⟩
  { s with queue := s.queue ++ [walk], walks := s.walks ++ [walk] }

def enqueue (s : Backfill) (lower upper : Int) (kind : Kind) : Backfill :=
  if !s.available then s else (s.push lower upper kind).next host

def window (s : Backfill) (target : Str) (anchor : Option Int) (toMs : Int) : Backfill :=
  match anchor with
  | none => s
  | some anchor =>
    s.enqueue host (anchor - BOUND_FUZZ_MS) (toMs + BOUND_FUZZ_MS) (.between target 0 none)

def targets (s : Backfill) (anchors : Anchors) (toMs : Int) : Backfill :=
  match newestOf anchors with
  | none => s
  | some newest =>
    let origin := newest - BOUND_FUZZ_MS
    s.enqueue host origin (toMs + BOUND_FUZZ_MS) (.targets origin anchors [])

def channelJoined (s : Backfill) (target : Str) (joinedAtMs : Int) (anchor : Option Int) :
    Backfill :=
  s.window host target anchor joinedAtMs

def registered (s : Backfill) (nowMs : Int) (anchors : Anchors) : Backfill :=
  s.targets host anchors nowMs

def gap (s : Backfill) (channels : List Str) (endMs : Int) (anchors : Anchors) : Backfill :=
  (channels.foldl (fun s target => s.window host target (anchors.get? (host.fold target)) endMs)
    s).targets host anchors endMs

/-- Our link to the engine dropped; the socket lives on there. -/
def suspend (s : Backfill) : Backfill :=
  match s.active with
  | none => s
  | some active => { s with active := none, queue := active.walk :: s.queue }

def resume (s : Backfill) : Backfill := s.next host

def isOurs (s : Backfill) (ref : Str) : Bool := ref ≠ [] && s.asked.contains ref

/-- Whether a batch of a type, and of a target if it names one, answers a walk. -/
def mine (about : Option Str) (type : Str) (target : Option Str) : Bool :=
  match about with
  | none => type = targetsType
  | some about =>
    type = chathistoryType && target.any fun t => t ≠ [] && host.fold t = host.fold about

def onBatchStart (s : Backfill) (ref type : Str) (target : Option Str) (last : Bool) : Backfill :=
  match s.active with
  | none => s
  | some active =>
    if active.ref.any (· ≠ []) then s
    else if mine host active.walk.about type target then
      { s with
        active := some { active with ref := some ref, last := last }
        unanswered := 0
        asked := (if ASKED_REMEMBERED ≤ s.asked.length then [] else s.asked).insert ref }
    else s

/-- The newest of the times noted. -/
def noteTime (newest time : Option Int) : Option Int :=
  match time with
  | none => newest
  | some time => if newest.all (· < time) then some time else newest

def onBatchLine (s : Backfill) (ref : Str) (time : Option Int) (message : Bool) : Backfill :=
  match s.active with
  | none => s
  | some active =>
    if active.ref ≠ some ref then s
    else
      { s with
        active := some
          { active with
            lines := active.lines + 1
            messages := if message then active.messages + 1 else active.messages
            newest := noteTime active.newest time } }

def onTargetsLine (s : Backfill) (ref target : Str) (time : Int) : Backfill :=
  match s.active with
  | none => s
  | some active =>
    if active.ref ≠ some ref ∨ target = [] then s
    else
      { s with
        active := some
          { active with
            found := active.found.set target time
            newest := noteTime active.newest (some time) } }

/-- Where the next page starts; none when nothing moves. -/
def nextFrom (lower newest : Int) : Option Int :=
  let next := if newest - 1 ≤ lower then newest else newest - 1
  if lower < next then some next else none

/-- Where a walk goes on after the page: nowhere unless the page was full. -/
def onward (active : Active) : Option Int :=
  if active.limit ≤ active.lines && !active.last then
    active.newest.bind (nextFrom active.walk.lower)
  else none

/-- The targets of a page that get a window, with the folded names that had one before. -/
def unseen (found seen : List Str) : List Str × List Str :=
  found.foldl
    (fun (seen, fresh) target =>
      if isChannelTarget target || seen.contains (host.fold target) then (seen, fresh)
      else (seen ++ [host.fold target], fresh ++ [target]))
    (seen, [])

/-- Where the window of a target named starts. -/
def windowStart (origin : Int) (anchors : Anchors) (target : Str) : Int :=
  match anchors.get? (host.fold target) with
  | some anchor => anchor - BOUND_FUZZ_MS
  | none => origin

def endedTargets (s : Backfill) (active : Active) (origin : Int) (anchors : Anchors)
    (seen : List Str) : Backfill :=
  let walk := active.walk
  let (seen, fresh) := unseen host active.found.keys seen
  let s := fresh.foldl
    (fun s target => s.push (windowStart host origin anchors target) walk.upper
      (.between target 0 (some walk.made))) s
  match onward active with
  | none => s
  | some lower =>
    { s with
      queue := { walk with
        lower := lower
        pages := walk.pages + 1
        kind := .targets origin anchors seen } :: s.queue }

def caughtUp (target : Str) (fetched pages : Nat) : Str :=
  "History backfill: ".toList ++ target ++ " caught up ".toList ++ decimal fetched ++
    (if fetched = 1 then " line".toList else " lines".toList) ++
    if 1 < pages then " in ".toList ++ decimal pages ++ " pages".toList else []

def endedBetween (s : Backfill) (active : Active) (target : Str) (fetched : Nat)
    (spawner : Option Nat) : Backfill :=
  let walk := active.walk
  let fetched := fetched + active.messages
  match onward active with
  | none =>
    if 0 < fetched then
      { s with logged := s.logged ++ [(.info, caughtUp target fetched (walk.pages + 1))] }
    else s
  | some lower =>
    { s with
      queue := { walk with
        lower := lower
        pages := walk.pages + 1
        kind := .between target fetched spawner } :: s.queue }

def neverClosed (walk : Walk) : Str :=
  "History backfill: ".toList ++ walk.about.getD "TARGETS".toList ++
    ": the page never closed; giving up".toList

def notHonoured : Str :=
  "History backfill: the network answered no CHATHISTORY; not asking again".toList

def ended (s : Backfill) (active : Active) (how : QueryEnd) : Backfill :=
  match how with
  | .timeout =>
    if active.ref.any (· ≠ []) then
      { s with logged := s.logged ++ [(.warn, neverClosed active.walk)] }
    else if s.unanswered + 1 < UNANSWERED_STRIKES then { s with unanswered := s.unanswered + 1 }
    else
      { s with
        unanswered := s.unanswered + 1
        available := false
        queue := []
        logged := s.logged ++ [(.warn, notHonoured)] }
  | .error | .postponed => s
  | .replied =>
    match active.walk.kind with
    | .targets origin anchors seen => s.endedTargets host active origin anchors seen
    | .between target fetched spawner => s.endedBetween active target fetched spawner

/-- The router's verdict on a request; it is for nobody once the page was given up. -/
def onEnd (s : Backfill) (request : Nat) (how : QueryEnd) : Backfill :=
  match s.active with
  | none => s
  | some active =>
    if active.request ≠ request then s
    else (({ s with active := none } : Backfill).ended host active how).next host

end Backfill

/-- A line of a target's history, by what it holds. -/
structure Line (α : Type) where
  time : Int
  message : Bool
  body : α
deriving DecidableEq

/-- What a network keeps: each target's lines, and the targets with a line before a time, each
with its newest; `marksEnd` is whether it says that a page is the last. -/
structure Network (α : Type) where
  history : Str → List (Line α)
  conversations : Int → List (Str × Int)
  marksEnd : Bool
  history_sorted : ∀ key, (history key).Pairwise (·.time ≤ ·.time)
  conversations_sorted : ∀ upper, (conversations upper).Pairwise (·.2 ≤ ·.2)
  conversations_named : ∀ upper, ∀ c ∈ conversations upper, c.1 ≠ []

/-- A line within a batch that answers a request. -/
inductive Piece (α : Type)
  | line (line : Line α)
  | entry (target : Str) (time : Int)
deriving DecidableEq

def Piece.time {α : Type} : Piece α → Int
  | .line l => l.time
  | .entry _ time => time

namespace Network

variable {α : Type} (net : Network α) (host : Host)

/-- All that answers a request with such an upper bound, whatever its lower one. -/
def pieces (about : Option Str) (upper : Int) : List (Piece α) :=
  match about with
  | some target => ((net.history (host.fold target)).filter (·.time < upper)).map .line
  | none => (net.conversations upper).map fun c => .entry c.1 c.2

/-- What a request is answered with. -/
def answer (r : Request) : List (Piece α) :=
  Cursor.page Piece.time (net.pieces host r.about r.upper) r.limit r.lower

/-- Whether the answer is said to be the last page. -/
def isLast (r : Request) : Bool :=
  net.marksEnd &&
    decide (((net.pieces host r.about r.upper).filter (r.lower < ·.time)).length ≤ r.limit)

end Network

/-- The router's query: the last request it was given, and the batch taken for its answer. -/
structure Query where
  request : Nat
  about : Option Str
  batchRef : Option Str

/-- The walks, the router, and the socket: the requests not yet answered, the batch being sent
for the first of them, and how many batches there were. `answered` are the requests whose
batch closed as a query's, `abandoned` the walks that were suspended with a request out. -/
structure World (α : Type) where
  backfill : Backfill
  query : Option Query
  pending : List Request
  batch : Option (Str × List (Piece α))
  batches : Nat
  answered : List Request
  abandoned : List Nat

inductive Event
  | joined (target : Str) (joinedAtMs : Int) (anchor : Option Int)
  | registered (nowMs : Int) (anchors : Anchors)
  | gap (channels : List Str) (endMs : Int) (anchors : Anchors)
  | serve
  | suspend
  | resume

namespace World

variable {α : Type} (net : Network α) (host : Host)

def init : World α := ⟨newBackfill, none, [], none, 0, [], []⟩

/-- What was sent goes on the wire, and the last of it is the router's query. -/
def act (w : World α) (backfill : Backfill) : World α :=
  let sent := backfill.sent.drop w.backfill.sent.length
  { w with
    backfill := backfill
    pending := w.pending ++ sent
    query := match sent.getLast? with
      | some r => some ⟨r.number, r.about, none⟩
      | none => w.query }

/-- A BATCH + line: the router takes the first batch of its type that names its target. -/
def batchStart (w : World α) (r : Request) : World α :=
  let ref := decimal w.batches
  let type := if r.about.isSome then chathistoryType else targetsType
  let w := { w with batch := some (ref, net.answer host r), batches := w.batches + 1 }
  match w.query with
  | none => w
  | some query =>
    if query.batchRef.isNone && Backfill.mine host query.about type r.about then
      { w with
        query := some { query with batchRef := some ref }
        backfill := w.backfill.onBatchStart host ref type r.about (net.isLast host r) }
    else w

/-- A line inside a batch. -/
def batchLine (w : World α) (ref : Str) (piece : Piece α) (rest : List (Piece α)) : World α :=
  let w := { w with batch := some (ref, rest) }
  if w.query.any (·.batchRef = some ref) then
    match piece with
    | .line line =>
      if w.backfill.isOurs ref then
        { w with backfill := w.backfill.onBatchLine ref (some line.time) line.message }
      else w
    | .entry target time =>
      let backfill := w.backfill.onTargetsLine ref target time
      { w with
        backfill := if backfill.isOurs ref then backfill.onBatchLine ref none false else backfill }
  else w

/-- A BATCH - line: the query whose batch it is has its reply. -/
def batchEnd (w : World α) (r : Request) (ref : Str) (pending : List Request) : World α :=
  let w := { w with pending := pending, batch := none }
  match w.query with
  | none => w
  | some query =>
    if query.batchRef = some ref then
      ({ w with query := none, answered := w.answered ++ [r] } : World α).act
        (w.backfill.onEnd host query.request .replied)
    else w

/-- The next line of the answer to the oldest request. -/
def serve (w : World α) : World α :=
  match w.pending with
  | [] => w
  | r :: pending =>
    match w.batch with
    | none => w.batchStart net host r
    | some (ref, piece :: rest) => w.batchLine ref piece rest
    | some (ref, []) => w.batchEnd host r ref pending

/-- The link drops: the router forgets its query, and the page is to be asked for again. -/
def suspend (w : World α) : World α :=
  { w with
    backfill := w.backfill.suspend
    query := none
    abandoned := w.abandoned ++ (w.backfill.active.map (·.walk.made)).toList }

def step (w : World α) : Event → World α
  | .joined target joinedAtMs anchor =>
    w.act (w.backfill.channelJoined host target joinedAtMs anchor)
  | .registered nowMs anchors => w.act (w.backfill.registered host nowMs anchors)
  | .gap channels endMs anchors => w.act (w.backfill.gap host channels endMs anchors)
  | .serve => w.serve net host
  | .suspend => w.suspend
  | .resume => w.act (w.backfill.resume host)

end World

end Lurker.Irc.History
