import Lurker.Irc.Backfill
import Lurker.Irc.Line

/-!
# Who a reply is for

Lurker, the user and the clients attached share one connection, and a reply does not say
who asked. Each query sent is kept until its reply, and a line from the server is for the
oldest query it can answer: by the name it carries, by the batch it is in, or by turn, where
only one query of the kind is out. A line that ends a query may leave it a claim on the
next.
-/

namespace Lurker.Replies

open E2e (isChannelTarget)
open Irc (Str)
open Irc.History (QueryEnd)

attribute [local instance] Irc.str_lawfulBEq

inductive Asker
  | lurker
  | user
  | client (id : Nat)
deriving DecidableEq

def Asker.isClient : Asker → Bool
  | .client _ => true
  | _ => false

/-- Who a line is for: an asker, nobody here, or whoever it comes to unasked. -/
inductive Owner
  | asker (who : Asker)
  | unasked
  | nobody
deriving DecidableEq

inductive Form
  | who
  | whois
  | whowas
  | list
  | names
  | mode
  | modelist
  | umode
  | topic
  | ison
  | userhost
  | away
  | accept
  | metadata
  | chathistory
deriving DecidableEq

/-- The kinds whose replies name nothing to match them by. -/
def WAITS : List Form := [.who, .list, .ison, .userhost, .umode, .accept]

/-- The end numeric that may come right after an error. -/
def END_AFTER_ERROR : Form → Option Str
  | .who => some "315".toList
  | .whois => some "318".toList
  | .whowas => some "369".toList
  | .list => some "323".toList
  | .names => some "366".toList
  | _ => none

/-- A list mode's entry and its end, by mode letter. -/
def LIST_MODE_NUMERICS : Char → Option (Str × Str)
  | 'b' => some ("367".toList, "368".toList)
  | 'e' => some ("348".toList, "349".toList)
  | 'I' => some ("346".toList, "347".toList)
  | 'q' => some ("728".toList, "729".toList)
  | _ => none

/-- What a query is known by. A mode letter stands for one of the lists above. -/
structure Spec where
  form : Form
  command : Str
  targets : List Str
  ends : List Str
  channel : Str
  letter : Option Char
  anyChannel : Bool
  abort : Option (Str × List Str)
  batchRef : Str
  sub : Str
  inner : List Str
deriving DecidableEq

def spec (form : Form) (command : Str) : Spec :=
  ⟨form, command, [], [], [], none, false, none, [], [], []⟩

/-- A query, by its number among those made. Its asker is none once that client detached. -/
structure Query extends Spec where
  id : Nat
  asker : Option Asker
  line : Str
  started : Bool
  sent : Bool
deriving DecidableEq

/-- The network as the connection knows it, and what the send queue does with a line. -/
structure Env where
  fold : Str → Str
  isJoined : Str → Bool
  ownNick : Str
  listModes : List Char
  prefixModes : List Char
  canSend : Bool
  /-- Whether the queue writes a query's line at once. -/
  goes : Nat → Bool
  /-- `ircLineParser`: the command and the params. -/
  parse : Str → Option (Str × List Str)
  /-- `toUpperCase` -/
  upper : Str → Str

section Classify

variable (env : Env)

def foldAll (names : List Str) : List Str := (names.filter (· ≠ [])).map env.fold

/-- A list of names, or `*` for none. -/
def orStar (list : Str) : Str := if list = [] then ['*'] else list

def isLetter (c : Char) : Bool := 'a'.toNat ≤ c.toNat && c.toNat ≤ 'z'.toNat ||
  'A'.toNat ≤ c.toNat && c.toNat ≤ 'Z'.toNat

/-- The letter of a list query's mode argument. -/
def modeLetter : Str → Option Char
  | [c] => if isLetter c then some c else none
  | ['+', c] => if isLetter c then some c else none
  | _ => none

def classifyMode (command : Str) (params : List Str) : Option Spec :=
  let target := params.headD []
  if isChannelTarget target then
    match params with
    | [_] => some { spec .mode command with targets := foldAll env [target], channel := target }
    | [_, mode] =>
      (modeLetter mode).bind fun letter =>
        (LIST_MODE_NUMERICS letter).bind fun numerics =>
          if letter = 'q' ∧ 'q' ∉ env.listModes then none
          else
            some { spec .modelist command with
              targets := foldAll env [target]
              channel := target
              letter := some letter
              abort := some (numerics.2, [target]) }
    | _ => none
  else
    match params with
    | [] => some (spec .umode command)
    | [_] => if env.fold target = env.fold env.ownNick then some (spec .umode command) else none
    | _ => none

/-- The query a command is, by the command in capitals. -/
def classifyCommand (command : Str) (params : List Str) : Option Spec :=
  let first := params.headD []
  let second := (params.drop 1).headD []
  if command = "WHO".toList then
    some { spec .who command with
      targets := foldAll env [first]
      abort := some ("315".toList, [orStar first]) }
  else if command = "WHOIS".toList then
    let list := params.getLastD []
    let nicks := list.splitOn ','
    some { spec .whois command with
      targets := foldAll env (nicks ++ [list] ++ if 1 < params.length then [first] else [])
      ends := foldAll env [list, nicks.getLastD []]
      abort := some ("318".toList, [orStar list]) }
  else if command = "WHOWAS".toList then
    some { spec .whowas command with
      targets := foldAll env (first.splitOn ',' ++ [first])
      abort := some ("369".toList, [orStar first]) }
  else if command = "LIST".toList then
    some { spec .list command with
      targets := foldAll env (first.splitOn ',')
      abort := some ("323".toList, []) }
  else if command = "NAMES".toList then
    some { spec .names command with
      targets := foldAll env (if first = [] then [['*']] else first.splitOn ',' ++ [first])
      anyChannel := first = []
      abort := some ("366".toList, [orStar first]) }
  else if command = "MODE".toList then classifyMode env command params
  else if command = "TOPIC".toList then
    match params with
    | [] => some (spec .topic command)
    | [_] =>
      if isChannelTarget first then
        some { spec .topic command with targets := foldAll env [first], channel := first }
      else none
    | _ => none
  else if command = "ISON".toList then some (spec .ison command)
  else if command = "USERHOST".toList then some (spec .userhost command)
  else if command = "AWAY".toList then some (spec .away command)
  else if command = "ACCEPT".toList then
    if first = ['*'] then some { spec .accept command with abort := some ("282".toList, []) }
    else none
  else if command = "CHATHISTORY".toList then
    let sub := env.upper first
    if sub = [] then none
    else
      let target := if sub = "TARGETS".toList then [] else second
      some { spec .chathistory command with targets := foldAll env [target], sub := sub }
  else if command = "METADATA".toList then
    let sub := env.upper second
    if first = [] ∨ sub = [] then none
    else
      let own := if first = ['*'] then [env.ownNick] else []
      some { spec .metadata command with targets := foldAll env (first :: own), sub := sub }
  else none

def classify (line : Str) : Option Spec :=
  (env.parse line).bind fun (command, params) => classifyCommand env (env.upper command) params

end Classify

/-- Numerics that name a nick where a WHOIS line does and are not of a WHOIS. -/
def NOT_WHOIS : List Str :=
  ["302", "303", "305", "306", "314", "315", "321", "322", "323", "324", "329", "331", "332", "333",
    "341", "346", "347", "348", "349", "352", "353", "354", "366", "367", "368", "369"].map
    String.toList

def WHOIS_OTHER_REPLIES : List Str := ["276", "671", "760"].map String.toList

def WHOWAS_REPLIES : List Str := ["312", "314", "330", "338"].map String.toList

/-- Errors that name the command they refuse. -/
def COMMAND_ERRORS : List Str := ["263", "400", "421", "461"].map String.toList

/-- Errors that name its target. -/
def TARGET_ERRORS : List Str :=
  ["401", "402", "403", "407", "442", "476", "479", "482"].map String.toList

/-- Lines that only ever answer a query. -/
def QUERY_ONLY : List Str :=
  ["276", "302", "303", "305", "306", "307", "310", "311", "312", "313", "314", "315", "317", "318",
    "319", "320", "321", "322", "323", "330", "335", "337", "338", "343", "344", "346", "347", "348",
    "349", "352", "354", "367", "368", "369", "378", "379", "406", "416", "671", "728", "729"].map
    String.toList

/-- Three digits, the first a 3. -/
def isThreeHundred : Str → Bool
  | ['3', a, b] => a.isDigit && b.isDigit
  | _ => false

def isWhoisReply (command : Str) : Bool :=
  isThreeHundred command && !NOT_WHOIS.contains command || WHOIS_OTHER_REPLIES.contains command

/-- A line from the server, as the connection hands it on. -/
structure Line where
  text : Str
  command : Str
  params : List Str
  source : Option Str

def Line.param (l : Line) (i : Nat) : Str := l.params.getD i []

/-- The `batch=` tag of a line. -/
def batchTagOf (line : Str) : Option Str :=
  match line with
  | '@' :: rest =>
    let tag := ((rest.takeWhile (· ≠ ' ')).splitOn ';').find? ("batch=".toList.isPrefixOf ·)
    (tag.map (·.drop 6)).filter (· ≠ [])
  | _ => none

def Line.batch (l : Line) : Option Str := batchTagOf l.text

inductive Role
  | body
  | ends
deriving DecidableEq

section Roles

variable (env : Env) (l : Line)

/-- The query has heard something. -/
def hears (q : Query) (role : Role) : Option (Role × Query) := some (role, { q with started := true })

def bodyIf (q : Query) (cond : Bool) : Option (Role × Query) := if cond then hears q .body else none

def endIf (q : Query) (cond : Bool) : Option (Role × Query) := if cond then hears q .ends else none

/-- A line names one of the targets where a param stands. -/
def namesAt (q : Query) (i : Nat) : Bool := q.targets.contains (env.fold (l.param i))

def is (numeric : String) : Bool := l.command = numeric.toList

/-- A batch reference opened or closed, after its sign. -/
def opens : Option Str :=
  match l.param 0 with
  | '+' :: ref => some ref
  | _ => none

def closes : Option Str :=
  match l.param 0 with
  | '-' :: ref => some ref
  | _ => none

def metadataRole (q : Query) : Option (Role × Query) :=
  if is l "BATCH" then
    match opens l with
    | some ref =>
      if q.batchRef ≠ [] then none
      else
        let type := l.param 1
        let mine := type = "metadata-subs".toList && q.sub = "SUBS".toList ||
          type = "metadata".toList &&
            (["GET", "LIST", "SYNC", "CLEAR"].map String.toList).contains q.sub && namesAt env l q 2
        if mine then hears { q with batchRef := ref } .body else none
    | none => endIf q (closes l = some q.batchRef)
  else if q.batchRef ≠ [] then
    bodyIf q (l.batch = some q.batchRef &&
      (is l "761" || is l "766" || is l "772" || is l "METADATA"))
  else if (is l "761" || is l "766") && q.sub = "SET".toList then endIf q (namesAt env l q 1)
  else if is l "770" then endIf q (q.sub = "SUB".toList)
  else if is l "771" then endIf q (q.sub = "UNSUB".toList)
  else if is l "774" then endIf q (q.sub = "SYNC".toList && namesAt env l q 1)
  else none

/-- The line is inside the query's batch, or in one opened inside it. -/
def insideBatch (q : Query) : Bool :=
  l.batch = some q.batchRef || q.inner.contains (l.batch.getD [])

def chathistoryRole (q : Query) : Option (Role × Query) :=
  if is l "BATCH" then
    match opens l with
    | some ref =>
      if q.batchRef = [] then
        let type := l.param 1
        let mine :=
          if q.sub = "TARGETS".toList then decide (type = "draft/chathistory-targets".toList)
          else type = "chathistory".toList && namesAt env l q 2
        if mine then hears { q with batchRef := ref } .body else none
      else if insideBatch l q then hears { q with inner := q.inner.insert ref } .body
      else none
    | none =>
      match closes l with
      | none => none
      | some ref =>
        if q.batchRef = ref then hears q .ends
        else if q.inner.contains ref then hears { q with inner := q.inner.erase ref } .body
        else none
  else bodyIf q (q.batchRef ≠ [] && insideBatch l q)

/-- What a line is to a query. -/
def roleOf (q : Query) : Option (Role × Query) :=
  match q.form with
  | .who =>
    if is l "352" || is l "354" || is l "416" then hears q .body else endIf q (is l "315")
  | .whois =>
    if is l "318" then
      if q.ends.contains (env.fold (l.param 1)) then hears q .ends else bodyIf q (namesAt env l q 1)
    else if !isWhoisReply l.command || !namesAt env l q 1 then none
    else bodyIf q (!is l "301" || q.started)
  | .whowas =>
    if is l "369" then endIf q (namesAt env l q 1)
    else bodyIf q (WHOWAS_REPLIES.contains l.command && namesAt env l q 1)
  | .list => if is l "321" || is l "322" then hears q .body else endIf q (is l "323")
  | .names =>
    if is l "353" then bodyIf q (q.anyChannel || namesAt env l q 2)
    else endIf q (is l "366" && namesAt env l q 1)
  | .mode => endIf q (is l "324" && namesAt env l q 1)
  | .modelist =>
    match q.letter.bind LIST_MODE_NUMERICS with
    | none => none
    | some (item, ending) =>
      if !namesAt env l q 1 then none
      else if l.command = item then hears q .body
      else endIf q (l.command = ending)
  | .umode => endIf q (is l "221")
  | .topic => endIf q ((is l "331" || is l "332") && namesAt env l q 1)
  | .ison => endIf q (is l "303")
  | .userhost => endIf q (is l "302")
  | .away => endIf q (is l "305" || is l "306")
  | .accept => if is l "281" then hears q .body else endIf q (is l "282")
  | .metadata => metadataRole env l q
  | .chathistory => chathistoryRole env l q

/-- A FAIL CHATHISTORY may name the subcommand and a channel. -/
def failFits (q : Query) : Bool :=
  let sub := env.upper (l.param 2)
  (sub = [] || sub = q.sub) && (!isChannelTarget (l.param 3) || namesAt env l q 3)

def isErrorFor (q : Query) : Bool :=
  if COMMAND_ERRORS.contains l.command then env.upper (l.param 1) = q.command
  else if is l "FAIL" then
    env.upper (l.param 0) = q.command && (q.form ≠ .chathistory || failFits env l q)
  else if TARGET_ERRORS.contains l.command then namesAt env l q 1
  else if is l "431" then q.form = .whois || q.form = .whowas
  else if is l "406" then q.form = .whowas && namesAt env l q 1
  else false

/-- The line that a line which ended a query may still be followed by. -/
def trailerOf (q : Query) : Option Str :=
  match q.form with
  | .mode => some "329".toList
  | .topic => if is l "332" then some "333".toList else none
  | _ => none

end Roles

def endAfterError (q : Query) : Option Str :=
  match q.form with
  | .modelist => (q.letter.bind LIST_MODE_NUMERICS).map Prod.snd
  | form => END_AFTER_ERROR form

/-- Whether a line is the one a query that ended is owed. -/
def settles (env : Env) (l : Line) (q : Query) (wants : Str) : Bool :=
  l.command = wants &&
    (q.form = .who || q.form = .list || l.param 1 = ['*'] ||
      (q.targets.contains (env.fold (l.param 1)) || q.ends.contains (env.fold (l.param 1))))

/-- What happened, in order. -/
inductive Out
  /-- A line that is no query was written. -/
  | wrote (line : Str)
  /-- A query's line was handed to the send queue, went, or was taken back out of it. -/
  | queued (id : Nat) (line : Str)
  | went (id : Nat)
  | cancelled (id : Nat)
  /-- Its sender was told that it did not go. -/
  | dropped (id : Nat)
  /-- A query ended. -/
  | ended (id : Nat) (how : QueryEnd)
  /-- The line after its end was its own. -/
  | trailed (id : Nat)
  /-- A client was sent a query's end numeric, or an answer from the cache. -/
  | aborted (id : Nat) (numeric : Str) (params : List Str)
  | cached (id : Nat) (lines : List Str)
  /-- A query went with its client, or with the socket. -/
  | withdrawn (id : Nat)
  | gone (id : Nat)
deriving DecidableEq

structure Router where
  /-- The queries out, the sent ones in the order they went. -/
  wire : List Query
  waiting : List Query
  /-- The query that ended on the last line, with the line it is owed. -/
  settle : Option (Query × Str)
  /-- By folded channel, its last 324 and 329. -/
  modes : OrderedMap Str (Str × Option Str)
  /-- The batches of queries that timed out inside one, with their askers. -/
  orphanBatches : OrderedMap Str (Option Asker)
  /-- The queries made, by number. -/
  asked : List Query
  log : List Out

def newRouter : Router := ⟨[], [], none, .empty, .empty, [], []⟩

/-- How many orphaned batches are kept. -/
def ORPHANS : Nat := 100

namespace Router

variable (env : Env)

def note (r : Router) (outs : List Out) : Router := { r with log := r.log ++ outs }

/-- A client's end numeric, for a query that has one. -/
def abortOf (q : Query) : List Out :=
  if q.asker.any Asker.isClient then
    match q.abort with
    | some (numeric, params) => [.aborted q.id numeric params]
    | none => []
  else []

def takeOffWire (r : Router) (id : Nat) : Router :=
  { r with wire := r.wire.filter (·.id ≠ id) }

/-- A query waits for another: of its kind, or a client's MODE behind one for its channel. -/
def blocks (other q : Query) : Bool :=
  if WAITS.contains q.form then other.form = q.form
  else if q.form = .mode && q.asker.any Asker.isClient then
    other.form = .mode && env.fold other.channel = env.fold q.channel
  else false

/-- What is out, and what is owed a line. -/
def ahead (r : Router) : List Query := r.wire ++ (r.settle.map Prod.fst).toList

def mustWait (r : Router) (q : Query) : Bool := r.ahead.any (blocks env · q)

/-- A line has gone: its query is the last on the wire. -/
def markSent (r : Router) (q : Query) : Router :=
  { r with
    wire := r.wire.filter (·.id ≠ q.id) ++ [{ q with sent := true }]
    log := r.log ++ [.went q.id] }

def dispatchNow (r : Router) (q : Query) : Router :=
  if r.mustWait env q then { r with waiting := r.waiting ++ [q] }
  else if !env.canSend then r.note (abortOf q ++ [.ended q.id .error])
  else
    let r := ({ r with wire := r.wire ++ [q] } : Router).note [.queued q.id q.line]
    if env.goes q.id then r.markSent q else r

/-- The lines that answer a client's MODE of a channel. -/
def cachedFor (r : Router) (q : Query) : Option (List Str) :=
  if q.form = .mode && q.asker.any Asker.isClient && env.isJoined q.channel then
    (r.modes.get? (env.fold q.channel)).map fun (mode, created) => mode :: created.toList
  else none

/-- Lurker's own query of the kind, still in the send queue, steps aside for another's. -/
def stepsAside (q other : Query) : Bool :=
  q.asker ≠ some .lurker && (!other.sent && other.asker = some .lurker && blocks env other q)

def dispatch (r : Router) (q : Query) : Router :=
  if q.asker = none then r.note [.withdrawn q.id]
  else
    match r.cachedFor env q with
    | some lines => r.note [.cached q.id lines]
    | none =>
      let aside := r.wire.filter (stepsAside env q)
      let r := ({ r with wire := r.wire.filter (!stepsAside env q ·) } : Router).note
        (aside.map (.cancelled ·.id))
      -- What stepped aside is Lurker's: no cache answers it, and nothing steps aside for it.
      aside.foldl (fun r other => r.dispatchNow env other) (r.dispatchNow env q)

/-- Every waiting query goes out, or waits again, in order. -/
def releaseWaiting (r : Router) : Router :=
  r.waiting.foldl (fun r q => r.dispatch env q) { r with waiting := [] }

def send (r : Router) (asker : Asker) (line : Str) : Router :=
  match classify env line with
  | none => r.note [.wrote line]
  | some found =>
    let q : Query := ⟨found, r.asked.length, some asker, line, false, false⟩
    ({ r with asked := r.asked ++ [q] } : Router).dispatch env q

/-- The send queue wrote the line of a query. -/
def wentOut (r : Router) (id : Nat) : Router :=
  match r.wire.find? fun q => q.id = id && !q.sent with
  | some q => r.markSent q
  | none => r

def changesShownModes (modes : Str) : Bool :=
  modes.any fun c => c ≠ '+' && c ≠ '-' && !env.prefixModes.contains c && !env.listModes.contains c

/-- The cached lines that stay true. -/
def noteModes (r : Router) (l : Line) : Router :=
  let key := env.fold (l.param 1)
  if is l "324" then
    if key = [] then r
    else { r with modes := r.modes.set key (l.text, (r.modes.get? key).bind Prod.snd) }
  else if is l "329" then
    match r.modes.get? key with
    | some (mode, _) => { r with modes := r.modes.set key (mode, some l.text) }
    | none => r
  else if is l "MODE" then
    if isChannelTarget (l.param 0) && changesShownModes env (l.param 1) then
      { r with modes := r.modes.delete (env.fold (l.param 0)) }
    else r
  else if is l "JOIN" then
    if l.source.any fun source => source ≠ [] && env.fold source = env.fold env.ownNick then
      { r with
        modes := ((l.param 0).splitOn ',').foldl (fun m channel => m.delete (env.fold channel))
          r.modes }
    else r
  else r

def finish (r : Router) (q : Query) (wants : Option Str) (how : QueryEnd) : Router :=
  let r := (r.takeOffWire q.id).note [.ended q.id how]
  match wants with
  | none => r.releaseWaiting env
  | some wants => { r with settle := some (q, wants) }

def ownerOf (asker : Option Asker) : Owner := asker.elim .nobody .asker

/-- A line of a batch whose query timed out before it closed. -/
def claimOrphan (r : Router) (l : Line) : Option (Router × Owner) :=
  let ref := if is l "BATCH" && (closes l).isSome then closes l else l.batch
  (ref.filter (· ≠ [])).bind fun ref =>
    (r.orphanBatches.get? ref).map fun asker =>
      (if is l "BATCH" then { r with orphanBatches := r.orphanBatches.delete ref } else r,
        ownerOf asker)

/-- The oldest query sent that the line is a part of. -/
def hearer (r : Router) (l : Line) : Option (Query × Role × Query) :=
  r.wire.findSome? fun q => if q.sent then (roleOf env l q).map (q, ·) else none

def claim (r : Router) (l : Line) : Option (Router × Owner) :=
  match r.hearer env l with
  | some (q, .body, q') =>
    some ({ r with wire := r.wire.map fun x => if x.id = q.id then q' else x }, ownerOf q.asker)
  | some (q, .ends, q') =>
    some (r.finish env q' (trailerOf l q) (if is l "774" then .postponed else .replied),
      ownerOf q.asker)
  | none =>
    (r.wire.find? fun q => q.sent && isErrorFor env l q).map fun q =>
      (r.finish env q (endAfterError q) .error, ownerOf q.asker)

/-- A line nobody claimed. -/
def unclaimed (l : Line) : Owner := if QUERY_ONLY.contains l.command then .nobody else .unasked

/-- A line, by whoever it is for when the last query's end is not waiting on it. -/
def claimed (r : Router) (l : Line) : Router × Owner :=
  ((r.claimOrphan l).orElse fun _ => r.claim env l).getD (r, unclaimed l)

def noteServerLine (r : Router) (l : Line) : Router × Owner :=
  let r := r.noteModes env l
  match r.settle with
  | none => r.claimed env l
  | some (q, wants) =>
    let r := { r with settle := none }
    let (r, owner) :=
      if settles env l q wants then (r.note [.trailed q.id], ownerOf q.asker)
      else r.claimed env l
    (r.releaseWaiting env, owner)

/-- The wait on the line after an end is over. -/
def settleTimeout (r : Router) : Router :=
  if r.settle.isSome then ({ r with settle := none } : Router).releaseWaiting env else r

/-- A query sent has heard nothing for too long. -/
def timeout (r : Router) (id : Nat) : Router :=
  match r.wire.find? fun q => q.id = id && q.sent with
  | none => r
  | some q =>
    let orphans := if ORPHANS ≤ r.orphanBatches.size then .empty else r.orphanBatches
    (({ r.takeOffWire id with
      orphanBatches := if q.batchRef ≠ [] then orphans.set q.batchRef q.asker
        else r.orphanBatches } : Router).note
          (abortOf q ++ [.ended q.id .timeout])).releaseWaiting env

def reset (r : Router) : Router :=
  let ended := (r.settle.map Prod.fst).toList ++ r.wire ++ r.waiting
  let unsent := (r.wire.filter (!·.sent)).flatMap fun q => [.cancelled q.id, .dropped q.id]
  { r with
    wire := []
    waiting := []
    settle := none
    modes := .empty
    orphanBatches := .empty
    log := r.log ++ unsent ++ ended.flatMap fun q => abortOf q ++ [.gone q.id] }

def isOf (client : Nat) (q : Query) : Bool := q.asker = some (.client client)

/-- A client's query, with nobody to hear its reply. -/
def orphan (client : Nat) (q : Query) : Query :=
  if isOf client q then { q with asker := none } else q

/-- A client's queries that have not gone are withdrawn, and nobody hears the replies to the
others. -/
def withdraw (r : Router) (client : Nat) : Router :=
  ({ r with
    waiting := r.waiting.filter (!isOf client ·)
    wire := (r.wire.filter fun q => !(isOf client q && !q.sent)).map (orphan client)
    settle := r.settle.map fun (q, wants) => (orphan client q, wants) } : Router).note
      ((r.waiting.filter (isOf client)).flatMap (fun q => [.withdrawn q.id]) ++
        (r.wire.filter fun q => isOf client q && !q.sent).flatMap
          fun q => [.cancelled q.id, .withdrawn q.id])

/-- A client detached. -/
def dropClient (r : Router) (client : Nat) : Router :=
  if r.wire.any fun q => isOf client q && !q.sent then (r.withdraw client).releaseWaiting env
  else r.withdraw client

end Router

inductive Event
  | send (asker : Asker) (line : Str)
  | went (id : Nat)
  | line (l : Line)
  | settleTimeout
  | timeout (id : Nat)
  | reset
  | dropClient (client : Nat)

/-- A step, in the network as it is known at the time. -/
def Router.step (r : Router) : Env × Event → Router
  | (env, .send asker line) => r.send env asker line
  | (_, .went id) => r.wentOut id
  | (env, .line l) => (r.noteServerLine env l).1
  | (env, .settleTimeout) => r.settleTimeout env
  | (env, .timeout id) => r.timeout env id
  | (_, .reset) => r.reset
  | (env, .dropClient client) => r.dropClient env client

end Lurker.Replies
