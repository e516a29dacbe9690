import Lurker.Irc.Membership
import Lurker.Lib.Run

/-!
# The server a connection is in channels on

The server takes our commands in the order they were sent and answers each JOIN
of a channel we are not in, and each PART. A JOIN of a channel we are in is
answered by nothing. KICKs come at any time, answers are read in the order they
were given, and a lost socket takes everything under way with it.
-/
namespace Lurker.Irc

/-- What a line asks of the server, one channel at a time. -/
inductive Command where
  | join (name : Str)
  | part (name : Str)
  | partAll
  deriving DecidableEq, Repr

/-- 405, 471, 473, 474, 475 and 470. -/
inductive Refusal where
  | tooManyChannels
  | channelIsFull
  | inviteOnly
  | banned
  | badKey
  | forwarded
  deriving DecidableEq, Repr

/-- What the server has done and we have not read yet. A command it answers with nothing, and the
end of a `JOIN 0`, stand in the sequence without a line. -/
inductive Reply where
  | joined (name : Str)
  | refused (refusal : Refusal) (name : Str)
  | silent (name : Str)
  | parted (name : Str)
  | notOn (name : Str)
  | swept
  | kicked (name : Str)
  deriving DecidableEq, Repr

/-- A spelling the server can use for one channel. -/
def IsName (name : Str) : Prop := name ≠ [] ∧ ',' ∉ name

instance (name : Str) : Decidable (IsName name) := inferInstanceAs (Decidable (_ ∧ _))

/-- The commands of a JOIN with this parameter. -/
def joinCommands (param : Str) : List Command :=
  if param = ['0'] then [.partAll] else (pieces ',' param).map .join

def partCommands (param : Str) : List Command := (pieces ',' param).map .part

/-- The commands a server reads in a raw line. -/
def serverCommands (line : Str) : List Command :=
  match serverReads line with
  | some (command, param :: _) =>
    if command.map Char.toUpper = "JOIN".toList then joinCommands param
    else if command.map Char.toUpper = "PART".toList then partCommands param
    else []
  | _ => []

/-- The commands that are noted of a raw line. -/
def notedCommands (line : Str) : List Command :=
  match membershipWords line with
  | none => []
  | some (verb, targets) =>
    if verb = "PART".toList then partCommands targets else joinCommands targets

/-- A connection's membership, the server's, and what is under way between them. -/
structure Net where
  client : Membership
  /-- Commands the server has not taken yet. -/
  upstream : List Command
  /-- The channels the server has us in, folded. -/
  server : Finset Str
  /-- What the server has done and we have not read yet. -/
  downstream : List Reply
  /-- The channels the server had us in when it gave the last answer we have read. -/
  told : Finset Str

-- the network's fold, and `toLowerCase` of the platform
variable (fold lower : Str → Str)

/-- What taking a command makes of being in a channel, a JOIN being accepted. -/
def Command.outcome (k : Str) (here : Bool) : Command → Bool
  | .join name => if fold name = k then true else here
  | .part name => if fold name = k then false else here
  | .partAll => false

/-- What an answer we have not read yet makes of it, as far as we know: a JOIN accepted, and no
KICK. -/
def Reply.outcome (k : Str) (here : Bool) : Reply → Bool
  | .joined name => if fold name = k then true else here
  | .refused _ name => if fold name = k then true else here
  | .silent name => if fold name = k then true else here
  | .parted name => if fold name = k then false else here
  | .notOn name => if fold name = k then false else here
  | .swept => false
  | .kicked _ => here

/-- The JOINs (true) and PARTs (false) of a channel among replies and commands. -/
def Reply.asks (k : Str) : Reply → Option Bool
  | .joined name => if fold name = k then some true else none
  | .refused _ name => if fold name = k then some true else none
  | .silent name => if fold name = k then some true else none
  | .parted name => if fold name = k then some false else none
  | .notOn name => if fold name = k then some false else none
  | .swept => some false
  | .kicked _ => none

def Command.asks (k : Str) : Command → Option Bool
  | .join name => if fold name = k then some true else none
  | .part name => if fold name = k then some false else none
  | .partAll => some false

/-- An answer to an earlier JOIN takes the mark of a later one that a PART came before. -/
def KeepsJoin (later : List Bool) : Prop := later.getLast? = some true → false ∉ later

/-- What clears a PART's mark takes that of a later PART that a JOIN came before. -/
def KeepsPart (later : List Bool) : Prop := later.getLast? = some false → true ∉ later

instance (later : List Bool) : Decidable (KeepsJoin later) :=
  inferInstanceAs (Decidable (_ → _))

instance (later : List Bool) : Decidable (KeepsPart later) :=
  inferInstanceAs (Decidable (_ → _))

/-- A reply may be read while these commands for its channel are unanswered after it. -/
def Reply.Timely (later : List Bool) : Reply → Prop
  | .joined _ => KeepsJoin later
  | .refused .forwarded _ => later.getLast? ≠ some true ∧ KeepsPart later
  | .refused _ _ => later.getLast? ≠ some true
  | .parted _ => KeepsPart later
  | .notOn _ => KeepsPart later
  | .kicked _ => KeepsPart later ∧ (later.getLast? = some true → false ∈ later)
  | .silent _ => True
  | .swept => True

/-- The channel a reply names. -/
def Reply.name? : Reply → Option Str
  | .joined name => some name
  | .refused _ name => some name
  | .silent name => some name
  | .parted name => some name
  | .notOn name => some name
  | .swept => none
  | .kicked name => some name

namespace Net

def start : Net := ⟨.start, [], ∅, [], ∅⟩

inductive Event where
  | join (channelList : Str)
  | part (channelList : Str)
  | raw (line : Str)
  | probe
  /-- The server takes a command: whether it refuses a JOIN, and how its answers spell names. -/
  | taken (refusal : Option Refusal) (spellings : List Str)
  | kick (name : Str)
  | delivered
  | lost

/-- The server takes one command. -/
def answer (s : Net) (refusal : Option Refusal) (spelling : Str) : Command → Net
  | .join name =>
    if fold name ∈ s.server then { s with downstream := s.downstream ++ [.silent name] }
    else
      match refusal with
      | none =>
        { s with
          server := insert (fold name) s.server
          downstream := s.downstream ++ [.joined spelling] }
      | some r => { s with downstream := s.downstream ++ [.refused r spelling] }
  | .part name =>
    if fold name ∈ s.server then
      { s with
        server := s.server.erase (fold name)
        downstream := s.downstream ++ [.parted spelling] }
    else { s with downstream := s.downstream ++ [.notOn spelling] }
  | .partAll => s

/-- The spellings are each of a channel we are in, and all of them. -/
def Sweeps (server : Finset Str) (spellings : List Str) : Prop :=
  (spellings.map fold).Nodup ∧ (spellings.map fold).toFinset = server ∧
    ∀ name ∈ spellings, IsName name

instance (server : Finset Str) (spellings : List Str) : Decidable (Sweeps fold server spellings) :=
  inferInstanceAs (Decidable (_ ∧ _ ∧ _))

/-- A reply as the connection reads it. -/
def read (m : Membership) : Reply → Membership
  | .joined name => m.onJoin fold lower name
  | .refused .forwarded name => m.onRedirect fold lower name
  | .refused _ name => m.onRejection fold name
  | .parted name => m.onPart fold lower name
  | .kicked name => m.onPart fold lower name
  | .notOn name => m.evictChannel fold lower name
  | .silent _ => m
  | .swept => m

/-- What a reply says about where we are. -/
def tell (told : Finset Str) : Reply → Finset Str
  | .joined name => insert (fold name) told
  | .parted name => told.erase (fold name)
  | .kicked name => told.erase (fold name)
  | _ => told

def step (s : Net) : Event → Net
  | .join channelList =>
    { s with
      client := s.client.noteJoinSent fold channelList
      upstream := s.upstream ++ joinCommands channelList }
  | .part channelList =>
    { s with
      client := s.client.notePartSent fold channelList
      upstream := s.upstream ++ partCommands channelList }
  | .raw line =>
    { s with
      client := s.client.noteRawMembership fold line
      upstream := s.upstream ++ serverCommands line }
  | .probe => { s with client := s.client.probed fold }
  | .taken refusal spellings =>
    match s.upstream with
    | [] => s
    | .partAll :: upstream =>
      if Sweeps fold s.server spellings then
        { s with
          upstream, server := ∅
          downstream := s.downstream ++ spellings.map .parted ++ [.swept] }
      else s
    | .join name :: upstream =>
      let spelling := spellings.headD name
      if fold spelling = fold name ∧ IsName spelling then
        { s with upstream }.answer fold refusal spelling (.join name)
      else s
    | .part name :: upstream =>
      let spelling := spellings.headD name
      if fold spelling = fold name ∧ IsName spelling then
        { s with upstream }.answer fold refusal spelling (.part name)
      else s
  | .kick name =>
    if fold name ∈ s.server ∧ IsName name then
      { s with
        server := s.server.erase (fold name)
        downstream := s.downstream ++ [.kicked name] }
    else s
  | .delivered =>
    match s.downstream with
    | [] => s
    | reply :: downstream =>
      { s with
        client := read fold lower s.client reply
        told := tell fold s.told reply
        downstream }
  | .lost => ⟨s.client.forgetJoinedChannels, [], ∅, [], ∅⟩

/-- Whether we would be in a channel once the server has taken everything sent so far, with every
JOIN still unanswered accepted and no further KICK. -/
def expected (s : Net) (name : Str) : Bool :=
  s.upstream.foldl (Command.outcome fold (fold name))
    (s.downstream.foldl (Reply.outcome fold (fold name)) (decide (fold name ∈ s.told)))

/-- Nothing is under way. -/
def Quiet (s : Net) : Prop := s.upstream = [] ∧ s.downstream = []

/-- Lurker knows which channels it will be in. -/
structure Knows (s : Net) : Prop where
  willBe : ∀ name, s.client.mayBeJoined fold name = s.expected fold name
  isIn : s.Quiet → ∀ name, s.client.isChannelJoined fold name = decide (fold name ∈ s.server) ∧
    (s.client.channelState fold name).isSome = decide (fold name ∈ s.server)
  apart : ∀ key key' ch ch', s.client.channels.get? key = some ch →
    s.client.channels.get? key' = some ch' → (fold ch.name = fold ch'.name ↔ key = key')

/-- The commands for a channel that are still unanswered, in the order they were sent. -/
def unanswered (downstream : List Reply) (upstream : List Command) (k : Str) : List Bool :=
  downstream.filterMap (Reply.asks fold k) ++ upstream.filterMap (Command.asks fold k)

/-- A line is noted as the server reads it, and an answer is read that takes no later command's
mark, for a name that lowercasing leaves the same channel. -/
def Meets (s : Net) : Event → Prop
  | .join channelList => channelList ≠ ['0']
  | .raw line => notedCommands line = serverCommands line
  | .delivered =>
    match s.downstream with
    | [] => True
    | reply :: downstream => ∀ name ∈ reply.name?,
        fold (lower name) = fold name ∧
          reply.Timely (unanswered fold downstream s.upstream (fold name))
  | _ => True

end Net
end Lurker.Irc
