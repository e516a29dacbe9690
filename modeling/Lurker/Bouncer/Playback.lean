import Lurker.Bouncer.History
import Lurker.Outbound.Multiline

/-!
# The answers of a chat history client

The lines that rows are replayed as, each under the tags the client's caps let through, and
the answer to each form of the command: the rows of its window and their lines.
-/

namespace Lurker.Bouncer

open Lurker.Irc (Str Casemapping)
open Lurker.Outbound (byteLen chunk splitLines)

attribute [local instance] Lurker.Irc.str_lawfulBEq

inductive Cap where
  | eventPlayback | messageTags | serverTime | batch | selfMessage | echoMessage
  deriving DecidableEq, Repr

/-- A client bound to a network. `bufferOf` resolves a target to its buffer there. -/
structure Session where
  networkId : Nat
  caps : List Cap
  currentNick : Str
  clientNick : Str
  networkNick : Str
  casemapping : Option Casemapping
  bufferOf : Str → Option Nat

def maxChathistory : Nat := 1000
def ircLineBytes : Nat := 512
def minTextBudget : Nat := 64

def isChannelName (target : Str) : Bool := target.head?.any ("#&+!".toList.contains ·)

-- `toLowerCase` of the platform
variable (toLower : Str → Str)

/-- `*serv`, and the auth bots that are not named so. -/
def isServicesNick (nick : Str) : Bool :=
  let lower := toLower nick
  ("serv".toList.isSuffixOf lower && 4 < lower.length &&
      lower.all fun c => 'a' ≤ c && c ≤ 'z') ||
    lower ∈ ["global".toList, "services".toList, "q".toList, "x".toList, "w".toList]

namespace Session

def has (c : Session) (cap : Cap) : Bool := cap ∈ c.caps

def wantsSelfMessages (c : Session) : Bool := c.has .selfMessage || c.has .echoMessage

/-- Everything but the events naming our current nick, for an event playback client. -/
def historyEvents (c : Session) : Option HistoryEvents :=
  if c.has .eventPlayback then
    some ⟨if c.currentNick ≠ [] then some c.currentNick
      else if c.networkNick ≠ [] then some c.networkNick else none⟩
  else none

def replaysReactions (c : Session) : Bool := c.has .eventPlayback && c.has .messageTags

def replaysSelfLine (c : Session) (isChannel : Bool) (bufferTarget : Str) : Bool :=
  isChannel || (c.wantsSelfMessages && !isServicesNick toLower bufferTarget)

end Session

structure ReplayTags where
  time : Option Nat := none
  msgid : Option Str := none
  clientTags : List (Str × Str) := []
  deriving DecidableEq, Repr

/-- A line as the client gets it: its tags, and what follows them. -/
structure ClientLine where
  tags : ReplayTags
  text : Str
  deriving DecidableEq, Repr

/-- The tags that the caps let through. -/
def formatTags (c : Session) (tags : ReplayTags) : ReplayTags where
  time := if c.has .serverTime then tags.time else none
  msgid := if c.has .messageTags then tags.msgid.filter (· ≠ []) else none
  clientTags := if c.has .messageTags then tags.clientTags else []

def networkMsgid (m : MessageRow) : Option Str := if m.e2e then none else m.msgid.filter (· ≠ [])

def replyTags (msgid : Str) : List (Str × Str) :=
  [("+draft/reply".toList, msgid), ("+reply".toList, msgid)]

-- the platform's line breaker
variable (lineBreak : List Char → Nat → List (List Char))

def splitSay (text : Str) (bytes : Nat) : List Str :=
  ((splitLines text).filter (· ≠ [])).flatMap fun line => chunk lineBreak line bytes

/-- The wire pieces of a message's body lines, blank ones skipped. -/
def messagePieces (head : Str) (bodies : List Str) : List Str :=
  let budget := max minTextBudget (ircLineBytes - byteLen (head ++ " :".toList) - 2)
  (bodies.filter (· ≠ [])).flatMap fun body => splitSay lineBreak body budget

/-- A stored message as client lines; only the first carries the msgid and the reply tags. -/
def messageLines (c : Session) (head : Str) (bodies : List Str) (tags : ReplayTags) :
    List ClientLine :=
  (messagePieces lineBreak head bodies).mapIdx fun i piece =>
    let tags := if i = 0 then tags else { tags with msgid := none, clientTags := [] }
    ⟨formatTags c tags, head ++ " :".toList ++ piece⟩

/-- A stored event as the line the network sent it as, if it has what the line needs. -/
def eventLine (c : Session) (m : MessageRow) (bufferTarget : Str) : Option ClientLine :=
  match m.nick with
  | none | some [] => none
  | some nick =>
    let source := (m.userhost.filter ('!' ∈ ·)).getD nick
    let text := m.text.getD []
    let reason := if text ≠ [] then " :".toList ++ text else []
    let line (rest : Str) : ClientLine :=
      ⟨formatTags c { time := some m.time }, ':' :: source ++ rest⟩
    match m.type with
    | .join => some (line (" JOIN ".toList ++ bufferTarget))
    | .part => some (line (" PART ".toList ++ bufferTarget ++ reason))
    | .quit => some (line (" QUIT".toList ++ reason))
    | .nick => (m.newNick.filter (· ≠ [])).map fun newNick => line (" NICK ".toList ++ newNick)
    | .kick => (m.kicked.filter (· ≠ [])).map fun kicked =>
        line (" KICK ".toList ++ bufferTarget ++ ' ' :: kicked ++ reason)
    | .mode =>
      if text ≠ [] then some (line (" MODE ".toList ++ bufferTarget ++ ' ' :: text)) else none
    | .topic => some (line (" TOPIC ".toList ++ bufferTarget ++ " :".toList ++ text))
    | _ => none

def replayedSource (nick : Str) (userhost : Option Str) : Str :=
  (userhost.filter ('!' ∈ ·)).getD (nick ++ '!' :: nick ++ "@lurker.bouncer".toList)

def replayedTarget (self isChannel : Bool) (bufferTarget selfNick : Str) : Str :=
  if isChannel || self then bufferTarget else selfNick

/-- A stored reaction as the TAGMSG that made it, or took it back. -/
def reactionLine (c : Session) (r : HistoryReaction) (bufferTarget : Str) (isChannel : Bool)
    (selfNick : Str) : ClientLine :=
  let react := if r.unreact then "+draft/unreact".toList else "+draft/react".toList
  let target := replayedTarget r.self isChannel bufferTarget selfNick
  ⟨formatTags c { time := some r.time, clientTags := (react, r.value) :: replyTags r.parentMsgid },
    ':' :: replayedSource r.nick r.userhost ++ " TAGMSG ".toList ++ target⟩

/-- The body lines of a message: an action collapses to one. -/
def bodies (m : MessageRow) (text : Str) : List Str :=
  if m.type = .action then
    [Char.ofNat 1 :: "ACTION ".toList ++
      text.map (fun ch => if ch = '\n' then ' ' else ch) ++ [Char.ofNat 1]]
  else text.splitOn '\n'

def selfNick (c : Session) : Str :=
  if c.currentNick ≠ [] then c.currentNick else if c.clientNick ≠ [] then c.clientNick else ['*']

/-- The lines of one row. -/
def rowLines (c : Session) (bufferTarget : Str) (isChannel : Bool) : HistoryRow → List ClientLine
  | .reaction r => [reactionLine c r bufferTarget isChannel (selfNick c)]
  | .line m =>
    if m.type ∈ historyEventTypes then (eventLine c m bufferTarget).toList
    else if m.type ∉ [.message, .action, .notice] then []
    else
      match m.text with
      | none | some [] => []
      | some text =>
        if m.mirrored then []
        else if m.self && !c.replaysSelfLine toLower isChannel bufferTarget then []
        else
          let nick := (m.nick.filter (· ≠ [])).getD "unknown".toList
          let source := replayedSource nick m.userhost
          let target := replayedTarget m.self isChannel bufferTarget (selfNick c)
          let cmd := if m.type = .notice then "NOTICE".toList else "PRIVMSG".toList
          messageLines lineBreak c (':' :: source ++ ' ' :: cmd ++ ' ' :: target) (bodies m text)
            { time := some m.time
              msgid := networkMsgid m
              clientTags :=
                match m.replyMsgid with
                | none | some [] => []
                | some reply => if m.e2e then [] else replyTags reply }

def playbackLines (c : Session) (rows : List HistoryRow) (bufferTarget : Str) (isChannel : Bool) :
    List ClientLine :=
  rows.flatMap (rowLines toLower lineBreak c bufferTarget isChannel)

/-- A form of the command with its time bounds; LATEST may have none. -/
inductive Ask where
  | before (time : Nat)
  | after (time : Nat)
  | latest (time : Option Nat)
  | around (time : Nat)
  | between (first second : Nat)
  deriving DecidableEq, Repr

def loadChatHistory (c : Session) (s : Store) (target : Str) (ask : Ask) (limit : Nat) :
    List HistoryRow :=
  let window (lower upper : Option Nat) (limit : Nat) (newestFirst : Bool) :=
    loadHistoryWindow toLower s c.networkId (c.bufferOf target) c.casemapping lower upper limit {
      newestFirst := newestFirst
      events := c.historyEvents
      reactions := c.replaysReactions
      withoutSelf := !c.replaysSelfLine toLower (isChannelName target) target }
  match ask with
  | .before time => window none (some time) limit true
  | .after time => window (some time) none limit false
  | .latest time => window time none limit true
  | .around time =>
    let afterLimit := limit / 2
    let older := window none (some time) (limit - afterLimit) true
    let newer := window (some time) none afterLimit false
    older ++ newer
  | .between a b =>
    if a ≤ b then window (some a) (some b) limit false else window (some b) (some a) limit true

/-- What a command is answered with: the rows, and the lines the client gets. -/
structure Answer where
  rows : List HistoryRow
  lines : List ClientLine
  deriving DecidableEq, Repr

/-- The answer to a command, which is refused unless its limit is in range. -/
def handleChatHistory (c : Session) (s : Store) (target : Str) (ask : Ask) (limit : Nat) : Answer :=
  if maxChathistory < limit then ⟨[], []⟩
  else
    let rows := loadChatHistory toLower c s target ask limit
    ⟨rows, playbackLines toLower lineBreak c rows target (isChannelName target)⟩

end Lurker.Bouncer
