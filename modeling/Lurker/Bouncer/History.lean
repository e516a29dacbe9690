import Lurker.Irc.Casemapping
import Mathlib.Data.List.Sort
import Mathlib.Data.Prod.Lex

/-!
# The history windows of a chat history client

The message and reaction rows of a store, the rows that a window holds for a client, and
the windows themselves: the first or the last so many rows strictly between two times,
oldest first. A time is a number of milliseconds.
-/

namespace Lurker.Bouncer

open Lurker.Irc (Str Casemapping foldTargetWith)

/-- The type of a message row; `other` is one that history replays no line of. -/
inductive Kind where
  | message | action | notice
  | join | part | quit | nick | kick | mode | topic
  | other
  deriving DecidableEq, Repr

structure MessageRow where
  id : Nat
  bufferId : Nat
  time : Nat
  type : Kind
  nick : Option Str
  userhost : Option Str
  text : Option Str
  self : Bool
  mirrored : Bool
  newNick : Option Str
  kicked : Option Str
  msgid : Option Str
  replyMsgid : Option Str
  e2e : Bool
  deriving DecidableEq, Repr

/-- A reaction; a tombstone was also taken back, at `removedAt`. -/
structure ReactionRow where
  id : Nat
  networkId : Nat
  messageId : Nat
  nick : Str
  userhost : Option Str
  self : Bool
  value : Str
  time : Nat
  removedAt : Option Nat
  deriving DecidableEq, Repr

/-- The two tables. An id is a primary key. -/
structure Store where
  messages : List MessageRow
  reactions : List ReactionRow
  messages_nodup : (messages.map (·.id)).Nodup
  reactions_nodup : (reactions.map (·.id)).Nodup

structure HistoryReaction where
  id : Nat
  time : Nat
  nick : Str
  userhost : Option Str
  self : Bool
  value : Str
  parentMsgid : Str
  unreact : Bool
  deriving DecidableEq, Repr

inductive HistoryRow where
  | line (m : MessageRow)
  | reaction (r : HistoryReaction)
  deriving DecidableEq, Repr

def HistoryRow.time : HistoryRow → Nat
  | .line m => m.time
  | .reaction r => r.time

/-- Who a history window is for: our current nick on the network. -/
structure HistoryEvents where
  me : Option Str

def historyEventTypes : List Kind := [.join, .part, .quit, .nick, .kick, .mode, .topic]

def chathistoryMsgFilter (m : MessageRow) : Bool :=
  m.type ∈ [.message, .action, .notice] && !m.mirrored && m.text ≠ none && m.text ≠ some []

-- `toLowerCase` of the platform
variable (toLower : Str → Str)

/-- An event naming our nick: a JOIN, PART, QUIT or NICK from it, or a KICK of it. -/
def namesUs (mapping : Option Casemapping) (me : Str) (m : MessageRow) : Bool :=
  (m.type ∈ [.join, .part, .quit, .nick] &&
    foldTargetWith toLower mapping (m.nick.getD []) = foldTargetWith toLower mapping me) ||
  (m.type = .kick &&
    foldTargetWith toLower mapping (m.kicked.getD []) = foldTargetWith toLower mapping me)

def historyFilter (events : Option HistoryEvents) (mapping : Option Casemapping)
    (m : MessageRow) : Bool :=
  match events with
  | none => chathistoryMsgFilter m
  | some events =>
    chathistoryMsgFilter m ||
      (m.type ∈ historyEventTypes &&
        match events.me with
        | none | some [] => true
        | some me => !namesUs toLower mapping me m)

/-- Strictly between the bounds; none is no bound. -/
def within (lower upper : Option Nat) (time : Nat) : Bool :=
  lower.all (fun t => decide (t < time)) && upper.all (fun t => decide (time < t))

structure HistoryWindowOptions where
  newestFirst : Bool
  events : Option HistoryEvents
  reactions : Bool
  withoutSelf : Bool

/-- The message rows of a buffer that its windows hold. -/
def historyLines (s : Store) (bufferId : Nat) (mapping : Option Casemapping)
    (opts : HistoryWindowOptions) : List MessageRow :=
  s.messages.filter fun m =>
    m.bufferId = bufferId && historyFilter toLower opts.events mapping m &&
      (!opts.withoutSelf || !m.self)

def replayableReaction (withoutSelf : Bool) (r : ReactionRow) (m : MessageRow) : Bool :=
  m.msgid ≠ none && chathistoryMsgFilter m && !m.e2e && (!withoutSelf || (!r.self && !m.self))

/-- A reaction as its react or its unreact, joined with the line it is on. -/
def reactionEvent (s : Store) (networkId bufferId : Nat) (withoutSelf unreacts : Bool)
    (r : ReactionRow) : Option HistoryReaction :=
  (s.messages.find? fun m => m.id = r.messageId).bind fun m =>
    (if unreacts then r.removedAt else some r.time).bind fun time =>
      m.msgid.bind fun parentMsgid =>
        if r.networkId = networkId ∧ m.bufferId = bufferId ∧
            replayableReaction withoutSelf r m = true then
          some {
            id := r.id
            time := time
            nick := r.nick
            userhost := r.userhost
            self := r.self
            value := r.value
            parentMsgid := parentMsgid
            unreact := unreacts }
        else none

/-- The reacts, or the unreacts, on the lines of a buffer that its windows hold. -/
def historyReactions (s : Store) (networkId bufferId : Nat) (withoutSelf unreacts : Bool) :
    List HistoryReaction :=
  s.reactions.filterMap (reactionEvent s networkId bufferId withoutSelf unreacts)

/-- `ORDER BY`, the way round the window is read. -/
def orderBy {α κ : Type*} [LinearOrder κ] (newestFirst : Bool) (key : α → κ) (rows : List α) :
    List α :=
  if newestFirst then rows.insertionSort (key · ≥ key ·) else rows.insertionSort (key · ≤ key ·)

/-- The rows of the window's message statement. -/
def loadHistoryWindowRows (s : Store) (bufferId : Nat) (mapping : Option Casemapping)
    (lower upper : Option Nat) (limit : Nat) (opts : HistoryWindowOptions) : List MessageRow :=
  let rows := (historyLines toLower s bufferId mapping opts).filter fun m =>
    within lower upper m.time
  (orderBy opts.newestFirst (fun m => toLex (m.time, m.id)) rows).take limit

def reactionEvents (s : Store) (networkId bufferId : Nat) (lower upper : Option Nat) (limit : Nat)
    (newestFirst withoutSelf unreacts : Bool) : List HistoryReaction :=
  let rows := (historyReactions s networkId bufferId withoutSelf unreacts).filter fun r =>
    within lower upper r.time
  (orderBy newestFirst (fun r => toLex (r.time, r.id)) rows).take limit

/-- A react sorts before an unreact at the same instant. -/
def rank (e : HistoryReaction) : Nat := if e.unreact then 1 else 0

def loadReactionWindow (s : Store) (networkId bufferId : Nat) (lower upper : Option Nat)
    (limit : Nat) (newestFirst withoutSelf : Bool) : List HistoryReaction :=
  let reacts := reactionEvents s networkId bufferId lower upper limit newestFirst withoutSelf false
  let unreacts := reactionEvents s networkId bufferId lower upper limit newestFirst withoutSelf true
  (orderBy newestFirst (fun e => toLex (e.time, toLex (rank e, e.id))) (reacts ++ unreacts)).take
    limit

/-- Whether a line goes before a reaction: oldest first it does at the same instant, and
newest first is the exact reverse. -/
def lineFirst (newestFirst : Bool) (line reaction : HistoryRow) : Bool :=
  if newestFirst then reaction.time < line.time else line.time ≤ reaction.time

def mergeHistory (lines : List HistoryRow) (reacted : List HistoryReaction) (newestFirst : Bool) :
    List HistoryRow :=
  List.merge lines (reacted.map .reaction) (lineFirst newestFirst)

def loadHistoryWindow (s : Store) (networkId : Nat) (bufferId : Option Nat)
    (mapping : Option Casemapping) (lower upper : Option Nat) (limit : Nat)
    (opts : HistoryWindowOptions) : List HistoryRow :=
  match bufferId with
  | none => []
  | some bufferId =>
    let rows := loadHistoryWindowRows toLower s bufferId mapping lower upper limit opts
    let window := rows.map HistoryRow.line
    let window :=
      if opts.reactions then
        let reacted := loadReactionWindow s networkId bufferId lower upper limit opts.newestFirst
          opts.withoutSelf
        (mergeHistory window reacted opts.newestFirst).take limit
      else window
    if opts.newestFirst then window.reverse else window

end Lurker.Bouncer
