import Mathlib.Data.Fintype.Basic
import Mathlib.Data.List.Basic
import Lurker.Lib.Run

/-!
# The engine catch-up mark

The engine numbers the lines of a held socket and delivers again, after a
re-attach, those nobody acked. A process stores the rows of a line together with
a mark, the highest number it has stored a row under; the next one skips what is
at or below the mark, and asks by msgid and by content about the rest.
-/
namespace Lurker.Db.EngineMarks

/-- A row that the handling of a line publishes. -/
structure Row where
  target : String
  type : String
  nick : Option String
  text : Option String
  /-- Milliseconds. -/
  time : Int
  msgid : Option String
  /-- A line of a history page, and whether the page was asked for. -/
  replay : Bool
  replayAsked : Bool
  deriving DecidableEq, Repr

/-- A stored row. The line it is of and its place there are kept for the reader; no query reads
them. -/
structure Message where
  id : Nat
  row : Row
  seq : Nat
  index : Nat
  deriving DecidableEq, Repr

/-- The rows of a network in order of their ids, and the mark of the socket. -/
structure Tables where
  messages : List Message
  mark : Option Nat
  deriving DecidableEq, Repr

namespace Tables

def maxMessageId (db : Tables) : Nat := (db.messages.getLast?.map Message.id).getD 0

def setEngineMark (db : Tables) (seq : Nat) : Tables :=
  match db.mark with
  | none => { db with mark := some seq }
  | some mark => if mark < seq then { db with mark := some seq } else db

/-- The row and the mark in one transaction; none, and nothing stored, when the mark has reached
the line and the rows stored under it are not this process's own. -/
def storeUnderMark (db : Tables) (seq : Nat) (insert : Tables → Tables) (ours : Bool) : Option Tables :=
  let mark := db.mark.getD 0
  if (if ours then seq < mark else seq ≤ mark) then none
  else some ((insert db).setEngineMark seq)

def insertMessage (db : Tables) (row : Row) (seq index : Nat) : Tables :=
  { db with messages := db.messages ++ [⟨db.maxMessageId + 1, row, seq, index⟩] }

def hasMessageWithMsgid (db : Tables) (msgid : String) : Bool :=
  db.messages.any fun m => m.row.msgid = some msgid

def hasSameMessageWithMsgid (db : Tables) (row : Row) (msgid : String) : Bool :=
  db.messages.any fun m => m.row.msgid = some msgid ∧ m.row.target = row.target ∧
    m.row.type = row.type ∧ m.row.nick = row.nick ∧ m.row.text = row.text

def catchUpTailRows : Nat := 1000

/-- The newest rows of the buffer up to an id, for one like this near its time. -/
def hasRecentMessageLike (db : Tables) (row : Row) (maxId : Option Nat) (toleranceMs : Int) : Bool :=
  ((db.messages.filter fun m =>
      m.row.target = row.target ∧ ∀ bound ∈ maxId, m.id ≤ bound).reverse.take catchUpTailRows).any
    fun m => m.row.type = row.type ∧ m.row.nick = row.nick ∧ m.row.text = row.text ∧
      row.time - toleranceMs ≤ m.row.time ∧ m.row.time ≤ row.time + toleranceMs

end Tables

/-- An app process on the socket. -/
structure Process where
  alive : Bool
  catchingUp : Bool
  catchUpMaxId : Option Nat
  replayMaxId : Option Nat
  /-- The last line this process stored a row under. -/
  storedUnderSeq : Option Nat
  /-- The line it will be given next. -/
  next : Nat
  /-- The line it is handling, and how many of its rows are published. -/
  inHand : Option (Nat × Nat)
  /-- The last line that was waiting when it attached. -/
  backlog : Nat
  /-- The line it would be given next when it reached `live`. -/
  liveAt : Option Nat
  deriving DecidableEq, Repr

def isConversation (row : Row) : Bool :=
  row.type = "message" || row.type = "action" || row.type = "notice"

/-- What the msgid or, without one, the content says. -/
def probed (p : Process) (db : Tables) (row : Row) : Bool :=
  if row.replay then
    match row.msgid with
    | some msgid => db.hasSameMessageWithMsgid row msgid
    | none =>
      db.hasRecentMessageLike row (if row.replayAsked then none else p.replayMaxId)
        (if isConversation row then 5000 else 0)
  else
    match row.msgid with
    | some msgid =>
      if p.catchingUp then db.hasMessageWithMsgid msgid
      else db.hasSameMessageWithMsgid row msgid
    | none => p.catchingUp && db.hasRecentMessageLike row p.catchUpMaxId 5000

/-- Whether this line is already stored: by the mark while catching up, else by the probes. -/
def alreadyPersisted (p : Process) (db : Tables) (seq : Nat) (row : Row) : Bool :=
  (p.catchingUp && decide (seq ≤ db.mark.getD 0)) || probed p db row

/-- Whether this process has stored a row under the line it is handling. -/
def Process.ours (p : Process) (seq : Nat) : Bool := p.storedUnderSeq = some seq

def storeUnderCatchUpMark (p : Process) (db : Tables) (seq : Nat) (insert : Tables → Tables) : Process × Tables :=
  match db.storeUnderMark seq insert (p.ours seq) with
  | none => (p, db)
  | some db => ({ p with storedUnderSeq := some seq }, db)

def publish (p : Process) (db : Tables) (seq index : Nat) (row : Row) : Process × Tables :=
  if alreadyPersisted p db seq row then (p, db)
  else storeUnderCatchUpMark p db seq fun db => db.insertMessage row seq index

/-- The lines that arrived, each as the rows it publishes; what is acked; the database all share;
the processes so far; and which of them holds the claim. -/
structure Socket where
  lines : List (List Row)
  acked : Nat
  db : Tables
  processes : List Process
  claim : Option Nat

namespace Socket

/-- The process that dialled: it is live from the start, and nothing was stored when it
registered. -/
def dialled : Process := ⟨true, false, none, some 0, none, 1, none, 0, some 1⟩

def start : Socket := ⟨[], 0, ⟨[], none⟩, [dialled], some 0⟩

/-- The rows of a line; lines are numbered from 1. -/
def rows (s : Socket) (seq : Nat) : List Row := if seq = 0 then [] else s.lines.getD (seq - 1) []

inductive Event where
  | arrives (rows : List Row)
  /-- The next process attaches and takes the claim. -/
  | attaches
  /-- The process with the claim is given its next line. -/
  | given
  /-- A process publishes the next row of the line in hand. -/
  | publishes (pid : Nat)
  /-- A process is done with the line in hand, and acks it if it still has the claim. -/
  | done (pid : Nat)
  /-- The process with the claim has been given its backlog. -/
  | live
  | dies (pid : Nat)
  deriving DecidableEq, Repr

def put (s : Socket) (pid : Nat) (p : Process) : Socket :=
  { s with processes := s.processes.set pid p }

/-- A process on its feet. -/
def running (s : Socket) (pid : Nat) : Option Process := s.processes[pid]?.filter (·.alive)

def step (s : Socket) : Event → Socket
  | .arrives rows => { s with lines := s.lines ++ [rows] }
  | .attaches =>
    let maxId := s.db.maxMessageId
    { s with
      processes := s.processes ++
        [⟨true, true, some maxId, some maxId, none, s.acked + 1, none, s.lines.length, none⟩]
      claim := some s.processes.length }
  | .given =>
    match s.claim.bind fun pid => (s.running pid).map (Prod.mk pid) with
    | none => s
    | some (pid, p) =>
      if p.inHand = none ∧ p.next ≤ s.lines.length then
        s.put pid { p with inHand := some (p.next, 0), next := p.next + 1 }
      else s
  | .publishes pid =>
    match s.running pid with
    | none => s
    | some p =>
      match p.inHand with
      | none => s
      | some (seq, index) =>
        match (s.rows seq)[index]? with
        | none => s
        | some row =>
          let (p, db) := publish p s.db seq index row
          { s with db }.put pid { p with inHand := some (seq, index + 1) }
  | .done pid =>
    match s.running pid with
    | none => s
    | some p =>
      match p.inHand with
      | none => s
      | some (seq, index) =>
        if index = (s.rows seq).length then
          { s with acked := if s.claim = some pid then max s.acked seq else s.acked }.put pid
            { p with inHand := none }
        else s
  | .live =>
    match s.claim.bind fun pid => (s.running pid).map (Prod.mk pid) with
    | none => s
    | some (pid, p) =>
      if p.catchingUp ∧ p.inHand = none ∧ p.backlog < p.next then
        s.put pid { p with catchingUp := false, catchUpMaxId := none, liveAt := some p.next }
      else s
  | .dies pid =>
    match s.running pid with
    | none => s
    | some p => s.put pid { p with alive := false }

/-- Whether a row of a line is stored. -/
def HasRow (db : Tables) (seq index : Nat) : Prop := ∃ m ∈ db.messages, m.seq = seq ∧ m.index = index

/-- A process is between the rows of a line it has begun to store. -/
def Between (s : Socket) (p : Process) : Prop :=
  p.alive = true ∧ ∃ x ∈ p.inHand, p.ours x.1 = true ∧ x.2 < (s.rows x.1).length

instance (s : Socket) (p : Process) : Decidable (Between s p) := by
  unfold Between
  infer_instance

/-- No row is held back by a mark that its own line raised or a later one raised past it, none that
is not stored is taken by a probe for one that is, and a process neither dies nor is overtaken
between the rows of a line. -/
def Meets (s : Socket) : Event → Prop
  | .publishes pid => ∀ p ∈ s.running pid, ∀ x ∈ p.inHand, ∀ row ∈ (s.rows x.1)[x.2]?,
      (p.ours x.1 = true → p.catchingUp = false ∧ s.db.mark = some x.1) ∧
        (p.ours x.1 = true ∨ s.db.mark.getD 0 < x.1 → probed p s.db row = false)
  | .dies pid => ∀ p ∈ s.running pid, ¬Between s p
  | .live => ∀ p ∈ s.processes, ¬Between s p
  | _ => True

end Socket
end Lurker.Db.EngineMarks
