import Mathlib.Data.Finset.Basic
import Lurker.Irc.Line
import Lurker.Lib.OrderedMap

/-!
# Which channels a connection is in

Membership is written by the server's echoes. Two sets of marks cover what is
under way: channels whose JOIN, and channels whose PART, is on the wire with no
answer yet. The map of channels is keyed by the lowercased name of the echo;
marks and lookups fold names by the network's rule.
-/
namespace Lurker.Irc

attribute [local instance] str_lawfulBEq

/-- What membership reads of a joined channel. -/
structure ChannelState where
  name : Str
  deriving DecidableEq, Repr

structure Membership where
  channels : OrderedMap Str ChannelState
  /-- Lazily built index over `channels`; none is rebuilt on the next probe. -/
  joinedFoldedCache : Option (List Str)
  pendingJoins : Finset Str
  pendingParts : Finset Str

-- the network's fold, and `toLowerCase` of the platform
variable (fold lower : Str → Str)

namespace Membership

def start : Membership := ⟨.empty, none, ∅, ∅⟩

/-- The folded names of the channels joined. -/
def joinedFolded (m : Membership) : List Str := m.channels.values.map fun ch => fold ch.name

/-- The index a probe finds or builds. -/
def index (m : Membership) : List Str := m.joinedFoldedCache.getD (m.joinedFolded fold)

/-- A probe leaves the index it built behind. -/
def probed (m : Membership) : Membership := { m with joinedFoldedCache := some (m.index fold) }

def isChannelJoined (m : Membership) (name : Str) : Bool := decide (fold name ∈ m.index fold)

/-- Whether we are in a channel, or about to be. -/
def mayBeJoined (m : Membership) (name : Str) : Bool :=
  if fold name ∈ m.pendingParts then false
  else m.isChannelJoined fold name || decide (fold name ∈ m.pendingJoins)

def channelState (m : Membership) (name : Str) : Option ChannelState :=
  m.channels.values.find? fun ch => fold ch.name = fold name

def setChannel (m : Membership) (key : Str) (ch : ChannelState) : Membership :=
  { m with channels := m.channels.set key ch, joinedFoldedCache := none }

/-- The exact key first, then the first that folds to the same name. -/
def actualKey (m : Membership) (key : Str) : Str :=
  if m.channels.has key then key
  else (m.channels.keys.find? fun k => fold k = fold key).getD key

def deleteChannel (m : Membership) (key : Str) : Membership :=
  let m := { m with pendingParts := m.pendingParts.erase (fold key) }
  let actual := m.actualKey fold key
  if m.channels.has actual then
    { m with channels := m.channels.delete actual, joinedFoldedCache := none }
  else m

/-- The joined set belongs to one socket, so it dies with it. -/
def forgetJoinedChannels (m : Membership) : Membership :=
  { channels := .empty
    joinedFoldedCache := if m.channels.size = 0 then m.joinedFoldedCache else none
    pendingJoins := ∅
    pendingParts := ∅ }

def upsertChannel (m : Membership) (name : Str) : Membership :=
  match m.channels.get? (lower name) with
  | some _ => m
  | none => m.setChannel (lower name) ⟨name⟩

/-- One channel of a JOIN: it supersedes a PART still in flight, and is marked when it does or
when we are not in the channel. -/
def noteJoin (m : Membership) (one : Str) : Membership :=
  if fold one ∈ m.pendingParts then
    { m with
      pendingParts := m.pendingParts.erase (fold one)
      pendingJoins := insert (fold one) m.pendingJoins }
  else
    let joined := m.isChannelJoined fold one
    let m := m.probed fold
    if joined then m else { m with pendingJoins := insert (fold one) m.pendingJoins }

def notePart (m : Membership) (one : Str) : Membership :=
  { m with
    pendingJoins := m.pendingJoins.erase (fold one)
    pendingParts := insert (fold one) m.pendingParts }

def noteJoinSent (m : Membership) (channelList : Str) : Membership :=
  (pieces ',' channelList).foldl (noteJoin fold) m

def notePartSent (m : Membership) (channelList : Str) : Membership :=
  (pieces ',' channelList).foldl (notePart fold) m

/-- `JOIN 0`: a PART of every channel, and of those whose JOIN is still in flight. -/
def notePartAll (m : Membership) : Membership :=
  let m := m.channels.values.foldl (fun m ch => m.notePartSent fold ch.name) m
  { m with pendingParts := m.pendingParts ∪ m.pendingJoins, pendingJoins := ∅ }

end Membership

/-- `\s` of a regular expression. -/
def isSpace (c : Char) : Bool :=
  c.toNat ∈ [9, 10, 11, 12, 13, 32, 160, 5760, 8232, 8233, 8239, 8287, 12288, 65279] ||
    (8192 ≤ c.toNat && c.toNat ≤ 8202)

/-- `(?:@\S+\s+)?` for a mark: the word it starts, with what separates it from the next. -/
def skipMarked (mark : Char) (s : Str) : Str :=
  let word := s.takeWhile fun c => !isSpace c
  let rest := s.dropWhile fun c => !isSpace c
  if word.head? = some mark ∧ 2 ≤ word.length ∧ rest ≠ [] then rest.dropWhile isSpace else s

/-- The verb of a raw JOIN or PART and the word after it. -/
def membershipWords (line : Str) : Option (Str × Str) :=
  let s := skipMarked ':' (skipMarked '@' (line.dropWhile isSpace))
  let verb := (s.takeWhile fun c => !isSpace c).map Char.toUpper
  let rest := (s.dropWhile fun c => !isSpace c).dropWhile isSpace
  let targets := rest.takeWhile fun c => !isSpace c
  if (verb = "JOIN".toList ∨ verb = "PART".toList) ∧ targets ≠ [] then some (verb, targets)
  else none

namespace Membership

def noteRawMembership (m : Membership) (line : Str) : Membership :=
  match membershipWords line with
  | none => m
  | some (verb, targets) =>
    if verb = "PART".toList then m.notePartSent fold targets
    else if targets = ['0'] then m.notePartAll fold
    else m.noteJoinSent fold targets

/-- Our own JOIN, echoed. -/
def onJoin (m : Membership) (name : Str) : Membership :=
  let m := m.upsertChannel lower name
  { m with pendingJoins := m.pendingJoins.erase (fold name) }

/-- Our own PART, echoed, or a KICK of us. -/
def onPart (m : Membership) (name : Str) : Membership := m.deleteChannel fold (lower name)

/-- A rejection that can answer a JOIN. -/
def onRejection (m : Membership) (name : Str) : Membership :=
  { m with pendingJoins := m.pendingJoins.erase (fold name) }

/-- Forget a channel the server has told us we are not on. -/
def evictChannel (m : Membership) (name : Str) : Membership := m.deleteChannel fold (lower name)

/-- 470: the JOIN was forwarded somewhere else. -/
def onRedirect (m : Membership) (name : Str) : Membership :=
  (m.onRejection fold name).evictChannel fold lower name

end Membership
end Lurker.Irc
