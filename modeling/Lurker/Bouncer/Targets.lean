import Mathlib.Data.List.Dedup
import Lurker.Bouncer.Paging
import Lurker.Bouncer.Slice
import Lurker.Db.Absorb
import Lurker.Lib.Table

/-!
# The targets of a client's history

TARGETS asks what was active between two times. One grouped statement answers it, with rules
of its own for what counts, and each buffer's window is filled by others: both come to the
same activity. The limit is applied before the closed buffers are taken out, so the targets
are the most recent ones exactly when no closed buffer took the place of an open one.
-/

namespace Lurker.Bouncer.Targets

open Lurker.Irc (Str Casemapping foldTargetWith)
open Lurker.Db (BufferKind BufferRow Registry)
open OrderDual (toDual)

-- `toLowerCase` of the platform
variable (toLower : Str → Str)

/-- The kind of a row that no owner minted. -/
def kindForTarget (target : Str) : BufferKind :=
  if isChannelName target then .channel else if target.head? = some '=' then .dcc else .dm

/-- A network's buffers, each under the fold of its name. Its kind is that of its name, but
for the rows of the server and the system, and DCC chats from before they had a kind. -/
structure Network where
  id : Nat
  casemapping : Option Casemapping
  registry : Registry
  folded : ∀ b ∈ registry.rows, b.folded = foldTargetWith toLower casemapping b.target
  kinded : ∀ b ∈ registry.rows, b.kind = .server ∨ b.kind = .system ∨
    b.kind = kindForTarget b.target ∨ (b.kind = .dm ∧ kindForTarget b.target = .dcc)

variable {toLower}

namespace Network

def rows (n : Network toLower) : List BufferRow := n.registry.rows

/-- `resolveBufferIdByNetwork` -/
def bufferOf (n : Network toLower) (target : Str) : Option Nat :=
  (n.rows.find? fun b => b.folded = foldTargetWith toLower n.casemapping target).map (·.id)

/-- `closedFoldedSetForNetwork` -/
def closedFolded (n : Network toLower) : List Str :=
  (n.rows.filter fun b => !b.isOpen).map (·.folded)

/-- A client bound to the network. -/
def bind (n : Network toLower) (c : Session) : Session :=
  { c with networkId := n.id, casemapping := n.casemapping, bufferOf := n.bufferOf }

end Network

/-- A line or a reaction in its buffer, by when it was made. -/
structure Activity where
  bid : Nat
  target : Str
  time : Nat

def buffersOnly (b : BufferRow) : Bool :=
  b.kind ≠ .server && b.kind ≠ .system && b.kind ≠ .dcc && b.target.head? ≠ some '='

def selfHidden (toLower : Str → Str) (withoutSelfInDms : Bool) (b : BufferRow) (isSelf : Bool) :
    Bool :=
  b.kind = .dm && isSelf && (withoutSelfInDms || isServicesNick toLower b.target)

section Statement

variable (n : Network toLower) (s : Store) (events : Option HistoryEvents)
  (withoutSelfInDms : Bool) (lo hi : Nat)

/-- `JOIN buffers b ON b.id = m.buffer_id WHERE b.network_id = ?` -/
def bufferRow (m : MessageRow) : Option BufferRow := n.rows.find? fun b => b.id = m.bufferId

def messageArm : List Activity :=
  s.messages.filterMap fun m =>
    (bufferRow n m).bind fun b =>
      if buffersOnly b && !selfHidden toLower withoutSelfInDms b m.self &&
          historyFilter toLower events n.casemapping m && within (some lo) (some hi) m.time then
        some ⟨b.id, b.target, m.time⟩
      else none

/-- The reacts, or the unreacts. -/
def reactionArm (made : ReactionRow → Option Nat) : List Activity :=
  s.reactions.filterMap fun r =>
    (s.messages.find? fun m => m.id = r.messageId).bind fun m =>
      (bufferRow n m).bind fun b =>
        (made r).bind fun time =>
          if r.networkId = n.id && buffersOnly b && replayableReaction false r m &&
              !selfHidden toLower withoutSelfInDms b (r.self || m.self) &&
              within (some lo) (some hi) time then
            some ⟨b.id, b.target, time⟩
          else none

def activities (reactions : Bool) : List Activity :=
  messageArm n s events withoutSelfInDms lo hi ++
    if reactions then
      reactionArm n s withoutSelfInDms lo hi (fun r => some r.time) ++
        reactionArm n s withoutSelfInDms lo hi (·.removedAt)
    else []

end Statement

/-- A group of the statement: a buffer with its latest time. -/
structure Group where
  bid : Nat
  target : Str
  lastMessageAt : Nat

def summarize : List Activity → Option Group
  | [] => none
  | a :: rows => some ⟨a.bid, a.target, (rows.map (·.time)).foldl max a.time⟩

/-- `GROUP BY bid` -/
def groupByBuffer (rows : List Activity) : List Group :=
  ((rows.map (·.bid)).dedup).filterMap fun bid => summarize (rows.filter fun a => a.bid = bid)

/-- The order in which the statement leaves groups of one time. -/
structure Ties where
  rank : Nat → Nat
  inj : Function.Injective rank

def newestKey (ties : Ties) (lastMessageAt bid : Nat) : ℕᵒᵈ ×ₗ ℕ :=
  toLex (toDual lastMessageAt, ties.rank bid)

def Group.key (ties : Ties) (g : Group) : ℕᵒᵈ ×ₗ ℕ := newestKey ties g.lastMessageAt g.bid

structure BufferSummary where
  target : Str
  lastMessageAt : Nat
deriving DecidableEq

def Group.summary (g : Group) : BufferSummary := ⟨g.target, g.lastMessageAt⟩

variable (ties : Ties)

def listActiveTargetsInWindow (n : Network toLower) (s : Store) (isoA isoB limit : Nat)
    (events : Option HistoryEvents) (reactions withoutSelfInDms : Bool) : List BufferSummary :=
  let bounds := if isoA ≤ isoB then (isoA, isoB) else (isoB, isoA)
  let groups := groupByBuffer (activities n s events withoutSelfInDms bounds.1 bounds.2 reactions)
  ((groups.insertionSort (Group.key ties · ≤ Group.key ties ·)).take limit).map Group.summary

/-- The targets listed to a client, each with its time. -/
def handleChatHistoryTargets (n : Network toLower) (s : Store) (c : Session)
    (isoA isoB limit : Nat) : List BufferSummary :=
  let closed := n.closedFolded
  (listActiveTargetsInWindow ties n s isoA isoB limit c.historyEvents c.replaysReactions
      (!c.wantsSelfMessages)).filter fun t =>
    !closed.any fun folded => folded = foldTargetWith toLower n.casemapping t.target

/-- The options of `loadChatHistory` for a target. -/
def windowOptions (toLower : Str → Str) (c : Session) (target : Str) : HistoryWindowOptions where
  newestFirst := true
  events := c.historyEvents
  reactions := c.replaysReactions
  withoutSelf := !c.replaysSelfLine toLower (isChannelName target) target

section Windows

variable (n : Network toLower) (s : Store) (c : Session) (isoA isoB limit : Nat)

/-- A buffer's window between the bounds. -/
def window (b : BufferRow) : List HistoryRow :=
  loadHistoryWindow toLower s n.id ((n.bind c).bufferOf b.target) n.casemapping
    (some (min isoA isoB)) (some (max isoA isoB)) limit (windowOptions toLower c b.target)

/-- The time of the newest row of a buffer's window, none of an empty one. -/
def newest (b : BufferRow) : Option Nat :=
  (window n s c isoA isoB limit b).getLast?.map HistoryRow.time

/-- A channel or a DM. -/
def isConversation (b : BufferRow) : Bool :=
  (b.kind = .channel || b.kind = .dm) && kindForTarget b.target ≠ .dcc

/-- The open channels and DMs with a window that is not empty, and its newest time. -/
def due : List BufferSummary :=
  (n.rows.filter fun b => isConversation b && b.isOpen).filterMap fun b =>
    (newest n s c isoA isoB limit b).map fun time => ⟨b.target, time⟩

/-- The channels and DMs with a window that is not empty, open or closed, newest first. -/
def byNewest : List BufferRow :=
  (n.rows.filter fun b => isConversation b && (newest n s c isoA isoB limit b).isSome).insertionSort
    fun b b' => newestKey ties ((newest n s c isoA isoB limit b).getD 0) b.id ≤
      newestKey ties ((newest n s c isoA isoB limit b').getD 0) b'.id

end Windows

/-- The `limit` most recent of some targets, newest first. -/
structure MostRecent (limit : Nat) (all listed : List BufferSummary) : Prop where
  fits : listed.length = min limit all.length
  newestFirst : listed.Pairwise fun t t' => t'.lastMessageAt ≤ t.lastMessageAt
  chosen : ∃ left, all.Perm (listed ++ left) ∧
    ∀ t ∈ listed, ∀ t' ∈ left, t'.lastMessageAt ≤ t.lastMessageAt

namespace Network

variable {n : Network toLower}

theorem find_id {id : Nat} {b : BufferRow} :
    (n.rows.find? fun b => b.id = id) = some b ↔ b ∈ n.rows ∧ b.id = id :=
  Table.get?_eq_some (t := (⟨n.rows, n.registry.ids⟩ : Table BufferRow BufferRow.id))

theorem eq_of_folded {b b' : BufferRow} (hb : b ∈ n.rows) (hb' : b' ∈ n.rows)
    (h : b.folded = b'.folded) : b = b' :=
  Table.eq_of_key (t := (⟨n.rows, n.registry.folds⟩ : Table BufferRow BufferRow.folded)) hb hb' h

theorem eq_of_id {b b' : BufferRow} (hb : b ∈ n.rows) (hb' : b' ∈ n.rows) (h : b.id = b'.id) :
    b = b' :=
  Table.eq_of_key (t := (⟨n.rows, n.registry.ids⟩ : Table BufferRow BufferRow.id)) hb hb' h

/-- A buffer is found under its own name. -/
theorem bufferOf_target {b : BufferRow} (hb : b ∈ n.rows) : n.bufferOf b.target = some b.id := by
  have hfind : (n.rows.find? fun b' => b'.folded = foldTargetWith toLower n.casemapping b.target) =
      some b :=
    (Table.get?_eq_some (t := (⟨n.rows, n.registry.folds⟩ : Table BufferRow BufferRow.folded))).mpr
      ⟨hb, n.folded b hb⟩
  rw [bufferOf, hfind]
  rfl

/-- The probe of the closed set finds the buffer itself. -/
theorem closed_iff {b : BufferRow} (hb : b ∈ n.rows) :
    (n.closedFolded.any fun folded => folded = foldTargetWith toLower n.casemapping b.target) =
      !b.isOpen := by
  rw [Bool.eq_iff_iff, List.any_eq_true]
  constructor
  · rintro ⟨folded, hmem, heq⟩
    obtain ⟨b', hb', rfl⟩ := List.mem_map.mp hmem
    obtain ⟨hrow, hclosed⟩ := List.mem_filter.mp hb'
    rw [decide_eq_true_iff, ← n.folded b hb] at heq
    rwa [← eq_of_folded hrow hb heq]
  · intro hclosed
    exact ⟨b.folded, List.mem_map_of_mem (List.mem_filter.mpr ⟨hb, hclosed⟩),
      decide_eq_true (n.folded b hb)⟩

end Network

theorem kindForTarget_dcc {target : Str} : kindForTarget target = .dcc ↔ target.head? = some '=' := by
  rw [kindForTarget]
  cases target with
  | nil => decide
  | cons ch rest =>
    rw [isChannelName, List.head?_cons]
    by_cases hdcc : ch = '='
    · subst hdcc
      exact iff_of_true (by decide) rfl
    · have hnot : ¬ some ch = some '=' := fun h => hdcc (Option.some.inj h)
      rw [if_neg hnot]
      refine iff_of_false ?_ hnot
      split <;> exact BufferKind.noConfusion

/-- The statement keeps the channels and the DMs. -/
theorem buffersOnly_eq (b : BufferRow) : buffersOnly b = isConversation b := by
  have hname : decide (b.target.head? ≠ some '=') = decide (kindForTarget b.target ≠ .dcc) :=
    decide_eq_decide.mpr (not_congr kindForTarget_dcc.symm)
  rw [buffersOnly, isConversation, hname]
  cases b.kind <;> rfl

/-- A conversation is a DM when its name is not a channel's. -/
theorem kind_dm {n : Network toLower} {b : BufferRow} (hb : b ∈ n.rows)
    (hconversation : isConversation b = true) : decide (b.kind = .dm) = !isChannelName b.target := by
  have hkind := n.kinded b hb
  rw [isConversation, Bool.and_eq_true, decide_eq_true_iff] at hconversation
  obtain ⟨hkept, hdcc⟩ := hconversation
  rcases hkind with h | h | h | ⟨-, h⟩
  · rw [h] at hkept
    cases hkept
  · rw [h] at hkept
    cases hkept
  · rw [h, kindForTarget]
    cases isChannelName b.target with
    | true => rfl
    | false =>
      by_cases hchat : b.target.head? = some '='
      · exact absurd (kindForTarget_dcc.mpr hchat) hdcc
      · rw [if_neg Bool.false_ne_true, if_neg hchat]
        rfl
  · exact absurd h hdcc

/-- The statement hides a line of ours where the window leaves it out. -/
theorem selfHidden_eq {n : Network toLower} (c : Session) {b : BufferRow} (hb : b ∈ n.rows)
    (hconversation : isConversation b = true) (isSelf : Bool) :
    selfHidden toLower (!c.wantsSelfMessages) b isSelf =
      (isSelf && (windowOptions toLower c b.target).withoutSelf) := by
  rw [selfHidden, kind_dm hb hconversation]
  simp only [windowOptions, Session.replaysSelfLine]
  cases isChannelName b.target <;> cases isSelf <;> cases c.wantsSelfMessages <;>
    cases isServicesNick toLower b.target <;> rfl

section Activities

variable {n : Network toLower} {s : Store} {c : Session} {lo hi : Nat}

/-- What a buffer's window is filled from. -/
def rowsOf (n : Network toLower) (s : Store) (c : Session) (lo hi : Nat) (b : BufferRow) :
    List HistoryRow :=
  rowsWithin toLower s n.id b.id n.casemapping (some lo) (some hi) (windowOptions toLower c b.target)

theorem mem_messageArm {a : Activity} :
    a ∈ messageArm n s c.historyEvents (!c.wantsSelfMessages) lo hi ↔
      ∃ b ∈ n.rows, isConversation b = true ∧ a.bid = b.id ∧ a.target = b.target ∧
        ∃ m ∈ historyLines toLower s b.id n.casemapping (windowOptions toLower c b.target),
          within (some lo) (some hi) m.time = true ∧ a.time = m.time := by
  rw [messageArm, List.mem_filterMap]
  constructor
  · rintro ⟨m, hm, h⟩
    obtain ⟨b, hfound, h⟩ := Option.bind_eq_some_iff.mp h
    obtain ⟨hb, hid⟩ := Network.find_id.mp hfound
    split at h
    · rename_i hkept
      obtain rfl := Option.some.inj h
      rw [buffersOnly_eq] at hkept
      simp only [Bool.and_eq_true, Bool.not_eq_true'] at hkept
      obtain ⟨⟨⟨hconversation, hself⟩, hfilter⟩, hwithin⟩ := hkept
      rw [selfHidden_eq c hb hconversation] at hself
      refine ⟨b, hb, hconversation, rfl, rfl, m, List.mem_filter.mpr ⟨hm, ?_⟩, hwithin, rfl⟩
      rw [Bool.and_eq_true, Bool.and_eq_true, decide_eq_true_iff]
      refine ⟨⟨hid.symm, hfilter⟩, ?_⟩
      revert hself
      cases m.self <;> cases (windowOptions toLower c b.target).withoutSelf <;> decide
    · cases h
  · rintro ⟨b, hb, hconversation, hbid, htarget, m, hline, hwithin, htime⟩
    obtain ⟨hm, hkept⟩ := List.mem_filter.mp hline
    rw [Bool.and_eq_true, Bool.and_eq_true, decide_eq_true_iff] at hkept
    obtain ⟨⟨hid, hfilter⟩, hself⟩ := hkept
    refine ⟨m, hm, Option.bind_eq_some_iff.mpr ⟨b, Network.find_id.mpr ⟨hb, hid.symm⟩, ?_⟩⟩
    have hhidden : selfHidden toLower (!c.wantsSelfMessages) b m.self = false := by
      rw [selfHidden_eq c hb hconversation]
      revert hself
      cases m.self <;> cases (windowOptions toLower c b.target).withoutSelf <;> decide
    have hfilter : historyFilter toLower c.historyEvents n.casemapping m = true := hfilter
    rw [buffersOnly_eq, hconversation, hhidden, hfilter, hwithin]
    obtain ⟨bid, target, time⟩ := a
    cases hbid
    cases htarget
    cases htime
    rfl

/-- When a reaction was made, or taken back. -/
def madeAt (unreacts : Bool) (r : ReactionRow) : Option Nat :=
  if unreacts then r.removedAt else some r.time

/-- A window lists a reaction by the line it is on. -/
theorem reactionEvent_time {networkId bufferId : Nat} {withoutSelf unreacts : Bool}
    {r : ReactionRow} {time : Nat} :
    (∃ e, reactionEvent s networkId bufferId withoutSelf unreacts r = some e ∧ e.time = time) ↔
      ∃ m, (s.messages.find? fun m => m.id = r.messageId) = some m ∧
        madeAt unreacts r = some time ∧ r.networkId = networkId ∧ m.bufferId = bufferId ∧
        replayableReaction withoutSelf r m = true := by
  constructor
  · rintro ⟨e, h, rfl⟩
    obtain ⟨m, hfound, h⟩ := Option.bind_eq_some_iff.mp h
    obtain ⟨time, hmade, h⟩ := Option.bind_eq_some_iff.mp h
    obtain ⟨parentMsgid, -, h⟩ := Option.bind_eq_some_iff.mp h
    split at h
    · rename_i hkept
      obtain rfl := Option.some.inj h
      exact ⟨m, hfound, hmade, hkept⟩
    · cases h
  · rintro ⟨m, hfound, hmade, hkept⟩
    have hmsgid : m.msgid ≠ none := by
      intro hnone
      have := hkept.2.2
      rw [replayableReaction, hnone] at this
      cases this
    obtain ⟨parentMsgid, hparent⟩ := Option.ne_none_iff_exists'.mp hmsgid
    refine ⟨_, Option.bind_eq_some_iff.mpr ⟨m, hfound, Option.bind_eq_some_iff.mpr ⟨time, hmade,
      Option.bind_eq_some_iff.mpr ⟨parentMsgid, hparent, if_pos hkept⟩⟩⟩, rfl⟩

/-- The statement's two conditions of a reaction are the window's one. -/
theorem replayableReaction_eq (withoutSelf : Bool) (r : ReactionRow) (m : MessageRow) :
    replayableReaction withoutSelf r m =
      (replayableReaction false r m && !((r.self || m.self) && withoutSelf)) := by
  rw [replayableReaction, replayableReaction]
  cases r.self <;> cases m.self <;> cases withoutSelf <;> simp

theorem mem_reactionArm {unreacts : Bool} {a : Activity} :
    a ∈ reactionArm n s (!c.wantsSelfMessages) lo hi (madeAt unreacts) ↔
      ∃ b ∈ n.rows, isConversation b = true ∧ a.bid = b.id ∧ a.target = b.target ∧
        ∃ e ∈ historyReactions s n.id b.id (windowOptions toLower c b.target).withoutSelf unreacts,
          within (some lo) (some hi) e.time = true ∧ a.time = e.time := by
  rw [reactionArm, List.mem_filterMap]
  constructor
  · rintro ⟨r, hr, h⟩
    obtain ⟨m, hm, h⟩ := Option.bind_eq_some_iff.mp h
    obtain ⟨b, hfound, h⟩ := Option.bind_eq_some_iff.mp h
    obtain ⟨time, hmade, h⟩ := Option.bind_eq_some_iff.mp h
    obtain ⟨hb, hid⟩ := Network.find_id.mp hfound
    split at h
    · rename_i hkept
      obtain rfl := Option.some.inj h
      rw [buffersOnly_eq] at hkept
      simp only [Bool.and_eq_true, decide_eq_true_iff] at hkept
      obtain ⟨⟨⟨⟨hnetwork, hconversation⟩, hreplayable⟩, hself⟩, hwithin⟩ := hkept
      rw [selfHidden_eq c hb hconversation] at hself
      have hwindow : replayableReaction (windowOptions toLower c b.target).withoutSelf r m = true := by
        rw [replayableReaction_eq, hreplayable, hself]
        rfl
      obtain ⟨e, he, htime⟩ := reactionEvent_time.mpr ⟨m, hm, hmade, hnetwork, hid.symm, hwindow⟩
      refine ⟨b, hb, hconversation, rfl, rfl, e, List.mem_filterMap.mpr ⟨r, hr, he⟩, ?_, htime.symm⟩
      rwa [htime]
    · cases h
  · rintro ⟨b, hb, hconversation, hbid, htarget, e, hmem, hwithin, htime⟩
    obtain ⟨r, hr, he⟩ := List.mem_filterMap.mp hmem
    obtain ⟨m, hm, hmade, hnetwork, hid, hwindow⟩ := reactionEvent_time.mp ⟨e, he, rfl⟩
    rw [replayableReaction_eq, Bool.and_eq_true] at hwindow
    refine ⟨r, hr, Option.bind_eq_some_iff.mpr ⟨m, hm, Option.bind_eq_some_iff.mpr ⟨b,
      Network.find_id.mpr ⟨hb, hid.symm⟩, Option.bind_eq_some_iff.mpr ⟨e.time, hmade, ?_⟩⟩⟩⟩
    rw [buffersOnly_eq, hconversation, selfHidden_eq c hb hconversation, hwindow.1, hwindow.2,
      hwithin, decide_eq_true hnetwork]
    obtain ⟨bid, target, time⟩ := a
    cases hbid
    cases htarget
    cases htime
    rfl

/-- The statement counts what the windows hold. -/
theorem mem_activities {a : Activity} :
    a ∈ activities n s c.historyEvents (!c.wantsSelfMessages) lo hi c.replaysReactions ↔
      ∃ b ∈ n.rows, isConversation b = true ∧ a.bid = b.id ∧ a.target = b.target ∧
        ∃ row ∈ rowsOf n s c lo hi b, a.time = row.time := by
  have hreacts := @mem_reactionArm toLower n s c lo hi false a
  have hunreacts := @mem_reactionArm toLower n s c lo hi true a
  have hreaction (b : BufferRow) (time : Nat) :
      (∃ row ∈ (reactionsWithin s n.id b.id (some lo) (some hi)
          (windowOptions toLower c b.target).withoutSelf).map HistoryRow.reaction,
        time = row.time) ↔
        ∃ unreacts, ∃ e ∈ historyReactions s n.id b.id
          (windowOptions toLower c b.target).withoutSelf unreacts,
          within (some lo) (some hi) e.time = true ∧ time = e.time := by
    constructor
    · rintro ⟨row, hrow, rfl⟩
      obtain ⟨e, he, rfl⟩ := List.mem_map.mp hrow
      rcases List.mem_append.mp he with he | he
      · exact ⟨false, e, (List.mem_filter.mp he).1, (List.mem_filter.mp he).2, rfl⟩
      · exact ⟨true, e, (List.mem_filter.mp he).1, (List.mem_filter.mp he).2, rfl⟩
    · rintro ⟨unreacts, e, he, hwithin, rfl⟩
      refine ⟨.reaction e, List.mem_map_of_mem (List.mem_append.mpr ?_), rfl⟩
      cases unreacts
      · exact Or.inl (List.mem_filter.mpr ⟨he, hwithin⟩)
      · exact Or.inr (List.mem_filter.mpr ⟨he, hwithin⟩)
  rw [activities, List.mem_append, mem_messageArm]
  constructor
  · rintro (⟨b, hb, hconversation, hbid, htarget, m, hm, hwithin, htime⟩ | h)
    · exact ⟨b, hb, hconversation, hbid, htarget, .line m, List.mem_append_left _
        (List.mem_map_of_mem (List.mem_filter.mpr ⟨hm, hwithin⟩)), htime⟩
    · split at h
      · rename_i hreplays
        have hmade : ∃ unreacts, a ∈ reactionArm n s (!c.wantsSelfMessages) lo hi (madeAt unreacts) :=
          (List.mem_append.mp h).elim (⟨false, ·⟩) (⟨true, ·⟩)
        obtain ⟨unreacts, harm⟩ := hmade
        obtain ⟨b, hb, hconversation, hbid, htarget, he⟩ := mem_reactionArm.mp harm
        obtain ⟨row, hrow, htime⟩ := (hreaction b a.time).mpr ⟨unreacts, he⟩
        refine ⟨b, hb, hconversation, hbid, htarget, row, List.mem_append_right _ ?_, htime⟩
        exact (if_pos (c := (windowOptions toLower c b.target).reactions = true) hreplays).symm ▸ hrow
      · cases h
  · rintro ⟨b, hb, hconversation, hbid, htarget, row, hrow, htime⟩
    rcases List.mem_append.mp hrow with hrow | hrow
    · obtain ⟨m, hm, rfl⟩ := List.mem_map.mp hrow
      obtain ⟨hm, hwithin⟩ := List.mem_filter.mp hm
      exact Or.inl ⟨b, hb, hconversation, hbid, htarget, m, hm, hwithin, htime⟩
    · split at hrow
      · rename_i hreplays
        have hreplays : c.replaysReactions = true := hreplays
        obtain ⟨unreacts, he⟩ := (hreaction b a.time).mp ⟨row, hrow, htime⟩
        rw [if_pos hreplays]
        refine Or.inr (List.mem_append.mpr ?_)
        cases unreacts
        · exact Or.inl (mem_reactionArm.mpr ⟨b, hb, hconversation, hbid, htarget, he⟩)
        · exact Or.inr (mem_reactionArm.mpr ⟨b, hb, hconversation, hbid, htarget, he⟩)
      · cases hrow

end Activities

theorem foldl_max (times : List Nat) (first : Nat) :
    times.foldl max first ∈ first :: times ∧ ∀ t ∈ first :: times, t ≤ times.foldl max first := by
  induction times generalizing first with
  | nil => exact ⟨List.mem_cons_self, fun t ht => (List.mem_singleton.mp ht).le⟩
  | cons t times ih =>
    obtain ⟨hmem, hle⟩ := ih (max first t)
    rw [List.foldl_cons]
    constructor
    · rcases List.mem_cons.mp hmem with h | h
      · rw [h]
        rcases max_choice first t with h | h <;> rw [h]
        · exact List.mem_cons_self
        · exact List.mem_cons_of_mem _ List.mem_cons_self
      · exact List.mem_cons_of_mem _ (List.mem_cons_of_mem _ h)
    · intro u hu
      have hmax := hle _ List.mem_cons_self
      rcases List.mem_cons.mp hu with rfl | hu
      · exact (le_max_left u t).trans hmax
      rcases List.mem_cons.mp hu with rfl | hu
      · exact (le_max_right first u).trans hmax
      · exact hle u (List.mem_cons_of_mem _ hu)

/-- A group is one of its rows at the latest time of them. -/
theorem summarize_some {rows : List Activity} {g : Group} (h : summarize rows = some g) :
    (∃ a ∈ rows, a.time = g.lastMessageAt) ∧ (∀ a ∈ rows, a.time ≤ g.lastMessageAt) ∧
      ∃ a ∈ rows, a.bid = g.bid ∧ a.target = g.target := by
  cases rows with
  | nil => cases h
  | cons a rows =>
    obtain rfl := Option.some.inj h
    obtain ⟨hmem, hle⟩ := foldl_max (rows.map (·.time)) a.time
    have hmap (t : Nat) : t ∈ a.time :: rows.map (·.time) ↔ ∃ a' ∈ a :: rows, a'.time = t :=
      List.mem_map (f := Activity.time) (l := a :: rows)
    exact ⟨(hmap _).mp hmem, fun a' ha' => hle _ ((hmap _).mpr ⟨a', ha', rfl⟩),
      a, List.mem_cons_self, rfl, rfl⟩

theorem groupByBuffer_bid {rows : List Activity} {bid : Nat} {g : Group}
    (h : summarize (rows.filter fun a => a.bid = bid) = some g) : g.bid = bid := by
  obtain ⟨-, -, a, ha, hbid, -⟩ := summarize_some h
  have := (List.mem_filter.mp ha).2
  rw [decide_eq_true_iff] at this
  rw [← hbid, this]

/-- A buffer has one group. -/
theorem groupByBuffer_nodup (rows : List Activity) : ((groupByBuffer rows).map (·.bid)).Nodup := by
  have hbids := (rows.map (·.bid)).nodup_dedup
  rw [List.nodup_iff_pairwise_ne, List.pairwise_map]
  rw [List.nodup_iff_pairwise_ne] at hbids
  refine hbids.filterMap _ fun bid bid' hne g hg g' hg' heq => hne ?_
  rw [← groupByBuffer_bid hg, ← groupByBuffer_bid hg', heq]

/-- The group of a buffer has the latest time of its rows. -/
theorem mem_groupByBuffer {rows : List Activity}
    (hname : ∀ a ∈ rows, ∀ a' ∈ rows, a.bid = a'.bid → a.target = a'.target) {g : Group} :
    g ∈ groupByBuffer rows ↔
      (∃ a ∈ rows, a.bid = g.bid ∧ a.target = g.target ∧ a.time = g.lastMessageAt) ∧
        ∀ a ∈ rows, a.bid = g.bid → a.time ≤ g.lastMessageAt := by
  have hfilter {bid : Nat} {a : Activity} :
      a ∈ rows.filter (fun a => a.bid = bid) ↔ a ∈ rows ∧ a.bid = bid := by
    rw [List.mem_filter, decide_eq_true_iff]
  rw [groupByBuffer, List.mem_filterMap]
  constructor
  · rintro ⟨bid, -, h⟩
    obtain rfl := groupByBuffer_bid h
    obtain ⟨⟨a, ha, htime⟩, hle, a', ha', -, htarget⟩ := summarize_some h
    obtain ⟨ha, hbid⟩ := hfilter.mp ha
    obtain ⟨ha', hbid'⟩ := hfilter.mp ha'
    refine ⟨⟨a, ha, hbid, ?_, htime⟩, fun b hb hbid => hle b (hfilter.mpr ⟨hb, hbid⟩)⟩
    rw [← htarget]
    exact hname a ha a' ha' (hbid.trans hbid'.symm)
  · rintro ⟨⟨a, ha, hbid, htarget, htime⟩, hle⟩
    have hin := hfilter.mpr ⟨ha, hbid⟩
    obtain ⟨a', rest, hrows⟩ := List.exists_cons_of_ne_nil (List.ne_nil_of_mem hin)
    obtain ⟨g', hsome⟩ : ∃ g', summarize (rows.filter fun a => a.bid = g.bid) = some g' := by
      rw [hrows]
      exact ⟨_, rfl⟩
    refine ⟨g.bid, List.mem_dedup.mpr (hbid ▸ List.mem_map_of_mem ha), hsome.trans ?_⟩
    obtain ⟨⟨b, hb, htime'⟩, hle', b', hb', -, htarget'⟩ := summarize_some hsome
    obtain ⟨hb, hbbid⟩ := hfilter.mp hb
    obtain ⟨hb', hbbid'⟩ := hfilter.mp hb'
    have hbidEq := groupByBuffer_bid hsome
    have htargetEq : g'.target = g.target := by
      rw [← htarget', ← htarget]
      exact hname b' hb' a ha (hbbid'.trans hbid.symm)
    have htimeEq : g'.lastMessageAt = g.lastMessageAt := by
      have hup := hle b hb hbbid
      have hdown := hle' a hin
      omega
    obtain ⟨bid, target, last⟩ := g
    obtain ⟨bid', target', last'⟩ := g'
    cases hbidEq
    cases htargetEq
    cases htimeEq
    rfl

theorem getLast_time {rows : List HistoryRow} (hsorted : rows.Pairwise fun r r' => r.time ≤ r'.time)
    {time : Nat} : rows.getLast?.map HistoryRow.time = some time ↔
      (∃ row ∈ rows, row.time = time) ∧ ∀ row ∈ rows, row.time ≤ time := by
  rcases List.eq_nil_or_concat rows with rfl | ⟨front, last, rfl⟩
  · simp
  · rw [List.concat_eq_append] at hsorted ⊢
    have hlast : ∀ row ∈ front ++ [last], row.time ≤ last.time := by
      intro row hrow
      rcases List.mem_append.mp hrow with hrow | hrow
      · exact (List.pairwise_append.mp hsorted).2.2 row hrow last List.mem_cons_self
      · rw [List.mem_singleton.mp hrow]
    have hin : last ∈ front ++ [last] := List.mem_append_right _ List.mem_cons_self
    rw [List.getLast?_append, List.getLast?_singleton]
    constructor
    · intro h
      obtain rfl := Option.some.inj h
      exact ⟨⟨last, hin, rfl⟩, hlast⟩
    · rintro ⟨⟨row, hrow, rfl⟩, hle⟩
      exact congrArg some (le_antisymm (hle last hin) (hlast row hrow))

section Newest

variable {n : Network toLower} {s : Store} {c : Session} {isoA isoB limit : Nat}

/-- The newest row of a window is the newest of what it is filled from. -/
theorem newest_some (hlimit : 0 < limit) {b : BufferRow} (hb : b ∈ n.rows) {time : Nat} :
    newest n s c isoA isoB limit b = some time ↔
      (∃ row ∈ rowsOf n s c (min isoA isoB) (max isoA isoB) b, row.time = time) ∧
        ∀ row ∈ rowsOf n s c (min isoA isoB) (max isoA isoB) b, row.time ≤ time := by
  have hbuffer : (n.bind c).bufferOf b.target = some b.id := Network.bufferOf_target hb
  have hnodup := @rowsWithin_nodup toLower s n.id b.id n.casemapping (some (min isoA isoB))
    (some (max isoA isoB)) (windowOptions toLower c b.target)
  have hsorted := (Pages.pairwise_lt_sorted hnodup).imp fun h => key_time h
  have hmem (row : HistoryRow) : row ∈ (rowsOf n s c (min isoA isoB) (max isoA isoB) b).insertionSort
      (HistoryRow.key · ≤ HistoryRow.key ·) ↔
        row ∈ rowsOf n s c (min isoA isoB) (max isoA isoB) b := List.mem_insertionSort _
  have hlast := @getLast_time _ hsorted time
  have hdirection : (windowOptions toLower c b.target).newestFirst = true := rfl
  rw [newest, window, hbuffer, window_slice, slice, if_pos hdirection, List.getLast?_drop]
  split
  · rename_i hnone
    have hempty : (rowsWithin toLower s n.id b.id n.casemapping (some (min isoA isoB))
        (some (max isoA isoB)) (windowOptions toLower c b.target)).insertionSort
          (HistoryRow.key · ≤ HistoryRow.key ·) = [] :=
      List.eq_nil_of_length_eq_zero (by omega)
    refine iff_of_false (fun h => by cases h) ?_
    rintro ⟨⟨row, hrow, -⟩, -⟩
    have := (hmem row).mpr hrow
    rw [rowsOf, hempty] at this
    cases this
  · rw [hlast]
    exact and_congr (exists_congr fun row => and_congr_left fun _ => hmem row)
      (forall_congr' fun row => imp_congr_left (hmem row))

/-- The rows a buffer has in the grouped statement are those of its window. -/
theorem activities_of {b : BufferRow} (hb : b ∈ n.rows) (hconversation : isConversation b = true)
    {lo hi : Nat} {p : Nat → Prop} :
    (∃ a ∈ activities n s c.historyEvents (!c.wantsSelfMessages) lo hi c.replaysReactions,
        a.bid = b.id ∧ p a.time) ↔ ∃ row ∈ rowsOf n s c lo hi b, p row.time := by
  constructor
  · rintro ⟨a, ha, hbid, hp⟩
    obtain ⟨b', hb', -, hbid', -, row, hrow, htime⟩ := mem_activities.mp ha
    obtain rfl := Network.eq_of_id hb' hb (hbid'.symm.trans hbid)
    exact ⟨row, hrow, htime ▸ hp⟩
  · rintro ⟨row, hrow, hp⟩
    exact ⟨⟨b.id, b.target, row.time⟩,
      mem_activities.mpr ⟨b, hb, hconversation, rfl, rfl, row, hrow, rfl⟩, rfl, hp⟩

/-- The groups are the channels and DMs whose windows are not empty, at their newest times. -/
theorem mem_groups (hlimit : 0 < limit) {g : Group} :
    g ∈ groupByBuffer (activities n s c.historyEvents (!c.wantsSelfMessages) (min isoA isoB)
        (max isoA isoB) c.replaysReactions) ↔
      ∃ b ∈ n.rows, isConversation b = true ∧
        newest n s c isoA isoB limit b = some g.lastMessageAt ∧ g.bid = b.id ∧ g.target = b.target := by
  have hname : ∀ a ∈ activities n s c.historyEvents (!c.wantsSelfMessages) (min isoA isoB)
      (max isoA isoB) c.replaysReactions, ∀ a' ∈ activities n s c.historyEvents
        (!c.wantsSelfMessages) (min isoA isoB) (max isoA isoB) c.replaysReactions,
      a.bid = a'.bid → a.target = a'.target := by
    intro a ha a' ha' hbid
    obtain ⟨b, hb, -, hid, htarget, -⟩ := mem_activities.mp ha
    obtain ⟨b', hb', -, hid', htarget', -⟩ := mem_activities.mp ha'
    obtain rfl := Network.eq_of_id hb hb' (hid.symm.trans (hbid.trans hid'))
    rw [htarget, htarget']
  rw [mem_groupByBuffer hname]
  constructor
  · rintro ⟨⟨a, ha, hbid, htarget, htime⟩, hle⟩
    obtain ⟨b, hb, hconversation, hid, hname, row, hrow, hat⟩ := mem_activities.mp ha
    refine ⟨b, hb, hconversation, (newest_some hlimit hb).mpr ⟨⟨row, hrow, hat.symm.trans htime⟩, ?_⟩,
      hbid.symm.trans hid, htarget.symm.trans hname⟩
    intro row hrow
    obtain ⟨a', ha', hbid', htime'⟩ := (activities_of (p := (· = row.time)) hb hconversation).mpr
      ⟨row, hrow, rfl⟩
    rw [← htime']
    exact hle a' ha' (hbid'.trans (hid.symm.trans hbid))
  · rintro ⟨b, hb, hconversation, hnewest, hbid, htarget⟩
    obtain ⟨⟨row, hrow, htime⟩, hle⟩ := (newest_some hlimit hb).mp hnewest
    refine ⟨⟨⟨b.id, b.target, row.time⟩,
      mem_activities.mpr ⟨b, hb, hconversation, rfl, rfl, row, hrow, rfl⟩, hbid.symm, htarget.symm,
      htime⟩, ?_⟩
    intro a ha hid
    obtain ⟨row', hrow', htime'⟩ := (activities_of (p := (· = a.time)) hb hconversation).mp
      ⟨a, ha, hid.trans hbid, rfl⟩
    rw [← htime']
    exact hle row' hrow'

end Newest

/-- Cutting a list newest first and then keeping some of it leaves the most recent of those
exactly when none was cut for one that is not kept. -/
theorem mostRecent_take_iff {sorted : List BufferRow} {summary : BufferRow → BufferSummary}
    {kept : BufferRow → Bool} {limit : Nat} {all : List BufferSummary}
    (hsorted : sorted.Pairwise fun b b' => (summary b').lastMessageAt ≤ (summary b).lastMessageAt)
    (hall : all.Perm ((sorted.filter kept).map summary)) :
    MostRecent limit all (((sorted.take limit).filter kept).map summary) ↔
      (∀ b ∈ sorted.take limit, kept b = true) ∨ ∀ b ∈ sorted.drop limit, kept b = false := by
  have hsplit : sorted.filter kept = (sorted.take limit).filter kept ++
      (sorted.drop limit).filter kept := by
    rw [← List.filter_append, List.take_append_drop]
  have hlen : all.length = ((sorted.take limit).filter kept).length +
      ((sorted.drop limit).filter kept).length := by
    rw [hall.length_eq, List.length_map, hsplit, List.length_append]
  have htake : (sorted.take limit).length ≤ limit := List.length_take_le ..
  constructor
  · intro h
    by_contra hcut
    rw [not_or, not_forall, not_forall] at hcut
    obtain ⟨⟨b, hb⟩, ⟨b', hb'⟩⟩ := hcut
    rw [Classical.not_imp] at hb hb'
    have hshort : ((sorted.take limit).filter kept).length < (sorted.take limit).length :=
      List.length_filter_lt_length_iff_exists.mpr ⟨b, hb.1, hb.2⟩
    have hleft : 0 < ((sorted.drop limit).filter kept).length :=
      List.length_pos_of_mem (List.mem_filter.mpr ⟨hb'.1, by simpa using hb'.2⟩)
    have hfits := h.fits
    rw [List.length_map] at hfits
    omega
  · intro h
    have hfiltered := (hsorted.sublist List.filter_sublist : (sorted.filter kept).Pairwise _)
    rw [hsplit] at hfiltered
    obtain ⟨hfirst, -, hacross⟩ := List.pairwise_append.mp hfiltered
    refine ⟨?_, List.pairwise_map.mpr hfirst, ((sorted.drop limit).filter kept).map summary, ?_, ?_⟩
    · rw [List.length_map, hlen]
      rcases h with h | h
      · have hwhole : (sorted.take limit).filter kept = sorted.take limit :=
          List.filter_eq_self.mpr h
        have hdrop : ((sorted.drop limit).filter kept).length ≤ (sorted.drop limit).length :=
          List.length_filter_le ..
        rw [List.length_drop] at hdrop
        rw [hwhole, List.length_take]
        omega
      · have hnone : (sorted.drop limit).filter kept = [] :=
          List.filter_eq_nil_iff.mpr fun b hb => by rw [h b hb]; exact Bool.false_ne_true
        have hsub : ((sorted.take limit).filter kept).length ≤ (sorted.take limit).length :=
          List.length_filter_le ..
        rw [hnone, List.length_nil]
        omega
    · rw [← List.map_append, ← hsplit]
      exact hall
    · intro t ht t' ht'
      obtain ⟨b, hb, rfl⟩ := List.mem_map.mp ht
      obtain ⟨b', hb', rfl⟩ := List.mem_map.mp ht'
      exact hacross b hb b' hb'

section Answer

variable (n : Network toLower) (s : Store) (c : Session) (isoA isoB limit : Nat)

/-- A buffer as its group, at the newest time of its window. -/
def groupOf (b : BufferRow) : Group :=
  ⟨b.id, b.target, (newest n s c isoA isoB limit b).getD 0⟩

variable {limit}

theorem mem_byNewest {b : BufferRow} : b ∈ byNewest ties n s c isoA isoB limit ↔
    b ∈ n.rows ∧ isConversation b = true ∧ (newest n s c isoA isoB limit b).isSome = true := by
  rw [byNewest, List.mem_insertionSort, List.mem_filter, Bool.and_eq_true]

theorem byNewest_keys : ((n.rows.filter fun b =>
    isConversation b && (newest n s c isoA isoB limit b).isSome).map fun b =>
      (groupOf n s c isoA isoB limit b).key ties).Nodup := by
  have hids := n.registry.ids.sublist (List.filter_sublist.map BufferRow.id :
    (n.rows.filter fun b => isConversation b && (newest n s c isoA isoB limit b).isSome).map _ |>.Sublist _)
  rw [List.nodup_iff_pairwise_ne, List.pairwise_map] at hids ⊢
  refine hids.imp fun hne heq => hne (ties.inj ?_)
  exact (Prod.ext_iff.mp (toLex.injective heq)).2

/-- The statement's groups in order are the buffers newest first. -/
theorem sorted_groups (hlimit : 0 < limit) :
    (groupByBuffer (activities n s c.historyEvents (!c.wantsSelfMessages) (min isoA isoB)
        (max isoA isoB) c.replaysReactions)).insertionSort (Group.key ties · ≤ Group.key ties ·) =
      (byNewest ties n s c isoA isoB limit).map (groupOf n s c isoA isoB limit) := by
  have hgroups : ((groupByBuffer (activities n s c.historyEvents (!c.wantsSelfMessages)
      (min isoA isoB) (max isoA isoB) c.replaysReactions)).map (Group.key ties)).Nodup := by
    have hbids := groupByBuffer_nodup (activities n s c.historyEvents (!c.wantsSelfMessages)
      (min isoA isoB) (max isoA isoB) c.replaysReactions)
    rw [List.nodup_iff_pairwise_ne, List.pairwise_map] at hbids ⊢
    refine hbids.imp fun hne heq => hne (ties.inj ?_)
    exact (Prod.ext_iff.mp (toLex.injective heq)).2
  have hleft := Pages.pairwise_lt_sorted hgroups
  have hbuffers := Pages.pairwise_lt_sorted (@byNewest_keys toLower ties n s c isoA isoB limit)
  have hright : ((byNewest ties n s c isoA isoB limit).map (groupOf n s c isoA isoB limit)).Pairwise
      (Group.key ties · < Group.key ties ·) := List.pairwise_map.mpr hbuffers
  have hnodup {gs : List Group} (h : gs.Pairwise (Group.key ties · < Group.key ties ·)) :
      gs.Nodup := h.imp fun hlt => ne_of_apply_ne (Group.key ties) hlt.ne
  refine List.Perm.eq_of_pairwise (fun g g' _ _ h h' => (lt_asymm h h').elim) hleft hright ?_
  refine (List.perm_ext_iff_of_nodup (hnodup hleft) (hnodup hright)).mpr fun g => ?_
  rw [List.mem_insertionSort, mem_groups hlimit, List.mem_map]
  constructor
  · rintro ⟨b, hb, hconversation, hnewest, hbid, htarget⟩
    refine ⟨b, (mem_byNewest ties n s c isoA isoB).mpr ⟨hb, hconversation, ?_⟩, ?_⟩
    · rw [hnewest]
      rfl
    · obtain ⟨bid, target, last⟩ := g
      cases hbid
      cases htarget
      rw [groupOf, hnewest]
      rfl
  · rintro ⟨b, hb, rfl⟩
    obtain ⟨hb, hconversation, hsome⟩ := (mem_byNewest ties n s c isoA isoB).mp hb
    obtain ⟨time, htime⟩ := Option.isSome_iff_exists.mp hsome
    refine ⟨b, hb, hconversation, ?_, rfl, rfl⟩
    rw [groupOf, htime]
    rfl

/-- The targets listed are the open ones of the first so many. -/
theorem handleChatHistoryTargets_eq (hlimit : 0 < limit) :
    handleChatHistoryTargets ties n s c isoA isoB limit =
      (((byNewest ties n s c isoA isoB limit).take limit).filter (·.isOpen)).map
        fun b => (groupOf n s c isoA isoB limit b).summary := by
  have hbounds : (if isoA ≤ isoB then (isoA, isoB) else (isoB, isoA)) =
      (min isoA isoB, max isoA isoB) := by
    split
    · rename_i h
      rw [min_eq_left h, max_eq_right h]
    · rename_i h
      rw [min_eq_right (not_le.mp h).le, max_eq_left (not_le.mp h).le]
  rw [handleChatHistoryTargets, listActiveTargetsInWindow]
  rw [hbounds, sorted_groups ties n s c isoA isoB hlimit, ← List.map_take, List.map_map,
    List.filter_map]
  refine congrArg (List.map _) (List.filter_congr fun b hb => ?_)
  have hrow := ((mem_byNewest ties n s c isoA isoB).mp (List.mem_of_mem_take hb)).1
  change (!n.closedFolded.any fun folded =>
    folded = foldTargetWith toLower n.casemapping b.target) = b.isOpen
  rw [Network.closed_iff hrow, Bool.not_not]

/-- The open buffers of them all are those due. -/
theorem due_perm : (due n s c isoA isoB limit).Perm
    (((byNewest ties n s c isoA isoB limit).filter (·.isOpen)).map
      fun b => (groupOf n s c isoA isoB limit b).summary) := by
  have hperm : (byNewest ties n s c isoA isoB limit).Perm (n.rows.filter fun b =>
      isConversation b && (newest n s c isoA isoB limit b).isSome) := List.perm_insertionSort _ _
  have hdue (rows : List BufferRow) :
      ((rows.filter fun b => isConversation b && b.isOpen).filterMap fun b =>
        (newest n s c isoA isoB limit b).map fun time => (⟨b.target, time⟩ : BufferSummary)) =
      ((rows.filter fun b => isConversation b && (newest n s c isoA isoB limit b).isSome).filter
        (·.isOpen)).map fun b => (groupOf n s c isoA isoB limit b).summary := by
    induction rows with
    | nil => rfl
    | cons b rows ih =>
      cases hconversation : isConversation b <;> cases hopen : b.isOpen <;>
        cases hnewest : newest n s c isoA isoB limit b <;>
          simp [hconversation, hopen, hnewest, ih, groupOf, Group.summary]
  rw [due, hdue]
  exact ((hperm.filter _).map _).symm

/-- The targets listed are the most recently active ones, each with its window's newest time,
exactly when no closed buffer took the place of an open one: newest first, either none of the
first `limit` is closed or none after them is open. -/
theorem targets_agree_iff (limit : Nat) :
    MostRecent limit (due n s c isoA isoB limit)
        (handleChatHistoryTargets ties n s c isoA isoB limit) ↔
      (∀ b ∈ (byNewest ties n s c isoA isoB limit).take limit, b.isOpen = true) ∨
        ∀ b ∈ (byNewest ties n s c isoA isoB limit).drop limit, b.isOpen = false := by
  rcases Nat.eq_zero_or_pos limit with rfl | hlimit
  · refine iff_of_true ?_ (Or.inl fun b hb => absurd hb List.not_mem_nil)
    have hnone : handleChatHistoryTargets ties n s c isoA isoB 0 = [] := rfl
    rw [hnone]
    exact ⟨(Nat.zero_min _).symm, List.Pairwise.nil, due n s c isoA isoB 0, List.Perm.refl _,
      fun t ht => absurd ht List.not_mem_nil⟩
  · rw [handleChatHistoryTargets_eq ties n s c isoA isoB hlimit]
    refine mostRecent_take_iff ?_ (due_perm ties n s c isoA isoB)
    have hsorted := Pages.pairwise_lt_sorted (@byNewest_keys toLower ties n s c isoA isoB limit)
    refine hsorted.imp fun {b b'} hlt => ?_
    rcases Prod.Lex.toLex_lt_toLex.mp hlt with h | ⟨h, -⟩
    · exact (OrderDual.toDual_lt_toDual.mp h).le
    · exact (toDual.injective h).ge

end Answer

def said (id bufferId time : Nat) : MessageRow where
  id := id
  bufferId := bufferId
  time := time
  type := .message
  nick := some "ann".toList
  userhost := none
  text := some "hi".toList
  self := false
  mirrored := false
  newNick := none
  kicked := none
  msgid := none
  replyMsgid := none
  e2e := false

def lowerAscii (s : Str) : Str := s.map Char.toLower

def channel (id : Nat) (target : Str) (isOpen : Bool) : BufferRow :=
  ⟨id, target, lowerAscii target, .channel, isOpen, none, false, none⟩

/-- A closed channel with the last word, and an open one. -/
def twoChannels : Network lowerAscii where
  id := 1
  casemapping := none
  registry := ⟨[channel 1 "#closed".toList false, channel 2 "#open".toList true], by decide, by decide⟩
  folded := by
    intro b hb
    rcases List.mem_cons.mp hb with rfl | hb
    · rfl
    · rw [List.mem_singleton.mp hb]
      rfl
  kinded := by
    intro b hb
    rcases List.mem_cons.mp hb with rfl | hb
    · exact .inr (.inr (.inl (by decide)))
    · rw [List.mem_singleton.mp hb]
      exact .inr (.inr (.inl (by decide)))

def twoLines : Store := ⟨[said 1 2 10, said 2 1 20], [], by decide, by decide⟩

def anyClient : Session := ⟨1, [], "me".toList, "me".toList, "me".toList, none, fun _ => none⟩

/-- Asked for one target, the bouncer lists none: the closed channel took the only place. -/
theorem closed_takes_place :
    ¬ MostRecent 1 (due twoChannels twoLines anyClient 0 100 1)
      (handleChatHistoryTargets ⟨id, Function.injective_id⟩ twoChannels twoLines anyClient
        0 100 1) := by
  intro h
  have hdue : (due twoChannels twoLines anyClient 0 100 1).length = 1 := by decide
  have hlisted : (handleChatHistoryTargets ⟨id, Function.injective_id⟩ twoChannels twoLines
      anyClient 0 100 1).length = 0 := by decide
  have hfits := h.fits
  rw [hdue, hlisted] at hfits
  cases hfits

end Lurker.Bouncer.Targets
