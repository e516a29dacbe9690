import Lurker.Bouncer.Playback
import Lurker.Lib.Pages

/-!
# A window is the first rows of what lies in it

Each statement takes its own first rows, and the merges take the first of those: together
that is the first so many of all the rows in the window, lines and reactions alike, in one
order that tells every row from every other.
-/

namespace Lurker.Bouncer

open Lurker.Irc (Str Casemapping)
open Pages (IsFirst)
open OrderDual (toDual)

/-- The order of history: by time, a line before a react before an unreact, then by id. -/
def HistoryRow.key : HistoryRow → Nat ×ₗ Nat ×ₗ Nat
  | .line m => toLex (m.time, toLex (0, m.id))
  | .reaction r => toLex (r.time, toLex (rank r + 1, r.id))

/-- The earliest `n` of some rows, oldest first. -/
def Earliest (n : Nat) (all rows : List HistoryRow) : Prop := IsFirst HistoryRow.key n all rows

/-- The newest `n` of some rows, oldest first. -/
def Newest (n : Nat) (all rows : List HistoryRow) : Prop :=
  IsFirst (fun row => toDual (HistoryRow.key row)) n all rows.reverse

-- `toLowerCase` of the platform
variable (toLower : Str → Str)

/-- The rows that a client's windows of a buffer hold. -/
def historyRows (c : Session) (s : Store) (target : Str) : List HistoryRow :=
  match c.bufferOf target with
  | none => []
  | some bufferId =>
    let withoutSelf := !c.replaysSelfLine toLower (isChannelName target) target
    let lines := historyLines toLower s bufferId c.casemapping
      ⟨false, c.historyEvents, c.replaysReactions, withoutSelf⟩
    let reacted (unreacts : Bool) := historyReactions s c.networkId bufferId withoutSelf unreacts
    lines.map HistoryRow.line ++
      if c.replaysReactions then (reacted false ++ reacted true).map HistoryRow.reaction else []

/-- The first rows in the direction the window is read. -/
def FirstOf {α κ : Type*} [LinearOrder κ] (newestFirst : Bool) (key : α → κ) (n : Nat)
    (all first : List α) : Prop :=
  if newestFirst then IsFirst (fun a => toDual (key a)) n all first else IsFirst key n all first

/-- In order, the way round the window is read. -/
def Ordered {α κ : Type*} [LinearOrder κ] (newestFirst : Bool) (key : α → κ) (l : List α) : Prop :=
  l.Pairwise fun a b => if newestFirst then key b < key a else key a < key b

section Directions

variable {α β κ : Type*} [LinearOrder κ] {newestFirst : Bool} {key : α → κ} {n : Nat}

theorem ordered_orderBy {all : List α} (hall : (all.map key).Nodup) :
    Ordered newestFirst key (orderBy newestFirst key all) := by
  cases newestFirst
  · exact Pages.pairwise_lt_sorted hall
  · refine @Pages.pairwise_lt_sorted _ _ _ (fun a => toDual (key a)) _ ?_
    have := hall.map toDual.injective
    rwa [List.map_map] at this

theorem orderBy_perm (all : List α) : (orderBy newestFirst key all).Perm all := by
  unfold orderBy
  split <;> exact List.perm_insertionSort _ _

theorem firstOf_orderBy {all : List α} (hall : (all.map key).Nodup) :
    FirstOf newestFirst key n all ((orderBy newestFirst key all).take n) := by
  have hordered : Ordered newestFirst key (orderBy newestFirst key all) := ordered_orderBy hall
  have hmem : ∀ a, a ∈ orderBy newestFirst key all ↔ a ∈ all :=
    fun a => (orderBy_perm all).mem_iff
  cases newestFirst
  · exact Pages.isFirst_take n hordered hmem
  · exact Pages.isFirst_take n hordered hmem

theorem FirstOf.append {xs ys xs' ys' sorted : List α} (hx : FirstOf newestFirst key n xs xs')
    (hy : FirstOf newestFirst key n ys ys') (hsorted : Ordered newestFirst key sorted)
    (hperm : sorted.Perm (xs' ++ ys')) :
    FirstOf newestFirst key n (xs ++ ys) (sorted.take n) := by
  cases newestFirst
  · exact IsFirst.append hx hy hsorted hperm
  · exact IsFirst.append hx hy hsorted hperm

theorem FirstOf.map {key : β → κ} {f : α → β} {all first : List α}
    (h : FirstOf newestFirst (fun a => key (f a)) n all first) :
    FirstOf newestFirst key n (all.map f) (first.map f) := by
  cases newestFirst
  · exact IsFirst.map h
  · exact IsFirst.map h

theorem FirstOf.ordered {all first : List α} (h : FirstOf newestFirst key n all first) :
    Ordered newestFirst key first := by
  cases newestFirst
  · exact IsFirst.ascends h
  · exact IsFirst.ascends h

/-- A key that orders a list as another one does has the same first rows. -/
theorem FirstOf.congr {κ' : Type*} [LinearOrder κ'] {key' : α → κ'} {all first : List α}
    (h : FirstOf newestFirst key n all first)
    (hkey : ∀ a ∈ all, ∀ b ∈ all, key a < key b ↔ key' a < key' b) :
    FirstOf newestFirst key' n all first := by
  cases newestFirst
  · have h : IsFirst key n all first := h
    refine ⟨?_, h.sub, h.fits, fun a ha hnot => ?_⟩
    · refine h.ascends.imp_of_mem fun ha hb hlt => ?_
      exact (hkey _ (h.sub _ ha) _ (h.sub _ hb)).mp hlt
    · obtain ⟨hlen, hbelow⟩ := h.rest a ha hnot
      exact ⟨hlen, fun b hb => (hkey b (h.sub b hb) a ha).mp (hbelow b hb)⟩
  · have h : IsFirst (fun a => toDual (key a)) n all first := h
    refine ⟨?_, h.sub, h.fits, fun a ha hnot => ?_⟩
    · refine h.ascends.imp_of_mem fun ha hb hlt => ?_
      exact (hkey _ (h.sub _ hb) _ (h.sub _ ha)).mp hlt
    · obtain ⟨hlen, hbelow⟩ := h.rest a ha hnot
      exact ⟨hlen, fun b hb => (hkey a ha b (h.sub b hb)).mp (hbelow b hb)⟩

end Directions

theorem historyLines_nodup (s : Store) (bufferId : Nat) (mapping : Option Casemapping)
    (opts : HistoryWindowOptions) (p : MessageRow → Bool) :
    (((historyLines toLower s bufferId mapping opts).filter p).map
      fun m => toLex (m.time, m.id)).Nodup := by
  have hsub : ((historyLines toLower s bufferId mapping opts).filter p).Sublist s.messages :=
    List.filter_sublist.trans List.filter_sublist
  have hids := (s.messages_nodup.sublist (hsub.map (·.id)))
  rw [List.nodup_iff_pairwise_ne, List.pairwise_map] at hids ⊢
  exact hids.imp fun hne heq => hne (Prod.ext_iff.mp (toLex.injective heq)).2

/-- What a reaction is listed as. -/
theorem reactionEvent_some {s : Store} {networkId bufferId : Nat} {withoutSelf unreacts : Bool}
    {r : ReactionRow} {e : HistoryReaction}
    (h : reactionEvent s networkId bufferId withoutSelf unreacts r = some e) :
    e.id = r.id ∧ e.unreact = unreacts := by
  simp only [reactionEvent, Option.bind_eq_some_iff] at h
  obtain ⟨m, -, time, -, parentMsgid, -, h⟩ := h
  split at h
  · obtain rfl := Option.some.inj h
    exact ⟨rfl, rfl⟩
  · cases h

theorem historyReactions_nodup (s : Store) (networkId bufferId : Nat) (withoutSelf unreacts : Bool) :
    ((historyReactions s networkId bufferId withoutSelf unreacts).map (·.id)).Nodup := by
  have hids := s.reactions_nodup
  rw [List.nodup_iff_pairwise_ne, List.pairwise_map] at hids ⊢
  refine hids.filterMap _ fun r r' hne e he e' he' heq => hne ?_
  rw [← (reactionEvent_some he).1, ← (reactionEvent_some he').1, heq]

theorem historyReactions_unreact {s : Store} {networkId bufferId : Nat}
    {withoutSelf unreacts : Bool} :
    ∀ e ∈ historyReactions s networkId bufferId withoutSelf unreacts, e.unreact = unreacts := by
  intro e he
  obtain ⟨r, -, hr⟩ := List.mem_filterMap.mp he
  exact (reactionEvent_some hr).2

theorem lineKey_lt {m m' : MessageRow} : toLex (m.time, m.id) < toLex (m'.time, m'.id) ↔
    HistoryRow.key (.line m) < HistoryRow.key (.line m') := by
  simp [HistoryRow.key, Prod.Lex.toLex_lt_toLex]

theorem reactionKey_lt {e e' : HistoryReaction} :
    toLex (e.time, toLex (rank e, e.id)) < toLex (e'.time, toLex (rank e', e'.id)) ↔
      HistoryRow.key (.reaction e) < HistoryRow.key (.reaction e') := by
  simp [HistoryRow.key, Prod.Lex.toLex_lt_toLex]

theorem eventKey_lt {e e' : HistoryReaction} (h : e.unreact = e'.unreact) :
    toLex (e.time, e.id) < toLex (e'.time, e'.id) ↔
      toLex (e.time, toLex (rank e, e.id)) < toLex (e'.time, toLex (rank e', e'.id)) := by
  have hrank : rank e = rank e' := by simp only [rank, h]
  simp [hrank, Prod.Lex.toLex_lt_toLex]

/-- A line goes before a reaction of its instant. -/
theorem lineKey_lt_reactionKey {m : MessageRow} {e : HistoryReaction} :
    HistoryRow.key (.line m) < HistoryRow.key (.reaction e) ↔ m.time ≤ e.time := by
  simp only [HistoryRow.key, Prod.Lex.toLex_lt_toLex]
  omega

theorem reactionKey_lt_lineKey {m : MessageRow} {e : HistoryReaction} :
    HistoryRow.key (.reaction e) < HistoryRow.key (.line m) ↔ e.time < m.time := by
  simp only [HistoryRow.key, Prod.Lex.toLex_lt_toLex]
  omega

theorem lineFirst_spec (m : MessageRow) (e : HistoryReaction) (newestFirst : Bool) :
    if lineFirst newestFirst (.line m) (.reaction e) then
      (if newestFirst then HistoryRow.key (.reaction e) < HistoryRow.key (.line m)
        else HistoryRow.key (.line m) < HistoryRow.key (.reaction e))
    else
      (if newestFirst then HistoryRow.key (.line m) < HistoryRow.key (.reaction e)
        else HistoryRow.key (.reaction e) < HistoryRow.key (.line m)) := by
  simp only [lineKey_lt_reactionKey, reactionKey_lt_lineKey]
  cases newestFirst
  · simp only [lineFirst, HistoryRow.time, Bool.false_eq_true, if_false]
    split <;> rename_i h
    exacts [of_decide_eq_true h, not_le.mp fun hle => h (decide_eq_true hle)]
  · simp only [lineFirst, HistoryRow.time, if_true]
    split <;> rename_i h
    exacts [of_decide_eq_true h, not_lt.mp fun hlt => h (decide_eq_true hlt)]

variable {s : Store} {networkId bufferId : Nat} {mapping : Option Casemapping}
  {lower upper : Option Nat} {limit : Nat} {opts : HistoryWindowOptions}

theorem loadHistoryWindowRows_first :
    FirstOf opts.newestFirst HistoryRow.key limit
      (((historyLines toLower s bufferId mapping opts).filter
        fun m => within lower upper m.time).map HistoryRow.line)
      ((loadHistoryWindowRows toLower s bufferId mapping lower upper limit opts).map
        HistoryRow.line) := by
  refine FirstOf.map (FirstOf.congr (firstOf_orderBy ?_) fun a _ b _ => lineKey_lt)
  exact historyLines_nodup toLower s bufferId mapping opts _

theorem eventKeys_nodup {withoutSelf unreacts : Bool} (p : HistoryReaction → Bool) :
    (((historyReactions s networkId bufferId withoutSelf unreacts).filter p).map
      fun r => toLex (r.time, r.id)).Nodup := by
  have hids := (historyReactions_nodup s networkId bufferId withoutSelf unreacts).sublist
    (List.filter_sublist.map _ : ((_ : List HistoryReaction).filter p).map (·.id) |>.Sublist _)
  rw [List.nodup_iff_pairwise_ne, List.pairwise_map] at hids ⊢
  exact hids.imp fun hne heq => hne (Prod.ext_iff.mp (toLex.injective heq)).2

theorem reactionEvents_first {newestFirst withoutSelf unreacts : Bool} :
    FirstOf newestFirst (fun e : HistoryReaction => toLex (e.time, toLex (rank e, e.id))) limit
      ((historyReactions s networkId bufferId withoutSelf unreacts).filter
        fun r => within lower upper r.time)
      (reactionEvents s networkId bufferId lower upper limit newestFirst withoutSelf unreacts) := by
  refine FirstOf.congr (firstOf_orderBy (eventKeys_nodup _)) fun a ha b hb => eventKey_lt ?_
  rw [historyReactions_unreact a (List.mem_of_mem_filter ha),
    historyReactions_unreact b (List.mem_of_mem_filter hb)]

/-- The reacts and unreacts in a window. -/
def reactionsWithin (s : Store) (networkId bufferId : Nat) (lower upper : Option Nat)
    (withoutSelf : Bool) : List HistoryReaction :=
  let inWindow (unreacts : Bool) :=
    (historyReactions s networkId bufferId withoutSelf unreacts).filter
      fun r => within lower upper r.time
  inWindow false ++ inWindow true

theorem FirstOf.sub {α κ : Type*} [LinearOrder κ] {newestFirst : Bool} {key : α → κ} {n : Nat}
    {all first : List α} (h : FirstOf newestFirst key n all first) : ∀ a ∈ first, a ∈ all := by
  cases newestFirst
  · exact IsFirst.sub h
  · exact IsFirst.sub h

theorem FirstOf.keys_nodup {α κ : Type*} [LinearOrder κ] {newestFirst : Bool} {key : α → κ}
    {n : Nat} {all first : List α} (h : FirstOf newestFirst key n all first) :
    (first.map key).Nodup := by
  rw [List.nodup_iff_pairwise_ne, List.pairwise_map]
  refine h.ordered.imp fun {a b} hlt => ?_
  cases newestFirst
  · exact ne_of_lt hlt
  · exact ne_of_gt hlt

theorem loadReactionWindow_first {newestFirst withoutSelf : Bool} :
    FirstOf newestFirst HistoryRow.key limit
      ((reactionsWithin s networkId bufferId lower upper withoutSelf).map HistoryRow.reaction)
      ((loadReactionWindow s networkId bufferId lower upper limit newestFirst withoutSelf).map
        HistoryRow.reaction) := by
  refine FirstOf.map (FirstOf.congr ?_ fun a _ b _ => reactionKey_lt)
  have hreacts := @reactionEvents_first s networkId bufferId lower upper limit newestFirst
    withoutSelf false
  have hunreacts := @reactionEvents_first s networkId bufferId lower upper limit newestFirst
    withoutSelf true
  refine hreacts.append hunreacts (ordered_orderBy ?_) (orderBy_perm _)
  -- a react and an unreact differ in rank
  rw [List.map_append, List.nodup_append]
  refine ⟨hreacts.keys_nodup, hunreacts.keys_nodup, ?_⟩
  intro key hkey key' hkey' heq
  obtain ⟨e, he, rfl⟩ := List.mem_map.mp hkey
  obtain ⟨e', he', rfl⟩ := List.mem_map.mp hkey'
  have hrank := (Prod.ext_iff.mp (toLex.injective (Prod.ext_iff.mp (toLex.injective heq)).2)).1
  have hreact := historyReactions_unreact e (List.mem_of_mem_filter (hreacts.sub e he))
  have hunreact := historyReactions_unreact e' (List.mem_of_mem_filter (hunreacts.sub e' he'))
  simp [rank, hreact, hunreact] at hrank

theorem mergeHistory_first {lines : List MessageRow} {reacted : List HistoryReaction}
    {allLines allReacted : List HistoryRow} {newestFirst : Bool}
    (hlines : FirstOf newestFirst HistoryRow.key limit allLines (lines.map HistoryRow.line))
    (hreacted : FirstOf newestFirst HistoryRow.key limit allReacted
      (reacted.map HistoryRow.reaction)) :
    FirstOf newestFirst HistoryRow.key limit (allLines ++ allReacted)
      ((mergeHistory (lines.map HistoryRow.line) reacted newestFirst).take limit) := by
  refine hlines.append hreacted ?_ (List.merge_perm_append ..)
  have hcross : ∀ x ∈ lines.map HistoryRow.line, ∀ y ∈ reacted.map HistoryRow.reaction,
      if lineFirst newestFirst x y then
        (if newestFirst then HistoryRow.key y < HistoryRow.key x
          else HistoryRow.key x < HistoryRow.key y)
      else
        (if newestFirst then HistoryRow.key x < HistoryRow.key y
          else HistoryRow.key y < HistoryRow.key x) := by
    intro x hx y hy
    obtain ⟨m, -, rfl⟩ := List.mem_map.mp hx
    obtain ⟨e, -, rfl⟩ := List.mem_map.mp hy
    exact lineFirst_spec m e newestFirst
  cases newestFirst
  · exact Pages.pairwise_lt_merge hlines.ordered hreacted.ordered hcross
  · exact @Pages.pairwise_lt_merge _ _ _ (fun row => toDual (HistoryRow.key row)) _ _ _
      hlines.ordered hreacted.ordered hcross

/-- What a window is picked from. -/
theorem historyRows_within {c : Session} {target : Str} (hbuffer : c.bufferOf target = some bufferId)
    (newestFirst : Bool) :
    (historyRows toLower c s target).filter (fun row => within lower upper row.time) =
      ((historyLines toLower s bufferId c.casemapping ⟨newestFirst, c.historyEvents,
          c.replaysReactions, !c.replaysSelfLine toLower (isChannelName target) target⟩).filter
        fun m => within lower upper m.time).map HistoryRow.line ++
      if c.replaysReactions then
        (reactionsWithin s c.networkId bufferId lower upper
          (!c.replaysSelfLine toLower (isChannelName target) target)).map HistoryRow.reaction
      else [] := by
  have hline : ((fun row => within lower upper (HistoryRow.time row)) ∘ HistoryRow.line) =
      fun m => within lower upper m.time := rfl
  have hreaction : ((fun row => within lower upper (HistoryRow.time row)) ∘ HistoryRow.reaction) =
      fun r => within lower upper r.time := rfl
  simp only [historyRows, hbuffer, List.filter_append, List.filter_map, hline]
  congr 1
  split
  · rw [List.filter_map, hreaction, List.filter_append]
    rfl
  · rfl

/-- A window of a session, before it is put oldest first. -/
theorem loadHistoryWindow_first (c : Session) (s : Store) (target : Str) (lower upper : Option Nat)
    (limit : Nat) (newestFirst : Bool) :
    ∃ window, FirstOf newestFirst HistoryRow.key limit
        ((historyRows toLower c s target).filter fun row => within lower upper row.time) window ∧
      loadHistoryWindow toLower s c.networkId (c.bufferOf target) c.casemapping lower upper limit
          ⟨newestFirst, c.historyEvents, c.replaysReactions,
            !c.replaysSelfLine toLower (isChannelName target) target⟩ =
        if newestFirst then window.reverse else window := by
  cases hbuffer : c.bufferOf target with
  | none =>
    refine ⟨[], ?_, by simp [loadHistoryWindow]⟩
    have hnone : historyRows toLower c s target = [] := by simp only [historyRows, hbuffer]
    rw [hnone]
    have := @firstOf_orderBy _ _ _ newestFirst HistoryRow.key limit [] List.nodup_nil
    simpa [orderBy] using this
  | some bufferId =>
    rw [historyRows_within toLower hbuffer newestFirst]
    have hlines := @loadHistoryWindowRows_first toLower s bufferId c.casemapping lower upper limit
      ⟨newestFirst, c.historyEvents, c.replaysReactions,
        !c.replaysSelfLine toLower (isChannelName target) target⟩
    simp only [loadHistoryWindow]
    refine ⟨_, ?_, rfl⟩
    split
    · exact mergeHistory_first hlines loadReactionWindow_first
    · rw [List.append_nil]
      exact hlines

theorem newest_window (c : Session) (s : Store) (target : Str) (lower upper : Option Nat)
    (limit : Nat) :
    Newest limit ((historyRows toLower c s target).filter fun row => within lower upper row.time)
      (loadHistoryWindow toLower s c.networkId (c.bufferOf target) c.casemapping lower upper limit
        ⟨true, c.historyEvents, c.replaysReactions,
          !c.replaysSelfLine toLower (isChannelName target) target⟩) := by
  obtain ⟨window, hfirst, heq⟩ := loadHistoryWindow_first toLower c s target lower upper limit true
  rw [heq, if_pos rfl, Newest, List.reverse_reverse]
  exact hfirst

theorem earliest_window (c : Session) (s : Store) (target : Str) (lower upper : Option Nat)
    (limit : Nat) :
    Earliest limit ((historyRows toLower c s target).filter fun row => within lower upper row.time)
      (loadHistoryWindow toLower s c.networkId (c.bufferOf target) c.casemapping lower upper limit
        ⟨false, c.historyEvents, c.replaysReactions,
          !c.replaysSelfLine toLower (isChannelName target) target⟩) := by
  obtain ⟨window, hfirst, heq⟩ := loadHistoryWindow_first toLower c s target lower upper limit false
  rw [heq, if_neg Bool.false_ne_true]
  exact hfirst

end Lurker.Bouncer
