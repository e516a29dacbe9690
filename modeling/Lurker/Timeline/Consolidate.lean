import Mathlib.Data.List.Sort
import Lurker.Lib.OrderedMap

/-!
# Consolidation of presence noise

A run of join, part, quit, nick and chghost rows is shown as one summary line:
the identities of the run are followed through their renames in a map keyed by
the current nick, classified by their first and last arrival or departure, and
listed group by group. Rows of member modes are folded by a pass of their own
over the other rows of the run and are not part of this walk.
-/
namespace Lurker.Timeline

/-- A row of a run, with the fields the walk reads; a missing nick is empty. -/
inductive Event
  | join (nick : String)
  | part (nick : String)
  | quit (nick : String)
  | nick (nick newNick : String)
  | chghost (nick : String)
  deriving DecidableEq, Repr

/-- Join, leave (part or quit), rename, or rehost. -/
inductive EventAction
  | J
  | L
  | R
  | H
  deriving DecidableEq, Repr

inductive IdentityKind
  | joined
  | left
  | reconnected
  | joinedAndLeft
  | renamed
  | rehosted
  deriving DecidableEq, Repr

/-- What a group lists: a nick, or a rename. -/
inductive Entry
  | nick (nick : String)
  | rename («from» «to» : String)
  deriving DecidableEq, Repr

structure ConsolidationGroup where
  kind : IdentityKind
  visible : List Entry
  hidden : Nat
  deriving DecidableEq, Repr

structure IdentityState where
  displayNick : String
  originalNick : String
  actions : List EventAction
  seenIndex : Nat
  deriving DecidableEq, Repr

/-- The arrivals and departures among the actions of an identity. -/
def presenceActions (actions : List EventAction) : List EventAction :=
  actions.filter fun a => a == .J || a == .L

def classify (actions : List EventAction) : IdentityKind :=
  match (presenceActions actions).head?, (presenceActions actions).getLast? with
  | some first, some last =>
    let wasPresent := first == .L
    let isPresent := last == .J
    if !wasPresent && isPresent then .joined
    else if wasPresent && !isPresent then .left
    else if !wasPresent && !isPresent then .joinedAndLeft
    else .reconnected
  -- no presence change: a rename outranks a rehost
  | _, _ => if actions.contains .R then .renamed else .rehosted

section Walk
variable (lower : String → String)

/-- The map of identities by lowercased current nick, and the counter of first appearances. -/
structure Walk where
  ids : OrderedMap String IdentityState
  seenCounter : Nat

def Walk.start : Walk := ⟨.empty, 0⟩

/-- The branch of the walk for everything but a rename. -/
def Walk.act (w : Walk) (nick : String) (a : EventAction) : Walk :=
  match w.ids.get? (lower nick) with
  | some state =>
    { w with ids := w.ids.set (lower nick) { state with actions := state.actions ++ [a] } }
  | none =>
    { ids := w.ids.set (lower nick) ⟨nick, nick, [a], w.seenCounter⟩
      seenCounter := w.seenCounter + 1 }

def Walk.step (w : Walk) : Event → Walk
  | .nick nick newNick =>
    match w.ids.get? (lower nick) with
    | some existing =>
      { w with
        ids := (w.ids.delete (lower nick)).set (lower newNick)
          { existing with actions := existing.actions ++ [.R], displayNick := newNick } }
    | none =>
      { ids := w.ids.set (lower newNick) ⟨newNick, nick, [.R], w.seenCounter⟩
        seenCounter := w.seenCounter + 1 }
  | .join nick => w.act lower nick .J
  | .part nick => w.act lower nick .L
  | .quit nick => w.act lower nick .L
  | .chghost nick => w.act lower nick .H

/-- The key an entry is ranked by: its nick, or the nick a rename ended on. -/
def Entry.shown : Entry → String
  | .nick n => n
  | .rename _ newNick => newNick

def recentRank (recentSpeakersLc : Option (List String)) (e : Entry) : Nat :=
  match recentSpeakersLc with
  | some speakers => if lower e.shown ∈ speakers then 0 else 1
  | none => 1

/-- Recent speakers float to the top; the sort is stable. -/
def rankEntries (entries : List Entry) (recentSpeakersLc : Option (List String)) : List Entry :=
  entries.insertionSort fun a b =>
    recentRank lower recentSpeakersLc a ≤ recentRank lower recentSpeakersLc b

def cap (entries : List Entry) (maxNames : Nat) (recentSpeakersLc : Option (List String)) :
    List Entry × Nat :=
  if entries.length ≤ maxNames then (entries, 0)
  else
    let ranked := rankEntries lower entries recentSpeakersLc
    (ranked.take maxNames, ranked.length - maxNames)

/-- The entry of an identity in the bucket of its kind. -/
def IdentityState.entry (st : IdentityState) : Entry :=
  match classify st.actions with
  | .renamed => .rename st.originalNick st.displayNick
  | _ => .nick st.displayNick

def groupOrder : List IdentityKind :=
  [.joined, .left, .reconnected, .joinedAndLeft, .renamed, .rehosted]

/-- The identities in the order in which they first appeared in the run. -/
def Walk.sorted (w : Walk) : List IdentityState :=
  w.ids.values.insertionSort fun a b => a.seenIndex ≤ b.seenIndex

/-- The bucket of one kind. -/
def bucket (sorted : List IdentityState) (kind : IdentityKind) : List Entry :=
  (sorted.filter fun st => classify st.actions = kind).map (·.entry)

/-- `recentSpeakers` is null or an iterable; `maxNames` falls back to five when it is zero. -/
def consolidateRun (recentSpeakers : Option (List String)) (maxNames : Int)
    (events : List Event) : List ConsolidationGroup :=
  let speakersLc := recentSpeakers.map (·.map lower)
  let maxNames := (max 1 (if maxNames = 0 then 5 else maxNames)).toNat
  let sorted := (events.foldl (Walk.step lower) Walk.start).sorted
  groupOrder.filterMap fun kind =>
    if bucket sorted kind = [] then none
    else
      let capped := cap lower (bucket sorted kind) maxNames speakersLc
      some ⟨kind, capped.1, capped.2⟩

end Walk

/-- The entries of a summary, each under the kind of its group. -/
def listing (groups : List ConsolidationGroup) : List (IdentityKind × Entry) :=
  groups.flatMap fun g => g.visible.map (Prod.mk g.kind)

/-- Taking a list apart by kinds keeps every element whose kind is listed. -/
theorem flatMap_filter_perm {α κ : Type*} [DecidableEq κ] (f : α → κ) (l : List α) :
    ∀ kinds : List κ, kinds.Nodup →
      (kinds.flatMap fun k => l.filter fun x => f x = k).Perm (l.filter fun x => f x ∈ kinds)
  | [], _ => by simp
  | k :: ks, h => by
    have ih := flatMap_filter_perm f l ks h.of_cons
    rw [List.flatMap_cons]
    refine (ih.append_left _).trans ?_
    refine List.Perm.trans ?_ (List.filter_append_perm (fun x => f x = k) _)
    rw [List.filter_filter, List.filter_filter]
    have hk : k ∉ ks := (List.nodup_cons.mp h).1
    refine (List.Perm.of_eq (List.filter_congr fun x _ => ?_)).append
      (List.Perm.of_eq (List.filter_congr fun x _ => ?_))
    · by_cases hx : f x = k <;> simp [hx]
    · by_cases hx : f x = k <;> simp [hx, hk]

theorem flatMap_filterMap {α β γ : Type*} (f : α → Option β) (g : β → List γ) (l : List α) :
    (l.filterMap f).flatMap g = l.flatMap fun a => (f a).elim [] g := by
  induction l with
  | nil => rfl
  | cons a l ih => cases hf : f a <;> simp [hf, ih]

theorem mem_groupOrder (kind : IdentityKind) : kind ∈ groupOrder := by
  cases kind <;> decide

/-- A group that hides nothing shows its whole bucket. -/
theorem cap_of_hidden {lower : String → String} {entries : List Entry} {maxNames : Nat}
    {speakers : Option (List String)} (h : (cap lower entries maxNames speakers).2 = 0) :
    (cap lower entries maxNames speakers).1 = entries := by
  unfold cap at h ⊢
  split_ifs with hle
  · rfl
  · rw [if_neg hle] at h
    simp only [rankEntries, List.length_insertionSort] at h
    omega

/-- A summary that hides nothing lists every identity of the walk once, under its kind. -/
theorem listing_perm (lower : String → String) (recentSpeakers : Option (List String))
    (maxNames : Int) (events : List Event)
    (h : ∀ g ∈ consolidateRun lower recentSpeakers maxNames events, g.hidden = 0) :
    (listing (consolidateRun lower recentSpeakers maxNames events)).Perm
      ((events.foldl (Walk.step lower) Walk.start).ids.values.map
        fun st => (classify st.actions, st.entry)) := by
  let sorted := (events.foldl (Walk.step lower) Walk.start).sorted
  have hlist : listing (consolidateRun lower recentSpeakers maxNames events)
      = groupOrder.flatMap fun kind => (bucket sorted kind).map (Prod.mk kind) := by
    unfold listing consolidateRun at *
    rw [flatMap_filterMap]
    refine List.flatMap_congr fun kind hkind => ?_
    by_cases hb : bucket sorted kind = []
    · rw [if_pos hb, hb]
      rfl
    · have hshown := cap_of_hidden (h _ (List.mem_filterMap.mpr ⟨kind, hkind, if_neg hb⟩))
      rw [if_neg hb]
      exact congrArg (List.map (Prod.mk kind)) hshown
  have hkinds : ∀ kind, (bucket sorted kind).map (Prod.mk kind)
      = (sorted.filter fun st => classify st.actions = kind).map
          fun st => (classify st.actions, st.entry) := by
    intro kind
    unfold bucket
    rw [List.map_map]
    refine List.map_congr_left fun st hst => ?_
    have := (List.mem_filter.mp hst).2
    simp only [decide_eq_true_eq] at this
    simp [this]
  rw [hlist, List.flatMap_congr fun kind _ => hkinds kind, ← List.map_flatMap]
  have hperm := flatMap_filter_perm (fun st : IdentityState => classify st.actions) sorted
    groupOrder (by decide)
  have hall : sorted.filter (fun st => classify st.actions ∈ groupOrder) = sorted :=
    List.filter_eq_self.mpr fun st _ => by simp [mem_groupOrder]
  rw [hall] at hperm
  exact (hperm.trans (List.perm_insertionSort _ _)).map _

end Lurker.Timeline
