import Lurker.Lib.Run
import Lurker.Lib.Table
import Mathlib.Order.Lattice

/-!
# Reactions on a line

A react inserts a row and an unreact leaves it as a tombstone, stamped with when the
reaction was taken back. A react older than the tombstone under its key is dropped, so that a
replayed one brings nothing back. An unreact has no such guard: replayed after the same nick
has reacted again, it takes that reaction back.
-/

namespace Lurker.Db.Reactions

abbrev Str := List Char

/-- A row of `message_reactions` on one line. -/
structure Reaction (τ : Type) where
  nick : Str
  nickFolded : Str
  value : Str
  self : Bool
  time : τ
  removedAt : Option τ
  deriving DecidableEq

def Reaction.key {τ : Type} (r : Reaction τ) : Str × Str := (r.nickFolded, r.value)

/-- The rows of one line. -/
abbrev Rows (τ : Type) := Table (Reaction τ) Reaction.key

structure ReactionWrite (τ : Type) where
  nick : Str
  value : Str
  self : Bool
  time : τ

-- `toLowerCase` of the platform
variable {τ : Type} (lower : Str → Str)

def ReactionWrite.row (w : ReactionWrite τ) : Reaction τ :=
  ⟨w.nick, lower w.nick, w.value, w.self, w.time, none⟩

/-- When the reaction under a key was taken back, if it was. -/
def tombstone (t : Rows τ) (key : Str × Str) : Option τ := (t.get? key).bind Reaction.removedAt

/-- True when something changed. -/
def insert (t : Rows τ) (r : Reaction τ) : Rows τ × Bool :=
  (t.upsert r id fun _ => rfl, (t.get? r.key).isNone)

theorem get_insert (t : Rows τ) (r : Reaction τ) (k : Str × Str) :
    (insert t r).1.get? k = if k = r.key then some ((t.get? r.key).getD r) else t.get? k := by
  rw [insert, Table.get?_upsert, Option.map_id]
  rfl

/-- An insert under a key that has a row does nothing. -/
theorem insert_held {t : Rows τ} {r : Reaction τ} (h : (t.get? r.key).isSome) :
    (insert t r).1 = t := by
  obtain ⟨r', hr'⟩ := Option.isSome_iff_exists.mp h
  obtain ⟨hmem, hkey⟩ := Table.get?_eq_some.mp hr'
  refine Table.ext_rows ?_
  rw [insert, Table.upsert, dif_pos (List.mem_map.mpr ⟨r', hmem, hkey⟩), Table.update]
  simp

-- times compare as their texts do
variable [LinearOrder τ]

def addReaction (t : Rows τ) (w : ReactionWrite τ) : Rows τ × Bool :=
  match tombstone t (w.row lower).key with
  | some removedAt =>
    if w.time < removedAt then (t, false)
    else insert (t.delete fun r => r.key = (w.row lower).key && r.removedAt.isSome) (w.row lower)
  | none => insert t (w.row lower)

/-- An unreact. Ours matches `self`, a peer's their nick. -/
structure Unreact (τ : Type) where
  nick : Str
  value : Str
  self : Bool
  time : τ

/-- The reactions that an unreact takes back. -/
def Unreact.addresses (u : Unreact τ) (r : Reaction τ) : Bool :=
  (if u.self then r.self && r.value = u.value
    else r.nickFolded = lower u.nick && r.value = u.value) && r.removedAt.isNone

/-- Never earlier than the react. -/
def Reaction.takenBack (r : Reaction τ) (time : τ) : Reaction τ :=
  { r with removedAt := some (max r.time time) }

theorem Reaction.takenBack_key (r : Reaction τ) (time : τ) : (r.takenBack time).key = r.key := rfl

def removeReaction (t : Rows τ) (u : Unreact τ) : Rows τ × Bool :=
  (t.update (u.addresses lower) (·.takenBack u.time) (·.takenBack_key u.time),
    t.rows.any (u.addresses lower))

inductive Event (τ : Type)
  | react (w : ReactionWrite τ)
  | unreact (u : Unreact τ)

def Event.time : Event τ → τ
  | .react w => w.time
  | .unreact u => u.time

def process (t : Rows τ) : Event τ → Rows τ
  | .react w => (addReaction lower t w).1
  | .unreact u => (removeReaction lower t u).1

def run (events : List (Event τ)) : Rows τ := Run.after (process lower) .empty events

/-- The reactions that stand: nicks, folded, and values. -/
def standing (t : Rows τ) : Set (Str × Str) := {k | ∃ r ∈ t.rows, r.key = k ∧ r.removedAt = none}

/-- No reaction is taken back before it was made. -/
def InOrder (t : Rows τ) : Prop := ∀ r ∈ t.rows, ∀ removedAt, r.removedAt = some removedAt →
  r.time ≤ removedAt

/-- Delivered again after the history, any part of it in order changes nothing. -/
def ReplaysSafely (events : List (Event τ)) : Prop :=
  ∀ again, again.Sublist events →
    standing (run lower (events ++ again)) = standing (run lower events) ∧
      InOrder (run lower (events ++ again))

/-- No event would change where a state stands. -/
structure Settled (t : Rows τ) (events : List (Event τ)) : Prop where
  unreacts : ∀ u, Event.unreact u ∈ events → ∀ r ∈ t.rows, u.addresses lower r = false
  reacts : ∀ w, Event.react w ∈ events → ∀ removedAt,
    tombstone t (w.row lower).key = some removedAt → w.time < removedAt

section Steps

variable {lower}

theorem inOrder_insert {t : Rows τ} {w : ReactionWrite τ} (h : InOrder t) :
    InOrder (insert t (w.row lower)).1 := by
  intro r hr removedAt hremoved
  rcases (Table.mem_upsert _).mp hr with ⟨hr, -⟩ | ⟨r', hr', -, rfl⟩ | ⟨rfl, -⟩
  · exact h r hr removedAt hremoved
  · exact h _ hr' removedAt hremoved
  · cases hremoved

theorem inOrder_process {t : Rows τ} (h : InOrder t) (e : Event τ) :
    InOrder (process lower t e) := by
  cases e with
  | react w =>
    simp only [process, addReaction]
    split
    · split
      · exact h
      · exact inOrder_insert fun r hr => h r (Table.mem_delete.mp hr).1
    · exact inOrder_insert h
  | unreact u =>
    intro r hr removedAt hremoved
    rcases (Table.mem_update (·.takenBack_key u.time)).mp hr with ⟨hr, -⟩ | ⟨r', -, -, rfl⟩
    · exact h r hr removedAt hremoved
    · obtain rfl := Option.some.inj hremoved
      exact le_max_left _ _

theorem inOrder_run (events : List (Event τ)) : InOrder (run lower events) :=
  Run.invariant (P := InOrder) (process lower) (fun _ hr => absurd hr List.not_mem_nil)
    (fun _ e h => inOrder_process h e) events

/-- After a react its key has a row. -/
theorem get_react (t : Rows τ) (w : ReactionWrite τ) :
    ((addReaction lower t w).1.get? (w.row lower).key).isSome := by
  unfold addReaction
  split
  · rename_i removedAt htomb
    split
    · obtain ⟨r, hr, -⟩ := Option.bind_eq_some_iff.mp htomb
      rw [hr]
      rfl
    · rw [get_insert, if_pos rfl]
      rfl
  · rw [get_insert, if_pos rfl]
    rfl

/-- A key that has a row keeps one. -/
theorem get_process {t : Rows τ} {k : Str × Str} (h : (t.get? k).isSome) (e : Event τ) :
    ((process lower t e).get? k).isSome := by
  cases e with
  | react w =>
    by_cases hk : k = (w.row lower).key
    · rw [hk]
      exact get_react t w
    · have hinsert (t' : Rows τ) (h' : (t'.get? k).isSome) :
          ((insert t' (w.row lower)).1.get? k).isSome := by
        rwa [get_insert, if_neg hk]
      simp only [process, addReaction]
      split
      · split
        · exact h
        · refine hinsert _ ?_
          obtain ⟨r, hr⟩ := Option.isSome_iff_exists.mp h
          have hkey : r.key ≠ (w.row lower).key := Table.get?_key hr ▸ hk
          rw [Table.get?_delete, hr, Option.filter_some_pos (by simp [hkey])]
          rfl
      · exact hinsert _ h
  | unreact u =>
    simp only [process, removeReaction]
    rwa [Table.get?_update (·.takenBack_key u.time), Option.isSome_map]

/-- Every react of a history has left a row under its key. -/
theorem get_run {events : List (Event τ)} {w : ReactionWrite τ} (h : Event.react w ∈ events) :
    ((run lower events).get? (w.row lower).key).isSome := by
  unfold run
  induction events using List.reverseRecOn with
  | nil => cases h
  | append_singleton events e ih =>
    rw [Run.after_concat]
    rcases List.mem_append.mp h with h | h
    · exact get_process (ih h) e
    · rw [← List.mem_singleton.mp h]
      exact get_react _ w

end Steps

section Replays

variable {lower}

/-- An event of a settled history does nothing. -/
theorem process_settled {t : Rows τ} {events : List (Event τ)} (h : Settled lower t events)
    (hkeys : ∀ w, Event.react w ∈ events → (t.get? (w.row lower).key).isSome) {e : Event τ}
    (he : e ∈ events) : process lower t e = t := by
  cases e with
  | react w =>
    simp only [process, addReaction]
    split
    · rename_i removedAt htomb
      rw [if_pos (h.reacts w he removedAt htomb)]
    · exact insert_held (hkeys w he)
  | unreact u =>
    refine Table.ext_rows ?_
    simp only [process, removeReaction, Table.update]
    refine (List.map_congr_left fun r hr => ?_).trans (List.map_id _)
    rw [h.unreacts u he r hr]
    rfl

theorem replay_settled {t : Rows τ} {events again : List (Event τ)} (h : Settled lower t events)
    (hkeys : ∀ w, Event.react w ∈ events → (t.get? (w.row lower).key).isSome)
    (hagain : again ⊆ events) : Run.after (process lower) t again = t := by
  induction again with
  | nil => rfl
  | cons e again ih =>
    obtain ⟨he, hagain⟩ := List.cons_subset.mp hagain
    rw [Run.after_cons, process_settled h hkeys he, ih hagain]

/-- A reaction that an unreact addresses stood before it and does not after it. -/
theorem unreact_changes {t : Rows τ} {u : Unreact τ} {r : Reaction τ} (hr : r ∈ t.rows)
    (h : u.addresses lower r = true) : standing (process lower t (.unreact u)) ≠ standing t := by
  have hstands : r.removedAt = none := by
    rw [Unreact.addresses, Bool.and_eq_true, Option.isNone_iff_eq_none] at h
    exact h.2
  intro hsame
  have hmem : r.key ∈ standing t := ⟨r, hr, rfl, hstands⟩
  rw [← hsame] at hmem
  obtain ⟨r', hr', hkey, hnone⟩ := hmem
  rcases (Table.mem_update (·.takenBack_key u.time)).mp hr' with ⟨hr', hp⟩ | ⟨r'', -, -, rfl⟩
  · rw [t.eq_of_key hr' hr hkey, h] at hp
    cases hp
  · cases hnone

/-- A react at or past the tombstone under its key brings the reaction back. -/
theorem react_changes {t : Rows τ} {w : ReactionWrite τ} {removedAt : τ}
    (htomb : tombstone t (w.row lower).key = some removedAt) (h : ¬ w.time < removedAt) :
    standing (process lower t (.react w)) ≠ standing t := by
  obtain ⟨r, hr, hremoved⟩ := Option.bind_eq_some_iff.mp htomb
  obtain ⟨hmem, hkey⟩ := Table.get?_eq_some.mp hr
  intro hsame
  have hafter : (w.row lower).key ∈ standing (process lower t (.react w)) := by
    have hgone : (t.delete fun r => r.key = (w.row lower).key && r.removedAt.isSome).get?
        (w.row lower).key = none := by
      rw [Table.get?_delete, hr, Option.filter_some_neg (by simp [hkey, hremoved])]
    simp only [process, addReaction, htomb, if_neg h]
    exact ⟨w.row lower, (Table.mem_upsert fun _ => rfl).mpr (.inr (.inr ⟨rfl, hgone⟩)), rfl, rfl⟩
  rw [hsame] at hafter
  obtain ⟨r', hr', hkey', hnone⟩ := hafter
  rw [t.eq_of_key hr' hmem (hkey'.trans hkey.symm), hremoved] at hnone
  cases hnone

end Replays

/-- A replay changes nothing exactly when no event of the history would, alone, change where
the history left things. -/
theorem replaysSafely_iff (events : List (Event τ)) :
    ReplaysSafely lower events ↔ Settled lower (run lower events) events := by
  constructor
  · intro h
    have halone (e : Event τ) (he : e ∈ events) :
        standing (process lower (run lower events) e) = standing (run lower events) := by
      have := (h [e] (List.singleton_sublist.mpr he)).1
      rwa [run, Run.after_concat] at this
    refine ⟨fun u hu r hr => ?_, fun w hw removedAt htomb => ?_⟩
    · by_contra hp
      exact unreact_changes hr (by simpa using hp) (halone _ hu)
    · by_contra hlate
      exact react_changes htomb hlate (halone _ hw)
  · intro h again hagain
    refine ⟨?_, inOrder_run _⟩
    rw [run, Run.after_append]
    exact congrArg standing (replay_settled h (fun _ => get_run) hagain.subset)

/-- A reaction made, taken back and made again. -/
def madeTwice : List (Event Nat) :=
  [.react ⟨['a'], ['+'], false, 1⟩, .unreact ⟨['a'], ['+'], false, 2⟩,
    .react ⟨['a'], ['+'], false, 3⟩]

/-- Delivered once more, the unreact takes the second reaction back. -/
theorem stale_unreact_lands :
    (madeTwice.map Event.time).Pairwise (· ≤ ·) ∧ ¬ ReplaysSafely id madeTwice := by
  refine ⟨by decide, fun h => ?_⟩
  have hsame := (h [.unreact ⟨['a'], ['+'], false, 2⟩] (by simp [madeTwice])).1
  have hmem : (['a'], ['+']) ∈ standing (run id madeTwice) :=
    ⟨⟨['a'], ['a'], ['+'], false, 3, none⟩, by decide, rfl, rfl⟩
  rw [← hsame] at hmem
  obtain ⟨r, hr, -, hnone⟩ := hmem
  have hall : ∀ r ∈ (run id (madeTwice ++ [.unreact ⟨['a'], ['+'], false, 2⟩])).rows,
      r.removedAt ≠ none := by decide
  exact hall r hr hnone

end Lurker.Db.Reactions
