import Mathlib.Data.List.Basic
import Mathlib.Tactic.TypeStar

/-!
# Containers of blocks

A container is a run of blocks, the length of each told by its first bytes. A reader looks at what
is left, and cuts off a block, which it keeps, perhaps rewritten, or drops; it stops at a last
block, when too little is left for another, or when what is left makes no sense. Where reading a
kept block gives that block again, whatever follows it, the kept blocks read as themselves, and a
second pass has nothing to do.
-/

namespace Blocks

variable {α ε : Type*}

/-- What stands at the front of what is left. -/
inductive Cut (α : Type*)
  /-- Too little for another block. -/
  | spent
  | malformed
  /-- A block of `n`, and what is kept of it. -/
  | block (n : Nat) (kept : Option (List α))
  /-- The block of `n` that ends the container. -/
  | last (n : Nat)

/-- How the reading ends, with what is left. -/
inductive Ending (α : Type*)
  | malformed
  | spent (rest : List α)
  | last (rest : List α)
  deriving DecidableEq

/-- A block and what is kept of it. -/
abbrev Block (α : Type*) := List α × Option (List α)

variable (body : List α → Except ε (Cut α))

/-- The blocks of `rest`, each with what is kept of it. -/
inductive Reads : List α → List (Block α) → Ending α → Prop
  | spent {rest} (h : body rest = .ok .spent) : Reads rest [] (.spent rest)
  | malformed {rest} (h : body rest = .ok .malformed) : Reads rest [] .malformed
  | last {rest n} (h : body rest = .ok (.last n)) :
      Reads rest [(rest.take n, some (rest.take n))] (.last (rest.drop n))
  | block {rest n kept bs e} (h : body rest = .ok (.block n kept)) (t : Reads (rest.drop n) bs e) :
      Reads rest ((rest.take n, kept) :: bs) e

/-- The loop: what is kept so far, and whether it differs from what was read. `none` where the
container makes no sense. A block takes at least one element. -/
def walk [DecidableEq α] (rest : List α) (kept : List (List α)) (changed : Bool) :
    Except ε (Option (List (List α) × Bool)) :=
  match body rest with
  | .error e => .error e
  | .ok .spent => .ok (some (kept, changed))
  | .ok .malformed => .ok none
  | .ok (.last n) => .ok (some (kept ++ [rest.take n], changed))
  | .ok (.block n b) =>
    if 0 < n ∧ 0 < rest.length then
      walk (rest.drop n) (kept ++ b.toList) (changed || b != some (rest.take n))
    else .ok none
  termination_by rest.length
  decreasing_by simp only [List.length_drop]; omega

/-- What a reader must satisfy. -/
structure Lawful : Prop where
  /-- It reads nothing that is not there. -/
  safe : ∀ rest, ∃ c, body rest = .ok c
  within : ∀ {rest n kept}, body rest = .ok (.block n kept) → 0 < n ∧ n ≤ rest.length
  within_last : ∀ {rest n}, body rest = .ok (.last n) → 0 < n ∧ n ≤ rest.length
  /-- What is kept of a block reads as itself; of the block at the very end, with nothing after. -/
  again : ∀ {rest n b}, body rest = .ok (.block n (some b)) → ∀ more,
    (rest.drop n = [] → more = []) → body (b ++ more) = .ok (.block b.length (some b))
  again_last : ∀ {rest n}, body rest = .ok (.last n) →
    ∀ more, body (rest.take n ++ more) = .ok (.last n)
  nil : body [] = .ok .spent

/-- What is left once the blocks are off. -/
def Ending.left : Ending α → List α
  | .malformed => []
  | .spent rest => rest
  | .last rest => rest

/-- `x`, where the container makes sense. -/
def Ending.guard {β : Type*} (x : β) : Ending α → Option β
  | .malformed => none
  | .spent _ => some x
  | .last _ => some x

/-- Reading what was kept ends like the reading, with nothing left. -/
def Ending.closed : Ending α → Ending α
  | .malformed => .malformed
  | .spent _ => .spent []
  | .last _ => .last []

/-- What is kept. -/
def kept (bs : List (Block α)) : List (List α) := bs.filterMap Prod.snd

/-- Some block is dropped or rewritten. -/
def changes [DecidableEq α] (bs : List (Block α)) : Bool := bs.any fun b => b.2 != some b.1

variable {body} {rest : List α} {bs : List (Block α)} {e : Ending α}

/-- Everything is read, in one way. -/
theorem Lawful.reads (hl : Lawful body) (rest : List α) : ∃ bs e, Reads body rest bs e := by
  induction hn : rest.length using Nat.strongRecOn generalizing rest with
  | ind m ih =>
    obtain ⟨c, hc⟩ := hl.safe rest
    cases c with
    | spent => exact ⟨_, _, .spent hc⟩
    | malformed => exact ⟨_, _, .malformed hc⟩
    | last n => exact ⟨_, _, .last hc⟩
    | block n kept =>
      obtain ⟨hpos, hle⟩ := hl.within hc
      obtain ⟨bs, e, ht⟩ := ih (rest.drop n).length (by rw [List.length_drop]; omega) _ rfl
      exact ⟨_, _, .block hc ht⟩

theorem Reads.unique {bs' : List (Block α)} {e' : Ending α} (h : Reads body rest bs e)
    (h' : Reads body rest bs' e') : bs = bs' ∧ e = e' := by
  induction h generalizing bs' e' with
  | spent h =>
    cases h' with
    | spent => exact ⟨rfl, rfl⟩
    | malformed h' | last h' | block h' _ => rw [h] at h'; cases h'
  | malformed h =>
    cases h' with
    | malformed => exact ⟨rfl, rfl⟩
    | spent h' | last h' | block h' _ => rw [h] at h'; cases h'
  | last h =>
    cases h' with
    | spent h' | malformed h' | block h' _ => rw [h] at h'; cases h'
    | last h' => rw [h] at h'; cases h'; exact ⟨rfl, rfl⟩
  | block h _ ih =>
    cases h' with
    | spent h' | malformed h' | last h' => rw [h] at h'; cases h'
    | block h' t' =>
      rw [h] at h'
      cases h'
      obtain ⟨rfl, rfl⟩ := ih t'
      exact ⟨rfl, rfl⟩

/-- The blocks are what was there, in order. -/
theorem Reads.bytes (h : Reads body rest bs e) (hm : e ≠ .malformed) :
    (bs.map Prod.fst).flatten ++ e.left = rest := by
  induction h with
  | spent => rfl
  | malformed => exact absurd rfl hm
  | last h => simp [Ending.left]
  | block h t ih =>
    rw [List.map_cons, List.flatten_cons, List.append_assoc, ih hm, List.take_append_drop]

/-- The loop keeps what the reading keeps, and knows whether that is a change. -/
theorem walk_eq [DecidableEq α] (hl : Lawful body) (h : Reads body rest bs e)
    (acc : List (List α)) (changed : Bool) :
    walk body rest acc changed = .ok (e.guard (acc ++ kept bs, changed || changes bs)) := by
  induction h generalizing acc changed with
  | spent h => unfold walk; rw [h]; simp [kept, changes, Ending.guard]
  | malformed h => unfold walk; rw [h]; rfl
  | last h => unfold walk; rw [h]; simp [kept, changes, Ending.guard]
  | @block rest n b bs e h t ih =>
    obtain ⟨hpos, hle⟩ := hl.within h
    have hkept : kept ((rest.take n, b) :: bs) = b.toList ++ kept bs := by
      cases b <;> rfl
    unfold walk
    rw [h]
    dsimp only
    rw [if_pos ⟨hpos, by omega⟩, ih, hkept, List.append_assoc, Bool.or_assoc]
    rfl

/-- What is kept reads as itself. -/
theorem Reads.again (hl : Lawful body) (h : Reads body rest bs e) (hm : e ≠ .malformed) :
    Reads body (kept bs).flatten ((kept bs).map fun b => (b, some b)) e.closed := by
  induction h with
  | spent => exact .spent hl.nil
  | malformed => exact absurd rfl hm
  | @last rest n h =>
    have h' := hl.again_last h []
    have hlen : (rest.take n).length = n := List.length_take_of_le (hl.within_last h).2
    rw [List.append_nil] at h'
    have hr := Reads.last h'
    rw [List.take_of_length_le (Nat.le_of_eq hlen), List.drop_of_length_le (Nat.le_of_eq hlen)] at hr
    simpa [kept, Ending.closed] using hr
  | @block rest n b bs e h t ih =>
    cases b with
    | none => exact ih hm
    | some b =>
      -- the block at the very end is followed by nothing again
      have hnil : rest.drop n = [] → (kept bs).flatten = [] := by
        intro hn
        rw [hn] at t
        rw [(t.unique (.spent hl.nil)).1]
        rfl
      have h' := hl.again h _ hnil
      have ht := ih hm
      have hr : Reads body (b ++ (kept bs).flatten)
          ((b, some b) :: (kept bs).map fun b => (b, some b)) e.closed := by
        have := Reads.block h' (by rw [List.drop_left]; exact ht)
        rwa [List.take_left] at this
      simpa [kept] using hr

/-- A second pass changes nothing. -/
theorem unchanged_again [DecidableEq α] (bs : List (List α)) :
    changes (bs.map fun b => (b, some b)) = false := by
  simp [changes]

end Blocks
