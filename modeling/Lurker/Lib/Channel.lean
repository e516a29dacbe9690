import Mathlib.Data.List.Basic
import Mathlib.Data.List.TakeDrop

/-!
# First-in first-out channels with a reader's position

A channel keeps everything ever written to it and how much of that its reader
has taken. What lies past the reader's position is in flight: it arrives in
the order it was written, or not at all when the channel dies.
-/

/-- Everything written to a channel, and how many of its items were read. -/
structure Channel (α : Type*) where
  log : List α
  read : Nat
  read_le : read ≤ log.length

namespace Channel

variable {α : Type*}

def empty : Channel α := ⟨[], 0, Nat.le_refl _⟩

def received (c : Channel α) : List α := c.log.take c.read

def inFlight (c : Channel α) : List α := c.log.drop c.read

/-- The item the reader takes next. -/
def next? (c : Channel α) : Option α := c.log[c.read]?

def sendAll (c : Channel α) (xs : List α) : Channel α :=
  ⟨c.log ++ xs, c.read, by have := c.read_le; simp; omega⟩

/-- The reader takes one item, when one is in flight. -/
def receive (c : Channel α) : Channel α :=
  if h : c.read < c.log.length then ⟨c.log, c.read + 1, h⟩ else c

@[simp] theorem log_sendAll (c : Channel α) (xs : List α) : (c.sendAll xs).log = c.log ++ xs := rfl

@[simp] theorem read_sendAll (c : Channel α) (xs : List α) : (c.sendAll xs).read = c.read := rfl

@[simp] theorem log_receive (c : Channel α) : c.receive.log = c.log := by
  unfold receive; split <;> rfl

theorem received_append_inFlight (c : Channel α) : c.received ++ c.inFlight = c.log :=
  List.take_append_drop _ _

@[simp] theorem received_sendAll (c : Channel α) (xs : List α) :
    (c.sendAll xs).received = c.received := by
  simp [received, List.take_append_of_le_length c.read_le]

/-- Reading moves the first item in flight to the items received. -/
theorem receive_of_next {c : Channel α} {x : α} (h : c.next? = some x) :
    c.receive.received = c.received ++ [x] ∧ c.inFlight = x :: c.receive.inFlight := by
  obtain ⟨hlt, hx⟩ := List.getElem?_eq_some_iff.mp h
  subst hx
  simp only [receive, hlt, ↓reduceDIte, received, inFlight]
  exact ⟨by rw [List.take_succ_eq_append_getElem hlt], List.drop_eq_getElem_cons hlt⟩

theorem receive_of_none {c : Channel α} (h : c.next? = none) : c.receive = c := by
  have hle := List.getElem?_eq_none_iff.mp h
  simp only [receive, Nat.not_lt.mpr hle, ↓reduceDIte]

theorem received_subset_receive (c : Channel α) : c.received ⊆ c.receive.received := by
  cases h : c.next? with
  | none => rw [receive_of_none h]; exact List.Subset.refl _
  | some x => rw [(receive_of_next h).1]; exact List.subset_append_left _ _

end Channel
