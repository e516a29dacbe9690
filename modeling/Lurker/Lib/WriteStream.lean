import Mathlib.Data.List.Infix

/-!
# A stream into a file

What is handed to a write stream is queued, and reaches the file later, if at all: opening the
file can fail, and so can any write, also in its middle. The stream reports a failure some time
after it happened. `end` runs its callback once everything is in the file, and also when the
stream has failed.
-/

/-- A stream that writes to a file from a position on. -/
structure WriteStream where
  start : Nat
  opened : Bool
  failure : Option String
  destroyed : Bool
  needDrain : Bool
  /-- `end` was called, and its callback has not run. -/
  ending : Bool
  /-- All that `write` was called with. -/
  handed : List UInt8
  /-- Queued or on their way. -/
  pending : List UInt8
  /-- In the file, from `start` on. -/
  written : List UInt8
  deriving DecidableEq

namespace WriteStream

def create (start : Nat) : WriteStream where
  start := start
  opened := false
  failure := none
  destroyed := false
  needDrain := false
  ending := false
  handed := []
  pending := []
  written := []

/-- The stream after `write(chunk)`, and what the call returns. -/
def write (highWaterMark : Nat) (chunk : List UInt8) (w : WriteStream) : WriteStream × Bool :=
  if w.failure.isSome ∨ w.destroyed then ({ w with handed := w.handed ++ chunk }, false)
  else
    let ok := decide (w.pending.length + chunk.length < highWaterMark)
    ({ w with
        handed := w.handed ++ chunk
        pending := w.pending ++ chunk
        needDrain := w.needDrain || !ok }, ok)

def destroy (w : WriteStream) : WriteStream := { w with destroyed := true }

def «end» (w : WriteStream) : WriteStream := { w with ending := true }

def «open» (w : WriteStream) : WriteStream :=
  if w.failure = none then { w with opened := true } else w

/-- The next `n` bytes are in the file. -/
def reach (n : Nat) (w : WriteStream) : WriteStream :=
  if w.opened ∧ w.failure = none then
    { w with written := w.written ++ w.pending.take n, pending := w.pending.drop n }
  else w

/-- Opening the file fails, or a write. -/
def fail (e : String) (w : WriteStream) : WriteStream :=
  if w.failure = none ∧ (w.opened = false ∨ w.pending ≠ []) then { w with failure := some e } else w

/-- The callback of `end` is due: everything is in the file, or nothing more will be. -/
def endDue (w : WriteStream) : Bool :=
  w.ending && (w.failure.isSome || (w.opened && w.pending.isEmpty))

/-- Failed with bytes that are not in the file. -/
def lost (w : WriteStream) : Bool := w.failure.isSome && w.written != w.handed

structure Sound (w : WriteStream) : Prop where
  accounted : w.written ++ w.pending <+: w.handed
  kept : w.failure = none → w.destroyed = false → w.written ++ w.pending = w.handed

theorem sound_create (start : Nat) : (create start).Sound := ⟨List.prefix_rfl, fun _ _ => rfl⟩

variable {w : WriteStream}

theorem Sound.write (h : w.Sound) (highWaterMark : Nat) (chunk : List UInt8) :
    (w.write highWaterMark chunk).1.Sound := by
  unfold WriteStream.write
  split
  · rename_i hf
    refine ⟨h.accounted.trans (List.prefix_append _ _), fun hn hd => ?_⟩
    rcases hf with hf | hf
    · simp only at hn; simp [hn] at hf
    · simp only at hd; simp [hd] at hf
  · rename_i hf
    have hf' : w.failure = none ∧ w.destroyed = false := by simpa using hf
    have hk := h.kept hf'.1 hf'.2
    have he : w.written ++ (w.pending ++ chunk) = w.handed ++ chunk := by
      rw [← List.append_assoc, hk]
    exact ⟨he ▸ List.prefix_rfl, fun _ _ => he⟩

@[simp] theorem write_handed (highWaterMark : Nat) (chunk : List UInt8) :
    (w.write highWaterMark chunk).1.handed = w.handed ++ chunk := by
  unfold WriteStream.write; split <;> rfl

theorem write_frame (highWaterMark : Nat) (chunk : List UInt8) :
    (w.write highWaterMark chunk).1.start = w.start ∧
    (w.write highWaterMark chunk).1.ending = w.ending ∧
    (w.write highWaterMark chunk).1.destroyed = w.destroyed ∧
    (w.write highWaterMark chunk).1.failure = w.failure ∧
    (w.write highWaterMark chunk).1.written = w.written := by
  unfold WriteStream.write; split <;> exact ⟨rfl, rfl, rfl, rfl, rfl⟩

theorem Sound.destroy (h : w.Sound) : w.destroy.Sound :=
  ⟨h.accounted, fun _ hd => by simp [WriteStream.destroy] at hd⟩

theorem Sound.end (h : w.Sound) : w.end.Sound := ⟨h.accounted, h.kept⟩

theorem Sound.open (h : w.Sound) : w.open.Sound := by
  unfold WriteStream.open; split
  · exact ⟨h.accounted, h.kept⟩
  · exact h

theorem reach_bytes (n : Nat) : (w.reach n).written ++ (w.reach n).pending = w.written ++ w.pending := by
  unfold WriteStream.reach; split
  · rw [List.append_assoc, List.take_append_drop]
  · rfl

theorem reach_frame (n : Nat) :
    (w.reach n).start = w.start ∧ (w.reach n).ending = w.ending ∧
    (w.reach n).destroyed = w.destroyed ∧ (w.reach n).failure = w.failure ∧
    (w.reach n).handed = w.handed := by
  unfold WriteStream.reach; split <;> exact ⟨rfl, rfl, rfl, rfl, rfl⟩

theorem Sound.reach (h : w.Sound) (n : Nat) : (w.reach n).Sound := by
  obtain ⟨-, -, hd, hf, hh⟩ := reach_frame (w := w) n
  constructor
  · rw [reach_bytes, hh]; exact h.accounted
  · rw [reach_bytes, hh, hd, hf]; exact h.kept

theorem fail_frame (e : String) :
    (w.fail e).start = w.start ∧ (w.fail e).ending = w.ending ∧
    (w.fail e).destroyed = w.destroyed ∧ (w.fail e).pending = w.pending ∧
    (w.fail e).handed = w.handed ∧ (w.fail e).written = w.written := by
  unfold WriteStream.fail; split <;> exact ⟨rfl, rfl, rfl, rfl, rfl, rfl⟩

theorem Sound.fail (h : w.Sound) (e : String) : (w.fail e).Sound := by
  unfold WriteStream.fail; split
  · exact ⟨h.accounted, fun hn _ => by simp at hn⟩
  · exact h

/-- All that was handed is in the file once the callback of `end` is due on a stream that lost
nothing. -/
theorem Sound.complete (h : w.Sound) (hdue : w.endDue) (hd : w.destroyed = false)
    (hl : w.lost = false) : w.written = w.handed := by
  simp only [endDue, Bool.and_eq_true, Bool.or_eq_true, List.isEmpty_iff] at hdue
  rcases hdue.2 with hf | ⟨-, hp⟩
  · simpa [lost, hf] using hl
  · by_cases hf : w.failure = none
    · simpa [hp] using h.kept hf hd
    · simpa [lost, Option.isSome_iff_ne_none.mpr hf] using hl

end WriteStream
