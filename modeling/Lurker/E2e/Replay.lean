import Lurker.Lib.OrderedMap
import Lurker.E2e.Encoding
import Mathlib.Data.List.TakeWhile

/-!
# The replay cache

The identities of the chunks seen lately, each until its expiry, in the order
they were recorded. Recording drops the expired entries at the front and, past
the size cap, the oldest.
-/

namespace Lurker.E2e

structure ReplayCache where
  /-- Key to expiry, in milliseconds. -/
  seen : OrderedMap Text Nat
  maxEntries : Nat

namespace ReplayCache

def empty (maxEntries : Nat) : ReplayCache := ⟨.empty, maxEntries⟩

/-- The entries without the expired ones at the front. -/
def dropExpired (m : OrderedMap Text Nat) (now : Nat) : OrderedMap Text Nat :=
  m.restrict (m.entries.dropWhile fun e => e.2 ≤ now) (List.dropWhile_suffix _).sublist

/-- The entries without the oldest beyond the cap. -/
def dropOldest (m : OrderedMap Text Nat) (maxEntries : Nat) : OrderedMap Text Nat :=
  m.restrict (m.entries.drop (m.entries.length - maxEntries)) (List.drop_sublist _ _)

/-- The entry of a key has not expired. -/
def live (c : ReplayCache) (now : Nat) (key : Text) : Bool :=
  match c.seen.get? key with
  | some expiry => now < expiry
  | none => false

/-- The entries once a key is recorded and the expired ones at the front are gone. -/
def recorded (c : ReplayCache) (now : Nat) (key : Text) (ttl : Nat) : OrderedMap Text Nat :=
  dropExpired ((c.seen.delete key).set key (now + ttl)) now

/-- Record `key` as seen for `ttl`: `true` if it is fresh, `false` if it is a live replay. -/
def observe (c : ReplayCache) (now : Nat) (key : Text) (ttl : Nat) : Bool × ReplayCache :=
  if c.live now key then (false, c)
  else (true, { c with seen := dropOldest (c.recorded now key ttl) c.maxEntries })

/-- Recording `key` takes the cache past its cap. -/
def overflows (c : ReplayCache) (now : Nat) (key : Text) (ttl : Nat) : Bool :=
  !c.live now key && c.maxEntries < (c.recorded now key ttl).entries.length

variable {c : ReplayCache} {now ttl : Nat} {key : Text}

theorem observe_fst : (c.observe now key ttl).1 = !c.live now key := by
  unfold observe
  split <;> simp [*]

theorem observe_of_live (h : c.live now key = true) : c.observe now key ttl = (false, c) := by
  rw [observe, if_pos h]

private theorem get?_restrict {m : OrderedMap Text Nat} {es : List (Text × Nat)}
    {h : es.Sublist m.entries} {k : Text} {v : Nat} :
    (m.restrict es h).get? k = some v ↔ (k, v) ∈ es :=
  OrderedMap.get?_eq_some

theorem get?_dropExpired {m : OrderedMap Text Nat} {k : Text} {v : Nat} (hv : now < v) :
    (dropExpired m now).get? k = some v ↔ m.get? k = some v := by
  rw [dropExpired, get?_restrict, OrderedMap.get?_eq_some]
  refine ⟨fun h => (List.dropWhile_suffix _).subset h, fun h => ?_⟩
  rw [← List.takeWhile_append_dropWhile (p := fun e => decide (e.2 ≤ now)) (l := m.entries)] at h
  rcases List.mem_append.mp h with h | h
  · have := List.mem_takeWhile_imp h
    simp only [decide_eq_true_eq] at this
    omega
  · exact h

theorem get?_recorded {k : Text} {v : Nat} (hv : now < v) :
    (c.recorded now key ttl).get? k = some v ↔
      if k = key then v = now + ttl else c.seen.get? k = some v := by
  rw [recorded, get?_dropExpired hv, OrderedMap.get?_set, OrderedMap.get?_delete]
  split
  · exact ⟨fun h => (Option.some.inj h).symm, fun h => by rw [h]⟩
  · rfl

/-- Recording without overflow: the key is live for its time, the rest as before. -/
theorem get?_observe (hlive : c.live now key = false) (hcap : c.overflows now key ttl = false)
    {k : Text} {v : Nat} (hv : now < v) :
    (c.observe now key ttl).2.seen.get? k = some v ↔
      if k = key then v = now + ttl else c.seen.get? k = some v := by
  have hlen : (c.recorded now key ttl).entries.length ≤ c.maxEntries := by
    simpa [overflows, hlive] using hcap
  rw [observe, if_neg (by simp [hlive]), ← get?_recorded hv, dropOldest, get?_restrict,
    Nat.sub_eq_zero_of_le hlen, List.drop_zero, OrderedMap.get?_eq_some]

/-- Recording one key makes no other key live. -/
theorem live_observe_of_ne {k : Text} {later : Nat} (hk : k ≠ key)
    (h : c.live later k = false) : (c.observe now key ttl).2.live later k = false := by
  unfold observe
  split
  · exact h
  unfold live
  split
  case h_2 => rfl
  case h_1 v heq =>
    -- the entry comes from the cache before, where it is not live
    have hmem : (k, v) ∈ (c.recorded now key ttl).entries :=
      List.mem_of_mem_drop (OrderedMap.get?_eq_some.mp heq)
    have hmem := OrderedMap.get?_eq_some.mpr ((List.dropWhile_suffix _).subset hmem)
    rw [OrderedMap.get?_set, if_neg hk, OrderedMap.get?_delete, if_neg hk] at hmem
    simpa [live, hmem] using h

end ReplayCache

end Lurker.E2e
