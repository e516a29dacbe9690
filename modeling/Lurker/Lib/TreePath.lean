import Mathlib.Data.List.Infix

/-!
# Positions in a growing tree

A position is the list of child indices on the way down from the root. One
position precedes another when the two part, the first taking the earlier
child. Growing below either position keeps this, so an order among positions
survives whatever they expand to.
-/

namespace TreePath

/-- `p` and `q` part below a common position, `p` taking the earlier child. -/
def Precedes (p q : List Nat) : Prop := ∃ c i j, i < j ∧ c ++ [i] <+: p ∧ c ++ [j] <+: q

variable {p q r : List Nat} {i j : Nat}

namespace Precedes

theorem append_left (h : Precedes p q) (r : List Nat) : Precedes (p ++ r) q := by
  obtain ⟨c, i, j, hij, hp, hq⟩ := h
  exact ⟨c, i, j, hij, hp.trans (List.prefix_append p r), hq⟩

theorem append_right (h : Precedes p q) (r : List Nat) : Precedes p (q ++ r) := by
  obtain ⟨c, i, j, hij, hp, hq⟩ := h
  exact ⟨c, i, j, hij, hp, hq.trans (List.prefix_append q r)⟩

theorem cons_lt (h : i < j) (p q : List Nat) : Precedes (i :: p) (j :: q) :=
  ⟨[], i, j, h, ⟨p, rfl⟩, ⟨q, rfl⟩⟩

theorem siblings (p : List Nat) (h : i < j) : Precedes (p ++ [i]) (p ++ [j]) :=
  ⟨p, i, j, h, List.prefix_rfl, List.prefix_rfl⟩

/-- Where two positions part, the same index cannot be taken twice. -/
theorem index_eq {c : List Nat} (hi : c ++ [i] <+: p) (hj : c ++ [j] <+: p) : i = j := by
  obtain ⟨a, ha⟩ := hi
  obtain ⟨b, hb⟩ := hj
  simp only [List.append_assoc, List.singleton_append] at ha hb
  exact (List.cons.inj (List.append_cancel_left (ha.trans hb.symm))).1

/-- Positions that part are not above each other. -/
theorem not_prefix (h : Precedes p q) : ¬p <+: q := by
  obtain ⟨c, i, j, hij, hp, hq⟩ := h
  intro hpq
  exact hij.ne (index_eq (hp.trans hpq) hq)

theorem not_prefix' (h : Precedes p q) : ¬q <+: p := by
  obtain ⟨c, i, j, hij, hp, hq⟩ := h
  intro hqp
  exact hij.ne (index_eq hp (hq.trans hqp))

theorem irrefl (p : List Nat) : ¬Precedes p p := fun h => h.not_prefix List.prefix_rfl

end Precedes

end TreePath
