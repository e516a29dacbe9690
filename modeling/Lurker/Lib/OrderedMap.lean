import Mathlib.Data.List.Nodup
import Mathlib.Data.List.Perm.Basic

/-!
# Maps that remember insertion order

A finite map whose entries are enumerated in the order their keys were first
set. Setting a present key changes its value in place; deleting a key and
setting it again moves it to the end. The order matters to whoever enumerates
the map, so it is part of the value, and the keys are pairwise distinct by
construction.
-/

/-- A finite map together with the order in which its keys were first set. -/
structure OrderedMap (κ ν : Type*) where
  entries : List (κ × ν)
  nodup : (entries.map Prod.fst).Nodup

namespace OrderedMap

variable {κ ν : Type*}

theorem ext_entries {m m' : OrderedMap κ ν} (h : m.entries = m'.entries) : m = m' := by
  cases m; cases m'; cases h; rfl

def empty : OrderedMap κ ν := ⟨[], List.nodup_nil⟩

def keys (m : OrderedMap κ ν) : List κ := m.entries.map Prod.fst

def values (m : OrderedMap κ ν) : List ν := m.entries.map Prod.snd

/-- A part of the entries, in their order. -/
def restrict (m : OrderedMap κ ν) (es : List (κ × ν)) (h : es.Sublist m.entries) : OrderedMap κ ν :=
  ⟨es, (h.map Prod.fst).nodup m.nodup⟩

/-- Keep the entries whose value satisfies a test, in the same order. -/
def filterValues (m : OrderedMap κ ν) (p : ν → Bool) : OrderedMap κ ν :=
  ⟨m.entries.filter (fun e => p e.2), (List.filter_sublist.map Prod.fst).nodup m.nodup⟩

theorem filterValues_entries (m : OrderedMap κ ν) (p : ν → Bool) :
    (m.filterValues p).entries = m.entries.filter (fun e => p e.2) := rfl

theorem values_filterValues (m : OrderedMap κ ν) (p : ν → Bool) :
    (m.filterValues p).values = m.values.filter p := by
  simp only [values, filterValues, List.filter_map]
  rfl

/-- Keep the entries whose key satisfies a test, in the same order. -/
def filterKeys (m : OrderedMap κ ν) (p : κ → Bool) : OrderedMap κ ν :=
  m.restrict (m.entries.filter fun e => p e.1) List.filter_sublist

theorem keys_filterKeys (m : OrderedMap κ ν) (p : κ → Bool) :
    (m.filterKeys p).keys = m.keys.filter p := by
  simp [filterKeys, restrict, keys, List.filter_map, Function.comp_def]

def size (m : OrderedMap κ ν) : Nat := m.entries.length

theorem size_eq_keys (m : OrderedMap κ ν) : m.size = m.keys.length := by
  simp [size, keys]

variable [DecidableEq κ]

def get? (m : OrderedMap κ ν) (k : κ) : Option ν :=
  (m.entries.find? (fun e => e.1 = k)).map Prod.snd

private theorem setEntries_keys (es : List (κ × ν)) (k : κ) (v : ν) :
    (es.map (fun e => if e.1 = k then (k, v) else e)).map Prod.fst = es.map Prod.fst := by
  rw [List.map_map]
  apply List.map_congr_left
  intro e _
  by_cases h : e.1 = k <;> simp [h]

/-- Set a key: in place when it is present, at the end when it is not. -/
def set (m : OrderedMap κ ν) (k : κ) (v : ν) : OrderedMap κ ν :=
  if h : k ∈ m.entries.map Prod.fst then
    ⟨m.entries.map (fun e => if e.1 = k then (k, v) else e), by
      rw [setEntries_keys]; exact m.nodup⟩
  else
    ⟨m.entries ++ [(k, v)], by
      rw [List.map_append, List.nodup_append]
      refine ⟨m.nodup, by simp, ?_⟩
      intro a ha b hb hab
      simp only [List.map_cons, List.map_nil, List.mem_singleton] at hb
      exact h (hb ▸ hab ▸ ha)⟩

def delete (m : OrderedMap κ ν) (k : κ) : OrderedMap κ ν :=
  ⟨m.entries.filter (fun e => e.1 ≠ k), (List.filter_sublist.map Prod.fst).nodup m.nodup⟩

theorem get?_eq_some {m : OrderedMap κ ν} {k : κ} {v : ν} :
    m.get? k = some v ↔ (k, v) ∈ m.entries := by
  constructor
  · intro h
    obtain ⟨e, he, rfl⟩ := Option.map_eq_some_iff.mp h
    have hk := List.find?_some he
    have hm := List.mem_of_find?_eq_some he
    simp only [decide_eq_true_eq] at hk
    exact hk ▸ hm
  · intro h
    cases hf : m.entries.find? (fun e => e.1 = k) with
    | none =>
        have hn := List.find?_eq_none.mp hf (k, v) h
        simp at hn
    | some e =>
        have hk := List.find?_some hf
        have hm := List.mem_of_find?_eq_some hf
        simp only [decide_eq_true_eq] at hk
        have he : e = (k, v) := List.inj_on_of_nodup_map m.nodup hm h hk
        simp [get?, hf, he]

theorem get?_eq_none {m : OrderedMap κ ν} {k : κ} :
    m.get? k = none ↔ ∀ v, (k, v) ∉ m.entries := by
  constructor
  · intro h v hv
    rw [get?_eq_some.mpr hv] at h
    exact nomatch h
  · intro h
    cases hg : m.get? k with
    | none => rfl
    | some v => exact absurd (get?_eq_some.mp hg) (h v)

@[simp] theorem get?_empty (k : κ) : (empty : OrderedMap κ ν).get? k = none := rfl

theorem get?_set (m : OrderedMap κ ν) (k k' : κ) (v : ν) :
    (m.set k v).get? k' = if k' = k then some v else m.get? k' := by
  have hmem : ∀ w, (k', w) ∈ (m.set k v).entries ↔
      (if k' = k then w = v else (k', w) ∈ m.entries) := by
    intro w
    unfold set
    split
    · rename_i hk
      simp only [List.mem_map]
      by_cases hkk : k' = k
      · subst hkk
        simp only [if_true]
        constructor
        · rintro ⟨e, _, he⟩
          by_cases h : e.1 = k'
          · simpa [h] using he.symm
          · rw [if_neg h] at he
            exact absurd (congrArg Prod.fst he) h
        · rintro rfl
          obtain ⟨e, he, hek⟩ := List.mem_map.mp hk
          exact ⟨e, he, by simp [hek]⟩
      · simp only [if_neg hkk]
        constructor
        · rintro ⟨e, he, heq⟩
          by_cases h : e.1 = k
          · rw [if_pos h] at heq
            exact absurd (congrArg Prod.fst heq).symm hkk
          · rw [if_neg h] at heq
            exact heq ▸ he
        · intro h
          exact ⟨_, h, by simp [hkk]⟩
    · rename_i hk
      simp only [List.mem_append, List.mem_singleton, Prod.mk.injEq]
      by_cases hkk : k' = k
      · subst hkk
        simp only [if_true, true_and]
        constructor
        · rintro (h | h)
          · exact absurd (List.mem_map.mpr ⟨_, h, rfl⟩) hk
          · exact h
        · exact Or.inr
      · simp [hkk]
  split
  · rename_i h
    rw [get?_eq_some, hmem, if_pos h]
  · rename_i h
    cases hg : m.get? k' with
    | none =>
        rw [get?_eq_none] at hg ⊢
        intro w hw
        rw [hmem, if_neg h] at hw
        exact hg w hw
    | some w => rw [get?_eq_some, hmem, if_neg h]; exact get?_eq_some.mp hg

theorem get?_delete (m : OrderedMap κ ν) (k k' : κ) :
    (m.delete k).get? k' = if k' = k then none else m.get? k' := by
  split
  · rename_i h
    rw [get?_eq_none]
    intro v hv
    simp [delete, h] at hv
  · rename_i h
    cases hg : m.get? k' with
    | none =>
        rw [get?_eq_none] at hg ⊢
        intro v hv
        exact hg v (List.mem_of_mem_filter hv)
    | some v =>
        rw [get?_eq_some] at hg ⊢
        exact List.mem_filter.mpr ⟨hg, by simpa using h⟩

theorem mem_values {m : OrderedMap κ ν} {v : ν} : v ∈ m.values ↔ ∃ k, m.get? k = some v := by
  simp only [values, List.mem_map, Prod.exists, exists_eq_right, get?_eq_some]

theorem get?_filterValues (m : OrderedMap κ ν) (p : ν → Bool) (k : κ) :
    (m.filterValues p).get? k = (m.get? k).filter p := by
  cases hg : m.get? k with
  | none =>
      rw [get?_eq_none] at hg
      rw [Option.filter_none, get?_eq_none]
      intro v hv
      exact hg v (List.mem_of_mem_filter hv)
  | some v =>
      have hm := get?_eq_some.mp hg
      by_cases hp : p v
      · rw [Option.filter_some, if_pos hp, get?_eq_some]
        exact List.mem_filter.mpr ⟨hm, hp⟩
      · rw [Option.filter_some, if_neg hp, get?_eq_none]
        intro w hw
        have hw' := List.mem_filter.mp hw
        have hvw : w = v := Option.some.inj ((get?_eq_some.mpr hw'.1).symm.trans hg)
        exact hp (hvw ▸ hw'.2)

def has (m : OrderedMap κ ν) (k : κ) : Bool := (m.get? k).isSome

theorem has_iff {m : OrderedMap κ ν} {k : κ} : m.has k = true ↔ k ∈ m.keys := by
  rw [has, Option.isSome_iff_exists, keys, List.mem_map]
  constructor
  · rintro ⟨v, hv⟩
    exact ⟨(k, v), get?_eq_some.mp hv, rfl⟩
  · rintro ⟨e, he, rfl⟩
    exact ⟨e.2, get?_eq_some.mpr he⟩

theorem keys_set (m : OrderedMap κ ν) (k : κ) (v : ν) :
    (m.set k v).keys = if k ∈ m.keys then m.keys else m.keys ++ [k] := by
  unfold set keys
  split
  · exact setEntries_keys _ _ _
  · simp

theorem get?_filterKeys (m : OrderedMap κ ν) (p : κ → Bool) (k : κ) :
    (m.filterKeys p).get? k = if p k then m.get? k else none := by
  split
  · rename_i h
    cases hg : m.get? k with
    | none =>
      rw [get?_eq_none] at hg ⊢
      exact fun v hv => hg v (List.mem_of_mem_filter hv)
    | some v =>
      rw [get?_eq_some] at hg ⊢
      exact List.mem_filter.mpr ⟨hg, h⟩
  · rename_i h
    rw [get?_eq_none]
    exact fun v hv => h (List.mem_filter.mp hv).2

theorem filterValues_congr {m : OrderedMap κ ν} {p q : ν → Bool}
    (h : ∀ k v, m.get? k = some v → p v = q v) : m.filterValues p = m.filterValues q := by
  refine ext_entries (List.filter_congr fun e he => ?_)
  exact h e.1 e.2 (get?_eq_some.mpr he)

theorem filterValues_delete (m : OrderedMap κ ν) (p : ν → Bool) (k : κ) :
    (m.delete k).filterValues p = (m.filterValues p).delete k := by
  refine ext_entries ?_
  simp only [filterValues, delete, List.filter_filter]
  exact List.filter_congr (fun e _ => Bool.and_comm _ _)

/-- A key that is set among the entries kept is set among all of them. -/
theorem filterValues_set {m : OrderedMap κ ν} {p : ν → Bool} {k : κ} {v : ν} (hv : p v = true)
    (hk : ∀ w, m.get? k = some w → p w = true) :
    (m.set k v).filterValues p = (m.filterValues p).set k v := by
  have hkept : ∀ e ∈ m.entries, e.1 = k → p e.2 = true := by
    rintro ⟨i, w⟩ he rfl
    exact hk w (get?_eq_some.mpr he)
  have hmem : k ∈ (m.filterValues p).entries.map Prod.fst ↔ k ∈ m.entries.map Prod.fst := by
    simp only [filterValues, List.mem_map, List.mem_filter]
    constructor
    · rintro ⟨e, he, rfl⟩
      exact ⟨e, he.1, rfl⟩
    · rintro ⟨e, he, rfl⟩
      exact ⟨e, ⟨he, hkept e he rfl⟩, rfl⟩
  refine ext_entries ?_
  rw [filterValues_entries]
  unfold set
  by_cases h : k ∈ m.entries.map Prod.fst
  · rw [dif_pos h, dif_pos (hmem.mpr h)]
    simp only [filterValues, List.filter_map]
    refine congrArg _ (List.filter_congr fun e he => ?_)
    by_cases hek : e.1 = k
    · simp only [Function.comp, hek, ↓reduceIte, hv, hkept e he hek]
    · simp only [Function.comp, hek, ↓reduceIte]
  · rw [dif_neg h, dif_neg (fun h' => h (hmem.mp h'))]
    simp [filterValues, List.filter_append, hv]

end OrderedMap
