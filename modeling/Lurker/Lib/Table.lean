import Mathlib.Data.List.Nodup

/-!
# Tables with a primary key

The rows of a table, in the order they were inserted, with a key that is a
function of the row and differs between rows. The statements are those of a
database: insert with an update on conflict, update where, delete where. A
column that compares up to some folding enters the key folded.
-/

structure Table (ρ : Type*) {κ : Type*} (key : ρ → κ) where
  rows : List ρ
  nodup : (rows.map key).Nodup

namespace Table

variable {ρ κ : Type*} {key : ρ → κ}

theorem ext_rows {t t' : Table ρ key} (h : t.rows = t'.rows) : t = t' := by
  cases t; cases t'; cases h; rfl

def empty : Table ρ key := ⟨[], List.nodup_nil⟩

/-- Two rows of one key are one row. -/
theorem eq_of_key {t : Table ρ key} {r r' : ρ} (h : r ∈ t.rows) (h' : r' ∈ t.rows)
    (hkey : key r = key r') : r = r' :=
  List.inj_on_of_nodup_map t.nodup h h' hkey

private theorem map_update {rows : List ρ} {p : ρ → Bool} {f : ρ → ρ}
    (hf : ∀ r, key (f r) = key r) :
    (rows.map fun r => if p r then f r else r).map key = rows.map key := by
  rw [List.map_map]
  apply List.map_congr_left
  intro r _
  by_cases h : p r <;> simp [h, hf]

/-- `UPDATE … SET f WHERE p`, of columns outside the key. -/
def update (t : Table ρ key) (p : ρ → Bool) (f : ρ → ρ) (hf : ∀ r, key (f r) = key r) :
    Table ρ key :=
  ⟨t.rows.map fun r => if p r then f r else r, by rw [map_update hf]; exact t.nodup⟩

/-- `DELETE … WHERE p` -/
def delete (t : Table ρ key) (p : ρ → Bool) : Table ρ key :=
  ⟨t.rows.filter fun r => !p r, (List.filter_sublist.map key).nodup t.nodup⟩

theorem mem_update {t : Table ρ key} {p : ρ → Bool} {f : ρ → ρ} {r : ρ}
    (hf : ∀ r, key (f r) = key r) : r ∈ (t.update p f hf).rows ↔
      (r ∈ t.rows ∧ p r = false) ∨ ∃ r' ∈ t.rows, p r' = true ∧ f r' = r := by
  constructor
  · intro h
    obtain ⟨r', hr', rfl⟩ := List.mem_map.mp h
    by_cases hp : p r'
    · exact .inr ⟨r', hr', hp, by rw [if_pos hp]⟩
    · simp only [if_neg hp]
      exact .inl ⟨hr', Bool.eq_false_iff.mpr hp⟩
  · rintro (⟨hr, hp⟩ | ⟨r', hr', hp, rfl⟩)
    · exact List.mem_map.mpr ⟨r, hr, by simp [hp]⟩
    · exact List.mem_map.mpr ⟨r', hr', by rw [if_pos hp]⟩

@[simp] theorem mem_delete {t : Table ρ key} {p : ρ → Bool} {r : ρ} :
    r ∈ (t.delete p).rows ↔ r ∈ t.rows ∧ p r = false := by
  simp [delete]

variable [DecidableEq κ]

/-- The row of a key. -/
def get? (t : Table ρ key) (k : κ) : Option ρ := t.rows.find? fun r => key r = k

/-- `INSERT … ON CONFLICT DO UPDATE`: the row there is `f` of what it was. -/
def upsert (t : Table ρ key) (r : ρ) (f : ρ → ρ) (hf : ∀ r, key (f r) = key r) : Table ρ key :=
  if h : key r ∈ t.rows.map key then t.update (fun r' => key r' = key r) f hf
  else
    ⟨t.rows ++ [r], by
      rw [List.map_append, List.map_singleton]
      exact List.nodup_append.mpr ⟨t.nodup, List.nodup_singleton _,
        fun _ ha _ hb hab => h (List.mem_singleton.mp hb ▸ hab ▸ ha)⟩⟩

theorem get?_eq_some {t : Table ρ key} {k : κ} {r : ρ} :
    t.get? k = some r ↔ r ∈ t.rows ∧ key r = k := by
  constructor
  · intro h
    exact ⟨List.mem_of_find?_eq_some h, by simpa using List.find?_some h⟩
  · rintro ⟨hr, rfl⟩
    cases h : t.get? (key r) with
    | none => exact absurd (List.find?_eq_none.mp h r hr) (by simp)
    | some r' =>
      have hr' := List.mem_of_find?_eq_some h
      have hkey : key r' = key r := by simpa using List.find?_some h
      rw [eq_of_key hr' hr hkey]

theorem get?_eq_none {t : Table ρ key} {k : κ} : t.get? k = none ↔ ∀ r ∈ t.rows, key r ≠ k := by
  simp [get?, List.find?_eq_none]

theorem get?_key {t : Table ρ key} {k : κ} {r : ρ} (h : t.get? k = some r) : key r = k :=
  (get?_eq_some.mp h).2

@[simp] theorem get?_empty (k : κ) : (empty : Table ρ key).get? k = none := rfl

theorem mem_upsert {t : Table ρ key} {r : ρ} {f : ρ → ρ} {x : ρ} (hf : ∀ r, key (f r) = key r) :
    x ∈ (t.upsert r f hf).rows ↔
      (x ∈ t.rows ∧ key x ≠ key r) ∨ (∃ r' ∈ t.rows, key r' = key r ∧ f r' = x) ∨
        (x = r ∧ t.get? (key r) = none) := by
  unfold upsert
  split
  case isTrue h =>
    obtain ⟨r₀, hr₀, hkey⟩ := List.mem_map.mp h
    have hsome : t.get? (key r) ≠ none := fun hn => get?_eq_none.mp hn r₀ hr₀ hkey
    rw [mem_update]
    simp only [decide_eq_true_eq, decide_eq_false_iff_not]
    constructor
    · rintro (h | h)
      · exact .inl h
      · exact .inr (.inl h)
    · rintro (h | h | h)
      · exact .inl h
      · exact .inr h
      · exact absurd h.2 hsome
  case isFalse h =>
    have hne (r' : ρ) (hr' : r' ∈ t.rows) : key r' ≠ key r := fun he =>
      h (List.mem_map.mpr ⟨r', hr', he⟩)
    simp only [List.mem_append, List.mem_singleton]
    constructor
    · rintro (hx | rfl)
      · exact .inl ⟨hx, hne x hx⟩
      · exact .inr (.inr ⟨rfl, get?_eq_none.mpr hne⟩)
    · rintro (hx | ⟨r', hr', hk, -⟩ | hx)
      · exact .inl hx.1
      · exact absurd hk (hne r' hr')
      · exact .inr hx.1

theorem get?_update {t : Table ρ key} {p : ρ → Bool} {f : ρ → ρ} {k : κ}
    (hf : ∀ r, key (f r) = key r) : (t.update p f hf).get? k = (t.get? k).map fun r => if p r then f r else r := by
  cases h : t.get? k with
  | none =>
    refine get?_eq_none.mpr fun r hr hkey => ?_
    rcases (mem_update hf).mp hr with ⟨hr, -⟩ | ⟨r', hr', -, rfl⟩
    · exact get?_eq_none.mp h r hr hkey
    · exact get?_eq_none.mp h r' hr' ((hf r').symm.trans hkey)
  | some r =>
    obtain ⟨hr, rfl⟩ := get?_eq_some.mp h
    refine get?_eq_some.mpr ⟨(mem_update hf).mpr ?_, ?_⟩
    · by_cases hp : p r
      · exact .inr ⟨r, hr, hp, by simp [hp]⟩
      · exact .inl ⟨by simpa [hp] using hr, by simp [hp]⟩
    · by_cases hp : p r <;> simp [hp, hf]

theorem get?_delete {t : Table ρ key} {p : ρ → Bool} {k : κ} :
    (t.delete p).get? k = (t.get? k).filter fun r => !p r := by
  cases h : t.get? k with
  | none =>
    exact get?_eq_none.mpr fun r hr => get?_eq_none.mp h r (mem_delete.mp hr).1
  | some r =>
    obtain ⟨hr, rfl⟩ := get?_eq_some.mp h
    by_cases hp : p r
    · rw [Option.filter_some_neg (by simpa using hp)]
      refine get?_eq_none.mpr fun r' hr' hkey => ?_
      obtain ⟨hr', hp'⟩ := mem_delete.mp hr'
      rw [eq_of_key hr' hr hkey, hp] at hp'
      cases hp'
    · rw [Option.filter_some_pos (by simpa using hp)]
      exact get?_eq_some.mpr ⟨mem_delete.mpr ⟨hr, by simpa using hp⟩, rfl⟩

theorem get?_upsert {t : Table ρ key} {r : ρ} {f : ρ → ρ} {k : κ}
    (hf : ∀ r, key (f r) = key r) :
    (t.upsert r f hf).get? k =
      if k = key r then some (((t.get? (key r)).map f).getD r) else t.get? k := by
  split
  case isTrue h =>
    subst h
    cases h : t.get? (key r) with
    | none => exact get?_eq_some.mpr ⟨(mem_upsert hf).mpr (.inr (.inr ⟨rfl, h⟩)), rfl⟩
    | some r' =>
      obtain ⟨hr', hkey⟩ := get?_eq_some.mp h
      exact get?_eq_some.mpr ⟨(mem_upsert hf).mpr (.inr (.inl ⟨r', hr', hkey, rfl⟩)),
        (hf r').trans hkey⟩
  case isFalse h =>
    cases h' : t.get? k with
    | none =>
      refine get?_eq_none.mpr fun x hx hkey => ?_
      rcases (mem_upsert hf).mp hx with ⟨hx, -⟩ | ⟨r', -, hk, rfl⟩ | ⟨rfl, -⟩
      · exact get?_eq_none.mp h' x hx hkey
      · exact h (hkey.symm.trans ((hf r').trans hk))
      · exact h hkey.symm
    | some x =>
      obtain ⟨hx, rfl⟩ := get?_eq_some.mp h'
      exact get?_eq_some.mpr ⟨(mem_upsert hf).mpr (.inl ⟨hx, h⟩), rfl⟩

end Table
