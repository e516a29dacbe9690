import Mathlib.Data.Finset.Basic
import Mathlib.Logic.Function.Basic
import Lurker.Timeline.Consolidate

/-!
# The people of a run

The reference a summary is compared with: who was in the channel before the run,
who is in it after, and who the persons are that its events are about. A nick
belongs to the person last known by it. A person who leaves keeps the nick until
somebody else takes it, so an arrival under it is a return.
-/
namespace Lurker.Timeline

variable (lower : String → String)

/-- What an event does to the set of nicks present, each in its folded spelling. -/
def applyEvent (present : Finset String) : Event → Finset String
  | .join nick => insert (lower nick) present
  | .part nick => present.erase (lower nick)
  | .quit nick => present.erase (lower nick)
  | .nick nick newNick => insert (lower newNick) (present.erase (lower nick))
  | .chghost _ => present

/-- An event that a channel with these nicks present can see. -/
def Possible (present : Finset String) : Event → Prop
  | .join nick => lower nick ∉ present
  | .part nick => lower nick ∈ present
  | .quit nick => lower nick ∈ present
  | .nick nick newNick =>
    lower nick ∈ present ∧ (lower newNick ∈ present → lower newNick = lower nick)
  | .chghost nick => lower nick ∈ present

instance (present : Finset String) (e : Event) : Decidable (Possible lower present e) := by
  cases e <;> unfold Possible <;> infer_instance

/-- A run that is consistent with the nicks present before it. -/
def Consistent : Finset String → List Event → Prop
  | _, [] => True
  | present, e :: es => Possible lower present e ∧ Consistent (applyEvent lower present e) es

instance decidableConsistent : ∀ present es, Decidable (Consistent lower present es)
  | _, [] => .isTrue trivial
  | present, e :: es =>
    have := decidableConsistent (applyEvent lower present e) es
    inferInstanceAs (Decidable (Possible lower present e ∧ _))

/-- A person of the run: the first and the last nick, whether present before it and now,
whether they came or went at all, and whether they changed nick. -/
structure Person where
  first : String
  last : String
  before : Bool
  now : Bool
  moved : Bool
  renamed : Bool
  deriving DecidableEq, Repr

/-- Somebody the run has not said anything about yet. -/
def Person.stranger (nick : String) (present : Bool) : Person :=
  ⟨nick, nick, present, present, false, false⟩

def Person.arrive (p : Person) : Person := { p with now := true, moved := true }

def Person.depart (p : Person) : Person := { p with now := false, moved := true }

def Person.rename (newNick : String) (p : Person) : Person :=
  { p with last := newNick, renamed := true }

/-- The persons in order of appearance, and whose each nick is. -/
structure Cast where
  people : List Person
  holder : String → Option Nat

def Cast.start : Cast := ⟨[], fun _ => none⟩

/-- Somebody under the nick does something; a nick nobody holds is a stranger's. -/
def Cast.meet (c : Cast) (nick : String) (present : Bool) (f : Person → Person) : Cast :=
  match c.holder (lower nick) with
  | some i => { c with people := c.people.modify i f }
  | none =>
    { people := c.people ++ [f (.stranger nick present)]
      holder := Function.update c.holder (lower nick) (some c.people.length) }

/-- The person under a nick goes on under another, which is theirs from now on. -/
def Cast.retitle (c : Cast) (nick newNick : String) : Cast :=
  match c.holder (lower nick) with
  | some i =>
    { people := c.people.modify i (.rename newNick)
      holder := Function.update (Function.update c.holder (lower nick) none)
        (lower newNick) (some i) }
  | none => c

def Cast.step (c : Cast) : Event → Cast
  | .join nick => c.meet lower nick false .arrive
  | .part nick => c.meet lower nick true .depart
  | .quit nick => c.meet lower nick true .depart
  | .nick nick newNick => (c.meet lower nick true id).retitle lower nick newNick
  | .chghost nick => c.meet lower nick true id

/-- The people of a whole run. -/
def castOf (events : List Event) : Cast := events.foldl (Cast.step lower) Cast.start

/-- No one takes a nick by which another person of the run was last known. -/
def NoTakeover (c : Cast) : List Event → Prop
  | [] => True
  | e :: es =>
    (match e with
      | .nick nick newNick => lower newNick ≠ lower nick → c.holder (lower newNick) = none
      | _ => True) ∧ NoTakeover (c.step lower e) es

/-- Somebody the run knows was present before it under this nick. -/
def Known (people : List Person) (k : String) : Prop :=
  ∃ p ∈ people, p.before = true ∧ lower p.first = k

/-- Presence and the people agree: a held nick is present when its person is, and one that is
not held is present when it was before the run and nobody has been seen under it. -/
structure Agree (before present : Finset String) (c : Cast) : Prop where
  held : ∀ k i, c.holder k = some i → ∃ p, c.people[i]? = some p ∧ lower p.last = k ∧
    (k ∈ present ↔ p.now = true)
  free : ∀ k, c.holder k = none → (k ∈ present ↔ k ∈ before ∧ ¬Known lower c.people k)
  known : ∀ k i, c.holder k = some i → k ∈ before → Known lower c.people k
  first_mem : ∀ p ∈ c.people, p.before = true → lower p.first ∈ before
  distinct : ∀ (i j : Nat) (p q : Person), c.people[i]? = some p → c.people[j]? = some q →
    p.before = true → q.before = true → lower p.first = lower q.first → i = j
  settled : ∀ p ∈ c.people, p.moved = true ∨ (p.before = true ∧ p.now = true)
  unnamed : ∀ p ∈ c.people, p.renamed = false → p.last = p.first

variable {lower}

theorem agree_start (before : Finset String) : Agree lower before before Cast.start where
  held _ _ h := by cases h
  free k _ := by simp [Cast.start, Known]
  known _ _ h := by cases h
  first_mem _ h := by cases h
  distinct _ _ _ _ h := by simp [Cast.start] at h
  settled _ h := by cases h
  unnamed _ h := by cases h

theorem Agree.lt {before present : Finset String} {c : Cast} (h : Agree lower before present c)
    {k : String} {i : Nat} (hk : c.holder k = some i) : i < c.people.length := by
  obtain ⟨p, hp, -⟩ := h.held k i hk
  exact (List.getElem?_eq_some_iff.mp hp).1

/-- No two nicks are one person's. -/
theorem Agree.holder_inj {before present : Finset String} {c : Cast}
    (h : Agree lower before present c) {k k' : String} {i : Nat} (hk : c.holder k = some i)
    (hk' : c.holder k' = some i) : k = k' := by
  obtain ⟨p, hp, hlast, -⟩ := h.held k i hk
  obtain ⟨q, hq, hlast', -⟩ := h.held k' i hk'
  rw [hp] at hq
  cases hq
  exact hlast.symm.trans hlast'

/-- An act that leaves a person's nicks and past as they were. -/
structure Keeps (f : Person → Person) : Prop where
  first : ∀ p, (f p).first = p.first
  last : ∀ p, (f p).last = p.last
  before : ∀ p, (f p).before = p.before
  renamed : ∀ p, (f p).renamed = p.renamed

theorem keeps_arrive : Keeps Person.arrive :=
  ⟨fun _ => rfl, fun _ => rfl, fun _ => rfl, fun _ => rfl⟩

theorem keeps_depart : Keeps Person.depart :=
  ⟨fun _ => rfl, fun _ => rfl, fun _ => rfl, fun _ => rfl⟩

theorem keeps_id : Keeps id :=
  ⟨fun _ => rfl, fun _ => rfl, fun _ => rfl, fun _ => rfl⟩

theorem getElem?_modify_self {α : Type*} {l : List α} {i : Nat} {a : α} (f : α → α)
    (h : l[i]? = some a) : (l.modify i f)[i]? = some (f a) := by
  simp [h]

theorem getElem?_modify_ne {α : Type*} {l : List α} {i j : Nat} (f : α → α) (h : i ≠ j) :
    (l.modify i f)[j]? = l[j]? := by
  simp [h]

/-- What is true of every person before the change and of the changed person is true after. -/
theorem forall_modify {α : Type*} {l : List α} {i : Nat} {f : α → α} {P : α → Prop}
    (h : ∀ a ∈ l, P a) (hf : ∀ a, l[i]? = some a → P (f a)) : ∀ a ∈ l.modify i f, P a := by
  intro a ha
  obtain ⟨j, hj⟩ := List.mem_iff_getElem?.mp ha
  by_cases hij : i = j
  · subst hij
    cases hl : l[i]? with
    | none => simp [hl] at hj
    | some b =>
      rw [getElem?_modify_self f hl] at hj
      cases hj
      exact hf b hl
  · rw [getElem?_modify_ne f hij] at hj
    exact h a (List.mem_of_getElem? hj)

theorem known_modify {l : List Person} {i : Nat} {f : Person → Person}
    (hfirst : ∀ p, (f p).first = p.first) (hbefore : ∀ p, (f p).before = p.before) (k : String) :
    Known lower (l.modify i f) k ↔ Known lower l k := by
  have key : (l.modify i f).map (fun p => (p.before, p.first))
      = l.map fun p => (p.before, p.first) := by
    apply List.ext_getElem?
    intro j
    rw [List.getElem?_map, List.getElem?_map, List.getElem?_modify]
    by_cases hij : i = j <;> cases l[j]? <;> simp [hij, hfirst, hbefore]
  have hmem : ∀ m : List Person, Known lower m k ↔
      ∃ x ∈ m.map (fun p => (p.before, p.first)), x.1 = true ∧ lower x.2 = k := by
    intro m
    simp only [Known, List.mem_map]
    constructor
    · rintro ⟨p, hp, hb, hk⟩
      exact ⟨_, ⟨p, hp, rfl⟩, hb, hk⟩
    · rintro ⟨_, ⟨p, hp, rfl⟩, hb, hk⟩
      exact ⟨p, hp, hb, hk⟩
  rw [hmem, hmem, key]

theorem known_append {l : List Person} {p : Person} (k : String) :
    Known lower (l ++ [p]) k ↔ Known lower l k ∨ (p.before = true ∧ lower p.first = k) := by
  simp [Known, or_and_right, exists_or]

theorem Agree.distinct_modify {before present : Finset String} {c : Cast}
    (h : Agree lower before present c) {i : Nat} {p : Person} {f : Person → Person}
    (hfirst : ∀ p, (f p).first = p.first) (hbefore : ∀ p, (f p).before = p.before)
    (hp : c.people[i]? = some p) (j j' : Nat) (q q' : Person)
    (hq : (c.people.modify i f)[j]? = some q) (hq' : (c.people.modify i f)[j']? = some q')
    (hb : q.before = true) (hb' : q'.before = true) (he : lower q.first = lower q'.first) :
    j = j' := by
  have hback : ∀ (j : Nat) (q : Person), (c.people.modify i f)[j]? = some q →
      ∃ q₀ : Person, c.people[j]? = some q₀ ∧ q₀.before = q.before ∧ q₀.first = q.first := by
    intro j q hq
    by_cases hij : i = j
    · subst hij
      rw [getElem?_modify_self f hp] at hq
      cases hq
      exact ⟨p, hp, (hbefore p).symm, (hfirst p).symm⟩
    · rw [getElem?_modify_ne f hij] at hq
      exact ⟨q, hq, rfl, rfl⟩
  obtain ⟨q₀, hq₀, hb₀, hf₀⟩ := hback j q hq
  obtain ⟨q₁, hq₁, hb₁, hf₁⟩ := hback j' q' hq'
  exact h.distinct j j' q₀ q₁ hq₀ hq₁ (hb₀.trans hb) (hb₁.trans hb') (by rw [hf₀, hf₁, he])

/-- An act of the holder of a nick keeps presence and people in step. -/
theorem Agree.act {before present present' : Finset String} {c : Cast}
    (h : Agree lower before present c) {nick : String} {here : Bool} {f : Person → Person}
    (hf : Keeps f) (hhere : lower nick ∈ present ↔ here = true)
    (hnow : ∀ p : Person, p.now = here → (lower nick ∈ present' ↔ (f p).now = true))
    (hset : ∀ p : Person, p.now = here → (p.moved = true ∨ p.before = p.now) →
      (f p).moved = true ∨ ((f p).before = true ∧ (f p).now = true))
    (hother : ∀ k, k ≠ lower nick → (k ∈ present' ↔ k ∈ present))
    {i : Nat} (hi : c.holder (lower nick) = some i) :
    Agree lower before present' { c with people := c.people.modify i f } := by
  obtain ⟨p, hp, hlast, hpres⟩ := h.held _ _ hi
  have hpn : p.now = here := by
    rw [Bool.eq_iff_iff, ← hpres, hhere]
  have hpm := List.mem_of_getElem? hp
  have hat : ∀ a, c.people[i]? = some a → a = p := by
    intro a ha
    rw [hp] at ha
    exact (Option.some.inj ha).symm
  constructor
  · intro k j hj
    by_cases hij : i = j
    · subst hij
      have hk := h.holder_inj hj hi
      subst hk
      refine ⟨f p, getElem?_modify_self f hp, ?_, hnow p hpn⟩
      rw [hf.last, hlast]
    · obtain ⟨q, hq, hqlast, hqpres⟩ := h.held k j hj
      have hk : k ≠ lower nick := by
        intro hk
        subst hk
        exact hij (Option.some.inj (hi.symm.trans hj))
      exact ⟨q, (getElem?_modify_ne f hij).trans hq, hqlast, (hother k hk).trans hqpres⟩
  · intro k hk
    have hne : k ≠ lower nick := by
      intro he
      subst he
      cases hi.symm.trans hk
    rw [hother k hne, known_modify hf.first hf.before]
    exact h.free k hk
  · intro k j hj hb
    rw [known_modify hf.first hf.before]
    exact h.known k j hj hb
  · refine forall_modify h.first_mem fun a ha => ?_
    rw [hat a ha, hf.first, hf.before]
    exact h.first_mem p hpm
  · exact h.distinct_modify hf.first hf.before hp
  · refine forall_modify h.settled fun a ha => ?_
    rw [hat a ha]
    refine hset p hpn ((h.settled p hpm).imp_right ?_)
    rintro ⟨hb, hn⟩
    rw [hb, hn]
  · refine forall_modify h.unnamed fun a ha => ?_
    rw [hat a ha, hf.renamed, hf.first, hf.last]
    exact h.unnamed p hpm

/-- A stranger's first act keeps presence and people in step. -/
theorem Agree.enter {before present present' : Finset String} {c : Cast}
    (h : Agree lower before present c) {nick : String} {here : Bool} {f : Person → Person}
    (hf : Keeps f) (hhere : lower nick ∈ present ↔ here = true)
    (hnow : ∀ p : Person, p.now = here → (lower nick ∈ present' ↔ (f p).now = true))
    (hset : ∀ p : Person, p.now = here → (p.moved = true ∨ p.before = p.now) →
      (f p).moved = true ∨ ((f p).before = true ∧ (f p).now = true))
    (hother : ∀ k, k ≠ lower nick → (k ∈ present' ↔ k ∈ present))
    (hnone : c.holder (lower nick) = none) :
    Agree lower before present'
      { people := c.people ++ [f (.stranger nick here)]
        holder := Function.update c.holder (lower nick) (some c.people.length) } := by
  have hfree := h.free _ hnone
  let p := Person.stranger nick here
  have hpf : (f p).first = nick := hf.first p
  have hpb : (f p).before = here := hf.before p
  have hpl : (f p).last = nick := hf.last p
  -- a stranger who was present is the first person seen under the nick
  have hnew : here = true → lower nick ∈ before ∧ ¬Known lower c.people (lower nick) :=
    fun ht => hfree.mp (hhere.mpr ht)
  constructor
  · intro k j hj
    by_cases hk : k = lower nick
    · subst hk
      simp only [Function.update_self, Option.some.injEq] at hj
      subst hj
      exact ⟨f p, by simp [p], by rw [hpl], hnow p rfl⟩
    · simp only [Function.update_of_ne hk] at hj
      obtain ⟨q, hq, hqlast, hqpres⟩ := h.held k j hj
      refine ⟨q, ?_, hqlast, (hother k hk).trans hqpres⟩
      rw [List.getElem?_append_left (h.lt hj)]
      exact hq
  · intro k hk
    have hne : k ≠ lower nick := by
      intro he
      subst he
      simp at hk
    simp only [Function.update_of_ne hne] at hk
    rw [hother k hne, h.free k hk, known_append, hpf]
    simp [hne.symm]
  · intro k j hj hb
    rw [known_append, hpf, hpb]
    by_cases hk : k = lower nick
    · by_cases ht : here = true
      · exact .inr ⟨ht, hk.symm⟩
      · subst hk
        by_contra hcon
        exact ht (hhere.mp (hfree.mpr ⟨hb, fun hkn => hcon (.inl hkn)⟩))
    · simp only [Function.update_of_ne hk] at hj
      exact .inl (h.known k j hj hb)
  · intro q hq hb
    rcases List.mem_append.mp hq with hq | hq
    · exact h.first_mem q hq hb
    · cases List.mem_singleton.mp hq
      rw [hpb] at hb
      rw [hpf]
      exact (hnew hb).1
  · have hlast : ∀ (j : Nat) (q : Person), (c.people ++ [f p])[j]? = some q →
        c.people[j]? = some q ∨ (j = c.people.length ∧ q = f p) := by
      intro j q hq
      rcases lt_or_ge j c.people.length with hj | hj
      · rw [List.getElem?_append_left hj] at hq
        exact .inl hq
      · rw [List.getElem?_append_right hj, List.getElem?_singleton] at hq
        split_ifs at hq with hz
        exact .inr ⟨by omega, (Option.some.inj hq).symm⟩
    have hfresh : ∀ (j : Nat) (q : Person), c.people[j]? = some q → q.before = true →
        (f p).before = true → lower q.first ≠ lower (f p).first := by
      intro j q hq hb hb' he
      rw [hpb] at hb'
      rw [hpf] at he
      exact (hnew hb').2 ⟨q, List.mem_of_getElem? hq, hb, he⟩
    intro j j' q q' hq hq' hb hb' hfirst
    rcases hlast j q hq with hj | ⟨hj, rfl⟩ <;> rcases hlast j' q' hq' with hj' | ⟨hj', rfl⟩
    · exact h.distinct j j' q q' hj hj' hb hb' hfirst
    · exact absurd hfirst (hfresh j q hj hb hb')
    · exact absurd hfirst.symm (hfresh j' q' hj' hb' hb)
    · omega
  · intro q hq
    rcases List.mem_append.mp hq with hq | hq
    · exact h.settled q hq
    · cases List.mem_singleton.mp hq
      exact hset p rfl (.inr rfl)
  · intro q hq
    rcases List.mem_append.mp hq with hq | hq
    · exact h.unnamed q hq
    · cases List.mem_singleton.mp hq
      intro _
      rw [hpf, hpl]

theorem Agree.meet {before present present' : Finset String} {c : Cast}
    (h : Agree lower before present c) {nick : String} {here : Bool} {f : Person → Person}
    (hf : Keeps f) (hhere : lower nick ∈ present ↔ here = true)
    (hnow : ∀ p : Person, p.now = here → (lower nick ∈ present' ↔ (f p).now = true))
    (hset : ∀ p : Person, p.now = here → (p.moved = true ∨ p.before = p.now) →
      (f p).moved = true ∨ ((f p).before = true ∧ (f p).now = true))
    (hother : ∀ k, k ≠ lower nick → (k ∈ present' ↔ k ∈ present)) :
    Agree lower before present' (c.meet lower nick here f) := by
  unfold Cast.meet
  split
  case h_1 i hi => exact h.act hf hhere hnow hset hother hi
  case h_2 hnone => exact h.enter hf hhere hnow hset hother hnone

/-- A rename of somebody present onto a nick nobody present has keeps them in step. -/
theorem Agree.retitle {before present : Finset String} {c : Cast}
    (h : Agree lower before present c) {nick newNick : String} {i : Nat}
    (hi : c.holder (lower nick) = some i) (hin : lower nick ∈ present)
    (hnew : lower newNick ∈ present → lower newNick = lower nick) :
    Agree lower before (insert (lower newNick) (present.erase (lower nick)))
      (c.retitle lower nick newNick) := by
  obtain ⟨p, hp, hlast, hpres⟩ := h.held _ _ hi
  have hpm := List.mem_of_getElem? hp
  have hat : ∀ a, c.people[i]? = some a → a = p := by
    intro a ha
    rw [hp] at ha
    exact (Option.some.inj ha).symm
  have hcast : c.retitle lower nick newNick =
      { people := c.people.modify i (.rename newNick)
        holder := Function.update (Function.update c.holder (lower nick) none)
          (lower newNick) (some i) } := by
    unfold Cast.retitle
    rw [hi]
  -- whose a nick is after the rename
  have hcases : ∀ k j, Function.update (Function.update c.holder (lower nick) none)
      (lower newNick) (some i) k = some j →
        (k = lower newNick ∧ j = i) ∨
        (k ≠ lower newNick ∧ k ≠ lower nick ∧ c.holder k = some j) := by
    intro k j hj
    by_cases hk : k = lower newNick
    · subst hk
      rw [Function.update_self] at hj
      exact .inl ⟨rfl, (Option.some.inj hj).symm⟩
    · rw [Function.update_of_ne hk] at hj
      by_cases hk' : k = lower nick
      · subst hk'
        rw [Function.update_self] at hj
        cases hj
      · rw [Function.update_of_ne hk'] at hj
        exact .inr ⟨hk, hk', hj⟩
  have hknown : ∀ k, Known lower (c.people.modify i (.rename newNick)) k ↔ Known lower c.people k :=
    known_modify (fun _ => rfl) (fun _ => rfl)
  rw [hcast]
  constructor
  · intro k j hj
    rcases hcases k j hj with ⟨rfl, rfl⟩ | ⟨hk, hk', hj⟩
    · exact ⟨p.rename newNick, getElem?_modify_self _ hp, rfl,
        iff_of_true (Finset.mem_insert_self ..) (hpres.mp hin)⟩
    · obtain ⟨q, hq, hqlast, hqpres⟩ := h.held k j hj
      have hij : i ≠ j := by
        intro he
        subst he
        exact hk' (h.holder_inj hj hi)
      refine ⟨q, (getElem?_modify_ne _ hij).trans hq, hqlast, ?_⟩
      rw [← hqpres]
      simp [hk, hk']
  · intro k hk
    rw [hknown k]
    have hkn : k ≠ lower newNick := by
      intro he
      subst he
      simp at hk
    simp only [Function.update_of_ne hkn] at hk
    by_cases hko : k = lower nick
    · subst hko
      simp only [Finset.mem_insert, hkn, Finset.mem_erase, ne_eq, not_true_eq_false, false_and,
        or_self, false_iff]
      rintro ⟨hb, hno⟩
      exact hno (h.known _ i hi hb)
    · rw [Function.update_of_ne hko] at hk
      rw [← h.free k hk]
      simp [hkn, hko]
  · intro k j hj hb
    rw [hknown k]
    rcases hcases k j hj with ⟨rfl, rfl⟩ | ⟨-, -, hj⟩
    · cases hheld : c.holder (lower newNick) with
      | some m => exact h.known _ m hheld hb
      | none =>
        by_contra hno
        rw [hnew ((h.free _ hheld).mpr ⟨hb, hno⟩), hi] at hheld
        cases hheld
    · exact h.known k j hj hb
  · refine forall_modify h.first_mem fun a ha => ?_
    rw [hat a ha]
    exact h.first_mem p hpm
  · exact h.distinct_modify (fun _ => rfl) (fun _ => rfl) hp
  · refine forall_modify h.settled fun a ha => ?_
    rw [hat a ha]
    exact h.settled p hpm
  · refine forall_modify h.unnamed fun a ha hr => ?_
    cases hr

/-- After anything is done under a nick, somebody holds it. -/
theorem Cast.meet_holder (c : Cast) (nick : String) (here : Bool) (f : Person → Person) :
    ∃ i, (c.meet lower nick here f).holder (lower nick) = some i := by
  unfold Cast.meet
  split
  case h_1 i hi => exact ⟨i, hi⟩
  case h_2 => exact ⟨c.people.length, Function.update_self ..⟩

theorem Agree.stay {before present : Finset String} {c : Cast}
    (h : Agree lower before present c) {nick : String} (hin : lower nick ∈ present) :
    Agree lower before present (c.meet lower nick true id) :=
  h.meet keeps_id (by simp [hin]) (fun p hp => by simp [hin, hp])
    (fun p hp hs => hs.imp_right fun hb => ⟨hb.trans hp, hp⟩) (fun _ _ => Iff.rfl)

/-- Every event a channel can see keeps presence and people in step. -/
theorem Agree.step {before present : Finset String} {c : Cast}
    (h : Agree lower before present c) {e : Event} (he : Possible lower present e) :
    Agree lower before (applyEvent lower present e) (c.step lower e) := by
  have hgo : ∀ nick, lower nick ∈ present →
      Agree lower before (present.erase (lower nick)) (c.meet lower nick true .depart) :=
    fun nick hin => h.meet keeps_depart (by simp [hin]) (fun p _ => by simp [Person.depart])
      (fun p _ _ => .inl rfl) (fun k hk => by simp [hk])
  cases e with
  | join nick =>
    exact h.meet keeps_arrive (iff_of_false he Bool.false_ne_true)
      (fun p _ => by simp [applyEvent, Person.arrive])
      (fun p _ _ => .inl rfl) (fun k hk => by simp [applyEvent, hk])
  | part nick => exact hgo nick he
  | quit nick => exact hgo nick he
  | nick nick newNick =>
    obtain ⟨i, hi⟩ := c.meet_holder nick true id
    exact (h.stay he.1).retitle hi he.1 he.2
  | chghost nick => exact h.stay he

end Lurker.Timeline
