import Mathlib.Data.List.Nodup
import Lurker.Timeline.Cast

/-!
# The files of the walk

The walk files each person of a run under the nick they hold, with the number of
their first appearance, until another person takes that nick: then one file of
the two is gone for good.
-/
namespace Lurker.Timeline

variable {lower : String → String}

/-- The kind under which a person belongs in a summary. -/
def Person.kind (p : Person) : IdentityKind :=
  match p.moved, p.before, p.now with
  | true, false, true => .joined
  | true, true, false => .left
  | true, false, false => .joinedAndLeft
  | true, true, true => .reconnected
  | false, _, _ => if p.renamed then .renamed else .rehosted

def Person.entry (p : Person) : IdentityKind × Entry :=
  (p.kind, if p.kind = .renamed then .rename p.first p.last else .nick p.last)

/-- The actions filed for a person say what the person did. -/
structure Tells (actions : List EventAction) (p : Person) : Prop where
  first : (presenceActions actions).head? =
    bif p.moved then some (bif p.before then .L else .J) else none
  last : (presenceActions actions).getLast? =
    bif p.moved then some (bif p.now then .J else .L) else none
  renamed : .R ∈ actions ↔ p.renamed = true

theorem Tells.classify {actions : List EventAction} {p : Person} (h : Tells actions p) :
    classify actions = p.kind := by
  have hr : actions.contains .R = p.renamed := by
    rw [Bool.eq_iff_iff, List.contains_iff_mem]
    exact h.renamed
  unfold Timeline.classify Person.kind
  rw [h.first, h.last, hr]
  cases p.moved <;> cases p.before <;> cases p.now <;> rfl

theorem tells_stranger (nick : String) (here : Bool) : Tells [] (.stranger nick here) :=
  ⟨rfl, rfl, by simp [Person.stranger]⟩

theorem presenceActions_append (actions : List EventAction) (a : EventAction) :
    presenceActions (actions ++ [a])
      = presenceActions actions ++ if a == .J || a == .L then [a] else [] := by
  unfold presenceActions
  rw [List.filter_append]
  cases a <;> rfl

theorem Tells.arrive {actions : List EventAction} {p : Person} (h : Tells actions p)
    (hp : p.moved = false → p.before = false) : Tells (actions ++ [.J]) p.arrive := by
  constructor
  · rw [presenceActions_append, List.head?_append, h.first]
    cases hm : p.moved <;> simp [Person.arrive, hp, hm]
  · simp [presenceActions_append, Person.arrive]
  · simp [h.renamed, Person.arrive]

theorem Tells.depart {actions : List EventAction} {p : Person} (h : Tells actions p)
    (hp : p.moved = false → p.before = true) : Tells (actions ++ [.L]) p.depart := by
  constructor
  · rw [presenceActions_append, List.head?_append, h.first]
    cases hm : p.moved <;> simp [Person.depart, hp, hm]
  · simp [presenceActions_append, Person.depart]
  · simp [h.renamed, Person.depart]

theorem Tells.rename {actions : List EventAction} {p : Person} (h : Tells actions p)
    (newNick : String) : Tells (actions ++ [.R]) (p.rename newNick) := by
  constructor
  · rw [presenceActions_append, List.head?_append, h.first]
    cases hm : p.moved <;> simp [Person.rename, hm]
  · simp [presenceActions_append, h.last, Person.rename]
  · simp [Person.rename]

theorem Tells.rehost {actions : List EventAction} {p : Person} (h : Tells actions p) :
    Tells (actions ++ [.H]) p := by
  constructor
  · simp [presenceActions_append, h.first]
  · simp [presenceActions_append, h.last]
  · simp [h.renamed]

/-- An identity is the file of the person of that number. -/
structure FileOf (st : IdentityState) (i : Nat) (p : Person) : Prop where
  seen : st.seenIndex = i
  original : st.originalNick = p.first
  display : st.displayNick = p.last
  tells : Tells st.actions p

/-- The walk's map holds the file of the holder of every nick. -/
structure Filed (w : Walk) (c : Cast) : Prop where
  counter : w.seenCounter = c.people.length
  free : ∀ k, c.holder k = none → w.ids.get? k = none
  filed : ∀ k i p, c.holder k = some i → c.people[i]? = some p →
    ∃ st, w.ids.get? k = some st ∧ FileOf st i p

theorem filed_start : Filed .start .start where
  counter := rfl
  free _ _ := rfl
  filed _ _ _ h := by cases h

/-- The walk's branches for everything but a rename, for any number of actions. -/
def Walk.push (lower : String → String) (w : Walk) (nick : String) (actions : List EventAction) :
    Walk :=
  match w.ids.get? (lower nick) with
  | some state =>
    { w with ids := w.ids.set (lower nick) { state with actions := state.actions ++ actions } }
  | none =>
    { ids := w.ids.set (lower nick) ⟨nick, nick, actions, w.seenCounter⟩
      seenCounter := w.seenCounter + 1 }

/-- The rename of an identity that is on file. -/
def Walk.rekey (lower : String → String) (w : Walk) (nick newNick : String) : Walk :=
  match w.ids.get? (lower nick) with
  | some existing =>
    { w with
      ids := (w.ids.delete (lower nick)).set (lower newNick)
        { existing with actions := existing.actions ++ [.R], displayNick := newNick } }
  | none => w

/-- A rename files its identity first, if need be, and then moves the file. -/
theorem step_nick (w : Walk) (nick newNick : String) :
    (w.step lower (.nick nick newNick)).seenCounter
        = ((w.push lower nick []).rekey lower nick newNick).seenCounter ∧
      ∀ k, (w.step lower (.nick nick newNick)).ids.get? k
        = ((w.push lower nick []).rekey lower nick newNick).ids.get? k := by
  cases h : w.ids.get? (lower nick) with
  | some st =>
    refine ⟨by simp [Walk.step, Walk.push, Walk.rekey, h, OrderedMap.get?_set], fun k => ?_⟩
    simp only [Walk.step, Walk.push, Walk.rekey, h, OrderedMap.get?_set, OrderedMap.get?_delete,
      if_true, List.append_nil]
    by_cases hk : k = lower nick <;> simp [hk]
  | none =>
    refine ⟨by simp [Walk.step, Walk.push, Walk.rekey, h, OrderedMap.get?_set], fun k => ?_⟩
    simp only [Walk.step, Walk.push, Walk.rekey, h, OrderedMap.get?_set, OrderedMap.get?_delete,
      if_true, List.nil_append]
    by_cases hk : k = lower nick <;> simp [hk, h]

theorem Filed.congr {w w' : Walk} {c : Cast} (h : Filed w c)
    (hc : w'.seenCounter = w.seenCounter) (hg : ∀ k, w'.ids.get? k = w.ids.get? k) :
    Filed w' c where
  counter := hc.trans h.counter
  free k hk := (hg k).trans (h.free k hk)
  filed k i p hi hp := by
    rw [hg k]
    exact h.filed k i p hi hp

/-- Filing an act keeps every nick's file that of its holder. -/
theorem Filed.push {before present : Finset String} {w : Walk} {c : Cast} (h : Filed w c)
    (ha : Agree lower before present c) {nick : String} {here : Bool} {f : Person → Person}
    {actions : List EventAction} (hf : Keeps f) (hhere : lower nick ∈ present ↔ here = true)
    (htell : ∀ (old : List EventAction) (p : Person), Tells old p → p.now = here →
      (p.moved = false → p.before = here) → Tells (old ++ actions) (f p)) :
    Filed (w.push lower nick actions) (c.meet lower nick here f) := by
  cases hk : c.holder (lower nick) with
  | some i =>
    obtain ⟨p, hp, hlast, hpres⟩ := ha.held _ _ hk
    obtain ⟨st, hst, hfile⟩ := h.filed _ i p hk hp
    have hnow : p.now = here := by rw [Bool.eq_iff_iff, ← hpres, hhere]
    have hbefore : p.moved = false → p.before = here := by
      intro hm
      rcases ha.settled p (List.mem_of_getElem? hp) with hm' | ⟨hb, hn⟩
      · rw [hm] at hm'
        cases hm'
      · rw [hb, ← hnow, hn]
    simp only [Walk.push, Cast.meet, hst, hk]
    constructor
    · simpa using h.counter
    · intro k hfree
      have hne : k ≠ lower nick := by
        intro he
        subst he
        cases hfree.symm.trans hk
      rw [OrderedMap.get?_set, if_neg hne]
      exact h.free k hfree
    · intro k j q hj hq
      rw [OrderedMap.get?_set]
      by_cases hkn : k = lower nick
      · subst hkn
        cases hj.symm.trans hk
        rw [getElem?_modify_self f hp] at hq
        cases hq
        rw [if_pos rfl]
        exact ⟨_, rfl, hfile.seen, hfile.original.trans (hf.first p).symm,
          hfile.display.trans (hf.last p).symm, htell _ p hfile.tells hnow hbefore⟩
      · rw [if_neg hkn]
        have hij : i ≠ j := by
          intro he
          subst he
          exact hkn (ha.holder_inj hj hk)
        rw [getElem?_modify_ne f hij] at hq
        exact h.filed k j q hj hq
  | none =>
    simp only [Walk.push, Cast.meet, h.free _ hk, hk]
    constructor
    · simpa using h.counter
    · intro k hfree
      have hne : k ≠ lower nick := by
        intro he
        subst he
        simp at hfree
      simp only [Function.update_of_ne hne] at hfree
      rw [OrderedMap.get?_set, if_neg hne]
      exact h.free k hfree
    · intro k j q hj hq
      rw [OrderedMap.get?_set]
      by_cases hkn : k = lower nick
      · subst hkn
        simp only [Function.update_self, Option.some.injEq] at hj
        subst hj
        simp only [List.getElem?_concat_length, Option.some.injEq] at hq
        subst hq
        rw [if_pos rfl]
        have hfirst : nick = (f (.stranger nick here)).first :=
          (hf.first (.stranger nick here)).symm
        have hlast : nick = (f (.stranger nick here)).last :=
          (hf.last (.stranger nick here)).symm
        exact ⟨_, rfl, h.counter, hfirst, hlast,
          htell [] _ (tells_stranger nick here) rfl fun _ => rfl⟩
      · simp only [Function.update_of_ne hkn] at hj
        rw [List.getElem?_append_left (ha.lt hj)] at hq
        rw [if_neg hkn]
        exact h.filed k j q hj hq

/-- Moving a file to the new nick keeps every nick's file that of its holder. -/
theorem Filed.rekey {before present : Finset String} {w : Walk} {c : Cast} (h : Filed w c)
    (ha : Agree lower before present c) {nick newNick : String} {i : Nat}
    (hi : c.holder (lower nick) = some i) :
    Filed (w.rekey lower nick newNick) (c.retitle lower nick newNick) := by
  obtain ⟨p, hp, -, -⟩ := ha.held _ _ hi
  obtain ⟨st, hst, hfile⟩ := h.filed _ i p hi hp
  simp only [Walk.rekey, Cast.retitle, hst, hi]
  constructor
  · simpa using h.counter
  · intro k hfree
    have hne : k ≠ lower newNick := by
      intro he
      subst he
      simp at hfree
    simp only [Function.update_of_ne hne] at hfree
    rw [OrderedMap.get?_set, if_neg hne, OrderedMap.get?_delete]
    split_ifs with hk
    · rfl
    · rw [Function.update_of_ne hk] at hfree
      exact h.free k hfree
  · intro k j q hj hq
    rw [OrderedMap.get?_set, OrderedMap.get?_delete]
    by_cases hkn : k = lower newNick
    · subst hkn
      simp only [Function.update_self, Option.some.injEq] at hj
      subst hj
      rw [getElem?_modify_self _ hp] at hq
      cases hq
      rw [if_pos rfl]
      exact ⟨_, rfl, hfile.seen, hfile.original, rfl, hfile.tells.rename newNick⟩
    · simp only [Function.update_of_ne hkn] at hj
      by_cases hko : k = lower nick
      · subst hko
        simp at hj
      · rw [Function.update_of_ne hko] at hj
        rw [if_neg hkn, if_neg hko]
        have hij : i ≠ j := by
          intro he
          subst he
          exact hko (ha.holder_inj hj hi)
        rw [getElem?_modify_ne _ hij] at hq
        exact h.filed k j q hj hq

/-- Every event keeps every nick's file that of its holder. -/
theorem Filed.step {before present : Finset String} {w : Walk} {c : Cast} (h : Filed w c)
    (ha : Agree lower before present c) {e : Event} (he : Possible lower present e) :
    Filed (w.step lower e) (c.step lower e) := by
  have hgo : ∀ nick, lower nick ∈ present →
      Filed (w.act lower nick .L) (c.meet lower nick true .depart) := fun nick hin =>
    h.push ha keeps_depart (by simp [hin]) fun _ _ ht _ hb => ht.depart hb
  cases e with
  | join nick =>
    exact h.push ha keeps_arrive (iff_of_false he Bool.false_ne_true)
      fun _ _ ht _ hb => ht.arrive hb
  | part nick => exact hgo nick he
  | quit nick => exact hgo nick he
  | nick nick newNick =>
    obtain ⟨hcount, hget⟩ := step_nick w nick newNick
    obtain ⟨i, hi⟩ := c.meet_holder nick true id
    have hin : Filed (w.push lower nick []) (c.meet lower nick true id) :=
      h.push ha keeps_id (by simp [he.1]) fun _ _ ht _ _ => by simpa using ht
    exact (hin.rekey (ha.stay he.1) hi).congr hcount hget
  | chghost nick =>
    exact h.push ha keeps_id (iff_of_true he rfl) fun _ _ ht _ _ => ht.rehost

/-- Nobody of the run has lost the nick they go by. -/
def AllHeld (c : Cast) : Prop := ∀ i < c.people.length, ∃ k, c.holder k = some i

/-- Somebody of the run goes by a nick that has become another person's. -/
def Displaced (c : Cast) : Prop := ∃ i < c.people.length, ∀ k, c.holder k ≠ some i

theorem range_filterMap {α β : Type*} (f : α → β) (l : List α) :
    (List.range l.length).filterMap (fun i => l[i]?.map f) = l.map f := by
  induction l with
  | nil => rfl
  | cons a l ih =>
    rw [List.length_cons, List.range_succ_eq_map]
    simpa [List.filterMap_map, Function.comp_def] using ih

section Files
variable {before present : Finset String} {w : Walk} {c : Cast}

/-- Every identity on file is some person's, who holds the nick it is filed under. -/
theorem Filed.of_get? (h : Filed w c) (ha : Agree lower before present c) {k : String}
    {st : IdentityState} (hst : w.ids.get? k = some st) :
    ∃ p, c.holder k = some st.seenIndex ∧ c.people[st.seenIndex]? = some p ∧
      FileOf st st.seenIndex p := by
  cases hk : c.holder k with
  | none =>
    rw [h.free k hk] at hst
    cases hst
  | some i =>
    obtain ⟨p, hp, -⟩ := ha.held k i hk
    obtain ⟨st', hst', hfile⟩ := h.filed k i p hk hp
    rw [hst] at hst'
    cases hst'
    have hseen := hfile.seen
    subst hseen
    exact ⟨p, rfl, hp, hfile⟩

theorem Filed.nodup_seen (h : Filed w c) (ha : Agree lower before present c) :
    (w.ids.values.map (·.seenIndex)).Nodup := by
  unfold OrderedMap.values
  rw [List.map_map]
  refine List.Nodup.map_on ?_ (List.Nodup.of_map _ w.ids.nodup)
  intro x hx y hy hxy
  obtain ⟨-, hkx, -⟩ := h.of_get? ha (OrderedMap.get?_eq_some.mpr hx)
  obtain ⟨-, hky, -⟩ := h.of_get? ha (OrderedMap.get?_eq_some.mpr hy)
  have hkeys : x.1 = y.1 := by
    refine ha.holder_inj hkx ?_
    rw [hky]
    exact congrArg some hxy.symm
  exact List.inj_on_of_nodup_map w.ids.nodup hx hy hkeys

theorem Filed.seen_held (h : Filed w c) (ha : Agree lower before present c) {i : Nat} :
    i ∈ w.ids.values.map (·.seenIndex) ↔ ∃ k, c.holder k = some i := by
  constructor
  · intro hi
    obtain ⟨st, hst, rfl⟩ := List.mem_map.mp hi
    obtain ⟨k, hk⟩ := OrderedMap.mem_values.mp hst
    obtain ⟨p, hheld, -⟩ := h.of_get? ha hk
    exact ⟨k, hheld⟩
  · rintro ⟨k, hk⟩
    obtain ⟨p, hp, -⟩ := ha.held k i hk
    obtain ⟨st, hst, hfile⟩ := h.filed k i p hk hp
    exact List.mem_map.mpr ⟨st, OrderedMap.mem_values.mpr ⟨k, hst⟩, hfile.seen⟩

/-- While nobody is displaced the identities on file are the people of the run. -/
theorem Filed.entries_perm (h : Filed w c) (ha : Agree lower before present c)
    (hall : AllHeld c) :
    (w.ids.values.map fun st => (classify st.actions, st.entry)).Perm
      (c.people.map Person.entry) := by
  have hidx : (w.ids.values.map (·.seenIndex)).Perm (List.range c.people.length) := by
    rw [List.perm_ext_iff_of_nodup (h.nodup_seen ha) List.nodup_range]
    intro i
    rw [h.seen_held ha, List.mem_range]
    exact ⟨fun ⟨k, hk⟩ => ha.lt hk, hall i⟩
  have hleft : (w.ids.values.map (·.seenIndex)).filterMap
        (fun i => c.people[i]?.map Person.entry)
      = w.ids.values.map fun st => (classify st.actions, st.entry) := by
    rw [List.filterMap_map, ← List.filterMap_eq_map]
    refine List.filterMap_congr fun st hst => ?_
    obtain ⟨k, hk⟩ := OrderedMap.mem_values.mp hst
    obtain ⟨p, -, hp, hfile⟩ := h.of_get? ha hk
    have hkind := hfile.tells.classify
    simp only [Function.comp_apply, hp, Option.map_some, Option.some.injEq, Person.entry,
      IdentityState.entry, hkind, hfile.original, hfile.display]
    cases p.kind <;> rfl
  rw [← hleft, ← range_filterMap Person.entry c.people]
  exact hidx.filterMap _

theorem Filed.fewer (h : Filed w c) (ha : Agree lower before present c) (hd : Displaced c) :
    w.ids.values.length < c.people.length := by
  obtain ⟨i, hi, hlost⟩ := hd
  have hsub : w.ids.values.map (·.seenIndex) ⊆ (List.range c.people.length).erase i := by
    intro j hj
    obtain ⟨k, hk⟩ := (h.seen_held ha).mp hj
    have hne : j ≠ i := by
      intro he
      subst he
      exact hlost k hk
    exact (List.mem_erase_of_ne hne).mpr (List.mem_range.mpr (ha.lt hk))
  have hle := ((h.nodup_seen ha).subperm hsub).length_le
  rw [List.length_map, List.length_erase_of_mem (List.mem_range.mpr hi), List.length_range] at hle
  omega

end Files

section Displacement
variable {before present : Finset String} {c : Cast}

theorem Cast.meet_holder_ne (c : Cast) (nick : String) (here : Bool) (f : Person → Person)
    {k : String} (hk : k ≠ lower nick) : (c.meet lower nick here f).holder k = c.holder k := by
  unfold Cast.meet
  split
  · rfl
  · exact Function.update_of_ne hk ..

theorem Cast.length_le_meet (c : Cast) (nick : String) (here : Bool) (f : Person → Person) :
    c.people.length ≤ (c.meet lower nick here f).people.length := by
  unfold Cast.meet
  split <;> simp

/-- A number that somebody gets by an act under a nick is theirs already, or the next one. -/
theorem Cast.holder_of_meet {c : Cast} {nick : String} {here : Bool} {f : Person → Person}
    {k : String} {i : Nat} (h : (c.meet lower nick here f).holder k = some i) :
    c.holder k = some i ∨ i = c.people.length := by
  unfold Cast.meet at h
  split at h
  · exact .inl h
  · by_cases hk : k = lower nick
    · subst hk
      simp only [Function.update_self, Option.some.injEq] at h
      exact .inr h.symm
    · simp only [Function.update_of_ne hk] at h
      exact .inl h

theorem Cast.retitle_holder {c : Cast} {nick newNick : String} {i : Nat}
    (hi : c.holder (lower nick) = some i) (k : String) :
    (c.retitle lower nick newNick).holder k =
      if k = lower newNick then some i else if k = lower nick then none else c.holder k := by
  simp only [Cast.retitle, hi, Function.update_apply]

theorem Cast.retitle_length (c : Cast) (nick newNick : String) :
    (c.retitle lower nick newNick).people.length = c.people.length := by
  unfold Cast.retitle
  split <;> simp

theorem AllHeld.meet (h : AllHeld c) (nick : String) (here : Bool) (f : Person → Person) :
    AllHeld (c.meet lower nick here f) := by
  intro i hi
  cases hk : c.holder (lower nick) with
  | some j =>
    simp only [Cast.meet, hk, List.length_modify] at hi ⊢
    exact h i hi
  | none =>
    simp only [Cast.meet, hk, List.length_append, List.length_singleton] at hi ⊢
    by_cases hlast : i = c.people.length
    · exact ⟨lower nick, by simp [hlast]⟩
    · obtain ⟨k, hheld⟩ := h i (by omega)
      have hne : k ≠ lower nick := by
        intro he
        subst he
        cases hk.symm.trans hheld
      exact ⟨k, by rw [Function.update_of_ne hne, hheld]⟩

theorem Displaced.meet (h : Displaced c) (nick : String) (here : Bool) (f : Person → Person) :
    Displaced (c.meet lower nick here f) := by
  obtain ⟨i, hi, hlost⟩ := h
  refine ⟨i, hi.trans_le (c.length_le_meet nick here f), fun k hk => ?_⟩
  rcases Cast.holder_of_meet hk with hk | hk
  · exact hlost k hk
  · omega

/-- The takeover of a nick is the only thing that displaces somebody. -/
theorem AllHeld.step (h : AllHeld c) {e : Event}
    (ht : ∀ nick newNick, e = .nick nick newNick → lower newNick ≠ lower nick →
      c.holder (lower newNick) = none) : AllHeld (c.step lower e) := by
  cases e with
  | join nick => exact h.meet nick false .arrive
  | part nick => exact h.meet nick true .depart
  | quit nick => exact h.meet nick true .depart
  | chghost nick => exact h.meet nick true id
  | nick nick newNick =>
    obtain ⟨m, hm⟩ := c.meet_holder nick true id
    intro i hi
    show ∃ k, ((c.meet lower nick true id).retitle lower nick newNick).holder k = some i
    rw [Cast.step, Cast.retitle_length] at hi
    obtain ⟨k, hk⟩ := h.meet nick true id i hi
    by_cases hkn : k = lower nick
    · subst hkn
      refine ⟨lower newNick, ?_⟩
      rw [Cast.retitle_holder hm, if_pos rfl, ← hm, hk]
    · refine ⟨k, ?_⟩
      have hnew : k ≠ lower newNick := by
        intro he
        subst he
        rw [c.meet_holder_ne nick true id hkn, ht nick newNick rfl hkn] at hk
        cases hk
      rw [Cast.retitle_holder hm, if_neg hnew, if_neg hkn, hk]

/-- Nobody who has been displaced comes back. -/
theorem Displaced.step (h : Displaced c) (e : Event) : Displaced (c.step lower e) := by
  cases e with
  | join nick => exact h.meet nick false .arrive
  | part nick => exact h.meet nick true .depart
  | quit nick => exact h.meet nick true .depart
  | chghost nick => exact h.meet nick true id
  | nick nick newNick =>
    obtain ⟨m, hm⟩ := c.meet_holder nick true id
    obtain ⟨i, hi, hlost⟩ := h.meet nick true id
    refine ⟨i, ?_, fun k hk => ?_⟩
    · rw [Cast.step, Cast.retitle_length]
      exact hi
    · rw [Cast.step, Cast.retitle_holder hm] at hk
      split_ifs at hk
      · exact hlost _ (hm.trans hk)
      · exact hlost k hk

/-- Whoever was last known by a nick is displaced when somebody else takes it. -/
theorem Agree.displaced_of_takeover (ha : Agree lower before present c) {nick newNick : String}
    (hin : lower nick ∈ present) (hne : lower newNick ≠ lower nick)
    (hheld : c.holder (lower newNick) ≠ none) : Displaced (c.step lower (.nick nick newNick)) := by
  obtain ⟨m, hm⟩ := c.meet_holder nick true id
  obtain ⟨j, hj⟩ := Option.ne_none_iff_exists'.mp hheld
  rw [← c.meet_holder_ne nick true id hne] at hj
  have hstay := ha.stay hin
  refine ⟨j, ?_, fun k hk => ?_⟩
  · rw [Cast.step, Cast.retitle_length]
    exact hstay.lt hj
  · rw [Cast.step, Cast.retitle_holder hm] at hk
    split_ifs at hk with hkn hko
    · exact hne (hstay.holder_inj hj (hm.trans hk))
    · exact hkn (hstay.holder_inj hk hj)

end Displacement

/-- A consistent run keeps presence, people and files in step. -/
theorem agree_run {before : Finset String} : ∀ (es : List Event) (present : Finset String)
    (w : Walk) (c : Cast), Agree lower before present c → Filed w c →
    Consistent lower present es →
      Agree lower before (es.foldl (applyEvent lower) present) (es.foldl (Cast.step lower) c) ∧
        Filed (es.foldl (Walk.step lower) w) (es.foldl (Cast.step lower) c)
  | [], _, _, _, ha, hf, _ => ⟨ha, hf⟩
  | e :: es, _, w, c, ha, hf, ⟨he, hes⟩ =>
    agree_run es _ (w.step lower e) (c.step lower e) (ha.step he) (hf.step ha he) hes

theorem displaced_run : ∀ (es : List Event) (c : Cast), Displaced c →
    Displaced (es.foldl (Cast.step lower) c)
  | [], _, h => h
  | e :: es, c, h => displaced_run es (c.step lower e) (h.step e)

/-- In a run without a takeover nobody is displaced, and in any other somebody is. -/
theorem allHeld_or_displaced {before : Finset String} : ∀ {es : List Event}
    {present : Finset String} {c : Cast}, Agree lower before present c → AllHeld c →
    Consistent lower present es →
      (NoTakeover lower c es ∧ AllHeld (es.foldl (Cast.step lower) c)) ∨
        (¬NoTakeover lower c es ∧ Displaced (es.foldl (Cast.step lower) c))
  | [], _, _, _, h, _ => .inl ⟨trivial, h⟩
  | e :: es, present, c, ha, h, ⟨he, hes⟩ => by
    by_cases ht : ∀ nick newNick, e = .nick nick newNick → lower newNick ≠ lower nick →
        c.holder (lower newNick) = none
    · rcases allHeld_or_displaced (ha.step he) (h.step ht) hes with ⟨hno, hheld⟩ | ⟨hno, hd⟩
      · refine .inl ⟨⟨?_, hno⟩, hheld⟩
        cases e with
        | nick nick newNick => exact ht nick newNick rfl
        | join | part | quit | chghost => trivial
      · exact .inr ⟨fun hn => hno hn.2, hd⟩
    · push Not at ht
      obtain ⟨nick, newNick, rfl, hne, hheld⟩ := ht
      exact .inr ⟨fun hn => hheld (hn.1 hne),
        displaced_run es _ (ha.displaced_of_takeover he.1 hne hheld)⟩

end Lurker.Timeline
