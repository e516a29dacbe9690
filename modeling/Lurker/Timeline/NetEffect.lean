import Mathlib.Data.Finset.Card
import Lurker.Timeline.Files

/-!
# The net effect of a run

A summary is read as a relation between presence before and after the run, and
compared nick by nick with what the events do. It is right, and lists every
person once, exactly when no nick is taken from somebody the run has seen under
it and whoever left is still listed by a nick of before the run.
-/
namespace Lurker.Timeline

variable {lower : String → String}

/-- The nick an entry says was present before the run. -/
def beforeNick : IdentityKind × Entry → Option String
  | (.left, .nick n) => some n
  | (.reconnected, .nick n) => some n
  | (.rehosted, .nick n) => some n
  | (.renamed, .rename oldNick _) => some oldNick
  | _ => none

/-- The nick an entry says is present after the run. -/
def afterNick : IdentityKind × Entry → Option String
  | (.joined, .nick n) => some n
  | (.reconnected, .nick n) => some n
  | (.rehosted, .nick n) => some n
  | (.renamed, .rename _ newNick) => some newNick
  | _ => none

def Entry.nicks : Entry → List String
  | .nick n => [n]
  | .rename oldNick newNick => [oldNick, newNick]

def Mentioned (lower : String → String) (entries : List (IdentityKind × Entry)) (k : String) :
    Prop :=
  ∃ x ∈ entries, ∃ n ∈ x.2.nicks, lower n = k

def SaysBefore (lower : String → String) (entries : List (IdentityKind × Entry)) (k : String) :
    Prop :=
  ∃ x ∈ entries, ∃ n ∈ beforeNick x, lower n = k

def SaysAfter (lower : String → String) (entries : List (IdentityKind × Entry)) (k : String) :
    Prop :=
  ∃ x ∈ entries, ∃ n ∈ afterNick x, lower n = k

/-- The summary read as a relation between presence before and after, nick by nick: it is right
about every nick it mentions, and a nick it does not mention is where it was. -/
def StatesNetEffect (lower : String → String) (entries : List (IdentityKind × Entry))
    (before after : Finset String) : Prop :=
  ∀ k, (Mentioned lower entries k →
      (k ∈ before ↔ SaysBefore lower entries k) ∧ (k ∈ after ↔ SaysAfter lower entries k)) ∧
    (¬Mentioned lower entries k → (k ∈ before ↔ k ∈ after))

/-- Every person appears, by the nick they go by, in one entry, and nobody else does. -/
def EachOnce (lower : String → String) (entries : List (IdentityKind × Entry))
    (people : List Person) : Prop :=
  (entries.map fun x => lower x.2.shown).Perm (people.map fun p => lower p.last)

/-- The persons who were present before the run and left in it had, all together, the same nicks
before it as they go by now. -/
def LeftUnderFirst (lower : String → String) (people : List Person) : Prop :=
  ∀ k, (∃ p ∈ people, p.before = true ∧ p.moved = true ∧ lower p.first = k) ↔
    ∃ p ∈ people, p.before = true ∧ p.moved = true ∧ lower p.last = k

section Persons
variable {p : Person} (hs : p.moved = true ∨ (p.before = true ∧ p.now = true))
  (hu : p.renamed = false → p.last = p.first)
include hs

include hu in
theorem Person.beforeNick_entry : beforeNick p.entry =
    if p.before then some (if p.moved then p.last else p.first) else none := by
  obtain ⟨first, last, before, now, moved, renamed⟩ := p
  simp only at hs hu
  cases moved <;> cases before <;> cases now <;> cases renamed <;>
    simp [entry, kind, beforeNick] at hs hu ⊢
  exact hu

theorem Person.afterNick_entry : afterNick p.entry = if p.now then some p.last else none := by
  obtain ⟨first, last, before, now, moved, renamed⟩ := p
  simp only at hs
  cases moved <;> cases before <;> cases now <;> cases renamed <;>
    simp [entry, kind, afterNick] at hs ⊢

include hu in
theorem Person.mem_nicks_entry {n : String} :
    n ∈ p.entry.2.nicks ↔ n = p.last ∨ (p.before = true ∧ p.moved = false ∧ n = p.first) := by
  obtain ⟨first, last, before, now, moved, renamed⟩ := p
  simp only at hs hu
  cases moved <;> cases before <;> cases now <;> cases renamed <;>
    simp [entry, kind, Entry.nicks, or_comm] at hs hu ⊢
  rintro rfl
  exact hu.symm

end Persons

theorem Person.shown_entry (p : Person) : p.entry.2.shown = p.last := by
  unfold entry
  split_ifs <;> rfl

section Reading
variable {before present : Finset String} {c : Cast} {entries : List (IdentityKind × Entry)}
  (ha : Agree lower before present c) (hperm : entries.Perm (c.people.map Person.entry))
include ha hperm

theorem mentioned_iff (k : String) : Mentioned lower entries k ↔
    ∃ p ∈ c.people, lower p.last = k ∨
      (p.before = true ∧ p.moved = false ∧ lower p.first = k) := by
  unfold Mentioned
  simp only [hperm.mem_iff, List.mem_map, exists_exists_and_eq_and]
  refine exists_congr fun p => and_congr_right fun hp => ?_
  simp only [Person.mem_nicks_entry (ha.settled p hp) (ha.unnamed p hp)]
  constructor
  · rintro ⟨n, rfl | ⟨hb, hm, rfl⟩, rfl⟩
    · exact .inl rfl
    · exact .inr ⟨hb, hm, rfl⟩
  · rintro (rfl | ⟨hb, hm, rfl⟩)
    · exact ⟨_, .inl rfl, rfl⟩
    · exact ⟨_, .inr ⟨hb, hm, rfl⟩, rfl⟩

theorem saysBefore_iff (k : String) : SaysBefore lower entries k ↔
    ∃ p ∈ c.people, p.before = true ∧
      lower (if p.moved then p.last else p.first) = k := by
  unfold SaysBefore
  simp only [hperm.mem_iff, List.mem_map, exists_exists_and_eq_and]
  refine exists_congr fun p => and_congr_right fun hp => ?_
  rw [Person.beforeNick_entry (ha.settled p hp) (ha.unnamed p hp)]
  cases p.before <;> simp

theorem saysAfter_iff (k : String) : SaysAfter lower entries k ↔
    ∃ p ∈ c.people, p.now = true ∧ lower p.last = k := by
  unfold SaysAfter
  simp only [hperm.mem_iff, List.mem_map, exists_exists_and_eq_and]
  refine exists_congr fun p => and_congr_right fun hp => ?_
  rw [Person.afterNick_entry (ha.settled p hp)]
  cases p.now <;> simp

omit ha in
theorem eachOnce_of_perm : EachOnce lower entries c.people := by
  have h := hperm.map fun x => lower x.2.shown
  rw [List.map_map] at h
  simpa only [EachOnce, Function.comp_def, Person.shown_entry] using h

omit hperm in
theorem Agree.eq_of_first {p q : Person} (hp : p ∈ c.people) (hq : q ∈ c.people)
    (hb : p.before = true) (hb' : q.before = true) (he : lower p.first = lower q.first) : p = q := by
  obtain ⟨i, hi⟩ := List.mem_iff_getElem?.mp hp
  obtain ⟨j, hj⟩ := List.mem_iff_getElem?.mp hq
  have hij := ha.distinct i j p q hi hj hb hb' he
  subst hij
  exact Option.some.inj (hi.symm.trans hj)

omit hperm in
/-- Who was present before the run and left in it was there under a nick of their own. -/
theorem Agree.nodup_firsts :
    ((c.people.filter fun p => p.before && p.moved).map fun p => lower p.first).Nodup := by
  have hpair : c.people.Pairwise fun p q =>
      p.before = true → q.before = true → lower p.first ≠ lower q.first := by
    rw [List.pairwise_iff_getElem]
    intro i j hi hj hlt hb hb' he
    exact hlt.ne (ha.distinct i j _ _ (List.getElem?_eq_getElem hi) (List.getElem?_eq_getElem hj)
      hb hb' he)
  unfold List.Nodup
  rw [List.pairwise_map, List.pairwise_filter]
  refine hpair.imp fun h hp hq => ?_
  simp only [Bool.and_eq_true] at hp hq
  exact h hp.1 hq.1

omit hperm in
/-- A nick that is nobody's last was left alone by the run, or is one somebody went by before. -/
theorem Agree.present_of_unheld {k : String} (hk : ∀ p ∈ c.people, lower p.last ≠ k) :
    k ∈ present ↔ k ∈ before ∧ ¬Known lower c.people k := by
  apply ha.free
  cases hheld : c.holder k with
  | none => rfl
  | some i =>
    obtain ⟨p, hp, hlast, -⟩ := ha.held k i hheld
    exact absurd hlast (hk p (List.mem_of_getElem? hp))

theorem leftUnderFirst_of (hs : StatesNetEffect lower entries before present) :
    LeftUnderFirst lower c.people := by
  let group := c.people.filter fun p => p.before && p.moved
  let firsts := (group.map fun p => lower p.first).toFinset
  let lasts := (group.map fun p => lower p.last).toFinset
  have hmem : ∀ (g : Person → String) k, k ∈ (group.map fun p => lower (g p)).toFinset ↔
      ∃ p ∈ c.people, p.before = true ∧ p.moved = true ∧ lower (g p) = k := by
    intro g k
    simp [group, and_assoc]
  have hsub : firsts ⊆ lasts := by
    intro k hk
    obtain ⟨p, hp, hpb, hpm, hfirst⟩ := (hmem _ k).mp hk
    have hb : k ∈ before := hfirst ▸ ha.first_mem p hp hpb
    obtain ⟨hmen, hsame⟩ := hs k
    rw [mentioned_iff ha hperm] at hmen hsame
    by_cases hm : ∃ q ∈ c.people, lower q.last = k ∨
        (q.before = true ∧ q.moved = false ∧ lower q.first = k)
    · obtain ⟨q, hq, hqb, hname⟩ := (saysBefore_iff ha hperm k).mp ((hmen hm).1.mp hb)
      cases hqm : q.moved with
      | true => exact (hmem _ k).mpr ⟨q, hq, hqb, hqm, by simpa [hqm] using hname⟩
      | false =>
        have hqk : lower q.first = k := by simpa [hqm] using hname
        have heq := ha.eq_of_first hp hq hpb hqb (hfirst.trans hqk.symm)
        rw [heq, hqm] at hpm
        cases hpm
    · have hin := (hsame hm).mp hb
      push Not at hm
      exact absurd ⟨p, hp, hpb, hfirst⟩
        ((ha.present_of_unheld fun q hq => (hm q hq).1).mp hin).2
  have hcard : lasts.card ≤ firsts.card := by
    rw [List.toFinset_card_of_nodup ha.nodup_firsts]
    refine (List.toFinset_card_le _).trans ?_
    simp [group]
  have heq := Finset.eq_of_subset_of_card_le hsub hcard
  intro k
  rw [← hmem Person.first k, ← hmem Person.last k]
  exact iff_of_eq (congrArg (k ∈ ·) heq)

variable (hall : AllHeld c)
include hall

omit hperm in
theorem Agree.last_held {p : Person} (hp : p ∈ c.people) :
    ∃ i, c.holder (lower p.last) = some i ∧ (lower p.last ∈ present ↔ p.now = true) := by
  obtain ⟨i, hi⟩ := List.mem_iff_getElem?.mp hp
  obtain ⟨k, hk⟩ := hall i (List.getElem?_eq_some_iff.mp hi).1
  obtain ⟨q, hq, hlast, hpres⟩ := ha.held k i hk
  cases hi.symm.trans hq
  subst hlast
  exact ⟨i, hk, hpres⟩

theorem statesNetEffect_of (hl : LeftUnderFirst lower c.people) :
    StatesNetEffect lower entries before present := by
  intro k
  rw [mentioned_iff ha hperm, saysBefore_iff ha hperm, saysAfter_iff ha hperm]
  refine ⟨fun ⟨p, hp, hmen⟩ => ?_, fun hmen => ?_⟩
  · have hknown : k ∈ before → Known lower c.people k := by
      intro hb
      rcases hmen with rfl | ⟨hpb, -, hfirst⟩
      · obtain ⟨i, hi, -⟩ := ha.last_held hall hp
        exact ha.known _ i hi hb
      · exact ⟨p, hp, hpb, hfirst⟩
    constructor
    · constructor
      · intro hb
        obtain ⟨q, hq, hqb, hfirst⟩ := hknown hb
        cases hm : q.moved with
        | true =>
          obtain ⟨r, hr, hrb, hrm, hlast⟩ := (hl k).mp ⟨q, hq, hqb, hm, hfirst⟩
          exact ⟨r, hr, hrb, by simpa [hrm] using hlast⟩
        | false => exact ⟨q, hq, hqb, by simpa [hm] using hfirst⟩
      · rintro ⟨q, hq, hqb, hname⟩
        cases hm : q.moved with
        | true =>
          rw [hm, if_pos rfl] at hname
          obtain ⟨r, hr, hrb, -, hfirst⟩ := (hl k).mpr ⟨q, hq, hqb, hm, hname⟩
          exact hfirst ▸ ha.first_mem r hr hrb
        | false =>
          simp only [hm, Bool.false_eq_true, if_false] at hname
          exact hname ▸ ha.first_mem q hq hqb
    · constructor
      · intro hin
        by_cases hlast : ∃ q ∈ c.people, lower q.last = k
        · obtain ⟨q, hq, rfl⟩ := hlast
          obtain ⟨i, -, hpres⟩ := ha.last_held hall hq
          exact ⟨q, hq, hpres.mp hin, rfl⟩
        · push Not at hlast
          obtain ⟨hb, hno⟩ := (ha.present_of_unheld hlast).mp hin
          exact absurd (hknown hb) hno
      · rintro ⟨q, hq, hnow, rfl⟩
        obtain ⟨i, -, hpres⟩ := ha.last_held hall hq
        exact hpres.mpr hnow
  · push Not at hmen
    have hno : ¬Known lower c.people k := by
      rintro ⟨q, hq, hqb, hfirst⟩
      cases hm : q.moved with
      | true =>
        obtain ⟨r, hr, -, -, hlast⟩ := (hl k).mp ⟨q, hq, hqb, hm, hfirst⟩
        exact (hmen r hr).1 hlast
      | false => exact (hmen q hq).2 hqb hm hfirst
    rw [ha.present_of_unheld fun q hq => (hmen q hq).1]
    simp [hno]

end Reading

/-- A summary that hides nothing states the net effect of a consistent run and lists every person
of it once, exactly when no nick is taken over in it and those who left go by nicks they had. -/
theorem summary_exact (lower : String → String) (before : Finset String) (events : List Event)
    (recentSpeakers : Option (List String)) (maxNames : Int)
    (hc : Consistent lower before events)
    (hhidden : ∀ g ∈ consolidateRun lower recentSpeakers maxNames events, g.hidden = 0) :
    (StatesNetEffect lower (listing (consolidateRun lower recentSpeakers maxNames events))
        before (events.foldl (applyEvent lower) before) ∧
      EachOnce lower (listing (consolidateRun lower recentSpeakers maxNames events))
        (castOf lower events).people) ↔
    NoTakeover lower .start events ∧ LeftUnderFirst lower (castOf lower events).people := by
  obtain ⟨ha, hf⟩ := agree_run events before .start .start (agree_start before) filed_start hc
  have hlist := listing_perm lower recentSpeakers maxNames events hhidden
  rcases allHeld_or_displaced (agree_start before) (fun i hi => absurd hi (Nat.not_lt_zero i)) hc
    with ⟨hno, hall⟩ | ⟨hno, hd⟩
  · have hperm := hlist.trans (hf.entries_perm ha hall)
    constructor
    · rintro ⟨hs, -⟩
      exact ⟨hno, leftUnderFirst_of ha hperm hs⟩
    · rintro ⟨-, hl⟩
      exact ⟨statesNetEffect_of ha hperm hall hl, eachOnce_of_perm hperm⟩
  · constructor
    · rintro ⟨-, honce⟩
      have hlen := honce.length_eq
      rw [List.length_map, List.length_map, hlist.length_eq, List.length_map] at hlen
      exact absurd hlen (hf.fewer ha hd).ne
    · rintro ⟨ht, -⟩
      exact absurd ht hno

theorem summary_exact_net_effects :
    let events : List Event := [.join "alice", .quit "bob", .join "carol", .part "carol",
      .quit "dave", .join "dave", .nick "eve" "eve_afk"]
    (StatesNetEffect String.toLower (listing (consolidateRun String.toLower none 5 events))
        {"bob", "dave", "eve"} (events.foldl (applyEvent String.toLower) {"bob", "dave", "eve"}) ∧
      EachOnce String.toLower (listing (consolidateRun String.toLower none 5 events))
        (castOf String.toLower events).people) ↔
    NoTakeover String.toLower .start events ∧
      LeftUnderFirst String.toLower (castOf String.toLower events).people :=
  summary_exact String.toLower {"bob", "dave", "eve"} _ none 5 (by decide +kernel)
    (by decide +kernel)

/-- After alice quits and bob takes the nick, alice has no entry; after alice becomes bob and
quits, it is bob who is listed as having left. -/
theorem ghost_and_renamed_leaver :
    (Consistent String.toLower {"alice", "bob"} [.quit "alice", .nick "bob" "alice"] ∧
      listing (consolidateRun String.toLower none 5 [.quit "alice", .nick "bob" "alice"])
        = [(.renamed, .rename "bob" "alice")] ∧
      ¬EachOnce String.toLower
        (listing (consolidateRun String.toLower none 5 [.quit "alice", .nick "bob" "alice"]))
        (castOf String.toLower [.quit "alice", .nick "bob" "alice"]).people) ∧
    Consistent String.toLower {"alice"} [.nick "alice" "bob", .quit "bob"] ∧
      listing (consolidateRun String.toLower none 5 [.nick "alice" "bob", .quit "bob"])
        = [(.left, .nick "bob")] ∧
      ¬StatesNetEffect String.toLower
        (listing (consolidateRun String.toLower none 5 [.nick "alice" "bob", .quit "bob"]))
        {"alice"} ([Event.nick "alice" "bob", .quit "bob"].foldl (applyEvent String.toLower)
          {"alice"}) := by
  refine ⟨⟨by decide +kernel, by decide +kernel, by unfold EachOnce; decide +kernel⟩,
    by decide +kernel, ?_⟩
  have hlist : listing (consolidateRun String.toLower none 5 [.nick "alice" "bob", .quit "bob"])
      = [(.left, .nick "bob")] := by decide +kernel
  refine ⟨hlist, fun h => ?_⟩
  rw [hlist] at h
  have hlow : String.toLower "bob" = "bob" := by decide +kernel
  have hbob := (h "bob").1 ⟨_, List.mem_singleton_self _, "bob", List.mem_singleton_self _, hlow⟩
  have hin := hbob.1.mpr ⟨_, List.mem_singleton_self _, "bob", rfl, hlow⟩
  exact absurd hin (by decide)

end Lurker.Timeline
