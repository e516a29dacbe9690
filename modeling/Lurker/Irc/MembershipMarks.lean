import Lurker.Irc.MembershipServer

/-!
# Marks and entries

For each channel, whether we are in it, the two marks and the commands still
unanswered are tied by one relation: the last of the commands decides, and the
marks say so even where membership does not. The map has one entry for each
channel we are in, as long as lowercasing a name leaves it the same channel.
-/
namespace Lurker.Irc

/-- In the channel as far as we were told, marked for a JOIN, marked for a PART, and what is still
unanswered. -/
def Marks (here joining parting : Prop) (later : List Bool) : Prop :=
  match later.getLast? with
  | none => ¬joining ∧ (¬parting ∨ ¬here)
  | some true => ¬parting ∧ (joining ↔ ¬(here ∧ false ∉ later))
  | some false => ¬joining ∧ (parting ∨ (¬here ∧ true ∉ later))

section Marks
variable {here joining parting : Prop} {later : List Bool}

theorem marks_nil : Marks here joining parting [] ↔ ¬joining ∧ (¬parting ∨ ¬here) := Iff.rfl

theorem marks_concat_true (q : List Bool) : Marks here joining parting (q ++ [true]) ↔
    ¬parting ∧ (joining ↔ ¬(here ∧ false ∉ q)) := by
  simp [Marks]

theorem marks_concat_false (q : List Bool) : Marks here joining parting (q ++ [false]) ↔
    ¬joining ∧ (parting ∨ (¬here ∧ true ∉ q)) := by
  simp [Marks]

/-- What the marks say is what the last unanswered command makes of it. -/
theorem Marks.decides (h : Marks here joining parting later) :
    (¬parting ∧ (here ∨ joining)) ↔ (later.getLast?.map (· = true)).getD here := by
  induction later using List.reverseRecOn with
  | nil =>
    have := marks_nil.mp h
    simp only [List.getLast?_nil, Option.map_none, Option.getD_none]
    grind
  | append_singleton q b _ =>
    cases b with
    | true =>
      have := (marks_concat_true q).mp h
      simp only [List.getLast?_concat, Option.map_some, Option.getD_some]
      grind
    | false =>
      have := (marks_concat_false q).mp h
      simp only [List.getLast?_concat, Option.map_some, Option.getD_some, Bool.false_eq_true,
        iff_false]
      grind

theorem Marks.decides_bool [Decidable here] (h : Marks here joining parting later) :
    (¬parting ∧ (here ∨ joining)) ↔ later.getLast?.getD (decide here) = true := by
  rw [h.decides]
  cases later.getLast? <;> simp

/-- A JOIN is sent. -/
theorem Marks.join (h : Marks here joining parting later) :
    Marks here (joining ∨ parting ∨ ¬here) False (later ++ [true]) := by
  rw [marks_concat_true]
  refine ⟨id, ?_⟩
  induction later using List.reverseRecOn with
  | nil =>
    have := marks_nil.mp h
    simp only [List.not_mem_nil, not_false_eq_true]
    grind
  | append_singleton q b _ =>
    cases b with
    | true =>
      have := (marks_concat_true q).mp h
      simp only [List.mem_append, List.mem_singleton, Bool.false_eq_true, or_false]
      grind
    | false =>
      have := (marks_concat_false q).mp h
      simp only [List.mem_append, List.mem_singleton, or_true, not_true_eq_false, and_false,
        not_false_eq_true, iff_true]
      grind

/-- A PART is sent. -/
theorem Marks.part : Marks here False True (later ++ [false]) := by
  rw [marks_concat_false]
  exact ⟨id, .inl trivial⟩

/-- A `JOIN 0` is sent. -/
theorem Marks.partAll (h : Marks here joining parting later) :
    Marks here False (parting ∨ here ∨ joining) (later ++ [false]) := by
  rw [marks_concat_false]
  refine ⟨id, ?_⟩
  induction later using List.reverseRecOn with
  | nil =>
    simp only [List.not_mem_nil, not_false_eq_true]
    grind
  | append_singleton q b _ =>
    cases b with
    | true =>
      have := (marks_concat_true q).mp h
      grind
    | false =>
      have := (marks_concat_false q).mp h
      simp only [List.mem_append, List.mem_singleton, Bool.true_eq_false, or_false]
      grind

/-- A JOIN we sent is echoed. -/
theorem Marks.joined (h : Marks here joining parting (true :: later)) (hk : KeepsJoin later) :
    Marks True False parting later := by
  induction later using List.reverseRecOn with
  | nil =>
    have := (marks_concat_true []).mp h
    rw [marks_nil]
    grind
  | append_singleton q b _ =>
    rw [← List.cons_append] at h
    cases b with
    | true =>
      have := (marks_concat_true _).mp h
      have hno : false ∉ q ++ [true] := hk (by simp)
      rw [marks_concat_true]
      simp only [List.mem_append, not_or] at hno
      grind
    | false =>
      have := (marks_concat_false _).mp h
      rw [marks_concat_false]
      simp only [List.mem_cons, true_or, not_true_eq_false, and_false, or_false] at this
      grind

/-- A JOIN we sent is refused, by the numeric that clears a PART's mark or another. -/
theorem Marks.refused (h : Marks here joining parting (true :: later)) (hout : ¬here)
    (hlast : later.getLast? ≠ some true) {parting' : Prop}
    (hp : (parting' ↔ parting) ∨ ((parting' ↔ False) ∧ KeepsPart later)) :
    Marks here False parting' later := by
  induction later using List.reverseRecOn with
  | nil =>
    rw [marks_nil]
    grind
  | append_singleton q b _ =>
    rw [← List.cons_append] at h
    cases b with
    | true => simp at hlast
    | false =>
      have := (marks_concat_false _).mp h
      rw [marks_concat_false]
      simp only [List.mem_cons, true_or, not_true_eq_false, and_false, or_false] at this
      refine ⟨id, ?_⟩
      rcases hp with hp | ⟨-, hk⟩
      · exact .inl (hp.mpr this.2)
      · have hno : true ∉ q ++ [false] := hk (by simp)
        simp only [List.mem_append, not_or] at hno
        exact .inr ⟨hout, hno.1⟩

/-- A JOIN of a channel we are in has been taken. -/
theorem Marks.silent (h : Marks here joining parting (true :: later)) (hin : here) :
    Marks here joining parting later := by
  induction later using List.reverseRecOn with
  | nil =>
    have := (marks_concat_true []).mp h
    rw [marks_nil]
    simp only [List.not_mem_nil, not_false_eq_true] at this
    grind
  | append_singleton q b _ =>
    rw [← List.cons_append] at h
    cases b with
    | true =>
      have := (marks_concat_true _).mp h
      rw [marks_concat_true]
      simpa only [List.mem_cons, Bool.false_eq_true, false_or] using this
    | false =>
      have := (marks_concat_false _).mp h
      rw [marks_concat_false]
      grind

/-- A PART has been answered. -/
theorem Marks.parted (h : Marks here joining parting (false :: later)) (hk : KeepsPart later) :
    Marks False joining False later := by
  induction later using List.reverseRecOn with
  | nil =>
    have := (marks_concat_false []).mp h
    rw [marks_nil]
    grind
  | append_singleton q b _ =>
    rw [← List.cons_append] at h
    cases b with
    | true =>
      have := (marks_concat_true _).mp h
      rw [marks_concat_true]
      simp only [List.mem_cons, true_or, not_true_eq_false, and_false, not_false_eq_true] at this
      grind
    | false =>
      have := (marks_concat_false _).mp h
      have hno : true ∉ q ++ [false] := hk (by simp)
      rw [marks_concat_false]
      simp only [List.mem_append, not_or] at hno
      grind

/-- A PART of a channel we are not in has been taken. -/
theorem Marks.swept (h : Marks here joining parting (false :: later)) (hout : ¬here) :
    Marks here joining parting later := by
  induction later using List.reverseRecOn with
  | nil =>
    have := (marks_concat_false []).mp h
    rw [marks_nil]
    grind
  | append_singleton q b _ =>
    rw [← List.cons_append] at h
    cases b with
    | true =>
      have := (marks_concat_true _).mp h
      rw [marks_concat_true]
      simp only [List.mem_cons, true_or, not_true_eq_false, and_false, not_false_eq_true] at this
      grind
    | false =>
      have := (marks_concat_false _).mp h
      rw [marks_concat_false]
      simp only [List.mem_cons, Bool.true_eq_false, false_or] at this
      grind

/-- We are kicked. -/
theorem Marks.kicked (h : Marks here joining parting later) (hk : KeepsPart later)
    (hj : later.getLast? = some true → false ∈ later) : Marks False joining False later := by
  induction later using List.reverseRecOn with
  | nil =>
    have := marks_nil.mp h
    rw [marks_nil]
    grind
  | append_singleton q b _ =>
    cases b with
    | true =>
      have := (marks_concat_true _).mp h
      have hin : false ∈ q ++ [true] := hj (by simp)
      rw [marks_concat_true]
      simp only [List.mem_append, List.mem_singleton, Bool.false_eq_true, or_false] at hin
      grind
    | false =>
      have := (marks_concat_false _).mp h
      have hno : true ∉ q ++ [false] := hk (by simp)
      rw [marks_concat_false]
      simp only [List.mem_append, not_or] at hno
      grind

end Marks
section Channels
variable {fold lower : Str → Str} {told : Finset Str} {m : Membership}

/-- The map holds one entry for each channel we were told we are in. -/
structure Entries (fold lower : Str → Str) (told : Finset Str) (m : Membership) : Prop where
  cache : ∀ l, m.joinedFoldedCache = some l → l = m.joinedFolded fold
  key : ∀ key ch, m.channels.get? key = some ch →
    lower ch.name = key ∧ fold (lower ch.name) = fold ch.name ∧ IsName ch.name
  apart : ∀ key key' ch ch', m.channels.get? key = some ch → m.channels.get? key' = some ch' →
    fold ch.name = fold ch'.name → key = key'
  told : ∀ k, k ∈ told ↔ ∃ key ch, m.channels.get? key = some ch ∧ fold ch.name = k

theorem Entries.mem_joinedFolded (h : Entries fold lower told m) (k : Str) :
    k ∈ m.joinedFolded fold ↔ k ∈ told := by
  rw [h.told]
  simp only [Membership.joinedFolded, List.mem_map, OrderedMap.mem_values]
  constructor
  · rintro ⟨ch, ⟨key, hch⟩, hk⟩
    exact ⟨key, ch, hch, hk⟩
  · rintro ⟨key, ch, hch, hk⟩
    exact ⟨ch, ⟨key, hch⟩, hk⟩

theorem Entries.index (h : Entries fold lower told m) : m.index fold = m.joinedFolded fold := by
  unfold Membership.index
  cases hc : m.joinedFoldedCache with
  | none => rfl
  | some l => exact h.cache l hc

theorem Entries.isChannelJoined (h : Entries fold lower told m) (name : Str) :
    m.isChannelJoined fold name = decide (fold name ∈ told) := by
  unfold Membership.isChannelJoined
  rw [h.index]
  exact decide_eq_decide.mpr (h.mem_joinedFolded (fold name))

theorem Entries.channelState (h : Entries fold lower told m) (name : Str) :
    (m.channelState fold name).isSome = decide (fold name ∈ told) := by
  rw [Bool.eq_iff_iff, decide_eq_true_eq, ← h.mem_joinedFolded]
  simp [Membership.channelState, Membership.joinedFolded]

theorem Entries.probed (h : Entries fold lower told m) :
    Entries fold lower told (m.probed fold) where
  cache l hl := by
    rw [← Option.some.inj hl]
    exact h.index
  key := h.key
  apart := h.apart
  told := h.told

/-- Marks are no part of the entries. -/
theorem Entries.marked (h : Entries fold lower told m) (joins parts : Finset Str) :
    Entries fold lower told { m with pendingJoins := joins, pendingParts := parts } :=
  ⟨h.cache, h.key, h.apart, h.told⟩

/-- Our JOIN echoed for a channel we are not in adds its entry. -/
theorem Entries.upsert (h : Entries fold lower told m) {name : Str} (hname : IsName name)
    (hlower : fold (lower name) = fold name) (hout : fold name ∉ told) :
    Entries fold lower (insert (fold name) told) (m.upsertChannel lower name) := by
  have hfree : m.channels.get? (lower name) = none := by
    cases hg : m.channels.get? (lower name) with
    | none => rfl
    | some ch =>
      obtain ⟨hkey, hfold, -⟩ := h.key _ _ hg
      refine absurd ((h.told _).mpr ⟨_, ch, hg, ?_⟩) hout
      rw [← hfold, hkey, hlower]
  have hold : ∀ key ch, key ≠ lower name →
      (m.channels.set (lower name) ⟨name⟩).get? key = some ch → m.channels.get? key = some ch := by
    intro key ch hne hg
    rwa [OrderedMap.get?_set, if_neg hne] at hg
  simp only [Membership.upsertChannel, hfree, Membership.setChannel]
  constructor
  · intro l hl
    cases hl
  · intro key ch hg
    by_cases hk : key = lower name
    · subst hk
      rw [OrderedMap.get?_set, if_pos rfl] at hg
      cases hg
      exact ⟨rfl, hlower, hname⟩
    · exact h.key key ch (hold key ch hk hg)
  · intro key key' ch ch' hg hg' he
    have hnew : ∀ k c, k ≠ lower name → m.channels.get? k = some c → fold c.name ≠ fold name := by
      intro k c hk hc heq
      exact hout ((h.told _).mpr ⟨k, c, hc, heq⟩)
    by_cases hk : key = lower name <;> by_cases hk' : key' = lower name
    · exact hk.trans hk'.symm
    · subst hk
      rw [OrderedMap.get?_set, if_pos rfl] at hg
      cases hg
      exact absurd he.symm (hnew key' ch' hk' (hold key' ch' hk' hg'))
    · subst hk'
      rw [OrderedMap.get?_set, if_pos rfl] at hg'
      cases hg'
      exact absurd he (hnew key ch hk (hold key ch hk hg))
    · exact h.apart key key' ch ch' (hold key ch hk hg) (hold key' ch' hk' hg') he
  · intro k
    rw [Finset.mem_insert, h.told]
    constructor
    · rintro (rfl | ⟨key, ch, hg, hk⟩)
      · exact ⟨lower name, ⟨name⟩, by rw [OrderedMap.get?_set, if_pos rfl], rfl⟩
      · refine ⟨key, ch, ?_, hk⟩
        have hne : key ≠ lower name := by
          intro heq
          subst heq
          cases hfree.symm.trans hg
        rw [OrderedMap.get?_set, if_neg hne, hg]
    · rintro ⟨key, ch, hg, hk⟩
      by_cases hkey : key = lower name
      · subst hkey
        rw [OrderedMap.get?_set, if_pos rfl] at hg
        cases hg
        exact .inl hk.symm
      · exact .inr ⟨key, ch, hold key ch hkey hg, hk⟩

theorem fold_actualKey (fold : Str → Str) (m : Membership) (key : Str) :
    fold (m.actualKey fold key) = fold key := by
  unfold Membership.actualKey
  split_ifs
  · rfl
  · cases hfind : m.channels.keys.find? fun k => fold k = fold key with
    | none => rfl
    | some k =>
      have hk := List.find?_some hfind
      exact of_decide_eq_true hk

/-- The key that is deleted is the entry's of the channel named, where there is one. -/
theorem Entries.actualKey (h : Entries fold lower told m) {name : Str}
    (hlower : fold (lower name) = fold name) {key : Str} {ch : ChannelState}
    (hg : m.channels.get? key = some ch) (hch : fold ch.name = fold name) :
    m.actualKey fold (lower name) = key := by
  have hsame : ∀ k, k ∈ m.channels.keys → fold k = fold name → k = key := by
    intro k hk hf
    obtain ⟨c, hc⟩ := Option.isSome_iff_exists.mp (OrderedMap.has_iff.mpr hk)
    obtain ⟨hkey, hfold, -⟩ := h.key _ _ hc
    refine h.apart k key c ch hc hg ?_
    rw [← hfold, hkey, hf, hch]
  unfold Membership.actualKey
  split_ifs with hhas
  · exact hsame _ (OrderedMap.has_iff.mp hhas) hlower
  · obtain ⟨hkey, hfold, -⟩ := h.key _ _ hg
    have hin : key ∈ m.channels.keys := OrderedMap.has_iff.mp (Option.isSome_iff_exists.mpr ⟨ch, hg⟩)
    cases hfind : m.channels.keys.find? fun k => fold k = fold (lower name) with
    | none =>
      have := List.find?_eq_none.mp hfind key hin
      rw [← hkey, hfold, hch, hlower] at this
      simp at this
    | some k =>
      have hk := List.find?_some hfind
      rw [decide_eq_true_eq, hlower] at hk
      exact hsame k (List.mem_of_find?_eq_some hfind) hk

/-- A channel we are told we have left loses its entry. -/
theorem Entries.delete (h : Entries fold lower told m) {name : Str}
    (hlower : fold (lower name) = fold name) :
    Entries fold lower (told.erase (fold name)) (m.deleteChannel fold (lower name)) := by
  let m₁ : Membership := { m with pendingParts := m.pendingParts.erase (fold (lower name)) }
  have h₁ : Entries fold lower told m₁ := h.marked _ _
  show Entries fold lower _ (if m₁.channels.has (m₁.actualKey fold (lower name)) then
    { m₁ with channels := _, joinedFoldedCache := none } else m₁)
  split_ifs with hhas
  · obtain ⟨ch, hg⟩ := Option.isSome_iff_exists.mp hhas
    have hch : fold ch.name = fold name := by
      obtain ⟨hkey, hfold, -⟩ := h₁.key _ _ hg
      rw [← hfold, hkey, fold_actualKey fold, hlower]
    have hold : ∀ key c, (m₁.channels.delete (m₁.actualKey fold (lower name))).get? key = some c ↔
        key ≠ m₁.actualKey fold (lower name) ∧ m₁.channels.get? key = some c := by
      intro key c
      rw [OrderedMap.get?_delete]
      split_ifs with hk <;> simp [hk]
    constructor
    · intro l hl
      cases hl
    · intro key c hc
      exact h₁.key key c ((hold key c).mp hc).2
    · intro key key' c c' hc hc'
      exact h₁.apart key key' c c' ((hold key c).mp hc).2 ((hold key' c').mp hc').2
    · intro k
      rw [Finset.mem_erase, h₁.told]
      constructor
      · rintro ⟨hne, key, c, hc, rfl⟩
        refine ⟨key, c, (hold key c).mpr ⟨?_, hc⟩, rfl⟩
        intro hk
        subst hk
        cases hg.symm.trans hc
        exact hne hch
      · rintro ⟨key, c, hc, rfl⟩
        obtain ⟨hne, hc⟩ := (hold key c).mp hc
        exact ⟨fun he => hne (h₁.apart key _ c ch hc hg (he.trans hch.symm)), key, c, hc, rfl⟩
  · have hout : fold name ∉ told := by
      intro hin
      obtain ⟨key, ch, hg, hch⟩ := (h₁.told _).mp hin
      rw [h₁.actualKey hlower hg hch] at hhas
      exact hhas (Option.isSome_iff_exists.mpr ⟨ch, hg⟩)
    rw [Finset.erase_eq_of_notMem hout]
    exact h₁

theorem pendingParts_deleteChannel (m : Membership) (key : Str) :
    (m.deleteChannel fold key).pendingParts = m.pendingParts.erase (fold key) := by
  unfold Membership.deleteChannel
  dsimp only
  split_ifs <;> rfl

theorem pendingJoins_deleteChannel (m : Membership) (key : Str) :
    (m.deleteChannel fold key).pendingJoins = m.pendingJoins := by
  unfold Membership.deleteChannel
  dsimp only
  split_ifs <;> rfl

theorem pendingJoins_upsertChannel (m : Membership) (name : Str) :
    (m.upsertChannel lower name).pendingJoins = m.pendingJoins := by
  unfold Membership.upsertChannel
  split <;> rfl

theorem pendingParts_upsertChannel (m : Membership) (name : Str) :
    (m.upsertChannel lower name).pendingParts = m.pendingParts := by
  unfold Membership.upsertChannel
  split <;> rfl

/-- What is noted of one command sent. -/
def Membership.note (fold : Str → Str) (m : Membership) : Command → Membership
  | .join name => m.noteJoin fold name
  | .part name => m.notePart fold name
  | .partAll => m.notePartAll fold

theorem noteJoinSent_eq (m : Membership) (param : Str) (hparam : param ≠ ['0']) :
    m.noteJoinSent fold param = (joinCommands param).foldl (Membership.note fold) m := by
  unfold Membership.noteJoinSent joinCommands
  rw [if_neg hparam, List.foldl_map]
  rfl

theorem notePartSent_eq (m : Membership) (param : Str) :
    m.notePartSent fold param = (partCommands param).foldl (Membership.note fold) m := by
  unfold Membership.notePartSent partCommands
  rw [List.foldl_map]
  rfl

theorem noteRawMembership_eq (m : Membership) (line : Str) :
    m.noteRawMembership fold line = (notedCommands line).foldl (Membership.note fold) m := by
  unfold Membership.noteRawMembership notedCommands
  cases membershipWords line with
  | none => rfl
  | some words =>
    obtain ⟨verb, targets⟩ := words
    dsimp only
    split_ifs with hpart hzero
    · exact notePartSent_eq m targets
    · subst hzero
      rfl
    · exact noteJoinSent_eq m targets hzero

theorem Entries.noteJoin (h : Entries fold lower told m) (name : Str) :
    Entries fold lower told (m.noteJoin fold name) := by
  unfold Membership.noteJoin
  dsimp only
  split_ifs
  · exact h.marked _ _
  · exact h.probed
  · exact h.probed.marked _ _

theorem mem_pendingJoins_noteJoin (h : Entries fold lower told m) (name k : Str) :
    k ∈ (m.noteJoin fold name).pendingJoins ↔ k ∈ m.pendingJoins ∨
      (k = fold name ∧ (fold name ∈ m.pendingParts ∨ fold name ∉ told)) := by
  unfold Membership.noteJoin
  dsimp only
  rw [h.isChannelJoined]
  by_cases hp : fold name ∈ m.pendingParts
  · simp [hp, or_comm]
  · by_cases hin : fold name ∈ told
    · simp [hp, hin, Membership.probed]
    · simp [hp, hin, Membership.probed, or_comm]

theorem mem_pendingParts_noteJoin (m : Membership) (name k : Str) :
    k ∈ (m.noteJoin fold name).pendingParts ↔ k ∈ m.pendingParts ∧ k ≠ fold name := by
  unfold Membership.noteJoin
  dsimp only
  by_cases hp : fold name ∈ m.pendingParts
  · simp [hp, and_comm]
  · have hne : k ∈ m.pendingParts → k ≠ fold name := fun hk => ne_of_mem_of_not_mem hk hp
    by_cases hj : m.isChannelJoined fold name = true
    · simp only [hp, hj, if_true, if_false, Membership.probed]
      grind
    · simp only [hp, hj, if_false, Membership.probed, Bool.false_eq_true]
      grind

theorem pieces_name {name : Str} (h : IsName name) : pieces ',' name = [name] := by
  unfold pieces
  rw [List.splitOn_eq_singleton h.2]
  simp [h.1]

/-- `JOIN 0` marks every channel we are in or asked to join, and unmarks their JOINs. -/
theorem notePartAll_eq (h : Entries fold lower told m) :
    ∃ parts : Finset Str, m.notePartAll fold
        = { m with pendingJoins := ∅, pendingParts := parts } ∧
      ∀ k, k ∈ parts ↔ k ∈ m.pendingParts ∨ k ∈ told ∨ k ∈ m.pendingJoins := by
  have hfold : ∀ (chs : List ChannelState) (m' : Membership), (∀ ch ∈ chs, IsName ch.name) →
      ∃ joins parts : Finset Str,
        chs.foldl (fun m ch => m.notePartSent fold ch.name) m'
          = { m' with pendingJoins := joins, pendingParts := parts } ∧
        ∀ k, (k ∈ parts ∨ k ∈ joins ↔
          k ∈ m'.pendingParts ∨ k ∈ m'.pendingJoins ∨ k ∈ chs.map fun ch => fold ch.name) := by
    intro chs
    induction chs with
    | nil => exact fun m' _ => ⟨m'.pendingJoins, m'.pendingParts, rfl, by simp⟩
    | cons ch chs ih =>
      intro m' hall
      obtain ⟨joins, parts, heq, hmem⟩ := ih (m'.notePartSent fold ch.name)
        fun c hc => hall c (List.mem_cons_of_mem _ hc)
      have hone : m'.notePartSent fold ch.name = m'.notePart fold ch.name := by
        unfold Membership.notePartSent
        rw [pieces_name (hall ch List.mem_cons_self)]
        rfl
      refine ⟨joins, parts, ?_, fun k => ?_⟩
      · rw [List.foldl_cons, heq, hone]
        rfl
      · rw [hmem k, hone]
        simp only [Membership.notePart, Finset.mem_insert, Finset.mem_erase, List.map_cons,
          List.mem_cons]
        grind
  obtain ⟨joins, parts, heq, hmem⟩ := hfold m.channels.values m (by
    intro ch hch
    obtain ⟨key, hg⟩ := OrderedMap.mem_values.mp hch
    exact (h.key key ch hg).2.2)
  refine ⟨parts ∪ joins, ?_, fun k => ?_⟩
  · unfold Membership.notePartAll
    rw [heq]
  · rw [Finset.mem_union, hmem k, ← h.mem_joinedFolded]
    unfold Membership.joinedFolded
    grind

end Channels

end Lurker.Irc
