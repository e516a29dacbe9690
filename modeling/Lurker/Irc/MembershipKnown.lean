import Lurker.Irc.MembershipMarks

/-!
# Membership against the server

Every command sent and every reply read keeps the marks of each channel true to
the commands still unanswered, unless the reply takes a later command's mark. So
Lurker knows which channels it will be in, along every run without such a reply.
-/
namespace Lurker.Irc
namespace Net

variable {fold lower : Str → Str}

/-- The channels we are in after a reply, none when the server cannot have given it. -/
def next (fold : Str → Str) (told : Finset Str) : Reply → Option (Finset Str)
  | .joined name => if fold name ∉ told ∧ IsName name then some (insert (fold name) told) else none
  | .refused _ name => if fold name ∉ told then some told else none
  | .silent name => if fold name ∈ told then some told else none
  | .parted name => if fold name ∈ told then some (told.erase (fold name)) else none
  | .notOn name => if fold name ∉ told then some told else none
  | .swept => if told = ∅ then some told else none
  | .kicked name => if fold name ∈ told then some (told.erase (fold name)) else none

theorem tell_of_next {told told' : Finset Str} {r : Reply} (h : next fold told r = some told') :
    tell fold told r = told' := by
  cases r <;> simp only [next, Option.ite_none_right_eq_some, Option.some.injEq] at h <;>
    exact h.2

/-- Replies lead from where we were told we are to where the server has us, and the marks of each
channel fit the commands still unanswered. -/
structure Track (fold lower : Str → Str) (s : Net) : Prop where
  entries : Entries fold lower s.told s.client
  replay : s.downstream.foldlM (next fold) s.told = some s.server
  marks : ∀ k, Marks (k ∈ s.told) (k ∈ s.client.pendingJoins) (k ∈ s.client.pendingParts)
    (unanswered fold s.downstream s.upstream k)

theorem track_start : Track fold lower start where
  entries :=
    { cache := fun l h => by cases h
      key := fun _ _ h => by cases h
      apart := fun _ _ _ _ h => by cases h
      told := fun k => by simp [start, Membership.start] }
  replay := rfl
  marks k := by
    rw [unanswered, start, List.filterMap_nil, List.filterMap_nil, List.append_nil, marks_nil]
    simp [Membership.start]

theorem unanswered_send (ds : List Reply) (us : List Command) (c : Command) (k : Str) :
    unanswered fold ds (us ++ [c]) k
      = unanswered fold ds us k ++ (c.asks fold k).toList := by
  unfold unanswered
  rw [List.filterMap_append, List.append_assoc]
  cases h : c.asks fold k <;> simp [h]

/-- One command is sent and noted. -/
theorem Track.note {s : Net} (h : Track fold lower s) (c : Command) :
    Track fold lower { s with client := s.client.note fold c, upstream := s.upstream ++ [c] } := by
  have he := h.entries
  cases c with
  | join name =>
    refine ⟨he.noteJoin name, h.replay, fun k => ?_⟩
    show Marks _ (k ∈ (s.client.noteJoin fold name).pendingJoins)
      (k ∈ (s.client.noteJoin fold name).pendingParts) _
    rw [unanswered_send, mem_pendingJoins_noteJoin he, mem_pendingParts_noteJoin]
    by_cases hk : fold name = k
    · subst hk
      simpa [Command.asks] using (h.marks (fold name)).join
    · simpa [Command.asks, hk, Ne.symm hk] using h.marks k
  | part name =>
    refine ⟨he.marked _ _, h.replay, fun k => ?_⟩
    show Marks _ (k ∈ s.client.pendingJoins.erase (fold name))
      (k ∈ insert (fold name) s.client.pendingParts) _
    rw [unanswered_send, Finset.mem_erase, Finset.mem_insert]
    by_cases hk : fold name = k
    · subst hk
      simpa [Command.asks] using Marks.part
    · simpa [Command.asks, hk, Ne.symm hk] using h.marks k
  | partAll =>
    obtain ⟨parts, heq, hparts⟩ := notePartAll_eq he
    refine ⟨?_, h.replay, fun k => ?_⟩
    · show Entries fold lower s.told (s.client.notePartAll fold)
      rw [heq]
      exact he.marked _ _
    · show Marks _ (k ∈ (s.client.notePartAll fold).pendingJoins)
        (k ∈ (s.client.notePartAll fold).pendingParts) _
      rw [unanswered_send, heq]
      simpa [Command.asks, hparts k] using (h.marks k).partAll

theorem Track.notes {s : Net} (h : Track fold lower s) (cs : List Command) :
    Track fold lower
      { s with
        client := cs.foldl (Membership.note fold) s.client
        upstream := s.upstream ++ cs } := by
  induction cs generalizing s with
  | nil => simpa using h
  | cons c cs ih => simpa using ih (h.note c)

/-- Only the last of the commands and which kinds there are matter to the marks. -/
theorem marks_congr {here joining parting : Prop} {q q' : List Bool}
    (hlast : q'.getLast? = q.getLast?) (hmem : ∀ b, b ∈ q' ↔ b ∈ q)
    (h : Marks here joining parting q) : Marks here joining parting q' := by
  unfold Marks at h ⊢
  rw [hlast, hmem true, hmem false]
  exact h

/-- The server does one thing: it takes a command, or none, and leaves a reply. -/
theorem Track.replied {s : Net} (h : Track fold lower s) {us : List Command} {r : Reply}
    {server : Finset Str} (hnext : next fold s.server r = some server)
    (hasks : ∀ k, s.upstream.filterMap (Command.asks fold k)
      = (r.asks fold k).toList ++ us.filterMap (Command.asks fold k)) :
    Track fold lower { s with upstream := us, server, downstream := s.downstream ++ [r] } where
  entries := h.entries
  replay := by
    rw [List.foldlM_append, h.replay]
    simpa using hnext
  marks k := by
    have hsame : unanswered fold (s.downstream ++ [r]) us k
        = unanswered fold s.downstream s.upstream k := by
      unfold unanswered
      rw [hasks k, List.filterMap_append, List.append_assoc]
      cases hr : r.asks fold k <;> simp [hr]
    rw [hsame]
    exact h.marks k

theorem Track.answer {s : Net} (h : Track fold lower s) {c : Command} {us : List Command}
    (hus : s.upstream = c :: us) (hc : c ≠ .partAll) (refusal : Option Refusal) {name spelling : Str}
    (hname : c = .join name ∨ c = .part name) (hfold : fold spelling = fold name)
    (hspell : IsName spelling) :
    Track fold lower ({ s with upstream := us }.answer fold refusal spelling c) := by
  rcases hname with rfl | rfl
  · unfold Net.answer
    dsimp only
    split_ifs with hin
    · exact h.replied (by simp [next, hin])
        fun k => by by_cases hk : fold name = k <;> simp [hus, Command.asks, Reply.asks, hk]
    · cases refusal with
      | none =>
        exact h.replied (by simp [next, hfold, hin, hspell])
          fun k => by by_cases hk : fold name = k <;> simp [hus, Command.asks, Reply.asks, hfold, hk]
      | some r =>
        exact h.replied (by simp [next, hfold, hin])
          fun k => by by_cases hk : fold name = k <;> simp [hus, Command.asks, Reply.asks, hfold, hk]
  · unfold Net.answer
    dsimp only
    split_ifs with hin
    · exact h.replied (by simp [next, hfold, hin])
        fun k => by by_cases hk : fold name = k <;> simp [hus, Command.asks, Reply.asks, hfold, hk]
    · exact h.replied (by simp [next, hfold, hin])
        fun k => by by_cases hk : fold name = k <;> simp [hus, Command.asks, Reply.asks, hfold, hk]

/-- The echoes of a `JOIN 0` leave no channel. -/
theorem next_parted : ∀ (spellings : List Str) (told : Finset Str),
    (spellings.map fold).Nodup → (spellings.map fold).toFinset = told →
      (spellings.map Reply.parted).foldlM (next fold) told = some ∅
  | [], told, _, h => by
    rw [← h]
    rfl
  | name :: rest, told, hnodup, h => by
    have hne : fold name ∉ (rest.map fold).toFinset := by
      simpa using (List.nodup_cons.mp hnodup).1
    have hin : fold name ∈ told := by simp [← h]
    have herase : told.erase (fold name) = (rest.map fold).toFinset := by
      rw [← h, List.map_cons, List.toFinset_cons, Finset.erase_insert hne]
    rw [List.map_cons, List.foldlM_cons]
    simp only [next, hin, if_true, Option.bind_eq_bind, Option.bind_some]
    exact next_parted rest _ (List.nodup_cons.mp hnodup).2 herase.symm

theorem Track.sweeps {s : Net} (h : Track fold lower s) {us : List Command}
    (hus : s.upstream = .partAll :: us) {spellings : List Str}
    (hs : Sweeps fold s.server spellings) :
    Track fold lower
      { s with
        upstream := us, server := ∅
        downstream := s.downstream ++ spellings.map .parted ++ [.swept] } where
  entries := h.entries
  replay := by
    rw [List.append_assoc, List.foldlM_append, h.replay, Option.bind_eq_bind, Option.bind_some,
      List.foldlM_append, next_parted spellings s.server hs.1 hs.2.1]
    rfl
  marks k := by
    refine marks_congr ?_ ?_ (h.marks k)
    all_goals
      have hall : ∀ b ∈ (spellings.map Reply.parted).filterMap (Reply.asks fold k), b = false := by
        intro b hb
        obtain ⟨r, hr, hb⟩ := List.mem_filterMap.mp hb
        obtain ⟨name, -, rfl⟩ := List.mem_map.mp hr
        simp only [Reply.asks, Option.ite_none_right_eq_some, Option.some.injEq] at hb
        exact hb.2.symm
      simp only [unanswered, hus, List.filterMap_append, List.filterMap_cons, List.filterMap_nil,
        Reply.asks, Command.asks, List.append_assoc, List.singleton_append]
    · simp [List.getLast?_append, List.getLast?_cons]
    · intro b
      simp only [List.mem_append, List.mem_cons]
      constructor
      · rintro (hb | hb | hb | hb)
        · exact .inl hb
        · exact .inr (.inl (hall b hb))
        · exact .inr (.inl hb)
        · exact .inr (.inr hb)
      · rintro (hb | hb | hb)
        · exact .inl hb
        · exact .inr (.inr (.inl hb))
        · exact .inr (.inr (.inr hb))

theorem Track.kick {s : Net} (h : Track fold lower s) {name : Str} (hin : fold name ∈ s.server) :
    Track fold lower
      { s with
        server := s.server.erase (fold name)
        downstream := s.downstream ++ [.kicked name] } :=
  h.replied (by simp [next, hin]) fun k => by simp [Reply.asks]

theorem Track.lost {s : Net} (h : Track fold lower s) :
    Track fold lower ⟨s.client.forgetJoinedChannels, [], ∅, [], ∅⟩ where
  entries :=
    { cache := by
        intro l hl
        simp only [Membership.forgetJoinedChannels] at hl
        split_ifs at hl with hsize
        rw [h.entries.cache l hl]
        have hnil : s.client.channels.entries = [] := List.length_eq_zero_iff.mp hsize
        simp [Membership.joinedFolded, Membership.forgetJoinedChannels, OrderedMap.values, hnil,
          OrderedMap.empty]
      key := fun _ _ hg => by cases hg
      apart := fun _ _ _ _ hg => by cases hg
      told := fun k => by simp [Membership.forgetJoinedChannels] }
  replay := rfl
  marks k := by
    rw [unanswered, List.filterMap_nil, List.filterMap_nil, List.append_nil, marks_nil]
    simp [Membership.forgetJoinedChannels]

/-- The first of the commands unanswered is what the reply answers. -/
theorem unanswered_cons (r : Reply) (ds : List Reply) (us : List Command) (k : Str) :
    unanswered fold (r :: ds) us k = (r.asks fold k).toList ++ unanswered fold ds us k := by
  unfold unanswered
  cases h : r.asks fold k <;> simp [h]

/-- A reply that says nothing of what the marks are about. -/
theorem Track.skipped {s : Net} (h : Track fold lower s) {r : Reply} {ds : List Reply}
    (hds : s.downstream = r :: ds) (hnext : next fold s.told r = some s.told)
    (hmarks : ∀ k b, r.asks fold k = some b → (b = true ↔ k ∈ s.told)) :
    Track fold lower { s with downstream := ds } where
  entries := h.entries
  replay := by
    have hr := h.replay
    rw [hds, List.foldlM_cons, hnext, Option.bind_eq_bind, Option.bind_some] at hr
    exact hr
  marks k := by
    have hm := h.marks k
    rw [hds, unanswered_cons] at hm
    cases hask : r.asks fold k with
    | none => simpa [hask] using hm
    | some b =>
      rw [hask] at hm
      have hb := hmarks k b hask
      cases b with
      | true => exact hm.silent (hb.mp rfl)
      | false => exact hm.swept fun hin => by cases hb.mpr hin

/-- A reply about one channel is read, if it leaves other channels' marks alone. -/
theorem Track.told {s : Net} (h : Track fold lower s) {r : Reply} {ds : List Reply} {name : Str}
    (hds : s.downstream = r :: ds) {client : Membership} {told : Finset Str}
    (hnext : next fold s.told r = some told) (hentries : Entries fold lower told client)
    (hother : ∀ k, k ≠ fold name → r.asks fold k = none ∧ (k ∈ told ↔ k ∈ s.told) ∧
      (k ∈ client.pendingJoins ↔ k ∈ s.client.pendingJoins) ∧
      (k ∈ client.pendingParts ↔ k ∈ s.client.pendingParts))
    (hmarks : Marks (fold name ∈ s.told) (fold name ∈ s.client.pendingJoins)
        (fold name ∈ s.client.pendingParts)
        ((r.asks fold (fold name)).toList ++ unanswered fold ds s.upstream (fold name)) →
      Marks (fold name ∈ told) (fold name ∈ client.pendingJoins)
        (fold name ∈ client.pendingParts) (unanswered fold ds s.upstream (fold name))) :
    Track fold lower { s with client, told, downstream := ds } where
  entries := hentries
  replay := by
    have hr := h.replay
    rw [hds, List.foldlM_cons, hnext, Option.bind_eq_bind, Option.bind_some] at hr
    exact hr
  marks k := by
    have hm := h.marks k
    rw [hds, unanswered_cons] at hm
    by_cases hk : k = fold name
    · subst hk
      exact hmarks hm
    · obtain ⟨hask, htold, hjoins, hparts⟩ := hother k hk
      rw [hask, Option.toList_none, List.nil_append] at hm
      show Marks (k ∈ told) (k ∈ client.pendingJoins) (k ∈ client.pendingParts) _
      rw [htold, hjoins, hparts]
      exact hm

theorem Track.joined {s : Net} (h : Track fold lower s) {ds : List Reply} {name : Str}
    (hds : s.downstream = .joined name :: ds) (hlower : fold (lower name) = fold name)
    (hk : KeepsJoin (unanswered fold ds s.upstream (fold name)))
    (hout : fold name ∉ s.told) (hname : IsName name) :
    Track fold lower
      { s with
        client := s.client.onJoin fold lower name
        told := insert (fold name) s.told
        downstream := ds } := by
  have hj : (s.client.onJoin fold lower name).pendingJoins
      = s.client.pendingJoins.erase (fold name) := by
    simp [Membership.onJoin, pendingJoins_upsertChannel]
  have hp : (s.client.onJoin fold lower name).pendingParts = s.client.pendingParts := by
    simp [Membership.onJoin, pendingParts_upsertChannel]
  refine @Track.told _ _ _ h _ _ name hds _ _ (by simp [next, hout, hname])
    ((h.entries.upsert hname hlower hout).marked _ _) (fun k hne => ?_) fun hm => ?_
  · rw [hj, hp]
    simp [Reply.asks, hne, hne.symm]
  · rw [hj, hp]
    simp only [Reply.asks, if_true, Option.toList_some, List.singleton_append] at hm
    simpa using hm.joined hk

/-- What takes us off a channel is read: the echo of a PART, a 442, a KICK. -/
theorem Track.off {s : Net} (h : Track fold lower s) {r : Reply} {ds : List Reply} {name : Str}
    (hds : s.downstream = r :: ds) (hlower : fold (lower name) = fold name)
    (hnext : next fold s.told r = some (s.told.erase (fold name)))
    (hasks : ∀ k, k ≠ fold name → r.asks fold k = none)
    (hmarks : ∀ {here joining parting : Prop},
      Marks here joining parting
        ((r.asks fold (fold name)).toList ++ unanswered fold ds s.upstream (fold name)) →
      Marks False joining False (unanswered fold ds s.upstream (fold name))) :
    Track fold lower
      { s with
        client := s.client.deleteChannel fold (lower name)
        told := s.told.erase (fold name)
        downstream := ds } := by
  have hj := @pendingJoins_deleteChannel fold s.client (lower name)
  have hp := @pendingParts_deleteChannel fold s.client (lower name)
  rw [hlower] at hp
  refine @Track.told _ _ _ h _ _ name hds _ _ hnext (h.entries.delete hlower) (fun k hne => ?_) fun hm => ?_
  · rw [hj, hp]
    simp [hasks k hne, hne]
  · rw [hj, hp]
    simpa using hmarks hm

theorem Track.refused {s : Net} (h : Track fold lower s) {ds : List Reply} {r : Refusal}
    {name : Str} (hds : s.downstream = .refused r name :: ds)
    (hlower : fold (lower name) = fold name) (hout : fold name ∉ s.told)
    (ht : Reply.Timely (unanswered fold ds s.upstream (fold name)) (.refused r name)) :
    Track fold lower
      { s with client := read fold lower s.client (.refused r name), downstream := ds } := by
  have hnext : next fold s.told (.refused r name) = some s.told := by simp [next, hout]
  have hasks : ∀ k, k ≠ fold name → Reply.asks fold k (.refused r name) = none :=
    fun k hne => by simp [Reply.asks, hne.symm]
  have hfirst : Reply.asks fold (fold name) (.refused r name) = some true := by
    simp [Reply.asks]
  by_cases hr : r = .forwarded
  · subst hr
    obtain ⟨hlast, hkeep⟩ : _ ∧ _ := ht
    have hj := @pendingJoins_deleteChannel fold (s.client.onRejection fold name) (lower name)
    have hp := @pendingParts_deleteChannel fold (s.client.onRejection fold name) (lower name)
    rw [hlower] at hp
    have hentries : Entries fold lower s.told
        ((s.client.onRejection fold name).deleteChannel fold (lower name)) := by
      have hdel := (h.entries.marked (s.client.pendingJoins.erase (fold name))
        s.client.pendingParts).delete hlower
      rwa [Finset.erase_eq_of_notMem hout] at hdel
    have hread : read fold lower s.client (.refused .forwarded name)
        = (s.client.onRejection fold name).deleteChannel fold (lower name) := rfl
    rw [hread]
    refine @Track.told _ _ _ h _ _ name hds _ _ hnext hentries (fun k hne => ?_) fun hm => ?_
    · rw [hj, hp]
      simp [hasks k hne, hne, Membership.onRejection]
    · rw [hfirst, Option.toList_some, List.singleton_append] at hm
      rw [hj, hp]
      simp only [Membership.onRejection, Finset.mem_erase, ne_eq, not_true_eq_false, false_and]
      exact hm.refused hout hlast (.inr ⟨Iff.rfl, hkeep⟩)
  · have hread : read fold lower s.client (.refused r name) = s.client.onRejection fold name := by
      cases r <;> first | rfl | exact absurd rfl hr
    have hlast : (unanswered fold ds s.upstream (fold name)).getLast? ≠ some true := by
      cases r <;> first | exact ht | exact absurd rfl hr
    rw [hread]
    refine @Track.told _ _ _ h _ _ name hds _ _ hnext (h.entries.marked _ _) (fun k hne => ?_) fun hm => ?_
    · simp [hasks k hne, hne, Membership.onRejection]
    · rw [hfirst, Option.toList_some, List.singleton_append] at hm
      simp only [Membership.onRejection, Finset.mem_erase, ne_eq, not_true_eq_false, false_and]
      exact hm.refused hout hlast (.inl Iff.rfl)

/-- A reply that takes no later command's mark is read. -/
theorem Track.delivered {s : Net} (h : Track fold lower s) {r : Reply} {ds : List Reply}
    (hds : s.downstream = r :: ds)
    (hmeets : ∀ name ∈ r.name?, fold (lower name) = fold name ∧
      r.Timely (unanswered fold ds s.upstream (fold name))) :
    Track fold lower
      { s with
        client := read fold lower s.client r, told := tell fold s.told r, downstream := ds } := by
  obtain ⟨told, hnext⟩ : ∃ told, next fold s.told r = some told := by
    have hr := h.replay
    rw [hds, List.foldlM_cons] at hr
    cases hn : next fold s.told r with
    | none => simp [hn] at hr
    | some told => exact ⟨told, rfl⟩
  have htold := tell_of_next hnext
  cases r with
  | joined name =>
    obtain ⟨hlower, ht⟩ := hmeets name rfl
    simp only [next, Option.ite_none_right_eq_some] at hnext
    exact h.joined hds hlower ht hnext.1.1 hnext.1.2
  | refused r name =>
    obtain ⟨hlower, ht⟩ := hmeets name rfl
    simp only [next, Option.ite_none_right_eq_some] at hnext
    exact h.refused hds hlower hnext.1 ht
  | silent name =>
    have hin : fold name ∈ s.told := by
      simp only [next, Option.ite_none_right_eq_some] at hnext
      exact hnext.1
    refine h.skipped hds (by simp [next, hin]) fun k b hb => ?_
    simp only [Reply.asks, Option.ite_none_right_eq_some, Option.some.injEq] at hb
    obtain ⟨rfl, rfl⟩ := hb
    simp [hin]
  | parted name =>
    obtain ⟨hlower, ht⟩ := hmeets name rfl
    simp only [next, Option.ite_none_right_eq_some] at hnext
    refine h.off hds hlower (by simp [next, hnext.1]) (fun k hne => by simp [Reply.asks, hne.symm])
      fun {here joining parting} hm => ?_
    simp only [Reply.asks, if_true, Option.toList_some, List.singleton_append] at hm
    exact hm.parted ht
  | notOn name =>
    obtain ⟨hlower, ht⟩ := hmeets name rfl
    simp only [next, Option.ite_none_right_eq_some] at hnext
    have herase := Finset.erase_eq_of_notMem hnext.1
    have hoff := h.off hds hlower (by simp [next, hnext.1])
      (fun k hne => by simp [Reply.asks, hne.symm]) fun {here joining parting} hm => by
        simp only [Reply.asks, if_true, Option.toList_some, List.singleton_append] at hm
        exact hm.parted ht
    rw [herase] at hoff
    exact hoff
  | swept =>
    have hempty : s.told = ∅ := by
      simp only [next, Option.ite_none_right_eq_some] at hnext
      exact hnext.1
    refine h.skipped hds (by simp [next, hempty]) fun k b hb => ?_
    simp only [Reply.asks, Option.some.injEq] at hb
    simp [← hb, hempty]
  | kicked name =>
    obtain ⟨hlower, hkeep, hlast⟩ := hmeets name rfl
    simp only [next, Option.ite_none_right_eq_some] at hnext
    refine h.off hds hlower (by simp [next, hnext.1]) (fun k _ => rfl)
      fun {here joining parting} hm => ?_
    exact hm.kicked hkeep hlast

theorem Track.step {s : Net} (h : Track fold lower s) (e : Event) (hmeets : Meets fold lower s e) :
    Track fold lower (step fold lower s e) := by
  cases e with
  | join param =>
    have hn := h.notes (joinCommands param)
    rw [← noteJoinSent_eq s.client param hmeets] at hn
    exact hn
  | part param =>
    have hn := h.notes (partCommands param)
    rw [← notePartSent_eq s.client param] at hn
    exact hn
  | raw line =>
    have hn := h.notes (notedCommands line)
    rw [← noteRawMembership_eq s.client line] at hn
    rw [show notedCommands line = serverCommands line from hmeets] at hn
    exact hn
  | probe => exact ⟨h.entries.probed, h.replay, h.marks⟩
  | taken refusal spellings =>
    simp only [Net.step]
    split
    case h_1 => exact h
    case h_2 us hus =>
      split_ifs with hs
      · exact h.sweeps hus hs
      · exact h
    case h_3 name us hus =>
      split_ifs with hs
      · exact h.answer hus (by simp) refusal (.inl rfl) hs.1 hs.2
      · exact h
    case h_4 name us hus =>
      split_ifs with hs
      · exact h.answer hus (by simp) refusal (.inr rfl) hs.1 hs.2
      · exact h
  | kick name =>
    simp only [Net.step]
    split_ifs with hin
    · exact h.kick hin.1
    · exact h
  | delivered =>
    simp only [Net.step, Meets] at hmeets ⊢
    split
    case h_1 => exact h
    case h_2 r ds hds =>
      simp only [hds] at hmeets
      exact h.delivered hds hmeets
  | lost => exact h.lost

theorem foldl_outcome {α : Type*} (asks : α → Option Bool) (l : List α) (here : Bool) :
    l.foldl (fun b a => (asks a).getD b) here = (l.filterMap asks).getLast?.getD here := by
  induction l using List.reverseRecOn with
  | nil => rfl
  | append_singleton l a ih =>
    rw [List.foldl_append, ih, List.filterMap_append]
    cases h : asks a <;> simp [h]

/-- The last of the commands still unanswered decides where we will be. -/
theorem expected_eq (s : Net) (name : Str) : s.expected fold name =
    (unanswered fold s.downstream s.upstream (fold name)).getLast?.getD
      (decide (fold name ∈ s.told)) := by
  have hr : Reply.outcome fold (fold name)
      = fun b r => (Reply.asks fold (fold name) r).getD b := by
    funext b r
    cases r <;> simp only [Reply.outcome, Reply.asks] <;> (try split_ifs) <;> rfl
  have hc : Command.outcome fold (fold name)
      = fun b c => (Command.asks fold (fold name) c).getD b := by
    funext b c
    cases c <;> simp only [Command.outcome, Command.asks] <;> (try split_ifs) <;> rfl
  unfold expected unanswered
  rw [hr, hc, foldl_outcome, foldl_outcome, List.getLast?_append]
  cases (s.upstream.filterMap (Command.asks fold (fold name))).getLast? <;> rfl

theorem Track.knows {s : Net} (h : Track fold lower s) : Knows fold s where
  willBe name := by
    rw [expected_eq, Bool.eq_iff_iff, ← (h.marks (fold name)).decides_bool]
    unfold Membership.mayBeJoined
    rw [h.entries.isChannelJoined]
    split_ifs with hp <;> simp [hp]
  isIn hq name := by
    have hr := h.replay
    rw [hq.2] at hr
    rw [h.entries.isChannelJoined, h.entries.channelState, Option.some.inj hr]
    exact ⟨rfl, rfl⟩
  apart key key' ch ch' hg hg' := by
    constructor
    · exact h.entries.apart key key' ch ch' hg hg'
    · rintro rfl
      rw [Option.some.inj (hg.symm.trans hg')]

/-- Along every run in which no answer takes a later command's mark, Lurker knows which channels
it will be in, and when nothing is under way which it is in. -/
theorem membership_known (lower : Str → Str) (mapping : Option Casemapping) (es : List Event)
    (hrun : Run.Within (step (foldTargetWith lower mapping) lower)
      (Meets (foldTargetWith lower mapping) lower) start es) :
    Knows (foldTargetWith lower mapping)
      (Run.after (step (foldTargetWith lower mapping) lower) start es) :=
  (Run.invariant_within _ track_start (fun _ e h he => h.step e he) es hrun).knows

instance (later : List Bool) (r : Reply) : Decidable (r.Timely later) := by
  unfold Reply.Timely
  split <;> infer_instance

instance (s : Net) (e : Event) : Decidable (Meets fold lower s e) := by
  unfold Meets
  split
  · infer_instance
  · infer_instance
  · split <;> infer_instance
  · infer_instance

theorem membership_known_rejoin : Knows (foldTargetWith (List.map Char.toLower) (some .rfc1459))
    (Run.after (step (foldTargetWith (List.map Char.toLower) (some .rfc1459))
      (List.map Char.toLower)) start
      [.raw "@label=1 join #A[,#b".toList, .taken none ["#a[".toList], .delivered,
        .taken (some .banned) [], .part "#a\x7b".toList, .delivered, .join "#a[".toList,
        .taken none [], .kick "#b".toList, .taken none [], .delivered, .delivered,
        .raw "JOIN 0".toList, .taken none ["#A[".toList], .delivered, .delivered, .lost]) :=
  membership_known (List.map Char.toLower) (some .rfc1459) _ (by decide +kernel)

/-- A JOIN's echo takes the mark of a later JOIN; a KICK crosses a JOIN of a channel we were in; a
trailing parameter is noted with its colon; two channels share one lowercased key. -/
theorem rejoin_forgotten :
    ¬Knows (foldTargetWith (List.map Char.toLower) (some .ascii))
      (Run.after (step (foldTargetWith (List.map Char.toLower) (some .ascii))
        (List.map Char.toLower)) start
        [.join "#a".toList, .part "#a".toList, .join "#a".toList, .taken none [], .delivered,
          .taken none [], .delivered]) ∧
    ¬Knows (foldTargetWith (List.map Char.toLower) (some .ascii))
      (Run.after (step (foldTargetWith (List.map Char.toLower) (some .ascii))
        (List.map Char.toLower)) start
        [.join "#a".toList, .taken none [], .delivered, .kick "#a".toList, .join "#a".toList,
          .delivered]) ∧
    ¬Knows (foldTargetWith (List.map Char.toLower) (some .ascii))
      (Run.after (step (foldTargetWith (List.map Char.toLower) (some .ascii))
        (List.map Char.toLower)) start [.raw "JOIN :#a".toList]) ∧
    ¬Knows (foldTargetWith (List.map fun c => if c = 'Ä' then 'ä' else c) (some .ascii))
      (Run.after (step (foldTargetWith (List.map fun c => if c = 'Ä' then 'ä' else c) (some .ascii))
        (List.map fun c => if c = 'Ä' then 'ä' else c)) start
        [.join "#Ä,#ä".toList, .taken none [], .taken none [], .delivered, .delivered]) := by
  refine ⟨fun h => ?_, fun h => ?_, fun h => ?_, fun h => ?_⟩
  · exact absurd (h.willBe "#a".toList) (by decide +kernel)
  · exact absurd (h.willBe "#a".toList) (by decide +kernel)
  · exact absurd (h.willBe "#a".toList) (by decide +kernel)
  · exact absurd (h.willBe "#ä".toList) (by decide +kernel)

end Net
end Lurker.Irc
