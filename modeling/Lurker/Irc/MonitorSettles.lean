import Lurker.Irc.MonitorNetwork

/-!
# The list converges

At any time the list differs from the network's by the nicks that refusals still to
be noted name. Noting the one refusal of a sync leaves the list as the network's,
capped at what the network holds.
-/

namespace Lurker.Irc

variable {η : Type} [DecidableEq η]

namespace Monitored

variable {K : Nat} {fold : Str → Str}

variable (fold) in
/-- The keys a 734 names. -/
def keysIn (refused : Str) : List Str := (pieces ',' refused).map fold

/-- A listed nick as sent, and its slot. -/
def known (m : MonitorList η) (key : Str) : Option (Str × Nat) :=
  (m.listed.get? key).map fun e => (e.nick, e.slot)

variable (K fold) in
/-- A refusal that names a listed nick: the network is full, the first nick it names took
the slot after the last one held, and it names every listed nick that is not held. -/
structure Live (m : MonitorList η) (held : List Str) (refused : Str) : Prop where
  first : ∃ nick rest, pieces ',' refused = nick :: rest ∧
    (∃ sent, known m (fold nick) = some (sent, K)) ∧
    ∀ r ∈ rest, ∀ sent slot, known m (fold r) = some (sent, slot) → K ≤ slot
  names : ∀ key, (known m key).isSome = true → key ∉ held → key ∈ keysIn fold refused
  full : held.length = K

variable (K fold) in
/-- The list and the network agree but for the nicks that refusals still to be noted name. -/
structure Sound (m : MonitorList η) (net : List Str × List Str) : Prop where
  nicks : ∀ key nick slot, known m key = some (nick, slot) → fold nick = key ∧ Single nick
  nodup : net.1.Nodup
  fits : net.1.length ≤ K
  holds : ∀ key ∈ net.1, (known m key).isSome = true
  named : ∀ key, (known m key).isSome = true → key ∉ net.1 → ∃ a ∈ net.2, key ∈ keysIn fold a
  apart : ∀ a ∈ net.2, ∀ key ∈ keysIn fold a, key ∉ net.1
  cap : m.cap = none ∨ m.cap = some K
  live : ∀ a ∈ net.2, ∀ key ∈ keysIn fold a, (known m key).isSome = true → Live K fold m net.1 a

/-- Every listed nick is wanted, and every wanted nick is listed or there is no room for it. -/
structure Settling (wanted : List Str) (limit : Limit) (m : MonitorList η) : Prop where
  listed : ∀ key, (known m key).isSome = true → key ∈ wanted
  room : (∀ key ∈ wanted, (known m key).isSome = true) ∨
    (limit.min m.cap).reached m.listed.size = true

section Invariant

omit [DecidableEq η]

theorem known_isSome {m : MonitorList η} {key : Str} :
    (known m key).isSome = m.listed.has key := by
  simp [known, OrderedMap.has]

theorem Limit.reached_min {a b : Limit} {n : Nat} :
    (a.min b).reached n = true ↔ a.reached n = true ∨ b.reached n = true := by
  cases a with
  | none => cases b <;> simp [Limit.min, Limit.reached]
  | some a =>
    cases b with
    | none => simp [Limit.min, Limit.reached]
    | some b =>
      simp only [Limit.min, Limit.reached, Option.any_some, decide_eq_true_eq]
      change min a b ≤ n ↔ _
      omega

/-- Two lists that know the same nicks are as sound. -/
theorem Sound.congr {m m' : MonitorList η} {net : List Str × List Str} (h : Sound K fold m net)
    (hknown : ∀ key, known m' key = known m key) (hcap : m'.cap = m.cap) : Sound K fold m' net where
  nicks key := hknown key ▸ h.nicks key
  nodup := h.nodup
  fits := h.fits
  holds key := hknown key ▸ h.holds key
  named key := hknown key ▸ h.named key
  apart := h.apart
  cap := hcap ▸ h.cap
  live a ha key hkey hsome := by
    obtain ⟨⟨nick, rest, hpieces, hfirst, hrest⟩, hnames, hfull⟩ :=
      h.live a ha key hkey (hknown key ▸ hsome)
    refine ⟨⟨nick, rest, hpieces, hknown _ ▸ hfirst, fun r => hknown _ ▸ hrest r⟩, ?_, hfull⟩
    exact fun key => hknown key ▸ hnames key

theorem Settling.congr {wanted : List Str} {limit : Limit} {m m' : MonitorList η}
    (h : Settling wanted limit m) (hknown : ∀ key, known m' key = known m key)
    (hcap : m'.cap = m.cap) (hsize : m'.listed.size = m.listed.size) : Settling wanted limit m' where
  listed key := hknown key ▸ h.listed key
  room := by
    rw [hcap, hsize]
    exact h.room.imp_left fun hall key hkey => hknown key ▸ hall key hkey

theorem sound_start : Sound K fold (MonitorList.start : MonitorList η) ([], []) where
  nicks _ _ _ h := by cases h
  nodup := List.nodup_nil
  fits := Nat.zero_le _
  holds _ h := absurd h List.not_mem_nil
  named _ h := by cases h
  apart _ h := absurd h List.not_mem_nil
  cap := .inl rfl
  live _ h := absurd h List.not_mem_nil

/-- Without a refusal under way the list is the network's. -/
theorem Sound.agrees {m : MonitorList η} {held : List Str} (h : Sound K fold m (held, []))
    (key : Str) : m.listed.has key = true ↔ key ∈ held := by
  constructor
  · intro hkey
    by_contra hheld
    obtain ⟨a, ha, -⟩ := h.named key (known_isSome.trans hkey) hheld
    cases ha
  · intro hheld
    exact known_isSome.symm.trans (h.holds key hheld)

theorem known_noteRefused (m : MonitorList η) (refused : Str) (key : Str) :
    known (m.noteRefused fold (pieces ',' refused)) key =
      if key ∈ keysIn fold refused then none else known m key := by
  unfold known
  rw [MonitorList.noteRefused_listed, OrderedMap.get?_filterKeys]
  unfold keysIn
  by_cases h : key ∈ (pieces ',' refused).map fold <;> simp [h]

theorem size_eq_held {m : MonitorList η} {held : List Str} (hnodup : held.Nodup)
    (h : ∀ key, (known m key).isSome = true ↔ key ∈ held) : m.listed.size = held.length := by
  rw [OrderedMap.size_eq_keys]
  refine ((List.perm_ext_iff_of_nodup m.listed.nodup hnodup).mpr fun key => ?_).length_eq
  rw [← h key, known_isSome, OrderedMap.has_iff]
  rfl

/-- A refusal that names no listed nick leaves the list, and one that does leaves it as the
network's, capped at what the network holds. -/
theorem sound_noted {m : MonitorList η} {held answers : List Str} {refused : Str}
    (h : Sound K fold m (held, refused :: answers)) :
    Sound K fold (m.noteRefused fold (pieces ',' refused)) (held, answers) ∧
      (m.noteRefused fold (pieces ',' refused) = m ∨
        ((m.noteRefused fold (pieces ',' refused)).cap = some K ∧
          (m.noteRefused fold (pieces ',' refused)).listed.size = K)) := by
  by_cases hlive : ∃ key ∈ keysIn fold refused, (known m key).isSome = true
  · obtain ⟨key, hkey, hsome⟩ := hlive
    obtain ⟨⟨nick, rest, hpieces, ⟨sent, hfirst⟩, hrest⟩, hnames, hfull⟩ :=
      h.live refused List.mem_cons_self key hkey hsome
    have hknown (key : Str) : known (m.noteRefused fold (pieces ',' refused)) key =
        if key ∈ keysIn fold refused then none else known m key :=
      known_noteRefused m refused key
    have hsome (key : Str) :
        (known (m.noteRefused fold (pieces ',' refused)) key).isSome = true ↔ key ∈ held := by
      rw [hknown]
      constructor
      · intro hk
        split at hk
        · cases hk
        · rename_i hout
          by_contra hheld
          exact hout (hnames key hk hheld)
      · intro hheld
        rw [if_neg fun hin => h.apart refused List.mem_cons_self key hin hheld]
        exact h.holds key hheld
    have hcap : (m.noteRefused fold (pieces ',' refused)).cap = some K := by
      obtain ⟨entry, hentry, heq⟩ := Option.map_eq_some_iff.mp hfirst
      obtain ⟨rfl, rfl⟩ := Prod.mk.inj heq
      rw [hpieces]
      refine MonitorList.noteRefused_cap hentry fun r hr e he => ?_
      exact hrest r hr e.nick e.slot (by rw [known, he]; rfl)
    refine ⟨⟨?_, h.nodup, h.fits, fun key => (hsome key).mpr, ?_, ?_, .inr hcap, ?_⟩, .inr ⟨hcap, ?_⟩⟩
    · intro key nick slot hk
      rw [hknown] at hk
      split at hk
      · cases hk
      · exact h.nicks key nick slot hk
    · exact fun key hk hheld => absurd ((hsome key).mp hk) hheld
    · exact fun a ha => h.apart a (List.mem_cons_of_mem _ ha)
    · intro a ha key hkey hk
      exact absurd ((hsome key).mp hk) (h.apart a (List.mem_cons_of_mem _ ha) key hkey)
    · rw [size_eq_held h.nodup hsome]
      exact hfull
  · have hvoid : m.noteRefused fold (pieces ',' refused) = m := by
      refine MonitorList.noteRefused_void fun nick hnick => ?_
      by_contra hget
      apply hlive
      refine ⟨fold nick, List.mem_map_of_mem hnick, ?_⟩
      rw [known, Option.isSome_map]
      exact Option.isSome_iff_ne_none.mpr hget
    rw [hvoid]
    refine ⟨⟨h.nicks, h.nodup, h.fits, h.holds, ?_, ?_, h.cap, ?_⟩, .inl rfl⟩
    · intro key hk hheld
      obtain ⟨a, ha, hkey⟩ := h.named key hk hheld
      rcases List.mem_cons.mp ha with rfl | ha
      · exact absurd ⟨key, hkey, hk⟩ hlive
      · exact ⟨a, ha, hkey⟩
    · exact fun a ha => h.apart a (List.mem_cons_of_mem _ ha)
    · exact fun a ha => h.live a (List.mem_cons_of_mem _ ha)

end Invariant

section Sync

variable {m : MonitorList η} {own : List Nick} {targets : η → List Nick}
  {limit : Limit}

theorem texts_noComma (nicks : List Nick) : ∀ nick ∈ texts nicks, ',' ∉ nick := by
  intro nick hnick
  obtain ⟨n, -, rfl⟩ := List.mem_map.mp hnick
  exact n.noComma

variable (fold own targets) in
/-- What a sync of nicks wants. -/
def wantedBy (m : MonitorList η) : MonitorList.Wanted η :=
  MonitorList.wantedOf fold (texts own) m.holders fun holder => texts (targets holder)

variable (fold own targets) in
def kept (m : MonitorList η) : OrderedMap Str Listed :=
  MonitorList.keptOf fold (texts own) (fun holder => texts (targets holder)) m

variable (fold own targets limit) in
def offering (m : MonitorList η) : List (Str × Str) :=
  MonitorList.offeredOf fold (texts own) (fun holder => texts (targets holder)) limit m

variable (fold own targets limit) in
def synced (m : MonitorList η) : MonitorList.Synced η :=
  m.sync fold (texts own) (fun holder => texts (targets holder)) limit

omit [DecidableEq η] in
theorem mem_kept {key : Str} : key ∈ (kept fold own targets m).keys ↔
    key ∈ m.listed.keys ∧ key ∈ wantedKeys fold m.holders own targets := by
  rw [kept, MonitorList.keptOf, OrderedMap.keys_filterKeys, List.mem_filter, OrderedMap.has_iff]
  rfl

omit [DecidableEq η] in
theorem mem_fresh {w : MonitorList.Wanted η} {listed : OrderedMap Str Listed} {e : Str × Str} :
    e ∈ MonitorList.fresh listed w.wanted.entries ↔
      w.wanted.get? e.1 = some e.2 ∧ e.1 ∉ listed.keys := by
  rw [MonitorList.fresh, List.mem_filter, OrderedMap.get?_eq_some]
  have : (!listed.has e.1) = true ↔ e.1 ∉ listed.keys := by
    rw [← OrderedMap.has_iff, Bool.not_eq_true', Bool.eq_false_iff]
  rw [this]

theorem fit_sublist {α : Type} (limit : Limit) (size : Nat) (xs : List α) :
    (limit.fit size xs).Sublist xs := by
  cases limit with
  | none => exact List.Sublist.refl _
  | some n => exact List.take_sublist _ _

/-- Either everything fits, or what fits fills the list. -/
theorem fit_full {α : Type} (limit : Limit) (size : Nat) (xs : List α) :
    limit.fit size xs = xs ∨ limit.reached (size + (limit.fit size xs).length) = true := by
  cases limit with
  | none => exact .inl rfl
  | some n =>
    by_cases hlen : xs.length ≤ n - size
    · exact .inl (List.take_of_length_le hlen)
    · right
      simp only [Limit.fit, Limit.reached, Option.any_some, List.length_take, decide_eq_true_eq]
      omega

omit [DecidableEq η] in
theorem offering_nicks {e : Str × Str} (he : e ∈ offering fold own targets limit m) :
    fold e.2 = e.1 ∧ Single e.2 ∧ e.1 ∈ wantedKeys fold m.holders own targets ∧
      e.1 ∉ (kept fold own targets m).keys := by
  obtain ⟨hget, hnew⟩ := mem_fresh.mp ((fit_sublist _ _ _).subset he)
  obtain ⟨hfold, hsingle⟩ := MonitorList.wantedOf_nicks (texts_noComma own)
    (fun holder => texts_noComma (targets holder)) e.1 e.2 hget
  exact ⟨hfold, hsingle, List.mem_map_of_mem (OrderedMap.get?_eq_some.mp hget), hnew⟩

omit [DecidableEq η] in
theorem offering_nodup : ((offering fold own targets limit m).map Prod.fst).Nodup := by
  refine List.Nodup.sublist (((fit_sublist _ _ _).trans List.filter_sublist).map _) ?_
  exact (wantedBy fold own targets m).wanted.nodup

omit [DecidableEq η] in
theorem offering_fold : (offering fold own targets limit m).map (fun e => fold e.2) =
    (offering fold own targets limit m).map Prod.fst :=
  List.map_congr_left fun _ he => (offering_nicks he).1

/-- The entries placed after some others take the slots after theirs. -/
theorem mem_place {es : List (Str × Str)} {slot : Nat} {key : Str} {v : Listed} :
    (key, v) ∈ MonitorList.place slot es ↔
      ∃ i nick, es[i]? = some (key, nick) ∧ v = ⟨nick, none, slot + i⟩ := by
  induction es generalizing slot with
  | nil => simp [MonitorList.place]
  | cons e es ih =>
    rw [MonitorList.place, List.mem_cons, ih]
    constructor
    · rintro (h | ⟨i, nick, hi, rfl⟩)
      · obtain ⟨rfl, rfl⟩ := Prod.mk.inj h
        exact ⟨0, e.2, rfl, rfl⟩
      · exact ⟨i + 1, nick, hi, by rw [Nat.add_comm i 1, Nat.add_assoc]⟩
    · rintro ⟨i, nick, hi, rfl⟩
      cases i with
      | zero =>
        obtain rfl := Option.some.inj hi
        exact .inl rfl
      | succ i => exact .inr ⟨i, nick, hi, by rw [Nat.add_comm i 1, Nat.add_assoc]⟩

/-- What a sync leaves known: the nicks kept as they were, and the nicks offered, each in
the slot it was placed in. -/
theorem known_synced {key nick : Str} {slot : Nat} :
    known (synced fold own targets limit m).list key = some (nick, slot) ↔
      (key ∈ wantedKeys fold m.holders own targets ∧ known m key = some (nick, slot)) ∨
        ∃ i, (offering fold own targets limit m)[i]? = some (key, nick) ∧
          slot = (kept fold own targets m).size + i := by
  have hget : (∃ v : Listed, (synced fold own targets limit m).list.listed.get? key = some v ∧
      v.nick = nick ∧ v.slot = slot) ↔
      known (synced fold own targets limit m).list key = some (nick, slot) := by
    rw [known, Option.map_eq_some_iff]
    simp only [Prod.mk.injEq]
  rw [← hget]
  simp only [OrderedMap.get?_eq_some, synced, MonitorList.sync_eq.1, List.mem_append]
  constructor
  · rintro ⟨v, h | h, rfl, rfl⟩
    · left
      have hkept : (kept fold own targets m).get? key = some v := OrderedMap.get?_eq_some.mpr h
      have hmem : key ∈ (kept fold own targets m).keys := List.mem_map_of_mem h
      refine ⟨(mem_kept.mp hmem).2, ?_⟩
      have hlisted : m.listed.get? key = some v := by
        rw [kept, MonitorList.keptOf, OrderedMap.get?_filterKeys] at hkept
        split at hkept
        · exact hkept
        · cases hkept
      rw [known, hlisted]
      rfl
    · right
      obtain ⟨i, n, hi, rfl⟩ := mem_place.mp h
      exact ⟨i, hi, rfl⟩
  · rintro (⟨hwanted, hknown⟩ | ⟨i, hi, rfl⟩)
    · obtain ⟨v, hv, heq⟩ := Option.map_eq_some_iff.mp hknown
      obtain ⟨rfl, rfl⟩ := Prod.mk.inj heq
      refine ⟨v, .inl (OrderedMap.get?_eq_some.mp ?_), rfl, rfl⟩
      have hhas : (wantedBy fold own targets m).wanted.has key = true :=
        OrderedMap.has_iff.mpr hwanted
      have hget := OrderedMap.get?_filterKeys m.listed (wantedBy fold own targets m).wanted.has key
      rw [if_pos hhas, hv] at hget
      exact hget
    · exact ⟨_, .inr (mem_place.mpr ⟨i, nick, hi, rfl⟩), rfl, rfl⟩

theorem isSome_synced {key : Str} :
    (known (synced fold own targets limit m).list key).isSome = true ↔
      (key ∈ wantedKeys fold m.holders own targets ∧ (known m key).isSome = true) ∨
        key ∈ (offering fold own targets limit m).map Prod.fst := by
  rw [Option.isSome_iff_exists]
  constructor
  · rintro ⟨⟨nick, slot⟩, h⟩
    rcases known_synced.mp h with ⟨hwanted, hknown⟩ | ⟨i, hi, -⟩
    · exact .inl ⟨hwanted, by rw [hknown]; rfl⟩
    · exact .inr (List.mem_map_of_mem (List.mem_of_getElem? hi))
  · rintro (⟨hwanted, hknown⟩ | hoffered)
    · obtain ⟨⟨nick, slot⟩, hknown⟩ := Option.isSome_iff_exists.mp hknown
      exact ⟨_, known_synced.mpr (.inl ⟨hwanted, hknown⟩)⟩
    · obtain ⟨e, he, rfl⟩ := List.mem_map.mp hoffered
      obtain ⟨i, hi⟩ := List.mem_iff_getElem?.mp he
      exact ⟨_, known_synced.mpr (.inr ⟨i, hi, rfl⟩)⟩

/-- After a sync the listed nicks are wanted, and those that are not found no room. -/
theorem settling_synced :
    Settling (wantedKeys fold m.holders own targets) limit (synced fold own targets limit m).list where
  listed key h := by
    rcases isSome_synced.mp h with ⟨hwanted, -⟩ | hoffered
    · exact hwanted
    · obtain ⟨e, he, rfl⟩ := List.mem_map.mp hoffered
      exact (offering_nicks he).2.2.1
  room := by
    have hsize : (synced fold own targets limit m).list.listed.size =
        (kept fold own targets m).size + (offering fold own targets limit m).length := by
      have hplace : ∀ slot (es : List (Str × Str)), (MonitorList.place slot es).length = es.length := by
        intro slot es
        induction es generalizing slot with
        | nil => rfl
        | cons e es ih => simp [MonitorList.place, ih]
      rw [OrderedMap.size, synced, MonitorList.sync_eq.1, List.length_append, hplace]
      rfl
    have hcap : (synced fold own targets limit m).list.cap = m.cap := MonitorList.sync_eq.2.1
    rw [hsize, hcap]
    refine (fit_full _ _ _).imp (fun hall key hkey => ?_) id
    rw [isSome_synced]
    by_cases hlisted : key ∈ m.listed.keys
    · exact .inl ⟨hkey, known_isSome.trans (OrderedMap.has_iff.mpr hlisted)⟩
    · right
      obtain ⟨e, he, rfl⟩ := List.mem_map.mp hkey
      have hfresh : e ∈ MonitorList.fresh (kept fold own targets m)
          (wantedBy fold own targets m).wanted.entries :=
        mem_fresh.mpr ⟨OrderedMap.get?_eq_some.mpr he, fun h => hlisted (mem_kept.mp h).1⟩
      have hmem : e ∈ offering fold own targets limit m := (congrArg (e ∈ ·) hall).mpr hfresh
      exact List.mem_map_of_mem hmem

/-- An idle sync sends nothing and keeps what is listed. -/
theorem synced_idle (h : Idle fold m own targets limit) :
    (synced fold own targets limit m).lines = [] ∧
      ∀ key, known (synced fold own targets limit m).list key = known m key := by
  obtain ⟨hwanted, hroom⟩ := h
  have hkept : (kept fold own targets m).entries = m.listed.entries := by
    refine List.filter_eq_self.mpr fun e he => ?_
    exact OrderedMap.has_iff.mpr (hwanted e.1 (OrderedMap.has_iff.mpr (List.mem_map_of_mem he)))
  have hkept : kept fold own targets m = m.listed := OrderedMap.ext_entries hkept
  have hremoved : MonitorList.removedOf fold (texts own) (fun holder => texts (targets holder)) m =
      [] := by
    unfold MonitorList.removedOf
    rw [List.filter_eq_nil_iff.mpr]
    · rfl
    · intro e he
      have := OrderedMap.has_iff.mpr
        (hwanted e.1 (OrderedMap.has_iff.mpr (List.mem_map_of_mem he)))
      simp [this]
  have hoffering : offering fold own targets limit m = [] := by
    rcases hroom with hall | hfull
    · refine List.eq_nil_of_subset_nil fun e he => ?_
      obtain ⟨-, -, hwanted, hnew⟩ := offering_nicks he
      rw [hkept] at hnew
      exact absurd (OrderedMap.has_iff.mp (hall e.1 hwanted)) hnew
    · have hfull : (limit.min m.cap).reached (kept fold own targets m).size = true := by
        rw [hkept]
        exact hfull
      exact Limit.fit_reached hfull _
  constructor
  · have hlines : (synced fold own targets limit m).lines =
        (packTargets (MonitorList.removedOf fold (texts own) (fun holder => texts (targets holder)) m)
          maxTargetBytes).map .remove ++
        (packTargets ((offering fold own targets limit m).map Prod.snd) maxTargetBytes).map .add :=
      MonitorList.sync_eq.2.2.2
    rw [hremoved, hoffering] at hlines
    exact hlines
  · intro key
    apply Option.ext
    rintro ⟨nick, slot⟩
    rw [known_synced, hoffering]
    constructor
    · rintro (⟨-, h⟩ | ⟨i, hi, -⟩)
      · exact h
      · cases hi
    · intro h
      refine .inl ⟨hwanted key ?_, h⟩
      rw [← known_isSome, h]
      rfl

omit [DecidableEq η] in
/-- What the network holds once it has taken off what a sync takes off: the nicks kept. -/
theorem held_removed {held answers : List Str} (h : Sound K fold m (held, answers))
    (hclear : ∀ a ∈ answers, ∀ nick ∈ pieces ',' a,
      fold nick ∉ wantedKeys fold m.holders own targets) (key : Str) :
    key ∈ (held.filter fun key => key ∉ (MonitorList.removedOf fold (texts own)
        (fun holder => texts (targets holder)) m).map fold) ↔
      key ∈ (kept fold own targets m).keys := by
  have hentry {key : Str} {e : Listed} (he : (key, e) ∈ m.listed.entries) : fold e.nick = key :=
    (h.nicks key e.nick e.slot (by rw [known, OrderedMap.get?_eq_some.mpr he]; rfl)).1
  rw [List.mem_filter, mem_kept, decide_eq_true_eq]
  constructor
  · rintro ⟨hheld, hout⟩
    have hlisted : key ∈ m.listed.keys :=
      OrderedMap.has_iff.mp (known_isSome.symm.trans (h.holds key hheld))
    refine ⟨hlisted, ?_⟩
    by_contra hwanted
    apply hout
    obtain ⟨⟨key, e⟩, he, rfl⟩ := List.mem_map.mp hlisted
    refine List.mem_map.mpr ⟨e.nick, List.mem_map.mpr ⟨_, List.mem_filter.mpr ⟨he, ?_⟩, rfl⟩,
      hentry he⟩
    have : (wantedBy fold own targets m).wanted.has key ≠ true :=
      fun hhas => hwanted (OrderedMap.has_iff.mp hhas)
    exact Bool.not_eq_true' _ |>.mpr (Bool.eq_false_iff.mpr this)
  · rintro ⟨hlisted, hwanted⟩
    constructor
    · by_contra hheld
      obtain ⟨a, ha, hkey⟩ := h.named key (known_isSome.trans (OrderedMap.has_iff.mpr hlisted)) hheld
      obtain ⟨nick, hnick, rfl⟩ := List.mem_map.mp hkey
      exact hclear a ha nick hnick hwanted
    · intro hout
      obtain ⟨nick, hnick, hkey⟩ := List.mem_map.mp hout
      obtain ⟨⟨key', e⟩, he, rfl⟩ := List.mem_map.mp hnick
      obtain ⟨he, hunwanted⟩ := List.mem_filter.mp he
      obtain rfl : key' = key := (hentry he).symm.trans hkey
      have hhas : (wantedBy fold own targets m).wanted.has key' = true :=
        OrderedMap.has_iff.mpr hwanted
      have hnot : (wantedBy fold own targets m).wanted.has key' = false :=
        Bool.not_eq_true' _ |>.mp hunwanted
      rw [hhas] at hnot
      cases hnot

variable (fold own targets limit) in
/-- The offered nicks that the network has room for. -/
def taken (m : MonitorList η) (room : Nat) : List (Str × Str) :=
  (offering fold own targets limit m).take room

variable (fold own targets limit) in
/-- The offered nicks that it refuses. -/
def refused (m : MonitorList η) (room : Nat) : List (Str × Str) :=
  (offering fold own targets limit m).drop room

variable (fold own targets limit) in
/-- The one refusal of them, where there are any. -/
def refusal (m : MonitorList η) (room : Nat) : List Str :=
  if (refused fold own targets limit m room).map Prod.snd = [] then []
  else [[','].intercalate ((refused fold own targets limit m room).map Prod.snd)]

variable (K fold own targets) in
/-- What the network holds when the offered nicks reach it: the nicks kept. -/
structure HoldsKept (m : MonitorList η) (held : List Str) : Prop where
  nodup : held.Nodup
  size : held.length = (kept fold own targets m).size
  fits : held.length ≤ K
  mem : ∀ key, key ∈ held ↔ key ∈ (kept fold own targets m).keys

section Placed

variable {room : Nat} {key : Str}

omit [DecidableEq η] in
theorem taken_append_refused : (taken fold own targets limit m room).map Prod.fst ++
    (refused fold own targets limit m room).map Prod.fst =
      (offering fold own targets limit m).map Prod.fst := by
  rw [← List.map_append, taken, refused, List.take_append_drop]

omit [DecidableEq η] in
theorem mem_offering_keys : key ∈ (offering fold own targets limit m).map Prod.fst ↔
    key ∈ (taken fold own targets limit m room).map Prod.fst ∨
      key ∈ (refused fold own targets limit m room).map Prod.fst := by
  rw [← taken_append_refused, List.mem_append]

omit [DecidableEq η] in
theorem taken_nodup : ((taken fold own targets limit m room).map Prod.fst).Nodup := by
  have hnodup : ((offering fold own targets limit m).map Prod.fst).Nodup := offering_nodup
  rw [← taken_append_refused] at hnodup
  exact (List.nodup_append.mp hnodup).1

omit [DecidableEq η] in
theorem not_mem_taken (h : key ∈ (refused fold own targets limit m room).map Prod.fst) :
    key ∉ (taken fold own targets limit m room).map Prod.fst := by
  have hnodup : ((offering fold own targets limit m).map Prod.fst).Nodup := offering_nodup
  rw [← taken_append_refused] at hnodup
  exact fun htaken => (List.nodup_append.mp hnodup).2.2 key htaken key h rfl

omit [DecidableEq η] in
theorem refused_nicks {e : Str × Str} (he : e ∈ refused fold own targets limit m room) :
    fold e.2 = e.1 ∧ Single e.2 :=
  have hnicks := offering_nicks (List.mem_of_mem_drop he)
  ⟨hnicks.1, hnicks.2.1⟩

omit [DecidableEq η] in
theorem refused_single :
    ∀ nick ∈ (refused fold own targets limit m room).map Prod.snd, Single nick := by
  intro nick hnick
  obtain ⟨e, he, rfl⟩ := List.mem_map.mp hnick
  exact (refused_nicks he).2

omit [DecidableEq η] in
theorem refused_keys : ((refused fold own targets limit m room).map Prod.snd).map fold =
    (refused fold own targets limit m room).map Prod.fst := by
  rw [List.map_map]
  exact List.map_congr_left fun e he => (refused_nicks he).1

omit [DecidableEq η] in
theorem pieces_refusal {a : Str} (ha : a ∈ refusal fold own targets limit m room) :
    pieces ',' a = (refused fold own targets limit m room).map Prod.snd := by
  unfold refusal at ha
  split at ha
  · cases ha
  · rename_i hne
    rw [List.mem_singleton.mp ha]
    exact pieces_intercalate refused_single hne

omit [DecidableEq η] in
theorem keysIn_refusal {a : Str} (ha : a ∈ refusal fold own targets limit m room) :
    keysIn fold a = (refused fold own targets limit m room).map Prod.fst := by
  rw [keysIn, pieces_refusal ha, refused_keys]

omit [DecidableEq η] in
/-- A nick that is refused is in the refusal. -/
theorem exists_refusal (h : key ∈ (refused fold own targets limit m room).map Prod.fst) :
    ∃ a ∈ refusal fold own targets limit m room, key ∈ keysIn fold a := by
  have hne : (refused fold own targets limit m room).map Prod.snd ≠ [] := by
    intro hnil
    rw [List.map_eq_nil_iff.mp hnil] at h
    cases h
  have hmem : [','].intercalate ((refused fold own targets limit m room).map Prod.snd) ∈
      refusal fold own targets limit m room := by
    rw [refusal, if_neg hne]
    exact List.mem_singleton_self _
  exact ⟨_, hmem, keysIn_refusal hmem ▸ h⟩

namespace HoldsKept

variable {held : List Str}

omit [DecidableEq η] in
theorem offered (h : HoldsKept K fold own targets m held)
    (hkey : key ∈ (offering fold own targets limit m).map Prod.fst) :
    key ∈ wantedKeys fold m.holders own targets ∧ key ∉ held := by
  obtain ⟨e, he, rfl⟩ := List.mem_map.mp hkey
  obtain ⟨-, -, hwanted, hnew⟩ := offering_nicks he
  exact ⟨hwanted, fun hin => hnew ((h.mem e.1).mp hin)⟩

omit [DecidableEq η] in
theorem wanted (h : HoldsKept K fold own targets m held)
    (hkey : key ∈ held ++ (taken fold own targets limit m room).map Prod.fst) :
    key ∈ wantedKeys fold m.holders own targets := by
  rcases List.mem_append.mp hkey with hheld | htaken
  · exact (mem_kept.mp ((h.mem key).mp hheld)).2
  · exact (h.offered (mem_offering_keys.mpr (.inl htaken))).1

/-- The nicks listed are those held and those offered. -/
theorem isSome_iff (h : HoldsKept K fold own targets m held) :
    (known (synced fold own targets limit m).list key).isSome = true ↔
      key ∈ held ∨ key ∈ (offering fold own targets limit m).map Prod.fst := by
  rw [isSome_synced, h.mem, mem_kept, known_isSome, OrderedMap.has_iff]
  tauto

/-- What is listed and not held is refused. -/
theorem unheld (h : HoldsKept K fold own targets m held)
    (hkey : (known (synced fold own targets limit m).list key).isSome = true)
    (hheld : key ∉ held ++ (taken fold own targets limit m room).map Prod.fst) :
    key ∈ (refused fold own targets limit m room).map Prod.fst := by
  rw [List.mem_append, not_or] at hheld
  have hoffered := (h.isSome_iff.mp hkey).resolve_left hheld.1
  exact (mem_offering_keys.mp hoffered).resolve_left hheld.2

omit [DecidableEq η] in
theorem not_held (h : HoldsKept K fold own targets m held)
    (hkey : key ∈ (refused fold own targets limit m room).map Prod.fst) :
    key ∉ held ++ (taken fold own targets limit m room).map Prod.fst := by
  rw [List.mem_append, not_or]
  exact ⟨(h.offered (mem_offering_keys.mpr (.inr hkey))).2, not_mem_taken hkey⟩

/-- The nicks past the network's room have slots past what it holds. -/
theorem slot_ge (h : HoldsKept K fold own targets m held) {sent : Str} {slot : Nat}
    (hkey : key ∈ (refused fold own targets limit m (K - held.length)).map Prod.fst)
    (hknown : known (synced fold own targets limit m).list key = some (sent, slot)) :
    K ≤ slot := by
  rcases known_synced.mp hknown with ⟨hwanted, hold⟩ | ⟨i, hi, rfl⟩
  · have hlisted : key ∈ m.listed.keys := by
      rw [← OrderedMap.has_iff, ← known_isSome, hold]
      rfl
    exact absurd ((h.mem key).mpr (mem_kept.mpr ⟨hlisted, hwanted⟩))
      (h.offered (mem_offering_keys.mpr (.inr hkey))).2
  · by_contra hlt
    have hsize := h.size
    have htaken : (taken fold own targets limit m (K - held.length))[i]? = some (key, sent) := by
      rw [taken, List.getElem?_take_of_lt (by omega)]
      exact hi
    exact not_mem_taken hkey (List.mem_map_of_mem (List.mem_of_getElem? htaken))

omit [DecidableEq η] in
theorem length_le (h : HoldsKept K fold own targets m held) :
    (held ++ (taken fold own targets limit m (K - held.length)).map Prod.fst).length ≤ K := by
  have hfits := h.fits
  rw [List.length_append, List.length_map, taken, List.length_take]
  omega

/-- The refusal names the first nick past the room, and the network is full. -/
theorem live_refusal (h : HoldsKept K fold own targets m held) {a : Str}
    (ha : a ∈ refusal fold own targets limit m (K - held.length))
    (hkey : key ∈ (refused fold own targets limit m (K - held.length)).map Prod.fst) :
    Live K fold (synced fold own targets limit m).list
      (held ++ (taken fold own targets limit m (K - held.length)).map Prod.fst) a := by
  have hsize := h.size
  have hfits := h.fits
  have hlong : K - held.length < (offering fold own targets limit m).length := by
    by_contra hle
    rw [refused, List.drop_of_length_le (by omega)] at hkey
    cases hkey
  have hcons := List.drop_eq_getElem_cons hlong
  refine ⟨?_, fun key hsome hheld => ?_, ?_⟩
  · rw [pieces_refusal ha, refused, hcons]
    have hfirst : known (synced fold own targets limit m).list
        (fold (offering fold own targets limit m)[K - held.length].2) =
        some ((offering fold own targets limit m)[K - held.length].2, K) := by
      rw [(offering_nicks (List.getElem_mem hlong)).1, known_synced]
      exact .inr ⟨K - held.length, List.getElem?_eq_getElem hlong, by omega⟩
    refine ⟨_, _, rfl, ⟨_, hfirst⟩, fun r hr sent slot hknown => ?_⟩
    obtain ⟨e, he, rfl⟩ := List.mem_map.mp hr
    have he : e ∈ refused fold own targets limit m (K - held.length) := by
      rw [refused, hcons]
      exact List.mem_cons_of_mem _ he
    rw [(refused_nicks he).1] at hknown
    exact h.slot_ge (List.mem_map_of_mem he) hknown
  · rw [keysIn_refusal ha]
    exact h.unheld hsome hheld
  · rw [List.length_append, List.length_map, taken, List.length_take]
    omega

end HoldsKept

/-- The nicks kept and the offered ones that the network took, with one refusal of the
others, are sound. -/
theorem sound_placed {held held₁ answers : List Str} (h : Sound K fold m (held, answers))
    (hclear : ∀ a ∈ answers, ∀ nick ∈ pieces ',' a,
      fold nick ∉ wantedKeys fold m.holders own targets)
    (hkept : HoldsKept K fold own targets m held₁) :
    Sound K fold (synced fold own targets limit m).list
      (held₁ ++ (taken fold own targets limit m (K - held₁.length)).map Prod.fst,
        answers ++ refusal fold own targets limit m (K - held₁.length)) where
  nicks key nick slot hknown := by
    rcases known_synced.mp hknown with ⟨-, hknown⟩ | ⟨i, hi, -⟩
    · exact h.nicks key nick slot hknown
    · obtain ⟨hfold, hsingle, -⟩ := offering_nicks (List.mem_of_getElem? hi)
      exact ⟨hfold, hsingle⟩
  nodup := by
    refine List.nodup_append.mpr ⟨hkept.nodup, taken_nodup, ?_⟩
    rintro key hkey _ htaken rfl
    exact (hkept.offered (mem_offering_keys.mpr (.inl htaken))).2 hkey
  fits := hkept.length_le
  holds key hkey := by
    rw [hkept.isSome_iff, mem_offering_keys]
    exact (List.mem_append.mp hkey).imp id .inl
  named key hkey hheld := by
    obtain ⟨a, ha, hin⟩ := exists_refusal (hkept.unheld hkey hheld)
    exact ⟨a, List.mem_append_right _ ha, hin⟩
  apart a ha key hkey hheld := by
    rcases List.mem_append.mp ha with ha | ha
    · obtain ⟨nick, hnick, rfl⟩ := List.mem_map.mp hkey
      exact hclear a ha nick hnick (hkept.wanted hheld)
    · rw [keysIn_refusal ha] at hkey
      exact hkept.not_held hkey hheld
  cap := by
    rw [synced, MonitorList.sync_eq.2.1]
    exact h.cap
  live a ha key hkey hknown := by
    rcases List.mem_append.mp ha with ha | ha
    · obtain ⟨nick, hnick, rfl⟩ := List.mem_map.mp hkey
      exact absurd (settling_synced.listed _ hknown) (hclear a ha nick hnick)
    · rw [keysIn_refusal ha] at hkey
      exact hkept.live_refusal ha hkey

end Placed

/-- A careful sync leaves the list sound. -/
theorem sound_synced {held answers : List Str} (h : Sound K fold m (held, answers))
    (hclear : ∀ a ∈ answers, ∀ nick ∈ pieces ',' a,
      fold nick ∉ wantedKeys fold m.holders own targets)
    (hone : OneOverflows K fold m own targets limit) :
    Sound K fold (synced fold own targets limit m).list
      ((synced fold own targets limit m).lines.foldl (takeLine K fold) (held, answers)) := by
  have hlines : (synced fold own targets limit m).lines =
      (packTargets (MonitorList.removedOf fold (texts own) (fun holder => texts (targets holder)) m)
        maxTargetBytes).map .remove ++
      (packTargets ((offering fold own targets limit m).map Prod.snd) maxTargetBytes).map .add :=
    MonitorList.sync_eq.2.2.2
  have hremoved : ∀ n ∈ MonitorList.removedOf fold (texts own)
      (fun holder => texts (targets holder)) m, Single n := by
    intro n hn
    obtain ⟨⟨key, e⟩, he, rfl⟩ := List.mem_map.mp hn
    have he := OrderedMap.get?_eq_some.mpr (List.mem_of_mem_filter he)
    exact (h.nicks key e.nick e.slot (by rw [known, he]; rfl)).2
  rw [hlines, takeLines_append, takeLines_remove, namesOf_packTargets hremoved]
  generalize hheld₁ : (held.filter fun key => key ∉ (MonitorList.removedOf fold (texts own)
    (fun holder => texts (targets holder)) m).map fold) = held₁
  have hmem (key : Str) : key ∈ held₁ ↔ key ∈ (kept fold own targets m).keys :=
    hheld₁ ▸ held_removed h hclear key
  have hnodup₁ : held₁.Nodup := hheld₁ ▸ h.nodup.filter _
  have hlen₁ : held₁.length = (kept fold own targets m).size := by
    rw [OrderedMap.size_eq_keys]
    exact ((List.perm_ext_iff_of_nodup hnodup₁ (kept fold own targets m).nodup).mpr hmem).length_eq
  have hfits₁ : held₁.length ≤ K :=
    (hheld₁ ▸ List.length_filter_le _ _).trans h.fits
  have hnicks : ∀ nick ∈ (offering fold own targets limit m).map Prod.snd, Single nick := by
    intro nick hnick
    obtain ⟨e, he, rfl⟩ := List.mem_map.mp hnick
    exact (offering_nicks he).2.1
  have hdistinct : (((offering fold own targets limit m).map Prod.snd).map fold).Nodup := by
    rw [List.map_map]
    exact offering_fold ▸ offering_nodup
  have hnew : ∀ nick ∈ (offering fold own targets limit m).map Prod.snd, fold nick ∉ held₁ := by
    intro nick hnick hin
    obtain ⟨e, he, rfl⟩ := List.mem_map.mp hnick
    obtain ⟨hfold, -, -, hout⟩ := offering_nicks he
    exact hout ((hmem e.1).mp (hfold ▸ hin))
  rw [takeLines_add hnicks hdistinct hnew (hlen₁ ▸ hone)]
  have htaken : (((offering fold own targets limit m).map Prod.snd).take
      (K - held₁.length)).map fold =
      ((offering fold own targets limit m).take (K - held₁.length)).map Prod.fst := by
    rw [← List.map_take, List.map_map, List.map_take, List.map_take]
    exact congrArg _ offering_fold
  rw [htaken, ← List.map_drop]
  exact sound_placed h hclear ⟨hnodup₁, hlen₁, hfits₁, hmem⟩

end Sync

section Runs

omit [DecidableEq η] in
theorem sized_noteStatus (m : MonitorList η) (nicks : List Str) (online : Bool) :
    (∀ key, known (m.noteStatus fold nicks online) key = known m key) ∧
      (m.noteStatus fold nicks online).listed.size = m.listed.size := by
  have hfold (listed : OrderedMap Str Listed) :
      (∀ key, ((nicks.foldl (MonitorList.noteStatusOf fold online) listed).get? key).map
          (fun e => (e.nick, e.slot)) = (listed.get? key).map fun e => (e.nick, e.slot)) ∧
        (nicks.foldl (MonitorList.noteStatusOf fold online) listed).size = listed.size := by
    induction nicks generalizing listed with
    | nil => exact ⟨fun _ => rfl, rfl⟩
    | cons nick nicks ih =>
      obtain ⟨hget, hsize⟩ := ih (MonitorList.noteStatusOf fold online listed nick)
      rw [List.foldl_cons]
      have hone : (∀ key, ((MonitorList.noteStatusOf fold online listed nick).get? key).map
          (fun e => (e.nick, e.slot)) = (listed.get? key).map fun e => (e.nick, e.slot)) ∧
          (MonitorList.noteStatusOf fold online listed nick).size = listed.size := by
        unfold MonitorList.noteStatusOf
        split
        · rename_i e he
          constructor
          · intro key
            rw [OrderedMap.get?_set]
            split
            · rename_i hkey
              rw [hkey, he]
              rfl
            · rfl
          · have hmem : fold nick ∈ listed.keys := OrderedMap.has_iff.mp (by simp [OrderedMap.has, he])
            rw [OrderedMap.size_eq_keys, OrderedMap.keys_set, if_pos hmem, OrderedMap.size_eq_keys]
        · exact ⟨fun _ => rfl, rfl⟩
      exact ⟨fun key => (hget key).trans (hone.1 key), hsize.trans hone.2⟩
  exact hfold m.listed

variable (K fold) in
/-- A state is sound when its list is, against what the network will have made of every line. -/
def Stable (s : Monitored η) : Prop := Sound K fold s.list (settled K fold s)

omit [DecidableEq η] in
theorem settled_append (s : Monitored η) (list : MonitorList η) (lines : List MonitorLine) :
    settled K fold { s with list, queue := s.queue ++ lines } =
      lines.foldl (takeLine K fold) (settled K fold s) :=
  List.foldl_append

/-- Between syncs, only noting an answer changes what the list knows, and what the network
will have made of the lines only loses answers. -/
theorem stable_between {s : Monitored η} {e : Event η} (wanted : List Str) (limit : Limit)
    (h : Stable K fold s) (he : e.Between) :
    Stable K fold (step K fold s e) ∧
      (Settling wanted limit s.list → Settling wanted limit (step K fold s e).list) := by
  cases e with
  | sync own targets limit => cases he
  | reset => cases he
  | taken =>
    simp only [step]
    split
    · exact ⟨h, id⟩
    · rename_i line queue hqueue
      refine ⟨?_, id⟩
      unfold Stable settled at h ⊢
      rw [hqueue] at h
      exact h
  | noted =>
    simp only [step]
    split
    · exact ⟨h, id⟩
    · rename_i refused answers hanswers
      unfold Stable settled at h
      rw [hanswers, takeLines_answers] at h
      obtain ⟨hsound, hlist⟩ := sound_noted h
      refine ⟨?_, fun hsettling => ?_⟩
      · unfold Stable settled
        rw [takeLines_answers]
        exact hsound
      · rcases hlist with heq | ⟨hcap, hsize⟩
        · exact heq.symm ▸ hsettling
        · refine ⟨fun key hkey => hsettling.listed key ?_, .inr ?_⟩
          · rw [known_noteRefused] at hkey
            split at hkey
            · cases hkey
            · exact hkey
          · rw [hcap, hsize, Limit.reached_min]
            exact .inr (by simp [Limit.reached])
  | status nicks online =>
    obtain ⟨hknown, hsize⟩ := sized_noteStatus s.list nicks online
    exact ⟨Sound.congr h hknown rfl, fun hs => hs.congr hknown rfl hsize⟩
  | requestStatus =>
    exact ⟨Sound.congr h (fun _ => rfl) rfl, fun hs => hs.congr (fun _ => rfl) rfl rfl⟩
  | turnEnds =>
    simp only [step, MonitorList.turnEnds]
    split
    · refine ⟨?_, fun hs => hs.congr (fun _ => rfl) rfl rfl⟩
      unfold Stable
      rw [settled_append]
      split <;> exact Sound.congr h (fun _ => rfl) rfl
    · refine ⟨?_, id⟩
      unfold Stable
      rw [settled_append]
      exact h
  | addHolder holder =>
    simp only [step, MonitorList.addHolder]
    split
    · exact ⟨h, id⟩
    · exact ⟨Sound.congr h (fun _ => rfl) rfl, fun hs => hs.congr (fun _ => rfl) rfl rfl⟩
  | removeHolder holder =>
    exact ⟨Sound.congr h (fun _ => rfl) rfl, fun hs => hs.congr (fun _ => rfl) rfl rfl⟩

/-- A careful sync keeps the state sound and settles on what it wants. -/
theorem stable_sync {s : Monitored η} {own : List Nick} {targets : η → List Nick} {limit : Limit}
    (h : Stable K fold s) (hcareful : Careful K fold s (.sync own targets limit)) :
    Stable K fold (step K fold s (.sync own targets limit)) ∧
      Settling (wantedKeys fold s.list.holders own targets) limit
        (step K fold s (.sync own targets limit)).list := by
  refine ⟨?_, settling_synced⟩
  unfold Stable
  simp only [step]
  rw [settled_append]
  rcases hcareful with hidle | ⟨hclear, hone⟩
  · obtain ⟨hlines, hknown⟩ := synced_idle hidle
    unfold synced at hlines hknown
    rw [hlines]
    exact Sound.congr h hknown MonitorList.sync_eq.2.1
  · exact sound_synced h hclear hone

theorem stable_step {s : Monitored η} {e : Event η} (h : Stable K fold s)
    (hcareful : Careful K fold s e) : Stable K fold (step K fold s e) := by
  by_cases he : e.Between
  · exact (stable_between [] none h he).1
  · cases e with
    | sync own targets limit => exact (stable_sync h hcareful).1
    | reset => exact Sound.congr sound_start (fun _ => rfl) rfl
    | taken | noted | status | requestStatus | turnEnds | addHolder | removeHolder =>
      exact absurd trivial he

theorem stable_run {es : List (Event η)} (h : Run.Within (step K fold) (Careful K fold) start es) :
    Stable K fold (Run.after (step K fold) start es) :=
  Run.invariant_within (step K fold) sound_start (fun _ _ => stable_step) es h

/-- Between syncs the list settles on what the last one wanted. -/
theorem settling_run {s : Monitored η} {wanted : List Str} {limit : Limit} {es : List (Event η)}
    (h : Stable K fold s) (hsettling : Settling wanted limit s.list) (hes : ∀ e ∈ es, e.Between) :
    Settling wanted limit (Run.after (step K fold) s es).list := by
  induction es generalizing s with
  | nil => exact hsettling
  | cons e es ih =>
    obtain ⟨he, hes⟩ := List.forall_mem_cons.mp hes
    obtain ⟨hstable, hstep⟩ := stable_between wanted limit h he
    exact ih hstable (hstep hsettling) hes

/-- A settled list finds nothing to add for what it has settled on. -/
theorem synced_settled {m : MonitorList η} {wanted : List Str} {own : List Nick}
    {targets : η → List Nick} {limit : Limit} (h : Settling wanted limit m)
    (hwanted : ∀ key, key ∈ wantedKeys fold m.holders own targets ↔ key ∈ wanted) :
    (synced fold own targets limit m).lines = [] := by
  refine (synced_idle ⟨fun key hkey => ?_, ?_⟩).1
  · exact (hwanted key).mpr (h.listed key (known_isSome.trans hkey))
  · refine h.room.imp (fun hall key hkey => ?_) id
    exact known_isSome.symm.trans (hall key ((hwanted key).mp hkey))

/-- The list converges in a run whose syncs want nothing that is being refused and offer
too much on one line only. -/
theorem list_converges {es : List (Event η)}
    (h : Run.Within (step K fold) (Careful K fold) start es) : Converges K fold es where
  agrees hquiet key := by
    have hsound := stable_run h
    unfold Stable settled at hsound
    rw [hquiet.1, hquiet.2] at hsound
    exact hsound.agrees key
  settles es₁ own targets limit es₂ hes hbetween hquiet own' targets' hwanted nicks hadd := by
    have hsync : Settling (wantedKeys fold (Run.after (step K fold) start es₁).list.holders own
        targets) limit (Run.after (step K fold) start es).list := by
      subst hes
      obtain ⟨h₁, hcareful, -⟩ := (Run.within_append (step K fold)).mp h
      obtain ⟨hstable, hsettling⟩ := stable_sync (stable_run h₁) hcareful
      rw [Run.after_append, Run.after_cons]
      exact settling_run hstable hsettling hbetween
    have hlines := synced_settled hsync hwanted
    unfold synced at hlines
    rw [hlines] at hadd
    cases hadd

end Runs

end Monitored

namespace Sample

/-- A nick so long that two do not fit one line. -/
def longNick (c : Char) (h : c ≠ ',') : Nick where
  text := List.replicate 250 c
  noComma hmem := h (List.eq_of_mem_replicate hmem).symm

def three : List Nick :=
  [longNick 'a' (by decide), longNick 'b' (by decide), longNick 'c' (by decide)]

/-- Three nicks synced, the three lines and the MONITOR S taken, and both refusals noted. -/
def overflowing : List (Monitored.Event Unit) :=
  [.sync three (fun _ => []) none, .taken, .taken, .taken, .noted, .noted]

end Sample

/-- A network with room for one nick, and a sync that overflows it on its second line. -/
theorem list_converges_one : Monitored.Converges 1 id
    [.sync [Sample.longNick 'a' (by decide), Sample.longNick 'b' (by decide)]
      (fun _ : Unit => []) none, .taken, .taken, .noted] := by
  refine Monitored.list_converges ⟨.inr ⟨?_, ?_⟩, trivial, trivial, trivial, trivial⟩
  · intro refused h
    cases h
  · intro lines last h
    have hpack : packTargets [List.replicate 250 'a', List.replicate 250 'b'] maxTargetBytes =
        [List.replicate 250 'a', List.replicate 250 'b'] := by
      decide +kernel
    have hlines : lines = [List.replicate 250 'a'] := by
      have hdrop := congrArg List.dropLast (hpack.symm.trans h)
      rw [List.dropLast_concat] at hdrop
      exact hdrop.symm
    rw [hlines]
    decide +kernel

/-- When two lines overflow, the second refusal raises the cap the first one set, and the
nicks refused are offered again. -/
theorem two_lines_offered_again : ¬ Monitored.Converges 1 id Sample.overflowing := by
  intro h
  have hqueue : (Run.after (Monitored.step 1 id) Monitored.start Sample.overflowing).queue = [] := by
    decide +kernel
  have hanswers : (Run.after (Monitored.step 1 id) Monitored.start Sample.overflowing).answers =
      [] := by
    decide +kernel
  have hbetween : ∀ e ∈ ([.taken, .taken, .taken, .noted, .noted] : List (Monitored.Event Unit)),
      e.Between := by
    simp [Monitored.Event.Between]
  have hadd : MonitorLine.add (List.replicate 250 'b') ∈
      ((Run.after (Monitored.step 1 id) Monitored.start Sample.overflowing).list.sync id
        (Monitored.texts Sample.three) (fun _ => Monitored.texts []) none).lines := by
    decide +kernel
  have hwanted (key : Str) :
      key ∈ Monitored.wantedKeys id
          (Run.after (Monitored.step 1 id) Monitored.start Sample.overflowing).list.holders
          Sample.three (fun _ => []) ↔
        key ∈ Monitored.wantedKeys id ([] : List Unit) Sample.three (fun _ => []) := by
    have hholders : (Run.after (Monitored.step 1 id) Monitored.start
        Sample.overflowing).list.holders = [] := by
      decide +kernel
    rw [hholders]
  exact h.settles [] Sample.three (fun _ => []) none _ rfl hbetween ⟨hqueue, hanswers⟩ Sample.three
    (fun _ => []) hwanted _ hadd

end Lurker.Irc
