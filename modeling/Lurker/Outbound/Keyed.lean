import Lurker.Outbound.Order
import Lurker.Outbound.Room

/-!
# Keyed items

A keyed item takes the place of one that waits under its key, or goes behind its lane once
fewer than `maxKeyed` keyed items wait; the oldest of them is dropped to make room, and told.
Its hook may write, under any key. After it the room is looked at again and the key is not, so
that two items can come to wait under one key.

The search for a predecessor found none when the write began, so what waits under its key later
was written since, by such a hook. Where the last of them leaves nothing it wrote waiting under
that key, keys stay apart; so they do where no hook writes under it. The bound, and the choice of
what is dropped, hold in any case.
-/

namespace Lurker.Outbound

namespace SendPacer

variable {s t u : SendPacer} {e q : Entry} {a : Answers} {ev : Event}

/-- The keyed items waiting, lane by lane. -/
def keyedIn (s : SendPacer) : List Entry := s.all.filter (·.key.isSome)

theorem keyed_perm (s : SendPacer) : s.keyed.Perm s.keyedIn := List.mergeSort_perm _ _

theorem keyedIn_eq (s : SendPacer) :
    s.keyedIn = (s.lanes .high).filter (·.key.isSome) ++ (s.lanes .normal).filter (·.key.isSome) ++
      (s.lanes .low).filter (·.key.isSome) := by
  rw [keyedIn, all, List.filter_append, List.filter_append]

/-- No keyed item more waits, or is on its way into a lane. -/
structure Fewer (s t : SendPacer) : Prop where
  keyedIn : t.keyedIn.Sublist s.keyedIn
  arrivals : t.arrivals.Sublist s.arrivals
  seq : s.seq ≤ t.seq

namespace Fewer

theorem refl (s : SendPacer) : Fewer s s := ⟨.refl _, .refl _, Nat.le_refl _⟩

theorem trans (h : Fewer s t) (h' : Fewer t u) : Fewer s u :=
  ⟨h'.keyedIn.trans h.keyedIn, h'.arrivals.trans h.arrivals, h.seq.trans h'.seq⟩

theorem of_shrinks (h : Shrinks s t) (hseq : s.seq ≤ t.seq) : Fewer s t := by
  refine ⟨?_, h.arrivals, hseq⟩
  rw [keyedIn_eq, keyedIn_eq]
  exact (((h.lanes _).filter _).append ((h.lanes _).filter _)).append ((h.lanes _).filter _)

/-- Keyed items and guests are the same. -/
theorem same (h : Fewer s t) (hlanes : u.lanes = t.lanes) (harrivals : u.arrivals = t.arrivals)
    (hseq : u.seq = t.seq) : Fewer s u := by
  refine ⟨?_, harrivals ▸ h.arrivals, hseq ▸ h.seq⟩
  have hkeyed := h.keyedIn
  rwa [keyedIn_eq t, ← hlanes, ← keyedIn_eq u] at hkeyed

theorem hooked (h : Fewer s t) (hh : Hooked t u) : Fewer s u :=
  h.trans (of_shrinks (shrinks_hooked hh) hh.seq.ge)

theorem push (h : Fewer s t) {f : Frame} (hf : f.arriving = []) : Fewer s (t.push f) := by
  refine h.same rfl ?_ rfl
  rw [SendPacer.arrivals, SendPacer.push, List.flatMap_cons, hf]
  rfl

theorem withStack (h : Fewer s t) {st : List Frame} (hst : st <:+ t.stack) :
    Fewer s (t.withStack st) :=
  h.trans (of_shrinks (shrinks_withStack hst) (Nat.le_refl _))

theorem drain (h : Fewer s t) : Fewer s t.drain := by
  unfold SendPacer.drain
  split
  · exact h
  · exact (h.same (u := t.halt false) rfl rfl rfl).push rfl

theorem redrain (h : Fewer s t) : Fewer s t.redrain := by
  unfold SendPacer.redrain
  split
  · exact h.drain
  · exact drain (h.same rfl rfl rfl)

theorem sendNow (h : Fewer s t) (text : String) (lane charged : Bool) :
    Fewer s (t.sendNow e text lane charged a) := by
  unfold SendPacer.sendNow
  split
  · refine hooked (h.same ?_ ?_ ?_) (hooked_callSent _ _)
    all_goals cases charged <;> rfl
  · exact (h.same (u := t.note .refused) rfl rfl rfl).hooked (hooked_refuse _ _)

theorem sendUnit (h : Fewer s t) (lines : List String) (charged : Bool) :
    Fewer s (t.sendUnit e lines charged a) := by
  have hnote (went : List String) : Fewer s (if went = [] then t
      else t.note (.sent e went charged charged t.now)) := by
    split
    · exact h
    · exact h.same rfl rfl rfl
  unfold SendPacer.sendUnit
  dsimp only
  split
  · refine hooked (same (hnote (taken a.takes 0 lines)) ?_ ?_ ?_) (hooked_callSent _ _)
    all_goals cases charged <;> rfl
  · refine hooked (same (hnote (taken a.takes 0 lines)) ?_ ?_ ?_) (hooked_refuse _ _)
    all_goals split <;> rfl

/-- The head leaves its lane. -/
theorem tail (s : SendPacer) (e : Entry) :
    Fewer s (s.setLane e.priority (s.lanes e.priority).tail) :=
  of_shrinks (shrinks_tail e) (Nat.le_refl _)

theorem drainTurn {st : List Frame} (hs : s.stack = .drain :: st) : Fewer s (s.drainTurn st a) := by
  have hst : st <:+ s.stack := hs ▸ List.suffix_cons _ _
  have hstop (v : SendPacer) (hv : Fewer s v) (hstack : v.stack = s.stack) :
      Fewer s ((v.halt true).withStack (.drainEnd :: st)) := by
    have hhalt := hv.same (u := v.halt true) rfl rfl rfl
    exact (hhalt.withStack (hstack ▸ hst)).push (f := .drainEnd) rfl
  unfold SendPacer.drainTurn
  split
  · exact (refl s).withStack hst
  split
  · exact withStack ((refl s).same (u := s.halt true) rfl rfl rfl) hst
  split
  · refine withStack (t := s.setTimer _) ?_ hst
    exact (refl s).same rfl rfl rfl
  dsimp only
  rename_i e _ _ _
  have htail := tail s e
  split
  · exact htail.same rfl rfl rfl
  split
  · exact htail.push rfl
  · split
    · exact htail.sendNow _ _ _
    · exact (hstop _ htail rfl).sendNow _ _ _
  · split
    · exact htail.sendUnit _ _
    · exact (hstop _ htail rfl).sendUnit _ _

theorem sendAtOnce (h : Fewer s t) : Fewer s (t.sendAtOnce e a) := by
  unfold SendPacer.sendAtOnce
  split
  · exact h.sendUnit _ _
  · exact h.push rfl
  · exact h.sendNow _ _ _

theorem atOnceTurn {st : List Frame} {i : Nat} {items : List Made}
    (hs : s.stack = .atOnce e i items :: st) : Fewer s (s.atOnceTurn st e i a items) := by
  have hpop : Fewer s (s.withStack st) := (refl s).withStack (hs ▸ List.suffix_cons _ _)
  cases items with
  | nil => exact hpop.hooked (hooked_callSent _ _)
  | cons m items =>
    have hloop : Fewer s (s.withStack (.atOnce e (i + 1) items :: st)) :=
      hpop.push (f := .atOnce e (i + 1) items) rfl
    unfold SendPacer.atOnceTurn
    dsimp only
    split
    · split
      · exact hloop.sendNow _ _ _
      · refine sendNow ((refl s).withStack ?_) _ _ _
        exact (abort_suffix st).trans (hs ▸ List.suffix_cons _ _)
    · exact hloop.push (f := .buildingNow _) rfl

/-- What a thunk made has no key. -/
theorem expand (h : Fewer s t) (items : List Made) : Fewer s (t.expand e items) := by
  have hnil : (e.children items).filter (·.key.isSome) = [] := by
    rw [List.filter_eq_nil_iff]
    intro x hx
    simp only [Entry.children, List.mem_mapIdx] at hx
    obtain ⟨i, hi, rfl⟩ := hx
    split <;> simp [Entry.child]
  have hlane (p : Priority) : ((t.expand e items).lanes p).filter (·.key.isSome) =
      (t.lanes p).filter (·.key.isSome) := by
    change ((t.setLane e.priority (e.children items ++ t.lanes e.priority)).lanes p).filter _ = _
    by_cases hp : p = e.priority
    · subst hp
      rw [lanes_setLane, List.filter_append, hnil, List.nil_append]
    · rw [lanes_setLane_of_ne hp]
  refine h.trans ⟨?_, .refl _, Nat.le_refl _⟩
  rw [keyedIn_eq, keyedIn_eq, hlane, hlane, hlane]

end Fewer

/-- What a step does to the keyed items and to those on their way into a lane. -/
inductive Change (maxKeyed : Nat) (s : SendPacer) (ev : Event) (t : SendPacer) : Prop
  | fewer (h : Fewer s t)
  /-- A write takes its predecessor's place. -/
  | replaced (marks : t.keyedIn.map (fun x => (x.key, x.seq)) = s.keyedIn.map (fun x => (x.key, x.seq)))
      (named : ∀ x ∈ t.keyedIn, x ∈ s.keyedIn ∨ x.name ≠ [])
      (arrivals : t.arrivals = s.arrivals) (next : s.seq ≤ t.seq)
  /-- A write under a key nothing waits under is on its way. -/
  | arrives (e : Entry) (item : Item) (o : WriteOptions) (a : Answers)
      (call : ev = .call (.write item o) a) (asked : e.key = o.key)
      (key : e.key.isSome) (seq : e.seq = some s.seq) (name : e.name ≠ [])
      (fresh : ∀ x ∈ s.keyedIn, x.key ≠ e.key)
      (keyedIn : t.keyedIn = s.keyedIn) (arrivals : t.arrivals = e :: s.arrivals)
      (next : t.seq = s.seq + 1)
  /-- There is room for one that was on its way. -/
  | admitted (e : Entry) (st : List Frame) (a : Answers) (turn : ev = .turn a)
      (top : s.stack = .admitting e :: st) (alive : s.disposed = false)
      (room : s.keyedIn.length < maxKeyed)
      (keyedIn : t.keyedIn.Perm (e :: s.keyedIn)) (arrivals : s.arrivals = e :: t.arrivals)
      (next : t.seq = s.seq)

theorem lanes_enqueue (s : SendPacer) (e : Entry) (p : Priority) :
    (s.enqueue e).lanes p = s.lanes p ++ if p = e.priority then [e] else [] := by
  have hlanes : (s.enqueue e).lanes = (s.setLane e.priority (s.lanes e.priority ++ [e])).lanes := by
    unfold enqueue redrain drain
    split <;> split <;> rfl
  rw [hlanes]
  by_cases hp : p = e.priority
  · rw [if_pos hp, hp, lanes_setLane]
  · rw [if_neg hp, lanes_setLane_of_ne hp, List.append_nil]

theorem keyedIn_enqueue (s : SendPacer) (he : e.key.isSome) :
    (s.enqueue e).keyedIn.Perm (e :: s.keyedIn) := by
  have hone (p : Priority) : (if p = e.priority then [e] else []).filter (·.key.isSome) =
      if p = e.priority then [e] else [] := by
    split <;> simp [he]
  rw [List.perm_iff_count]
  intro x
  rw [keyedIn_eq, keyedIn_eq, lanes_enqueue, lanes_enqueue, lanes_enqueue]
  simp only [List.filter_append, hone, List.count_append, List.count_cons]
  cases e.priority <;> simp [List.count_cons] <;> omega

theorem arrivals_enqueue (s : SendPacer) (e : Entry) : (s.enqueue e).arrivals = s.arrivals := by
  unfold enqueue redrain drain arrivals
  split <;> split <;> rfl

theorem seq_enqueue (s : SendPacer) (e : Entry) : (s.enqueue e).seq = s.seq := by
  unfold enqueue redrain drain
  split <;> split <;> rfl

/-- An item without a key goes behind its lane. -/
theorem Fewer.enqueue (h : Fewer s t) (he : e.key = none) : Fewer s (t.enqueue e) := by
  have hnil (p : Priority) : (if p = e.priority then [e] else []).filter (·.key.isSome) = [] := by
    split <;> simp [he]
  refine h.trans ⟨?_, (arrivals_enqueue t e) ▸ .refl _, (seq_enqueue t e).ge⟩
  rw [keyedIn_eq, keyedIn_eq, lanes_enqueue, lanes_enqueue, lanes_enqueue]
  simp only [List.filter_append, hnil, List.append_nil]
  rfl

theorem mem_keyedIn {x : Entry} : x ∈ s.keyedIn ↔ x ∈ s.all ∧ x.key.isSome :=
  List.mem_filter

theorem findKey_eq_some {k : String} (h : s.findKey k = some q) : q ∈ s.keyedIn ∧ q.key = some k := by
  have hkey : q.key = some k := by simpa using List.find?_some h
  exact ⟨mem_keyedIn.mpr ⟨List.mem_of_find?_eq_some h, by rw [hkey]; rfl⟩, hkey⟩

/-- A write in its predecessor's place is as old as it was, under its key. -/
theorem keyedIn_replace {β : Type*} (f : Entry → β) (hkey : e.key = q.key)
    (hf : f { e with priority := q.priority, seq := q.seq } = f q) :
    (s.replace q e).keyedIn.map f = s.keyedIn.map f := by
  have hlane (p : Priority) : (((s.replace q e).lanes p).filter (·.key.isSome)).map f =
      ((s.lanes p).filter (·.key.isSome)).map f := by
    change (((s.setLane q.priority ((s.lanes q.priority).map fun x =>
      if x = q then { e with priority := q.priority, seq := q.seq } else x)).lanes p).filter _).map f = _
    by_cases hp : p = q.priority
    · subst hp
      rw [lanes_setLane, List.filter_map, List.map_map]
      have hsame : ((fun x : Entry => x.key.isSome) ∘ fun x : Entry =>
          if x = q then { e with priority := q.priority, seq := q.seq } else x) =
            fun x => x.key.isSome := by
        funext x
        by_cases hx : x = q
        · simp [hx, hkey]
        · simp [hx]
      rw [hsame]
      apply List.map_congr_left
      intro x _
      by_cases hx : x = q
      · simp [hx, hf]
      · simp [hx]
    · rw [lanes_setLane_of_ne hp]
  simp only [keyedIn_eq, List.map_append, hlane]

theorem mem_keyedIn_replace {x : Entry} (hx : x ∈ (s.replace q e).keyedIn) :
    x ∈ s.keyedIn ∨ x.name = e.name := by
  obtain ⟨hmem, hkey⟩ := mem_keyedIn.mp hx
  have hlane {p : Priority} (hp : x ∈ (s.replace q e).lanes p) : x ∈ s.lanes p ∨ x.name = e.name := by
    change x ∈ (s.setLane q.priority ((s.lanes q.priority).map fun y =>
      if y = q then { e with priority := q.priority, seq := q.seq } else y)).lanes p at hp
    by_cases h : p = q.priority
    · subst h
      rw [lanes_setLane] at hp
      obtain ⟨y, hy, rfl⟩ := List.mem_map.mp hp
      by_cases hq : y = q
      · rw [if_pos hq]
        exact .inr rfl
      · rw [if_neg hq]
        exact .inl hy
    · rw [lanes_setLane_of_ne h] at hp
      exact .inl hp
  rw [mem_keyedIn]
  simp only [all, List.mem_append] at hmem ⊢
  rcases hmem with (hp | hp) | hp
  all_goals rcases hlane hp with h | h <;> tauto

/-- A new entry of `write`, with the next number. -/
theorem change_queueUp (maxKeyed : Nat) {item : Item} {o : WriteOptions}
    (hasked : e.key = o.key) (he : e.seq = some s.seq) (hname : e.name ≠ []) (ht : t.lanes = s.lanes)
    (harrivals : t.arrivals = s.arrivals) (hseq : t.seq = s.seq + 1) :
    Change maxKeyed s (.call (.write item o) a) (t.queueUp e) := by
  have hkeyed : t.keyedIn = s.keyedIn := by rw [keyedIn_eq, keyedIn_eq, ht]
  have hfewer : Fewer s t := ⟨hkeyed ▸ .refl _, harrivals ▸ .refl _, by omega⟩
  unfold queueUp
  split
  · next hkey => exact .fewer (hfewer.enqueue hkey)
  · next k hkey =>
    split
    · next q hq =>
      have hq := hkey.trans (findKey_eq_some hq).2.symm
      refine .replaced ?_ (fun x hx => ?_) harrivals (hseq ▸ Nat.le_succ _)
      · rw [keyedIn_replace _ hq (by rw [hq]), hkeyed]
      · rw [← hkeyed]
        exact (mem_keyedIn_replace hx).imp_right (·.trans_ne hname)
    · next hnone =>
      refine .arrives e item o a rfl hasked (by rw [hkey]; rfl) he hname (fun x hx heq => ?_) hkeyed
        ?_ hseq
      · rw [← hkeyed] at hx
        rw [findKey, List.find?_eq_none] at hnone
        exact hnone x (mem_keyedIn.mp hx).1 (by simpa [hkey] using heq)
      · rw [← harrivals]
        rfl

theorem change_write (maxKeyed : Nat) (item : Item) (o : WriteOptions) :
    Change maxKeyed s (.call (.write item o) a) (s.write item o a) := by
  have hnew (e : Entry) : Fewer s (s.admitNew e).takeSeq :=
    ⟨.refl _, .refl _, Nat.le_succ _⟩
  have hname : s.nextName ≠ [] := List.cons_ne_nil _ _
  unfold SendPacer.write
  split
  · exact .fewer (((Fewer.refl s).same (u := s.takeId) rfl rfl rfl).hooked (hooked_tellGone _ _))
  dsimp only
  split
  · exact .fewer (hnew _).sendAtOnce
  split
  · split
    · exact .fewer ((hnew _).sendNow _ _ _)
    · exact change_queueUp maxKeyed rfl rfl hname rfl rfl rfl
  · exact change_queueUp maxKeyed rfl rfl hname rfl rfl rfl

theorem Fewer.unit (lines : List String) (p : Priority) : Fewer s (s.unit lines p a) := by
  have hnew (e : Entry) : Fewer s (s.admitNew e) := (refl s).same rfl rfl rfl
  unfold SendPacer.unit
  split
  · exact ((refl s).same (u := s.takeId) rfl rfl rfl).hooked (hooked_tellGone _ _)
  dsimp only
  split
  · exact (hnew _).sendAtOnce
  · exact (hnew _).enqueue rfl

theorem Fewer.drop : Fewer s s.drop := by
  have htell (v : SendPacer) (set : Nat) (names : List Name) : (v.tell set names).seq = v.seq :=
    (hooked_tell v set names).seq
  refine .of_shrinks shrinks_drop (Nat.le_of_eq ?_)
  simp [SendPacer.drop, htell, note, newSet]

theorem change_call (maxKeyed : Nat) (c : Call) : Change maxKeyed s (.call c a) (s.call a c) := by
  cases c with
  | write item o => exact change_write maxKeyed item o
  | unit lines p => exact .fewer (.unit lines p)
  | cancel root =>
    show Change maxKeyed s _ (s.cancel root)
    unfold cancel
    split
    · exact .fewer (.refl s)
    · exact .fewer (Fewer.same (.of_shrinks (shrinks_removeRoot root) (Nat.le_refl _)) rfl rfl rfl)
  | redrain => exact .fewer (.redrain (.refl s))
  | resume => exact .fewer (.drain (.refl s))
  | drop => exact .fewer .drop
  | dispose =>
    have hsame : Fewer s { s with disposed := true } := (Fewer.refl s).same rfl rfl rfl
    exact .fewer (hsame.trans .drop)

theorem change_admitTurn (maxKeyed : Nat) {st : List Frame} (hs : s.stack = .admitting e :: st) :
    Change maxKeyed s (.turn a) (s.admitTurn maxKeyed st e) := by
  have hpop : Fewer s (s.withStack st) := (Fewer.refl s).withStack (hs ▸ List.suffix_cons _ _)
  unfold admitTurn
  split
  · exact .fewer (hpop.hooked (hooked_tellGone _ _))
  next halive =>
  split
  · split
    · next q _ =>
      have hremoved : Fewer s (s.removeRoot q.root) :=
        .of_shrinks (shrinks_removeRoot q.root) (Nat.le_refl _)
      exact .fewer (hremoved.hooked (hooked_tellAfresh _ _))
    · exact .fewer (.refl s)
  · next hroom =>
    cases hkey : e.key with
    | none => exact .fewer (hpop.enqueue hkey)
    | some k =>
      refine .admitted e st a rfl hs (by simpa using halive) ?_ (keyedIn_enqueue _ (by rw [hkey]; rfl))
        ?_ (seq_enqueue _ e)
      · rw [← (keyed_perm s).length_eq]
        omega
      · rw [arrivals_enqueue, arrivals, hs]
        rfl

theorem change_turn (maxKeyed : Nat) {f : Frame} {st : List Frame} (hs : s.stack = f :: st) :
    Change maxKeyed s (.turn a) (s.turn maxKeyed st a f) := by
  cases f with
  | drain => exact .fewer (.drainTurn hs)
  | drainEnd => exact .fewer ((Fewer.refl s).withStack (hs ▸ List.suffix_cons _ _))
  | atOnce e i items => exact .fewer (.atOnceTurn hs)
  | admitting e => exact change_admitTurn maxKeyed hs
  | building | buildingNow | sent | told => exact .fewer (.refl s)

theorem Fewer.return_ (r : Return) {f : Frame} {st : List Frame} (hs : s.stack = f :: st) :
    Fewer s (s.return_ st r f) := by
  have hpop : Fewer s (s.withStack st) := (refl s).withStack (hs ▸ List.suffix_cons _ _)
  have habort : Fewer s (s.withStack (abort st)) :=
    (refl s).withStack ((abort_suffix st).trans (hs ▸ List.suffix_cons _ _))
  cases f with
  | sent hooks =>
    cases r with
    | done => exact hpop.hooked (hooked_callSent _ _)
    | throws => exact hpop
    | built | made => exact refl s
  | told set names =>
    cases r with
    | done | throws => exact hpop.hooked (hooked_tell _ _ _)
    | built | made => exact refl s
  | building e =>
    unfold SendPacer.return_
    dsimp only
    split
    · exact hpop.hooked (hooked_tellAfresh _ _)
    · split
      · exact hpop.expand _
      · exact refl s
  | buildingNow e =>
    unfold SendPacer.return_
    dsimp only
    split
    · exact habort.hooked (hooked_refuse _ _)
    · split
      · exact hpop
      · exact (hpop.push (f := .atOnce e 0 _) rfl).same rfl rfl rfl
      · exact refl s
  | drain | drainEnd | atOnce | admitting => exact refl s

theorem change_step (maxKeyed : Nat) (s : SendPacer) (ev : Event) :
    Change maxKeyed s ev (s.step maxKeyed ev) := by
  cases ev with
  | clock t => exact .fewer ((Fewer.refl s).same rfl rfl rfl)
  | call c a =>
    unfold step
    dsimp only
    split
    · exact change_call maxKeyed c
    · exact .fewer (.refl s)
  | turn a =>
    unfold step
    dsimp only
    split
    · next hs => exact change_turn maxKeyed hs
    · exact .fewer (.refl s)
  | returns r =>
    unfold step
    dsimp only
    split
    · next hs => exact .fewer (.return_ r hs)
    · exact .fewer (.refl s)
  | fire =>
    unfold step
    dsimp only
    split
    · exact .fewer (.drain ((Fewer.refl s).same (u := s.setTimer none) rfl rfl rfl))
    · exact .fewer (.refl s)

/-- What holds of the keyed items in every run: no more than the cap, each with a number of its
own that was given out. -/
structure Capped (maxKeyed : Nat) (s : SendPacer) : Prop where
  bound : s.keyedIn.length ≤ maxKeyed
  guests : ∀ x ∈ s.arrivals, x.key.isSome
  numbered : ∀ m ∈ s.keyedIn.map (·.seq) ++ s.arrivals.map (·.seq), ∃ n, m = some n ∧ n < s.seq
  apart : (s.keyedIn.map (·.seq) ++ s.arrivals.map (·.seq)).Nodup

theorem Capped.init (maxKeyed : Nat) : Capped maxKeyed {} where
  bound := Nat.zero_le _
  guests _ hx := absurd hx List.not_mem_nil
  numbered _ hm := absurd hm List.not_mem_nil
  apart := List.nodup_nil

theorem Capped.step {maxKeyed : Nat} (h : Capped maxKeyed s) (ev : Event) :
    Capped maxKeyed (s.step maxKeyed ev) := by
  cases change_step maxKeyed s ev with
  | fewer hfewer =>
    have hsub := (hfewer.keyedIn.map (·.seq)).append (hfewer.arrivals.map (·.seq))
    refine ⟨hfewer.keyedIn.length_le.trans h.bound, fun x hx => h.guests x (hfewer.arrivals.mem hx),
      fun m hm => ?_, h.apart.sublist hsub⟩
    obtain ⟨n, hn, hlt⟩ := h.numbered m (hsub.mem hm)
    exact ⟨n, hn, Nat.lt_of_lt_of_le hlt hfewer.seq⟩
  | replaced hmarks hnamed harrivals hnext =>
    have hseqs : (s.step maxKeyed ev).keyedIn.map (·.seq) = s.keyedIn.map (·.seq) := by
      simpa only [List.map_map, Function.comp_def] using congrArg (List.map Prod.snd) hmarks
    have hlength := congrArg List.length hseqs
    rw [List.length_map, List.length_map] at hlength
    refine ⟨hlength.le.trans h.bound, harrivals ▸ h.guests, fun m hm => ?_, ?_⟩
    · rw [hseqs, harrivals] at hm
      obtain ⟨n, hn, hlt⟩ := h.numbered m hm
      exact ⟨n, hn, Nat.lt_of_lt_of_le hlt hnext⟩
    · rw [hseqs, harrivals]
      exact h.apart
  | arrives e item o a hcall hasked hkey hseq hname hfresh hkeyed harrivals hnext =>
    have hperm : ((s.step maxKeyed ev).keyedIn.map (·.seq) ++
        (s.step maxKeyed ev).arrivals.map (·.seq)).Perm
          (some s.seq :: (s.keyedIn.map (·.seq) ++ s.arrivals.map (·.seq))) := by
      rw [hkeyed, harrivals, List.map_cons, hseq]
      exact List.perm_middle
    refine ⟨hkeyed ▸ h.bound, fun x hx => ?_, fun m hm => ?_, hperm.nodup_iff.mpr ?_⟩
    · rw [harrivals] at hx
      obtain rfl | hx := List.mem_cons.mp hx
      · exact hkey
      · exact h.guests x hx
    · obtain rfl | hm := List.mem_cons.mp (hperm.mem_iff.mp hm)
      · exact ⟨s.seq, rfl, by omega⟩
      · obtain ⟨n, hn, hlt⟩ := h.numbered m hm
        exact ⟨n, hn, by omega⟩
    · refine List.nodup_cons.mpr ⟨fun hm => ?_, h.apart⟩
      obtain ⟨n, hn, hlt⟩ := h.numbered _ hm
      have := Option.some.inj hn
      omega
  | admitted e st a hturn htop halive hroom hkeyed harrivals hnext =>
    have hperm : ((s.step maxKeyed ev).keyedIn.map (·.seq) ++
        (s.step maxKeyed ev).arrivals.map (·.seq)).Perm
          (s.keyedIn.map (·.seq) ++ s.arrivals.map (·.seq)) := by
      rw [harrivals, List.map_cons]
      exact ((hkeyed.map _).append_right _).trans List.perm_middle.symm
    refine ⟨?_, fun x hx => h.guests x ?_, fun m hm => ?_, hperm.nodup_iff.mpr h.apart⟩
    · rw [hkeyed.length_eq, List.length_cons]
      omega
    · rw [harrivals]
      exact List.mem_cons_of_mem e hx
    · obtain ⟨n, hn, hlt⟩ := h.numbered m (hperm.mem_iff.mp hm)
      exact ⟨n, hn, by omega⟩

/-- `x` was written after `e`. -/
def Since (e x : Entry) : Prop := ∃ m n, e.seq = some m ∧ x.seq = some n ∧ m < n

/-- The last hook run to make room for a keyed item leaves nothing it, or one before it, wrote
waiting under the item's key. -/
def Clear (maxKeyed : Nat) (s : SendPacer) : Event → Prop
  | .returns r => ∀ set names e st, s.stack = .told set names :: .admitting e :: st →
      (r = .done ∨ r = .throws) → (∀ p ∈ names, p ∈ s.sets set) → s.disposed = false →
        s.keyed.length < maxKeyed → ∀ x ∈ s.all, x.key = e.key → ¬ Since e x
  | _ => True

/-- No two waiting items have the same key. -/
def Unique (s : SendPacer) : Prop :=
  s.all.Pairwise fun x y => x.key.isSome → y.key.isSome → x.key ≠ y.key

theorem unique_iff : s.Unique ↔ (s.keyedIn.map (·.key)).Nodup := by
  rw [List.Nodup, List.pairwise_map, keyedIn, List.pairwise_filter]
  rfl

/-- What is known of the writes that make room: a hook alone stands on each, and whatever waits
under its key, or makes room further up, was written since. -/
structure Later (s : SendPacer) : Prop where
  hosted : Hosted s.stack
  named : ∀ x ∈ s.keyedIn ++ s.arrivals, x.name ≠ []
  waiting : ∀ e ∈ s.arrivals, ∀ x ∈ s.keyedIn, x.key = e.key → Since e x
  above : s.arrivals.Pairwise fun x y => Since y x

theorem Later.init : Later {} :=
  ⟨List.isChain_nil, fun _ hx => absurd hx List.not_mem_nil, fun _ he => absurd he List.not_mem_nil,
    List.Pairwise.nil⟩

theorem Later.onto {maxKeyed : Nat} (h : Later s) (ev : Event) : Onto s ev (s.step maxKeyed ev) := by
  refine onto_step maxKeyed h.hosted (fun q hq => ?_) ev
  have hmem := (keyed_perm s).mem_iff.mp hq
  exact ⟨(mem_keyedIn.mp hmem).1, h.named q (List.mem_append_left _ hmem)⟩

theorem Later.step {maxKeyed : Nat} (h : Later s) (hcapped : Capped maxKeyed s) (ev : Event) :
    Later (s.step maxKeyed ev) := by
  have hhosted : Hosted (s.step maxKeyed ev).stack := (h.onto ev).hosted h.hosted
  cases change_step maxKeyed s ev with
  | fewer hfewer =>
    refine ⟨hhosted, fun x hx => h.named x ?_, fun e he x hx => ?_, h.above.sublist hfewer.arrivals⟩
    · exact (hfewer.keyedIn.append hfewer.arrivals).mem hx
    · exact h.waiting e (hfewer.arrivals.mem he) x (hfewer.keyedIn.mem hx)
  | replaced hmarks hnamed harrivals hnext =>
    refine ⟨hhosted, fun x hx => ?_, fun e he x hx hkey => ?_, harrivals ▸ h.above⟩
    · rw [harrivals] at hx
      rcases List.mem_append.mp hx with hx | hx
      · exact (hnamed x hx).elim (fun hold => h.named x (List.mem_append_left _ hold)) id
      · exact h.named x (List.mem_append_right _ hx)
    · have hmark := List.mem_map_of_mem (f := fun x => (x.key, x.seq)) hx
      rw [hmarks] at hmark
      obtain ⟨y, hy, hsame⟩ := List.mem_map.mp hmark
      obtain ⟨hykey, hyseq⟩ := Prod.mk.inj hsame
      obtain ⟨m, n, hm, hn, hlt⟩ := h.waiting e (harrivals ▸ he) y hy (hykey.trans hkey)
      exact ⟨m, n, hm, hyseq ▸ hn, hlt⟩
  | arrives e item o a hcall hasked hkey hseq hname hfresh hkeyed harrivals hnext =>
    refine ⟨hhosted, fun x hx => ?_, fun e' he' x hx hsame => ?_, ?_⟩
    · rw [hkeyed, harrivals] at hx
      rcases List.mem_append.mp hx with hx | hx
      · exact h.named x (List.mem_append_left _ hx)
      · rcases List.mem_cons.mp hx with rfl | hx
        · exact hname
        · exact h.named x (List.mem_append_right _ hx)
    · rw [hkeyed] at hx
      rcases List.mem_cons.mp (harrivals ▸ he') with rfl | he'
      · exact absurd hsame (hfresh x hx)
      · exact h.waiting e' he' x hx hsame
    · rw [harrivals]
      refine List.pairwise_cons.mpr ⟨fun y hy => ?_, h.above⟩
      obtain ⟨m, hm, hlt⟩ :=
        hcapped.numbered y.seq (List.mem_append_right _ (List.mem_map_of_mem hy))
      exact ⟨m, s.seq, hm, hseq, hlt⟩
  | admitted e st a hturn htop halive hroom hkeyed harrivals hnext =>
    have habove := h.above
    rw [harrivals] at habove
    obtain ⟨hfirst, hrest⟩ := List.pairwise_cons.mp habove
    have hin {x : Entry} (hx : x ∈ (s.step maxKeyed ev).arrivals) : x ∈ s.arrivals :=
      harrivals ▸ List.mem_cons_of_mem e hx
    refine ⟨hhosted, fun x hx => h.named x ?_, fun e' he' x hx hsame => ?_, hrest⟩
    · rw [List.mem_append] at hx ⊢
      rcases hx with hx | hx
      · rcases List.mem_cons.mp (hkeyed.mem_iff.mp hx) with rfl | hx
        · exact .inr (harrivals ▸ List.mem_cons_self)
        · exact .inl hx
      · exact .inr (hin hx)
    · rcases List.mem_cons.mp (hkeyed.mem_iff.mp hx) with rfl | hx
      · exact hfirst e' he'
      · exact h.waiting e' (hin he') x hx hsame

/-- Under the key of a write that found room nothing waits. -/
def Ready (maxKeyed : Nat) (s : SendPacer) : Prop :=
  ∀ e st, s.stack = .admitting e :: st → s.disposed = false → s.keyedIn.length < maxKeyed →
    ∀ x ∈ s.keyedIn, x.key ≠ e.key

theorem keyedIn_congr (h : t.lanes = s.lanes) : t.keyedIn = s.keyedIn := by
  rw [keyedIn_eq, keyedIn_eq, h]

/-- A write that goes on is one that has just begun, and found no predecessor, or one whose last
hook returns; what then waits under its key was written since. -/
theorem Ready.step {maxKeyed : Nat} (h : Ready maxKeyed s) (hlater : Later s)
    (hclear : Clear maxKeyed s ev) : Ready maxKeyed (s.step maxKeyed ev) := by
  intro e st hs halive hroom x hx hkey
  have honto : Onto s ev (s.step maxKeyed ev) := hlater.onto ev
  cases honto with
  | rests hrests =>
    have hfree := (hrests.hosted hlater.hosted).2 (.admitting e) (by rw [hs]; rfl)
    exact absurd hfree.symm Bool.false_ne_true
  | same hstack hlanes hdisposed =>
    rw [keyedIn_congr hlanes] at hroom hx
    exact h e st (hstack ▸ hs) (hdisposed ▸ halive) hroom x hx hkey
  | asks e' k hfree hstack hkey' hnone =>
    obtain ⟨heq, -⟩ := List.cons.inj (hs.symm.trans hstack)
    obtain rfl := Frame.admitting.inj heq
    rw [findKey, List.find?_eq_none] at hnone
    exact hnone x (mem_keyedIn.mp hx).1 (by simpa [hkey'] using hkey)
  | drops set names hstack => cases (List.cons.inj (hs.symm.trans hstack)).1
  | told set names st' r hevent hends htop htells =>
    subst hevent
    have hhook := hooked_tell (s.withStack st') set names
    rcases tell_stack (s.withStack st') set names with ⟨hstack, htold⟩ | ⟨rest, hstack⟩
    · have hst : st' = .admitting e :: st := by
        rw [← hs, htells]
        exact hstack.symm
      have hlanes : (s.step maxKeyed (.returns r)).lanes = s.lanes := htells ▸ hhook.lanes
      rw [keyedIn_congr hlanes] at hroom hx
      rw [htells, hhook.disposed] at halive
      refine hclear set names e st (hst ▸ htop) hends htold halive ?_ x (mem_keyedIn.mp hx).1 hkey ?_
      · rw [(keyed_perm s).length_eq]
        exact hroom
      · have hguest : e ∈ s.arrivals := by
          rw [arrivals, htop, hst]
          exact List.mem_cons_self
        exact hlater.waiting e hguest x hx hkey
    · rw [htells] at hs
      cases (List.cons.inj (hstack.symm.trans hs)).1

theorem Unique.step {maxKeyed : Nat} (h : s.Unique) (hready : Ready maxKeyed s) :
    (s.step maxKeyed ev).Unique := by
  rw [unique_iff] at h ⊢
  cases change_step maxKeyed s ev with
  | fewer hfewer => exact h.sublist (hfewer.keyedIn.map _)
  | replaced hmarks hnamed harrivals hnext =>
    have hkeys : (s.step maxKeyed ev).keyedIn.map (·.key) = s.keyedIn.map (·.key) := by
      simpa only [List.map_map, Function.comp_def] using congrArg (List.map Prod.fst) hmarks
    rw [hkeys]
    exact h
  | arrives e item o a hcall hasked hkey hseq hname hfresh hkeyed harrivals hnext =>
    rw [hkeyed]
    exact h
  | admitted e st a hturn htop halive hroom hkeyed harrivals hnext =>
    refine (hkeyed.map _).nodup_iff.mpr (List.nodup_cons.mpr ⟨fun hm => ?_, h⟩)
    obtain ⟨x, hx, hsame⟩ := List.mem_map.mp hm
    exact hready e st htop halive hroom x hx hsame

/-- No hook writes under the key of a write that makes room meanwhile. -/
def Quiet (s : SendPacer) : Event → Prop
  | .call (.write _ o) _ => ∀ e ∈ s.arrivals, e.key ≠ o.key
  | _ => True

/-- The keys that wait or are on their way are all different. -/
def Apart (s : SendPacer) : Prop := (s.keyedIn.map (·.key) ++ s.arrivals.map (·.key)).Nodup

theorem Apart.step {maxKeyed : Nat} (h : Apart s) (hquiet : Quiet s ev) :
    Apart (s.step maxKeyed ev) := by
  unfold Apart at h ⊢
  cases change_step maxKeyed s ev with
  | fewer hfewer => exact h.sublist ((hfewer.keyedIn.map _).append (hfewer.arrivals.map _))
  | replaced hmarks hnamed harrivals hnext =>
    have hkeys : (s.step maxKeyed ev).keyedIn.map (·.key) = s.keyedIn.map (·.key) := by
      simpa only [List.map_map, Function.comp_def] using congrArg (List.map Prod.fst) hmarks
    rw [hkeys, harrivals]
    exact h
  | arrives e item o a hcall hasked hkey hseq hname hfresh hkeyed harrivals hnext =>
    subst hcall
    rw [hkeyed, harrivals, List.map_cons]
    refine List.perm_middle.nodup_iff.mpr (List.nodup_cons.mpr ⟨fun hm => ?_, h⟩)
    rcases List.mem_append.mp hm with hm | hm
    · obtain ⟨x, hx, hsame⟩ := List.mem_map.mp hm
      exact hfresh x hx hsame
    · obtain ⟨x, hx, hsame⟩ := List.mem_map.mp hm
      exact hquiet x hx (hsame.trans hasked)
  | admitted e st a hturn htop halive hroom hkeyed harrivals hnext =>
    rw [harrivals, List.map_cons] at h
    refine ((hkeyed.map (·.key)).append_right _).nodup_iff.mpr ?_
    exact List.perm_middle.nodup_iff.mp h

theorem Apart.clear {maxKeyed : Nat} (h : Apart s) (hcapped : Capped maxKeyed s) (ev : Event) :
    Clear maxKeyed s ev := by
  cases ev with
  | returns r =>
    intro set names e st hs _ _ _ _ x hx hkey _
    have hguest : e ∈ s.arrivals := by
      rw [arrivals, hs]
      exact List.mem_cons_self
    have hwaits : x ∈ s.keyedIn := mem_keyedIn.mpr ⟨hx, hkey ▸ hcapped.guests e hguest⟩
    apply (List.nodup_append.mp h).2.2 _ (List.mem_map_of_mem hwaits) _ (List.mem_map_of_mem hguest)
    exact hkey
  | clock | call | turn | fire => trivial

/-- The item waiting with the smallest number. -/
def Oldest (s : SendPacer) (q : Entry) : Prop :=
  q ∈ s.keyedIn ∧ ∃ n, q.seq = some n ∧ ∀ x ∈ s.keyedIn, x ≠ q → ∃ m, x.seq = some m ∧ n < m

theorem Capped.oldest {maxKeyed : Nat} (h : Capped maxKeyed s) (hq : s.keyed.head? = some q) :
    s.Oldest q := by
  obtain ⟨rest, hrest⟩ := List.head?_eq_some_iff.mp hq
  have hmem (x : Entry) : x ∈ s.keyedIn ↔ x = q ∨ x ∈ rest := by
    rw [← (keyed_perm s).mem_iff, hrest, List.mem_cons]
  have hnumber (x : Entry) (hx : x ∈ s.keyedIn) : ∃ n, x.seq = some n ∧ n < s.seq :=
    h.numbered _ (List.mem_append_left _ (List.mem_map_of_mem hx))
  have hsorted : (q :: rest).Pairwise fun x y => x.seq.getD 0 ≤ y.seq.getD 0 := by
    rw [← hrest]
    refine (List.pairwise_mergeSort (fun x y z hxy hyz => ?_) (fun x y => ?_) _).imp fun hle => ?_
    · simp only [decide_eq_true_eq] at hxy hyz ⊢
      omega
    · simp only [Bool.or_eq_true, decide_eq_true_eq]
      omega
    · simpa using hle
  have hnodup : ((q :: rest).map (·.seq)).Nodup := by
    rw [← hrest]
    exact ((keyed_perm s).map _).nodup_iff.mpr (List.nodup_append.mp h.apart).1
  have hqmem := (hmem q).mpr (Or.inl rfl)
  obtain ⟨n, hn, -⟩ := hnumber q hqmem
  refine ⟨hqmem, n, hn, fun x hx hne => ?_⟩
  have hxrest := ((hmem x).mp hx).resolve_left hne
  obtain ⟨m, hm, -⟩ := hnumber x hx
  have hle := (List.pairwise_cons.mp hsorted).1 x hxrest
  have hseq : q.seq ≠ x.seq := by
    intro heq
    apply (List.nodup_cons.mp hnodup).1
    show q.seq ∈ rest.map (·.seq)
    rw [heq]
    exact List.mem_map_of_mem hxrest
  rw [hn, hm] at hle hseq
  refine ⟨m, hm, ?_⟩
  have : n ≠ m := fun heq => hseq (congrArg some heq)
  simp only [Option.getD_some] at hle
  omega

theorem all_removeRoot (s : SendPacer) (root : Nat) :
    (s.removeRoot root).all = s.all.filter (·.root ≠ root) := by
  simp [all, removeRoot]

theorem mem_enqueue {x : Entry} (hx : x ∈ s.all) : x ∈ (s.enqueue e).all := by
  simp only [all, lanes_enqueue, List.mem_append] at hx ⊢
  tauto

theorem step_admitting {maxKeyed : Nat} {st : List Frame} (hs : s.stack = .admitting e :: st) :
    s.step maxKeyed (.turn a) = s.admitTurn maxKeyed st e := by
  unfold step
  dsimp only
  split
  · next f st' hs' =>
    obtain ⟨rfl, rfl⟩ := List.cons_eq_cons.mp (hs.symm.trans hs')
    rfl
  · next hs' => cases hs.symm.trans hs'

/-- There is room: the item goes behind its lane. -/
theorem step_room {maxKeyed : Nat} {st : List Frame} (hs : s.stack = .admitting e :: st)
    (halive : s.disposed = false) (hroom : s.keyedIn.length < maxKeyed) :
    s.step maxKeyed (.turn a) = (s.withStack st).enqueue e := by
  have hlength := (keyed_perm s).length_eq
  rw [step_admitting hs, admitTurn, if_neg (by simp [halive]), if_neg (by omega)]

/-- There is none: the first of the items sorted goes. -/
theorem step_full {maxKeyed : Nat} {st : List Frame} (hs : s.stack = .admitting e :: st)
    (halive : s.disposed = false) {rest : List Entry} (hkeyed : s.keyedIn = q :: rest)
    (hsorted : (q :: rest).Pairwise fun x y => x.seq.getD 0 ≤ y.seq.getD 0)
    (hfull : maxKeyed ≤ (q :: rest).length) :
    s.step maxKeyed (.turn a) =
      (s.removeRoot q.root).tellAfresh ((s.ofRoot q.root).flatMap fun x => chain x.name) := by
  have hall : s.keyed = q :: rest := by
    rw [keyed, ← keyedIn, hkeyed]
    exact List.mergeSort_of_pairwise (hsorted.imp fun hle => by simpa using hle)
  rw [step_admitting hs, admitTurn, if_neg (by simp [halive]), hall, if_pos hfull]
  rfl

/-- What is dropped to make room is the oldest keyed item, with all it expanded to, of as many
keyed items as may wait. -/
theorem Capped.drops {maxKeyed : Nat} (h : Capped maxKeyed s) {st : List Frame}
    (hs : s.stack = .admitting e :: st) {x : Entry} (hx : x ∈ s.all)
    (hgone : x ∉ (s.step maxKeyed (.turn a)).all) :
    s.keyedIn.length = maxKeyed ∧
      ∃ q, s.Oldest q ∧ (s.step maxKeyed (.turn a)).all = s.all.filter (·.root ≠ q.root) := by
  rw [step_admitting hs] at hgone ⊢
  unfold admitTurn at hgone ⊢
  split at hgone
  · rw [(hooked_tellGone _ _).all] at hgone
    exact absurd hx hgone
  next halive =>
  rw [if_neg halive]
  split at hgone
  · next hfull =>
    rw [if_pos hfull]
    split at hgone
    · next q hq =>
      have hlength := (keyed_perm s).length_eq
      have hbound := h.bound
      refine ⟨by omega, q, h.oldest hq, ?_⟩
      rw [(hooked_tellAfresh _ _).all, all_removeRoot]
    · exact absurd hx hgone
  · exact absurd (mem_enqueue (s := s.withStack st) hx) hgone

theorem of_not_clear {maxKeyed : Nat} (h : ¬ Clear maxKeyed s ev) :
    ∃ r set names e st x, ev = .returns r ∧ s.stack = .told set names :: .admitting e :: st ∧
      (r = .done ∨ r = .throws) ∧ (∀ p ∈ names, p ∈ s.sets set) ∧ s.disposed = false ∧
        s.keyed.length < maxKeyed ∧ x ∈ s.all ∧ x.key = e.key := by
  cases ev with
  | returns r =>
    simp only [Clear, not_forall, not_not] at h
    obtain ⟨set, names, e, st, hs, hends, htold, halive, hroom, x, hx, hkey, -⟩ := h
    exact ⟨r, set, names, e, st, x, rfl, hs, hends, htold, halive, hroom, hx, hkey⟩
  | clock | call | turn | fire => exact absurd trivial h

/-- The last hook of a write that makes room returns. -/
theorem step_told {maxKeyed set : Nat} {names : List Name} {st : List Frame} {r : Return}
    (hs : s.stack = .told set names :: st) (hends : r = .done ∨ r = .throws)
    (htold : ∀ p ∈ names, p ∈ s.sets set) : s.step maxKeyed (.returns r) = s.withStack st := by
  have htells : s.step maxKeyed (.returns r) = (s.withStack st).tell set names := by
    unfold step
    dsimp only
    rw [hs]
    rcases hends with rfl | rfl
    · rfl
    · rfl
  rw [htells]
  exact tell_of_told htold

/-- What such a hook leaves under the key of the write, the write joins. -/
theorem doubled_of_not_clear {maxKeyed : Nat} (h : Capped maxKeyed s) (hnot : ¬ Clear maxKeyed s ev)
    (a : Answers) : ¬ (Run.after (step maxKeyed) s [ev, .turn a]).Unique := by
  obtain ⟨r, set, names, e, st, x, rfl, hs, hends, htold, halive, hroom, hx, hkey⟩ := of_not_clear hnot
  have hguest : e.key.isSome := by
    apply h.guests e
    rw [arrivals, hs]
    exact List.mem_cons_self
  have hpush : step maxKeyed (s.withStack (.admitting e :: st)) (.turn a) =
      (s.withStack st).enqueue e := step_room rfl halive ((keyed_perm s).length_eq ▸ hroom)
  rw [Run.after_cons, Run.after_cons, Run.after_nil, step_told hs hends htold, hpush, unique_iff]
  intro hunique
  have hnodup := ((keyedIn_enqueue (s.withStack st) hguest).map (·.key)).nodup_iff.mp hunique
  apply (List.nodup_cons.mp hnodup).1
  exact List.mem_map.mpr ⟨x, mem_keyedIn.mpr ⟨hx, hkey ▸ hguest⟩, hkey⟩

/-- In every run no more than the cap of keyed items wait, and what is dropped to make room is the
oldest of as many as the cap. No two items wait under one key in a run in which no hook, as the
last that runs to make room for a keyed item, leaves anything written meanwhile waiting under its
key; no run does in which hooks write under other keys. After a hook that does, two will wait. -/
theorem keyed_unique (maxKeyed : Nat) (evs : List Event) :
    let s := Run.after (step maxKeyed) {} evs
    (Run.Within (step maxKeyed) (Clear maxKeyed) {} evs → s.Unique) ∧
      (Run.Within (step maxKeyed) Quiet {} evs →
        Run.Within (step maxKeyed) (Clear maxKeyed) {} evs) ∧
      s.keyedIn.length ≤ max 1 maxKeyed ∧
      (∀ e st a x, s.stack = .admitting e :: st → x ∈ s.all →
        x ∉ (s.step maxKeyed (.turn a)).all → s.keyedIn.length = maxKeyed ∧
          ∃ q, s.Oldest q ∧ (s.step maxKeyed (.turn a)).all = s.all.filter (·.root ≠ q.root)) ∧
      ∀ ev a, ¬ Clear maxKeyed s ev → ¬ (Run.after (step maxKeyed) s [ev, .turn a]).Unique := by
  have hcapped (evs : List Event) : Capped maxKeyed (Run.after (step maxKeyed) {} evs) :=
    Run.invariant (step maxKeyed) (Capped.init maxKeyed) (fun _ ev h => h.step ev) evs
  refine ⟨fun hwithin => ?_, fun hquiet => ?_, (hcapped evs).bound.trans (Nat.le_max_right 1 maxKeyed),
    fun e st a x hs hx hgone => (hcapped evs).drops hs hx hgone,
    fun ev a hnot => doubled_of_not_clear (hcapped evs) hnot a⟩
  · have key := Run.invariant_within (step maxKeyed)
      (P := fun s => (Capped maxKeyed s ∧ Later s) ∧ Ready maxKeyed s ∧ s.Unique)
      ⟨⟨Capped.init maxKeyed, Later.init⟩, (fun _ _ hs => nomatch hs), List.Pairwise.nil⟩
      (fun s ev h hclear => ⟨⟨h.1.1.step ev, h.1.2.step h.1.1 ev⟩, h.2.1.step h.1.2 hclear,
        h.2.2.step h.2.1⟩) evs hwithin
    exact key.2.2
  · apply Run.within_of_after
    intro evs' ev rest hevs
    subst hevs
    have happart := Run.invariant_within (step maxKeyed) (P := Apart) (show Apart {} from List.nodup_nil)
      (fun _ _ h hq => h.step hq) evs' ((Run.within_append (step maxKeyed)).mp hquiet).1
    exact happart.clear (hcapped evs') ev

/-- A reply under a key, which the connection holds. -/
def reply (k : String) : Event :=
  .call (.write (.text "NOTICE a :b") { key := some k }) { holding := true }

def held : Event := .turn { holding := true }

/-- The entry of the `n`-th reply. -/
def replyEntry (n : Nat) (k : String) : Entry :=
  { name := [n], priority := .normal, seq := some n, body := .text "NOTICE a :b", key := some k
    onSent := [[n]] }

/-- Two replies wait, and a third makes room. -/
def crowd : List Event := [reply "a", held, held, reply "c", held, held, reply "b", held]

def oneWaits : SendPacer := ((step 2 {} (reply "a")).withStack []).enqueue (replyEntry 0 "a")

def twoWait : SendPacer :=
  ((step 2 (step 2 oneWaits held) (reply "c")).withStack []).enqueue (replyEntry 1 "c")

def firstDropped : SendPacer :=
  ((step 2 (step 2 twoWait held) (reply "b")).removeRoot 0).tellAfresh [[0]]

theorem crowd_eq : Run.after (step 2) {} crowd = firstDropped := by
  have h1 : step 2 (step 2 {} (reply "a")) held = oneWaits :=
    step_room (e := replyEntry 0 "a") (by decide +kernel) (by decide +kernel) (by decide +kernel)
  have h2 : step 2 (step 2 (step 2 oneWaits held) (reply "c")) held = twoWait :=
    step_room (e := replyEntry 1 "c") (by decide +kernel) (by decide +kernel) (by decide +kernel)
  have h3 : step 2 (step 2 (step 2 twoWait held) (reply "b")) held = firstDropped :=
    @step_full _ (replyEntry 2 "b") (replyEntry 0 "a") _ 2 [] (by decide +kernel) (by decide +kernel)
      [replyEntry 1 "c"] (by decide +kernel) (by decide +kernel) (by decide)
  simp only [Run.after, crowd, List.foldl_cons, List.foldl_nil, h1, h2, h3]

/-- The hook of the reply that is dropped writes nothing, and the third takes its place. -/
theorem keyed_unique_crowd : (Run.after (step 2) {} (crowd ++ [.returns .done, held])).Unique := by
  refine (keyed_unique 2 _).1 ((Run.within_append (step 2)).mpr ⟨?_, ?_⟩)
  · exact ⟨trivial, trivial, trivial, trivial, trivial, trivial, trivial, trivial, trivial⟩
  · rw [crowd_eq]
    refine ⟨fun set names e st hs _ _ _ _ x hx hkey => ?_, trivial, trivial⟩
    have hstack : firstDropped.stack = [.told 1 [], .admitting (replyEntry 2 "b")] := by
      decide +kernel
    have hall : firstDropped.all = [replyEntry 1 "c"] := by decide +kernel
    rw [hstack] at hs
    rw [hall] at hx
    obtain rfl := Frame.admitting.inj (List.cons.inj (List.cons.inj hs).2).1
    obtain rfl := List.mem_singleton.mp hx
    exact absurd hkey (by decide)

/-- The hook of the reply that is dropped writes a fourth under the third's key, and the second is
dropped to make room once more. -/
def crowdAgain : List Event :=
  [reply "b", held, held, .returns .done, held, .returns .done, held]

def hookWrote : SendPacer :=
  ((step 2 firstDropped (reply "b")).withStack firstDropped.stack).enqueue (replyEntry 3 "b")

def secondDropped : SendPacer :=
  ((step 2 (step 2 hookWrote held) (.returns .done)).removeRoot 1).tellAfresh [[1]]

def twoUnderOneKey : SendPacer :=
  ((step 2 secondDropped (.returns .done)).withStack []).enqueue (replyEntry 2 "b")

theorem crowdAgain_eq : Run.after (step 2) {} (crowd ++ crowdAgain) = twoUnderOneKey := by
  have h4 : step 2 (step 2 firstDropped (reply "b")) held = hookWrote :=
    step_room (e := replyEntry 3 "b") (by decide +kernel) (by decide +kernel) (by decide +kernel)
  have h5 : step 2 (step 2 (step 2 hookWrote held) (.returns .done)) held = secondDropped :=
    @step_full _ (replyEntry 2 "b") (replyEntry 1 "c") _ 2 [] (by decide +kernel) (by decide +kernel)
      [replyEntry 3 "b"] (by decide +kernel) (by decide +kernel) (by decide)
  have h6 : step 2 (step 2 secondDropped (.returns .done)) held = twoUnderOneKey :=
    step_room (e := replyEntry 2 "b") (by decide +kernel) (by decide +kernel) (by decide +kernel)
  rw [Run.after_append, crowd_eq]
  simp only [Run.after, crowdAgain, List.foldl_cons, List.foldl_nil, h4, h5, h6]

theorem reply_written_twice : ¬ (Run.after (step 2) {} (crowd ++ crowdAgain)).Unique := by
  rw [crowdAgain_eq, unique_iff]
  decide +kernel

end SendPacer

end Lurker.Outbound
