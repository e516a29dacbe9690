import Lurker.Lib.Run
import Lurker.Outbound.Waiting
import Mathlib.Tactic.Linarith
import Mathlib.Tactic.Ring

/-!
# The flood budget

The server charges every line by the clock rule; what the queue keeps in
`since` is that clock. A line leaves a lane only while its charge fits, and
while anything waits the queue is draining, a wait is on, or it is not the
queue that holds the line back.
-/

namespace Lurker.Outbound

/-- What a line charged at `time` does to the server's clock. -/
def advance (time : ℚ) (clock : ℚ) (line : String) : ℚ := max clock time + costOf line

/-- Neither charged to the server's clock nor a new socket. -/
def Note.isQuiet : Note → Bool
  | .sent .. | .dropped => false
  | _ => true

theorem Note.isQuiet_of_isHook {n : Note} (h : n.isHook) : n.isQuiet := by
  cases n with
  | onSent | onDropped => rfl
  | made | queued | sent | refused | skipped | cancelled | dropped => exact nomatch h

/-- The server's clock after one more thing has happened. -/
def Note.tick (clock : ℚ) : Note → ℚ
  | .sent _ lines _ true time => lines.foldl (advance time) clock
  | .dropped => 0
  | _ => clock

/-- The server's clock: every charged line since the last new socket. -/
def serverClock (log : List Note) : ℚ := log.foldl Note.tick 0

/-- How far a line may bring the clock ahead; a unit is admitted on its first line. -/
def Entry.allowance (e : Entry) (lines : List String) : ℚ :=
  match e.body with
  | .unit ls => max BURST_BUDGET_MS (costOf (ls.headD "")) + (lines.tail.map costOf).sum
  | _ => max BURST_BUDGET_MS ((lines.map costOf).sum)

/-- What went from a lane left the clock within its allowance. -/
def Fits (before : List Note) : Note → Prop
  | n@(.sent e lines true _ time) => serverClock (before ++ [n]) ≤ time + e.allowance lines
  | _ => True

def Bounded (log : List Note) : Prop := ∀ pre n post, log = pre ++ n :: post → Fits pre n

theorem bounded_concat {log : List Note} {n : Note} :
    Bounded (log ++ [n]) ↔ Bounded log ∧ Fits log n := by
  constructor
  · intro h
    exact ⟨fun pre m post he => h pre m (post ++ [n]) (by rw [he]; simp), h log n [] rfl⟩
  · rintro ⟨h, hn⟩ pre m post he
    rcases List.eq_nil_or_concat post with rfl | ⟨post', x, rfl⟩
    · obtain ⟨rfl, hx⟩ := List.append_inj' he rfl
      cases hx
      exact hn
    · have he' : log ++ [n] = (pre ++ m :: post') ++ [x] := by rw [he]; simp
      obtain ⟨rfl, -⟩ := List.append_inj' he' rfl
      exact h pre m post' rfl

theorem serverClock_concat (log : List Note) (n : Note) :
    serverClock (log ++ [n]) = n.tick (serverClock log) := by
  simp [serverClock, List.foldl_append]

theorem Note.tick_quiet {n : Note} (h : n.isQuiet) (c : ℚ) : n.tick c = c := by
  cases n with
  | sent | dropped => exact nomatch h
  | made | queued | refused | skipped | onSent | onDropped | cancelled => rfl

theorem fits_quiet {n : Note} (h : n.isQuiet) (log : List Note) : Fits log n := by
  cases n with
  | sent | dropped => exact nomatch h
  | made | queued | refused | skipped | onSent | onDropped | cancelled => trivial

theorem serverClock_quiet {ns : List Note} (h : ∀ n ∈ ns, n.isQuiet) (log : List Note) :
    serverClock (log ++ ns) = serverClock log := by
  induction ns using List.reverseRecOn with
  | nil => rw [List.append_nil]
  | append_singleton ns n ih =>
    rw [← List.append_assoc, serverClock_concat, Note.tick_quiet (h n (by simp)),
      ih (fun m hm => h m (by simp [hm]))]

theorem bounded_quiet {ns : List Note} (h : ∀ n ∈ ns, n.isQuiet) {log : List Note}
    (hb : Bounded log) : Bounded (log ++ ns) := by
  induction ns using List.reverseRecOn with
  | nil => rwa [List.append_nil]
  | append_singleton ns n ih =>
    rw [← List.append_assoc, bounded_concat]
    exact ⟨ih (fun m hm => h m (by simp [hm])), fits_quiet (h n (by simp)) _⟩

/-- Lines charged at one time advance the clock by their sum. -/
theorem foldl_advance (time c : ℚ) (l : String) (ls : List String) :
    (l :: ls).foldl (advance time) c = max c time + ((l :: ls).map costOf).sum := by
  have hge : ∀ (ls : List String) (c : ℚ), time ≤ c →
      ls.foldl (advance time) c = c + (ls.map costOf).sum := by
    intro ls
    induction ls with
    | nil => intro c _; simp
    | cons l ls ih =>
      intro c hc
      have hpos := costOf_pos l
      rw [List.foldl_cons, advance, max_eq_left hc, ih _ (by linarith), List.map_cons, List.sum_cons]
      ring
  rw [List.foldl_cons, advance, hge ls _ (by have := costOf_pos l; have := le_max_right c time; linarith),
    List.map_cons, List.sum_cons]
  ring

/-- An item the rule is about: it pays, and a unit has a line. -/
def Entry.Pays (e : Entry) : Prop := e.unpaced = false ∧ e.body ≠ .unit []

theorem Entry.pays_children {e x : Entry} (h : e.Pays) {items : List Made}
    (hx : x ∈ e.children items) : x.Pays := by
  obtain ⟨i, hi, rfl⟩ := List.mem_mapIdx.mp hx
  have hchild : ∀ m, (e.child i m).Pays := fun m => ⟨h.1, by cases m <;> simp [Entry.child]⟩
  dsimp only
  split
  · exact hchild _
  · exact hchild _

namespace Frame

/-- The items a frame still holds. -/
def entries : Frame → List Entry
  | .building e | .buildingNow e | .atOnce e _ _ | .admitting e => [e]
  | _ => []

theorem entries_of_isHook {f : Frame} (h : f.isHook) : f.entries = [] := by
  cases f <;> simp_all [isHook, entries]

end Frame

namespace SendPacer

/-- The queue's clock is the server's. -/
structure OnBudget (s : SendPacer) : Prop where
  clock : s.since = serverClock s.log
  bounded : Bounded s.log
  lanes : ∀ p, ∀ x ∈ s.lanes p, x.Pays
  frames : ∀ f ∈ s.stack, ∀ x ∈ f.entries, x.Pays

/-- The condition on a step: pacing is on, and no item is unpaced. -/
def Paced (_ : SendPacer) : Event → Prop
  | .call (.write _ o) a => a.paced = true ∧ o.unpaced = false
  | .call _ a => a.paced = true
  | .turn a => a.paced = true
  | _ => True

namespace OnBudget

variable {s t : SendPacer} {e : Entry}

theorem hooked (h : s.OnBudget) (hh : Hooked s t) : t.OnBudget := by
  obtain ⟨ns, hns, hall⟩ := hh.log
  obtain ⟨fs, hfs, hfall⟩ := hh.stack
  refine ⟨?_, ?_, fun p x hx => h.lanes p x (hh.lanes ▸ hx), fun f hf x hx => ?_⟩
  · rw [hh.since, h.clock, hns, serverClock_quiet fun n hn => Note.isQuiet_of_isHook (hall n hn)]
  · rw [hns]
    exact bounded_quiet (fun n hn => Note.isQuiet_of_isHook (hall n hn)) h.bounded
  · rcases List.mem_append.mp (hfs ▸ hf) with hf | hf
    · rw [Frame.entries_of_isHook (hfall f hf)] at hx
      exact absurd hx List.not_mem_nil
    · exact h.frames f hf x hx

theorem note (h : s.OnBudget) {n : Note} (hn : n.isQuiet) : (s.note n).OnBudget := by
  have hall : ∀ m ∈ [n], m.isQuiet := fun m hm => List.mem_singleton.mp hm ▸ hn
  refine ⟨?_, bounded_quiet hall h.bounded, h.lanes, h.frames⟩
  exact h.clock.trans (serverClock_quiet hall _).symm

theorem push (h : s.OnBudget) {f : Frame} (hf : ∀ x ∈ f.entries, x.Pays) : (s.push f).OnBudget :=
  ⟨h.clock, h.bounded, h.lanes, fun _ hg x hx =>
    (List.mem_cons.mp hg).elim (fun he => hf x (he ▸ hx)) (fun hg => h.frames _ hg x hx)⟩

theorem withStack (h : s.OnBudget) {st : List Frame} (hst : ∀ f ∈ st, f ∈ s.stack) :
    (s.withStack st).OnBudget :=
  ⟨h.clock, h.bounded, h.lanes, fun f hf => h.frames f (hst f hf)⟩

theorem setTimer (h : s.OnBudget) (w : Option ℚ) : (s.setTimer w).OnBudget :=
  ⟨h.clock, h.bounded, h.lanes, h.frames⟩

theorem halt (h : s.OnBudget) (b : Bool) : (s.halt b).OnBudget :=
  ⟨h.clock, h.bounded, h.lanes, h.frames⟩

theorem setLane (h : s.OnBudget) (p : Priority) {es : List Entry} (hes : ∀ x ∈ es, x.Pays) :
    (s.setLane p es).OnBudget := by
  refine ⟨h.clock, h.bounded, fun q x hx => ?_, h.frames⟩
  by_cases hq : q = p
  · subst hq
    exact hes x (by simpa [SendPacer.setLane] using hx)
  · exact h.lanes q x (by simpa [SendPacer.setLane, hq] using hx)

theorem drain (h : s.OnBudget) : s.drain.OnBudget := by
  unfold SendPacer.drain
  split
  · exact h
  · exact (h.halt false).push (fun _ hx => absurd hx List.not_mem_nil)

theorem redrain (h : s.OnBudget) : s.redrain.OnBudget := by
  unfold SendPacer.redrain
  split
  · exact h.drain
  · exact (h.setTimer none).drain

/-- Lines went: the note and the charge agree. -/
theorem went (h : s.OnBudget) {lines : List String} {lane charged : Bool} {u : SendPacer}
    (hu : u.log = s.log ++ [.sent e lines lane charged s.now]) (hl : u.lanes = s.lanes)
    (hst : u.stack = s.stack)
    (hclock : u.since = if charged then lines.foldl (advance s.now) s.since else s.since)
    (hfit : lane = true → u.since ≤ s.now + e.allowance lines) : u.OnBudget := by
  have hserver : u.since = serverClock u.log := by
    rw [hclock, hu, serverClock_concat, ← h.clock]
    cases charged <;> rfl
  refine ⟨hserver, ?_, hl ▸ h.lanes, hst ▸ h.frames⟩
  rw [hu, bounded_concat]
  refine ⟨h.bounded, ?_⟩
  cases lane with
  | false => trivial
  | true =>
    change serverClock _ ≤ _
    rw [← hu, ← hserver]
    exact hfit rfl

variable {a : Answers}

theorem sendNow (h : s.OnBudget) (he : e.Pays) (ha : a.paced = true) {text : String}
    {lane charged : Bool} (hbody : ∀ ls, e.body ≠ .unit ls)
    (hfit : lane = true → charged = true ∧ s.since + costOf text ≤ s.now + BURST_BUDGET_MS) :
    (s.sendNow e text lane charged a).OnBudget := by
  unfold SendPacer.sendNow
  split
  · refine hooked (@went _ e h [text] lane charged _
      ?_ ?_ ?_ ?_ ?_) (hooked_callSent _ _)
    · cases charged <;> rfl
    · cases charged <;> rfl
    · cases charged <;> rfl
    · cases charged with
      | false => rfl
      | true => simp [charge, SendPacer.note, price, ha, he.1, advance]
    · intro hlane
      obtain ⟨rfl, hle⟩ := hfit hlane
      have hallow : e.allowance [text] = max BURST_BUDGET_MS (costOf text) := by
        unfold Entry.allowance
        split
        · exact absurd ‹_› (hbody _)
        · simp
      have hmax : max s.since s.now + costOf text ≤ s.now + max BURST_BUDGET_MS (costOf text) := by
        rw [← max_add_add_right, ← max_add_add_left]
        exact max_le_max hle le_rfl
      rw [hallow]
      simpa [charge, SendPacer.note, price, ha, he.1] using hmax
  · exact (h.note rfl).hooked (hooked_refuse _ _)

theorem total_eq (ha : a.paced = true) (lines : List String) :
    total a lines = (lines.map costOf).sum := by
  unfold total
  congr 1
  exact List.map_congr_left fun l _ => by simp [price, ha]

/-- What the socket took of a unit is the unit's own front. -/
theorem taken_front (takes : Nat → Bool) (i : Nat) (l : String) (ls : List String) :
    taken takes i (l :: ls) = [] ∨ ∃ ls', taken takes i (l :: ls) = l :: ls' := by
  unfold taken
  split
  · exact .inr ⟨_, rfl⟩
  · exact .inl rfl

/-- The charge of a unit that went, or of the part that went. -/
theorem unitWent (h : s.OnBudget) (ha : a.paced = true) {l : String}
    {ls went : List String} {charged : Bool} (hbody : e.body = .unit (l :: ls))
    (hfit : charged = true → s.since + costOf l ≤ s.now + BURST_BUDGET_MS)
    (hwent : ∃ ls', went = l :: ls') :
    let t := s.note (.sent e went charged charged s.now)
    (if charged then t.charge (total a went) s.now false else t).OnBudget := by
  obtain ⟨ls', rfl⟩ := hwent
  refine @OnBudget.went _ e h (l :: ls') charged charged _
    ?_ ?_ ?_ ?_ ?_
  · cases charged <;> rfl
  · cases charged <;> rfl
  · cases charged <;> rfl
  · cases charged with
    | false => rfl
    | true => simp only [↓reduceIte, charge, SendPacer.note, total_eq ha, foldl_advance, Bool.false_eq_true]
  · rintro rfl
    have hle := hfit rfl
    have hallow : e.allowance (l :: ls') =
        max BURST_BUDGET_MS (costOf l) + (ls'.map costOf).sum := by
      simp [Entry.allowance, hbody]
    have hmax : max s.since s.now + costOf l ≤ s.now + max BURST_BUDGET_MS (costOf l) := by
      rw [← max_add_add_right, ← max_add_add_left]
      exact max_le_max hle le_rfl
    rw [hallow]
    simp only [↓reduceIte, charge, SendPacer.note, total_eq ha, List.map_cons, List.sum_cons,
      Bool.false_eq_true]
    linarith

theorem sendUnit (h : s.OnBudget) (he : e.Pays) (ha : a.paced = true) {lines : List String}
    {charged : Bool} (hbody : e.body = .unit lines)
    (hfit : charged = true → s.since + costOf (lines.headD "") ≤ s.now + BURST_BUDGET_MS) :
    (s.sendUnit e lines charged a).OnBudget := by
  obtain _ | ⟨l, ls⟩ := lines
  · exact absurd hbody he.2
  · unfold SendPacer.sendUnit
    dsimp only
    rcases taken_front a.takes 0 l ls with hnone | hsome
    · -- nothing went: no charge, and the unit is told
      rw [hnone, if_pos rfl, if_neg (by simp), if_neg (by simp [total])]
      exact (h.note rfl).hooked (hooked_refuse _ _)
    · have hne : taken a.takes 0 (l :: ls) ≠ [] := by
        obtain ⟨ls', hls⟩ := hsome
        simp [hls]
      have hunit := unitWent h ha hbody hfit hsome
      rw [if_neg hne]
      split
      · exact hunit.hooked (hooked_callSent _ _)
      · have hpos : total a (taken a.takes 0 (l :: ls)) ≠ 0 := by
          obtain ⟨ls', hls⟩ := hsome
          have hnn : 0 ≤ (ls'.map costOf).sum := List.sum_nonneg fun x hx => by
            obtain ⟨y, -, rfl⟩ := List.mem_map.mp hx
            exact (costOf_pos y).le
          have := costOf_pos l
          rw [total_eq ha, hls, List.map_cons, List.sum_cons]
          linarith
        simp only [hpos, ne_eq, not_false_eq_true, and_true]
        exact (hunit.note rfl).hooked (hooked_refuse _ _)

theorem head_pays (h : s.OnBudget) (he : s.head = some e) : e.Pays := by
  have hmem : e ∈ s.all := List.mem_of_head? he
  simp only [SendPacer.all, List.mem_append] at hmem
  rcases hmem with (hx | hx) | hx
  exacts [h.lanes _ e hx, h.lanes _ e hx, h.lanes _ e hx]

theorem drainTurn (h : s.OnBudget) (ha : a.paced = true) {st : List Frame}
    (hst : ∀ f ∈ st, f ∈ s.stack) : (s.drainTurn st a).OnBudget := by
  unfold SendPacer.drainTurn
  split
  · exact h.withStack hst
  rename_i e he
  have hpays : e.Pays := h.head_pays he
  have htail : (s.setLane e.priority (s.lanes e.priority).tail).OnBudget :=
    h.setLane _ fun x hx => h.lanes _ x (List.mem_of_mem_tail hx)
  have hstop : ∀ u : SendPacer, u.OnBudget → u.stack = s.stack →
      ((u.halt true).withStack (.drainEnd :: st)).OnBudget := by
    refine fun u hu hstack => ⟨hu.clock, hu.bounded, hu.lanes, fun f hf x hx => ?_⟩
    rcases List.mem_cons.mp hf with rfl | hf
    · exact absurd hx List.not_mem_nil
    · exact hu.frames f (hstack ▸ hst f hf) x hx
  split
  · exact (h.halt true).withStack hst
  split
  · exact (h.setTimer _).withStack hst
  rename_i hfit
  have hover : s.since + admission e ≤ s.now + BURST_BUDGET_MS := by
    rw [ha, hpays.1, Bool.not_false, Bool.and_true, Bool.true_and, decide_eq_true_eq, not_lt,
      excess] at hfit
    linarith
  dsimp only
  split
  · exact htail.note rfl
  split
  · exact htail.push fun x hx => by rwa [List.mem_singleton.mp hx]
  · -- a line
    rename_i t hbody
    have hunit : ∀ ls, e.body ≠ .unit ls := by simp [hbody]
    have hle : s.since + costOf t ≤ s.now + BURST_BUDGET_MS := by
      simpa only [admission, hbody] using hover
    split
    · exact htail.sendNow hpays ha hunit fun _ => ⟨rfl, hle⟩
    · exact (hstop _ htail rfl).sendNow hpays ha hunit fun _ => ⟨rfl, hle⟩
  · -- a unit
    rename_i lines hbody
    have hle : s.since + costOf (lines.headD "") ≤ s.now + BURST_BUDGET_MS := by
      simpa only [admission, hbody] using hover
    split
    · exact htail.sendUnit hpays ha hbody fun _ => hle
    · exact (hstop _ htail rfl).sendUnit hpays ha hbody fun _ => hle

theorem expand (h : s.OnBudget) (he : e.Pays) (items : List Made) : (s.expand e items).OnBudget :=
  (h.setLane _ fun x hx => (List.mem_append.mp hx).elim (Entry.pays_children he) (h.lanes _ x)).note rfl

theorem sendAtOnce (h : s.OnBudget) (he : e.Pays) (ha : a.paced = true) :
    (s.sendAtOnce e a).OnBudget := by
  unfold SendPacer.sendAtOnce
  split
  · exact h.sendUnit he ha ‹_› (nomatch ·)
  · exact h.push fun x hx => by rwa [List.mem_singleton.mp hx]
  · exact h.sendNow he ha (by simp [*]) (nomatch ·)

theorem mem_of_abort {st : List Frame} {f : Frame} (h : f ∈ abort st) : f ∈ st :=
  (List.dropWhile_sublist _).mem h

theorem child_pays (he : e.Pays) (i : Nat) (m : Made) : (e.child i m).Pays :=
  ⟨he.1, by cases m <;> simp [Entry.child]⟩

theorem child_not_unit (i : Nat) (m : Made) (ls : List String) : (e.child i m).body ≠ .unit ls := by
  cases m <;> simp [Entry.child]

theorem atOnceTurn (h : s.OnBudget) (he : e.Pays) (ha : a.paced = true) {st : List Frame}
    (hst : ∀ f ∈ st, f ∈ s.stack) (i : Nat) (items : List Made) :
    (s.atOnceTurn st e i a items).OnBudget := by
  have hmore : ∀ f ∈ [Frame.atOnce e (i + 1) items.tail], ∀ x ∈ f.entries, x.Pays := by
    intro f hf x hx
    rw [List.mem_singleton.mp hf] at hx
    rwa [List.mem_singleton.mp hx]
  cases items with
  | nil => exact (h.withStack hst).hooked (hooked_callSent _ _)
  | cons m items =>
    have hown := child_pays he i m
    have hloop : (s.withStack (.atOnce e (i + 1) items :: st)).OnBudget :=
      (h.withStack hst).push (hmore _ (List.mem_singleton_self _))
    unfold SendPacer.atOnceTurn
    dsimp only
    split
    · split
      · exact hloop.sendNow hown ha (child_not_unit i m) (nomatch ·)
      · exact (h.withStack fun f hf => hst f (mem_of_abort hf)).sendNow hown ha
          (child_not_unit i m) (nomatch ·)
    · exact hloop.push fun x hx => by rwa [List.mem_singleton.mp hx]

theorem enqueue (h : s.OnBudget) (he : e.Pays) : (s.enqueue e).OnBudget :=
  ((h.setLane _ fun x hx => (List.mem_append.mp hx).elim (h.lanes _ x) fun hx => by
    rwa [List.mem_singleton.mp hx]).note rfl).redrain

theorem replace (h : s.OnBudget) (he : e.Pays) (q : Entry) : (s.replace q e).OnBudget := by
  refine (h.setLane _ fun x hx => ?_).note rfl
  obtain ⟨y, hy, rfl⟩ := List.mem_map.mp hx
  split
  · exact he
  · exact h.lanes _ y hy

theorem queueUp (h : s.OnBudget) (he : e.Pays) : (s.queueUp e).OnBudget := by
  unfold SendPacer.queueUp
  split
  · exact h.enqueue he
  · split
    · exact h.replace he _
    · exact h.push fun x hx => by rwa [List.mem_singleton.mp hx]

theorem takeId (h : s.OnBudget) : s.takeId.OnBudget := ⟨h.clock, h.bounded, h.lanes, h.frames⟩

theorem admitNew (h : s.OnBudget) (e : Entry) : (s.admitNew e).OnBudget := h.takeId.note rfl

theorem takeSeq (h : s.OnBudget) : s.takeSeq.OnBudget := ⟨h.clock, h.bounded, h.lanes, h.frames⟩

theorem write (h : s.OnBudget) (ha : a.paced = true) (item : Item) {o : WriteOptions}
    (ho : o.unpaced = false) : (s.write item o a).OnBudget := by
  unfold SendPacer.write
  split
  · exact h.takeId.hooked (hooked_tellGone _ _)
  dsimp only
  split
  · exact (h.admitNew _).takeSeq.sendAtOnce ⟨ho, by cases item <;> simp⟩ ha
  split
  · split
    · exact (h.admitNew _).takeSeq.sendNow ⟨ho, by simp⟩ ha (by simp) (nomatch ·)
    · exact (h.admitNew _).takeSeq.queueUp ⟨ho, by simp⟩
  · exact (h.admitNew _).takeSeq.queueUp ⟨ho, by simp⟩

theorem unit (h : s.OnBudget) (ha : a.paced = true) (lines : List String) (p : Priority) :
    (s.unit lines p a).OnBudget := by
  unfold SendPacer.unit
  split
  · exact h.takeId.hooked (hooked_tellGone _ _)
  rename_i hlines
  have hne : lines ≠ [] := by
    rintro rfl
    simp at hlines
  dsimp only
  split
  · exact (h.admitNew _).sendAtOnce ⟨rfl, by simpa using hne⟩ ha
  · exact (h.admitNew _).enqueue ⟨rfl, by simpa using hne⟩

theorem removeRoot (h : s.OnBudget) (root : Nat) : (s.removeRoot root).OnBudget :=
  ⟨h.clock, h.bounded, fun p x hx => h.lanes p x (List.mem_of_mem_filter hx), h.frames⟩

theorem cancel (h : s.OnBudget) (root : Nat) : (s.cancel root).OnBudget := by
  unfold SendPacer.cancel
  split
  · exact h
  · exact (h.removeRoot root).note rfl

theorem admitTurn (h : s.OnBudget) (he : e.Pays) (maxKeyed : Nat) {st : List Frame}
    (hst : ∀ f ∈ st, f ∈ s.stack) : (s.admitTurn maxKeyed st e).OnBudget := by
  unfold SendPacer.admitTurn
  split
  · exact (h.withStack hst).hooked (hooked_tellGone _ _)
  split
  · split
    · exact (h.removeRoot _).hooked (hooked_tellAfresh _ _)
    · exact h
  · exact (h.withStack hst).enqueue he

theorem drop (h : s.OnBudget) : s.drop.OnBudget := by
  have hempty : ({ s.newSet with lanes := fun _ => [], since := 0, timer := none,
                                 refusal := s.nextSet } : SendPacer).note .dropped |>.OnBudget := by
    refine ⟨?_, bounded_concat.mpr ⟨h.bounded, trivial⟩, fun p x hx => ?_, h.frames⟩
    · change 0 = serverClock (_ ++ _)
      rw [serverClock_concat]
      rfl
    · exact absurd hx List.not_mem_nil
  exact hempty.hooked (hooked_tell _ _ _)

theorem dispose (h : s.OnBudget) : s.dispose.OnBudget :=
  drop ⟨h.clock, h.bounded, h.lanes, h.frames⟩

theorem call (h : s.OnBudget) (c : Call) (hc : Paced s (.call c a)) : (s.call a c).OnBudget := by
  cases c with
  | write item o => exact h.write hc.1 item hc.2
  | unit lines p => exact h.unit hc lines p
  | cancel root => exact h.cancel root
  | redrain => exact h.redrain
  | resume => exact h.drain
  | drop => exact h.drop
  | dispose => exact h.dispose

theorem turn (h : s.OnBudget) (ha : a.paced = true) (maxKeyed : Nat) {f : Frame} {st : List Frame}
    (hs : s.stack = f :: st) : (s.turn maxKeyed st a f).OnBudget := by
  have hst : ∀ g ∈ st, g ∈ s.stack := fun g hg => hs ▸ List.mem_cons_of_mem f hg
  have hf := h.frames f (hs ▸ List.mem_cons_self)
  cases f with
  | drain => exact h.drainTurn ha hst
  | drainEnd => exact h.withStack hst
  | atOnce e i items => exact h.atOnceTurn (hf e (List.mem_singleton_self e)) ha hst i items
  | admitting e => exact h.admitTurn (hf e (List.mem_singleton_self e)) maxKeyed hst
  | building | buildingNow | sent | told => exact h

theorem return_ (h : s.OnBudget) (r : Return) {f : Frame} {st : List Frame}
    (hs : s.stack = f :: st) : (s.return_ st r f).OnBudget := by
  have hst : ∀ g ∈ st, g ∈ s.stack := fun g hg => hs ▸ List.mem_cons_of_mem f hg
  have hf := h.frames f (hs ▸ List.mem_cons_self)
  cases f with
  | sent hooks =>
    cases r with
    | done => exact (h.withStack hst).hooked (hooked_callSent _ _)
    | throws => exact h.withStack hst
    | built | made => exact h
  | told set names =>
    cases r with
    | done | throws => exact (h.withStack hst).hooked (hooked_tell _ _ _)
    | built | made => exact h
  | building e =>
    have he := hf e (List.mem_singleton_self e)
    unfold SendPacer.return_
    dsimp only
    split
    · exact (h.withStack hst).hooked (hooked_tellAfresh _ _)
    · split
      · exact (h.withStack hst).expand he _
      · exact h
  | buildingNow e =>
    have he := hf e (List.mem_singleton_self e)
    unfold SendPacer.return_
    dsimp only
    split
    · exact (h.withStack fun g hg => hst g (mem_of_abort hg)).hooked (hooked_refuse _ _)
    · split
      · exact h.withStack hst
      · exact ((h.withStack hst).push fun x hx => by rwa [List.mem_singleton.mp hx]).note rfl
      · exact h
  | drain | drainEnd | atOnce | admitting => exact h

theorem step (h : s.OnBudget) (maxKeyed : Nat) (e : Event) (hc : Paced s e) :
    (s.step maxKeyed e).OnBudget := by
  cases e with
  | clock t => exact ⟨h.clock, h.bounded, h.lanes, h.frames⟩
  | call c a =>
    unfold SendPacer.step
    dsimp only
    split
    · exact h.call c hc
    · exact h
  | turn a =>
    unfold SendPacer.step
    dsimp only
    split
    · exact h.turn hc maxKeyed ‹_›
    · exact h
  | returns r =>
    unfold SendPacer.step
    dsimp only
    split
    · exact h.return_ r ‹_›
    · exact h
  | fire =>
    unfold SendPacer.step
    dsimp only
    split
    · exact (h.setTimer none).drain
    · exact h

theorem init : OnBudget {} :=
  ⟨rfl, fun _ _ _ h => absurd h (by simp), fun _ _ h => absurd h List.not_mem_nil,
    fun _ h => absurd h List.not_mem_nil⟩

end OnBudget

/-- The drain took its head: the line went, or the socket refused it, or it was
no longer wanted; or the thunk runs. -/
def TookHead (s t : SendPacer) (e : Entry) : Prop :=
  (∃ n ns, t.log = s.log ++ n :: ns ∧
    (n = .refused ∨ n = .skipped e.root ∨ ∃ lines, n = .sent e lines true true s.now)) ∨
  t.stack = .building e :: s.stack

/-- A wait is on after which the head, still there, fits. -/
def Waits (s t : SendPacer) (e : Entry) : Prop :=
  ∃ w, 0 < w ∧ t.timer = some (s.now + w) ∧ t.head = some e ∧
    t.since + admission e ≤ s.now + w + BURST_BUDGET_MS

theorem took_of_hooked {s t u : SendPacer} {e : Entry} {n : Note} (hh : Hooked u t)
    (hu : u.log = s.log ++ [n])
    (hn : n = .refused ∨ n = .skipped e.root ∨ ∃ lines, n = .sent e lines true true s.now) :
    TookHead s t e := by
  obtain ⟨ns, hns, -⟩ := hh.log
  exact .inl ⟨n, ns, by rw [hns, hu, List.append_assoc, List.singleton_append], hn⟩

theorem took_sendNow {s u : SendPacer} {e : Entry} {a : Answers} (hu : u.log = s.log)
    (hnow : u.now = s.now) (text : String) : TookHead s (u.sendNow e text true true a) e := by
  unfold SendPacer.sendNow
  split
  · refine took_of_hooked (hooked_callSent _ _) (n := .sent e [text] true true s.now) ?_
      (.inr (.inr ⟨_, rfl⟩))
    change u.log ++ [.sent e [text] true true u.now] = _
    rw [hu, hnow]
  · refine took_of_hooked (hooked_refuse _ _) (n := .refused) ?_ (.inl rfl)
    change u.log ++ [.refused] = _
    rw [hu]

theorem took_sendUnit {s u : SendPacer} {e : Entry} {a : Answers} (hu : u.log = s.log)
    (hnow : u.now = s.now) {lines : List String} (hne : lines ≠ []) :
    TookHead s (u.sendUnit e lines true a) e := by
  unfold SendPacer.sendUnit
  dsimp only
  by_cases hwent : taken a.takes 0 lines = []
  · rw [if_pos hwent, if_neg (by rw [hwent]; exact hne.symm)]
    refine took_of_hooked (hooked_refuse _ _) (n := .refused) ?_ (.inl rfl)
    rw [hwent, if_neg (by simp [total])]
    change u.log ++ [.refused] = _
    rw [hu]
  · rw [if_neg hwent]
    have hnote : u.log ++ [.sent e (taken a.takes 0 lines) true true u.now] =
        s.log ++ [.sent e (taken a.takes 0 lines) true true s.now] := by rw [hu, hnow]
    split
    · exact took_of_hooked (hooked_callSent _ _) hnote (.inr (.inr ⟨_, rfl⟩))
    · obtain ⟨ns, hns, -⟩ := (hooked_refuse _ e).log
      refine .inl ⟨.sent e (taken a.takes 0 lines) true true s.now, .refused :: ns, ?_,
        .inr (.inr ⟨_, rfl⟩)⟩
      rw [hns]
      change ((if _ then _ else _ : SendPacer).log ++ [_]) ++ ns = _
      split
      · change ((u.log ++ [_]) ++ [_]) ++ ns = _
        rw [hnote]
        simp
      · change ((u.log ++ [_]) ++ [_]) ++ ns = _
        rw [hnote]
        simp

/-- A drain that finds the connection ready and its head free to go takes it, or waits for it. -/
theorem drainTurn_progress {s : SendPacer} (h : s.OnBudget) {e : Entry} (he : s.head = some e)
    {a : Answers} (hready : a.ready = true) (hheld : a.holding = false) (st : List Frame) :
    TookHead s (s.drainTurn st a) e ∨ Waits s (s.drainTurn st a) e := by
  have hpays := h.head_pays he
  unfold SendPacer.drainTurn
  rw [he]
  dsimp only
  rw [if_neg (by simp [hready, hheld])]
  split
  · rename_i hover
    have hpos : 0 < s.excess e := by
      rw [Bool.and_eq_true, decide_eq_true_eq] at hover
      exact hover.2
    refine .inr ⟨s.excess e, hpos, rfl, he, ?_⟩
    change s.since + admission e ≤ s.now + s.excess e + BURST_BUDGET_MS
    unfold excess
    linarith
  refine .inl ?_
  split
  · exact .inl ⟨.skipped e.root, [], rfl, .inr (.inl rfl)⟩
  split
  · exact .inr rfl
  · split
    · exact took_sendNow rfl rfl _
    · exact took_sendNow (s := s) (u := (s.setLane e.priority _ |>.halt true).withStack _) rfl rfl _
  · rename_i lines hbody
    have hne : lines ≠ [] := by
      rintro rfl
      exact hpays.2 hbody
    split
    · exact took_sendUnit rfl rfl hne
    · exact took_sendUnit (s := s) (u := (s.setLane e.priority _ |>.halt true).withStack _) rfl rfl hne

theorem step_drain {s : SendPacer} {st : List Frame} (hs : s.stack = .drain :: st) (maxKeyed : Nat)
    (a : Answers) : s.step maxKeyed (.turn a) = s.drainTurn st a := by
  unfold SendPacer.step
  simp only [hs]
  rfl

/-- The flood budget, over every run with pacing on and no unpaced item. -/
theorem flood_budget (maxKeyed : Nat) (evs : List Event)
    (hrun : Run.Within (SendPacer.step maxKeyed) Paced {} evs) :
    let s := Run.after (SendPacer.step maxKeyed) {} evs
    s.since = serverClock s.log ∧ Bounded s.log ∧
    (s.all ≠ [] → s.draining = true ∨ s.timer.isSome = true ∨ s.halted = true) ∧
    ∀ st e a, s.stack = .drain :: st → s.head = some e → a.ready = true → a.holding = false →
      TookHead s (s.step maxKeyed (.turn a)) e ∨ Waits s (s.step maxKeyed (.turn a)) e := by
  have hinv : OnBudget (Run.after (SendPacer.step maxKeyed) {} evs) :=
    Run.invariant_within _ OnBudget.init (fun s ev h hc => h.step maxKeyed ev hc) evs hrun
  have hwatch : Shaped (Run.after (SendPacer.step maxKeyed) {} evs).stack ∧
      Watched (Run.after (SendPacer.step maxKeyed) {} evs) :=
    Run.invariant (P := fun s => Shaped s.stack ∧ Watched s) (SendPacer.step maxKeyed)
      ⟨.nil, fun h => absurd rfl h, fun h => absurd h List.not_mem_nil⟩
      (fun s ev h => ⟨shaped_step maxKeyed ev h.1, h.2.step h.1 maxKeyed ev⟩) evs
  refine ⟨hinv.clock, hinv.bounded, hwatch.2.waits, fun st e a hst he hready hheld => ?_⟩
  rw [step_drain hst]
  exact drainTurn_progress hinv he hready hheld st

/-- A line that costs more than the whole budget, as a unit of its own. -/
def longUnit : Entry :=
  { name := [0], priority := .normal, body := .unit [String.ofList (List.replicate 900 'a')]
    onSent := [[0]] }

def longUnitRun : List Event :=
  [.clock 1000, .call (.unit [String.ofList (List.replicate 900 'a')] .normal) {}, .turn {}]

theorem flood_budget_long_unit :
    let s := Run.after (SendPacer.step 20) {} longUnitRun
    s.since = serverClock s.log ∧ Bounded s.log ∧
    (s.all ≠ [] → s.draining = true ∨ s.timer.isSome = true ∨ s.halted = true) ∧
    ∀ st e a, s.stack = .drain :: st → s.head = some e → a.ready = true → a.holding = false →
      TookHead s (s.step 20 (.turn a)) e ∨ Waits s (s.step 20 (.turn a)) e :=
  flood_budget 20 longUnitRun ⟨trivial, rfl, rfl, trivial⟩

theorem long_unit_over_budget :
    let s := Run.after (SendPacer.step 20) {} longUnitRun
    ∃ pre e lines post, s.log = pre ++ .sent e lines true true 1000 :: post ∧
      e.body = .unit lines ∧
      ¬serverClock (pre ++ [.sent e lines true true 1000]) ≤
        1000 + BURST_BUDGET_MS + (lines.tail.map costOf).sum :=
  ⟨[.made [[0]], .queued longUnit], longUnit, [String.ofList (List.replicate 900 'a')],
    [.onSent [0]], by decide +kernel, rfl, by decide +kernel⟩

end SendPacer

end Lurker.Outbound
