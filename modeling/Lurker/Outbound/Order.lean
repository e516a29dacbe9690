import Lurker.Lib.Run
import Lurker.Lib.TreePath
import Lurker.Outbound.Stack

/-!
# The order on the wire

A lane is served from its front, and what a thunk makes stands where the thunk
stood. So what has gone from a lane, the entry whose thunk runs, and what waits
in the lane are one sequence, in the order of their names. `Next` is what holds
of an entry just taken from its lane, `Aside` of one that is no lane's.
-/

namespace Lurker.Outbound

open TreePath (Precedes)

/-- Not a line, a cancel or an arrival. -/
def Note.isIdle : Note → Bool
  | .sent .. | .cancelled _ | .queued _ => false
  | _ => true

theorem Note.isIdle_of_isHook {n : Note} (h : n.isHook) : n.isIdle := by
  cases n with
  | onSent | onDropped => rfl
  | made | queued | sent | refused | skipped | cancelled | dropped => exact nomatch h

/-- The lines, cancels and arrivals, in order. -/
def story (log : List Note) : List Note := log.filter (fun n => !n.isIdle)

theorem story_idle {ns : List Note} (h : ∀ n ∈ ns, n.isIdle) (log : List Note) :
    story (log ++ ns) = story log := by
  have hnil : ns.filter (fun n => !n.isIdle) = [] := by
    rw [List.filter_eq_nil_iff]
    exact fun n hn => by simp [h n hn]
  rw [story, List.filter_append, hnil, List.append_nil]
  rfl

/-- The entries sent from a lane, in order. -/
def laneSent (log : List Note) : List Entry :=
  log.filterMap fun
    | .sent e _ true _ _ => some e
    | _ => none

/-- The entries sent past the lanes. -/
def directSent (log : List Note) : List Entry :=
  log.filterMap fun
    | .sent e _ false _ _ => some e
    | _ => none

/-- An item that waited in a lane under a key. -/
def Keyed (log : List Note) (root : Nat) : Prop :=
  ∃ e, .queued e ∈ log ∧ e.key ≠ none ∧ e.root = root

def Entry.IsUnit (e : Entry) : Prop := ∃ lines, e.body = .unit lines

/-- `x` is to go before `y`: both of one item, or of two items of one lane without keys. -/
structure Before (keyed : Nat → Prop) (x y : Entry) : Prop where
  lane : x.root = y.root → x.priority = y.priority
  same : x.root = y.root → Precedes x.name y.name
  plain : x.priority = y.priority → ¬keyed x.root → ¬keyed y.root → Precedes x.name y.name

/-- From a lane, lines go in the order their items were written, each item's as built. -/
def LaneOrder (log : List Note) : Prop := (laneSent log).Pairwise (Before (Keyed log))

/-- What one push put on the wire is what the entry is; a unit's, its lines from the first on. -/
def Carries (e : Entry) (lines : List String) : Prop :=
  match e.body with
  | .text t => lines = [t]
  | .unit ls => lines <+: ls
  | .build _ => False

def Note.Whole : Note → Prop
  | .sent e lines .. => Carries e lines
  | _ => True

/-- Nothing else of a unit's item is ever on the wire. -/
def Note.Apart : Note → Note → Prop
  | .sent x .., .sent y .. => x.IsUnit ∨ y.IsUnit → x.root ≠ y.root
  | _, _ => True

/-- A unit's lines are adjacent on the wire: they are one push, and its item's only one. -/
def UnitsWhole (log : List Note) : Prop := (∀ n ∈ log, n.Whole) ∧ log.Pairwise Note.Apart

def Note.Quiets : Note → Note → Prop
  | .cancelled r, .sent e .. => e.root ≠ r
  | _, _ => True

/-- After a cancel that returned true, no line of the item goes. -/
def CancelHolds (log : List Note) : Prop := log.Pairwise Note.Quiets

namespace Frame

/-- The entry a thunk of the queue is running for. -/
def hand : Frame → List Entry
  | .building e => [e]
  | _ => []

/-- The entry being sent past the lanes. -/
def aside : Frame → List Entry
  | .buildingNow e | .atOnce e _ _ => [e]
  | _ => []

/-- The entry room is being made for. -/
def arriving : Frame → List Entry
  | .admitting e => [e]
  | _ => []

theorem none_of_isHook {f : Frame} (h : f.isHook) : f.hand = [] ∧ f.aside = [] ∧ f.arriving = [] := by
  cases f with
  | sent | told => exact ⟨rfl, rfl, rfl⟩
  | drain | drainEnd | building | buildingNow | atOnce | admitting => exact nomatch h

end Frame

/-- The entry has a name that was given out. -/
structure Known (n : Nat) (e : Entry) : Prop where
  named : ∃ r t, e.name = r :: t ∧ r < n
  unit : e.IsUnit → ∃ r, e.name = [r]

/-- The entry's item was not cancelled, and nothing of it went past the lanes. -/
structure Open (l : List Note) (e : Entry) : Prop where
  uncancelled : .cancelled e.root ∉ l
  lanes : ∀ x ∈ directSent l, x.root ≠ e.root

theorem Known.root_lt {n : Nat} {e : Entry} (h : Known n e) : e.root < n := by
  obtain ⟨r, t, hname, hr⟩ := h.named
  simpa [Entry.root, hname] using hr

section Notes

variable {l : List Note} {e : Entry} {lines : List String} {c lane : Bool} {tm : ℚ}

theorem laneSent_append (m : List Note) : laneSent (l ++ m) = laneSent l ++ laneSent m :=
  List.filterMap_append

theorem directSent_append (m : List Note) : directSent (l ++ m) = directSent l ++ directSent m :=
  List.filterMap_append

theorem laneSent_lane : laneSent (l ++ [.sent e lines true c tm]) = laneSent l ++ [e] :=
  laneSent_append _

theorem laneSent_direct : laneSent (l ++ [.sent e lines false c tm]) = laneSent l :=
  (laneSent_append _).trans (List.append_nil _)

theorem directSent_lane : directSent (l ++ [.sent e lines true c tm]) = directSent l :=
  (directSent_append _).trans (List.append_nil _)

theorem directSent_direct :
    directSent (l ++ [.sent e lines false c tm]) = directSent l ++ [e] :=
  directSent_append _

theorem keyed_sent : Keyed (l ++ [.sent e lines lane c tm]) = Keyed l := by
  funext r
  simp [Keyed]

theorem mem_sent {n : Note} (hn : ∀ e lines lane c tm, n ≠ .sent e lines lane c tm) :
    n ∈ l ++ [.sent e lines lane c tm] ↔ n ∈ l := by
  simp [hn]

theorem cancelled_sent {r : Nat} :
    Note.cancelled r ∈ l ++ [.sent e lines lane c tm] ↔ .cancelled r ∈ l :=
  mem_sent (by simp)

/-- An entry on the wire is one of those sent from a lane or past the lanes. -/
theorem mem_of_sent_mem {x : Entry} {ls : List String} {b c' : Bool} {t' : ℚ}
    (h : Note.sent x ls b c' t' ∈ l) : x ∈ laneSent l ++ directSent l := by
  rw [List.mem_append]
  cases b with
  | true => exact .inl (List.mem_filterMap.mpr ⟨_, h, rfl⟩)
  | false => exact .inr (List.mem_filterMap.mpr ⟨_, h, rfl⟩)

/-- One more line leaves the units whole when nothing of its item went with a unit. -/
theorem UnitsWhole.sent (h : UnitsWhole l) (hc : Carries e lines)
    (hu : ∀ x ∈ laneSent l ++ directSent l, x.IsUnit ∨ e.IsUnit → x.root ≠ e.root) :
    UnitsWhole (l ++ [.sent e lines lane c tm]) := by
  refine ⟨fun n hn => ?_, List.pairwise_append.mpr ⟨h.2, List.pairwise_singleton _ _, ?_⟩⟩
  · rcases List.mem_append.mp hn with hn | hn
    · exact h.1 n hn
    · rw [List.mem_singleton.mp hn]
      exact hc
  · intro n hn m hm
    rw [List.mem_singleton.mp hm]
    cases n with
    | sent x ls b c' t' => exact hu x (mem_of_sent_mem hn)
    | made | queued | refused | skipped | onSent | onDropped | cancelled | dropped => trivial

theorem CancelHolds.sent (h : CancelHolds l) (he : .cancelled e.root ∉ l) :
    CancelHolds (l ++ [.sent e lines lane c tm]) := by
  refine List.pairwise_append.mpr ⟨h, List.pairwise_singleton _ _, fun n hn m hm => ?_⟩
  rw [List.mem_singleton.mp hm]
  cases n with
  | cancelled r =>
    intro hr
    exact he (hr ▸ hn)
  | made | queued | refused | skipped | onSent | onDropped | sent | dropped => trivial

theorem laneSent_idle {n : Note} (hn : ∀ e ls b c t, n ≠ .sent e ls b c t) :
    laneSent (l ++ [n]) = laneSent l ∧ directSent (l ++ [n]) = directSent l := by
  cases n with
  | sent e ls b c t => exact absurd rfl (hn e ls b c t)
  | made | queued | refused | skipped | onSent | onDropped | cancelled | dropped =>
    exact ⟨(laneSent_append _).trans (List.append_nil _),
      (directSent_append _).trans (List.append_nil _)⟩

/-- An arrival or a cancel puts nothing on the wire. -/
theorem unitsWhole_idle (h : UnitsWhole l) {n : Note} (hn : ∀ e ls b c t, n ≠ .sent e ls b c t) :
    UnitsWhole (l ++ [n]) ∧ (CancelHolds l → CancelHolds (l ++ [n])) := by
  have hwhole : n.Whole := by
    cases n with
    | sent e ls b c t => exact absurd rfl (hn e ls b c t)
    | made | queued | refused | skipped | onSent | onDropped | cancelled | dropped => trivial
  have hapart : ∀ m : Note, m.Apart n ∧ m.Quiets n := by
    intro m
    cases n with
    | sent e ls b c t => exact absurd rfl (hn e ls b c t)
    | made | queued | refused | skipped | onSent | onDropped | cancelled | dropped =>
      cases m <;> exact ⟨trivial, trivial⟩
  refine ⟨⟨fun m hm => ?_, List.pairwise_append.mpr ⟨h.2, List.pairwise_singleton _ _, ?_⟩⟩,
    fun hc => List.pairwise_append.mpr ⟨hc, List.pairwise_singleton _ _, ?_⟩⟩
  · rcases List.mem_append.mp hm with hm | hm
    · exact h.1 m hm
    · exact List.mem_singleton.mp hm ▸ hwhole
  · exact fun m _ n' hn' => List.mem_singleton.mp hn' ▸ (hapart m).1
  · exact fun m _ n' hn' => List.mem_singleton.mp hn' ▸ (hapart m).2

theorem keyed_append {l' : List Note} (r : Nat) (h : Keyed l r) : Keyed (l ++ l') r := by
  obtain ⟨e, he, hk⟩ := h
  exact ⟨e, List.mem_append_left _ he, hk⟩

end Notes

theorem Before.of_root_ne {k : Nat → Prop} {x y : Entry} (hr : x.root ≠ y.root)
    (hp : x.priority = y.priority → ¬k x.root → ¬k y.root → Precedes x.name y.name) :
    Before k x y :=
  ⟨fun h => absurd h hr, fun h => absurd h hr, hp⟩

theorem Before.mono {k k' : Nat → Prop} (hkk : ∀ r, k r → k' r) {x y : Entry}
    (h : Before k x y) : Before k' x y :=
  ⟨h.lane, h.same, fun hp hx hy => h.plain hp (fun hk => hx (hkk _ hk)) (fun hk => hy (hkk _ hk))⟩

/-- An entry that stands below another's name, in its lane, under no key. -/
structure Below (e x : Entry) : Prop where
  name : ∃ i, x.name = e.name ++ [i]
  lane : x.priority = e.priority
  thunk : ¬x.IsUnit

theorem mem_children {e x : Entry} {items : List Made} (hx : x ∈ e.children items) : Below e x := by
  obtain ⟨i, hi, rfl⟩ := List.mem_mapIdx.mp hx
  have hchild : ∀ m, Below e (e.child i m) := fun m =>
    ⟨⟨i, rfl⟩, rfl, fun ⟨ls, hls⟩ => by cases m <;> simp [Entry.child] at hls⟩
  dsimp only
  split
  · obtain ⟨hname, hlane, hthunk⟩ := hchild items[i]
    exact ⟨hname, hlane, hthunk⟩
  · exact hchild _

theorem children_names (e : Entry) (items : List Made) :
    (e.children items).Pairwise (fun x y => Precedes x.name y.name) := by
  rw [List.pairwise_iff_getElem]
  intro i j hi hj hij
  have hname : ∀ (k : Nat) (hk : k < (e.children items).length),
      (e.children items)[k].name = e.name ++ [k] := by
    intro k hk
    simp only [Entry.children, List.getElem_mapIdx]
    split <;> rfl
  rw [hname i hi, hname j hj]
  exact Precedes.siblings e.name hij

namespace Below

variable {n : Nat} {k : Nat → Prop} {e x y : Entry}

theorem root (hb : Below e x) (he : Known n e) : x.root = e.root := by
  obtain ⟨r, t, hname, -⟩ := he.named
  obtain ⟨i, hi⟩ := hb.name
  simp [Entry.root, hi, hname]

theorem known (hb : Below e x) (he : Known n e) : Known n x := by
  obtain ⟨r, t, hname, hr⟩ := he.named
  obtain ⟨i, hi⟩ := hb.name
  exact ⟨⟨r, t ++ [i], by rw [hi, hname, List.cons_append], hr⟩, fun hu => absurd hu hb.thunk⟩

theorem before_right (hb : Below e x) (he : Known n e) (h : Before k y e) : Before k y x := by
  obtain ⟨i, hi⟩ := hb.name
  have hroot := hb.root he
  refine ⟨fun hr => ?_, fun hr => ?_, fun hp hy hx => ?_⟩
  · rw [hb.lane]
    exact h.lane (hr.trans hroot)
  · rw [hi]
    exact (h.same (hr.trans hroot)).append_right _
  · rw [hi]
    exact (h.plain (hp.trans hb.lane) hy (hroot ▸ hx)).append_right _

theorem before_left (hb : Below e x) (he : Known n e) (h : Before k e y) : Before k x y := by
  obtain ⟨i, hi⟩ := hb.name
  have hroot := hb.root he
  refine ⟨fun hr => ?_, fun hr => ?_, fun hp hx hy => ?_⟩
  · rw [hb.lane]
    exact h.lane (hroot.symm.trans hr)
  · rw [hi]
    exact (h.same (hroot.symm.trans hr)).append_left _
  · rw [hi]
    exact (h.plain (hb.lane.symm.trans hp) (hroot ▸ hx) hy).append_left _

end Below

/-- A unit is all there is of its item. -/
theorem Before.root_ne_of_unit {n : Nat} {k : Nat → Prop} {x y : Entry} (h : Before k x y)
    (hx : Known n x) (hy : Known n y) (hu : x.IsUnit ∨ y.IsUnit) : x.root ≠ y.root := by
  intro hr
  obtain ⟨r, t, hxn, -⟩ := hx.named
  obtain ⟨r', t', hyn, -⟩ := hy.named
  have hrr : r = r' := by simpa [Entry.root, hxn, hyn] using hr
  subst hrr
  have hprec := h.same hr
  rcases hu with hu | hu
  · obtain ⟨q, hq⟩ := hx.unit hu
    rw [hq] at hxn
    obtain ⟨rfl, -⟩ := List.cons.inj hxn
    rw [hq, hyn] at hprec
    exact hprec.not_prefix ⟨t', rfl⟩
  · obtain ⟨q, hq⟩ := hy.unit hu
    rw [hq] at hyn
    obtain ⟨rfl, -⟩ := List.cons.inj hyn
    rw [hq, hxn] at hprec
    exact hprec.not_prefix' ⟨t, rfl⟩

namespace SendPacer

def story (s : SendPacer) : List Note := Outbound.story s.log

def hand (s : SendPacer) : List Entry := s.stack.flatMap Frame.hand

def asides (s : SendPacer) : List Entry := s.stack.flatMap Frame.aside

def arrivals (s : SendPacer) : List Entry := s.stack.flatMap Frame.arriving

/-- The entry is its lane's next: after all that went, before all that waits. -/
structure Next (s : SendPacer) (e : Entry) : Prop where
  known : Known s.nextId e
  isOpen : Open s.story e
  past : ∀ x ∈ laneSent s.story, Before (Keyed s.story) x e
  ahead : ∀ p, ∀ y ∈ s.lanes p, Before (Keyed s.story) e y
  apart : ∀ x ∈ s.asides ++ s.arrivals, x.root ≠ e.root

/-- The entry is of an item no lane holds. -/
structure Aside (s : SendPacer) (e : Entry) : Prop where
  known : Known s.nextId e
  uncancelled : .cancelled e.root ∉ s.story
  free : ∀ p, ∀ y ∈ s.lanes p, y.root ≠ e.root
  unsent : ∀ x ∈ laneSent s.story, x.root ≠ e.root
  whole : ∀ x ∈ directSent s.story, x.IsUnit → x.root ≠ e.root

/-- Nothing of the entry's item is known past the lanes. -/
structure Unseen (s : SendPacer) (e : Entry) : Prop where
  direct : ∀ x ∈ directSent s.story, x.root ≠ e.root
  asides : ∀ x ∈ s.asides, x.root ≠ e.root

/-- The entry is in no lane and nowhere on the stack, and its item is its own. -/
structure Stray (s : SendPacer) (e : Entry) : Prop where
  aside : s.Aside e
  hand : ∀ b ∈ s.hand, e.root ≠ b.root
  arrivals : ∀ x ∈ s.arrivals, e.root ≠ x.root

/-- The entry's item was written after all that wait or went from a lane. -/
structure Newest (s : SendPacer) (e : Entry) : Prop where
  lanes : ∀ p, ∀ x ∈ s.lanes p, x.root < e.root
  hand : ∀ x ∈ s.hand, x.root < e.root
  sent : ∀ x ∈ laneSent s.story, x.root < e.root

structure Ordered (s : SendPacer) : Prop where
  home : ∀ p, ∀ x ∈ s.lanes p, x.priority = p
  lines : ∀ p, (s.lanes p).Pairwise (Before (Keyed s.story))
  across : ∀ p q, p ≠ q → ∀ x ∈ s.lanes p, ∀ y ∈ s.lanes q, x.root ≠ y.root
  known : ∀ p, ∀ x ∈ s.lanes p, Known s.nextId x
  isOpen : ∀ p, ∀ x ∈ s.lanes p, Open s.story x
  past : ∀ x ∈ laneSent s.story, ∀ p, ∀ y ∈ s.lanes p, Before (Keyed s.story) x y
  next : ∀ e ∈ s.hand, s.Next e
  aside : ∀ e ∈ s.asides, s.Aside e
  arriving : ∀ e ∈ s.arrivals, s.Aside e ∧ s.Unseen e ∧ e.key ≠ none
  guests : s.arrivals.Pairwise (fun x y => x.root ≠ y.root)
  order : LaneOrder s.story
  units : UnitsWhole s.story
  cancels : CancelHolds s.story
  sent : ∀ x ∈ laneSent s.story ++ directSent s.story, Known s.nextId x
  queued : ∀ e, .queued e ∈ s.story → e.root < s.nextId
  cancelled : ∀ r, .cancelled r ∈ s.story → r < s.nextId

/-- `t` holds part of what `s` holds, in the same order, and nothing was sent. -/
structure Shrinks (s t : SendPacer) : Prop where
  lanes : ∀ p, (t.lanes p).Sublist (s.lanes p)
  story : t.story = s.story
  nextId : t.nextId = s.nextId
  hand : ∀ e ∈ t.hand, e ∈ s.hand
  asides : ∀ e ∈ t.asides, e ∈ s.asides
  arrivals : t.arrivals.Sublist s.arrivals

namespace Shrinks

variable {s t u : SendPacer} {e : Entry}

theorem refl (s : SendPacer) : Shrinks s s :=
  ⟨fun _ => .refl _, rfl, rfl, fun _ h => h, fun _ h => h, .refl _⟩

theorem trans (h : Shrinks s t) (h' : Shrinks t u) : Shrinks s u :=
  ⟨fun p => (h'.lanes p).trans (h.lanes p), h'.story.trans h.story, h'.nextId.trans h.nextId,
    fun e he => h.hand e (h'.hand e he), fun e he => h.asides e (h'.asides e he),
    h'.arrivals.trans h.arrivals⟩

theorem known (h : Shrinks s t) (he : Known s.nextId e) : Known t.nextId e := ⟨h.nextId ▸ he.named, he.unit⟩

theorem isOpen (h : Shrinks s t) (he : Open s.story e) : Open t.story e :=
  ⟨h.story ▸ he.uncancelled, h.story ▸ he.lanes⟩

theorem next (h : Shrinks s t) (he : s.Next e) : t.Next e where
  known := h.known he.known
  isOpen := h.isOpen he.isOpen
  past := h.story ▸ he.past
  ahead p y hy := h.story ▸ he.ahead p y ((h.lanes p).mem hy)
  apart x hx := by
    refine he.apart x (List.mem_append.mpr ?_)
    exact (List.mem_append.mp hx).imp (h.asides x) (h.arrivals.mem ·)

theorem aside (h : Shrinks s t) (he : s.Aside e) : t.Aside e where
  known := h.known he.known
  uncancelled := h.story ▸ he.uncancelled
  free p y hy := he.free p y ((h.lanes p).mem hy)
  unsent := h.story ▸ he.unsent
  whole := h.story ▸ he.whole

theorem unseen (h : Shrinks s t) (he : s.Unseen e) : t.Unseen e :=
  ⟨h.story ▸ he.direct, fun x hx => he.asides x (h.asides x hx)⟩

theorem stray (h : Shrinks s t) (he : s.Stray e) : t.Stray e :=
  ⟨h.aside he.aside, fun b hb => he.hand b (h.hand b hb),
    fun x hx => he.arrivals x (h.arrivals.mem hx)⟩

theorem newest (h : Shrinks s t) (he : s.Newest e) : t.Newest e :=
  ⟨fun p x hx => he.lanes p x ((h.lanes p).mem hx), fun x hx => he.hand x (h.hand x hx),
    h.story ▸ he.sent⟩

theorem ordered (h : Shrinks s t) (hs : s.Ordered) : t.Ordered where
  home p x hx := hs.home p x ((h.lanes p).mem hx)
  lines p := h.story ▸ (hs.lines p).sublist (h.lanes p)
  across p q hpq x hx y hy := hs.across p q hpq x ((h.lanes p).mem hx) y ((h.lanes q).mem hy)
  known p x hx := h.known (hs.known p x ((h.lanes p).mem hx))
  isOpen p x hx := h.isOpen (hs.isOpen p x ((h.lanes p).mem hx))
  past := by
    rw [h.story]
    exact fun x hx p y hy => hs.past x hx p y ((h.lanes p).mem hy)
  next e he := h.next (hs.next e (h.hand e he))
  aside e he := h.aside (hs.aside e (h.asides e he))
  arriving e he := by
    obtain ⟨ha, hu, hk⟩ := hs.arriving e (h.arrivals.mem he)
    exact ⟨h.aside ha, h.unseen hu, hk⟩
  guests := hs.guests.sublist h.arrivals
  order := h.story ▸ hs.order
  units := h.story ▸ hs.units
  cancels := h.story ▸ hs.cancels
  sent := by
    rw [h.story]
    exact fun x hx => h.known (hs.sent x hx)
  queued := by
    rw [h.story, h.nextId]
    exact hs.queued
  cancelled := by
    rw [h.story, h.nextId]
    exact hs.cancelled

end Shrinks

section Shrinking

variable {s t : SendPacer} {e : Entry} {a : Answers}

/-- Nothing the order is about changed. -/
theorem shrinks_same (hlanes : t.lanes = s.lanes) (hlog : t.log = s.log)
    (hid : t.nextId = s.nextId) (hstack : t.stack = s.stack) : Shrinks s t := by
  refine ⟨fun p => by rw [hlanes], by rw [story, hlog]; rfl, hid, fun e he => ?_, fun e he => ?_, ?_⟩
  · rwa [hand, hstack] at he
  · rwa [asides, hstack] at he
  · rw [arrivals, hstack]
    rfl

/-- Only the stack changed, and it lost frames from its top. -/
theorem shrinks_withStack {st : List Frame} (hst : st <:+ s.stack) : Shrinks s (s.withStack st) := by
  obtain ⟨fs, hfs⟩ := hst
  refine ⟨fun _ => .refl _, rfl, rfl, fun e he => ?_, fun e he => ?_, ?_⟩
  · rw [hand, ← hfs, List.flatMap_append]
    exact List.mem_append_right _ he
  · rw [asides, ← hfs, List.flatMap_append]
    exact List.mem_append_right _ he
  · rw [arrivals, arrivals, ← hfs, List.flatMap_append]
    exact List.sublist_append_right _ _

theorem shrinks_hooked (hh : Hooked s t) : Shrinks s t := by
  obtain ⟨ns, hns, hidle⟩ := hh.log
  obtain ⟨fs, hfs, hall⟩ := hh.stack
  have hnil : ∀ g : Frame → List Entry, (∀ f ∈ fs, g f = []) → fs.flatMap g = [] :=
    fun g hg => List.flatMap_eq_nil_iff.mpr hg
  have hh' := hnil Frame.hand fun f hf => (Frame.none_of_isHook (hall f hf)).1
  have ha' := hnil Frame.aside fun f hf => (Frame.none_of_isHook (hall f hf)).2.1
  have hr' := hnil Frame.arriving fun f hf => (Frame.none_of_isHook (hall f hf)).2.2
  refine ⟨fun p => by rw [hh.lanes], ?_, hh.nextId, fun e he => ?_, fun e he => ?_, ?_⟩
  · rw [story, hns, story_idle fun n hn => Note.isIdle_of_isHook (hidle n hn)]
    rfl
  · rwa [hand, hfs, List.flatMap_append, hh', List.nil_append] at he
  · rwa [asides, hfs, List.flatMap_append, ha', List.nil_append] at he
  · rw [arrivals, hfs, List.flatMap_append, hr', List.nil_append]
    rfl

theorem shrinks_note {n : Note} (hn : n.isIdle) : Shrinks s (s.note n) := by
  refine ⟨fun _ => .refl _, ?_, rfl, fun _ h => h, fun _ h => h, .refl _⟩
  exact story_idle (fun m hm => List.mem_singleton.mp hm ▸ hn) _

/-- A frame that holds no entry goes on the stack. -/
theorem shrinks_push {f : Frame} (hh : f.hand = []) (ha : f.aside = []) (hr : f.arriving = []) :
    Shrinks s (s.push f) := by
  refine ⟨fun _ => .refl _, rfl, rfl, fun e he => ?_, fun e he => ?_, ?_⟩
  · simpa [hand, push, hh] using he
  · simpa [asides, push, ha] using he
  · simp [arrivals, push, hr]

theorem shrinks_drain : Shrinks s s.drain := by
  unfold SendPacer.drain
  split
  · exact .refl s
  · exact .trans (t := s.halt false) (shrinks_same rfl rfl rfl rfl)
      (shrinks_push (f := .drain) rfl rfl rfl)

theorem shrinks_redrain : Shrinks s s.redrain := by
  unfold SendPacer.redrain
  split
  · exact shrinks_drain
  · exact .trans (t := s.setTimer none) (shrinks_same rfl rfl rfl rfl) shrinks_drain

theorem shrinks_refuse : Shrinks s ((s.note .refused).refuse e) :=
  (shrinks_note rfl).trans (shrinks_hooked (hooked_refuse _ _))

theorem shrinks_removeRoot (root : Nat) : Shrinks s (s.removeRoot root) :=
  ⟨fun _ => List.filter_sublist, rfl, rfl, fun _ h => h, fun _ h => h, .refl _⟩

theorem shrinks_drop : Shrinks s s.drop := by
  refine .trans (t := ({ s.newSet with lanes := fun _ => [], since := 0, timer := none,
                                       refusal := s.nextSet } : SendPacer).note .dropped)
    ⟨fun _ => List.nil_sublist _, ?_, rfl, fun _ h => h, fun _ h => h, .refl _⟩
    (shrinks_hooked (hooked_tell _ _ _))
  exact @story_idle [.dropped] (fun m hm => List.mem_singleton.mp hm ▸ rfl) s.log

theorem shrinks_tail (e : Entry) :
    Shrinks s (s.setLane e.priority (s.lanes e.priority).tail) := by
  refine ⟨fun p => ?_, rfl, rfl, fun _ h => h, fun _ h => h, .refl _⟩
  by_cases hp : p = e.priority
  · subst hp
    simpa [setLane] using List.tail_sublist _
  · simp [setLane, hp]

end Shrinking

namespace Ordered

variable {s : SendPacer} {e : Entry} {lines : List String} {c : Bool} {tm : ℚ}

theorem story_sent (lane : Bool) : (s.note (.sent e lines lane c tm)).story =
    s.story ++ [.sent e lines lane c tm] := by
  simp [SendPacer.story, note, Outbound.story, Note.isIdle]

/-- The next of its lane goes. -/
theorem sendLane (h : s.Ordered) (he : s.Next e) (hh : s.hand = []) (hc : Carries e lines) :
    (s.note (.sent e lines true c tm)).Ordered := by
  have hopen : ∀ x, Open s.story x → Open (s.story ++ [.sent e lines true c tm]) x := fun x hx =>
    ⟨fun hn => hx.uncancelled (cancelled_sent.mp hn), by rw [directSent_lane]; exact hx.lanes⟩
  have haside : ∀ x, x.root ≠ e.root → s.Aside x → (s.note (.sent e lines true c tm)).Aside x := by
    intro x hne hx
    refine ⟨hx.known, ?_, hx.free, ?_, ?_⟩
    · rw [story_sent, cancelled_sent]
      exact hx.uncancelled
    · rw [story_sent, laneSent_lane]
      intro y hy
      rcases List.mem_append.mp hy with hy | hy
      · exact hx.unsent y hy
      · rw [List.mem_singleton.mp hy]
        exact hne.symm
    · rw [story_sent, directSent_lane]
      exact hx.whole
  refine ⟨h.home, ?_, h.across, h.known, ?_, ?_, ?_, ?_, ?_, h.guests, ?_, ?_, ?_, ?_, ?_, ?_⟩
  · rw [story_sent, keyed_sent]
    exact h.lines
  · rw [story_sent]
    exact fun p x hx => hopen x (h.isOpen p x hx)
  · rw [story_sent, keyed_sent, laneSent_lane]
    intro x hx p y hy
    rcases List.mem_append.mp hx with hx | hx
    · exact h.past x hx p y hy
    · rw [List.mem_singleton.mp hx]
      exact he.ahead p y hy
  · intro b hb
    exact absurd (hh ▸ hb : b ∈ []) List.not_mem_nil
  · exact fun x hx => haside x (he.apart x (List.mem_append_left _ hx)) (h.aside x hx)
  · intro x hx
    obtain ⟨ha, hu, hk⟩ := h.arriving x hx
    refine ⟨haside x (he.apart x (List.mem_append_right _ hx)) ha, ⟨?_, hu.asides⟩, hk⟩
    rw [story_sent, directSent_lane]
    exact hu.direct
  · rw [story_sent, LaneOrder, keyed_sent, laneSent_lane]
    refine List.pairwise_append.mpr ⟨h.order, List.pairwise_singleton _ _, fun x hx y hy => ?_⟩
    rw [List.mem_singleton.mp hy]
    exact he.past x hx
  · rw [story_sent]
    refine h.units.sent hc fun x hx hu => ?_
    rcases List.mem_append.mp hx with hx' | hx'
    · exact (he.past x hx').root_ne_of_unit (h.sent x hx) he.known hu
    · exact he.isOpen.lanes x hx'
  · rw [story_sent]
    exact h.cancels.sent he.isOpen.uncancelled
  · rw [story_sent, laneSent_lane, directSent_lane]
    intro x hx
    rcases List.mem_append.mp hx with hx | hx
    · rcases List.mem_append.mp hx with hx | hx
      · exact h.sent x (List.mem_append_left _ hx)
      · rw [List.mem_singleton.mp hx]
        exact he.known
    · exact h.sent x (List.mem_append_right _ hx)
  · rw [story_sent]
    exact fun x hx => h.queued x ((mem_sent (by simp)).mp hx)
  · rw [story_sent]
    exact fun r hr => h.cancelled r (cancelled_sent.mp hr)

/-- A line past the lanes goes. -/
theorem sendDirect (h : s.Ordered) (he : s.Aside e) (hh : ∀ b ∈ s.hand, e.root ≠ b.root)
    (ha : ∀ x ∈ s.arrivals, e.root ≠ x.root) (hu : e.IsUnit → s.Unseen e) (hc : Carries e lines) :
    (s.note (.sent e lines false c tm)).Ordered := by
  have hopen : ∀ x, e.root ≠ x.root → Open s.story x →
      Open (s.story ++ [.sent e lines false c tm]) x := by
    refine fun x hne hx => ⟨fun hn => hx.uncancelled (cancelled_sent.mp hn), ?_⟩
    rw [directSent_direct]
    intro y hy
    rcases List.mem_append.mp hy with hy | hy
    · exact hx.lanes y hy
    · rw [List.mem_singleton.mp hy]
      exact hne
  have haside : ∀ x, (e.IsUnit → e.root ≠ x.root) → s.Aside x →
      (s.note (.sent e lines false c tm)).Aside x := by
    intro x hne hx
    refine ⟨hx.known, ?_, hx.free, ?_, ?_⟩
    · rw [story_sent, cancelled_sent]
      exact hx.uncancelled
    · rw [story_sent, laneSent_direct]
      exact hx.unsent
    · rw [story_sent, directSent_direct]
      intro y hy hyu
      rcases List.mem_append.mp hy with hy | hy
      · exact hx.whole y hy hyu
      · rw [List.mem_singleton.mp hy] at hyu ⊢
        exact hne hyu
  refine ⟨h.home, ?_, h.across, h.known, ?_, ?_, ?_, ?_, ?_, h.guests, ?_, ?_, ?_, ?_, ?_, ?_⟩
  · rw [story_sent, keyed_sent]
    exact h.lines
  · rw [story_sent]
    exact fun p x hx => hopen x (he.free p x hx).symm (h.isOpen p x hx)
  · rw [story_sent, keyed_sent, laneSent_direct]
    exact h.past
  · intro b hb
    have hn := h.next b hb
    refine ⟨hn.known, ?_, ?_, ?_, hn.apart⟩
    · rw [story_sent]
      exact hopen b (hh b hb) hn.isOpen
    · rw [story_sent, keyed_sent, laneSent_direct]
      exact hn.past
    · rw [story_sent, keyed_sent]
      exact hn.ahead
  · exact fun x hx => haside x (fun hue => ((hu hue).asides x hx).symm) (h.aside x hx)
  · intro x hx
    obtain ⟨hax, hux, hk⟩ := h.arriving x hx
    refine ⟨haside x (fun _ => ha x hx) hax, ⟨?_, hux.asides⟩, hk⟩
    rw [story_sent, directSent_direct]
    intro y hy
    rcases List.mem_append.mp hy with hy | hy
    · exact hux.direct y hy
    · rw [List.mem_singleton.mp hy]
      exact ha x hx
  · rw [story_sent, LaneOrder, keyed_sent, laneSent_direct]
    exact h.order
  · rw [story_sent]
    refine h.units.sent hc fun x hx hux => ?_
    rcases List.mem_append.mp hx with hx | hx
    · exact he.unsent x hx
    · rcases hux with hux | hue
      · exact he.whole x hx hux
      · exact (hu hue).direct x hx
  · rw [story_sent]
    exact h.cancels.sent he.uncancelled
  · rw [story_sent, laneSent_direct, directSent_direct]
    intro x hx
    rcases List.mem_append.mp hx with hx | hx
    · exact h.sent x (List.mem_append_left _ hx)
    · rcases List.mem_append.mp hx with hx | hx
      · exact h.sent x (List.mem_append_right _ hx)
      · rw [List.mem_singleton.mp hx]
        exact he.known
  · rw [story_sent]
    exact fun x hx => h.queued x ((mem_sent (by simp)).mp hx)
  · rw [story_sent]
    exact fun r hr => h.cancelled r (cancelled_sent.mp hr)

/-- The head is the first of its lane, and no higher lane has any. -/
theorem head_lane (h : s.Ordered) (he : s.head = some e) :
    s.lanes e.priority = e :: (s.lanes e.priority).tail ∧
      ∀ p, p.rank < e.priority.rank → s.lanes p = [] := by
  have hcons : ∀ p, (s.lanes p).head? = some e → e.priority = p ∧ s.lanes p = e :: (s.lanes p).tail := by
    intro p hp
    have heq : s.lanes p = e :: (s.lanes p).tail := (List.cons_head?_tail hp).symm
    exact ⟨h.home p e (by rw [heq]; exact List.mem_cons_self), heq⟩
  simp only [SendPacer.head, all, List.head?_append] at he
  rcases hhigh : s.lanes .high with _ | ⟨x, xs⟩
  · rcases hnormal : s.lanes .normal with _ | ⟨x, xs⟩
    · obtain ⟨hp, hl⟩ := hcons .low (by simpa [hhigh, hnormal] using he)
      rw [hp]
      refine ⟨hl, fun p hlt => ?_⟩
      cases p with
      | high => exact hhigh
      | normal => exact hnormal
      | low => exact absurd hlt (Nat.lt_irrefl _)
    · obtain ⟨hp, hl⟩ := hcons .normal (by simpa [hhigh, hnormal] using he)
      rw [hp]
      refine ⟨hl, fun p hlt => ?_⟩
      cases p with
      | high => exact hhigh
      | normal => exact absurd hlt (Nat.lt_irrefl _)
      | low => exact absurd hlt (by decide)
  · obtain ⟨hp, hl⟩ := hcons .high (by simpa [hhigh] using he)
    rw [hp]
    exact ⟨hl, fun p hlt => absurd hlt (Nat.not_lt_zero _)⟩

/-- Taken from its lane, the head goes before all that is left. -/
theorem take (h : s.Ordered) (he : s.head = some e) :
    (s.setLane e.priority (s.lanes e.priority).tail).Next e := by
  obtain ⟨hl, -⟩ := h.head_lane he
  have hmem : e ∈ s.lanes e.priority := by rw [hl]; exact List.mem_cons_self
  have hpair := h.lines e.priority
  rw [hl] at hpair
  refine ⟨h.known _ e hmem, h.isOpen _ e hmem, fun x hx => h.past x hx _ e hmem, ?_, ?_⟩
  · intro p y hy
    by_cases hp : p = e.priority
    · subst hp
      exact (List.pairwise_cons.mp hpair).1 y (by simpa [setLane] using hy)
    · have hy' : y ∈ s.lanes p := by simpa [setLane, hp] using hy
      refine .of_root_ne (h.across _ _ (Ne.symm hp) e hmem y hy') fun hpr => ?_
      exact absurd ((h.home p y hy').symm.trans hpr.symm) hp
  · intro x hx
    rcases List.mem_append.mp hx with hx | hx
    · exact ((h.aside x hx).free _ e hmem).symm
    · exact ((h.arriving x hx).1.free _ e hmem).symm

/-- The thunk of the next runs. -/
theorem hold (h : s.Ordered) (he : s.Next e) (hh : s.hand = []) :
    (s.push (.building e)).Ordered := by
  have hhand : (s.push (.building e)).hand = [e] := by
    change [e] ++ s.hand = [e]
    rw [hh, List.append_nil]
  refine ⟨h.home, h.lines, h.across, h.known, h.isOpen, h.past, fun b hb => ?_, ?_, ?_, h.guests,
    h.order, h.units, h.cancels, h.sent, h.queued, h.cancelled⟩
  · rw [hhand] at hb
    rw [List.mem_singleton.mp hb]
    exact ⟨he.known, he.isOpen, he.past, he.ahead, he.apart⟩
  · intro x hx
    obtain ⟨h₁, h₂, h₃, h₄, h₅⟩ := h.aside x hx
    exact ⟨h₁, h₂, h₃, h₄, h₅⟩
  · intro x hx
    obtain ⟨⟨h₁, h₂, h₃, h₄, h₅⟩, ⟨h₆, h₇⟩, hk⟩ := h.arriving x hx
    exact ⟨⟨h₁, h₂, h₃, h₄, h₅⟩, ⟨h₆, h₇⟩, hk⟩

/-- An entry past the lanes goes on the stack. -/
theorem setAside (h : s.Ordered) (he : s.Stray e) {f : Frame} (hf : f.aside = [e])
    (hh : f.hand = []) (hr : f.arriving = []) : (s.push f).Ordered := by
  have hhand : (s.push f).hand = s.hand := by
    change f.hand ++ s.hand = s.hand
    rw [hh, List.nil_append]
  have haside : (s.push f).asides = e :: s.asides := by
    change f.aside ++ s.asides = e :: s.asides
    rw [hf, List.singleton_append]
  have harr : (s.push f).arrivals = s.arrivals := by
    change f.arriving ++ s.arrivals = s.arrivals
    rw [hr, List.nil_append]
  refine ⟨h.home, h.lines, h.across, h.known, h.isOpen, h.past, ?_, ?_, ?_, ?_,
    h.order, h.units, h.cancels, h.sent, h.queued, h.cancelled⟩
  · rw [hhand]
    intro b hb
    obtain ⟨h₁, h₂, h₃, h₄, h₅⟩ := h.next b hb
    refine ⟨h₁, h₂, h₃, h₄, ?_⟩
    rw [haside, harr]
    intro x hx
    rcases List.mem_cons.mp hx with rfl | hx
    · exact he.hand b hb
    · exact h₅ x hx
  · rw [haside]
    intro x hx
    obtain ⟨h₁, h₂, h₃, h₄, h₅⟩ : s.Aside x :=
      (List.mem_cons.mp hx).elim (fun hxe => hxe ▸ he.aside) (h.aside x)
    exact ⟨h₁, h₂, h₃, h₄, h₅⟩
  · rw [harr]
    intro x hx
    obtain ⟨⟨h₁, h₂, h₃, h₄, h₅⟩, ⟨h₆, h₇⟩, hk⟩ := h.arriving x hx
    refine ⟨⟨h₁, h₂, h₃, h₄, h₅⟩, ⟨h₆, ?_⟩, hk⟩
    rw [haside]
    intro y hy
    rcases List.mem_cons.mp hy with rfl | hy
    · exact he.arrivals x hx
    · exact h₇ y hy
  · rw [harr]
    exact h.guests

/-- A keyed entry waits for room. -/
theorem arrive (h : s.Ordered) (he : s.Stray e) (hu : s.Unseen e) (hk : e.key ≠ none) :
    (s.push (.admitting e)).Ordered := by
  refine ⟨h.home, h.lines, h.across, h.known, h.isOpen, h.past, fun b hb => ?_, fun x hx => ?_, ?_,
    List.pairwise_cons.mpr ⟨he.arrivals, h.guests⟩, h.order, h.units, h.cancels, h.sent, h.queued,
    h.cancelled⟩
  · obtain ⟨h₁, h₂, h₃, h₄, h₅⟩ := h.next b hb
    refine ⟨h₁, h₂, h₃, h₄, fun x hx => ?_⟩
    rcases List.mem_append.mp hx with hx | hx
    · exact h₅ x (List.mem_append_left _ hx)
    · rcases List.mem_cons.mp hx with rfl | hx
      · exact he.hand b hb
      · exact h₅ x (List.mem_append_right _ hx)
  · obtain ⟨h₁, h₂, h₃, h₄, h₅⟩ := h.aside x hx
    exact ⟨h₁, h₂, h₃, h₄, h₅⟩
  · intro x hx
    obtain ⟨⟨h₁, h₂, h₃, h₄, h₅⟩, ⟨h₆, h₇⟩, hk'⟩ : s.Aside x ∧ s.Unseen x ∧ x.key ≠ none :=
      (List.mem_cons.mp hx).elim (fun hxe => hxe ▸ ⟨he.aside, hu, hk⟩) (h.arriving x)
    exact ⟨⟨h₁, h₂, h₃, h₄, h₅⟩, ⟨h₆, h₇⟩, hk'⟩

theorem known_mono {n m : Nat} (hnm : n ≤ m) {x : Entry} (h : Known n x) : Known m x := by
  obtain ⟨r, t, hname, hr⟩ := h.named
  exact ⟨⟨r, t, hname, hr.trans_le hnm⟩, h.unit⟩

/-- A new item has nothing to do with what there was. -/
theorem admitNew (h : s.Ordered) (hname : e.name = s.nextName) :
    (s.admitNew e).Ordered ∧ (s.admitNew e).Stray e ∧ (s.admitNew e).Unseen e ∧
      (s.admitNew e).Newest e := by
  have hroot : e.root = s.nextId := by simp [Entry.root, hname, nextName]
  have hstory : (s.admitNew e).story = s.story :=
    @story_idle [.made e.lineNames] (fun m hm => List.mem_singleton.mp hm ▸ rfl) s.log
  have hmono : ∀ {x : Entry}, Known s.nextId x → Known (s.admitNew e).nextId x :=
    fun hx => known_mono (Nat.le_succ _) hx
  have hlt : ∀ {x : Entry}, Known s.nextId x → x.root < e.root := fun hx => hroot ▸ hx.root_lt
  have hne : ∀ {x : Entry}, Known s.nextId x → x.root ≠ e.root := fun hx => (hlt hx).ne
  have haside : ∀ x, s.Aside x → (s.admitNew e).Aside x := by
    intro x hx
    refine ⟨hmono hx.known, ?_, hx.free, ?_, ?_⟩
    · rw [hstory]
      exact hx.uncancelled
    · rw [hstory]
      exact hx.unsent
    · rw [hstory]
      exact hx.whole
  have hseen : ∀ x ∈ laneSent s.story ++ directSent s.story, x.root < e.root :=
    fun x hx => hlt (h.sent x hx)
  refine ⟨⟨h.home, ?_, h.across, fun p x hx => hmono (h.known p x hx), ?_, ?_, fun b hb => ?_,
    fun x hx => haside x (h.aside x hx), fun x hx => ?_, h.guests, ?_, ?_, ?_, ?_, ?_, ?_⟩,
    ⟨⟨⟨⟨s.nextId, [], hname, Nat.lt_succ_self _⟩, fun _ => ⟨_, hname⟩⟩, ?_,
      fun p x hx => hne (h.known p x hx), ?_, ?_⟩, fun b hb => (hne (h.next b hb).known).symm,
      fun x hx => (hne (h.arriving x hx).1.known).symm⟩,
    ⟨?_, fun x hx => hne (h.aside x hx).known⟩,
    ⟨fun p x hx => hlt (h.known p x hx), fun x hx => hlt (h.next x hx).known, ?_⟩⟩
  · rw [hstory]
    exact h.lines
  · rw [hstory]
    exact h.isOpen
  · rw [hstory]
    exact h.past
  · obtain ⟨h₁, h₂, h₃, h₄, h₅⟩ := h.next b hb
    refine ⟨hmono h₁, ?_, ?_, ?_, h₅⟩
    · rw [hstory]
      exact h₂
    · rw [hstory]
      exact h₃
    · rw [hstory]
      exact h₄
  · obtain ⟨ha, hu, hk⟩ := h.arriving x hx
    refine ⟨haside x ha, ⟨?_, hu.asides⟩, hk⟩
    rw [hstory]
    exact hu.direct
  · rw [hstory]
    exact h.order
  · rw [hstory]
    exact h.units
  · rw [hstory]
    exact h.cancels
  · rw [hstory]
    exact fun x hx => hmono (h.sent x hx)
  · rw [hstory]
    exact fun x hx => (h.queued x hx).trans (Nat.lt_succ_self _)
  · rw [hstory]
    exact fun r hr => (h.cancelled r hr).trans (Nat.lt_succ_self _)
  · rw [hstory, hroot]
    exact fun hn => (h.cancelled _ hn).false
  · rw [hstory]
    exact fun x hx => (hseen x (List.mem_append_left _ hx)).ne
  · rw [hstory]
    exact fun x hx _ => (hseen x (List.mem_append_right _ hx)).ne
  · rw [hstory]
    exact fun x hx => (hseen x (List.mem_append_right _ hx)).ne
  · rw [hstory]
    exact fun x hx => hseen x (List.mem_append_left _ hx)

theorem story_queued : (s.note (.queued e)).story = s.story ++ [.queued e] := by
  simp [SendPacer.story, note, Outbound.story, Note.isIdle]

/-- An arrival with a key is bound to no order; one without comes after all that do. -/
theorem before_arrival (hs : s.Stray e) (hk : e.key = none → s.Newest e) {x : Entry}
    (hne : x.root ≠ e.root) (hlt : s.Newest e → x.root < e.root) (hx : Known s.nextId x) :
    Before (Keyed (s.story ++ [.queued e])) x e := by
  refine .of_root_ne hne fun _ _ hnk => ?_
  have hnone : e.key = none := by
    by_contra hsome
    exact hnk ⟨e, by simp, hsome, rfl⟩
  obtain ⟨r, t, hxn, -⟩ := hx.named
  obtain ⟨r', t', hen, -⟩ := hs.aside.known.named
  have hrr : r < r' := by simpa [Entry.root, hxn, hen] using hlt (hk hnone)
  rw [hxn, hen]
  exact Precedes.cons_lt hrr t t'

/-- An arrival takes its place in a lane. -/
theorem queue (h : s.Ordered) (hs : s.Stray e) (hu : s.Unseen e) (hk : e.key = none → s.Newest e)
    {es : List Entry} (hmem : ∀ x ∈ es, x ∈ s.lanes e.priority ∨ x = e)
    (hpair : es.Pairwise (Before (Keyed (s.story ++ [.queued e])))) :
    ((s.setLane e.priority es).note (.queued e)).Ordered := by
  have hst : ((s.setLane e.priority es).note (.queued e)).story = s.story ++ [.queued e] :=
    story_queued (s := s.setLane e.priority es)
  have hlane : ∀ p x, x ∈ ((s.setLane e.priority es).note (.queued e)).lanes p →
      x ∈ s.lanes p ∨ (x = e ∧ p = e.priority) := by
    intro p x hx
    by_cases hp : p = e.priority
    · subst hp
      exact (hmem x (by simpa [setLane, note] using hx)).imp_right fun hxe => ⟨hxe, rfl⟩
    · exact .inl (by simpa [setLane, note, hp] using hx)
  have hsame := laneSent_idle (l := s.story) (n := .queued e) (by simp)
  have hwhole := unitsWhole_idle h.units (n := .queued e) (by simp)
  have hkeyed : ∀ r, Keyed s.story r → Keyed (s.story ++ [.queued e]) r := keyed_append
  have hcan : ∀ r, .cancelled r ∈ s.story ++ [.queued e] → .cancelled r ∈ s.story := by simp
  have haside : ∀ x, e.root ≠ x.root → s.Aside x →
      ((s.setLane e.priority es).note (.queued e)).Aside x := by
    intro x hne hx
    refine ⟨hx.known, ?_, fun p y hy => ?_, ?_, ?_⟩
    · rw [hst]
      exact fun hn => hx.uncancelled (hcan _ hn)
    · rcases hlane p y hy with hy | ⟨rfl, -⟩
      · exact hx.free p y hy
      · exact hne
    · rw [hst, hsame.1]
      exact hx.unsent
    · rw [hst, hsame.2]
      exact hx.whole
  refine ⟨fun p x hx => ?_, fun p => ?_, fun p q hpq x hx y hy => ?_, fun p x hx => ?_,
    fun p x hx => ?_, fun x hx p y hy => ?_, fun b hb => ?_,
    fun x hx => haside x (hu.asides x hx).symm (h.aside x hx), fun x hx => ?_, h.guests, ?_, ?_, ?_,
    ?_, ?_, ?_⟩
  · rcases hlane p x hx with hx | ⟨rfl, rfl⟩
    · exact h.home p x hx
    · rfl
  · rw [hst]
    by_cases hp : p = e.priority
    · subst hp
      simpa [setLane, note] using hpair
    · simpa [setLane, note, hp] using (h.lines p).imp fun hb => hb.mono hkeyed
  · rcases hlane p x hx with hxs | ⟨rfl, rfl⟩
    · rcases hlane q y hy with hys | ⟨rfl, -⟩
      · exact h.across p q hpq x hxs y hys
      · exact hs.aside.free p x hxs
    · rcases hlane q y hy with hys | ⟨-, rfl⟩
      · exact (hs.aside.free q y hys).symm
      · exact absurd rfl hpq
  · rcases hlane p x hx with hx | ⟨rfl, -⟩
    · exact h.known p x hx
    · exact hs.aside.known
  · rw [hst]
    rcases hlane p x hx with hx | ⟨rfl, -⟩
    · exact ⟨fun hn => (h.isOpen p x hx).uncancelled (hcan _ hn), hsame.2 ▸ (h.isOpen p x hx).lanes⟩
    · exact ⟨fun hn => hs.aside.uncancelled (hcan _ hn), hsame.2 ▸ hu.direct⟩
  · rw [hst, hsame.1] at hx
    rw [hst]
    rcases hlane p y hy with hy | ⟨rfl, -⟩
    · exact (h.past x hx p y hy).mono hkeyed
    · exact before_arrival hs hk (hs.aside.unsent x hx) (fun hn => hn.sent x hx)
        (h.sent x (List.mem_append_left _ hx))
  · obtain ⟨h₁, h₂, h₃, h₄, h₅⟩ := h.next b hb
    refine ⟨h₁, ?_, ?_, fun p y hy => ?_, h₅⟩
    · rw [hst]
      exact ⟨fun hn => h₂.uncancelled (hcan _ hn), hsame.2 ▸ h₂.lanes⟩
    · rw [hst, hsame.1]
      exact fun x hx => (h₃ x hx).mono hkeyed
    · rw [hst]
      rcases hlane p y hy with hy | ⟨rfl, -⟩
      · exact (h₄ p y hy).mono hkeyed
      · exact before_arrival hs hk (hs.hand b hb).symm (fun hn => hn.hand b hb) h₁
  · obtain ⟨ha, hu', hk'⟩ := h.arriving x hx
    refine ⟨haside x (hs.arrivals x hx) ha, ⟨?_, hu'.asides⟩, hk'⟩
    rw [hst, hsame.2]
    exact hu'.direct
  · rw [hst, LaneOrder, hsame.1]
    exact h.order.imp fun hb => hb.mono hkeyed
  · rw [hst]
    exact hwhole.1
  · rw [hst]
    exact hwhole.2 h.cancels
  · rw [hst, hsame.1, hsame.2]
    exact h.sent
  · rw [hst]
    intro x hx
    rcases List.mem_append.mp hx with hx | hx
    · exact h.queued x hx
    · cases List.mem_singleton.mp hx
      exact hs.aside.known.root_lt
  · rw [hst]
    exact fun r hr => h.cancelled r (hcan r hr)

/-- Behind what waits in its lane. -/
theorem enqueue (h : s.Ordered) (hs : s.Stray e) (hu : s.Unseen e)
    (hk : e.key = none → s.Newest e) : (s.enqueue e).Ordered := by
  refine shrinks_redrain.ordered (h.queue hs hu hk (fun x hx => ?_) ?_)
  · exact (List.mem_append.mp hx).imp_right List.mem_singleton.mp
  · refine List.pairwise_append.mpr ⟨(h.lines _).imp fun hb => hb.mono keyed_append,
      List.pairwise_singleton _ _, fun x hx y hy => ?_⟩
    rw [List.mem_singleton.mp hy]
    exact before_arrival hs hk (hs.aside.free _ x hx) (fun hn => hn.lanes _ x hx) (h.known _ x hx)

/-- A keyed entry is bound to no order with other items. -/
theorem before_keyed {k : Nat → Prop} {x y : Entry} (hne : x.root ≠ y.root)
    (hk : k x.root ∨ k y.root) : Before k x y :=
  .of_root_ne hne fun _ hx hy => hk.elim (absurd · hx) (absurd · hy)

/-- In its predecessor's place. -/
theorem replace (h : s.Ordered) (hs : s.Stray e) (hu : s.Unseen e) (hk : e.key ≠ none) (q : Entry) :
    (s.replace q e).Ordered := by
  set e' : Entry := { e with priority := q.priority, seq := q.seq } with he'
  have ha := hs.aside
  have hs' : s.Stray e' :=
    ⟨⟨⟨ha.known.named, ha.known.unit⟩, ha.uncancelled, ha.free, ha.unsent, ha.whole⟩, hs.hand,
      hs.arrivals⟩
  have hkeyed : Keyed (s.story ++ [.queued e']) e'.root := ⟨e', by simp, hk, rfl⟩
  refine h.queue hs' ⟨hu.direct, hu.asides⟩ (fun hn => absurd hn hk) (fun x hx => ?_) ?_
  · obtain ⟨y, hy, rfl⟩ := List.mem_map.mp hx
    split
    · exact .inr rfl
    · exact .inl hy
  · rw [List.pairwise_map]
    refine (h.lines q.priority).imp_of_mem fun {x y} hx hy hb => ?_
    by_cases hxq : x = q
    · by_cases hyq : y = q
      · -- the entry is in its lane once
        rw [hxq, hyq] at hb
        exact absurd (hb.same rfl) (Precedes.irrefl _)
      · rw [if_pos hxq, if_neg hyq]
        exact before_keyed (ha.free _ y hy).symm (.inl hkeyed)
    · rw [if_neg hxq]
      split
      · exact before_keyed (ha.free _ x hx) (.inr hkeyed)
      · exact hb.mono keyed_append

/-- What a thunk makes stands where the thunk stood. -/
theorem expand (h : s.Ordered) (he : s.Next e) (hh : s.hand = []) (items : List Made) :
    (s.expand e items).Ordered := by
  set t := s.setLane e.priority (e.children items ++ s.lanes e.priority) with ht
  refine (shrinks_note (s := t) rfl).ordered ?_
  have hlane : ∀ p x, x ∈ t.lanes p → x ∈ s.lanes p ∨ (x ∈ e.children items ∧ p = e.priority) := by
    intro p x hx
    by_cases hp : p = e.priority
    · subst hp
      have hx' : x ∈ e.children items ∨ x ∈ s.lanes e.priority := by simpa [ht, setLane] using hx
      exact hx'.symm.imp_right fun hc => ⟨hc, rfl⟩
    · exact .inl (by simpa [ht, setLane, hp] using hx)
  refine ⟨fun p x hx => ?_, fun p => ?_, fun p q hpq x hx y hy => ?_, fun p x hx => ?_,
    fun p x hx => ?_, fun x hx p y hy => ?_, fun b hb => ?_, fun x hx => ?_, fun x hx => ?_,
    h.guests, h.order, h.units, h.cancels, h.sent, h.queued, h.cancelled⟩
  · rcases hlane p x hx with hxs | ⟨hxc, rfl⟩
    · exact h.home p x hxs
    · exact (mem_children hxc).lane
  · by_cases hp : p = e.priority
    · subst hp
      have hnew : (e.children items ++ s.lanes e.priority).Pairwise (Before (Keyed s.story)) := by
        refine List.pairwise_append.mpr ⟨?_, h.lines _, fun x hx y hy => ?_⟩
        · refine (children_names e items).imp_of_mem fun {x y} hx hy hn => ?_
          exact ⟨fun _ => (mem_children hx).lane.trans (mem_children hy).lane.symm, fun _ => hn,
            fun _ _ _ => hn⟩
        · exact (mem_children hx).before_left he.known (he.ahead _ y hy)
      rw [ht, lanes_setLane]
      exact hnew
    · rw [ht, lanes_setLane_of_ne hp]
      exact h.lines p
  · have hother : ∀ z ∈ e.children items, ∀ q, q ≠ e.priority → ∀ y ∈ s.lanes q, z.root ≠ y.root := by
      intro z hz q hq y hy hr
      rw [(mem_children hz).root he.known] at hr
      exact hq ((h.home q y hy).symm.trans ((he.ahead q y hy).lane hr).symm)
    rcases hlane p x hx with hxs | ⟨hxc, rfl⟩
    · rcases hlane q y hy with hys | ⟨hyc, rfl⟩
      · exact h.across p q hpq x hxs y hys
      · exact (hother y hyc p hpq x hxs).symm
    · rcases hlane q y hy with hys | ⟨-, rfl⟩
      · exact hother x hxc q hpq.symm y hys
      · exact absurd rfl hpq
  · rcases hlane p x hx with hxs | ⟨hxc, -⟩
    · exact h.known p x hxs
    · exact (mem_children hxc).known he.known
  · rcases hlane p x hx with hxs | ⟨hxc, -⟩
    · exact h.isOpen p x hxs
    · have hr := (mem_children hxc).root he.known
      exact ⟨hr ▸ he.isOpen.uncancelled, hr ▸ he.isOpen.lanes⟩
  · rcases hlane p y hy with hys | ⟨hyc, -⟩
    · exact h.past x hx p y hys
    · exact (mem_children hyc).before_right he.known (he.past x hx)
  · have hb' : b ∈ s.hand := hb
    rw [hh] at hb'
    exact absurd hb' List.not_mem_nil
  · have hfree : ∀ p, ∀ y ∈ t.lanes p, y.root ≠ x.root := by
      intro p y hy
      rcases hlane p y hy with hys | ⟨hyc, -⟩
      · exact (h.aside x hx).free p y hys
      · rw [(mem_children hyc).root he.known]
        exact (he.apart x (List.mem_append_left _ hx)).symm
    obtain ⟨h₁, h₂, -, h₄, h₅⟩ := h.aside x hx
    exact ⟨h₁, h₂, hfree, h₄, h₅⟩
  · obtain ⟨⟨h₁, h₂, h₃, h₄, h₅⟩, ⟨h₆, h₇⟩, hk⟩ := h.arriving x hx
    refine ⟨⟨h₁, h₂, fun p y hy => ?_, h₄, h₅⟩, ⟨h₆, h₇⟩, hk⟩
    rcases hlane p y hy with hys | ⟨hyc, -⟩
    · exact h₃ p y hys
    · rw [(mem_children hyc).root he.known]
      exact (he.apart x (List.mem_append_right _ hx)).symm

theorem mem_ofRoot {r : Nat} (hr : s.ofRoot r ≠ []) : ∃ p, ∃ y ∈ s.lanes p, y.root = r := by
  obtain ⟨y, hy⟩ := List.exists_mem_of_ne_nil _ hr
  obtain ⟨hmem, hroot⟩ := List.mem_filter.mp hy
  simp only [all, List.mem_append] at hmem
  rcases hmem with (hm | hm) | hm
  exacts [⟨_, y, hm, by simpa using hroot⟩, ⟨_, y, hm, by simpa using hroot⟩,
    ⟨_, y, hm, by simpa using hroot⟩]

/-- A cancel takes out all there is of the item, unless its thunk is running. -/
theorem cancel (h : s.Ordered) {r : Nat} (hc : s.ofRoot r ≠ [] → ∀ b ∈ s.hand, b.root ≠ r) :
    (s.cancel r).Ordered := by
  unfold SendPacer.cancel
  split
  · exact h
  rename_i hne
  obtain ⟨p, y, hy, hyr⟩ := mem_ofRoot hne
  have ho := (shrinks_removeRoot r).ordered h
  have hst : ((s.removeRoot r).note (.cancelled r)).story = s.story ++ [.cancelled r] := by
    simp [SendPacer.story, note, removeRoot, Outbound.story, Note.isIdle]
  have hsame := laneSent_idle (l := s.story) (n := .cancelled r) (by simp)
  have hwhole := unitsWhole_idle h.units (n := .cancelled r) (by simp)
  have hkeyed : Keyed (s.story ++ [.cancelled r]) = Keyed s.story := by
    funext k
    simp [Keyed]
  have hcan : ∀ x : Entry, x.root ≠ r → .cancelled x.root ∉ s.story →
      .cancelled x.root ∉ s.story ++ [.cancelled r] := by
    intro x hx hn hm
    rcases List.mem_append.mp hm with hm | hm
    · exact hn hm
    · exact hx (Note.cancelled.inj (List.mem_singleton.mp hm))
  have hleft : ∀ p, ∀ x ∈ (s.removeRoot r).lanes p, x.root ≠ r := by
    intro p x hx
    simpa using (List.mem_filter.mp hx).2
  have haside : ∀ x, (s.removeRoot r).Aside x → s.Aside x →
      ((s.removeRoot r).note (.cancelled r)).Aside x := by
    intro x hx hx'
    refine ⟨hx.known, ?_, hx.free, ?_, ?_⟩
    · rw [hst]
      exact hcan x (fun he => hx'.free p y hy (hyr.trans he.symm)) hx.uncancelled
    · rw [hst, hsame.1]
      exact hx.unsent
    · rw [hst, hsame.2]
      exact hx.whole
  refine ⟨ho.home, ?_, ho.across, ho.known, ?_, ?_, fun b hb => ?_,
    fun x hx => haside x (ho.aside x hx) (h.aside x hx), fun x hx => ?_, h.guests, ?_, ?_, ?_, ?_, ?_,
    ?_⟩
  · rw [hst, hkeyed]
    exact ho.lines
  · rw [hst]
    intro p x hx
    exact ⟨hcan x (hleft p x hx) (ho.isOpen p x hx).uncancelled, hsame.2 ▸ (ho.isOpen p x hx).lanes⟩
  · rw [hst, hkeyed, hsame.1]
    exact ho.past
  · obtain ⟨h₁, h₂, h₃, h₄, h₅⟩ := ho.next b hb
    refine ⟨h₁, ?_, ?_, ?_, h₅⟩
    · rw [hst]
      exact ⟨hcan b (hc hne b hb) h₂.uncancelled, hsame.2 ▸ h₂.lanes⟩
    · rw [hst, hkeyed, hsame.1]
      exact h₃
    · rw [hst, hkeyed]
      exact h₄
  · obtain ⟨ha, hu, hk⟩ := ho.arriving x hx
    refine ⟨haside x ha (h.arriving x hx).1, ⟨?_, hu.asides⟩, hk⟩
    rw [hst, hsame.2]
    exact hu.direct
  · rw [hst, LaneOrder, hkeyed, hsame.1]
    exact ho.order
  · rw [hst]
    exact hwhole.1
  · rw [hst]
    exact hwhole.2 h.cancels
  · rw [hst, hsame.1, hsame.2]
    exact ho.sent
  · rw [hst]
    intro x hx
    exact ho.queued x ((List.mem_append.mp hx).resolve_right fun hx => nomatch List.mem_singleton.mp hx)
  · rw [hst]
    intro q hq
    rcases List.mem_append.mp hq with hq | hq
    · exact ho.cancelled q hq
    · rw [Note.cancelled.inj (List.mem_singleton.mp hq), ← hyr]
      exact (h.known p y hy).root_lt

end Ordered

end SendPacer

end Lurker.Outbound
