import Lurker.Irc.BackfillCovers

/-!
# A gap is read whole, and the reading ends

Over every run in which no answer is still to come whenever a walk goes on: one request is
on the wire at a time, each walk that is over has had all of its window on its pages, and
asked at most twice for each of its lines, and each person a page of targets names has one
window. An answer that comes late is taken for the next page.
-/

namespace Lurker.Irc.History

open E2e (decimal decimal_ne_nil isChannelTarget)

attribute [local instance] str_lawfulBEq

variable {α : Type} {net : Network α} {host : Host}

/-- The walks of a state. -/
def Backfill.held (s : Backfill) : List Walk := (s.active.map (·.walk)).toList ++ s.queue

/-- The ledger of a state, the windows of the targets named, and that each window's target has a
name. -/
structure Books (net : Network α) (host : Host) (s : Backfill) (answered : List Request)
    (abandoned : List Nat) : Prop where
  available : s.available = true
  ledger : Ledger net host (s.active.map (·.walk)) s.queue s.walks s.sent answered abandoned
  names : Names net host s.held s.walks answered
  targets : ∀ x ∈ s.held, x.about ≠ some []

/-- A walk that nothing named. -/
def Fresh (lower : Int) (kind : Kind) : Prop :=
  (∃ target, target ≠ [] ∧ kind = .between target 0 none) ∨
    ∃ anchors, kind = .targets lower anchors []

/-- What a trigger does: new walks, and what waits goes on. -/
inductive Moves (host : Host) (s : Backfill) : Backfill → Prop
  | refl : Moves host s s
  | push {t : Backfill} (h : Moves host s t) {lower upper : Int} {kind : Kind}
      (hkind : Fresh lower kind) : Moves host s (t.push lower upper kind)
  | next {t : Backfill} (h : Moves host s t) : Moves host s (t.next host)

/-- The page that a walk's request was just sent for. -/
def opened (host : Host) (s : Backfill) (x : Walk) : Active :=
  ⟨s.sent.length, x, host.cap, none, 0, 0, none, false, .empty⟩

theorem next_cases (host : Host) (s : Backfill) (h : s.available = true) :
    (s.next host = s ∧ (s.active = none → s.queue = [])) ∨
      ∃ x queue, s.active = none ∧ s.queue = x :: queue ∧
        s.next host = { s with
          queue := queue
          active := some (opened host s x)
          sent := s.sent ++ [s.ask host x] } := by
  cases hactive : s.active with
  | some a =>
    left
    exact ⟨by simp only [Backfill.next, hactive, Option.isSome_some, Bool.true_or, ↓reduceIte],
      fun h => (nomatch h)⟩
  | none =>
    cases hqueue : s.queue with
    | nil =>
      left
      refine ⟨?_, fun _ => rfl⟩
      simp only [Backfill.next, hactive, hqueue, h, Option.isSome_none, Bool.not_true, Bool.or_self,
        Bool.false_eq_true, ↓reduceIte]
    | cons x queue =>
      right
      refine ⟨x, queue, rfl, rfl, ?_⟩
      simp only [Backfill.next, hactive, hqueue, h, Option.isSome_none, Bool.not_true, Bool.or_self,
        Bool.false_eq_true, ↓reduceIte, opened]

namespace Books

variable {s : Backfill} {answered : List Request} {abandoned : List Nat}

theorem next (h : Books net host s answered abandoned) :
    Books net host (s.next host) answered abandoned := by
  rcases next_cases host s h.available with ⟨heq, -⟩ | ⟨x, queue, hactive, hqueue, heq⟩
  · rw [heq]
    exact h
  · obtain ⟨havailable, hledger, hnames, htargets⟩ := h
    have hheld : s.held = x :: queue := by
      simp only [Backfill.held, hactive, hqueue, Option.map_none, Option.toList_none,
        List.nil_append]
    rw [hactive, hqueue] at hledger
    rw [hheld] at hnames htargets
    rw [heq]
    exact ⟨havailable, hledger.ask rfl, hnames, htargets⟩

theorem push (h : Books net host s answered abandoned) {lower upper : Int} {kind : Kind}
    (hkind : Fresh lower kind) : Books net host (s.push lower upper kind) answered abandoned := by
  have hheld : (s.push lower upper kind).held =
      s.held ++ [⟨s.walks.length, lower, upper, 0, kind⟩] := by
    simp only [Backfill.held, Backfill.push, List.append_assoc]
  refine ⟨h.available, h.ledger.push rfl, ?_, ?_⟩
  · rw [hheld]
    apply h.names.push rfl
    rcases hkind with ⟨target, -, hkind⟩ | ⟨anchors, hkind⟩
    · exact .inl ⟨target, hkind⟩
    · exact .inr ⟨anchors, hkind⟩
  · intro x hx
    rw [hheld] at hx
    rcases List.mem_append.mp hx with hx | hx
    · exact h.targets x hx
    · rw [List.mem_singleton.mp hx]
      rcases hkind with ⟨target, hne, rfl⟩ | ⟨anchors, rfl⟩
      · exact fun heq => hne (Option.some.inj heq)
      · intro heq
        cases heq

theorem moves (h : Books net host s answered abandoned) {t : Backfill} (hmoves : Moves host s t) :
    Books net host t answered abandoned := by
  induction hmoves with
  | refl => exact h
  | push _ hkind ih => exact ih.push hkind
  | next _ ih => exact ih.next

end Books

/-- A request that was sent, if any, is for a walk that stands by. -/
def Sends (host : Host) (s t : Backfill) : Prop :=
  (t.active = s.active ∧ t.sent = s.sent ∧ t.asked = s.asked) ∨
    (s.active = none ∧ ∃ x, t.active = some (opened host s x) ∧ t.sent = s.sent ++ [s.ask host x])

theorem sends_next (s : Backfill) (h : s.available = true) : Sends host s (s.next host) := by
  rcases next_cases host s h with ⟨heq, -⟩ | ⟨x, queue, hactive, -, heq⟩
  · rw [heq]
    exact .inl ⟨rfl, rfl, rfl⟩
  · rw [heq]
    exact .inr ⟨hactive, x, rfl, rfl⟩

theorem sends_moves {s t : Backfill} (h : s.available = true) (hmoves : Moves host s t) :
    t.available = true ∧ Sends host s t := by
  induction hmoves with
  | refl => exact ⟨h, .inl ⟨rfl, rfl, rfl⟩⟩
  | push _ _ ih => exact ih
  | @next u hmoves ih =>
    obtain ⟨havailable, hsends⟩ := ih
    rcases next_cases host u havailable with ⟨heq, -⟩ | ⟨x, queue, hactive, -, heq⟩
    · rw [heq]
      exact ⟨havailable, hsends⟩
    · refine ⟨by rw [heq]; exact havailable, ?_⟩
      rcases hsends with ⟨hsame, hsent, -⟩ | ⟨-, y, hactive', -⟩
      · right
        rw [heq]
        refine ⟨hsame ▸ hactive, x, ?_, ?_⟩
        · simp only [opened, hsent]
        · simp only [Backfill.ask, hsent]
      · rw [hactive'] at hactive
        cases hactive

theorem moves_enqueue {s t : Backfill} (hmoves : Moves host s t) {lower upper : Int} {kind : Kind}
    (hkind : Fresh lower kind) : Moves host s (t.enqueue host lower upper kind) := by
  unfold Backfill.enqueue
  split
  · exact hmoves
  · exact (hmoves.push hkind).next

theorem moves_window {s t : Backfill} (hmoves : Moves host s t) {target : Str} (hne : target ≠ [])
    (anchor : Option Int) (toMs : Int) : Moves host s (t.window host target anchor toMs) := by
  cases anchor with
  | none => exact hmoves
  | some anchor => exact moves_enqueue hmoves (.inl ⟨target, hne, rfl⟩)

theorem moves_targets {s t : Backfill} (hmoves : Moves host s t) (anchors : Anchors) (toMs : Int) :
    Moves host s (t.targets host anchors toMs) := by
  unfold Backfill.targets
  split
  · exact hmoves
  · exact moves_enqueue hmoves (.inr ⟨anchors, rfl⟩)

theorem moves_gap {s : Backfill} {channels : List Str} (hne : ∀ c ∈ channels, c ≠ []) (endMs : Int)
    (anchors : Anchors) : Moves host s (s.gap host channels endMs anchors) := by
  have hfold : ∀ t, Moves host s t → Moves host s (channels.foldl
      (fun s target => s.window host target (anchors.get? (host.fold target)) endMs) t) := by
    induction channels with
    | nil => exact fun t ht => ht
    | cons c channels ih =>
      intro t ht
      rw [List.foldl_cons]
      exact ih (fun c' hc' => hne c' (List.mem_cons_of_mem _ hc')) _
        (moves_window ht (hne c List.mem_cons_self) _ _)
  exact moves_targets (hfold s .refl) _ _

section Page

variable {s : Backfill} {answered : List Request} {abandoned : List Nat} {a : Active} {r : Request}

/-- A page of one target was read whole. -/
theorem Books.endedBetween (h : Books net host s answered abandoned) (hactive : s.active = some a)
    (hr : Asked host a.walk r) (hread : Reading a (net.answer host r)) (hlimit : a.limit = host.cap)
    (hlast : a.last = net.isLast host r) {target : Str} {fetched : Nat} {spawner : Option Nat}
    (hkind : a.walk.kind = .between target fetched spawner) :
    Books net host (({ s with active := none } : Backfill).endedBetween a target fetched spawner)
      (answered ++ [r]) abandoned := by
  obtain ⟨havailable, hledger, hnames, htargets⟩ := h
  have habout : r.about = some target := by
    rw [hr.about]
    simp only [Walk.about, hkind]
  have hheld : s.held = a.walk :: s.queue := by
    simp only [Backfill.held, hactive, Option.map_some, Option.toList_some, List.singleton_append]
  rw [hactive] at hledger
  rw [hheld] at hnames htargets
  have hqueue : ∀ x ∈ s.queue, x.about ≠ some [] :=
    fun x hx => htargets x (List.mem_cons_of_mem _ hx)
  have hpos : 0 < r.limit := hr.limit ▸ host.cap_pos
  rcases onward_cases hread hr.lower.symm (hlimit.trans hr.limit.symm) hpos hlast with
    ⟨newest, honward, hfull, hmost, hnewest⟩ | ⟨honward, hall⟩
  · simp only [Backfill.endedBetween, honward]
    have hsame : ∀ pages, ({ a.walk with
        lower := Cursor.advance r.lower newest
        pages := pages
        kind := .between target (fetched + a.messages) spawner } : Walk).about = a.walk.about := by
      intro pages
      simp only [Walk.about, hkind]
    refine ⟨havailable, hledger.goOn hr hfull hmost hnewest rfl (hsame _) rfl (by rw [hr.lower]),
      hnames.pageBetween habout rfl, fun x hx => ?_⟩
    rcases List.mem_cons.mp hx with rfl | hx
    · rw [hsame]
      exact htargets a.walk List.mem_cons_self
    · exact hqueue x hx
  · have hdone : Books net host { s with active := none } (answered ++ [r]) abandoned :=
      ⟨havailable, hledger.finish hr hall,
        (hnames.pageBetween habout hkind).mono fun x hx => List.mem_cons_of_mem _ hx, hqueue⟩
    simp only [Backfill.endedBetween, honward]
    split
    · exact ⟨hdone.available, hdone.ledger, hdone.names, hdone.targets⟩
    · exact hdone

/-- A page of targets was read whole. -/
theorem Books.endedTargets (h : Books net host s answered abandoned) (hactive : s.active = some a)
    (hr : Asked host a.walk r) (hread : Reading a (net.answer host r)) (hlimit : a.limit = host.cap)
    (hlast : a.last = net.isLast host r) {origin : Int} {anchors : Anchors} {seen : List Str}
    (hkind : a.walk.kind = .targets origin anchors seen) :
    Books net host (({ s with active := none } : Backfill).endedTargets host a origin anchors seen)
      (answered ++ [r]) abandoned := by
  obtain ⟨havailable, hledger, hnames, htargets⟩ := h
  have hheld : s.held = a.walk :: s.queue := by
    simp only [Backfill.held, hactive, Option.map_some, Option.toList_some, List.singleton_append]
  rw [hactive] at hledger
  rw [hheld] at hnames htargets
  have hapart : ∀ y ∈ s.queue, y.made ≠ a.walk.made := by
    have hnodup := hledger.nodup
    simp only [Option.map_some, Option.toList_some, List.singleton_append, List.map_cons,
      List.nodup_cons] at hnodup
    exact fun y hy heq => hnodup.1 (heq ▸ List.mem_map_of_mem hy)
  obtain ⟨fresh, hunseen, hsub, hnodup, hmem⟩ := unseen_spec host a.found.keys seen
  have hnamed : ∀ target ∈ fresh, target ≠ [] := by
    intro target htarget
    obtain ⟨time, hentry⟩ := (hread.found target).mp (hsub target htarget)
    have hpiece := (Cursor.mem_page hentry).1
    have habout : r.about = none := by
      rw [hr.about]
      simp only [Walk.about, hkind]
    simp only [Network.pieces, habout, List.mem_map, Piece.entry.injEq] at hpiece
    obtain ⟨c, hc, rfl, -⟩ := hpiece
    exact net.conversations_named _ c hc
  have hwindows : ∀ u ∈ windowsOf host origin anchors a.walk s.walks.length fresh,
      u.about ≠ some [] := by
    have hall : ∀ n, ∀ u ∈ windowsOf host origin anchors a.walk n fresh, u.about ≠ some [] := by
      clear hunseen hsub hnodup hmem
      induction fresh with
      | nil => exact fun _ _ hu => absurd hu List.not_mem_nil
      | cons target rest ih =>
        intro n u hu
        rcases List.mem_cons.mp hu with rfl | hu
        · exact fun heq => hnamed target List.mem_cons_self (Option.some.inj heq)
        · exact ih (fun t ht => hnamed t (List.mem_cons_of_mem _ ht)) (n + 1) u hu
    exact hall _
  have hqueue : ∀ x ∈ s.queue ++ windowsOf host origin anchors a.walk s.walks.length fresh,
      x.about ≠ some [] := by
    intro x hx
    rcases List.mem_append.mp hx with hx | hx
    · exact htargets x (List.mem_cons_of_mem _ hx)
    · exact hwindows x hx
  have hpushed := hledger.pushAll origin anchors a.walk fresh
  have hnames' (lower : Int) (pages : Nat) := hnames.pageTargets hkind hapart hr.walk
    hread.found hnodup hmem { a.walk with
      lower := lower
      pages := pages
      kind := .targets origin anchors (seen ++ fresh.map host.fold) } rfl rfl rfl
  have hpos : 0 < r.limit := hr.limit ▸ host.cap_pos
  rcases onward_cases hread hr.lower.symm (hlimit.trans hr.limit.symm) hpos hlast with
    ⟨newest, honward, hfull, hmost, hnewest⟩ | ⟨honward, hall⟩
  · simp only [Backfill.endedTargets, hunseen, honward, foldl_push]
    refine ⟨havailable, hpushed.goOn hr hfull hmost hnewest rfl ?_ rfl (by rw [hr.lower]),
      hnames' _ _, fun x hx => ?_⟩
    · simp only [Walk.about, hkind]
    · rcases List.mem_cons.mp hx with rfl | hx
      · intro heq
        cases heq
      · exact hqueue x hx
  · simp only [Backfill.endedTargets, hunseen, honward, foldl_push]
    exact ⟨havailable, hpushed.finish hr hall,
      (hnames' 0 0).mono fun x hx => List.mem_cons_of_mem _ hx, hqueue⟩

/-- A page was read whole. -/
theorem Books.ended (h : Books net host s answered abandoned) (hactive : s.active = some a)
    (hr : Asked host a.walk r) (hread : Reading a (net.answer host r)) (hlimit : a.limit = host.cap)
    (hlast : a.last = net.isLast host r) :
    Books net host (({ s with active := none } : Backfill).ended host a .replied)
      (answered ++ [r]) abandoned := by
  cases hkind : a.walk.kind with
  | between target fetched spawner =>
    simp only [Backfill.ended, hkind]
    exact h.endedBetween hactive hr hread hlimit hlast hkind
  | targets origin anchors seen =>
    simp only [Backfill.ended, hkind]
    exact h.endedTargets hactive hr hread hlimit hlast hkind

/-- The end of a page sends nothing by itself. -/
theorem ended_still (host : Host) (s : Backfill) (a : Active) (hactive : s.active = none) :
    (s.ended host a .replied).active = none ∧ (s.ended host a .replied).sent = s.sent := by
  simp only [Backfill.ended]
  split
  · simp only [Backfill.endedTargets, foldl_push]
    split <;> exact ⟨hactive, rfl⟩
  · simp only [Backfill.endedBetween]
    split
    · split <;> exact ⟨hactive, rfl⟩
    · exact ⟨hactive, rfl⟩

end Page

theorem Reading.empty (x : Walk) (s : Backfill) :
    Reading (opened host s x) ([] : List (Piece α)) := by
  refine ⟨rfl, fun _ h => absurd h List.not_mem_nil, fun _ h => (nomatch h), fun target => ?_⟩
  simp only [opened, OrderedMap.keys, OrderedMap.empty, List.map_nil, List.not_mem_nil,
    exists_false]

/-- One more time is noted. -/
theorem noteTime_spec (times : List Int) {newest : Option Int}
    (hleast : ∀ t ∈ times, ∃ n, newest = some n ∧ t ≤ n) (hof : ∀ n, newest = some n → n ∈ times)
    (time : Int) :
    (∀ t ∈ times ++ [time], ∃ n, Backfill.noteTime newest (some time) = some n ∧ t ≤ n) ∧
      ∀ n, Backfill.noteTime newest (some time) = some n → n ∈ times ++ [time] := by
  cases newest with
  | none =>
    have hnone : times = [] := by
      apply List.eq_nil_iff_forall_not_mem.mpr
      intro t ht
      obtain ⟨n, hn, -⟩ := hleast t ht
      cases hn
    subst hnone
    refine ⟨fun t ht => ⟨time, rfl, ?_⟩, fun n hn => ?_⟩
    · rw [List.mem_singleton.mp ht]
    · rw [← Option.some.inj hn]
      exact List.mem_append_right _ List.mem_cons_self
  | some newest =>
    by_cases hlt : newest < time
    · have hnote : Backfill.noteTime (some newest) (some time) = some time := by
        simp only [Backfill.noteTime, Option.all_some, hlt, decide_true, ↓reduceIte]
      rw [hnote]
      refine ⟨fun t ht => ⟨time, rfl, ?_⟩, fun n hn => ?_⟩
      · rcases List.mem_append.mp ht with ht | ht
        · obtain ⟨n, hn, hle⟩ := hleast t ht
          have := Option.some.inj hn
          omega
        · rw [List.mem_singleton.mp ht]
      · rw [← Option.some.inj hn]
        exact List.mem_append_right _ List.mem_cons_self
    · have hnote : Backfill.noteTime (some newest) (some time) = some newest := by
        simp only [Backfill.noteTime, Option.all_some, hlt, decide_false, Bool.false_eq_true,
          ↓reduceIte]
      rw [hnote]
      refine ⟨fun t ht => ⟨newest, rfl, ?_⟩, fun n hn => List.mem_append_left _ (hof n hn)⟩
      rcases List.mem_append.mp ht with ht | ht
      · obtain ⟨n, hn, hle⟩ := hleast t ht
        rwa [Option.some.inj hn]
      · rw [List.mem_singleton.mp ht]
        omega

/-- A piece more was read. -/
theorem Reading.more {a a' : Active} {done : List (Piece α)} (h : Reading a done) (p : Piece α)
    (hlines : a'.lines = a.lines + 1)
    (hnewest : a'.newest = Backfill.noteTime a.newest (some p.time))
    (hfound : ∀ target, target ∈ a'.found.keys ↔
      target ∈ a.found.keys ∨ ∃ time, p = .entry target time) : Reading a' (done ++ [p]) := by
  have htimes := noteTime_spec (done.map Piece.time)
    (fun t ht => by
      obtain ⟨q, hq, rfl⟩ := List.mem_map.mp ht
      exact h.least q hq)
    (fun n hn => by
      obtain ⟨q, hq, rfl⟩ := h.newest n hn
      exact List.mem_map_of_mem hq) p.time
  rw [← hnewest] at htimes
  have hmap : done.map Piece.time ++ [p.time] = (done ++ [p]).map Piece.time := by
    rw [List.map_append, List.map_singleton]
  rw [hmap] at htimes
  refine ⟨?_, fun q hq => htimes.1 q.time (List.mem_map_of_mem hq), fun n hn => ?_, fun target => ?_⟩
  · rw [hlines, h.lines, List.length_append, List.length_singleton]
  · exact List.mem_map.mp (htimes.2 n hn)
  · rw [hfound, h.found]
    simp only [List.mem_append, List.mem_singleton, exists_or]
    constructor
    · rintro (hold | ⟨time, rfl⟩)
      · exact .inl hold
      · exact .inr ⟨time, rfl⟩
    · rintro (hold | ⟨time, heq⟩)
      · exact .inl hold
      · exact .inr ⟨time, heq.symm⟩

/-- The request on the wire, and how far its page was read. -/
structure Serving (net : Network α) (host : Host) (w : World α) (a : Active) (r : Request) :
    Prop where
  pending : w.pending = [r]
  asked : Asked host a.walk r
  limit : a.limit = host.cap
  page : match w.batch with
    | none => w.query = some ⟨a.request, r.about, none⟩ ∧ a.ref = none ∧
        Reading a ([] : List (Piece α))
    | some (ref, rest) => w.query = some ⟨a.request, r.about, some ref⟩ ∧ a.ref = some ref ∧
        w.backfill.isOurs ref = true ∧ a.last = net.isLast host r ∧
        ∃ done, net.answer host r = done ++ rest ∧ Reading a done

/-- The wire carries the request of the page being read, or one that was given up. -/
structure Wire (net : Network α) (host : Host) (w : World α) : Prop where
  idle : w.pending = [] → w.batch = none
  gone : w.backfill.active = none → w.query = none ∧ w.pending.length ≤ 1
  out : ∀ a, w.backfill.active = some a → ∃ r, Serving net host w a r

structure Sound (net : Network α) (host : Host) (w : World α) : Prop where
  books : Books net host w.backfill w.answered w.abandoned
  wire : Wire net host w

/-- Whether an event may send a request. -/
def Event.Asks : Event → Prop
  | .serve | .suspend => False
  | _ => True

/-- Channels have names. -/
def Event.Named : Event → Prop
  | .joined target .. => target ≠ []
  | .gap channels .. => ∀ c ∈ channels, c ≠ []
  | _ => True

/-- When a walk goes on, no answer to a request that was given up is still to come. -/
def Clear (w : World α) (e : Event) : Prop :=
  e.Named ∧ (e.Asks → w.backfill.active = none → w.pending = [])

instance (e : Event) : Decidable e.Named :=
  match e with
  | .joined target _ _ => inferInstanceAs (Decidable (target ≠ []))
  | .gap channels _ _ => inferInstanceAs (Decidable (∀ c ∈ channels, c ≠ []))
  | .registered .. | .serve | .suspend | .resume => .isTrue trivial

instance (e : Event) : Decidable e.Asks :=
  match e with
  | .joined .. | .registered .. | .gap .. | .resume => .isTrue trivial
  | .serve | .suspend => .isFalse id

instance (w : World α) (e : Event) : Decidable (Clear w e) :=
  inferInstanceAs (Decidable (e.Named ∧ (e.Asks → w.backfill.active = none → w.pending = [])))

section Steps

variable {w : World α}

/-- What a trigger sends goes on a wire that is free. -/
theorem Wire.act (h : Wire net host w) {t : Backfill} (hsends : Sends host w.backfill t)
    (hclear : w.backfill.active = none → w.pending = []) : Wire net host (w.act t) := by
  rcases hsends with ⟨hactive, hsent, hasked⟩ | ⟨hnone, x, hactive, hsent⟩
  · have heq : w.act t = { w with backfill := t } := by
      simp only [World.act, hsent, List.drop_length, List.append_nil, List.getLast?_nil]
    rw [heq]
    refine ⟨h.idle, fun hgone => h.gone (hactive ▸ hgone), fun a ha => ?_⟩
    obtain ⟨r, hserving⟩ := h.out a (hactive ▸ ha)
    refine ⟨r, hserving.pending, hserving.asked, hserving.limit, ?_⟩
    have hours : ∀ ref, t.isOurs ref = w.backfill.isOurs ref := by
      intro ref
      simp only [Backfill.isOurs, hasked]
    have hpage := hserving.page
    simpa only [hours] using hpage
  · have hpending := hclear hnone
    have heq : w.act t = { w with
        backfill := t
        pending := [w.backfill.ask host x]
        query := some ⟨w.backfill.sent.length, x.about, none⟩ } := by
      simp only [World.act, hsent, List.drop_left, hpending, List.nil_append, List.getLast?_singleton,
        Backfill.ask]
    rw [heq]
    refine ⟨fun h => (nomatch h), fun hgone => ?_, fun a ha => ?_⟩
    · rw [hactive] at hgone
      cases hgone
    · obtain rfl : opened host w.backfill x = a := Option.some.inj (hactive.symm.trans ha)
      refine ⟨w.backfill.ask host x, rfl, ⟨rfl, rfl, rfl, rfl, rfl⟩, rfl, ?_⟩
      simp only [h.idle hpending]
      exact ⟨rfl, rfl, .empty x w.backfill⟩

theorem Sound.moves (h : Sound net host w) {t : Backfill} (hmoves : Moves host w.backfill t)
    (hclear : w.backfill.active = none → w.pending = []) : Sound net host (w.act t) :=
  ⟨h.books.moves hmoves, h.wire.act (sends_moves h.books.available hmoves).2 hclear⟩

theorem Sound.suspend (h : Sound net host w) : Sound net host w.suspend := by
  cases hactive : w.backfill.active with
  | none =>
    have heq : w.suspend = { w with query := none } := by
      simp only [World.suspend, Backfill.suspend, hactive, Option.map_none, Option.toList_none,
        List.append_nil]
    rw [heq]
    refine ⟨h.books, h.wire.idle, fun hgone => ⟨rfl, (h.wire.gone hgone).2⟩, fun a ha => ?_⟩
    rw [hactive] at ha
    cases ha
  | some a =>
    obtain ⟨r, hserving⟩ := h.wire.out a hactive
    obtain ⟨havailable, hledger, hnames, htargets⟩ := h.books
    have hheld : w.backfill.held = a.walk :: w.backfill.queue := by
      simp only [Backfill.held, hactive, Option.map_some, Option.toList_some, List.singleton_append]
    rw [hactive] at hledger
    rw [hheld] at hnames htargets
    have heq : w.suspend = { w with
        backfill := { w.backfill with active := none, queue := a.walk :: w.backfill.queue }
        query := none
        abandoned := w.abandoned ++ [a.walk.made] } := by
      simp only [World.suspend, Backfill.suspend, hactive, Option.map_some, Option.toList_some]
    rw [heq]
    refine ⟨⟨havailable, hledger.suspend, hnames, htargets⟩, h.wire.idle, fun _ => ⟨rfl, ?_⟩,
      fun b hb => (nomatch hb)⟩
    rw [hserving.pending]
    exact Nat.le_refl 1

/-- Only what a page counts changes. -/
theorem Books.reading {s : Backfill} {answered : List Request} {abandoned : List Nat} {a : Active}
    (h : Books net host s answered abandoned) (hactive : s.active = some a) (a' : Active)
    (hwalk : a'.walk = a.walk) (asked : List Str) (unanswered : Nat) :
    Books net host { s with active := some a', asked := asked, unanswered := unanswered }
      answered abandoned := by
  obtain ⟨havailable, hledger, hnames, htargets⟩ := h
  simp only [Backfill.held, hactive, Option.map_some] at hledger hnames htargets
  refine ⟨havailable, ?_, ?_, ?_⟩ <;> simpa only [Backfill.held, Option.map_some, hwalk]

/-- The router takes the batch of the page asked for. -/
theorem mine_self (host : Host) {about : Option Str} (h : about ≠ some []) :
    Backfill.mine host about (if about.isSome then chathistoryType else targetsType) about =
      true := by
  cases about with
  | none =>
    show decide (targetsType = targetsType) = true
    exact decide_eq_true rfl
  | some target =>
    have hne : target ≠ [] := fun heq => h (congrArg some heq)
    simp only [Backfill.mine, Option.isSome_some, ↓reduceIte, decide_true, Option.any_some, hne, ne_eq,
      not_false_eq_true, Bool.and_self]

theorem isOurs_insert (s : Backfill) (active : Option Active) (unanswered : Nat) (asked : List Str)
    (n : Nat) : Backfill.isOurs { s with
      active := active
      unanswered := unanswered
      asked := asked.insert (decimal n) } (decimal n) = true := by
  simp only [Backfill.isOurs, decimal_ne_nil, ne_eq, not_false_eq_true, decide_true, Bool.true_and,
    List.contains_iff_mem, List.mem_insert_self]

theorem Sound.batchStart (h : Sound net host w) {r : Request} (hpending : w.pending = [r])
    (hbatch : w.batch = none) : Sound net host (w.batchStart net host r) := by
  cases hactive : w.backfill.active with
  | none =>
    obtain ⟨hquery, hone⟩ := h.wire.gone hactive
    have heq : w.batchStart net host r =
        { w with
          batch := some (decimal w.batches, net.answer host r)
          batches := w.batches + 1 } := by
      simp only [World.batchStart, hquery]
    rw [heq]
    refine ⟨h.books, fun hidle => ?_, fun _ => ⟨hquery, hone⟩, fun a ha => ?_⟩
    · rw [hpending] at hidle
      cases hidle
    · rw [hactive] at ha
      cases ha
  | some a =>
    obtain ⟨r', hpending', hasked, hlimit, hpage⟩ := h.wire.out a hactive
    obtain rfl : r = r' := List.singleton_inj.mp (hpending.symm.trans hpending')
    rw [hbatch] at hpage
    obtain ⟨hquery, href, hread⟩ := hpage
    have hnamed : r.about ≠ some [] := by
      rw [hasked.about]
      apply h.books.targets
      simp only [Backfill.held, hactive, Option.map_some, Option.toList_some]
      exact List.mem_cons_self
    have hmine := mine_self host hnamed
    have hmine' : Backfill.mine host a.walk.about
        (if r.about.isSome then chathistoryType else targetsType) r.about = true := by
      rw [← hasked.about]
      exact hmine
    have heq : w.batchStart net host r = { w with
        batch := some (decimal w.batches, net.answer host r)
        batches := w.batches + 1
        query := some ⟨a.request, r.about, some (decimal w.batches)⟩
        backfill := { w.backfill with
          active := some { a with ref := some (decimal w.batches), last := net.isLast host r }
          unanswered := 0
          asked := (if ASKED_REMEMBERED ≤ w.backfill.asked.length then []
            else w.backfill.asked).insert (decimal w.batches) } } := by
      simp only [World.batchStart, hquery, Option.isNone_none, hmine, Bool.and_self, ↓reduceIte,
        Backfill.onBatchStart, hactive, href, Option.any_none, Bool.false_eq_true, hmine']
    rw [heq]
    refine ⟨h.books.reading hactive { a with ref := some _, last := _ } rfl _ _, fun hidle => ?_,
      fun hgone => (nomatch hgone), fun b hb => ?_⟩
    · rw [hpending] at hidle
      cases hidle
    · obtain rfl := Option.some.inj hb
      exact ⟨r, hpending, hasked, hlimit, rfl, rfl, isOurs_insert _ _ _ _ _, rfl, [], rfl,
        hread.lines, hread.least, hread.newest, hread.found⟩

/-- A line that the walk does not hear of. -/
theorem Sound.unheard (h : Sound net host w) (hactive : w.backfill.active = none) {ref : Str}
    (rest : List (Piece α)) (hpending : w.pending ≠ []) :
    Sound net host { w with batch := some (ref, rest) } := by
  refine ⟨h.books, fun hidle => absurd hidle hpending, fun _ => h.wire.gone hactive, fun a ha => ?_⟩
  rw [hactive] at ha
  cases ha

theorem Sound.batchLine (h : Sound net host w) {r : Request} (hpending : w.pending = [r]) {ref : Str}
    {p : Piece α} {rest : List (Piece α)} (hbatch : w.batch = some (ref, p :: rest)) :
    Sound net host (w.batchLine ref p rest) := by
  have hne : w.pending ≠ [] := by
    rw [hpending]
    exact List.cons_ne_nil _ _
  cases hactive : w.backfill.active with
  | none =>
    have heq : w.batchLine ref p rest = { w with batch := some (ref, rest) } := by
      simp only [World.batchLine, (h.wire.gone hactive).1, Option.any_none, Bool.false_eq_true,
        ↓reduceIte]
    rw [heq]
    exact h.unheard hactive rest hne
  | some a =>
    obtain ⟨r', hpending', hasked, hlimit, hpage⟩ := h.wire.out a hactive
    rw [hbatch] at hpage
    obtain ⟨hquery, href, hours, hlast, done, hanswer, hread⟩ := hpage
    obtain ⟨a', heq, hwalk, hrequest, hlimit', href', hlast', hread'⟩ : ∃ a' : Active,
        w.batchLine ref p rest = { w with
          batch := some (ref, rest)
          backfill := { w.backfill with active := some a' } } ∧
        a'.walk = a.walk ∧ a'.request = a.request ∧ a'.limit = a.limit ∧ a'.ref = a.ref ∧
        a'.last = a.last ∧ Reading a' (done ++ [p]) := by
      cases p with
      | line l =>
        refine ⟨{ a with
          lines := a.lines + 1
          messages := if l.message then a.messages + 1 else a.messages
          newest := Backfill.noteTime a.newest (some l.time) }, ?_, rfl, rfl, rfl, rfl, rfl, ?_⟩
        · simp only [World.batchLine, hquery, Option.any_some, decide_true, ↓reduceIte, hours,
            Backfill.onBatchLine, hactive, href, ne_eq, not_true_eq_false]
        · refine hread.more (.line l) rfl rfl fun target =>
            ⟨.inl, fun hfound => hfound.resolve_right ?_⟩
          exact fun ⟨_, heq⟩ => (nomatch heq)
      | entry target time =>
        have hname : target ≠ [] := by
          have hin : .entry target time ∈ net.answer host r' := by
            rw [hanswer]
            exact List.mem_append_right _ List.mem_cons_self
          have hpiece := (Cursor.mem_page hin).1
          simp only [Network.pieces] at hpiece
          split at hpiece
          · simp only [List.mem_map, reduceCtorEq, and_false, exists_false] at hpiece
          · simp only [List.mem_map, Piece.entry.injEq] at hpiece
            obtain ⟨c, hc, rfl, -⟩ := hpiece
            exact net.conversations_named _ c hc
        have hours' : ∀ active : Option Active,
            ({ w.backfill with active := active } : Backfill).isOurs ref = true := fun _ => hours
        refine ⟨{ a with
          lines := a.lines + 1
          found := a.found.set target time
          newest := Backfill.noteTime a.newest (some time) }, ?_, rfl, rfl, rfl, rfl, rfl, ?_⟩
        · simp only [World.batchLine, hquery, Option.any_some, decide_true, ↓reduceIte,
            Backfill.onTargetsLine, hactive, href, ne_eq, not_true_eq_false, hname, or_self, hours',
            Backfill.onBatchLine, Backfill.noteTime, Bool.false_eq_true]
        · refine hread.more (.entry target time) rfl rfl fun target' => ?_
          rw [OrderedMap.keys_set]
          split
          · rename_i hold
            constructor
            · exact .inl
            · rintro (hin | ⟨time', heq⟩)
              · exact hin
              · rw [← (Piece.entry.inj heq).1]
                exact hold
          · simp only [List.mem_append, List.mem_singleton, Piece.entry.injEq]
            constructor
            · rintro (hin | rfl)
              · exact .inl hin
              · exact .inr ⟨time, rfl, rfl⟩
            · rintro (hin | ⟨time', rfl, -⟩)
              · exact .inl hin
              · exact .inr rfl
    rw [heq]
    refine ⟨h.books.reading hactive a' hwalk _ _, fun hidle => absurd hidle hne,
      fun hgone => (nomatch hgone), fun b hb => ?_⟩
    obtain rfl := Option.some.inj hb
    refine ⟨r', hpending', hwalk ▸ hasked, hlimit'.trans hlimit, ?_⟩
    refine ⟨hrequest ▸ hquery, href'.trans href, hours, hlast'.trans hlast, done ++ [p], ?_, hread'⟩
    rw [hanswer, List.append_assoc, List.singleton_append]

theorem Sound.batchEnd (h : Sound net host w) {r : Request} (hpending : w.pending = [r]) {ref : Str}
    (hbatch : w.batch = some (ref, [])) : Sound net host (w.batchEnd host r ref []) := by
  cases hactive : w.backfill.active with
  | none =>
    have hquery := (h.wire.gone hactive).1
    have heq : w.batchEnd host r ref [] = { w with pending := [], batch := none } := by
      simp only [World.batchEnd, hquery]
    rw [heq]
    refine ⟨h.books, fun _ => rfl, fun _ => ⟨hquery, Nat.zero_le 1⟩, fun a ha => ?_⟩
    rw [hactive] at ha
    cases ha
  | some a =>
    obtain ⟨r', hpending', hasked, hlimit, hpage⟩ := h.wire.out a hactive
    obtain rfl : r = r' := List.singleton_inj.mp (hpending.symm.trans hpending')
    rw [hbatch] at hpage
    obtain ⟨hquery, href, hours, hlast, done, hanswer, hread⟩ := hpage
    rw [List.append_nil] at hanswer
    rw [← hanswer] at hread
    have hbooks := h.books.ended hactive hasked hread hlimit hlast
    obtain ⟨hstill, hsent⟩ := ended_still host { w.backfill with active := none } a rfl
    generalize ht : ({ w.backfill with active := none } : Backfill).ended host a .replied = t
      at hbooks hstill hsent
    have heq : w.batchEnd host r ref [] =
        ({ w with
          backfill := t
          query := none
          pending := []
          batch := none
          answered := w.answered ++ [r] } : World α).act (t.next host) := by
      simp only [World.batchEnd, hquery, ↓reduceIte, Backfill.onEnd, hactive, ne_eq, not_true_eq_false,
        ht, World.act, hsent]
    rw [heq]
    have hwire : Wire net host ({ w with
        backfill := t
        query := none
        pending := []
        batch := none
        answered := w.answered ++ [r] } : World α) := by
      refine ⟨fun _ => rfl, fun _ => ⟨rfl, Nat.zero_le 1⟩, fun b hb => ?_⟩
      have hb' : t.active = some b := hb
      rw [hstill] at hb'
      cases hb'
    exact ⟨hbooks.next, hwire.act (sends_next t hbooks.available) fun _ => rfl⟩

/-- What is on the wire is one request. -/
theorem Wire.single (h : Wire net host w) (hpending : w.pending ≠ []) : ∃ r, w.pending = [r] := by
  cases hactive : w.backfill.active with
  | none =>
    have hlen := (h.gone hactive).2
    have hpos := List.length_pos_of_ne_nil hpending
    exact List.length_eq_one_iff.mp (by omega)
  | some a =>
    obtain ⟨r, hserving⟩ := h.out a hactive
    exact ⟨r, hserving.pending⟩

theorem Sound.serve (h : Sound net host w) : Sound net host (w.serve net host) := by
  by_cases hpending : w.pending = []
  · simp only [World.serve, hpending]
    exact h
  · obtain ⟨r, hpending⟩ := h.wire.single hpending
    match hbatch : w.batch with
    | none =>
      simp only [World.serve, hpending, hbatch]
      exact h.batchStart hpending hbatch
    | some (ref, p :: rest) =>
      simp only [World.serve, hpending, hbatch]
      exact h.batchLine hpending hbatch
    | some (ref, []) =>
      simp only [World.serve, hpending, hbatch]
      exact h.batchEnd hpending hbatch

theorem Sound.step (h : Sound net host w) (e : Event) (hclear : Clear w e) :
    Sound net host (w.step net host e) := by
  obtain ⟨hnamed, hfree⟩ := hclear
  cases e with
  | joined target joinedAtMs anchor =>
    exact h.moves (moves_window .refl hnamed anchor joinedAtMs) (hfree trivial)
  | registered nowMs anchors => exact h.moves (moves_targets .refl anchors nowMs) (hfree trivial)
  | gap channels endMs anchors => exact h.moves (moves_gap hnamed endMs anchors) (hfree trivial)
  | serve => exact h.serve
  | suspend => exact h.suspend
  | resume => exact h.moves (.next .refl) (hfree trivial)

end Steps

theorem Sound.init (net : Network α) (host : Host) : Sound net host World.init := by
  refine ⟨⟨rfl, ⟨?_, ?_, ?_, List.nodup_nil, ?_, ?_, ?_⟩, ⟨fun i => List.nodup_nil, ?_, ?_, ?_⟩, ?_⟩,
    fun _ => rfl, fun _ => ⟨rfl, Nat.zero_le 1⟩, fun _ h => (nomatch h)⟩
  all_goals exact fun _ h => (nomatch h)

/-- The state a run leads to. -/
def reached (net : Network α) (host : Host) (es : List Event) : World α :=
  Run.after (World.step net host) World.init es

theorem Sound.run {es : List Event}
    (hclear : Run.Within (World.step net host) Clear World.init es) :
    Sound net host (reached net host es) :=
  Run.invariant_within _ (.init net host) (fun _ e h hc => h.step e hc) es hclear

/-- A channel with two lines at one time, and a conversation. -/
def sampleNet : Network Str where
  history key :=
    if key = "#a".toList then
      [⟨5001, true, "a".toList⟩, ⟨5002, true, "b".toList⟩, ⟨5002, true, "c".toList⟩,
        ⟨5003, true, "d".toList⟩]
    else if key = "bob".toList then [⟨4500, true, "e".toList⟩]
    else []
  conversations upper := [("bob".toList, (4500 : Int))].filter (·.2 < upper)
  marksEnd := false
  history_sorted := by
    intro key
    split
    · decide
    · split
      · decide
      · exact .nil
  conversations_sorted upper := (List.pairwise_singleton _ _).sublist List.filter_sublist
  conversations_named upper c hc := by
    obtain rfl := List.mem_singleton.mp (List.mem_of_mem_filter hc)
    decide

def sampleHost : Host := ⟨2, id⟩

/-- The link drops within the first page and is back once its answer has passed. -/
def sampleRun : List Event :=
  [.joined "#a".toList 9000 (some 6000), .registered 9000 ⟨[("#a".toList, 5000)], by decide⟩,
    .serve, .serve, .suspend, .serve, .serve, .resume] ++ List.replicate 22 .serve

theorem sampleRun_clear :
    Run.Within (World.step sampleNet sampleHost) Clear World.init sampleRun := by
  decide +kernel

theorem sampleRun_walks :
    0 < (reached sampleNet sampleHost sampleRun).backfill.walks.length := by
  decide +kernel

/-- A walk that is over has had every line of its window on a page. -/
theorem window_read {es : List Event}
    (hclear : Run.Within (World.step net host) Clear World.init es) {v : Walk}
    (hmade : v ∈ (reached net host es).backfill.walks)
    (hover : ∀ x ∈ (reached net host es).backfill.held, x.made ≠ v.made)
    (hfit : Cursor.TiesFit Piece.time (v.pieces net host) host.cap) {p : Piece α}
    (hp : p ∈ v.pieces net host) (hlow : v.lower < p.time) :
    ∃ r ∈ (reached net host es).answered, r.walk = v.made ∧ p ∈ net.answer host r := by
  have hledger := (Sound.run hclear).books.ledger
  exact (hledger.done v hmade hover).covered p.time hfit p hp hlow (Int.le_refl p.time)

theorem window_read_sample : ∃ v ∈ (reached sampleNet sampleHost sampleRun).backfill.walks,
    (v.pieces sampleNet sampleHost).length = 4 ∧
      ∀ p ∈ v.pieces sampleNet sampleHost, v.lower < p.time →
        ∃ r ∈ (reached sampleNet sampleHost sampleRun).answered,
          r.walk = v.made ∧ p ∈ sampleNet.answer sampleHost r := by
  refine ⟨_, List.getElem_mem sampleRun_walks, by decide +kernel, fun p hp hlow => ?_⟩
  exact window_read sampleRun_clear (List.getElem_mem sampleRun_walks) (by decide +kernel)
    (Cursor.tiesFit_of_mem (by decide +kernel)) hp hlow

/-- An answer that comes after its page was asked for again is taken for that page, and each
answer after it for the page before its own: the last goes to nobody. -/
example :
    let w := reached sampleNet sampleHost
      ([.joined "#a".toList 9000 (some 6000), .suspend, .resume] ++ List.replicate 20 .serve)
    w.backfill.held.length = 0 ∧ w.pending = [] ∧
      ∀ r ∈ w.answered, .line ⟨5003, true, "d".toList⟩ ∉ sampleNet.answer sampleHost r := by
  decide +kernel

/-- One request at a time is on the wire, and a walk asks at most twice for each line of its
window, twice more, and once for each time its request was given up. -/
theorem walk_asks_le {es : List Event}
    (hclear : Run.Within (World.step net host) Clear World.init es) {v : Walk}
    (hmade : v ∈ (reached net host es).backfill.walks) :
    (reached net host es).pending.length ≤ 1 ∧
      (reached net host es).backfill.sent.countP (·.walk = v.made) ≤
        2 * ((v.pieces net host).filter (v.lower < ·.time)).length + 2 +
          (reached net host es).abandoned.count v.made := by
  have hsound := Sound.run hclear
  have hledger := hsound.books.ledger
  constructor
  · by_cases hpending : (reached net host es).pending = []
    · rw [hpending]
      exact Nat.zero_le 1
    · obtain ⟨r, hone⟩ := hsound.wire.single hpending
      rw [hone]
      exact Nat.le_refl 1
  · have hleft : v.left net host v.lower ≤
        2 * ((v.pieces net host).filter (v.lower < ·.time)).length + 1 := Cursor.left_le _ _
    by_cases hheld : ∃ x ∈ (reached net host es).backfill.held, x.made = v.made
    · obtain ⟨x, hx, hsame⟩ := hheld
      have hkept : ∃ out ≤ 1, ∃ u ∈ (reached net host es).backfill.walks, Kept net host
          (reached net host es).backfill.sent (reached net host es).answered
          (reached net host es).abandoned u x out := by
        rcases List.mem_append.mp hx with hx | hx
        · exact ⟨1, Nat.le_refl 1, hledger.onWire x (Option.mem_toList.mp hx)⟩
        · exact ⟨0, Nat.zero_le 1, hledger.queued x hx⟩
      obtain ⟨out, hout, u, hu, hkept⟩ := hkept
      obtain rfl := hledger.unique hu hmade (hkept.made.symm.trans hsame)
      have hspent := hkept.spent
      omega
    · have hover := hledger.done v hmade fun x hx hsame => hheld ⟨x, hx, hsame⟩
      have hspent := hover.spent
      omega

theorem walk_asks_le_sample : ∃ v ∈ (reached sampleNet sampleHost sampleRun).backfill.walks,
    (reached sampleNet sampleHost sampleRun).backfill.sent.countP (·.walk = v.made) ≤
      2 * ((v.pieces sampleNet sampleHost).filter (v.lower < ·.time)).length + 2 +
        (reached sampleNet sampleHost sampleRun).abandoned.count v.made := by
  exact ⟨_, List.getElem_mem sampleRun_walks,
    (walk_asks_le sampleRun_clear (List.getElem_mem sampleRun_walks)).2⟩

/-- Where nothing comes twice, what has a key is one. -/
theorem filter_eq_singleton {β γ κ : Type} [DecidableEq κ] (f : β → Option γ) (g : γ → κ)
    {l : List β} {k : κ} (hnodup : ((l.filterMap f).map g).Nodup)
    (hk : k ∈ (l.filterMap f).map g) :
    ∃ u t, l.filter (fun u => (f u).any (g · = k)) = [u] ∧ f u = some t ∧ g t = k := by
  induction l with
  | nil => exact absurd hk List.not_mem_nil
  | cons b l ih =>
    cases hb : f b with
    | none =>
      simp only [List.filterMap_cons, hb] at hnodup hk
      simpa only [List.filter_cons, hb, Option.any_none, Bool.false_eq_true, ↓reduceIte] using
        ih hnodup hk
    | some t =>
      simp only [List.filterMap_cons, hb, List.map_cons, List.nodup_cons, List.mem_cons] at hnodup hk
      by_cases ht : g t = k
      · refine ⟨b, t, ?_, hb, ht⟩
        have hnone : l.filter (fun u => (f u).any (g · = k)) = [] := by
          apply List.filter_eq_nil_iff.mpr
          intro u hu hany
          apply hnodup.1
          cases hu' : f u with
          | none => simp only [hu', Option.any_none, Bool.false_eq_true] at hany
          | some t' =>
            have ht' : g t' = k := by
              simpa only [hu', Option.any_some, decide_eq_true_eq] using hany
            rw [ht, ← ht']
            exact List.mem_map_of_mem (List.mem_filterMap.mpr ⟨u, hu, hu'⟩)
        simp only [List.filter_cons, hb, Option.any_some, ht, decide_true, ↓reduceIte, hnone]
      · have hrest := ih hnodup.2 (hk.resolve_left fun heq => ht heq.symm)
        simpa only [List.filter_cons, hb, Option.any_some, ht, decide_false, Bool.false_eq_true,
          ↓reduceIte] using hrest

/-- Each person that a page of targets named has one window of that walk, to the end of the
gap, from the newest line held of them or else from where the walk began. -/
theorem named_once {es : List Event}
    (hclear : Run.Within (World.step net host) Clear World.init es) {r : Request}
    (hr : r ∈ (reached net host es).answered) {target : Str} {time : Int}
    (hin : .entry target time ∈ net.answer host r) (hchannel : isChannelTarget target = false) :
    ∃ v anchors seen u, (reached net host es).backfill.walks[r.walk]? = some v ∧
      v.kind = .targets v.lower anchors seen ∧
      (reached net host es).backfill.walks.filter (fun u =>
        (u.namedBy r.walk).any (host.fold · = host.fold target)) = [u] ∧
      u.upper = v.upper ∧ u.lower = Backfill.windowStart host v.lower anchors target := by
  have hnames := (Sound.run hclear).books.names
  obtain ⟨u, t, hone, hnamed, hfold⟩ := filter_eq_singleton (Walk.namedBy r.walk) host.fold
    (hnames.nodup r.walk) (hnames.named r hr target time hin hchannel)
  have hu : u ∈ (reached net host es).backfill.walks :=
    List.mem_of_mem_filter (hone ▸ List.mem_cons_self)
  have hkind : ∃ fetched, u.kind = .between t fetched (some r.walk) := by
    simp only [Walk.namedBy] at hnamed
    split at hnamed
    · rename_i t' fetched spawner hkind
      split at hnamed
      · rename_i hsame
        rw [← Option.some.inj hnamed, ← hsame]
        exact ⟨fetched, hkind⟩
      · cases hnamed
    · cases hnamed
  obtain ⟨fetched, hkind⟩ := hkind
  obtain ⟨v, anchors, seen, hv, hof, hupper, hlower⟩ := hnames.started u hu t fetched r.walk hkind
  refine ⟨v, anchors, seen, u, hv, hof, hone, hupper, hlower.trans ?_⟩
  simp only [Backfill.windowStart, hfold]

theorem named_once_sample : ∃ v anchors seen u,
    (reached sampleNet sampleHost sampleRun).backfill.walks[1]? = some v ∧
      v.kind = .targets v.lower anchors seen ∧
      (reached sampleNet sampleHost sampleRun).backfill.walks.filter (fun u =>
        (u.namedBy 1).any (sampleHost.fold · = sampleHost.fold "bob".toList)) = [u] ∧
      u.upper = v.upper ∧
      u.lower = Backfill.windowStart sampleHost v.lower anchors "bob".toList := by
  have hpage : ⟨4, 1, none, 4000, 10000, 2⟩ ∈
      (reached sampleNet sampleHost sampleRun).answered := by decide +kernel
  have hentry : .entry "bob".toList 4500 ∈
      sampleNet.answer sampleHost ⟨4, 1, none, 4000, 10000, 2⟩ := by decide +kernel
  exact named_once sampleRun_clear hpage hentry (by decide)

end Lurker.Irc.History
