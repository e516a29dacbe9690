import Lurker.Irc.BackfillRuns

/-!
# The reading of a gap ends

Each line the network sends brings the end nearer: it ends a page, a page read whole leaves
less of its window, and a page of targets leaves less of the targets, whatever windows it
opened. So whatever happened before, once the link is back and the network answers, every
window is read.
-/

namespace Lurker.Irc.History

open E2e (decimal)

attribute [local instance] str_lawfulBEq

variable {α : Type} {net : Network α} {host : Host}

section Weigh

variable (net host)

def Walk.isTargets (v : Walk) : Bool :=
  match v.kind with
  | .targets .. => true
  | .between .. => false

/-- What is left of the walks of one kind. -/
def weigh (targets : Bool) : List Walk → Nat
  | [] => 0
  | v :: rest =>
    (if v.isTargets = targets then v.left net host v.lower + 1 else 0) + weigh targets rest

/-- How many lines are to come until the page is read. -/
def toCome (w : World α) : Nat :=
  match w.pending, w.batch with
  | r :: _, none => (net.answer host r).length + 2
  | _, some (_, rest) => rest.length + 1
  | [], none => 0

/-- The windows a page of targets opens count less than what it leaves less of targets. -/
def leftToRead (w : World α) : Nat × Nat × Nat :=
  (weigh net host true w.backfill.held, weigh net host false w.backfill.held, toCome net host w)

def Nearer : Nat × Nat × Nat → Nat × Nat × Nat → Prop := Prod.Lex (· < ·) (Prod.Lex (· < ·) (· < ·))

end Weigh

theorem nearer_wf : WellFounded Nearer := by
  have hlt : WellFounded (fun a b : Nat => a < b) := Nat.lt_wfRel.wf
  exact WellFounded.prod_lex hlt (WellFounded.prod_lex hlt hlt)

theorem weigh_append (targets : Bool) (xs ys : List Walk) :
    weigh net host targets (xs ++ ys) = weigh net host targets xs + weigh net host targets ys := by
  induction xs with
  | nil => simp only [List.nil_append, weigh, Nat.zero_add]
  | cons v xs ih => simp only [List.cons_append, weigh, ih, Nat.add_assoc]

theorem weigh_windowsOf (origin : Int) (anchors : Anchors) (x : Walk) (n : Nat) (fresh : List Str) :
    weigh net host true (windowsOf host origin anchors x n fresh) = 0 := by
  induction fresh generalizing n with
  | nil => rfl
  | cons target rest ih =>
    simp only [windowsOf, weigh, Walk.isTargets, Bool.false_eq_true, ↓reduceIte, ih, Nat.add_zero]

/-- A walk that goes on has less left. -/
theorem left_onward {x : Walk} {r : Request} (hr : Asked host x r) {newest : Int}
    (hnewest : ∃ p ∈ net.answer host r, p.time = newest) (x' : Walk) (habout : x'.about = x.about)
    (hupper : x'.upper = x.upper) :
    x'.left net host (Cursor.advance x.lower newest) < x.left net host x.lower := by
  have hpieces : x'.pieces net host = x.pieces net host := by
    simp only [Walk.pieces, habout, hupper]
  have hanswer : net.answer host r =
      Cursor.page Piece.time (x.pieces net host) host.cap x.lower := by
    simp only [Network.answer, Walk.pieces, hr.about, hr.upper, hr.limit, hr.lower]
  rw [hanswer] at hnewest
  simp only [Walk.left, hpieces]
  exact Cursor.left_advance_lt hnewest

/-- A page read whole leaves less to read. -/
theorem weigh_ended (s : Backfill) {a : Active} {r : Request} (hr : Asked host a.walk r)
    (hread : Reading a (net.answer host r)) (hlimit : a.limit = host.cap)
    (hlast : a.last = net.isLast host r) (hactive : s.active = none) :
    let t := s.ended host a .replied
    weigh net host true t.held < weigh net host true (a.walk :: s.queue) ∨
      weigh net host true t.held = weigh net host true (a.walk :: s.queue) ∧
        weigh net host false t.held < weigh net host false (a.walk :: s.queue) := by
  have hpos : 0 < r.limit := hr.limit ▸ host.cap_pos
  have honward := onward_cases hread hr.lower.symm (hlimit.trans hr.limit.symm) hpos hlast
  cases hkind : a.walk.kind with
  | between target fetched spawner =>
    right
    rcases honward with ⟨newest, honward, -, -, hnewest⟩ | ⟨honward, -⟩
    · have hless := left_onward hr hnewest ⟨a.walk.made, Cursor.advance a.walk.lower newest,
        a.walk.upper, a.walk.pages + 1, .between target (fetched + a.messages) spawner⟩
        (by simp only [Walk.about, hkind]) rfl
      simp only [Backfill.ended, hkind, Backfill.endedBetween, honward, Backfill.held, hactive,
        Option.map_none, Option.toList_none, List.nil_append, weigh, Walk.isTargets,
        Bool.false_eq_true, ↓reduceIte, hr.lower, true_and]
      omega
    · simp only [Backfill.ended, hkind, Backfill.endedBetween, honward]
      split
      all_goals
        simp only [Backfill.held, hactive, Option.map_none, Option.toList_none, List.nil_append,
          weigh, Walk.isTargets, hkind, Bool.false_eq_true, ↓reduceIte, Nat.zero_add, true_and]
        omega
  | targets origin anchors seen =>
    left
    obtain ⟨fresh, hunseen, -⟩ := unseen_spec host a.found.keys seen
    rcases honward with ⟨newest, honward, -, -, hnewest⟩ | ⟨honward, -⟩
    · have hless := left_onward hr hnewest ⟨a.walk.made, Cursor.advance a.walk.lower newest,
        a.walk.upper, a.walk.pages + 1, .targets origin anchors (seen ++ fresh.map host.fold)⟩
        (by simp only [Walk.about, hkind]) rfl
      simp only [Backfill.ended, hkind, Backfill.endedTargets, hunseen, honward, foldl_push,
        Backfill.held, hactive, Option.map_none, Option.toList_none, List.nil_append, weigh,
        weigh_append, weigh_windowsOf, Walk.isTargets, ↓reduceIte, hr.lower]
      omega
    · simp only [Backfill.ended, hkind, Backfill.endedTargets, hunseen, honward, foldl_push,
        Backfill.held, hactive, Option.map_none, Option.toList_none, List.nil_append, weigh,
        weigh_append, weigh_windowsOf, Walk.isTargets, ↓reduceIte]
      omega

section Serve

variable {w : World α}

theorem nearer_toCome {w' : World α} (hheld : w'.backfill.held = w.backfill.held)
    (h : toCome net host w' < toCome net host w) :
    Nearer (leftToRead net host w') (leftToRead net host w) := by
  simp only [leftToRead, hheld]
  exact .right _ (.right _ h)

/-- The same walks are held, and one of them is on the wire if one was. -/
structure Stays (s t : Backfill) : Prop where
  held : t.held = s.held
  active : t.active.isSome = s.active.isSome

theorem Stays.refl (s : Backfill) : Stays s s := ⟨rfl, rfl⟩

theorem Stays.trans {s t u : Backfill} (h : Stays s t) (h' : Stays t u) : Stays s u :=
  ⟨h'.held.trans h.held, h'.active.trans h.active⟩

theorem stays_onBatchStart (s : Backfill) (ref type : Str) (target : Option Str) (last : Bool) :
    Stays s (s.onBatchStart host ref type target last) := by
  cases hactive : s.active with
  | none =>
    simp only [Backfill.onBatchStart, hactive]
    exact .refl s
  | some a =>
    simp only [Backfill.onBatchStart, hactive]
    split
    · exact .refl s
    · split
      · constructor <;> simp only [Backfill.held, hactive, Option.map_some, Option.isSome_some]
      · exact .refl s

theorem stays_onBatchLine (s : Backfill) (ref : Str) (time : Option Int) (message : Bool) :
    Stays s (s.onBatchLine ref time message) := by
  cases hactive : s.active with
  | none =>
    simp only [Backfill.onBatchLine, hactive]
    exact .refl s
  | some a =>
    simp only [Backfill.onBatchLine, hactive]
    split
    · exact .refl s
    · constructor <;> simp only [Backfill.held, hactive, Option.map_some, Option.isSome_some]

theorem stays_onTargetsLine (s : Backfill) (ref target : Str) (time : Int) :
    Stays s (s.onTargetsLine ref target time) := by
  cases hactive : s.active with
  | none =>
    simp only [Backfill.onTargetsLine, hactive]
    exact .refl s
  | some a =>
    simp only [Backfill.onTargetsLine, hactive]
    split
    · exact .refl s
    · constructor <;> simp only [Backfill.held, hactive, Option.map_some, Option.isSome_some]

/-- The start of a batch moves no walk. -/
theorem batchStart_frame (net : Network α) (host : Host) (w : World α) (r : Request) :
    Stays w.backfill (w.batchStart net host r).backfill ∧
      (w.batchStart net host r).pending = w.pending ∧
      (w.batchStart net host r).batch = some (decimal w.batches, net.answer host r) := by
  simp only [World.batchStart]
  generalize (if r.about.isSome then chathistoryType else targetsType) = type
  split
  · exact ⟨.refl _, rfl, rfl⟩
  · split
    · exact ⟨stays_onBatchStart _ _ _ _ _, rfl, rfl⟩
    · exact ⟨.refl _, rfl, rfl⟩

/-- Nor does a line of it. -/
theorem batchLine_frame (w : World α) (ref : Str) (p : Piece α) (rest : List (Piece α)) :
    Stays w.backfill (w.batchLine ref p rest).backfill ∧
      (w.batchLine ref p rest).pending = w.pending ∧
      (w.batchLine ref p rest).batch = some (ref, rest) := by
  simp only [World.batchLine]
  split
  · cases p with
    | line l =>
      dsimp only
      split
      · exact ⟨stays_onBatchLine _ _ _ _, rfl, rfl⟩
      · exact ⟨.refl _, rfl, rfl⟩
    | entry target time =>
      refine ⟨?_, rfl, rfl⟩
      dsimp only
      split
      · exact (stays_onTargetsLine _ _ _ _).trans (stays_onBatchLine _ _ _ _)
      · exact stays_onTargetsLine _ _ _ _
  · exact ⟨.refl _, rfl, rfl⟩

/-- What waits is waiting for the page on the wire. -/
def Settled (s : Backfill) : Prop := s.active = none → s.held = []

theorem Settled.stays {s t : Backfill} (h : Settled s) (hstays : Stays s t) : Settled t := by
  intro hnone
  have hgone : s.active = none := by
    have hsome := hstays.active
    rw [hnone] at hsome
    exact Option.isNone_iff_eq_none.mp (Option.isSome_eq_false_iff.mp hsome.symm)
  exact hstays.held.trans (h hgone)

theorem settled_next (host : Host) {s : Backfill} (h : s.available = true)
    (hnone : s.active = none) :
    (s.next host).held = s.held ∧ Settled (s.next host) := by
  rcases next_cases host s h with ⟨heq, hqueue⟩ | ⟨x, queue, -, hqueue, heq⟩
  · rw [heq]
    refine ⟨rfl, fun _ => ?_⟩
    simp only [Backfill.held, hnone, hqueue hnone, Option.map_none, Option.toList_none,
      List.nil_append]
  · rw [heq]
    refine ⟨?_, fun hgone => by cases hgone⟩
    simp only [Backfill.held, hnone, hqueue, opened, Option.map_some, Option.map_none,
      Option.toList_some, Option.toList_none, List.nil_append, List.singleton_append]

/-- The end of a page leaves less to read, and the next is asked for. -/
theorem nearer_batchEnd (h : Sound net host w) {r : Request} (hpending : w.pending = [r])
    {ref : Str} (hbatch : w.batch = some (ref, [])) :
    Nearer (leftToRead net host (w.batchEnd host r ref [])) (leftToRead net host w) ∧
      (Settled w.backfill → Settled (w.batchEnd host r ref []).backfill) := by
  cases hactive : w.backfill.active with
  | none =>
    have heq : w.batchEnd host r ref [] = { w with pending := [], batch := none } := by
      simp only [World.batchEnd, (h.wire.gone hactive).1]
    rw [heq]
    refine ⟨nearer_toCome rfl ?_, fun hsettled => hsettled⟩
    simp only [toCome, hpending, hbatch, List.length_nil]
    omega
  | some a =>
    obtain ⟨r', hpending', hasked, hlimit, hpage⟩ := h.wire.out a hactive
    obtain rfl : r = r' := List.singleton_inj.mp (hpending.symm.trans hpending')
    rw [hbatch] at hpage
    obtain ⟨hquery, href, hours, hlast, done, hanswer, hread⟩ := hpage
    rw [List.append_nil] at hanswer
    rw [← hanswer] at hread
    have hweigh := weigh_ended { w.backfill with active := none } hasked hread hlimit hlast rfl
    have hbooks := h.books.ended hactive hasked hread hlimit hlast
    obtain ⟨hstill, -⟩ := ended_still host { w.backfill with active := none } a rfl
    generalize ht : ({ w.backfill with active := none } : Backfill).ended host a .replied = t
      at hbooks hstill hweigh
    have hafter : (w.batchEnd host r ref []).backfill = t.next host := by
      simp only [World.batchEnd, hquery, ↓reduceIte, Backfill.onEnd, hactive, ne_eq, not_true_eq_false,
        ht, World.act]
    have hheld : w.backfill.held = a.walk :: w.backfill.queue := by
      simp only [Backfill.held, hactive, Option.map_some, Option.toList_some, List.singleton_append]
    have hnext := settled_next host hbooks.available hstill
    rw [hafter]
    refine ⟨?_, fun _ => hnext.2⟩
    simp only [leftToRead, hafter, hnext.1, hheld]
    rcases hweigh with hless | ⟨hsame, hless⟩
    · exact .left _ _ hless
    · rw [← hsame]
      exact .right _ (.left _ _ hless)

/-- As long as something is on the wire, the next line brings the end nearer. -/
theorem nearer_serve (h : Sound net host w) (hpending : w.pending ≠ []) :
    Nearer (leftToRead net host (w.serve net host)) (leftToRead net host w) ∧
      (Settled w.backfill → Settled (w.serve net host).backfill) := by
  obtain ⟨r, hone⟩ := h.wire.single hpending
  match hbatch : w.batch with
  | none =>
    simp only [World.serve, hone, hbatch]
    obtain ⟨hstays, hpending', hbatch'⟩ := batchStart_frame net host w r
    refine ⟨nearer_toCome hstays.held ?_, fun hsettled => hsettled.stays hstays⟩
    simp only [toCome, hpending', hbatch', hone, hbatch]
    omega
  | some (ref, p :: rest) =>
    simp only [World.serve, hone, hbatch]
    obtain ⟨hstays, hpending', hbatch'⟩ := batchLine_frame w ref p rest
    refine ⟨nearer_toCome hstays.held ?_, fun hsettled => hsettled.stays hstays⟩
    simp only [toCome, hpending', hbatch', hone, hbatch, List.length_cons]
    omega
  | some (ref, []) =>
    simp only [World.serve, hone, hbatch]
    exact nearer_batchEnd h hone hbatch

/-- The network, if it goes on, answers all that is asked for. -/
theorem exists_served (h : Sound net host w) :
    ∃ n, let w' := Run.after (World.step net host) w (List.replicate n .serve)
      Sound net host w' ∧ (Settled w.backfill → Settled w'.backfill) ∧ w'.pending = [] := by
  obtain ⟨n, ⟨hsound, hsettled⟩, hdone⟩ := Run.exists_after (World.step net host) nearer_wf
    (leftToRead net host) .serve
    (P := fun w' => Sound net host w' ∧ (Settled w.backfill → Settled w'.backfill))
    (Q := fun w' => w'.pending = [])
    (fun w' hw' hgoal => by
      obtain ⟨hless, hkeeps⟩ := nearer_serve hw'.1 hgoal
      exact ⟨⟨hw'.1.serve, fun hs => hkeeps (hw'.2 hs)⟩, hless⟩) w ⟨h, id⟩
  exact ⟨n, hsound, hsettled, hdone⟩

/-- No page is being read while nothing is on the wire. -/
theorem Wire.free (h : Wire net host w) (hfree : w.pending = []) : w.backfill.active = none := by
  cases hactive : w.backfill.active with
  | none => rfl
  | some a =>
    obtain ⟨r, hserving⟩ := h.out a hactive
    rw [hserving.pending] at hfree
    cases hfree

/-- What the network sends needs no free wire. -/
theorem within_serve (w : World α) (n : Nat) :
    Run.Within (World.step net host) Clear w (List.replicate n .serve) := by
  induction n generalizing w with
  | zero => trivial
  | succ n ih => exact ⟨⟨trivial, fun hasks => hasks.elim⟩, ih _⟩

end Serve

/-- Whatever happened before: once what is on the wire was answered and the link is back, the
network goes on answering until no walk is held, and every line of every window made was on a
page. -/
theorem gap_is_read {es : List Event}
    (hclear : Run.Within (World.step net host) Clear World.init es) :
    ∃ n m, let es' := es ++ (List.replicate n .serve ++ .resume :: List.replicate m .serve)
      Run.Within (World.step net host) Clear World.init es' ∧
      (reached net host es').pending = [] ∧ (reached net host es').backfill.held = [] ∧
      ∀ v ∈ (reached net host es').backfill.walks,
        Cursor.TiesFit Piece.time (v.pieces net host) host.cap →
        ∀ p ∈ v.pieces net host, v.lower < p.time →
          ∃ r ∈ (reached net host es').answered, r.walk = v.made ∧ p ∈ net.answer host r := by
  obtain ⟨n, hsound, -, hfree⟩ := exists_served (Sound.run hclear)
  set w := Run.after (World.step net host) (reached net host es) (List.replicate n .serve)
  have hresume : Clear w .resume := ⟨trivial, fun _ _ => hfree⟩
  have hsettled : Settled (w.step net host .resume).backfill :=
    (settled_next host hsound.books.available (hsound.wire.free hfree)).2
  obtain ⟨m, hsound', hsettled', hdone⟩ := exists_served (hsound.step .resume hresume)
  refine ⟨n, m, ?_⟩
  intro es'
  have hwithin : Run.Within (World.step net host) Clear World.init es' := by
    apply (Run.within_append _).mpr
    refine ⟨hclear, (Run.within_append _).mpr ⟨within_serve _ n, hresume, within_serve _ m⟩⟩
  have hend : reached net host es' =
      Run.after (World.step net host) (w.step net host .resume) (List.replicate m .serve) := by
    simp only [reached, es', Run.after_append, Run.after_cons]
    rfl
  have hheld : (reached net host es').backfill.held = [] := by
    rw [hend]
    exact hsettled' hsettled (hsound'.wire.free hdone)
  refine ⟨hwithin, hend ▸ hdone, hheld, fun v hv hfit p hp hlow => ?_⟩
  exact window_read hwithin hv (fun x hx => absurd (hheld ▸ hx) List.not_mem_nil) hfit hp hlow

theorem gap_is_read_sample : ∃ n m,
    (reached sampleNet sampleHost (sampleRun.take 5 ++
      (List.replicate n .serve ++ .resume :: List.replicate m .serve))).backfill.held = [] := by
  obtain ⟨n, m, -, -, hheld, -⟩ := gap_is_read
    (show Run.Within (World.step sampleNet sampleHost) Clear World.init (sampleRun.take 5) by
      decide +kernel)
  exact ⟨n, m, hheld⟩

end Lurker.Irc.History
