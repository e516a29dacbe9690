import Lurker.Irc.Backfill

/-!
# What the walks of a gap read

The walks still to go and those over are kept as a ledger: what each read so far, up to
where it stands, and what it asked for. The ledger is kept by all that moves a walk.
-/

namespace Lurker.Irc.History

open E2e (decimal isChannelTarget)

attribute [local instance] str_lawfulBEq

variable {α : Type} (net : Network α) (host : Host)

theorem Host.cap_pos : 0 < host.cap := by
  simp only [Host.cap, BACKFILL_LIMIT_CAP]
  split <;> omega

/-- All the pieces of a walk, whatever its lower bound. -/
def Walk.pieces (v : Walk) : List (Piece α) := net.pieces host v.about v.upper

theorem pieces_sorted (about : Option Str) (upper : Int) :
    (net.pieces host about upper).Pairwise (·.time ≤ ·.time) := by
  cases about with
  | some target =>
    exact List.pairwise_map.mpr ((net.history_sorted _).sublist List.filter_sublist)
  | none => exact List.pairwise_map.mpr (net.conversations_sorted upper)

/-- What a page being read has counted of the pieces so far. -/
structure Reading (a : Active) (done : List (Piece α)) : Prop where
  lines : a.lines = done.length
  least : ∀ p ∈ done, ∃ n, a.newest = some n ∧ p.time ≤ n
  newest : ∀ n, a.newest = some n → ∃ p ∈ done, p.time = n
  found : ∀ target, target ∈ a.found.keys ↔ ∃ time, .entry target time ∈ done

variable {net host}

theorem nextFrom_eq {lower newest : Int} (h : lower < newest) :
    Backfill.nextFrom lower newest = some (Cursor.advance lower newest) := by
  by_cases htight : newest - 1 ≤ lower
  · simp only [Backfill.nextFrom, Cursor.advance, if_pos htight, if_pos h]
    congr 1
    omega
  · simp only [Backfill.nextFrom, Cursor.advance, if_neg htight]
    rw [if_pos (by omega)]
    congr 1
    omega

/-- A page read whole is gone on from where nothing is left behind, or all was on it. -/
theorem onward_cases {a : Active} {r : Request} (hread : Reading a (net.answer host r))
    (hlower : a.walk.lower = r.lower) (hlimit : a.limit = r.limit) (hpos : 0 < r.limit)
    (hlast : a.last = net.isLast host r) :
    (∃ newest, Backfill.onward a = some (Cursor.advance r.lower newest) ∧
      r.limit ≤ (net.answer host r).length ∧ (∀ p ∈ net.answer host r, p.time ≤ newest) ∧
      ∃ p ∈ net.answer host r, p.time = newest) ∨
    (Backfill.onward a = none ∧
      ∀ p ∈ net.pieces host r.about r.upper, r.lower < p.time → p ∈ net.answer host r) := by
  by_cases hfull : r.limit ≤ (net.answer host r).length
  · cases hend : a.last with
    | true =>
      right
      refine ⟨by simp only [Backfill.onward, hend, Bool.not_true, Bool.and_false, Bool.false_eq_true,
        ↓reduceIte], fun p hp hpast => ?_⟩
      rw [hend] at hlast
      have hfits := of_decide_eq_true (Bool.and_eq_true_iff.mp hlast.symm).2
      simp only [Network.answer, Cursor.page, List.take_of_length_le hfits]
      exact List.mem_filter.mpr ⟨hp, decide_eq_true hpast⟩
    | false =>
      left
      obtain ⟨p, hp⟩ := List.exists_mem_of_length_pos (show 0 < (net.answer host r).length by omega)
      obtain ⟨newest, hnewest, hle⟩ := hread.least p hp
      have hpast := (Cursor.mem_page hp).2
      refine ⟨newest, ?_, hfull, fun q hq => ?_, hread.newest newest hnewest⟩
      · have hlines : decide (a.limit ≤ a.lines) = true := by
          rw [hlimit, hread.lines]
          exact decide_eq_true hfull
        simp only [Backfill.onward, hend, hlines, hnewest, Bool.not_false, Bool.and_self, ↓reduceIte,
          Option.bind_some, hlower]
        exact nextFrom_eq (by omega)
      · obtain ⟨n, hn, hqn⟩ := hread.least q hq
        rw [hnewest] at hn
        rwa [Option.some.inj hn]
  · right
    constructor
    · have hlines : decide (a.limit ≤ a.lines) = false := by
        rw [hlimit, hread.lines]
        exact decide_eq_false hfull
      simp only [Backfill.onward, hlines, Bool.false_and, Bool.false_eq_true, ↓reduceIte]
    · exact fun p hp hpast => Cursor.mem_page_of_short (Nat.not_le.mp hfull) hp hpast

section Ledger

variable (net host)

/-- The pieces of a walk up to a time are on pages that were answered. -/
def Covered (answered : List Request) (v : Walk) (reached : Int) : Prop :=
  Cursor.TiesFit Piece.time (v.pieces net host) host.cap → ∀ p ∈ v.pieces net host,
    v.lower < p.time → p.time ≤ reached → ∃ r ∈ answered, r.walk = v.made ∧ p ∈ net.answer host r

/-- What is left of a walk past a time. -/
def Walk.left (v : Walk) (reached : Int) : Nat :=
  Cursor.left Piece.time (v.pieces net host) reached

/-- A walk that was made as `v` and stands where `x` does, with so many requests of it out. -/
structure Kept (sent answered : List Request) (abandoned : List Nat) (v x : Walk) (out : Nat) :
    Prop where
  made : x.made = v.made
  about : x.about = v.about
  upper : x.upper = v.upper
  covered : Covered net host answered v x.lower
  spent : sent.countP (·.walk = v.made) + v.left net host x.lower ≤
    v.left net host v.lower + abandoned.count v.made + out

/-- A walk that is over. -/
structure Over (sent answered : List Request) (abandoned : List Nat) (v : Walk) : Prop where
  covered : ∀ reached, Covered net host answered v reached
  spent : sent.countP (·.walk = v.made) ≤ v.left net host v.lower + abandoned.count v.made + 1

/-- Every walk made is on the wire, in the queue or over. -/
structure Ledger (busy : Option Walk) (queue walks : List Walk) (sent answered : List Request)
    (abandoned : List Nat) : Prop where
  numbered : ∀ v ∈ walks, walks[v.made]? = some v
  asks : ∀ r ∈ sent, r.walk < walks.length
  suspends : ∀ i ∈ abandoned, i < walks.length
  nodup : ((busy.toList ++ queue).map Walk.made).Nodup
  onWire : ∀ x, busy = some x → ∃ v ∈ walks, Kept net host sent answered abandoned v x 1
  queued : ∀ x ∈ queue, ∃ v ∈ walks, Kept net host sent answered abandoned v x 0
  done : ∀ v ∈ walks, (∀ x ∈ busy.toList ++ queue, x.made ≠ v.made) →
    Over net host sent answered abandoned v

end Ledger

variable {busy : Option Walk} {queue walks : List Walk} {sent answered : List Request}
  {abandoned : List Nat} {v x : Walk} {r : Request}

/-- The request of a walk as it stands. -/
structure Asked (host : Host) (x : Walk) (r : Request) : Prop where
  walk : r.walk = x.made
  about : r.about = x.about
  lower : r.lower = x.lower
  upper : r.upper = x.upper
  limit : r.limit = host.cap

theorem Covered.more (h : Covered net host answered v x.lower) (more : List Request) :
    Covered net host (answered ++ more) v x.lower := by
  intro hfit p hp hlow hle
  obtain ⟨r, hr, hof⟩ := h hfit p hp hlow hle
  exact ⟨r, List.mem_append_left _ hr, hof⟩

theorem Over.more (h : Over net host sent answered abandoned v) (more : List Request) :
    Over net host sent (answered ++ more) abandoned v := by
  refine ⟨fun reached hfit p hp hlow hle => ?_, h.spent⟩
  obtain ⟨r, hr, hof⟩ := h.covered reached hfit p hp hlow hle
  exact ⟨r, List.mem_append_left _ hr, hof⟩

theorem Covered.start : Covered net host answered v v.lower := by
  intro _ p _ hlow hle
  omega

namespace Ledger

theorem unique (h : Ledger net host busy queue walks sent answered abandoned) {v v' : Walk}
    (hv : v ∈ walks) (hv' : v' ∈ walks) (heq : v.made = v'.made) : v = v' := by
  have hfirst := h.numbered v hv
  rw [heq, h.numbered v' hv'] at hfirst
  exact (Option.some.inj hfirst).symm

theorem made_lt (h : Ledger net host busy queue walks sent answered abandoned) (hv : v ∈ walks) :
    v.made < walks.length :=
  (List.getElem?_eq_some_iff.mp (h.numbered v hv)).1

/-- A walk held was made. -/
theorem held_lt (h : Ledger net host busy queue walks sent answered abandoned)
    (hx : x ∈ busy.toList ++ queue) : x.made < walks.length := by
  rcases List.mem_append.mp hx with hx | hx
  · obtain ⟨v, hv, hkept⟩ := h.onWire x (Option.mem_toList.mp hx)
    rw [hkept.made]
    exact h.made_lt hv
  · obtain ⟨v, hv, hkept⟩ := h.queued x hx
    rw [hkept.made]
    exact h.made_lt hv

/-- A new walk waits its turn. -/
theorem push (h : Ledger net host busy queue walks sent answered abandoned)
    (hx : x.made = walks.length) :
    Ledger net host busy (queue ++ [x]) (walks ++ [x]) sent answered abandoned where
  numbered := by
    intro v hv
    rcases List.mem_append.mp hv with hv | hv
    · rw [List.getElem?_append_left (h.made_lt hv)]
      exact h.numbered v hv
    · rw [List.mem_singleton.mp hv, hx]
      exact List.getElem?_concat_length
  asks := by
    intro r hr
    have := h.asks r hr
    rw [List.length_append]
    omega
  suspends := by
    intro i hi
    have := h.suspends i hi
    rw [List.length_append]
    omega
  nodup := by
    rw [← List.append_assoc, List.map_append, List.nodup_append]
    refine ⟨h.nodup, List.nodup_singleton _, fun i hi j hj heq => ?_⟩
    obtain ⟨y, hy, rfl⟩ := List.mem_map.mp hi
    have hlt := h.held_lt hy
    rw [heq, List.mem_singleton.mp hj] at hlt
    omega
  onWire := by
    intro y hy
    obtain ⟨v, hv, hkept⟩ := h.onWire y hy
    exact ⟨v, List.mem_append_left _ hv, hkept⟩
  queued := by
    intro y hy
    rcases List.mem_append.mp hy with hy | hy
    · obtain ⟨v, hv, hkept⟩ := h.queued y hy
      exact ⟨v, List.mem_append_left _ hv, hkept⟩
    · obtain rfl := List.mem_singleton.mp hy
      refine ⟨y, List.mem_append_right _ hy, rfl, rfl, rfl, .start, ?_⟩
      have hnone : sent.countP (·.walk = y.made) = 0 := by
        apply List.countP_eq_zero.mpr
        intro r hr heq
        have hlt := h.asks r hr
        have := of_decide_eq_true heq
        omega
      omega
  done := by
    intro v hv hnot
    rcases List.mem_append.mp hv with hv | hv
    · apply h.done v hv
      intro y hy
      apply hnot
      rw [← List.append_assoc]
      exact List.mem_append_left _ hy
    · rw [List.mem_singleton.mp hv] at hnot
      refine absurd rfl (hnot x ?_)
      rw [← List.append_assoc]
      exact List.mem_append_right _ List.mem_cons_self

/-- The first of the queue is asked for. -/
theorem ask (h : Ledger net host none (x :: queue) walks sent answered abandoned)
    (hr : r.walk = x.made) :
    Ledger net host (some x) queue walks (sent ++ [r]) answered abandoned := by
  obtain ⟨v, hv, hkept⟩ := h.queued x List.mem_cons_self
  have hcount (u : Walk) : (sent ++ [r]).countP (·.walk = u.made) =
      sent.countP (·.walk = u.made) + if x.made = u.made then 1 else 0 := by
    rw [List.countP_append, List.countP_singleton, hr]
    simp only [decide_eq_true_eq]
  have hapart : ∀ y ∈ queue, y.made ≠ x.made := by
    intro y hy heq
    have hnodup := h.nodup
    simp only [Option.toList_none, List.nil_append, List.map_cons, List.nodup_cons] at hnodup
    exact hnodup.1 (heq ▸ List.mem_map_of_mem hy)
  refine ⟨h.numbered, ?_, h.suspends, h.nodup, ?_, ?_, ?_⟩
  · intro r' hr'
    rcases List.mem_append.mp hr' with hr' | hr'
    · exact h.asks r' hr'
    · rw [List.mem_singleton.mp hr', hr, hkept.made]
      exact h.made_lt hv
  · intro y hy
    obtain rfl := Option.some.inj hy
    refine ⟨v, hv, hkept.made, hkept.about, hkept.upper, hkept.covered, ?_⟩
    have hspent := hkept.spent
    rw [hcount, if_pos hkept.made]
    omega
  · intro y hy
    obtain ⟨u, hu, hkept'⟩ := h.queued y (List.mem_cons_of_mem _ hy)
    refine ⟨u, hu, hkept'.made, hkept'.about, hkept'.upper, hkept'.covered, ?_⟩
    rw [hcount, if_neg (fun heq => hapart y hy (hkept'.made.trans heq.symm))]
    exact hkept'.spent
  · intro u hu hnot
    have hover := h.done u hu hnot
    refine ⟨hover.covered, ?_⟩
    rw [hcount, if_neg (hnot x List.mem_cons_self)]
    exact hover.spent

/-- A walk whose request was given up is the next to be asked for. -/
theorem suspend (h : Ledger net host (some x) queue walks sent answered abandoned) :
    Ledger net host none (x :: queue) walks sent answered (abandoned ++ [x.made]) := by
  obtain ⟨v, hv, hkept⟩ := h.onWire x rfl
  have hcount (i : Nat) : abandoned.count i ≤ (abandoned ++ [x.made]).count i := by
    rw [List.count_append]
    omega
  refine ⟨h.numbered, h.asks, ?_, h.nodup, fun y hy => (nomatch hy), ?_, ?_⟩
  · intro i hi
    rcases List.mem_append.mp hi with hi | hi
    · exact h.suspends i hi
    · rw [List.mem_singleton.mp hi, hkept.made]
      exact h.made_lt hv
  · intro y hy
    rcases List.mem_cons.mp hy with rfl | hy
    · refine ⟨v, hv, hkept.made, hkept.about, hkept.upper, hkept.covered, ?_⟩
      have hspent := hkept.spent
      rw [hkept.made, List.count_append, List.count_singleton_self]
      omega
    · obtain ⟨u, hu, hkept'⟩ := h.queued y hy
      have hspent := hkept'.spent
      have := hcount u.made
      exact ⟨u, hu, hkept'.made, hkept'.about, hkept'.upper, hkept'.covered, by omega⟩
  · intro u hu hnot
    have hover := h.done u hu hnot
    have hspent := hover.spent
    have := hcount u.made
    exact ⟨hover.covered, by omega⟩

/-- What was asked of a walk on the wire, the page answers: the pieces are those of the walk. -/
theorem answer_eq (hkept : Kept net host sent answered abandoned v x 1) (hr : Asked host x r) :
    net.answer host r = Cursor.page Piece.time (v.pieces net host) host.cap x.lower := by
  simp only [Network.answer, Walk.pieces, hr.about, hr.upper, hr.limit, hr.lower, hkept.about,
    hkept.upper]

/-- A page was read that is gone on from. -/
theorem goOn (h : Ledger net host (some x) queue walks sent answered abandoned)
    (hr : Asked host x r) {newest : Int} (hfull : r.limit ≤ (net.answer host r).length)
    (hmost : ∀ p ∈ net.answer host r, p.time ≤ newest)
    (hnewest : ∃ p ∈ net.answer host r, p.time = newest) {x' : Walk} (hmade : x'.made = x.made)
    (habout : x'.about = x.about) (hupper : x'.upper = x.upper)
    (hlower : x'.lower = Cursor.advance x.lower newest) :
    Ledger net host none (x' :: queue) walks sent (answered ++ [r]) abandoned := by
  obtain ⟨v, hv, hkept⟩ := h.onWire x rfl
  have hanswer := answer_eq hkept hr
  rw [hanswer] at hmost hnewest hfull
  rw [hr.limit] at hfull
  refine ⟨h.numbered, h.asks, h.suspends, ?_, fun y hy => (nomatch hy), ?_, ?_⟩
  · simpa only [Option.toList_none, Option.toList_some, List.nil_append, List.singleton_append,
      List.map_cons, hmade] using h.nodup
  · intro y hy
    rcases List.mem_cons.mp hy with rfl | hy
    · refine ⟨v, hv, hmade.trans hkept.made, habout.trans hkept.about, hupper.trans hkept.upper, ?_,
        ?_⟩
      · intro hfit p hp hlow hle
        by_cases hold : p.time ≤ x.lower
        · obtain ⟨r', hr', hof⟩ := hkept.covered hfit p hp hlow hold
          exact ⟨r', List.mem_append_left _ hr', hof⟩
        · refine ⟨r, List.mem_append_right _ List.mem_cons_self, hr.walk.trans hkept.made, ?_⟩
          rw [hanswer]
          rw [hlower] at hle
          exact Cursor.mem_page_of_le_advance (pieces_sorted net host _ _) hfit hfull hmost hnewest
            hp (by omega) hle
      · have hless := Cursor.left_advance_lt hnewest
        have hspent := hkept.spent
        simp only [Walk.left, hlower] at hspent ⊢
        omega
    · obtain ⟨u, hu, hkept'⟩ := h.queued y hy
      exact ⟨u, hu, hkept'.made, hkept'.about, hkept'.upper, hkept'.covered.more _, hkept'.spent⟩
  · intro u hu hnot
    apply Over.more
    apply h.done u hu
    intro y hy
    rcases List.mem_cons.mp hy with rfl | hy
    · rw [← hmade]
      exact hnot x' List.mem_cons_self
    · exact hnot y (List.mem_cons_of_mem _ hy)

/-- A page was read that ends its walk. -/
theorem finish (h : Ledger net host (some x) queue walks sent answered abandoned)
    (hr : Asked host x r)
    (hall : ∀ p ∈ net.pieces host r.about r.upper, r.lower < p.time → p ∈ net.answer host r) :
    Ledger net host none queue walks sent (answered ++ [r]) abandoned := by
  obtain ⟨v, hv, hkept⟩ := h.onWire x rfl
  have hnodup := h.nodup
  simp only [Option.toList_some, List.singleton_append, List.map_cons, List.nodup_cons] at hnodup
  refine ⟨h.numbered, h.asks, h.suspends, hnodup.2, fun y hy => (nomatch hy), ?_, ?_⟩
  · intro y hy
    obtain ⟨u, hu, hkept'⟩ := h.queued y hy
    exact ⟨u, hu, hkept'.made, hkept'.about, hkept'.upper, hkept'.covered.more _, hkept'.spent⟩
  · intro u hu hnot
    by_cases hsame : x.made = u.made
    · obtain rfl := h.unique hv hu (hkept.made.symm.trans hsame)
      constructor
      · intro reached hfit p hp hlow hle
        by_cases hold : p.time ≤ x.lower
        · obtain ⟨r', hr', hof⟩ := hkept.covered hfit p hp hlow hold
          exact ⟨r', List.mem_append_left _ hr', hof⟩
        · refine ⟨r, List.mem_append_right _ List.mem_cons_self, hr.walk.trans hkept.made, ?_⟩
          have hp' : p ∈ net.pieces host r.about r.upper := by
            rw [hr.about, hr.upper, hkept.about, hkept.upper]
            exact hp
          exact hall p hp' (by rw [hr.lower]; omega)
      · have := hkept.spent
        omega
    · apply Over.more
      apply h.done u hu
      intro y hy
      rcases List.mem_cons.mp hy with rfl | hy
      · exact hsame
      · exact hnot y hy

end Ledger

/-- The target a walk is a window of, when the walk `i` named it. -/
def Walk.namedBy (i : Nat) (v : Walk) : Option Str :=
  match v.kind with
  | .between target _ (some spawner) => if spawner = i then some target else none
  | _ => none

/-- The folded names that a walk has given a window, in order. -/
def windowKeys (host : Host) (walks : List Walk) (i : Nat) : List Str :=
  (walks.filterMap (·.namedBy i)).map host.fold

/-- The windows of so many targets, as they are made. -/
def windowsOf (host : Host) (origin : Int) (anchors : Anchors) (x : Walk) :
    Nat → List Str → List Walk
  | _, [] => []
  | n, target :: rest =>
    ⟨n, Backfill.windowStart host origin anchors target, x.upper, 0,
      .between target 0 (some x.made)⟩ :: windowsOf host origin anchors x (n + 1) rest

theorem windowKeys_append (host : Host) (walks more : List Walk) (i : Nat) :
    windowKeys host (walks ++ more) i = windowKeys host walks i ++ windowKeys host more i := by
  simp only [windowKeys, List.filterMap_append, List.map_append]

theorem windowKeys_windowsOf (origin : Int) (anchors : Anchors) (x : Walk) (n : Nat)
    (fresh : List Str) (i : Nat) :
    windowKeys host (windowsOf host origin anchors x n fresh) i =
      if x.made = i then fresh.map host.fold else [] := by
  induction fresh generalizing n with
  | nil =>
    show [] = _
    split <;> rfl
  | cons target rest ih =>
    by_cases hi : x.made = i
    · have hrest := ih (n + 1)
      simp only [windowKeys, windowsOf, Walk.namedBy, List.filterMap_cons, if_pos hi,
        List.map_cons] at hrest ⊢
      rw [hrest]
    · have hrest := ih (n + 1)
      simp only [windowKeys, windowsOf, Walk.namedBy, List.filterMap_cons, if_neg hi] at hrest ⊢
      exact hrest

theorem mem_windowsOf {origin : Int} {anchors : Anchors} {x u : Walk} {n : Nat} {fresh : List Str}
    (h : u ∈ windowsOf host origin anchors x n fresh) : ∃ target,
      u.kind = .between target 0 (some x.made) ∧ u.upper = x.upper ∧
        u.lower = Backfill.windowStart host origin anchors target := by
  induction fresh generalizing n with
  | nil => exact absurd h List.not_mem_nil
  | cons target rest ih =>
    rcases List.mem_cons.mp h with rfl | h
    · exact ⟨target, rfl, rfl, rfl⟩
    · exact ih h

theorem foldl_push (s : Backfill) (x : Walk) (origin : Int) (anchors : Anchors) (fresh : List Str) :
    fresh.foldl (fun s target => s.push (Backfill.windowStart host origin anchors target) x.upper
      (.between target 0 (some x.made))) s =
    { s with
      queue := s.queue ++ windowsOf host origin anchors x s.walks.length fresh
      walks := s.walks ++ windowsOf host origin anchors x s.walks.length fresh } := by
  induction fresh generalizing s with
  | nil => simp only [List.foldl_nil, windowsOf, List.append_nil]
  | cons target rest ih =>
    rw [List.foldl_cons, ih]
    simp only [Backfill.push, windowsOf, List.length_append, List.length_singleton,
      List.append_assoc, List.singleton_append]

/-- New windows wait their turn. -/
theorem Ledger.pushAll (h : Ledger net host busy queue walks sent answered abandoned)
    (origin : Int) (anchors : Anchors) (x : Walk) (fresh : List Str) :
    Ledger net host busy (queue ++ windowsOf host origin anchors x walks.length fresh)
      (walks ++ windowsOf host origin anchors x walks.length fresh) sent answered abandoned := by
  induction fresh generalizing queue walks with
  | nil => simpa only [windowsOf, List.append_nil] using h
  | cons target rest ih =>
    have hpush := ih (h.push (x := ⟨walks.length, Backfill.windowStart host origin anchors target,
      x.upper, 0, .between target 0 (some x.made)⟩) rfl)
    simpa only [windowsOf, List.length_append, List.length_singleton, List.append_assoc,
      List.singleton_append] using hpush

/-- What a page of targets gives a window to: each that is no channel and had none. -/
theorem unseen_spec (host : Host) (found seen : List Str) : ∃ fresh,
    Backfill.unseen host found seen = (seen ++ fresh.map host.fold, fresh) ∧
      (∀ target ∈ fresh, target ∈ found) ∧ (seen.Nodup → (seen ++ fresh.map host.fold).Nodup) ∧
      ∀ target ∈ found, isChannelTarget target = false →
        host.fold target ∈ seen ++ fresh.map host.fold := by
  induction found using List.reverseRecOn with
  | nil =>
    refine ⟨[], by simp only [Backfill.unseen, List.foldl_nil, List.map_nil, List.append_nil],
      fun _ h => h, fun h => ?_, fun _ h => absurd h List.not_mem_nil⟩
    simpa only [List.map_nil, List.append_nil] using h
  | append_singleton found target ih =>
    obtain ⟨fresh, heq, hsub, hnodup, hmem⟩ := ih
    have hstep : Backfill.unseen host (found ++ [target]) seen =
        if isChannelTarget target || (seen ++ fresh.map host.fold).contains (host.fold target) then
          (seen ++ fresh.map host.fold, fresh)
        else (seen ++ fresh.map host.fold ++ [host.fold target], fresh ++ [target]) := by
      simp only [Backfill.unseen] at heq ⊢
      rw [List.foldl_append, heq]
      rfl
    rw [hstep]
    split
    · rename_i hold
      refine ⟨fresh, rfl, fun t ht => List.mem_append_left _ (hsub t ht), hnodup,
        fun t ht hchannel => ?_⟩
      rcases List.mem_append.mp ht with ht | ht
      · exact hmem t ht hchannel
      · rw [List.mem_singleton.mp ht] at hchannel ⊢
        simpa only [hchannel, Bool.false_or, List.contains_iff_mem] using hold
    · rename_i hnew
      simp only [Bool.or_eq_true, List.contains_iff_mem, not_or] at hnew
      refine ⟨fresh ++ [target], ?_, fun t ht => ?_, fun h => ?_, fun t ht hchannel => ?_⟩
      · simp only [List.map_append, List.map_cons, List.map_nil, List.append_assoc]
      · rcases List.mem_append.mp ht with ht | ht
        · exact List.mem_append_left _ (hsub t ht)
        · exact List.mem_append_right _ ht
      · rw [List.map_append, List.map_singleton, ← List.append_assoc]
        exact List.nodup_append.mpr ⟨hnodup h, List.nodup_singleton _, fun i hi j hj heq =>
          hnew.2 ((List.mem_singleton.mp hj) ▸ heq ▸ hi)⟩
      · rw [List.map_append, List.map_singleton, ← List.append_assoc]
        rcases List.mem_append.mp ht with ht | ht
        · exact List.mem_append_left _ (hmem t ht hchannel)
        · rw [List.mem_singleton.mp ht]
          exact List.mem_append_right _ List.mem_cons_self

/-- A walk of targets as it was made: `v`, and what it stands at. -/
structure TargetsOf (walks : List Walk) (x : Walk) (origin : Int) (anchors : Anchors) : Prop where
  made : ∃ v seen, walks[x.made]? = some v ∧ v.kind = .targets v.lower anchors seen ∧
    v.lower = origin ∧ v.upper = x.upper

/-- Each window that was named starts where it should, none twice, and none that a page named
is left out. -/
structure Names (net : Network α) (host : Host) (held walks : List Walk)
    (answered : List Request) : Prop where
  nodup : ∀ i, (windowKeys host walks i).Nodup
  started : ∀ u ∈ walks, ∀ target fetched i, u.kind = .between target fetched (some i) →
    ∃ v anchors seen, walks[i]? = some v ∧ v.kind = .targets v.lower anchors seen ∧
      u.upper = v.upper ∧ u.lower = Backfill.windowStart host v.lower anchors target
  seen : ∀ x ∈ held, ∀ origin anchors seen, x.kind = .targets origin anchors seen →
    seen = windowKeys host walks x.made ∧ TargetsOf walks x origin anchors
  named : ∀ r ∈ answered, ∀ target time, .entry target time ∈ net.answer host r →
    isChannelTarget target = false → host.fold target ∈ windowKeys host walks r.walk

variable {held : List Walk}

theorem TargetsOf.more {origin : Int} {anchors : Anchors} (h : TargetsOf walks x origin anchors)
    (more : List Walk) : TargetsOf (walks ++ more) x origin anchors := by
  obtain ⟨v, seen, hv, hof⟩ := h.made
  refine ⟨v, seen, ?_, hof⟩
  rw [List.getElem?_append_left (List.getElem?_eq_some_iff.mp hv).1]
  exact hv

namespace Names

/-- What was started stays so when more walks are made. -/
theorem started_more (h : Names net host held walks answered) (more : List Walk) {u : Walk}
    (hu : u ∈ walks) {target : Str} {fetched i : Nat}
    (hkind : u.kind = .between target fetched (some i)) :
    ∃ v anchors seen, (walks ++ more)[i]? = some v ∧ v.kind = .targets v.lower anchors seen ∧
      u.upper = v.upper ∧ u.lower = Backfill.windowStart host v.lower anchors target := by
  obtain ⟨v, anchors, seen, hv, hof⟩ := h.started u hu target fetched i hkind
  refine ⟨v, anchors, seen, ?_, hof⟩
  rw [List.getElem?_append_left (List.getElem?_eq_some_iff.mp hv).1]
  exact hv

/-- Fewer walks are held. -/
theorem mono (h : Names net host held walks answered) {held' : List Walk}
    (hsub : ∀ x ∈ held', x ∈ held) : Names net host held' walks answered :=
  ⟨h.nodup, h.started, fun x hx => h.seen x (hsub x hx), h.named⟩

/-- A walk that nothing named waits its turn. -/
theorem push (h : Names net host held walks answered) (hx : x.made = walks.length)
    (hkind : (∃ target, x.kind = .between target 0 none) ∨
      ∃ anchors, x.kind = .targets x.lower anchors []) :
    Names net host (held ++ [x]) (walks ++ [x]) answered := by
  have hnone : ∀ i, x.namedBy i = none := by
    intro i
    rcases hkind with ⟨target, hkind⟩ | ⟨anchors, hkind⟩ <;> simp only [Walk.namedBy, hkind]
  have hkeys : ∀ i, windowKeys host (walks ++ [x]) i = windowKeys host walks i := by
    intro i
    rw [windowKeys_append]
    simp only [windowKeys, List.filterMap_cons, List.filterMap_nil, hnone i, List.map_nil,
      List.append_nil]
  refine ⟨fun i => ?_, fun u hu target fetched i hu' => ?_, fun y hy origin anchors seen hy' => ?_,
    fun r hr target time hin hchannel => ?_⟩
  · rw [hkeys]
    exact h.nodup i
  · rcases List.mem_append.mp hu with hu | hu
    · exact h.started_more _ hu hu'
    · rw [List.mem_singleton.mp hu] at hu'
      rcases hkind with ⟨t, hkind⟩ | ⟨anchors, hkind⟩ <;> simp only [hkind, Kind.between.injEq,
        reduceCtorEq, and_false] at hu'
  · rw [hkeys]
    rcases List.mem_append.mp hy with hy | hy
    · obtain ⟨hseen, hof⟩ := h.seen y hy origin anchors seen hy'
      exact ⟨hseen, hof.more _⟩
    · obtain rfl := List.mem_singleton.mp hy
      rcases hkind with ⟨t, hkind⟩ | ⟨anchors', hkind⟩
      · simp only [hkind, reduceCtorEq] at hy'
      · obtain ⟨rfl, rfl, rfl⟩ : y.lower = origin ∧ anchors' = anchors ∧ [] = seen := by
          rw [hkind] at hy'
          exact Kind.targets.inj hy'
        constructor
        · have hempty : walks.filterMap (·.namedBy y.made) = [] := by
            apply List.filterMap_eq_nil_iff.mpr
            intro u hu
            by_contra hsome
            have hspawned : ∃ t f, u.kind = .between t f (some y.made) := by
              simp only [Walk.namedBy] at hsome
              split at hsome
              · rename_i t f spawner heq
                split at hsome
                · rename_i hsame
                  exact ⟨t, f, hsame ▸ heq⟩
                · exact absurd rfl hsome
              · exact absurd rfl hsome
            obtain ⟨t, f, hspawned⟩ := hspawned
            obtain ⟨w, _, _, hw, -⟩ := h.started u hu t f y.made hspawned
            have := (List.getElem?_eq_some_iff.mp hw).1
            omega
          simp only [windowKeys, hempty, List.map_nil]
        · refine ⟨y, [], ?_, hkind, rfl, rfl⟩
          rw [hx]
          exact List.getElem?_concat_length
  · rw [hkeys]
    exact h.named r hr target time hin hchannel

/-- A page of one target was read: it names nobody. -/
theorem pageBetween (h : Names net host (x :: held) walks answered) {target : Str}
    (habout : r.about = some target) {x' : Walk} {fetched : Nat} {spawner : Option Nat}
    (hkind : x'.kind = .between target fetched spawner) :
    Names net host (x' :: held) walks (answered ++ [r]) := by
  refine ⟨h.nodup, h.started, fun y hy origin anchors seen hy' => ?_,
    fun r' hr' target' time hin hchannel => ?_⟩
  · rcases List.mem_cons.mp hy with rfl | hy
    · simp only [hkind, reduceCtorEq] at hy'
    · exact h.seen y (List.mem_cons_of_mem _ hy) origin anchors seen hy'
  · rcases List.mem_append.mp hr' with hr' | hr'
    · exact h.named r' hr' target' time hin hchannel
    · rw [List.mem_singleton.mp hr'] at hin
      have hpiece := (Cursor.mem_page hin).1
      simp only [Network.pieces, habout, List.mem_map, reduceCtorEq, and_false,
        exists_false] at hpiece

/-- A page of targets was read: each that had none is given its window. -/
theorem pageTargets (h : Names net host (x :: held) walks answered) {origin : Int}
    {anchors : Anchors} {seen : List Str} (hkind : x.kind = .targets origin anchors seen)
    (hapart : ∀ y ∈ held, y.made ≠ x.made) (hwalk : r.walk = x.made) {found fresh : List Str}
    (hfound : ∀ target, target ∈ found ↔ ∃ time, .entry target time ∈ net.answer host r)
    (hnodup : seen.Nodup → (seen ++ fresh.map host.fold).Nodup)
    (hmem : ∀ target ∈ found, isChannelTarget target = false →
      host.fold target ∈ seen ++ fresh.map host.fold) (x' : Walk) (hmade : x'.made = x.made)
    (hupper : x'.upper = x.upper)
    (hkind' : x'.kind = .targets origin anchors (seen ++ fresh.map host.fold)) :
    Names net host (x' :: (held ++ windowsOf host origin anchors x walks.length fresh))
      (walks ++ windowsOf host origin anchors x walks.length fresh) (answered ++ [r]) := by
  obtain ⟨hseen, hof⟩ := h.seen x List.mem_cons_self origin anchors seen hkind
  have hkeys (i : Nat) := windowKeys_append host walks
    (windowsOf host origin anchors x walks.length fresh) i
  simp only [windowKeys_windowsOf] at hkeys
  have hin : ∀ i, ∀ k ∈ windowKeys host walks i, k ∈ windowKeys host
      (walks ++ windowsOf host origin anchors x walks.length fresh) i := by
    intro i k hk
    rw [hkeys]
    exact List.mem_append_left _ hk
  refine ⟨fun i => ?_, fun u hu target fetched i hu' => ?_, fun y hy origin' anchors' seen' hy' => ?_,
    fun r' hr' target time hr'' hchannel => ?_⟩
  · rw [hkeys]
    split
    · rename_i hi
      rw [← hi, ← hseen]
      exact hnodup (hseen ▸ h.nodup x.made)
    · rw [List.append_nil]
      exact h.nodup i
  · rcases List.mem_append.mp hu with hu | hu
    · exact h.started_more _ hu hu'
    · obtain ⟨target', hkind'', hu_upper, hu_lower⟩ := mem_windowsOf hu
      obtain ⟨rfl, -, hi⟩ := Kind.between.inj (hkind''.symm.trans hu')
      obtain ⟨v, seen', hv, hv', rfl, hv_upper⟩ :=
        (hof.more (windowsOf host origin anchors x walks.length fresh)).made
      rw [← Option.some.inj hi]
      exact ⟨v, anchors, seen', hv, hv', hu_upper.trans hv_upper.symm, hu_lower⟩
  · rcases List.mem_cons.mp hy with rfl | hy
    · obtain ⟨rfl, rfl, rfl⟩ := Kind.targets.inj (hkind'.symm.trans hy')
      rw [hkeys, hmade, if_pos rfl, ← hseen]
      refine ⟨rfl, ?_⟩
      obtain ⟨v, seen', hv, hv', hv_origin, hv_upper⟩ := (hof.more _).made
      exact ⟨v, seen', hmade ▸ hv, hv', hv_origin, hv_upper.trans hupper.symm⟩
    · rcases List.mem_append.mp hy with hy | hy
      · obtain ⟨hseen', hof'⟩ := h.seen y (List.mem_cons_of_mem _ hy) origin' anchors' seen' hy'
        refine ⟨?_, hof'.more _⟩
        rw [hkeys, hseen', if_neg (fun heq => hapart y hy heq.symm), List.append_nil]
      · obtain ⟨_, hkind'', -⟩ := mem_windowsOf hy
        simp only [hkind'', reduceCtorEq] at hy'
  · rcases List.mem_append.mp hr' with hr' | hr'
    · exact hin _ _ (h.named r' hr' target time hr'' hchannel)
    · rw [List.mem_singleton.mp hr'] at hr'' ⊢
      rw [hwalk, hkeys, if_pos rfl, ← hseen]
      exact hmem target ((hfound target).mpr ⟨time, hr''⟩) hchannel

end Names
end Lurker.Irc.History
