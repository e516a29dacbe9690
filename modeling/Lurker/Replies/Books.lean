import Lurker.Replies.Roles

/-!
# Where each query is

Each query made is in one place: on the wire, waiting, owed a line, or over. What the log
says of it is then a word of a few.
-/

namespace Lurker.Replies

open Irc (Str)
open Irc.History (QueryEnd)

attribute [local instance] Irc.str_lawfulBEq

/-- What the log says of one query. -/
inductive Mark
  | ended (how : QueryEnd)
  | trailed
  | aborted
  | cached
  | withdrawn
  | gone
deriving DecidableEq

def Out.id : Out → Option Nat
  | .wrote _ => none
  | .queued id _ | .went id | .cancelled id | .dropped id | .ended id _ | .trailed id
  | .aborted id _ _ | .cached id _ | .withdrawn id | .gone id => some id

def Out.mark : Out → Option Mark
  | .ended _ how => some (.ended how)
  | .trailed _ => some .trailed
  | .aborted _ _ _ => some .aborted
  | .cached _ _ => some .cached
  | .withdrawn _ => some .withdrawn
  | .gone _ => some .gone
  | _ => none

/-- What the log says of a query, in order. -/
def life (log : List Out) (id : Nat) : List Mark :=
  log.filterMap fun o => if o.id = some id then o.mark else none

/-- The lives of a query whose client is told by its end numeric, by an error or by the router. -/
def toldLives (told : List Mark) : List (List Mark) :=
  [[.ended .replied], [.ended .error], [.ended .error, .trailed], told ++ [.ended .error],
    told ++ [.ended .timeout], told ++ [.gone], .ended .error :: told ++ [.gone]]

/-- The other lives: a line may follow the end, and some queries end without one. -/
def quietLives : List (List Mark) :=
  [[.ended .replied, .trailed], [.ended .replied, .gone], [.ended .postponed], [.cached],
    [.withdrawn]]

/-- A query over: told by the router if and only if its client is still there to be told. -/
def Told (q : Query) : List Mark :=
  if q.asker.any Asker.isClient && q.abort.isSome then [.aborted] else []

theorem life_append (log more : List Out) (id : Nat) :
    life (log ++ more) id = life log id ++ life more id := by
  simp only [life, List.filterMap_append]

theorem life_abortOf (q : Query) : life (Router.abortOf q) q.id = Told q := by
  unfold Router.abortOf Told
  cases q.asker.any Asker.isClient with
  | false => rfl
  | true =>
    cases habort : q.abort with
    | none => rfl
    | some numeric =>
      simp only [life, Out.id, Out.mark, List.filterMap_cons, List.filterMap_nil, ↓reduceIte,
        Option.isSome_some, Bool.and_self]

/-- What is said of other queries is no part of a life. -/
theorem life_other {outs : List Out} {id : Nat} (h : ∀ o ∈ outs, o.id ≠ some id) :
    life outs id = [] := by
  apply List.filterMap_eq_nil_iff.mpr
  intro o ho
  simp only [h o ho, ↓reduceIte]

/-- What is said of one query leaves the lives of the others as they are. -/
theorem life_more {log outs : List Out} {id i : Nat} (houts : ∀ o ∈ outs, o.id = some i)
    (hne : id ≠ i) : life (log ++ outs) id = life log id := by
  have hnone : life outs id = [] :=
    life_other fun o ho heq => hne (Option.some.inj (heq.symm.trans (houts o ho)))
  rw [life_append, hnone, List.append_nil]

theorem abortOf_id {q : Query} {o : Out} (h : o ∈ Router.abortOf q) : o.id = some q.id := by
  unfold Router.abortOf at h
  split at h
  · split at h
    · rw [List.mem_singleton.mp h]
      rfl
    · cases h
  · cases h

/-- A query as it was asked, by a client that may be one of those that stay. -/
structure Asked (stays : Nat → Prop) (q₀ q : Query) : Prop where
  id : q.id = q₀.id
  form : q.form = q₀.form
  abort : q.abort = q₀.abort
  asker : q.asker = q₀.asker ∨ q.asker = none ∧ ∀ c, q₀.asker = some (.client c) → ¬ stays c

/-- The same query, as far as its life goes. -/
structure Same (stays : Nat → Prop) (q q' : Query) : Prop where
  id : q'.id = q.id
  form : q'.form = q.form
  abort : q'.abort = q.abort
  asker : q'.asker = q.asker ∨ q'.asker = none ∧ ∀ c, q.asker = some (.client c) → ¬ stays c

theorem Reads.same {stays : Nat → Prop} {q q' : Query} (h : Reads q q') : Same stays q q' :=
  ⟨h.id, h.form, h.abort, .inl h.asker⟩

theorem Same.refl {stays : Nat → Prop} (q : Query) : Same stays q q := ⟨rfl, rfl, rfl, .inl rfl⟩

theorem Asked.same {stays : Nat → Prop} {q₀ q q' : Query} (h : Asked stays q₀ q)
    (hsame : Same stays q q') : Asked stays q₀ q' := by
  refine ⟨hsame.id.trans h.id, hsame.form.trans h.form, hsame.abort.trans h.abort, ?_⟩
  rcases hsame.asker with heq | ⟨hnone, hnot⟩
  · rw [heq]
    exact h.asker
  · rcases h.asker with heq | ⟨-, hnot'⟩
    · exact .inr ⟨hnone, heq ▸ hnot⟩
    · exact .inr ⟨hnone, hnot'⟩

/-- A query that is over. -/
structure Over (stays : Nat → Prop) (q₀ : Query) (marks : List Mark) : Prop where
  word : ∃ told, (told = [] ∨ told = [.aborted]) ∧ marks ∈ toldLives told ++ quietLives
  client : ∀ c, q₀.asker = some (.client c) → stays c → q₀.abort ≠ none →
    marks ∈ toldLives [.aborted]

/-- The queries on the wire, waiting and in hand. -/
def heldWith (r : Router) (hand : List Query) : List Query := r.wire ++ r.waiting ++ hand

/-- Every query is held, owed a line or over, and its log is the word of that. -/
structure Books (stays : Nat → Prop) (hand : List Query) (r : Router) : Prop where
  nodup : ((heldWith r hand).map (·.id)).Nodup
  held : ∀ q ∈ heldWith r hand, (∃ q₀ ∈ r.asked, Asked stays q₀ q) ∧ life r.log q.id = []
  owed : ∀ q w, r.settle = some (q, w) → (∃ q₀ ∈ r.asked, Asked stays q₀ q) ∧
    (∀ x ∈ heldWith r hand, x.id ≠ q.id) ∧
      (life r.log q.id = [.ended .error] ∨ life r.log q.id = [.ended .replied] ∧ q.abort = none)
  closed : ∀ q₀ ∈ r.asked, (∀ x ∈ heldWith r hand, x.id ≠ q₀.id) →
    (∀ q w, r.settle = some (q, w) → q.id ≠ q₀.id) → Over stays q₀ (life r.log q₀.id)
  numbered : ∀ q₀ ∈ r.asked, r.asked[q₀.id]? = some q₀
  known : ∀ o ∈ r.log, ∀ id, o.id = some id → id < r.asked.length
  fits : ∀ q₀ ∈ r.asked, Fits q₀.toSpec

namespace Books

variable {stays : Nat → Prop} {hand : List Query} {r : Router} {q : Query}

theorem asked_lt (h : Books stays hand r) {q₀ : Query} (hq₀ : q₀ ∈ r.asked) :
    q₀.id < r.asked.length :=
  (List.getElem?_eq_some_iff.mp (h.numbered q₀ hq₀)).1

theorem unique (h : Books stays hand r) {q₀ q₁ : Query} (h₀ : q₀ ∈ r.asked) (h₁ : q₁ ∈ r.asked)
    (hid : q₀.id = q₁.id) : q₀ = q₁ := by
  have hfirst := h.numbered q₀ h₀
  rw [hid, h.numbered q₁ h₁] at hfirst
  exact (Option.some.inj hfirst).symm

/-- The same queries elsewhere, each known by the same marks. -/
theorem moved (h : Books stays hand r) {r' : Router} {hand' : List Query}
    (hids : ((heldWith r' hand').map (·.id)).Perm ((heldWith r hand).map (·.id)))
    (hsame : ∀ q' ∈ heldWith r' hand', ∃ q ∈ heldWith r hand, Same stays q q')
    (hsettle : ∀ q' w, r'.settle = some (q', w) → ∃ q, r.settle = some (q, w) ∧ Same stays q q')
    (hstill : r'.settle = none → r.settle = none) (hasked : r'.asked = r.asked)
    (hlog : r'.log = r.log) : Books stays hand' r' := by
  have hback : ∀ id, (∀ x ∈ heldWith r' hand', x.id ≠ id) → ∀ x ∈ heldWith r hand, x.id ≠ id := by
    intro id hnot x hx hid
    have hin : x.id ∈ (heldWith r' hand').map (·.id) := hids.mem_iff.mpr (List.mem_map_of_mem hx)
    obtain ⟨y, hy, hyid⟩ := List.mem_map.mp hin
    exact hnot y hy (hyid.trans hid)
  refine ⟨hids.nodup_iff.mpr h.nodup, fun q' hq' => ?_, fun q' w hq' => ?_,
    fun q₀ hq₀ hnot hset => ?_, ?_, ?_, ?_⟩
  · obtain ⟨q, hq, hof⟩ := hsame q' hq'
    obtain ⟨⟨q₀, hq₀, hasked₀⟩, hlife⟩ := h.held q hq
    rw [hasked, hlog, hof.id]
    exact ⟨⟨q₀, hq₀, hasked₀.same hof⟩, hlife⟩
  · obtain ⟨q, hq, hof⟩ := hsettle q' w hq'
    obtain ⟨⟨q₀, hq₀, hasked₀⟩, hapart, hlife⟩ := h.owed q w hq
    rw [hasked, hlog, hof.id, hof.abort]
    refine ⟨⟨q₀, hq₀, hasked₀.same hof⟩, fun x hx hid => ?_, hlife⟩
    obtain ⟨y, hy, hofx⟩ := hsame x hx
    exact hapart y hy (hofx.id.symm.trans hid)
  · rw [hasked] at hq₀
    rw [hlog]
    refine h.closed q₀ hq₀ (hback q₀.id hnot) fun q w hq => ?_
    cases hsome : r'.settle with
    | none =>
      rw [hstill hsome] at hq
      cases hq
    | some owed =>
      obtain ⟨x, hx, hof⟩ := hsettle owed.1 owed.2 hsome
      rw [hq] at hx
      obtain ⟨rfl, -⟩ := Prod.mk.inj (Option.some.inj hx)
      exact hof.id ▸ hset owed.1 owed.2 hsome
  · rw [hasked]
    exact h.numbered
  · rw [hasked, hlog]
    exact h.known
  · rw [hasked]
    exact h.fits

/-- What is only said of a query on its way leaves its life as it is. -/
theorem note_quiet (h : Books stays hand r) {outs : List Out}
    (hquiet : ∀ o ∈ outs, o.mark = none ∧ ∀ id, o.id = some id → id < r.asked.length) :
    Books stays hand (r.note outs) := by
  have hlife : ∀ id, life (r.log ++ outs) id = life r.log id := by
    intro id
    have hnone : life outs id = [] := by
      apply List.filterMap_eq_nil_iff.mpr
      intro o ho
      simp only [(hquiet o ho).1, ite_self]
    rw [life_append, hnone, List.append_nil]
  refine ⟨h.nodup, fun q hq => ?_, fun q w hq => ?_, fun q₀ hq₀ hnot hset => ?_, h.numbered,
    fun o ho => ?_, h.fits⟩
  · simp only [Router.note, hlife]
    exact h.held q hq
  · simp only [Router.note, hlife]
    exact h.owed q w hq
  · simp only [Router.note, hlife]
    exact h.closed q₀ hq₀ hnot hset
  · rcases List.mem_append.mp ho with ho | ho
    · exact h.known o ho
    · exact (hquiet o ho).2

/-- A query in hand is nowhere else. -/
theorem in_hand (h : Books stays (q :: hand) r) :
    ((heldWith r hand).map (·.id)).Nodup ∧
      (∀ x ∈ heldWith r hand, x ∈ heldWith r (q :: hand) ∧ x.id ≠ q.id) ∧
      ∀ x ∈ heldWith r (q :: hand), x = q ∨ x ∈ heldWith r hand := by
  have hperm : (heldWith r (q :: hand)).Perm (q :: heldWith r hand) := List.perm_middle
  have hall : ((q :: heldWith r hand).map (·.id)).Nodup := (hperm.map _).nodup_iff.mp h.nodup
  obtain ⟨hnot, hnodup⟩ := List.nodup_cons.mp hall
  refine ⟨hnodup, fun x hx => ⟨hperm.mem_iff.mpr (List.mem_cons_of_mem _ hx), fun heq => ?_⟩,
    fun x hx => List.mem_cons.mp (hperm.mem_iff.mp hx)⟩
  exact hnot (List.mem_map.mpr ⟨x, hx, heq⟩)

/-- A query in hand is over. -/
theorem close (h : Books stays (q :: hand) r) {outs : List Out}
    (houts : ∀ o ∈ outs, o.id = some q.id)
    (hover : ∀ q₀ ∈ r.asked, Asked stays q₀ q → Over stays q₀ (life outs q.id)) :
    Books stays hand (r.note outs) := by
  have hin : q ∈ heldWith r (q :: hand) := List.mem_append_right _ List.mem_cons_self
  obtain ⟨⟨q₀, hq₀, hof⟩, hnew⟩ := h.held q hin
  obtain ⟨hnodup, hless, hmore⟩ := h.in_hand
  refine ⟨hnodup, fun x hx => ?_, fun x w hx => ?_, fun x hx hnot hset => ?_, h.numbered,
    fun o ho id hid => ?_, h.fits⟩
  · simp only [Router.note, life_more houts (hless x hx).2]
    exact h.held x (hless x hx).1
  · obtain ⟨hofx, hapart, hlife⟩ := h.owed x w hx
    simp only [Router.note, life_more houts (hapart q hin).symm]
    exact ⟨hofx, fun y hy => hapart y (hless y hy).1, hlife⟩
  · by_cases hid : x.id = q.id
    · obtain rfl := h.unique hx hq₀ (hid.trans hof.id)
      simp only [Router.note, life_append, ← hof.id, hnew, List.nil_append]
      exact hover x hx hof
    · simp only [Router.note, life_more houts hid]
      refine h.closed x hx (fun y hy => ?_) hset
      rcases hmore y hy with rfl | hy
      · exact fun heq => hid heq.symm
      · exact hnot y hy
  · rcases List.mem_append.mp ho with ho | ho
    · exact h.known o ho id hid
    · rw [houts o ho] at hid
      rw [← Option.some.inj hid, hof.id]
      exact h.asked_lt hq₀

/-- A query in hand has ended, and is owed the next line. -/
theorem owe (h : Books stays (q :: hand) r) (hnone : r.settle = none) {how : QueryEnd} (wants : Str)
    (hhow : how = .error ∨ how = .replied ∧ q.abort = none) :
    Books stays hand { r.note [.ended q.id how] with settle := some (q, wants) } := by
  have hin : q ∈ heldWith r (q :: hand) := List.mem_append_right _ List.mem_cons_self
  obtain ⟨⟨q₀, hq₀, hof⟩, hnew⟩ := h.held q hin
  obtain ⟨hnodup, hless, hmore⟩ := h.in_hand
  have houts : ∀ o ∈ [Out.ended q.id how], o.id = some q.id := by
    intro o ho
    rw [List.mem_singleton.mp ho]
    rfl
  have hself : life (r.log ++ [.ended q.id how]) q.id = [.ended how] := by
    rw [life_append, hnew, List.nil_append]
    simp only [life, Out.id, Out.mark, List.filterMap_cons, List.filterMap_nil, ↓reduceIte]
  refine ⟨hnodup, fun x hx => ?_, fun x w hx => ?_, fun x hx hnot hset => ?_, h.numbered,
    fun o ho id hid => ?_, h.fits⟩
  · simp only [Router.note, life_more houts (hless x hx).2]
    exact h.held x (hless x hx).1
  · obtain ⟨rfl, rfl⟩ := Prod.mk.inj (Option.some.inj hx)
    refine ⟨⟨q₀, hq₀, hof⟩, fun y hy => (hless y hy).2, ?_⟩
    simp only [Router.note, hself]
    rcases hhow with rfl | ⟨rfl, habort⟩
    · exact .inl rfl
    · exact .inr ⟨rfl, habort⟩
  · have hid : x.id ≠ q.id := fun heq => hset q wants rfl heq.symm
    simp only [Router.note, life_more houts hid]
    refine h.closed x hx (fun y hy => ?_) fun y w hy => ?_
    · rcases hmore y hy with rfl | hy
      · exact fun heq => hid heq.symm
      · exact hnot y hy
    · rw [hnone] at hy
      cases hy
  · rcases List.mem_append.mp ho with ho | ho
    · exact h.known o ho id hid
    · rw [houts o ho] at hid
      rw [← Option.some.inj hid, hof.id]
      exact h.asked_lt hq₀

/-- What is said of the query that is owed a line is the end of it. -/
theorem settled (h : Books stays hand r) {wants : Str} (hsettle : r.settle = some (q, wants))
    (outs : List Out) (houts : ∀ o ∈ outs, o.id = some q.id)
    (hover : ∀ q₀ ∈ r.asked, Asked stays q₀ q →
      (life r.log q.id = [.ended .error] ∨ life r.log q.id = [.ended .replied] ∧ q.abort = none) →
        Over stays q₀ (life r.log q.id ++ life outs q.id)) :
    Books stays hand { r.note outs with settle := none } := by
  obtain ⟨⟨q₀, hq₀, hof⟩, hapart, hended⟩ := h.owed q wants hsettle
  refine ⟨h.nodup, fun x hx => ?_, fun x w hx => (nomatch hx), fun x hx hnot _ => ?_, h.numbered,
    fun o ho id hid => ?_, h.fits⟩
  · simp only [Router.note, life_more houts (hapart x hx)]
    exact h.held x hx
  · by_cases hid : x.id = q.id
    · obtain rfl := h.unique hx hq₀ (hid.trans hof.id)
      simp only [Router.note, life_append, ← hof.id]
      exact hover x hx hof hended
    · simp only [Router.note, life_more houts hid]
      refine h.closed x hx hnot fun y w hy heq => ?_
      rw [hsettle] at hy
      obtain ⟨rfl, -⟩ := Prod.mk.inj (Option.some.inj hy)
      exact hid heq.symm
  · rcases List.mem_append.mp ho with ho | ho
    · exact h.known o ho id hid
    · rw [houts o ho] at hid
      rw [← Option.some.inj hid, hof.id]
      exact h.asked_lt hq₀

end Books

section Ends

variable {stays : Nat → Prop} {q₀ q : Query}

theorem told_cases (q : Query) : Told q = [] ∨ Told q = [.aborted] := by
  unfold Told
  split
  · exact .inr rfl
  · exact .inl rfl

/-- A client that stays is told by the router. -/
theorem Asked.told (h : Asked stays q₀ q) {c : Nat} (hclient : q₀.asker = some (.client c))
    (hstays : stays c) (habort : q₀.abort ≠ none) : Told q = [.aborted] := by
  have hasker : q.asker = some (.client c) := by
    rcases h.asker with hsame | ⟨-, hnot⟩
    · exact hsame.trans hclient
    · exact absurd hstays (hnot c hclient)
  have hsome : q.abort.isSome = true := by
    rw [h.abort]
    exact Option.isSome_iff_ne_none.mpr habort
  simp only [Told, hasker, Option.any_some, Asker.isClient, hsome, Bool.and_self, ↓reduceIte]

/-- A life that a told client's query can have. -/
theorem Over.of_told (h : Asked stays q₀ q) {marks : List Mark} (hmarks : marks ∈ toldLives (Told q)) :
    Over stays q₀ marks := by
  refine ⟨⟨Told q, told_cases q, List.mem_append_left _ hmarks⟩, fun c hc hs ha => ?_⟩
  rw [h.told hc hs ha] at hmarks
  exact hmarks

/-- A life that no query with an end numeric has. -/
theorem Over.of_quiet {marks : List Mark} (habort : q₀.abort = none) (hmarks : marks ∈ quietLives) :
    Over stays q₀ marks :=
  ⟨⟨[], .inl rfl, List.mem_append_right _ hmarks⟩, fun _ _ _ ha => absurd habort ha⟩

theorem Over.of_gone {marks : List Mark} (hgone : ∀ c, q₀.asker = some (.client c) → ¬ stays c)
    (hmarks : marks ∈ quietLives) : Over stays q₀ marks :=
  ⟨⟨[], .inl rfl, List.mem_append_right _ hmarks⟩, fun c hc hs => absurd hs (hgone c hc)⟩

end Ends

/-- What goes by one number in a list of queries is one. -/
theorem filter_id {l : List Query} (hnodup : (l.map (·.id)).Nodup) {q : Query} (hq : q ∈ l) :
    l.filter (·.id = q.id) = [q] := by
  induction l with
  | nil => exact absurd hq List.not_mem_nil
  | cons x l ih =>
    obtain ⟨hnot, hrest⟩ := List.nodup_cons.mp hnodup
    rcases List.mem_cons.mp hq with rfl | hq
    · have hnone : l.filter (·.id = q.id) = [] := by
        apply List.filter_eq_nil_iff.mpr
        intro y hy heq
        exact hnot (List.mem_map.mpr ⟨y, hy, of_decide_eq_true heq⟩)
      rw [List.filter_cons, if_pos (decide_eq_true rfl), hnone]
    · have hne : x.id ≠ q.id := fun heq => hnot (List.mem_map.mpr ⟨q, hq, heq.symm⟩)
      rw [List.filter_cons, if_neg (by simpa using hne)]
      exact ih hrest hq

theorem perm_takeOff {l : List Query} (hnodup : (l.map (·.id)).Nodup) {q : Query} (hq : q ∈ l) :
    (l.filter (·.id ≠ q.id) ++ [q]).Perm l := by
  have hsplit := List.filter_append_perm (fun x : Query => decide (x.id ≠ q.id)) l
  have hself : l.filter (fun x => !decide (x.id ≠ q.id)) = [q] := by
    rw [← filter_id hnodup hq]
    congr 1
    funext x
    simp only [ne_eq, decide_not, Bool.not_not]
  rwa [hself] at hsplit

theorem perm_cross (a b c d : List Query) : ((a ++ b) ++ (c ++ d)).Perm ((a ++ c) ++ (b ++ d)) := by
  simp only [List.append_assoc]
  exact List.Perm.append_left a (List.perm_append_comm_assoc b c d)

namespace Books

variable {stays : Nat → Prop} {hand : List Query} {r : Router} {q : Query} (env : Env)

theorem wire_nodup (h : Books stays hand r) : (r.wire.map (·.id)).Nodup := by
  have hall := h.nodup
  simp only [heldWith, List.map_append, List.append_assoc] at hall
  exact (List.nodup_append.mp hall).1

/-- A query on the wire is known by its number. -/
theorem wire_unique (h : Books stays hand r) (hq : q ∈ r.wire) {x : Query} (hx : x ∈ r.wire)
    (hid : x.id = q.id) : x = q := by
  have hin : x ∈ r.wire.filter (·.id = q.id) := List.mem_filter.mpr ⟨hx, decide_eq_true hid⟩
  rw [filter_id h.wire_nodup hq] at hin
  exact List.mem_singleton.mp hin

theorem mem_wire (hq : q ∈ r.wire) : q ∈ heldWith r hand :=
  List.mem_append_left _ (List.mem_append_left _ hq)

/-- A query of the wire is asked, so its number is one of those given out. -/
theorem id_lt (h : Books stays hand r) (hq : q ∈ heldWith r hand) : q.id < r.asked.length := by
  obtain ⟨⟨q₀, hq₀, hof⟩, -⟩ := h.held q hq
  rw [hof.id]
  exact h.asked_lt hq₀

/-- The same queries elsewhere. -/
theorem perm (h : Books stays hand r) {r' : Router} {hand' : List Query}
    (hperm : (heldWith r' hand').Perm (heldWith r hand)) (hsettle : r'.settle = r.settle)
    (hasked : r'.asked = r.asked) (hlog : r'.log = r.log) : Books stays hand' r' :=
  h.moved (hperm.map _) (fun q hq => ⟨q, hperm.mem_iff.mp hq, .refl q⟩)
    (fun q _ hq => ⟨q, hsettle ▸ hq, .refl q⟩) (fun hnone => hsettle ▸ hnone) hasked hlog

/-- A query in hand that has changed in other respects. -/
theorem read_hand (h : Books stays (q :: hand) r) {q' : Query} (hsame : Same stays q q') :
    Books stays (q' :: hand) r := by
  refine h.moved ?_ (fun x hx => ?_) (fun x w hx => ⟨x, hx, .refl x⟩) id rfl rfl
  · simp only [heldWith, List.map_append, List.map_cons, hsame.id]
    exact .refl _
  · rcases List.mem_append.mp hx with hx | hx
    · exact ⟨x, List.mem_append_left _ hx, .refl x⟩
    · rcases List.mem_cons.mp hx with rfl | hx
      · exact ⟨q, List.mem_append_right _ List.mem_cons_self, hsame⟩
      · exact ⟨x, List.mem_append_right _ (List.mem_cons_of_mem _ hx), .refl x⟩

/-- A query is taken off the wire. -/
theorem takeOff (h : Books stays hand r) (hq : q ∈ r.wire) :
    Books stays (q :: hand) (r.takeOffWire q.id) := by
  refine h.perm ?_ rfl rfl rfl
  calc heldWith (r.takeOffWire q.id) (q :: hand)
      = r.wire.filter (·.id ≠ q.id) ++ (r.waiting ++ q :: hand) := by
        simp only [heldWith, Router.takeOffWire, List.append_assoc]
    _ |>.Perm (r.wire.filter (·.id ≠ q.id) ++ q :: (r.waiting ++ hand)) :=
        List.Perm.append_left _ List.perm_middle
    _ |>.Perm ((r.wire.filter (·.id ≠ q.id) ++ [q]) ++ (r.waiting ++ hand)) := by
        rw [List.append_assoc, List.singleton_append]
    _ |>.Perm (r.wire ++ (r.waiting ++ hand)) :=
        (perm_takeOff h.wire_nodup hq).append_right _
    _ |>.Perm (heldWith r hand) := by rw [heldWith, List.append_assoc]

/-- A query in hand goes on the wire. -/
theorem putOn (h : Books stays (q :: hand) r) :
    Books stays hand { r with wire := r.wire ++ [q] } := by
  refine h.perm ?_ rfl rfl rfl
  calc heldWith { r with wire := r.wire ++ [q] } hand
      = r.wire ++ q :: (r.waiting ++ hand) := by
        simp only [heldWith, List.append_assoc, List.cons_append, List.nil_append]
    _ |>.Perm (r.wire ++ (r.waiting ++ q :: hand)) :=
        List.Perm.append_left _ List.perm_middle.symm
    _ |>.Perm (heldWith r (q :: hand)) := by rw [heldWith, List.append_assoc]

/-- What is said of held queries on their way. -/
theorem quiet_of (h : Books stays hand r) (outs : List Out) (hmark : ∀ o ∈ outs, o.mark = none)
    (hid : ∀ o ∈ outs, ∃ q ∈ heldWith r hand, o.id = some q.id) :
    Books stays hand (r.note outs) := by
  refine h.note_quiet fun o ho => ⟨hmark o ho, fun id hof => ?_⟩
  obtain ⟨q, hq, heq⟩ := hid o ho
  rw [heq] at hof
  rw [← Option.some.inj hof]
  exact h.id_lt hq

/-- A line has gone. -/
theorem markSent (h : Books stays hand r) (hq : q ∈ r.wire) : Books stays hand (r.markSent q) := by
  have hsent : Same stays q { q with sent := true } := ⟨rfl, rfl, rfl, .inl rfl⟩
  have hback := ((h.takeOff hq).read_hand hsent).putOn
  refine hback.quiet_of [.went q.id] (fun o ho => ?_) fun o ho => ?_
  · rw [List.mem_singleton.mp ho]
    rfl
  · rw [List.mem_singleton.mp ho]
    exact ⟨{ q with sent := true }, mem_wire (List.mem_append_right _ List.mem_cons_self), rfl⟩

/-- A query in hand goes on the wire, its line in the send queue. -/
theorem queueUp (h : Books stays (q :: hand) r) :
    Books stays hand (({ r with wire := r.wire ++ [q] } : Router).note [.queued q.id q.line]) := by
  refine h.putOn.quiet_of _ (fun o ho => ?_) fun o ho => ?_
  · rw [List.mem_singleton.mp ho]
    rfl
  · rw [List.mem_singleton.mp ho]
    exact ⟨q, mem_wire (List.mem_append_right _ List.mem_cons_self), rfl⟩

theorem dispatchNow (h : Books stays (q :: hand) r) : Books stays hand (r.dispatchNow env q) := by
  unfold Router.dispatchNow
  split
  · refine h.perm ?_ rfl rfl rfl
    simp only [heldWith, List.append_assoc, List.singleton_append]
    exact .refl _
  · split
    · refine h.close (fun o ho => ?_) fun q₀ hq₀ hof => .of_told hof ?_
      · rcases List.mem_append.mp ho with ho | ho
        · exact abortOf_id ho
        · rw [List.mem_singleton.mp ho]
          rfl
      · rw [life_append, life_abortOf]
        simp only [life, Out.id, Out.mark, List.filterMap_cons, List.filterMap_nil, ↓reduceIte,
          toldLives, List.mem_cons, true_or, or_true]
    · dsimp only
      split
      · exact h.queueUp.markSent (List.mem_append_right _ List.mem_cons_self)
      · exact h.queueUp

/-- The queries in hand go out, or wait, in order. -/
theorem dispatchAll (l : List Query) (h : Books stays (l ++ hand) r) :
    Books stays hand (l.foldl (fun r q => r.dispatchNow env q) r) := by
  induction l generalizing r with
  | nil => exact h
  | cons q l ih => exact ih (h.dispatchNow env)

/-- What steps aside for a query in hand is in hand too. -/
theorem stepAside (h : Books stays (q :: hand) r) :
    Books stays (q :: (r.wire.filter (Router.stepsAside env q) ++ hand))
      (({ r with wire := r.wire.filter (!Router.stepsAside env q ·) } : Router).note
        ((r.wire.filter (Router.stepsAside env q)).map (.cancelled ·.id))) := by
  have hoff : Books stays (q :: (r.wire.filter (Router.stepsAside env q) ++ hand))
      { r with wire := r.wire.filter (!Router.stepsAside env q ·) } := by
    refine h.perm ?_ rfl rfl rfl
    have hsplit := List.filter_append_perm (fun x => !Router.stepsAside env q x) r.wire
    simp only [Bool.not_not] at hsplit
    calc heldWith { r with wire := r.wire.filter (!Router.stepsAside env q ·) }
          (q :: (r.wire.filter (Router.stepsAside env q) ++ hand))
        = (r.wire.filter (!Router.stepsAside env q ·) ++ (r.waiting ++ [q])) ++
            (r.wire.filter (Router.stepsAside env q) ++ hand) := by
          simp only [heldWith, List.append_assoc, List.singleton_append]
      _ |>.Perm ((r.wire.filter (!Router.stepsAside env q ·) ++
            r.wire.filter (Router.stepsAside env q)) ++ ((r.waiting ++ [q]) ++ hand)) :=
          perm_cross _ _ _ _
      _ |>.Perm (r.wire ++ ((r.waiting ++ [q]) ++ hand)) := hsplit.append_right _
      _ |>.Perm (heldWith r (q :: hand)) := by
          simp only [heldWith, List.append_assoc, List.singleton_append]
          exact .refl _
  refine hoff.quiet_of _ (fun o ho => ?_) fun o ho => ?_
  · obtain ⟨x, -, rfl⟩ := List.mem_map.mp ho
    rfl
  · obtain ⟨x, hx, rfl⟩ := List.mem_map.mp ho
    exact ⟨x, List.mem_append_right _ (List.mem_cons_of_mem _ (List.mem_append_left _ hx)), rfl⟩

theorem dispatch (h : Books stays (q :: hand) r) : Books stays hand (r.dispatch env q) := by
  unfold Router.dispatch
  split
  · rename_i hnone
    refine h.close (fun o ho => ?_) fun q₀ hq₀ hof => .of_gone (fun c hc => ?_) ?_
    · rw [List.mem_singleton.mp ho]
      rfl
    · rcases hof.asker with hsame | ⟨-, hnot⟩
      · rw [hnone, hc] at hsame
        cases hsame
      · exact hnot c hc
    · simp only [life, Out.id, Out.mark, List.filterMap_cons, List.filterMap_nil, ↓reduceIte,
        quietLives, List.mem_cons, true_or, or_true]
  · split
    · rename_i lines hcached
      refine h.close (fun o ho => ?_) fun q₀ hq₀ hof => .of_quiet ?_ ?_
      · rw [List.mem_singleton.mp ho]
        rfl
      · by_contra hsome
        have hmode : q.form = .mode := by
          unfold Router.cachedFor at hcached
          split at hcached
          · rename_i hcond
            simp only [Bool.and_eq_true, decide_eq_true_eq] at hcond
            exact hcond.1.1
          · cases hcached
        exact (h.fits q₀ hq₀ hsome).1 (hof.form.symm.trans hmode)
      · simp only [life, Out.id, Out.mark, List.filterMap_cons, List.filterMap_nil, ↓reduceIte,
          quietLives, List.mem_cons, true_or, or_true]
    · exact dispatchAll env _ ((h.stepAside env).dispatchNow env)

/-- What waits is in hand. -/
theorem toHand (h : Books stays hand r) : Books stays (r.waiting ++ hand) { r with waiting := [] } := by
  refine h.perm ?_ rfl rfl rfl
  simp only [heldWith, List.append_nil, List.append_assoc]
  exact .refl _

/-- Every waiting query goes out, or waits again. -/
theorem releaseWaiting (h : Books stays hand r) : Books stays hand (r.releaseWaiting env) := by
  have hall : ∀ (l : List Query) (r : Router), Books stays (l ++ hand) r →
      Books stays hand (l.foldl (fun r q => r.dispatch env q) r) := by
    intro l
    induction l with
    | nil => exact fun _ h => h
    | cons q l ih => exact fun _ h => ih _ (h.dispatch env)
  exact hall _ _ h.toHand

/-- How a query ends on the wire: whole, put off, or by an error, and what it is owed then. -/
def EndsBy (q : Query) (wants : Option Str) (how : QueryEnd) : Prop :=
  how = .error ∨ how = .replied ∧ (wants ≠ none → q.abort = none) ∨
    how = .postponed ∧ q.abort = none ∧ wants = none

/-- A query that is owed no line is over. -/
theorem endNow (h : Books stays hand r) (hq : q ∈ r.wire) {q' : Query} (hsame : Same stays q q')
    {how : QueryEnd} (hends : EndsBy q' none how) :
    Books stays hand ((r.takeOffWire q'.id).note [.ended q'.id how]) := by
  have hoff : Books stays (q' :: hand) (r.takeOffWire q'.id) := by
    rw [hsame.id]
    exact (h.takeOff hq).read_hand hsame
  refine hoff.close (fun o ho => ?_) fun q₀ hq₀ hof => ?_
  · rw [List.mem_singleton.mp ho]
    rfl
  · have hlife : life [.ended q'.id how] q'.id = [.ended how] := by
      simp only [life, Out.id, Out.mark, List.filterMap_cons, List.filterMap_nil, ↓reduceIte]
    rw [hlife]
    rcases hends with rfl | ⟨rfl, -⟩ | ⟨rfl, habort, -⟩
    · exact .of_told hof (by simp only [toldLives, List.mem_cons, true_or, or_true])
    · exact .of_told hof (by simp only [toldLives, List.mem_cons, true_or])
    · exact .of_quiet (hof.abort ▸ habort)
        (by simp only [quietLives, List.mem_cons, true_or, or_true])

theorem finish (h : Books stays hand r) (hnone : r.settle = none) (hq : q ∈ r.wire) {q' : Query}
    (hsame : Same stays q q') {wants : Option Str} {how : QueryEnd} (hends : EndsBy q' wants how) :
    Books stays hand (r.finish env q' wants how) := by
  unfold Router.finish
  cases wants with
  | none => exact (h.endNow hq hsame hends).releaseWaiting env
  | some wants =>
    have hoff : Books stays (q' :: hand) (r.takeOffWire q'.id) := by
      rw [hsame.id]
      exact (h.takeOff hq).read_hand hsame
    refine hoff.owe hnone wants ?_
    rcases hends with rfl | ⟨rfl, habort⟩ | ⟨-, -, hwants⟩
    · exact .inl rfl
    · exact .inr ⟨rfl, habort (Option.some_ne_none wants)⟩
    · cases hwants

/-- The wait on a line after an end is over. -/
theorem unsettle (h : Books stays hand r) : Books stays hand { r with settle := none } := by
  cases hsettle : r.settle with
  | none => exact hsettle ▸ h
  | some owed =>
    obtain ⟨q, wants⟩ := owed
    have hover := h.settled hsettle [] (fun o ho => absurd ho List.not_mem_nil)
      (fun q₀ hq₀ hof hended => by
        rw [show life [] q.id = [] from rfl, List.append_nil]
        rcases hended with hended | ⟨hended, -⟩
        · rw [hended]
          exact .of_told hof (by simp only [toldLives, List.mem_cons, true_or, or_true])
        · rw [hended]
          exact .of_told hof (by simp only [toldLives, List.mem_cons, true_or]))
    simpa only [Router.note, List.append_nil] using hover

theorem trailed (h : Books stays hand r) {wants : Str} (hsettle : r.settle = some (q, wants)) :
    Books stays hand (({ r with settle := none } : Router).note [.trailed q.id]) := by
  refine h.settled hsettle [.trailed q.id] (fun o ho => ?_) fun q₀ hq₀ hof hended => ?_
  · rw [List.mem_singleton.mp ho]
    rfl
  · have hlife : life [.trailed q.id] q.id = [.trailed] := by
      simp only [life, Out.id, Out.mark, List.filterMap_cons, List.filterMap_nil, ↓reduceIte]
    rw [hlife]
    rcases hended with hended | ⟨hended, habort⟩
    · rw [hended]
      exact .of_told hof (by
        simp only [toldLives, List.singleton_append, List.mem_cons, true_or, or_true])
    · rw [hended]
      exact .of_quiet (hof.abort ▸ habort)
        (by simp only [quietLives, List.singleton_append, List.mem_cons, true_or])

end Books

end Lurker.Replies
