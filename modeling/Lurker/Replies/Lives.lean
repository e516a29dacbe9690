import Lurker.Lib.Run
import Lurker.Replies.Books

/-!
# The life of a query

No query is lost and none ends twice, whatever the server, the clients and the clock do: each
is in one place, and a client that asked and stayed is told of its end once, by its end
numeric, by an error or by the router.
-/

namespace Lurker.Replies

open Irc (Str)
open Irc.History (QueryEnd)

attribute [local instance] Irc.str_lawfulBEq

section Lines

variable {stays : Nat → Prop} {r : Router} {env : Env} {l : Line} {q q' : Query} {role : Role}

theorem hearer_eq_some (h : r.hearer env l = some (q, role, q')) :
    q ∈ r.wire ∧ q.sent = true ∧ roleOf env l q = some (role, q') := by
  obtain ⟨x, hx, hrole⟩ := List.exists_of_findSome?_eq_some h
  split at hrole
  · rename_i hsent
    obtain ⟨⟨role', x'⟩, hof, heq⟩ := Option.map_eq_some_iff.mp hrole
    obtain ⟨rfl, rfl, rfl⟩ : x = q ∧ role' = role ∧ x' = q' := by
      simpa only [Prod.mk.injEq] using heq
    exact ⟨hx, hsent, hof⟩
  · cases hrole

/-- Only the modes kept depend on what a line says of them. -/
theorem noteModes_eq (env : Env) (r : Router) (l : Line) :
    ∃ modes, r.noteModes env l = { r with modes := modes } := by
  unfold Router.noteModes
  dsimp only
  repeat' split
  all_goals exact ⟨_, rfl⟩

/-- A line is of a batch kept, or claimed, or nobody's. -/
theorem claimed_cases (env : Env) (r : Router) (l : Line) :
    (∃ orphans owner, r.claimOrphan l ≠ none ∧
      r.claimed env l = ({ r with orphanBatches := orphans }, owner)) ∨
    r.claimOrphan l = none ∧ (r.claim env l = none ∧ r.claimed env l = (r, Router.unclaimed l) ∨
      r.claim env l = some (r.claimed env l)) := by
  unfold Router.claimed
  cases horphan : r.claimOrphan l with
  | none =>
    cases hclaim : r.claim env l with
    | none => exact .inr ⟨rfl, .inl ⟨rfl, rfl⟩⟩
    | some got => exact .inr ⟨rfl, .inr rfl⟩
  | some got =>
    unfold Router.claimOrphan at horphan
    obtain ⟨ref, -, horphan⟩ := Option.bind_eq_some_iff.mp horphan
    obtain ⟨asker, -, rfl⟩ := Option.map_eq_some_iff.mp horphan
    left
    simp only [Option.orElse_some, Option.getD_some]
    split
    · exact ⟨_, _, Option.some_ne_none _, rfl⟩
    · exact ⟨r.orphanBatches, _, Option.some_ne_none _, rfl⟩

/-- What follows an end follows no end numeric that a client is told. -/
theorem trailerOf_abort (hfits : Fits q.toSpec) (h : trailerOf l q ≠ none) : q.abort = none := by
  by_contra habort
  obtain ⟨hmode, htopic, -⟩ := hfits habort
  apply h
  unfold trailerOf
  split
  · exact absurd ‹_› hmode
  · exact absurd ‹_› htopic
  · rfl

namespace Books

theorem fits_of (h : Books stays [] r) (hq : q ∈ r.wire) : Fits q.toSpec := by
  obtain ⟨⟨q₀, hq₀, hof⟩, -⟩ := h.held q (mem_wire hq)
  intro habort
  rw [hof.form]
  exact h.fits q₀ hq₀ (hof.abort ▸ habort)

/-- How a line that ends a query ends it. -/
theorem ends_of (h : Books stays [] r) (hq : q ∈ r.wire)
    (hrole : roleOf env l q = some (.ends, q')) :
    EndsBy q' (trailerOf l q) (if is l "774" then .postponed else .replied) := by
  have hreads := reads_roleOf hrole
  have hfits := h.fits_of hq
  split
  · rename_i hlate
    have hform := ends_774 hrole hlate
    have habort : q.abort = none := by
      by_contra habort
      exact (hfits habort).2.2 hform
    refine .inr (.inr ⟨rfl, hreads.abort.trans habort, ?_⟩)
    simp only [trailerOf, hform]
  · exact .inr (.inl ⟨rfl, fun hwants => hreads.abort.trans (trailerOf_abort hfits hwants)⟩)

theorem claim (h : Books stays [] r) (hnone : r.settle = none) {r' : Router} {owner : Owner}
    (hclaim : r.claim env l = some (r', owner)) : Books stays [] r' := by
  unfold Router.claim at hclaim
  split at hclaim
  · rename_i q q' hhears
    obtain ⟨hq, -, hrole⟩ := hearer_eq_some hhears
    have hreads := reads_roleOf hrole
    obtain ⟨rfl, -⟩ := Prod.mk.inj (Option.some.inj hclaim)
    refine h.moved ?_ (fun x hx => ?_) (fun x w hx => ⟨x, hx, .refl x⟩) id rfl rfl
    · have hids : (r.wire.map fun x => if x.id = q.id then q' else x).map (·.id) =
          r.wire.map (·.id) := by
        rw [List.map_map]
        apply List.map_congr_left
        intro x _
        simp only [Function.comp_apply]
        split
        · rename_i heq
          exact hreads.id.trans heq.symm
        · rfl
      simp only [heldWith, List.map_append, hids]
      exact .refl _
    · simp only [heldWith, List.append_nil] at hx ⊢
      rcases List.mem_append.mp hx with hx | hx
      · obtain ⟨y, hy, rfl⟩ := List.mem_map.mp hx
        split
        · exact ⟨q, List.mem_append_left _ hq, hreads.same⟩
        · exact ⟨y, List.mem_append_left _ hy, .refl y⟩
      · exact ⟨x, List.mem_append_right _ hx, .refl x⟩
  · rename_i q q' hhears
    obtain ⟨hq, -, hrole⟩ := hearer_eq_some hhears
    obtain ⟨rfl, -⟩ := Prod.mk.inj (Option.some.inj hclaim)
    exact h.finish env hnone hq (reads_roleOf hrole).same (h.ends_of hq hrole)
  · obtain ⟨q, hq, heq⟩ := Option.map_eq_some_iff.mp hclaim
    obtain ⟨rfl, -⟩ := Prod.mk.inj heq
    exact h.finish env hnone (List.mem_of_find?_eq_some hq) (.refl q) (.inl rfl)

theorem noteModes (h : Books stays [] r) (env : Env) (l : Line) :
    Books stays [] (r.noteModes env l) := by
  obtain ⟨modes, heq⟩ := noteModes_eq env r l
  rw [heq]
  exact h.perm (.refl _) rfl rfl rfl

theorem claimed (h : Books stays [] r) (hnone : r.settle = none) (env : Env) (l : Line) :
    Books stays [] (r.claimed env l).1 := by
  rcases claimed_cases env r l with ⟨orphans, owner, -, heq⟩ | ⟨-, ⟨-, heq⟩ | hclaim⟩
  · rw [heq]
    exact h.perm (.refl _) rfl rfl rfl
  · rw [heq]
    exact h
  · exact h.claim hnone hclaim

theorem noteServerLine (h : Books stays [] r) (env : Env) (l : Line) :
    Books stays [] (r.noteServerLine env l).1 := by
  have hmodes := h.noteModes env l
  unfold Router.noteServerLine
  dsimp only
  split
  · rename_i hnone
    exact hmodes.claimed hnone env l
  · rename_i q wants hsettle
    apply releaseWaiting
    split
    · exact hmodes.trailed hsettle
    · exact hmodes.unsettle.claimed rfl env l

end Books

end Lines

namespace Books

variable {stays : Nat → Prop} {hand : List Query} {r : Router} {q : Query}

theorem settleTimeout (h : Books stays [] r) (env : Env) : Books stays [] (r.settleTimeout env) := by
  unfold Router.settleTimeout
  split
  · exact h.unsettle.releaseWaiting env
  · exact h

/-- A query that heard nothing for too long is over. -/
theorem overdue (h : Books stays [] r) (hq : q ∈ r.wire) (orphans : OrderedMap Str (Option Asker)) :
    Books stays [] (({ r.takeOffWire q.id with orphanBatches := orphans } : Router).note
      (Router.abortOf q ++ [.ended q.id .timeout])) := by
  have hoff : Books stays [q] { r.takeOffWire q.id with orphanBatches := orphans } :=
    (h.takeOff hq).perm (.refl _) rfl rfl rfl
  refine hoff.close (fun o ho => ?_) fun q₀ hq₀ hof => .of_told hof ?_
  · rcases List.mem_append.mp ho with ho | ho
    · exact abortOf_id ho
    · rw [List.mem_singleton.mp ho]
      rfl
  · rw [life_append, life_abortOf]
    simp only [life, Out.id, Out.mark, List.filterMap_cons, List.filterMap_nil, ↓reduceIte,
      toldLives, List.mem_cons, true_or, or_true]

theorem timeout (h : Books stays [] r) (env : Env) (id : Nat) :
    Books stays [] (r.timeout env id) := by
  unfold Router.timeout
  split
  · exact h
  · rename_i q hfind
    have hcond := List.find?_some hfind
    simp only [Bool.and_eq_true, decide_eq_true_eq] at hcond
    rw [← hcond.1]
    exact (h.overdue (List.mem_of_find?_eq_some hfind) _).releaseWaiting env

/-- All in hand are over. -/
theorem closeAll (f : Query → List Out) (hf : ∀ q, ∀ o ∈ f q, o.id = some q.id) (l : List Query)
    (h : Books stays (l ++ hand) r)
    (hover : ∀ q ∈ l, ∀ q₀ ∈ r.asked, Asked stays q₀ q → Over stays q₀ (life (f q) q.id)) :
    Books stays hand (r.note (l.flatMap f)) := by
  induction l generalizing r with
  | nil =>
    have hsame : r.note [] = r := by simp only [Router.note, List.append_nil]
    rw [List.flatMap_nil, hsame]
    exact h
  | cons q l ih =>
    have hrest := ih (h.close (hf q) (hover q List.mem_cons_self))
      fun x hx => hover x (List.mem_cons_of_mem _ hx)
    simpa only [List.flatMap_cons, Router.note, List.append_assoc] using hrest

theorem life_gone (q : Query) : life (Router.abortOf q ++ [.gone q.id]) q.id = Told q ++ [.gone] := by
  rw [life_append, life_abortOf]
  simp only [life, Out.id, Out.mark, List.filterMap_cons, List.filterMap_nil, ↓reduceIte]

theorem gone_id {o : Out} (ho : o ∈ Router.abortOf q ++ [.gone q.id]) : o.id = some q.id := by
  rcases List.mem_append.mp ho with ho | ho
  · exact abortOf_id ho
  · rw [List.mem_singleton.mp ho]
    rfl

/-- The query owed a line is over with its socket. -/
theorem goneSettle (h : Books stays hand r) :
    Books stays hand { r.note ((r.settle.map Prod.fst).toList.flatMap fun q =>
      Router.abortOf q ++ [.gone q.id]) with settle := none } := by
  cases hsettle : r.settle with
  | none =>
    simpa only [Option.map_none, Option.toList_none, List.flatMap_nil, Router.note, List.append_nil]
      using h.unsettle
  | some owed =>
    obtain ⟨q, wants⟩ := owed
    simp only [Option.map_some, Option.toList_some, List.flatMap_cons, List.flatMap_nil,
      List.append_nil]
    refine h.settled hsettle _ (fun o ho => gone_id ho) fun q₀ hq₀ hof hended => ?_
    rw [life_gone]
    rcases hended with hended | ⟨hended, habort⟩
    · rw [hended]
      exact .of_told hof (by
        simp only [toldLives, List.cons_append, List.nil_append, List.mem_cons, true_or, or_true])
    · have hquiet : Told q = [] := by
        simp only [Told, habort, Option.isSome_none, Bool.and_false, Bool.false_eq_true, ↓reduceIte]
      rw [hended, hquiet]
      exact .of_quiet (hof.abort ▸ habort)
        (by simp only [quietLives, List.singleton_append, List.nil_append, List.mem_cons, true_or,
          or_true])

theorem reset (h : Books stays [] r) : Books stays [] r.reset := by
  have hquiet := h.quiet_of ((r.wire.filter (!·.sent)).flatMap fun q => [.cancelled q.id, .dropped q.id])
    (fun o ho => by
      obtain ⟨q, -, ho⟩ := List.mem_flatMap.mp ho
      rcases List.mem_cons.mp ho with rfl | ho
      · rfl
      · rw [List.mem_singleton.mp ho]
        rfl)
    (fun o ho => by
      obtain ⟨q, hq, ho⟩ := List.mem_flatMap.mp ho
      refine ⟨q, mem_wire (List.mem_of_mem_filter hq), ?_⟩
      rcases List.mem_cons.mp ho with rfl | ho
      · rfl
      · rw [List.mem_singleton.mp ho]
        rfl)
  have hsettled := hquiet.goneSettle
  have hhand : Books stays ((r.wire ++ r.waiting) ++ []) { r.reset with
      log := r.log ++ ((r.wire.filter (!·.sent)).flatMap fun q => [.cancelled q.id, .dropped q.id]) ++
        (r.settle.map Prod.fst).toList.flatMap fun q => Router.abortOf q ++ [.gone q.id] } := by
    refine hsettled.perm ?_ rfl rfl rfl
    simp only [heldWith, Router.reset, Router.note, List.nil_append, List.append_nil]
    exact .refl _
  have hall := closeAll (fun q => Router.abortOf q ++ [.gone q.id]) (fun q o ho => gone_id ho)
    (r.wire ++ r.waiting) hhand fun q _ q₀ _ hof => by
      rw [life_gone]
      exact .of_told hof (by simp only [toldLives, List.mem_cons, true_or, or_true])
  refine hall.perm (.refl _) rfl rfl ?_
  simp only [Router.reset, Router.note, List.flatMap_append, List.append_assoc]

/-- A query of a client that does not stay is known by what it was, with nobody to tell. -/
theorem same_orphan {c : Nat} (hc : ¬ stays c) (q : Query) :
    Same stays q (Router.orphan c q) := by
  unfold Router.orphan
  split
  · rename_i hits
    refine ⟨rfl, rfl, rfl, .inr ⟨rfl, fun d hd => ?_⟩⟩
    rw [show q.asker = some (.client c) from of_decide_eq_true hits] at hd
    rw [← Asker.client.inj (Option.some.inj hd)]
    exact hc
  · exact .refl q

/-- The queries of a client that does not stay may be withdrawn. -/
theorem over_withdrawn {c : Nat} (hc : ¬ stays c) {q₀ : Query} (hof : Asked stays q₀ q)
    (hits : Router.isOf c q = true) : Over stays q₀ [.withdrawn] := by
  refine .of_gone (fun d hd => ?_) (by simp only [quietLives, List.mem_cons, true_or, or_true])
  have hasker : q.asker = some (.client c) := of_decide_eq_true hits
  rcases hof.asker with hsame | ⟨-, hnot⟩
  · rw [hasker, hd] at hsame
    rw [← Asker.client.inj (Option.some.inj hsame)]
    exact hc
  · exact hnot d hd

/-- What a client that does not stay asked is heard by nobody. -/
theorem detach (h : Books stays [] r) {c : Nat} (hc : ¬ stays c) :
    Books stays [] { r with
      wire := r.wire.map (Router.orphan c)
      settle := r.settle.map fun (q, wants) => (Router.orphan c q, wants) } := by
  have hid : ∀ q, (Router.orphan c q).id = q.id := fun q => (same_orphan hc q).id
  refine h.moved ?_ (fun x hx => ?_) (fun x w hx => ?_) (fun hnone => ?_) rfl rfl
  · simp only [heldWith, List.map_append, List.map_map, Function.comp_def, hid]
    exact .refl _
  · simp only [heldWith, List.append_nil] at hx ⊢
    rcases List.mem_append.mp hx with hx | hx
    · obtain ⟨q, hq, rfl⟩ := List.mem_map.mp hx
      exact ⟨q, List.mem_append_left _ hq, same_orphan hc q⟩
    · exact ⟨x, List.mem_append_right _ hx, .refl x⟩
  · obtain ⟨⟨q, wants⟩, hq, heq⟩ := Option.map_eq_some_iff.mp hx
    obtain ⟨rfl, rfl⟩ := Prod.mk.inj heq
    exact ⟨q, hq, same_orphan hc q⟩
  · exact Option.map_eq_none_iff.mp hnone

theorem withdraw (h : Books stays [] r) {c : Nat} (hc : ¬ stays c) :
    Books stays [] (r.withdraw c) := by
  have hhand : Books stays (r.waiting.filter (Router.isOf c) ++
      ((r.wire.filter fun q => Router.isOf c q && !q.sent) ++ [])) { r with
        waiting := r.waiting.filter (!Router.isOf c ·)
        wire := r.wire.filter fun q => !(Router.isOf c q && !q.sent) } := by
    refine h.perm ?_ rfl rfl rfl
    have hwire := List.filter_append_perm (fun q => !(Router.isOf c q && !q.sent)) r.wire
    have hwaiting := List.filter_append_perm (fun q => !Router.isOf c q) r.waiting
    simp only [Bool.not_not] at hwire hwaiting
    simp only [heldWith, List.append_nil]
    exact (List.Perm.append_left _ List.perm_append_comm).trans
      ((perm_cross _ _ _ _).trans (hwire.append hwaiting))
  have haway := closeAll (fun q => [.withdrawn q.id]) (fun q o ho => by
    rw [List.mem_singleton.mp ho]
    rfl) _ hhand fun q hq q₀ _ hof => by
      have hlife : life [.withdrawn q.id] q.id = [.withdrawn] := by
        simp only [life, Out.id, Out.mark, List.filterMap_cons, List.filterMap_nil, ↓reduceIte]
      rw [hlife]
      exact over_withdrawn hc hof (List.mem_filter.mp hq).2
  have hunsent := closeAll (fun q => [.cancelled q.id, .withdrawn q.id]) (fun q o ho => by
    rcases List.mem_cons.mp ho with rfl | ho
    · rfl
    · rw [List.mem_singleton.mp ho]
      rfl) _ haway fun q hq q₀ _ hof => by
      have hlife : life [.cancelled q.id, .withdrawn q.id] q.id = [.withdrawn] := by
        simp only [life, Out.id, Out.mark, List.filterMap_cons, List.filterMap_nil, ↓reduceIte]
      rw [hlife]
      exact over_withdrawn hc hof (Bool.and_eq_true_iff.mp (List.mem_filter.mp hq).2).1
  have hgone := hunsent.detach hc
  simp only [Router.note, List.append_assoc] at hgone
  exact hgone

theorem dropClient (h : Books stays [] r) (env : Env) {c : Nat} (hc : ¬ stays c) :
    Books stays [] (r.dropClient env c) := by
  unfold Router.dropClient
  split
  · exact (h.withdraw hc).releaseWaiting env
  · exact h.withdraw hc

theorem wentOut (h : Books stays [] r) (id : Nat) : Books stays [] (r.wentOut id) := by
  unfold Router.wentOut
  split
  · rename_i q hfind
    exact h.markSent (List.mem_of_find?_eq_some hfind)
  · exact h

/-- A query is made. -/
theorem ask (h : Books stays [] r) (hid : q.id = r.asked.length) (hfits : Fits q.toSpec) :
    Books stays [q] { r with asked := r.asked ++ [q] } := by
  have hmore : ∀ x : Query, (∃ q₀ ∈ r.asked, Asked stays q₀ x) →
      ∃ q₀ ∈ r.asked ++ [q], Asked stays q₀ x := by
    rintro x ⟨q₀, hq₀, hof⟩
    exact ⟨q₀, List.mem_append_left _ hq₀, hof⟩
  have hnew : ∀ x : Query, (∃ q₀ ∈ r.asked, Asked stays q₀ x) → x.id ≠ q.id := by
    rintro x ⟨q₀, hq₀, hof⟩ heq
    have hlt := h.asked_lt hq₀
    rw [← hof.id, heq, hid] at hlt
    omega
  have hlife : life r.log q.id = [] := by
    apply life_other
    intro o ho heq
    have hlt := h.known o ho q.id heq
    omega
  have hheld : heldWith { r with asked := r.asked ++ [q] } [q] = heldWith r [] ++ [q] := by
    simp only [heldWith, List.append_nil]
  refine ⟨?_, fun x hx => ?_, fun x w hx => ?_, fun x hx hnot hset => ?_, fun x hx => ?_,
    fun o ho id hof => ?_, fun x hx => ?_⟩
  · rw [hheld, List.map_append, List.nodup_append]
    refine ⟨h.nodup, List.nodup_singleton _, fun i hi j hj heq => ?_⟩
    obtain ⟨x, hx, rfl⟩ := List.mem_map.mp hi
    rw [List.map_singleton, List.mem_singleton] at hj
    exact hnew x (h.held x hx).1 (heq.trans hj)
  · rw [hheld] at hx
    rcases List.mem_append.mp hx with hx | hx
    · exact ⟨hmore x (h.held x hx).1, (h.held x hx).2⟩
    · rw [List.mem_singleton.mp hx]
      exact ⟨⟨q, List.mem_append_right _ List.mem_cons_self, rfl, rfl, rfl, .inl rfl⟩, hlife⟩
  · obtain ⟨hof, hapart, hended⟩ := h.owed x w hx
    refine ⟨hmore x hof, fun y hy => ?_, hended⟩
    rw [hheld] at hy
    rcases List.mem_append.mp hy with hy | hy
    · exact hapart y hy
    · rw [List.mem_singleton.mp hy]
      exact (hnew x hof).symm
  · rw [hheld] at hnot
    rcases List.mem_append.mp hx with hx | hx
    · exact h.closed x hx (fun y hy => hnot y (List.mem_append_left _ hy)) hset
    · rw [List.mem_singleton.mp hx] at hnot
      exact absurd rfl (hnot q (List.mem_append_right _ List.mem_cons_self))
  · rcases List.mem_append.mp hx with hx | hx
    · rw [List.getElem?_append_left (h.asked_lt hx)]
      exact h.numbered x hx
    · rw [List.mem_singleton.mp hx, hid]
      exact List.getElem?_concat_length
  · have hlt := h.known o ho id hof
    rw [List.length_append]
    omega
  · rcases List.mem_append.mp hx with hx | hx
    · exact h.fits x hx
    · rw [List.mem_singleton.mp hx]
      exact hfits

end Books

namespace Books

variable {stays : Nat → Prop} {r : Router}

theorem send (h : Books stays [] r) (env : Env) (asker : Asker) (line : Str) :
    Books stays [] (r.send env asker line) := by
  unfold Router.send
  split
  · refine h.note_quiet fun o ho => ?_
    rw [List.mem_singleton.mp ho]
    exact ⟨rfl, fun id hid => (nomatch hid)⟩
  · rename_i found hfound
    exact (h.ask rfl (classify_new hfound).fits).dispatch env

theorem init (stays : Nat → Prop) : Books stays [] newRouter := by
  refine ⟨List.nodup_nil, ?_, fun _ _ h => (nomatch h), ?_, ?_, ?_, ?_⟩
  all_goals exact fun _ h => absurd h List.not_mem_nil

/-- No client that stays detaches. -/
def Stays (stays : Nat → Prop) (_ : Router) (e : Env × Event) : Prop :=
  ∀ c, e.2 = .dropClient c → ¬ stays c

theorem step (h : Books stays [] r) (e : Env × Event) (hstays : Stays stays r e) :
    Books stays [] (r.step e) := by
  obtain ⟨env, e⟩ := e
  cases e with
  | send asker line => exact h.send env asker line
  | went id => exact h.wentOut id
  | line l => exact h.noteServerLine env l
  | settleTimeout => exact h.settleTimeout env
  | timeout id => exact h.timeout env id
  | reset => exact h.reset
  | dropClient c => exact h.dropClient env (hstays c rfl)

theorem run {es : List (Env × Event)}
    (hstays : Run.Within Router.step (Stays stays) newRouter es) :
    Books stays [] (Run.after Router.step newRouter es) :=
  Run.invariant_within _ (.init stays) (fun _ e h hs => h.step e hs) es hstays

end Books

/-- A network that folds as ASCII does, with nothing ahead of a line in the queue. -/
def sampleEnv : Env where
  fold := List.map Char.toLower
  isJoined _ := true
  ownNick := "me".toList
  listModes := ['b']
  prefixModes := ['o']
  canSend := true
  goes _ := true
  parse line := some ((line.splitOn ' ').headD [], (line.splitOn ' ').drop 1)
  upper := List.map Char.toUpper

def asks (client : Nat) (line : String) : Env × Event :=
  (sampleEnv, .send (.client client) line.toList)

def hearsLine (command : String) (params : List String) : Env × Event :=
  (sampleEnv, .line ⟨command.toList, command.toList, params.map String.toList, none⟩)

/-- The state a run leads to. -/
def reached (es : List (Env × Event)) : Router := Run.after Router.step newRouter es

/-- No query is lost and none ends twice: each is in one place, with nothing said of it while it
is on the wire or waits, or it is over, and its log is one of a few words. -/
theorem lives (es : List (Env × Event)) :
    (((reached es).wire ++ (reached es).waiting).map (·.id)).Nodup ∧
      ∀ q₀ ∈ (reached es).asked,
        (∃ q ∈ (reached es).wire ++ (reached es).waiting, q.id = q₀.id ∧
          life (reached es).log q₀.id = []) ∨
        (∃ q wants, (reached es).settle = some (q, wants) ∧ q.id = q₀.id ∧
          (life (reached es).log q₀.id = [.ended .error] ∨
            life (reached es).log q₀.id = [.ended .replied])) ∨
        ∃ told, (told = [] ∨ told = [.aborted]) ∧
          life (reached es).log q₀.id ∈ toldLives told ++ quietLives := by
  have hbooks : Books (fun _ => False) [] (reached es) := by
    apply Books.run
    exact Run.within_of_after _ fun _ _ _ _ _ _ hfalse => hfalse
  have hall : heldWith (reached es) [] = (reached es).wire ++ (reached es).waiting := by
    simp only [heldWith, List.append_nil]
  refine ⟨hall ▸ hbooks.nodup, fun q₀ hq₀ => ?_⟩
  by_cases hheld : ∃ q ∈ heldWith (reached es) [], q.id = q₀.id
  · obtain ⟨q, hq, hid⟩ := hheld
    exact .inl ⟨q, hall ▸ hq, hid, hid ▸ (hbooks.held q hq).2⟩
  by_cases howed : ∃ q wants, (reached es).settle = some (q, wants) ∧ q.id = q₀.id
  · obtain ⟨q, wants, hsettle, hid⟩ := howed
    refine .inr (.inl ⟨q, wants, hsettle, hid, ?_⟩)
    rw [← hid]
    exact (hbooks.owed q wants hsettle).2.2.imp id And.left
  · refine .inr (.inr (hbooks.closed q₀ hq₀ (fun x hx hid => hheld ⟨x, hx, hid⟩) ?_).word)
    exact fun q wants hsettle hid => howed ⟨q, wants, hsettle, hid⟩

/-- A client that stays is told once of the end of each query that has an end numeric: by that
numeric, by an error, which its end numeric may follow, or by the router. -/
theorem told_once {c : Nat} {es : List (Env × Event)}
    (hstays : ∀ e ∈ es, e.2 ≠ .dropClient c) {q₀ : Query} (hq₀ : q₀ ∈ (reached es).asked)
    (hclient : q₀.asker = some (.client c)) (habort : q₀.abort ≠ none)
    (hheld : ∀ q ∈ (reached es).wire ++ (reached es).waiting, q.id ≠ q₀.id)
    (howed : ∀ q wants, (reached es).settle = some (q, wants) → q.id ≠ q₀.id) :
    life (reached es).log q₀.id ∈
      [[.ended .replied], [.ended .error], [.ended .error, .trailed], [.aborted, .ended .error],
        [.aborted, .ended .timeout], [.aborted, .gone], [.ended .error, .aborted, .gone]] := by
  have hbooks : Books (· = c) [] (reached es) := by
    apply Books.run
    apply Run.within_of_after _
    rintro es' e es'' rfl d hdrop rfl
    exact hstays e (List.mem_append_right _ List.mem_cons_self) hdrop
  refine (hbooks.closed q₀ hq₀ (fun x hx => hheld x ?_) howed).client c hclient rfl habort
  simpa only [heldWith, List.append_nil] using hx

/-- A WHOIS ended by an error, with its end numeric after it. -/
def whoisRun : List (Env × Event) :=
  [asks 1 "WHOIS bob", hearsLine "401" ["me", "bob"], hearsLine "318" ["me", "bob"]]

def whoisBob : Query :=
  { spec .whois "WHOIS".toList with
    targets := ["bob".toList, "bob".toList]
    ends := ["bob".toList, "bob".toList]
    abort := some ("318".toList, ["bob".toList])
    id := 0
    asker := some (.client 1)
    line := "WHOIS bob".toList
    started := false
    sent := false }

theorem told_once_sample : life (reached whoisRun).log whoisBob.id ∈
    [[.ended .replied], [.ended .error], [.ended .error, .trailed], [.aborted, .ended .error],
      [.aborted, .ended .timeout], [.aborted, .gone], [.ended .error, .aborted, .gone]] :=
  told_once (c := 1) (by simp [whoisRun, asks, hearsLine]) (by decide +kernel) rfl
    (fun h => nomatch h) (by decide +kernel) fun q wants hsettle => by
      rw [show (reached whoisRun).settle = none by decide +kernel] at hsettle
      cases hsettle

end Lurker.Replies
