import Lurker.Replies.Turns

/-!
# Nothing waits forever

What happened before, the send queue's going on writing and the clock's going on running out are
enough to end every query made: none waits for one that never comes to an end.
-/

namespace Lurker.Replies

open Irc (Str)
open Irc.History (QueryEnd)

attribute [local instance] Irc.str_lawfulBEq

/-- What is left of the queries held: a line to write for each not sent, an end for each. -/
def Router.work (r : Router) : Nat :=
  r.wire.length + r.wire.countP (!·.sent) + 2 * r.waiting.length +
    (r.settle.map Prod.fst).toList.length

section Work

variable (env : Env) (r : Router) (q : Query)

theorem work_note (outs : List Out) : (r.note outs).work = r.work := rfl

theorem work_dispatchNow : (r.dispatchNow env q).work ≤ r.work + 2 := by
  unfold Router.dispatchNow
  split
  · simp only [Router.work, List.length_append, List.length_singleton]
    omega
  · split
    · rw [work_note]
      omega
    · dsimp only
      have hone : [q].countP (!·.sent) ≤ 1 := List.countP_le_length
      split
      · have hkept : ((r.wire ++ [q]).filter (·.id ≠ q.id)).Sublist r.wire := by
          rw [List.filter_append, List.filter_cons_of_neg (by simp), List.filter_nil,
            List.append_nil]
          exact List.filter_sublist
        have hlength := hkept.length_le
        have hcount := hkept.countP_le (p := fun x => !x.sent)
        simp only [Router.work, Router.markSent, Router.note, List.length_append,
          List.length_singleton, List.countP_append, List.countP_singleton, Bool.not_true,
          Bool.false_eq_true, ↓reduceIte] at hlength hcount ⊢
        omega
      · simp only [Router.work, Router.note, List.length_append, List.length_singleton,
          List.countP_append]
        omega

theorem work_dispatchAll (l : List Query) (r : Router) :
    (l.foldl (fun r q => r.dispatchNow env q) r).work ≤ r.work + 2 * l.length := by
  induction l generalizing r with
  | nil => exact le_rfl
  | cons q l ih =>
    have hrest := ih (r.dispatchNow env q)
    have hfirst := work_dispatchNow env r q
    rw [List.foldl_cons, List.length_cons]
    omega

/-- What steps aside is not written, so it comes back for what it leaves. -/
theorem work_stepAside :
    ({ r with wire := r.wire.filter (!Router.stepsAside env q ·) } : Router).work +
      2 * (r.wire.filter (Router.stepsAside env q)).length = r.work := by
  have hlength := List.length_eq_length_filter_add (l := r.wire) (Router.stepsAside env q)
  have hcount := List.countP_eq_countP_filter_add r.wire (!·.sent) (Router.stepsAside env q)
  have hall : (r.wire.filter (Router.stepsAside env q)).countP (!·.sent) =
      (r.wire.filter (Router.stepsAside env q)).length := by
    apply List.countP_eq_length.mpr
    intro x hx
    have hsteps := (List.mem_filter.mp hx).2
    simp only [Router.stepsAside, Bool.and_eq_true] at hsteps
    exact hsteps.2.1.1
  simp only [Router.work]
  omega

theorem work_dispatch : (r.dispatch env q).work ≤ r.work + 2 := by
  unfold Router.dispatch
  split
  · rw [work_note]
    omega
  · split
    · rw [work_note]
      omega
    · dsimp only
      have haside := work_stepAside env r q
      have hnow := work_dispatchNow env (({ r with
        wire := r.wire.filter (!Router.stepsAside env q ·) } : Router).note
          ((r.wire.filter (Router.stepsAside env q)).map (.cancelled ·.id))) q
      have hall := work_dispatchAll env (r.wire.filter (Router.stepsAside env q))
        ((({ r with wire := r.wire.filter (!Router.stepsAside env q ·) } : Router).note
          ((r.wire.filter (Router.stepsAside env q)).map (.cancelled ·.id))).dispatchNow env q)
      rw [work_note] at hnow
      omega

theorem work_releaseWaiting : (r.releaseWaiting env).work ≤ r.work := by
  have hall : ∀ (l : List Query) (r : Router),
      (l.foldl (fun r q => r.dispatch env q) r).work ≤ r.work + 2 * l.length := by
    intro l
    induction l with
    | nil => exact fun _ => le_rfl
    | cons q l ih =>
      intro r
      have hrest := ih (r.dispatch env q)
      have hfirst := work_dispatch env r q
      rw [List.foldl_cons, List.length_cons]
      omega
  have hreleased := hall r.waiting { r with waiting := [] }
  simp only [Router.work, List.length_nil] at hreleased ⊢
  exact hreleased.trans (by omega)

end Work

/-- What the send queue and the clock do by themselves. -/
def Ticks (env : Env) (e : Env × Event) : Prop :=
  e.1 = env ∧ (e.2 = .settleTimeout ∨ ∃ id, e.2 = .went id ∨ e.2 = .timeout id)

section Tick

variable {env : Env} {r : Router} {q : Query} {stays : Nat → Prop}

theorem work_settleTimeout (hsettle : r.settle ≠ none) :
    (r.settleTimeout env).work < r.work := by
  have hsome := Option.isSome_iff_ne_none.mpr hsettle
  have hrelease := work_releaseWaiting env { r with settle := none }
  unfold Router.settleTimeout
  rw [if_pos hsome]
  obtain ⟨owed, howed⟩ := Option.ne_none_iff_exists'.mp hsettle
  simp only [Router.work, howed, Option.map_none, Option.map_some, Option.toList_none,
    Option.toList_some, List.length_nil, List.length_singleton] at hrelease ⊢
  omega

theorem work_wentOut (hb : Books stays [] r) (hq : q ∈ r.wire) (hsent : q.sent = false) :
    (r.wentOut q.id).work < r.work := by
  have hfound : ∃ x, r.wire.find? (fun x => x.id = q.id && !x.sent) = some x := by
    apply Option.isSome_iff_exists.mp
    apply List.find?_isSome.mpr
    exact ⟨q, hq, by simp only [decide_true, hsent, Bool.not_false, Bool.and_self]⟩
  obtain ⟨x, hfind⟩ := hfound
  have hx := List.mem_of_find?_eq_some hfind
  have hcond := List.find?_some hfind
  have hunsent := (Bool.and_eq_true_iff.mp hcond).2
  have hperm := perm_takeOff hb.wire_nodup hx
  have hlength := hperm.length_eq
  have hcount := hperm.countP_eq (!·.sent)
  unfold Router.wentOut
  rw [hfind]
  simp only [Router.work, Router.markSent, List.length_append, List.length_singleton,
    List.countP_append, List.countP_singleton, hunsent, Bool.not_true, Bool.false_eq_true,
    ↓reduceIte] at hlength hcount ⊢
  omega

theorem work_timeout (hq : q ∈ r.wire) (hsent : q.sent = true) :
    (r.timeout env q.id).work < r.work := by
  have hfound : ∃ x, r.wire.find? (fun x => x.id = q.id && x.sent) = some x := by
    apply Option.isSome_iff_exists.mp
    apply List.find?_isSome.mpr
    exact ⟨q, hq, by simp only [decide_true, hsent, Bool.and_self]⟩
  obtain ⟨x, hfind⟩ := hfound
  have hkept : (r.wire.filter (·.id ≠ q.id)).Sublist r.wire := List.filter_sublist
  have hless : (r.wire.filter (·.id ≠ q.id)).length < r.wire.length := by
    apply List.length_filter_lt_length_iff_exists.mpr
    exact ⟨q, hq, by simp only [ne_eq, not_true_eq_false, decide_false, Bool.false_eq_true,
      not_false_eq_true]⟩
  have hcount := hkept.countP_le (p := fun x => !x.sent)
  unfold Router.timeout
  rw [hfind]
  refine lt_of_le_of_lt (work_releaseWaiting env _) ?_
  simp only [Router.work, Router.takeOffWire, Router.note]
  omega

/-- While anything is out, owed or waits, something can end. -/
theorem exists_tick (hb : Books (fun _ => False) [] r)
    (h : Turns env (fun _ => False) r) (hbusy : ¬ r.Idle) :
    ∃ e, Ticks env e ∧ (r.step e).work < r.work := by
  by_cases hsettle : r.settle = none
  · by_cases hwire : r.wire = []
    · -- With nothing ahead, nothing waits.
      refine absurd ⟨hwire, hsettle, ?_⟩ hbusy
      apply List.eq_nil_iff_forall_not_mem.mpr
      intro w hw
      obtain ⟨o, ho, -⟩ := (h.behind w hw).resolve_left id
      simp only [Router.ahead, hwire, hsettle, Option.map_none, Option.toList_none, List.append_nil,
        List.not_mem_nil] at ho
    · obtain ⟨q, hq⟩ := List.exists_mem_of_ne_nil _ hwire
      cases hsent : q.sent with
      | false => exact ⟨(env, .went q.id), ⟨rfl, .inr ⟨q.id, .inl rfl⟩⟩, work_wentOut hb hq hsent⟩
      | true => exact ⟨(env, .timeout q.id), ⟨rfl, .inr ⟨q.id, .inr rfl⟩⟩, work_timeout hq hsent⟩
  · exact ⟨(env, .settleTimeout), ⟨rfl, .inl rfl⟩, work_settleTimeout hsettle⟩

end Tick

/-- However a run went, nothing waits forever: the send queue and the clock alone bring every
query made to its end. -/
theorem drains {env : Env} {es : List (Env × Event)} (hsend : env.canSend = true)
    (hwrites : Run.Within Router.step (Turns.Writes env) newRouter es) :
    ∃ es', (∀ e ∈ es', Ticks env e) ∧ (reached (es ++ es')).Idle ∧
      ∀ q₀ ∈ (reached (es ++ es')).asked, life (reached (es ++ es')).log q₀.id ≠ [] := by
  have hrun := Run.invariant_within (P := fun r => Books (fun _ => False) [] r ∧
    Turns env (fun _ => False) r) Router.step ⟨.init _, Turns.of_idle ⟨rfl, rfl, rfl⟩⟩
    (fun r e h hw => ⟨h.1.step e fun _ _ hfalse => hfalse, h.2.step h.1 (.inr hw)⟩) es hwrites
  have hnext : ∀ r, Books (fun _ => False) [] r ∧ Turns env (fun _ => False) r → ¬ r.Idle →
      ∃ e, Ticks env e ∧ (Books (fun _ => False) [] (r.step e) ∧
        Turns env (fun _ => False) (r.step e)) ∧ (r.step e).work < r.work := by
    intro r h hbusy
    obtain ⟨e, htick, hless⟩ := exists_tick h.1 h.2 hbusy
    refine ⟨e, htick, ⟨h.1.step e fun _ _ hfalse => hfalse, h.2.step h.1 (.inr ?_)⟩, hless⟩
    exact .inr (.inr ⟨congrArg Env.fold htick.1, htick.1 ▸ hsend⟩)
  obtain ⟨es', hticks, -, hidle⟩ :=
    Run.exists_run Router.step wellFounded_lt Router.work hnext (reached es) hrun
  rw [reached, ← Run.after_append] at hidle
  refine ⟨es', hticks, hidle, fun q₀ hq₀ => ?_⟩
  rcases (lives (es ++ es')).2 q₀ hq₀ with ⟨q, hq, -⟩ | ⟨q, wants, hsettle, -⟩ | ⟨told, htold, hlife⟩
  · rw [reached, hidle.1, hidle.2.2] at hq
    cases hq
  · rw [reached, hidle.2.1] at hsettle
    cases hsettle
  · intro hempty
    rw [hempty] at hlife
    revert hlife
    rcases htold with rfl | rfl <;> decide

theorem drains_sample : ∃ es', (∀ e ∈ es', Ticks sampleEnv e) ∧
    (reached (whoRun ++ es')).Idle ∧
      ∀ q₀ ∈ (reached (whoRun ++ es')).asked, life (reached (whoRun ++ es')).log q₀.id ≠ [] :=
  drains rfl ⟨.inr (.inr ⟨rfl, rfl⟩), .inr (.inr ⟨rfl, rfl⟩), .inr (.inr ⟨rfl, rfl⟩), trivial⟩

end Lurker.Replies
