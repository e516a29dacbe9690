import Mathlib.Data.List.Induction

/-!
# Runs of event-driven systems

A system is a total step function over states and events; a run folds it over
a list of events. An invariant is proved once per step and carried to every
run by the rules below, also along runs whose steps all meet a condition on
the event and the state it finds.
-/

namespace Run

variable {σ ε : Type*} (step : σ → ε → σ)

/-- The state a list of events leads to. -/
def after (s : σ) (es : List ε) : σ := es.foldl step s

@[simp] theorem after_nil (s : σ) : after step s [] = s := rfl

theorem after_cons (s : σ) (e : ε) (es : List ε) :
    after step s (e :: es) = after step (step s e) es := rfl

theorem after_append (s : σ) (es es' : List ε) :
    after step s (es ++ es') = after step (after step s es) es' :=
  List.foldl_append

@[simp] theorem after_concat (s : σ) (es : List ε) (e : ε) :
    after step s (es ++ [e]) = step (after step s es) e := by
  simp [after, List.foldl_append]

/-- A view of the state that steps by itself follows its own run. -/
theorem after_view {τ : Type*} {step' : τ → ε → τ} {view : σ → τ}
    (h : ∀ s e, view (step s e) = step' (view s) e) (s : σ) (es : List ε) :
    view (after step s es) = after step' (view s) es := by
  induction es generalizing s with
  | nil => rfl
  | cons e es ih =>
    change view (after step (step s e) es) = after step' (step' (view s) e) es
    rw [ih, h]

/-- Every step of the run meets `cond` in the state it starts from. -/
def Within (cond : σ → ε → Prop) (s : σ) : List ε → Prop
  | [] => True
  | e :: es => cond s e ∧ Within cond (step s e) es

instance decidableWithin {cond : σ → ε → Prop} [∀ s e, Decidable (cond s e)] :
    ∀ s es, Decidable (Within step cond s es)
  | _, [] => .isTrue trivial
  | s, e :: es =>
    have : Decidable (Within step cond (step s e) es) := decidableWithin (step s e) es
    inferInstanceAs (Decidable (cond s e ∧ _))

theorem within_append {cond : σ → ε → Prop} {s : σ} {es es' : List ε} :
    Within step cond s (es ++ es') ↔ Within step cond s es ∧ Within step cond (after step s es) es' := by
  induction es generalizing s with
  | nil => simp [Within, after]
  | cons d ds ih => simp [Within, ih, after, and_assoc]

theorem within_concat {cond : σ → ε → Prop} {s : σ} {es : List ε} {e : ε} :
    Within step cond s (es ++ [e]) ↔ Within step cond s es ∧ cond (after step s es) e := by
  rw [within_append]
  exact and_congr_right fun _ => and_iff_left trivial

/-- A run stays within a condition that each of its steps meets where it is taken. -/
theorem within_of_after {cond : σ → ε → Prop} {s : σ} {es : List ε}
    (h : ∀ es' e es'', es = es' ++ e :: es'' → cond (after step s es') e) : Within step cond s es := by
  induction es generalizing s with
  | nil => trivial
  | cons d ds ih =>
    refine ⟨h [] d ds rfl, ih (fun es' e es'' he => ?_)⟩
    exact h (d :: es') e es'' (by rw [he]; rfl)

/-- An invariant of every step holds after every run. -/
theorem invariant {P : σ → Prop} {s : σ} (hinit : P s) (hstep : ∀ s e, P s → P (step s e))
    (es : List ε) : P (after step s es) := by
  induction es using List.reverseRecOn with
  | nil => exact hinit
  | append_singleton es e ih => rw [after_concat]; exact hstep _ _ ih

/-- An invariant of every step that meets a condition holds after every run
whose steps all meet it. -/
theorem invariant_within {cond : σ → ε → Prop} {P : σ → Prop} {s : σ} (hinit : P s)
    (hstep : ∀ s e, P s → cond s e → P (step s e)) (es : List ε)
    (hrun : Within step cond s es) : P (after step s es) := by
  induction es using List.reverseRecOn with
  | nil => exact hinit
  | append_singleton es e ih =>
      obtain ⟨hes, he⟩ := (within_concat step).mp hrun
      rw [after_concat]
      exact hstep _ _ (ih hes) he

/-- Events that each lessen a measure, until a goal is reached, reach it. -/
theorem exists_run {β : Type*} {r : β → β → Prop} (hwf : WellFounded r) (μ : σ → β) {R : ε → Prop}
    {P Q : σ → Prop}
    (hstep : ∀ s, P s → ¬ Q s → ∃ e, R e ∧ P (step s e) ∧ r (μ (step s e)) (μ s)) (s : σ)
    (hs : P s) : ∃ es, (∀ e ∈ es, R e) ∧ P (after step s es) ∧ Q (after step s es) := by
  induction hm : μ s using hwf.induction generalizing s with
  | _ m ih =>
    by_cases hgoal : Q s
    · exact ⟨[], fun e he => absurd he List.not_mem_nil, hs, hgoal⟩
    · obtain ⟨e, hallowed, hnext, hless⟩ := hstep s hs hgoal
      obtain ⟨es, hall, hreached⟩ := ih _ (hm ▸ hless) (step s e) hnext rfl
      refine ⟨e :: es, fun d hd => ?_, hreached⟩
      rcases List.mem_cons.mp hd with rfl | hd
      · exact hallowed
      · exact hall d hd

/-- An event that lessens a measure until a goal is reached, repeated often enough, reaches it. -/
theorem exists_after {β : Type*} {r : β → β → Prop} (hwf : WellFounded r) (μ : σ → β) (e : ε)
    {P Q : σ → Prop} (hstep : ∀ s, P s → ¬ Q s → P (step s e) ∧ r (μ (step s e)) (μ s)) (s : σ)
    (hs : P s) :
    ∃ n, P (after step s (List.replicate n e)) ∧ Q (after step s (List.replicate n e)) := by
  obtain ⟨es, hall, hreached⟩ := exists_run step hwf μ (R := (· = e))
    (fun s hs hgoal => ⟨e, rfl, hstep s hs hgoal⟩) s hs
  rw [List.eq_replicate_of_mem hall] at hreached
  exact ⟨es.length, hreached⟩

end Run
