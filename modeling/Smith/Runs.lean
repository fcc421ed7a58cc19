import Mathlib

set_option autoImplicit false

/-!
# Runs of a step function

A run feeds a list of events to a step function. A guard is a condition on the
state before a step and on the event, and a guarded run meets it at every step.
-/
namespace Smith.Runs

variable {σ ε : Type}

def run (step : σ → ε → σ) (s : σ) (es : List ε) : σ := es.foldl step s

def Guarded (step : σ → ε → σ) (G : σ → ε → Prop) : σ → List ε → Prop
  | _, [] => True
  | s, e :: es => G s e ∧ Guarded step G (step s e) es

variable {step : σ → ε → σ} {G : σ → ε → Prop}

instance decidableGuarded [h : ∀ s e, Decidable (G s e)] :
    (s : σ) → (es : List ε) → Decidable (Guarded step G s es)
  | _, [] => isTrue trivial
  | s, e :: es => @instDecidableAnd _ _ (h s e) (decidableGuarded (step s e) es)

theorem run_append (s : σ) (xs ys : List ε) :
    run step s (xs ++ ys) = run step (run step s xs) ys :=
  List.foldl_append

theorem guarded_append (s : σ) (xs ys : List ε) : Guarded step G s (xs ++ ys) ↔
    Guarded step G s xs ∧ Guarded step G (run step s xs) ys := by
  induction xs generalizing s with
  | nil => exact (iff_of_eq (true_and _)).symm
  | cons e xs ih => exact (and_congr_right' (ih _)).trans and_assoc.symm

theorem guarded_snoc_iff {s : σ} {es : List ε} {e : ε} :
    Guarded step G s (es ++ [e]) ↔ Guarded step G s es ∧ G (run step s es) e :=
  (guarded_append s es [e]).trans (and_congr_right fun _ => and_iff_left trivial)

theorem guarded_snoc {s : σ} {es : List ε} {e : ε} (h : Guarded step G s es)
    (he : G (run step s es) e) : Guarded step G s (es ++ [e]) :=
  guarded_snoc_iff.mpr ⟨h, he⟩

theorem guarded_and {G H : σ → ε → Prop} {s : σ} {es : List ε} :
    Guarded step (fun s e => G s e ∧ H s e) s es ↔ Guarded step G s es ∧ Guarded step H s es := by
  induction es generalizing s with
  | nil => simp [Guarded]
  | cons e es ih =>
    simp only [Guarded, ih]
    exact and_and_and_comm

theorem guarded_of_forall {P : ε → Prop} (hG : ∀ s e, P e → G s e) (s : σ) {es : List ε}
    (h : ∀ e ∈ es, P e) : Guarded step G s es := by
  induction es generalizing s with
  | nil => trivial
  | cons e es ih =>
    exact ⟨hG s e (h e List.mem_cons_self), ih _ fun e' he => h e' (List.mem_cons_of_mem e he)⟩

/-- Two guards that agree wherever an invariant holds guard the same runs. -/
theorem guarded_congr {I : σ → Prop} {H : σ → ε → Prop} (hstep : ∀ s e, I s → I (step s e))
    (hiff : ∀ s e, I s → (G s e ↔ H s e)) {s : σ} (h0 : I s) (es : List ε) :
    Guarded step G s es ↔ Guarded step H s es := by
  induction es generalizing s with
  | nil => exact Iff.rfl
  | cons e es ih => exact and_congr (hiff s e h0) (ih (hstep s e h0))

/-- What holds at the start and survives every guarded step holds after the run. -/
theorem Guarded.invariant {I : σ → Prop} (hstep : ∀ s e, G s e → I s → I (step s e)) {s : σ}
    {es : List ε} (h : Guarded step G s es) (h0 : I s) : I (run step s es) := by
  induction es generalizing s with
  | nil => exact h0
  | cons e es ih => exact ih h.2 (hstep s e h.1 h0)

/-- Two step functions that agree wherever an invariant holds run alike. -/
theorem Guarded.run_congr {step' : σ → ε → σ} {I : σ → Prop}
    (hsame : ∀ s e, I s → step' s e = step s e) (hstep : ∀ s e, G s e → I s → I (step s e)) {s : σ}
    {es : List ε} (h : Guarded step' G s es) (h0 : I s) :
    run step' s es = run step s es ∧ Guarded step G s es := by
  induction es generalizing s with
  | nil => exact ⟨rfl, trivial⟩
  | cons e es ih =>
    have hnext := h.2
    rw [hsame s e h0] at hnext
    obtain ⟨hrun, hguard⟩ := ih hnext (hstep s e h.1 h0)
    refine ⟨?_, h.1, hguard⟩
    exact (congrArg (fun s => run step' s es) (hsame s e h0)).trans hrun

section Simulation
variable {τ ρ : Type}

def answers (step : σ → ε → σ × ρ) : σ → List ε → List ρ
  | _, [] => []
  | s, e :: es => (step s e).2 :: answers step (step s e).1 es

/-- Steps that answer alike and keep a relation give runs that do. -/
theorem simulates {R : σ → τ → Prop} {f : σ → ε → σ × ρ} {g : τ → ε → τ × ρ}
    (h : ∀ s t e, R s t → (f s e).2 = (g t e).2 ∧ R (f s e).1 (g t e).1) {s : σ} {t : τ}
    (hR : R s t) (es : List ε) :
    answers f s es = answers g t es ∧
      R (run (fun s e => (f s e).1) s es) (run (fun t e => (g t e).1) t es) := by
  induction es generalizing s t with
  | nil => exact ⟨rfl, hR⟩
  | cons e es ih =>
    obtain ⟨hanswer, hnext⟩ := h s t e hR
    obtain ⟨hanswers, hrun⟩ := ih hnext
    exact ⟨congrArg₂ List.cons hanswer hanswers, hrun⟩

end Simulation
end Smith.Runs
