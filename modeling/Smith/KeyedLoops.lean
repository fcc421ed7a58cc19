import Mathlib

set_option autoImplicit false

/-!
# Loops that visit each key once

A loop body that changes a state only at the key of its element is framed by the
view of the state at each key. Over elements with distinct keys the view at a key
is then decided by the one turn of its element.
-/
namespace Smith.KeyedLoops

variable {σ α κ γ : Type} {step : σ → α → σ} {key : α → κ} {view : κ → σ → γ}

def Framed (step : σ → α → σ) (key : α → κ) (view : κ → σ → γ) : Prop :=
  ∀ s a k, k ≠ key a → view k (step s a) = view k s

theorem Framed.foldl_of_notMem (h : Framed step key view) {k : κ} {l : List α}
    (hk : k ∉ l.map key) (s : σ) : view k (l.foldl step s) = view k s := by
  induction l generalizing s with
  | nil => rfl
  | cons a l ih =>
    rw [List.map_cons, List.mem_cons, not_or] at hk
    rw [List.foldl_cons, ih hk.2, h s a k hk.1]

/-- The turn of `a` starts from the initial view at its key and leaves the final one. -/
theorem Framed.foldl_visit (h : Framed step key view) {l₁ l₂ : List α} {a : α}
    (hnd : ((l₁ ++ a :: l₂).map key).Nodup) (s : σ) :
    view (key a) (l₁.foldl step s) = view (key a) s ∧
      view (key a) ((l₁ ++ a :: l₂).foldl step s) =
        view (key a) (step (l₁.foldl step s) a) := by
  rw [List.map_append, List.map_cons, List.nodup_append, List.nodup_cons] at hnd
  obtain ⟨-, ⟨h₂, -⟩, hdisj⟩ := hnd
  have h₁ : key a ∉ l₁.map key := fun hm => hdisj (key a) hm (key a) List.mem_cons_self rfl
  refine ⟨h.foldl_of_notMem h₁ s, ?_⟩
  rw [List.foldl_append, List.foldl_cons, h.foldl_of_notMem h₂]

end Smith.KeyedLoops
