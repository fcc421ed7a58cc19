import Mathlib

set_option autoImplicit false

/-!
# Independent draws

A sequence of draws, each true with a chance of its own, and the first of them that is true.
Where the chances are one in `n + 1`, one in `n` and so on down to one in two, the first true
draw is equally likely to be any of them and to be missing.
-/
namespace Smith.RandomDraws
open scoped NNReal

abbrev Chance := {p : ℝ≥0 // p ≤ 1}

noncomputable section

def oneIn (n : ℕ) : Chance := ⟨(n : ℝ≥0)⁻¹, Nat.cast_inv_le_one n⟩

/-- A number as a chance, cut at zero and one. -/
def chance (q : ℚ) : Chance := ⟨min 1 (Real.toNNReal q), min_le_left _ _⟩

def draw (c : Chance) : PMF Bool :=
  PMF.ofFintype (fun b => (cond b c.1 (1 - c.1) : ℝ≥0)) (by
    rw [Fintype.sum_bool, ← ENNReal.coe_add, cond_true, cond_false, add_tsub_cancel_of_le c.2,
      ENNReal.coe_one])

/-- The outcomes of one draw for each chance. -/
def outcomes : List Chance → PMF (List Bool)
  | [] => PMF.pure []
  | c :: cs => (draw c).bind fun b => (outcomes cs).map (b :: ·)

end

def numbered (ds : List Bool) (i : ℕ) : Bool := ds.getD i false

/-- The number of the first true one of `n` draws, `n` if there is none. -/
def firstTrue (n : ℕ) (draws : ℕ → Bool) : ℕ := ((List.range n).find? draws).getD n

theorem firstTrue_succ (n : ℕ) (draws : ℕ → Bool) : firstTrue (n + 1) draws =
    if draws 0 then 0 else firstTrue n (fun i => draws (i + 1)) + 1 := by
  rw [firstTrue, List.range_succ_eq_map, List.find?_cons]
  cases draws 0 with
  | true => rfl
  | false =>
    rw [List.find?_map, firstTrue, if_neg Bool.false_ne_true]
    exact Option.getD_map Nat.succ n _

/-- Either way it is the first draw that is true or has no chance to be. -/
theorem firstTrue_spec (n : ℕ) (draws : ℕ → Bool) :
    firstTrue n draws ≤ n ∧ (firstTrue n draws < n → draws (firstTrue n draws) = true) ∧
      ∀ i < firstTrue n draws, draws i = false := by
  induction n generalizing draws with
  | zero => exact ⟨Nat.le_refl 0, fun h => absurd h (Nat.not_lt_zero _), by simp [firstTrue]⟩
  | succ n ih =>
    obtain ⟨hle, htrue, hfalse⟩ := ih fun i => draws (i + 1)
    rw [firstTrue_succ]
    split_ifs with h0
    · exact ⟨Nat.zero_le _, fun _ => h0, fun i hi => absurd hi (Nat.not_lt_zero i)⟩
    · refine ⟨Nat.succ_le_succ hle, fun h => htrue (Nat.lt_of_succ_lt_succ h), fun i hi => ?_⟩
      cases i with
      | zero => simpa using h0
      | succ i => exact hfalse i (Nat.lt_of_succ_lt_succ hi)

theorem firstTrue_cons (n : ℕ) (b : Bool) (ds : List Bool) :
    firstTrue (n + 1) (numbered (b :: ds)) = if b then 0 else firstTrue n (numbered ds) + 1 :=
  firstTrue_succ n _

theorem map_outcomes_cons {β : Type} (c : Chance) (cs : List Chance) (f : List Bool → β) (b : β) :
    ((outcomes (c :: cs)).map f) b =
      c.1 * ((outcomes cs).map fun ds => f (true :: ds)) b +
        (1 - c.1 : ℝ≥0) * ((outcomes cs).map fun ds => f (false :: ds)) b := by
  rw [outcomes, PMF.map_bind, PMF.bind_apply, tsum_bool]
  simp only [draw, PMF.ofFintype_apply, PMF.map_comp, cond_true, cond_false]
  rw [add_comm]
  rfl

theorem map_apply_of_injective {α β : Type} (p : PMF α) {g : α → β} (hg : Function.Injective g)
    (a : α) : (p.map g) (g a) = p a := by
  classical
  rw [PMF.map_apply, tsum_eq_single a fun b hb => if_neg fun h => hb (hg h.symm), if_pos rfl]

theorem map_apply_of_ne {α β : Type} (p : PMF α) {g : α → β} {b : β} (h : ∀ a, g a ≠ b) :
    (p.map g) b = 0 := by
  classical
  rw [PMF.map_apply, ENNReal.tsum_eq_zero]
  exact fun a => if_neg (h a).symm

theorem chance_one_div (n : ℕ) : chance (1 / n) = oneIn n := by
  apply Subtype.ext
  have hcast : Real.toNNReal ((1 / n : ℚ) : ℝ) = (n : ℝ≥0)⁻¹ := by
    push_cast
    rw [one_div, Real.toNNReal_inv, Real.toNNReal_natCast]
  change min 1 (Real.toNNReal ((1 / n : ℚ) : ℝ)) = (n : ℝ≥0)⁻¹
  rw [hcast]
  exact min_eq_right (Nat.cast_inv_le_one n)

theorem coe_oneIn (n : ℕ) : ((oneIn (n + 1)).1 : ENNReal) = ((n + 1 : ℕ) : ENNReal)⁻¹ := by
  rw [oneIn, ENNReal.coe_inv (by positivity), ENNReal.coe_natCast]

theorem one_sub_oneIn_mul (n : ℕ) :
    ((1 - (oneIn (n + 2)).1 : ℝ≥0) : ENNReal) * ((n + 1 : ℕ) : ENNReal)⁻¹ =
      ((n + 2 : ℕ) : ENNReal)⁻¹ := by
  have hmul : (1 - ((n + 2 : ℕ) : ℝ≥0)⁻¹) * ((n + 1 : ℕ) : ℝ≥0)⁻¹ = ((n + 2 : ℕ) : ℝ≥0)⁻¹ := by
    have hle : ((n + 2 : ℕ) : ℝ≥0)⁻¹ ≤ 1 := Nat.cast_inv_le_one _
    rw [← NNReal.coe_inj, NNReal.coe_mul, NNReal.coe_sub hle]
    push_cast
    field_simp
    ring
  rw [← coe_oneIn n, ← coe_oneIn (n + 1), ← ENNReal.coe_mul]
  exact congrArg _ hmul

/-- The chances of a uniform choice, made one after the other. -/
theorem firstTrue_uniform (n : ℕ) {i : ℕ} (hi : i ≤ n) :
    ((outcomes ((List.range n).map fun j => oneIn (n + 1 - j))).map fun ds =>
      firstTrue n (numbered ds)) i = ((n + 1 : ℕ) : ENNReal)⁻¹ := by
  induction n generalizing i with
  | zero =>
    obtain rfl := Nat.le_zero.mp hi
    simp [outcomes, PMF.pure_map, firstTrue]
  | succ n ih =>
    have hchances : (List.range (n + 1)).map (fun j => oneIn (n + 1 + 1 - j)) =
        oneIn (n + 2) :: (List.range n).map fun j => oneIn (n + 1 - j) := by
      rw [List.range_succ_eq_map, List.map_cons, List.map_map]
      refine congrArg₂ List.cons rfl (List.map_congr_left fun j _ => ?_)
      exact congrArg oneIn (by change n + 1 + 1 - (j + 1) = n + 1 - j; omega)
    rw [hchances, map_outcomes_cons]
    simp only [firstTrue_cons, if_true, Bool.false_eq_true, if_false]
    generalize outcomes ((List.range n).map fun j => oneIn (n + 1 - j)) = rest at ih ⊢
    have hlater : (rest.map fun ds => firstTrue n (numbered ds) + 1) =
        (rest.map fun ds => firstTrue n (numbered ds)).map Nat.succ := (PMF.map_comp ..).symm
    rw [hlater]
    cases i with
    | zero =>
      -- the first draw is true
      have hnow : (rest.map fun _ => 0) 0 = 1 := by
        rw [PMF.map_apply]
        simp
      rw [hnow, map_apply_of_ne _ Nat.succ_ne_zero, mul_one, mul_zero, add_zero]
      exact coe_oneIn (n + 1)
    | succ i =>
      -- the first draw is false, and the rest is a choice among one less
      rw [map_apply_of_ne _ fun _ => (Nat.succ_ne_zero i).symm,
        map_apply_of_injective _ Nat.succ_injective, ih (Nat.le_of_succ_le_succ hi), mul_zero,
        zero_add]
      exact one_sub_oneIn_mul n

end Smith.RandomDraws
