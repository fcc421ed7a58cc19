import Mathlib

set_option autoImplicit false

/-!
# Rounding to double precision

A rational value is rounded to 53 significant bits, ties to even. Exponents are
unbounded, so overflow to infinity and subnormal numbers are outside this format.
-/
namespace Smith.Binary64

def twoPow (e : ℤ) : ℚ := if 0 ≤ e then ((2 ^ e.toNat : ℕ) : ℚ) else 1 / ((2 ^ (-e).toNat : ℕ) : ℚ)

/-- The largest `e` with `2 ^ e ≤ q`, for positive `q`. -/
def exponent (q : ℚ) : ℤ :=
  let e : ℤ := (Nat.log2 q.num.natAbs : ℤ) - (Nat.log2 q.den : ℤ)
  if twoPow e ≤ q then e else e - 1

def roundEven (q : ℚ) : ℤ :=
  let d : ℚ := q - q.floor
  if d < 1 / 2 then q.floor
  else if 1 / 2 < d then q.floor + 1
  else if q.floor % 2 = 0 then q.floor else q.floor + 1

def float64 (q : ℚ) : ℚ :=
  if q = 0 then 0
  else
    let unit := twoPow (exponent |q| - 52)
    (roundEven (q / unit) : ℚ) * unit

/-- Conversion back to an integer truncates towards zero. -/
def truncate (q : ℚ) : ℤ := if 0 ≤ q then q.floor else q.ceil

example : truncate (float64 (float64 1000 * float64 (17 / 20))) = 850 := by decide +kernel

theorem twoPow_eq (e : ℤ) : twoPow e = (2 : ℚ) ^ e := by
  unfold twoPow
  split_ifs with h
  · obtain ⟨n, rfl⟩ := Int.eq_ofNat_of_zero_le h
    simp
  · obtain ⟨n, hn⟩ := Int.eq_ofNat_of_zero_le (show 0 ≤ -e by omega)
    obtain rfl : e = -(n : ℤ) := by omega
    simp

theorem twoPow_exponent_le {q : ℚ} (h : 0 < q) : twoPow (exponent q) ≤ q := by
  unfold exponent
  dsimp only
  split_ifs with he
  · exact he
  · have hnum : q.num.natAbs ≠ 0 := by
      simpa using h.ne'
    have hlow : (2 : ℚ) ^ Nat.log2 q.num.natAbs ≤ q.num.natAbs := by
      exact_mod_cast Nat.log2_self_le hnum
    have hhigh : (q.den : ℚ) ≤ 2 ^ (Nat.log2 q.den + 1) := by
      exact_mod_cast (Nat.lt_log2_self (n := q.den)).le
    have hq : q = q.num.natAbs / q.den := by
      have hpos : 0 < q.num := Rat.num_pos.mpr h
      have habs : ((q.num.natAbs : ℤ) : ℚ) = q.num := by
        rw [Int.natAbs_of_nonneg hpos.le]
      rw [Int.cast_natCast] at habs
      rw [habs]
      exact (Rat.num_div_den q).symm
    rw [twoPow_eq]
    calc (2 : ℚ) ^ ((Nat.log2 q.num.natAbs : ℤ) - (Nat.log2 q.den : ℤ) - 1)
        = 2 ^ Nat.log2 q.num.natAbs / 2 ^ (Nat.log2 q.den + 1) := by
          rw [sub_sub, zpow_sub₀ two_ne_zero]
          norm_cast
      _ ≤ q.num.natAbs / q.den := by
          gcongr
      _ = q := hq.symm

theorem roundEven_error (q : ℚ) : |(roundEven q : ℚ) - q| ≤ 1 / 2 := by
  have hlow : (q.floor : ℚ) ≤ q := Rat.floor_le q
  have hhigh : q < q.floor + 1 := by exact_mod_cast Rat.lt_floor_add_one q
  unfold roundEven
  dsimp only
  split_ifs with h₁ h₂ h₃ <;> rw [abs_le] <;> push_cast <;> constructor <;> linarith

/-- Rounding moves a value by at most one part in `2 ^ 53`. -/
theorem float64_error (q : ℚ) : |float64 q - q| ≤ |q| / 2 ^ 53 := by
  unfold float64
  split_ifs with h
  · simp [h]
  · dsimp only
    have hq : 0 < |q| := abs_pos.mpr h
    have hunit : twoPow (exponent |q| - 52) = twoPow (exponent |q|) / 2 ^ 52 := by
      rw [twoPow_eq, twoPow_eq, zpow_sub₀ two_ne_zero]
      norm_cast
    have hpos : 0 < twoPow (exponent |q| - 52) := by
      rw [twoPow_eq]
      positivity
    have hle : twoPow (exponent |q| - 52) ≤ |q| / 2 ^ 52 := by
      rw [hunit]
      gcongr
      exact twoPow_exponent_le hq
    set unit := twoPow (exponent |q| - 52)
    have hsplit : (roundEven (q / unit) : ℚ) * unit - q =
        (roundEven (q / unit) - q / unit) * unit := by
      field_simp
    rw [hsplit, abs_mul, abs_of_pos hpos]
    calc |(roundEven (q / unit) : ℚ) - q / unit| * unit ≤ 1 / 2 * (|q| / 2 ^ 52) := by
          gcongr
          exact roundEven_error _
      _ = |q| / 2 ^ 53 := by ring

theorem abs_float64_le (q : ℚ) : |float64 q| ≤ |q| * (1 + 1 / 2 ^ 53) := by
  calc |float64 q| = |(float64 q - q) + q| := by rw [sub_add_cancel]
    _ ≤ |float64 q - q| + |q| := abs_add_le _ _
    _ ≤ |q| / 2 ^ 53 + |q| := by gcongr; exact float64_error q
    _ = |q| * (1 + 1 / 2 ^ 53) := by ring

/-- Dividing one by a rounded value of at least one and rounding again. -/
theorem abs_float64_one_div_sub_le {x : ℚ} (h : 1 ≤ x) :
    |float64 (1 / float64 x) - 1 / x| ≤ 1 / 2 ^ 51 := by
  have hx : 0 < x := by linarith
  have hdiv : |float64 x - x| ≤ x / 2 ^ 53 := by
    have := float64_error x
    rwa [abs_of_pos hx] at this
  have hhalf : x / 2 ≤ float64 x := by
    have := (abs_le.mp hdiv).1
    linarith
  have hy : 0 < float64 x := by linarith
  have hquot : |1 / float64 x - 1 / x| ≤ 1 / 2 ^ 52 := by
    have hsub : 1 / float64 x - 1 / x = (x - float64 x) / (float64 x * x) := by field_simp
    rw [hsub, abs_div, abs_of_pos (by positivity : 0 < float64 x * x), abs_sub_comm,
      div_le_iff₀ (by positivity)]
    calc |float64 x - x| ≤ x / 2 ^ 53 := hdiv
      _ = 1 / 2 ^ 52 * (1 / 2 * x) := by ring
      _ ≤ 1 / 2 ^ 52 * (float64 x * x) := by
        gcongr
        linarith
  have hround : |float64 (1 / float64 x) - 1 / float64 x| ≤ 1 / 2 ^ 52 := by
    have hle : 1 / float64 x ≤ 2 := by
      rw [div_le_iff₀ hy]
      linarith
    have := float64_error (1 / float64 x)
    rw [abs_of_pos (by positivity : 0 < 1 / float64 x)] at this
    linarith
  calc |float64 (1 / float64 x) - 1 / x|
      ≤ |float64 (1 / float64 x) - 1 / float64 x| + |1 / float64 x - 1 / x| := abs_sub_le _ _ _
    _ ≤ 1 / 2 ^ 52 + 1 / 2 ^ 52 := add_le_add hround hquot
    _ = 1 / 2 ^ 51 := by norm_num

theorem abs_truncate_le (q : ℚ) : |(truncate q : ℚ)| ≤ |q| := by
  unfold truncate
  split_ifs with h
  · have hfloor : 0 ≤ q.floor := Rat.le_floor_iff.mpr (by exact_mod_cast h)
    rw [abs_of_nonneg h, abs_of_nonneg (by exact_mod_cast hfloor)]
    exact Rat.floor_le q
  · have hq : q ≤ 0 := (not_le.mp h).le
    have hceil : q.ceil ≤ 0 := Rat.ceil_le_iff.mpr (by exact_mod_cast hq)
    rw [abs_of_nonpos hq, abs_of_nonpos (by exact_mod_cast hceil)]
    exact neg_le_neg (Rat.le_ceil)

theorem roundEven_intCast (z : ℤ) : roundEven (z : ℚ) = z := by
  unfold roundEven
  rw [Rat.floor_intCast]
  norm_num

theorem float64_natCast {n : ℕ} (h : n < 2 ^ 53) : float64 (n : ℚ) = n := by
  unfold float64
  split_ifs with h0
  · exact h0.symm
  · dsimp only
    have hpos : (0 : ℚ) < n := lt_of_le_of_ne (Nat.cast_nonneg n) (Ne.symm h0)
    rw [abs_of_pos hpos]
    have hlt : (2 : ℚ) ^ exponent (n : ℚ) < 2 ^ (53 : ℤ) := by
      calc (2 : ℚ) ^ exponent (n : ℚ) = twoPow (exponent (n : ℚ)) := (twoPow_eq _).symm
        _ ≤ n := twoPow_exponent_le hpos
        _ < 2 ^ (53 : ℤ) := by exact_mod_cast h
    have hexp : exponent (n : ℚ) < 53 := (zpow_lt_zpow_iff_right₀ one_lt_two).mp hlt
    obtain ⟨k, hk⟩ := Int.eq_ofNat_of_zero_le (show 0 ≤ 52 - exponent (n : ℚ) by omega)
    have hunit : twoPow (exponent (n : ℚ) - 52) = 1 / 2 ^ k := by
      rw [show exponent (n : ℚ) - 52 = -(k : ℤ) by omega, twoPow_eq, zpow_neg, zpow_natCast, one_div]
    have hscaled : (n : ℚ) / (1 / 2 ^ k) = ((n * 2 ^ k : ℤ) : ℚ) := by
      push_cast
      field_simp
    rw [hunit, hscaled, roundEven_intCast]
    push_cast
    field_simp

theorem truncate_natCast (n : ℕ) : truncate (n : ℚ) = n := by
  rw [truncate, if_pos (Nat.cast_nonneg n)]
  exact_mod_cast Rat.floor_intCast (n : ℤ)

end Smith.Binary64
