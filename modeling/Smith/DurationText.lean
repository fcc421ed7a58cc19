import Smith.Binary64

set_option autoImplicit false

/-!
# Durations as texts

A duration counts nanoseconds in 64 bits. Below a second it is written in one unit, and from a
second on in hours, minutes and seconds, with the fraction cut after its last digit other than
zero. What is read is a sequence of numbers with units, added up, and the fractions of them are
computed in floating point.
-/
namespace Smith.DurationText
open Binary64

/-! ### Writing -/

/-- The loop of `fmtFrac`: the last digit of the number goes in front of the digits, unless all
    of them are zeros so far. -/
def fracStep : Bool × List Char × ℕ → Bool × List Char × ℕ
  | (shown, digits, v) =>
    let digit := v % 10
    let shown := shown || digit ≠ 0
    (shown, if shown then Nat.digitChar digit :: digits else digits, v / 10)

/-- The fraction of `v / 10 ^ prec` and the number before it. -/
def fmtFrac (v prec : ℕ) : List Char × ℕ :=
  let (shown, digits, v) := fracStep^[prec] (false, [], v)
  (if shown then '.' :: digits else digits, v)

def fmtInt (v : ℕ) : List Char := Nat.toDigits 10 v

def second : ℕ := 10 ^ 9

def format (u : ℕ) : List Char :=
  if u < second then
    if u = 0 then "0s".toList
    else
      let (prec, unit) :=
        if u < 10 ^ 3 then (0, "ns") else if u < 10 ^ 6 then (3, "µs") else (6, "ms")
      let (frac, u) := fmtFrac u prec
      fmtInt u ++ frac ++ unit.toList
  else
    let (frac, u) := fmtFrac u 9
    let seconds := fmtInt (u % 60) ++ frac ++ "s".toList
    let u := u / 60
    if 0 < u then
      let minutes := fmtInt (u % 60) ++ "m".toList ++ seconds
      let u := u / 60
      if 0 < u then fmtInt u ++ "h".toList ++ minutes else minutes
    else seconds

def text (d : ℤ) : String :=
  String.ofList (if d < 0 then '-' :: format d.natAbs else format d.natAbs)

/-! ### Reading -/

def unitMap : List (String × ℕ) :=
  [("ns", 1), ("us", 10 ^ 3), ("µs", 10 ^ 3), ("μs", 10 ^ 3), ("ms", 10 ^ 6), ("s", second),
    ("m", 60 * second), ("h", 3600 * second)]

def digitOf (c : Char) : ℕ := c.toNat - '0'.toNat

/-- The leading digits as a number, unless it is beyond `2 ^ 63`. -/
def leadingInt : List Char → ℕ → Option (ℕ × List Char)
  | [], x => some (x, [])
  | c :: s, x =>
    if c.isDigit then
      if x > 2 ^ 63 / 10 then none
      else
        let x := 10 * x + digitOf c
        if x > 2 ^ 63 then none else leadingInt s x
    else some (x, c :: s)

/-- The leading digits as a number and its scale. Digits that would overflow are skipped. -/
def leadingFraction : List Char → ℕ → ℚ → Bool → ℕ × ℚ × List Char
  | [], x, scale, _ => (x, scale, [])
  | c :: s, x, scale, overflow =>
    if c.isDigit then
      if overflow ∨ x > (2 ^ 63 - 1) / 10 then leadingFraction s x scale true
      else
        let y := 10 * x + digitOf c
        if y > 2 ^ 63 then leadingFraction s x scale true
        else leadingFraction s y (float64 (scale * 10)) false
    else (x, scale, c :: s)

def quoteByte (b : UInt8) : List Char :=
  ['\\', 'x', Nat.digitChar (b.toNat / 16), Nat.digitChar (b.toNat % 16)]

def quote (s : String) : String :=
  String.ofList ('"' :: s.toList.flatMap (fun c =>
    if 128 ≤ c.toNat ∨ c.toNat < 32 then (String.utf8EncodeChar c).flatMap quoteByte
    else if c = '"' ∨ c = '\\' then ['\\', c]
    else [c]) ++ ['"'])

def invalid {α : Type} (orig : String) : Except String α :=
  .error ("time: invalid duration " ++ quote orig)

def startsNumber (c : Char) : Bool := c = '.' || c.isDigit

/-- The fraction after the digits, and whether there was a digit in it. -/
def fraction : List Char → ℕ × ℚ × List Char × Bool
  | '.' :: s =>
    let (f, scale, rest) := leadingFraction s 0 1 false
    (f, scale, rest, rest.length ≠ s.length)
  | s => (0, 1, s, false)

def scaled (orig : String) (v f : ℕ) (scale : ℚ) (unit : ℕ) : Except String ℕ :=
  if v > 2 ^ 63 / unit then invalid orig
  else if 0 < f then
    let v := v * unit + (truncate (float64 (float64 f * float64 (float64 unit / scale)))).toNat
    if v > 2 ^ 63 then invalid orig else .ok v
  else .ok (v * unit)

def term (orig : String) (s : List Char) : Except String (ℕ × List Char) :=
  if (s.head?.any startsNumber) = false then invalid orig
  else
    match leadingInt s 0 with
    | none => invalid orig
    | some (v, s₁) =>
      let (f, scale, s₂, post) := fraction s₁
      if s₁.length = s.length ∧ post = false then invalid orig
      else
        let u := s₂.takeWhile (!startsNumber ·)
        let rest := s₂.dropWhile (!startsNumber ·)
        if u = [] then .error ("time: missing unit in duration " ++ quote orig)
        else
          match unitMap.lookup (String.ofList u) with
          | none => .error ("time: unknown unit " ++ quote (String.ofList u) ++ " in duration " ++
              quote orig)
          | some unit =>
            match scaled orig v f scale unit with
            | .error e => .error e
            | .ok v => .ok (v, rest)

/-- The loop over the terms. Each takes a character at least, so the fuel does not run out. -/
def terms (orig : String) : ℕ → List Char → ℕ → Except String ℕ
  | _, [], d => .ok d
  | 0, _ :: _, _ => invalid orig
  | fuel + 1, c :: s, d =>
    match term orig (c :: s) with
    | .error e => .error e
    | .ok (v, rest) =>
      let d := (d + v) % 2 ^ 64
      if d > 2 ^ 63 then invalid orig else terms orig fuel rest d

def sign : List Char → Bool × List Char
  | '-' :: s => (true, s)
  | '+' :: s => (false, s)
  | s => (false, s)

def parse (orig : String) : Except String ℤ :=
  let (neg, s) := sign orig.toList
  if s = ['0'] then .ok 0
  else if s = [] then invalid orig
  else
    match terms orig s.length s 0 with
    | .error e => .error e
    | .ok d =>
      if neg then .ok (-(d : ℤ)) else if d > 2 ^ 63 - 1 then invalid orig else .ok d

/-! ### The fuel is enough -/

theorem leadingInt_length {s rest : List Char} {x v : ℕ} (h : leadingInt s x = some (v, rest)) :
    rest.length ≤ s.length := by
  induction s generalizing x with
  | nil =>
    obtain ⟨-, rfl⟩ := Prod.mk.inj (Option.some.inj h)
    exact le_rfl
  | cons c s ih =>
    unfold leadingInt at h
    dsimp only at h
    split_ifs at h
    · have := ih h
      simp only [List.length_cons]
      omega
    · obtain ⟨-, rfl⟩ := Prod.mk.inj (Option.some.inj h)
      exact le_rfl

theorem leadingFraction_length (s : List Char) (x : ℕ) (scale : ℚ) (overflow : Bool) :
    (leadingFraction s x scale overflow).2.2.length ≤ s.length := by
  induction s generalizing x scale overflow with
  | nil => exact le_rfl
  | cons c s ih =>
    unfold leadingFraction
    dsimp only
    split_ifs
    · exact (ih _ _ _).trans (Nat.le_succ _)
    · exact (ih _ _ _).trans (Nat.le_succ _)
    · exact (ih _ _ _).trans (Nat.le_succ _)
    · exact le_rfl

theorem fraction_length (s : List Char) : (fraction s).2.2.1.length ≤ s.length := by
  unfold fraction
  split
  · exact (leadingFraction_length _ _ _ _).trans (Nat.le_succ _)
  · exact le_rfl

theorem length_dropWhile_lt {p : Char → Bool} {s : List Char} (h : s.takeWhile p ≠ []) :
    (s.dropWhile p).length < s.length := by
  have hsplit := congrArg List.length (List.takeWhile_append_dropWhile (p := p) (l := s))
  have hpos := List.length_pos_iff.mpr h
  rw [List.length_append] at hsplit
  omega

theorem term_length {orig : String} {s rest : List Char} {v : ℕ}
    (h : term orig s = .ok (v, rest)) : rest.length < s.length := by
  unfold term at h
  split_ifs at h
  · exact absurd h (by simp [invalid])
  · split at h
    · exact absurd h (by simp [invalid])
    · rename_i v' s₁ hint
      have hint' := leadingInt_length hint
      have hfraction := fraction_length s₁
      dsimp only at h
      split_ifs at h with hdigits hunit
      · exact absurd h (by simp [invalid])
      · split at h
        · exact absurd h (by simp)
        · split at h
          · exact absurd h (by simp)
          · obtain ⟨-, rfl⟩ := Prod.mk.inj (Except.ok.inj h)
            exact (length_dropWhile_lt hunit).trans_le (hfraction.trans hint')

theorem terms_fuel (orig : String) {fuel : ℕ} {s : List Char} (h : s.length ≤ fuel) (d : ℕ) :
    terms orig fuel s d = terms orig s.length s d := by
  induction fuel using Nat.strong_induction_on generalizing s d with
  | _ fuel ih =>
    cases s with
    | nil => simp [terms]
    | cons c s =>
      obtain ⟨fuel, rfl⟩ := Nat.exists_eq_succ_of_ne_zero (show fuel ≠ 0 by
        simp only [List.length_cons] at h
        omega)
      simp only [List.length_cons, terms]
      cases hterm : term orig (c :: s) with
      | error e => rfl
      | ok r =>
        have hlength : r.2.length < (c :: s).length := term_length (v := r.1) hterm
        simp only [List.length_cons] at hlength h
        dsimp only
        split_ifs
        · rfl
        · rw [ih fuel (Nat.lt_succ_self _) (by omega), ← ih s.length (by omega) (by omega)]

/-! ### Reading what was written -/

def NoDigit (rest : List Char) : Prop := ∀ c ∈ rest.head?, c.isDigit = false

theorem leadingInt_digits {digits rest : List Char} (hdigits : ∀ c ∈ digits, c.isDigit = true)
    (hrest : NoDigit rest) {x : ℕ} (hx : Nat.ofDigitChars 10 digits x ≤ 2 ^ 63) :
    leadingInt (digits ++ rest) x = some (Nat.ofDigitChars 10 digits x, rest) := by
  induction digits generalizing x with
  | nil =>
    cases rest with
    | nil => rfl
    | cons c rest =>
      have hc : c.isDigit = false := hrest c rfl
      rw [List.nil_append, leadingInt, hc]
      rfl
  | cons c digits ih =>
    rw [List.forall_mem_cons] at hdigits
    rw [Nat.ofDigitChars_cons] at hx ⊢
    have hgrows : 10 * x + digitOf c ≤ 2 ^ 63 := by
      refine le_trans ?_ hx
      rw [Nat.ofDigitChars_eq_ofDigitChars_zero]
      exact (Nat.le_mul_of_pos_left _ (by positivity)).trans (Nat.le_add_right _ _)
    rw [List.cons_append, leadingInt, if_pos hdigits.1, if_neg (by omega)]
    dsimp only
    rw [if_neg (by omega)]
    exact ih hdigits.2 hx

theorem leadingInt_fmtInt {n : ℕ} {rest : List Char} (hrest : NoDigit rest) (hn : n ≤ 2 ^ 63) :
    leadingInt (fmtInt n ++ rest) 0 = some (n, rest) := by
  have hvalue : Nat.ofDigitChars 10 (fmtInt n) 0 = n := Nat.ofDigitChars_ten_toDigits
  have hdigits : ∀ c ∈ fmtInt n, c.isDigit = true :=
    fun c hc => Nat.isDigit_of_mem_toDigits (by decide) (by decide) hc
  rw [leadingInt_digits hdigits hrest (hvalue.trans_le hn), hvalue]

theorem float64_pow_ten {k : ℕ} (h : k ≤ 9) : float64 ((10 : ℚ) ^ k) = 10 ^ k := by
  have hlt : 10 ^ k < 2 ^ 53 := (Nat.pow_le_pow_right (by decide) h).trans_lt (by decide)
  have := float64_natCast hlt
  push_cast at this
  exact this

/-- Nine digits after the point do not overflow, and their scale is exact. -/
theorem leadingFraction_digits {digits rest : List Char}
    (hdigits : ∀ c ∈ digits, c.isDigit = true) (hrest : NoDigit rest) {x k : ℕ}
    (hx : x < 10 ^ k) (hk : k + digits.length ≤ 9) :
    leadingFraction (digits ++ rest) x (10 ^ k) false =
      (Nat.ofDigitChars 10 digits x, 10 ^ (k + digits.length), rest) := by
  induction digits generalizing x k with
  | nil =>
    cases rest with
    | nil => rfl
    | cons c rest =>
      have hc : c.isDigit = false := hrest c rfl
      rw [List.nil_append, leadingFraction, hc]
      rfl
  | cons c digits ih =>
    rw [List.forall_mem_cons] at hdigits
    rw [List.length_cons] at hk ⊢
    have hdigit : digitOf c < 10 := by
      have h9 : c.isDigit = true := hdigits.1
      simp only [Char.isDigit, Bool.and_eq_true, decide_eq_true_eq, UInt32.le_iff_toNat_le] at h9
      have hlow : 48 ≤ c.toNat := h9.1
      have hhigh : c.toNat ≤ 57 := h9.2
      have hzero : '0'.toNat = 48 := rfl
      unfold digitOf
      omega
    have hpow : 10 ^ k ≤ 10 ^ 8 := Nat.pow_le_pow_right (by decide) (by omega)
    have hnext : 10 * x + digitOf c < 10 ^ (k + 1) := by
      rw [pow_succ]
      omega
    have hscale : float64 ((10 : ℚ) ^ k * 10) = 10 ^ (k + 1) := by
      rw [← pow_succ, float64_pow_ten (by omega)]
    rw [List.cons_append, leadingFraction, if_pos hdigits.1, if_neg (by
      rintro (h | h)
      · exact Bool.false_ne_true h
      · omega)]
    dsimp only
    rw [if_neg (by omega), hscale, ih hdigits.2 hnext (by omega), Nat.ofDigitChars_cons]
    rw [show k + 1 + digits.length = k + (digits.length + 1) by omega]
    rfl

/-- The digits of a fraction, with the zeros at its end left out. -/
theorem fracStep_iterate (v prec : ℕ) : ∃ digits, ∃ shown : Bool,
    fracStep^[prec] (false, [], v) = (shown, digits, v / 10 ^ prec) ∧
    (∀ c ∈ digits, c.isDigit = true) ∧ digits.length ≤ prec ∧
    (shown = true ↔ v % 10 ^ prec ≠ 0) ∧ (shown = true ↔ digits ≠ []) ∧
    Nat.ofDigitChars 10 digits 0 * 10 ^ (prec - digits.length) = v % 10 ^ prec := by
  induction prec with
  | zero => exact ⟨[], false, by simp, by simp, le_rfl, by simp [Nat.mod_one], by simp, by simp [Nat.mod_one]⟩
  | succ prec ih =>
    obtain ⟨digits, shown, heq, hdigits, hlength, hshown, hne, hvalue⟩ := ih
    rw [Function.iterate_succ_apply', heq, fracStep]
    have hmod : v % 10 ^ (prec + 1) = v % 10 ^ prec + 10 ^ prec * (v / 10 ^ prec % 10) := by
      rw [pow_succ, Nat.mod_mul]
    have hdiv : v / 10 ^ prec / 10 = v / 10 ^ (prec + 1) := by
      rw [Nat.div_div_eq_div_mul, pow_succ]
    have hdigit : v / 10 ^ prec % 10 < 10 := Nat.mod_lt _ (by decide)
    rw [hdiv]
    by_cases hshow : (shown || decide (v / 10 ^ prec % 10 ≠ 0)) = true
    · refine ⟨Nat.digitChar (v / 10 ^ prec % 10) :: digits, true, by simp only [hshow, if_true], ?_,
        by simp only [List.length_cons]; omega, iff_of_true rfl fun hzero => ?_, by simp, ?_⟩
      · rw [List.forall_mem_cons, Nat.isDigit_digitChar]
        exact ⟨decide_eq_true hdigit, hdigits⟩
      · -- one of the two summands is not zero
        rw [hmod, Nat.add_eq_zero_iff, Nat.mul_eq_zero] at hzero
        rw [Bool.or_eq_true, hshown, decide_eq_true_eq] at hshow
        have hpow : 10 ^ prec ≠ 0 := by positivity
        obtain ⟨hrest, hten | hlast⟩ := hzero
        · exact hpow hten
        · exact hshow.elim (fun h => h hrest) fun h => h hlast
      · have hpowers : 10 ^ digits.length * 10 ^ (prec - digits.length) = 10 ^ prec := by
          rw [← pow_add]
          congr 1
          omega
        have hsub : prec + 1 - (digits.length + 1) = prec - digits.length := by omega
        rw [Nat.ofDigitChars_cons_digitChar_of_lt_ten hdigit, Nat.ofDigitChars_eq_ofDigitChars_zero,
          List.length_cons, hsub, hmod, ← hvalue, Nat.add_mul, ← hpowers]
        ring
    · rw [Bool.not_eq_true, Bool.or_eq_false_iff] at hshow
      obtain ⟨rfl, hlast⟩ := hshow
      have hlast : v / 10 ^ prec % 10 = 0 := by simpa using hlast
      have hnil : digits = [] := by simpa using hne
      have hzero : v % 10 ^ prec = 0 := by simpa using hshown
      refine ⟨[], false, by simp [hlast, hnil], by simp, Nat.zero_le _, ?_, by simp, ?_⟩
      · rw [hmod, hlast, hzero]
        simp
      · rw [hmod, hlast, hzero]
        simp

theorem fmtFrac_snd (v prec : ℕ) : (fmtFrac v prec).2 = v / 10 ^ prec := by
  obtain ⟨digits, shown, heq, -⟩ := fracStep_iterate v prec
  rw [fmtFrac, heq]

def NoNumber (rest : List Char) : Prop := ∀ c ∈ rest.head?, startsNumber c = false

theorem NoNumber.noDigit {rest : List Char} (h : NoNumber rest) : NoDigit rest := by
  intro c hc
  have hnumber := h c hc
  simp only [startsNumber, Bool.or_eq_false_iff] at hnumber
  exact hnumber.2

theorem noDigit_fmtFrac (v prec : ℕ) {rest : List Char} (h : NoNumber rest) :
    NoDigit ((fmtFrac v prec).1 ++ rest) := by
  obtain ⟨digits, shown, heq, -, -, -, hne, -⟩ := fracStep_iterate v prec
  rw [fmtFrac, heq]
  cases shown with
  | true =>
    intro c hc
    obtain rfl : '.' = c := Option.some.inj hc
    rfl
  | false =>
    have hnil : digits = [] := by simpa using hne
    rw [hnil]
    exact h.noDigit

theorem fraction_of_noNumber {rest : List Char} (h : NoNumber rest) :
    fraction rest = (0, 1, rest, false) := by
  unfold fraction
  split
  · exact absurd (h '.' rfl) (by decide)
  · rfl

/-- The fraction is read back exactly: at most nine digits are scaled by a power of ten. -/
theorem fraction_fmtFrac (orig : String) {n v prec unit : ℕ} (hprec : prec ≤ 9) (hpos : 0 < unit)
    (hunit : prec = 0 ∨ unit = 10 ^ prec) (hbound : n * unit + v % 10 ^ prec ≤ 2 ^ 63)
    {rest : List Char} (hrest : NoNumber rest) : ∃ f scale post,
      fraction ((fmtFrac v prec).1 ++ rest) = (f, scale, rest, post) ∧
      scaled orig n f scale unit = .ok (n * unit + v % 10 ^ prec) := by
  have hn : ¬ n > 2 ^ 63 / unit := by
    rw [not_lt, Nat.le_div_iff_mul_le hpos]
    omega
  obtain ⟨digits, shown, heq, hdigits, hlength, hshown, hne, hvalue⟩ := fracStep_iterate v prec
  rw [fmtFrac, heq]
  cases shown with
  | false =>
    have hnil : digits = [] := by simpa using hne
    have hzero : v % 10 ^ prec = 0 := by simpa using hshown
    refine ⟨0, 1, false, ?_, ?_⟩
    · rw [hnil]
      exact fraction_of_noNumber hrest
    · rw [scaled, if_neg hn, if_neg (lt_irrefl 0), hzero, add_zero]
  | true =>
    have hdigits0 : digits ≠ [] := hne.mp rfl
    have hlen0 := List.length_pos_iff.mpr hdigits0
    obtain rfl : unit = 10 ^ prec := hunit.resolve_left (by omega)
    have hread := leadingFraction_digits hdigits hrest.noDigit (x := 0) (k := 0) (by decide)
      (by omega)
    rw [pow_zero, zero_add] at hread
    refine ⟨Nat.ofDigitChars 10 digits 0, 10 ^ digits.length,
      decide (rest.length ≠ (digits ++ rest).length), ?_, ?_⟩
    · simp only [if_true, List.cons_append, fraction, hread]
    · set f := Nat.ofDigitChars 10 digits 0
      have hmod : v % 10 ^ prec < 10 ^ 9 :=
        (Nat.mod_lt _ hpos).trans_le (Nat.pow_le_pow_right (by decide) hprec)
      have hmod0 : v % 10 ^ prec ≠ 0 := hshown.mp rfl
      have hf0 : 0 < f := by
        rw [Nat.pos_iff_ne_zero]
        intro hf
        rw [hf, zero_mul] at hvalue
        exact hmod0 hvalue.symm
      have hf : f < 10 ^ 9 := by
        refine lt_of_le_of_lt ?_ hmod
        rw [← hvalue]
        exact Nat.le_mul_of_pos_right f (by positivity)
      have hquotient : ((10 ^ prec : ℕ) : ℚ) / 10 ^ digits.length =
          (10 : ℚ) ^ (prec - digits.length) := by
        rw [div_eq_iff (by positivity), ← pow_add, Nat.sub_add_cancel hlength]
        push_cast
        rfl
      have hproduct : (f : ℚ) * 10 ^ (prec - digits.length) = ((v % 10 ^ prec : ℕ) : ℚ) := by
        rw [← hvalue]
        push_cast
        rfl
      have hscale : float64 ((10 ^ prec : ℕ) : ℚ) = ((10 ^ prec : ℕ) : ℚ) := by
        refine float64_natCast ?_
        exact (Nat.pow_le_pow_right (by decide) hprec).trans_lt (by decide)
      rw [scaled, if_neg hn, if_pos hf0, hscale, hquotient, float64_pow_ten (by omega),
        float64_natCast (by omega), hproduct, float64_natCast (by omega), truncate_natCast,
        Int.toNat_natCast]
      dsimp only
      rw [if_neg (by omega)]

/-- The name of a unit, told from the numbers around it. -/
structure Named (name : String) (unit : ℕ) : Prop where
  lookup : unitMap.lookup name = some unit
  chars : name.toList.all (!startsNumber ·) = true
  nonempty : name.toList ≠ []
  pos : 0 < unit

theorem term_text (orig : String) {n v prec unit : ℕ} {name : String} (hnamed : Named name unit)
    (hprec : prec ≤ 9) (hunit : prec = 0 ∨ unit = 10 ^ prec) (hbound : n * unit + v % 10 ^ prec ≤ 2 ^ 63)
    {rest : List Char} (hrest : ∀ c ∈ rest.head?, startsNumber c = true) :
    term orig (fmtInt n ++ ((fmtFrac v prec).1 ++ (name.toList ++ rest))) =
      .ok (n * unit + v % 10 ^ prec, rest) := by
  obtain ⟨hlookup, hchars, hne, hpos⟩ := hnamed
  have hname : ∀ c ∈ name.toList, startsNumber c = false := by simpa using hchars
  have hnumber : NoNumber (name.toList ++ rest) := by
    intro c hc
    rw [List.head?_append_of_ne_nil _ hne] at hc
    exact hname c (List.mem_of_mem_head? hc)
  obtain ⟨f, scale, post, hfraction, hscaled⟩ :=
    fraction_fmtFrac orig hprec hpos hunit hbound hnumber
  have hn : n ≤ 2 ^ 63 := (Nat.le_mul_of_pos_right n hpos).trans (by omega)
  have hint := leadingInt_fmtInt (noDigit_fmtFrac v prec hnumber) hn
  have hnonempty : fmtInt n ≠ [] := Nat.toDigits_ne_nil
  have hhead : ((fmtInt n ++ ((fmtFrac v prec).1 ++ (name.toList ++ rest))).head?.any
      startsNumber) = true := by
    rw [List.head?_append_of_ne_nil _ hnonempty]
    obtain ⟨c, l, hcl⟩ := List.exists_cons_of_ne_nil hnonempty
    have hc : c.isDigit = true :=
      Nat.isDigit_of_mem_toDigits (b := 10) (n := n) (by decide) (by decide)
        (by change c ∈ fmtInt n; rw [hcl]; exact List.mem_cons_self)
    rw [hcl]
    simp [startsNumber, hc]
  have hlength : ¬ ((fmtFrac v prec).1 ++ (name.toList ++ rest)).length =
      (fmtInt n ++ ((fmtFrac v prec).1 ++ (name.toList ++ rest))).length := by
    have := List.length_pos_iff.mpr hnonempty
    rw [@List.length_append _ (fmtInt n)]
    omega
  have htake : (name.toList ++ rest).takeWhile (!startsNumber ·) = name.toList := by
    rw [List.takeWhile_append_of_pos (by simpa using hname)]
    cases rest with
    | nil => simp
    | cons c rest => simp [hrest c rfl]
  have hdrop : (name.toList ++ rest).dropWhile (!startsNumber ·) = rest := by
    rw [List.dropWhile_append_of_pos (by simpa using hname)]
    cases rest with
    | nil => simp
    | cons c rest => simp [hrest c rfl]
  rw [term, hhead, if_neg (by decide), hint]
  dsimp only
  rw [hfraction]
  dsimp only
  rw [if_neg (fun h => hlength h.1), htake, hdrop, if_neg hne, String.ofList_toList, hlookup]
  dsimp only
  rw [hscaled]

theorem head_fmtInt (n : ℕ) (rest : List Char) : ∀ c ∈ (fmtInt n ++ rest).head?, c.isDigit = true := by
  intro c hc
  have hne : fmtInt n ≠ [] := Nat.toDigits_ne_nil
  rw [List.head?_append_of_ne_nil _ hne] at hc
  exact Nat.isDigit_of_mem_toDigits (by decide) (by decide) (List.mem_of_mem_head? hc)

theorem startsNumber_fmtInt (n : ℕ) (rest : List Char) :
    ∀ c ∈ (fmtInt n ++ rest).head?, startsNumber c = true := by
  intro c hc
  rw [startsNumber, head_fmtInt n rest c hc, Bool.or_true]

theorem terms_of_term {orig : String} {s rest : List Char} {v d : ℕ}
    (hterm : term orig s = .ok (v, rest)) (hd : d + v ≤ 2 ^ 63) :
    terms orig s.length s d = terms orig rest.length rest (d + v) := by
  have hlength := term_length hterm
  cases s with
  | nil => exact absurd hlength (Nat.not_lt_zero _)
  | cons c s =>
    rw [List.length_cons] at hlength
    rw [List.length_cons, terms, hterm]
    dsimp only
    rw [Nat.mod_eq_of_lt (by omega), if_neg (by omega), terms_fuel orig (by omega)]

theorem named_units : Named "ns" (10 ^ 0) ∧ Named "µs" (10 ^ 3) ∧ Named "ms" (10 ^ 6) ∧
    Named "s" (10 ^ 9) ∧ Named "m" (60 * 10 ^ 9) ∧ Named "h" (3600 * 10 ^ 9) := by
  refine ⟨?_, ?_, ?_, ?_, ?_, ?_⟩ <;>
    exact ⟨by decide +kernel, by decide +kernel, by decide +kernel, by norm_num⟩

section Written
variable (orig : String)

theorem terms_text {n v prec unit : ℕ} {name : String} (hnamed : Named name unit) (hprec : prec ≤ 9)
    (hunit : prec = 0 ∨ unit = 10 ^ prec) {d : ℕ} (hbound : d + (n * unit + v % 10 ^ prec) ≤ 2 ^ 63)
    {rest : List Char} (hrest : ∀ c ∈ rest.head?, startsNumber c = true) :
    let s := fmtInt n ++ ((fmtFrac v prec).1 ++ (name.toList ++ rest))
    terms orig s.length s d = terms orig rest.length rest (d + (n * unit + v % 10 ^ prec)) :=
  terms_of_term (term_text orig hnamed hprec hunit (by omega) hrest) hbound

theorem terms_last {n v prec : ℕ} {name : String} (hnamed : Named name (10 ^ prec))
    (hprec : prec ≤ 9) {d : ℕ} (hbound : d + (n * 10 ^ prec + v % 10 ^ prec) ≤ 2 ^ 63) :
    let s := fmtInt n ++ (fmtFrac v prec).1 ++ name.toList
    terms orig s.length s d = .ok (d + (n * 10 ^ prec + v % 10 ^ prec)) := by
  have hread := @terms_text orig n v prec (10 ^ prec) name hnamed hprec (.inr rfl) d hbound []
    (by simp)
  simp only [List.append_nil, List.length_nil, terms] at hread
  rw [← List.append_assoc] at hread
  exact hread

theorem terms_whole {n unit d total : ℕ} {name : String} (hnamed : Named name unit)
    {rest : List Char} (hrest : ∀ c ∈ rest.head?, startsNumber c = true)
    (hread : terms orig rest.length rest (d + n * unit) = .ok total) (hbound : d + n * unit ≤ 2 ^ 63) :
    let s := fmtInt n ++ name.toList ++ rest
    terms orig s.length s d = .ok total := by
  intro s
  have hs : s = fmtInt n ++ ((fmtFrac 0 0).1 ++ (name.toList ++ rest)) := List.append_assoc _ _ _
  have hzero : n * unit + 0 % 10 ^ 0 = n * unit := by rw [Nat.zero_mod, add_zero]
  rw [hs, terms_text orig hnamed (Nat.zero_le 9) (.inl rfl) (by rw [hzero]; exact hbound) hrest, hzero]
  exact hread

theorem terms_format {u : ℕ} (hu : u ≤ 2 ^ 63) : terms orig (format u).length (format u) 0 = .ok u := by
  obtain ⟨hns, hus, hms, hs, hm, hh⟩ := named_units
  have hsmall (prec : ℕ) (hprec : prec ≤ 9) (name : String) (hnamed : Named name (10 ^ prec)) :
      let s := fmtInt (fmtFrac u prec).2 ++ (fmtFrac u prec).1 ++ name.toList
      terms orig s.length s 0 = .ok u := by
    have hsum : 0 + (u / 10 ^ prec * 10 ^ prec + u % 10 ^ prec) = u := by
      rw [zero_add, Nat.div_add_mod']
    have hread := terms_last orig (n := u / 10 ^ prec) (v := u) hnamed hprec (hsum.trans_le hu)
    rw [hsum] at hread
    rw [fmtFrac_snd]
    exact hread
  unfold format
  by_cases hsecond : u < second
  · rw [if_pos hsecond]
    by_cases h0 : u = 0
    · rw [if_pos h0, h0]
      exact terms_last orig (n := 0) (v := 0) (d := 0) hs le_rfl (by norm_num)
    · rw [if_neg h0]
      split_ifs
      · exact hsmall 0 (by decide) "ns" hns
      · exact hsmall 3 (by decide) "µs" hus
      · exact hsmall 6 (by decide) "ms" hms
  · have hsum : u / 10 ^ 9 * 10 ^ 9 + u % 10 ^ 9 = u := Nat.div_add_mod' u (10 ^ 9)
    rw [if_neg hsecond]
    dsimp only
    rw [fmtFrac_snd]
    generalize u / 10 ^ 9 = w at hsum ⊢
    -- the seconds, behind hours and minutes that have been read
    have hseconds {d : ℕ} (hd : d + (w % 60 * 10 ^ 9 + u % 10 ^ 9) = u) :
        let s := fmtInt (w % 60) ++ (fmtFrac u 9).1 ++ "s".toList
        terms orig s.length s d = .ok u := by
      have hread := terms_last orig (n := w % 60) (v := u) hs le_rfl (hd.trans_le hu)
      rw [hd] at hread
      exact hread
    have hminutes {d : ℕ} (hd : d + w / 60 % 60 * (60 * 10 ^ 9) + (w % 60 * 10 ^ 9 + u % 10 ^ 9) = u) :
        let s := fmtInt (w / 60 % 60) ++ "m".toList ++
          (fmtInt (w % 60) ++ (fmtFrac u 9).1 ++ "s".toList)
        terms orig s.length s d = .ok u := by
      refine terms_whole orig hm ?_ (hseconds hd) (by omega)
      rw [List.append_assoc]
      exact startsNumber_fmtInt _ _
    split_ifs with hmin hhour
    · refine terms_whole orig hh ?_ (hminutes ?_) ?_
      · rw [List.append_assoc]
        exact startsNumber_fmtInt _ _
      · omega
      · omega
    · exact hminutes (by omega)
    · exact hseconds (by omega)

end Written

/-- A text begins with a digit and ends in a unit. -/
theorem format_ends (u : ℕ) : (∀ c ∈ (format u).head?, c.isDigit = true) ∧
    ∃ l, format u = l ++ ['s'] ∧ l ≠ [] := by
  have hone (w : ℕ) (frac unit : List Char) (name : String) (hname : name.toList = unit ++ ['s']) :
      ∃ l, fmtInt w ++ frac ++ name.toList = fmtInt w ++ l ++ ['s'] := ⟨frac ++ unit, by simp [hname]⟩
  have hsome : ∃ w l, format u = fmtInt w ++ l ++ ['s'] := by
    unfold format
    dsimp only
    split_ifs
    · exact ⟨0, [], rfl⟩
    · exact ⟨_, hone _ _ ['n'] "ns" rfl⟩
    · exact ⟨_, hone _ _ ['µ'] "µs" rfl⟩
    · exact ⟨_, hone _ _ ['m'] "ms" rfl⟩
    · exact ⟨_, "h".toList ++ (fmtInt _ ++ ("m".toList ++ (fmtInt _ ++ (fmtFrac u 9).1))), by simp; rfl⟩
    · exact ⟨_, "m".toList ++ (fmtInt _ ++ (fmtFrac u 9).1), by simp; rfl⟩
    · exact ⟨_, hone _ _ [] "s" rfl⟩
  obtain ⟨w, l, hformat⟩ := hsome
  have hne : fmtInt w ≠ [] := Nat.toDigits_ne_nil
  refine ⟨?_, fmtInt w ++ l, hformat, by simp [hne]⟩
  rw [hformat, List.append_assoc]
  exact head_fmtInt w _

theorem sign_of_digit {s : List Char} (h : ∀ c ∈ s.head?, c.isDigit = true) : sign s = (false, s) := by
  unfold sign
  split
  · exact absurd (h '-' rfl) (by decide)
  · exact absurd (h '+' rfl) (by decide)
  · rfl

theorem parse_text {d : ℤ} (hlow : -2 ^ 63 ≤ d) (hhigh : d < 2 ^ 63) : parse (text d) = .ok d := by
  obtain ⟨hhead, l, hends, hne⟩ := format_ends d.natAbs
  have hu : d.natAbs ≤ 2 ^ 63 := by omega
  have hzero : format d.natAbs ≠ ['0'] := by
    intro h
    rw [hends] at h
    have hlast := congrArg List.getLast? h
    simp at hlast
  have hempty : format d.natAbs ≠ [] := by
    rw [hends]
    simp
  unfold parse text
  rw [String.toList_ofList]
  by_cases hneg : d < 0
  · have hsign : sign ('-' :: format d.natAbs) = (true, format d.natAbs) := rfl
    rw [if_pos hneg, hsign]
    dsimp only
    rw [if_neg hzero, if_neg hempty, terms_format _ hu]
    dsimp only
    rw [if_pos rfl]
    congr 1
    omega
  · rw [if_neg hneg, sign_of_digit hhead]
    dsimp only
    rw [if_neg hzero, if_neg hempty, terms_format _ hu]
    dsimp only
    rw [if_neg (by decide), if_neg (by omega)]
    congr 1
    omega

theorem terms_le {orig : String} {fuel : ℕ} {s : List Char} {d total : ℕ} (hd : d ≤ 2 ^ 63)
    (h : terms orig fuel s d = .ok total) : total ≤ 2 ^ 63 := by
  induction fuel generalizing s d with
  | zero =>
    cases s with
    | nil =>
      obtain rfl := Except.ok.inj h
      exact hd
    | cons c s => exact absurd h (by simp [terms, invalid])
  | succ fuel ih =>
    cases s with
    | nil =>
      obtain rfl := Except.ok.inj h
      exact hd
    | cons c s =>
      rw [terms] at h
      cases hterm : term orig (c :: s) with
      | error e =>
        rw [hterm] at h
        exact absurd h (by simp)
      | ok r =>
        rw [hterm] at h
        dsimp only at h
        split_ifs at h with hlarge
        · exact absurd h (by simp [invalid])
        · exact ih (not_lt.mp hlarge) h

theorem parse_range {s : String} {d : ℤ} (h : parse s = .ok d) : -2 ^ 63 ≤ d ∧ d < 2 ^ 63 := by
  unfold parse at h
  dsimp only at h
  cases hterms : terms s (sign s.toList).2.length (sign s.toList).2 0 with
  | error e =>
    rw [hterms] at h
    split_ifs at h
    · obtain rfl := Except.ok.inj h
      decide
    · exact absurd h (by simp [invalid])
  | ok total =>
    have hle := terms_le (by decide) hterms
    rw [hterms] at h
    dsimp only at h
    split_ifs at h
    · obtain rfl := Except.ok.inj h
      decide
    · exact absurd h (by simp [invalid])
    · obtain rfl := Except.ok.inj h
      omega
    · exact absurd h (by simp [invalid])
    · obtain rfl := Except.ok.inj h
      omega

example : text (-90 * 10 ^ 9) = "-1m30s" := by decide +kernel
example : parse "1.5h" = .ok (5400 * 10 ^ 9) := by decide +kernel

end Smith.DurationText
