import Mathlib

set_option autoImplicit false

/-!
# IPv4 addresses and blocks as text

Dotted-quad addresses and CIDR blocks with the parsers of a strict reader: exactly four
decimal fields, no leading zeros, each at most 255. An address is also a 32-bit number
in network byte order, and a block holds the addresses that agree on its leading bits.
-/
namespace Smith.IPv4

structure Addr where
  a : Fin 256
  b : Fin 256
  c : Fin 256
  d : Fin 256
  deriving DecidableEq, Repr

def Addr.toNat (x : Addr) : ℕ := ((x.a * 256 + x.b) * 256 + x.c) * 256 + x.d

def Addr.ofNat (n : ℕ) : Addr :=
  ⟨Fin.ofNat 256 (n / 2 ^ 24), Fin.ofNat 256 (n / 2 ^ 16), Fin.ofNat 256 (n / 2 ^ 8), Fin.ofNat 256 n⟩

def Addr.text (x : Addr) : String := s!"{x.a.val}.{x.b.val}.{x.c.val}.{x.d.val}"

/-- One field of an address: digits without a leading zero, at most 255. -/
def octet (l : List Char) : Option (Fin 256) :=
  if l ≠ [] ∧ l.all Char.isDigit ∧ (l.head? = some '0' → l.length = 1) then
    if h : Nat.ofDigitChars 10 l 0 < 256 then some ⟨Nat.ofDigitChars 10 l 0, h⟩ else none
  else none

def parseFields (l : List Char) : Option Addr :=
  match l.splitOn '.' with
  | [a, b, c, d] =>
    match octet a, octet b, octet c, octet d with
    | some a, some b, some c, some d => some ⟨a, b, c, d⟩
    | _, _, _, _ => none
  | _ => none

def parse (s : String) : Option Addr := parseFields s.toList

/-- The addresses that agree with `base` on the first `ones` bits. -/
structure Block where
  base : Addr
  ones : ℕ
  deriving DecidableEq, Repr

def Block.text (k : Block) : String := k.base.text ++ "/" ++ toString k.ones

def Block.Contains (k : Block) (x : Addr) : Prop :=
  x.toNat / 2 ^ (32 - k.ones) = k.base.toNat / 2 ^ (32 - k.ones)

instance (k : Block) (x : Addr) : Decidable (k.Contains x) :=
  inferInstanceAs (Decidable (_ = _))

def Block.Within (k l : Block) : Prop := ∀ x, k.Contains x → l.Contains x

def Block.Disjoint (k l : Block) : Prop := ∀ x, k.Contains x → ¬ l.Contains x

/-- The number of leading ones of a mask: digits, at most 32. -/
def maskBits (l : List Char) : Option ℕ :=
  if l ≠ [] ∧ l.all Char.isDigit ∧ Nat.ofDigitChars 10 l 0 ≤ 32 then
    some (Nat.ofDigitChars 10 l 0)
  else none

/-- A block in CIDR notation. The bits after the mask are cleared. -/
def parseCIDR (s : String) : Option Block :=
  match s.toList.splitOn '/' with
  | [addr, mask] =>
    match parseFields addr, maskBits mask with
    | some x, some n => some ⟨.ofNat (x.toNat / 2 ^ (32 - n) * 2 ^ (32 - n)), n⟩
    | _, _ => none
  | _ => none

theorem Addr.toNat_ofNat {n : ℕ} (h : n < 2 ^ 32) : (Addr.ofNat n).toNat = n := by
  simp only [toNat, ofNat, Fin.val_ofNat]
  omega

theorem Addr.ofNat_toNat (x : Addr) : Addr.ofNat x.toNat = x := by
  obtain ⟨a, b, c, d⟩ := x
  simp only [ofNat, toNat, Addr.mk.injEq, Fin.ext_iff, Fin.val_ofNat]
  omega

theorem octet_toDigits (k : Fin 256) : octet (Nat.toDigits 10 k) = some k := by
  revert k
  decide +kernel

theorem maskBits_toDigits {n : ℕ} (h : n ≤ 32) : maskBits (Nat.toDigits 10 n) = some n := by
  have hall : ∀ k : Fin 33, maskBits (Nat.toDigits 10 k) = some k.val := by decide +kernel
  exact hall ⟨n, by omega⟩

theorem notMem_toDigits {c : Char} (hc : c.isDigit = false) (n : ℕ) : c ∉ Nat.toDigits 10 n := by
  intro hm
  have hd := Nat.isDigit_of_mem_toDigits (by decide) (by decide) hm
  rw [hc] at hd
  exact Bool.false_ne_true hd

theorem Addr.toList_text (x : Addr) : x.text.toList =
    ['.'].intercalate [Nat.toDigits 10 x.a, Nat.toDigits 10 x.b, Nat.toDigits 10 x.c,
      Nat.toDigits 10 x.d] := by
  simp [text, List.intercalate, toString, Nat.toList_repr]

theorem parseFields_text (x : Addr) : parseFields x.text.toList = some x := by
  have hdot : ∀ l ∈ [Nat.toDigits 10 x.a.val, Nat.toDigits 10 x.b.val, Nat.toDigits 10 x.c.val,
      Nat.toDigits 10 x.d.val], '.' ∉ l := by
    simp only [List.forall_mem_cons]
    exact ⟨notMem_toDigits rfl _, notMem_toDigits rfl _, notMem_toDigits rfl _,
      notMem_toDigits rfl _, by simp⟩
  rw [parseFields, Addr.toList_text, List.splitOn_intercalate '.' hdot (by simp)]
  simp only [octet_toDigits]

theorem parse_text (x : Addr) : parse x.text = some x := parseFields_text x

theorem notMem_text (x : Addr) {c : Char} (hc : c.isDigit = false) (hdot : c ≠ '.') :
    c ∉ x.text.toList := by
  rw [Addr.toList_text]
  simp [List.intercalate, notMem_toDigits hc, hdot]

theorem splitOn_slash (x : Addr) (n : ℕ) :
    (x.text ++ "/" ++ toString n).toList.splitOn '/' = [x.text.toList, Nat.toDigits 10 n] := by
  have hlist : (x.text ++ "/" ++ toString n).toList =
      ['/'].intercalate [x.text.toList, Nat.toDigits 10 n] := by
    simp [List.intercalate, toString, Nat.toList_repr]
  have hslash : ∀ l ∈ [x.text.toList, Nat.toDigits 10 n], '/' ∉ l := by
    simp only [List.forall_mem_cons]
    exact ⟨notMem_text x rfl (by decide), notMem_toDigits rfl n, by simp⟩
  rw [hlist, List.splitOn_intercalate '/' hslash (by simp)]

theorem parseCIDR_text (x : Addr) {n : ℕ} (h : n ≤ 32) :
    parseCIDR (x.text ++ "/" ++ toString n) =
      some ⟨.ofNat (x.toNat / 2 ^ (32 - n) * 2 ^ (32 - n)), n⟩ := by
  rw [parseCIDR, splitOn_slash]
  simp only [parseFields_text, maskBits_toDigits h]

theorem Addr.toNat_lt (x : Addr) : x.toNat < 2 ^ 32 := by
  have := x.a.isLt
  have := x.b.isLt
  have := x.c.isLt
  have := x.d.isLt
  unfold toNat
  omega

/-- The text of a block that was read reads back as the block. -/
theorem parseCIDR_text_of_parse {s : String} {k : Block} (h : parseCIDR s = some k) :
    parseCIDR k.text = some k := by
  unfold parseCIDR at h
  split at h
  · rename_i addr mask hsplit
    split at h
    · rename_i x n hx hn
      have hle : n ≤ 32 := by
        unfold maskBits at hn
        split_ifs at hn with hmask
        rw [← Option.some.inj hn]
        exact hmask.2.2
      have hlt : x.toNat / 2 ^ (32 - n) * 2 ^ (32 - n) < 2 ^ 32 :=
        (Nat.div_mul_le_self _ _).trans_lt x.toNat_lt
      obtain rfl := Option.some.inj h
      rw [Block.text, parseCIDR_text _ hle, Addr.toNat_ofNat hlt,
        Nat.mul_div_cancel _ (Nat.two_pow_pos _)]
    · exact absurd h (by simp)
  · exact absurd h (by simp)

theorem Addr.text_injective : Function.Injective Addr.text := by
  intro x y h
  exact Option.some.inj ((parse_text x).symm.trans ((congrArg parse h).trans (parse_text y)))

theorem Block.text_injective : Function.Injective Block.text := by
  rintro ⟨x, n⟩ ⟨y, m⟩ h
  have hsplit := congrArg (fun s : String => s.toList.splitOn '/') h
  simp only [Block.text, splitOn_slash, List.cons.injEq, and_true] at hsplit
  have hx := Addr.text_injective (String.toList_inj.mp hsplit.1)
  have hn : n = m := by
    have := congrArg (fun l => Nat.ofDigitChars 10 l 0) hsplit.2
    simpa only [Nat.ofDigitChars_ten_toDigits] using this
  exact congrArg₂ Block.mk hx hn

/-- The base of a parsed /16 ends in two zero octets. -/
theorem parseCIDR_sixteen {s : String} {x : Addr} (h : parseCIDR s = some ⟨x, 16⟩) :
    x = ⟨x.a, x.b, 0, 0⟩ := by
  unfold parseCIDR at h
  split at h
  · split at h
    · rename_i y n hy hn
      obtain ⟨rfl, rfl⟩ := Block.mk.inj (Option.some.inj h)
      simp only [Addr.ofNat, Addr.mk.injEq, Fin.ext_iff, Fin.val_ofNat, Fin.val_zero, true_and]
      omega
    · exact absurd h (by simp)
  · exact absurd h (by simp)

theorem contains_sixteen (a b : Fin 256) (x : Addr) :
    (Block.mk ⟨a, b, 0, 0⟩ 16).Contains x ↔ x.a = a ∧ x.b = b := by
  obtain ⟨xa, xb, xc, xd⟩ := x
  simp only [Block.Contains, Addr.toNat, Fin.ext_iff, Fin.val_zero]
  omega

theorem contains_twentyFour (a b c : Fin 256) (x : Addr) :
    (Block.mk ⟨a, b, c, 0⟩ 24).Contains x ↔ x.a = a ∧ x.b = b ∧ x.c = c := by
  obtain ⟨xa, xb, xc, xd⟩ := x
  simp only [Block.Contains, Addr.toNat, Fin.ext_iff, Fin.val_zero]
  omega

theorem within_sixteen (a b c : Fin 256) : (Block.mk ⟨a, b, c, 0⟩ 24).Within ⟨⟨a, b, 0, 0⟩, 16⟩ := by
  intro x hx
  obtain ⟨ha, hb, -⟩ := (contains_twentyFour a b c x).mp hx
  exact (contains_sixteen a b x).mpr ⟨ha, hb⟩

/-- A finer block lies in a coarser one that holds its base. -/
theorem within_of_contains {k l : Block} (h : l.Contains k.base) (hones : l.ones ≤ k.ones) :
    k.Within l := by
  intro x hx
  have hsplit : 2 ^ (32 - l.ones) = 2 ^ (32 - k.ones) * 2 ^ ((32 - l.ones) - (32 - k.ones)) := by
    rw [← pow_add]
    congr 1
    omega
  unfold Block.Contains at hx h ⊢
  rw [← h, hsplit, ← Nat.div_div_eq_div_mul, ← Nat.div_div_eq_div_mul, hx]

theorem disjoint_twentyFour {a b c c' : Fin 256} (h : c ≠ c') :
    (Block.mk ⟨a, b, c, 0⟩ 24).Disjoint ⟨⟨a, b, c', 0⟩, 24⟩ := by
  intro x hx hx'
  rw [contains_twentyFour] at hx hx'
  exact h (hx.2.2.symm.trans hx'.2.2)

end Smith.IPv4
