import Smith.IPv4

set_option autoImplicit false

/-!
# Forwarding packets

The first rule of a chain that says something about a packet decides. A rule either states
its matches, or it is another program's and known by its name, what it says being left open.
Of the routes that cover an address the most specific is taken.
-/
namespace Smith.Forwarding
open IPv4

structure Packet where
  src : Addr
  dst : Addr
  deriving DecidableEq, Repr

inductive Rule (V : Type) where
  | spec (src dst notDst : Option Block) (verdict : V)
  | foreign (name : String)
  deriving DecidableEq

section Chains
variable {V : Type} (foreign : String → Packet → Option V)

def Rule.verdict : Rule V → Packet → Option V
  | .spec src dst notDst v, pkt =>
    if (∀ k ∈ src, k.Contains pkt.src) ∧ (∀ k ∈ dst, k.Contains pkt.dst) ∧
        ∀ k ∈ notDst, ¬k.Contains pkt.dst then some v else none
  | .foreign name, pkt => foreign name pkt

def outcome (rules : List (Rule V)) (pkt : Packet) : Option V :=
  rules.findSome? fun r => r.verdict foreign pkt

/-- The rule is in the chain, and those before it are as `ok` says. -/
def Reached (ok : Rule V → Prop) (r : Rule V) : List (Rule V) → Prop
  | [] => False
  | q :: rules => q = r ∨ ok q ∧ Reached ok r rules

variable {foreign} {ok : Rule V → Prop} {r q : Rule V} {rules : List (Rule V)}

theorem Reached.cons (h : Reached ok r rules) (hq : ok q) : Reached ok r (q :: rules) :=
  .inr ⟨hq, h⟩

theorem Reached.insertIdx (h : Reached ok r rules) (hq : ok q) (n : ℕ) :
    Reached ok r (rules.insertIdx n q) := by
  induction rules generalizing n with
  | nil => exact h.elim
  | cons p rules ih =>
    cases n with
    | zero => exact h.cons hq
    | succ n =>
      rw [List.insertIdx_succ_cons]
      obtain rfl | h := h
      · exact .inl rfl
      · exact .inr ⟨h.1, ih h.2 n⟩

theorem Reached.insertIdx_of_lt [DecidableEq V] (h : Reached ok r rules) {n : ℕ}
    (hn : rules.idxOf r < n) (q : Rule V) : Reached ok r (rules.insertIdx n q) := by
  induction rules generalizing n with
  | nil => exact h.elim
  | cons p rules ih =>
    cases n with
    | zero => omega
    | succ n =>
      rw [List.insertIdx_succ_cons]
      by_cases hp : p = r
      · exact .inl hp
      · obtain ⟨hok, h⟩ := h.resolve_left hp
        rw [List.idxOf_cons_ne rules hp] at hn
        exact .inr ⟨hok, ih h (by omega)⟩

theorem Reached.erase [DecidableEq V] (h : Reached ok r rules) (hq : q ≠ r) :
    Reached ok r (rules.erase q) := by
  induction rules with
  | nil => exact h.elim
  | cons p rules ih =>
    rw [List.erase_cons]
    split_ifs with hp
    · obtain rfl : p = q := beq_iff_eq.mp hp
      exact (h.resolve_left hq).2
    · obtain rfl | h := h
      · exact .inl rfl
      · exact .inr ⟨h.1, ih h.2⟩

/-- A rule that is reached decides, if those before it do not decide otherwise. -/
theorem Reached.outcome_eq {pkt : Packet} {v : V} (h : Reached ok r rules)
    (hok : ∀ q, ok q → q.verdict foreign pkt = none ∨ q.verdict foreign pkt = some v)
    (hr : r.verdict foreign pkt = some v) : outcome foreign rules pkt = some v := by
  induction rules with
  | nil => exact h.elim
  | cons q rules ih =>
    rw [outcome, List.findSome?_cons]
    obtain rfl | ⟨hq, h⟩ := h
    · rw [hr]
    · obtain hnone | hsome := hok q hq
      · rw [hnone]
        exact ih h
      · rw [hsome]

theorem outcome_ne {pkt : Packet} {v : V}
    (h : ∀ q ∈ rules, q.verdict foreign pkt ≠ some v) : outcome foreign rules pkt ≠ some v := by
  intro hv
  obtain ⟨q, hq, hverdict⟩ := List.exists_of_findSome?_eq_some hv
  exact h q hq hverdict

end Chains

section Routes

/-- The only most specific route that covers the address is taken. -/
theorem argmax_of_forall_lt {ρ : Type} {f : ρ → ℕ} {l : List ρ} {m : ρ} (hm : m ∈ l)
    (h : ∀ a ∈ l, a ≠ m → f a < f m) : l.argmax f = some m := by
  cases hmax : l.argmax f with
  | none =>
    rw [List.argmax_eq_none] at hmax
    rw [hmax] at hm
    exact absurd hm List.not_mem_nil
  | some n =>
    have hle := List.le_of_mem_argmax hm hmax
    by_cases hn : n = m
    · rw [hn]
    · have hlt := h n (List.argmax_mem hmax) hn
      omega

end Routes

/-- The bits after the mask are clear. -/
def Normal (k : Block) : Prop := 2 ^ (32 - k.ones) ∣ k.base.toNat

theorem normal_of_parse {s : String} {k : Block} (h : parseCIDR s = some k) : Normal k := by
  unfold parseCIDR at h
  split at h
  · split at h
    · rename_i x n hx hn
      obtain rfl := Option.some.inj h
      have hle : x.toNat / 2 ^ (32 - n) * 2 ^ (32 - n) < 2 ^ 32 :=
        (Nat.div_mul_le_self _ _).trans_lt x.toNat_lt
      rw [Normal, Addr.toNat_ofNat hle]
      exact Nat.dvd_mul_left _ _
    · exact absurd h (by simp)
  · exact absurd h (by simp)

/-- Blocks of one size that share an address are one block. -/
theorem Normal.eq_of_contains {k l : Block} (hk : Normal k) (hl : Normal l)
    (hones : k.ones = l.ones) {x : Addr} (hkx : k.Contains x) (hlx : l.Contains x) : k = l := by
  obtain ⟨base, n⟩ := k
  obtain ⟨base', n'⟩ := l
  obtain rfl : n = n' := hones
  have hquot : base.toNat / 2 ^ (32 - n) = base'.toNat / 2 ^ (32 - n) := hkx.symm.trans hlx
  have hnat : base.toNat = base'.toNat := by
    rw [← Nat.div_mul_cancel hk, ← Nat.div_mul_cancel hl]
    exact congrArg (· * _) hquot
  rw [← base.ofNat_toNat, hnat, base'.ofNat_toNat]

end Smith.Forwarding
