import Mathlib

set_option autoImplicit false

/-!
# Packings of sized items into bins

A packing gives each of finitely many items a bin and a size. The only two moves
are to put one item into a bin in which it then fits, and to take items out. The
bound on the bins follows from these moves alone, whatever chooses the bins.
-/
namespace Smith

structure Packing (ρ ν M : Type) where
  slot : ρ → Option (ν × M)
  items : Finset ρ
  mem_items : ∀ r, r ∈ items ↔ slot r ≠ none

namespace Packing
variable {ρ ν M : Type}

theorem ext_slot {P Q : Packing ρ ν M} (h : ∀ r, P.slot r = Q.slot r) : P = Q := by
  obtain ⟨s, i, hi⟩ := P
  obtain ⟨s', i', hi'⟩ := Q
  have hs : s = s' := funext h
  subst hs
  have hii : i = i' := Finset.ext fun r => (hi r).trans (hi' r).symm
  subst hii
  rfl

noncomputable section
open Classical

/-- Keep the items of `p` and take every other item out. -/
def restrict (P : Packing ρ ν M) (p : ρ → Prop) : Packing ρ ν M where
  slot r := if p r then P.slot r else none
  items := P.items.filter p
  mem_items r := by
    rw [Finset.mem_filter, P.mem_items]
    by_cases h : p r <;> simp [h]

def drop (P : Packing ρ ν M) (r : ρ) : Packing ρ ν M := P.restrict (· ≠ r)

/-- Move an item, new or not, into bin `n` with size `x`. -/
def put (P : Packing ρ ν M) (r : ρ) (n : ν) (x : M) : Packing ρ ν M where
  slot := Function.update P.slot r (some (n, x))
  items := insert r P.items
  mem_items q := by
    by_cases h : q = r
    · subst h
      simp
    · simp [h, P.mem_items]

theorem slot_restrict_pos (P : Packing ρ ν M) {p : ρ → Prop} {r : ρ} (h : p r) :
    (P.restrict p).slot r = P.slot r := if_pos h

theorem slot_restrict_neg (P : Packing ρ ν M) {p : ρ → Prop} {r : ρ} (h : ¬ p r) :
    (P.restrict p).slot r = none := if_neg h

theorem slot_drop (P : Packing ρ ν M) (r q : ρ) :
    (P.drop r).slot q = if q = r then none else P.slot q := by
  by_cases h : q = r <;> simp [drop, restrict, h]

theorem slot_put_self (P : Packing ρ ν M) (r : ρ) (n : ν) (x : M) :
    (P.put r n x).slot r = some (n, x) := by simp [put]

theorem slot_put_ne (P : Packing ρ ν M) {r q : ρ} (n : ν) (x : M) (h : q ≠ r) :
    (P.put r n x).slot q = P.slot q := by simp [put, h]

theorem drop_put (P : Packing ρ ν M) (r : ρ) (n : ν) (x : M) :
    (P.put r n x).drop r = P.drop r := by
  apply ext_slot
  intro q
  rw [slot_drop, slot_drop]
  split_ifs with h
  · rfl
  · exact slot_put_ne P n x h

theorem drop_of_none {P : Packing ρ ν M} {r : ρ} (h : P.slot r = none) : P.drop r = P := by
  apply ext_slot
  intro q
  rw [slot_drop]
  split_ifs with hq
  · rw [hq, h]
  · rfl

section Load
variable [AddCommMonoid M]

def share (P : Packing ρ ν M) (n : ν) (r : ρ) : M :=
  match P.slot r with
  | some (b, x) => if b = n then x else 0
  | none => 0

def load (P : Packing ρ ν M) (n : ν) : M := ∑ r ∈ P.items, P.share n r

theorem share_of_slot {P : Packing ρ ν M} {r : ρ} {b : ν} {x : M} (h : P.slot r = some (b, x))
    (n : ν) : P.share n r = if b = n then x else 0 := by
  simp only [share, h]

theorem share_of_none {P : Packing ρ ν M} {r : ρ} (h : P.slot r = none) (n : ν) :
    P.share n r = 0 := by
  simp only [share, h]

theorem load_drop (P : Packing ρ ν M) (r : ρ) (n : ν) :
    P.load n = (P.drop r).load n + P.share n r := by
  have hs : ∀ q ∈ P.items.erase r, (P.drop r).share n q = P.share n q := by
    intro q hq
    have hne : q ≠ r := Finset.ne_of_mem_erase hq
    simp only [share, slot_drop, hne, ↓reduceIte]
  have hi : (P.drop r).items = P.items.erase r := by
    ext q
    simp only [drop, restrict, Finset.mem_filter, Finset.mem_erase]
    exact and_comm
  rw [load, load, hi, Finset.sum_congr rfl hs]
  by_cases hr : r ∈ P.items
  · exact (Finset.sum_erase_add P.items _ hr).symm
  · rw [Finset.erase_eq_of_notMem hr]
    have hn : P.slot r = none := by simpa using (P.mem_items r).not.mp hr
    rw [share_of_none hn, add_zero]

theorem load_put (P : Packing ρ ν M) (r : ρ) (n m : ν) (x : M) :
    (P.put r n x).load m = (P.drop r).load m + if n = m then x else 0 := by
  rw [load_drop _ r, drop_put, share_of_slot (slot_put_self P r n x)]

theorem load_eq_zero {P : Packing ρ ν M} {n : ν} (h : ∀ r x, P.slot r ≠ some (n, x)) :
    P.load n = 0 := by
  apply Finset.sum_eq_zero
  intro r _
  cases hs : P.slot r with
  | none => exact share_of_none hs n
  | some s =>
    rw [share_of_slot hs]
    refine if_neg fun hb => h r s.2 ?_
    rw [hs, ← hb]

theorem load_restrict_eq {P : Packing ρ ν M} {p : ρ → Prop} {n : ν}
    (h : ∀ r x, P.slot r = some (n, x) → p r) : (P.restrict p).load n = P.load n := by
  have hs : ∀ r ∈ P.items.filter p, (P.restrict p).share n r = P.share n r := by
    intro r hr
    simp only [share, slot_restrict_pos P (Finset.mem_filter.mp hr).2]
  have hout : ∀ r ∈ P.items, r ∉ P.items.filter p → P.share n r = 0 := by
    intro r hr hf
    cases hslot : P.slot r with
    | none => exact share_of_none hslot n
    | some s =>
      rw [share_of_slot hslot]
      refine if_neg fun hb => hf (Finset.mem_filter.mpr ⟨hr, h r s.2 ?_⟩)
      rw [hslot, ← hb]
  exact (Finset.sum_congr rfl hs).trans (Finset.sum_subset (Finset.filter_subset p P.items) hout)

end Load

section Bounds
variable [AddCommMonoid M] [PartialOrder M]

def Nonneg (P : Packing ρ ν M) : Prop := ∀ r n x, P.slot r = some (n, x) → 0 ≤ x

theorem share_nonneg {P : Packing ρ ν M} (h : P.Nonneg) (n : ν) (r : ρ) : 0 ≤ P.share n r := by
  cases hs : P.slot r with
  | none => exact (share_of_none hs n).ge
  | some s =>
    rw [share_of_slot hs]
    split_ifs
    · exact h r s.1 s.2 hs
    · exact le_refl 0

theorem restrict_nonneg {P : Packing ρ ν M} (h : P.Nonneg) (p : ρ → Prop) :
    (P.restrict p).Nonneg := by
  intro r n x hs
  have hp : p r ∧ P.slot r = some (n, x) := by simpa [restrict] using hs
  exact h r n x hp.2

theorem put_nonneg {P : Packing ρ ν M} (h : P.Nonneg) {r : ρ} {n : ν} {x : M} (hx : 0 ≤ x) :
    (P.put r n x).Nonneg := by
  intro q m y hs
  by_cases hq : q = r
  · subst hq
    rw [slot_put_self] at hs
    obtain ⟨-, rfl⟩ := Prod.mk.inj (Option.some.inj hs)
    exact hx
  · rw [slot_put_ne P n x hq] at hs
    exact h q m y hs

/-- Every item of `V` sits in an admissible bin that is within its capacity. -/
def Settled (ok : ν → Prop) (cap : ν → M) (V : Set ρ) (P : Packing ρ ν M) : Prop :=
  ∀ r ∈ V, ∀ n x, P.slot r = some (n, x) → ok n ∧ P.load n ≤ cap n

variable {ok : ν → Prop} {cap : ν → M} {V : Set ρ}

theorem Settled.load_le {P : Packing ρ ν M} (h : P.Settled ok cap Set.univ) {n : ν}
    (hc : 0 ≤ cap n ∨ ∃ r x, P.slot r = some (n, x)) : P.load n ≤ cap n := by
  by_cases hi : ∃ r x, P.slot r = some (n, x)
  · obtain ⟨r, x, hs⟩ := hi
    exact (h r (Set.mem_univ r) n x hs).2
  · have hz : P.load n = 0 := load_eq_zero fun r x hs => hi ⟨r, x, hs⟩
    rw [hz]
    exact hc.resolve_right hi

/-- A new item settles where it then fits, whatever the sizes are. -/
theorem Settled.put_new {P : Packing ρ ν M} (h : P.Settled ok cap Set.univ) {r : ρ} {n : ν} {x : M}
    (hr : P.slot r = none) (hok : ok n) (hfit : P.load n + x ≤ cap n) :
    (P.put r n x).Settled ok cap Set.univ := by
  intro q _ m y hs
  rw [load_put, drop_of_none hr]
  by_cases hm : n = m
  · subst hm
    rw [if_pos rfl]
    exact ⟨hok, hfit⟩
  · rw [if_neg hm, add_zero]
    have hq : q ≠ r := by
      rintro rfl
      rw [slot_put_self] at hs
      exact hm (congrArg Prod.fst (Option.some.inj hs))
    rw [slot_put_ne P n x hq] at hs
    exact h q (Set.mem_univ q) m y hs

/-- Emptying bins altogether leaves the other items settled, whatever the sizes are. -/
theorem Settled.restrict_bins {P : Packing ρ ν M} (h : P.Settled ok cap Set.univ) (keep : ν → Prop)
    {ok' : ν → Prop} (hok : ∀ n, ok n → keep n → ok' n) {p : ρ → Prop}
    (hp : ∀ r n x, P.slot r = some (n, x) → (p r ↔ keep n)) :
    (P.restrict p).Settled ok' cap Set.univ := by
  intro r hr n x hs
  have hslot : p r ∧ P.slot r = some (n, x) := by simpa [Packing.restrict] using hs
  have hkeep := (hp r n x hslot.2).mp hslot.1
  have hb := h r hr n x hslot.2
  rw [load_restrict_eq fun q y hq => (hp q n y hq).mpr hkeep]
  exact ⟨hok n hb.1 hkeep, hb.2⟩

variable [IsOrderedAddMonoid M]

theorem load_restrict_le {P : Packing ρ ν M} (h : P.Nonneg) (p : ρ → Prop) (n : ν) :
    (P.restrict p).load n ≤ P.load n := by
  have hs : ∀ r ∈ P.items.filter p, (P.restrict p).share n r = P.share n r := by
    intro r hr
    have hp : p r := (Finset.mem_filter.mp hr).2
    simp only [share, restrict, hp, ↓reduceIte]
  calc
    (P.restrict p).load n = ∑ r ∈ P.items.filter p, P.share n r := Finset.sum_congr rfl hs
    _ ≤ P.load n := Finset.sum_le_sum_of_subset_of_nonneg (Finset.filter_subset p P.items)
        fun r _ _ => share_nonneg h n r

theorem Settled.restrict {P : Packing ρ ν M} (h : P.Settled ok cap V) (hn : P.Nonneg)
    (p : ρ → Prop) : (P.restrict p).Settled ok cap V := by
  intro r hr n x hs
  have hp : p r ∧ P.slot r = some (n, x) := by simpa [Packing.restrict] using hs
  have hb := h r hr n x hp.2
  exact ⟨hb.1, (load_restrict_le hn p n).trans hb.2⟩

/-- Putting an item where it then fits settles that item and unsettles none,
    because every other bin only loses load. -/
theorem Settled.put {P : Packing ρ ν M} (h : P.Settled ok cap V) (hn : P.Nonneg) {r : ρ} {n : ν}
    {x : M} (hok : ok n) (hfit : (P.put r n x).load n ≤ cap n) :
    (P.put r n x).Settled ok cap (insert r V) := by
  intro q hq m y hs
  by_cases hm : n = m
  · subst hm
    exact ⟨hok, hfit⟩
  · have hqr : q ≠ r := by
      rintro rfl
      rw [slot_put_self] at hs
      exact hm (Prod.mk.inj (Option.some.inj hs)).1
    rw [slot_put_ne P n x hqr] at hs
    have hb := h q (Set.mem_of_mem_insert_of_ne hq hqr) m y hs
    refine ⟨hb.1, ?_⟩
    rw [load_put, if_neg hm, add_zero]
    exact (load_restrict_le hn _ m).trans hb.2

theorem Settled.drop {P : Packing ρ ν M} (h : P.Settled ok cap V) (hn : P.Nonneg) (r : ρ) :
    (P.drop r).Settled ok cap (insert r V) := by
  intro q hq m y hs
  rw [slot_drop] at hs
  by_cases hqr : q = r
  · simp [hqr] at hs
  · simp only [hqr, ↓reduceIte] at hs
    have hb := h q (Set.mem_of_mem_insert_of_ne hq hqr) m y hs
    exact ⟨hb.1, (load_restrict_le hn _ m).trans hb.2⟩

end Bounds
end
end Packing
end Smith
