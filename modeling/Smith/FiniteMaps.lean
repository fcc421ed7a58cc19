import Mathlib

set_option autoImplicit false

/-!
# Keyed tables with zero defaults

Extensional tree maps read like hash tables: a missing key reads as a default,
and an accumulating loop `table[key] += amount` is `bump`. The table such a loop
leaves behind is a finite sum over the keys of the map it ranges over, so no
result below depends on the order of the iteration.
-/
namespace Smith.FiniteMaps
open Std

variable {κ ν β M : Type} {cmp : κ → κ → Ordering} [TransCmp cmp]

theorem getD_eq (t : ExtTreeMap κ β cmp) (k : κ) (d : β) : t.getD k d = t[k]?.getD d :=
  ExtTreeMap.getD_eq_getD_getElem?

variable [LawfulEqCmp cmp]

theorem lookup_filter (t : ExtTreeMap κ β cmp) (f : κ → β → Bool) (k : κ) :
    (t.filter f)[k]? = t[k]?.filter (f k) :=
  ExtTreeMap.getElem?_filter'

theorem forall_lookup_iff {t : ExtTreeMap κ β cmp} {P : κ → β → Prop} :
    (∀ k v, t[k]? = some v → P k v) ↔ ∀ e ∈ t.toList, P e.1 e.2 := by
  simp [Prod.forall, ExtTreeMap.mem_toList_iff_getElem?_eq_some]

theorem mem_keys_iff (t : ExtTreeMap κ β cmp) (k : κ) : k ∈ t.keys ↔ t[k]? ≠ none := by
  rw [ExtTreeMap.mem_keys, ExtTreeMap.mem_iff_isSome_getElem?, Option.isSome_iff_ne_none]

theorem mem_keys_of_lookup {t : ExtTreeMap κ β cmp} {k : κ} {v : β} (h : t[k]? = some v) :
    k ∈ t.keys := by
  rw [mem_keys_iff, h]
  exact Option.some_ne_none v

section Lookup
variable [DecidableEq κ]

theorem lookup_insert (t : ExtTreeMap κ β cmp) (k a : κ) (v : β) :
    (t.insert k v)[a]? = if k = a then some v else t[a]? := by
  rw [ExtTreeMap.getElem?_insert]
  simp only [LawfulEqCmp.compare_eq_iff_eq]

@[simp] theorem lookup_insert_self (t : ExtTreeMap κ β cmp) (k : κ) (v : β) :
    (t.insert k v)[k]? = some v := by
  rw [lookup_insert, if_pos rfl]

theorem lookup_insert_ne (t : ExtTreeMap κ β cmp) {k a : κ} (v : β) (h : k ≠ a) :
    (t.insert k v)[a]? = t[a]? := by
  rw [lookup_insert, if_neg h]

theorem lookup_erase (t : ExtTreeMap κ β cmp) (k a : κ) :
    (t.erase k)[a]? = if k = a then none else t[a]? := by
  rw [ExtTreeMap.getElem?_erase]
  simp only [LawfulEqCmp.compare_eq_iff_eq]

@[simp] theorem lookup_erase_self (t : ExtTreeMap κ β cmp) (k : κ) : (t.erase k)[k]? = none := by
  rw [lookup_erase, if_pos rfl]

theorem getD_insert (t : ExtTreeMap κ β cmp) (k a : κ) (v d : β) :
    (t.insert k v).getD a d = if k = a then v else t.getD a d := by
  rw [getD_eq, lookup_insert, getD_eq]
  split_ifs <;> rfl

theorem getD_erase (t : ExtTreeMap κ β cmp) (k a : κ) (d : β) :
    (t.erase k).getD a d = if k = a then d else t.getD a d := by
  rw [getD_eq, lookup_erase, getD_eq]
  split_ifs <;> rfl

theorem lookup_erase_ne (t : ExtTreeMap κ β cmp) {k a : κ} (h : k ≠ a) :
    (t.erase k)[a]? = t[a]? := by
  rw [lookup_erase, if_neg h]

theorem insert_of_lookup (t : ExtTreeMap κ β cmp) {k : κ} {v : β} (h : t[k]? = some v) :
    t.insert k v = t := by
  apply ExtTreeMap.ext_getElem?
  intro a
  rw [lookup_insert]
  split_ifs with hk
  · rw [← hk, h]
  · rfl

theorem erase_of_lookup (t : ExtTreeMap κ β cmp) {k : κ} (h : t[k]? = none) : t.erase k = t := by
  apply ExtTreeMap.ext_getElem?
  intro a
  rw [lookup_erase]
  split_ifs with ha
  · rw [← ha, h]
  · rfl

theorem lookup_foldl_erase (t : ExtTreeMap κ β cmp) (l : List κ) (a : κ) :
    (l.foldl (fun t k => t.erase k) t)[a]? = if a ∈ l then none else t[a]? := by
  induction l generalizing t with
  | nil => simp
  | cons k l ih =>
    rw [List.foldl_cons, ih, lookup_erase]
    by_cases hk : k = a
    · simp [hk]
    · simp only [List.mem_cons, Ne.symm hk, false_or, if_neg hk]

/-- Inserting pairs that agree wherever their keys do. -/
theorem lookup_foldl_insert {l : List (κ × β)} (hl : ∀ e ∈ l, ∀ d ∈ l, e.1 = d.1 → e.2 = d.2)
    (t : ExtTreeMap κ β cmp) (k : κ) (v : β) :
    (l.foldl (fun t e => t.insert e.1 e.2) t)[k]? = some v ↔
      (k, v) ∈ l ∨ (k ∉ l.map Prod.fst ∧ t[k]? = some v) := by
  induction l generalizing t with
  | nil => simp
  | cons e l ih =>
    have hl' : ∀ a ∈ l, ∀ d ∈ l, a.1 = d.1 → a.2 = d.2 := fun a ha d hd =>
      hl a (List.mem_cons_of_mem e ha) d (List.mem_cons_of_mem e hd)
    rw [List.foldl_cons, ih hl', lookup_insert, List.mem_cons, List.map_cons, List.mem_cons, not_or]
    by_cases hk : e.1 = k
    · subst hk
      by_cases hm : e.1 ∈ l.map Prod.fst
      · obtain ⟨d, hd, hde⟩ := List.mem_map.mp hm
        have hv := hl d (List.mem_cons_of_mem e hd) e List.mem_cons_self hde
        have hdl : (e.1, e.2) ∈ l := by rwa [← hv, ← hde]
        constructor
        · rintro (h | h)
          · exact .inl (.inr h)
          · exact absurd hm h.1
        · rintro ((h | h) | h)
          · rw [(Prod.mk.inj h).2]
            exact .inl hdl
          · exact .inl h
          · exact absurd rfl h.1.1
      · simp only [hm, not_false_eq_true, true_and, if_pos, Option.some.injEq]
        constructor
        · rintro (h | h)
          · exact .inl (.inr h)
          · exact .inl (.inl (h ▸ rfl))
        · rintro ((h | h) | h)
          · exact .inr (congrArg Prod.snd h).symm
          · exact .inl h
          · exact absurd trivial h.1.1
    · have hne : (k, v) ≠ e := fun h => hk (by rw [← h])
      simp only [hne, false_or, if_neg hk, Ne.symm hk, not_false_eq_true, true_and]

theorem insert_insert (t : ExtTreeMap κ β cmp) (k : κ) (v w : β) :
    (t.insert k v).insert k w = t.insert k w := by
  apply ExtTreeMap.ext_getElem?
  intro a
  rw [lookup_insert, lookup_insert, lookup_insert]
  split_ifs <;> rfl

theorem erase_insert (t : ExtTreeMap κ β cmp) (k : κ) (v : β) :
    (t.insert k v).erase k = t.erase k := by
  apply ExtTreeMap.ext_getElem?
  intro a
  rw [lookup_erase, lookup_erase, lookup_insert]
  split_ifs <;> rfl

theorem insert_erase (t : ExtTreeMap κ β cmp) (k : κ) (v : β) :
    (t.erase k).insert k v = t.insert k v := by
  apply ExtTreeMap.ext_getElem?
  intro a
  rw [lookup_insert, lookup_insert, lookup_erase]
  split_ifs <;> rfl

end Lookup

section Tally
variable {cmpν : ν → ν → Ordering} [TransCmp cmpν] [LawfulEqCmp cmpν] [DecidableEq ν]
  [AddCommMonoid M]

/-- `table[k] += x` on a table whose missing keys read as zero. -/
def bump (t : ExtTreeMap ν M cmpν) (k : ν) (x : M) : ExtTreeMap ν M cmpν :=
  t.insert k (t.getD k 0 + x)

theorem getD_bump (t : ExtTreeMap ν M cmpν) (k n : ν) (x : M) :
    (bump t k x).getD n 0 = t.getD n 0 + if k = n then x else 0 := by
  rw [bump, getD_insert]
  split_ifs with h
  · rw [h]
  · rw [add_zero]

/-- The table left by ranging over `t` and bumping the key `g k v` by `f k v`. -/
def tally (t : ExtTreeMap κ β cmp) (g : κ → β → ν) (f : κ → β → M) : ExtTreeMap ν M cmpν :=
  t.foldl (fun acc k v => bump acc (g k v) (f k v)) ∅

theorem getD_foldl_bump (l : List (κ × β)) (g : κ → β → ν) (f : κ → β → M)
    (acc : ExtTreeMap ν M cmpν) (n : ν) :
    (l.foldl (fun a e => bump a (g e.1 e.2) (f e.1 e.2)) acc).getD n 0 =
      acc.getD n 0 + (l.map fun e => if g e.1 e.2 = n then f e.1 e.2 else 0).sum := by
  induction l generalizing acc with
  | nil => simp
  | cons e l ih =>
    rw [List.foldl_cons, ih, getD_bump, List.map_cons, List.sum_cons, add_assoc]

omit [LawfulEqCmp cmp] in
theorem getD_tally_sum (t : ExtTreeMap κ β cmp) (g : κ → β → ν) (f : κ → β → M) (n : ν) :
    (tally t g f : ExtTreeMap ν M cmpν).getD n 0 =
      (t.toList.map fun e => if g e.1 e.2 = n then f e.1 e.2 else 0).sum := by
  have he : (∅ : ExtTreeMap ν M cmpν).getD n 0 = 0 := by simp [getD_eq]
  rw [tally, ExtTreeMap.foldl_eq_foldl_toList, getD_foldl_bump, he, zero_add]

omit [LawfulEqCmp cmp] in
/-- A tally of images is the image of the tally. -/
theorem getD_tally_map {N : Type} [AddCommMonoid N] (φ : M →+ N) (t : ExtTreeMap κ β cmp)
    (g : κ → β → ν) (f : κ → β → M) (n : ν) :
    (tally t g (fun k v => φ (f k v)) : ExtTreeMap ν N cmpν).getD n 0 =
      φ ((tally t g f : ExtTreeMap ν M cmpν).getD n 0) := by
  rw [getD_tally_sum, getD_tally_sum, map_list_sum, List.map_map]
  congr 1
  apply List.map_congr_left
  intro e _
  rw [Function.comp_apply, apply_ite φ, map_zero]

omit [LawfulEqCmp cmp] in
theorem getD_tally_count (t : ExtTreeMap κ β cmp) (g : κ → β → ν) (n : ν) :
    (tally t g (fun _ _ => 1) : ExtTreeMap ν ℤ cmpν).getD n 0 =
      (t.toList.filter fun e => g e.1 e.2 = n).length := by
  rw [getD_tally_sum]
  induction t.toList with
  | nil => rfl
  | cons e l ih =>
    rw [List.map_cons, List.sum_cons, ih]
    by_cases h : g e.1 e.2 = n
    · simp [h, add_comm]
    · simp [h]

theorem lookup_foldl_bump_ne_none (l : List (κ × β)) (g : κ → β → ν) (f : κ → β → M)
    (acc : ExtTreeMap ν M cmpν) (n : ν) :
    (l.foldl (fun a e => bump a (g e.1 e.2) (f e.1 e.2)) acc)[n]? ≠ none ↔
      acc[n]? ≠ none ∨ ∃ e ∈ l, g e.1 e.2 = n := by
  induction l generalizing acc with
  | nil => simp
  | cons e l ih =>
    rw [List.foldl_cons, ih, bump, lookup_insert]
    by_cases h : g e.1 e.2 = n <;> simp [h]

theorem mem_keys_tally (t : ExtTreeMap κ β cmp) (g : κ → β → ν) (f : κ → β → M) (n : ν) :
    n ∈ (tally t g f : ExtTreeMap ν M cmpν).keys ↔ ∃ k v, t[k]? = some v ∧ g k v = n := by
  rw [mem_keys_iff, tally, ExtTreeMap.foldl_eq_foldl_toList, lookup_foldl_bump_ne_none]
  simp [ExtTreeMap.mem_toList_iff_getElem?_eq_some]

def entry (t : ExtTreeMap κ β cmp) (f : κ → β → M) (k : κ) : M := (t[k]?.map (f k)).getD 0

variable [DecidableEq κ]

theorem sum_toList (t : ExtTreeMap κ β cmp) (f : κ → β → M) :
    (t.toList.map fun e => f e.1 e.2).sum = ∑ k ∈ t.keys.toFinset, entry t f k := by
  have hk : (t.keys.map (entry t f)).sum = ∑ k ∈ t.keys.toFinset, entry t f k :=
    (List.sum_toFinset _ ExtTreeMap.nodup_keys).symm
  rw [← hk, ← ExtTreeMap.map_fst_toList_eq_keys, List.map_map]
  congr 1
  apply List.map_congr_left
  intro e he
  have hv : t[e.1]? = some e.2 := ExtTreeMap.mem_toList_iff_getElem?_eq_some.mp he
  simp [entry, hv]

theorem getD_tally (t : ExtTreeMap κ β cmp) (g : κ → β → ν) (f : κ → β → M) (n : ν) :
    (tally t g f : ExtTreeMap ν M cmpν).getD n 0 =
      ∑ k ∈ t.keys.toFinset, entry t (fun k v => if g k v = n then f k v else 0) k := by
  rw [getD_tally_sum]
  exact sum_toList t fun k v => if g k v = n then f k v else 0

end Tally

section Union
variable [DecidableEq κ]

theorem sum_toList_of_subset [AddCommMonoid M] (t : ExtTreeMap κ β cmp) (f : κ → β → M)
    {s : Finset κ} (h : t.keys.toFinset ⊆ s) :
    (t.toList.map fun e => f e.1 e.2).sum = ∑ k ∈ s, entry t f k := by
  rw [sum_toList]
  refine Finset.sum_subset h fun k _ hk => ?_
  rw [List.mem_toFinset, mem_keys_iff, not_not] at hk
  simp [entry, hk]

/-- Where the entries of `a` override those of `b`, the sum is that of `b` and the
    differences that `a` makes. -/
theorem sum_toList_or [AddCommGroup M] {t a b : ExtTreeMap κ β cmp}
    (h : ∀ k : κ, t[k]? = a[k]?.or b[k]?) (f : κ → β → M) :
    (t.toList.map fun e => f e.1 e.2).sum = (b.toList.map fun e => f e.1 e.2).sum +
      (a.toList.map fun e => f e.1 e.2 - entry b f e.1).sum := by
  have ht : t.keys.toFinset ⊆ a.keys.toFinset ∪ b.keys.toFinset := by
    intro k hk
    rw [List.mem_toFinset, mem_keys_iff, h k] at hk
    rw [Finset.mem_union, List.mem_toFinset, List.mem_toFinset, mem_keys_iff, mem_keys_iff]
    cases ha : a[k]? with
    | none => exact .inr (by simpa [ha] using hk)
    | some v => exact .inl (Option.some_ne_none v)
  rw [sum_toList_of_subset t f ht, sum_toList_of_subset b f Finset.subset_union_right,
    sum_toList_of_subset a (fun k v => f k v - entry b f k) Finset.subset_union_left,
    ← Finset.sum_add_distrib]
  apply Finset.sum_congr rfl
  intro k _
  cases ha : a[k]? with
  | none => simp [entry, h k, ha]
  | some v => simp [entry, h k, ha]

end Union
end Smith.FiniteMaps
