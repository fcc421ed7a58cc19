import Smith.FiniteMaps

set_option autoImplicit false

/-!
# Leases from a finite pool

A table hands each key a slot out of a pool, the first one that no entry holds. While
entries hold distinct slots of the pool, the search fails exactly when the table is as
large as the pool.
-/
namespace Smith.Leases
open FiniteMaps Std

variable {κ ν ι : Type} {cmp : κ → κ → Ordering} [TransCmp cmp] [LawfulEqCmp cmp]

def held (slot : ν → ι) (t : ExtTreeMap κ ν cmp) : List ι := t.toList.map fun e => slot e.2

def lowestFree [DecidableEq ι] (pool used : List ι) : Option ι :=
  pool.find? fun i => decide (i ∉ used)

def Distinct (slot : ν → ι) (t : ExtTreeMap κ ν cmp) : Prop :=
  ∀ (j k : κ) (x y : ν), t[j]? = some x → t[k]? = some y → slot x = slot y → j = k

variable {slot : ν → ι} {t : ExtTreeMap κ ν cmp}

theorem mem_held {i : ι} : i ∈ held slot t ↔ ∃ (k : κ) (x : ν), t[k]? = some x ∧ slot x = i := by
  simp [held, ExtTreeMap.mem_toList_iff_getElem?_eq_some]

omit [LawfulEqCmp cmp] in
theorem length_held : (held slot t).length = t.size := by
  rw [held, List.length_map, ExtTreeMap.length_toList]

omit [LawfulEqCmp cmp] in
theorem distinct_empty : Distinct slot (∅ : ExtTreeMap κ ν cmp) := by
  intro j k x y hx
  simp at hx

theorem Distinct.erase [DecidableEq κ] (h : Distinct slot t) (k : κ) :
    Distinct slot (t.erase k) := by
  intro i j x y hx hy he
  rw [lookup_erase] at hx hy
  split_ifs at hx hy
  exact h i j x y hx hy he

theorem Distinct.insert [DecidableEq κ] (h : Distinct slot t) {k : κ} {x : ν}
    (hfree : slot x ∉ held slot t) : Distinct slot (t.insert k x) := by
  intro i j y z hy hz he
  rw [lookup_insert] at hy hz
  split_ifs at hy hz with hi hj hj
  · exact hi.symm.trans hj
  · obtain rfl := Option.some.inj hy
    exact absurd (mem_held.mpr ⟨j, z, hz, he.symm⟩) hfree
  · obtain rfl := Option.some.inj hz
    exact absurd (mem_held.mpr ⟨i, y, hy, he⟩) hfree
  · exact h i j y z hy hz he

theorem Distinct.replace [DecidableEq κ] (h : Distinct slot t) {k : κ} {x y : ν}
    (hk : t[k]? = some x) (hs : slot y = slot x) : Distinct slot (t.insert k y) := by
  have hback : ∀ (j : κ) (z : ν), (t.insert k y)[j]? = some z →
      ∃ z', t[j]? = some z' ∧ slot z' = slot z := by
    intro j z hz
    rw [lookup_insert] at hz
    split_ifs at hz with hj
    · obtain rfl := Option.some.inj hz
      exact ⟨x, hj ▸ hk, hs.symm⟩
    · exact ⟨z, hz, rfl⟩
  intro i j u v hu hv he
  obtain ⟨u', hu', hus⟩ := hback i u hu
  obtain ⟨v', hv', hvs⟩ := hback j v hv
  exact h i j u' v' hu' hv' (hus.trans (he.trans hvs.symm))

theorem Distinct.nodup_held (h : Distinct slot t) : (held slot t).Nodup := by
  refine List.Nodup.map_on ?_ ?_
  · rintro ⟨j, x⟩ hx ⟨k, y⟩ hy he
    rw [ExtTreeMap.mem_toList_iff_getElem?_eq_some] at hx hy
    obtain rfl := h j k x y hx hy he
    rw [Option.some.inj (hx.symm.trans hy)]
  · have hk : (t.toList.map Prod.fst).Nodup := by
      rw [ExtTreeMap.map_fst_toList_eq_keys]
      exact ExtTreeMap.nodup_keys
    exact hk.of_map

section Search
variable [DecidableEq ι] {pool used : List ι} {i : ι}

theorem mem_of_lowestFree (h : lowestFree pool used = some i) : i ∈ pool ∧ i ∉ used := by
  unfold lowestFree at h
  exact ⟨List.mem_of_find?_eq_some h, by simpa using List.find?_some h⟩

theorem lowestFree_eq_none : lowestFree pool used = none ↔ ∀ i ∈ pool, i ∈ used := by
  simp [lowestFree, List.find?_eq_none]

theorem exists_lowestFree (hp : pool.Nodup) (h : used.length < pool.length) :
    ∃ i, lowestFree pool used = some i := by
  by_contra hnone
  have hsub : ∀ i ∈ pool, i ∈ used :=
    lowestFree_eq_none.mp (Option.eq_none_iff_forall_ne_some.mpr fun i hi => hnone ⟨i, hi⟩)
  have hle := (hp.subperm hsub).length_le
  omega

/-- Distinct slots of the pool run out exactly when there are as many of them. -/
theorem lowestFree_eq_none_iff (hp : pool.Nodup) (hu : used.Nodup) (hsub : ∀ i ∈ used, i ∈ pool) :
    lowestFree pool used = none ↔ used.length = pool.length := by
  have hle := (hu.subperm hsub).length_le
  constructor
  · intro h
    have hge := (hp.subperm (lowestFree_eq_none.mp h)).length_le
    omega
  · intro h
    cases hf : lowestFree pool used with
    | none => rfl
    | some i =>
      obtain ⟨hi, hfree⟩ := mem_of_lowestFree hf
      have hcons : (i :: used).Nodup := List.nodup_cons.mpr ⟨hfree, hu⟩
      have hmem : ∀ j ∈ i :: used, j ∈ pool := List.forall_mem_cons.mpr ⟨hi, hsub⟩
      have hlt := (hcons.subperm hmem).length_le
      rw [List.length_cons] at hlt
      omega

end Search
end Smith.Leases
