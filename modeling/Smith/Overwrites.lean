import Smith.FiniteMaps

set_option autoImplicit false

/-!
# Loops that write keyed values

A loop that inserts pairs into a table leaves at every key the last value written there.
Writing the same pairs once more changes nothing, and every pair survives exactly when pairs
with equal keys are equal.
-/
namespace Smith.Overwrites
open FiniteMaps Std

variable {κ β : Type} {cmp : κ → κ → Ordering} [TransCmp cmp]

def overwrite (t : ExtTreeMap κ β cmp) (l : List (κ × β)) : ExtTreeMap κ β cmp :=
  l.foldl (fun t e => t.insert e.1 e.2) t

variable [LawfulEqCmp cmp] [DecidableEq κ]

theorem lookup_overwrite (t : ExtTreeMap κ β cmp) (l : List (κ × β)) (k : κ) :
    (overwrite t l)[k]? = (overwrite (∅ : ExtTreeMap κ β cmp) l)[k]?.or t[k]? := by
  induction l generalizing t with
  | nil => simp [overwrite]
  | cons e l ih =>
    have hcons : ∀ u : ExtTreeMap κ β cmp, overwrite u (e :: l) = overwrite (u.insert e.1 e.2) l :=
      fun u => rfl
    rw [hcons, hcons, ih, ih (ExtTreeMap.insert ∅ e.1 e.2), lookup_insert, lookup_insert,
      Option.or_assoc]
    split_ifs with hk
    · rfl
    · simp

theorem mem_of_lookup {l : List (κ × β)} {k : κ} {v : β}
    (h : (overwrite (∅ : ExtTreeMap κ β cmp) l)[k]? = some v) : (k, v) ∈ l := by
  induction l with
  | nil => simp [overwrite] at h
  | cons e l ih =>
    change (overwrite (ExtTreeMap.insert ∅ e.1 e.2) l)[k]? = some v at h
    rw [lookup_overwrite, Option.or_eq_some_iff] at h
    obtain h | ⟨-, h⟩ := h
    · exact List.mem_cons_of_mem e (ih h)
    · rw [lookup_insert] at h
      split_ifs at h with hk
      · rw [← hk, ← Option.some.inj h]
        exact List.mem_cons_self
      · simp at h

theorem lookup_eq_none {l : List (κ × β)} {k : κ} :
    (overwrite (∅ : ExtTreeMap κ β cmp) l)[k]? = none ↔ k ∉ l.map Prod.fst := by
  induction l with
  | nil => simp [overwrite]
  | cons e l ih =>
    change (overwrite (ExtTreeMap.insert ∅ e.1 e.2) l)[k]? = none ↔ _
    rw [lookup_overwrite, Option.or_eq_none_iff, ih, lookup_insert, List.map_cons, List.mem_cons,
      not_or, eq_comm (b := e.1)]
    simp [and_comm]

theorem lookup_written (t : ExtTreeMap κ β cmp) {l : List (κ × β)} {k : κ}
    (hk : k ∈ l.map Prod.fst) : ∃ v, (k, v) ∈ l ∧ (overwrite t l)[k]? = some v := by
  have hne : (overwrite (∅ : ExtTreeMap κ β cmp) l)[k]? ≠ none := fun h => lookup_eq_none.mp h hk
  obtain ⟨v, hv⟩ := Option.ne_none_iff_exists'.mp hne
  exact ⟨v, mem_of_lookup hv, by rw [lookup_overwrite, hv, Option.some_or]⟩

/-- Writing the entries of a table in any order gives the table. -/
theorem overwrite_perm {m : ExtTreeMap κ β cmp} {l : List (κ × β)} (h : l.Perm m.toList) :
    overwrite ∅ l = m := by
  apply ExtTreeMap.ext_getElem?
  intro k
  cases hm : m[k]? with
  | none =>
    rw [lookup_eq_none]
    intro hk
    obtain ⟨⟨a, v⟩, he, rfl⟩ := List.mem_map.mp hk
    rw [h.mem_iff, ExtTreeMap.mem_toList_iff_getElem?_eq_some] at he
    exact absurd (hm.symm.trans he) (by simp)
  | some v =>
    have hmem : (k, v) ∈ l :=
      h.mem_iff.mpr (ExtTreeMap.mem_toList_iff_getElem?_eq_some.mpr hm)
    obtain ⟨w, hw, hl⟩ := lookup_written (∅ : ExtTreeMap κ β cmp) (List.mem_map_of_mem hmem)
    rw [h.mem_iff, ExtTreeMap.mem_toList_iff_getElem?_eq_some] at hw
    exact hl.trans (hw.symm.trans hm)

/-- Writing the entries of a table, each with a value of its own, maps the table. -/
theorem lookup_overwrite_toList {γ : Type} (m : ExtTreeMap κ β cmp) (f : κ → β → γ) (k : κ) :
    (overwrite (∅ : ExtTreeMap κ γ cmp) (m.toList.map fun e => (e.1, f e.1 e.2)))[k]? =
      m[k]?.map (f k) := by
  rw [← ExtTreeMap.toList_map, overwrite_perm (.refl _), ExtTreeMap.getElem?_map]

theorem lookup_overwrite_concat (t : ExtTreeMap κ β cmp) (l : List (κ × β)) (k : κ) (v : β) :
    (overwrite t (l ++ [(k, v)]))[k]? = some v := by
  rw [overwrite, List.foldl_append]
  exact lookup_insert_self _ _ _

theorem overwrite_idem (t : ExtTreeMap κ β cmp) (l : List (κ × β)) :
    overwrite (overwrite t l) l = overwrite t l := by
  apply ExtTreeMap.ext_getElem?
  intro k
  rw [lookup_overwrite (overwrite t l), lookup_overwrite t, ← Option.or_assoc, Option.or_self]

/-- Every write survives exactly when no two of them disagree. -/
theorem overwrite_keeps_iff (t : ExtTreeMap κ β cmp) (l : List (κ × β)) :
    (∀ e ∈ l, (overwrite t l)[e.1]? = some e.2) ↔ ∀ e ∈ l, ∀ d ∈ l, e.1 = d.1 → e.2 = d.2 := by
  constructor
  · intro h e he d hd hk
    have heq := h e he
    rw [hk, h d hd] at heq
    exact (Option.some.inj heq).symm
  · intro h e he
    obtain ⟨v, hv, hl⟩ := lookup_written t (List.mem_map_of_mem he)
    rw [hl]
    exact congrArg some (h (e.1, v) hv e he rfl)

end Smith.Overwrites
