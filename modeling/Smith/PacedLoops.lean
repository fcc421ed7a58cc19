import Mathlib

set_option autoImplicit false

/-!
# Loops under a budget

Each turn is told whether a counter is still below its limit, and may be charged to
the counter. Turns that take effect only within the budget get through one after
another until the charged ones have used it up.
-/
namespace Smith.PacedLoops

variable {α δ : Type}

def paced (act : α → Bool → δ) (charged : δ → Bool) (limit : ℤ) : ℤ → List α → List (α × δ)
  | _, [] => []
  | used, a :: l =>
    (a, act a (used < limit)) ::
      paced act charged limit (if charged (act a (used < limit)) then used + 1 else used) l

/-- The elements that get through a budget when only some of them pay. -/
def spend (pays : α → Bool) : ℕ → List α → List α
  | _, [] => []
  | 0, _ :: _ => []
  | k + 1, a :: l => a :: spend pays (if pays a then k else k + 1) l

section Spend
variable {pays : α → Bool}

theorem spend_zero (l : List α) : spend pays 0 l = [] := by
  cases l <;> rfl

theorem spend_of_pays {l : List α} (h : ∀ a ∈ l, pays a = true) (k : ℕ) :
    spend pays k l = l.take k := by
  induction l generalizing k with
  | nil => simp [spend]
  | cons a l ih =>
    cases k with
    | zero => rfl
    | succ k =>
      rw [spend, h a List.mem_cons_self, if_pos rfl, List.take_succ_cons,
        ih fun b hb => h b (List.mem_cons_of_mem a hb)]

theorem length_spend_le (k : ℕ) (l : List α) : (spend pays k l).length ≤ l.length := by
  induction l generalizing k with
  | nil => simp [spend]
  | cons a l ih =>
    cases k with
    | zero => simp [spend]
    | succ k => exact Nat.succ_le_succ (ih _)

theorem min_le_length_spend (k : ℕ) (l : List α) :
    min l.length k ≤ (spend pays k l).length := by
  induction l generalizing k with
  | nil => simp [spend]
  | cons a l ih =>
    cases k with
    | zero => simp
    | succ k =>
      have hk : k ≤ (if pays a then k else k + 1) := by split_ifs <;> omega
      have hl := ih (if pays a then k else k + 1)
      rw [spend, List.length_cons, List.length_cons]
      omega

/-- The budget holds exactly if it is never full, or if all that fill it pay. -/
theorem length_spend_le_iff (k : ℕ) (l : List α) : (spend pays k l).length ≤ k ↔
    l.length ≤ k ∨ ∀ a ∈ l.take k, pays a = true := by
  induction l generalizing k with
  | nil => simp [spend]
  | cons a l ih =>
    cases k with
    | zero => simp [spend]
    | succ k =>
      rw [spend, List.length_cons, List.length_cons, List.take_succ_cons, List.forall_mem_cons]
      cases ha : pays a with
      | true =>
        rw [if_pos rfl, Nat.add_le_add_iff_right, Nat.add_le_add_iff_right, ih]
        simp
      | false =>
        have hle := @length_spend_le _ pays (k + 1) l
        have hmin := @min_le_length_spend _ pays (k + 1) l
        simp only [Bool.false_eq_true, ↓reduceIte, false_and, or_false]
        omega

end Spend

section Paced
variable {act : α → Bool → δ} {charged : δ → Bool} {limit : ℤ}

theorem map_fst_paced (used : ℤ) (l : List α) :
    (paced act charged limit used l).map Prod.fst = l := by
  induction l generalizing used with
  | nil => rfl
  | cons a l ih => rw [paced, List.map_cons, ih]

theorem mem_paced {used : ℤ} {l : List α} {e : α × δ} (h : e ∈ paced act charged limit used l) :
    e.1 ∈ l ∧ ∃ b, e.2 = act e.1 b := by
  induction l generalizing used with
  | nil => exact absurd h List.not_mem_nil
  | cons a l ih =>
    rcases List.mem_cons.mp h with rfl | h
    · exact ⟨List.mem_cons_self, _, rfl⟩
    · exact ⟨List.mem_cons_of_mem a (ih h).1, (ih h).2⟩

/-- Which turns take effect, when no turn does so beyond the limit. -/
theorem filter_paced (act : α → Bool → δ) (charged hit : δ → Bool) (limit : ℤ) {l : List α}
    (hidle : ∀ a ∈ l, hit (act a false) = false)
    (hcharged : ∀ a ∈ l, ∀ b, charged (act a b) → hit (act a b)) (used : ℤ) :
    ((paced act charged limit used l).filter fun e => hit e.2).map Prod.fst =
      spend (fun a => charged (act a true)) (limit - used).toNat
        (l.filter fun a => hit (act a true)) := by
  induction l generalizing used with
  | nil => rfl
  | cons a l ih =>
    have ih := ih (fun b hb => hidle b (List.mem_cons_of_mem a hb))
      fun b hb => hcharged b (List.mem_cons_of_mem a hb)
    have hfree : ∀ b, hit (act a b) = false → charged (act a b) = false := fun b hb =>
      Bool.eq_false_iff.mpr fun hc => Bool.eq_false_iff.mp hb (hcharged a List.mem_cons_self b hc)
    rw [paced]
    by_cases hu : used < limit
    · rw [decide_eq_true hu]
      obtain ⟨k, hk⟩ : ∃ k, (limit - used).toNat = k + 1 := ⟨(limit - used).toNat - 1, by omega⟩
      cases hh : hit (act a true) with
      | false =>
        rw [hfree true hh, List.filter_cons_of_neg (by simp [hh]),
          List.filter_cons_of_neg (by simp [hh])]
        exact ih used
      | true =>
        rw [List.filter_cons_of_pos (by simp [hh]), List.filter_cons_of_pos (by simp [hh]),
          List.map_cons, ih, hk, spend]
        split_ifs with hc
        · rw [show (limit - (used + 1)).toNat = k by omega]
        · rw [hk]
    · have hh := hidle a List.mem_cons_self
      rw [decide_eq_false hu, hfree false hh, List.filter_cons_of_neg (by simp [hh])]
      have hz : (limit - used).toNat = 0 := by omega
      rw [hz, spend_zero]
      have hl := ih used
      rw [hz, spend_zero] at hl
      exact hl

end Paced

section Batches
variable {l : List α} {j : ℕ}

theorem filter_eq_drop (hnd : l.Nodup) {p : α → Bool} (h : ∀ a ∈ l, p a = true ↔ a ∈ l.drop j) :
    l.filter p = l.drop j := by
  have hdisj := List.disjoint_take_drop hnd (le_refl j)
  have htake : (l.take j).filter p = [] := by
    refine List.filter_eq_nil_iff.mpr fun a ha hp => ?_
    exact hdisj ha ((h a (List.mem_of_mem_take ha)).mp hp)
  have hdrop : (l.drop j).filter p = l.drop j :=
    List.filter_eq_self.mpr fun a ha => (h a (List.mem_of_mem_drop ha)).mpr ha
  calc
    l.filter p = (l.take j ++ l.drop j).filter p := by rw [List.take_append_drop]
    _ = l.drop j := by rw [List.filter_append, htake, hdrop, List.nil_append]

theorem mem_drop_add (hnd : l.Nodup) (k : ℕ) (a : α) :
    a ∈ l.drop (j + k) ↔ a ∈ l.drop j ∧ a ∉ (l.drop j).take k := by
  have hdisj := List.disjoint_take_drop (hnd.sublist (List.drop_sublist j l)) (le_refl k)
  rw [← List.drop_drop]
  constructor
  · exact fun ha => ⟨List.mem_of_mem_drop ha, fun ht => hdisj ht ha⟩
  · rintro ⟨ha, ht⟩
    rw [← List.take_append_drop k (l.drop j), List.mem_append] at ha
    exact ha.resolve_left ht

end Batches
end Smith.PacedLoops
