import Smith.VolumeDirs

set_option autoImplicit false

/-!
# Replica names

A replica is named by its workload and its index, and the agent takes the index off again with
a regular expression. Since a decimal number holds no dash, the last dash of a name is the one
that was put there: no two replicas share a name, and what is left of it is the workload's id,
whatever dashes and digits that has.
-/
namespace Smith
open FiniteMaps
open Std (ExtTreeMap)

section Pattern
open RegularExpression

def digitRe : RegularExpression Char :=
  (['0', '1', '2', '3', '4', '5', '6', '7', '8', '9'].map char).foldr plus 0

/-- The pattern `-\d+`, which the source anchors at the end of the text. -/
def replicaSuffixRe : RegularExpression Char := char '-' * (digitRe * digitRe.star)

/-- The text without its leftmost match of `P$`, for a pattern that does not match the
    empty text. -/
def cutMatch (P : RegularExpression Char) : List Char → List Char
  | [] => []
  | c :: s => if P.rmatch (c :: s) then [] else c :: cutMatch P s

theorem mem_digitRe {s : List Char} : s ∈ digitRe.matches' ↔ ∃ c, s = [c] ∧ c.isDigit = true := by
  have hfold (l : List Char) :
      s ∈ ((l.map char).foldr plus 0).matches' ↔ ∃ c ∈ l, s = [c] := by
    induction l with
    | nil => simp
    | cons c l ih =>
      rw [List.map_cons, List.foldr_cons, matches', Language.mem_add, ih, List.exists_mem_cons_iff]
      exact Iff.rfl
  have hdigit (c : Char) :
      c ∈ ['0', '1', '2', '3', '4', '5', '6', '7', '8', '9'] ↔ c.isDigit = true := by
    constructor
    · intro h
      simp only [List.mem_cons, List.not_mem_nil, or_false] at h
      rcases h with rfl | rfl | rfl | rfl | rfl | rfl | rfl | rfl | rfl | rfl <;> decide
    · intro h
      obtain ⟨hlo, hhi⟩ : 48 ≤ c.toNat ∧ c.toNat ≤ 57 := Char.isDigit_iff_toNat.mp h
      rw [← Char.ofNat_toNat c]
      interval_cases c.toNat <;> decide
  rw [digitRe, hfold]
  simp only [hdigit, and_comm]

theorem rmatch_replicaSuffixRe {s : List Char} :
    replicaSuffixRe.rmatch s = true ↔
      ∃ ds, s = '-' :: ds ∧ ds ≠ [] ∧ ∀ c ∈ ds, c.isDigit = true := by
  rw [rmatch_iff_matches', replicaSuffixRe]
  simp only [matches'_mul, matches'_char, matches'_star, Language.mem_mul, Language.mem_kstar]
  constructor
  · rintro ⟨a, rfl, b, ⟨x, hx, y, ⟨L, rfl, hL⟩, rfl⟩, rfl⟩
    obtain ⟨c, rfl, hc⟩ := mem_digitRe.mp hx
    refine ⟨c :: L.flatten, rfl, List.cons_ne_nil _ _, List.forall_mem_cons.mpr ⟨hc, ?_⟩⟩
    intro d hd
    obtain ⟨l, hl, hdl⟩ := List.mem_flatten.mp hd
    obtain ⟨e, rfl, he⟩ := mem_digitRe.mp (hL l hl)
    rwa [List.mem_singleton.mp hdl]
  · rintro ⟨ds, rfl, hne, hds⟩
    obtain ⟨c, ds, rfl⟩ := List.exists_cons_of_ne_nil hne
    rw [List.forall_mem_cons] at hds
    have hflat : ds = (ds.map fun d => [d]).flatten := by simp [← List.flatMap_def]
    refine ⟨_, rfl, c :: ds, ⟨[c], mem_digitRe.mpr ⟨c, rfl, hds.1⟩, ds,
      ⟨ds.map fun d => [d], hflat, ?_⟩, rfl⟩, rfl⟩
    · intro l hl
      obtain ⟨d, hd, rfl⟩ := List.mem_map.mp hl
      exact mem_digitRe.mpr ⟨d, rfl, hds.2 d hd⟩

theorem cutMatch_of_no_match {P : RegularExpression Char} {s : List Char}
    (h : ∀ a b, s = a ++ b → b ≠ [] → ¬ P.rmatch b = true) : cutMatch P s = s := by
  induction s with
  | nil => rfl
  | cons c s ih =>
    rw [cutMatch, if_neg (h [] (c :: s) rfl (List.cons_ne_nil c s)),
      ih fun a b hab => h (c :: a) b (by rw [hab, List.cons_append])]

/-- The text before the first match. -/
theorem cutMatch_append {P : RegularExpression Char} {s t : List Char} (ht : P.rmatch t = true)
    (hne : t ≠ []) (hs : ∀ a b, s = a ++ b → b ≠ [] → ¬ P.rmatch (b ++ t) = true) :
    cutMatch P (s ++ t) = s := by
  induction s with
  | nil =>
    obtain ⟨c, t, rfl⟩ := List.exists_cons_of_ne_nil hne
    rw [List.nil_append, cutMatch, if_pos ht]
  | cons c s ih =>
    have hhead := hs [] (c :: s) rfl (List.cons_ne_nil c s)
    rw [List.cons_append] at hhead ⊢
    rw [cutMatch, if_neg hhead, ih fun a b hab => hs (c :: a) b (by rw [hab, List.cons_append])]

/-- A match has to begin at the last dash. -/
theorem cutMatch_suffix {s ds : List Char} (hne : ds ≠ []) (hds : ∀ c ∈ ds, c.isDigit = true) :
    cutMatch replicaSuffixRe (s ++ '-' :: ds) = s := by
  refine cutMatch_append (rmatch_replicaSuffixRe.mpr ⟨ds, rfl, hne, hds⟩) (List.cons_ne_nil _ _)
    fun a b _ hb hmatch => ?_
  obtain ⟨c, b, rfl⟩ := List.exists_cons_of_ne_nil hb
  obtain ⟨es, hes, -, hdigits⟩ := rmatch_replicaSuffixRe.mp hmatch
  rw [List.cons_append, List.cons.injEq] at hes
  have hdash := hdigits '-' (by simp [← hes.2])
  exact absurd hdash (by decide)

theorem takeWhile_digits {s ds : List Char} (hds : ∀ c ∈ ds, c.isDigit = true) :
    (s ++ '-' :: ds).reverse.takeWhile Char.isDigit = ds.reverse ∧
      (s ++ '-' :: ds).reverse.dropWhile Char.isDigit = '-' :: s.reverse := by
  have hrev : (s ++ '-' :: ds).reverse = ds.reverse ++ '-' :: s.reverse := by simp
  have hds' : ∀ c ∈ ds.reverse, c.isDigit = true := fun c hc => hds c (List.mem_reverse.mp hc)
  rw [hrev, List.takeWhile_append_of_pos hds', List.dropWhile_append_of_pos hds']
  simp

/-- What the agent takes off is the leftmost match of its pattern. -/
theorem trimReplicaSuffix_eq (id : String) :
    trimReplicaSuffix id = String.ofList (cutMatch replicaSuffixRe id.toList) := by
  have hsplit := List.takeWhile_append_dropWhile (p := Char.isDigit) (l := id.toList.reverse)
  unfold trimReplicaSuffix
  split
  · rename_i d ds base hds hbase
    rw [hds, hbase] at hsplit
    have hid : id.toList = base.reverse ++ '-' :: (d :: ds).reverse := by
      rw [← List.reverse_reverse id.toList, ← hsplit]
      simp
    rw [hid, cutMatch_suffix (by simp)]
    intro c hc
    rw [List.mem_reverse, ← hds] at hc
    exact List.mem_takeWhile_imp hc
  · rename_i hother
    rw [cutMatch_of_no_match, String.ofList_toList]
    intro a b hab _ hmatch
    obtain ⟨ds, rfl, hne, hds⟩ := rmatch_replicaSuffixRe.mp hmatch
    obtain ⟨htake, hdrop⟩ := @takeWhile_digits a ds hds
    rw [← hab] at htake hdrop
    obtain ⟨d, l, hl⟩ := List.exists_cons_of_ne_nil (List.reverse_ne_nil_iff.mpr hne)
    exact hother d l a.reverse (htake.trans hl) hdrop

end Pattern

section Count
variable (desired : GoMap Workload)

theorem replicaCount_eq (w : Workload) : (replicaCount w : ℤ) = max 1 w.replicas := by
  unfold replicaCount
  split_ifs <;> omega

theorem nodup_expansion : ((expansion desired).map Prod.fst).Nodup := by
  rw [expansion, List.map_flatMap, List.nodup_flatMap]
  simp only [List.map_map]
  constructor
  · intro e _
    exact List.nodup_range.map fun i j hij => (replicaID_injective hij).2
  · refine ExtTreeMap.distinct_keys_toList.imp fun {e d} hne => ?_
    simp only [Function.onFun, List.disjoint_left, List.mem_map, List.mem_range, Function.comp]
    rintro r ⟨i, -, rfl⟩ ⟨j, -, hj⟩
    refine hne ?_
    rw [(replicaID_injective hj).1]
    exact Std.ReflCmp.compare_self

theorem length_expansion : (expansion desired).length =
    (desired.toList.map fun e => replicaCount e.2).sum := by
  simp [expansion, List.length_flatMap]

/-- No pair is written over another. -/
theorem size_expand : (expand desired).size = (expansion desired).length := by
  have hperm : (expand desired).keys.Perm ((expansion desired).map Prod.fst) := by
    rw [List.perm_ext_iff_of_nodup ExtTreeMap.nodup_keys (nodup_expansion desired)]
    intro r
    rw [mem_keys_iff, Option.ne_none_iff_exists']
    simp only [expand_lookup, ← mem_expansion, List.mem_map, Prod.exists, exists_and_right,
      exists_eq_right]
  rw [← ExtTreeMap.length_keys, hperm.length_eq, List.length_map]

end Count

/-- Expanding a desired state gives every replica of every workload once, each with the spec
    of its workload, and the agent recovers the workload's id from the replica's. -/
theorem replica_names_unique_and_reversible (desired : GoMap Workload) :
    ((expand desired).size : ℤ) = (desired.toList.map fun e => max 1 e.2.replicas).sum ∧
    (∀ (id id' : String) (i j : ℕ), replicaID id i = replicaID id' j → id = id' ∧ i = j) ∧
    (∀ (r : String) (inst : ReplicaInstance), (expand desired)[r]? = some inst ↔
      ∃ (w : Workload) (i : ℕ), desired[inst.parent]? = some w ∧ (i : ℤ) < max 1 w.replicas ∧
        r = replicaID inst.parent i ∧ inst.wl = { w with id := r, replicas := 0 }) ∧
    ∀ (id : String) (i : ℕ), trimReplicaSuffix (replicaID id i) = id := by
  refine ⟨?_, fun _ _ _ _ h => replicaID_injective h, fun r inst => ?_, trimReplicaSuffix_replicaID⟩
  · rw [size_expand, length_expansion, Nat.cast_list_sum, List.map_map]
    exact congrArg List.sum (List.map_congr_left fun e _ => replicaCount_eq e.2)
  · rw [expand_lookup]
    constructor
    · rintro ⟨id, w, i, hw, hi, rfl, rfl⟩
      refine ⟨w, i, hw, ?_, rfl, rfl⟩
      rw [← replicaCount_eq]
      exact_mod_cast hi
    · rintro ⟨w, i, hw, hi, rfl, hwl⟩
      rw [← replicaCount_eq] at hi
      refine ⟨inst.parent, w, i, hw, by exact_mod_cast hi, rfl, ?_⟩
      obtain ⟨wl, parent⟩ := inst
      exact congrArg (ReplicaInstance.mk · parent) hwl

/-- A workload named like another's replica: `web-1` beside `web` with ten replicas. -/
theorem replica_names_unique_and_reversible_web :
    let web : Workload := { id := "web", image := "nginx:1", replicas := 10 }
    let single : Workload := { id := "web-1", image := "nginx:1" }
    let desired : GoMap Workload := ExtTreeMap.ofList [("web", web), ("web-1", single)] compare
    (expand desired).size = 11 ∧ replicaID "web" 1 = "web-1" ∧
      replicaID "web-1" 0 ≠ replicaID "web" 10 ∧
      trimReplicaSuffix "web-1-0" = "web-1" ∧ trimReplicaSuffix "web-1" = "web" := by
  intro web single desired
  obtain ⟨hsize, hinj, -, htrim⟩ := replica_names_unique_and_reversible desired
  refine ⟨?_, by decide, fun h => ?_, htrim "web-1" 0, htrim "web" 1⟩
  · have hsum : (desired.toList.map fun e => max 1 e.2.replicas).sum = 11 := by decide +kernel
    exact_mod_cast hsize.trans hsum
  · exact absurd (hinj _ _ _ _ h).1 (by decide)

end Smith
