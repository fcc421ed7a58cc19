import Smith.Rebalance

set_option autoImplicit false

/-!
# Rebalancing does not depend on iteration order

A plan ranges over three maps: the registry, the assignments and, at each replica's
turn, the targets chosen so far. It sorts what it collects from the first two by keys
that tell the elements apart, and it only counts along the third.
-/
namespace Smith
open FiniteMaps Std

/-- Candidates are compared by all they consist of. -/
def Candidate.key (c : Candidate) : ℤ ×ₗ ℚ ×ₗ String := toLex (c.siblings, toLex (c.remaining, c.id))

theorem Candidate.less_iff (a b : Candidate) : a.less b = true ↔ a.key < b.key := by
  unfold Candidate.less Candidate.key
  rw [Prod.Lex.toLex_lt_toLex, Prod.Lex.toLex_lt_toLex]
  by_cases hs : a.siblings = b.siblings
  · by_cases hr : a.remaining = b.remaining
    · simp [hs, hr]
    · simp [hs, hr]
  · simp [hs]

theorem Candidate.key_injective : Function.Injective Candidate.key := by
  rintro ⟨id, siblings, remaining⟩ ⟨id', siblings', remaining'⟩ h
  obtain ⟨hs, h⟩ := Prod.mk.inj h
  obtain ⟨hr, hid⟩ := Prod.mk.inj h
  obtain rfl : siblings = siblings' := hs
  obtain rfl : remaining = remaining' := hr
  obtain rfl : id = id' := hid
  rfl

/-- The chosen node depends on the set of nodes and on the counts read at their ids. -/
theorem place_perm {nodes nodes' : List Node} (hp : nodes.Perm nodes')
    {allocCPU allocMem siblings siblings' : GoMap ℤ} {req : Resources}
    (hs : ∀ n : String, siblings.getD n 0 = siblings'.getD n 0) :
    place nodes allocCPU allocMem siblings req = place nodes' allocCPU allocMem siblings' req := by
  have hc : candidate Binary64.float64 allocCPU allocMem siblings req =
      candidate Binary64.float64 allocCPU allocMem siblings' req := by
    funext n
    simp only [candidate, hs]
  rw [place, placeWith, placeWith, hc]
  rw [sortSlice_perm Candidate.less_iff (fun a _ b _ h => Candidate.key_injective h)
    (hp.filterMap _)]

namespace Scheduler

def Replica.key (r : Replica) : ℤᵒᵈ ×ₗ ℤᵒᵈ ×ₗ String :=
  toLex (.toDual r.req.memoryMB, toLex (.toDual r.req.cpuMillicores, r.id))

theorem Replica.less_iff (a b : Replica) : a.less b = true ↔ a.key < b.key := by
  unfold Replica.less Replica.key
  rw [Prod.Lex.toLex_lt_toLex, Prod.Lex.toLex_lt_toLex]
  by_cases hm : a.req.memoryMB = b.req.memoryMB
  · by_cases hc : a.req.cpuMillicores = b.req.cpuMillicores
    · simp [hm, hc]
    · simp [hm, hc]
  · simp [hm]

theorem Replica.id_of_key {a b : Replica} (h : a.key = b.key) : a.id = b.id :=
  (Prod.mk.inj (Prod.mk.inj h).2).2

/-- The plan's order of the replicas does not depend on the order they are listed in. -/
theorem sort_replicas_perm (s : Scheduler) {ids ids' : List String} (hp : ids.Perm ids') :
    sortSlice Replica.less (ids.map fun id => ⟨id, s.parent id, s.request id⟩) =
      sortSlice Replica.less (ids'.map fun id => ⟨id, s.parent id, s.request id⟩) := by
  refine sortSlice_perm Replica.less_iff ?_ (hp.map _)
  intro a ha b hb h
  obtain ⟨i, -, rfl⟩ := List.mem_map.mp ha
  obtain ⟨j, -, rfl⟩ := List.mem_map.mp hb
  obtain rfl : i = j := Replica.id_of_key h
  rfl

/-- The orders in which one plan meets the maps it ranges over. -/
structure Iteration (g : Registry) (now : ℤ) (s : Scheduler) where
  nodes : List Node
  nodes_perm : nodes.Perm (g.alive now)
  ids : List String
  ids_perm : ids.Perm s.assignments.keys
  targets : Replica → GoMap String → List (String × String)
  targets_perm : ∀ (r : Replica) (t : GoMap String), (targets r t).Perm t.toList

section Ordered
variable {g : Registry} {now : ℤ} {s : Scheduler} (o : Iteration g now s)

def siblingsIn (target : GoMap String) (r : Replica) : GoMap ℤ :=
  (o.targets r target).foldl (fun siblings e =>
    if s.parent e.1 == r.parent then bump siblings e.2 1 else siblings) ∅

def simulateIn (m : Simulation) (r : Replica) : Simulation :=
  let best := place o.nodes m.allocCPU m.allocMem (siblingsIn o m.target r) r.req
  if best = "" then m
  else {
    allocCPU := bump m.allocCPU best r.req.cpuMillicores
    allocMem := bump m.allocMem best r.req.memoryMB
    target := m.target.insert r.id best }

def replicasIn : List Replica :=
  sortSlice Replica.less (o.ids.map fun id => ⟨id, s.parent id, s.request id⟩)

/-- `planLocked` with every map met in the given order. -/
def planIn : List Move :=
  if o.nodes.isEmpty then []
  else
    let target := ((replicasIn o).foldl (simulateIn o) ⟨∅, ∅, ∅⟩).target
    let moves := (replicasIn o).filterMap fun r =>
      match target[r.id]? with
      | none => none
      | some toNode =>
        let fromNode := s.assignments.getD r.id ""
        if toNode ≠ fromNode then some ⟨r.id, fromNode, toNode⟩ else none
    sortSlice (fun a b => a.replicaID < b.replicaID) moves

def rebalanceIn : Scheduler × List Move :=
  ({ s with assignments :=
      (planIn o).foldl (fun t m => t.insert m.replicaID m.toNode) s.assignments }, planIn o)

theorem foldl_siblings (l : List (String × String)) (p : String) (acc : GoMap ℤ) (n : String) :
    (l.foldl (fun siblings e => if s.parent e.1 == p then bump siblings e.2 1 else siblings)
      acc).getD n 0 =
      acc.getD n 0 + (l.map fun e => if s.parent e.1 == p ∧ e.2 = n then (1 : ℤ) else 0).sum := by
  induction l generalizing acc with
  | nil => simp
  | cons e l ih =>
    rw [List.foldl_cons, ih, List.map_cons, List.sum_cons, ← add_assoc]
    congr 1
    by_cases hp : s.parent e.1 == p
    · rw [if_pos hp, getD_bump]
      simp only [hp, true_and]
    · rw [if_neg hp, if_neg (fun h => hp h.1), add_zero]

theorem siblingsIn_getD (target : GoMap String) (r : Replica) (n : String) :
    (siblingsIn o target r).getD n 0 =
      (tally (target.filter fun id _ => s.parent id == r.parent) (fun _ node => node)
        (fun _ _ => 1) : GoMap ℤ).getD n 0 := by
  have he : (∅ : GoMap ℤ).getD n 0 = 0 := by simp [getD_eq]
  rw [siblingsIn, foldl_siblings, he, zero_add, getD_tally_sum,
    ((o.targets_perm r target).map _).sum_eq, ExtTreeMap.toList_filter]
  induction target.toList with
  | nil => rfl
  | cons e l ih =>
    rw [List.map_cons, List.sum_cons, ih]
    by_cases hp : s.parent e.1 == r.parent
    · rw [List.filter_cons, if_pos hp, List.map_cons, List.sum_cons]
      simp only [hp, true_and]
    · rw [List.filter_cons, if_neg hp, if_neg (fun h => hp h.1), zero_add]

theorem simulateIn_eq (m : Simulation) (r : Replica) :
    simulateIn o m r = simulate (g.alive now) s m r := by
  unfold simulateIn simulate
  rw [place_perm o.nodes_perm (siblingsIn_getD o m.target r)]

theorem replicasIn_eq : replicasIn o = s.replicas := sort_replicas_perm s o.ids_perm

/-- Every order of iteration gives the same plan. -/
theorem planIn_eq : planIn o = s.planLocked g now := by
  have hnodes : o.nodes.isEmpty = (g.alive now).isEmpty := o.nodes_perm.isEmpty_eq
  have hstep : simulateIn o = simulate (g.alive now) s := by
    funext m r
    exact simulateIn_eq o m r
  rw [planIn, hnodes, replicasIn_eq, hstep]
  rfl

theorem rebalanceIn_eq : rebalanceIn o = s.rebalance g now := by
  rw [rebalanceIn, rebalance, planIn_eq]

end Ordered

theorem simulate_target_mem {nodes : List Node} {s : Scheduler} {m : Simulation}
    (hm : ∀ q n : String, m.target[q]? = some n → ∃ node ∈ nodes, node.id = n) (r : Replica)
    {q n : String} (hq : (simulate nodes s m r).target[q]? = some n) :
    ∃ node ∈ nodes, node.id = n := by
  unfold simulate at hq
  dsimp only at hq
  split_ifs at hq with hb
  · exact hm q n hq
  · rw [lookup_insert] at hq
    split_ifs at hq with hr
    · obtain ⟨node, hnode, hid, -⟩ := place_spec hb
      exact ⟨node, hnode, hid.trans (Option.some.inj hq)⟩
    · exact hm q n hq

theorem simulation_target_mem {nodes : List Node} {s : Scheduler} {q n : String}
    (hq : (simulation nodes s).target[q]? = some n) : ∃ node ∈ nodes, node.id = n := by
  have hfold : ∀ (l : List Replica) (m : Simulation),
      (∀ q n : String, m.target[q]? = some n → ∃ node ∈ nodes, node.id = n) →
      ∀ q n : String, (l.foldl (simulate nodes s) m).target[q]? = some n →
        ∃ node ∈ nodes, node.id = n := by
    intro l
    induction l with
    | nil => exact fun m hm => hm
    | cons r l ih => exact fun m hm => ih _ fun q n => simulate_target_mem hm r
  exact hfold s.replicas ⟨∅, ∅, ∅⟩ (by simp) q n hq

theorem nodup_planLocked (g : Registry) (now : ℤ) (s : Scheduler) :
    ((s.planLocked g now).map Move.replicaID).Nodup := by
  unfold planLocked
  dsimp only
  split_ifs
  · exact List.nodup_nil
  · refine (((perm_sortSlice _ _).map Move.replicaID).nodup_iff).mpr ?_
    refine (nodup_replicas s).sublist ?_
    induction s.replicas with
    | nil => exact List.Sublist.slnil
    | cons r l ih =>
      rw [List.filterMap_cons]
      split
      · exact ih.cons _
      · rename_i m hm
        have hid : m.replicaID = r.id := by
          split at hm
          · exact absurd hm (Option.some_ne_none m).symm
          · split_ifs at hm
            rw [← Option.some.inj hm]
        rw [List.map_cons, List.map_cons, hid]
        exact ih.cons_cons _

theorem rebalance_keys (g : Registry) (now : ℤ) (s : Scheduler) (r : String) :
    (s.rebalance g now).1.assignments[r]? ≠ none ↔ s.assignments[r]? ≠ none := by
  rw [rebalance_lookup, Ne, Option.map_eq_none_iff]

/-- The simulated targets depend on which replicas are assigned, not on where. -/
theorem simulation_rebalance (g : Registry) (now : ℤ) (s : Scheduler) (nodes : List Node) :
    simulation nodes (s.rebalance g now).1 = simulation nodes s := by
  have hkeys : (s.rebalance g now).1.assignments.keys.Perm s.assignments.keys := by
    refine (List.perm_ext_iff_of_nodup ExtTreeMap.nodup_keys ExtTreeMap.nodup_keys).mpr fun r => ?_
    rw [mem_keys_iff, mem_keys_iff, rebalance_keys]
  have hreplicas : (s.rebalance g now).1.replicas = s.replicas := sort_replicas_perm s hkeys
  rw [simulation, hreplicas]
  rfl

/-- A rebalanced scheduler has nothing left to move while the same nodes are alive. -/
theorem planLocked_rebalance {g : Registry} {now now' : ℤ} (h : g.alive now' = g.alive now)
    (s : Scheduler) : (s.rebalance g now).1.planLocked g now' = [] := by
  refine List.eq_nil_iff_forall_not_mem.mpr fun m hm => ?_
  obtain ⟨-, n, hn, -, hne, ht⟩ := (mem_planLocked g now' _ m).mp hm
  rw [h, simulation_rebalance] at ht
  rw [rebalance_lookup, ht, Option.map_eq_some_iff] at hn
  obtain ⟨k, -, hk⟩ := hn
  exact hne hk

/-- Rebalancing returns the same moves whatever order the maps are met in. It moves
    each replica at most once, from its node to another alive node, and changes nothing
    else; while the same nodes stay alive a further plan is empty. -/
theorem rebalance_converges (g : Registry) (now : ℤ) (s : Scheduler) :
    let after := (s.rebalance g now).1
    let moves := (s.rebalance g now).2
    s.rebalancePlan g now = moves ∧
    (∀ o : Iteration g now s, planIn o = moves ∧ rebalanceIn o = (after, moves)) ∧
    (∀ r : String, after.assignments[r]? ≠ none ↔ s.assignments[r]? ≠ none) ∧
    after.parents = s.parents ∧ after.requests = s.requests ∧
    (moves.map Move.replicaID).Nodup ∧
    (∀ m ∈ moves, s.assignments[m.replicaID]? = some m.fromNode ∧ m.toNode ≠ m.fromNode ∧
      (∃ n ∈ g.alive now, n.id = m.toNode) ∧
      after.assignments[m.replicaID]? = some m.toNode) ∧
    (∀ r : String, r ∉ moves.map Move.replicaID → after.assignments[r]? = s.assignments[r]?) ∧
    ∀ now' : ℤ, g.alive now' = g.alive now → after.rebalancePlan g now' = [] ∧
      ∀ o : Iteration g now' after, planIn o = [] ∧ rebalanceIn o = (after, []) := by
  intro after moves
  refine ⟨rfl, fun o => ⟨planIn_eq o, rebalanceIn_eq o⟩, rebalance_keys g now s, rfl, rfl,
    nodup_planLocked g now s, ?_, ?_, ?_⟩
  · intro m hm
    obtain ⟨-, n, hn, rfl, hne, ht⟩ := (mem_planLocked g now s m).mp hm
    refine ⟨hn, hne, simulation_target_mem ht, ?_⟩
    rw [rebalance_lookup, hn, Option.map_some, ht, Option.getD_some]
  · intro r hr
    obtain ⟨he, -⟩ | ⟨m, hm, hmr, -⟩ := lookup_foldl_moves moves s.assignments r
    · exact he
    · exact absurd (hmr ▸ List.mem_map_of_mem hm) hr
  · intro now' h
    have hempty : after.rebalancePlan g now' = [] := planLocked_rebalance h s
    refine ⟨hempty, fun o => ?_⟩
    have hplan : planIn o = [] := (planIn_eq o).trans hempty
    refine ⟨hplan, ?_⟩
    rw [rebalanceIn, hplan]
    rfl

theorem rebalance_converges_four_replicas :
    let s := ofLoads [("a-0", "n2", 850), ("b-0", "n2", 680), ("c-0", "n1", 680), ("d-0", "n1", 510)]
    (s.rebalance twoNodes 1).2 ≠ [] ∧ twoNodes.alive 2 = twoNodes.alive 1 ∧
      (s.rebalance twoNodes 1).1.rebalancePlan twoNodes 2 = [] ∧
      ∀ o : Iteration twoNodes 2 (s.rebalance twoNodes 1).1, planIn o = [] := by
  intro s
  have halive : twoNodes.alive 2 = twoNodes.alive 1 := by decide +kernel
  obtain ⟨hempty, hplans⟩ := (rebalance_converges twoNodes 1 s).2.2.2.2.2.2.2.2 2 halive
  exact ⟨by decide +kernel, halive, hempty, fun o => (hplans o).1⟩

end Scheduler
end Smith
