import Smith.KeyedLoops
import Smith.SchedulerCapacity

set_option autoImplicit false

/-!
# The rebalance plan

The simulation places the replicas largest first on scratch accounting, which is the
load of the packing it has built so far. Rebalancing repoints each replica that got a
target and leaves any other where it is.
-/
namespace Smith
open FiniteMaps KeyedLoops Std

theorem place_congr {nodes : List Node} {allocCPU allocMem allocCPU' allocMem' siblings : GoMap ℤ}
    {req : Resources} (h : ∀ n : String, (allocCPU.getD n 0, allocMem.getD n 0) =
      (allocCPU'.getD n 0, allocMem'.getD n 0)) :
    place nodes allocCPU allocMem siblings req = place nodes allocCPU' allocMem' siblings req := by
  have hc : candidate Binary64.float64 allocCPU allocMem siblings req =
      candidate Binary64.float64 allocCPU' allocMem' siblings req := by
    funext n
    obtain ⟨h₁, h₂⟩ := Prod.mk.inj (h n.id)
    simp only [candidate, h₁, h₂]
  rw [place, placeWith, placeWith, hc]

theorem place_eq_empty {nodes : List Node} {allocCPU allocMem siblings : GoMap ℤ}
    {req : Resources} (h : place nodes allocCPU allocMem siblings req = "") {n : Node}
    (hn : n ∈ nodes) (hids : ∀ m ∈ nodes, m.id ≠ "") :
    ¬ (allocCPU.getD n.id 0, allocMem.getD n.id 0) + req.pair ≤ schedulable n := by
  intro hfit
  have hc : ∃ c, candidate Binary64.float64 allocCPU allocMem siblings req n = some c := by
    unfold candidate
    dsimp only
    rw [if_neg]
    · exact ⟨_, rfl⟩
    · push Not
      exact ⟨hfit.1, hfit.2⟩
  obtain ⟨c, hc⟩ := hc
  have hm : c ∈ sortSlice Candidate.less
      (nodes.filterMap (candidate Binary64.float64 allocCPU allocMem siblings req)) := by
    rw [mem_sortSlice, List.mem_filterMap]
    exact ⟨n, hn, hc⟩
  unfold place placeWith at h
  split at h
  · rename_i he
    rw [he] at hm
    exact List.not_mem_nil hm
  · rename_i d l hd
    have hdm : d ∈ nodes.filterMap (candidate Binary64.float64 allocCPU allocMem siblings req) := by
      rw [← mem_sortSlice Candidate.less, hd]
      exact List.mem_cons_self
    obtain ⟨m, hm, hmd⟩ := List.mem_filterMap.mp hdm
    exact hids m hm ((candidate_spec hmd).1 ▸ h)

namespace Scheduler

theorem overcommitted_eq_nil_iff (g : Registry) (s : Scheduler) :
    s.overcommitted g = [] ↔ ∀ (r n : String) (node : Node), s.assignments[r]? = some n →
      g.get n = some node → s.committed n ≤ schedulable node := by
  unfold overcommitted
  rw [sortSlice_eq_nil, List.filterMap_eq_nil_iff]
  constructor
  · intro h r n node hr hg
    have hn : n ∈ s.allocCPU.keys := (mem_keys_tally _ _ _ n).mpr ⟨r, n, hr, rfl⟩
    have hb := h n hn
    simp only [hg, allocCPU_getD, allocMem_getD] at hb
    split_ifs at hb with hc
    push Not at hc
    exact ⟨hc.1, hc.2⟩
  · intro h n hn
    obtain ⟨r, m, hr, rfl⟩ := (mem_keys_tally _ _ _ n).mp hn
    cases hg : g.get m with
    | none => rfl
    | some node =>
      have hle := h r m node hr hg
      simp only [allocCPU_getD, allocMem_getD]
      rw [if_neg]
      push Not
      exact ⟨hle.1, hle.2⟩

def retarget (s : Scheduler) (m : Simulation) : Scheduler := { s with assignments := m.target }

theorem packing_move (s : Scheduler) (r n : String) :
    packing { s with assignments := s.assignments.insert r n } =
      s.packing.put r n (s.request r).pair := by
  apply Packing.ext_slot
  intro q
  by_cases h : q = r
  · subst h
    simp [Packing.slot_put_self, packing_slot, request]
  · rw [Packing.slot_put_ne _ _ _ h, packing_slot, packing_slot, request, request]
    simp only [lookup_insert_ne _ _ (Ne.symm h)]

/-- The scratch accounting is the load of the simulated packing. -/
def Accounts (s : Scheduler) (m : Simulation) : Prop :=
  ∀ n, (m.allocCPU.getD n 0, m.allocMem.getD n 0) = (s.retarget m).packing.load n

theorem accounts_empty (s : Scheduler) : Accounts s ⟨∅, ∅, ∅⟩ := by
  intro n
  have hz : (s.retarget ⟨∅, ∅, ∅⟩).packing.load n = 0 :=
    Packing.load_eq_zero fun r x h => by simp [packing_slot, retarget] at h
  rw [hz]
  simp [getD_eq]

theorem simulate_cases (nodes : List Node) {s : Scheduler} {m : Simulation} {r : Replica}
    (hm : Accounts s m) (hr : r.req = s.request r.id) (hnew : m.target[r.id]? = none) :
    (simulate nodes s m r = m ∧ ((∀ n ∈ nodes, n.id ≠ "") → ∀ n ∈ nodes,
      ¬ (s.retarget m).packing.load n.id + r.req.pair ≤ schedulable n)) ∨
    ∃ n ∈ nodes, (simulate nodes s m r).target = m.target.insert r.id n.id ∧
      Accounts s (simulate nodes s m r) ∧
      (s.retarget m).packing.load n.id + r.req.pair ≤ schedulable n := by
  unfold simulate
  dsimp only
  split_ifs with hb
  · refine .inl ⟨rfl, fun hids n hn hfit => place_eq_empty hb hn hids ?_⟩
    rw [hm n.id]
    exact hfit
  · obtain ⟨n, hn, hid, hfit⟩ := place_spec hb
    rw [hm n.id] at hfit
    refine .inr ⟨n, hn, by rw [hid], ?_, hfit⟩
    intro k
    have hp : (s.retarget ⟨bump m.allocCPU n.id r.req.cpuMillicores,
        bump m.allocMem n.id r.req.memoryMB, m.target.insert r.id n.id⟩).packing =
        (s.retarget m).packing.put r.id n.id (s.request r.id).pair :=
      packing_move (s.retarget m) r.id n.id
    have hd : (s.retarget m).packing.drop r.id = (s.retarget m).packing :=
      (unassign_of_none hnew).1
    rw [← hid, hp, Packing.load_put, hd, ← hm k, ← hr]
    simp only [getD_bump]
    split_ifs <;> simp [Resources.pair]

theorem simulate_frame (nodes : List Node) (s : Scheduler) (m : Simulation) (r : Replica)
    {q : String} (hq : q ≠ r.id) : (simulate nodes s m r).target[q]? = m.target[q]? := by
  unfold simulate
  dsimp only
  split_ifs
  · rfl
  · exact lookup_insert_ne _ _ hq.symm

theorem foldl_simulate_frame (nodes : List Node) (s : Scheduler) (l : List Replica)
    (m : Simulation) {q : String} (hq : q ∉ l.map Replica.id) :
    (l.foldl (simulate nodes s) m).target[q]? = m.target[q]? := by
  have hframe : Framed (simulate nodes s) Replica.id fun q m => m.target[q]? :=
    fun m r _ hq => simulate_frame nodes s m r hq
  exact hframe.foldl_of_notMem hq m

theorem mem_replicas (s : Scheduler) (r : Replica) :
    r ∈ s.replicas ↔ s.assignments[r.id]? ≠ none ∧ r = ⟨r.id, s.parent r.id, s.request r.id⟩ := by
  rw [replicas, mem_sortSlice, List.mem_map]
  constructor
  · rintro ⟨id, hid, rfl⟩
    exact ⟨(mem_keys_iff _ id).mp hid, rfl⟩
  · rintro ⟨hid, hr⟩
    exact ⟨r.id, (mem_keys_iff _ _).mpr hid, hr.symm⟩

theorem nodup_replicas (s : Scheduler) : (s.replicas.map Replica.id).Nodup := by
  have hp : (s.replicas.map Replica.id).Perm s.assignments.keys := by
    refine ((perm_sortSlice _ _).map Replica.id).trans ?_
    rw [List.map_map]
    exact .of_eq (List.map_id _)
  exact hp.nodup_iff.mpr ExtTreeMap.nodup_keys

section Packed
variable {nodes : List Node} {s : Scheduler} {cap : String → ℤ × ℤ}

theorem foldl_simulate_spec (hcap : ∀ n ∈ nodes, schedulable n = cap n.id)
    {l : List Replica} (hl : ∀ r ∈ l, r.req = s.request r.id) (hnd : (l.map Replica.id).Nodup)
    {m : Simulation} (hnew : ∀ r ∈ l, m.target[r.id]? = none) (hm : Accounts s m)
    (hs : (s.retarget m).packing.Settled (fun _ => True) cap Set.univ) :
    Accounts s (l.foldl (simulate nodes s) m) ∧
      (s.retarget (l.foldl (simulate nodes s) m)).packing.Settled (fun _ => True) cap Set.univ := by
  induction l generalizing m with
  | nil => exact ⟨hm, hs⟩
  | cons r l ih =>
    rw [List.map_cons, List.nodup_cons] at hnd
    have hr := hl r List.mem_cons_self
    have hnew' : ∀ q ∈ l, (simulate nodes s m r).target[q.id]? = none := by
      intro q hq
      have hne : q.id ≠ r.id := fun he => hnd.1 (he ▸ List.mem_map_of_mem hq)
      rw [simulate_frame nodes s m r hne]
      exact hnew q (List.mem_cons_of_mem r hq)
    rw [List.foldl_cons]
    refine ih (fun q hq => hl q (List.mem_cons_of_mem r hq)) hnd.2 hnew' ?_ ?_
    · obtain ⟨he, -⟩ | ⟨n, -, -, ha, -⟩ := simulate_cases nodes hm hr (hnew r List.mem_cons_self)
      · rw [he]
        exact hm
      · exact ha
    · obtain ⟨he, -⟩ | ⟨n, hn, ht, -, hfit⟩ := simulate_cases nodes hm hr (hnew r List.mem_cons_self)
      · rw [he]
        exact hs
      · have hp : (s.retarget (simulate nodes s m r)).packing =
            (s.retarget m).packing.put r.id n.id (s.request r.id).pair := by
          rw [← show (s.retarget m).request r.id = s.request r.id from rfl, ← packing_move, retarget,
            ht]
          rfl
        have hslot : (s.retarget m).packing.slot r.id = none := by
          rw [packing_slot, retarget, hnew r List.mem_cons_self]
          rfl
        rw [hp]
        exact hs.put_new hslot trivial (by rw [← hr, ← hcap n hn]; exact hfit)

theorem simulation_settled (hcap : ∀ n ∈ nodes, schedulable n = cap n.id) :
    (s.retarget (simulation nodes s)).packing.Settled (fun _ => True) cap Set.univ := by
  refine (foldl_simulate_spec hcap ?_ (nodup_replicas s) ?_ (accounts_empty s) ?_).2
  · intro r hr
    rw [((mem_replicas s r).mp hr).2]
  · intro r _
    simp
  · intro r _ n x h
    simp [packing_slot, retarget] at h

end Packed

theorem lookup_foldl_moves (moves : List Move) (t : GoMap String) (q : String) :
    (moves.foldl (fun t m => t.insert m.replicaID m.toNode) t)[q]? = t[q]? ∧
      (∀ m ∈ moves, m.replicaID ≠ q) ∨
    ∃ m ∈ moves, m.replicaID = q ∧
      (moves.foldl (fun t m => t.insert m.replicaID m.toNode) t)[q]? = some m.toNode := by
  induction moves generalizing t with
  | nil => exact .inl ⟨rfl, by simp⟩
  | cons m moves ih =>
    rw [List.foldl_cons]
    obtain ⟨he, hne⟩ | ⟨k, hk, hkq, he⟩ := ih (t.insert m.replicaID m.toNode)
    · rw [he, lookup_insert]
      by_cases hm : m.replicaID = q
      · exact .inr ⟨m, List.mem_cons_self, hm, if_pos hm⟩
      · refine .inl ⟨if_neg hm, ?_⟩
        intro k hk
        rcases List.mem_cons.mp hk with rfl | hk
        · exact hm
        · exact hne k hk
    · exact .inr ⟨k, List.mem_cons_of_mem m hk, hkq, he⟩

theorem mem_planLocked (g : Registry) (now : ℤ) (s : Scheduler) (m : Move) :
    m ∈ s.planLocked g now ↔ g.alive now ≠ [] ∧ ∃ n,
      s.assignments[m.replicaID]? = some n ∧ n = m.fromNode ∧ m.toNode ≠ n ∧
      (simulation (g.alive now) s).target[m.replicaID]? = some m.toNode := by
  unfold planLocked
  dsimp only
  by_cases hn : g.alive now = []
  · simp [hn]
  · rw [if_neg (by simpa using hn), mem_sortSlice, List.mem_filterMap]
    constructor
    · rintro ⟨r, hr, hm⟩
      obtain ⟨n, ha⟩ := Option.ne_none_iff_exists'.mp ((mem_replicas s r).mp hr).1
      split at hm
      · exact absurd hm (Option.some_ne_none m).symm
      · rename_i t ht
        rw [getD_eq, ha, Option.getD_some] at hm
        split_ifs at hm with hne
        obtain rfl := Option.some.inj hm
        exact ⟨hn, n, ha, rfl, hne, ht⟩
    · rintro ⟨-, n, ha, hf, hne, ht⟩
      refine ⟨⟨m.replicaID, s.parent m.replicaID, s.request m.replicaID⟩, ?_, ?_⟩
      · refine (mem_replicas s _).mpr ⟨?_, rfl⟩
        rw [ha]
        exact Option.some_ne_none n
      · subst hf
        simp only [ht, getD_eq, ha, Option.getD_some]
        exact if_pos hne

theorem simulation_nil (s : Scheduler) : (simulation [] s).target = ∅ := by
  have h : ∀ (l : List Replica) (m : Simulation), l.foldl (simulate [] s) m = m := by
    intro l
    induction l with
    | nil => exact fun _ => rfl
    | cons r l ih => exact fun m => ih m
  rw [simulation, h]

theorem rebalance_lookup (g : Registry) (now : ℤ) (s : Scheduler) (q : String) :
    (s.rebalance g now).1.assignments[q]? = s.assignments[q]?.map fun n =>
      (simulation (g.alive now) s).target[q]?.getD n := by
  have hout : s.assignments[q]? = none →
      (simulation (g.alive now) s).target[q]? = none := by
    intro hq
    rw [simulation, foldl_simulate_frame]
    · simp
    · intro hm
      obtain ⟨r, hr, rfl⟩ := List.mem_map.mp hm
      exact ((mem_replicas s r).mp hr).1 hq
  obtain ⟨he, hne⟩ | ⟨m, hm, rfl, he⟩ := lookup_foldl_moves (s.planLocked g now) s.assignments q
  · refine he.trans ?_
    cases hq : s.assignments[q]? with
    | none => rfl
    | some n =>
      rw [Option.map_some]
      cases ht : (simulation (g.alive now) s).target[q]? with
      | none => rfl
      | some t =>
        by_contra hnt
        have hal : g.alive now ≠ [] := by
          intro h0
          rw [h0, simulation_nil] at ht
          simp at ht
        have hneq : t ≠ n := fun h => hnt (by rw [h, Option.getD_some])
        exact hne ⟨q, n, t⟩ ((mem_planLocked g now s ⟨q, n, t⟩).mpr ⟨hal, n, hq, rfl, hneq, ht⟩) rfl
  · obtain ⟨-, n, hn, -, -, ht⟩ := (mem_planLocked g now s m).mp hm
    refine he.trans ?_
    rw [hn, Option.map_some, ht, Option.getD_some]

theorem rebalance_request (g : Registry) (now : ℤ) (s : Scheduler) (q : String) :
    (s.rebalance g now).1.request q = s.request q := rfl

theorem rebalance_slot (g : Registry) (now : ℤ) (s : Scheduler) (q : String) :
    (s.rebalance g now).1.packing.slot q = s.assignments[q]?.map fun n =>
      ((simulation (g.alive now) s).target[q]?.getD n, (s.request q).pair) := by
  rw [packing_slot, rebalance_lookup, rebalance_request, Option.map_map]
  rfl

end Scheduler
end Smith
