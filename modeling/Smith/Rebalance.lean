import Smith.RebalancePlan

set_option autoImplicit false

/-!
# What rebalancing does to the ledger

The plan packs every assigned replica afresh, as `Assign` calls on an empty scheduler
would, and leaves a replica for which no node has room where it is, outside the
accounting. With all assigned nodes alive such a replica always overfills its node.
-/
namespace Smith
open FiniteMaps Std

namespace Scheduler

def freshCalls (now : ℤ) (s : Scheduler) : List AssignCall :=
  s.replicas.map fun r => ⟨r.id, r.parent, r.req, now⟩

/-- Starting from an empty scheduler, assigning the current replicas one after
    another, largest request first, finds a node for each of them. -/
def PacksAfresh (g : Registry) (now : ℤ) (s : Scheduler) : Prop :=
  ∀ r : String, s.assignments[r]? ≠ none →
    (new.assignAll g (s.freshCalls now)).assignments[r]? ≠ none

/-- A scheduler that has assigned afresh what the simulation has targeted. -/
structure Mirrors (s : Scheduler) (m : Simulation) (t : Scheduler) : Prop where
  accounts : Accounts s m
  assignments : t.assignments = m.target
  parent : ∀ q : String, m.target[q]? ≠ none → t.parent q = s.parent q
  request : ∀ q : String, m.target[q]? ≠ none → t.request q = s.request q

theorem Mirrors.packing_eq {s t : Scheduler} {m : Simulation} (h : Mirrors s m t) :
    t.packing = (s.retarget m).packing := by
  apply Packing.ext_slot
  intro q
  rw [packing_slot, packing_slot, h.assignments, retarget]
  cases hq : m.target[q]? with
  | none => rfl
  | some n =>
    rw [h.request q (hq ▸ Option.some_ne_none n)]
    rfl

theorem Mirrors.siblings_eq {s t : Scheduler} {m : Simulation} (h : Mirrors s m t) (p : String) :
    t.siblings p = tally (m.target.filter fun id _ => s.parent id == p) (fun _ node => node)
      fun _ _ => 1 := by
  have hf : (t.assignments.filter fun rID _ => t.parent rID == p) =
      m.target.filter fun id _ => s.parent id == p := by
    apply ExtTreeMap.ext_getElem?
    intro q
    rw [lookup_filter, lookup_filter, h.assignments]
    cases hq : m.target[q]? with
    | none => rfl
    | some n => rw [h.parent q (hq ▸ Option.some_ne_none n)]
  rw [siblings, hf]

theorem Mirrors.place_eq {s t : Scheduler} {m : Simulation} (h : Mirrors s m t) (nodes : List Node)
    (p : String) (req : Resources) :
    place nodes t.allocCPU t.allocMem (t.siblings p) req =
      place nodes m.allocCPU m.allocMem (tally (m.target.filter fun id _ => s.parent id == p)
        (fun _ node => node) fun _ _ => 1) req := by
  rw [h.siblings_eq]
  refine place_congr fun n => ?_
  rw [allocCPU_getD, allocMem_getD, committed_eq_load, h.packing_eq]
  exact (h.accounts n).symm

theorem assignFresh_fst (g : Registry) (now : ℤ) (t : Scheduler) (r p : String) (req : Resources) :
    (t.assignFresh g now r p req).1 =
      if place (g.alive now) t.allocCPU t.allocMem (t.siblings p) req = "" then t
      else ⟨t.assignments.insert r (place (g.alive now) t.allocCPU t.allocMem (t.siblings p) req),
        t.parents.insert r p, t.requests.insert r req⟩ := by
  unfold assignFresh
  dsimp only
  by_cases hn : g.alive now = []
  · rw [hn]
    rfl
  · rw [if_neg (by simpa using hn)]
    split_ifs <;> rfl

theorem Mirrors.step {s t : Scheduler} {m : Simulation} {r : Replica} (h : Mirrors s m t)
    (hr : r = ⟨r.id, s.parent r.id, s.request r.id⟩) (hnew : m.target[r.id]? = none)
    (g : Registry) (now : ℤ) :
    Mirrors s (simulate (g.alive now) s m r) (t.assign g now r.id r.parent r.req).1 := by
  have ht : t.assignments[r.id]? = none := by rw [h.assignments, hnew]
  have hreq : r.req = s.request r.id := congrArg Replica.req hr
  have hpar : r.parent = s.parent r.id := congrArg Replica.parent hr
  have hassign : t.assign g now r.id r.parent r.req =
      t.assignFresh g now r.id r.parent r.req := by
    simp only [assign, ht]
  have hacc : Accounts s (simulate (g.alive now) s m r) := by
    obtain ⟨he, -⟩ | ⟨n, -, -, ha, -⟩ := simulate_cases (g.alive now) h.accounts hreq hnew
    · rw [he]
      exact h.accounts
    · exact ha
  rw [hassign, assignFresh_fst, h.place_eq]
  by_cases hb : place (g.alive now) m.allocCPU m.allocMem (tally (m.target.filter fun id _ =>
      s.parent id == r.parent) (fun _ node => node) fun _ _ => 1) r.req = ""
  · have hsim : simulate (g.alive now) s m r = m := if_pos hb
    rw [if_pos hb, hsim]
    exact h
  · have htarget : (simulate (g.alive now) s m r).target = m.target.insert r.id _ :=
      congrArg Simulation.target (if_neg hb)
    rw [if_neg hb]
    refine ⟨hacc, ?_, ?_, ?_⟩
    · rw [htarget, h.assignments]
    · intro q hq
      rw [Scheduler.parent, getD_insert]
      split_ifs with hqr
      · rw [← hqr, hpar]
      · rw [htarget, lookup_insert_ne _ _ hqr] at hq
        exact h.parent q hq
    · intro q hq
      rw [Scheduler.request, getD_insert]
      split_ifs with hqr
      · rw [← hqr, hreq]
      · rw [htarget, lookup_insert_ne _ _ hqr] at hq
        exact h.request q hq

theorem Mirrors.foldl {s t : Scheduler} {m : Simulation} {l : List Replica} (h : Mirrors s m t)
    (hl : ∀ r ∈ l, r = ⟨r.id, s.parent r.id, s.request r.id⟩) (hnd : (l.map Replica.id).Nodup)
    (hnew : ∀ r ∈ l, m.target[r.id]? = none) (g : Registry) (now : ℤ) :
    Mirrors s (l.foldl (simulate (g.alive now) s) m)
      (t.assignAll g (l.map fun r => ⟨r.id, r.parent, r.req, now⟩)) := by
  induction l generalizing m t with
  | nil => exact h
  | cons r l ih =>
    rw [List.map_cons, List.nodup_cons] at hnd
    refine ih (h.step (hl r List.mem_cons_self) (hnew r List.mem_cons_self) g now)
      (fun q hq => hl q (List.mem_cons_of_mem r hq)) hnd.2 ?_
    intro q hq
    have hne : q.id ≠ r.id := fun he => hnd.1 (he ▸ List.mem_map_of_mem hq)
    rw [simulate_frame _ s m r hne]
    exact hnew q (List.mem_cons_of_mem r hq)

theorem assignAll_freshCalls (g : Registry) (now : ℤ) (s : Scheduler) :
    (new.assignAll g (s.freshCalls now)).assignments = (simulation (g.alive now) s).target := by
  have hempty : Mirrors s ⟨∅, ∅, ∅⟩ new :=
    ⟨accounts_empty s, rfl, by simp, by simp⟩
  refine (hempty.foldl (fun r hr => ((mem_replicas s r).mp hr).2) (nodup_replicas s) ?_ g now).assignments
  intro r _
  simp

variable {g : Registry} {now : ℤ} {s : Scheduler}

theorem target_assigned {q n : String} (h : (simulation (g.alive now) s).target[q]? = some n) :
    s.assignments[q]? ≠ none := by
  intro hq
  have hf : (simulation (g.alive now) s).target[q]? = (∅ : GoMap String)[q]? := by
    refine foldl_simulate_frame _ _ _ _ fun hm => ?_
    obtain ⟨r, hr, rfl⟩ := List.mem_map.mp hm
    exact ((mem_replicas s r).mp hr).1 hq
  rw [hf] at h
  simp at h

theorem capacityOf_alive (g : Registry) (now : ℤ) :
    ∀ n ∈ g.alive now, schedulable n = capacityOf g n.id := by
  intro n hn
  rw [capacityOf, ((g.mem_alive now n).mp hn).1]

theorem rebalance_within (h : PacksAfresh g now s) :
    (s.rebalance g now).1.overcommitted g = [] := by
  have hs := simulation_settled (s := s) (capacityOf_alive g now)
  have hp : (s.rebalance g now).1.packing =
      (s.retarget (simulation (g.alive now) s)).packing := by
    apply Packing.ext_slot
    intro q
    rw [rebalance_slot, packing_slot]
    cases ht : (simulation (g.alive now) s).target[q]? with
    | none =>
      have hq : s.assignments[q]? = none := by
        by_contra hq
        exact h q hq (by rw [assignAll_freshCalls, ht])
      simp [hq, retarget, ht]
    | some t =>
      obtain ⟨n, hn⟩ := Option.ne_none_iff_exists'.mp (target_assigned ht)
      simp [hn, retarget, ht, request]
  rw [overcommitted_eq_nil_iff]
  intro r n node hr hg
  have hload := (hs r (Set.mem_univ r) n _ (hp ▸ (packing_slot_eq _ r n _).mpr ⟨hr, rfl⟩)).2
  rw [committed_eq_load, hp]
  simpa [capacityOf, hg] using hload

/-- Where the simulation has got to just before replica `r`. -/
theorem simulation_split {r : String} {nodes : List Node} (hr : s.assignments[r]? ≠ none)
    (hkeyed : ∀ n ∈ nodes, schedulable n = capacityOf g n.id) :
    ∃ m : Simulation, Accounts s m ∧ m.target[r]? = none ∧
      (∀ q n : String, m.target[q]? = some n → (simulation nodes s).target[q]? = some n) ∧
      (simulation nodes s).target[r]? =
        (simulate nodes s m ⟨r, s.parent r, s.request r⟩).target[r]? := by
  have hrep : (⟨r, s.parent r, s.request r⟩ : Replica) ∈ s.replicas :=
    (mem_replicas s _).mpr ⟨hr, rfl⟩
  obtain ⟨l₁, l₂, hsplit⟩ := List.append_of_mem hrep
  have hnd := nodup_replicas s
  rw [hsplit, List.map_append, List.map_cons, List.nodup_append, List.nodup_cons] at hnd
  obtain ⟨hnd₁, ⟨hr₂, -⟩, hdisj⟩ := hnd
  have hr₁ : r ∉ l₁.map Replica.id := fun h => hdisj r h r List.mem_cons_self rfl
  have hsim : simulation nodes s = l₂.foldl (simulate nodes s)
      (simulate nodes s (l₁.foldl (simulate nodes s) ⟨∅, ∅, ∅⟩) ⟨r, s.parent r, s.request r⟩) := by
    rw [simulation, hsplit, List.foldl_append, List.foldl_cons]
  refine ⟨l₁.foldl (simulate nodes s) ⟨∅, ∅, ∅⟩, ?_, ?_, ?_, ?_⟩
  · refine (foldl_simulate_spec hkeyed ?_ hnd₁ ?_ (accounts_empty s) ?_).1
    · intro q hq
      have hm : q ∈ s.replicas := hsplit ▸ List.mem_append_left _ hq
      rw [((mem_replicas s q).mp hm).2]
    · intro q _
      simp
    · intro q _ n x h
      simp [packing_slot, retarget] at h
  · rw [foldl_simulate_frame _ _ _ _ hr₁]
    simp
  · intro q n hq
    have hq₁ : q ∈ l₁.map Replica.id := by
      by_contra hm
      rw [foldl_simulate_frame _ _ _ _ hm] at hq
      simp at hq
    have hq₂ : q ∉ l₂.map Replica.id := fun h => hdisj q hq₁ q (List.mem_cons_of_mem _ h) rfl
    have hqr : q ≠ r := fun h => hr₁ (h ▸ hq₁)
    rw [hsim, foldl_simulate_frame _ _ _ _ hq₂, simulate_frame _ _ _ _ hqr]
    exact hq
  · rw [hsim, foldl_simulate_frame _ _ _ _ hr₂]

/-- A stage of the simulation is the part of the outcome decided so far. -/
theorem packing_retarget {m : Simulation} {r : String} (hnew : m.target[r]? = none)
    (hkeep : ∀ q n : String, m.target[q]? = some n →
      (simulation (g.alive now) s).target[q]? = some n) :
    (s.retarget m).packing = ((s.rebalance g now).1.packing.drop r).restrict
      fun q => m.target[q]? ≠ none := by
  apply Packing.ext_slot
  intro q
  rw [packing_slot]
  cases hq : m.target[q]? with
  | none =>
    have hp : ¬ m.target[q]? ≠ none := fun h => h hq
    rw [Packing.slot_restrict_neg (p := fun q => m.target[q]? ≠ none) _ hp, retarget, hq]
    rfl
  | some t =>
    have hqr : q ≠ r := by
      rintro rfl
      exact absurd (hnew.symm.trans hq) (Option.some_ne_none t).symm
    have hp : m.target[q]? ≠ none := hq ▸ Option.some_ne_none t
    obtain ⟨a, ha⟩ := Option.ne_none_iff_exists'.mp (target_assigned (hkeep q t hq))
    rw [Packing.slot_restrict_pos (p := fun q => m.target[q]? ≠ none) _ hp, Packing.slot_drop,
      if_neg hqr, rebalance_slot, ha, hkeep q t hq, retarget, hq]
    rfl

/-- A replica without a target stays on its node on top of a load that had no
    room for it. -/
theorem packsAfresh_of_rebalance_within
    (hreq : ∀ (r : String) (q : Resources), s.requests[r]? = some q → 0 ≤ q.pair)
    (halive : ∀ r n : String, s.assignments[r]? = some n → ∃ node ∈ g.alive now, node.id = n)
    (hids : ∀ n ∈ g.alive now, n.id ≠ "") (h : (s.rebalance g now).1.overcommitted g = []) :
    PacksAfresh g now s := by
  intro r hr ht
  rw [assignAll_freshCalls] at ht
  obtain ⟨n, hn⟩ := Option.ne_none_iff_exists'.mp hr
  obtain ⟨node, hnode, rfl⟩ := halive r n hn
  obtain ⟨m, hacc, hnew, hkeep, hlast⟩ := simulation_split hr (capacityOf_alive g now)
  obtain ⟨-, hnot⟩ | ⟨k, -, htarget, -, -⟩ :=
    simulate_cases (g.alive now) (r := ⟨r, s.parent r, s.request r⟩) hacc rfl hnew
  · have hslot : (s.rebalance g now).1.packing.slot r = some (node.id, (s.request r).pair) := by
      rw [rebalance_slot, hn, ht]
      rfl
    have hn' : (s.rebalance g now).1.assignments[r]? = some node.id :=
      ((packing_slot_eq _ _ _ _).mp hslot).1
    have hle := (overcommitted_eq_nil_iff g _).mp h r node.id node hn' ((g.mem_alive now node).mp hnode).1
    have hnon : (s.rebalance g now).1.packing.Nonneg := nonneg_of_requests hreq
    have hload : (s.retarget m).packing.load node.id + (s.request r).pair ≤
        (s.rebalance g now).1.packing.load node.id := by
      rw [Packing.load_drop (s.rebalance g now).1.packing r, Packing.share_of_slot hslot,
        if_pos rfl,
        packing_retarget hnew hkeep]
      exact add_le_add_left (Packing.load_restrict_le (Packing.restrict_nonneg hnon _) _ _) _
    rw [committed_eq_load] at hle
    exact hnot hids node hnode (hload.trans hle)
  · rw [hlast, htarget] at ht
    simp at ht

/-- With every assigned node alive and no negative request, rebalancing leaves no
    node overcommitted if the replicas pack afresh, and only then where nodes have
    ids: a replica left out of the plan stays on top of what is moved onto its node. -/
theorem rebalance_overcommitted_iff (g : Registry) (now : ℤ) (s : Scheduler)
    (halive : ∀ r n : String, s.assignments[r]? = some n → ∃ node ∈ g.alive now, node.id = n)
    (hreq : ∀ (r : String) (q : Resources), s.requests[r]? = some q → 0 ≤ q.pair) :
    (PacksAfresh g now s → (s.rebalance g now).1.overcommitted g = []) ∧
    ((∀ n ∈ g.alive now, n.id ≠ "") →
      ((s.rebalance g now).1.overcommitted g = [] ↔ PacksAfresh g now s)) :=
  ⟨rebalance_within, fun hids =>
    ⟨packsAfresh_of_rebalance_within hreq halive hids, rebalance_within⟩⟩

def ofLoads (l : List (String × String × ℤ)) : Scheduler :=
  l.foldl (fun s e => ⟨s.assignments.insert e.1 e.2.1, s.parents.insert e.1 e.1,
    s.requests.insert e.1 ⟨0, e.2.2⟩⟩) new

def twoNodes : Registry :=
  (Registry.new.register ⟨"n1", "", "", 0, 4, 2000⟩ 0).register ⟨"n2", "", "", 0, 4, 2000⟩ 0

theorem rebalance_overcommitted_iff_five_replicas :
    let s := ofLoads [("a-0", "n1", 850), ("b-0", "n2", 680), ("c-0", "n2", 680),
      ("d-0", "n1", 510), ("e-0", "n1", 340)]
    (s.rebalance twoNodes 1).2 ≠ [] ∧ PacksAfresh twoNodes 1 s := by
  intro s
  refine ⟨by decide +kernel, ?_⟩
  refine ((rebalance_overcommitted_iff twoNodes 1 s ?_ ?_).2 ?_).mp ?_
  · exact forall_lookup_iff.mpr (by decide +kernel)
  · exact forall_lookup_iff.mpr (by decide +kernel)
  · decide +kernel
  · decide +kernel

/-- Both nodes are exactly full. The plan pairs 850 with 680 and 680 with 510 and
    340, and the last 340 fits on neither. -/
theorem rebalance_overcommits_two_full_nodes :
    ¬ ∀ (g : Registry) (now : ℤ) (s : Scheduler),
      (∀ r n : String, s.assignments[r]? = some n → ∃ node ∈ g.alive now, node.id = n) →
      (∀ (r : String) (q : Resources), s.requests[r]? = some q → 0 ≤ q.pair) →
      s.overcommitted g = [] → (s.rebalance g now).1.overcommitted g = [] := by
  intro h
  have hs := h twoNodes 1 (ofLoads [("a-0", "n1", 850), ("b-0", "n2", 680), ("c-0", "n2", 680),
      ("d-0", "n1", 510), ("e-0", "n1", 340), ("f-0", "n2", 340)])
    (forall_lookup_iff.mpr (by decide +kernel)) (forall_lookup_iff.mpr (by decide +kernel))
    (by decide +kernel)
  revert hs
  decide +kernel

end Scheduler
end Smith
