import Smith.RollingBudget
import Smith.StrandedContainers

set_option autoImplicit false

/-!
# The ledger and the real load

The scheduler charges a node what its replicas now ask for. A container keeps the
limits it was started with until the pass that stops it, so the two differ by what
the kept containers hold beyond their charge.
-/
namespace Smith
open FiniteMaps Reconciler Runs Std

/-- The limits that `RunContainer` writes into a container's spec: the CPU time in
    each period of 100 ms, in microseconds, and the memory in bytes. -/
structure Limits where
  quota : Option ℤ := none
  memory : Option ℤ := none

def runLimits : Option Resources → Limits
  | none => {}
  | some r => {
      memory := if r.memoryMB > 0 then some (r.memoryMB * 1024 * 1024) else none
      quota := if r.cpuMillicores > 0 then some (r.cpuMillicores * 100) else none }

/-- A limit that is not set adds nothing to a sum. -/
def Limits.pair (l : Limits) : ℤ × ℤ := (l.quota.getD 0, l.memory.getD 0)

/-- Millicores and megabytes in the units of the limits. -/
def limitUnits : ℤ × ℤ →+ ℤ × ℤ where
  toFun x := (x.1 * 100, x.2 * (1024 * 1024))
  map_zero' := rfl
  map_add' _ _ := Prod.ext (add_mul ..) (add_mul ..)

theorem limitUnits_mono {x y : ℤ × ℤ} (h : x ≤ y) : limitUnits x ≤ limitUnits y :=
  ⟨mul_le_mul_of_nonneg_right h.1 (by decide), mul_le_mul_of_nonneg_right h.2 (by decide)⟩

def Workload.limits (w : Workload) : ℤ × ℤ := (runLimits w.resources).pair

theorem Workload.limits_eq {w : Workload} (h : 0 ≤ (requestOf w).pair) :
    w.limits = limitUnits (requestOf w).pair := by
  unfold Workload.limits requestOf at *
  cases hr : w.resources with
  | none => rfl
  | some r =>
    rw [hr] at h
    obtain ⟨hcpu, hmem⟩ := h
    change 0 ≤ r.cpuMillicores at hcpu
    change 0 ≤ r.memoryMB at hmem
    apply Prod.ext
    · change (if r.cpuMillicores > 0 then some (r.cpuMillicores * 100) else none).getD 0 =
        r.cpuMillicores * 100
      split_ifs
      · rfl
      · simp only [Option.getD_none]
        omega
    · change (if r.memoryMB > 0 then some (r.memoryMB * 1024 * 1024) else none).getD 0 =
        r.memoryMB * (1024 * 1024)
      split_ifs
      · simp only [Option.getD_some]
        omega
      · simp only [Option.getD_none]
        omega

def Agents.load (a : Agents) (n : String) : ℤ × ℤ :=
  ((a n).toList.map fun e => e.2.limits).sum

def Call.stops (n r : String) : Call → Bool
  | .assign _ _ => false
  | .unassign m id => m = n && id = r

def stoppedOn (n r : String) (l : List Sent) : Bool := l.any fun x => x.call.stops n r

theorem stoppedOn_sentFor (n r : String) (l : List Sent) :
    stoppedOn n r (sentFor r l) = stoppedOn n r l := by
  rw [stoppedOn, stoppedOn, sentFor, List.any_filter]
  congr 1
  funext x
  cases hc : x.call with
  | assign m w => simp [Call.stops]
  | unassign m id =>
    simp only [Call.stops, Call.replica]
    grind

namespace Reconciler
variable (env : Env) (c : Reconciler)

/-- What a pass wants to run on a node, by replica id. -/
def wanted (n : String) : GoMap Workload :=
  ((expand c.store.list).filter fun r _ => (c.assigned env)[r]? = some n).map fun _ inst => inst.wl

def charge (n r : String) : ℤ × ℤ :=
  entry (c.wanted env n) (fun _ w => (requestOf w).pair) r

def charged (n : String) : ℤ × ℤ :=
  ((c.wanted env n).toList.map fun e => (requestOf e.2).pair).sum

theorem lookup_wanted (n r : String) : (c.wanted env n)[r]? =
    ((expand c.store.list)[r]?.filter fun _ => (c.assigned env)[r]? = some n).map fun inst =>
      inst.wl := by
  rw [wanted, ExtTreeMap.getElem?_map, lookup_filter]

def Modest : Prop :=
  ∀ (id : String) (w : Workload), c.store.list[id]? = some w → 0 ≤ (requestOf w).pair

theorem Modest.desired {c : Reconciler} (h : c.Modest) {r : String} {inst : ReplicaInstance}
    (hr : (expand c.store.list)[r]? = some inst) : 0 ≤ (requestOf inst.wl).pair := by
  obtain ⟨id, w, i, hw, -, -, rfl⟩ := (expand_lookup _ r inst).mp hr
  exact h id w hw

theorem Modest.wanted {c : Reconciler} {env : Env} (h : c.Modest) {n r : String} {w : Workload}
    (hw : (c.wanted env n)[r]? = some w) : 0 ≤ (requestOf w).pair := by
  rw [lookup_wanted, Option.map_eq_some_iff] at hw
  obtain ⟨inst, hinst, rfl⟩ := hw
  exact h.desired (Option.filter_eq_some_iff.mp hinst).1

end Reconciler

namespace Cluster
variable {digest : Canonical → String} {cl : Cluster} {env : Env}

def kept (digest : Canonical → String) (env : Env) (cl : Cluster) (n : String) : GoMap Workload :=
  (cl.agents n).filter fun r _ => !stoppedOn n r (cl.plane.pass digest env).2

/-- What the kept containers hold beyond what the node is charged for their replicas. -/
def overhang (digest : Canonical → String) (env : Env) (cl : Cluster) (n : String) : ℤ × ℤ :=
  ((kept digest env cl n).toList.map fun e =>
    e.2.limits - limitUnits (cl.plane.charge env n e.1)).sum

theorem lookup_kept (n r : String) : (kept digest env cl n)[r]? =
    if stoppedOn n r (sentFor r (cl.plane.pass digest env).2) then none else (cl.agents n)[r]? := by
  rw [kept, lookup_filter, stoppedOn_sentFor]
  cases stoppedOn n r (cl.plane.pass digest env).2 <;> cases (cl.agents n)[r]? <;> rfl

theorem stoppedOn_append (n r : String) (l l' : List Sent) :
    stoppedOn n r (l ++ l') = (stoppedOn n r l || stoppedOn n r l') :=
  List.any_append

theorem stoppedOn_stopOn (g : Registry) (cause : Cause) (n r m q : String) :
    stoppedOn n r (stopOn env g cause m q) = true ↔ g.get m ≠ none ∧ m = n ∧ q = r := by
  unfold stopOn
  cases hg : g.get m with
  | none => simp [stoppedOn]
  | some node =>
    have hid := Registry.get_id hg
    simp [stoppedOn, pushUnassign, Call.stops, hid]

theorem stoppedOn_roll (node : Node) (wl : Workload) (n r : String) :
    stoppedOn n r (roll digest env node wl).sent = true ↔ node.id = n ∧ wl.id = r := by
  unfold roll
  dsimp only
  split_ifs <;> simp [stoppedOn, pushUnassign, pushAssignment, Call.stops]

theorem Tracked.deploy_containers (ht : Tracked cl) (hh : Healthy cl env) {r : String}
    {wl : Workload} (hid : wl.id = r) (node : Node) (mayRoll : Bool) (n : String) :
    let sent := (deploy digest env node wl cl.plane.registry cl.plane.pushed[r]? mayRoll).sent
    (cl.agents.receive sent n)[r]? =
      (if stoppedOn n r sent then none else (cl.agents n)[r]?).or
        (if n = node.id then some wl else none) := by
  dsimp only
  obtain ⟨hrec, hs, -⟩ | ⟨rec, hrec, hne, hs, -⟩ | ⟨rec, hrec, heq, -, -, hd⟩ |
      ⟨rec, hrec, heq, -, hd⟩ :=
    deploy_cases digest env node wl cl.plane.registry cl.plane.pushed[r]? mayRoll
  · have hnone := ht.container_of_none hrec n
    rw [hs, Agents.receive_pushAssignment, hid, hnone]
    simp [hh.answers]
  · have hc := ht.container_of_some hrec n
    have hg := ht.registered r rec hrec
    rw [hs, Agents.receive_append, Agents.receive_pushAssignment, Agents.receive_stopOn, hid]
    by_cases hn : n = rec.nodeID
    · have hstop : stoppedOn n r (stopOn env cl.plane.registry .relocate rec.nodeID r ++
          [pushAssignment env node wl .relocate]) = true := by
        rw [stoppedOn_append, (stoppedOn_stopOn _ _ _ _ _ _).mpr ⟨hg, hn.symm, rfl⟩, Bool.true_or]
      have hnm : n ≠ node.id := fun h => hne (hn.symm.trans h)
      rw [if_pos hstop, if_neg hnm]
      simp [hn, hg, hh.answers, hne]
    · have hnone : (cl.agents n)[r]? = none := by simpa using hc.not.mpr hn
      simp [hn, hnone, hh.answers]
  · have hc := ht.container_of_some hrec n
    rw [hd, Agents.receive_roll, hid]
    by_cases hn : n = node.id
    · rw [if_pos ⟨hn, rfl, hh.answers _⟩, if_pos (hh.answers _),
        if_pos ((stoppedOn_roll node wl n r).mpr ⟨hn.symm, hid⟩), if_pos hn]
      rfl
    · have hnone : (cl.agents n)[r]? = none := by
        simpa using hc.not.mpr fun h => hn (h.trans heq)
      simp [hn, hnone]
  · have hc := ht.container_of_some hrec n
    rw [hd, Agents.receive_nil]
    by_cases hn : n = node.id
    · obtain ⟨w, hw⟩ := Option.ne_none_iff_exists'.mp (hc.mpr (hn.trans heq.symm))
      simp [hw, stoppedOn]
    · simp [hn, stoppedOn]

theorem Tracked.pass_containers (ht : Tracked cl) (hh : Healthy cl env) (n r : String) :
    ((cl.step digest (.reconcile env)).agents n)[r]? =
      (kept digest env cl n)[r]?.or (cl.plane.wanted env n)[r]? := by
  rw [lookup_kept, lookup_wanted, hh.step_eq, Agents.receive_sentFor]
  cases hr : (expand cl.plane.store.list)[r]? with
  | some inst =>
    obtain ⟨roll, -, -, -, hsent⟩ := pass_desired digest env cl.plane hr
    rw [hsent, hh.evict_eq]
    cases hm : (cl.plane.assigned env)[r]? with
    | none => simp [turn_none, stoppedOn, Agents.receive_nil]
    | some m =>
      obtain ⟨node, hnode, rfl⟩ :=
        assigned_registered env cl.plane (hr ▸ Option.some_ne_none inst) hm
      rw [hh.evict_eq] at hnode
      rw [turn_some digest env _ hnode, ht.deploy_containers hh (expand_keyed hr)]
      by_cases hn : n = node.id
      · simp [hn, Option.filter_some]
      · simp [hn, Ne.symm hn]
  | none =>
    obtain ⟨-, ⟨-, -, hsent⟩ | ⟨m, hm, -, hsent⟩⟩ := pass_undesired digest env cl.plane hr
    · rw [hsent]
      simp [stoppedOn, Agents.receive_nil]
    · rw [hsent, hh.evict_eq, Agents.receive_stopOn]
      by_cases hg : cl.plane.registry.get m = none
      · have hn : ¬ stoppedOn n r (stopOn env cl.plane.registry .remove m r) = true := by
          simp [stoppedOn_stopOn, hg]
        simp [hn, hg]
      · by_cases hn : n = m
        · rw [if_pos ⟨hn, rfl, hg, hh.answers _⟩,
            if_pos ((stoppedOn_stopOn _ _ _ _ _ _).mpr ⟨hg, hn.symm, rfl⟩)]
          rfl
        · have hs : ¬ stoppedOn n r (stopOn env cl.plane.registry .remove m r) = true := by
            simp [stoppedOn_stopOn, Ne.symm hn]
          simp [hs, hn]

theorem Tracked.pass_load (ht : Tracked cl) (hh : Healthy cl env) (hmod : cl.plane.Modest)
    (n : String) : (cl.step digest (.reconcile env)).agents.load n =
      limitUnits (cl.plane.charged env n) + overhang digest env cl n := by
  have hentry : ∀ r, entry (cl.plane.wanted env n) (fun _ w => w.limits) r =
      limitUnits (cl.plane.charge env n r) := by
    intro r
    cases hw : (cl.plane.wanted env n)[r]? with
    | none => simp [charge, entry, hw]
    | some w => simp [charge, entry, hw, Workload.limits_eq (hmod.wanted hw)]
  have hcharged : ((cl.plane.wanted env n).toList.map fun e => e.2.limits).sum =
      limitUnits (cl.plane.charged env n) := by
    rw [charged, map_list_sum, List.map_map]
    congr 1
    apply List.map_congr_left
    intro e he
    exact Workload.limits_eq (hmod.wanted (ExtTreeMap.mem_toList_iff_getElem?_eq_some.mp he))
  rw [Agents.load, sum_toList_or (ht.pass_containers hh n) fun _ w => w.limits, hcharged, overhang]
  simp only [hentry]

end Cluster

namespace Reconciler
variable (digest : Canonical → String) (env : Env) (c : Reconciler)

theorem stopRemoved_slot (g : Registry) (desired : GoMap ReplicaInstance) (p : Progress)
    (a : Assignment) (q : String) :
    (stopRemoved env g desired p a).scheduler.packing.slot q =
      if desired[q]? = none ∧ q = a.workloadID then none else p.scheduler.packing.slot q := by
  unfold stopRemoved
  split_ifs with hc h h
  · obtain ⟨hq, rfl⟩ := h
    rw [ExtTreeMap.contains_iff_mem, ExtTreeMap.mem_iff_isSome_getElem?, hq] at hc
    exact absurd hc Bool.false_ne_true
  · rfl
  · change (p.scheduler.unassign a.workloadID).packing.slot q = none
    rw [Scheduler.packing_unassign, Packing.slot_drop, if_pos h.2]
  · change (p.scheduler.unassign a.workloadID).packing.slot q = _
    have hq : q ≠ a.workloadID := by
      rintro rfl
      exact h ⟨by simpa using hc, rfl⟩
    rw [Scheduler.packing_unassign, Packing.slot_drop, if_neg hq]

theorem foldl_stopRemoved_slot (g : Registry) (desired : GoMap ReplicaInstance)
    (l : List Assignment) (p : Progress) (q : String) :
    (l.foldl (stopRemoved env g desired) p).scheduler.packing.slot q =
      if desired[q]? = none ∧ q ∈ l.map Assignment.workloadID then none
      else p.scheduler.packing.slot q := by
  induction l generalizing p with
  | nil => simp
  | cons a l ih =>
    rw [List.foldl_cons, ih, stopRemoved_slot, List.map_cons]
    by_cases hd : desired[q]? = none
    · simp only [hd, true_and, List.mem_cons]
      by_cases ha : q = a.workloadID <;> simp [ha]
    · simp [hd]

def ledger : Scheduler :=
  (c.evictDead env.now).scheduler.assignAll (c.evictDead env.now).registry
    (assignCalls env.now (expand c.store.list))

theorem pass_slot (q : String) : (pass digest env c).1.scheduler.packing.slot q =
    if (expand c.store.list)[q]? = none then none else (c.ledger env).packing.slot q := by
  let p := repush env.now (c.evictDead env.now).interval (c.running env)
    (ensureAll digest env c.store.list (c.running env) (c.evictDead env.now))
  have hs : p.scheduler = c.ledger env := ensureAll_scheduler ..
  have hpass : (pass digest env c).1.scheduler =
      (p.scheduler.listAssignments.foldl (stopRemoved env (c.evictDead env.now).registry
        (expand c.store.list)) p).scheduler := rfl
  rw [hpass, foldl_stopRemoved_slot, hs]
  by_cases hd : (expand c.store.list)[q]? = none
  · rw [if_pos hd]
    split_ifs with h
    · rfl
    · -- a replica that is not in the list of assignments has none
      have hnone : (c.ledger env).assignments[q]? = none := by
        by_contra hne
        obtain ⟨n, hn⟩ := Option.ne_none_iff_exists'.mp hne
        exact h ⟨hd, List.mem_map.mpr ⟨⟨q, n, (c.ledger env).parent q⟩,
          (Scheduler.mem_listAssignments _ _).mpr ⟨hn, rfl⟩, rfl⟩⟩
      rw [Scheduler.packing_slot, hnone]
      rfl
  · rw [if_neg hd, if_neg fun h => hd h.1]

theorem pass_packing : (pass digest env c).1.scheduler.packing =
    (c.ledger env).packing.restrict fun r => (expand c.store.list)[r]? ≠ none := by
  apply Packing.ext_slot
  intro q
  rw [pass_slot]
  by_cases hd : (expand c.store.list)[q]? = none
  · rw [if_pos hd, Packing.slot_restrict_neg]
    exact not_not.mpr hd
  · rw [if_neg hd, Packing.slot_restrict_pos]
    exact hd

theorem called_of_desired {r : String} {inst : ReplicaInstance}
    (hr : (expand c.store.list)[r]? = some inst) :
    ∃ a ∈ assignCalls env.now (expand c.store.list), a.replicaID = r := by
  have hid := expand_keyed hr
  exact ⟨_, List.mem_map_of_mem ((mem_instances c.store.list inst).mpr (hid.symm ▸ hr)), hid⟩

theorem ledger_slot {r : String} {inst : ReplicaInstance}
    (hr : (expand c.store.list)[r]? = some inst) :
    (c.ledger env).packing.slot r =
      (c.assigned env)[r]?.map fun n => (n, (requestOf inst.wl).pair) := by
  cases hm : (c.assigned env)[r]? with
  | none =>
    rw [Scheduler.packing_slot]
    exact congrArg _ hm
  | some m =>
    have hslot := (Scheduler.packing_slot_eq (c.ledger env) r m _).mpr ⟨hm, rfl⟩
    rw [hslot, Option.map_some]
    refine congrArg (fun x => some (m, x)) ?_
    refine Scheduler.assignAll_slot _ _ ?_ (.inl (called_of_desired env c hr)) m _ hslot
    intro a ha har
    rw [assignCalls_request c.store.list env.now a ha, desiredRequest, har, hr]
    rfl

theorem pass_share (n r : String) :
    (pass digest env c).1.scheduler.packing.share n r = c.charge env n r := by
  have hs := pass_slot digest env c r
  rw [charge, entry, lookup_wanted]
  cases hr : (expand c.store.list)[r]? with
  | none =>
    rw [if_pos hr] at hs
    rw [Packing.share_of_none hs]
    rfl
  | some inst =>
    rw [if_neg (hr ▸ Option.some_ne_none inst), ledger_slot env c hr] at hs
    cases hm : (c.assigned env)[r]? with
    | none =>
      rw [hm] at hs
      rw [Packing.share_of_none hs]
      simp
    | some m =>
      rw [hm] at hs
      rw [Packing.share_of_slot hs]
      by_cases hmn : m = n <;> simp [hmn, Option.filter_some]

theorem pass_committed (n : String) :
    (pass digest env c).1.scheduler.committed n = c.charged env n := by
  have hkeys : (c.wanted env n).keys.toFinset ⊆ (pass digest env c).1.scheduler.packing.items := by
    intro r hr
    rw [List.mem_toFinset, mem_keys_iff, lookup_wanted] at hr
    rw [Packing.mem_items, pass_slot]
    cases hd : (expand c.store.list)[r]? with
    | none => exact absurd (by rw [hd]; rfl) hr
    | some inst =>
      rw [if_neg (Option.some_ne_none inst), ledger_slot env c hd]
      cases hm : (c.assigned env)[r]? with
      | none => simp [hd, hm] at hr
      | some m => exact Option.some_ne_none _
  rw [Scheduler.committed_eq_load, Packing.load, charged,
    sum_toList_of_subset (c.wanted env n) (fun _ w => (requestOf w).pair) hkeys]
  exact Finset.sum_congr rfl fun r _ => pass_share digest env c n r

section Capacity
variable {env c}

theorem ledger_settled (hn : (c.evictDead env.now).scheduler.packing.Nonneg)
    (hmod : c.Modest) :
    (pass digest env c).1.scheduler.packing.Settled
      (fun n => (c.evictDead env.now).registry.get n ≠ none)
      (Scheduler.capacityOf (c.evictDead env.now).registry) Set.univ ∧
    (pass digest env c).1.scheduler.packing.Nonneg := by
  have hreq : ∀ a ∈ assignCalls env.now (expand c.store.list), 0 ≤ a.req.pair := by
    intro a ha
    obtain ⟨inst, hi, rfl⟩ := List.mem_map.mp ha
    exact hmod.desired ((mem_instances c.store.list inst).mp hi)
  obtain ⟨hs, hn'⟩ := Scheduler.assignAll_settled hreq (V := ∅)
    (fun r hr => absurd hr (Set.notMem_empty r)) hn
  rw [pass_packing]
  refine ⟨fun r _ n x hx => ?_, Packing.restrict_nonneg hn' _⟩
  have hd : (expand c.store.list)[r]? ≠ none := by
    by_contra hd
    rw [← pass_packing digest, pass_slot, if_pos hd] at hx
    exact absurd hx (Option.some_ne_none _).symm
  obtain ⟨inst, hinst⟩ := Option.ne_none_iff_exists'.mp hd
  exact hs.restrict hn' _ r (.inr (called_of_desired env c hinst)) n x hx

theorem charged_le (hn : (c.evictDead env.now).scheduler.packing.Nonneg)
    (hmod : c.Modest)
    {n : String} {node : Node} (hnode : (c.evictDead env.now).registry.get n = some node)
    (hc : 0 ≤ schedulable node ∨ ∃ (r : String) (w : Workload), (c.wanted env n)[r]? = some w) :
    c.charged env n ≤ schedulable node := by
  have hcap : Scheduler.capacityOf (c.evictDead env.now).registry n = schedulable node := by
    simp [Scheduler.capacityOf, hnode]
  rw [← pass_committed (fun _ => "") env c n, Scheduler.committed_eq_load, ← hcap]
  refine (ledger_settled (fun _ => "") hn hmod).1.load_le ?_
  rw [hcap]
  refine hc.imp_right ?_
  rintro ⟨r, w, hw⟩
  rw [lookup_wanted, Option.map_eq_some_iff] at hw
  obtain ⟨inst, hinst, rfl⟩ := hw
  obtain ⟨hd, hm⟩ := Option.filter_eq_some_iff.mp hinst
  refine ⟨r, (requestOf inst.wl).pair, ?_⟩
  rw [pass_slot, if_neg (hd ▸ Option.some_ne_none inst), ledger_slot env c hd, of_decide_eq_true hm]
  rfl

end Capacity

end Reconciler

namespace Cluster
variable {digest : Canonical → String} {cl : Cluster} {env : Env}

def ModestStep (cl : Cluster) : Event → Prop
  | .add w => 0 ≤ (requestOf w).pair
  | e => UnmovedStep cl e

theorem ModestStep.unmoved {e : Event} (h : ModestStep cl e) : UnmovedStep cl e := by
  cases e with
  | add w => trivial
  | _ => exact h

def Solvent (cl : Cluster) : Prop :=
  cl.plane.scheduler.packing.Nonneg ∧ cl.plane.Modest

theorem Solvent.step {e : Event} (h : ModestStep cl e) (hs : Solvent cl) :
    Solvent (cl.step digest e) := by
  obtain ⟨hn, hm⟩ := hs
  cases e with
  | exit n r => exact absurd h id
  | rebalance now => exact absurd h id
  | add w =>
    obtain ⟨store, heq, hlist⟩ := cl.addWorkload_list w
    rw [Cluster.step, heq]
    refine ⟨hn, fun id v hv => ?_⟩
    rcases hlist with hlist | hlist
    · change store.list[id]? = some v at hv
      rw [hlist, lookup_insert] at hv
      split_ifs at hv with hid
      · obtain rfl := Option.some.inj hv
        exact h
      · exact hm id v hv
    · change store.list[id]? = some v at hv
      rw [hlist] at hv
      exact hm id v hv
  | remove id =>
    refine ⟨hn, fun a v hv => ?_⟩
    change (cl.plane.store.list.erase id)[a]? = some v at hv
    rw [lookup_erase] at hv
    split_ifs at hv
    exact hm a v hv
  | announce n now =>
    obtain ⟨registry, heq, -⟩ := cl.announce_eq n now
    rw [Cluster.step, heq]
    exact ⟨hn, hm⟩
  | reconcile env =>
    have hh : Healthy cl env := h
    refine ⟨?_, fun id w hw => ?_⟩
    · rw [hh.step_eq]
      exact (ledger_settled digest (hh.evict_eq.symm ▸ hn) hm).2
    · rw [hh.store_eq] at hw
      exact hm id w hw

theorem solvent_new (interval : ℤ) (hpos : 0 < interval) : Solvent (new interval hpos) := by
  refine ⟨fun r n x h => ?_, fun id w h => ?_⟩
  · simp [new, Reconciler.new, Scheduler.new, Scheduler.packing_slot] at h
  · simp [new, Reconciler.new, Store.new, Store.list] at h

/-! ### Containers that are covered -/

section Covering
variable (digest : Canonical → String) (env : Env) (cl : Cluster)

/-- The pass has a place for the container of a replica on a node: the replica is removed from
    there or moves to another node, it is within the budget of its workload for replacing stale
    containers, or it stays and asks for no less than the container was started with. -/
inductive CoveredContainer (n r : String) (w : Workload) : Prop where
  | removed (undesired : (expand cl.plane.store.list)[r]? = none)
      (assigned : cl.plane.scheduler.assignments[r]? = some n)
  | moves (inst : ReplicaInstance) (desired : (expand cl.plane.store.list)[r]? = some inst)
      (m : String) (assigned : (cl.plane.assigned env)[r]? = some m) (other : m ≠ n)
  | replaced (inst : ReplicaInstance) (desired : (expand cl.plane.store.list)[r]? = some inst)
      (stale : inst ∈ ((cl.plane.replicasOf inst.parent).filter
        (cl.plane.staleInPlace digest env)).take (cl.plane.budget env inst.parent))
  | stays (inst : ReplicaInstance) (desired : (expand cl.plane.store.list)[r]? = some inst)
      (assigned : (cl.plane.assigned env)[r]? = some n) (limits : w.limits ≤ inst.wl.limits)

variable {digest env cl} {n r : String} {w : Workload}

theorem Tracked.record_of_container (ht : Tracked cl) (hw : (cl.agents n)[r]? = some w) :
    ∃ rec, cl.plane.pushed[r]? = some rec ∧ rec.nodeID = n :=
  (ht.container n r).mp (hw ▸ Option.some_ne_none w)

theorem Tracked.stoppedOn_of_rolled (ht : Tracked cl) (hh : Healthy cl env)
    (hw : (cl.agents n)[r]? = some w) {inst : ReplicaInstance}
    (hr : (expand cl.plane.store.list)[r]? = some inst)
    (hrolled : inst ∈ cl.plane.rolled digest env inst.parent) :
    stoppedOn n r (cl.plane.pass digest env).2 = true := by
  obtain ⟨rec, hrec, rfl⟩ := ht.record_of_container hw
  have hid := expand_keyed hr
  obtain ⟨roll, -, -, -, hsent⟩ := pass_desired digest env cl.plane hr
  have hstop := (List.mem_filter.mp hrolled).2
  rw [Bool.and_eq_true, hid, hsent, hh.evict_eq] at hstop
  rw [← stoppedOn_sentFor, hsent, hh.evict_eq, hrec]
  cases hm : (cl.plane.assigned env)[r]? with
  | none => simp [hm, turn_none, stopped] at hstop
  | some m =>
    obtain ⟨node, hnode, rfl⟩ :=
      assigned_registered env cl.plane (hr ▸ Option.some_ne_none inst) hm
    rw [hh.evict_eq] at hnode
    rw [hm, turn_some digest env _ hnode] at hstop
    rw [turn_some digest env _ hnode]
    obtain ⟨hnone, -⟩ | ⟨old, -, -, hs, -⟩ | ⟨old, hold, heq, -, -, hd⟩ | ⟨old, -, -, -, hd⟩ :=
      deploy_cases digest env node inst.wl cl.plane.registry cl.plane.pushed[r]? roll
    · exact absurd (hnone.symm.trans hrec) (Option.some_ne_none rec).symm
    · rw [hs, stopped_append, stopped_stopOn, stopped_pushAssignment] at hstop
      simp at hstop
    · obtain rfl := Option.some.inj (hrec.symm.trans hold)
      rw [hrec] at hd
      rw [hd]
      exact (stoppedOn_roll node inst.wl _ r).mpr ⟨heq.symm, hid⟩
    · rw [hd] at hstop
      simp [stopped] at hstop

theorem Tracked.stoppedOn_of_moves (ht : Tracked cl) (hh : Healthy cl env)
    (hw : (cl.agents n)[r]? = some w) {inst : ReplicaInstance}
    (hr : (expand cl.plane.store.list)[r]? = some inst) {m : String}
    (hm : (cl.plane.assigned env)[r]? = some m) (hother : m ≠ n) :
    stoppedOn n r (cl.plane.pass digest env).2 = true := by
  obtain ⟨rec, hrec, rfl⟩ := ht.record_of_container hw
  obtain ⟨roll, -, -, -, hsent⟩ := pass_desired digest env cl.plane hr
  obtain ⟨node, hnode, rfl⟩ := assigned_registered env cl.plane (hr ▸ Option.some_ne_none inst) hm
  rw [hh.evict_eq] at hnode
  rw [← stoppedOn_sentFor, hsent, hh.evict_eq, hm, turn_some digest env _ hnode, hrec]
  obtain ⟨hnone, -⟩ | ⟨old, hold, -, hs, -⟩ | ⟨old, hold, heq, -⟩ | ⟨old, hold, heq, -⟩ :=
    deploy_cases digest env node inst.wl cl.plane.registry (some rec) roll
  · exact absurd hnone (Option.some_ne_none rec)
  · obtain rfl := Option.some.inj hold
    rw [hs, stoppedOn_append, (stoppedOn_stopOn _ _ _ _ _ _).mpr
      ⟨ht.registered r rec hrec, rfl, expand_keyed hr⟩, Bool.true_or]
  · obtain rfl := Option.some.inj hold
    exact absurd heq.symm hother
  · obtain rfl := Option.some.inj hold
    exact absurd heq.symm hother

theorem Tracked.stoppedOn_of_removed (ht : Tracked cl) (hh : Healthy cl env)
    (hw : (cl.agents n)[r]? = some w) (hr : (expand cl.plane.store.list)[r]? = none)
    (hm : cl.plane.scheduler.assignments[r]? = some n) :
    stoppedOn n r (cl.plane.pass digest env).2 = true := by
  obtain ⟨rec, hrec, rfl⟩ := ht.record_of_container hw
  obtain ⟨-, ⟨hnone, -⟩ | ⟨m, hm', -, hsent⟩⟩ := pass_undesired digest env cl.plane hr
  · rw [hh.evict_eq, hm] at hnone
    exact absurd hnone (Option.some_ne_none _)
  · rw [hh.evict_eq] at hm' hsent
    obtain rfl := Option.some.inj (hm'.symm.trans hm)
    rw [← stoppedOn_sentFor, hsent]
    exact (stoppedOn_stopOn _ _ _ _ _ _).mpr ⟨ht.registered r rec hrec, rfl, rfl⟩

theorem Tracked.covered (ht : Tracked cl) (hh : Healthy cl env) (hmod : cl.plane.Modest)
    (hw : (cl.agents n)[r]? = some w) (h : CoveredContainer digest env cl n r w) :
    stoppedOn n r (cl.plane.pass digest env).2 = true ∨
      (cl.plane.wanted env n)[r]? ≠ none ∧ w.limits ≤ limitUnits (cl.plane.charge env n r) := by
  cases h with
  | removed hr hm => exact .inl (ht.stoppedOn_of_removed hh hw hr hm)
  | moves inst hr m hm hother => exact .inl (ht.stoppedOn_of_moves hh hw hr hm hother)
  | replaced inst hr hstale =>
    rw [← rolled_eq_take digest hh.answers] at hstale
    exact .inl (ht.stoppedOn_of_rolled hh hw hr hstale)
  | stays inst hr hm hle =>
    have hwanted : (cl.plane.wanted env n)[r]? = some inst.wl := by
      rw [lookup_wanted, hr]
      simp [Option.filter_some, hm]
    refine .inr ⟨hwanted ▸ Option.some_ne_none _, ?_⟩
    rw [charge, entry, hwanted]
    exact hle.trans (Workload.limits_eq (hmod.wanted hwanted)).le

theorem Tracked.overhang_le (ht : Tracked cl) (hh : Healthy cl env) (hmod : cl.plane.Modest)
    (hcover : ∀ (r : String) (w : Workload), (cl.agents n)[r]? = some w →
      CoveredContainer digest env cl n r w) : overhang digest env cl n ≤ 0 := by
  refine (List.sum_le_card_nsmul _ 0 fun x hx => ?_).trans (nsmul_zero _).le
  obtain ⟨⟨r, w⟩, he, rfl⟩ := List.mem_map.mp hx
  rw [ExtTreeMap.mem_toList_iff_getElem?_eq_some, lookup_kept, stoppedOn_sentFor] at he
  split_ifs at he with hstop
  obtain hstopped | ⟨-, hle⟩ := ht.covered hh hmod he (hcover r w he)
  · exact absurd hstopped hstop
  · exact sub_nonpos.mpr hle

end Covering

/-- In every run a pass leaves the limits on a node within its capacity if it covers each of the
    containers there: the requests that the ledger holds are within the capacity, and no container
    is left with more than its replica's request. -/
theorem covered_load_le (digest : Canonical → String) (interval : ℤ) (hpos : 0 < interval)
    (es : List Event) (env : Env)
    (hrun : Guarded (step digest) ModestStep (new interval hpos) es)
    (hh : Healthy (run (step digest) (new interval hpos) es) env) (n : String) (node : Node)
    (hnode : (run (step digest) (new interval hpos) es).plane.registry.get n = some node)
    (hcover : ∀ (r : String) (w : Workload),
      ((run (step digest) (new interval hpos) es).agents n)[r]? = some w →
      CoveredContainer digest env (run (step digest) (new interval hpos) es) n r w) :
    let after := run (step digest) (new interval hpos) (es ++ [.reconcile env])
    0 ≤ schedulable node ∨ (∃ r : String, (after.agents n)[r]? ≠ none) →
      after.agents.load n ≤ limitUnits (schedulable node) := by
  intro after hused
  set cl := run (step digest) (new interval hpos) es with hcl
  obtain ⟨ht, -⟩ := hrun.invariant (fun _ _ hg => UnmovedStep.invariant hg.unmoved)
    ⟨tracked_new interval hpos, aligned_new interval hpos⟩
  obtain ⟨hn, hmod⟩ := hrun.invariant (fun _ _ hg => Solvent.step hg) (solvent_new interval hpos)
  rw [← hcl] at ht hn hmod
  have hafter : after = cl.step digest (.reconcile env) := by rw [hcl]; exact run_append ..
  rw [hafter] at hused ⊢
  have hwanted : 0 ≤ schedulable node ∨
      ∃ (r : String) (w : Workload), (cl.plane.wanted env n)[r]? = some w := by
    refine hused.imp_right ?_
    rintro ⟨r, hr⟩
    rw [ht.pass_containers hh n r, lookup_kept, stoppedOn_sentFor] at hr
    refine ⟨r, Option.ne_none_iff_exists'.mp ?_⟩
    split_ifs at hr with hstop
    · exact hr
    · cases hw : (cl.agents n)[r]? with
      | none => rwa [hw, Option.none_or] at hr
      | some w => exact ((ht.covered hh hmod hw (hcover r w hw)).resolve_left hstop).1
  have hcharged : cl.plane.charged env n ≤ schedulable node :=
    charged_le (hh.evict_eq.symm ▸ hn) hmod (hh.evict_eq.symm ▸ hnode) hwanted
  calc (cl.step digest (.reconcile env)).agents.load n
      = limitUnits (cl.plane.charged env n) + overhang digest env cl n := ht.pass_load hh hmod n
    _ ≤ limitUnits (cl.plane.charged env n) + 0 := by
      gcongr
      exact ht.overhang_le hh hmod hcover
    _ ≤ limitUnits (schedulable node) := by
      rw [add_zero]
      exact limitUnits_mono hcharged

private def ofSize (id : String) (memoryMB : ℤ) : Workload :=
  { id := id, image := "web", resources := some ⟨0, memoryMB⟩ }

private def shrunk : Workload := { ofSize "a" 1000 with image := "web:2" }

/-- `a` and `b` run on `n1`; `a` is updated to less memory, `b` is removed and `c` is added. -/
private def turnover : List Event :=
  thenPass (deployed ["n1"] [("a", 3000), ("b", 1000)]) 1 ++
    [.add shrunk, .remove "b", .add (ofSize "c" 4500)]

private theorem turnover_covered : ∀ (r : String) (w : Workload),
    ((runOf turnover).agents "n1")[r]? = some w →
      CoveredContainer Canonical.image (honest (runOf turnover) 2) (runOf turnover) "n1" r w := by
  intro r w hw
  have hmem : r ∈ ((runOf turnover).agents "n1").keys :=
    (mem_keys_iff _ r).mpr (hw ▸ Option.some_ne_none w)
  have hkeys : ((runOf turnover).agents "n1").keys = ["a-0", "b-0"] := by decide +kernel
  rw [hkeys, List.mem_cons, List.mem_singleton] at hmem
  rcases hmem with rfl | rfl
  · have hr : (expand (runOf turnover).plane.store.list)["a-0"]? =
        some (replicaInstance "a" shrunk 0) := rfl
    have hstale : replicaInstance "a" shrunk 0 ∈ ((runOf turnover).plane.replicasOf "a").filter
        ((runOf turnover).plane.staleInPlace Canonical.image (honest (runOf turnover) 2)) :=
      List.mem_filter.mpr ⟨(Reconciler.mem_replicasOf _ _ _).mpr ⟨hr, rfl⟩, by decide +kernel⟩
    refine .replaced (replicaInstance "a" shrunk 0) hr ?_
    rw [List.take_of_length_le (by decide +kernel)]
    exact hstale
  · exact .removed (by decide +kernel) (by decide +kernel)

/-- The smaller container of `a` replaces the larger one, that of `b` is stopped, and `c` is
    started next to them. -/
theorem covered_load_le_turnover :
    (runOf (thenPass turnover 2)).agents.load "n1" ≤ limitUnits (3400, 6800) := by
  have h := covered_load_le Canonical.image 1 one_pos turnover (honest (runOf turnover) 2) ?_
    (honest_healthy (by decide +kernel)) "n1" { id := "n1", cpu := 4, memoryMB := 8000 } ?_
    turnover_covered (.inl (by decide +kernel))
  · exact h.trans (by decide +kernel)
  · change _ ∧ _ ∧ _ ∧ _ ∧ _ ∧ _ ∧ _ ∧ True
    exact ⟨trivial, by unfold ModestStep; decide, by unfold ModestStep; decide,
      honest_healthy (by decide +kernel), by unfold ModestStep; decide, trivial,
      by unfold ModestStep; decide, trivial⟩
  · decide +kernel

/-- The request of `a` outgrows the node, so the ledger releases it and admits `b`
    next to the container of `a`, which nobody stops. -/
theorem outgrown_replica_overloads_node :
    ¬ ∀ (digest : Canonical → String) (interval : ℤ) (hpos : 0 < interval) (es : List Event)
      (env : Env), Guarded (step digest) ModestStep (new interval hpos) es →
      Healthy (run (step digest) (new interval hpos) es) env →
      ∀ (n : String) (node : Node),
        (run (step digest) (new interval hpos) es).plane.registry.get n = some node →
        (run (step digest) (new interval hpos) (es ++ [.reconcile env])).agents.load n ≤
          limitUnits (schedulable node) := by
  intro h
  have hguard : Guarded (step Canonical.image) ModestStep (new 1 one_pos)
      (thenPass (deployed ["n1"] [("a", 3000)]) 1 ++
        [.add (ofSize "a" 9000), .add (ofSize "b" 6000)]) := by
    change _ ∧ _ ∧ _ ∧ _ ∧ _ ∧ True
    exact ⟨trivial, by unfold ModestStep; decide, honest_healthy (by decide +kernel),
      by unfold ModestStep; decide, by unfold ModestStep; decide, trivial⟩
  have hs := h Canonical.image 1 one_pos _ _ hguard (@honest_healthy _ 2 (by decide +kernel)) "n1"
    { id := "n1", cpu := 4, memoryMB := 8000 } (by decide +kernel)
  revert hs
  decide +kernel

end Cluster
end Smith
