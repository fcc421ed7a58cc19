import Smith.Cluster

set_option autoImplicit false

/-!
# Containers and push records

While no node dies and every agent call succeeds, the push records are the control
plane's only memory of what runs where: a replica has a container on a node exactly
if its push record names that node. A pass keeps it so for a desired replica, and
for any other replica whose assignment names the node of its record.
-/
namespace Smith
open FiniteMaps Reconciler Runs Std

namespace Cluster

/-- A pass in which no node is dead and every agent answers and is obeyed. -/
structure Healthy (cl : Cluster) (env : Env) : Prop where
  listed : env.listError = none
  alive : cl.plane.registry.dead env.now = []
  answers : ∀ call, env.answer call = true
  statuses : ∀ n, cl.plane.registry.get n ≠ none → ∃ status, env.status n = some status ∧
    ∀ r : String, status[r]? = some .running ↔ (cl.agents n)[r]? ≠ none

structure Tracked (cl : Cluster) : Prop where
  container : ∀ n r : String, (cl.agents n)[r]? ≠ none ↔
    ∃ rec, cl.plane.pushed[r]? = some rec ∧ rec.nodeID = n
  registered : ∀ (r : String) (rec : PushRecord), cl.plane.pushed[r]? = some rec →
    cl.plane.registry.get rec.nodeID ≠ none

variable {digest : Canonical → String} {cl : Cluster} {env : Env}

theorem Healthy.step_eq (hh : Healthy cl env) : cl.step digest (.reconcile env) =
    ⟨(cl.plane.pass digest env).1, cl.agents.receive (cl.plane.pass digest env).2⟩ :=
  step_reconcile digest cl hh.listed

theorem Healthy.evict_eq (hh : Healthy cl env) : cl.plane.evictDead env.now = cl.plane :=
  evictDead_of_alive cl.plane hh.alive

theorem Healthy.mem_alive (hh : Healthy cl env) {n : String} {node : Node}
    (h : cl.plane.registry.get n = some node) : node ∈ cl.plane.registry.alive env.now := by
  have hid := Registry.get_id h
  subst hid
  rw [Registry.mem_alive]
  refine ⟨h, ?_⟩
  by_contra hlt
  have hd : node ∈ cl.plane.registry.dead env.now :=
    (Registry.mem_dead _ _ _).mpr ⟨h, Int.not_lt.mp hlt⟩
  rw [hh.alive] at hd
  exact List.not_mem_nil hd

theorem Tracked.running_of_pushed (ht : Tracked cl) (hh : Healthy cl env) {r : String}
    {rec : PushRecord} (h : cl.plane.pushed[r]? = some rec) :
    (cl.plane.running env).getD r false = true := by
  obtain ⟨node, hnode⟩ := Option.ne_none_iff_exists'.mp (ht.registered r rec h)
  obtain ⟨status, hs, hrun⟩ := hh.statuses rec.nodeID (ht.registered r rec h)
  rw [running, hh.evict_eq, clusterRunning_iff]
  refine ⟨node, hh.mem_alive hnode, status, ?_, ?_⟩
  · rw [Registry.get_id hnode]
    exact hs
  · rw [hrun, ht.container]
    exact ⟨rec, h, rfl⟩

theorem Tracked.filter_keeps (ht : Tracked cl) (hh : Healthy cl env) (r : String) :
    cl.plane.pushed[r]?.filter (cl.plane.keeps env r) = cl.plane.pushed[r]? := by
  cases h : cl.plane.pushed[r]? with
  | none => rfl
  | some rec => simp [keeps, ht.running_of_pushed hh h]

theorem keeps_recordPush (digest : Canonical → String) (cl : Cluster) (env : Env) (node : Node) (wl : Workload) (r : String) :
    cl.plane.keeps env r (recordPush digest env node wl) = true := by
  have hpos := cl.plane.interval_pos
  simp [keeps, recordPush, hpos]

theorem Tracked.container_of_none (ht : Tracked cl) {r : String}
    (h : cl.plane.pushed[r]? = none) (n : String) : (cl.agents n)[r]? = none := by
  by_contra hc
  obtain ⟨rec, hrec, -⟩ := (ht.container n r).mp hc
  rw [h] at hrec
  exact absurd hrec (Option.some_ne_none rec).symm

theorem Tracked.container_of_some (ht : Tracked cl) {r : String} {rec : PushRecord}
    (h : cl.plane.pushed[r]? = some rec) (n : String) :
    (cl.agents n)[r]? ≠ none ↔ n = rec.nodeID := by
  rw [ht.container]
  constructor
  · rintro ⟨rec', hrec', rfl⟩
    rw [Option.some.inj (h.symm.trans hrec')]
  · rintro rfl
    exact ⟨rec, h, rfl⟩

theorem Tracked.pass_assigned (digest : Canonical → String) (ht : Tracked cl) (hh : Healthy cl env) {r m : String}
    {inst : ReplicaInstance} (hr : (expand cl.plane.store.list)[r]? = some inst)
    (hm : (cl.plane.assigned env)[r]? = some m) :
    (∀ n, ((cl.step digest (.reconcile env)).agents n)[r]? ≠ none ↔ n = m) ∧
      ∃ rec, (cl.step digest (.reconcile env)).plane.pushed[r]? = some rec ∧ rec.nodeID = m := by
  obtain ⟨node, roll, rfl, -, hpushed, hagents⟩ := pass_deploys digest hr hm
  rw [hh.evict_eq] at hpushed hagents
  have hid := expand_keyed hr
  rw [hh.step_eq]
  dsimp only
  simp only [hagents, hpushed]
  have hstored : (if env.answer (.assign node.id inst.wl) then
      some (recordPush digest env node inst.wl) else none) =
      some (recordPush digest env node inst.wl) := if_pos (hh.answers _)
  have hkept := keeps_recordPush digest cl env node inst.wl r
  obtain ⟨hrec, hs, hd, -⟩ | ⟨rec, hrec, hne, hs, hd, -⟩ | ⟨rec, hrec, heq, -, -, hd⟩ |
      ⟨rec, hrec, heq, -, hd⟩ :=
    deploy_cases digest env node inst.wl cl.plane.registry cl.plane.pushed[r]? roll
  · rw [hs, hd, hstored]
    refine ⟨fun n => ?_, recordPush digest env node inst.wl, by simp [hkept], rfl⟩
    rw [Agents.receive_pushAssignment, ht.container_of_none hrec, hid]
    simp [hh.answers]
  · rw [hs, hd, hstored]
    refine ⟨fun n => ?_, recordPush digest env node inst.wl, by simp [hkept], rfl⟩
    rw [Agents.receive_append, Agents.receive_pushAssignment, Agents.receive_stopOn, hid]
    have hc := ht.container_of_some hrec n
    have hg := ht.registered r rec hrec
    by_cases hn : n = rec.nodeID
    · have hnm : n ≠ node.id := fun h => hne (hn.symm.trans h)
      simp [hn, hg, hh.answers, hne]
    · have hnone : (cl.agents n)[r]? = none := by simpa using hc.not.mpr hn
      simp [hn, hnone, hh.answers]
  · rw [hd]
    have hroll : (Reconciler.roll digest env node inst.wl).recorded =
        some (recordPush digest env node inst.wl) := by
      simp [Reconciler.roll, pushUnassign, pushAssignment, hh.answers]
    refine ⟨fun n => ?_, recordPush digest env node inst.wl, by simp [hroll, hkept], rfl⟩
    rw [Agents.receive_roll, hid]
    have hc := ht.container_of_some hrec n
    rw [heq] at hc
    by_cases hn : n = node.id
    · simp [hn, hh.answers]
    · simpa [hn] using hc
  · rw [hd]
    refine ⟨fun n => ?_, rec, ?_, heq⟩
    · rw [Agents.receive_nil, ht.container_of_some hrec, heq]
    · rw [Option.none_or, ht.filter_keeps hh, hrec]

theorem Tracked.pass_unassigned (digest : Canonical → String) (ht : Tracked cl) (hh : Healthy cl env) {r : String}
    (h : (∃ inst, (expand cl.plane.store.list)[r]? = some inst ∧
        (cl.plane.assigned env)[r]? = none) ∨
      ((expand cl.plane.store.list)[r]? = none ∧ cl.plane.scheduler.assignments[r]? = none)) :
    (∀ n, ((cl.step digest (.reconcile env)).agents n)[r]? = (cl.agents n)[r]?) ∧
      (cl.step digest (.reconcile env)).plane.pushed[r]? = cl.plane.pushed[r]? := by
  have hquiet : (cl.plane.pass digest env).1.pushed[r]? =
      cl.plane.pushed[r]?.filter (cl.plane.keeps env r) ∧
      sentFor r (cl.plane.pass digest env).2 = [] := by
    obtain ⟨inst, hr, hm⟩ | ⟨hr, hm⟩ := h
    · have hpending := pass_pending digest env cl.plane hr hm
      rw [hh.evict_eq] at hpending
      exact hpending
    · obtain ⟨-, ⟨-, hpushed, hsent⟩ | ⟨n, hn, -, -⟩⟩ := pass_undesired digest env cl.plane hr
      · rw [hh.evict_eq] at hpushed
        exact ⟨hpushed, hsent⟩
      · rw [hh.evict_eq, hm] at hn
        exact absurd hn (Option.some_ne_none n).symm
  rw [hh.step_eq]
  refine ⟨fun n => ?_, hquiet.1.trans (ht.filter_keeps hh r)⟩
  rw [Agents.receive_sentFor, hquiet.2, Agents.receive_nil]

theorem Tracked.pass_removed (digest : Canonical → String) (ht : Tracked cl) (hh : Healthy cl env) {r m : String}
    (hr : (expand cl.plane.store.list)[r]? = none)
    (hm : cl.plane.scheduler.assignments[r]? = some m) :
    (∀ n, ((cl.step digest (.reconcile env)).agents n)[r]? =
      if n = m then none else (cl.agents n)[r]?) ∧
      (cl.step digest (.reconcile env)).plane.pushed[r]? = none := by
  obtain ⟨-, ⟨hn, -, -⟩ | ⟨n, hn, hpushed, hsent⟩⟩ := pass_undesired digest env cl.plane hr
  · rw [hh.evict_eq, hm] at hn
    exact absurd hn (Option.some_ne_none m)
  · rw [hh.evict_eq] at hn hsent
    obtain rfl := Option.some.inj (hn.symm.trans hm)
    rw [hh.step_eq]
    refine ⟨fun k => ?_, hpushed⟩
    rw [Agents.receive_sentFor, hsent, Agents.receive_stopOn]
    by_cases hg : cl.plane.registry.get n = none
    · have hnone : (cl.agents n)[r]? = none := by
        by_contra hc
        obtain ⟨rec, hrec, rfl⟩ := (ht.container n r).mp hc
        exact ht.registered r rec hrec hg
      by_cases hk : k = n
      · simp [hk, hnone]
      · simp [hk]
    · simp [hg, hh.answers]

/-- After a pass the record of one replica is true and names a registered node. -/
def TrackedReplica (digest : Canonical → String) (env : Env) (cl : Cluster) (r : String) : Prop :=
  (∀ n, ((cl.step digest (.reconcile env)).agents n)[r]? ≠ none ↔
    ∃ rec, (cl.step digest (.reconcile env)).plane.pushed[r]? = some rec ∧ rec.nodeID = n) ∧
  ∀ rec, (cl.step digest (.reconcile env)).plane.pushed[r]? = some rec →
    cl.plane.registry.get rec.nodeID ≠ none

theorem Tracked.replica_same (ht : Tracked cl) {r : String}
    (h : (∀ n, ((cl.step digest (.reconcile env)).agents n)[r]? = (cl.agents n)[r]?) ∧
      (cl.step digest (.reconcile env)).plane.pushed[r]? = cl.plane.pushed[r]?) :
    TrackedReplica digest env cl r := by
  obtain ⟨ha, hp⟩ := h
  rw [TrackedReplica, hp]
  exact ⟨fun n => by rw [ha n, ht.container], ht.registered r⟩

theorem Tracked.replica_assigned (ht : Tracked cl) (hh : Healthy cl env) {r m : String}
    {inst : ReplicaInstance} (hr : (expand cl.plane.store.list)[r]? = some inst)
    (hm : (cl.plane.assigned env)[r]? = some m) : TrackedReplica digest env cl r := by
  obtain ⟨hc, rec, hrec, rfl⟩ := ht.pass_assigned digest hh hr hm
  obtain ⟨node, hnode, -⟩ := assigned_registered env cl.plane (hr ▸ Option.some_ne_none inst) hm
  rw [hh.evict_eq] at hnode
  rw [TrackedReplica, hrec]
  refine ⟨fun n => (hc n).trans ?_, ?_⟩
  · simp [eq_comm]
  · rintro rec' h
    obtain rfl := Option.some.inj h
    rw [hnode]
    exact Option.some_ne_none node

theorem Tracked.replica_removed (ht : Tracked cl) (hh : Healthy cl env) {r m : String}
    (hr : (expand cl.plane.store.list)[r]? = none)
    (hm : cl.plane.scheduler.assignments[r]? = some m)
    (hrem : ∀ rec, cl.plane.pushed[r]? = some rec → rec.nodeID = m) :
    TrackedReplica digest env cl r := by
  obtain ⟨hc, hp⟩ := ht.pass_removed digest hh hr hm
  rw [TrackedReplica, hp]
  refine ⟨fun n => ?_, fun rec h => absurd h (Option.some_ne_none rec).symm⟩
  rw [hc n]
  refine iff_of_false ?_ ?_
  · intro hne
    split_ifs at hne with hn
    · exact hne rfl
    · obtain ⟨rec, hrec, rfl⟩ := (ht.container n r).mp hne
      exact hn (hrem rec hrec)
  · rintro ⟨rec, h, -⟩
    exact absurd h (Option.some_ne_none rec).symm

theorem Tracked.pass (ht : Tracked cl) (hh : Healthy cl env)
    (hrem : ∀ (r m : String) (rec : PushRecord), (expand cl.plane.store.list)[r]? = none →
      cl.plane.scheduler.assignments[r]? = some m → cl.plane.pushed[r]? = some rec →
      rec.nodeID = m) :
    Tracked (cl.step digest (.reconcile env)) := by
  have hreg : (cl.step digest (.reconcile env)).plane.registry = cl.plane.registry := by
    rw [hh.step_eq]
    exact (pass_rest digest env cl.plane).1.trans (congrArg Reconciler.registry hh.evict_eq)
  have hreplica (r : String) : TrackedReplica digest env cl r := by
    cases hr : (expand cl.plane.store.list)[r]? with
    | some inst =>
      cases hm : (cl.plane.assigned env)[r]? with
      | none => exact ht.replica_same (ht.pass_unassigned digest hh (.inl ⟨inst, hr, hm⟩))
      | some m => exact ht.replica_assigned hh hr hm
    | none =>
      cases hm : cl.plane.scheduler.assignments[r]? with
      | none => exact ht.replica_same (ht.pass_unassigned digest hh (.inr ⟨hr, hm⟩))
      | some m => exact ht.replica_removed hh hr hm fun rec => hrem r m rec hr hm
  exact ⟨fun n r => (hreplica r).1 n, fun r rec h => hreg ▸ (hreplica r).2 rec h⟩

theorem Tracked.frame (ht : Tracked cl) {e : Event} (hpass : ∀ env, e ≠ .reconcile env)
    (hexit : ∀ n r, e ≠ .exit n r) : Tracked (cl.step digest e) := by
  obtain ⟨ha, hp, hg⟩ := cl.step_frame digest hpass hexit
  refine ⟨fun n r => ?_, fun r rec h => ?_⟩
  · rw [ha, hp]
    exact ht.container n r
  · rw [hp] at h
    exact hg _ (ht.registered r rec h)

theorem tracked_new (interval : ℤ) (hpos : 0 < interval) : Tracked (new interval hpos) := by
  refine ⟨fun n r => ?_, fun r rec h => ?_⟩
  · simp [new, Reconciler.new]
  · simp [new, Reconciler.new] at h

def honest (cl : Cluster) (now : ℤ) : Env where
  now := now
  status n := some ((cl.agents n).map fun _ _ => .running)
  answer _ := true

theorem honest_healthy {now : ℤ} (h : cl.plane.registry.dead now = []) :
    Healthy cl (honest cl now) := by
  refine ⟨rfl, h, fun _ => rfl, fun n _ => ⟨_, rfl, fun r => ?_⟩⟩
  rw [ExtTreeMap.getElem?_map]
  cases (cl.agents n)[r]? <;> simp

end Cluster
end Smith
