import Smith.SchedulerStability
import Smith.StrandedContainers

set_option autoImplicit false

/-!
# Nodes that die and come back

Eviction forgets where a dead node's replicas ran. As long as every node registers
with an empty agent, the containers of the registered nodes are where the scheduler
has them. A node that returns with its containers keeps a second copy.
-/
namespace Smith
open FiniteMaps Reconciler Runs Std

namespace Cluster

def SingleCopy (cl : Cluster) : Prop :=
  ∀ r n m : String, cl.plane.registry.get n ≠ none → cl.plane.registry.get m ≠ none →
    (cl.agents n)[r]? ≠ none → (cl.agents m)[r]? ≠ none → n = m

structure Homed (cl : Cluster) : Prop where
  steady : cl.plane.scheduler.Steady cl.plane.registry
    (desiredRequest (expand cl.plane.store.list))
  desired : ∀ r n : String, cl.plane.scheduler.assignments[r]? = some n →
    (expand cl.plane.store.list)[r]? ≠ none
  pushed : ∀ (r : String) (rec : PushRecord), cl.plane.pushed[r]? = some rec →
    cl.plane.scheduler.assignments[r]? = some rec.nodeID
  container : ∀ n r : String, cl.plane.registry.get n ≠ none → (cl.agents n)[r]? ≠ none →
    cl.plane.scheduler.assignments[r]? = some n

variable {digest : Canonical → String} {cl : Cluster} {env : Env}

theorem Homed.singleCopy (h : Homed cl) : SingleCopy cl := by
  intro r n m hn hm hcn hcm
  exact Option.some.inj ((h.container n r hn hcn).symm.trans (h.container m r hm hcm))

theorem homed_new (interval : ℤ) (hpos : 0 < interval) : Homed (new interval hpos) := by
  have hnone : ∀ r : String, (new interval hpos).plane.scheduler.assignments[r]? = none := by
    simp [new, Reconciler.new, Scheduler.new]
  refine ⟨⟨?_, ?_⟩, ?_, ?_, ?_⟩
  · intro r n h
    exact absurd ((hnone r).symm.trans h) (Option.some_ne_none n).symm
  · intro r n h
    exact absurd ((hnone r).symm.trans h) (Option.some_ne_none n).symm
  · intro r n h
    exact absurd ((hnone r).symm.trans h) (Option.some_ne_none n).symm
  · intro r rec h
    simp [new, Reconciler.new] at h
  · intro n r hn
    simp [new, Reconciler.new, Registry.new, Registry.get] at hn

theorem steady_foldl_evict {req : String → Resources} (l : List Node) {c : Reconciler}
    (h : c.scheduler.Steady c.registry req) :
    (l.foldl evict c).scheduler.Steady (l.foldl evict c).registry req := by
  induction l generalizing c with
  | nil => exact h
  | cons node l ih => exact ih (h.reassignNode node.id)

theorem Homed.evictDead (h : Homed cl) (now : ℤ) : Homed { cl with plane := cl.plane.evictDead now } := by
  have hstore := evictDead_store cl.plane now
  have hkept : ∀ r n : String, (cl.plane.evictDead now).scheduler.assignments[r]? = some n →
      cl.plane.scheduler.assignments[r]? = some n := by
    intro r n hr
    obtain ⟨-, ha, -⟩ | ⟨-, ha, -⟩ := foldl_evict cl.plane (cl.plane.registry.dead now) r
    · exact absurd (ha.symm.trans hr) (Option.some_ne_none n).symm
    · exact ha.symm.trans hr
  refine ⟨?_, ?_, ?_, ?_⟩
  · dsimp only
    rw [hstore]
    exact steady_foldl_evict _ h.steady
  · intro r n hr
    dsimp only
    rw [hstore]
    exact h.desired r n (hkept r n hr)
  · intro r rec hp
    obtain ⟨-, -, hn⟩ | ⟨-, ha, hk⟩ := foldl_evict cl.plane (cl.plane.registry.dead now) r
    · exact absurd (hn.symm.trans hp) (Option.some_ne_none rec).symm
    · exact ha.trans (h.pushed r rec (hk.symm.trans hp))
  · intro n r hn hc
    have hg := (foldl_evict_rest cl.plane (cl.plane.registry.dead now)).2.2 n
    have hmem : n ∉ (cl.plane.registry.dead now).map Node.id := fun hm => by
      rw [if_pos hm] at hg
      exact hn hg
    rw [if_neg hmem] at hg
    have hr := h.container n r (fun hnone => hn (hg.trans hnone)) hc
    obtain ⟨⟨node, hnode, he⟩, -, -⟩ | ⟨-, ha, -⟩ :=
      foldl_evict cl.plane (cl.plane.registry.dead now) r
    · rw [hr, Option.some.injEq] at he
      exact absurd (List.mem_map_of_mem hnode) (he ▸ hmem)
    · exact ha.trans hr

/-- What a pass leaves of a replica that the evicted plane still has at home, given
    the assignment that the pass ends on. -/
def HomedReplica (digest : Canonical → String) (env : Env) (cl : Cluster) (r : String) : Prop :=
  (∀ rec, (cl.plane.pass digest env).1.pushed[r]? = some rec →
    (cl.plane.pass digest env).1.scheduler.assignments[r]? = some rec.nodeID) ∧
  ∀ m, (cl.plane.evictDead env.now).registry.get m ≠ none →
    (cl.agents.receive (cl.plane.pass digest env).2 m)[r]? ≠ none →
    (cl.plane.pass digest env).1.scheduler.assignments[r]? = some m

theorem Homed.replica_of_quiet (h : Homed { cl with plane := cl.plane.evictDead env.now })
    {r : String} (hr : (cl.plane.evictDead env.now).scheduler.assignments[r]? = none)
    (hpushed : (cl.plane.pass digest env).1.pushed[r]? =
      (cl.plane.evictDead env.now).pushed[r]?.filter (cl.plane.keeps env r))
    (hsent : sentFor r (cl.plane.pass digest env).2 = []) : HomedReplica digest env cl r := by
  constructor
  · intro rec hp
    rw [hpushed, Option.filter_eq_some_iff] at hp
    exact absurd (hr.symm.trans (h.pushed r rec hp.1)) (Option.some_ne_none _).symm
  · intro m hm hc
    rw [Agents.receive_sentFor, hsent, Agents.receive_nil] at hc
    exact absurd (hr.symm.trans (h.container m r hm hc)) (Option.some_ne_none m).symm

/-- A replica keeps the node of its push record, so the pass only pushes it to the
    node it is assigned to. -/
theorem Homed.replica_of_assigned (h : Homed { cl with plane := cl.plane.evictDead env.now })
    {r n : String} {inst : ReplicaInstance} (hr : (expand cl.plane.store.list)[r]? = some inst)
    (hn : (cl.plane.assigned env)[r]? = some n)
    (hkeep : ∀ m, (cl.plane.evictDead env.now).scheduler.assignments[r]? = some m → n = m) :
    HomedReplica digest env cl r := by
  obtain ⟨node, roll, rfl, -, hpushed, hagents⟩ := pass_deploys digest hr hn
  obtain ⟨-, -, -, hassigned, -⟩ := pass_desired digest env cl.plane hr
  rw [hn] at hassigned
  have hrecord : ∀ rec, (cl.plane.evictDead env.now).pushed[r]? = some rec →
      rec.nodeID = node.id := fun rec hrec => (hkeep _ (h.pushed r rec hrec)).symm
  have hcontainer : ∀ m, (cl.plane.evictDead env.now).registry.get m ≠ none →
      (cl.agents m)[r]? ≠ none → m = node.id := fun m hm hc => (hkeep m (h.container m r hm hc)).symm
  have hstored : ∀ (rec : PushRecord), (if env.answer (.assign node.id inst.wl) then
      some (recordPush digest env node inst.wl) else none) = some rec → rec.nodeID = node.id := by
    intro rec hrec
    split_ifs at hrec
    rw [← Option.some.inj hrec]
    rfl
  unfold HomedReplica
  rw [hassigned]
  obtain ⟨hrec, hs, hd, -⟩ | ⟨old, hrec, hne, -⟩ | ⟨old, hrec, heq, -, -, hd⟩ |
      ⟨old, hrec, heq, -, hd⟩ := deploy_cases digest env node inst.wl
        (cl.plane.evictDead env.now).registry (cl.plane.evictDead env.now).pushed[r]? roll
  · constructor
    · intro rec hp
      rw [hpushed, hd, hrec, Option.or_none, Option.filter_eq_some_iff] at hp
      rw [hstored rec hp.1]
    · intro m hm hc
      rw [hagents, hs, Agents.receive_pushAssignment] at hc
      split_ifs at hc with hpush
      · rw [hpush.1]
      · rw [hcontainer m hm hc]
  -- no move: the record names the node that the replica keeps
  · exact absurd (hrecord old hrec) hne
  · constructor
    · intro rec hp
      rw [hpushed, hd, hrec, Option.filter_eq_some_iff] at hp
      rcases roll_recorded digest env node inst.wl with hroll | hroll
      · rw [hroll, Option.none_or, Option.some.injEq] at hp
        rw [← hp.1, heq]
      · rw [hroll, Option.some_or, Option.some.injEq] at hp
        rw [← hp.1]
        rfl
    · intro m hm hc
      rw [hagents, hd, Agents.receive_roll] at hc
      by_cases hroll : m = node.id
      · rw [hroll]
      · rw [if_neg fun hs => hroll hs.1] at hc
        rw [hcontainer m hm hc]
  · constructor
    · intro rec hp
      rw [hpushed, hd, hrec, Option.none_or, Option.filter_eq_some_iff] at hp
      rw [← Option.some.inj hp.1, heq]
    · intro m hm hc
      rw [hagents, hd, Agents.receive_nil] at hc
      rw [hcontainer m hm hc]

theorem Homed.pass_replica (h : Homed cl) (r : String) : HomedReplica digest env cl r := by
  have he := h.evictDead env.now
  have hst := he.steady
  dsimp only at hst
  rw [evictDead_store] at hst
  obtain ⟨-, hkeep⟩ := hst.assignAll (assignCalls_request cl.plane.store.list env.now)
  cases hr : (expand cl.plane.store.list)[r]? with
  | none =>
    obtain ⟨-, ⟨hn, hpushed, hsent⟩ | ⟨n, hn, -, -⟩⟩ := pass_undesired digest env cl.plane hr
    · exact he.replica_of_quiet hn hpushed hsent
    · have hd := he.desired r n hn
      dsimp only at hd
      rw [evictDead_store] at hd
      exact absurd hr hd
  | some inst =>
    cases hn : (cl.plane.assigned env)[r]? with
    | none =>
      obtain ⟨hpushed, hsent⟩ := pass_pending digest env cl.plane hr hn
      refine he.replica_of_quiet ?_ hpushed hsent
      by_contra hne
      obtain ⟨m, hm⟩ := Option.ne_none_iff_exists'.mp hne
      exact absurd (hn.symm.trans (hkeep r m hm)) (Option.some_ne_none m).symm
    | some n =>
      refine he.replica_of_assigned hr hn fun m hm => ?_
      exact Option.some.inj (hn.symm.trans (hkeep r m hm))

theorem Homed.pass (h : Homed cl) (hl : env.listError = none) :
    Homed (cl.step digest (.reconcile env)) := by
  have he := h.evictDead env.now
  have hstore := evictDead_store cl.plane env.now
  have hst := he.steady
  dsimp only at hst
  rw [hstore] at hst
  rw [step_reconcile digest cl hl]
  refine ⟨?_, ?_, fun r => (h.pass_replica r).1, fun m r => (h.pass_replica r).2 m⟩
  · have hsched := pass_scheduler digest env cl.plane fun r n hr => hstore ▸ he.desired r n hr
    dsimp only
    rw [hsched, (pass_rest digest env cl.plane).2.1]
    exact (hst.assignAll (assignCalls_request cl.plane.store.list env.now)).1
  · intro r n hn hr
    dsimp only at hn hr
    rw [(pass_rest digest env cl.plane).2.1] at hr
    rw [(pass_undesired digest env cl.plane hr).1] at hn
    exact absurd hn (Option.some_ne_none n).symm

theorem Homed.exit (h : Homed cl) (n r : String) : Homed (cl.step digest (.exit n r)) := by
  refine ⟨h.steady, h.desired, h.pushed, fun m q hm hc => h.container m q hm fun hnone => hc ?_⟩
  change (cl.agents.apply (.unassign n r) m)[q]? = none
  rw [Agents.apply_unassign, hnone, ite_self]

theorem Homed.announce {n : Node} (h : Homed cl)
    (hempty : cl.plane.registry.get n.id = none → ∀ r : String, (cl.agents n.id)[r]? = none)
    (now : ℤ) : Homed (cl.step digest (.announce n now)) := by
  obtain ⟨registry, he, hget⟩ := cl.announce_eq n now
  rw [step, he]
  refine ⟨h.steady.registry (announce_schedulable hget), h.desired, h.pushed, fun m r hm hc => ?_⟩
  dsimp only at hm hc
  rw [hget] at hm
  refine h.container m r (fun hnone => ?_) hc
  split_ifs at hm with hid
  · subst hid
    exact hc (hempty hnone r)
  · exact hm hnone

theorem Homed.add {w : Workload} (h : Homed cl) (hnew : cl.plane.store.list[w.id]? = none) :
    Homed (cl.step digest (.add w)) := by
  obtain ⟨store, he, hlist⟩ := cl.addWorkload_list w
  have hkept : ∀ (r : String) (inst : ReplicaInstance),
      (expand cl.plane.store.list)[r]? = some inst → (expand store.list)[r]? = some inst := by
    intro r inst hr
    obtain ⟨id, v, i, hv, hi⟩ := (expand_lookup _ r inst).mp hr
    refine (expand_lookup _ r inst).mpr ⟨id, v, i, ?_, hi⟩
    rcases hlist with hlist | hlist
    · rw [hlist, lookup_insert_ne _ _ fun hid => ?_]
      · exact hv
      · rw [hid] at hnew
        exact absurd (hnew.symm.trans hv) (Option.some_ne_none v).symm
    · rw [hlist]
      exact hv
  rw [step, he]
  refine ⟨⟨h.steady.within, fun r n hr => ?_⟩, fun r n hr => ?_, h.pushed, h.container⟩
  · obtain ⟨inst, hinst⟩ := Option.ne_none_iff_exists'.mp (h.desired r n hr)
    have hreq := h.steady.request r n hr
    rw [desiredRequest, hinst] at hreq
    dsimp only
    rw [desiredRequest, hkept r inst hinst]
    exact hreq
  · obtain ⟨inst, hinst⟩ := Option.ne_none_iff_exists'.mp (h.desired r n hr)
    rw [hkept r inst hinst]
    exact Option.some_ne_none inst

/-- Workloads are only added; nodes fall silent, die and register at any time. -/
def ReturnStep (cl : Cluster) : Event → Prop
  | .add w => cl.plane.store.list[w.id]? = none
  | .announce _ _ => True
  | .reconcile _ => True
  | _ => False

/-- Also, an agent that the control plane does not know registers without containers. -/
def EmptyReturnStep (cl : Cluster) : Event → Prop
  | .add w => cl.plane.store.list[w.id]? = none
  | .announce n _ =>
    cl.plane.registry.get n.id = none → ∀ r : String, (cl.agents n.id)[r]? = none
  | .exit _ _ => True
  | .reconcile _ => True
  | _ => False

theorem Homed.step {e : Event} (h : Homed cl) (he : EmptyReturnStep cl e) :
    Homed (cl.step digest e) := by
  cases e with
  | add w => exact h.add he
  | announce n now => exact h.announce he now
  | exit n r => exact h.exit n r
  | reconcile env =>
    cases hl : env.listError with
    | none => exact h.pass hl
    | some e =>
      have hsame : cl.step digest (.reconcile env) = cl := by
        simp only [Cluster.step, reconcile, Reconciler.reconcile, hl]
      rwa [hsame]
  | remove a => exact absurd he id
  | rebalance now => exact absurd he id

/-- Whatever nodes die and return and whatever calls fail, no replica is ever on two
    registered nodes while returning agents are empty. -/
theorem empty_returns_keep_single_copy (digest : Canonical → String) (interval : ℤ)
    (hpos : 0 < interval) (es : List Event)
    (hrun : Guarded (step digest) EmptyReturnStep (new interval hpos) es) :
    SingleCopy (run (step digest) (new interval hpos) es) :=
  (hrun.invariant (fun _ _ he h => h.step he) (homed_new interval hpos)).singleCopy

/-- `n1` falls silent while `n2` goes on, and the pass at 40 s moves `a-0` to `n2`. -/
def failover : List Event :=
  thenPass (thenPass (deployed ["n1", "n2"] [("a", 1000)]) 1 ++
    [.announce { id := "n2", cpu := 4, memoryMB := 8000 } (40 * 10 ^ 9)]) (40 * 10 ^ 9)

def n1Returns : Event := .announce { id := "n1", cpu := 4, memoryMB := 8000 } (41 * 10 ^ 9)

theorem guarded_failover {G : Cluster → Event → Prop} (hpass : ∀ cl env, G cl (.reconcile env))
    (hstart : Guarded (step Canonical.image) G (new 1 one_pos)
      (deployed ["n1", "n2"] [("a", 1000)]))
    (hbeat : G (runOf (thenPass (deployed ["n1", "n2"] [("a", 1000)]) 1))
      (.announce { id := "n2", cpu := 4, memoryMB := 8000 } (40 * 10 ^ 9))) :
    Guarded (step Canonical.image) G (new 1 one_pos) failover :=
  guarded_snoc (guarded_snoc (guarded_snoc hstart (hpass _ _)) hbeat) (hpass _ _)

/-- The container on `n1` exits before the agent registers again. -/
theorem empty_returns_keep_single_copy_after_exit :
    let es := thenPass (failover ++ [.exit "n1" "a-0"] ++ [n1Returns]) (42 * 10 ^ 9)
    ((runOf es).agents "n2").contains "a-0" ∧ SingleCopy (runOf es) := by
  refine ⟨by decide +kernel, empty_returns_keep_single_copy Canonical.image 1 one_pos _ ?_⟩
  have hfailover : Guarded (step Canonical.image) EmptyReturnStep (new 1 one_pos) failover := by
    refine guarded_failover (fun _ _ => trivial) ⟨?_, ?_, ?_, trivial⟩ fun hn => ?_
    · exact fun _ _ => rfl
    · exact fun _ _ => rfl
    · exact rfl
    · exact absurd hn (by decide +kernel)
  have hempty : (runOf (failover ++ [.exit "n1" "a-0"])).agents "n1" = ∅ :=
    ExtTreeMap.isEmpty_iff.mp (by decide +kernel)
  have hreturn : EmptyReturnStep (runOf (failover ++ [.exit "n1" "a-0"])) n1Returns := by
    unfold n1Returns EmptyReturnStep
    intro _ r
    rw [hempty]
    exact ExtTreeMap.getElem?_empty
  exact guarded_snoc (guarded_snoc (guarded_snoc hfailover trivial) hreturn) trivial

/-- The agent on `n1` kept its container, is answered 404 and registers again. The
    next pass meets no dead node and no failing call and leaves both copies. -/
theorem returned_node_keeps_second_copy :
    ¬ ∀ (digest : Canonical → String) (interval : ℤ) (hpos : 0 < interval) (es : List Event)
      (env : Env), Guarded (step digest) ReturnStep (new interval hpos) es →
      Healthy (run (step digest) (new interval hpos) es) env →
      SingleCopy (run (step digest) (new interval hpos) (es ++ [.reconcile env])) := by
  intro h
  have hguard : Guarded (step Canonical.image) ReturnStep (new 1 one_pos)
      (failover ++ [n1Returns]) :=
    guarded_snoc (guarded_failover (fun _ _ => trivial) ⟨trivial, trivial, rfl, trivial⟩ trivial)
      trivial
  have hs := h Canonical.image 1 one_pos _ _ hguard
    (@honest_healthy _ (42 * 10 ^ 9) (by decide +kernel)) "a-0" "n1" "n2" (by decide +kernel)
    (by decide +kernel) (by decide +kernel) (by decide +kernel)
  revert hs
  decide

end Cluster
end Smith
