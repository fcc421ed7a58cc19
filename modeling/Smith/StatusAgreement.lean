import Smith.NodeTables
import Smith.ReconcilerPass

set_option autoImplicit false

/-!
# Two readings of the cluster status

A reconcile pass takes a replica to be Running if any alive node reports it, and the load
balancer asks the node that the replica is assigned to. The readings differ where a node other
than that one still runs a container under the replica's id.
-/
namespace Smith
open FiniteMaps
open Std (ExtTreeMap)

abbrev Replies := String → Option (GoMap ContainerStatus)

/-- The status of every alive node, which is empty for one that does not answer. -/
def aggregateStatus (now : ℤ) (fetch : Replies) (g : Registry) : GoMap (GoMap ContainerStatus) :=
  (g.alive now).foldl (fun out node => out.insert node.id ((fetch node.id).getD ∅)) ∅

def statusEnv (now : ℤ) (fetch : Replies) (answer : Call → Bool) : Env where
  now := now
  status n := (fetch n).map fun status => status.map fun _ cs => cs.status
  answer := answer

def runningOn (status : GoMap (GoMap ContainerStatus)) (nodeID replicaID : String) : Bool :=
  match (status.getD nodeID ∅)[replicaID]? with
  | some cs => cs.status = .running
  | none => false

theorem endpointsOf_runningOn (status : GoMap (GoMap ContainerStatus))
    (assignments : List Assignment) (workloadID : String) :
    endpointsOf status assignments workloadID =
      (assignments.filter fun a => a.parentID = workloadID ∧
        runningOn status a.nodeID a.workloadID).filterMap fun a =>
          (((status.getD a.nodeID ∅)[a.workloadID]?).map ContainerStatus.ip).filter (· ≠ "") := by
  rw [endpointsOf, List.filterMap_filter, List.filterMap_filter]
  refine List.filterMap_congr fun a _ => ?_
  by_cases hparent : a.parentID = workloadID
  · cases hcs : (status.getD a.nodeID ∅)[a.workloadID]? with
    | none => simp [hparent, runningOn, hcs]
    | some cs =>
      by_cases hrun : cs.status = .running
      · by_cases hip : cs.ip = "" <;> simp [hparent, runningOn, hcs, hrun, hip, Option.filter_some]
      · simp [hparent, runningOn, hcs, hrun]
  · simp [hparent]

/-- The node is reached and reports the replica as running. -/
def Reports (fetch : Replies) (nodeID replicaID : String) : Prop :=
  ∃ status cs, fetch nodeID = some status ∧ status[replicaID]? = some cs ∧ cs.status = .running

namespace Reconciler

/-- The replica is not counted as unavailable, and its push record stays however old it is. -/
structure TreatedRunning (env : Env) (g : Registry) (interval : ℤ) (r : String) : Prop where
  available : ∀ (stored : GoMap Workload) (inst : ReplicaInstance),
    (expand stored)[r]? = some inst →
    (unavailable (expand stored) (clusterRunning env g)).getD inst.parent 0 =
      (unavailable ((expand stored).erase r) (clusterRunning env g)).getD inst.parent 0
  settled : ∀ (p : Progress) (rec : PushRecord), p.pushed[r]? = some rec →
    (repush env.now interval (clusterRunning env g) p).pushed[r]? = some rec

variable {env : Env} {g : Registry} {interval : ℤ} {r : String}

theorem repush_settled_iff {running : GoMap Bool} {now : ℤ} {p : Progress} {rec : PushRecord}
    (h : p.pushed[r]? = some rec) : (repush now interval running p).pushed[r]? = some rec ↔
      now - rec.pushedAt < 2 * interval ∨ running.getD r false = true := by
  rw [repush, lookup_filter, h, Option.filter_some]
  split_ifs with hkeep
  · exact iff_of_true rfl (by simpa using hkeep)
  · exact iff_of_false (by simp) (by simpa using hkeep)

theorem treatedRunning_iff :
    TreatedRunning env g interval r ↔ (clusterRunning env g).getD r false = true := by
  constructor
  · intro h
    -- a record that is just past the grace period
    have hrec : (ExtTreeMap.insert (∅ : GoMap PushRecord) r ⟨"", env.now - 2 * interval, ""⟩)[r]? =
        some ⟨"", env.now - 2 * interval, ""⟩ := lookup_insert_self _ _ _
    obtain hlt | hrun := (repush_settled_iff hrec).mp (h.settled ⟨.new, _, ∅, []⟩ _ hrec)
    · dsimp only at hlt
      omega
    · exact hrun
  · intro hrun
    refine ⟨fun stored inst hinst => ?_,
      fun p rec hrec => (repush_settled_iff hrec).mpr (.inr hrun)⟩
    have hsame : ∀ f : String → ReplicaInstance → Bool, f r inst = false →
        (expand stored).filter f = ((expand stored).erase r).filter f := by
      intro f hf
      apply ExtTreeMap.ext_getElem?
      intro k
      rw [lookup_filter, lookup_filter, lookup_erase]
      split_ifs with hk
      · rw [← hk, hinst, Option.filter_some, hf]
        rfl
      · rfl
    rw [unavailable, unavailable, hsame _ (by rw [expand_keyed hinst, hrun]; rfl)]

end Reconciler

section Readings
variable {g : Registry} {now : ℤ} {fetch : Replies} {r n : String}

theorem clusterRunning_iff_reports {answer : Call → Bool} :
    (Reconciler.clusterRunning (statusEnv now fetch answer) g).getD r false = true ↔
      ∃ node ∈ g.alive now, Reports fetch node.id r := by
  rw [Reconciler.clusterRunning_iff]
  refine exists_congr fun node => and_congr_right fun _ => ?_
  simp only [statusEnv, Reports]
  cases fetch node.id with
  | none => simp
  | some status => simp [ExtTreeMap.getElem?_map]

theorem lookup_aggregateStatus (status : GoMap ContainerStatus) :
    (aggregateStatus now fetch g)[n]? = some status ↔
      (∃ node ∈ g.alive now, node.id = n) ∧ (fetch n).getD ∅ = status := by
  have hfold : aggregateStatus now fetch g =
      ((g.alive now).map fun node => (node.id, (fetch node.id).getD ∅)).foldl
        (fun t e => t.insert e.1 e.2) ∅ := by
    rw [aggregateStatus, List.foldl_map]
  rw [hfold, lookup_foldl_insert]
  · simp only [List.mem_map, Prod.mk.injEq, ExtTreeMap.getElem?_empty, reduceCtorEq, and_false,
      or_false]
    constructor
    · rintro ⟨node, hnode, rfl, hstatus⟩
      exact ⟨⟨node, hnode, rfl⟩, hstatus⟩
    · rintro ⟨⟨node, hnode, rfl⟩, hstatus⟩
      exact ⟨node, hnode, rfl, hstatus⟩
  · intro e he d hd hid
    obtain ⟨x, -, rfl⟩ := List.mem_map.mp he
    obtain ⟨y, -, rfl⟩ := List.mem_map.mp hd
    exact congrArg (fun id => (fetch id).getD ∅) hid

theorem runningOn_aggregateStatus :
    runningOn (aggregateStatus now fetch g) n r = true ↔
      (∃ node ∈ g.alive now, node.id = n) ∧ Reports fetch n r := by
  rw [runningOn, getD_eq]
  cases hlookup : (aggregateStatus now fetch g)[n]? with
  | none =>
    refine iff_of_false (by simp) fun h => ?_
    exact absurd (hlookup.symm.trans ((lookup_aggregateStatus _).mpr ⟨h.1, rfl⟩)) (by simp)
  | some status =>
    obtain ⟨halive, rfl⟩ := (lookup_aggregateStatus _).mp hlookup
    rw [and_iff_right halive, Option.getD_some, Reports]
    cases fetch n with
    | none => simp
    | some status =>
      rw [Option.getD_some]
      cases hcs : status[r]? <;> simp [hcs]

end Readings

/-- The readings agree on an assigned replica exactly if no other node runs it alone. -/
theorem treated_running_iff_backend_iff (g : Registry) (now interval : ℤ) (fetch : Replies)
    (answer : Call → Bool) (a : Assignment) :
    (Reconciler.TreatedRunning (statusEnv now fetch answer) g interval a.workloadID ↔
        runningOn (aggregateStatus now fetch g) a.nodeID a.workloadID = true) ↔
      ∀ node ∈ g.alive now, node.id ≠ a.nodeID → Reports fetch node.id a.workloadID →
        (∃ own ∈ g.alive now, own.id = a.nodeID) ∧ Reports fetch a.nodeID a.workloadID := by
  rw [Reconciler.treatedRunning_iff, clusterRunning_iff_reports, runningOn_aggregateStatus]
  constructor
  · exact fun h node hnode _ hreports => h.mp ⟨node, hnode, hreports⟩
  · intro h
    constructor
    · rintro ⟨node, hnode, hreports⟩
      by_cases hid : node.id = a.nodeID
      · exact ⟨⟨node, hnode, hid⟩, hid ▸ hreports⟩
      · exact h node hnode hid hreports
    · rintro ⟨⟨own, hown, hid⟩, hreports⟩
      exact ⟨own, hown, hid.symm ▸ hreports⟩

private def bothNodes : Registry :=
  (Registry.new.register { id := "n1", cpu := 4, memoryMB := 8000 } 0).register
    { id := "n2", cpu := 4, memoryMB := 8000 } 0

private def leftBehind : Replies := fun n =>
  if n = "n1" then some (ExtTreeMap.insert ∅ "web-0" ⟨.running, "10.42.0.5"⟩)
  else some (ExtTreeMap.insert ∅ "web-0" ⟨.stopped, ""⟩)

private def leftBehindEnv : Env := statusEnv 0 leftBehind fun _ => true

/-- The replica counts as Running and is not pushed again, and it is no backend. -/
theorem left_behind_counts_as_running :
    Reconciler.TreatedRunning leftBehindEnv bothNodes 1 "web-0" ∧
    runningOn (aggregateStatus 0 leftBehind bothNodes) "n2" "web-0" = false ∧
    endpointsOf (aggregateStatus 0 leftBehind bothNodes) [⟨"web-0", "n2", "web"⟩] "web" = [] := by
  rw [Reconciler.treatedRunning_iff]
  decide +kernel

end Smith
