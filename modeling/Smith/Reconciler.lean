import Smith.DesiredState
import Smith.Scheduler

set_option autoImplicit false

/-!
# The reconcile pass

A pass reads one clock. It meets the agents through their status replies and
through whether each call succeeds, and it leaves the calls it sent, in order,
with the branch that sent them. Logging is not modelled.
-/
namespace Smith
open FiniteMaps Std

inductive ProcessStatus where
  | running
  | created
  | stopped
  | paused
  | pausing
  | unknown
  deriving DecidableEq, Repr

structure PushRecord where
  nodeID : String
  pushedAt : ℤ
  specHash : String
  deriving DecidableEq, Repr

inductive Call where
  | assign (nodeID : String) (w : Workload)
  | unassign (nodeID workloadID : String)

inductive Cause where
  | place
  | relocate
  | roll
  | remove
  deriving DecidableEq, Repr

structure Sent where
  cause : Cause
  call : Call
  ok : Bool

/-- What a pass meets outside the control plane: the clock, a failure to list the
    store, each node's status reply if it arrives, and which calls succeed. -/
structure Env where
  now : ℤ
  listError : Option String := none
  status : String → Option (GoMap ProcessStatus)
  answer : Call → Bool

/-- The control plane. A reconcile loop only runs with a positive interval. -/
structure Reconciler where
  store : Store
  registry : Registry
  scheduler : Scheduler
  interval : ℤ
  interval_pos : 0 < interval
  pushed : GoMap PushRecord

namespace Reconciler

def new (interval : ℤ) (interval_pos : 0 < interval) : Reconciler :=
  ⟨Store.new, Registry.new, Scheduler.new, interval, interval_pos, ∅⟩

def evict (c : Reconciler) (node : Node) : Reconciler :=
  let (s, evicted) := c.scheduler.reassignNode node.id
  { c with
    scheduler := s
    pushed := evicted.foldl (fun pushed wID => pushed.erase wID) c.pushed
    registry := c.registry.remove node.id }

def evictDead (now : ℤ) (c : Reconciler) : Reconciler := (c.registry.dead now).foldl evict c

def readStatus (env : Env) (out : GoMap Bool) (node : Node) : GoMap Bool :=
  match env.status node.id with
  | none => out
  | some status => status.foldl (fun out id cs =>
      if cs = .running then out.insert id true else out) out

def clusterRunning (env : Env) (g : Registry) : GoMap Bool :=
  (g.alive env.now).foldl (readStatus env) ∅

/-- The state of a pass while it goes through the replicas. -/
structure Progress where
  scheduler : Scheduler
  pushed : GoMap PushRecord
  unavailable : GoMap ℤ
  sent : List Sent

/-- What one replica's turn sends, the record it stores and whether it is charged
    to the workload's budget. -/
structure Deployment where
  sent : List Sent := []
  recorded : Option PushRecord := none
  charged : Bool := false

section Calls
variable (digest : Canonical → String) (env : Env) (node : Node) (wl : Workload)

def pushAssignment (cause : Cause) : Sent :=
  ⟨cause, .assign node.id wl, env.answer (.assign node.id wl)⟩

def pushUnassign (cause : Cause) (workloadID : String) : Sent :=
  ⟨cause, .unassign node.id workloadID, env.answer (.unassign node.id workloadID)⟩

/-- Stop a container if its node is still registered. -/
def stopOn (g : Registry) (cause : Cause) (nodeID workloadID : String) : List Sent :=
  match g.get nodeID with
  | some node => [pushUnassign env node cause workloadID]
  | none => []

def recordPush : PushRecord := ⟨node.id, env.now, specHash digest wl⟩

def relocate (g : Registry) (oldNodeID : String) : List Sent × Bool :=
  let start := pushAssignment env node wl .relocate
  (stopOn env g .relocate oldNodeID wl.id ++ [start], start.ok)

/-- Replace a stale container. The budget is charged after both calls succeeded. -/
def roll : Deployment :=
  let stop := pushUnassign env node .roll wl.id
  if stop.ok then
    let start := pushAssignment env node wl .roll
    if start.ok then ⟨[stop, start], some (recordPush digest env node wl), true⟩
    else ⟨[stop, start], none, false⟩
  else ⟨[stop], none, false⟩

/-- The four cases for an assigned replica, by its push record. -/
def deploy (g : Registry) (record : Option PushRecord) (mayRoll : Bool) : Deployment :=
  match record with
  | none =>
    let start := pushAssignment env node wl .place
    ⟨[start], if start.ok then some (recordPush digest env node wl) else none, false⟩
  | some rec =>
    if rec.nodeID ≠ node.id then
      let (sent, ok) := relocate env node wl g rec.nodeID
      ⟨sent, if ok then some (recordPush digest env node wl) else none, false⟩
    else if rec.specHash ≠ specHash digest wl then
      if mayRoll then roll digest env node wl else {}
    else {}

end Calls

def workloadOf (stored : GoMap Workload) (id : String) : Workload :=
  stored.getD id { id := "", image := "" }

/-- A stale replica is replaced only while it is Running and the workload is
    within its budget. -/
def mayRoll (stored : GoMap Workload) (running : GoMap Bool) (p : Progress)
    (inst : ReplicaInstance) : Bool :=
  running.getD inst.wl.id false &&
    p.unavailable.getD inst.parent 0 < maxUnavailable (workloadOf stored inst.parent)

def Progress.deployed (p : Progress) (s : Scheduler) (inst : ReplicaInstance)
    (d : Deployment) : Progress where
  scheduler := s
  pushed := match d.recorded with
    | some rec => p.pushed.insert inst.wl.id rec
    | none => p.pushed
  unavailable := if d.charged then bump p.unavailable inst.parent 1 else p.unavailable
  sent := p.sent ++ d.sent

def ensure (digest : Canonical → String) (env : Env) (stored : GoMap Workload)
    (running : GoMap Bool) (g : Registry) (p : Progress) (inst : ReplicaInstance) : Progress :=
  match p.scheduler.assign g env.now inst.wl.id inst.parent (requestOf inst.wl) with
  | (s, .error _) => { p with scheduler := s }
  | (s, .ok assignment) =>
    match g.get assignment.nodeID with
    -- the node left after it was chosen: the next pass assigns afresh
    | none => { p with scheduler := s.unassign inst.wl.id }
    | some node => p.deployed s inst
        (deploy digest env node inst.wl g p.pushed[inst.wl.id]? (mayRoll stored running p inst))

/-- Per workload, how many desired replicas are not Running. -/
def unavailable (desired : GoMap ReplicaInstance) (running : GoMap Bool) : GoMap ℤ :=
  tally (desired.filter fun _ inst => !running.getD inst.wl.id false) (fun _ inst => inst.parent)
    fun _ _ => 1

def repush (now interval : ℤ) (running : GoMap Bool) (p : Progress) : Progress :=
  let gracePeriod := 2 * interval
  { p with pushed := p.pushed.filter fun replicaID rec =>
      now - rec.pushedAt < gracePeriod || running.getD replicaID false }

def stopRemoved (env : Env) (g : Registry) (desired : GoMap ReplicaInstance) (p : Progress)
    (assignment : Assignment) : Progress :=
  if desired.contains assignment.workloadID then p
  else
    -- both are forgotten whether or not the stop succeeds
    { p with
      scheduler := p.scheduler.unassign assignment.workloadID
      pushed := p.pushed.erase assignment.workloadID
      sent := p.sent ++ stopOn env g .remove assignment.nodeID assignment.workloadID }

/-- Every desired replica assigned and on its node with the current spec, in the
    order of the replica ids. -/
def ensureAll (digest : Canonical → String) (env : Env) (stored : GoMap Workload)
    (running : GoMap Bool) (c : Reconciler) : Progress :=
  let desired := expand stored
  (instances desired).foldl (ensure digest env stored running c.registry)
    ⟨c.scheduler, c.pushed, unavailable desired running, []⟩

def stopAll (env : Env) (g : Registry) (desired : GoMap ReplicaInstance) (p : Progress) :
    Progress :=
  p.scheduler.listAssignments.foldl (stopRemoved env g desired) p

def pass (digest : Canonical → String) (env : Env) (c : Reconciler) : Reconciler × List Sent :=
  let stored := c.store.list
  let c := c.evictDead env.now
  let running := clusterRunning env c.registry
  let p := ensureAll digest env stored running c
  let p := repush env.now c.interval running p
  let p := stopAll env c.registry (expand stored) p
  ({ c with scheduler := p.scheduler, pushed := p.pushed }, p.sent)

def reconcile (digest : Canonical → String) (env : Env) (c : Reconciler) :
    Except String (Reconciler × List Sent) :=
  match env.listError with
  | some e => .error s!"list desired: {e}"
  | none => .ok (pass digest env c)

end Reconciler
end Smith
