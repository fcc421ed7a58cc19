import Smith.Binary64
import Smith.Registry

set_option autoImplicit false

/-!
# The resource-aware scheduler

Each operation is a function of the registry it reads, the clock and the three
parallel maps. Locks are not modelled: every operation holds the scheduler's
mutex from its first read to its last write.
-/
namespace Smith
open FiniteMaps Binary64 Std

structure Scheduler where
  assignments : GoMap String
  parents : GoMap String
  requests : GoMap Resources

/-- The share of each node's CPU and memory held back for the system. -/
def schedulableReserveFraction : ℚ := 15 / 100

def schedulable (n : Node) : ℤ × ℤ :=
  (truncate (float64 (float64 (n.cpu * 1000) * float64 (1 - schedulableReserveFraction))),
    truncate (float64 (float64 n.memoryMB * float64 (1 - schedulableReserveFraction))))

structure Candidate where
  id : String
  siblings : ℤ
  remaining : ℚ

def Candidate.less (a b : Candidate) : Bool :=
  if a.siblings ≠ b.siblings then a.siblings < b.siblings
  else if a.remaining ≠ b.remaining then a.remaining < b.remaining
  else a.id < b.id

/-- The free share of a capacity after placement, zero when there is no capacity. -/
def freeFraction (round : ℚ → ℚ) (cap alloc req : ℤ) : ℚ :=
  if 0 < cap then round (round (cap - alloc - req) / round cap) else 0

def candidate (round : ℚ → ℚ) (allocCPU allocMem siblings : GoMap ℤ) (req : Resources)
    (n : Node) : Option Candidate :=
  let (capCPU, capMem) := schedulable n
  if allocCPU.getD n.id 0 + req.cpuMillicores > capCPU ∨
      allocMem.getD n.id 0 + req.memoryMB > capMem then none
  else some {
    id := n.id
    siblings := siblings.getD n.id 0
    remaining := round (freeFraction round capCPU (allocCPU.getD n.id 0) req.cpuMillicores +
      freeFraction round capMem (allocMem.getD n.id 0) req.memoryMB) }

/-- `place`, for any rounding of the fractions it compares. -/
def placeWith (round : ℚ → ℚ) (nodes : List Node) (allocCPU allocMem siblings : GoMap ℤ)
    (req : Resources) : String :=
  match sortSlice Candidate.less (nodes.filterMap (candidate round allocCPU allocMem siblings req)) with
  | [] => ""
  | c :: _ => c.id

def place : List Node → GoMap ℤ → GoMap ℤ → GoMap ℤ → Resources → String := placeWith float64

namespace Scheduler

def new : Scheduler := ⟨∅, ∅, ∅⟩

def request (s : Scheduler) (rID : String) : Resources := s.requests.getD rID {}

def parent (s : Scheduler) (rID : String) : String := s.parents.getD rID ""

def unassign (s : Scheduler) (replicaID : String) : Scheduler where
  assignments := s.assignments.erase replicaID
  parents := s.parents.erase replicaID
  requests := s.requests.erase replicaID

def allocCPU (s : Scheduler) : GoMap ℤ :=
  tally s.assignments (fun _ nodeID => nodeID) fun rID _ => (s.request rID).cpuMillicores

def allocMem (s : Scheduler) : GoMap ℤ :=
  tally s.assignments (fun _ nodeID => nodeID) fun rID _ => (s.request rID).memoryMB

def siblings (s : Scheduler) (parentID : String) : GoMap ℤ :=
  tally (s.assignments.filter fun rID _ => s.parent rID == parentID) (fun _ nodeID => nodeID)
    fun _ _ => 1

def fitsOnNode (g : Registry) (s : Scheduler) (nodeID replicaID : String) (req : Resources) :
    Bool :=
  match g.get nodeID with
  | none => false
  | some node =>
    let (capCPU, capMem) := schedulable node
    let (usedCPU, usedMem) := s.assignments.foldl (fun used rID nID =>
      if nID ≠ nodeID ∨ rID = replicaID then used
      else (used.1 + (s.request rID).cpuMillicores, used.2 + (s.request rID).memoryMB)) (0, 0)
    usedCPU + req.cpuMillicores ≤ capCPU && usedMem + req.memoryMB ≤ capMem

/-- The part of `Assign` that places a replica holding no assignment. -/
def assignFresh (g : Registry) (now : ℤ) (s : Scheduler) (replicaID parentID : String)
    (req : Resources) : Scheduler × Except String Assignment :=
  let nodes := g.alive now
  if nodes.isEmpty then (s, .error "no alive nodes available")
  else
    let best := place nodes s.allocCPU s.allocMem (s.siblings parentID) req
    if best = "" then
      (s, .error s!"insufficient capacity for {replicaID} (cpu={req.cpuMillicores}m mem={req.memoryMB}MB)")
    else ({
      assignments := s.assignments.insert replicaID best
      parents := s.parents.insert replicaID parentID
      requests := s.requests.insert replicaID req }, .ok ⟨replicaID, best, parentID⟩)

def assign (g : Registry) (now : ℤ) (s : Scheduler) (replicaID parentID : String)
    (req : Resources) : Scheduler × Except String Assignment :=
  match s.assignments[replicaID]? with
  | some nodeID =>
    -- sticky while the new request fits next to the others on the node
    if s.fitsOnNode g nodeID replicaID req then
      ({ s with requests := s.requests.insert replicaID req },
        .ok ⟨replicaID, nodeID, s.parent replicaID⟩)
    else (s.unassign replicaID).assignFresh g now replicaID parentID req
  | none => s.assignFresh g now replicaID parentID req

structure Replica where
  id : String
  parent : String
  req : Resources

def Replica.less (a b : Replica) : Bool :=
  if a.req.memoryMB ≠ b.req.memoryMB then a.req.memoryMB > b.req.memoryMB
  else if a.req.cpuMillicores ≠ b.req.cpuMillicores then
    a.req.cpuMillicores > b.req.cpuMillicores
  else a.id < b.id

/-- The scratch accounting of a simulated fresh placement. -/
structure Simulation where
  allocCPU : GoMap ℤ
  allocMem : GoMap ℤ
  target : GoMap String

def simulate (nodes : List Node) (s : Scheduler) (m : Simulation) (r : Replica) : Simulation :=
  let siblings : GoMap ℤ := tally (m.target.filter fun id _ => s.parent id == r.parent)
    (fun _ node => node) fun _ _ => 1
  let best := place nodes m.allocCPU m.allocMem siblings r.req
  if best = "" then m
  else {
    allocCPU := bump m.allocCPU best r.req.cpuMillicores
    allocMem := bump m.allocMem best r.req.memoryMB
    target := m.target.insert r.id best }

/-- The currently assigned replicas, largest request first. -/
def replicas (s : Scheduler) : List Replica :=
  sortSlice Replica.less (s.assignments.keys.map fun id => ⟨id, s.parent id, s.request id⟩)

def simulation (nodes : List Node) (s : Scheduler) : Simulation :=
  s.replicas.foldl (simulate nodes s) ⟨∅, ∅, ∅⟩

def planLocked (g : Registry) (now : ℤ) (s : Scheduler) : List Move :=
  let nodes := g.alive now
  if nodes.isEmpty then []
  else
    let target := (simulation nodes s).target
    let moves := s.replicas.filterMap fun r =>
      match target[r.id]? with
      -- placed nowhere by the simulation: it stays where it is
      | none => none
      | some toNode =>
        let fromNode := s.assignments.getD r.id ""
        if toNode ≠ fromNode then some ⟨r.id, fromNode, toNode⟩ else none
    sortSlice (fun a b => a.replicaID < b.replicaID) moves

def rebalancePlan (g : Registry) (now : ℤ) (s : Scheduler) : List Move := s.planLocked g now

def rebalance (g : Registry) (now : ℤ) (s : Scheduler) : Scheduler × List Move :=
  let moves := s.planLocked g now
  ({ s with assignments := moves.foldl (fun t m => t.insert m.replicaID m.toNode) s.assignments },
    moves)

structure NodeLoad where
  nodeID : String
  cpuMillicores : ℤ
  memoryMB : ℤ
  capCPU : ℤ
  capMemoryMB : ℤ
  deriving DecidableEq, Repr

def overcommitted (g : Registry) (s : Scheduler) : List NodeLoad :=
  let out := s.allocCPU.keys.filterMap fun nodeID =>
    match g.get nodeID with
    | none => none
    | some node =>
      let (capCPU, capMem) := schedulable node
      let usedCPU := s.allocCPU.getD nodeID 0
      let usedMem := s.allocMem.getD nodeID 0
      if usedCPU > capCPU ∨ usedMem > capMem then
        some ⟨nodeID, usedCPU, usedMem, capCPU, capMem⟩
      else none
  sortSlice (fun a b => a.nodeID < b.nodeID) out

def listAssignments (s : Scheduler) : List Assignment :=
  s.assignments.toList.map fun e => ⟨e.1, e.2, s.parent e.1⟩

def reassignNode (s : Scheduler) (nodeID : String) : Scheduler × List String :=
  let evicted := (s.assignments.filter fun _ nID => nID == nodeID).keys
  (evicted.foldl unassign s, evicted)

end Scheduler
end Smith
