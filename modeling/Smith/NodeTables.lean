import Smith.ControlPlane
import Smith.Overwrites
import Smith.Reconciler

set_option autoImplicit false

/-!
# The tables served to agents

Agents pull routes, service endpoints and ingress rules from the control plane. A handler
reads stores that may be absent or fail, and answers with a body or a status. The rows of a
store and the entries of a map come in an order of their own, so the handlers take lists.
-/
namespace Smith
open FiniteMaps Overwrites Std

structure Route where
  subnet : String
  via : String
  deriving DecidableEq, Repr

structure ServiceEndpoints where
  name : String
  clusterIP : String
  port : ℤ
  nodePort : ℤ
  targetPort : ℤ
  protocol : String
  endpoints : List String
  deriving DecidableEq, Repr

structure IngressRule where
  host : String
  clusterIP : String
  port : ℤ
  deriving DecidableEq, Repr

structure ContainerStatus where
  status : ProcessStatus
  ip : String := ""
  deriving DecidableEq, Repr

/-- A store that the server may run without, as it answers a read. -/
abbrev StoreRead (α : Type) := Option (Except String α)

inductive Response (α : Type) where
  | ok (body : α)
  | error (status : ℕ) (message : String)

/-- One route for each other node that is registered with an underlay address. -/
def routesTo (id : String) (g : Registry) (subnets : List (String × String)) : List Route :=
  subnets.filterMap fun e =>
    if e.1 = id then none
    else
      match g.get e.1 with
      | none => none
      | some peer => if peer.hostIP = "" then none else some ⟨e.2, peer.hostIP⟩

def nodeRoutes (id : String) (allocator : StoreRead (List (String × String))) (g : Registry) :
    Response (List Route) :=
  if id = "" then .error 400 "missing id"
  else
    match allocator with
    | none => .ok []
    | some (.error e) => .error 500 s!"list subnets: {e}"
    | some (.ok subnets) => .ok (routesTo id g subnets)

/-- The addresses of a workload's running replicas. -/
def endpointsOf (status : GoMap (GoMap ContainerStatus)) (assignments : List Assignment)
    (workloadID : String) : List String :=
  (assignments.filter fun a => a.parentID = workloadID).filterMap fun a =>
    match (status.getD a.nodeID ∅)[a.workloadID]? with
    | some cs => if cs.status = .running ∧ cs.ip ≠ "" then some cs.ip else none
    | none => none

def computeEndpoints (services : StoreRead (List Service))
    (statusFunc : Option (GoMap (GoMap ContainerStatus))) (assignments : List Assignment) :
    List ServiceEndpoints :=
  match services with
  | none => []
  -- the error is logged only
  | some (.error _) => []
  | some (.ok svcs) => svcs.map fun svc =>
    { name := svc.name
      clusterIP := svc.clusterIP
      port := svc.port
      nodePort := svc.nodePort
      targetPort := svc.targetPort
      protocol := svc.protocol
      endpoints := endpointsOf (statusFunc.getD ∅) assignments svc.workloadID }

def nodeServices (services : StoreRead (List Service))
    (statusFunc : Option (GoMap (GoMap ContainerStatus))) (assignments : List Assignment) :
    Response (List ServiceEndpoints) :=
  .ok (computeEndpoints services statusFunc assignments)

def computeIngressRules (ingresses : StoreRead (List Ingress))
    (services : StoreRead (List Service)) : Except String (List IngressRule) :=
  match ingresses, services with
  | none, _ => .ok []
  | some _, none => .ok []
  | some (.error e), some _ => .error s!"list ingresses: {e}"
  | some (.ok _), some (.error e) => .error s!"list services: {e}"
  | some (.ok ings), some (.ok svcs) =>
    let byName : GoMap Service := overwrite ∅ (svcs.map fun sv => (sv.name, sv))
    .ok (ings.filterMap fun ing =>
      match byName[ing.service]? with
      | none => none
      | some sv => if sv.clusterIP = "" then none else some ⟨ing.host, sv.clusterIP, sv.port⟩)

def nodeIngresses (ingresses : StoreRead (List Ingress)) (services : StoreRead (List Service)) :
    Response (List IngressRule) :=
  match computeIngressRules ingresses services with
  | .error e => .error 500 e
  | .ok rules => .ok rules

/-- A table as the agent takes it from the answer. -/
def fetch {α : Type} (what : String) : Response α → Except String α
  | .ok body => .ok body
  | .error status _ => .error s!"{what} failed: status {status}"

end Smith
