import Smith.Binary64
import Smith.Commands
import Smith.Iptables
import Smith.NodeTables

set_option autoImplicit false

/-!
# The service proxy

An agent programs the nat chains that spread a service's traffic over its endpoints, and opens
its NodePorts. Every change is an iptables command that may fail, and a failed `Sync` leaves
what it had done. A chain is named after its service by a hash, which is a parameter here.
-/
namespace Smith
open Binary64 Commands FiniteMaps Iptables Overwrites Std

def servicesChain : String := "SMITH-SERVICES"

def markChain : String := "SMITH-MARK-MASQ"

def masqMark : String := "0x4000/0x4000"

def HasPrefix (s start : String) : Prop := start.toList <+: s.toList

instance (s start : String) : Decidable (HasPrefix s start) :=
  inferInstanceAs (Decidable (start.toList <+: s.toList))

/-- The proxy's record of the ports it opened, and the tables of its node. -/
structure ServiceProxy where
  nat : Chains
  filter : Chains
  nodePorts : ExtTreeMap ℤ String

/-- The orders in which the chains are listed and the two maps of ports are ranged over. -/
structure Orders where
  chains : List String → List String
  opened : List (ℤ × String) → List (ℤ × String)
  closed : List (ℤ × String) → List (ℤ × String)
  chains_perm : ∀ l, (chains l).Perm l
  opened_perm : ∀ l, (opened l).Perm l
  closed_perm : ∀ l, (closed l).Perm l

def Orders.listed : Orders where
  chains := id
  opened := id
  closed := id
  chains_perm _ := .refl _
  opened_perm _ := .refl _
  closed_perm _ := .refl _

def ServiceEndpoints.proto (svc : ServiceEndpoints) : String :=
  if svc.protocol = "" then "tcp" else svc.protocol

/-- `1.0/float64(n-i)` on rationals, and its digits by `Sprintf("%.5f", prob)`. -/
def probability (n i : ℕ) : Random where
  chance := 1 / ((n : ℚ) - (i : ℚ))
  digits := roundEven (float64 (1 / float64 ((n : ℚ) - (i : ℚ))) * 100000)

namespace ServiceProxy

abbrev Program (α : Type) := Prog String ServiceProxy α

def onNat (act : Chains → Except String Chains) : Program Unit :=
  command fun p => (act p.nat).map fun t => ((), { p with nat := t })

def onFilter (act : Chains → Except String Chains) : Program Unit :=
  command fun p => (act p.filter).map fun t => ((), { p with filter := t })

def setNodePorts (change : ExtTreeMap ℤ String → ExtTreeMap ℤ String) : Program Unit :=
  update fun p => { p with nodePorts := change p.nodePorts }

def labelled (what : String) (p : Program Unit) : Program Unit :=
  EStateM.adaptExcept (fun e => s!"{what}: {e}") p

section Rules
variable (svc : ServiceEndpoints) (chain : String)

def markRule : Rule := { target := .setXmark masqMark }

def servicesJump : Rule := { target := .jump servicesChain }

def masqueradeRule : Rule := { mark := some masqMark, target := .masquerade }

def markJump : Rule := { target := .jump markChain }

/-- The rule of endpoint `i`. The last endpoint is unconditional. -/
def dnatRule (i : ℕ) (ep : String) : Rule :=
  let n := svc.endpoints.length
  if i < n - 1 then
    { proto := some svc.proto, probability := some (probability n i)
      target := .dnat ep svc.targetPort }
  else { proto := some svc.proto, target := .dnat ep svc.targetPort }

def clusterRule : Rule where
  dst := some svc.clusterIP
  proto := some svc.proto
  dport := some svc.port
  target := .jump chain

def nodePortRule : Rule where
  proto := some svc.proto
  dstLocal := true
  dport := some svc.nodePort
  target := .jump chain

def acceptRule (port : ℤ) (proto : String) : Rule where
  proto := some proto
  dport := some port
  target := .accept

end Rules

def ensureChain (chain : String) : Program Unit := do
  let ok ← command fun p => .ok (decide (chain ∈ p.nat), p)
  if !ok then onNat (·.newChain chain) else pure ()

def ensureBaseChains : Program Unit := do
  ensureChain markChain
  onNat (·.appendUnique markChain markRule)
  ensureChain servicesChain
  onNat (·.appendUnique "PREROUTING" servicesJump)
  onNat (·.appendUnique "OUTPUT" servicesJump)
  onNat (·.appendUnique "POSTROUTING" masqueradeRule)

def populateServiceChain (chain : String) (svc : ServiceEndpoints) : Program Unit := do
  onNat (·.clearChain chain)
  onNat (·.append chain markJump)
  svc.endpoints.zipIdx.forM fun e => onNat (·.append chain (dnatRule svc e.2 e.1))

def appendIf (c : Prop) [Decidable c] (chain : String) (r : Rule) : Program Unit :=
  if c then onNat (·.append chain r) else pure ()

section Sync
variable (hash : String → String) (orders : Orders) (services : List ServiceEndpoints)

/-- The prefix and the first twelve hexadecimal digits of the name's SHA-256. -/
def serviceChain (name : String) : String := "SMITH-SVC-" ++ hash name

def populateServicesChain : Program Unit := do
  onNat (·.clearChain servicesChain)
  services.forM fun svc => do
    let chain := serviceChain hash svc.name
    appendIf (svc.clusterIP ≠ "" ∧ 0 < svc.port) servicesChain (clusterRule svc chain)
    appendIf (0 < svc.nodePort) servicesChain (nodePortRule svc chain)

def cleanupStaleChains (desired : List String) : Program Unit := do
  let chains ← command fun p => .ok (p.nat.keys, p)
  (orders.chains chains).forM fun c =>
    if ¬HasPrefix c "SMITH-SVC-" ∨ c ∈ desired then pure ()
    else do
      onNat (·.clearChain c)
      onNat (·.deleteChain c)

/-- The NodePorts in use with their protocols. -/
def wantedPorts : ExtTreeMap ℤ String :=
  overwrite ∅ ((services.filter fun svc => 0 < svc.nodePort).map fun svc =>
    (svc.nodePort, svc.proto))

def openNodePort (port : ℤ) (proto : String) : Program Unit := do
  let opened ← asks nodePorts
  if port ∈ opened then pure ()
  else do
    onFilter (·.appendUnique "INPUT" (acceptRule port proto))
    setNodePorts (·.insert port proto)

def closeNodePort (port : ℤ) (proto : String) : Program Unit := do
  onFilter (·.deleteIfExists "INPUT" (acceptRule port proto))
  setNodePorts (·.erase port)

def syncNodePorts : Program Unit := do
  let want := wantedPorts services
  (orders.opened want.toList).forM fun e => openNodePort e.1 e.2
  let opened ← asks nodePorts
  (orders.closed opened.toList).forM fun e =>
    if e.1 ∈ want then pure () else closeNodePort e.1 e.2

def rebuildServiceChain (svc : ServiceEndpoints) : Program Unit := do
  let chain := serviceChain hash svc.name
  labelled s!"ensure chain {chain}" (ensureChain chain)
  labelled s!"populate chain {chain}" (populateServiceChain chain svc)

def sync : Program Unit := do
  labelled "ensure base chains" ensureBaseChains
  services.forM (rebuildServiceChain hash)
  labelled s!"populate {servicesChain}" (populateServicesChain hash services)
  labelled "cleanup stale chains"
    (cleanupStaleChains orders (services.map fun svc => serviceChain hash svc.name))
  labelled "sync node ports" (syncNodePorts orders services)

end Sync
end ServiceProxy
end Smith
