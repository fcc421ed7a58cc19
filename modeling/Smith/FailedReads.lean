import Smith.IngressProxy
import Smith.RouteManager
import Smith.ServiceDispatch

set_option autoImplicit false

/-!
# Store reads that fail

An agent fetches each table and applies what it gets. An answer with an error status is not
applied. The routes and the ingress rules are answered so when a store cannot be read, but the
services are answered as an empty table, and an empty table is applied.
-/
namespace Smith
open Commands FiniteMaps Iptables Overwrites Runs ServiceProxy Std

/-- The stores as the handlers read them, and what else they use. -/
structure ServerView where
  allocator : StoreRead (List (String × String))
  services : StoreRead (List Service)
  ingresses : StoreRead (List Ingress)
  registry : Registry
  statusFunc : Option (GoMap (GoMap ContainerStatus))
  assignments : List Assignment

structure AgentTables (IP : Type) where
  routes : KernelTable IP
  proxy : ServiceProxy
  ingress : GoMap String

structure AgentConfig (IP : Type) where
  id : String
  routeMgr : RouteManager
  parseIP : String → Option IP
  lower : Char → Char
  hash : String → String
  orders : Orders

inductive Distributed where
  | routes
  | services
  | ingresses
  deriving DecidableEq, Repr

namespace AgentTables
variable {IP : Type} (cfg : AgentConfig IP) (view : ServerView)

def syncRoutes (a : AgentTables IP) : AgentTables IP :=
  match fetch "routes" (nodeRoutes cfg.id view.allocator view.registry) with
  | .error _ => a
  | .ok routes => { a with routes := cfg.routeMgr.sync cfg.parseIP routes a.routes }

/-- Every iptables command is taken unless its rule is rejected. A failed sync is logged. -/
def syncServices (a : AgentTables IP) : AgentTables IP :=
  match fetch "services" (nodeServices view.services view.statusFunc view.assignments) with
  | .error _ => a
  | .ok services => { a with proxy := step cfg.hash a.proxy (.sync services cfg.orders []) }

def syncIngresses (a : AgentTables IP) : AgentTables IP :=
  match fetch "ingresses" (nodeIngresses view.ingresses view.services) with
  | .error _ => a
  | .ok rules => { a with ingress := setRules cfg.lower rules }

def sync (a : AgentTables IP) : Distributed → AgentTables IP
  | .routes => a.syncRoutes cfg view
  | .services => a.syncServices cfg view
  | .ingresses => a.syncIngresses cfg view

def SameTables (a b : AgentTables IP) : Prop :=
  a.routes = b.routes ∧ a.proxy.nat = b.proxy.nat ∧ a.proxy.filter = b.proxy.filter ∧
    a.ingress = b.ingress

end AgentTables

/-- A read that the table is computed from fails. Without one of the two stores, ingresses are
    not read. -/
def ServerView.ReadFails (view : ServerView) : Distributed → Prop
  | .routes => ∃ e, view.allocator = some (.error e)
  | .services => ∃ e, view.services = some (.error e)
  | .ingresses => ∃ ingresses services, view.ingresses = some ingresses ∧
      view.services = some services ∧
      ((∃ e, ingresses = .error e) ∨ ∃ e, services = .error e)

namespace ServiceProxy

structure Idle (p : ServiceProxy) : Prop where
  mark : p.nat[markChain]? = some [markRule]
  dispatch : p.nat[servicesChain]? = some []
  prerouting : servicesJump ∈ rulesOf p.nat "PREROUTING"
  output : servicesJump ∈ rulesOf p.nat "OUTPUT"
  postrouting : masqueradeRule ∈ rulesOf p.nat "POSTROUTING"
  chains : ∀ c ∈ p.nat, ¬IsServiceChain c
  ports : p.nodePorts = ∅

section Chains
variable {p : ServiceProxy}

theorem ensured_eq_self {c : String} {t : Chains} (h : c ∈ t) : ensured c t = t := if_pos h

theorem withRule_eq_self {c : String} {r : Rule} {t : Chains} (h : r ∈ rulesOf t c) :
    withRule c r t = t := if_pos h

theorem mem_of_lookup_eq_some {c : String} {rules : List Rule} {t : Chains}
    (h : t[c]? = some rules) : c ∈ t :=
  ExtTreeMap.isSome_getElem?_iff_mem.mp (by rw [h]; rfl)

theorem Idle.syncedChains_eq (h : Idle p) (hash : String → String) :
    syncedChains hash [] p.nat = p.nat := by
  have hmark : markRule ∈ rulesOf p.nat markChain := by
    rw [rulesOf, h.mark]
    exact List.mem_cons_self
  have hbase : baseChains p.nat = p.nat := by
    rw [baseChains, ensured_eq_self (mem_of_lookup_eq_some h.mark), withRule_eq_self hmark,
      ensured_eq_self (mem_of_lookup_eq_some h.dispatch), withRule_eq_self h.prerouting,
      withRule_eq_self h.output, withRule_eq_self h.postrouting]
  have hinsert : (overwrite (baseChains p.nat) (serviceChains hash [])).insert servicesChain [] =
      p.nat := by
    rw [hbase]
    exact insert_of_lookup _ h.dispatch
  rw [syncedChains, List.flatMap_nil, hinsert]
  apply ExtTreeMap.ext_getElem?
  intro c
  rw [lookup_trimmed]
  split_ifs with hs
  · exact (by simpa using fun hc => h.chains c hc hs.1 : p.nat[c]? = none).symm
  · rfl

theorem rulesOf_withRule_ne {c d : String} (h : c ≠ d) (r : Rule) (t : Chains) :
    rulesOf (withRule c r t) d = rulesOf t d := by
  rw [rulesOf, lookup_withRule_ne h, rulesOf]

theorem idle_of_syncedChains_eq (h : Installed p) {hash : String → String}
    (hsame : syncedChains hash [] p.nat = p.nat) (hports : p.nodePorts = ∅) : Idle p := by
  have hprogrammed : Programmed hash [] p.nat := by
    intro c hc
    rw [← h.lookup_syncedChains hash [] hc, hsame]
  have hbuiltin (c : String) (hc : c ∈ builtinChains) :
      rulesOf p.nat c = rulesOf (baseChains p.nat) c := by
    have hkept : ¬Stale (desiredChains hash []) c := fun hs => not_isServiceChain_builtin c hc hs.1
    have hne : servicesChain ≠ c := by
      rintro rfl
      exact absurd hc (by decide)
    have hlookup : (syncedChains hash [] p.nat)[c]? = (baseChains p.nat)[c]? := by
      rw [syncedChains, lookup_trimmed, if_neg hkept, lookup_insert_ne _ _ hne]
      rfl
    rw [rulesOf, rulesOf, ← hlookup, hsame]
  refine ⟨hprogrammed.lookup_markChain, hprogrammed.lookup_servicesChain, ?_, ?_, ?_, ?_, hports⟩
  · rw [hbuiltin _ (by decide), baseChains, rulesOf_withRule_ne (by decide),
      rulesOf_withRule_ne (by decide)]
    exact mem_rulesOf_withRule _ _ _
  · rw [hbuiltin _ (by decide), baseChains, rulesOf_withRule_ne (by decide)]
    exact mem_rulesOf_withRule _ _ _
  · rw [hbuiltin _ (by decide), baseChains]
    exact mem_rulesOf_withRule _ _ _
  · intro c hc hservice
    have hnone : p.nat[c]? = none := by
      rw [hprogrammed c hservice.hasPrefix, smithChains,
        lookup_insert_ne _ _ hservice.ne_markChain.symm,
        lookup_insert_ne _ _ hservice.ne_servicesChain.symm]
      exact lookup_serviceChains_eq_none hash [] List.not_mem_nil
    exact absurd hc (by simpa using hnone)

end Chains

section Ports
variable {p : ServiceProxy}

def inputSize (p : ServiceProxy) : ℕ := (rulesOf p.filter "INPUT").length

theorem inputSize_closedPort (port : ℤ) (proto : String) (p : ServiceProxy) :
    (closedPort port proto p).inputSize =
      ((rulesOf p.filter "INPUT").erase (acceptRule port proto)).length := by
  simp [inputSize, closedPort, withoutRule, rulesOf]

theorem inputSize_closeAll (l : List (ℤ × String)) (p : ServiceProxy) :
    (l.foldl (fun q e => closedPort e.1 e.2 q) p).inputSize ≤ p.inputSize := by
  induction l generalizing p with
  | nil => exact le_rfl
  | cons e l ih =>
    refine (ih _).trans ?_
    rw [inputSize_closedPort]
    exact List.length_erase_le

theorem portsSynced_nil (orders : Orders) (p : ServiceProxy) : portsSynced orders [] p =
    (orders.closed p.nodePorts.toList).foldl (fun q e => closedPort e.1 e.2 q) p := by
  have hopened : orders.opened (wantedPorts []).toList = [] := (orders.opened_perm []).eq_nil
  simp only [portsSynced, hopened, List.foldl_nil]
  have hwant (port : ℤ) : port ∉ wantedPorts [] := by simp [wantedPorts, overwrite]
  simp only [hwant, if_false]

theorem filter_portsSynced_nil (orders : Orders) (h : ∀ (port : ℤ) (proto : String),
      p.nodePorts[port]? = some proto → acceptRule port proto ∈ rulesOf p.filter "INPUT") :
    (portsSynced orders [] p).filter = p.filter ↔ p.nodePorts = ∅ := by
  rw [portsSynced_nil]
  have hperm := orders.closed_perm p.nodePorts.toList
  cases hl : orders.closed p.nodePorts.toList with
  | nil =>
    rw [hl] at hperm
    refine iff_of_true rfl (ExtTreeMap.ext_getElem? fun port => ?_)
    cases hport : p.nodePorts[port]? with
    | none => simp
    | some proto =>
      rw [← ExtTreeMap.mem_toList_iff_getElem?_eq_some, ← hperm.mem_iff] at hport
      exact absurd hport List.not_mem_nil
  | cons e l =>
    -- the first port on record has a rule to lose
    have hmem : p.nodePorts[e.1]? = some e.2 := by
      rw [← ExtTreeMap.mem_toList_iff_getElem?_eq_some, ← hperm.mem_iff, hl]
      exact List.mem_cons_self
    have hrule := h e.1 e.2 hmem
    have hlt : (closedPort e.1 e.2 p).inputSize < p.inputSize := by
      rw [inputSize_closedPort, List.length_erase_of_mem hrule]
      exact Nat.sub_one_lt (List.length_pos_of_mem hrule).ne'
    have hle := inputSize_closeAll l (closedPort e.1 e.2 p)
    refine iff_of_false (fun hsame => ?_) fun hempty => ?_
    · have heq : ((e :: l).foldl (fun q e => closedPort e.1 e.2 q) p).inputSize = p.inputSize := by
        rw [inputSize, hsame, inputSize]
      rw [List.foldl_cons] at heq
      omega
    · simp [hempty] at hmem

end Ports

/-- The empty endpoint list leaves the tables alone exactly if there is nothing to tear down. -/
theorem Installed.step_nil_iff {p : ServiceProxy} (h : Installed p) (hash : String → String)
    (orders : Orders) :
    ((ServiceProxy.step hash p (.sync [] orders [])).nat = p.nat ∧
      (ServiceProxy.step hash p (.sync [] orders [])).filter = p.filter) ↔ Idle p := by
  have hsync := (sync_effect hash orders []).succeeds h ⟨by simp, by simp⟩
  have hstep : ServiceProxy.step hash p (.sync [] orders []) = synced hash orders [] p := by
    simp only [ServiceProxy.step, hsync]
  have hports : (portsSynced orders [] (p.mapNat (syncedChains hash []))).filter = p.filter ↔
      p.nodePorts = ∅ :=
    @filter_portsSynced_nil (p.mapNat (syncedChains hash [])) orders
      fun port proto hl => (h.mem_input hl).2
  rw [hstep, synced, nat_portsSynced, hports]
  exact ⟨fun hsame => idle_of_syncedChains_eq h hsame.1 hsame.2,
    fun hidle => ⟨hidle.syncedChains_eq hash, hidle.ports⟩⟩

end ServiceProxy

namespace AgentTables
variable {IP : Type}

theorem sync_eq_self {cfg : AgentConfig IP} {view : ServerView} {table : Distributed}
    (h : view.ReadFails table) (hne : table ≠ .services) (a : AgentTables IP) :
    a.sync cfg view table = a := by
  cases table with
  | services => exact absurd rfl hne
  | routes =>
    obtain ⟨e, he⟩ := h
    simp only [sync, syncRoutes, nodeRoutes, he]
    split_ifs <;> rfl
  | ingresses =>
    obtain ⟨ingresses, services, hi, hs, hfails⟩ := h
    simp only [sync, syncIngresses, nodeIngresses, hi, hs]
    rcases ingresses with e | ings
    · rfl
    · rcases services with e | svcs
      · rfl
      · simp at hfails

/-- A failed read leaves every table alone, unless it is the read of the services and the
    node has services programmed. -/
theorem failed_read_keeps_tables_iff (cfg : AgentConfig IP) (view : ServerView)
    (table : Distributed) (hfails : view.ReadFails table) {start : ServiceProxy}
    (hstart : Fresh start) (history : List ServiceProxy.Event) (routes : KernelTable IP)
    (ingress : GoMap String) :
    let a : AgentTables IP := ⟨routes, run (step cfg.hash) start history, ingress⟩
    SameTables (a.sync cfg view table) a ↔ (table = .services → Idle a.proxy) := by
  intro a
  by_cases htable : table = .services
  · subst htable
    obtain ⟨e, he⟩ := hfails
    have hinstalled : Installed a.proxy := hstart.installed.run cfg.hash history
    have hsync : a.sync cfg view .services =
        { a with proxy := step cfg.hash a.proxy (.sync [] cfg.orders []) } := by
      simp only [sync, syncServices, nodeServices, computeEndpoints, he]
      rfl
    rw [hsync, ← hinstalled.step_nil_iff cfg.hash cfg.orders]
    simp [SameTables]
  · rw [sync_eq_self hfails htable]
    exact iff_of_true ⟨rfl, rfl, rfl, rfl⟩ fun h => absurd h htable

section Samples

private def config : AgentConfig Unit where
  id := "n1"
  routeMgr := ⟨⟨.ofNat (10 * 2 ^ 24 + 22 * 2 ^ 16), 16⟩, "10.22.1.0/24"⟩
  parseIP _ := none
  lower c := c
  hash := id
  orders := .listed

private def lockedView : ServerView where
  allocator := none
  services := some (.error "database is locked")
  ingresses := some (.ok [⟨"app.example.com", "web"⟩])
  registry := .new
  statusFunc := none
  assignments := []

private def noRoutes : KernelTable Unit := ⟨∅, by simp⟩

private def webOnly : List ServiceProxy.Event :=
  [.sync [⟨"web", "10.23.0.1", 80, 30000, 8080, "tcp", ["10.22.2.5"]⟩] .listed []]

/-- The ingress rules survive a read of the services that fails. -/
theorem failed_read_keeps_tables_iff_ingresses :
    let hosts : GoMap String := (∅ : GoMap String).insert "app.example.com" "10.23.0.1:80"
    let a : AgentTables Unit := ⟨noRoutes, run (step id) blankNode webOnly, hosts⟩
    SameTables (a.sync config lockedView .ingresses) a :=
  (failed_read_keeps_tables_iff config lockedView .ingresses
    ⟨_, _, rfl, rfl, .inr ⟨_, rfl⟩⟩ blankNode_fresh webOnly _ _).mpr
    fun h => absurd h (by decide)

/-- The same failure takes the service's chain and its NodePort rule down. -/
theorem failed_read_tears_services_down :
    let a : AgentTables Unit := ⟨noRoutes, run (step id) blankNode webOnly, ∅⟩
    let b := a.sync config lockedView .services
    (serviceChain id "web" ∈ a.proxy.nat ∧
      acceptRule 30000 "tcp" ∈ rulesOf a.proxy.filter "INPUT") ∧
    serviceChain id "web" ∉ b.proxy.nat ∧
      acceptRule 30000 "tcp" ∉ rulesOf b.proxy.filter "INPUT" := by
  decide +kernel

end Samples
end AgentTables
end Smith
