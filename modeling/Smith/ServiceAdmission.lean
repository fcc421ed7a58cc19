import Smith.ServiceDispatch
import Smith.ServiceStore

set_option autoImplicit false

/-!
# From admitted services to programmed chains

The service store admits a service by its name, workload and positive ports, and the agents
program every stored service in one sync. A service whose ports or protocol iptables rejects
stops that sync, after the dispatch chain of all services has been flushed.
-/
namespace Smith
open Commands FiniteMaps Iptables Overwrites Runs Std

namespace ServiceStore
variable {s : ServiceStore} {svc : Service}

def Admitted (s : ServiceStore) : Prop :=
  ∀ (n : String) (svc : Service), s.rows[n]? = some svc →
    0 < svc.port ∧ 0 < svc.targetPort ∧ svc.protocol ≠ ""

theorem Admitted.insert (h : Admitted s) {s' : ServiceStore} {k : String} {row : Service}
    (hs' : s'.rows = s.rows.insert k row)
    (hrow : 0 < row.port ∧ 0 < row.targetPort ∧ row.protocol ≠ "") : Admitted s' := by
  intro n svc hr
  rw [hs', lookup_insert] at hr
  split_ifs at hr
  · rw [← Option.some.inj hr]
    exact hrow
  · exact h n svc hr

theorem Admitted.step (h : Admitted s) (op : Op) : Admitted (step s op) := by
  cases op with
  | remove name =>
    intro n svc hr
    simp only [ServiceStore.step, ServiceStore.remove, lookup_erase] at hr
    split_ifs at hr
    exact h n svc hr
  | add svc =>
    have hdefault : (defaulted svc).protocol ≠ "" := by
      simp only [defaulted]
      split_ifs with hp
      · decide
      · exact hp
    obtain ⟨e, he⟩ | ⟨hv, -, ⟨row, -, hrows⟩ | ⟨ip, port, -, -, hrows⟩⟩ := add_cases s svc
    · rw [ServiceStore.step, he]
      exact h
    · exact h.insert hrows ⟨hv.port, hv.targetPort, hdefault⟩
    · exact h.insert hrows ⟨hv.port, hv.targetPort, hdefault⟩

theorem Admitted.run (h : Admitted s) (ops : List Op) : Admitted (run ServiceStore.step s ops) := by
  induction ops generalizing s with
  | nil => exact h
  | cons op ops ih => exact ih (h.step op)

theorem Admitted.new : Admitted ServiceStore.new := by
  intro n svc h
  simp [ServiceStore.new] at h

end ServiceStore

namespace ServiceProxy
variable {hash : String → String} {svc : ServiceEndpoints}

theorem markJump_accepted : markJump.Accepted := by decide

theorem dnatRule_accepted (i : ℕ) (ep : String) : (dnatRule svc i ep).Accepted ↔
    KnownProtocol svc.proto ∧ PortInRange svc.targetPort := by
  unfold dnatRule
  simp only
  split_ifs <;> simp [Rule.Accepted, Target.Accepted]

theorem clusterRule_accepted {chain : String} : (clusterRule svc chain).Accepted ↔
    KnownProtocol svc.proto ∧ PortInRange svc.port := by
  simp [clusterRule, Rule.Accepted, Target.Accepted]

theorem nodePortRule_accepted {chain : String} : (nodePortRule svc chain).Accepted ↔
    KnownProtocol svc.proto ∧ PortInRange svc.nodePort := by
  simp [nodePortRule, Rule.Accepted, Target.Accepted]

structure Allocated (svc : ServiceEndpoints) : Prop where
  clusterIP : svc.clusterIP ≠ ""
  port : 0 < svc.port
  nodePort : PortInRange svc.nodePort
  targetPort : 0 < svc.targetPort
  protocol : svc.protocol ≠ ""

def Acceptable (svc : ServiceEndpoints) : Prop :=
  KnownProtocol svc.protocol ∧ svc.port ≤ 65535 ∧
    (svc.endpoints ≠ [] → svc.targetPort ≤ 65535)

instance (svc : ServiceEndpoints) : Decidable (Acceptable svc) :=
  inferInstanceAs (Decidable (_ ∧ _ ∧ _))

theorem Allocated.proto_eq (h : Allocated svc) : svc.proto = svc.protocol := if_neg h.protocol

theorem Allocated.mem_dispatchRules (h : Allocated svc) (r : Rule) : r ∈ dispatchRules hash svc ↔
    r = clusterRule svc (serviceChain hash svc.name) ∨
      r = nodePortRule svc (serviceChain hash svc.name) := by
  have hpos : 0 < svc.nodePort := h.nodePort.1
  rw [ServiceProxy.mem_dispatchRules]
  simp [h.clusterIP, h.port, hpos]

theorem Allocated.accepted_iff (h : Allocated svc) :
    ((∀ r ∈ serviceRules svc, r.Accepted) ∧ ∀ r ∈ dispatchRules hash svc, r.Accepted) ↔
      Acceptable svc := by
  simp only [h.mem_dispatchRules, forall_eq_or_imp, forall_eq, clusterRule_accepted,
    nodePortRule_accepted, h.nodePort, and_true, serviceRules, List.forall_mem_cons,
    List.forall_mem_map, dnatRule_accepted, markJump_accepted, true_and, h.proto_eq, Acceptable]
  constructor
  · rintro ⟨hdnat, ⟨hproto, hport⟩, -⟩
    refine ⟨hproto, hport.2, fun hne => ?_⟩
    obtain ⟨ep, eps, heps⟩ := List.exists_cons_of_ne_nil hne
    exact (hdnat (ep, 0) (by rw [heps, List.zipIdx_cons]; exact List.mem_cons_self)).2.2
  · rintro ⟨hproto, hport, htarget⟩
    refine ⟨fun e he => ⟨hproto, h.targetPort, htarget fun hnil => ?_⟩, ⟨hproto, h.port, hport⟩, hproto⟩
    rw [hnil] at he
    exact absurd he List.not_mem_nil

theorem programmable_iff {services : List ServiceEndpoints} (h : ∀ svc ∈ services, Allocated svc) :
    Programmable hash services ↔ ∀ svc ∈ services, Acceptable svc := by
  simp only [Programmable, List.forall_mem_flatMap, ← forall₂_and]
  exact forall₂_congr fun svc hsvc => (h svc hsvc).accepted_iff

/-- The chain of the service holds its rules, and its packets are sent there. -/
def Served (hash : String → String) (t : Chains) (svc : ServiceEndpoints) : Prop :=
  t[serviceChain hash svc.name]? = some (serviceRules svc) ∧
    ∃ rules, t[servicesChain]? = some rules ∧
      clusterRule svc (serviceChain hash svc.name) ∈ rules ∧
      nodePortRule svc (serviceChain hash svc.name) ∈ rules

/-- Services that share a chain have the same rules for it. -/
def Agree (hash : String → String) (services : List ServiceEndpoints) : Prop :=
  ∀ a ∈ services, ∀ b ∈ services, serviceChain hash a.name = serviceChain hash b.name →
    serviceRules a = serviceRules b

instance (hash : String → String) (services : List ServiceEndpoints) :
    Decidable (Agree hash services) :=
  inferInstanceAs (Decidable (∀ a ∈ services, ∀ b ∈ services,
    serviceChain hash a.name = serviceChain hash b.name → serviceRules a = serviceRules b))

theorem Programmed.served_iff {services : List ServiceEndpoints} {t : Chains}
    (h : Programmed hash services t) (hall : ∀ svc ∈ services, Allocated svc) :
    (∀ svc ∈ services, Served hash t svc) ↔ Agree hash services := by
  have hdispatch (svc : ServiceEndpoints) (hsvc : svc ∈ services) :
      ∃ rules, t[servicesChain]? = some rules ∧
        clusterRule svc (serviceChain hash svc.name) ∈ rules ∧
        nodePortRule svc (serviceChain hash svc.name) ∈ rules := by
    refine ⟨_, h.lookup_servicesChain, ?_, ?_⟩
    · exact List.mem_flatMap.mpr ⟨svc, hsvc, ((hall svc hsvc).mem_dispatchRules _).mpr (.inl rfl)⟩
    · exact List.mem_flatMap.mpr ⟨svc, hsvc, ((hall svc hsvc).mem_dispatchRules _).mpr (.inr rfl)⟩
  have hchain (svc : ServiceEndpoints) : t[serviceChain hash svc.name]? =
      (overwrite (∅ : Chains) (serviceChains hash services))[serviceChain hash svc.name]? := by
    have hservice := isServiceChain_serviceChain hash svc.name
    rw [h _ hservice.hasPrefix, smithChains, lookup_insert_ne _ _ hservice.ne_markChain.symm,
      lookup_insert_ne _ _ hservice.ne_servicesChain.symm]
  have hkeeps := overwrite_keeps_iff (∅ : Chains) (serviceChains hash services)
  simp only [serviceChains, List.forall_mem_map] at hkeeps
  refine Iff.trans ⟨fun hs svc hsvc => ?_, fun hs svc hsvc => ⟨?_, hdispatch svc hsvc⟩⟩ hkeeps
  · rw [← (hs svc hsvc).1, hchain]
    rfl
  · rw [hchain]
    exact hs svc hsvc

theorem allocated_of_stored {s : ServiceStore} (hsound : s.Sound) (hadmitted : s.Admitted)
    {svcs : List Service} (hsvcs : svcs.Perm s.list)
    (statusFunc : Option (GoMap (GoMap ContainerStatus))) (assignments : List Assignment) :
    ∀ svc ∈ computeEndpoints (some (.ok svcs)) statusFunc assignments, Allocated svc := by
  intro svc hsvc
  obtain ⟨row, hrow, rfl⟩ := List.mem_map.mp hsvc
  rw [hsvcs.mem_iff, ServiceStore.mem_list] at hrow
  obtain ⟨hport, htarget, hprotocol⟩ := hadmitted row.name row hrow
  obtain ⟨c, -, hip⟩ := hsound.clusterIP row.name row hrow
  have hnode := ServiceStore.mem_nodePorts.mp (hsound.nodePort row.name row hrow)
  simp only [ServiceStore.nodePortMin, ServiceStore.nodePortMax] at hnode
  have hnodePort : PortInRange row.nodePort := ⟨by omega, by omega⟩
  have hclusterIP : row.clusterIP ≠ "" := by
    intro hempty
    have hparse := IPv4.parse_text (IPv4.Addr.ofNat c)
    have hnone : IPv4.parse "" = none := by decide
    rw [← hip, hempty, hnone] at hparse
    cases hparse
  exact ⟨hclusterIP, hport, hnodePort, htarget, hprotocol⟩

/-- After any run of the store and any history of the node, with no fault of iptables, a sync
    programs every stored service exactly if iptables accepts the ports and the protocol of each
    of them, and services whose names have one hash have the same backends. -/
theorem stored_services_served_iff (hash : String → String) (ops : List ServiceStore.Op)
    {start : ServiceProxy} (hstart : Fresh start) (history : List Event) (orders : Orders)
    {svcs : List Service} (hsvcs : svcs.Perm (run ServiceStore.step .new ops).list)
    (statusFunc : Option (GoMap (GoMap ContainerStatus))) (assignments : List Assignment) :
    let table := computeEndpoints (some (.ok svcs)) statusFunc assignments
    (∃ t rest, sync hash orders table (run (step hash) start history, []) = .ok () (t, rest) ∧
      ∀ svc ∈ table, Served hash t.nat svc) ↔
        (∀ svc ∈ table, Acceptable svc) ∧ Agree hash table := by
  intro table
  have hinstalled : Installed (run (step hash) start history) := hstart.installed.run hash history
  have hall : ∀ svc ∈ table, Allocated svc :=
    allocated_of_stored (ServiceStore.Sound.new.run ops) (ServiceStore.Admitted.new.run ops) hsvcs
      statusFunc assignments
  have heffect := sync_effect hash orders table
  have hprogrammed := hinstalled.programmed_synced hash orders table
  constructor
  · rintro ⟨t, rest, hsync, hserved⟩
    obtain ⟨hprogrammable, rfl, -⟩ := heffect.done hinstalled hsync
    exact ⟨(programmable_iff hall).mp hprogrammable, (hprogrammed.served_iff hall).mp hserved⟩
  · rintro ⟨hacceptable, hagree⟩
    exact ⟨_, _, heffect.succeeds hinstalled ((programmable_iff hall).mpr hacceptable),
      (hprogrammed.served_iff hall).mpr hagree⟩

section Samples

/-- Two services in the store, one with a running replica. -/
theorem stored_services_served_iff_two :
    let ops : List ServiceStore.Op :=
      [.add { name := "dns", workloadID := "dns", port := 53, targetPort := 53, protocol := "udp" },
        .add { name := "web", workloadID := "web", port := 80, targetPort := 8080 }]
    let status : GoMap (GoMap ContainerStatus) :=
      (∅ : GoMap _).insert "n1" ((∅ : GoMap _).insert "web-0" ⟨.running, "10.0.1.2"⟩)
    let table := computeEndpoints (some (.ok (run ServiceStore.step .new ops).list)) (some status)
      [⟨"web-0", "n1", "web"⟩]
    ∃ t rest, sync id .listed table (run (step id) blankNode [.restart], []) = .ok () (t, rest) ∧
      ∀ svc ∈ table, Served id t.nat svc := by
  intro ops status table
  refine (stored_services_served_iff id ops blankNode_fresh [.restart] .listed (.refl _) _
    _).mpr ⟨?_, ?_⟩
  · decide +kernel
  · decide +kernel

/-- The error of a failed sync and the dispatch chain it leaves. -/
private def failure (r : EStateM.Result String (World String ServiceProxy) Unit) :
    Option (String × Option (List Rule)) :=
  match r with
  | .ok _ _ => none
  | .error e w => some (e, w.1.nat[servicesChain]?)

private def store : ServiceStore :=
  run ServiceStore.step .new
    [.add { name := "big", workloadID := "big", port := 70000, targetPort := 80 },
      .add { name := "web", workloadID := "web", port := 80, targetPort := 8080 }]

/-- A stored port of 70000 leaves no service dispatched. -/
theorem large_port_stops_sync :
    (store.list.map fun svc => (svc.name, svc.port)) = [("big", 70000), ("web", 80)] ∧
      failure (sync id .listed (computeEndpoints (some (.ok store.list)) none []) (blankNode, [])) =
        some ("populate SMITH-SERVICES: iptables: invalid port/service or unknown protocol specified",
          some []) := by
  decide +kernel

end Samples
end ServiceProxy
end Smith
