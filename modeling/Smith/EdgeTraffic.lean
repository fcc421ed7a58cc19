import Smith.IngressProxy
import Smith.ServiceAdmission
import Smith.StatusAgreement

set_option autoImplicit false

/-!
# From the edge to the containers

The ingress proxy of a node turns the host of a request into the address of a service, and the
chains of the node turn that address into the address of a container. The two tables come from
the control plane by fetches of their own, so each has its moment: the stores may have changed
from the one to the other.
-/
namespace Smith.Edge
open Commands FiniteMaps HostPort Iptables Runs ServiceProxy Std

structure Moment where
  services : ServiceStore
  registry : Registry
  now : ℤ
  replies : Replies
  assignments : List Assignment

def Moment.table (m : Moment) (svcs : List Service) : List ServiceEndpoints :=
  computeEndpoints (some (.ok svcs)) (some (aggregateStatus m.now m.replies m.registry))
    m.assignments

/-- A replica of the workload is assigned to an alive node, which reports it running under the
    address. -/
def Serving (m : Moment) (workloadID ip : String) : Prop :=
  ip ≠ "" ∧ ∃ a ∈ m.assignments, a.parentID = workloadID ∧
    (∃ node ∈ m.registry.alive m.now, node.id = a.nodeID) ∧
    ∃ status, m.replies a.nodeID = some status ∧ status[a.workloadID]? = some ⟨.running, ip⟩

theorem lookup_status {m : Moment} {n r : String} {cs : ContainerStatus} :
    ((aggregateStatus m.now m.replies m.registry).getD n ∅)[r]? = some cs ↔
      (∃ node ∈ m.registry.alive m.now, node.id = n) ∧
        ∃ status, m.replies n = some status ∧ status[r]? = some cs := by
  rw [getD_eq]
  cases hlookup : (aggregateStatus m.now m.replies m.registry)[n]? with
  | none =>
    refine iff_of_false (by simp) fun h => ?_
    exact absurd (hlookup.symm.trans ((lookup_aggregateStatus _).mpr ⟨h.1, rfl⟩)) (by simp)
  | some status =>
    obtain ⟨halive, rfl⟩ := (lookup_aggregateStatus _).mp hlookup
    rw [and_iff_right halive, Option.getD_some]
    cases m.replies n with
    | none => simp
    | some status => simp

theorem mem_endpoints {m : Moment} {workloadID ip : String} :
    ip ∈ endpointsOf (aggregateStatus m.now m.replies m.registry) m.assignments workloadID ↔
      Serving m workloadID ip := by
  simp only [endpointsOf, List.mem_filterMap, List.mem_filter, decide_eq_true_eq, Serving]
  constructor
  · rintro ⟨a, ⟨ha, hparent⟩, hip⟩
    split at hip
    · rename_i cs hcs
      split_ifs at hip with hrun
      obtain rfl := Option.some.inj hip
      obtain ⟨halive, status, hstatus, hlookup⟩ := lookup_status.mp hcs
      refine ⟨hrun.2, a, ha, hparent, halive, status, hstatus, ?_⟩
      rw [hlookup, ← hrun.1]
    · exact absurd hip (by simp)
  · rintro ⟨hne, a, ha, hparent, halive, status, hstatus, hlookup⟩
    refine ⟨a, ⟨ha, hparent⟩, ?_⟩
    have hcs := lookup_status.mpr ⟨halive, status, hstatus, hlookup⟩
    simp only [hcs, hne, ne_eq, not_false_eq_true, and_self, if_true]

/-! ### The service table -/

section Table
variable {m : Moment} {svcs : List Service} {hash : String → String} {isLocal : String → Bool}

theorem names_nodup {s : ServiceStore} (h : svcs.Perm s.list) : (svcs.map Service.name).Nodup := by
  have hnames : s.list.map Service.name = s.rows.keys := by
    rw [ServiceStore.list, List.map_map, ← ExtTreeMap.map_fst_toList_eq_keys]
    refine List.map_congr_left fun e he => ?_
    rw [ExtTreeMap.mem_toList_iff_getElem?_eq_some] at he
    exact s.named e.1 e.2 he
  rw [(h.map Service.name).nodup_iff, hnames]
  exact ExtTreeMap.nodup_keys

/-- The names of different services have different chains. -/
def HashesApart (hash : String → String) (s : ServiceStore) : Prop :=
  ∀ n n' : String, s.rows[n]? ≠ none → s.rows[n']? ≠ none → hash n = hash n' → n = n'

theorem row_of_mem (h : svcs.Perm m.services.list) {sv : Service} (hsv : sv ∈ svcs) :
    m.services.rows[sv.name]? = some sv :=
  ServiceStore.mem_list.mp (h.mem_iff.mp hsv)

theorem desiredChains_nodup (h : svcs.Perm m.services.list) (hhash : HashesApart hash m.services) :
    (desiredChains hash (m.table svcs)).Nodup := by
  have hchains : desiredChains hash (m.table svcs) =
      svcs.map fun sv => serviceChain hash sv.name := by
    simp only [desiredChains, Moment.table, computeEndpoints, List.map_map]
    rfl
  rw [hchains]
  refine (List.nodup_map_iff_inj_on (names_nodup h).of_map).mpr fun a ha b hb heq => ?_
  have hra := row_of_mem h ha
  have hrb := row_of_mem h hb
  have hhashes : hash a.name = hash b.name := by
    have hlists := congrArg String.toList heq
    simp only [serviceChain, String.toList_append, List.append_cancel_left_eq] at hlists
    exact String.toList_inj.mp hlists
  have hname := hhash a.name b.name (by simp [hra]) (by simp [hrb]) hhashes
  rw [hname, hrb] at hra
  exact (Option.some.inj hra).symm

theorem separate (h : svcs.Perm m.services.list)
    (hremote : ∀ (n : String) (sv : Service), m.services.rows[n]? = some sv →
      isLocal sv.clusterIP = false) : Separate isLocal (m.table svcs) := by
  have hpairwise : svcs.Pairwise fun a b => a.clusterIP ≠ b.clusterIP ∧ a.nodePort ≠ b.nodePort := by
    have hne : svcs.Pairwise fun a b => a.name ≠ b.name := List.pairwise_map.mp (names_nodup h)
    refine hne.imp_of_mem fun {a b} ha hb hab => ⟨fun heq => hab ?_, fun heq => hab ?_⟩
    · exact m.services.distinctIP _ _ a b (row_of_mem h ha) (row_of_mem h hb) heq
    · exact m.services.distinctPort _ _ a b (row_of_mem h ha) (row_of_mem h hb) heq
  refine ⟨?_, ?_, ?_⟩
  · exact List.pairwise_map.mpr (hpairwise.imp fun hab _ => hab.1)
  · exact List.pairwise_map.mpr (hpairwise.imp fun hab _ => hab.2)
  · intro ep hep
    obtain ⟨sv, hsv, rfl⟩ := List.mem_map.mp hep
    exact hremote sv.name sv (row_of_mem h hsv)

def entry (m : Moment) (sv : Service) : ServiceEndpoints where
  name := sv.name
  clusterIP := sv.clusterIP
  port := sv.port
  nodePort := sv.nodePort
  targetPort := sv.targetPort
  protocol := sv.protocol
  endpoints := endpointsOf (aggregateStatus m.now m.replies m.registry) m.assignments sv.workloadID

theorem mem_table (h : svcs.Perm m.services.list) {ep : ServiceEndpoints} :
    ep ∈ m.table svcs ↔ ∃ (n : String) (sv : Service),
      m.services.rows[n]? = some sv ∧ ep = entry m sv := by
  have hmem : ep ∈ m.table svcs ↔ ∃ sv ∈ svcs, entry m sv = ep := List.mem_map
  rw [hmem]
  constructor
  · rintro ⟨sv, hsv, rfl⟩
    exact ⟨sv.name, sv, row_of_mem h hsv, rfl⟩
  · rintro ⟨n, sv, hrow, rfl⟩
    have hname := m.services.named n sv hrow
    exact ⟨sv, h.mem_iff.mpr (ServiceStore.mem_list.mpr (hname ▸ hrow)), rfl⟩

/-- A successful sync of the table, on a node with any history, gives it its meaning. -/
theorem means_of_sync (hsound : m.services.Sound) (hadmitted : m.services.Admitted)
    (h : svcs.Perm m.services.list) (hhash : HashesApart hash m.services)
    (hremote : ∀ (n : String) (sv : Service), m.services.rows[n]? = some sv →
      isLocal sv.clusterIP = false)
    {p t : ServiceProxy} (hp : Installed p) {orders : Orders} {faults rest : List (Option String)}
    (hsync : sync hash orders (m.table svcs) (p, faults) = .ok () (t, rest)) :
    Means isLocal (m.table svcs) t.nat := by
  obtain ⟨-, rfl, -⟩ := (sync_effect hash orders (m.table svcs)).done hp hsync
  refine (hp.programmed_synced hash orders _).means (desiredChains_nodup h hhash)
    (separate h hremote) fun ep hep => ?_
  exact (allocated_of_stored hsound hadmitted h _ _ ep hep).port

end Table

/-! ### Packets for the address of a service -/

/-- The chains send the packet to one of these addresses, to any of them by some draws, and let
    it pass if there are none. -/
def Delivers (isLocal : String → Bool) (t : Chains) (pkt : Packet) (addresses : String → Prop)
    (port : ℤ) : Prop :=
  (∀ draws depth,
    (¬ (∃ ip, addresses ip) ∧
      (t.walk isLocal draws (depth + 3) servicesChain pkt 0).verdict = some .pass) ∨
    ∃ ip, addresses ip ∧
      (t.walk isLocal draws (depth + 3) servicesChain pkt 0).verdict = some (.dnat ip port)) ∧
  ∀ ip, addresses ip → ∃ draws, ∀ depth,
    (t.walk isLocal draws (depth + 3) servicesChain pkt 0).verdict = some (.dnat ip port)

section Packets
variable {m : Moment} {svcs : List Service} {isLocal : String → Bool} {t : Chains}
  {n ip : String} {port : ℤ} {sv : Service}

def tcpTo (ip : String) (port : ℤ) : Packet := { dst := ip, proto := "tcp", dport := port }

theorem delivers_of_means (hmeans : Means isLocal (m.table svcs) t)
    (h : svcs.Perm m.services.list) (hsound : m.services.Sound)
    (hrow : m.services.rows[n]? = some sv) (htcp : sv.protocol = "tcp") :
    Delivers isLocal t (tcpTo sv.clusterIP sv.port) (Serving m sv.workloadID) sv.targetPort := by
  have hmem : entry m sv ∈ m.table svcs := (mem_table h).mpr ⟨n, sv, hrow, rfl⟩
  have hproto : (entry m sv).proto = "tcp" := by
    simp only [ServiceEndpoints.proto, entry, htcp]
    decide
  have haddr : Addressed isLocal (entry m sv) (tcpTo sv.clusterIP sv.port) :=
    ⟨hproto.symm, .inl ⟨hsound.clusterIP_ne hrow, rfl, rfl⟩⟩
  constructor
  · intro draws depth
    by_cases hempty : (entry m sv).endpoints = []
    · refine .inl ⟨?_, hmeans.empty _ hmem hempty _ haddr draws depth⟩
      rintro ⟨ip, hserving⟩
      have hep : ip ∈ (entry m sv).endpoints := mem_endpoints.mpr hserving
      rw [hempty] at hep
      exact List.not_mem_nil hep
    · obtain ⟨ep, hep, hverdict⟩ := hmeans.balances _ hmem hempty _ haddr draws depth
      exact .inr ⟨ep, mem_endpoints.mp hep, hverdict⟩
  · exact fun ep hserving => hmeans.chooses _ hmem ep (mem_endpoints.mpr hserving) _ haddr

end Packets

/-! ### Requests at the edge -/

section Requests
variable {table : Char → Char} {ingresses : IngressStore} {services : ServiceStore} {h s : String}
  {sv : Service}

theorem proxied (hsound : services.Sound) (hing : ingresses.rows[h]? = some s)
    (hsv : services.rows[s]? = some sv)
    (hown : AllOf table ingresses services s (toLower table h).toList)
    (hplain : Plain (toLower table h).toList) {ings : List Ingress} {svcs : List Service}
    (hings : ings.Perm ingresses.list) (hsvcs : svcs.Perm services.list) {rules : List IngressRule}
    (hrules : computeIngressRules (some (.ok ings)) (some (.ok svcs)) = .ok rules) {x suffix : String}
    (hx : toLower table x = toLower table h) (hsuffix : PortSuffix suffix) :
    serveHTTP table (setRules table rules) (x ++ suffix) = .ok s!"{sv.clusterIP}:{sv.port}" := by
  have howns := (owns_requests_iff (toLower table h).toList).mpr
    ⟨⟨⟨h, hing, rfl⟩, hown⟩, .inl hplain⟩ suffix hsuffix
  obtain ⟨rules', hrules', hroutes⟩ := @routes_eq table services hsound ings svcs hsvcs
  obtain rfl := Except.ok.inj (hrules.symm.trans hrules')
  have hlist : (toLower table (x ++ suffix)).toList = (toLower table h).toList ++ suffix.toList := by
    rw [toLower_append, hx, toLower_suffix table hsuffix, String.toList_append]
  rw [← String.toList_ofList (l := hostOf _), ← leads_iff hsound hsv] at howns
  rw [serveHTTP_eq_ok, hlist, hroutes]
  exact howns ings hings

theorem clusterIP_run {s₀ : ServiceStore} {row : Service} (hrow : s₀.rows[s]? = some row)
    {ops : List ServiceStore.Op} (hops : .remove s ∉ ops) :
    ∃ row', (run ServiceStore.step s₀ ops).rows[s]? = some row' ∧
      row'.clusterIP = row.clusterIP := by
  induction ops generalizing s₀ row with
  | nil => exact ⟨row, hrow, rfl⟩
  | cons op ops ih =>
    rw [List.mem_cons, not_or] at hops
    have hstep : ∃ row', (ServiceStore.step s₀ op).rows[s]? = some row' ∧
        row'.clusterIP = row.clusterIP := by
      cases op with
      | remove name =>
        have hne : name ≠ s := fun heq => hops.1 (heq ▸ rfl)
        exact ⟨row, (lookup_erase_ne _ hne).trans hrow, rfl⟩
      | add svc =>
        by_cases hname : svc.name = s
        · subst hname
          obtain ⟨⟨row', hrow', hip, -⟩, -⟩ := ServiceStore.add_keeps hrow
          exact ⟨row', hrow', hip⟩
        · have hother : (s₀.add svc).1.rows[s]? = s₀.rows[s]? := by
            obtain ⟨e, he⟩ | ⟨-, -, ⟨row', -, hrows⟩ | ⟨ip, port, -, -, hrows⟩⟩ :=
              ServiceStore.add_cases s₀ svc
            · rw [he]
            · rw [hrows, lookup_insert_ne _ _ hname]
            · rw [hrows, lookup_insert_ne _ _ hname]
          exact ⟨row, hother.trans hrow, rfl⟩
    obtain ⟨row₁, hrow₁, hip₁⟩ := hstep
    obtain ⟨row₂, hrow₂, hip₂⟩ := ih hrow₁ hops.2
    exact ⟨row₂, hrow₂, hip₂.trans hip₁⟩

end Requests

section Deliveries
variable (table : Char → Char) (hash : String → String) {start : ServiceProxy} (hstart : Fresh start)
  (history : List ServiceProxy.Event) (iops : List IngressStore.Op)
  (sops later : List ServiceStore.Op) (m : Moment)
  (hm : m.services = run ServiceStore.step .new (sops ++ later)) {h s : String} {sv : Service}
  (hing : (run IngressStore.step .new iops).rows[h]? = some s)
  (hsv : (run ServiceStore.step .new sops).rows[s]? = some sv)
  (hown : AllOf table (run IngressStore.step .new iops) (run ServiceStore.step .new sops) s
    (toLower table h).toList)
  (hplain : Plain (toLower table h).toList) (hhash : HashesApart hash m.services)
  {isLocal : String → Bool}
  (hremote : ∀ (n : String) (sv : Service), m.services.rows[n]? = some sv →
    isLocal sv.clusterIP = false)
  {ings : List Ingress} (hings : ings.Perm (run IngressStore.step .new iops).list)
  {svcs svcs' : List Service} (hsvcs : svcs.Perm (run ServiceStore.step .new sops).list)
  (hsvcs' : svcs'.Perm m.services.list) {rules : List IngressRule}
  (hrules : computeIngressRules (some (.ok ings)) (some (.ok svcs)) = .ok rules)
  {orders : Orders} {faults rest : List (Option String)} {t : ServiceProxy}
  (hsync : sync hash orders (m.table svcs') (run (ServiceProxy.step hash) start history, faults) =
    .ok () (t, rest))
include hstart hm hing hsv hown hplain hhash hremote hings hsvcs hsvcs' hrules hsync

/-- Whichever service has the address by then, its replicas get the request. -/
theorem request_delivered {n : String} {sv' : Service} (hrow : m.services.rows[n]? = some sv')
    (htcp : sv'.protocol = "tcp") (hip : sv'.clusterIP = sv.clusterIP) (hport : sv'.port = sv.port)
    {x suffix : String} (hx : toLower table x = toLower table h) (hsuffix : PortSuffix suffix) :
    ∃ (ip : String) (port : ℤ),
      serveHTTP table (setRules table rules) (x ++ suffix) = .ok s!"{ip}:{port}" ∧
      Delivers isLocal t.nat (tcpTo ip port) (Serving m sv'.workloadID) sv'.targetPort := by
  have hsound : m.services.Sound := hm ▸ ServiceStore.Sound.new.run _
  have hadmitted : m.services.Admitted := hm ▸ ServiceStore.Admitted.new.run _
  have hmeans := means_of_sync hsound hadmitted hsvcs' hhash hremote
    (hstart.installed.run hash history) hsync
  refine ⟨sv.clusterIP, sv.port, ?_, ?_⟩
  · exact proxied (ServiceStore.Sound.new.run sops) hing hsv hown hplain hings hsvcs hrules hx hsuffix
  · rw [← hip, ← hport]
    exact delivers_of_means hmeans hsvcs' hsound hrow htcp

/-- A request for the host of an ingress, at a node that fetched its rules and later its service
    table, is sent to a replica that runs as the second fetch has it, and to any of them by some
    draws, if the service was not removed in between and kept its port. -/
theorem edge_request_reaches_replica (hkept : .remove s ∉ later) {sv' : Service}
    (hrow : m.services.rows[s]? = some sv') (htcp : sv'.protocol = "tcp")
    (hport : sv'.port = sv.port) (x suffix : String) (hx : toLower table x = toLower table h)
    (hsuffix : PortSuffix suffix) :
    ∃ (ip : String) (port : ℤ),
      serveHTTP table (setRules table rules) (x ++ suffix) = .ok s!"{ip}:{port}" ∧
      Delivers isLocal t.nat (tcpTo ip port) (Serving m sv'.workloadID) sv'.targetPort := by
  have hip : sv'.clusterIP = sv.clusterIP := by
    obtain ⟨row, hrow', hip⟩ := clusterIP_run hsv hkept
    rw [hm, run_append] at hrow
    obtain rfl := Option.some.inj (hrow'.symm.trans hrow)
    exact hip
  exact request_delivered table hash hstart history iops sops later m hm hing hsv hown hplain hhash
    hremote hings hsvcs hsvcs' hrules hsync hrow htcp hip hport hx hsuffix

/-- If another service has taken the address over in between, its replicas get the requests for
    the host. -/
theorem reused_address_misleads {s' : String} (hother : s' ≠ s) {sv' : Service}
    (hrow : m.services.rows[s']? = some sv') (htcp : sv'.protocol = "tcp")
    (hip : sv'.clusterIP = sv.clusterIP) (hport : sv'.port = sv.port) (x suffix : String)
    (hx : toLower table x = toLower table h) (hsuffix : PortSuffix suffix) :
    m.services.rows[s]? ≠ some sv ∧ ∃ (ip : String) (port : ℤ),
      serveHTTP table (setRules table rules) (x ++ suffix) = .ok s!"{ip}:{port}" ∧
      Delivers isLocal t.nat (tcpTo ip port) (Serving m sv'.workloadID) sv'.targetPort := by
  constructor
  · intro hsame
    exact hother (m.services.distinctIP _ _ sv' sv hrow hsame hip)
  · exact request_delivered table hash hstart history iops sops later m hm hing hsv hown hplain hhash
      hremote hings hsvcs hsvcs' hrules hsync hrow htcp hip hport hx hsuffix

end Deliveries

section Samples

private def shop : List IngressStore.Op := [.add ⟨"Shop.example.com", "shop"⟩]

private def shopService : List ServiceStore.Op :=
  [.add { name := "shop", workloadID := "shop", port := 80, targetPort := 8080 }]

/-- One node that runs a replica of each workload. -/
private def oneNode (services : ServiceStore) : Moment where
  services := services
  registry := Registry.new.register { id := "n1", cpu := 4, memoryMB := 8000 } 0
  now := 1
  replies _ := some ((ExtTreeMap.insert ∅ "shop-0" ⟨.running, "10.22.1.2"⟩).insert "blog-0"
    ⟨.running, "10.22.1.3"⟩)
  assignments := [⟨"shop-0", "n1", "shop"⟩, ⟨"blog-0", "n1", "blog"⟩]

private theorem oneNode_services (services : ServiceStore) : (oneNode services).services = services :=
  rfl

private theorem shop_stored :
    (run IngressStore.step .new shop).rows["Shop.example.com"]? = some "shop" := by
  decide +kernel

private theorem shop_row : (run ServiceStore.step .new shopService).rows["shop"]? =
    some (⟨"shop", "shop", 80, 8080, "tcp", "10.23.0.1", 30000⟩ : Service) := by
  decide +kernel

private theorem shop_plain : Plain (toLower id "Shop.example.com").toList := by
  unfold Plain
  decide +kernel

private def hostAddress (ip : String) : Bool := ip = "192.168.0.1"

/-- Another service comes between the two fetches. -/
theorem edge_request_reaches_replica_shop :
    let later : List ServiceStore.Op :=
      [.add { name := "blog", workloadID := "blog", port := 80, targetPort := 3000 }]
    let m := oneNode (run ServiceStore.step .new (shopService ++ later))
    ∃ rules t, computeIngressRules (some (.ok (run IngressStore.step .new shop).list))
        (some (.ok (run ServiceStore.step .new shopService).list)) = .ok rules ∧
      sync id .listed (m.table m.services.list) (blankNode, []) = .ok () (t, []) ∧
      ∃ (ip : String) (port : ℤ),
        serveHTTP id (setRules id rules) ("shop.example.com" ++ ":443") = .ok s!"{ip}:{port}" ∧
        Delivers hostAddress t.nat (tcpTo ip port) (Serving m "shop") 8080 := by
  intro later m
  have hsync := (sync_effect id Orders.listed (m.table m.services.list)).succeeds
    (blankNode_fresh.installed.run id []) (by decide +kernel)
  have hrow : m.services.rows["shop"]? =
      some (⟨"shop", "shop", 80, 8080, "tcp", "10.23.0.1", 30000⟩ : Service) := by
    decide +kernel
  have hremote : ∀ (n : String) (sv : Service), m.services.rows[n]? = some sv →
      hostAddress sv.clusterIP = false := forall_lookup_iff.mpr (by decide +kernel)
  exact ⟨_, _, rfl, hsync, edge_request_reaches_replica id id blankNode_fresh [] shop shopService
    later m (oneNode_services _) shop_stored shop_row (forall_lookup_iff.mpr (by decide +kernel))
    shop_plain (fun _ _ _ _ h => h) hremote (.refl _) (.refl _) (.refl _) rfl hsync (by simp [later])
    hrow rfl rfl "shop.example.com" ":443" (by decide +kernel) (.inr ⟨['4', '4', '3'], by simp, by simp, rfl⟩)⟩

/-- The service is removed and another one, with the same port, gets its address. -/
theorem reused_address_misleads_blog :
    let later : List ServiceStore.Op :=
      [.remove "shop", .add { name := "blog", workloadID := "blog", port := 80, targetPort := 3000 }]
    let m := oneNode (run ServiceStore.step .new (shopService ++ later))
    ∃ rules t, computeIngressRules (some (.ok (run IngressStore.step .new shop).list))
        (some (.ok (run ServiceStore.step .new shopService).list)) = .ok rules ∧
      sync id .listed (m.table m.services.list) (blankNode, []) = .ok () (t, []) ∧
      ∃ (ip : String) (port : ℤ),
        serveHTTP id (setRules id rules) ("shop.example.com" ++ "") = .ok s!"{ip}:{port}" ∧
        Delivers hostAddress t.nat (tcpTo ip port) (Serving m "blog") 3000 := by
  intro later m
  have hsync := (sync_effect id Orders.listed (m.table m.services.list)).succeeds
    (blankNode_fresh.installed.run id []) (by decide +kernel)
  have hrow : m.services.rows["blog"]? =
      some (⟨"blog", "blog", 80, 3000, "tcp", "10.23.0.1", 30000⟩ : Service) := by
    decide +kernel
  have hremote : ∀ (n : String) (sv : Service), m.services.rows[n]? = some sv →
      hostAddress sv.clusterIP = false := forall_lookup_iff.mpr (by decide +kernel)
  exact ⟨_, _, rfl, hsync, (reused_address_misleads id id blankNode_fresh [] shop shopService
    later m (oneNode_services _) shop_stored shop_row (forall_lookup_iff.mpr (by decide +kernel))
    shop_plain (fun _ _ _ _ h => h) hremote (.refl _) (.refl _) (.refl _) rfl hsync (by decide) hrow
    rfl rfl rfl "shop.example.com" ""
    (by decide +kernel) (.inl rfl)).2⟩

end Samples

end Smith.Edge
