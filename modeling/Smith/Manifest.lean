import Smith.ControlPlane

set_option autoImplicit false

/-!
# App bundles

A bundle declares one workload and its services and ingresses. `resolve` fills in the
implicit names, defaults and references and rejects what it cannot lower. It stands in
front of the stores, which check their arguments again.
-/
namespace Smith
open FiniteMaps Std

structure WorkloadSpec where
  image : String
  args : Option (List String) := none
  replicas : ℤ := 0
  maxUnavailable : ℤ := 0
  env : Option (GoMap String) := none
  resources : Option Resources := none
  volumes : Option (List Volume) := none
  ports : Option (List PortMapping) := none
  healthCheck : Option HealthCheck := none

def WorkloadSpec.count (w : WorkloadSpec) : ℤ := if w.replicas = 0 then 1 else w.replicas

def WorkloadSpec.maxUnavail (w : WorkloadSpec) : ℤ :=
  if w.maxUnavailable = 0 then 1 else w.maxUnavailable

structure ServiceSpec where
  name : String := ""
  port : ℤ
  targetPort : ℤ := 0
  protocol : String := ""
  nodePort : ℤ := 0
  deriving DecidableEq, Repr

def ServiceSpec.target (s : ServiceSpec) : ℤ := if s.targetPort = 0 then s.port else s.targetPort

def ServiceSpec.proto (s : ServiceSpec) : String := if s.protocol = "" then "tcp" else s.protocol

structure IngressSpec where
  host : String
  service : String := ""
  deriving DecidableEq, Repr

structure App where
  name : String
  workload : WorkloadSpec
  service : Option ServiceSpec := none
  services : List ServiceSpec := []
  ingress : Option IngressSpec := none
  ingresses : List IngressSpec := []

/-- A bundle lowered to the resources the control plane accepts. -/
structure Resolved where
  workload : Workload
  services : List Service
  ingresses : List Ingress

def validateVolumes (vols : List Volume) : Except String Unit := checkVolumes "" [] vols

namespace App

def resolveWorkload (a : App) : Except String Workload :=
  let w := a.workload
  let replicas := w.count
  let volumes := w.volumes.getD []
  if w.image = "" then .error "workload.image is required"
  else if w.replicas < 0 then .error s!"workload.replicas must be >= 0 (got {w.replicas})"
  else if w.maxUnavailable < 0 then
    .error s!"workload.max_unavailable must be >= 0 (got {w.maxUnavailable})"
  else if volumes.length > 0 ∧ replicas > 1 then
    .error "workload with volumes must have replicas: 1 (single writer)"
  else
    match validateVolumes volumes with
    | .error e => .error e
    | .ok () => .ok {
        id := a.name
        image := w.image
        args := w.args
        env := w.env
        resources := w.resources
        replicas := replicas
        maxUnavailable := w.maxUnavail
        volumes := w.volumes
        ports := w.ports
        healthCheck := w.healthCheck }

/-- The name of the `i`-th service: only the singular form may leave it to the app. -/
def serviceName (a : App) (singular : Bool) (i : ℕ) (s : ServiceSpec) : Except String String :=
  if s.name = "" then
    if singular then .ok a.name else .error s!"services[{i}].name is required in list mode"
  else .ok s.name

def resolveService (a : App) (singular : Bool) (i : ℕ) (seen : List String) (s : ServiceSpec) :
    Except String Service :=
  match a.serviceName singular i s with
  | .error e => .error e
  | .ok name =>
    let proto := s.proto
    if ¬ nameRe name then .error s!"service name {quote name} must match [a-z0-9-]+"
    else if name ∈ seen then .error s!"duplicate service name {quote name}"
    else if s.port ≤ 0 then .error s!"service {quote name}: port is required"
    else if proto ≠ "tcp" ∧ proto ≠ "udp" then
      .error s!"service {quote name}: protocol {quote proto} must be tcp or udp"
    else .ok {
      name := name
      workloadID := a.name
      port := s.port
      targetPort := s.target
      protocol := proto
      nodePort := s.nodePort }

def resolveServicesFrom (a : App) (singular : Bool) :
    ℕ → List String → List ServiceSpec → Except String (List Service)
  | _, _, [] => .ok []
  | i, seen, s :: specs =>
    match a.resolveService singular i seen s with
    | .error e => .error e
    | .ok svc =>
      match resolveServicesFrom a singular (i + 1) (svc.name :: seen) specs with
      | .error e => .error e
      | .ok out => .ok (svc :: out)

def serviceSpecs (a : App) : List ServiceSpec :=
  match a.service with
  | some s => [s]
  | none => a.services

def resolveServices (a : App) : Except String (List Service) :=
  a.resolveServicesFrom a.service.isSome 0 [] a.serviceSpecs

def resolveIngress (svcs : List Service) (i : ℕ) (spec : IngressSpec) : Except String Ingress :=
  if spec.host = "" then .error s!"ingresses[{i}].host is required"
  else if spec.service = "" then
    match svcs with
    | [svc] => .ok ⟨spec.host, svc.name⟩
    | _ => .error s!"ingress {quote spec.host}: service is required unless the app declares exactly one service (has {svcs.length})"
  else if spec.service ∉ svcs.map Service.name then
    .error s!"ingress {quote spec.host}: service {quote spec.service} is not declared in this app"
  else .ok ⟨spec.host, spec.service⟩

def resolveIngressesFrom (svcs : List Service) : ℕ → List IngressSpec → Except String (List Ingress)
  | _, [] => .ok []
  | i, spec :: specs =>
    match resolveIngress svcs i spec with
    | .error e => .error e
    | .ok ing =>
      match resolveIngressesFrom svcs (i + 1) specs with
      | .error e => .error e
      | .ok out => .ok (ing :: out)

def ingressSpecs (a : App) : List IngressSpec :=
  match a.ingress with
  | some s => [s]
  | none => a.ingresses

def resolveIngresses (a : App) (svcs : List Service) : Except String (List Ingress) :=
  resolveIngressesFrom svcs 0 a.ingressSpecs

def resolve (a : App) : Except String Resolved :=
  if a.name = "" then .error "name is required"
  else if ¬ nameRe a.name then .error s!"name {quote a.name} must match [a-z0-9-]+"
  else if a.service.isSome ∧ a.services.length > 0 then
    .error "set either service or services, not both"
  else if a.ingress.isSome ∧ a.ingresses.length > 0 then
    .error "set either ingress or ingresses, not both"
  else
    match a.resolveWorkload with
    | .error e => .error e
    | .ok wl =>
      match a.resolveServices with
      | .error e => .error e
      | .ok svcs =>
        match a.resolveIngresses svcs with
        | .error e => .error e
        | .ok ings => .ok ⟨wl, svcs, ings⟩

variable {a : App} {r : Resolved}

/-- What `resolveService` makes of a section. -/
structure Lowered (a : App) (spec : ServiceSpec) (svc : Service) : Prop where
  name : nameRe svc.name
  workloadID : svc.workloadID = a.name
  port : svc.port = spec.port
  positive : 0 < spec.port
  targetPort : svc.targetPort = spec.target
  protocol : svc.protocol = "tcp" ∨ svc.protocol = "udp"

theorem resolveService_lowered {singular : Bool} {i : ℕ} {seen : List String} {spec : ServiceSpec}
    {svc : Service} (h : a.resolveService singular i seen spec = .ok svc) :
    Lowered a spec svc ∧ svc.name ∉ seen := by
  unfold resolveService at h
  split at h
  · exact absurd h (by simp)
  · rename_i name _
    simp only at h
    split_ifs at h with hname hseen hport hproto
    obtain rfl := Except.ok.inj h
    refine ⟨⟨hname, rfl, rfl, by omega, rfl, ?_⟩, hseen⟩
    rw [not_and_or, not_not, not_not] at hproto
    exact hproto

theorem resolveServicesFrom_lowered {singular : Bool} {i : ℕ} {seen : List String}
    {specs : List ServiceSpec} {svcs : List Service}
    (h : a.resolveServicesFrom singular i seen specs = .ok svcs) :
    (∀ spec ∈ specs, ∃ svc ∈ svcs, Lowered a spec svc) ∧
      ∀ svc ∈ svcs, ∃ spec ∈ specs, Lowered a spec svc := by
  induction specs generalizing i seen svcs with
  | nil =>
    obtain rfl := Except.ok.inj h
    simp
  | cons spec specs ih =>
    unfold resolveServicesFrom at h
    split at h
    · exact absurd h (by simp)
    · rename_i svc hsvc
      split at h
      · exact absurd h (by simp)
      · rename_i out hout
        obtain rfl := Except.ok.inj h
        obtain ⟨hl, hr⟩ := ih hout
        have hlow := (resolveService_lowered hsvc).1
        constructor
        · refine List.forall_mem_cons.mpr ⟨⟨svc, List.mem_cons_self, hlow⟩, fun d hd => ?_⟩
          obtain ⟨svc', hmem, hlow'⟩ := hl d hd
          exact ⟨svc', List.mem_cons_of_mem _ hmem, hlow'⟩
        · refine List.forall_mem_cons.mpr ⟨⟨spec, List.mem_cons_self, hlow⟩, fun d hd => ?_⟩
          obtain ⟨spec', hmem, hlow'⟩ := hr d hd
          exact ⟨spec', List.mem_cons_of_mem _ hmem, hlow'⟩

theorem resolveIngress_refers {svcs : List Service} {i : ℕ} {spec : IngressSpec} {ing : Ingress}
    (h : resolveIngress svcs i spec = .ok ing) :
    ing.host ≠ "" ∧ ing.service ∈ svcs.map Service.name := by
  unfold resolveIngress at h
  split_ifs at h with hhost hservice hdeclared
  · split at h
    · obtain rfl := Except.ok.inj h
      exact ⟨hhost, by simp⟩
    · exact absurd h (by simp)
  · obtain rfl := Except.ok.inj h
    exact ⟨hhost, hdeclared⟩

theorem resolveIngressesFrom_refers {svcs : List Service} {i : ℕ} {specs : List IngressSpec}
    {ings : List Ingress} (h : resolveIngressesFrom svcs i specs = .ok ings) :
    ∀ ing ∈ ings, ing.host ≠ "" ∧ ing.service ∈ svcs.map Service.name := by
  induction specs generalizing i ings with
  | nil =>
    obtain rfl := Except.ok.inj h
    simp
  | cons spec specs ih =>
    unfold resolveIngressesFrom at h
    split at h
    · exact absurd h (by simp)
    · rename_i ing hing
      split at h
      · exact absurd h (by simp)
      · rename_i out hout
        obtain rfl := Except.ok.inj h
        exact List.forall_mem_cons.mpr ⟨resolveIngress_refers hing, ih hout⟩

theorem resolve_parts (h : a.resolve = .ok r) :
    nameRe a.name ∧ a.resolveWorkload = .ok r.workload ∧ a.resolveServices = .ok r.services ∧
      a.resolveIngresses r.services = .ok r.ingresses := by
  unfold resolve at h
  split_ifs at h with hempty hname hservice hingress
  cases hw : a.resolveWorkload with
  | error e => simp [hw] at h
  | ok wl =>
    cases hs : a.resolveServices with
    | error e => simp [hw, hs] at h
    | ok svcs =>
      cases hi : a.resolveIngresses svcs with
      | error e => simp [hw, hs, hi] at h
      | ok ings =>
        simp only [hw, hs, hi] at h
        obtain rfl := Except.ok.inj h
        exact ⟨hname, rfl, rfl, hi⟩

theorem resolveWorkload_accepted {wl : Workload} (h : a.resolveWorkload = .ok wl) :
    wl.id = a.name ∧ wl.image ≠ "" ∧ validateWorkload wl = .ok () := by
  unfold resolveWorkload at h
  simp only at h
  split_ifs at h with himage hneg hunavail hvolumes
  split at h
  · exact absurd h (by simp)
  · rename_i hvalid
    obtain rfl := Except.ok.inj h
    refine ⟨rfl, himage, ?_⟩
    unfold validateWorkload
    split_ifs with hlen hreplicas
    · rfl
    · exact absurd ⟨Nat.pos_of_ne_zero hlen, hreplicas⟩ hvolumes
    · exact checkVolumes_context hvalid

theorem ne_empty_of_nameRe {s : String} (h : nameRe s) : s ≠ "" := by
  rintro rfl
  exact absurd h (by decide)

/-- A lowered service passes the checks of the store unless its target port is negative. -/
theorem Lowered.valid_iff {spec : ServiceSpec} {svc : Service} (h : Lowered a spec svc)
    (ha : a.name ≠ "") : ServiceStore.Valid svc ↔ 0 ≤ spec.targetPort := by
  have hpos := h.positive
  have htarget := h.targetPort
  unfold ServiceSpec.target at htarget
  constructor
  · intro hv
    have := hv.targetPort
    split_ifs at htarget
    · omega
    · omega
  · intro hnn
    refine ⟨ne_empty_of_nameRe h.name, h.workloadID ▸ ha, h.port ▸ hpos, ?_⟩
    rw [htarget]
    split_ifs
    · exact hpos
    · omega

/-- What `resolve` accepts, the control plane accepts, up to negative target ports. -/
theorem resolved_accepted_iff (a : App) (r : Resolved) (h : a.resolve = .ok r) :
    (validateWorkload r.workload = .ok () ∧
      (∀ st : Store, ∃ st', st.add r.workload = .ok st') ∧
      (∀ svc ∈ r.services, ∃ svc', ServiceStore.validate svc = .ok svc') ∧
      ∀ ing ∈ r.ingresses, ∀ st : IngressStore, ∃ st', st.add ing = .ok st') ↔
    ∀ spec ∈ a.serviceSpecs, 0 ≤ spec.targetPort := by
  obtain ⟨hname, hw, hs, hi⟩ := resolve_parts h
  have ha := ne_empty_of_nameRe hname
  obtain ⟨hdown, hup⟩ := resolveServicesFrom_lowered hs
  constructor
  · rintro ⟨-, -, hsvc, -⟩ spec hspec
    obtain ⟨svc, hmem, hlow⟩ := hdown spec hspec
    obtain ⟨svc', hok⟩ := hsvc svc hmem
    exact (hlow.valid_iff ha).mp (ServiceStore.valid_of_validate hok)
  · intro hnn
    obtain ⟨hid, himage, hvalid⟩ := resolveWorkload_accepted hw
    refine ⟨hvalid, fun st => ?_, fun svc hmem => ?_, fun ing hmem st => ?_⟩
    · rw [Store.add, dif_neg (hid ▸ ha), dif_neg himage]
      exact ⟨_, rfl⟩
    · obtain ⟨spec, hspec, hlow⟩ := hup svc hmem
      exact ⟨_, ServiceStore.validate_valid ((hlow.valid_iff ha).mpr (hnn spec hspec))⟩
    · obtain ⟨hhost, hservice⟩ := resolveIngressesFrom_refers hi ing hmem
      obtain ⟨svc, hsvc, hne⟩ := List.mem_map.mp hservice
      obtain ⟨spec, -, hlow⟩ := hup svc hsvc
      rw [IngressStore.add, if_neg hhost, if_neg (hne ▸ ne_empty_of_nameRe hlow.name)]
      exact ⟨_, rfl⟩

def web (targetPort : ℤ) : App where
  name := "web"
  workload := { image := "nginx" }
  service := some { port := 80, targetPort := targetPort }
  ingress := some { host := "web.lan" }

theorem resolved_accepted_iff_web :
    ∃ r, (web 8080).resolve = .ok r ∧
      ∀ svc ∈ r.services, ∃ svc', ServiceStore.validate svc = .ok svc' := by
  have hr : ∃ r, (web 8080).resolve = .ok r := ⟨_, rfl⟩
  obtain ⟨r, hr⟩ := hr
  exact ⟨r, hr, ((resolved_accepted_iff (web 8080) r hr).mpr (by decide)).2.2.1⟩

/-- A negative target port resolves, and the service store refuses it. -/
theorem negative_target_port_refused :
    ∃ r, (web (-1)).resolve = .ok r ∧ validateWorkload r.workload = .ok () ∧
      ∃ svc ∈ r.services, ServiceStore.validate svc =
        .error "service web: port and target_port must be positive" := by
  refine ⟨_, rfl, rfl, _, List.mem_cons_self, ?_⟩
  decide +kernel

end App
end Smith
