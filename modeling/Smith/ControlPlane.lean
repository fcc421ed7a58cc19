import Smith.DesiredState
import Smith.ServiceStore

set_option autoImplicit false

/-!
# The stores behind the API

Workloads, services and ingresses are stored by the control plane under their keys. A
request that passes the checks of its handler and of its store writes one row. Apart from
the addresses of services, what the stores hold is a function of the requests: the view.
-/
namespace Smith
open FiniteMaps Std

structure Ingress where
  host : String
  service : String
  deriving DecidableEq, Repr

@[ext]
structure IngressStore where
  rows : GoMap String

namespace IngressStore

def add (s : IngressStore) (ing : Ingress) : Except String IngressStore :=
  if ing.host = "" then .error "ingress host cannot be empty"
  else if ing.service = "" then .error s!"ingress {ing.host}: service cannot be empty"
  else .ok ⟨s.rows.insert ing.host ing.service⟩

def remove (s : IngressStore) (host : String) : IngressStore := ⟨s.rows.erase host⟩

def list (s : IngressStore) : List Ingress := s.rows.toList.map fun e => ⟨e.1, e.2⟩

end IngressStore

def nameChar (c : Char) : Bool := ('a' ≤ c && c ≤ 'z') || c.isDigit || c == '-'

/-- The pattern `^[a-z0-9-]+$`. -/
def nameRe (s : String) : Bool := !s.toList.isEmpty && s.toList.all nameChar

/-- One character of a `%q` text. Characters above ASCII are taken as printable. -/
def quoteChar (c : Char) : String :=
  if c = '"' then "\\\""
  else if c = '\\' then "\\\\"
  else if c = '\n' then "\\n"
  else if c = '\t' then "\\t"
  else if c = '\r' then "\\r"
  else if c.toNat = 7 then "\\a"
  else if c.toNat = 8 then "\\b"
  else if c.toNat = 11 then "\\v"
  else if c.toNat = 12 then "\\f"
  else if c.toNat < 32 ∨ c.toNat = 127 then
    "\\x" ++ String.ofList [Nat.digitChar (c.toNat / 16), Nat.digitChar (c.toNat % 16)]
  else c.toString

/-- The `%q` verb on strings. -/
def quote (s : String) : String := "\"" ++ String.join (s.toList.map quoteChar) ++ "\""

/-- The volume checks of the bundle resolver and of the API, which differ in the text put in
    front of their errors. -/
def checkVolumes (context : String) : List String → List Volume → Except String Unit
  | _, [] => .ok ()
  | seen, v :: vols =>
    if ¬ nameRe v.name then
      .error s!"{context}volume name {quote v.name} must match [a-z0-9-]+"
    else if v.name ∈ seen then .error s!"{context}duplicate volume name {quote v.name}"
    else if v.path.toList.head? ≠ some '/' then
      .error s!"{context}volume {quote v.name} path {quote v.path} must be absolute"
    else checkVolumes context (v.name :: seen) vols

def validateWorkload (wl : Workload) : Except String Unit :=
  if (wl.volumes.getD []).length = 0 then .ok ()
  else if wl.replicas > 1 then
    .error s!"workload {wl.id} has volumes and so is limited to 1 replica (got {wl.replicas})"
  else checkVolumes s!"workload {wl.id}: " [] (wl.volumes.getD [])

theorem checkVolumes_context {context context' : String} {seen : List String} {vols : List Volume}
    (h : checkVolumes context seen vols = .ok ()) : checkVolumes context' seen vols = .ok () := by
  induction vols generalizing seen with
  | nil => rfl
  | cons v vols ih =>
    unfold checkVolumes at h ⊢
    split_ifs at h ⊢
    exact ih h

structure Stores where
  workloads : Store
  services : ServiceStore
  ingresses : IngressStore

inductive Request where
  | applyWorkload (w : Workload)
  | applyService (s : Service)
  | applyIngress (ing : Ingress)
  | deleteIngress (host : String)
  | deleteService (name : String)
  | deleteWorkload (id : String)

/-- The handlers of the API. -/
def Request.exec : Request → Stores → Except String Stores
  | .applyWorkload w, st =>
    match validateWorkload w with
    | .error e => .error e
    | .ok () =>
      match st.workloads.add w with
      | .error e => .error s!"add workload: {e}"
      | .ok workloads => .ok { st with workloads := workloads }
  | .applyService s, st =>
    match st.services.add s with
    | (_, .error e) => .error s!"add service: {e}"
    | (services, .ok _) => .ok { st with services := services }
  | .applyIngress ing, st =>
    match st.ingresses.add ing with
    | .error e => .error s!"add ingress: {e}"
    | .ok ingresses => .ok { st with ingresses := ingresses }
  | .deleteIngress host, st => .ok { st with ingresses := st.ingresses.remove host }
  | .deleteService name, st => .ok { st with services := st.services.remove name }
  | .deleteWorkload id, st => .ok { st with workloads := st.workloads.remove id }

/-- What a service declares; the control plane adds its addresses. -/
structure ServiceContent where
  workloadID : String
  port : ℤ
  targetPort : ℤ
  protocol : String
  deriving DecidableEq, Repr

def Service.content (svc : Service) : ServiceContent :=
  ⟨svc.workloadID, svc.port, svc.targetPort, svc.protocol⟩

def Service.allocation (svc : Service) : String × ℤ := (svc.clusterIP, svc.nodePort)

namespace ServiceStore

def contents (s : ServiceStore) : GoMap ServiceContent := s.rows.map fun _ svc => svc.content

def allocations (s : ServiceStore) : GoMap (String × ℤ) := s.rows.map fun _ svc => svc.allocation

theorem lookup_contents (s : ServiceStore) (n : String) :
    s.contents[n]? = s.rows[n]?.map Service.content := by
  simp [contents]

theorem lookup_allocations (s : ServiceStore) (n : String) :
    s.allocations[n]? = s.rows[n]?.map Service.allocation := by
  simp [allocations]

/-- A row is its name, its content and its allocation. -/
theorem rows_eq {s s' : ServiceStore} (hc : s.contents = s'.contents)
    (ha : s.allocations = s'.allocations) : s.rows = s'.rows := by
  apply ExtTreeMap.ext_getElem?
  intro n
  have hcn := congrArg (fun t : GoMap ServiceContent => t[n]?) hc
  have han := congrArg (fun t : GoMap (String × ℤ) => t[n]?) ha
  simp only [lookup_contents, lookup_allocations] at hcn han
  cases hx : s.rows[n]? with
  | none =>
    rw [hx] at hcn
    exact (Option.map_eq_none_iff.mp hcn.symm).symm
  | some x =>
    cases hy : s'.rows[n]? with
    | none => simp [hx, hy] at hcn
    | some y =>
      have hname := (s.named n x hx).trans (s'.named n y hy).symm
      obtain ⟨xn, xw, xp, xt, xr, xc, xo⟩ := x
      obtain ⟨yn, yw, yp, yt, yr, yc, yo⟩ := y
      simp only [hx, hy, Option.map_some, Option.some.injEq, Service.content, Service.allocation,
        ServiceContent.mk.injEq, Prod.mk.injEq] at hcn han
      simp_all

theorem contents_add {s : ServiceStore} {svc stored : Service} (h : (s.add svc).2 = .ok stored) :
    (s.add svc).1.contents = s.contents.insert svc.name (defaulted svc).content := by
  apply ExtTreeMap.ext_getElem?
  intro n
  obtain ⟨e, he⟩ | ⟨-, -, ⟨row, hrow, hrows⟩ | ⟨ip, port, -, -, hrows⟩⟩ := add_cases s svc
  · rw [he] at h
    exact absurd h (by simp)
  all_goals
    rw [lookup_contents, hrows, lookup_insert, lookup_insert, lookup_contents]
    split_ifs
    · rfl
    · rfl

theorem allocations_add {s : ServiceStore} {svc : Service} (h : s.rows[svc.name]? ≠ none) :
    (s.add svc).1.allocations = s.allocations := by
  obtain ⟨row, hrow⟩ := Option.ne_none_iff_exists'.mp h
  obtain ⟨⟨row', hrow', hip, hport⟩, hother⟩ := add_keeps hrow
  apply ExtTreeMap.ext_getElem?
  intro n
  rw [lookup_allocations, lookup_allocations]
  by_cases hn : n = svc.name
  · subst hn
    simp [hrow, hrow', Service.allocation, hip, hport]
  · rw [hother n hn]

theorem contents_remove (s : ServiceStore) (name : String) :
    (s.remove name).contents = s.contents.erase name := by
  apply ExtTreeMap.ext_getElem?
  intro n
  rw [lookup_contents, remove, lookup_erase, lookup_erase, lookup_contents]
  split_ifs
  · rfl
  · rfl

end ServiceStore

/-- The stores without the addresses of services. -/
structure View where
  workloads : GoMap Workload
  services : GoMap ServiceContent
  ingresses : GoMap String

def Stores.view (st : Stores) : View := ⟨st.workloads.list, st.services.contents, st.ingresses.rows⟩

/-- What an accepted request does to the view. -/
def Request.effect : Request → View → View
  | .applyWorkload w, v => { v with workloads := v.workloads.insert w.id w }
  | .applyService s, v =>
    { v with services := v.services.insert s.name (ServiceStore.defaulted s).content }
  | .applyIngress ing, v => { v with ingresses := v.ingresses.insert ing.host ing.service }
  | .deleteIngress host, v => { v with ingresses := v.ingresses.erase host }
  | .deleteService name, v => { v with services := v.services.erase name }
  | .deleteWorkload id, v => { v with workloads := v.workloads.erase id }

/-- The handlers refine the effects on the view. -/
theorem Request.exec_view {c : Request} {st st' : Stores} (h : c.exec st = .ok st') :
    st'.view = c.effect st.view := by
  cases c with
  | applyWorkload w =>
    simp only [exec] at h
    split at h
    · exact absurd h (by simp)
    · split at h
      · exact absurd h (by simp)
      · rename_i hadd
        obtain rfl := Except.ok.inj h
        simp only [Stores.view, effect, Store.list_add hadd]
  | applyService s =>
    simp only [exec] at h
    split at h
    · exact absurd h (by simp)
    · rename_i services stored hadd
      obtain rfl := Except.ok.inj h
      have hok : (st.services.add s).2 = .ok stored := by rw [hadd]
      have hcontents := ServiceStore.contents_add hok
      rw [hadd] at hcontents
      simp only [Stores.view, effect, hcontents]
  | applyIngress ing =>
    simp only [exec] at h
    split at h
    · exact absurd h (by simp)
    · rename_i ingresses hadd
      obtain rfl := Except.ok.inj h
      unfold IngressStore.add at hadd
      split_ifs at hadd
      simp only [Stores.view, effect, ← Except.ok.inj hadd]
  | deleteIngress host =>
    obtain rfl := Except.ok.inj h
    rfl
  | deleteService name =>
    obtain rfl := Except.ok.inj h
    simp only [Stores.view, effect, ServiceStore.contents_remove]
  | deleteWorkload id =>
    obtain rfl := Except.ok.inj h
    rfl

end Smith
