import Smith.IPv4
import Smith.Leases
import Smith.Runs
import Smith.Types

set_option autoImplicit false

/-!
# Services and their addresses

The service store gives each service a ClusterIP and a NodePort and keeps them while the
service exists. Its table is keyed by name with two unique columns. Stored addresses are
text, so the search for a free one reads them back as numbers.
-/
namespace Smith
open FiniteMaps IPv4 Leases Runs Std

structure Service where
  name : String
  workloadID : String
  port : ℤ
  targetPort : ℤ
  protocol : String := ""
  clusterIP : String := ""
  nodePort : ℤ := 0
  deriving DecidableEq, Repr

def Service.withAllocation (svc : Service) (ip : String) (port : ℤ) : Service :=
  { svc with clusterIP := ip, nodePort := port }

/-- The `services` table: its primary key and its two unique columns. -/
@[ext]
structure ServiceStore where
  rows : GoMap Service
  named : ∀ (n : String) (svc : Service), rows[n]? = some svc → svc.name = n
  distinctIP : Distinct Service.clusterIP rows
  distinctPort : Distinct Service.nodePort rows

namespace ServiceStore

def new : ServiceStore := ⟨∅, by simp, distinct_empty, distinct_empty⟩

def serviceCIDR : String := "10.23.0.0/16"
def nodePortMin : ℤ := 30000
def nodePortMax : ℤ := 32767

def svcBase : ℕ := (10 * 256 + 23) * 256 * 256

def clusterIPs : List ℕ := (List.range' 1 65534).map fun i => svcBase + i

def nodePorts : List ℤ := (List.range 2768).map fun i : ℕ => nodePortMin + i

def defaulted (svc : Service) : Service :=
  { svc with protocol := if svc.protocol = "" then "tcp" else svc.protocol }

def validate (svc : Service) : Except String Service :=
  if svc.name = "" then .error "service name cannot be empty"
  else if svc.workloadID = "" then .error s!"service {svc.name}: workload_id cannot be empty"
  else if svc.port ≤ 0 ∨ svc.targetPort ≤ 0 then
    .error s!"service {svc.name}: port and target_port must be positive"
  else .ok (defaulted svc)

def usedIPs (s : ServiceStore) : List ℕ :=
  (held Service.clusterIP s.rows).filterMap fun ip => (parse ip).map Addr.toNat

def allocate (s : ServiceStore) : Except String (String × ℤ) :=
  match lowestFree clusterIPs s.usedIPs with
  | none => .error "ClusterIP pool exhausted"
  | some cand =>
    match lowestFree nodePorts (held Service.nodePort s.rows) with
    | none => .error "NodePort range exhausted"
    | some port => .ok ((Addr.ofNat cand).text, port)

/-- The row that `ON CONFLICT(name) DO UPDATE` leaves: the allocation is not among the columns
    it sets. -/
def updated (row svc : Service) : Service :=
  { row with
    workloadID := svc.workloadID
    port := svc.port
    targetPort := svc.targetPort
    protocol := svc.protocol }

theorem named_insert {rows : GoMap Service}
    (h : ∀ (n : String) (svc : Service), rows[n]? = some svc → svc.name = n) {k : String}
    {row : Service} (hk : row.name = k) (n : String) (svc : Service)
    (hr : (rows.insert k row)[n]? = some svc) : svc.name = n := by
  rw [lookup_insert] at hr
  split_ifs at hr with hn
  · rw [← Option.some.inj hr]
    exact hk.trans hn
  · exact h n svc hr

def upsert (s : ServiceStore) (svc : Service) : Except String ServiceStore :=
  match hrow : s.rows[svc.name]? with
  | some row => .ok {
      rows := s.rows.insert svc.name (updated row svc)
      named := named_insert s.named (s.named svc.name row hrow)
      distinctIP := s.distinctIP.replace hrow rfl
      distinctPort := s.distinctPort.replace hrow rfl }
  | none =>
    if hip : svc.clusterIP ∈ held Service.clusterIP s.rows then
      .error "UNIQUE constraint failed: services.cluster_ip"
    else if hport : svc.nodePort ∈ held Service.nodePort s.rows then
      .error "UNIQUE constraint failed: services.node_port"
    else .ok {
      rows := s.rows.insert svc.name svc
      named := named_insert s.named rfl
      distinctIP := s.distinctIP.insert hip
      distinctPort := s.distinctPort.insert hport }

def add (s : ServiceStore) (svc : Service) : ServiceStore × Except String Service :=
  match validate svc with
  | .error e => (s, .error e)
  | .ok svc =>
    let allocation : Except String (String × ℤ) := match s.rows[svc.name]? with
      | some row => .ok (row.clusterIP, row.nodePort)
      | none => s.allocate
    match allocation with
    | .error e => (s, .error e)
    | .ok (ip, port) =>
      let svc := svc.withAllocation ip port
      match s.upsert svc with
      | .error e => (s, .error s!"upsert service {svc.name}: {e}")
      | .ok s' => (s', .ok svc)

def remove (s : ServiceStore) (name : String) : ServiceStore where
  rows := s.rows.erase name
  named n svc h := by
    rw [lookup_erase] at h
    split_ifs at h
    exact s.named n svc h
  distinctIP := s.distinctIP.erase name
  distinctPort := s.distinctPort.erase name

def list (s : ServiceStore) : List Service := s.rows.toList.map Prod.snd

theorem mem_list {s : ServiceStore} {svc : Service} :
    svc ∈ s.list ↔ s.rows[svc.name]? = some svc := by
  simp only [list, List.mem_map, Prod.exists, exists_eq_right,
    ExtTreeMap.mem_toList_iff_getElem?_eq_some]
  constructor
  · rintro ⟨n, hrow⟩
    rw [s.named n svc hrow]
    exact hrow
  · exact fun h => ⟨svc.name, h⟩

inductive Op where
  | add (svc : Service)
  | remove (name : String)
  deriving DecidableEq

def step (s : ServiceStore) : Op → ServiceStore
  | .add svc => (s.add svc).1
  | .remove name => s.remove name

theorem parseCIDR_serviceCIDR : parseCIDR serviceCIDR = some ⟨.ofNat svcBase, 16⟩ := by
  decide +kernel

/-- What `Add` asks of a service. -/
structure Valid (svc : Service) : Prop where
  name : svc.name ≠ ""
  workloadID : svc.workloadID ≠ ""
  port : 0 < svc.port
  targetPort : 0 < svc.targetPort

variable {s : ServiceStore} {svc : Service}

theorem validate_valid (h : Valid svc) : validate svc = .ok (defaulted svc) := by
  have hports : ¬ (svc.port ≤ 0 ∨ svc.targetPort ≤ 0) := by
    have := h.port
    have := h.targetPort
    omega
  rw [validate, if_neg h.name, if_neg h.workloadID, if_neg hports]

theorem valid_of_validate {svc' : Service} (h : validate svc = .ok svc') : Valid svc := by
  unfold validate at h
  split_ifs at h with hname hid hports
  rw [not_or] at hports
  exact ⟨hname, hid, by omega, by omega⟩

theorem mem_nodePorts {p : ℤ} : p ∈ nodePorts ↔ nodePortMin ≤ p ∧ p ≤ nodePortMax := by
  simp only [nodePorts, List.mem_map, List.mem_range, nodePortMin, nodePortMax]
  constructor
  · rintro ⟨i, hi, rfl⟩
    omega
  · rintro ⟨hlo, hhi⟩
    exact ⟨(p - 30000).toNat, by omega, by omega⟩

theorem nodup_nodePorts : nodePorts.Nodup :=
  List.nodup_range.map fun i j h => by simpa using h

theorem length_nodePorts : nodePorts.length = 2768 := by
  simp [nodePorts]

theorem mem_clusterIPs {c : ℕ} : c ∈ clusterIPs ↔ svcBase < c ∧ c ≤ svcBase + 65534 := by
  simp only [clusterIPs, List.mem_map, List.mem_range'_1]
  constructor
  · rintro ⟨i, hi, rfl⟩
    omega
  · rintro ⟨hlo, hhi⟩
    exact ⟨c - svcBase, by omega, by omega⟩

theorem nodup_clusterIPs : clusterIPs.Nodup :=
  List.Nodup.map (fun i j h => by simpa using h) List.nodup_range'

theorem length_clusterIPs : clusterIPs.length = 65534 := by
  simp [clusterIPs]

/-- A candidate address prints as text that reads back as the candidate. -/
theorem parse_candidate {c : ℕ} (h : c ∈ clusterIPs) :
    (parse (Addr.ofNat c).text).map Addr.toNat = some c := by
  have hbase : svcBase + 65534 < 2 ^ 32 := by decide
  have hc := mem_clusterIPs.mp h
  rw [parse_text, Option.map_some, Addr.toNat_ofNat (by omega)]

theorem mem_usedIPs {c : ℕ} : c ∈ s.usedIPs ↔
    ∃ (n : String) (svc : Service), s.rows[n]? = some svc ∧
      (parse svc.clusterIP).map Addr.toNat = some c := by
  simp only [usedIPs, List.mem_filterMap, mem_held]
  constructor
  · rintro ⟨-, ⟨n, svc, hrow, rfl⟩, hc⟩
    exact ⟨n, svc, hrow, hc⟩
  · rintro ⟨n, svc, hrow, hc⟩
    exact ⟨_, ⟨n, svc, hrow, rfl⟩, hc⟩

theorem allocate_ok {ip : String} {port : ℤ} (h : s.allocate = .ok (ip, port)) :
    (∃ c ∈ clusterIPs, ip = (Addr.ofNat c).text) ∧ ip ∉ held Service.clusterIP s.rows ∧
      port ∈ nodePorts ∧ port ∉ held Service.nodePort s.rows := by
  unfold allocate at h
  cases hc : lowestFree clusterIPs s.usedIPs with
  | none => simp [hc] at h
  | some c =>
    cases hp : lowestFree nodePorts (held Service.nodePort s.rows) with
    | none => simp [hc, hp] at h
    | some p =>
      simp only [hc, hp, Except.ok.injEq, Prod.mk.injEq] at h
      obtain ⟨rfl, rfl⟩ := h
      obtain ⟨hmem, hunused⟩ := mem_of_lowestFree hc
      refine ⟨⟨c, hmem, rfl⟩, fun hheld => ?_, mem_of_lowestFree hp⟩
      obtain ⟨n, svc, hrow, hip⟩ := mem_held.mp hheld
      exact hunused (mem_usedIPs.mpr ⟨n, svc, hrow, hip ▸ parse_candidate hmem⟩)

theorem upsert_existing {row : Service} (hrow : s.rows[svc.name]? = some row) :
    ∃ s', s.upsert svc = .ok s' ∧ s'.rows = s.rows.insert svc.name (updated row svc) := by
  unfold upsert
  split
  · rename_i row' hrow'
    obtain rfl := Option.some.inj (hrow.symm.trans hrow')
    exact ⟨_, rfl, rfl⟩
  · rename_i hnone
    exact absurd (hnone.symm.trans hrow) (Option.some_ne_none row).symm

theorem upsert_new (hrow : s.rows[svc.name]? = none)
    (hip : svc.clusterIP ∉ held Service.clusterIP s.rows)
    (hport : svc.nodePort ∉ held Service.nodePort s.rows) :
    ∃ s', s.upsert svc = .ok s' ∧ s'.rows = s.rows.insert svc.name svc := by
  unfold upsert
  split
  · rename_i row hsome
    exact absurd (hrow.symm.trans hsome) (Option.some_ne_none row).symm
  · rw [dif_neg hip, dif_neg hport]
    exact ⟨_, rfl, rfl⟩

theorem add_existing (h : Valid svc) {row : Service} (hrow : s.rows[svc.name]? = some row) :
    (s.add svc).1.rows = s.rows.insert svc.name (updated row (defaulted svc)) ∧
      (s.add svc).2 = .ok ((defaulted svc).withAllocation row.clusterIP row.nodePort) := by
  obtain ⟨s', he, hs'⟩ := @upsert_existing s
    ((defaulted svc).withAllocation row.clusterIP row.nodePort) row hrow
  have hname : (defaulted svc).name = svc.name := rfl
  simp only [add, validate_valid h, hname, hrow, he]
  exact ⟨hs', trivial⟩

theorem add_new (h : Valid svc) (hrow : s.rows[svc.name]? = none) {ip : String} {port : ℤ}
    (ha : s.allocate = .ok (ip, port)) :
    (s.add svc).1.rows =
        s.rows.insert svc.name ((defaulted svc).withAllocation ip port) ∧
      (s.add svc).2 = .ok ((defaulted svc).withAllocation ip port) := by
  obtain ⟨-, hip, -, hport⟩ := allocate_ok ha
  obtain ⟨s', he, hs'⟩ := @upsert_new s ((defaulted svc).withAllocation ip port) hrow hip hport
  have hname : (defaulted svc).name = svc.name := rfl
  simp only [add, validate_valid h, hname, hrow, ha, he]
  exact ⟨hs', trivial⟩

theorem add_exhausted (h : Valid svc) (hrow : s.rows[svc.name]? = none) {e : String}
    (ha : s.allocate = .error e) : s.add svc = (s, .error e) := by
  have hname : (defaulted svc).name = svc.name := rfl
  simp [add, validate_valid h, hname, hrow, ha]

theorem add_invalid (h : ¬ Valid svc) : ∃ e, s.add svc = (s, .error e) := by
  cases hv : validate svc with
  | error e => exact ⟨e, by simp [add, hv]⟩
  | ok svc' => exact absurd (valid_of_validate hv) h

theorem add_cases (s : ServiceStore) (svc : Service) :
    (∃ e, s.add svc = (s, .error e)) ∨
    Valid svc ∧ (∃ stored, (s.add svc).2 = .ok stored) ∧
      ((∃ row, s.rows[svc.name]? = some row ∧
        (s.add svc).1.rows = s.rows.insert svc.name (updated row (defaulted svc))) ∨
      ∃ ip port, s.rows[svc.name]? = none ∧ s.allocate = .ok (ip, port) ∧
        (s.add svc).1.rows =
          s.rows.insert svc.name ((defaulted svc).withAllocation ip port)) := by
  by_cases hv : Valid svc
  · cases hrow : s.rows[svc.name]? with
    | some row =>
      obtain ⟨hrows, hok⟩ := add_existing hv hrow
      exact .inr ⟨hv, ⟨_, hok⟩, .inl ⟨row, rfl, hrows⟩⟩
    | none =>
      cases ha : s.allocate with
      | error e => exact .inl ⟨e, add_exhausted hv hrow ha⟩
      | ok alloc =>
        obtain ⟨hrows, hok⟩ := add_new hv hrow ha
        exact .inr ⟨hv, ⟨_, hok⟩, .inr ⟨alloc.1, alloc.2, rfl, rfl, hrows⟩⟩
  · exact .inl (add_invalid hv)

theorem updated_eq {row : Service} (hname : row.name = svc.name) :
    updated row svc = svc.withAllocation row.clusterIP row.nodePort := by
  simp [updated, Service.withAllocation, hname]

theorem add_stored {stored : Service} (h : (s.add svc).2 = .ok stored) :
    (s.add svc).1.rows = s.rows.insert svc.name stored ∧
      ∃ ip port, stored = (defaulted svc).withAllocation ip port := by
  obtain ⟨e, he⟩ | ⟨hv, -, ⟨row, hrow, hrows⟩ | ⟨ip, port, hnew, ha, hrows⟩⟩ := add_cases s svc
  · rw [he] at h
    exact absurd h (by simp)
  · obtain rfl := Except.ok.inj (h.symm.trans (add_existing hv hrow).2)
    have hname : row.name = (defaulted svc).name := s.named svc.name row hrow
    exact ⟨updated_eq hname ▸ hrows, _, _, rfl⟩
  · obtain rfl := Except.ok.inj (h.symm.trans (add_new hv hnew ha).2)
    exact ⟨hrows, _, _, rfl⟩

/-- Every row has its address and port out of the two pools. -/
structure Sound (s : ServiceStore) : Prop where
  clusterIP : ∀ (n : String) (svc : Service), s.rows[n]? = some svc →
    ∃ c ∈ clusterIPs, svc.clusterIP = (Addr.ofNat c).text
  nodePort : ∀ (n : String) (svc : Service), s.rows[n]? = some svc → svc.nodePort ∈ nodePorts

theorem Sound.new : Sound ServiceStore.new := by
  have hnone : ∀ (n : String) (svc : Service), ServiceStore.new.rows[n]? ≠ some svc := by
    simp [ServiceStore.new]
  exact ⟨fun n svc h => absurd h (hnone n svc), fun n svc h => absurd h (hnone n svc)⟩

theorem Sound.insert (h : Sound s) {s' : ServiceStore} {k : String} {row : Service}
    (hs' : s'.rows = s.rows.insert k row)
    (hip : ∃ c ∈ clusterIPs, row.clusterIP = (Addr.ofNat c).text)
    (hport : row.nodePort ∈ nodePorts) : Sound s' := by
  refine ⟨fun n svc hr => ?_, fun n svc hr => ?_⟩
  all_goals
    rw [hs', lookup_insert] at hr
    split_ifs at hr
  · rw [← Option.some.inj hr]
    exact hip
  · exact h.clusterIP n svc hr
  · rw [← Option.some.inj hr]
    exact hport
  · exact h.nodePort n svc hr

theorem Sound.add (h : Sound s) (svc : Service) : Sound (s.add svc).1 := by
  obtain ⟨e, he⟩ | ⟨-, -, ⟨row, hrow, hrows⟩ | ⟨ip, port, -, ha, hrows⟩⟩ := add_cases s svc
  · rw [he]
    exact h
  · exact h.insert hrows (h.clusterIP svc.name row hrow) (h.nodePort svc.name row hrow)
  · obtain ⟨hip, -, hport, -⟩ := allocate_ok ha
    exact h.insert hrows hip hport

theorem Sound.remove (h : Sound s) (name : String) : Sound (s.remove name) := by
  have hrow : ∀ (n : String) (svc : Service), (s.remove name).rows[n]? = some svc →
      s.rows[n]? = some svc := by
    intro n svc hr
    rw [ServiceStore.remove, lookup_erase] at hr
    split_ifs at hr
    exact hr
  exact ⟨fun n svc hr => h.clusterIP n svc (hrow n svc hr),
    fun n svc hr => h.nodePort n svc (hrow n svc hr)⟩

theorem Sound.run (h : Sound s) (ops : List Op) : Sound (run step s ops) := by
  induction ops generalizing s with
  | nil => exact h
  | cons op ops ih =>
    cases op with
    | add svc => exact ih (h.add svc)
    | remove name => exact ih (h.remove name)

theorem Sound.mem_nodePorts_of_held (h : Sound s) :
    ∀ p ∈ held Service.nodePort s.rows, p ∈ nodePorts := by
  intro p hp
  obtain ⟨n, svc, hrow, rfl⟩ := mem_held.mp hp
  exact h.nodePort n svc hrow

theorem Sound.size_le (h : Sound s) : s.rows.size ≤ 2768 := by
  have hle := (s.distinctPort.nodup_held.subperm h.mem_nodePorts_of_held).length_le
  rwa [length_held, length_nodePorts] at hle

/-- The address pool outlasts the port range, so only ports run out. -/
theorem Sound.allocate_iff (h : Sound s) :
    (∃ alloc, s.allocate = .ok alloc) ↔ s.rows.size < 2768 := by
  have hsize := h.size_le
  have hused : s.usedIPs.length < clusterIPs.length := by
    have hle : s.usedIPs.length ≤ (held Service.clusterIP s.rows).length :=
      List.length_filterMap_le _ _
    rw [length_held] at hle
    rw [length_clusterIPs]
    omega
  obtain ⟨c, hc⟩ := exists_lowestFree nodup_clusterIPs hused
  have hports := lowestFree_eq_none_iff nodup_nodePorts s.distinctPort.nodup_held
    h.mem_nodePorts_of_held
  rw [length_held, length_nodePorts] at hports
  cases hp : lowestFree nodePorts (held Service.nodePort s.rows) with
  | none =>
    have := hports.mp hp
    simp [allocate, hc, hp]
    omega
  | some p =>
    have : s.rows.size ≠ 2768 := fun he => by simp [hports.mpr he] at hp
    simp [allocate, hc, hp]
    omega

/-- A stored address reads as one of the service block other than its first and last. -/
theorem Sound.clusterIP_inside (h : Sound s) {n : String} (hrow : s.rows[n]? = some svc) :
    ∃ cluster x, parseCIDR serviceCIDR = some cluster ∧ parse svc.clusterIP = some x ∧
      cluster.Contains x ∧ x ≠ ⟨10, 23, 0, 0⟩ ∧ x ≠ ⟨10, 23, 255, 255⟩ := by
  obtain ⟨c, hc, hip⟩ := h.clusterIP n svc hrow
  obtain ⟨hlo, hhi⟩ := mem_clusterIPs.mp hc
  have hbase : svcBase = 169279488 := by decide
  have hnat : (Addr.ofNat c).toNat = c := Addr.toNat_ofNat (by omega)
  refine ⟨_, Addr.ofNat c, parseCIDR_serviceCIDR, hip ▸ parse_text _, ?_, ?_, ?_⟩
  · rw [Block.Contains, hnat, Addr.toNat_ofNat (by omega), hbase]
    norm_num
    omega
  · intro he
    have hfirst : c = (Addr.mk 10 23 0 0).toNat := hnat.symm.trans (congrArg Addr.toNat he)
    have hnetwork : (Addr.mk 10 23 0 0).toNat = 169279488 := by decide
    omega
  · intro he
    have hlast : c = (Addr.mk 10 23 255 255).toNat := hnat.symm.trans (congrArg Addr.toNat he)
    have hbroadcast : (Addr.mk 10 23 255 255).toNat = 169345023 := by decide
    omega

/-- An `Add` under an existing name leaves its allocation and every other row alone. -/
theorem add_keeps {row : Service} (hrow : s.rows[svc.name]? = some row) :
    (∃ row', (s.add svc).1.rows[svc.name]? = some row' ∧ row'.clusterIP = row.clusterIP ∧
      row'.nodePort = row.nodePort) ∧
    ∀ n, n ≠ svc.name → (s.add svc).1.rows[n]? = s.rows[n]? := by
  obtain ⟨e, he⟩ | ⟨-, -, ⟨row', hrow', hrows⟩ | ⟨ip, port, hnone, -⟩⟩ := add_cases s svc
  · rw [he]
    exact ⟨⟨row, hrow, rfl, rfl⟩, fun n _ => rfl⟩
  · obtain rfl := Option.some.inj (hrow.symm.trans hrow')
    rw [hrows]
    exact ⟨⟨_, lookup_insert_self _ _ _, rfl, rfl⟩, fun n hn => lookup_insert_ne _ _ (Ne.symm hn)⟩
  · exact absurd (hnone.symm.trans hrow) (Option.some_ne_none row).symm

theorem add_error {e : String} (h : (s.add svc).2 = .error e) : (s.add svc).1 = s := by
  obtain ⟨e, he⟩ | ⟨-, ⟨stored, hok⟩, -⟩ := add_cases s svc
  · rw [he]
  · exact absurd (h.symm.trans hok) (by simp)

theorem Sound.add_new_iff (h : Sound s) (hv : Valid svc) (hnew : s.rows[svc.name]? = none) :
    (∃ stored, (s.add svc).2 = .ok stored) ↔ s.rows.size < 2768 := by
  rw [← h.allocate_iff]
  cases ha : s.allocate with
  | error e => simp [add_exhausted hv hnew ha]
  | ok alloc => exact ⟨fun _ => ⟨alloc, rfl⟩, fun _ => ⟨_, (add_new hv hnew ha).2⟩⟩

/-- What holds of the store after any calls on a table that started empty. -/
theorem services_over_runs (ops : List Op) :
    let s := run step new ops
    -- addresses
    (∀ (n : String) (svc : Service), s.rows[n]? = some svc → ∃ cluster x,
      parseCIDR serviceCIDR = some cluster ∧ parse svc.clusterIP = some x ∧
      cluster.Contains x ∧ x ≠ ⟨10, 23, 0, 0⟩ ∧ x ≠ ⟨10, 23, 255, 255⟩) ∧
    (∀ (m n : String) (x y : Service), s.rows[m]? = some x → s.rows[n]? = some y →
      x.clusterIP = y.clusterIP → m = n) ∧
    -- ports
    (∀ (n : String) (svc : Service), s.rows[n]? = some svc →
      30000 ≤ svc.nodePort ∧ svc.nodePort ≤ 32767) ∧
    (∀ (m n : String) (x y : Service), s.rows[m]? = some x → s.rows[n]? = some y →
      x.nodePort = y.nodePort → m = n) ∧
    -- an existing name
    (∀ (svc row : Service), s.rows[svc.name]? = some row →
      (∃ row', (s.add svc).1.rows[svc.name]? = some row' ∧ row'.clusterIP = row.clusterIP ∧
        row'.nodePort = row.nodePort) ∧
      (∀ n, n ≠ svc.name → (s.add svc).1.rows[n]? = s.rows[n]?) ∧
      (Valid svc → (∃ stored, (s.add svc).2 = .ok stored) ∧
        (s.add svc).1.rows[svc.name]? = some { row with
          workloadID := svc.workloadID
          port := svc.port
          targetPort := svc.targetPort
          protocol := if svc.protocol = "" then "tcp" else svc.protocol })) ∧
    -- a new name
    (∀ svc, Valid svc → s.rows[svc.name]? = none →
      ((∃ stored, (s.add svc).2 = .ok stored) ↔ s.rows.size < 2768)) ∧
    -- the answer of an `Add` is the row it leaves, with an allocation of its own
    (∀ svc stored, (s.add svc).2 = .ok stored →
      stored = { svc with
        protocol := if svc.protocol = "" then "tcp" else svc.protocol
        clusterIP := stored.clusterIP
        nodePort := stored.nodePort } ∧
      (s.add svc).1.rows[svc.name]? = some stored ∧
      (∀ n, n ≠ svc.name → (s.add svc).1.rows[n]? = s.rows[n]?) ∧
      ∀ (n : String) (row : Service), n ≠ svc.name → s.rows[n]? = some row →
        row.clusterIP ≠ stored.clusterIP ∧ row.nodePort ≠ stored.nodePort) ∧
    (∀ name, (s.remove name).rows[name]? = none ∧
      ∀ n, n ≠ name → (s.remove name).rows[n]? = s.rows[n]?) ∧
    ∀ svc e, (s.add svc).2 = .error e → (s.add svc).1 = s := by
  intro s
  have hs : Sound s := Sound.new.run ops
  refine ⟨fun n svc => hs.clusterIP_inside, s.distinctIP, fun n svc hrow => ?_, s.distinctPort,
    fun svc row hrow => ?_, fun svc => hs.add_new_iff, fun svc stored hok => ?_,
    fun name => ⟨lookup_erase_self _ _, fun n hn => lookup_erase_ne _ (Ne.symm hn)⟩,
    fun svc e => add_error⟩
  · exact mem_nodePorts.mp (hs.nodePort n svc hrow)
  · refine ⟨(add_keeps hrow).1, (add_keeps hrow).2, fun hv => ?_⟩
    obtain ⟨hrows, hok⟩ := add_existing hv hrow
    rw [hrows]
    exact ⟨⟨_, hok⟩, lookup_insert_self _ _ _⟩
  · obtain ⟨hrows, ip, port, rfl⟩ := add_stored hok
    have hself : (s.add svc).1.rows[svc.name]? = some ((defaulted svc).withAllocation ip port) := by
      rw [hrows, lookup_insert_self]
    have hframe : ∀ n, n ≠ svc.name → (s.add svc).1.rows[n]? = s.rows[n]? := by
      intro n hn
      rw [hrows, lookup_insert_ne _ _ (Ne.symm hn)]
    -- the store after the call has distinct columns as well
    refine ⟨rfl, hself, hframe, fun n row hn hrow => ⟨fun hip => hn ?_, fun hport => hn ?_⟩⟩
    · exact (s.add svc).1.distinctIP n svc.name row _ ((hframe n hn).trans hrow) hself hip
    · exact (s.add svc).1.distinctPort n svc.name row _ ((hframe n hn).trans hrow) hself hport

private def webRemoved : List Op :=
  [.add ⟨"web", "web", 80, 8080, "", "", 0⟩, .add ⟨"db", "db", 5432, 5432, "tcp", "", 0⟩,
    .remove "web"]

private def apiService : Service := ⟨"api", "api", 80, 3000, "udp", "", 31000⟩

private theorem apiService_name : apiService.name = "api" := rfl

/-- A removed service's address and port go to the next new name. -/
theorem services_over_runs_reused :
    ((run step new webRemoved).add apiService).1.rows["api"]? =
        some ⟨"api", "api", 80, 3000, "udp", "10.23.0.1", 30000⟩ ∧
      ((run step new webRemoved).add apiService).1.rows["db"]? =
        some ⟨"db", "db", 5432, 5432, "tcp", "10.23.0.2", 30001⟩ := by
  have hok : ((run step new webRemoved).add apiService).2 =
      .ok ⟨"api", "api", 80, 3000, "udp", "10.23.0.1", 30000⟩ := by decide +kernel
  have hdb : (run step new webRemoved).rows["db"]? =
      some ⟨"db", "db", 5432, 5432, "tcp", "10.23.0.2", 30001⟩ := by decide +kernel
  obtain ⟨-, -, -, -, -, -, hadd, -⟩ := services_over_runs webRemoved
  obtain ⟨-, hself, hframe, -⟩ := hadd apiService _ hok
  rw [apiService_name] at hself hframe
  exact ⟨hself, (hframe "db" (by decide)).trans hdb⟩

end ServiceStore
end Smith
