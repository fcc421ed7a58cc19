import Smith.NodePortRules
import Smith.VolumeDirs

set_option autoImplicit false

/-!
# Published host ports

An agent opens the host ports of an assignment before it knows whether the assignment takes
effect, and records them over those of the container that has the id. A removal closes what is
recorded, whether or not another container publishes the same port. The rules and the record
stay right as long as every assignment creates its container or asks for the ports that the
container has, and no two containers share a port when one of them is removed.
-/
namespace Smith
open Commands FiniteMaps Iptables Runs
open ServiceProxy (acceptRule acceptRule_inj rulesOf rulesOf_insert slot_ok)
open Std (ExtTreeMap)

namespace Firewall

abbrev Program (α : Type) := Prog String Chains α

def labelled {α : Type} (what : String) (p : Program α) : Program α :=
  EStateM.adaptExcept (fun e => s!"{what}: {e}") p

def found (chain : String) (r : Rule) : Program Bool :=
  command fun t => (t.slot chain r).map fun rules => (decide (r ∈ rules), t)

def insert (chain : String) (r : Rule) : Program Unit :=
  command fun t => (t.slot chain r).map fun rules => ((), ExtTreeMap.insert t chain (r :: rules))

def delete (chain : String) (r : Rule) : Program Unit :=
  command fun t => (t.slot chain r).map fun rules => ((), ExtTreeMap.insert t chain (rules.erase r))

def ensureRule (chain : String) (r : Rule) : Program Unit := do
  let present ← labelled "check rule" (found chain r)
  if present then pure () else labelled "insert rule" (insert chain r)

def openPort (port : ℤ) (protocol : String) : Program Unit :=
  let protocol := if protocol = "" then "tcp" else protocol
  labelled s!"open port {port}/{protocol}" (ensureRule "INPUT" (acceptRule port protocol))

def closePort (port : ℤ) (protocol : String) : Program Unit := do
  let protocol := if protocol = "" then "tcp" else protocol
  let present ← labelled s!"check port {port}/{protocol}" (found "INPUT" (acceptRule port protocol))
  if present then
    labelled s!"close port {port}/{protocol}" (delete "INPUT" (acceptRule port protocol))
  else pure ()

def openPorts (ports : List PortMapping) : Program Unit :=
  ports.forM fun m => openPort m.hostPort m.protocol

def closeEach (ports : List PortMapping) : Program Unit :=
  ports.forM fun m => closePort m.hostPort m.protocol

def tolerated (p : Program Unit) : Program Unit := fun w =>
  match p w with
  | .ok _ w' => .ok () w'
  | .error _ w' => .ok () w'

def closePorts (ports : List PortMapping) : Program Unit :=
  ports.forM fun m => tolerated (closePort m.hostPort m.protocol)

def leaves (p : Program Unit) (t : Chains) (faults : List (Option String)) : Chains :=
  match p (t, faults) with
  | .ok _ w => w.1
  | .error _ w => w.1

end Firewall

structure PortConfig where
  firewall : Bool
  nfsSource : String

/-- The mappings on record, the containers with the mappings they were set up with, and the
    filter table of the node. -/
structure AgentPorts where
  ports : GoMap (List PortMapping)
  containers : GoMap (List PortMapping)
  filter : Chains

namespace AgentPorts

/-- The goroutine of an assignment: an image that is missing or a container that cannot be set
    up leaves nothing behind, and a container that exists is left as it is. -/
def runContainer (started : Bool) (s : AgentPorts) (wl : Workload) : AgentPorts :=
  if wl.id ∈ s.containers then s
  else if started then { s with containers := s.containers.insert wl.id (wl.ports.getD []) }
  else s

def handleAssign (cfg : PortConfig) (faults : List (Option String)) (dirs : DirCalls)
    (started : Bool) (s : AgentPorts) (body : Except String Workload) :
    AgentPorts × Response Unit :=
  match body with
  | .error e => (s, .error 400 e)
  | .ok wl =>
    let ports := wl.ports.getD []
    let s := { s with ports := s.ports.insert wl.id ports }
    let s := if cfg.firewall ∧ 0 < ports.length then
        { s with filter := Firewall.leaves (Firewall.openPorts ports) s.filter faults } else s
    match resolveVolumes dirs cfg.nfsSource wl with
    | .error e => (s, .error 400 e)
    | .ok _ => (runContainer started s wl, .ok ())

/-- The mappings that a removal has the network plugin take down, if there is a container. -/
def teardown (s : AgentPorts) (id : String) : Option (List PortMapping) :=
  if id ∈ s.containers then some (s.ports.getD id []) else none

def stopContainer (stopped : Bool) (s : AgentPorts) (id : String) : AgentPorts :=
  if stopped then { s with containers := s.containers.erase id } else s

def handleUnassign (cfg : PortConfig) (faults : List (Option String)) (stopped : Bool)
    (s : AgentPorts) (id : String) : AgentPorts × Response Unit :=
  if id = "" then (s, .error 400 "missing id")
  else
    let ports := s.ports.getD id []
    let s := { s with ports := s.ports.erase id }
    let s := stopContainer stopped s id
    let s := if cfg.firewall ∧ 0 < ports.length then
        { s with filter := Firewall.leaves (Firewall.closePorts ports) s.filter faults } else s
    (s, .ok ())

end AgentPorts

inductive PortRequest where
  | assign (body : Except String Workload) (dirs : DirCalls) (started : Bool)
  | unassign (id : String) (stopped : Bool)

structure PortEvent where
  request : PortRequest
  faults : List (Option String) := []

def PortMapping.proto (m : PortMapping) : String := if m.protocol = "" then "tcp" else m.protocol

def PortMapping.rule (m : PortMapping) : Rule := acceptRule m.hostPort m.proto

namespace Firewall
variable {P : Chains → Prop} {Q : Chains → Prop}

theorem found_triple (chain : String) (r : Rule) : Triple P (found chain r)
    fun present t => P t ∧ (present = true ↔ r ∈ rulesOf t chain) :=
  Triple.commandMap fun _ _ ht hslot => ⟨ht, by rw [decide_eq_true_iff, slot_ok hslot]⟩

theorem write_triple {chain : String} {r : Rule} {change : List Rule → List Rule}
    (h : ∀ t, P t → Q (ExtTreeMap.insert t chain (change (rulesOf t chain)))) :
    Triple P (command fun t => (t.slot chain r).map fun rules =>
      ((), ExtTreeMap.insert t chain (change rules)) : Program Unit) fun _ => Q :=
  Triple.commandMap fun t _ ht hslot => slot_ok hslot ▸ h t ht

theorem openPort_triple (m : PortMapping)
    (hkeep : ∀ t, P t → m.rule ∈ rulesOf t "INPUT" → Q t)
    (hinsert : ∀ t, P t → m.rule ∉ rulesOf t "INPUT" →
      Q (ExtTreeMap.insert t "INPUT" (m.rule :: rulesOf t "INPUT"))) :
    Triple P (openPort m.hostPort m.protocol) fun _ => Q := by
  refine (((found_triple "INPUT" m.rule).label _).bind fun present => ?_).label _
  cases present with
  | true => exact Triple.pure fun t ht => hkeep t ht.1 (ht.2.mp rfl)
  | false =>
    refine (write_triple fun t ht => hinsert t ht.1 fun hmem => ?_).label _
    exact absurd (ht.2.mpr hmem) (by simp)

theorem closePort_triple (m : PortMapping) (hkeep : ∀ t, P t → m.rule ∉ rulesOf t "INPUT" → Q t)
    (hdelete : ∀ t, P t → Q (ExtTreeMap.insert t "INPUT" ((rulesOf t "INPUT").erase m.rule))) :
    Triple P (closePort m.hostPort m.protocol) fun _ => Q := by
  refine ((found_triple "INPUT" m.rule).label _).bind fun present => ?_
  cases present with
  | true => exact (write_triple fun t ht => hdelete t ht.1).label _
  | false =>
    refine Triple.pure fun t ht => hkeep t ht.1 fun hmem => ?_
    exact absurd (ht.2.mpr hmem) (by simp)

section Counts
variable {t t' : Chains} {fs gs : List (Option String)} {ports : List PortMapping}

theorem count_openPorts (h : openPorts ports (t, fs) = .ok () (t', gs)) (r : Rule) :
    (rulesOf t' "INPUT").count r =
      if r ∈ ports.map PortMapping.rule ∧ r ∉ rulesOf t "INPUT" then 1
      else (rulesOf t "INPUT").count r := by
  let P (l : List PortMapping) (u : Chains) : Prop :=
    (if r ∈ l.map PortMapping.rule ∧ r ∉ rulesOf u "INPUT" then 1
      else (rulesOf u "INPUT").count r) =
    if r ∈ ports.map PortMapping.rule ∧ r ∉ rulesOf t "INPUT" then 1
      else (rulesOf t "INPUT").count r
  have hloop : Triple (P ports) (openPorts ports) fun _ => P [] := by
    refine Triple.forM fun m _ l => openPort_triple m (fun u hu hmem => ?_) fun u hu hnew => ?_
    · refine Eq.trans (if_congr (and_congr_left fun hr => ?_) rfl rfl) hu
      rw [List.map_cons, List.mem_cons]
      exact (or_iff_right fun he : r = m.rule => hr (he ▸ hmem)).symm
    · refine Eq.trans ?_ hu
      rw [rulesOf_insert, List.map_cons, List.count_cons]
      by_cases hr : r = m.rule
      · subst hr
        simp [hnew, List.count_eq_zero_of_not_mem hnew]
      · simp [hr, Ne.symm hr]
  have hend := hloop t fs () t' gs rfl h
  simpa only [P, List.map_nil, List.not_mem_nil, false_and, if_false] using hend

theorem count_closeEach (h : closeEach ports (t, fs) = .ok () (t', gs)) (r : Rule) :
    (rulesOf t' "INPUT").count r =
      (rulesOf t "INPUT").count r - (ports.map PortMapping.rule).count r := by
  let P (l : List PortMapping) (u : Chains) : Prop :=
    (rulesOf u "INPUT").count r - (l.map PortMapping.rule).count r =
      (rulesOf t "INPUT").count r - (ports.map PortMapping.rule).count r
  have hloop : Triple (P ports) (closeEach ports) fun _ => P [] := by
    refine Triple.forM fun m _ l => closePort_triple m (fun u hu hgone => ?_) fun u hu => ?_
    · refine Eq.trans ?_ hu
      rw [List.map_cons, List.count_cons]
      by_cases hr : m.rule = r
      · rw [← hr, List.count_eq_zero_of_not_mem hgone, Nat.zero_sub, Nat.zero_sub]
      · simp [hr]
    · refine Eq.trans ?_ hu
      rw [rulesOf_insert, List.count_erase, List.map_cons, List.count_cons]
      omega
  have hend := hloop t fs () t' gs rfl h
  simpa only [P, List.map_nil, List.count_nil, Nat.sub_zero] using hend

/-- Where no call fails, tolerating errors makes no difference. -/
theorem closePorts_of_closeEach {w w' : World String Chains} (h : closeEach ports w = .ok () w') :
    closePorts ports w = .ok () w' := by
  induction ports generalizing w with
  | nil => exact h
  | cons m ports ih =>
    change (closePort m.hostPort m.protocol >>= fun _ => closeEach ports) w = _ at h
    change (tolerated (closePort m.hostPort m.protocol) >>= fun _ => closePorts ports) w = _
    cases hfirst : closePort m.hostPort m.protocol w with
    | error e v =>
      rw [bind_of_error hfirst] at h
      exact absurd h (by simp)
    | ok u v =>
      have htolerated : tolerated (closePort m.hostPort m.protocol) w = .ok () v := by
        rw [tolerated, hfirst]
      rw [bind_of_ok hfirst] at h
      rw [bind_of_ok htolerated]
      exact ih h

end Counts
end Firewall

namespace AgentPorts

def step (cfg : PortConfig) (s : AgentPorts) (e : PortEvent) : AgentPorts :=
  match e.request with
  | .assign body dirs started => (handleAssign cfg e.faults dirs started s body).1
  | .unassign id stopped => (handleUnassign cfg e.faults stopped s id).1

def Published (s : AgentPorts) (port : ℤ) (proto : String) : Prop :=
  ∃ (id : String) (ps : List PortMapping) (m : PortMapping),
    s.containers[id]? = some ps ∧ m ∈ ps ∧ m.hostPort = port ∧ m.proto = proto

/-- The accept rules are those of the published ports, each once, and the mappings on record
    for an id are those its container was set up with, none where there is no container. -/
structure Accounted (s : AgentPorts) : Prop where
  rules : ∀ (port : ℤ) (proto : String),
    acceptRule port proto ∈ rulesOf s.filter "INPUT" ↔ s.Published port proto
  once : ∀ (port : ℤ) (proto : String),
    (rulesOf s.filter "INPUT").count (acceptRule port proto) ≤ 1
  recorded : ∀ id, s.ports.getD id [] = s.containers.getD id []

def FirewallServes (s : AgentPorts) (e : PortEvent) : Prop :=
  match e.request with
  | .assign (.error _) _ _ => True
  | .assign (.ok wl) _ _ =>
    ∃ w, Firewall.openPorts (wl.ports.getD []) (s.filter, e.faults) = .ok () w
  | .unassign id _ =>
    id ≠ "" → ∃ w, Firewall.closeEach (s.ports.getD id []) (s.filter, e.faults) = .ok () w

/-- The assignment gets as far as a container of its own. -/
def Creates (cfg : PortConfig) (s : AgentPorts) (wl : Workload) (dirs : DirCalls)
    (started : Bool) : Prop :=
  wl.id ∉ s.containers ∧ started = true ∧
    ∃ mounts, resolveVolumes dirs cfg.nfsSource wl = .ok mounts

/-- An assignment creates its container or asks for the mappings that are set up, none where
    there is no container. A removal stops its container, which shares no port with another,
    or there is nothing published to stop. -/
def Separate (cfg : PortConfig) (s : AgentPorts) (e : PortEvent) : Prop :=
  match e.request with
  | .assign (.error _) _ _ => True
  | .assign (.ok wl) dirs started =>
    Creates cfg s wl dirs started ∨ wl.ports.getD [] = s.containers.getD wl.id []
  | .unassign id true => id = "" ∨ ∀ id', id' ≠ id → ∀ m ∈ s.containers.getD id [],
      ∀ m' ∈ s.containers.getD id' [], m.rule ≠ m'.rule
  | .unassign id false => id = "" ∨ s.containers.getD id [] = []

variable {cfg : PortConfig} {s : AgentPorts}

theorem mem_getD {t : GoMap (List PortMapping)} {id : String} {m : PortMapping} :
    m ∈ t.getD id [] ↔ ∃ ps, t[id]? = some ps ∧ m ∈ ps := by
  rw [getD_eq]
  cases t[id]? <;> simp

theorem published_iff {port : ℤ} {proto : String} : s.Published port proto ↔
    ∃ id, acceptRule port proto ∈ (s.containers.getD id []).map PortMapping.rule := by
  constructor
  · rintro ⟨id, ps, m, hid, hm, hport, hproto⟩
    refine ⟨id, List.mem_map.mpr ⟨m, mem_getD.mpr ⟨ps, hid, hm⟩, ?_⟩⟩
    rw [PortMapping.rule, hport, hproto]
  · rintro ⟨id, hmem⟩
    obtain ⟨m, hm, hrule⟩ := List.mem_map.mp hmem
    obtain ⟨ps, hid, hm⟩ := mem_getD.mp hm
    obtain ⟨hport, hproto⟩ := acceptRule_inj.mp hrule
    exact ⟨id, ps, m, hid, hm, hport, hproto⟩

theorem Accounted.teardown_eq (h : Accounted s) (id : String) :
    s.teardown id = s.containers[id]? := by
  unfold teardown
  split_ifs with hid
  · rw [h.recorded id, getD_eq]
    obtain ⟨ps, hps⟩ := Option.isSome_iff_exists.mp (ExtTreeMap.isSome_getElem?_iff_mem.mpr hid)
    rw [hps]
    rfl
  · exact (ExtTreeMap.getElem?_eq_none hid).symm

section Steps
variable {wl : Workload} {dirs : DirCalls} {started stopped : Bool} {faults : List (Option String)}
  {id : String}

def opened (cfg : PortConfig) (s : AgentPorts) (wl : Workload) (faults : List (Option String)) :
    Chains :=
  if cfg.firewall ∧ 0 < (wl.ports.getD []).length then
    Firewall.leaves (Firewall.openPorts (wl.ports.getD [])) s.filter faults else s.filter

theorem count_opened (hfw : cfg.firewall = true)
    (hserves : ∃ w, Firewall.openPorts (wl.ports.getD []) (s.filter, faults) = .ok () w)
    (r : Rule) : (rulesOf (opened cfg s wl faults) "INPUT").count r =
      if r ∈ (wl.ports.getD []).map PortMapping.rule ∧ r ∉ rulesOf s.filter "INPUT" then 1
      else (rulesOf s.filter "INPUT").count r := by
  obtain ⟨w, hw⟩ := hserves
  unfold opened
  by_cases hlen : 0 < (wl.ports.getD []).length
  · rw [if_pos ⟨hfw, hlen⟩, Firewall.leaves, hw]
    exact Firewall.count_openPorts hw r
  · have hnil : wl.ports.getD [] = [] := List.length_eq_zero_iff.mp (by omega)
    rw [if_neg fun hc => hlen hc.2]
    simp [hnil]

theorem mem_opened (hfw : cfg.firewall = true)
    (hserves : ∃ w, Firewall.openPorts (wl.ports.getD []) (s.filter, faults) = .ok () w)
    (r : Rule) : r ∈ rulesOf (opened cfg s wl faults) "INPUT" ↔
      r ∈ rulesOf s.filter "INPUT" ∨ r ∈ (wl.ports.getD []).map PortMapping.rule := by
  rw [← List.count_pos_iff, count_opened hfw hserves]
  split_ifs with hnew
  · simp [hnew.1]
  · rw [List.count_pos_iff]
    constructor
    · exact .inl
    · rintro (hr | hr)
      · exact hr
      · by_contra hr'
        exact hnew ⟨hr, hr'⟩

def closed (cfg : PortConfig) (s : AgentPorts) (id : String) (faults : List (Option String)) :
    Chains :=
  if cfg.firewall ∧ 0 < (s.ports.getD id []).length then
    Firewall.leaves (Firewall.closePorts (s.ports.getD id [])) s.filter faults else s.filter

theorem count_closed (hfw : cfg.firewall = true)
    (hserves : ∃ w, Firewall.closeEach (s.ports.getD id []) (s.filter, faults) = .ok () w)
    (r : Rule) : (rulesOf (closed cfg s id faults) "INPUT").count r =
      (rulesOf s.filter "INPUT").count r - ((s.ports.getD id []).map PortMapping.rule).count r := by
  obtain ⟨w, hw⟩ := hserves
  unfold closed
  by_cases hlen : 0 < (s.ports.getD id []).length
  · rw [if_pos ⟨hfw, hlen⟩, Firewall.leaves, Firewall.closePorts_of_closeEach hw]
    exact Firewall.count_closeEach hw r
  · have hnil : s.ports.getD id [] = [] := List.length_eq_zero_iff.mp (by omega)
    rw [if_neg fun hc => hlen hc.2]
    simp [hnil]

theorem handleAssign_eq : (handleAssign cfg faults dirs started s (.ok wl)).1 =
    match resolveVolumes dirs cfg.nfsSource wl with
    | .error _ => ⟨s.ports.insert wl.id (wl.ports.getD []), s.containers, opened cfg s wl faults⟩
    | .ok _ => runContainer started
      ⟨s.ports.insert wl.id (wl.ports.getD []), s.containers, opened cfg s wl faults⟩ wl := by
  have hopened : (if cfg.firewall ∧ 0 < (wl.ports.getD []).length then
      { s with
        ports := s.ports.insert wl.id (wl.ports.getD [])
        filter := Firewall.leaves (Firewall.openPorts (wl.ports.getD [])) s.filter faults }
      else { s with ports := s.ports.insert wl.id (wl.ports.getD []) }) =
      ⟨s.ports.insert wl.id (wl.ports.getD []), s.containers, opened cfg s wl faults⟩ := by
    unfold opened
    split_ifs <;> rfl
  simp only [handleAssign, hopened]
  cases resolveVolumes dirs cfg.nfsSource wl <;> rfl

theorem handleAssign_created (h : Creates cfg s wl dirs started) :
    (handleAssign cfg faults dirs started s (.ok wl)).1 =
      ⟨s.ports.insert wl.id (wl.ports.getD []), s.containers.insert wl.id (wl.ports.getD []),
        opened cfg s wl faults⟩ := by
  obtain ⟨hnew, hstarted, mounts, hmounts⟩ := h
  rw [handleAssign_eq, hmounts]
  simp only [runContainer, if_neg hnew, if_pos hstarted]

theorem handleAssign_kept (h : ¬ Creates cfg s wl dirs started) :
    (handleAssign cfg faults dirs started s (.ok wl)).1 =
      ⟨s.ports.insert wl.id (wl.ports.getD []), s.containers, opened cfg s wl faults⟩ := by
  rw [handleAssign_eq]
  cases hmounts : resolveVolumes dirs cfg.nfsSource wl with
  | error e => rfl
  | ok mounts =>
    simp only [runContainer]
    split_ifs with hid hstarted
    · rfl
    · exact absurd ⟨hid, hstarted, mounts, hmounts⟩ h
    · rfl

theorem published_insert {ports : GoMap (List PortMapping)} {t : Chains} {ps : List PortMapping}
    (hid : id ∉ s.containers) {port : ℤ} {proto : String} :
    Published ⟨ports, s.containers.insert id ps, t⟩ port proto ↔
      s.Published port proto ∨ acceptRule port proto ∈ ps.map PortMapping.rule := by
  have hnil : s.containers.getD id [] = [] := by
    rw [getD_eq, ExtTreeMap.getElem?_eq_none hid]
    rfl
  simp only [published_iff, getD_insert]
  constructor
  · rintro ⟨id', hmem⟩
    split_ifs at hmem
    · exact .inr hmem
    · exact .inl ⟨id', hmem⟩
  · rintro (⟨id', hmem⟩ | hmem)
    · refine ⟨id', ?_⟩
      rwa [if_neg fun hne => ?_]
      rw [← hne, hnil] at hmem
      exact absurd hmem List.not_mem_nil
    · exact ⟨id, by rwa [if_pos rfl]⟩

theorem published_erase {ports : GoMap (List PortMapping)} {t : Chains} {port : ℤ}
    {proto : String} : Published ⟨ports, s.containers.erase id, t⟩ port proto ↔
      ∃ id', id' ≠ id ∧
        acceptRule port proto ∈ (s.containers.getD id' []).map PortMapping.rule := by
  rw [published_iff]
  refine exists_congr fun id' => ?_
  rw [getD_erase]
  split_ifs with hid
  · simp [hid]
  · rw [and_iff_right (Ne.symm hid)]

theorem Accounted.assign_iff (h : Accounted s) (hfw : cfg.firewall = true)
    (hserves : ∃ w, Firewall.openPorts (wl.ports.getD []) (s.filter, faults) = .ok () w) :
    Accounted (handleAssign cfg faults dirs started s (.ok wl)).1 ↔
      Creates cfg s wl dirs started ∨ wl.ports.getD [] = s.containers.getD wl.id [] := by
  have hmem := mem_opened hfw hserves
  have honce : ∀ (port : ℤ) (proto : String),
      (rulesOf (opened cfg s wl faults) "INPUT").count (acceptRule port proto) ≤ 1 := by
    intro port proto
    rw [count_opened hfw hserves]
    split_ifs
    · exact le_rfl
    · exact h.once port proto
  by_cases hcreates : Creates cfg s wl dirs started
  · refine iff_of_true ?_ (.inl hcreates)
    rw [handleAssign_created hcreates]
    refine ⟨fun port proto => ?_, honce, fun id => ?_⟩
    · rw [hmem, h.rules, published_insert hcreates.1]
    · simp only [getD_insert, h.recorded id]
  · rw [handleAssign_kept hcreates, or_iff_right hcreates]
    constructor
    · intro h'
      have hid := h'.recorded wl.id
      rwa [getD_insert, if_pos rfl] at hid
    · intro hsame
      refine ⟨fun port proto => ?_, honce, fun id => ?_⟩
      · rw [hmem, h.rules, hsame]
        refine or_iff_left_of_imp fun hr => ?_
        exact published_iff.mpr ⟨wl.id, hr⟩
      · rw [getD_insert]
        split_ifs with hk
        · rw [← hk]
          exact hsame
        · exact h.recorded id

theorem handleUnassign_eq (hid : id ≠ "") : (handleUnassign cfg faults stopped s id).1 =
    ⟨s.ports.erase id, if stopped then s.containers.erase id else s.containers,
      closed cfg s id faults⟩ := by
  simp only [handleUnassign, if_neg hid, stopContainer, closed]
  split_ifs <;> rfl

theorem Accounted.mem_closed (h : Accounted s) (hfw : cfg.firewall = true)
    (hserves : ∃ w, Firewall.closeEach (s.ports.getD id []) (s.filter, faults) = .ok () w)
    (port : ℤ) (proto : String) :
    acceptRule port proto ∈ rulesOf (closed cfg s id faults) "INPUT" ↔
      s.Published port proto ∧
        acceptRule port proto ∉ (s.containers.getD id []).map PortMapping.rule := by
  have honce := h.once port proto
  rw [← h.rules, ← List.count_pos_iff, ← List.count_pos_iff, ← List.count_pos_iff,
    count_closed hfw hserves, h.recorded id]
  omega

theorem Accounted.once_closed (h : Accounted s) (hfw : cfg.firewall = true)
    (hserves : ∃ w, Firewall.closeEach (s.ports.getD id []) (s.filter, faults) = .ok () w)
    (port : ℤ) (proto : String) :
    (rulesOf (closed cfg s id faults) "INPUT").count (acceptRule port proto) ≤ 1 := by
  rw [count_closed hfw hserves]
  exact (Nat.sub_le _ _).trans (h.once port proto)

theorem Accounted.stop_iff (h : Accounted s) (hfw : cfg.firewall = true) (hid : id ≠ "")
    (hserves : ∃ w, Firewall.closeEach (s.ports.getD id []) (s.filter, faults) = .ok () w) :
    Accounted (handleUnassign cfg faults true s id).1 ↔
      ∀ id', id' ≠ id → ∀ m ∈ s.containers.getD id [],
        ∀ m' ∈ s.containers.getD id' [], m.rule ≠ m'.rule := by
  have hmem := h.mem_closed hfw hserves
  rw [handleUnassign_eq hid, if_pos rfl]
  constructor
  · intro h' id' hne m hm m' hm' hrule
    have hpublished : m.rule ∈ rulesOf (closed cfg s id faults) "INPUT" := by
      refine (h'.rules m.hostPort m.proto).mpr (published_erase.mpr ⟨id', hne, ?_⟩)
      exact List.mem_map.mpr ⟨m', hm', hrule.symm⟩
    exact ((hmem _ _).mp hpublished).2 (List.mem_map_of_mem hm)
  · intro hapart
    refine ⟨fun port proto => ?_, h.once_closed hfw hserves, fun k => ?_⟩
    · rw [hmem, published_erase, published_iff]
      constructor
      · rintro ⟨⟨id', hr⟩, hown⟩
        refine ⟨id', ?_, hr⟩
        rintro rfl
        exact hown hr
      · rintro ⟨id', hne, hr⟩
        refine ⟨⟨id', hr⟩, fun hown => ?_⟩
        obtain ⟨m, hm, hrule⟩ := List.mem_map.mp hown
        obtain ⟨m', hm', hrule'⟩ := List.mem_map.mp hr
        exact hapart id' hne m hm m' hm' (hrule.trans hrule'.symm)
    · rw [getD_erase, getD_erase, h.recorded k]

theorem Accounted.stop_failed_iff (h : Accounted s) (hfw : cfg.firewall = true) (hid : id ≠ "")
    (hserves : ∃ w, Firewall.closeEach (s.ports.getD id []) (s.filter, faults) = .ok () w) :
    Accounted (handleUnassign cfg faults false s id).1 ↔ s.containers.getD id [] = [] := by
  rw [handleUnassign_eq hid, if_neg (by simp)]
  constructor
  · intro h'
    have hrec := h'.recorded id
    rw [getD_erase, if_pos rfl] at hrec
    exact hrec.symm
  · intro hnil
    refine ⟨fun port proto => ?_, h.once_closed hfw hserves, fun k => ?_⟩
    · rw [h.mem_closed hfw hserves, hnil]
      exact and_iff_left List.not_mem_nil
    · rw [getD_erase, h.recorded k]
      split_ifs with hk
      · rw [← hk, hnil]
      · rfl

theorem Accounted.step_iff (h : Accounted s) (hfw : cfg.firewall = true) {e : PortEvent}
    (hserves : FirewallServes s e) : Accounted (step cfg s e) ↔ Separate cfg s e := by
  obtain ⟨⟨_ | wl, dirs, started⟩ | ⟨id, stopped⟩, faults⟩ := e
  · exact iff_of_true h trivial
  · exact h.assign_iff hfw hserves
  · by_cases hid : id = ""
    · have hsame : step cfg s ⟨.unassign id stopped, faults⟩ = s := by
        simp only [step, handleUnassign, if_pos hid]
      rw [hsame]
      cases stopped <;> exact iff_of_true h (.inl hid)
    · cases stopped with
      | true => exact (h.stop_iff hfw hid (hserves hid)).trans (or_iff_right hid).symm
      | false => exact (h.stop_failed_iff hfw hid (hserves hid)).trans (or_iff_right hid).symm

end Steps

/-- The account holds after every request of a run exactly if every request keeps to what is
    set up. -/
theorem ports_accounted_iff (hfw : cfg.firewall = true) (h0 : Accounted s) {es : List PortEvent}
    (h : Guarded (step cfg) FirewallServes s es) :
    (∀ es', es' <+: es → Accounted (run (step cfg) s es')) ↔
      Guarded (step cfg) (Separate cfg) s es := by
  induction es generalizing s with
  | nil => simpa [Guarded, run] using h0
  | cons e es ih =>
    have hstep := h0.step_iff hfw h.1
    constructor
    · intro hall
      have hfirst : Accounted (step cfg s e) := hall [e] (by simp)
      refine ⟨hstep.mp hfirst, (ih hfirst h.2).mp fun es' hpre => ?_⟩
      exact hall (e :: es') (List.cons_prefix_cons.mpr ⟨rfl, hpre⟩)
    · rintro ⟨hseparate, hrest⟩ (_ | ⟨e', es'⟩) hpre
      · exact h0
      · obtain ⟨rfl, hpre'⟩ := List.cons_prefix_cons.mp hpre
        exact (ih (hstep.mpr hseparate) h.2).mpr hrest es' hpre'

def fresh : AgentPorts := ⟨∅, ∅, ExtTreeMap.insert ∅ "INPUT" []⟩

theorem fresh_accounted : Accounted fresh := by
  have hrules : rulesOf fresh.filter "INPUT" = [] := by decide +kernel
  refine ⟨fun port proto => ?_, fun port proto => by simp [hrules], fun id => rfl⟩
  rw [hrules]
  refine iff_of_false List.not_mem_nil ?_
  rintro ⟨id, ps, m, hid, -⟩
  exact absurd hid (by simp [fresh])

private def served (p : Firewall.Program Unit) (t : Chains) : Bool :=
  match p (t, []) with
  | .ok _ _ => true
  | .error _ _ => false

private theorem exists_of_served {p : Firewall.Program Unit} {t : Chains} (h : served p t = true) :
    ∃ w, p (t, []) = .ok () w := by
  unfold served at h
  split at h
  · exact ⟨_, by assumption⟩
  · exact absurd h (by simp)

private def noShare : PortConfig := ⟨true, ""⟩

private def publishing (id : String) (port : ℤ) (volumes : List Volume) : Workload :=
  { id := id, image := "web", ports := some [⟨port, 80, ""⟩], volumes := some volumes }

private def assigned (id : String) (port : ℤ) (volumes : List Volume) : PortEvent :=
  ⟨.assign (.ok (publishing id port volumes)) ⟨fun _ => none, fun _ => none⟩ true, []⟩

private def removed (id : String) : PortEvent := ⟨.unassign id true, []⟩

private def twoPorts : List PortEvent :=
  [assigned "web-0" 8080 [], assigned "api-0" 9090 [], removed "web-0"]

private def bothPublish : AgentPorts :=
  run (step noShare) fresh [assigned "web-0" 8080 [], assigned "api-0" 9090 []]

private theorem twoPorts_served : Guarded (step noShare) FirewallServes fresh twoPorts := by
  refine ⟨exists_of_served (by decide +kernel), exists_of_served (by decide +kernel),
    fun _ => exists_of_served (by decide +kernel), trivial⟩

/-- Two containers with ports of their own, of which one is removed. -/
theorem ports_accounted_iff_apart : Accounted (run (step noShare) fresh twoPorts) := by
  refine (ports_accounted_iff rfl fresh_accounted twoPorts_served).mpr ⟨?_, ?_, ?_, trivial⟩ _
    List.prefix_rfl
  · exact .inl ⟨by decide +kernel, rfl, _, rfl⟩
  · exact .inl ⟨by decide +kernel, rfl, _, rfl⟩
  · have hapart : ∀ (id' : String) (ps : List PortMapping), bothPublish.containers[id']? = some ps →
        id' ≠ "web-0" → ∀ m ∈ bothPublish.containers.getD "web-0" [], ∀ m' ∈ ps,
          m.rule ≠ m'.rule := forall_lookup_iff.mpr (by decide +kernel)
    refine .inr fun id' hne m hm m' hm' => ?_
    obtain ⟨ps, hid, hmem⟩ := mem_getD.mp hm'
    exact hapart id' ps hid hne m hm m' hmem

private def refused : List PortEvent := [assigned "db-0" 5432 [⟨"data", "/data"⟩]]

private def reassigned : List PortEvent := [assigned "web-0" 8080 [], assigned "web-0" 9090 []]

private def shared : List PortEvent :=
  [assigned "web-0" 8080 [], assigned "api-0" 8080 [], removed "web-0"]

private def after (es : List PortEvent) : AgentPorts := run (step noShare) fresh es

/-- An assignment that is refused for its volumes leaves its port open. One that finds a
    container opens its ports and records them in place of the container's. And a removal
    closes the port of another container. -/
theorem ports_unaccounted :
    (Guarded (step noShare) FirewallServes fresh refused ∧
      (after refused).containers.toList = [] ∧
      rulesOf (after refused).filter "INPUT" = [acceptRule 5432 "tcp"] ∧
      ¬ Accounted (after refused)) ∧
    (Guarded (step noShare) FirewallServes fresh reassigned ∧
      (after reassigned).containers.toList = [("web-0", [⟨8080, 80, ""⟩])] ∧
      (after reassigned).ports.toList = [("web-0", [⟨9090, 80, ""⟩])] ∧
      ¬ Accounted (after reassigned)) ∧
    Guarded (step noShare) FirewallServes fresh shared ∧
      (after shared).containers.toList = [("api-0", [⟨8080, 80, ""⟩])] ∧
      rulesOf (after shared).filter "INPUT" = [] ∧
      ¬ Accounted (after shared) := by
  refine ⟨⟨?_, by decide +kernel, by decide +kernel, fun h => ?_⟩,
    ⟨?_, by decide +kernel, by decide +kernel, fun h => ?_⟩,
    ?_, by decide +kernel, by decide +kernel, fun h => ?_⟩
  · exact ⟨exists_of_served (by decide +kernel), trivial⟩
  · have hrecorded := h.recorded "db-0"
    revert hrecorded
    decide +kernel
  · exact ⟨exists_of_served (by decide +kernel), exists_of_served (by decide +kernel), trivial⟩
  · have hrecorded := h.recorded "web-0"
    revert hrecorded
    decide +kernel
  · exact ⟨exists_of_served (by decide +kernel), exists_of_served (by decide +kernel),
      fun _ => exists_of_served (by decide +kernel), trivial⟩
  · have hrule := (h.rules 8080 "tcp").mpr
      ⟨"api-0", [⟨8080, 80, ""⟩], ⟨8080, 80, ""⟩, by decide +kernel, List.mem_cons_self, rfl, rfl⟩
    revert hrule
    decide +kernel

end AgentPorts
end Smith
