import Smith.ServiceSync

set_option autoImplicit false

/-!
# The accept rules of NodePorts

A sync opens the ports that its table adds and closes those that it no longer has, comparing
by port. The record of open ports and the rules in INPUT never differ, and a port that stays in
use keeps the protocol it was opened with. So the rules follow the table as long as no port
changes its protocol from one table to the next.
-/
namespace Smith.ServiceProxy
open Commands FiniteMaps Iptables Overwrites Runs
open Std (ExtTreeMap)

/-- An accept rule for a protocol and a port. -/
def isAcceptRule (r : Rule) : Bool :=
  match r.dport, r.proto with
  | some port, some proto => r = acceptRule port proto
  | _, _ => false

theorem isAcceptRule_iff {r : Rule} :
    isAcceptRule r = true ↔ ∃ port proto, r = acceptRule port proto := by
  constructor
  · intro h
    unfold isAcceptRule at h
    split at h
    · exact ⟨_, _, of_decide_eq_true h⟩
    · exact absurd h (by simp)
  · rintro ⟨port, proto, rfl⟩
    simp [isAcceptRule, acceptRule]

theorem acceptRule_inj {port port' : ℤ} {proto proto' : String} :
    acceptRule port proto = acceptRule port' proto' ↔ port = port' ∧ proto = proto' := by
  simp [acceptRule, and_comm]

def inputRules (p : ServiceProxy) : List Rule := rulesOf p.filter "INPUT"

/-- Every port on record has one rule, for its protocol, and no other port has any. -/
def Matches (p : ServiceProxy) : Prop :=
  ∀ (port : ℤ) (proto : String), p.inputRules.count (acceptRule port proto) =
    if p.nodePorts[port]? = some proto then 1 else 0

section Programs
variable {p : ServiceProxy}

theorem onFilter_triple {P : ServiceProxy → Prop} {Q : Unit → ServiceProxy → Prop}
    {act : Chains → Except String Chains}
    (h : ∀ q t, P q → act q.filter = .ok t → Q () { q with filter := t }) :
    Triple P (onFilter act) Q :=
  Triple.commandMap h

theorem slot_ok {t : Chains} {c : String} {r : Rule} {rules : List Rule}
    (h : t.slot c r = .ok rules) : rules = rulesOf t c := by
  unfold Chains.slot at h
  cases hl : t[c]? with
  | none =>
    simp only [hl] at h
    split_ifs at h
  | some rules' =>
    simp only [hl] at h
    split_ifs at h
    rw [rulesOf, hl, ← Except.ok.inj h]
    rfl

theorem rulesOf_insert (t : Chains) (c : String) (rules : List Rule) :
    rulesOf (t.insert c rules) c = rules := by
  rw [rulesOf, lookup_insert_self]
  rfl

theorem rulesOf_withRule (t : Chains) (c : String) (r : Rule) :
    rulesOf (withRule c r t) c =
      if r ∈ rulesOf t c then rulesOf t c else rulesOf t c ++ [r] := by
  unfold withRule
  split_ifs
  · rfl
  · exact rulesOf_insert _ _ _

theorem appendUnique_ok {t t' : Chains} {c : String} {r : Rule} (h : t.appendUnique c r = .ok t') :
    rulesOf t' c = if r ∈ rulesOf t c then rulesOf t c else rulesOf t c ++ [r] := by
  unfold Chains.appendUnique at h
  cases hslot : t.slot c r with
  | error e =>
    rw [hslot] at h
    exact absurd h (by simp [bind, Except.bind])
  | ok rules =>
    rw [hslot] at h
    have hok : (if r ∈ rules then t else t.insert c (rules ++ [r])) = t' := by
      simpa only [bind, Except.bind, pure, Except.pure, ← apply_ite Except.ok,
        Except.ok.injEq] using h
    rw [← hok, slot_ok hslot]
    exact rulesOf_withRule t c r

theorem deleteIfExists_ok {t t' : Chains} {c : String} {r : Rule}
    (h : t.deleteIfExists c r = .ok t') : rulesOf t' c = (rulesOf t c).erase r := by
  unfold Chains.deleteIfExists at h
  cases hslot : t.slot c r with
  | error e =>
    rw [hslot] at h
    exact absurd h (by simp [bind, Except.bind])
  | ok rules =>
    rw [hslot] at h
    have hok : (if r ∈ rules then t.insert c (rules.erase r) else t) = t' := by
      simpa only [bind, Except.bind, pure, Except.pure, ← apply_ite Except.ok,
        Except.ok.injEq] using h
    rw [← hok, slot_ok hslot]
    split_ifs with hmem
    · exact rulesOf_insert _ _ _
    · exact (List.erase_of_not_mem hmem).symm

theorem Matches.opened (h : Matches p) {port : ℤ} {proto : String}
    (hport : p.nodePorts[port]? = none) {t : Chains}
    (ht : rulesOf t "INPUT" = if acceptRule port proto ∈ p.inputRules then p.inputRules
      else p.inputRules ++ [acceptRule port proto]) :
    Matches { p with filter := t, nodePorts := p.nodePorts.insert port proto } := by
  have habsent : acceptRule port proto ∉ p.inputRules := by
    rw [← List.count_eq_zero, h, if_neg (by simp [hport])]
  intro port' proto'
  rw [inputRules, ht, if_neg habsent, List.count_append, h, List.count_singleton, lookup_insert]
  by_cases hp : port = port'
  · subst hp
    simp [hport, acceptRule_inj]
  · simp [hp, acceptRule_inj]

theorem Matches.closed (h : Matches p) {port : ℤ} {proto : String}
    (hport : p.nodePorts[port]? = some proto) {t : Chains}
    (ht : rulesOf t "INPUT" = p.inputRules.erase (acceptRule port proto)) :
    Matches { p with filter := t, nodePorts := p.nodePorts.erase port } := by
  intro port' proto'
  rw [inputRules, ht, List.count_erase, h, lookup_erase]
  by_cases hp : port = port'
  · subst hp
    by_cases hproto : proto = proto'
    · simp [hport, hproto]
    · simp [hport, hproto, acceptRule_inj]
  · simp [hp, acceptRule_inj]

section Loops
variable {old want : ExtTreeMap ℤ String} {e : ℤ × String} {l : List (ℤ × String)}
  {q : ServiceProxy}

/-- While the ports `l` are still to be opened. -/
structure Opening (old want : ExtTreeMap ℤ String) (l : List (ℤ × String)) (q : ServiceProxy) :
    Prop where
  accepts : Matches q
  keys : (l.map Prod.fst).Nodup
  ports : ∀ (k : ℤ) (v : String),
    (q.nodePorts[k]? = some v ∨ q.nodePorts[k]? = none ∧ (k, v) ∈ l) ↔
      (old[k]? = some v ∨ old[k]? = none ∧ want[k]? = some v)

theorem Opening.skip (h : Opening old want (e :: l) q) (hport : q.nodePorts[e.1]? ≠ none) :
    Opening old want l q := by
  refine ⟨h.accepts, (List.nodup_cons.mp h.keys).2, fun k v => ?_⟩
  rw [← h.ports k v, List.mem_cons]
  refine or_congr_right (and_congr_right fun hnone => (or_iff_right ?_).symm)
  rintro rfl
  exact hport hnone

theorem Opening.opened (h : Opening old want (e :: l) q) (hport : q.nodePorts[e.1]? = none)
    {t : Chains} (ht : rulesOf t "INPUT" = if acceptRule e.1 e.2 ∈ q.inputRules then q.inputRules
      else q.inputRules ++ [acceptRule e.1 e.2]) :
    Opening old want l { q with filter := t, nodePorts := q.nodePorts.insert e.1 e.2 } := by
  obtain ⟨hfresh, hnodup⟩ := List.nodup_cons.mp h.keys
  refine ⟨h.accepts.opened hport ht, hnodup, fun k v => ?_⟩
  rw [← h.ports k v, lookup_insert, List.mem_cons]
  by_cases hk : e.1 = k
  · -- the port is opened here, and only here
    have hl : (k, v) ∉ l := fun hmem => hfresh (hk ▸ List.mem_map_of_mem hmem)
    have he : (k, v) = e ↔ e.2 = v := by rw [← hk, Prod.ext_iff]; simp [eq_comm]
    rw [hk] at hport
    simp [hk, hl, he, hport]
  · have he : (k, v) ≠ e := fun he => hk (by rw [← he])
    simp [hk, he]

theorem openNodePort_triple (e : ℤ × String) (l : List (ℤ × String)) :
    Triple (Opening old want (e :: l)) (openNodePort e.1 e.2) fun _ => Opening old want l := by
  refine (Triple.asks (Q := fun opened q => Opening old want (e :: l) q ∧ opened = q.nodePorts)
    fun q hq => ⟨hq, rfl⟩).bind fun opened => ?_
  by_cases hport : e.1 ∈ opened
  · rw [if_pos hport]
    refine Triple.pure fun q hq => hq.1.skip ?_
    rw [← hq.2]
    exact Option.isSome_iff_ne_none.mp (ExtTreeMap.isSome_getElem?_iff_mem.mpr hport)
  · rw [if_neg hport]
    refine (onFilter_triple (Q := fun _ q =>
      Opening old want l { q with nodePorts := q.nodePorts.insert e.1 e.2 })
        fun q t hq ht => ?_).bind fun _ => Triple.update fun q hq => hq
    exact hq.1.opened (by rw [← hq.2]; simpa using hport) (appendUnique_ok ht)

/-- While the ports `l` are still to be gone through. -/
structure Closing (old want : ExtTreeMap ℤ String) (l : List (ℤ × String)) (q : ServiceProxy) :
    Prop where
  accepts : Matches q
  keys : (l.map Prod.fst).Nodup
  recorded : ∀ e ∈ l, q.nodePorts[e.1]? = some e.2
  ports : ∀ (k : ℤ) (v : String),
    (q.nodePorts[k]? = some v ∧ (k ∈ want ∨ k ∉ l.map Prod.fst)) ↔
      (old[k]? = some v ∧ k ∈ want)

theorem Closing.skip (h : Closing old want (e :: l) q) (hkeep : e.1 ∈ want) :
    Closing old want l q := by
  refine ⟨h.accepts, (List.nodup_cons.mp h.keys).2,
    fun d hd => h.recorded d (List.mem_cons_of_mem e hd), fun k v => ?_⟩
  rw [← h.ports k v, List.map_cons, List.mem_cons, not_or]
  refine and_congr_right fun _ => or_congr_right' fun hk => (and_iff_right ?_).symm
  rintro rfl
  exact hk hkeep

theorem Closing.closed (h : Closing old want (e :: l) q) (hkeep : e.1 ∉ want) {t : Chains}
    (ht : rulesOf t "INPUT" = q.inputRules.erase (acceptRule e.1 e.2)) :
    Closing old want l { q with filter := t, nodePorts := q.nodePorts.erase e.1 } := by
  obtain ⟨hfresh, hnodup⟩ := List.nodup_cons.mp h.keys
  refine ⟨h.accepts.closed (h.recorded e List.mem_cons_self) ht, hnodup, fun d hd => ?_,
    fun k v => ?_⟩
  · have hne : e.1 ≠ d.1 := fun he => hfresh (he ▸ List.mem_map_of_mem hd)
    exact (lookup_erase_ne _ hne).trans (h.recorded d (List.mem_cons_of_mem e hd))
  · rw [← h.ports k v, List.map_cons, List.mem_cons, not_or, lookup_erase]
    by_cases hk : e.1 = k
    · simp [hk, hk ▸ hkeep]
    · simp [hk, Ne.symm hk]

theorem closeNodePort_triple (e : ℤ × String) (l : List (ℤ × String)) :
    Triple (Closing old want (e :: l)) (if e.1 ∈ want then pure () else closeNodePort e.1 e.2)
      fun _ => Closing old want l := by
  by_cases hkeep : e.1 ∈ want
  · rw [if_pos hkeep]
    exact Triple.pure fun q hq => hq.skip hkeep
  · rw [if_neg hkeep]
    refine (onFilter_triple (Q := fun _ q =>
      Closing old want l { q with nodePorts := q.nodePorts.erase e.1 }) fun q t hq ht => ?_).bind
        fun _ => Triple.update fun q hq => hq
    exact hq.closed hkeep (deleteIfExists_ok ht)

end Loops

/-- The ports after a sync: those in use, a port on record with the protocol it has there. -/
structure PortsSynced (want : ExtTreeMap ℤ String) (p q : ServiceProxy) : Prop where
  accepts : Matches q
  ports : ∀ (k : ℤ) (v : String), q.nodePorts[k]? = some v ↔
    (p.nodePorts[k]? = some v ∨ p.nodePorts[k]? = none ∧ want[k]? = some v) ∧ k ∈ want

/-- What a program on the nat table leaves as it is. -/
def SameInput (p q : ServiceProxy) : Prop := q.filter = p.filter ∧ q.nodePorts = p.nodePorts

variable (orders : Orders) (services : List ServiceEndpoints)

theorem Opening.start (h : Matches p) {q : ServiceProxy}
    (hq : SameInput p q) :
    Opening p.nodePorts (wantedPorts services) (orders.opened (wantedPorts services).toList) q := by
  have hperm := orders.opened_perm (wantedPorts services).toList
  refine ⟨fun port proto => ?_, ?_, fun k v => ?_⟩
  · rw [inputRules, hq.1, hq.2]
    exact h port proto
  · rw [(hperm.map _).nodup_iff, ExtTreeMap.map_fst_toList_eq_keys]
    exact ExtTreeMap.nodup_keys
  · rw [hq.2, hperm.mem_iff, ExtTreeMap.mem_toList_iff_getElem?_eq_some]

theorem Closing.start {want : ExtTreeMap ℤ String} {q : ServiceProxy} (h : Matches q) :
    Closing q.nodePorts want (orders.closed q.nodePorts.toList) q := by
  have hperm := orders.closed_perm q.nodePorts.toList
  refine ⟨h, ?_, fun e he => ?_, fun k v => and_congr_right fun hk => or_iff_left ?_⟩
  · rw [(hperm.map _).nodup_iff, ExtTreeMap.map_fst_toList_eq_keys]
    exact ExtTreeMap.nodup_keys
  · exact ExtTreeMap.mem_toList_iff_getElem?_eq_some.mp (hperm.mem_iff.mp he)
  · have hmem : (k, v) ∈ orders.closed q.nodePorts.toList :=
      hperm.mem_iff.mpr (ExtTreeMap.mem_toList_iff_getElem?_eq_some.mpr hk)
    exact not_not.mpr (List.mem_map_of_mem hmem)

theorem syncNodePorts_triple (h : Matches p) :
    Triple (SameInput p)
      (syncNodePorts orders services) fun _ => PortsSynced (wantedPorts services) p := by
  refine ((Triple.forM fun e _ l => openNodePort_triple e l).mono
    (fun q hq => Opening.start orders services h hq) fun _ _ h => h).bind fun _ => ?_
  refine (Triple.asks (Q := fun opened q =>
    Opening p.nodePorts (wantedPorts services) [] q ∧ opened = q.nodePorts)
      fun q hq => ⟨hq, rfl⟩).bind fun opened => ?_
  intro q fs u q' gs hq hrun
  obtain ⟨hopen, rfl⟩ := hq
  have hclose := (Triple.forM fun e _ l => closeNodePort_triple e l) q fs u q' gs
    (Closing.start orders hopen.accepts) hrun
  refine ⟨hclose.accepts, fun k v => ?_⟩
  have hk := hclose.ports k v
  have hold := hopen.ports k v
  simp only [List.map_nil, List.not_mem_nil, not_false_eq_true, or_true, and_true, and_false,
    or_false] at hk hold
  rw [hk, hold]

theorem onNat_triple {act : Chains → Except String Chains} :
    Triple (SameInput p) (onNat act) fun _ => SameInput p :=
  Triple.commandMap fun _ _ hq _ => hq

theorem query_triple {α : Type} {read : ServiceProxy → α} :
    Triple (SameInput p) (command fun q => .ok (read q, q) : Program α) fun _ => SameInput p := by
  refine Triple.command fun q _ q' hq hact => ?_
  cases hact
  exact hq

theorem ensureChain_triple (chain : String) :
    Triple (SameInput p) (ensureChain chain) fun _ => SameInput p := by
  refine query_triple.bind fun ok => ?_
  split_ifs
  · exact onNat_triple
  · exact Triple.pure fun _ h => h

theorem ensureBaseChains_triple : Triple (SameInput p) ensureBaseChains fun _ => SameInput p :=
  (ensureChain_triple markChain).bind fun _ => onNat_triple.bind fun _ =>
    (ensureChain_triple servicesChain).bind fun _ => onNat_triple.bind fun _ =>
      onNat_triple.bind fun _ => onNat_triple

theorem populateServiceChain_triple (chain : String) (svc : ServiceEndpoints) :
    Triple (SameInput p) (populateServiceChain chain svc) fun _ => SameInput p :=
  onNat_triple.bind fun _ => onNat_triple.bind fun _ =>
    Triple.forM (P := fun _ => SameInput p) fun _ _ _ => onNat_triple

theorem appendIf_triple {c : Prop} [Decidable c] {chain : String} {r : Rule} :
    Triple (SameInput p) (appendIf c chain r) fun _ => SameInput p := by
  unfold appendIf
  split_ifs
  · exact onNat_triple
  · exact Triple.pure fun _ h => h

theorem populateServicesChain_triple (hash : String → String) :
    Triple (SameInput p) (populateServicesChain hash services) fun _ => SameInput p :=
  onNat_triple.bind fun _ => Triple.forM (P := fun _ => SameInput p) fun _ _ _ =>
    appendIf_triple.bind fun _ => appendIf_triple

theorem cleanupStaleChains_triple (desired : List String) :
    Triple (SameInput p) (cleanupStaleChains orders desired) fun _ => SameInput p := by
  refine query_triple.bind fun chains => Triple.forM (P := fun _ => SameInput p) fun c _ _ => ?_
  split_ifs
  · exact Triple.pure fun _ h => h
  · exact onNat_triple.bind fun _ => onNat_triple

theorem sync_triple (hash : String → String) (h : Matches p) :
    Triple (SameInput p) (sync hash orders services)
      fun _ => PortsSynced (wantedPorts services) p :=
  (ensureBaseChains_triple.label _).bind fun _ =>
    (Triple.forM (P := fun _ => SameInput p) fun svc _ _ =>
      ((ensureChain_triple _).label _).bind fun _ =>
        (populateServiceChain_triple _ svc).label _).bind fun _ =>
    ((populateServicesChain_triple services hash).label _).bind fun _ =>
    ((cleanupStaleChains_triple orders _).label _).bind fun _ =>
    (syncNodePorts_triple orders services h).label _

end Programs

section Tables

/-- The services have NodePorts of their own. -/
structure Tabled (services : List ServiceEndpoints) : Prop where
  distinct : (services.map ServiceEndpoints.nodePort).Nodup
  ports : ∀ svc ∈ services, PortInRange svc.nodePort
  protocols : ∀ svc ∈ services, KnownProtocol svc.proto

def Recorded (p : ServiceProxy) (services : List ServiceEndpoints) : Prop :=
  ∀ (port : ℤ) (proto : String), p.nodePorts[port]? = some proto ↔
    ∃ svc ∈ services, svc.nodePort = port ∧ svc.proto = proto

/-- One accept rule for each service, with its port and protocol, and all of them on record. -/
structure Follows (p : ServiceProxy) (services : List ServiceEndpoints) : Prop where
  rules : (p.inputRules.filter isAcceptRule).Perm
    (services.map fun svc => acceptRule svc.nodePort svc.proto)
  recorded : Recorded p services

def Compatible (old new : List ServiceEndpoints) : Prop :=
  ∀ svc ∈ old, ∀ svc' ∈ new, svc.nodePort = svc'.nodePort → svc.proto = svc'.proto

variable {p q : ServiceProxy} {old services : List ServiceEndpoints}

theorem Tabled.unique (h : Tabled services) {svc svc' : ServiceEndpoints} (hsvc : svc ∈ services)
    (hsvc' : svc' ∈ services) (hport : svc.nodePort = svc'.nodePort) : svc = svc' :=
  List.inj_on_of_nodup_map h.distinct hsvc hsvc' hport

theorem Tabled.lookup_wantedPorts (h : Tabled services) (port : ℤ) (proto : String) :
    (wantedPorts services)[port]? = some proto ↔
      ∃ svc ∈ services, svc.nodePort = port ∧ svc.proto = proto := by
  have hfound : ∀ v, (wantedPorts services)[port]? = some v →
      ∃ svc ∈ services, svc.nodePort = port ∧ svc.proto = v := by
    intro v hv
    obtain ⟨svc, hsvc, -, hport, hproto⟩ :=
      mem_wantedPorts services (ExtTreeMap.mem_toList_iff_getElem?_eq_some.mpr hv)
    exact ⟨svc, hsvc, hport.symm, hproto.symm⟩
  refine ⟨hfound proto, ?_⟩
  rintro ⟨svc, hsvc, hport, hproto⟩
  have hpos : 0 < svc.nodePort := by
    have hrange := (h.ports svc hsvc).1
    omega
  have hkey : port ∈ ((services.filter fun svc => 0 < svc.nodePort).map fun svc =>
      (svc.nodePort, svc.proto)).map Prod.fst := by
    rw [List.map_map]
    exact List.mem_map.mpr ⟨svc, List.mem_filter.mpr ⟨hsvc, by simpa using hpos⟩, hport⟩
  obtain ⟨v, -, hv⟩ := lookup_written (∅ : ExtTreeMap ℤ String) hkey
  obtain ⟨svc', hsvc', hport', hproto'⟩ := hfound v hv
  obtain rfl := h.unique hsvc hsvc' (hport.trans hport'.symm)
  exact hv.trans (by rw [← hproto', hproto])

theorem Matches.follows_iff (h : Matches p) (ht : Tabled services) :
    Follows p services ↔ Recorded p services := by
  refine ⟨Follows.recorded, fun hrec => ⟨?_, hrec⟩⟩
  have hnodup : (services.map fun svc => acceptRule svc.nodePort svc.proto).Nodup :=
    (List.Nodup.of_map _ ht.distinct).map_on fun svc hsvc svc' hsvc' he =>
      ht.unique hsvc hsvc' (acceptRule_inj.mp he).1
  rw [List.perm_iff_count]
  intro r
  by_cases hr : isAcceptRule r
  · rw [List.count_filter hr]
    obtain ⟨port, proto, rfl⟩ := isAcceptRule_iff.mp hr
    rw [h port proto, hnodup.count]
    refine if_congr ?_ rfl rfl
    rw [hrec port proto, List.mem_map]
    simp only [acceptRule_inj]
  · rw [List.count_eq_zero_of_not_mem, List.count_eq_zero_of_not_mem]
    · intro hmem
      obtain ⟨svc, -, rfl⟩ := List.mem_map.mp hmem
      exact hr (isAcceptRule_iff.mpr ⟨_, _, rfl⟩)
    · exact fun hmem => hr (List.mem_filter.mp hmem).2

/-- After a sync the record is that of the new table exactly if no port changed its protocol. -/
theorem PortsSynced.recorded_iff (h : PortsSynced (wantedPorts services) p q)
    (hold : Recorded p old) (ht : Tabled services) :
    Recorded q services ↔ Compatible old services := by
  have hwant (k : ℤ) : k ∈ wantedPorts services ↔ ∃ svc ∈ services, svc.nodePort = k := by
    rw [← ExtTreeMap.isSome_getElem?_iff_mem, Option.isSome_iff_exists]
    simp only [ht.lookup_wantedPorts]
    constructor
    · rintro ⟨_, svc, hsvc, hport, -⟩
      exact ⟨svc, hsvc, hport⟩
    · rintro ⟨svc, hsvc, hport⟩
      exact ⟨_, svc, hsvc, hport, rfl⟩
  constructor
  · intro hrec svc hsvc svc' hsvc' hport
    have hkept : q.nodePorts[svc.nodePort]? = some svc.proto :=
      (h.ports _ _).mpr ⟨.inl ((hold _ _).mpr ⟨svc, hsvc, rfl, rfl⟩),
        (hwant _).mpr ⟨svc', hsvc', hport.symm⟩⟩
    obtain ⟨svc'', hsvc'', hport'', hproto⟩ := (hrec _ _).mp hkept
    rw [← hproto, ht.unique hsvc'' hsvc' (hport''.trans hport)]
  · intro hcompat port proto
    rw [h.ports]
    constructor
    · rintro ⟨hp | ⟨-, hp⟩, hmem⟩
      · obtain ⟨svc, hsvc, hport, hproto⟩ := (hold _ _).mp hp
        obtain ⟨svc', hsvc', hport'⟩ := (hwant _).mp hmem
        have hsame := hcompat svc hsvc svc' hsvc' (hport.trans hport'.symm)
        exact ⟨svc', hsvc', hport', hsame.symm.trans hproto⟩
      · exact (ht.lookup_wantedPorts _ _).mp hp
    · rintro ⟨svc', hsvc', hport', hproto'⟩
      refine ⟨?_, (hwant _).mpr ⟨svc', hsvc', hport'⟩⟩
      cases hp : p.nodePorts[port]? with
      | none =>
        exact .inr ⟨rfl, (ht.lookup_wantedPorts _ _).mpr ⟨svc', hsvc', hport', hproto'⟩⟩
      | some v =>
        obtain ⟨svc, hsvc, hport, hproto⟩ := (hold _ _).mp hp
        have hsame := hcompat svc hsvc svc' hsvc' (hport.trans hport'.symm)
        exact .inl (by rw [← hproto, hsame, hproto'])

end Tables

section Runs
variable (hash : String → String)

/-- A sync with its table, the orders of its maps and the faults that it meets. -/
structure SyncCall where
  services : List ServiceEndpoints
  orders : Orders
  faults : List (Option String) := []

def afterSync (p : ServiceProxy) (c : SyncCall) : ServiceProxy :=
  step hash p (.sync c.services c.orders c.faults)

/-- A sync with a valid table whose iptables calls all succeed. -/
structure Succeeds (p : ServiceProxy) (c : SyncCall) : Prop where
  table : Tabled c.services
  ok : ∃ w, sync hash c.orders c.services (p, c.faults) = .ok () w

structure Unopened (p : ServiceProxy) : Prop where
  ports : p.nodePorts = ∅
  rules : ∀ r ∈ p.inputRules, isAcceptRule r = false

variable {hash} {p : ServiceProxy}

theorem Unopened.accepts (h : Unopened p) : Matches p := by
  intro port proto
  rw [if_neg (by simp [h.ports]), List.count_eq_zero]
  intro hmem
  exact absurd (h.rules _ hmem) (by simpa using isAcceptRule_iff.mpr ⟨port, proto, rfl⟩)

theorem Unopened.recorded (h : Unopened p) : Recorded p [] := by
  intro port proto
  simp [h.ports]

theorem Succeeds.synced {c : SyncCall} (h : Succeeds hash p c) (hp : Matches p) :
    PortsSynced (wantedPorts c.services) p (afterSync hash p c) := by
  obtain ⟨w, hw⟩ := h.ok
  simp only [afterSync, step, hw]
  exact sync_triple c.orders c.services hash hp p c.faults () w.1 w.2 ⟨rfl, rfl⟩ hw

/-- The rules follow every table of a run exactly if every two tables in a row are compatible. -/
theorem follows_iff_chain {old : List ServiceEndpoints} {calls : List SyncCall} (hp : Matches p)
    (hold : Recorded p old) (h : Guarded (afterSync hash) (Succeeds hash) p calls) :
    (∀ xs c, xs ++ [c] <+: calls → Follows (run (afterSync hash) p (xs ++ [c])) c.services) ↔
      List.IsChain Compatible (old :: calls.map SyncCall.services) := by
  induction calls generalizing p old with
  | nil => simp
  | cons c calls ih =>
    have hsynced := h.1.synced hp
    have hfollows := (hsynced.accepts.follows_iff h.1.table).trans
      (hsynced.recorded_iff hold h.1.table)
    rw [List.map_cons, List.isChain_cons_cons]
    constructor
    · intro hall
      have hfirst := hall [] c (by simp)
      refine ⟨hfollows.mp hfirst, (ih hsynced.accepts hfirst.recorded h.2).mp fun xs d hpre => ?_⟩
      exact hall (c :: xs) d (List.cons_prefix_cons.mpr ⟨rfl, hpre⟩)
    · rintro ⟨hcompat, hchain⟩
      have hfirst := hfollows.mpr hcompat
      rintro (_ | ⟨x, xs⟩) d hpre
      · obtain rfl : d = c := (List.cons_prefix_cons.mp hpre).1
        exact hfirst
      · obtain ⟨rfl, hrest⟩ := List.cons_prefix_cons.mp hpre
        exact (ih hsynced.accepts hfirst.recorded h.2).mpr hchain xs d hrest

/-- From a fresh proxy, the accept rules follow the service table through a run of syncs exactly
    if no NodePort changes its protocol from one table to the next. -/
theorem node_port_rules_follow_iff {calls : List SyncCall} (hp : Unopened p)
    (h : Guarded (afterSync hash) (Succeeds hash) p calls) :
    (∀ xs c, xs ++ [c] <+: calls → Follows (run (afterSync hash) p (xs ++ [c])) c.services) ↔
      List.IsChain Compatible (calls.map SyncCall.services) := by
  rw [follows_iff_chain hp.accepts hp.recorded h]
  cases calls with
  | nil => simp
  | cons c calls =>
    rw [List.map_cons, List.isChain_cons_cons]
    exact and_iff_right fun svc hsvc => absurd hsvc List.not_mem_nil

/-- Without a fault a sync succeeds on a node that only the proxy has worked on. -/
theorem Succeeds.of_installed {services : List ServiceEndpoints} {orders : Orders}
    (hp : Installed p) (ht : Tabled services) (h : Programmable hash services) :
    Succeeds hash p ⟨services, orders, []⟩ :=
  ⟨ht, _, (sync_effect hash orders services).succeeds hp h⟩

private def site (protocol : String) : ServiceEndpoints :=
  { name := "web", clusterIP := "10.43.0.1", port := 80, nodePort := 30080, targetPort := 8080
    protocol := protocol, endpoints := [] }

private def dns : ServiceEndpoints :=
  { name := "dns", clusterIP := "10.43.0.2", port := 53, nodePort := 30053, targetPort := 53
    protocol := "udp", endpoints := [] }

private def listed (services : List ServiceEndpoints) : SyncCall := ⟨services, .listed, []⟩

private theorem tabled_site_dns : Tabled [site "", dns] :=
  ⟨by decide +kernel, by decide +kernel, by decide +kernel⟩

private theorem tabled_site (protocol : String) (h : KnownProtocol (site protocol).proto) :
    Tabled [site protocol] :=
  ⟨List.nodup_singleton _, by simp [site, PortInRange], by simpa using h⟩

private theorem blankNode_unopened : Unopened blankNode := ⟨rfl, by decide +kernel⟩

/-- A second service appears, and the first one's default protocol is spelled out. -/
theorem node_port_rules_follow_iff_added :
    let first := [listed [site ""], listed [site "", dns]]
    Follows (run (afterSync id) blankNode first) [site "", dns] ∧
      Follows (run (afterSync id) blankNode (first ++ [listed [site "tcp"]])) [site "tcp"] := by
  intro first
  have hinstalled := blankNode_fresh.installed
  have hserved :
      Guarded (afterSync id) (Succeeds id) blankNode (first ++ [listed [site "tcp"]]) := by
    refine ⟨.of_installed hinstalled (tabled_site "" (by decide)) (by decide +kernel), ?_⟩
    refine ⟨.of_installed (hinstalled.step id _) tabled_site_dns (by decide +kernel), ?_⟩
    exact ⟨.of_installed ((hinstalled.step id _).step id _) (tabled_site "tcp" (by decide))
      (by decide +kernel), trivial⟩
  have hfollows := (node_port_rules_follow_iff blankNode_unopened hserved).mpr (by
    simp only [first, List.cons_append, List.nil_append, List.map_cons, List.map_nil,
      List.isChain_cons_cons, List.isChain_singleton, Compatible]
    decide +kernel)
  exact ⟨hfollows [listed [site ""]] _ (List.prefix_append _ _), hfollows first _ List.prefix_rfl⟩

/-- A service that turns from TCP to UDP keeps its TCP rule and gets none for UDP. -/
theorem protocol_change_keeps_rule :
    Unopened blankNode ∧
    Guarded (afterSync id) (Succeeds id) blankNode [listed [site "tcp"], listed [site "udp"]] ∧
    (run (afterSync id) blankNode [listed [site "tcp"], listed [site "udp"]]).inputRules =
      [acceptRule 30080 "tcp"] ∧
    ¬ Follows (run (afterSync id) blankNode [listed [site "tcp"], listed [site "udp"]])
      [site "udp"] := by
  have hinstalled := blankNode_fresh.installed
  refine ⟨blankNode_unopened, ⟨?_, ?_, trivial⟩, by decide +kernel, fun h => ?_⟩
  · exact .of_installed hinstalled (tabled_site "tcp" (by decide)) (by decide +kernel)
  · exact .of_installed (hinstalled.step id _) (tabled_site "udp" (by decide)) (by decide +kernel)
  · have hudp := (h.recorded 30080 "udp").mpr ⟨site "udp", List.mem_singleton_self _, rfl, rfl⟩
    revert hudp
    decide +kernel

end Runs
end Smith.ServiceProxy
