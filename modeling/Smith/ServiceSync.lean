import Smith.Runs
import Smith.ServiceChains

set_option autoImplicit false

/-!
# What a sync does

The ports of services are opened and closed on the proxy's own record of them. With the nat
chains this gives the whole of `Sync`: it succeeds without a fault exactly if iptables accepts
every rule, and then the tables are a function of what they were. Failed syncs and restarts of
the agent keep the invariant.
-/
namespace Smith.ServiceProxy
open Commands FiniteMaps Iptables Overwrites Runs Std

section NodePorts
variable {port : ℤ} {proto : String} {p : ServiceProxy}

def openedPort (port : ℤ) (proto : String) (p : ServiceProxy) : ServiceProxy :=
  if port ∈ p.nodePorts then p
  else { p with
    filter := withRule "INPUT" (acceptRule port proto) p.filter
    nodePorts := p.nodePorts.insert port proto }

def closedPort (port : ℤ) (proto : String) (p : ServiceProxy) : ServiceProxy :=
  { p with
    filter := withoutRule "INPUT" (acceptRule port proto) p.filter
    nodePorts := p.nodePorts.erase port }

theorem onFilter_effect {P Q : ServiceProxy → Prop} {act : Chains → Except String Chains}
    {taken : Prop} {g : Chains → Chains} (hP : ∀ p, P p → Installed p)
    (hok : ∀ p, P p → taken → act p.filter = .ok (g p.filter))
    (herror : ∀ p, P p → ¬taken → ∃ e, act p.filter = .error e)
    (hQ : ∀ p, P p → taken → Q { p with filter := g p.filter }) :
    Effect Installed P Q (onFilter act) taken taken
      fun p => { p with filter := g p.filter } := by
  refine Effect.command hP (fun p hp ht => ?_) (fun p hp ht => ?_) hQ
  · rw [hok p hp ht]
    rfl
  · obtain ⟨e, he⟩ := herror p hp ht
    exact ⟨e, by rw [he]; rfl⟩

theorem Installed.lookup_input (h : Installed p) :
    p.filter["INPUT"]? = some (rulesOf p.filter "INPUT") := by
  obtain ⟨rules, hrules⟩ := Option.isSome_iff_exists.mp
    (ExtTreeMap.isSome_getElem?_iff_mem.mpr h.input)
  rw [rulesOf, hrules]
  rfl

theorem Installed.slot_input (h : Installed p) (hr : (acceptRule port proto).Accepted) :
    p.filter.slot "INPUT" (acceptRule port proto) = .ok (rulesOf p.filter "INPUT") :=
  Chains.slot_eq h.lookup_input trivial hr

theorem mem_rulesOf_withRule (t : Chains) (c : String) (r : Rule) :
    r ∈ rulesOf (withRule c r t) c := by
  unfold withRule
  split_ifs with h
  · exact h
  · simp [rulesOf]

theorem rulesOf_subset_withRule (t : Chains) (c : String) (r : Rule) :
    rulesOf t c ⊆ rulesOf (withRule c r t) c := by
  unfold withRule
  split_ifs with h
  · exact fun _ hx => hx
  · intro x hx
    simp [rulesOf] at hx ⊢
    exact .inl hx

theorem Installed.mem_input (h : Installed p) (hport : p.nodePorts[port]? = some proto) :
    (acceptRule port proto).Accepted ∧ acceptRule port proto ∈ rulesOf p.filter "INPUT" := by
  obtain ⟨hr, rules, hl, hmem⟩ := h.opened port proto hport
  refine ⟨hr, ?_⟩
  rw [rulesOf, hl]
  exact hmem

theorem Installed.withPorts (h : Installed p) {t : Chains} {ports : ExtTreeMap ℤ String}
    (ht : "INPUT" ∈ t) (hports : ∀ (port : ℤ) (proto : String), ports[port]? = some proto →
      (acceptRule port proto).Accepted ∧ acceptRule port proto ∈ rulesOf t "INPUT") :
    Installed { p with filter := t, nodePorts := ports } where
  builtin := h.builtin
  input := ht
  mark := h.mark
  owned := h.owned
  jumps := h.jumps
  opened port proto hl := by
    obtain ⟨rules, hrules⟩ := Option.isSome_iff_exists.mp
      (ExtTreeMap.isSome_getElem?_iff_mem.mpr ht)
    refine ⟨(hports port proto hl).1, rules, hrules, ?_⟩
    have hmem := (hports port proto hl).2
    rwa [rulesOf, hrules] at hmem

theorem mem_withRule {t : Chains} {c d : String} {r : Rule} (h : d ∈ t) : d ∈ withRule c r t := by
  unfold withRule
  split_ifs
  · exact h
  · exact ExtTreeMap.mem_insert.mpr (.inr h)

theorem openNodePort_effect (port : ℤ) (proto : String) :
    Effect Installed Installed Installed (openNodePort port proto) True
      (acceptRule port proto).Accepted (openedPort port proto) := by
  refine Effect.asks fun ports => ?_
  by_cases hport : port ∈ ports
  · rw [if_pos hport]
    refine Effect.skip.mono (fun _ h => h.1) (fun _ h => h) id (fun _ => trivial) fun p hp _ => ?_
    rw [openedPort, if_pos (hp.2 ▸ hport)]
    rfl
  · rw [if_neg hport]
    have happend : Effect Installed (fun p => Installed p ∧ p.nodePorts = ports)
        (fun p => Installed p ∧ (acceptRule port proto).Accepted ∧
          acceptRule port proto ∈ rulesOf p.filter "INPUT")
        (onFilter (·.appendUnique "INPUT" (acceptRule port proto)))
        (acceptRule port proto).Accepted (acceptRule port proto).Accepted
        fun p => { p with filter := withRule "INPUT" (acceptRule port proto) p.filter } := by
      refine onFilter_effect (fun p hp => hp.1) (fun p hp hr => ?_) (fun p hp hr => ?_)
        fun p hp hr => ⟨?_, hr, mem_rulesOf_withRule _ _ _⟩
      · rw [Chains.appendUnique, hp.1.slot_input hr]
        exact (apply_ite Except.ok _ _ _).symm
      · obtain ⟨e, he⟩ := @Chains.slot_rejected p.filter "INPUT" _ hr
        exact ⟨e, by rw [Chains.appendUnique, he]; rfl⟩
      · refine hp.1.withPorts (mem_withRule hp.1.input) fun port' proto' hl => ?_
        obtain ⟨hr', hmem⟩ := hp.1.mem_input hl
        exact ⟨hr', rulesOf_subset_withRule _ _ _ hmem⟩
    have hrecord : Effect Installed (fun p => Installed p ∧ (acceptRule port proto).Accepted ∧
          acceptRule port proto ∈ rulesOf p.filter "INPUT") Installed
        (setNodePorts (·.insert port proto)) True True
        fun p => { p with nodePorts := p.nodePorts.insert port proto } := by
      refine Effect.update fun p hp => hp.1.withPorts hp.1.input fun port' proto' hl => ?_
      rw [lookup_insert] at hl
      split_ifs at hl with hk
      · rw [← hk, ← Option.some.inj hl]
        exact hp.2
      · exact hp.1.mem_input hl
    refine (happend.seq hrecord).mono (fun _ h => h) (fun _ h => h) (fun _ => trivial)
      (fun h => ⟨h, trivial⟩) fun p hp _ => ?_
    rw [openedPort, if_neg (hp.2 ▸ hport)]
    rfl

theorem acceptRule_ne {port' : ℤ} {proto' : String} (h : port' ≠ port) :
    acceptRule port' proto' ≠ acceptRule port proto := by
  simp [acceptRule, h]

theorem closeNodePort_effect (port : ℤ) (proto : String) :
    Effect Installed (fun p => Installed p ∧ p.nodePorts[port]? = some proto) Installed
      (closeNodePort port proto) True True (closedPort port proto) := by
  have hdelete : Effect Installed (fun p => Installed p ∧ p.nodePorts[port]? = some proto)
      (fun p => Installed { p with nodePorts := p.nodePorts.erase port })
      (onFilter (·.deleteIfExists "INPUT" (acceptRule port proto))) True True
      fun p => { p with filter := withoutRule "INPUT" (acceptRule port proto) p.filter } := by
    refine onFilter_effect (P := fun p => Installed p ∧ p.nodePorts[port]? = some proto)
      (fun p hp => hp.1) (fun p hp _ => ?_) (fun _ _ h => absurd trivial h) fun p hp _ => ?_
    · obtain ⟨hr, hmem⟩ := hp.1.mem_input hp.2
      rw [Chains.deleteIfExists, hp.1.slot_input hr]
      exact if_pos hmem
    · refine hp.1.withPorts ExtTreeMap.mem_insert_self fun port' proto' hl => ?_
      rw [lookup_erase] at hl
      split_ifs at hl with hk
      obtain ⟨hr, hmem⟩ := hp.1.mem_input hl
      refine ⟨hr, ?_⟩
      rw [withoutRule, rulesOf, lookup_insert_self]
      exact (List.mem_erase_of_ne (acceptRule_ne (Ne.symm hk))).mpr hmem
  have hrecord : Effect Installed (fun p => Installed { p with nodePorts := p.nodePorts.erase port })
      Installed (setNodePorts (·.erase port)) True True
      fun p => { p with nodePorts := p.nodePorts.erase port } :=
    Effect.update fun _ hp => hp
  exact (hdelete.seq hrecord).mono (fun _ h => h) (fun _ h => h) And.left (fun h => ⟨h, h⟩)
    fun _ _ _ => rfl

section Ports
variable (orders : Orders) (services : List ServiceEndpoints)

def portsSynced (p : ServiceProxy) : ServiceProxy :=
  let q := (orders.opened (wantedPorts services).toList).foldl (fun q e => openedPort e.1 e.2 q) p
  (orders.closed q.nodePorts.toList).foldl
    (fun q e => if e.1 ∈ wantedPorts services then q else closedPort e.1 e.2 q) q

theorem nat_openedPort (port : ℤ) (proto : String) (p : ServiceProxy) :
    (openedPort port proto p).nat = p.nat := by
  unfold openedPort
  split_ifs <;> rfl

theorem nat_portsSynced (p : ServiceProxy) : (portsSynced orders services p).nat = p.nat := by
  have hopen : ∀ (l : List (ℤ × String)) (q : ServiceProxy),
      (l.foldl (fun q e => openedPort e.1 e.2 q) q).nat = q.nat := by
    intro l
    induction l with
    | nil => exact fun _ => rfl
    | cons e l ih => exact fun q => (ih _).trans (nat_openedPort e.1 e.2 q)
  have hclose : ∀ (l : List (ℤ × String)) (q : ServiceProxy), (l.foldl (fun q e =>
      if e.1 ∈ wantedPorts services then q else closedPort e.1 e.2 q) q).nat = q.nat := by
    intro l
    induction l with
    | nil => exact fun _ => rfl
    | cons e l ih =>
      intro q
      rw [List.foldl_cons, ih]
      split_ifs <;> rfl
  exact (hclose _ _).trans (hopen _ _)

theorem mem_wantedPorts {port : ℤ} {proto : String}
    (h : (port, proto) ∈ (wantedPorts services).toList) :
    ∃ svc ∈ services, 0 < svc.nodePort ∧ port = svc.nodePort ∧ proto = svc.proto := by
  rw [ExtTreeMap.mem_toList_iff_getElem?_eq_some] at h
  obtain ⟨svc, hsvc, he⟩ := List.mem_map.mp (mem_of_lookup h)
  rw [List.mem_filter] at hsvc
  simp only [Prod.mk.injEq] at he
  exact ⟨svc, hsvc.1, by simpa using hsvc.2, he.1.symm, he.2.symm⟩

theorem closeNodePorts_effect (l : List (ℤ × String)) :
    Effect Installed (fun p => Installed p ∧ (∀ e ∈ l, p.nodePorts[e.1]? = some e.2) ∧
        (l.map Prod.fst).Nodup) Installed
      (l.forM fun e => if e.1 ∈ wantedPorts services then pure () else closeNodePort e.1 e.2)
      True True fun p => l.foldl
        (fun q e => if e.1 ∈ wantedPorts services then q else closedPort e.1 e.2 q) p := by
  let P (l : List (ℤ × String)) (p : ServiceProxy) : Prop :=
    Installed p ∧ (∀ e ∈ l, p.nodePorts[e.1]? = some e.2) ∧ (l.map Prod.fst).Nodup
  have htail (e : ℤ × String) (l : List (ℤ × String)) (p : ServiceProxy) (h : P (e :: l) p) :
      P l p :=
    ⟨h.1, (List.forall_mem_cons.mp h.2.1).2, (List.nodup_cons.mp h.2.2).2⟩
  have hbody (e : ℤ × String) (l : List (ℤ × String)) : Effect Installed (P (e :: l)) (P l)
      (if e.1 ∈ wantedPorts services then pure () else closeNodePort e.1 e.2) True True
      fun q => if e.1 ∈ wantedPorts services then q else closedPort e.1 e.2 q := by
    by_cases hkeep : e.1 ∈ wantedPorts services
    · simp only [if_pos hkeep]
      exact Effect.skip.mono (fun p h => htail e l p h) (fun _ h => h) id id fun _ _ _ => rfl
    · simp only [if_neg hkeep]
      have hclose : Effect Installed (P (e :: l)) Installed (closeNodePort e.1 e.2) True True
          (closedPort e.1 e.2) :=
        (closeNodePort_effect e.1 e.2).mono (fun p h => ⟨h.1, h.2.1 e List.mem_cons_self⟩)
          (fun _ h => h) id id fun _ _ _ => rfl
      refine hclose.post fun p h _ hq => ⟨hq, fun d hd => ?_, (htail e l p h).2.2⟩
      have hne : e.1 ≠ d.1 := fun he =>
        (List.nodup_cons.mp h.2.2).1 (he ▸ List.mem_map_of_mem hd)
      simp only [closedPort, lookup_erase_ne _ hne]
      exact h.2.1 d (List.mem_cons_of_mem e hd)
  exact (Effect.forM fun e _ l => hbody e l).mono (fun _ h => h) (fun _ h => h.1)
    (fun _ => trivial) (fun _ _ _ => trivial) fun _ _ _ => rfl

theorem syncNodePorts_effect :
    Effect Installed Installed Installed (syncNodePorts orders services) True
      (∀ svc ∈ services, 0 < svc.nodePort → (acceptRule svc.nodePort svc.proto).Accepted)
      (portsSynced orders services) := by
  have hopen : Effect Installed Installed Installed _ _ _ _ :=
    Effect.forM (P := fun _ => Installed) (l := orders.opened (wantedPorts services).toList)
      fun e _ _ => openNodePort_effect e.1 e.2
  have hclose : Effect Installed Installed Installed
      (asks nodePorts >>= fun opened => (orders.closed opened.toList).forM fun e =>
        if e.1 ∈ wantedPorts services then pure () else closeNodePort e.1 e.2) True True
      fun q => (orders.closed q.nodePorts.toList).foldl
        (fun q e => if e.1 ∈ wantedPorts services then q else closedPort e.1 e.2 q) q := by
    refine Effect.asks fun ports => ?_
    have hperm := orders.closed_perm ports.toList
    refine (closeNodePorts_effect services (orders.closed ports.toList)).mono
      (fun p hp => ⟨hp.1, fun e he => ?_, ?_⟩) (fun _ h => h) id id fun p hp _ => by rw [hp.2]
    · rw [hp.2]
      exact ExtTreeMap.mem_toList_iff_getElem?_eq_some.mp (hperm.mem_iff.mp he)
    · rw [(hperm.map _).nodup_iff, ExtTreeMap.map_fst_toList_eq_keys]
      exact ExtTreeMap.nodup_keys
  refine (hopen.seq hclose).mono (fun _ h => h) (fun _ h => h) (fun _ => trivial)
    (fun h => ⟨fun e he => ?_, trivial⟩) fun _ _ _ => rfl
  obtain ⟨svc, hsvc, hpos, hport, hproto⟩ :=
    mem_wantedPorts services ((orders.opened_perm _).mem_iff.mp he)
  rw [hport, hproto]
  exact h svc hsvc hpos

end Ports
end NodePorts

section Sync
variable (hash : String → String) (orders : Orders) (services : List ServiceEndpoints)

/-- The rules that a sync adds, none of them rejected. -/
def Programmable : Prop :=
  (∀ svc ∈ services, ∀ r ∈ serviceRules svc, r.Accepted) ∧
    ∀ r ∈ services.flatMap (dispatchRules hash), r.Accepted

instance : Decidable (Programmable hash services) :=
  inferInstanceAs (Decidable ((∀ svc ∈ services, ∀ r ∈ serviceRules svc, r.Accepted) ∧
    ∀ r ∈ services.flatMap (dispatchRules hash), r.Accepted))

def desiredChains : List String := services.map fun svc => serviceChain hash svc.name

def syncedChains (t : Chains) : Chains :=
  trimmed (desiredChains hash services)
    ((overwrite (baseChains t) (serviceChains hash services)).insert servicesChain
      (services.flatMap (dispatchRules hash)))

def synced (p : ServiceProxy) : ServiceProxy :=
  portsSynced orders services (p.mapNat (syncedChains hash services))

theorem target_of_mem_dispatchRules {svc : ServiceEndpoints} {r : Rule}
    (h : r ∈ dispatchRules hash svc) : r.target = .jump (serviceChain hash svc.name) := by
  rcases List.mem_append.mp h with h | h
  · split_ifs at h
    · rw [List.mem_singleton.mp h]
      rfl
    · exact absurd h List.not_mem_nil
  · split_ifs at h
    · rw [List.mem_singleton.mp h]
      rfl
    · exact absurd h List.not_mem_nil

/-- Once the dispatch chain is rebuilt, nothing refers to a stale chain. -/
theorem Installed.trimmed {p : ServiceProxy} (h : Installed p)
    (hl : p.nat[servicesChain]? = some (services.flatMap (dispatchRules hash))) :
    Trimmed (desiredChains hash services) p := by
  refine ⟨h, fun c rules r d hc hr ht hd => ?_⟩
  obtain rfl := h.jumps c rules r d hc hr ht hd
  rw [hl] at hc
  rw [← Option.some.inj hc] at hr
  obtain ⟨svc, hsvc, hr⟩ := List.mem_flatMap.mp hr
  rw [target_of_mem_dispatchRules hash hr, Target.jump.injEq] at ht
  exact ht ▸ List.mem_map_of_mem hsvc

theorem Programmable.nodePorts (h : Programmable hash services) :
    ∀ svc ∈ services, 0 < svc.nodePort → (acceptRule svc.nodePort svc.proto).Accepted := by
  intro svc hsvc hpos
  have hmem : nodePortRule svc (serviceChain hash svc.name) ∈ services.flatMap (dispatchRules hash) :=
    List.mem_flatMap.mpr ⟨svc, hsvc, List.mem_append.mpr (.inr (by simp [hpos]))⟩
  exact ⟨(h.2 _ hmem).1, (h.2 _ hmem).2.1, trivial⟩

theorem sync_effect :
    Effect Installed Installed Installed (sync hash orders services) (Programmable hash services)
      (Programmable hash services) (synced hash orders services) := by
  have hbase := ensureBaseChains_effect.label fun e => s!"ensure base chains: {e}"
  have hchains := rebuildServiceChains_effect hash services
  have hdispatch : Effect Installed _ (Trimmed (desiredChains hash services)) _ _ _ _ :=
    (populateServicesChain_effect hash services (desiredChains hash services ++ baseKnown)
      fun svc hsvc => List.mem_append_left _ (List.mem_map_of_mem hsvc)).post
      fun p _ _ h => h.1.trimmed hash services (lookup_insert_self _ _ _)
  have hcleanup := cleanupStaleChains_effect (desiredChains hash services) orders
  have hports := syncNodePorts_effect orders services
  have heffect := hbase.seq (hchains.seq
    ((hdispatch.label fun e => s!"populate {servicesChain}: {e}").seq
      ((hcleanup.label fun e => s!"cleanup stale chains: {e}").seq
        (hports.label fun e => s!"sync node ports: {e}"))))
  exact heffect.mono (fun _ h => h) (fun _ h => h) (fun h => ⟨h.2.1, h.2.2.1⟩)
    (fun h => ⟨trivial, h.1, h.2, trivial, h.nodePorts⟩) fun _ _ _ => rfl

end Sync

section Histories
variable (hash : String → String)

/-- A sync with the faults it meets, or a restart of the agent, which forgets the ports. -/
inductive Event where
  | sync (services : List ServiceEndpoints) (orders : Orders) (faults : List (Option String))
  | restart

def step (p : ServiceProxy) : Event → ServiceProxy
  | .sync services orders faults =>
    match sync hash orders services (p, faults) with
    | .ok _ w => w.1
    | .error _ w => w.1
  | .restart => { p with nodePorts := ∅ }

/-- A node before its first sync. Whatever its tables hold, none of it is the proxy's, and
    jumps are to chains that exist. -/
structure Fresh (p : ServiceProxy) : Prop where
  builtin : ∀ c ∈ builtinChains, c ∈ p.nat
  input : "INPUT" ∈ p.filter
  foreign : ∀ c ∈ p.nat, ¬HasPrefix c "SMITH-"
  resolved : ∀ (c : String) (rules : List Rule) (r : Rule) (d : String),
    p.nat[c]? = some rules → r ∈ rules → r.target = .jump d → d ∈ p.nat
  closed : p.nodePorts = ∅

theorem IsServiceChain.hasPrefix {c : String} (h : IsServiceChain c) : HasPrefix c "SMITH-" :=
  List.IsPrefix.trans (by decide) h

theorem Fresh.installed {p : ServiceProxy} (h : Fresh p) : Installed p where
  builtin := h.builtin
  input := h.input
  mark rules hl :=
    absurd (by decide) (h.foreign markChain (ExtTreeMap.isSome_getElem?_iff_mem.mp (by rw [hl]; rfl)))
  owned c hc hsmith := absurd hsmith (h.foreign c hc)
  jumps c rules r d hl hr ht hd := absurd hd.hasPrefix (h.foreign d (h.resolved c rules r d hl hr ht))
  opened port proto hl := by simp [h.closed] at hl

theorem Installed.step {p : ServiceProxy} (h : Installed p) (e : Event) :
    Installed (step hash p e) := by
  cases e with
  | restart => exact h.withPorts h.input (by simp)
  | sync services orders faults =>
    have heffect := sync_effect hash orders services
    cases hsync : sync hash orders services (p, faults) with
    | ok u w =>
      simp only [ServiceProxy.step, hsync]
      exact (heffect.done h hsync).2.2
    | error e w =>
      simp only [ServiceProxy.step, hsync]
      exact heffect.leaves h hsync

theorem Installed.run {p : ServiceProxy} (h : Installed p) (es : List Event) :
    Installed (run (ServiceProxy.step hash) p es) := by
  induction es generalizing p with
  | nil => exact h
  | cons e es ih => exact ih (h.step hash e)

def blankNode : ServiceProxy where
  nat := ((∅ : Chains).insert "PREROUTING" []).insert "OUTPUT" [] |>.insert "POSTROUTING" []
  filter := (∅ : Chains).insert "INPUT" []
  nodePorts := ∅

theorem blankNode_fresh : Fresh blankNode where
  builtin := by decide +kernel
  input := by decide +kernel
  foreign c hc :=
    (by decide +kernel : ∀ c ∈ blankNode.nat.keys, ¬HasPrefix c "SMITH-") c (ExtTreeMap.mem_keys.mpr hc)
  resolved c rules r d hl hr := by
    have hempty : ∀ (c : String) (rules : List Rule), blankNode.nat[c]? = some rules → rules = [] :=
      forall_lookup_iff.mpr (by decide +kernel)
    rw [hempty c rules hl] at hr
    exact absurd hr List.not_mem_nil
  closed := rfl

end Histories
end Smith.ServiceProxy
