import Smith.ServiceSync

set_option autoImplicit false

/-!
# What the programmed chains do to packets

After a successful `Sync` the proxy's chains are a function of the endpoint list alone. A packet
for a service is sent to one of its endpoints, by the draws of the random matches, and every
other packet passes.
-/
namespace Smith.ServiceProxy
open Commands FiniteMaps Iptables Overwrites Runs Std

section Table
variable (hash : String → String) (services : List ServiceEndpoints)

def smithChains : Chains :=
  ((overwrite ∅ (serviceChains hash services)).insert servicesChain
    (services.flatMap (dispatchRules hash))).insert markChain [markRule]

theorem lookup_ensured_ne {c d : String} (h : c ≠ d) (t : Chains) :
    (ensured c t)[d]? = t[d]? := by
  unfold ensured
  split_ifs
  · rfl
  · exact lookup_insert_ne t [] h

theorem lookup_withRule_ne {c d : String} (h : c ≠ d) (r : Rule) (t : Chains) :
    (withRule c r t)[d]? = t[d]? := by
  unfold withRule
  split_ifs
  · rfl
  · exact lookup_insert_ne t _ h

theorem lookup_baseChains {c : String} (hc : c ∉ baseKnown) (t : Chains) :
    (baseChains t)[c]? = t[c]? := by
  have hne : ∀ d ∈ baseKnown, d ≠ c := fun d hd h => hc (h ▸ hd)
  simp only [baseKnown, builtinChains, List.forall_mem_cons] at hne
  obtain ⟨hservices, hmark, hpre, hout, hpost, -⟩ := hne
  rw [baseChains, lookup_withRule_ne hpost, lookup_withRule_ne hout, lookup_withRule_ne hpre,
    lookup_ensured_ne hservices, lookup_withRule_ne hmark, lookup_ensured_ne hmark]

theorem Installed.lookup_markChain {p : ServiceProxy} (h : Installed p) :
    (baseChains p.nat)[markChain]? = some [markRule] := by
  rw [baseChains, lookup_withRule_ne (by decide), lookup_withRule_ne (by decide),
    lookup_withRule_ne (by decide), lookup_ensured_ne (by decide)]
  have hrules : (ensured markChain p.nat)[markChain]? = some [] ∨
      (ensured markChain p.nat)[markChain]? = some [markRule] := by
    unfold ensured
    split_ifs with hmem
    · obtain ⟨rules, hl⟩ := Option.isSome_iff_exists.mp
        (ExtTreeMap.isSome_getElem?_iff_mem.mpr hmem)
      rcases h.mark rules hl with rfl | rfl
      · exact .inl hl
      · exact .inr hl
    · exact .inl (lookup_insert_self _ _ _)
  unfold withRule rulesOf
  rcases hrules with hl | hl
  · simp [hl]
  · simp [hl]

theorem lookup_serviceChains_eq_none {c : String} (h : c ∉ desiredChains hash services) :
    (overwrite (∅ : Chains) (serviceChains hash services))[c]? = none := by
  rw [lookup_eq_none, serviceChains, List.map_map]
  exact h

theorem isServiceChain_of_mem {c : String} (h : c ∈ desiredChains hash services) :
    IsServiceChain c := by
  obtain ⟨svc, -, rfl⟩ := List.mem_map.mp h
  exact isServiceChain_serviceChain hash svc.name

/-- Whatever the table was, the proxy's chains are those of the endpoint list. -/
theorem Installed.lookup_syncedChains {p : ServiceProxy} (h : Installed p) {c : String}
    (hc : HasPrefix c "SMITH-") :
    (syncedChains hash services p.nat)[c]? = (smithChains hash services)[c]? := by
  rw [syncedChains, lookup_trimmed, smithChains]
  by_cases hservice : IsServiceChain c
  · rw [lookup_insert_ne _ _ hservice.ne_markChain.symm,
      lookup_insert_ne _ _ hservice.ne_servicesChain.symm,
      lookup_insert_ne _ _ hservice.ne_servicesChain.symm]
    by_cases hmem : c ∈ desiredChains hash services
    · rw [if_neg fun hs => hs.2 hmem, lookup_overwrite]
      obtain ⟨rules, -, hl⟩ := lookup_written (∅ : Chains) (l := serviceChains hash services)
        (k := c) (by rwa [serviceChains, List.map_map])
      rw [hl, Option.some_or]
    · rw [lookup_serviceChains_eq_none hash services hmem, if_pos ⟨hservice, hmem⟩]
  · have hmem : c ∉ desiredChains hash services :=
      fun hmem => hservice (isServiceChain_of_mem hash services hmem)
    rw [if_neg fun hs => hservice hs.1]
    rcases eq_or_ne c servicesChain with rfl | hne
    · rw [lookup_insert_self, lookup_insert_ne _ _ (by decide), lookup_insert_self]
    rcases eq_or_ne c markChain with rfl | hne'
    · rw [lookup_insert_self, lookup_insert_ne _ _ (by decide), lookup_overwrite,
        lookup_serviceChains_eq_none hash services hmem, Option.none_or, h.lookup_markChain]
    · rw [lookup_insert_ne _ _ hne.symm, lookup_insert_ne _ _ hne'.symm,
        lookup_insert_ne _ _ hne.symm, lookup_overwrite,
        lookup_serviceChains_eq_none hash services hmem, Option.none_or]
      have hbase : c ∉ baseKnown := by
        simp only [baseKnown, List.mem_cons, hne, hne', false_or]
        rintro hb
        exact absurd hc ((by decide : ∀ d ∈ builtinChains, ¬HasPrefix d "SMITH-") c hb)
      have hnone : p.nat[c]? = none := by
        by_contra hsome
        have hin : c ∈ p.nat := by
          rw [← ExtTreeMap.isSome_getElem?_iff_mem]
          exact Option.isSome_iff_ne_none.mpr hsome
        rcases h.owned c hin hc with rfl | rfl | hs
        · exact hne' rfl
        · exact hne rfl
        · exact hservice hs
      rw [lookup_baseChains hbase, hnone]

end Table

section Packets
variable {hash : String → String} {isLocal : String → Bool} {draws : ℕ → Bool}
  {svc : ServiceEndpoints} {services : List ServiceEndpoints} {pkt : Packet}

/-- The packets that a service is for. -/
def Addressed (isLocal : String → Bool) (svc : ServiceEndpoints) (pkt : Packet) : Prop :=
  pkt.proto = svc.proto ∧
    ((svc.clusterIP ≠ "" ∧ pkt.dst = svc.clusterIP ∧ pkt.dport = svc.port) ∨
      (0 < svc.nodePort ∧ isLocal pkt.dst = true ∧ pkt.dport = svc.nodePort))

theorem clusterRule_selects {chain : String} : (clusterRule svc chain).Selects isLocal pkt ↔
    svc.clusterIP = pkt.dst ∧ svc.proto = pkt.proto ∧ svc.port = pkt.dport := by
  simp [clusterRule, Rule.Selects]

theorem nodePortRule_selects {chain : String} : (nodePortRule svc chain).Selects isLocal pkt ↔
    svc.proto = pkt.proto ∧ isLocal pkt.dst = true ∧ svc.nodePort = pkt.dport := by
  simp [nodePortRule, Rule.Selects]

theorem mem_dispatchRules {r : Rule} : r ∈ dispatchRules hash svc ↔
    ((svc.clusterIP ≠ "" ∧ 0 < svc.port) ∧ r = clusterRule svc (serviceChain hash svc.name)) ∨
      (0 < svc.nodePort ∧ r = nodePortRule svc (serviceChain hash svc.name)) := by
  unfold dispatchRules
  by_cases hc : svc.clusterIP ≠ "" ∧ 0 < svc.port <;> by_cases hn : 0 < svc.nodePort <;>
    simp [hc, hn]

/-- The dispatch rules of a service select the packets for it. -/
theorem selects_iff_addressed (hash : String → String) (hport : 0 < svc.port) :
    (∃ r ∈ dispatchRules hash svc, r.Selects isLocal pkt) ↔ Addressed isLocal svc pkt := by
  simp only [mem_dispatchRules, Addressed]
  constructor
  · rintro ⟨r, ⟨⟨hip, -⟩, rfl⟩ | ⟨hpos, rfl⟩, hs⟩
    · rw [clusterRule_selects] at hs
      exact ⟨hs.2.1.symm, .inl ⟨hip, hs.1.symm, hs.2.2.symm⟩⟩
    · rw [nodePortRule_selects] at hs
      exact ⟨hs.1.symm, .inr ⟨hpos, hs.2.1, hs.2.2.symm⟩⟩
  · rintro ⟨hproto, ⟨hip, hdst, hdport⟩ | ⟨hpos, hlocal, hdport⟩⟩
    · exact ⟨_, .inl ⟨⟨hip, hport⟩, rfl⟩,
        clusterRule_selects.mpr ⟨hdst.symm, hproto.symm, hdport.symm⟩⟩
    · exact ⟨_, .inr ⟨hpos, rfl⟩, nodePortRule_selects.mpr ⟨hproto.symm, hlocal, hdport.symm⟩⟩

/-- Endpoint lists whose services do not claim each other's packets. -/
structure Separate (isLocal : String → Bool) (services : List ServiceEndpoints) : Prop where
  clusterIPs : services.Pairwise fun a b => a.clusterIP ≠ "" → a.clusterIP ≠ b.clusterIP
  nodePorts : services.Pairwise fun a b => 0 < a.nodePort → a.nodePort ≠ b.nodePort
  remote : ∀ svc ∈ services, isLocal svc.clusterIP = false

theorem Separate.pairwise (h : Separate isLocal services) (hash : String → String)
    (pkt : Packet) :
    (services.flatMap (dispatchRules hash)).Pairwise
      fun r r' => ¬(r.Selects isLocal pkt ∧ r'.Selects isLocal pkt) := by
  have hmixed (a b : ServiceEndpoints) (ha : a ∈ services) (c d : String) :
      ¬((clusterRule a c).Selects isLocal pkt ∧ (nodePortRule b d).Selects isLocal pkt) := by
    rw [clusterRule_selects, nodePortRule_selects]
    rintro ⟨⟨hdst, -⟩, -, hlocal, -⟩
    rw [← hdst, h.remote a ha] at hlocal
    cases hlocal
  rw [List.pairwise_flatMap]
  refine ⟨fun a ha => ?_, (h.clusterIPs.and h.nodePorts).imp_of_mem
    fun {a b} ha hb hab r hr r' hr' => ?_⟩
  · unfold dispatchRules
    split_ifs
    · simpa using hmixed a a ha _ _
    · simp
    · simp
    · simp
  · rw [mem_dispatchRules] at hr hr'
    rcases hr with ⟨hip, rfl⟩ | ⟨hpos, rfl⟩ <;> rcases hr' with ⟨-, rfl⟩ | ⟨-, rfl⟩
    · rw [clusterRule_selects, clusterRule_selects]
      rintro ⟨hs, hs'⟩
      exact hab.1 hip.1 (hs.1.trans hs'.1.symm)
    · exact hmixed a b ha _ _
    · exact fun hs => hmixed b a hb _ _ hs.symm
    · rw [nodePortRule_selects, nodePortRule_selects]
      rintro ⟨hs, hs'⟩
      exact hab.2 hpos (hs.2.2.trans hs'.2.2.symm)

end Packets

section Walks
variable {hash : String → String} {isLocal : String → Bool} {draws : ℕ → Bool}
  {svc : ServiceEndpoints} {services : List ServiceEndpoints} {pkt : Packet} {drawn : ℕ}
  {call : String → Packet → ℕ → Walk}

theorem dnatRule_selects (h : pkt.proto = svc.proto) (i : ℕ) (ep : String) :
    (dnatRule svc i ep).Selects isLocal pkt := by
  unfold dnatRule
  simp only
  split_ifs <;> simp [Rule.Selects, h]

theorem walkRules_dnatRule (h : pkt.proto = svc.proto) (i : ℕ) (ep : String) (rules : List Rule) :
    walkRules isLocal draws call (dnatRule svc i ep :: rules) pkt drawn =
      if i < svc.endpoints.length - 1 then
        if draws drawn then ⟨some (.dnat ep svc.targetPort), pkt, drawn + 1⟩
        else walkRules isLocal draws call rules pkt (drawn + 1)
      else ⟨some (.dnat ep svc.targetPort), pkt, drawn⟩ := by
  have hselects : (dnatRule svc i ep).Selects isLocal pkt := dnatRule_selects h i ep
  by_cases hi : i < svc.endpoints.length - 1
  · have hp : (dnatRule svc i ep).probability = some (probability svc.endpoints.length i) := by
      simp [dnatRule, hi]
    simp only [walkRules, Rule.fires, if_pos hselects, hp, dnatRule_target, if_pos hi]
  · have hp : (dnatRule svc i ep).probability = none := by simp [dnatRule, hi]
    simp only [walkRules, Rule.fires, if_pos hselects, hp, dnatRule_target, if_neg hi, if_true]

def dnatRules (svc : ServiceEndpoints) (i : ℕ) (eps : List String) : List Rule :=
  (eps.zipIdx i).map fun e => dnatRule svc e.2 e.1

theorem dnatRules_cons (svc : ServiceEndpoints) (i : ℕ) (ep : String) (eps : List String) :
    dnatRules svc i (ep :: eps) = dnatRule svc i ep :: dnatRules svc (i + 1) eps := rfl

/-- Some endpoint is chosen: the last rule has no condition. -/
theorem walk_dnatRules (h : pkt.proto = svc.proto) {eps : List String} {i : ℕ}
    (hlength : i + eps.length = svc.endpoints.length) (hne : eps ≠ []) :
    ∃ ep ∈ eps, (walkRules isLocal draws call (dnatRules svc i eps) pkt drawn).verdict =
      some (.dnat ep svc.targetPort) := by
  induction eps generalizing i drawn with
  | nil => exact absurd rfl hne
  | cons ep eps ih =>
    rw [dnatRules_cons, walkRules_dnatRule h]
    by_cases hi : i < svc.endpoints.length - 1
    · have hrest : eps ≠ [] := by
        rintro rfl
        simp only [List.length_singleton] at hlength
        omega
      rw [if_pos hi]
      split_ifs
      · exact ⟨ep, List.mem_cons_self, rfl⟩
      · obtain ⟨ep', hmem, hv⟩ := @ih (drawn + 1) (i + 1)
          (by simp only [List.length_cons] at hlength; omega) hrest
        exact ⟨ep', List.mem_cons_of_mem ep hmem, hv⟩
    · rw [if_neg hi]
      exact ⟨ep, List.mem_cons_self, rfl⟩

/-- Every endpoint can be chosen, by the draw of its own rule. -/
theorem walk_dnatRules_choose (h : pkt.proto = svc.proto) {eps : List String} {i : ℕ}
    (hlength : i + eps.length = svc.endpoints.length) {ep : String} (hep : ep ∈ eps) (drawn : ℕ) :
    ∃ n, drawn ≤ n ∧ ∀ call, (walkRules isLocal (fun j => decide (j = n)) call
      (dnatRules svc i eps) pkt drawn).verdict = some (.dnat ep svc.targetPort) := by
  induction eps generalizing i drawn with
  | nil => exact absurd hep List.not_mem_nil
  | cons ep' eps ih =>
    simp only [dnatRules_cons, walkRules_dnatRule h]
    rcases List.mem_cons.mp hep with rfl | hep
    · refine ⟨drawn, le_rfl, fun call => ?_⟩
      split_ifs with hi hdraw
      · rfl
      · exact absurd (decide_eq_true rfl) hdraw
      · rfl
    · have hi : i < svc.endpoints.length - 1 := by
        have hpos := List.length_pos_of_mem hep
        simp only [List.length_cons] at hlength
        omega
      obtain ⟨n, hn, hv⟩ := ih (i := i + 1) (by simp only [List.length_cons] at hlength; omega)
        hep (drawn + 1)
      refine ⟨n, by omega, fun call => ?_⟩
      rw [if_pos hi, if_neg (by simp; omega)]
      exact hv call

end Walks

section Meaning
variable {hash : String → String} {isLocal : String → Bool} {draws : ℕ → Bool}
  {svc : ServiceEndpoints} {services : List ServiceEndpoints} {pkt : Packet} {drawn : ℕ}
  {t : Chains}

def marked (pkt : Packet) : Packet := { pkt with marks := masqMark :: pkt.marks }

/-- The proxy's chains in the table are those of the endpoint list. -/
def Programmed (hash : String → String) (services : List ServiceEndpoints) (t : Chains) : Prop :=
  ∀ c, HasPrefix c "SMITH-" → t[c]? = (smithChains hash services)[c]?

theorem Installed.programmed_synced {p : ServiceProxy} (h : Installed p) (hash : String → String)
    (orders : Orders) (services : List ServiceEndpoints) :
    Programmed hash services (synced hash orders services p).nat := by
  intro c hc
  rw [synced, nat_portsSynced]
  exact h.lookup_syncedChains hash services hc

theorem Programmed.lookup_markChain (h : Programmed hash services t) :
    t[markChain]? = some [markRule] := by
  rw [h markChain (by decide), smithChains, lookup_insert_self]

theorem Programmed.lookup_servicesChain (h : Programmed hash services t) :
    t[servicesChain]? = some (services.flatMap (dispatchRules hash)) := by
  rw [h servicesChain (by decide), smithChains, lookup_insert_ne _ _ (by decide),
    lookup_insert_self]

theorem Programmed.lookup_serviceChain (h : Programmed hash services t)
    (hnames : (desiredChains hash services).Nodup) (hsvc : svc ∈ services) :
    t[serviceChain hash svc.name]? = some (serviceRules svc) := by
  have hchain := isServiceChain_serviceChain hash svc.name
  rw [h _ hchain.hasPrefix, smithChains, lookup_insert_ne _ _ hchain.ne_markChain.symm,
    lookup_insert_ne _ _ hchain.ne_servicesChain.symm]
  refine (overwrite_keeps_iff ∅ (serviceChains hash services)).mpr ?_ _ (List.mem_map_of_mem hsvc)
  intro e he d hd hk
  obtain ⟨a, ha, rfl⟩ := List.mem_map.mp he
  obtain ⟨b, hb, rfl⟩ := List.mem_map.mp hd
  rw [List.inj_on_of_nodup_map hnames ha hb hk]

theorem walk_markChain (h : t[markChain]? = some [markRule]) (depth : ℕ) :
    t.walk isLocal draws (depth + 1) markChain pkt drawn = ⟨some .pass, marked pkt, drawn⟩ := by
  rw [Chains.walk, h]
  simp [walkRules, Rule.fires, Rule.Selects, markRule, marked]

theorem walkRules_markJump (h : t[markChain]? = some [markRule]) (depth : ℕ) (rules : List Rule) :
    walkRules isLocal draws (t.walk isLocal draws (depth + 1)) (markJump :: rules) pkt drawn =
      walkRules isLocal draws (t.walk isLocal draws (depth + 1)) rules (marked pkt) drawn := by
  have hselects : markJump.Selects isLocal pkt := by simp [Rule.Selects, markJump]
  rw [walkRules_jump hselects rfl rfl, walk_markChain h, if_pos rfl]

theorem walk_serviceChain (h : Programmed hash services t)
    (hnames : (desiredChains hash services).Nodup) (hsvc : svc ∈ services) (depth : ℕ) :
    t.walk isLocal draws (depth + 2) (serviceChain hash svc.name) pkt drawn =
      walkRules isLocal draws (t.walk isLocal draws (depth + 1))
        (dnatRules svc 0 svc.endpoints) (marked pkt) drawn := by
  rw [Chains.walk, h.lookup_serviceChain hnames hsvc]
  exact walkRules_markJump h.lookup_markChain depth _

theorem selects_of_selects_marked {r : Rule} (hr : r ∈ dispatchRules hash svc)
    (h : r.Selects isLocal (marked pkt)) : r.Selects isLocal pkt := by
  rcases mem_dispatchRules.mp hr with ⟨-, rfl⟩ | ⟨-, rfl⟩
  · have hfields := clusterRule_selects.mp h
    exact clusterRule_selects.mpr hfields
  · have hfields := nodePortRule_selects.mp h
    exact nodePortRule_selects.mpr hfields

theorem walk_servicesChain (h : Programmed hash services t)
    (hnames : (desiredChains hash services).Nodup) (hsep : Separate isLocal services)
    (hsvc : svc ∈ services) (hport : 0 < svc.port) (haddr : Addressed isLocal svc pkt)
    (depth : ℕ) : (t.walk isLocal draws (depth + 3) servicesChain pkt drawn).verdict =
      (t.walk isLocal draws (depth + 2) (serviceChain hash svc.name) pkt drawn).verdict := by
  obtain ⟨r, hr, hselects⟩ := (selects_iff_addressed hash hport).mpr haddr
  have hmem : r ∈ services.flatMap (dispatchRules hash) := List.mem_flatMap.mpr ⟨svc, hsvc, hr⟩
  obtain ⟨before, after, hsplit⟩ := List.append_of_mem hmem
  have hpairwise := hsep.pairwise hash pkt
  rw [hsplit, List.pairwise_append, List.pairwise_cons] at hpairwise
  obtain ⟨-, ⟨hafter, -⟩, hbefore⟩ := hpairwise
  have hprobability : r.probability = none := by
    rcases mem_dispatchRules.mp hr with ⟨-, rfl⟩ | ⟨-, rfl⟩ <;> rfl
  rw [Chains.walk, h.lookup_servicesChain]
  simp only [hsplit]
  rw [walkRules_append_of_skip fun x hx hs => hbefore x hx r List.mem_cons_self ⟨hs, hselects⟩,
    walkRules_jump hselects hprobability (target_of_mem_dispatchRules hash hr)]
  split_ifs with hpass
  · -- the chain was left without a verdict, so it has no endpoints
    have hproto : (marked pkt).proto = svc.proto := haddr.1
    rw [walk_serviceChain h hnames hsvc] at hpass ⊢
    by_cases hempty : svc.endpoints = []
    · have hdone : walkRules isLocal draws (t.walk isLocal draws (depth + 1))
          (dnatRules svc 0 svc.endpoints) (marked pkt) drawn = ⟨some .pass, marked pkt, drawn⟩ := by
        rw [hempty]
        rfl
      rw [hdone, walkRules_pass]
      intro x hx hs
      have hx' : x ∈ services.flatMap (dispatchRules hash) := by
        rw [hsplit]
        exact List.mem_append_right _ (List.mem_cons_of_mem r hx)
      obtain ⟨svc', -, hx'⟩ := List.mem_flatMap.mp hx'
      exact hafter x hx ⟨hselects, selects_of_selects_marked hx' hs⟩
    · obtain ⟨ep, -, hv⟩ := walk_dnatRules hproto (Nat.zero_add _) hempty
      rw [hpass] at hv
      cases hv
  · rfl

theorem walk_unaddressed (h : Programmed hash services t)
    (hport : ∀ svc ∈ services, 0 < svc.port)
    (haddr : ∀ svc ∈ services, ¬Addressed isLocal svc pkt) (depth : ℕ) :
    (t.walk isLocal draws (depth + 1) servicesChain pkt drawn).verdict = some .pass := by
  rw [Chains.walk, h.lookup_servicesChain]
  simp only
  rw [walkRules_pass]
  intro r hr hs
  obtain ⟨svc, hsvc, hr⟩ := List.mem_flatMap.mp hr
  exact haddr svc hsvc ((selects_iff_addressed hash (hport svc hsvc)).mp ⟨r, hr, hs⟩)

/-- The table does to packets what the endpoint list says. A walk is given any depth that is
    enough, and draws of its own. -/
structure Means (isLocal : String → Bool) (services : List ServiceEndpoints) (t : Chains) :
    Prop where
  balances : ∀ svc ∈ services, svc.endpoints ≠ [] → ∀ pkt, Addressed isLocal svc pkt →
    ∀ draws depth, ∃ ep ∈ svc.endpoints,
      (t.walk isLocal draws (depth + 3) servicesChain pkt 0).verdict =
        some (.dnat ep svc.targetPort)
  chooses : ∀ svc ∈ services, ∀ ep ∈ svc.endpoints, ∀ pkt, Addressed isLocal svc pkt →
    ∃ draws, ∀ depth, (t.walk isLocal draws (depth + 3) servicesChain pkt 0).verdict =
      some (.dnat ep svc.targetPort)
  empty : ∀ svc ∈ services, svc.endpoints = [] → ∀ pkt, Addressed isLocal svc pkt →
    ∀ draws depth, (t.walk isLocal draws (depth + 3) servicesChain pkt 0).verdict = some .pass
  others : ∀ pkt, (∀ svc ∈ services, ¬Addressed isLocal svc pkt) →
    ∀ draws depth, (t.walk isLocal draws (depth + 3) servicesChain pkt 0).verdict = some .pass

theorem Programmed.means (h : Programmed hash services t)
    (hnames : (desiredChains hash services).Nodup) (hsep : Separate isLocal services)
    (hport : ∀ svc ∈ services, 0 < svc.port) : Means isLocal services t where
  balances svc hsvc hne pkt haddr draws depth := by
    have hproto : (marked pkt).proto = svc.proto := haddr.1
    rw [walk_servicesChain h hnames hsep hsvc (hport svc hsvc) haddr,
      walk_serviceChain h hnames hsvc]
    exact walk_dnatRules hproto (Nat.zero_add _) hne
  chooses svc hsvc ep hep pkt haddr := by
    have hproto : (marked pkt).proto = svc.proto := haddr.1
    obtain ⟨n, -, hv⟩ := walk_dnatRules_choose hproto (Nat.zero_add _) hep 0
    refine ⟨fun j => decide (j = n), fun depth => ?_⟩
    rw [walk_servicesChain h hnames hsep hsvc (hport svc hsvc) haddr,
      walk_serviceChain h hnames hsvc]
    exact hv _
  empty svc hsvc hempty pkt haddr draws depth := by
    rw [walk_servicesChain h hnames hsep hsvc (hport svc hsvc) haddr,
      walk_serviceChain h hnames hsvc, hempty]
    rfl
  others pkt haddr draws depth := walk_unaddressed h hport haddr (depth + 2)

/-- The port and protocol texts that iptables accepts. -/
structure WellFormed (svc : ServiceEndpoints) : Prop where
  port : PortInRange svc.port
  nodePort : 0 < svc.nodePort → PortInRange svc.nodePort
  targetPort : PortInRange svc.targetPort
  proto : KnownProtocol svc.proto

/-- After any history of syncs, failed ones and restarts included, a successful sync programs
    the endpoint list: what packets meet, which chains there are and what the chains hold. -/
theorem sync_means_services (hash : String → String) {start : ServiceProxy} (hstart : Fresh start)
    (history : List Event) {services : List ServiceEndpoints} {orders : Orders}
    {faults rest : List (Option String)} {t : ServiceProxy} {isLocal : String → Bool}
    (hnames : (desiredChains hash services).Nodup) (hsep : Separate isLocal services)
    (hvalid : ∀ svc ∈ services, WellFormed svc)
    (hsync : sync hash orders services (run (step hash) start history, faults) =
      .ok () (t, rest)) :
    Means isLocal services t.nat ∧
      (∀ c ∈ t.nat, IsServiceChain c → ∃ svc ∈ services, c = serviceChain hash svc.name) ∧
      ∀ c, HasPrefix c "SMITH-" → t.nat[c]? = (smithChains hash services)[c]? := by
  have hinstalled : Installed (run (step hash) start history) := hstart.installed.run hash history
  obtain ⟨-, rfl, -⟩ := (sync_effect hash orders services).done hinstalled hsync
  have hprogrammed := hinstalled.programmed_synced hash orders services
  refine ⟨hprogrammed.means hnames hsep fun svc hsvc => (hvalid svc hsvc).port.1, ?_, hprogrammed⟩
  intro c hc hservice
  have hsome : (smithChains hash services)[c]? ≠ none := by
    rw [← hprogrammed c hservice.hasPrefix]
    exact Option.isSome_iff_ne_none.mp (ExtTreeMap.isSome_getElem?_iff_mem.mpr hc)
  rw [smithChains, lookup_insert_ne _ _ hservice.ne_markChain.symm,
    lookup_insert_ne _ _ hservice.ne_servicesChain.symm] at hsome
  by_contra hnone
  refine hsome (lookup_serviceChains_eq_none hash services fun hmem => hnone ?_)
  obtain ⟨svc, hsvc, rfl⟩ := List.mem_map.mp hmem
  exact ⟨svc, hsvc, rfl⟩

section Samples

private def web : ServiceEndpoints :=
  ⟨"web", "10.96.0.1", 80, 30080, 8080, "", ["10.0.1.2", "10.0.2.2"]⟩

private def api : ServiceEndpoints := ⟨"api", "10.96.0.2", 443, 0, 8443, "tcp", []⟩

private def old : ServiceEndpoints := ⟨"old", "10.96.0.1", 80, 0, 70000, "tcp", ["10.0.3.2"]⟩

/-- A node whose earlier syncs failed, one for a fault and one for a port. -/
theorem sync_means_services_two_replicas :
    let history : List Event :=
      [.sync [old] Orders.listed [none, none, some "xtables lock"], .sync [old] Orders.listed []]
    let isLocal (ip : String) : Bool := ip = "192.168.0.1"
    ∃ t, sync id Orders.listed [web, api] (run (step id) blankNode history, []) = .ok () (t, []) ∧
      (∀ draws depth, ∃ ep ∈ ["10.0.1.2", "10.0.2.2"],
        (t.nat.walk isLocal draws (depth + 3) servicesChain ⟨"192.168.0.1", "tcp", 30080, []⟩
          0).verdict = some (.dnat ep 8080)) ∧
      serviceChain id "old" ∉ t.nat := by
  intro history isLocal
  have hsync := (sync_effect id Orders.listed [web, api]).succeeds
    (blankNode_fresh.installed.run id history) (by decide +kernel)
  have hsep : Separate isLocal [web, api] :=
    ⟨by simp [web, api], by simp [web, api], by simp [isLocal, web, api]⟩
  have hvalid : ∀ svc ∈ [web, api], WellFormed svc := by
    simp only [List.forall_mem_cons]
    exact ⟨⟨by decide, by decide, by decide, by decide⟩,
      ⟨by decide, by decide, by decide, by decide⟩, by simp⟩
  obtain ⟨hmeans, honly, -⟩ :=
    sync_means_services id blankNode_fresh history (by decide +kernel) hsep hvalid hsync
  refine ⟨_, hsync, ?_, fun hold => ?_⟩
  · exact hmeans.balances web List.mem_cons_self (by simp [web]) _
      ⟨rfl, .inr ⟨by decide, by simp [isLocal], rfl⟩⟩
  · obtain ⟨svc, hsvc, hname⟩ := honly _ hold (isServiceChain_serviceChain id "old")
    exact absurd hname ((by decide +kernel : ∀ svc ∈ [web, api],
      serviceChain id "old" ≠ serviceChain id svc.name) svc hsvc)

end Samples

end Meaning
end Smith.ServiceProxy
