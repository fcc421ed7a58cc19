import Smith.NodePortRules
import Smith.RandomDraws
import Smith.ServiceDispatch

set_option autoImplicit false

/-!
# The choice of a backend

The rules of a service's chain are tried one after the other. Each random match draws with the
chance that its rule was given, one in `n - i` for rule `i` of `n`, and the last rule always
applies, so that each of them is the one to apply with a chance of one in `n`. What is printed
of a chance is off by less than one in the last digit.
-/
namespace Smith.ServiceProxy
open Binary64 Commands FiniteMaps Iptables RandomDraws

/-- The position of the rule that gives the verdict: the rules up to it give one, fewer do not. -/
def decidingRule (isLocal : String → Bool) (draws : ℕ → Bool)
    (call : String → Packet → ℕ → Walk) (rules : List Rule) (pkt : Packet) : Option ℕ :=
  (List.range rules.length).find? fun i =>
    decide ((walkRules isLocal draws call (rules.take (i + 1)) pkt 0).verdict ≠ some .pass)

/-- The chances of the draws that a packet makes along the rules, as long as none applies. -/
noncomputable def chances (isLocal : String → Bool) (pkt : Packet) (rules : List Rule) :
    List Chance :=
  (rules.filter fun r => r.Selects isLocal pkt).filterMap fun r =>
    r.probability.map fun random => chance random.chance

section Rules
variable {isLocal : String → Bool} {draws : ℕ → Bool} {call : String → Packet → ℕ → Walk}
  {svc : ServiceEndpoints} {pkt : Packet}

/-- Rule `i` applies if it is reached: its draw is true, or it makes none. -/
def applies (svc : ServiceEndpoints) (draws : ℕ → Bool) (i : ℕ) : Bool :=
  decide (svc.endpoints.length - 1 ≤ i) || draws i

/-- Along the rules of the endpoints from `i` on, with one draw made for each rule before, the
    first rule that applies gives the verdict. -/
theorem verdict_dnatRules (h : pkt.proto = svc.proto) (eps : List String) (i : ℕ) :
    (walkRules isLocal draws call (dnatRules svc i eps) pkt i).verdict =
      match (eps.zipIdx i).find? fun e => applies svc draws e.2 with
      | some e => some (.dnat e.1 svc.targetPort)
      | none => some .pass := by
  induction eps generalizing i with
  | nil => rfl
  | cons ep eps ih =>
    rw [dnatRules_cons, walkRules_dnatRule h, List.zipIdx_cons, List.find?_cons]
    by_cases hi : i < svc.endpoints.length - 1
    · have happlies : applies svc draws i = draws i := by simp [applies, Nat.not_le.mpr hi]
      simp only [if_pos hi, happlies]
      cases draws i with
      | true => rfl
      | false => simpa using ih (i + 1)
    · have happlies : applies svc draws i = true := by simp [applies, Nat.le_of_not_lt hi]
      simp only [if_neg hi, happlies]

theorem applies_firstTrue (svc : ServiceEndpoints) (draws : ℕ → Bool) :
    applies svc draws (firstTrue (svc.endpoints.length - 1) draws) = true ∧
      ∀ i < firstTrue (svc.endpoints.length - 1) draws, applies svc draws i = false := by
  obtain ⟨hle, htrue, hfalse⟩ := firstTrue_spec (svc.endpoints.length - 1) draws
  constructor
  · rcases hle.lt_or_eq with hlt | heq
    · simp [applies, htrue hlt]
    · simp [applies, heq]
  · intro i hi
    simp [applies, hfalse i hi, Nat.not_le.mpr (hi.trans_le hle)]

theorem verdict_of_firstTrue (h : pkt.proto = svc.proto) {eps : List String} {ep : String}
    (hep : eps[firstTrue (svc.endpoints.length - 1) draws]? = some ep) :
    (walkRules isLocal draws call (dnatRules svc 0 eps) pkt 0).verdict =
      some (.dnat ep svc.targetPort) := by
  obtain ⟨happlies, hbefore⟩ := applies_firstTrue svc draws
  obtain ⟨hlt, hget⟩ := List.getElem?_eq_some_iff.mp hep
  have hfind : (eps.zipIdx 0).find? (fun e => applies svc draws e.2) =
      some (ep, firstTrue (svc.endpoints.length - 1) draws) := by
    rw [List.find?_eq_some_iff_getElem]
    refine ⟨happlies, _, by simpa using hlt, by simp [hget], fun j hj => ?_⟩
    simp [hbefore j hj]
  rw [verdict_dnatRules h, hfind]

theorem verdict_before_firstTrue (h : pkt.proto = svc.proto) {eps : List String}
    (hlen : eps.length ≤ firstTrue (svc.endpoints.length - 1) draws) :
    (walkRules isLocal draws call (dnatRules svc 0 eps) pkt 0).verdict = some .pass := by
  have hfind : (eps.zipIdx 0).find? (fun e => applies svc draws e.2) = none := by
    rw [List.find?_eq_none]
    intro e he
    obtain ⟨-, hlt, -⟩ := List.mem_zipIdx he
    simp [(applies_firstTrue svc draws).2 e.2 (by omega)]
  rw [verdict_dnatRules h, hfind]

theorem take_dnatRules (svc : ServiceEndpoints) (eps : List String) (k i : ℕ) :
    (dnatRules svc k eps).take i = dnatRules svc k (eps.take i) := by
  induction eps generalizing k i with
  | nil => rw [List.take_nil]; exact List.take_nil
  | cons ep eps ih =>
    cases i with
    | zero => rfl
    | succ i => rw [dnatRules_cons, List.take_succ_cons, List.take_succ_cons, dnatRules_cons, ih]

theorem chances_dnatRules (h : pkt.proto = svc.proto) (eps : List String) (i : ℕ) :
    chances isLocal pkt (dnatRules svc i eps) =
      ((List.range' i eps.length).filter (· < svc.endpoints.length - 1)).map fun j =>
        oneIn (svc.endpoints.length - j) := by
  induction eps generalizing i with
  | nil => rfl
  | cons ep eps ih =>
    have hselects : (dnatRule svc i ep).Selects isLocal pkt := dnatRule_selects h i ep
    unfold chances at ih ⊢
    rw [dnatRules_cons, List.filter_cons_of_pos (by simpa using hselects), List.length_cons,
      List.range'_succ]
    by_cases hi : i < svc.endpoints.length - 1
    · have hrandom : (dnatRule svc i ep).probability =
          some (probability svc.endpoints.length i) := by simp [dnatRule, hi]
      have hchance : chance (probability svc.endpoints.length i).chance =
          oneIn (svc.endpoints.length - i) := by
        rw [← chance_one_div, probability, Nat.cast_sub (by omega)]
      rw [List.filterMap_cons_some (by rw [hrandom, Option.map_some]), hchance, ih,
        List.filter_cons_of_pos (by simpa using hi), List.map_cons]
    · have hnone : (dnatRule svc i ep).probability = none := by simp [dnatRule, hi]
      rw [List.filterMap_cons_none (by rw [hnone, Option.map_none]), ih,
        List.filter_cons_of_neg (by simpa using hi)]

theorem chances_serviceRules (h : pkt.proto = svc.proto) :
    chances isLocal pkt (serviceRules svc) =
      (List.range (svc.endpoints.length - 1)).map fun j => oneIn (svc.endpoints.length - j) := by
  have hjump : markJump.Selects isLocal pkt := by simp [Rule.Selects, markJump]
  have hbelow : (List.range' 0 svc.endpoints.length).filter (· < svc.endpoints.length - 1) =
      List.range (svc.endpoints.length - 1) := by
    rw [← List.range_eq_range']
    cases svc.endpoints.length with
    | zero => rfl
    | succ n =>
      rw [Nat.add_sub_cancel, List.range_succ, List.filter_append,
        List.filter_eq_self.mpr fun j hj => by simpa using hj,
        List.filter_cons_of_neg (by simp), List.filter_nil, List.append_nil]
  have hdnat : chances isLocal pkt (dnatRules svc 0 svc.endpoints) = _ :=
    chances_dnatRules h svc.endpoints 0
  rw [hbelow, chances] at hdnat
  rw [chances, ← hdnat]
  change (List.filter _ (markJump :: dnatRules svc 0 svc.endpoints)).filterMap _ = _
  rw [List.filter_cons_of_pos (by simpa using hjump)]
  rfl

end Rules

/-- Five digits of a chance, printed from its value in double precision. -/
theorem probability_digits {n i : ℕ} (h : i < n) :
    |(probability n i).chance - (probability n i).digits / 100000| < 1 / 100000 := by
  set x : ℚ := (n : ℚ) - i with hx
  have hx1 : 1 ≤ x := by
    have : ((i + 1 : ℕ) : ℚ) ≤ n := by exact_mod_cast h
    push_cast at this
    linarith
  have hvalue := abs_float64_one_div_sub_le hx1
  have hprint := roundEven_error (float64 (1 / float64 x) * 100000)
  have hdigits : (probability n i).digits = roundEven (float64 (1 / float64 x) * 100000) := rfl
  have hchance : (probability n i).chance = 1 / x := rfl
  rw [hdigits, hchance]
  rw [abs_le] at hvalue hprint
  rw [abs_lt]
  constructor <;> linarith

theorem digits_serviceRules (svc : ServiceEndpoints) : ∀ r ∈ serviceRules svc,
    ∀ random ∈ r.probability, |random.chance - random.digits / 100000| < 1 / 100000 := by
  intro r hr random hrandom
  rcases List.mem_cons.mp hr with rfl | hr
  · exact absurd hrandom (by simp [markJump])
  · obtain ⟨e, he, rfl⟩ := List.mem_map.mp hr
    unfold dnatRule at hrandom
    dsimp only at hrandom
    split_ifs at hrandom with hi
    · obtain rfl := Option.mem_some_iff.mp hrandom
      exact probability_digits (by omega)
    · exact absurd hrandom (by simp)

section Chain
variable {isLocal : String → Bool} {svc : ServiceEndpoints} {pkt : Packet} {t : Chains}

theorem decidingRule_serviceRules (hmark : t[markChain]? = some [markRule])
    (hproto : pkt.proto = svc.proto) (hne : svc.endpoints ≠ []) (draws : ℕ → Bool) (depth : ℕ) :
    let i := firstTrue (svc.endpoints.length - 1) draws
    decidingRule isLocal draws (t.walk isLocal draws (depth + 1)) (serviceRules svc) pkt =
        some (i + 1) ∧
      ∃ ep, svc.endpoints[i]? = some ep ∧
        (walkRules isLocal draws (t.walk isLocal draws (depth + 1)) (serviceRules svc) pkt
          0).verdict = some (.dnat ep svc.targetPort) := by
  intro i
  have hlen := List.length_pos_iff.mpr hne
  have hi : i < svc.endpoints.length := by
    have := (firstTrue_spec (svc.endpoints.length - 1) draws).1
    omega
  have hep : svc.endpoints[i]? = some svc.endpoints[i] := List.getElem?_eq_getElem hi
  have hmarked : (marked pkt).proto = svc.proto := hproto
  have hrules : serviceRules svc = markJump :: dnatRules svc 0 svc.endpoints := rfl
  have htake (k : ℕ) : (serviceRules svc).take (k + 1) =
      markJump :: dnatRules svc 0 (svc.endpoints.take k) := by
    rw [hrules, List.take_succ_cons, take_dnatRules]
  constructor
  · rw [decidingRule, List.find?_range_eq_some]
    refine ⟨?_, ?_, fun j hj => ?_⟩
    · have htaken : (svc.endpoints.take (i + 1))[i]? = some svc.endpoints[i] := by
        rw [List.getElem?_take_of_lt (Nat.lt_succ_self _), hep]
      rw [htake, walkRules_markJump hmark, verdict_of_firstTrue hmarked htaken]
      simp
    · rw [hrules]
      simp [dnatRules, hi]
    · rw [htake, walkRules_markJump hmark, verdict_before_firstTrue hmarked]
      · simp
      · exact (List.length_take_le _ _).trans (Nat.le_of_lt_succ hj)
  · exact ⟨_, hep, by rw [hrules, walkRules_markJump hmark, verdict_of_firstTrue hmarked hep]⟩

def ChainHolds (chain : String) (rules : List Rule) (p : ServiceProxy) : Prop :=
  p.nat[chain]? = some rules ∧ p.nat[markChain]? = some [markRule]

theorem append_ok {c : String} {r : Rule} {t' : Chains} (h : t.append c r = .ok t') :
    t' = t.insert c (rulesOf t c ++ [r]) := by
  unfold Chains.append at h
  cases hslot : t.slot c r with
  | error e =>
    rw [hslot] at h
    exact absurd h (by simp [bind, Except.bind])
  | ok rules =>
    rw [hslot] at h
    rw [← slot_ok hslot]
    exact (Except.ok.inj h).symm

theorem append_triple {chain : String} (hchain : chain ≠ markChain) (rules : List Rule) (r : Rule) :
    Triple (ChainHolds chain rules) (onNat (·.append chain r))
      fun _ => ChainHolds chain (rules ++ [r]) := by
  refine Triple.commandMap fun p t hp hact => ?_
  have hrules : rulesOf p.nat chain = rules := by
    rw [rulesOf, hp.1]
    rfl
  rw [append_ok hact, hrules]
  exact ⟨lookup_insert_self _ _ _, (lookup_insert_ne _ _ hchain).trans hp.2⟩

theorem populateServiceChain_rules {chain : String} (hchain : chain ≠ markChain)
    (svc : ServiceEndpoints) :
    Triple (fun p => p.nat[markChain]? = some [markRule]) (populateServiceChain chain svc)
      fun _ => ChainHolds chain (serviceRules svc) := by
  have hclear : Triple (fun p => p.nat[markChain]? = some [markRule]) (onNat (·.clearChain chain))
      fun _ => ChainHolds chain [] := by
    refine Triple.commandMap fun p t hp hact => ?_
    cases hact
    exact ⟨lookup_insert_self _ _ _, (lookup_insert_ne _ _ hchain).trans hp⟩
  -- while the rules of the endpoints `l` are still to be appended
  let Building (l : List (String × ℕ)) (p : ServiceProxy) : Prop :=
    ∃ done, ChainHolds chain (markJump :: done) p ∧
      markJump :: done ++ l.map (fun e => dnatRule svc e.2 e.1) = serviceRules svc
  have hloop : Triple (Building svc.endpoints.zipIdx)
      (svc.endpoints.zipIdx.forM fun e => onNat (·.append chain (dnatRule svc e.2 e.1)))
      fun _ => Building [] := by
    refine Triple.forM fun e _ l => ?_
    rintro p fs u q gs ⟨done, hdone, hall⟩ hrun
    refine ⟨done ++ [dnatRule svc e.2 e.1], ?_, by simpa using hall⟩
    exact append_triple hchain _ _ p fs u q gs hdone hrun
  refine hclear.bind fun _ => (append_triple hchain [] markJump).bind fun _ => ?_
  refine hloop.mono (fun p hp => ⟨[], hp, rfl⟩) ?_
  rintro _ p ⟨done, hdone, hall⟩
  rw [List.map_nil, List.append_nil] at hall
  exact hall ▸ hdone

end Chain

/-- In a chain that was populated, each endpoint's rule is the one that gives the verdict with
    the same probability, if the random matches have the chances they were given, and one of them
    always does. The digits printed for a chance are those of its value. -/
theorem backends_chosen_uniformly {p q : ServiceProxy} {faults rest : List (Option String)}
    {chain : String} {svc : ServiceEndpoints} (hmark : p.nat[markChain]? = some [markRule])
    (hchain : chain ≠ markChain) (hne : svc.endpoints ≠ [])
    (hrun : populateServiceChain chain svc (p, faults) = .ok () (q, rest))
    {isLocal : String → Bool} {pkt : Packet} (hproto : pkt.proto = svc.proto) (depth : ℕ) :
    let n := svc.endpoints.length
    ∃ rules, q.nat[chain]? = some rules ∧
      (∀ i < n, ((outcomes (chances isLocal pkt rules)).map fun ds =>
        decidingRule isLocal (numbered ds) (q.nat.walk isLocal (numbered ds) (depth + 1)) rules
          pkt) (some (i + 1)) = (n : ENNReal)⁻¹) ∧
      (∀ draws, ∃ i ep, svc.endpoints[i]? = some ep ∧
        decidingRule isLocal draws (q.nat.walk isLocal draws (depth + 1)) rules pkt =
          some (i + 1) ∧
        (q.nat.walk isLocal draws (depth + 2) chain pkt 0).verdict =
          some (.dnat ep svc.targetPort)) ∧
      ∀ r ∈ rules, ∀ random ∈ r.probability,
        |random.chance - random.digits / 100000| < 1 / 100000 := by
  intro n
  obtain ⟨hrules, hmark'⟩ := populateServiceChain_rules hchain svc p faults () q rest hmark hrun
  have hdecides (draws : ℕ → Bool) :=
    @decidingRule_serviceRules isLocal svc pkt q.nat hmark' hproto hne draws depth
  refine ⟨_, hrules, fun i hi => ?_, fun draws => ?_, digits_serviceRules svc⟩
  · have hmap : (fun ds => decidingRule isLocal (numbered ds)
        (q.nat.walk isLocal (numbered ds) (depth + 1)) (serviceRules svc) pkt) =
          (fun i => some (i + 1)) ∘ fun ds => firstTrue (n - 1) (numbered ds) :=
      funext fun ds => (hdecides (numbered ds)).1
    have hinj : Function.Injective fun i : ℕ => some (i + 1) := fun i j hij => by simpa using hij
    obtain ⟨m, hm⟩ : ∃ m, n = m + 1 := Nat.exists_eq_add_one_of_ne_zero (by omega)
    have hchances : chances isLocal pkt (serviceRules svc) =
        (List.range m).map fun j => oneIn (m + 1 - j) := by
      rw [chances_serviceRules hproto, ← hm]
      simp only [hm, Nat.add_sub_cancel, n]
    rw [hmap, ← PMF.map_comp, map_apply_of_injective _ hinj, hchances, hm, Nat.add_sub_cancel]
    exact firstTrue_uniform m (by omega)
  · obtain ⟨hdecides, ep, hep, hverdict⟩ := hdecides draws
    refine ⟨_, ep, hep, hdecides, ?_⟩
    rw [Chains.walk, hrules]
    exact hverdict

private def shop : ServiceEndpoints :=
  ⟨"shop", "10.96.0.7", 80, 0, 8080, "tcp", ["10.0.1.2", "10.0.2.2", "10.0.3.2"]⟩

/-- Three backends on a node with the base chains. The second rule draws for one in two. -/
theorem backends_chosen_uniformly_three :
    let node := blankNode.mapNat baseChains
    let isLocal (ip : String) : Bool := ip = "192.168.0.1"
    let pkt : Packet := ⟨"10.96.0.7", "tcp", 80, []⟩
    ∃ q rules, populateServiceChain "SMITH-SVC-shop" shop (node, []) = .ok () (q, []) ∧
      q.nat["SMITH-SVC-shop"]? = some rules ∧ chances isLocal pkt rules = [oneIn 3, oneIn 2] ∧
      ∀ i < 3, ((outcomes (chances isLocal pkt rules)).map fun ds =>
        decidingRule isLocal (numbered ds) (q.nat.walk isLocal (numbered ds) 1) rules pkt)
          (some (i + 1)) = 3⁻¹ := by
  intro node isLocal pkt
  have hbase := ensureBaseChains_effect.succeeds blankNode_fresh.installed trivial
  have hready : Ready baseKnown node :=
    (ensureBaseChains_effect.done blankNode_fresh.installed hbase).2.2
  have hservice : IsServiceChain "SMITH-SVC-shop" := by decide
  have hrun := (populateServiceChain_effect shop baseKnown (by decide) hservice).succeeds hready
    (by decide +kernel)
  have hmark : node.nat[markChain]? = some [markRule] := by decide +kernel
  have hproto : pkt.proto = shop.proto := by decide
  obtain ⟨rules, hrules, hchosen, -⟩ :=
    backends_chosen_uniformly hmark (by decide) (by simp [shop]) hrun hproto 0
  obtain ⟨hholds, -⟩ := populateServiceChain_rules (by decide) shop _ _ _ _ _ hmark hrun
  obtain rfl := Option.some.inj (hholds.symm.trans hrules)
  exact ⟨_, _, hrun, hrules, chances_serviceRules hproto, hchosen⟩

end Smith.ServiceProxy
