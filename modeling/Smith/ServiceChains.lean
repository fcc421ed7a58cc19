import Smith.ServiceProxy

set_option autoImplicit false

/-!
# The nat chains of a sync

What `Sync` never touches and what it never builds is an invariant that also its failures keep:
only the dispatch chain jumps to a service's chain, and the proxy's chains are the three kinds
it makes. Under it, every phase on the nat table is a function of the table.
-/
namespace Smith.ServiceProxy
open Commands FiniteMaps Iptables Overwrites Std

def IsServiceChain (chain : String) : Prop := HasPrefix chain "SMITH-SVC-"

instance (chain : String) : Decidable (IsServiceChain chain) :=
  inferInstanceAs (Decidable (HasPrefix chain "SMITH-SVC-"))

theorem isServiceChain_serviceChain (hash : String → String) (name : String) :
    IsServiceChain (serviceChain hash name) := by
  simp [IsServiceChain, HasPrefix, serviceChain, String.toList_append]

def builtinChains : List String := ["PREROUTING", "OUTPUT", "POSTROUTING"]

theorem not_isServiceChain_builtin : ∀ c ∈ builtinChains, ¬IsServiceChain c := by decide

structure Installed (p : ServiceProxy) : Prop where
  builtin : ∀ c ∈ builtinChains, c ∈ p.nat
  input : "INPUT" ∈ p.filter
  mark : ∀ rules, p.nat[markChain]? = some rules → rules = [] ∨ rules = [markRule]
  owned : ∀ c ∈ p.nat, HasPrefix c "SMITH-" →
    c = markChain ∨ c = servicesChain ∨ IsServiceChain c
  jumps : ∀ (c : String) (rules : List Rule) (r : Rule) (d : String), p.nat[c]? = some rules →
    r ∈ rules → r.target = .jump d → IsServiceChain d → c = servicesChain
  opened : ∀ (port : ℤ) (proto : String), p.nodePorts[port]? = some proto →
    (acceptRule port proto).Accepted ∧
      ∃ rules, p.filter["INPUT"]? = some rules ∧ acceptRule port proto ∈ rules

def mapNat (g : Chains → Chains) (p : ServiceProxy) : ServiceProxy := { p with nat := g p.nat }

/-- The rules that may stand in a chain. -/
def Permitted (c : String) (rules : List Rule) : Prop :=
  (c = markChain → rules = [] ∨ rules = [markRule]) ∧
  (HasPrefix c "SMITH-" → c = markChain ∨ c = servicesChain ∨ IsServiceChain c) ∧
  (c ≠ servicesChain → ∀ r ∈ rules, ∀ d, r.target = .jump d → ¬IsServiceChain d)

theorem Installed.insert {p : ServiceProxy} (h : Installed p) {c : String} {rules : List Rule}
    (hc : Permitted c rules) : Installed (p.mapNat (·.insert c rules)) where
  builtin d hd := ExtTreeMap.mem_insert.mpr (.inr (h.builtin d hd))
  input := h.input
  mark l hl := by
    simp only [mapNat, lookup_insert] at hl
    split_ifs at hl with hd
    · rw [← Option.some.inj hl]
      exact hc.1 hd
    · exact h.mark l hl
  owned d hd := by
    rcases ExtTreeMap.mem_insert.mp hd with hd | hd
    · rw [← Std.compare_eq_iff_eq.mp hd]
      exact hc.2.1
    · exact h.owned d hd
  jumps d l r target hl hr ht hs := by
    simp only [mapNat, lookup_insert] at hl
    split_ifs at hl with hd
    · obtain rfl := Option.some.inj hl
      by_contra hne
      exact hc.2.2 (by rwa [hd]) r hr target ht hs
    · exact h.jumps d l r target hl hr ht hs
  opened := h.opened

theorem Installed.erase {p : ServiceProxy} (h : Installed p) {c : String}
    (hc : IsServiceChain c) : Installed (p.mapNat (·.erase c)) where
  builtin d hd := by
    refine ExtTreeMap.mem_erase.mpr ⟨fun hcd => ?_, h.builtin d hd⟩
    obtain rfl := Std.compare_eq_iff_eq.mp hcd
    exact not_isServiceChain_builtin c hd hc
  input := h.input
  mark l hl := by
    simp only [mapNat, lookup_erase] at hl
    split_ifs at hl
    exact h.mark l hl
  owned d hd := h.owned d (ExtTreeMap.mem_of_mem_erase hd)
  jumps d l r target hl := by
    simp only [mapNat, lookup_erase] at hl
    split_ifs at hl
    exact h.jumps d l r target hl
  opened := h.opened

/-- The chains known to exist. -/
def Ready (known : List String) (p : ServiceProxy) : Prop :=
  Installed p ∧ ∀ d ∈ known, d ∈ p.nat

theorem Ready.insert {known : List String} {p : ServiceProxy} (h : Ready known p) {c : String}
    {rules : List Rule} (hc : Permitted c rules) :
    Ready (c :: known) (p.mapNat (·.insert c rules)) := by
  refine ⟨h.1.insert hc, List.forall_mem_cons.mpr ⟨ExtTreeMap.mem_insert_self, ?_⟩⟩
  exact fun d hd => ExtTreeMap.mem_insert.mpr (.inr (h.2 d hd))

theorem Ready.mono {known known' : List String} {p : ServiceProxy} (h : Ready known p)
    (hsub : known' ⊆ known) : Ready known' p :=
  ⟨h.1, fun d hd => h.2 d (hsub hd)⟩

section Chains
variable {known : List String} {p : ServiceProxy} {c : String} {r : Rule}

def rulesOf (t : Chains) (c : String) : List Rule := t[c]?.getD []

def ensured (c : String) (t : Chains) : Chains := if c ∈ t then t else t.insert c []

def withRule (c : String) (r : Rule) (t : Chains) : Chains :=
  if r ∈ rulesOf t c then t else t.insert c (rulesOf t c ++ [r])

def withoutRule (c : String) (r : Rule) (t : Chains) : Chains :=
  t.insert c ((rulesOf t c).erase r)

def extended (c : String) (rules : List Rule) (t : Chains) : Chains :=
  t.insert c (rulesOf t c ++ rules)

theorem Ready.lookup (h : Ready known p) (hc : c ∈ known) :
    p.nat[c]? = some (rulesOf p.nat c) := by
  obtain ⟨rules, hrules⟩ := Option.isSome_iff_exists.mp
    (ExtTreeMap.isSome_getElem?_iff_mem.mpr (h.2 c hc))
  rw [rulesOf, hrules]
  rfl

theorem Installed.permitted (h : Installed p) {rules : List Rule} (hl : p.nat[c]? = some rules) :
    Permitted c rules := by
  refine ⟨fun hc => h.mark rules (hc ▸ hl), h.owned c ?_, fun hc r hr d ht hd =>
    hc (h.jumps c rules r d hl hr ht hd)⟩
  exact ExtTreeMap.isSome_getElem?_iff_mem.mp (by rw [hl]; rfl)

/-- Rules that jump to no service's chain may be added to any chain but the mark chain, and all
    may be added to the dispatch chain. -/
theorem Ready.permitted_append (h : Ready known p) (hc : c ∈ known) (hne : c ≠ markChain)
    {more : List Rule}
    (hmore : c ≠ servicesChain → ∀ r ∈ more, ∀ d, r.target = .jump d → ¬IsServiceChain d) :
    Permitted c (rulesOf p.nat c ++ more) := by
  have hold := h.1.permitted (h.lookup hc)
  refine ⟨fun hm => absurd hm hne, hold.2.1, fun hs r hr => ?_⟩
  rcases List.mem_append.mp hr with hr | hr
  · exact hold.2.2 hs r hr
  · exact hmore hs r hr

theorem Ready.ensured (h : Ready known p) (hc : Permitted c []) :
    Ready (c :: known) (p.mapNat (ensured c)) := by
  unfold ServiceProxy.ensured
  by_cases hmem : c ∈ p.nat
  · simp only [mapNat, if_pos hmem]
    exact ⟨h.1, List.forall_mem_cons.mpr ⟨hmem, h.2⟩⟩
  · simp only [mapNat, if_neg hmem]
    exact h.insert hc

theorem Ready.withRule (h : Ready known p)
    (hc : r ∉ rulesOf p.nat c → Permitted c (rulesOf p.nat c ++ [r])) :
    Ready known (p.mapNat (withRule c r)) := by
  unfold ServiceProxy.withRule
  by_cases hmem : r ∈ rulesOf p.nat c
  · simp only [mapNat, if_pos hmem]
    exact h
  · simp only [mapNat, if_neg hmem]
    exact (h.insert (hc hmem)).mono (List.subset_cons_self c known)

theorem Ready.slot (h : Ready known p) (hc : c ∈ known)
    (htarget : ∀ d, r.target = .jump d → d ∈ known) (hr : r.Accepted) :
    p.nat.slot c r = .ok (rulesOf p.nat c) := by
  refine Chains.slot_eq (h.lookup hc) ?_ hr
  cases ht : r.target with
  | jump d => exact h.2 d (htarget d ht)
  | dnat ip port => trivial
  | setXmark mark => trivial
  | masquerade => trivial
  | accept => trivial

theorem permitted_nil (h : c = markChain ∨ c = servicesChain ∨ IsServiceChain c) :
    Permitted c [] :=
  ⟨fun _ => .inl rfl, fun _ => h, by simp⟩

end Chains

section Commands
variable (known : List String) (c : String) (r : Rule)

theorem onNat_effect {P Q : ServiceProxy → Prop} {act : Chains → Except String Chains}
    {taken : Prop} {g : Chains → Chains} (hP : ∀ p, P p → Installed p)
    (hok : ∀ p, P p → taken → act p.nat = .ok (g p.nat))
    (herror : ∀ p, P p → ¬taken → ∃ e, act p.nat = .error e)
    (hQ : ∀ p, P p → taken → Q (p.mapNat g)) :
    Effect Installed P Q (onNat act) taken taken (mapNat g) := by
  refine Effect.command hP (fun p hp ht => ?_) (fun p hp ht => ?_) hQ
  · rw [hok p hp ht]
    rfl
  · obtain ⟨e, he⟩ := herror p hp ht
    exact ⟨e, by rw [he]; rfl⟩

theorem clearChain_effect (hc : Permitted c []) :
    Effect Installed (Ready known) (Ready (c :: known)) (onNat (·.clearChain c)) True True
      (mapNat (·.insert c [])) :=
  onNat_effect (fun _ hp => hp.1) (fun _ _ _ => rfl) (fun _ _ h => absurd trivial h)
    fun _ hp _ => hp.insert hc

theorem ensureChain_effect (hc : Permitted c []) :
    Effect Installed (Ready known) (Ready (c :: known)) (ensureChain c) True True
      (mapNat (ensured c)) := by
  refine Effect.query (fun p hp => hp.1) fun ok => ?_
  cases ok with
  | true =>
    have hmem (p : ServiceProxy) (hp : Ready known p ∧ decide (c ∈ p.nat) = true) :
        c ∈ p.nat := of_decide_eq_true hp.2
    refine Effect.skip.mono (P := Ready (c :: known)) (fun p hp => ?_) (fun _ h => h)
      (fun h => h) (fun h => h) fun p hp _ => ?_
    · exact ⟨hp.1.1, List.forall_mem_cons.mpr ⟨hmem p hp, hp.1.2⟩⟩
    · simp only [mapNat, ensured, if_pos (hmem p hp)]
      rfl
  | false =>
    change Effect Installed _ _ (onNat (·.newChain c)) True True _
    refine onNat_effect (P := fun p => Ready known p ∧ decide (c ∈ p.nat) = false)
      (fun p hp => hp.1.1) (fun p hp _ => ?_) (fun _ _ h => absurd trivial h)
      fun p hp _ => hp.1.ensured hc
    have hmem : c ∉ p.nat := of_decide_eq_false hp.2
    simp only [Chains.newChain, ensured, if_neg hmem]

theorem appendUnique_effect (hc : c ∈ known) (htarget : ∀ d, r.target = .jump d → d ∈ known)
    (hr : r.Accepted) (hperm : ∀ p, Ready known p → r ∉ rulesOf p.nat c →
      Permitted c (rulesOf p.nat c ++ [r])) :
    Effect Installed (Ready known) (Ready known) (onNat (·.appendUnique c r)) True True
      (mapNat (withRule c r)) := by
  refine onNat_effect (fun p hp => hp.1) (fun p hp _ => ?_) (fun _ _ h => absurd trivial h)
    fun p hp _ => hp.withRule (hperm p hp)
  rw [Chains.appendUnique, hp.slot hc htarget hr]
  exact (apply_ite Except.ok _ _ _).symm

end Commands

section Base

/-- The chains known to exist once the base is in place. -/
def baseKnown : List String := servicesChain :: markChain :: builtinChains

/-- The mark and dispatch chains and the jumps into them. -/
def baseChains (t : Chains) : Chains :=
  withRule "POSTROUTING" masqueradeRule <| withRule "OUTPUT" servicesJump <|
    withRule "PREROUTING" servicesJump <| ensured servicesChain <|
      withRule markChain markRule <| ensured markChain t

theorem Ready.permitted_markRule {p : ServiceProxy} (h : Ready (markChain :: builtinChains) p)
    (hmem : markRule ∉ rulesOf p.nat markChain) :
    Permitted markChain (rulesOf p.nat markChain ++ [markRule]) := by
  rcases h.1.mark _ (h.lookup List.mem_cons_self) with hrules | hrules
  · rw [hrules]
    exact ⟨fun _ => .inr rfl, fun _ => .inl rfl, by simp [markRule]⟩
  · rw [hrules] at hmem
    exact absurd List.mem_cons_self hmem

theorem Ready.permitted_builtin {p : ServiceProxy} (h : Ready baseKnown p) {c : String}
    (hc : c ∈ builtinChains) {r : Rule} (hr : ∀ d, r.target = .jump d → ¬IsServiceChain d) :
    Permitted c (rulesOf p.nat c ++ [r]) := by
  refine h.permitted_append (by simp [baseKnown, hc]) ?_ (by simpa using fun _ => hr)
  rintro rfl
  exact absurd hc (by decide)

theorem ensureBaseChains_effect :
    Effect Installed Installed (Ready baseKnown) ensureBaseChains True True
      (mapNat baseChains) := by
  have hmark := appendUnique_effect (markChain :: builtinChains) markChain markRule (by decide)
    (by simp [markRule]) (by decide) fun p hp => hp.permitted_markRule
  have htarget : ∀ d, servicesJump.target = .jump d → ¬IsServiceChain d := by
    simp only [servicesJump, Target.jump.injEq, forall_eq']
    decide
  have hjump (c : String) (hc : c ∈ builtinChains) := appendUnique_effect baseKnown c servicesJump
    (by simp [baseKnown, hc]) (by simp [servicesJump, baseKnown]) (by decide)
    fun p hp _ => hp.permitted_builtin hc htarget
  have hmasquerade := appendUnique_effect baseKnown "POSTROUTING" masqueradeRule (by decide)
    (by simp [masqueradeRule]) (by decide)
    fun p hp _ => hp.permitted_builtin (by decide) (by simp [masqueradeRule])
  have heffect := (ensureChain_effect builtinChains markChain (permitted_nil (.inl rfl))).seq
    (hmark.seq
      ((ensureChain_effect _ servicesChain (permitted_nil (.inr (.inl rfl)))).seq
        ((hjump "PREROUTING" (by decide)).seq
          ((hjump "OUTPUT" (by decide)).seq hmasquerade))))
  exact heffect.mono (fun p h => ⟨h, h.builtin⟩) (fun _ h => h) (fun _ => trivial) (by simp)
    fun _ _ _ => rfl

end Base

structure Appends (known : List String) (c : String) (rules : List Rule) (p : Program Unit) :
    Prop where
  effect : Effect Installed (Ready known) (Ready known) p (∀ r ∈ rules, r.Accepted)
    (∀ r ∈ rules, r.Accepted) (mapNat (extended c rules))
  known : c ∈ known
  notMark : c ≠ markChain

namespace Appends
variable {known : List String} {c : String} {rules more : List Rule} {p q : Program Unit}

theorem nil (hc : c ∈ known) (hne : c ≠ markChain) : Appends known c [] (pure ()) := by
  refine ⟨?_, hc, hne⟩
  refine Effect.skip.mono (fun _ h => h) (fun _ h => h) (by simp) (fun h => h) fun s hs _ => ?_
  simp only [mapNat, extended, List.append_nil, insert_of_lookup _ (hs.lookup hc)]
  rfl

theorem one {r : Rule} (hc : c ∈ known) (hne : c ≠ markChain)
    (hr : ∀ d, r.target = .jump d → d ∈ known ∧ (c ≠ servicesChain → ¬IsServiceChain d)) :
    Appends known c [r] (onNat (·.append c r)) := by
  refine ⟨?_, hc, hne⟩
  simp only [List.mem_singleton, forall_eq]
  refine onNat_effect (fun s hs => hs.1) (fun s hs ha => ?_) (fun s hs ha => ?_) fun s hs _ => ?_
  · rw [Chains.append, hs.slot hc (fun d hd => (hr d hd).1) ha]
    rfl
  · obtain ⟨e, he⟩ := @Chains.slot_rejected s.nat c r ha
    exact ⟨e, by rw [Chains.append, he]; rfl⟩
  · refine (hs.insert (hs.permitted_append hc hne fun hs x hx d ht => ?_)).mono
      (List.subset_cons_self c known)
    rw [List.mem_singleton] at hx
    subst hx
    exact (hr d ht).2 hs

theorem append (hp : Appends known c rules p) (hq : Appends known c more q) :
    Appends known c (rules ++ more) (p >>= fun _ => q) := by
  refine ⟨?_, hp.known, hp.notMark⟩
  refine (hp.effect.seq hq.effect).mono (fun _ h => h) (fun _ h => h)
    List.forall_mem_append.mpr List.forall_mem_append.mp fun s _ _ => ?_
  simp only [Function.comp, mapNat, extended, rulesOf, lookup_insert_self, Option.getD_some,
    List.append_assoc, insert_insert]

theorem forM {α : Type} {body : α → Program Unit} {rules : α → List Rule} (hc : c ∈ known)
    (hne : c ≠ markChain) {l : List α} (h : ∀ x ∈ l, Appends known c (rules x) (body x)) :
    Appends known c (l.flatMap rules) (l.forM body) := by
  induction l with
  | nil => exact nil hc hne
  | cons x l ih =>
    rw [List.forall_mem_cons] at h
    exact h.1.append (ih h.2)

theorem rebuilds (h : Appends (c :: known) c rules p) (hc : Permitted c []) :
    Effect Installed (Ready known) (Ready (c :: known)) (onNat (·.clearChain c) >>= fun _ => p)
      (∀ r ∈ rules, r.Accepted) (∀ r ∈ rules, r.Accepted) (mapNat (·.insert c rules)) := by
  refine ((clearChain_effect known c hc).seq h.effect).mono (fun _ h => h) (fun _ h => h)
    And.right (fun h => ⟨trivial, h⟩) fun s _ _ => ?_
  simp only [Function.comp, mapNat, extended, rulesOf, lookup_insert_self, Option.getD_some,
    List.nil_append, insert_insert]

end Appends

section Populate
variable (hash : String → String) (services : List ServiceEndpoints) (svc : ServiceEndpoints)

theorem IsServiceChain.ne_markChain {chain : String} (h : IsServiceChain chain) :
    chain ≠ markChain := by
  rintro rfl
  exact absurd h (by decide)

theorem IsServiceChain.ne_servicesChain {chain : String} (h : IsServiceChain chain) :
    chain ≠ servicesChain := by
  rintro rfl
  exact absurd h (by decide)

def serviceRules : List Rule :=
  markJump :: svc.endpoints.zipIdx.map fun e => dnatRule svc e.2 e.1

@[simp] theorem dnatRule_target (i : ℕ) (ep : String) :
    (dnatRule svc i ep).target = .dnat ep svc.targetPort := by
  unfold dnatRule
  simp only
  split_ifs <;> rfl

theorem populateServiceChain_effect (known : List String) {chain : String}
    (hmark : markChain ∈ known) (hchain : IsServiceChain chain) :
    Effect Installed (Ready known) (Ready (chain :: known)) (populateServiceChain chain svc)
      (∀ r ∈ serviceRules svc, r.Accepted) (∀ r ∈ serviceRules svc, r.Accepted)
      (mapNat (·.insert chain (serviceRules svc))) := by
  have hjump : Appends (chain :: known) chain [markJump] (onNat (·.append chain markJump)) := by
    refine .one List.mem_cons_self hchain.ne_markChain ?_
    simp only [markJump, Target.jump.injEq, forall_eq']
    exact ⟨List.mem_cons_of_mem _ hmark, fun _ => by decide⟩
  have hdnat : Appends (chain :: known) chain
      (svc.endpoints.zipIdx.flatMap fun e => [dnatRule svc e.2 e.1])
      (svc.endpoints.zipIdx.forM fun e => onNat (·.append chain (dnatRule svc e.2 e.1))) :=
    .forM List.mem_cons_self hchain.ne_markChain fun e _ =>
      .one List.mem_cons_self hchain.ne_markChain (by simp)
  have heffect := (hjump.append hdnat).rebuilds (permitted_nil (.inr (.inr hchain)))
  rw [← List.map_eq_flatMap] at heffect
  exact heffect

def dispatchRules : List Rule :=
  (if svc.clusterIP ≠ "" ∧ 0 < svc.port then [clusterRule svc (serviceChain hash svc.name)]
    else []) ++
  (if 0 < svc.nodePort then [nodePortRule svc (serviceChain hash svc.name)] else [])

theorem appendIf_appends {known : List String} {c : String} {r : Rule} (cond : Prop)
    [Decidable cond] (hc : c ∈ known) (hne : c ≠ markChain)
    (hr : ∀ d, r.target = .jump d → d ∈ known ∧ (c ≠ servicesChain → ¬IsServiceChain d)) :
    Appends known c (if cond then [r] else []) (appendIf cond c r) := by
  unfold appendIf
  split_ifs
  · exact .one hc hne hr
  · exact .nil hc hne

theorem populateServicesChain_effect (known : List String)
    (hknown : ∀ svc ∈ services, serviceChain hash svc.name ∈ known) :
    Effect Installed (Ready known) (Ready (servicesChain :: known))
      (populateServicesChain hash services)
      (∀ r ∈ services.flatMap (dispatchRules hash), r.Accepted)
      (∀ r ∈ services.flatMap (dispatchRules hash), r.Accepted)
      (mapNat (·.insert servicesChain (services.flatMap (dispatchRules hash)))) := by
  refine Appends.rebuilds (.forM List.mem_cons_self (by decide) fun svc hsvc => ?_)
    (permitted_nil (.inr (.inl rfl)))
  have htarget : ∀ d, Target.jump (serviceChain hash svc.name) = .jump d →
      d ∈ servicesChain :: known ∧ (servicesChain ≠ servicesChain → ¬IsServiceChain d) := by
    simp only [Target.jump.injEq, forall_eq']
    exact ⟨List.mem_cons_of_mem _ (hknown svc hsvc), fun h => absurd rfl h⟩
  exact .append (appendIf_appends _ List.mem_cons_self (by decide) htarget)
    (appendIf_appends _ List.mem_cons_self (by decide) htarget)

theorem foldl_mapNat {α : Type} (g : α → Chains → Chains) (l : List α) (p : ServiceProxy) :
    l.foldl (fun p x => mapNat (g x) p) p = mapNat (fun t => l.foldl (fun t x => g x t) t) p := by
  induction l generalizing p with
  | nil => rfl
  | cons x l ih => exact ih (mapNat (g x) p)

theorem insert_ensured (c : String) (rules : List Rule) (t : Chains) :
    (ensured c t).insert c rules = t.insert c rules := by
  unfold ensured
  split_ifs
  · rfl
  · exact insert_insert t c [] rules

/-- Every service's chain with its rules. -/
def serviceChains : List (String × List Rule) :=
  services.map fun svc => (serviceChain hash svc.name, serviceRules svc)

theorem mem_overwrite_serviceChains (t : Chains) :
    ∀ svc ∈ services, serviceChain hash svc.name ∈ overwrite t (serviceChains hash services) := by
  intro svc hsvc
  have hkey : serviceChain hash svc.name ∈ (serviceChains hash services).map Prod.fst := by
    rw [serviceChains, List.map_map]
    exact List.mem_map_of_mem hsvc
  obtain ⟨rules, -, hl⟩ := lookup_written t hkey
  exact ExtTreeMap.isSome_getElem?_iff_mem.mp (by rw [hl]; rfl)

theorem rebuildServiceChain_effect :
    Effect Installed (Ready baseKnown) (Ready baseKnown) (rebuildServiceChain hash svc)
      (∀ r ∈ serviceRules svc, r.Accepted) (∀ r ∈ serviceRules svc, r.Accepted)
      (mapNat (·.insert (serviceChain hash svc.name) (serviceRules svc))) := by
  have hchain := isServiceChain_serviceChain hash svc.name
  have hensure := ensureChain_effect baseKnown _ (permitted_nil (.inr (.inr hchain)))
  have hpopulate := populateServiceChain_effect svc (serviceChain hash svc.name :: baseKnown)
    (by simp [baseKnown]) hchain
  refine ((hensure.label _).seq (hpopulate.label _)).mono (fun _ h => h) (fun p h => ?_)
    And.right (fun h => ⟨trivial, h⟩) fun p _ _ => ?_
  · exact h.mono fun d hd => by simp [hd]
  · simp only [Function.comp, mapNat, insert_ensured]

theorem rebuildServiceChains_effect :
    Effect Installed (Ready baseKnown)
      (Ready (services.map (fun svc => serviceChain hash svc.name) ++ baseKnown))
      (services.forM (rebuildServiceChain hash))
      (∀ svc ∈ services, ∀ r ∈ serviceRules svc, r.Accepted)
      (∀ svc ∈ services, ∀ r ∈ serviceRules svc, r.Accepted)
      (mapNat fun t => overwrite t (serviceChains hash services)) := by
  have hloop : Effect Installed (Ready baseKnown) (Ready baseKnown) _ _ _ _ :=
    Effect.forM (P := fun _ => Ready baseKnown) (l := services)
      fun svc _ _ => rebuildServiceChain_effect hash svc
  refine (hloop.mono (fun _ h => h) (fun _ h => h) id id fun p _ _ => ?_).post
    fun p _ _ h => ⟨h.1, fun d hd => ?_⟩
  · rw [foldl_mapNat]
    simp only [mapNat, overwrite, serviceChains, List.foldl_map]
  · rcases List.mem_append.mp hd with hd | hd
    · obtain ⟨svc, hsvc, rfl⟩ := List.mem_map.mp hd
      exact mem_overwrite_serviceChains hash services p.nat svc hsvc
    · exact h.2 d hd

end Populate

section Cleanup
variable (desired : List String)

def Trimmed (p : ServiceProxy) : Prop :=
  Installed p ∧ ∀ (c : String) (rules : List Rule) (r : Rule) (d : String),
    p.nat[c]? = some rules → r ∈ rules → r.target = .jump d → IsServiceChain d → d ∈ desired

def Stale (c : String) : Prop := IsServiceChain c ∧ c ∉ desired

instance (c : String) : Decidable (Stale desired c) := inferInstanceAs (Decidable (_ ∧ _))

variable {desired}

theorem Trimmed.clear {p : ServiceProxy} (h : Trimmed desired p) {c : String}
    (hc : IsServiceChain c) : Trimmed desired (p.mapNat (·.insert c [])) := by
  refine ⟨h.1.insert (permitted_nil (.inr (.inr hc))), fun d rules r target hl hr => ?_⟩
  simp only [mapNat, lookup_insert] at hl
  split_ifs at hl
  · rw [← Option.some.inj hl] at hr
    exact absurd hr List.not_mem_nil
  · exact h.2 d rules r target hl hr

theorem Trimmed.erase {p : ServiceProxy} (h : Trimmed desired p) {c : String}
    (hc : IsServiceChain c) : Trimmed desired (p.mapNat (·.erase c)) := by
  refine ⟨h.1.erase hc, fun d rules r target hl => ?_⟩
  simp only [mapNat, lookup_erase] at hl
  split_ifs at hl
  exact h.2 d rules r target hl

theorem deleteChain_ok {p : ServiceProxy} (h : Trimmed desired p) {c : String}
    (hc : Stale desired c) (hempty : p.nat[c]? = some []) :
    p.nat.deleteChain c = .ok (p.nat.erase c) := by
  have hrefers : ¬p.nat.Refers c := by
    rw [Chains.refers_iff]
    rintro ⟨d, rules, r, hl, hr, ht⟩
    exact hc.2 (h.2 d rules r c hl hr ht hc.1)
  simp only [Chains.deleteChain, hempty, if_neg hrefers]

def trimmed (desired : List String) (t : Chains) : Chains :=
  t.filter fun c _ => !decide (Stale desired c)

theorem lookup_trimmed (desired : List String) (t : Chains) (c : String) :
    (trimmed desired t)[c]? = if Stale desired c then none else t[c]? := by
  rw [trimmed, lookup_filter]
  cases t[c]? with
  | none => simp
  | some rules =>
    by_cases hc : Stale desired c
    · simp [hc, Option.filter_some]
    · simp [hc, Option.filter_some]

theorem foldl_trim {t : Chains} {l : List String} (hl : ∀ c, c ∈ l ↔ c ∈ t) :
    l.foldl (fun t c => if Stale desired c then t.erase c else t) t = trimmed desired t := by
  have hfold : ∀ t : Chains, l.foldl (fun t c => if Stale desired c then t.erase c else t) t =
      (l.filter fun c => Stale desired c).foldl (fun t c => t.erase c) t := by
    intro t
    rw [List.foldl_filter]
    simp only [decide_eq_true_eq]
  apply ExtTreeMap.ext_getElem?
  intro c
  rw [hfold, lookup_foldl_erase, lookup_trimmed]
  simp only [List.mem_filter, hl, decide_eq_true_eq]
  by_cases hc : c ∈ t
  · simp [hc]
  · simp [hc]

theorem cleanupStaleChains_effect (desired : List String) (orders : Orders) :
    Effect Installed (Trimmed desired) Installed (cleanupStaleChains orders desired) True True
      (mapNat (trimmed desired)) := by
  have hstep (c : String) : Effect Installed (Trimmed desired) (Trimmed desired)
      (if ¬HasPrefix c "SMITH-SVC-" ∨ c ∈ desired then pure ()
        else do
          onNat (·.clearChain c)
          onNat (·.deleteChain c))
      True True (mapNat fun t => if Stale desired c then t.erase c else t) := by
    by_cases hc : Stale desired c
    · rw [if_neg (by simpa [Stale, IsServiceChain] using hc)]
      have hclear : Effect Installed (Trimmed desired)
          (fun p => Trimmed desired p ∧ p.nat[c]? = some []) (onNat (·.clearChain c)) True True
          (mapNat (·.insert c [])) :=
        onNat_effect (fun _ h => h.1) (fun _ _ _ => rfl) (fun _ _ h => absurd trivial h)
          fun p h _ => ⟨h.clear hc.1, lookup_insert_self _ _ _⟩
      have hdelete : Effect Installed (fun p => Trimmed desired p ∧ p.nat[c]? = some [])
          (Trimmed desired) (onNat (·.deleteChain c)) True True (mapNat (·.erase c)) :=
        onNat_effect (fun _ h => h.1.1) (fun p h _ => deleteChain_ok h.1 hc h.2)
          (fun _ _ h => absurd trivial h) fun p h _ => h.1.erase hc.1
      refine (hclear.seq hdelete).mono (fun _ h => h) (fun _ h => h) And.left (fun h => ⟨h, h⟩)
        fun p _ _ => ?_
      simp only [Function.comp, mapNat, erase_insert, if_pos hc]
    · rw [if_pos (by simpa [Stale, IsServiceChain, imp_iff_not_or] using hc)]
      refine Effect.skip.mono (fun _ h => h) (fun _ h => h) id id fun p _ _ => ?_
      simp only [mapNat, if_neg hc]
      rfl
  refine Effect.query (fun _ h => h.1) fun chains => ?_
  have hloop : Effect Installed (Trimmed desired) (Trimmed desired) _ _ _ _ :=
    Effect.forM (P := fun _ => Trimmed desired) (l := orders.chains chains) fun c _ _ => hstep c
  refine hloop.mono (fun _ h => h.1) (fun _ h => h.1) (fun _ => trivial) (fun _ _ _ => trivial)
    fun p hp _ => ?_
  rw [foldl_mapNat]
  refine congrArg (fun t => { p with nat := t }) (foldl_trim fun c => ?_)
  rw [(orders.chains_perm chains).mem_iff, ← hp.2, ExtTreeMap.mem_keys]

end Cleanup

end Smith.ServiceProxy
