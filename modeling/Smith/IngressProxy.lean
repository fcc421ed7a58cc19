import Smith.HostPort
import Smith.NodeTables

set_option autoImplicit false

/-!
# The ingress proxy

Hosts are stored as given, lowered when the agent builds its map, and lowered and stripped of
a port when a request is looked up. An ingress is served by its own service exactly when every
text that its requests are looked up under leads to that service and to no other.
-/
namespace Smith
open FiniteMaps HostPort IPv4 Overwrites Runs Std

namespace IngressStore

def new : IngressStore := ⟨∅⟩

inductive Op where
  | add (ing : Ingress)
  | remove (host : String)
  deriving DecidableEq

/-- A rejected `Add` leaves the table alone. -/
def step (s : IngressStore) : Op → IngressStore
  | .add ing =>
    match s.add ing with
    | .ok s' => s'
    | .error _ => s
  | .remove host => s.remove host

theorem mem_list {s : IngressStore} {ing : Ingress} :
    ing ∈ s.list ↔ s.rows[ing.host]? = some ing.service := by
  simp only [list, List.mem_map, Prod.exists, ExtTreeMap.mem_toList_iff_getElem?_eq_some]
  constructor
  · rintro ⟨h, v, hrow, rfl⟩
    exact hrow
  · exact fun h => ⟨ing.host, ing.service, h, rfl⟩

end IngressStore

/-- `strings.ToLower`, with the lower case of the characters beyond ASCII read from a table. -/
def toLower (table : Char → Char) (s : String) : String :=
  String.ofList (s.toList.map fun c => if c.toNat < 128 then c.toLower else table c)

def setRules (table : Char → Char) (rules : List IngressRule) : GoMap String :=
  overwrite ∅ (rules.map fun r => (toLower table r.host, s!"{r.clusterIP}:{r.port}"))

def serveHTTP (table : Char → Char) (routes : GoMap String) (host : String) :
    Except String String :=
  let host := String.ofList (hostOf (toLower table host).toList)
  match routes[host]? with
  | none => .error s!"no ingress for {host}"
  | some backend => .ok backend

def Service.backend (sv : Service) : String := s!"{sv.clusterIP}:{sv.port}"

/-- Nothing, or a colon and digits. -/
def PortSuffix (s : String) : Prop :=
  s = "" ∨ ∃ port : List Char, port ≠ [] ∧ (∀ c ∈ port, c.isDigit = true) ∧
    s = String.ofList (':' :: port)

/-- The stored ingresses that lie at the key are all of one service. An ingress whose service
    does not exist lies nowhere. -/
def AllOf (table : Char → Char) (ingresses : IngressStore) (services : ServiceStore)
    (name : String) (key : List Char) : Prop :=
  ∀ h n : String, ingresses.rows[h]? = some n → services.rows[n]? ≠ none →
    (toLower table h).toList = key → n = name

/-- They are, and there is one. -/
def OwnsKey (table : Char → Char) (ingresses : IngressStore) (services : ServiceStore)
    (name : String) (key : List Char) : Prop :=
  (∃ h : String, ingresses.rows[h]? = some name ∧ (toLower table h).toList = key) ∧
    AllOf table ingresses services name key

theorem byName_eq {s : ServiceStore} {svcs : List Service} (h : svcs.Perm s.list) :
    overwrite (∅ : GoMap Service) (svcs.map fun sv => (sv.name, sv)) = s.rows := by
  have hrows : s.list.map (fun sv => (sv.name, sv)) = s.rows.toList := by
    rw [ServiceStore.list, List.map_map]
    refine (List.map_congr_left fun e he => ?_).trans (List.map_id _)
    rw [ExtTreeMap.mem_toList_iff_getElem?_eq_some] at he
    exact congrArg (·, e.2) (s.named e.1 e.2 he)
  exact overwrite_perm (hrows ▸ h.map _)

namespace ServiceStore
variable {s : ServiceStore} {n m : String} {x y : Service}

theorem Sound.colon_notMem (hs : Sound s) (hx : s.rows[n]? = some x) :
    ':' ∉ x.clusterIP.toList := by
  obtain ⟨c, -, hip⟩ := hs.clusterIP n x hx
  rw [hip]
  exact notMem_text _ rfl (by decide)

theorem Sound.clusterIP_ne (hs : Sound s) (hx : s.rows[n]? = some x) : x.clusterIP ≠ "" := by
  obtain ⟨c, -, hip⟩ := hs.clusterIP n x hx
  intro hempty
  have hparse := parse_text (.ofNat c)
  have hnone : parse "" = none := by decide
  rw [← hip, hempty, hnone] at hparse
  exact absurd hparse (by simp)

theorem Sound.eq_of_backend (hs : Sound s) (hx : s.rows[n]? = some x) (hy : s.rows[m]? = some y)
    (h : x.backend = y.backend) : n = m := by
  have hlist (sv : Service) : sv.backend.toList =
      sv.clusterIP.toList ++ ':' :: (toString sv.port).toList := by
    simp [Service.backend, toString]
  have hcut := congrArg (cut ':') ((hlist x).symm.trans ((congrArg String.toList h).trans (hlist y)))
  rw [cut_append (hs.colon_notMem hx), cut_append (hs.colon_notMem hy)] at hcut
  exact s.distinctIP n m x y hx hy (String.toList_inj.mp (Prod.mk.inj (Option.some.inj hcut)).1)

end ServiceStore

section Routes
variable (table : Char → Char) (ingresses : IngressStore) (services : ServiceStore)

/-- Where an ingress lies in the map and what it leads to, if its service exists. -/
def routeOf (ing : Ingress) : Option (String × String) :=
  services.rows[ing.service]?.map fun sv => (toLower table ing.host, sv.backend)

variable {table} {ingresses} {services}

theorem routeOf_eq_some {ing : Ingress} {k v : String} : routeOf table services ing = some (k, v) ↔
    ∃ sv, services.rows[ing.service]? = some sv ∧ toLower table ing.host = k ∧ sv.backend = v := by
  simp [routeOf]

theorem routes_eq (hs : services.Sound) {ings : List Ingress} {svcs : List Service}
    (hsvcs : svcs.Perm services.list) : ∃ rules,
      computeIngressRules (some (.ok ings)) (some (.ok svcs)) = .ok rules ∧
      setRules table rules = overwrite ∅ (ings.filterMap (routeOf table services)) := by
  refine ⟨_, rfl, ?_⟩
  rw [setRules, List.map_filterMap]
  refine congrArg (overwrite ∅) (List.filterMap_congr fun ing _ => ?_)
  rw [byName_eq hsvcs, routeOf]
  cases hrow : services.rows[ing.service]? with
  | none => rfl
  | some sv =>
    simp only [if_neg (hs.clusterIP_ne hrow), Option.map_some]
    rfl

variable {s : String} {sv : Service}

/-- A key leads to the service in every order of the rows exactly when the service owns it. -/
theorem leads_iff (hs : services.Sound) (hsv : services.rows[s]? = some sv) (k : String) :
    (∀ ings : List Ingress, ings.Perm ingresses.list →
      (overwrite (∅ : GoMap String) (ings.filterMap (routeOf table services)))[k]? =
        some sv.backend) ↔ OwnsKey table ingresses services s k.toList := by
  constructor
  · intro h
    refine ⟨?_, fun h' n hrow hn hk => ?_⟩
    · have hmem := mem_of_lookup (h ingresses.list (.refl _))
      obtain ⟨ing, hing, hroute⟩ := List.mem_filterMap.mp hmem
      obtain ⟨sv', hsv', hk, hbackend⟩ := routeOf_eq_some.mp hroute
      have hname := hs.eq_of_backend hsv' hsv hbackend
      exact ⟨ing.host, hname ▸ IngressStore.mem_list.mp hing, congrArg String.toList hk⟩
    · -- the order in which this ingress is written last
      obtain ⟨sv', hsv'⟩ := Option.ne_none_iff_exists'.mp hn
      have hing : (⟨h', n⟩ : Ingress) ∈ ingresses.list := IngressStore.mem_list.mpr hrow
      have hperm : (ingresses.list.erase ⟨h', n⟩ ++ [(⟨h', n⟩ : Ingress)]).Perm ingresses.list :=
        (List.perm_append_singleton _ _).trans (List.perm_cons_erase hing).symm
      have hroute : routeOf table services ⟨h', n⟩ = some (k, sv'.backend) :=
        routeOf_eq_some.mpr ⟨sv', hsv', String.toList_inj.mp hk, rfl⟩
      have hlast := h _ hperm
      rw [List.filterMap_append, List.filterMap_cons, hroute, List.filterMap_nil,
        lookup_overwrite_concat] at hlast
      exact hs.eq_of_backend hsv' hsv (Option.some.inj hlast)
  · rintro ⟨⟨h, hrow, hk⟩, hall⟩ ings hperm
    have hing : (⟨h, s⟩ : Ingress) ∈ ings := hperm.mem_iff.mpr (IngressStore.mem_list.mpr hrow)
    have hroute : routeOf table services ⟨h, s⟩ = some (k, sv.backend) :=
      routeOf_eq_some.mpr ⟨sv, hsv, String.toList_inj.mp hk, rfl⟩
    have hwritten := List.mem_map_of_mem (f := Prod.fst) (List.mem_filterMap.mpr ⟨_, hing, hroute⟩)
    obtain ⟨v, hv, hl⟩ := lookup_written (∅ : GoMap String) hwritten
    obtain ⟨ing, hing, hroute⟩ := List.mem_filterMap.mp hv
    obtain ⟨sv', hsv', hk', rfl⟩ := routeOf_eq_some.mp hroute
    have hname := hall ing.host ing.service
      (IngressStore.mem_list.mp (hperm.mem_iff.mp hing)) (by simp [hsv'])
      (congrArg String.toList hk')
    rw [hname, hsv] at hsv'
    rw [hl, Option.some.inj hsv']

/-- No service owns all the keys that a text makes with ports. -/
theorem exists_unowned_port (l : List Char) : ∃ port : List Char, port ≠ [] ∧
    (∀ c ∈ port, c.isDigit = true) ∧ ¬ OwnsKey table ingresses services s (l ++ ':' :: port) := by
  -- a port longer than all the stored hosts together
  let lengths := ingresses.list.map fun ing => (toLower table ing.host).toList.length
  refine ⟨.replicate (lengths.sum + 1) '0', by simp, fun c hc => ?_, ?_⟩
  · rw [List.eq_of_mem_replicate hc]
    rfl
  · rintro ⟨⟨h, hrow, hk⟩, -⟩
    have hmem : (⟨h, s⟩ : Ingress) ∈ ingresses.list := IngressStore.mem_list.mpr hrow
    have hle : (toLower table h).toList.length ≤ lengths.sum :=
      List.le_sum_of_mem (List.mem_map.mpr ⟨_, hmem, rfl⟩)
    rw [hk, List.length_append, List.length_cons, List.length_replicate] at hle
    omega

end Routes

theorem toLower_append (table : Char → Char) (x y : String) :
    toLower table (x ++ y) = toLower table x ++ toLower table y := by
  apply String.toList_inj.mp
  simp [toLower]

theorem lower_digit (table : Char → Char) {c : Char} (h : c.isDigit = true) :
    (if c.toNat < 128 then c.toLower else table c) = c := by
  simp only [Char.isDigit, Bool.and_eq_true, decide_eq_true_eq, UInt32.le_iff_toNat_le] at h
  have hnine : c.val.toNat ≤ 57 := h.2
  have hascii : c.toNat < 128 := by
    change c.val.toNat < 128
    omega
  rw [if_pos hascii, Char.toLower, dif_neg]
  rintro ⟨hletter, -⟩
  rw [ge_iff_le, UInt32.le_iff_toNat_le] at hletter
  have : 65 ≤ c.val.toNat := hletter
  omega

theorem toLower_suffix (table : Char → Char) {s : String} (h : PortSuffix s) :
    toLower table s = s := by
  obtain rfl | ⟨port, -, hdigits, rfl⟩ := h
  · rfl
  · apply String.toList_inj.mp
    have hcolon : ':'.toLower = ':' := by decide
    simp only [toLower, String.toList_ofList, List.map_cons]
    exact congrArg₂ List.cons hcolon
      ((List.map_congr_left fun c hc => lower_digit table (hdigits c hc)).trans (List.map_id _))

theorem serveHTTP_eq_ok {table : Char → Char} {routes : GoMap String} {host backend : String} :
    serveHTTP table routes host = .ok backend ↔
      routes[String.ofList (hostOf (toLower table host).toList)]? = some backend := by
  unfold serveHTTP
  cases hr : routes[String.ofList (hostOf (toLower table host).toList)]? with
  | none => simp [hr]
  | some b => simp [hr]

theorem owns_requests_iff {table : Char → Char} {ingresses : IngressStore}
    {services : ServiceStore} {s : String} (l : List Char) :
    (∀ suffix, PortSuffix suffix →
      OwnsKey table ingresses services s (hostOf (l ++ suffix.toList))) ↔
    OwnsKey table ingresses services s l ∧
      (Plain l ∨ ∃ inner, Bracketed inner l ∧ OwnsKey table ingresses services s inner) := by
  have hport (port : List Char) : (String.ofList (':' :: port)).toList = ':' :: port :=
    String.toList_ofList
  constructor
  · intro h
    have hbare := h "" (.inl rfl)
    rw [String.toList_empty, List.append_nil] at hbare
    by_cases hplain : Plain l
    · rw [hostOf_no_colon hplain.1] at hbare
      exact ⟨hbare, .inl hplain⟩
    · by_cases hbracket : ∃ inner, Bracketed inner l
      · obtain ⟨inner, hinner⟩ := hbracket
        rw [hostOf_bracketed hinner] at hbare
        refine ⟨hbare, .inr ⟨inner, hinner, ?_⟩⟩
        have hdigits : ∀ c ∈ ['0'], c.isDigit = true := by simp
        have hzero := h (String.ofList [':', '0']) (.inr ⟨['0'], by simp, hdigits, rfl⟩)
        rwa [hport, hostOf_bracketed_port (plain_of_digits hdigits) hinner] at hzero
      · -- every port makes another key
        obtain ⟨port, hne, hdigits, hunowned⟩ :=
          @exists_unowned_port table ingresses services s l
        have howned := h _ (.inr ⟨port, hne, hdigits, rfl⟩)
        rw [hport, hostOf_other_port (plain_of_digits hdigits) hplain
          (not_exists.mp hbracket)] at howned
        exact absurd howned hunowned
  · rintro ⟨hown, hcase⟩ suffix (rfl | ⟨port, -, hdigits, rfl⟩)
    · rw [String.toList_empty, List.append_nil]
      obtain hplain | ⟨inner, hinner, -⟩ := hcase
      · rwa [hostOf_no_colon hplain.1]
      · rwa [hostOf_bracketed hinner]
    · rw [hport]
      obtain hplain | ⟨inner, hinner, hown'⟩ := hcase
      · rwa [hostOf_plain_port (plain_of_digits hdigits) hplain]
      · rwa [hostOf_bracketed_port (plain_of_digits hdigits) hinner]

/-- A stored ingress whose service exists is served by it, in any letter case, with or without
    a port and in any order of the rows, exactly when no other service lies at the lowered host
    and the host holds no colon or bracket, or is in brackets and the service owns the text in
    them too. -/
theorem ingress_served_iff (table : Char → Char) (iops : List IngressStore.Op)
    (sops : List ServiceStore.Op) {h s : String} {sv : Service}
    (hing : (run IngressStore.step .new iops).rows[h]? = some s)
    (hsv : (run ServiceStore.step .new sops).rows[s]? = some sv) :
    let ingresses := run IngressStore.step .new iops
    let services := run ServiceStore.step .new sops
    let lowered := (toLower table h).toList
    (∀ ings svcs, ings.Perm ingresses.list → svcs.Perm services.list →
      ∃ rules, computeIngressRules (some (.ok ings)) (some (.ok svcs)) = .ok rules ∧
        ∀ x suffix, toLower table x = toLower table h → PortSuffix suffix →
          serveHTTP table (setRules table rules) (x ++ suffix) =
            .ok s!"{sv.clusterIP}:{sv.port}") ↔
    AllOf table ingresses services s lowered ∧
      (Plain lowered ∨ ∃ inner, Bracketed inner lowered ∧
        OwnsKey table ingresses services s inner) := by
  intro ingresses services lowered
  have hall : AllOf table ingresses services s lowered ↔ OwnsKey table ingresses services s lowered :=
    ⟨fun h' => ⟨⟨h, hing, rfl⟩, h'⟩, And.right⟩
  have hs : services.Sound := ServiceStore.Sound.new.run sops
  have hlist {x suffix : String} (hx : toLower table x = toLower table h)
      (hsuffix : PortSuffix suffix) :
      (toLower table (x ++ suffix)).toList = lowered ++ suffix.toList := by
    rw [toLower_append, hx, toLower_suffix table hsuffix, String.toList_append]
  rw [hall, ← owns_requests_iff lowered]
  constructor
  · intro hserved suffix hsuffix
    rw [← String.toList_ofList (l := hostOf _), ← leads_iff hs hsv]
    intro ings hings
    obtain ⟨rules, hrules, hserve⟩ := hserved ings services.list hings (.refl _)
    obtain ⟨rules', hrules', hroutes⟩ := @routes_eq table services hs ings services.list (.refl _)
    obtain rfl := Except.ok.inj (hrules.symm.trans hrules')
    have hok := serveHTTP_eq_ok.mp (hserve h suffix rfl hsuffix)
    rwa [hlist rfl hsuffix, hroutes] at hok
  · intro howns ings svcs hings hsvcs
    obtain ⟨rules, hrules, hroutes⟩ := @routes_eq table services hs ings svcs hsvcs
    refine ⟨rules, hrules, fun x suffix hx hsuffix => ?_⟩
    have hown := howns suffix hsuffix
    rw [← String.toList_ofList (l := hostOf _), ← leads_iff hs hsv] at hown
    rw [serveHTTP_eq_ok, hlist hx hsuffix, hroutes]
    exact hown ings hings

section Samples

private def webAndApi : List ServiceStore.Op :=
  [.add { name := "web", workloadID := "web", port := 80, targetPort := 8080 },
    .add { name := "api", workloadID := "api", port := 81, targetPort := 8081 }]

/-- Two hosts of one service and one of another, none of them a port or in brackets. -/
theorem ingress_served_iff_shared :
    let iops : List IngressStore.Op :=
      [.add ⟨"Web.example.com", "web"⟩, .add ⟨"web.example.com", "web"⟩,
        .add ⟨"api.example.com", "api"⟩]
    let ingresses := run IngressStore.step .new iops
    let services := run ServiceStore.step .new webAndApi
    ∃ rules, computeIngressRules (some (.ok ingresses.list)) (some (.ok services.list)) =
        .ok rules ∧
      serveHTTP id (setRules id rules) "WEB.example.com:8443" = .ok "10.23.0.1:80" := by
  intro iops ingresses services
  have hing : ingresses.rows["Web.example.com"]? = some "web" := by decide +kernel
  have hsv : services.rows["web"]? =
      some (⟨"web", "web", 80, 8080, "tcp", "10.23.0.1", 30000⟩ : Service) := by
    decide +kernel
  have hall : AllOf id ingresses services "web" (toLower id "Web.example.com").toList :=
    forall_lookup_iff.mpr (by decide +kernel)
  have hplain : Plain (toLower id "Web.example.com").toList := by
    unfold Plain
    decide +kernel
  obtain ⟨rules, hrules, hserve⟩ := (ingress_served_iff id iops webAndApi hing hsv).mpr
    ⟨hall, .inl hplain⟩ ingresses.list services.list (.refl _) (.refl _)
  exact ⟨rules, hrules, hserve "WEB.example.com" ":8443" (by decide +kernel)
    (.inr ⟨['8', '4', '4', '3'], by simp, by simp, rfl⟩)⟩

/-- Hosts that differ in letter case only lie at one key, and a host with a port lies at a key
    that no request comes to. -/
theorem ingress_collapsed_and_unreachable :
    let services := run ServiceStore.step .new webAndApi
    (let ingresses := run IngressStore.step .new
        [.add ⟨"App.example.com", "web"⟩, .add ⟨"app.example.com", "api"⟩]
      ∃ rules, computeIngressRules (some (.ok ingresses.list)) (some (.ok services.list)) =
          .ok rules ∧
        ingresses.rows["App.example.com"]? = some "web" ∧
        serveHTTP id (setRules id rules) "App.example.com" = .ok "10.23.0.2:81") ∧
    let ingresses := run IngressStore.step .new [.add ⟨"app.example.com:8443", "web"⟩]
      ∃ rules, computeIngressRules (some (.ok ingresses.list)) (some (.ok services.list)) =
          .ok rules ∧
        serveHTTP id (setRules id rules) "app.example.com:8443" =
          .error "no ingress for app.example.com" := by
  refine ⟨⟨_, rfl, by decide +kernel, by decide +kernel⟩, _, rfl, by decide +kernel⟩

end Samples

end Smith
