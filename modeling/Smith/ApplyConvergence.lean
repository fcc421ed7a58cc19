import Smith.ApplyRuns

set_option autoImplicit false

/-!
# What an apply run leaves

A run that ends has written every declared resource, the last one where several share a key,
and with `prune` nothing else is left: the view is then a function of the directory. A second
run changes no row, and keeps the addresses of the services.
-/
namespace Smith
open FiniteMaps Overwrites Std
open Remote (controlPlane andThen andThen_ok andThen_of_ok andThen_keeps issueAll_ok
  issueAll_history issueAll_healthy)

variable {net : Net} {fs : Files} {dec : String → Except String (GoMap String)} {dir : String}
  {bundles : List Bundle} {prune : Bool} {w : Session} {st : Stores}

def View.empty : View := ⟨∅, ∅, ∅⟩

theorem pruned_overwrite {V : Type} {t : GoMap V} {l : List (String × V)} {live : List String}
    (hlive : ∀ k, k ∈ live ↔ (overwrite t l)[k]? ≠ none) :
    (delta (l.map Prod.fst) live).del.foldl (fun t k => t.erase k) (overwrite t l) =
      overwrite ∅ l := by
  apply ExtTreeMap.ext_getElem?
  intro k
  rw [lookup_pruned hlive]
  split_ifs with hk
  · obtain ⟨x, -, hx⟩ := lookup_written (∅ : GoMap V) hk
    rw [lookup_overwrite, hx, Option.some_or]
  · exact (lookup_eq_none.mpr hk).symm

/-- Pruning the view that the apply loops leave gives what the directory declares. -/
theorem pruneDrift_ok {v : View} (hview : w.stores.view = declared bundles v)
    (h : ((controlPlane net).pruneDrift bundles w).2 = .ok ()) :
    ((controlPlane net).pruneDrift bundles w).1.stores.view = declared bundles View.empty := by
  unfold Remote.pruneDrift Remote.prunePlan at h ⊢
  cases hlive : (controlPlane net).liveKeys w.state with
  | error e =>
    rw [hlive] at h
    exact absurd h (by simp)
  | ok l =>
    obtain ⟨hlw, hls, hli⟩ := liveKeys_iff hlive
    rw [hlive] at h
    simp only at h ⊢
    obtain ⟨h₁, e₁⟩ := andThen_ok h
    rw [e₁] at h ⊢
    obtain ⟨h₂, e₂⟩ := andThen_ok h
    rw [e₂] at h ⊢
    rw [(issueAll_ok h).1, (issueAll_ok h₂).1, (issueAll_ok h₁).1,
      effects_deleteIngress, effects_deleteService, effects_deleteWorkload]
    rw [hview] at hlw hls hli ⊢
    simp only [desiredKeys_eq]
    exact congr (congr (congrArg View.mk (pruned_overwrite hlw)) (pruned_overwrite hls))
      (pruned_overwrite hli)

/-- What a run that ends leaves, as a function of the directory and the old view. -/
theorem apply_ok_view (h : (apply net fs dec dir false prune (Session.start st)).2 = .ok ()) :
    ∃ bundles, resolvedBundles fs dec dir = .ok bundles ∧
      ((controlPlane net).applyAll bundles (Session.start st)).2 = .ok () ∧
      (apply net fs dec dir false prune (Session.start st)).1.stores.view =
        declared bundles (if prune then View.empty else st.view) := by
  unfold Smith.apply Remote.apply at h ⊢
  cases hb : resolvedBundles fs dec dir with
  | error e =>
    rw [hb] at h
    exact absurd h (by simp)
  | ok bundles =>
    rw [hb] at h
    simp only [Bool.false_eq_true, if_false] at h ⊢
    obtain ⟨h₁, e₁⟩ := andThen_ok h
    rw [e₁] at h ⊢
    have hview := (applyAll_ok h₁).1
    refine ⟨bundles, rfl, h₁, ?_⟩
    cases prune with
    | true => exact pruneDrift_ok hview h
    | false => exact hview

theorem exec_applyWorkload {wl : Workload} {st₀ st₁ : Stores}
    (h : (Request.applyWorkload wl).exec st₀ = .ok st₁) (st : Stores) :
    ∃ st', (Request.applyWorkload wl).exec st = .ok st' ∧ st'.services = st.services := by
  simp only [Request.exec] at h ⊢
  cases hv : validateWorkload wl with
  | error e => simp [hv] at h
  | ok u =>
    simp only [hv] at h ⊢
    by_cases hid : wl.id = ""
    · simp [Store.add, hid] at h
    · by_cases himage : wl.image = ""
      · simp [Store.add, hid, himage] at h
      · simp [Store.add, hid, himage]

theorem exec_applyIngress {i : Ingress} {st₀ st₁ : Stores}
    (h : (Request.applyIngress i).exec st₀ = .ok st₁) (st : Stores) :
    ∃ st', (Request.applyIngress i).exec st = .ok st' ∧ st'.services = st.services := by
  simp only [Request.exec] at h ⊢
  by_cases hhost : i.host = ""
  · simp [IngressStore.add, hhost] at h
  · by_cases hservice : i.service = ""
    · simp [IngressStore.add, hhost, hservice] at h
    · simp [IngressStore.add, hhost, hservice]

/-- A service accepted once is accepted wherever its name is stored, and keeps all addresses. -/
theorem exec_applyService {s : Service} {st₀ st₁ : Stores}
    (h : (Request.applyService s).exec st₀ = .ok st₁) {st : Stores}
    (hs : st.services.rows[s.name]? ≠ none) :
    ∃ st', (Request.applyService s).exec st = .ok st' ∧
      st'.services.allocations = st.services.allocations := by
  have hvalid : ServiceStore.Valid s := by
    by_contra hv
    obtain ⟨e, he⟩ := @ServiceStore.add_invalid st₀.services s hv
    simp [Request.exec, he] at h
  obtain ⟨row, hrow⟩ := Option.ne_none_iff_exists'.mp hs
  obtain ⟨-, hok⟩ := ServiceStore.add_existing hvalid hrow
  have hadd : st.services.add s = ((st.services.add s).1, .ok _) := Prod.ext rfl hok
  refine ⟨{ st with services := (st.services.add s).1 }, ?_, ServiceStore.allocations_add hs⟩
  simp only [Request.exec]
  rw [hadd]

theorem applyAll_again {A : GoMap (String × ℤ)}
    (hw : ∀ wl ∈ declaredWorkloads bundles, ∃ st st', (Request.applyWorkload wl).exec st = .ok st')
    (hs : ∀ s ∈ declaredServices bundles, ∃ st st', (Request.applyService s).exec st = .ok st')
    (hi : ∀ i ∈ declaredIngresses bundles, ∃ st st', (Request.applyIngress i).exec st = .ok st')
    (hA : ∀ s ∈ declaredServices bundles, A[s.name]? ≠ none)
    (halloc : w.stores.services.allocations = A) :
    ((controlPlane .healthy).applyAll bundles w).2 = .ok () ∧
      ((controlPlane .healthy).applyAll bundles w).1.stores.services.allocations = A := by
  -- The allocations are the invariant of all three loops: an update keeps them and nothing is new.
  have h₁ := @issueAll_healthy ((declaredWorkloads bundles).map .applyWorkload) w
    (fun st => st.services.allocations = A) (by
      simp only [List.forall_mem_map]
      intro wl hwl st hst
      obtain ⟨st₀, st₁, hex⟩ := hw wl hwl
      obtain ⟨st', hex', hsvc⟩ := exec_applyWorkload hex st
      exact ⟨st', hex', hsvc ▸ hst⟩) halloc
  have h₂ := @issueAll_healthy ((declaredServices bundles).map .applyService) _
    (fun st => st.services.allocations = A) (by
      simp only [List.forall_mem_map]
      intro s hsm st hst
      obtain ⟨st₀, st₁, hex⟩ := hs s hsm
      have hne : st.services.rows[s.name]? ≠ none := by
        have := hA s hsm
        rwa [← hst, ServiceStore.lookup_allocations, Ne, Option.map_eq_none_iff] at this
      obtain ⟨st', hex', hsvc⟩ := exec_applyService hex hne
      exact ⟨st', hex', hsvc.trans hst⟩) h₁.2
  have h₃ := @issueAll_healthy ((declaredIngresses bundles).map .applyIngress) _
    (fun st => st.services.allocations = A) (by
      simp only [List.forall_mem_map]
      intro i him st hst
      obtain ⟨st₀, st₁, hex⟩ := hi i him
      obtain ⟨st', hex', hsvc⟩ := exec_applyIngress hex st
      exact ⟨st', hex', hsvc ▸ hst⟩) h₂.2
  unfold Remote.applyAll
  rw [andThen_of_ok h₁.1, andThen_of_ok h₂.1]
  exact h₃

theorem declared_idem (bundles : List Bundle) (v : View) :
    declared bundles (declared bundles v) = declared bundles v := by
  simp only [declared, overwrite_idem]

theorem live_declared (bundles : List Bundle) :
    (∀ id, (declared bundles View.empty).workloads[id]? ≠ none ↔
      id ∈ (desiredKeys bundles).workloads) ∧
    (∀ n, (declared bundles View.empty).services[n]? ≠ none ↔
      n ∈ (desiredKeys bundles).services) ∧
    ∀ host, (declared bundles View.empty).ingresses[host]? ≠ none ↔
      host ∈ (desiredKeys bundles).ingresses := by
  simp only [desiredKeys_eq]
  exact ⟨fun id => (not_congr lookup_eq_none).trans not_not,
    fun n => (not_congr lookup_eq_none).trans not_not,
    fun host => (not_congr lookup_eq_none).trans not_not⟩

theorem delta_same {desired live : List String} (h : ∀ k, k ∈ live ↔ k ∈ desired) :
    (delta desired live).create = [] ∧ (delta desired live).del = [] := by
  constructor
  · refine (sortSlice_eq_nil _ _).mpr (List.filter_eq_nil_iff.mpr fun k hk => ?_)
    simp [(h k).mpr hk]
  · refine (sortSlice_eq_nil _ _).mpr (List.filter_eq_nil_iff.mpr fun k hk => ?_)
    simp [(h k).mp hk]

theorem deltas_declared {s : Recorded} (hview : s.stores.view = declared bundles View.empty)
    {l : Keys} (hlive : (controlPlane net).liveKeys s = .ok l) :
    ((delta (desiredKeys bundles).workloads l.workloads).create = [] ∧
      (delta (desiredKeys bundles).workloads l.workloads).del = []) ∧
    ((delta (desiredKeys bundles).services l.services).create = [] ∧
      (delta (desiredKeys bundles).services l.services).del = []) ∧
    (delta (desiredKeys bundles).ingresses l.ingresses).create = [] ∧
      (delta (desiredKeys bundles).ingresses l.ingresses).del = [] := by
  obtain ⟨hlw, hls, hli⟩ := liveKeys_iff hlive
  rw [hview] at hlw hls hli
  obtain ⟨hdw, hds, hdi⟩ := live_declared bundles
  exact ⟨delta_same fun k => (hlw k).trans (hdw k), delta_same fun k => (hls k).trans (hds k),
    delta_same fun k => (hli k).trans (hdi k)⟩

theorem pruneDrift_declared (hview : w.stores.view = declared bundles View.empty) :
    ((controlPlane net).pruneDrift bundles w).1 = w ∧
      (net = .healthy → ((controlPlane net).pruneDrift bundles w).2 = .ok ()) := by
  unfold Remote.pruneDrift Remote.prunePlan
  cases hlive : (controlPlane net).liveKeys w.state with
  | error e =>
    refine ⟨rfl, ?_⟩
    rintro rfl
    exact absurd hlive (by simp [Remote.liveKeys, controlPlane, Net.healthy])
  | ok l =>
    obtain ⟨⟨-, hw⟩, ⟨-, hs⟩, -, hi⟩ := deltas_declared hview hlive
    simp only [hw, hs, hi]
    exact ⟨rfl, fun _ => rfl⟩

def Request.isDelete : Request → Bool
  | .deleteIngress _ | .deleteService _ | .deleteWorkload _ => true
  | .applyWorkload _ | .applyService _ | .applyIngress _ => false

theorem applyAll_no_delete (hw : ∀ e ∈ w.history, e.1.isDelete = false) :
    ∀ e ∈ ((controlPlane net).applyAll bundles w).1.history, e.1.isDelete = false := by
  have hloop : ∀ {cs : List Request} {w : Session}, (∀ c ∈ cs, c.isDelete = false) →
      (∀ e ∈ w.history, e.1.isDelete = false) →
      ∀ e ∈ ((controlPlane net).issueAll w cs).1.history, e.1.isDelete = false := by
    intro cs w hcs hw e he
    obtain he | he := issueAll_history e he
    · exact hw e he
    · exact hcs _ he
  have h₁ := @hloop ((declaredWorkloads bundles).map .applyWorkload) w (by simp [Request.isDelete]) hw
  refine andThen_keeps (Q := fun w => ∀ e ∈ w.history, e.1.isDelete = false) h₁ fun _ => ?_
  have h₂ := @hloop ((declaredServices bundles).map .applyService) _ (by simp [Request.isDelete]) h₁
  refine andThen_keeps (Q := fun w => ∀ e ∈ w.history, e.1.isDelete = false) h₂ fun _ => ?_
  exact hloop (by simp [Request.isDelete]) h₂

theorem diffReport_kinds {report : List (String × Delta)} (h : diffReport net fs dir st = .ok report) :
    report.map Prod.fst = ["workloads", "services", "ingresses"] := by
  unfold diffReport Remote.diffReport at h
  split at h
  · exact absurd h (by simp)
  · dsimp only at h
    split at h
    · exact absurd h (by simp)
    · rw [← Except.ok.inj h]
      rfl

section Again
variable (hb : resolvedBundles fs dec dir = .ok bundles)
  (hview : st.view = declared bundles View.empty)
include hb hview

theorem diffReport_declared :
    ∃ report, diffReport .healthy fs dir st = .ok report ∧
      ∀ e ∈ report, e.2.create = [] ∧ e.2.del = [] := by
  obtain ⟨loaded, hloaded, hmerged⟩ := resolvedBundles_parts hb
  have hkeys := desiredKeys_merged hmerged
  have hlive : ∃ l, (controlPlane .healthy).liveKeys { stores := st } = .ok l := ⟨_, rfl⟩
  obtain ⟨l, hlive⟩ := hlive
  obtain ⟨hdw, hds, hdi⟩ := @deltas_declared .healthy bundles { stores := st } hview l hlive
  refine ⟨_, by simp only [diffReport, Remote.diffReport, hloaded, hlive, ← hkeys]; rfl, ?_⟩
  simp only [List.forall_mem_cons, List.not_mem_nil, false_implies, implies_true, and_true]
  exact ⟨hdw, hds, hdi⟩

/-- `Diff` then prints headings and lines of what is in sync. -/
theorem diff_declared : ∃ report : List (String × Delta),
    report.map Prod.fst = ["workloads", "services", "ingresses"] ∧
    ((controlPlane .healthy).diff fs dir (Session.start st)).1.out =
      report.flatMap fun e => s!"{e.1}:" ::
        if e.2.inSync.length > 0 then ["  = in sync  " ++ ", ".intercalate e.2.inSync] else [] := by
  obtain ⟨report, hreport, hempty⟩ := diffReport_declared hb hview
  have hlines : (controlPlane .healthy).diffReport fs dir (Session.start st).state = .ok report :=
    hreport
  refine ⟨report, diffReport_kinds hreport, ?_⟩
  simp only [Remote.diff, hlines]
  refine List.flatMap_congr fun e he => ?_
  simp [diffLines, (hempty e he).1, (hempty e he).2]

omit hview in
theorem apply_prune_eq (net : Net) (w : Session) : apply net fs dec dir false true w =
    andThen ((controlPlane net).applyAll bundles w) ((controlPlane net).pruneDrift bundles) := by
  simp only [apply, Remote.apply, hb, Bool.false_eq_true, if_false, if_true]

omit hb in
theorem applyAll_again_view (hok : ((controlPlane net).applyAll bundles (Session.start st)).2 = .ok ()) :
    ((controlPlane net).applyAll bundles (Session.start st)).1.stores.view = declared bundles View.empty := by
  have hstart : (Session.start st).stores.view = declared bundles View.empty := hview
  rw [(applyAll_ok hok).1, hstart, declared_idem]

theorem apply_again_no_delete (net : Net) :
    ∀ e ∈ (apply net fs dec dir false true (Session.start st)).1.history, e.1.isDelete = false := by
  rw [apply_prune_eq hb]
  have hno := @applyAll_no_delete net bundles (Session.start st) (by simp)
  refine andThen_keeps (Q := fun w => ∀ e ∈ w.history, e.1.isDelete = false) hno fun ok => ?_
  rw [(pruneDrift_declared (applyAll_again_view hview ok)).1]
  exact hno

theorem apply_again_same (happlied : ((controlPlane net).applyAll bundles w).2 = .ok ()) :
    let again := apply .healthy fs dec dir false true (Session.start st)
    again.2 = .ok () ∧ again.1.stores.workloads.list = st.workloads.list ∧
      again.1.stores.services.rows = st.services.rows ∧
      again.1.stores.ingresses.rows = st.ingresses.rows := by
  obtain ⟨-, hw, hs, hi⟩ := applyAll_ok happlied
  have hstored : ∀ s ∈ declaredServices bundles, st.services.allocations[s.name]? ≠ none := by
    intro s hs
    have hlive := ((live_declared bundles).2.1 s.name).mpr (List.mem_map_of_mem hs)
    have hrow : st.view.services[s.name]? = st.services.rows[s.name]?.map Service.content :=
      ServiceStore.lookup_contents st.services s.name
    rw [← hview, hrow, Ne, Option.map_eq_none_iff] at hlive
    rwa [ServiceStore.lookup_allocations, Ne, Option.map_eq_none_iff]
  obtain ⟨hok, halloc⟩ := @applyAll_again bundles (Session.start st) _ hw hs hi hstored rfl
  have hagain := applyAll_again_view hview hok
  have hprune := @pruneDrift_declared .healthy bundles _ hagain
  have hsame := hagain.trans hview.symm
  intro again
  have heq : again = (controlPlane .healthy).pruneDrift bundles ((controlPlane .healthy).applyAll bundles (Session.start st)).1 :=
    (apply_prune_eq hb _ _).trans (andThen_of_ok hok)
  rw [heq, hprune.2 rfl, hprune.1]
  exact ⟨rfl, congrArg View.workloads hsame,
    ServiceStore.rows_eq (congrArg View.services hsame) halloc, congrArg View.ingresses hsame⟩

end Again

/-- `apply` with `prune` makes the cluster what the directory declares, and again changes
    nothing. -/
theorem apply_prune_converges (net : Net) (fs : Files)
    (dec : String → Except String (GoMap String)) (dir : String) (st : Stores)
    (h : (apply net fs dec dir false true (Session.start st)).2 = .ok ()) :
    ∃ bundles, resolvedBundles fs dec dir = .ok bundles ∧
      let st' := (apply net fs dec dir false true (Session.start st)).1.stores
      let d := desiredKeys bundles
      (∀ id, st'.workloads.list[id]? ≠ none ↔ id ∈ d.workloads) ∧
      (∀ n, st'.services.rows[n]? ≠ none ↔ n ∈ d.services) ∧
      (∀ host, st'.ingresses.rows[host]? ≠ none ↔ host ∈ d.ingresses) ∧
      (∃ report, diffReport .healthy fs dir st' = .ok report ∧
        ∀ e ∈ report, e.2.create = [] ∧ e.2.del = []) ∧
      (∀ net', ∀ e ∈ (apply net' fs dec dir false true (Session.start st')).1.history,
        e.1.isDelete = false) ∧
      let again := apply .healthy fs dec dir false true (Session.start st')
      again.2 = .ok () ∧ again.1.stores.workloads.list = st'.workloads.list ∧
        again.1.stores.services.rows = st'.services.rows ∧
        again.1.stores.ingresses.rows = st'.ingresses.rows := by
  obtain ⟨bundles, hb, happlied, hview⟩ := apply_ok_view h
  rw [if_pos rfl] at hview
  refine ⟨bundles, hb, ?_⟩
  intro st' d
  change st'.view = declared bundles View.empty at hview
  obtain ⟨hlw, hls, hli⟩ := live_declared bundles
  rw [← hview] at hlw hls hli
  refine ⟨hlw, fun n => ?_, hli, diffReport_declared hb hview, apply_again_no_delete hb hview,
    apply_again_same hb hview happlied⟩
  have hrow : st'.view.services[n]? = st'.services.rows[n]?.map Service.content :=
    ServiceStore.lookup_contents st'.services n
  rw [← hls n, hrow, Ne, Ne, Option.map_eq_none_iff]

def App.exposing (name service : String) : App where
  name := name
  workload := { image := "nginx" }
  service := some { name := service, port := 80 }

/-- What an older directory declared is drift. -/
theorem apply_prune_converges_drifted :
    let dec : String → Except String (GoMap String) := fun _ => .error "no key"
    let old := Files.ofBundles [("a.yaml", .exposing "a" "a-db")]
    let fs := Files.ofBundles [("web.yaml", App.web 8080)]
    let st := (apply .healthy old dec "apps" false false (Session.start Stores.empty)).1.stores
    let r := apply .healthy fs dec "apps" false true (Session.start st)
    st.workloads.list.keys = ["a"] ∧ st.services.rows.keys = ["a-db"] ∧ r.2 = .ok () ∧
      (∀ id, r.1.stores.workloads.list[id]? ≠ none ↔ id = "web") ∧
      (∀ n, r.1.stores.services.rows[n]? ≠ none ↔ n = "web") ∧
      (∀ host, r.1.stores.ingresses.rows[host]? ≠ none ↔ host = "web.lan") ∧
      let again := apply .healthy fs dec "apps" false true (Session.start r.1.stores)
      again.2 = .ok () ∧ again.1.stores.services.rows = r.1.stores.services.rows := by
  intro dec old fs st r
  have hworkloads : st.workloads.list.keys = ["a"] := by decide +kernel
  have hservices : st.services.rows.keys = ["a-db"] := by decide +kernel
  have hok : r.2 = .ok () := by decide +kernel
  have hkeys : (resolvedBundles fs dec "apps").map desiredKeys = .ok ⟨["web"], ["web"], ["web.lan"]⟩ := by
    decide +kernel
  obtain ⟨bundles, hb, hw, hs, hi, -, -, hagain, -, hrows, -⟩ :=
    apply_prune_converges .healthy fs dec "apps" st hok
  rw [hb] at hkeys
  have hdesired : desiredKeys bundles = ⟨["web"], ["web"], ["web.lan"]⟩ := Except.ok.inj hkeys
  rw [hdesired] at hw hs hi
  -- the two sides agree without looking at the files
  clear_value fs dec st
  refine ⟨hworkloads, hservices, hok, fun id => (hw id).trans (by simp), fun n => (hs n).trans (by simp),
    fun host => (hi host).trans (by simp), hagain, hrows⟩

structure Bundle.LiveIn (b : Bundle) (st : Stores) : Prop where
  workload : st.workloads.list[b.res.workload.id]? = some b.res.workload
  service : ∀ s ∈ b.res.services, ∃ row, st.services.rows[s.name]? = some row ∧
    row.workloadID = s.workloadID ∧ row.port = s.port ∧ row.targetPort = s.targetPort ∧
    row.protocol = s.protocol
  ingress : ∀ i ∈ b.res.ingresses, st.ingresses.rows[i.host]? = some i.service

/-- Two bundles, or two sections of one, that use the same key declare the same there. -/
structure Consistent (bundles : List Bundle) : Prop where
  workload : ∀ b ∈ bundles, ∀ b' ∈ bundles, b.res.workload.id = b'.res.workload.id →
    b.res.workload = b'.res.workload
  service : ∀ b ∈ bundles, ∀ b' ∈ bundles, ∀ s ∈ b.res.services, ∀ s' ∈ b'.res.services,
    s.name = s'.name → s.content = s'.content
  ingress : ∀ b ∈ bundles, ∀ b' ∈ bundles, ∀ i ∈ b.res.ingresses, ∀ i' ∈ b'.res.ingresses,
    i.host = i'.host → i.service = i'.service

theorem defaulted_content {s : Service} (h : s.protocol ≠ "") :
    (ServiceStore.defaulted s).content = s.content := by
  simp [ServiceStore.defaulted, Service.content, h]

theorem agree_iff_consistent (hl : Linked bundles) :
    ((∀ e ∈ workloadWrites bundles, ∀ d ∈ workloadWrites bundles, e.1 = d.1 → e.2 = d.2) ∧
      (∀ e ∈ serviceWrites bundles, ∀ d ∈ serviceWrites bundles, e.1 = d.1 → e.2 = d.2) ∧
      ∀ e ∈ ingressWrites bundles, ∀ d ∈ ingressWrites bundles, e.1 = d.1 → e.2 = d.2) ↔
    Consistent bundles := by
  have hcontent : ∀ s ∈ declaredServices bundles,
      (ServiceStore.defaulted s).content = s.content :=
    fun s hs => defaulted_content (hl.protocol s hs)
  simp only [workloadWrites, serviceWrites, ingressWrites, List.forall_mem_map]
  constructor
  · rintro ⟨hw, hs, hi⟩
    refine ⟨fun b hb b' hb' => hw _ (List.mem_map_of_mem hb) _ (List.mem_map_of_mem hb'), ?_, ?_⟩
    · intro b hb b' hb' s hsb s' hsb' hname
      have hmem : s ∈ declaredServices bundles := List.mem_flatMap.mpr ⟨b, hb, hsb⟩
      have hmem' : s' ∈ declaredServices bundles := List.mem_flatMap.mpr ⟨b', hb', hsb'⟩
      exact (hcontent s hmem).symm.trans ((hs s hmem s' hmem' hname).trans (hcontent s' hmem'))
    · intro b hb b' hb' i hib i' hib'
      exact hi i (List.mem_flatMap.mpr ⟨b, hb, hib⟩) i' (List.mem_flatMap.mpr ⟨b', hb', hib'⟩)
  · intro h
    refine ⟨?_, fun s hs s' hs' hname => ?_, fun i hi i' hi' => ?_⟩
    · simp only [declaredWorkloads, List.forall_mem_map]
      exact h.workload
    · rw [hcontent s hs, hcontent s' hs']
      obtain ⟨b, hb, hsb⟩ := List.mem_flatMap.mp hs
      obtain ⟨b', hb', hsb'⟩ := List.mem_flatMap.mp hs'
      exact h.service b hb b' hb' s hsb s' hsb' hname
    · obtain ⟨b, hb, hib⟩ := List.mem_flatMap.mp hi
      obtain ⟨b', hb', hib'⟩ := List.mem_flatMap.mp hi'
      exact h.ingress b hb b' hb' i hib i' hib'

theorem row_iff_content {s : Service} (h : s.protocol ≠ "") :
    (∃ row, st.services.rows[s.name]? = some row ∧ row.workloadID = s.workloadID ∧
      row.port = s.port ∧ row.targetPort = s.targetPort ∧ row.protocol = s.protocol) ↔
    st.view.services[s.name]? = some (ServiceStore.defaulted s).content := by
  have hrow : st.view.services[s.name]? = st.services.rows[s.name]?.map Service.content :=
    ServiceStore.lookup_contents st.services s.name
  rw [hrow, defaulted_content h, Option.map_eq_some_iff]
  simp only [Service.content, ServiceContent.mk.injEq]

theorem liveIn_iff (hl : Linked bundles) :
    (∀ b ∈ bundles, b.LiveIn st) ↔
      (∀ e ∈ workloadWrites bundles, st.view.workloads[e.1]? = some e.2) ∧
      (∀ e ∈ serviceWrites bundles, st.view.services[e.1]? = some e.2) ∧
      ∀ e ∈ ingressWrites bundles, st.view.ingresses[e.1]? = some e.2 := by
  simp only [workloadWrites, serviceWrites, ingressWrites, List.forall_mem_map]
  constructor
  · intro h
    refine ⟨?_, fun s hs => ?_, fun i hi => ?_⟩
    · simp only [declaredWorkloads, List.forall_mem_map]
      exact fun b hb => (h b hb).workload
    · obtain ⟨b, hb, hsb⟩ := List.mem_flatMap.mp hs
      exact (row_iff_content (hl.protocol s hs)).mp ((h b hb).service s hsb)
    · obtain ⟨b, hb, hib⟩ := List.mem_flatMap.mp hi
      exact (h b hb).ingress i hib
  · rintro ⟨hw, hs, hi⟩ b hb
    refine ⟨hw _ (List.mem_map_of_mem hb), fun s hsb => ?_, fun i hib => ?_⟩
    · have hmem : s ∈ declaredServices bundles := List.mem_flatMap.mpr ⟨b, hb, hsb⟩
      exact (row_iff_content (hl.protocol s hmem)).mpr (hs s hmem)
    · exact hi i (List.mem_flatMap.mpr ⟨b, hb, hib⟩)

/-- After a run that ended, every bundle is live exactly if no two declarations disagree. -/
theorem bundles_live_iff (net : Net) (fs : Files) (dec : String → Except String (GoMap String))
    (dir : String) (prune : Bool) (st : Stores)
    (h : (apply net fs dec dir false prune (Session.start st)).2 = .ok ()) :
    ∃ bundles, resolvedBundles fs dec dir = .ok bundles ∧
      ((∀ b ∈ bundles,
          b.LiveIn (apply net fs dec dir false prune (Session.start st)).1.stores) ↔
        Consistent bundles) := by
  obtain ⟨bundles, hb, -, hview⟩ := apply_ok_view h
  have hl := resolvedBundles_linked hb
  refine ⟨bundles, hb, ?_⟩
  rw [liveIn_iff hl, hview, ← agree_iff_consistent hl]
  simp only [declared, overwrite_keeps_iff]

theorem bundles_live_iff_two_services :
    let dec : String → Except String (GoMap String) := fun _ => .error "no key"
    let fs := Files.ofBundles [("a.yaml", .exposing "a" "a-db"), ("b.yaml", .exposing "b" "b-db")]
    let r := apply .healthy fs dec "apps" false false (Session.start Stores.empty)
    r.2 = .ok () ∧ ∃ bundles, resolvedBundles fs dec "apps" = .ok bundles ∧ bundles.length = 2 ∧
      ∀ b ∈ bundles, b.LiveIn r.1.stores := by
  intro dec fs r
  have hok : r.2 = .ok () := by decide +kernel
  obtain ⟨bundles, hb, hlive⟩ :=
    bundles_live_iff .healthy fs dec "apps" false Stores.empty hok
  have hcons : resolvedBundles fs dec "apps" = .ok
      [⟨"apps/a.yaml", ⟨{ id := "a", image := "nginx", replicas := 1, maxUnavailable := 1 },
          [⟨"a-db", "a", 80, 80, "tcp", "", 0⟩], []⟩, []⟩,
        ⟨"apps/b.yaml", ⟨{ id := "b", image := "nginx", replicas := 1, maxUnavailable := 1 },
          [⟨"b-db", "b", 80, 80, "tcp", "", 0⟩], []⟩, []⟩] := by
    rfl
  obtain rfl := Except.ok.inj (hb.symm.trans hcons)
  have hall := hlive.mpr ⟨by simp, by simp, by simp⟩
  clear hcons
  clear_value fs dec
  exact ⟨hok, _, hb, rfl, hall⟩

/-- Two bundles declare a service of the same name, and the second takes it over. -/
theorem shared_service_name_overwritten :
    let dec : String → Except String (GoMap String) := fun _ => .error "no key"
    let fs := Files.ofBundles [("a.yaml", .exposing "a" "db"), ("b.yaml", .exposing "b" "db")]
    let r := apply .healthy fs dec "apps" false true (Session.start Stores.empty)
    r.2 = .ok () ∧ ∃ bundles, resolvedBundles fs dec "apps" = .ok bundles ∧
      ∃ b ∈ bundles, ∃ s ∈ b.res.services, s.name = "db" ∧ s.workloadID = "a" ∧
        (r.1.stores.services.rows["db"]?).map Service.workloadID = some "b" := by
  intro dec fs r
  refine ⟨by decide +kernel, _, rfl, _, List.mem_cons_self, _, List.mem_cons_self, rfl, rfl, ?_⟩
  decide +kernel

end Smith
