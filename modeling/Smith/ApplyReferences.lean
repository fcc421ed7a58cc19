import Smith.ApplyRuns

set_option autoImplicit false

/-!
# References during an apply run

Workloads are written before the services that select them and services before the ingresses
that name them, and pruning goes the other way. So at no point of a run, wherever it stops,
does an ingress name a missing service or a service a missing workload.
-/
namespace Smith
open FiniteMaps Overwrites Std
open Remote (controlPlane andThen andThen_keeps issueAll_ok)

/-- Every ingress names a live service, every service a live workload. -/
structure Stores.Intact (st : Stores) : Prop where
  ingress : ∀ (host s : String), st.ingresses.rows[host]? = some s → st.services.rows[s]? ≠ none
  service : ∀ (n : String) (svc : Service), st.services.rows[n]? = some svc →
    st.workloads.list[svc.workloadID]? ≠ none

structure View.Intact (v : View) : Prop where
  ingress : ∀ (host s : String), v.ingresses[host]? = some s → v.services[s]? ≠ none
  service : ∀ (n : String) (c : ServiceContent), v.services[n]? = some c →
    v.workloads[c.workloadID]? ≠ none

theorem Stores.intact_iff (st : Stores) : st.Intact ↔ st.view.Intact := by
  have hlookup : ∀ n : String, st.view.services[n]? = st.services.rows[n]?.map Service.content :=
    ServiceStore.lookup_contents st.services
  constructor
  · intro h
    refine ⟨fun host s hs => ?_, fun n c hc => ?_⟩
    · rw [hlookup, Ne, Option.map_eq_none_iff]
      exact h.ingress host s hs
    · rw [hlookup] at hc
      obtain ⟨svc, hsvc, rfl⟩ := Option.map_eq_some_iff.mp hc
      exact h.service n svc hsvc
  · intro h
    refine ⟨fun host s hs => ?_, fun n svc hsvc => ?_⟩
    · have hne := h.ingress host s hs
      rwa [hlookup, Ne, Option.map_eq_none_iff] at hne
    · exact h.service n svc.content (by rw [hlookup, hsvc, Option.map_some])

section Steps
variable {v : View}

theorem insert_ne_none {V : Type} (t : GoMap V) (k : String) (x : V) {a : String}
    (h : t[a]? ≠ none) : (t.insert k x)[a]? ≠ none := by
  rw [lookup_insert]
  split_ifs
  · exact Option.some_ne_none x
  · exact h

theorem View.Intact.applyWorkload (h : v.Intact) (w : Workload) :
    ((Request.applyWorkload w).effect v).Intact :=
  ⟨h.ingress, fun n c hc => insert_ne_none _ _ _ (h.service n c hc)⟩

theorem View.Intact.applyService (h : v.Intact) {s : Service}
    (hw : v.workloads[s.workloadID]? ≠ none) : ((Request.applyService s).effect v).Intact := by
  refine ⟨fun host n hn => insert_ne_none _ _ _ (h.ingress host n hn), fun n c hc => ?_⟩
  simp only [Request.effect] at hc
  rw [lookup_insert] at hc
  split_ifs at hc
  · rw [← Option.some.inj hc]
    exact hw
  · exact h.service n c hc

theorem View.Intact.applyIngress (h : v.Intact) {i : Ingress}
    (hs : v.services[i.service]? ≠ none) : ((Request.applyIngress i).effect v).Intact := by
  refine ⟨fun host n hn => ?_, h.service⟩
  simp only [Request.effect] at hn
  rw [lookup_insert] at hn
  split_ifs at hn
  · rw [← Option.some.inj hn]
    exact hs
  · exact h.ingress host n hn

theorem lookup_of_erase {V : Type} {t : GoMap V} {k a : String} {x : V}
    (h : (t.erase k)[a]? = some x) : t[a]? = some x ∧ a ≠ k := by
  rw [lookup_erase] at h
  split_ifs at h with hk
  exact ⟨h, Ne.symm hk⟩

theorem View.Intact.deleteIngress (h : v.Intact) (host : String) :
    ((Request.deleteIngress host).effect v).Intact :=
  ⟨fun a s hs => h.ingress a s (lookup_of_erase hs).1, h.service⟩

theorem View.Intact.deleteService (h : v.Intact) {n : String}
    (hn : ∀ (host s : String), v.ingresses[host]? = some s → s ≠ n) :
    ((Request.deleteService n).effect v).Intact := by
  refine ⟨fun host s hs => ?_, fun a c hc => h.service a c (lookup_of_erase hc).1⟩
  simp only [Request.effect]
  rw [lookup_erase_ne _ (Ne.symm (hn host s hs))]
  exact h.ingress host s hs

theorem View.Intact.deleteWorkload (h : v.Intact) {id : String}
    (hid : ∀ (n : String) (c : ServiceContent), v.services[n]? = some c → c.workloadID ≠ id) :
    ((Request.deleteWorkload id).effect v).Intact := by
  refine ⟨h.ingress, fun n c hc => ?_⟩
  simp only [Request.effect]
  rw [lookup_erase_ne _ (Ne.symm (hid n c hc))]
  exact h.service n c hc

end Steps

/-- `P` holds now, and every request so far has left all references intact. -/
def Client.Keeps (w : Session) (P : View → Prop) : Prop :=
  P w.stores.view ∧ ∀ e ∈ w.history, e.2.view.Intact

variable {net : Net} {bundles : List Bundle} {w : Session}

theorem Client.Keeps.issueAll {P : View → Prop} {cs : List Request} (h : w.Keeps P)
    (hP : ∀ v, P v → v.Intact) (hstep : ∀ c ∈ cs, ∀ v, P v → P (c.effect v)) :
    ((controlPlane net).issueAll w cs).1.Keeps P := by
  refine Remote.issueAll_keeps (P := fun s : Recorded =>
    P s.stores.view ∧ ∀ e ∈ s.history, e.2.view.Intact) (fun c hc s hs => ?_) h
  obtain ⟨st, hst, hexec⟩ := Recorded.call_stores net s c
  have hview : P st.view := by
    obtain rfl | hexec := hexec
    · exact hs.1
    · rw [Request.exec_view hexec]
      exact hstep c hc _ hs.1
  change P (s.call net c).1.stores.view ∧ ∀ e ∈ (s.call net c).1.history, _
  rw [hst]
  refine ⟨hview, ?_⟩
  simp only [Recorded.record, List.mem_append, List.mem_singleton]
  rintro e (he | rfl)
  · exact hs.2 e he
  · exact hP _ hview

theorem Client.Keeps.andThen {P : View → Prop} {r : Session × Except String Unit}
    {k : Session → Session × Except String Unit} (hr : r.1.Keeps P)
    (hk : r.2 = .ok () → (k r.1).1.Keeps P) : (andThen r k).1.Keeps P :=
  andThen_keeps (Q := fun w : Session => w.Keeps P) hr hk

theorem overwrite_ne_none {V : Type} (t : GoMap V) {l : List (String × V)} {k : String}
    (h : k ∈ l.map Prod.fst) : (overwrite t l)[k]? ≠ none := by
  obtain ⟨x, -, hx⟩ := lookup_written t h
  rw [hx]
  exact Option.some_ne_none x

structure WorkloadsLive (d : Keys) (v : View) : Prop extends v.Intact where
  live : ∀ id ∈ d.workloads, v.workloads[id]? ≠ none

structure ServicesLive (d : Keys) (v : View) : Prop extends v.Intact where
  live : ∀ n ∈ d.services, v.services[n]? ≠ none

theorem applyAll_keeps (hl : Linked bundles) (h : w.Keeps View.Intact) :
    ((controlPlane net).applyAll bundles w).1.Keeps View.Intact := by
  have h₁ : ((controlPlane net).issueAll w ((declaredWorkloads bundles).map .applyWorkload)).1.Keeps View.Intact := by
    refine h.issueAll (fun _ hv => hv) ?_
    simp only [List.forall_mem_map]
    exact fun wl _ v hv => hv.applyWorkload wl
  refine h₁.andThen fun ok₁ => ?_
  generalize hw₁ : (controlPlane net).issueAll w ((declaredWorkloads bundles).map .applyWorkload) = r₁ at h₁ ok₁ ⊢
  have live₁ : r₁.1.Keeps (WorkloadsLive (desiredKeys bundles)) := by
    refine ⟨⟨h₁.1, fun id hid => ?_⟩, h₁.2⟩
    subst hw₁
    rw [desiredKeys_eq] at hid
    rw [(issueAll_ok ok₁).1, effects_applyWorkload]
    exact overwrite_ne_none _ hid
  have h₂ : ((controlPlane net).issueAll r₁.1 ((declaredServices bundles).map .applyService)).1.Keeps
      (WorkloadsLive (desiredKeys bundles)) := by
    refine live₁.issueAll (fun _ hv => hv.toIntact) ?_
    simp only [List.forall_mem_map]
    exact fun s hs v hv => ⟨hv.applyService (hv.live _ (hl.service s hs)), hv.live⟩
  refine Client.Keeps.andThen ⟨h₂.1.toIntact, h₂.2⟩ fun ok₂ => ?_
  generalize hw₂ : (controlPlane net).issueAll r₁.1 ((declaredServices bundles).map .applyService) = r₂ at h₂ ok₂ ⊢
  have live₂ : r₂.1.Keeps (ServicesLive (desiredKeys bundles)) := by
    refine ⟨⟨h₂.1.toIntact, fun n hn => ?_⟩, h₂.2⟩
    subst hw₂
    rw [desiredKeys_eq] at hn
    rw [(issueAll_ok ok₂).1, effects_applyService]
    exact overwrite_ne_none _ hn
  have h₃ : ((controlPlane net).issueAll r₂.1 ((declaredIngresses bundles).map .applyIngress)).1.Keeps
      (ServicesLive (desiredKeys bundles)) := by
    refine live₂.issueAll (fun _ hv => hv.toIntact) ?_
    simp only [List.forall_mem_map]
    exact fun i hi v hv => ⟨hv.applyIngress (hv.live _ (hl.ingress i hi)), hv.live⟩
  exact ⟨h₃.1.toIntact, h₃.2⟩

/-- Intact, with what is declared referring to what is declared. -/
structure Settled (d : Keys) (v : View) : Prop extends v.Intact where
  declaredIngress : ∀ host ∈ d.ingresses, ∀ s, v.ingresses[host]? = some s → s ∈ d.services
  declaredService : ∀ n ∈ d.services, ∀ c, v.services[n]? = some c → c.workloadID ∈ d.workloads

/-- Settled, with no other ingress live. -/
structure IngressesPruned (d : Keys) (v : View) : Prop extends Settled d v where
  hosts : ∀ (host s : String), v.ingresses[host]? = some s → host ∈ d.ingresses

/-- Settled, with no other service live. -/
structure ServicesPruned (d : Keys) (v : View) : Prop extends IngressesPruned d v where
  names : ∀ (n : String) (c : ServiceContent), v.services[n]? = some c → n ∈ d.services

theorem settled_declared (hl : Linked bundles) {v : View} (h : (declared bundles v).Intact) :
    Settled (desiredKeys bundles) (declared bundles v) := by
  refine ⟨h, fun host hhost s hs => ?_, fun n hn c hc => ?_⟩
  · rw [desiredKeys_eq] at hhost
    obtain ⟨s', hmem, hs'⟩ := lookup_written v.ingresses hhost
    obtain rfl := Option.some.inj (hs.symm.trans hs')
    obtain ⟨i, hi, he⟩ := List.mem_map.mp hmem
    rw [← (Prod.mk.inj he).2]
    exact hl.ingress i hi
  · rw [desiredKeys_eq] at hn
    obtain ⟨c', hmem, hc'⟩ := lookup_written v.services hn
    obtain rfl := Option.some.inj (hc.symm.trans hc')
    obtain ⟨s, hs, he⟩ := List.mem_map.mp hmem
    rw [← (Prod.mk.inj he).2]
    exact hl.service s hs

section Prune
variable {d : Keys} {v : View}

theorem Settled.deleteIngress (h : Settled d v) (host : String) :
    Settled d ((Request.deleteIngress host).effect v) :=
  ⟨h.toIntact.deleteIngress host,
    fun a ha s hs => h.declaredIngress a ha s (lookup_of_erase hs).1, h.declaredService⟩

/-- A live ingress is declared, so it names a declared service and not a pruned one. -/
theorem IngressesPruned.deleteService (h : IngressesPruned d v) {n : String} (hn : n ∉ d.services) :
    IngressesPruned d ((Request.deleteService n).effect v) := by
  refine ⟨⟨h.toIntact.deleteService fun host s hs he => ?_, h.declaredIngress,
    fun a ha c hc => h.declaredService a ha c (lookup_of_erase hc).1⟩, h.hosts⟩
  exact hn (he ▸ h.declaredIngress host (h.hosts host s hs) s hs)

theorem ServicesPruned.deleteWorkload (h : ServicesPruned d v) {id : String} (hid : id ∉ d.workloads) :
    ServicesPruned d ((Request.deleteWorkload id).effect v) := by
  refine ⟨⟨⟨h.toIntact.deleteWorkload fun n c hc he => ?_, h.declaredIngress, h.declaredService⟩,
    h.hosts⟩, h.names⟩
  exact hid (he ▸ h.declaredService n (h.names n c hc) c hc)

theorem declared_of_pruned {V : Type} {t : GoMap V} {desired live : List String}
    (hlive : ∀ k, k ∈ live ↔ t[k]? ≠ none) {k : String} {x : V}
    (h : ((delta desired live).del.foldl (fun t k => t.erase k) t)[k]? = some x) : k ∈ desired := by
  rw [lookup_pruned hlive] at h
  split_ifs at h with hk
  exact hk

end Prune

theorem pruneDrift_keeps (h : w.Keeps (Settled (desiredKeys bundles))) :
    ((controlPlane net).pruneDrift bundles w).1.Keeps View.Intact := by
  unfold Remote.pruneDrift Remote.prunePlan
  cases hlive : (controlPlane net).liveKeys w.state with
  | error e => exact ⟨h.1.toIntact, h.2⟩
  | ok l =>
    obtain ⟨hlw, hls, hli⟩ := liveKeys_iff hlive
    -- Each loop of deletions starts once the one before is through, so that nothing stored
    -- still refers to what it deletes.
    have h₁ : ((controlPlane net).issueAll w ((delta (desiredKeys bundles).ingresses l.ingresses).del.map
        .deleteIngress)).1.Keeps (Settled (desiredKeys bundles)) := by
      refine h.issueAll (fun _ hv => hv.toIntact) ?_
      simp only [List.forall_mem_map]
      exact fun host _ v hv => hv.deleteIngress host
    refine Client.Keeps.andThen ⟨h₁.1.toIntact, h₁.2⟩ fun ok₁ => ?_
    generalize hw₁ : (controlPlane net).issueAll w ((delta (desiredKeys bundles).ingresses l.ingresses).del.map
      .deleteIngress) = r₁ at h₁ ok₁ ⊢
    have pruned₁ : r₁.1.Keeps (IngressesPruned (desiredKeys bundles)) := by
      refine ⟨⟨h₁.1, fun host s hs => ?_⟩, h₁.2⟩
      subst hw₁
      rw [(issueAll_ok ok₁).1, effects_deleteIngress] at hs
      exact declared_of_pruned hli hs
    have hsvc : r₁.1.stores.view.services = w.stores.view.services := by
      subst hw₁
      rw [(issueAll_ok ok₁).1, effects_deleteIngress]
    have h₂ : ((controlPlane net).issueAll r₁.1 ((delta (desiredKeys bundles).services l.services).del.map
        .deleteService)).1.Keeps (IngressesPruned (desiredKeys bundles)) := by
      refine pruned₁.issueAll (fun _ hv => hv.toIntact) ?_
      simp only [List.forall_mem_map]
      exact fun n hn v hv => hv.deleteService (mem_del.mp hn).2
    refine Client.Keeps.andThen ⟨h₂.1.toIntact, h₂.2⟩ fun ok₂ => ?_
    generalize hw₂ : (controlPlane net).issueAll r₁.1 ((delta (desiredKeys bundles).services l.services).del.map
      .deleteService) = r₂ at h₂ ok₂ ⊢
    have pruned₂ : r₂.1.Keeps (ServicesPruned (desiredKeys bundles)) := by
      refine ⟨⟨h₂.1, fun n c hc => ?_⟩, h₂.2⟩
      subst hw₂
      rw [(issueAll_ok ok₂).1, effects_deleteService, hsvc] at hc
      exact declared_of_pruned hls hc
    have h₃ : ((controlPlane net).issueAll r₂.1 ((delta (desiredKeys bundles).workloads l.workloads).del.map
        .deleteWorkload)).1.Keeps (ServicesPruned (desiredKeys bundles)) := by
      refine pruned₂.issueAll (fun _ hv => hv.toIntact) ?_
      simp only [List.forall_mem_map]
      exact fun id hid v hv => hv.deleteWorkload (mem_del.mp hid).2
    exact ⟨h₃.1.toIntact, h₃.2⟩

/-- References are intact after every request of an apply run, wherever it stops. -/
theorem apply_keeps_references (net : Net) (fs : Files)
    (dec : String → Except String (GoMap String)) (dir : String) (prune : Bool) {st : Stores}
    (h : st.Intact) :
    let w := (apply net fs dec dir false prune (Session.start st)).1
    w.stores.Intact ∧ ∀ e ∈ w.history, e.2.Intact := by
  have hstart : (Session.start st).Keeps View.Intact :=
    ⟨(Stores.intact_iff st).mp h, by simp⟩
  suffices hkeeps : (apply net fs dec dir false prune (Session.start st)).1.Keeps View.Intact by
    exact ⟨(Stores.intact_iff _).mpr hkeeps.1, fun e he => (Stores.intact_iff _).mpr (hkeeps.2 e he)⟩
  unfold apply Remote.apply
  split
  · exact hstart
  · rename_i bundles hbundles
    have hl := resolvedBundles_linked hbundles
    have happlied := @applyAll_keeps net bundles _ hl hstart
    simp only [Bool.false_eq_true, if_false]
    refine happlied.andThen fun ok => ?_
    split_ifs
    · refine pruneDrift_keeps ⟨?_, happlied.2⟩
      have hview := (applyAll_ok ok).1
      rw [hview]
      exact settled_declared hl (hview ▸ happlied.1)
    · exact happlied

/-- A cluster with one bundle applied, whose resources a second run prunes. -/
theorem apply_keeps_references_replaced_bundle :
    let dec : String → Except String (GoMap String) := fun _ => .error "no key"
    let st := (apply .healthy (.ofBundles [("web.yaml", App.web 8080)]) dec "apps" false true
      (Session.start Stores.empty)).1.stores
    let w := (apply .healthy (.ofBundles [("api.yaml", { name := "api", workload := { image := "a" } })])
      dec "apps" false true (Session.start st)).1
    st.ingresses.rows.keys = ["web.lan"] ∧ w.history.length = 4 ∧ ∀ e ∈ w.history, e.2.Intact := by
  intro dec st w
  have hst : st.Intact :=
    (apply_keeps_references _ _ dec "apps" true ⟨by simp [Stores.empty], by
      simp [Stores.empty, ServiceStore.new]⟩).1
  have hkeys : st.ingresses.rows.keys = ["web.lan"] := by decide +kernel
  have hlength : w.history.length = 4 := by decide +kernel
  clear_value st dec
  exact ⟨hkeys, hlength, (apply_keeps_references .healthy _ dec "apps" true hst).2⟩

end Smith
