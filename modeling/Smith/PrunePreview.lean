import Smith.ApplyConvergence

set_option autoImplicit false

/-!
# The preview of a prune

A dry run computes the prune plan from the cluster as it is, a real run from the cluster
after its apply loops. The loops only add keys that the bundles declare, and the plan only
looks at the others, so both runs have the same plan.
-/
namespace Smith
open FiniteMaps Overwrites Std
open Remote (controlPlane andThen andThen_ok issueAll_cons_ok)

def Request.resource : Request → String
  | .applyWorkload w => s!"workload {w.id}"
  | .applyService s => s!"service {s.name}"
  | .applyIngress ing => s!"ingress {ing.host}"
  | .deleteIngress host => s!"ingress {host}"
  | .deleteService name => s!"service {name}"
  | .deleteWorkload id => s!"workload {id}"

def Request.deletionLine (c : Request) : String := "  - delete " ++ c.resource

def Client.deletions (w : Session) : List Request :=
  (w.history.map Prod.fst).filter Request.isDelete

section Requests
variable {net : Net} {cs : List Request} {bundles : List Bundle} {w : Session}

theorem issueAll_ok_history (h : ((controlPlane net).issueAll w cs).2 = .ok ()) :
    ((controlPlane net).issueAll w cs).1.history.map Prod.fst = w.history.map Prod.fst ++ cs := by
  induction cs generalizing w with
  | nil => simp [Remote.issueAll]
  | cons c cs ih =>
    obtain ⟨hr, hnext⟩ := issueAll_cons_ok h
    obtain ⟨st, -, hcall⟩ := Recorded.call_ok hr
    have hstate : ((controlPlane net).call w.state c).1 = w.state.record c st :=
      congrArg Prod.fst hcall
    rw [hnext, hstate] at h ⊢
    rw [ih h]
    simp [Client.history, Recorded.record]

theorem deletions_issueAll (h : ((controlPlane net).issueAll w cs).2 = .ok ()) :
    ((controlPlane net).issueAll w cs).1.deletions = w.deletions ++ cs.filter Request.isDelete := by
  rw [Client.deletions, issueAll_ok_history h, List.filter_append, Client.deletions]

theorem deletions_applyAll (h : ((controlPlane net).applyAll bundles w).2 = .ok ()) :
    ((controlPlane net).applyAll bundles w).1.deletions = w.deletions := by
  unfold Remote.applyAll at h ⊢
  obtain ⟨h₁, e₁⟩ := andThen_ok h
  rw [e₁] at h ⊢
  obtain ⟨h₂, e₂⟩ := andThen_ok h
  rw [e₂] at h ⊢
  rw [deletions_issueAll h, deletions_issueAll h₂, deletions_issueAll h₁]
  simp [List.filter_map, Function.comp_def, Request.isDelete]

/-- The deletions of a prune plan, what refers before what it refers to. -/
def Keys.deletions (plan : Keys) : List Request :=
  plan.ingresses.map .deleteIngress ++ plan.services.map .deleteService ++
    plan.workloads.map .deleteWorkload

theorem deletions_pruneDrift (h : ((controlPlane net).pruneDrift bundles w).2 = .ok ()) :
    ∃ plan, (controlPlane net).prunePlan bundles w.state = .ok plan ∧
      ((controlPlane net).pruneDrift bundles w).1.deletions = w.deletions ++ plan.deletions := by
  unfold Remote.pruneDrift at h ⊢
  cases hplan : (controlPlane net).prunePlan bundles w.state with
  | error e =>
    rw [hplan] at h
    exact absurd h (by simp)
  | ok plan =>
    refine ⟨plan, rfl, ?_⟩
    rw [hplan] at h
    simp only at h ⊢
    obtain ⟨h₁, e₁⟩ := andThen_ok h
    rw [e₁] at h ⊢
    obtain ⟨h₂, e₂⟩ := andThen_ok h
    rw [e₂] at h ⊢
    rw [deletions_issueAll h, deletions_issueAll h₂, deletions_issueAll h₁]
    simp [Keys.deletions, List.filter_map, Function.comp_def, Request.isDelete]

theorem printPrunePlan_eq {plan : Keys} (h : (controlPlane net).prunePlan bundles w.state = .ok plan) :
    (controlPlane net).printPrunePlan bundles w = (w.print ("prune (dry run, nothing deleted):" ::
      plan.deletions.map Request.deletionLine), .ok ()) := by
  have hingress : Request.deletionLine ∘ .deleteIngress = fun k => s!"  - delete ingress {k}" :=
    funext fun k => (@String.append_assoc "  - delete " "ingress " k).symm
  have hservice : Request.deletionLine ∘ .deleteService = fun k => s!"  - delete service {k}" :=
    funext fun k => (@String.append_assoc "  - delete " "service " k).symm
  have hworkload : Request.deletionLine ∘ .deleteWorkload = fun k => s!"  - delete workload {k}" :=
    funext fun k => (@String.append_assoc "  - delete " "workload " k).symm
  simp only [Remote.printPrunePlan, h, Keys.deletions, List.map_append, List.map_map, hingress, hservice,
    hworkload, List.cons_append, List.nil_append]

end Requests

section Plans
variable {net : Net} {bundles : List Bundle} {s s' : Recorded}

/-- The keys to delete depend only on the live keys that are not desired. -/
theorem del_eq {desired live live' : List String} (hnd : live.Nodup) (hnd' : live'.Nodup)
    (h : ∀ k ∉ desired, k ∈ live ↔ k ∈ live') :
    (delta desired live).del = (delta desired live').del := by
  have hless (a b : String) : decide (a < b) = true ↔ id a < id b := decide_eq_true_iff
  refine sortSlice_perm hless (fun a _ b _ hab => hab) ?_
  refine (List.perm_ext_iff_of_nodup (hnd.filter _) (hnd'.filter _)).mpr fun k => ?_
  simp only [List.mem_filter, decide_eq_true_eq]
  exact and_congr_left fun hk => h k hk

theorem nodup_keys {V : Type} (t : GoMap V) : (t.toList.map Prod.fst).Nodup := by
  rw [ExtTreeMap.map_fst_toList_eq_keys]
  exact ExtTreeMap.nodup_keys

theorem liveKeys_nodup {l : Keys} (h : (controlPlane net).liveKeys s = .ok l) :
    l.workloads.Nodup ∧ l.services.Nodup ∧ l.ingresses.Nodup := by
  obtain ⟨st, history⟩ := s
  obtain rfl := liveKeys_ok h
  have hw : (st.workloads.list.toList.map Prod.snd).map Workload.id =
      st.workloads.list.toList.map Prod.fst := by
    rw [List.map_map]
    exact List.map_congr_left fun e he => (st.workloads.valid e.1 e.2
      (ExtTreeMap.mem_toList_iff_getElem?_eq_some.mp he)).1
  have hs : st.services.list.map Service.name = st.services.rows.toList.map Prod.fst := by
    rw [ServiceStore.list, List.map_map]
    exact List.map_congr_left fun e he => st.services.named e.1 e.2
      (ExtTreeMap.mem_toList_iff_getElem?_eq_some.mp he)
  have hi : st.ingresses.list.map Ingress.host = st.ingresses.rows.toList.map Prod.fst := by
    rw [IngressStore.list, List.map_map]
    rfl
  simp only [hw, hs, hi]
  exact ⟨nodup_keys _, nodup_keys _, nodup_keys _⟩

/-- Whether the lists are answered does not depend on what they hold. -/
theorem liveKeys_error {e : String} : (controlPlane net).liveKeys s = .error e ↔
    (controlPlane net).liveKeys s' = .error e := by
  unfold Remote.liveKeys controlPlane
  cases net.listWorkloads <;> cases net.listServices <;> cases net.listIngresses <;> simp

theorem lookup_overwrite_of_undesired {V : Type} (t : GoMap V) {l : List (String × V)} {k : String}
    (hk : k ∉ l.map Prod.fst) : (overwrite t l)[k]? = t[k]? := by
  rw [lookup_overwrite, lookup_eq_none.mpr hk, Option.none_or]

theorem prunePlan_declared (hview : s'.stores.view = declared bundles s.stores.view) :
    (controlPlane net).prunePlan bundles s' = (controlPlane net).prunePlan bundles s := by
  unfold Remote.prunePlan
  cases hlive : (controlPlane net).liveKeys s with
  | error e => rw [liveKeys_error.mp hlive]
  | ok l =>
    obtain ⟨l', hlive'⟩ : ∃ l', (controlPlane net).liveKeys s' = .ok l' := by
      cases hlive' : (controlPlane net).liveKeys s' with
      | ok l' => exact ⟨l', rfl⟩
      | error e => exact absurd (hlive.symm.trans (liveKeys_error.mp hlive')) (by simp)
    rw [hlive']
    obtain ⟨hlw, hls, hli⟩ := liveKeys_iff hlive
    obtain ⟨hlw', hls', hli'⟩ := liveKeys_iff hlive'
    obtain ⟨ndw, nds, ndi⟩ := liveKeys_nodup hlive
    obtain ⟨ndw', nds', ndi'⟩ := liveKeys_nodup hlive'
    rw [hview] at hlw' hls' hli'
    rw [desiredKeys_eq]
    have hw := del_eq ndw' ndw fun k hk => by
      rw [hlw', hlw, declared, lookup_overwrite_of_undesired _ hk]
    have hs := del_eq nds' nds fun k hk => by
      rw [hls', hls, declared, lookup_overwrite_of_undesired _ hk]
    have hi := del_eq ndi' ndi fun k hk => by
      rw [hli', hli, declared, lookup_overwrite_of_undesired _ hk]
    simp only [hw, hs, hi]

end Plans

/-- A dry run with prune prints, in this order, the deletions that a real run issues from the
    same state when every request succeeds, and a dry run issues no request. -/
theorem prune_preview (net : Net) (fs : Files) (dec : String → Except String (GoMap String))
    (dir : String) (st : Stores) :
    ((apply net fs dec dir false true (.start st)).2 = .ok () →
      ∃ bundles, resolvedBundles fs dec dir = .ok bundles ∧
        (apply net fs dec dir true true (.start st)).2 = .ok () ∧
        (apply net fs dec dir true true (.start st)).1.out =
          planLines bundles ++ "prune (dry run, nothing deleted):" ::
            (apply net fs dec dir false true (.start st)).1.deletions.map Request.deletionLine) ∧
      ∀ prune, (apply net fs dec dir true prune (.start st)).1.history = [] ∧
        (apply net fs dec dir true prune (.start st)).1.stores = st := by
  refine ⟨fun hok => ?_, fun prune => ?_⟩
  · cases hb : resolvedBundles fs dec dir with
    | error e =>
      simp only [apply, Remote.apply, hb] at hok
      exact absurd hok (by simp)
    | ok bundles =>
      refine ⟨bundles, rfl, ?_⟩
      have hreal := apply_prune_eq hb net (.start st)
      rw [hreal] at hok ⊢
      obtain ⟨happlied, hthen⟩ := andThen_ok hok
      rw [hthen] at hok ⊢
      obtain ⟨plan, hplan, hdel⟩ := deletions_pruneDrift hok
      have hdeclared := (applyAll_ok happlied).1
      rw [prunePlan_declared hdeclared] at hplan
      have hdry : apply net fs dec dir true true (.start st) =
          (controlPlane net).printPrunePlan bundles ((Session.start st).print (planLines bundles)) := by
        simp only [apply, Remote.apply, hb, if_true]
      have hprinted := @printPrunePlan_eq net bundles
        ((Session.start st).print (planLines bundles)) plan hplan
      rw [hdry, hprinted, hdel, deletions_applyAll happlied]
      exact ⟨rfl, rfl⟩
  · unfold apply Remote.apply
    cases resolvedBundles fs dec dir with
    | error e => exact ⟨rfl, rfl⟩
    | ok bundles =>
      cases prune with
      | false => exact ⟨rfl, rfl⟩
      | true =>
        simp only [if_true, Remote.printPrunePlan]
        split
        · exact ⟨rfl, rfl⟩
        · exact ⟨rfl, rfl⟩

/-- A service and a workload of an older directory are drift. -/
theorem prune_preview_replaced_bundle :
    let dec : String → Except String (GoMap String) := fun _ => .error "no key"
    let old := Files.ofBundles [("a.yaml", .exposing "a" "a-db")]
    let fs := Files.ofBundles [("web.yaml", App.web 8080)]
    let st := (apply .healthy old dec "apps" false false (.start Stores.empty)).1.stores
    let real := (apply .healthy fs dec "apps" false true (.start st)).1
    let dry := (apply .healthy fs dec "apps" true true (.start st)).1
    real.deletions.map Request.deletionLine = ["  - delete service a-db", "  - delete workload a"] ∧
      ∃ bundles, dry.out = planLines bundles ++ "prune (dry run, nothing deleted):" ::
        real.deletions.map Request.deletionLine := by
  intro dec old fs st real dry
  have hok : (apply .healthy fs dec "apps" false true (.start st)).2 = .ok () := by decide +kernel
  have hlines : real.deletions.map Request.deletionLine =
      ["  - delete service a-db", "  - delete workload a"] := by decide +kernel
  obtain ⟨bundles, -, -, hout⟩ := (prune_preview .healthy fs dec "apps" st).1 hok
  clear_value fs dec st
  exact ⟨hlines, bundles, hout⟩

end Smith
