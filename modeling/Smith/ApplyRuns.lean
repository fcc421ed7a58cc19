import Smith.Apply

set_option autoImplicit false

/-!
# Requests of an apply run

One request either leaves the stores or has its effect on the view. A loop of requests that
ends without an error has had the effect of all of them, and a loop that stops has had the
effect of a part of them.
-/
namespace Smith
open FiniteMaps Overwrites Std

namespace Recorded
variable {net : Net} {c : Request} {s : Recorded}

theorem call_stores (net : Net) (s : Recorded) (c : Request) :
    ∃ st, (s.call net c).1 = s.record c st ∧ (st = s.stores ∨ c.exec s.stores = .ok st) := by
  unfold call
  split
  · rename_i st _ hexec
    exact ⟨st, rfl, .inr hexec⟩
  · exact ⟨_, rfl, .inl rfl⟩
  · exact ⟨_, rfl, .inl rfl⟩
  · rename_i st _ hexec
    exact ⟨st, rfl, .inr hexec⟩
  · exact ⟨_, rfl, .inl rfl⟩

theorem call_ok (h : (s.call net c).2 = .ok ()) :
    ∃ st, c.exec s.stores = .ok st ∧ s.call net c = (s.record c st, .ok ()) := by
  unfold call at h ⊢
  split at h
  · rename_i st _ hexec
    exact ⟨st, hexec, rfl⟩
  all_goals exact absurd h (by simp)

end Recorded

namespace Remote
variable {σ : Type} {c : Request} {cs : List Request}

section AnyCluster
variable {remote : Remote σ} {w : Client σ}

theorem issueAll_cons_ok (h : (remote.issueAll w (c :: cs)).2 = .ok ()) :
    (remote.call w.state c).2 = .ok () ∧ remote.issueAll w (c :: cs) =
      remote.issueAll ⟨(remote.call w.state c).1, w.out ++ [c.done]⟩ cs := by
  cases hcall : remote.call w.state c with
  | mk s u =>
    cases u with
    | error e => simp [issueAll, hcall] at h
    | ok u => exact ⟨rfl, by simp [issueAll, hcall]⟩

theorem issueAll_keeps {P : σ → Prop} (hstep : ∀ c ∈ cs, ∀ s, P s → P (remote.call s c).1)
    (hP : P w.state) : P (remote.issueAll w cs).1.state := by
  induction cs generalizing w with
  | nil => exact hP
  | cons c cs ih =>
    have hnext := hstep c List.mem_cons_self w.state hP
    unfold issueAll
    split
    · rename_i s e hcall
      rw [hcall] at hnext
      exact hnext
    · rename_i s hcall
      rw [hcall] at hnext
      exact ih (fun d hd => hstep d (List.mem_cons_of_mem c hd)) hnext

variable {r : Client σ × Except String Unit} {k : Client σ → Client σ × Except String Unit}

theorem andThen_ok (h : (andThen r k).2 = .ok ()) : r.2 = .ok () ∧ andThen r k = k r.1 := by
  obtain ⟨w, u | u⟩ := r
  · exact absurd h (by simp [andThen])
  · exact ⟨rfl, rfl⟩

theorem andThen_of_ok (h : r.2 = .ok ()) : andThen r k = k r.1 := by
  obtain ⟨w, u | u⟩ := r
  · exact absurd h (by simp)
  · rfl

theorem andThen_keeps {Q : Client σ → Prop} (hr : Q r.1) (hk : r.2 = .ok () → Q (k r.1).1) :
    Q (andThen r k).1 := by
  obtain ⟨w, u | u⟩ := r
  · exact hr
  · exact hk rfl

end AnyCluster

variable {net : Net} {w : Session}

theorem issueAll_history :
    ∀ e ∈ ((controlPlane net).issueAll w cs).1.history, e ∈ w.history ∨ e.1 ∈ cs := by
  refine issueAll_keeps (P := fun s : Recorded => ∀ e ∈ s.history, e ∈ w.history ∨ e.1 ∈ cs)
    (fun c hc s hs => ?_) fun e he => .inl he
  obtain ⟨st, hst, -⟩ := Recorded.call_stores net s c
  change ∀ e ∈ (s.call net c).1.history, _
  rw [hst]
  simp only [Recorded.record, List.mem_append, List.mem_singleton]
  rintro e (he | rfl)
  · exact hs e he
  · exact .inr hc

theorem issueAll_healthy {P : Stores → Prop}
    (hstep : ∀ c ∈ cs, ∀ st, P st → ∃ st', c.exec st = .ok st' ∧ P st') (hP : P w.stores) :
    ((controlPlane .healthy).issueAll w cs).2 = .ok () ∧
      P ((controlPlane .healthy).issueAll w cs).1.stores := by
  induction cs generalizing w with
  | nil => exact ⟨rfl, hP⟩
  | cons c cs ih =>
    obtain ⟨st', hexec, hP'⟩ := hstep c List.mem_cons_self _ hP
    have hcall : (controlPlane .healthy).call w.state c = (w.state.record c st', .ok ()) := by
      simp [controlPlane, Recorded.call, Net.healthy, hexec]
    unfold issueAll
    rw [hcall]
    exact ih (fun d hd => hstep d (List.mem_cons_of_mem c hd)) hP'

theorem issueAll_ok (h : ((controlPlane net).issueAll w cs).2 = .ok ()) :
    ((controlPlane net).issueAll w cs).1.stores.view =
        cs.foldl (fun v c => c.effect v) w.stores.view ∧
      ∀ c ∈ cs, ∃ st st', c.exec st = .ok st' := by
  induction cs generalizing w with
  | nil => exact ⟨rfl, by simp⟩
  | cons c cs ih =>
    obtain ⟨hr, hnext⟩ := issueAll_cons_ok h
    obtain ⟨st, hexec, hcall⟩ := Recorded.call_ok hr
    have hstate : ((controlPlane net).call w.state c).1 = w.state.record c st :=
      congrArg Prod.fst hcall
    rw [hnext, hstate] at h ⊢
    obtain ⟨hview, hacc⟩ := ih h
    refine ⟨?_, List.forall_mem_cons.mpr ⟨⟨w.stores, st, hexec⟩, hacc⟩⟩
    have hst : (w.state.record c st).stores.view = c.effect w.stores.view := Request.exec_view hexec
    rw [hview, List.foldl_cons, ← hst]

end Remote

open Remote

theorem foldl_effect {α τ : Type} (get : View → τ) (set : View → τ → View) {call : α → Request}
    (upd : τ → α → τ) (heff : ∀ v x, (call x).effect v = set v (upd (get v) x))
    (hget : ∀ v t, get (set v t) = t) (hset : ∀ v t u, set (set v t) u = set v u)
    (hself : ∀ v, set v (get v) = v) (l : List α) (v : View) :
    (l.map call).foldl (fun v c => c.effect v) v = set v (l.foldl upd (get v)) := by
  induction l generalizing v with
  | nil => exact (hself v).symm
  | cons x l ih => rw [List.map_cons, List.foldl_cons, ih, heff, hget, hset, List.foldl_cons]

section Effects
variable (v : View)

theorem effects_applyWorkload (l : List Workload) :
    (l.map Request.applyWorkload).foldl (fun v c => c.effect v) v =
      ⟨overwrite v.workloads (l.map fun w => (w.id, w)), v.services, v.ingresses⟩ := by
  rw [foldl_effect View.workloads (fun v t => { v with workloads := t })
    (fun t (w : Workload) => t.insert w.id w)
    (fun _ _ => rfl) (fun _ _ => rfl) (fun _ _ _ => rfl) (fun _ => rfl), overwrite, List.foldl_map]

theorem effects_applyService (l : List Service) :
    (l.map Request.applyService).foldl (fun v c => c.effect v) v =
      ⟨v.workloads, overwrite v.services (l.map fun s => (s.name, (ServiceStore.defaulted s).content)),
        v.ingresses⟩ := by
  rw [foldl_effect View.services (fun v t => { v with services := t })
    (fun t (s : Service) => t.insert s.name (ServiceStore.defaulted s).content)
    (fun _ _ => rfl) (fun _ _ => rfl) (fun _ _ _ => rfl) (fun _ => rfl), overwrite, List.foldl_map]

theorem effects_applyIngress (l : List Ingress) :
    (l.map Request.applyIngress).foldl (fun v c => c.effect v) v =
      ⟨v.workloads, v.services, overwrite v.ingresses (l.map fun i => (i.host, i.service))⟩ := by
  rw [foldl_effect View.ingresses (fun v t => { v with ingresses := t })
    (fun t (i : Ingress) => t.insert i.host i.service)
    (fun _ _ => rfl) (fun _ _ => rfl) (fun _ _ _ => rfl) (fun _ => rfl), overwrite, List.foldl_map]

theorem effects_deleteIngress (l : List String) :
    (l.map Request.deleteIngress).foldl (fun v c => c.effect v) v =
      ⟨v.workloads, v.services, l.foldl (fun t k => t.erase k) v.ingresses⟩ :=
  foldl_effect View.ingresses (fun v t => { v with ingresses := t }) (fun t k => t.erase k)
    (fun _ _ => rfl) (fun _ _ => rfl) (fun _ _ _ => rfl) (fun _ => rfl) l v

theorem effects_deleteService (l : List String) :
    (l.map Request.deleteService).foldl (fun v c => c.effect v) v =
      ⟨v.workloads, l.foldl (fun t k => t.erase k) v.services, v.ingresses⟩ :=
  foldl_effect View.services (fun v t => { v with services := t }) (fun t k => t.erase k)
    (fun _ _ => rfl) (fun _ _ => rfl) (fun _ _ _ => rfl) (fun _ => rfl) l v

theorem effects_deleteWorkload (l : List String) :
    (l.map Request.deleteWorkload).foldl (fun v c => c.effect v) v =
      ⟨l.foldl (fun t k => t.erase k) v.workloads, v.services, v.ingresses⟩ :=
  foldl_effect View.workloads (fun v t => { v with workloads := t }) (fun t k => t.erase k)
    (fun _ _ => rfl) (fun _ _ => rfl) (fun _ _ _ => rfl) (fun _ => rfl) l v

end Effects

def workloadWrites (bundles : List Bundle) : List (String × Workload) :=
  (declaredWorkloads bundles).map fun w => (w.id, w)

def serviceWrites (bundles : List Bundle) : List (String × ServiceContent) :=
  (declaredServices bundles).map fun s => (s.name, (ServiceStore.defaulted s).content)

def ingressWrites (bundles : List Bundle) : List (String × String) :=
  (declaredIngresses bundles).map fun i => (i.host, i.service)

theorem desiredKeys_eq (bundles : List Bundle) :
    desiredKeys bundles = ⟨(workloadWrites bundles).map Prod.fst,
      (serviceWrites bundles).map Prod.fst, (ingressWrites bundles).map Prod.fst⟩ := by
  simp [desiredKeys, workloadWrites, serviceWrites, ingressWrites, Function.comp_def]

def declared (bundles : List Bundle) (v : View) : View where
  workloads := overwrite v.workloads (workloadWrites bundles)
  services := overwrite v.services (serviceWrites bundles)
  ingresses := overwrite v.ingresses (ingressWrites bundles)

theorem applyAll_ok {net : Net} {bundles : List Bundle} {w : Session}
    (h : ((controlPlane net).applyAll bundles w).2 = .ok ()) :
    ((controlPlane net).applyAll bundles w).1.stores.view = declared bundles w.stores.view ∧
      (∀ wl ∈ declaredWorkloads bundles, ∃ st st', (Request.applyWorkload wl).exec st = .ok st') ∧
      (∀ s ∈ declaredServices bundles, ∃ st st', (Request.applyService s).exec st = .ok st') ∧
      ∀ i ∈ declaredIngresses bundles, ∃ st st', (Request.applyIngress i).exec st = .ok st' := by
  unfold Remote.applyAll at h ⊢
  obtain ⟨h₁, e₁⟩ := andThen_ok h
  rw [e₁] at h ⊢
  obtain ⟨h₂, e₂⟩ := andThen_ok h
  rw [e₂] at h ⊢
  obtain ⟨v₁, a₁⟩ := issueAll_ok h₁
  obtain ⟨v₂, a₂⟩ := issueAll_ok h₂
  obtain ⟨v₃, a₃⟩ := issueAll_ok h
  rw [v₃, v₂, v₁, effects_applyWorkload, effects_applyService, effects_applyIngress]
  exact ⟨rfl, fun wl hwl => a₁ _ (List.mem_map_of_mem hwl),
    fun s hs => a₂ _ (List.mem_map_of_mem hs), fun i hi => a₃ _ (List.mem_map_of_mem hi)⟩

theorem mapM_cons_ok {α β : Type} {f : α → Except String β} {a : α} {l : List α} {l' : List β}
    (h : (a :: l).mapM f = .ok l') : ∃ b bs, f a = .ok b ∧ l.mapM f = .ok bs ∧ l' = b :: bs := by
  rw [List.mapM_cons] at h
  cases ha : f a with
  | error e => simp [ha, bind, Except.bind] at h
  | ok b =>
    cases hl : l.mapM f with
    | error e => simp [ha, hl, bind, Except.bind] at h
    | ok bs =>
      refine ⟨b, bs, rfl, rfl, ?_⟩
      simpa [ha, hl, bind, Except.bind, pure, Except.pure] using h.symm

theorem mem_mapM_iff {α β : Type} {f : α → Except String β} {l : List α} {l' : List β}
    (h : l.mapM f = .ok l') (b : β) : b ∈ l' ↔ ∃ a ∈ l, f a = .ok b := by
  induction l generalizing l' with
  | nil =>
    obtain rfl : [] = l' := Except.ok.inj h
    simp
  | cons a l ih =>
    obtain ⟨b', bs, ha, hl, rfl⟩ := mapM_cons_ok h
    rw [List.mem_cons, ih hl, List.exists_mem_cons_iff, ha, Except.ok.injEq, @eq_comm _ b' b]

/-- An overlay changes the environment of the workload only. -/
theorem mergeOverlay_keeps {fs : Files} {dec : String → Except String (GoMap String)} {b b' : Bundle}
    (h : mergeOverlay fs dec b = .ok b') :
    b'.res.workload.id = b.res.workload.id ∧ b'.res.services = b.res.services ∧
      b'.res.ingresses = b.res.ingresses := by
  unfold mergeOverlay at h
  simp only at h
  split at h
  · obtain rfl := Except.ok.inj h
    exact ⟨rfl, rfl, rfl⟩
  · exact absurd h (by simp)
  · split at h
    · exact absurd h (by simp)
    · obtain rfl := Except.ok.inj h
      exact ⟨rfl, rfl, rfl⟩

theorem desiredKeys_merged {fs : Files} {dec : String → Except String (GoMap String)}
    {loaded bundles : List Bundle} (h : loaded.mapM (mergeOverlay fs dec) = .ok bundles) :
    desiredKeys bundles = desiredKeys loaded := by
  induction loaded generalizing bundles with
  | nil =>
    obtain rfl : [] = bundles := Except.ok.inj h
    rfl
  | cons b loaded ih =>
    obtain ⟨b', bundles', hb, hl, rfl⟩ := mapM_cons_ok h
    obtain ⟨hid, hsvcs, hings⟩ := mergeOverlay_keeps hb
    have hrest := ih hl
    simp only [desiredKeys, declaredWorkloads, declaredServices, declaredIngresses, Keys.mk.injEq,
      List.map_cons, List.flatMap_cons, List.map_append] at hrest ⊢
    rw [hrest.1, hrest.2.1, hrest.2.2, hid, hsvcs, hings]
    exact ⟨rfl, rfl, rfl⟩

theorem loadBundle_resolved {fs : Files} {file : String} {b : Bundle}
    (h : loadBundle fs file = .ok b) : ∃ app : App, app.resolve = .ok b.res := by
  unfold loadBundle at h
  split at h
  · exact absurd h (by simp)
  · split at h
    · exact absurd h (by simp)
    · rename_i app _
      split at h
      · exact absurd h (by simp)
      · rename_i res hres
        obtain rfl := Except.ok.inj h
        exact ⟨app, hres⟩

theorem resolvedBundles_parts {fs : Files} {dec : String → Except String (GoMap String)}
    {dir : String} {bundles : List Bundle} (h : resolvedBundles fs dec dir = .ok bundles) :
    ∃ loaded, loadBundles fs dir = .ok loaded ∧ loaded.mapM (mergeOverlay fs dec) = .ok bundles := by
  unfold resolvedBundles at h
  split at h
  · exact absurd h (by simp)
  · rename_i loaded hloaded
    exact ⟨loaded, hloaded, h⟩

/-- The bundles of a directory are those of its manifest files. -/
theorem mem_loadBundles {fs : Files} {dir : String} {bundles : List Bundle}
    (h : loadBundles fs dir = .ok bundles) : ∃ files, manifestFiles fs dir = .ok files ∧
      ∀ b, b ∈ bundles ↔ ∃ file ∈ files, loadBundle fs file = .ok b := by
  unfold loadBundles at h
  split at h
  · exact absurd h (by simp)
  · rename_i files hfiles
    split_ifs at h
    exact ⟨files, hfiles, mem_mapM_iff h⟩

/-- What a directory declares is what its manifest files do, one by one. -/
theorem mem_desiredKeys {fs : Files} {dec : String → Except String (GoMap String)} {dir : String}
    {bundles : List Bundle} (h : resolvedBundles fs dec dir = .ok bundles) :
    ∃ files, manifestFiles fs dir = .ok files ∧
      (∀ id, id ∈ (desiredKeys bundles).workloads ↔
        ∃ file ∈ files, ∃ b, loadBundle fs file = .ok b ∧ b.res.workload.id = id) ∧
      (∀ n, n ∈ (desiredKeys bundles).services ↔
        ∃ file ∈ files, ∃ b, loadBundle fs file = .ok b ∧ n ∈ b.res.services.map Service.name) ∧
      ∀ host, host ∈ (desiredKeys bundles).ingresses ↔
        ∃ file ∈ files, ∃ b, loadBundle fs file = .ok b ∧ host ∈ b.res.ingresses.map Ingress.host := by
  obtain ⟨loaded, hloaded, hmerged⟩ := resolvedBundles_parts h
  obtain ⟨files, hfiles, hmem⟩ := mem_loadBundles hloaded
  have hkeys : ∀ (keys : Bundle → List String) (k : String), k ∈ loaded.flatMap keys ↔
      ∃ file ∈ files, ∃ b, loadBundle fs file = .ok b ∧ k ∈ keys b := by
    intro keys k
    rw [List.mem_flatMap]
    constructor
    · rintro ⟨b, hb, hk⟩
      obtain ⟨file, hfile, hload⟩ := (hmem b).mp hb
      exact ⟨file, hfile, b, hload, hk⟩
    · rintro ⟨file, hfile, b, hload, hk⟩
      exact ⟨b, (hmem b).mpr ⟨file, hfile, hload⟩, hk⟩
  rw [desiredKeys_merged hmerged]
  refine ⟨files, hfiles, fun id => ?_, fun n => ?_, fun host => ?_⟩
  · have hid := hkeys (fun b => [b.res.workload.id]) id
    simp only [List.mem_singleton, @eq_comm _ id] at hid
    rw [← hid, desiredKeys, declaredWorkloads, List.map_map, List.map_eq_flatMap]
    rfl
  · rw [← hkeys, desiredKeys, declaredServices, List.map_flatMap]
  · rw [← hkeys, desiredKeys, declaredIngresses, List.map_flatMap]

/-- The references inside a set of bundles resolve inside it. -/
structure Linked (bundles : List Bundle) : Prop where
  service : ∀ s ∈ declaredServices bundles, s.workloadID ∈ (desiredKeys bundles).workloads
  protocol : ∀ s ∈ declaredServices bundles, s.protocol ≠ ""
  ingress : ∀ i ∈ declaredIngresses bundles, i.service ∈ (desiredKeys bundles).services

theorem resolvedBundles_linked {fs : Files} {dec : String → Except String (GoMap String)}
    {dir : String} {bundles : List Bundle} (h : resolvedBundles fs dec dir = .ok bundles) :
    Linked bundles := by
  obtain ⟨loaded, hloaded, hmerged⟩ := resolvedBundles_parts h
  have hparts : ∀ b ∈ bundles, ∃ (app : App) (r : Resolved), app.resolve = .ok r ∧
      b.res.workload.id = r.workload.id ∧ b.res.services = r.services ∧
      b.res.ingresses = r.ingresses := by
    intro b hb
    obtain ⟨l, hl, hmerge⟩ := (mem_mapM_iff hmerged b).mp hb
    obtain ⟨files, -, hmem⟩ := mem_loadBundles hloaded
    obtain ⟨file, -, hfile⟩ := (hmem l).mp hl
    obtain ⟨app, hres⟩ := loadBundle_resolved hfile
    exact ⟨app, l.res, hres, mergeOverlay_keeps hmerge⟩
  have hlowered : ∀ b ∈ bundles, ∀ s ∈ b.res.services,
      s.workloadID = b.res.workload.id ∧ s.protocol ≠ "" := by
    intro b hb s hs
    obtain ⟨app, r, hres, hid, hsvcs, -⟩ := hparts b hb
    obtain ⟨-, hw, hservices, -⟩ := App.resolve_parts hres
    obtain ⟨spec, -, hlow⟩ := (App.resolveServicesFrom_lowered hservices).2 s (hsvcs ▸ hs)
    have hname := (App.resolveWorkload_accepted hw).1
    refine ⟨hlow.workloadID.trans (hname.symm.trans hid.symm), ?_⟩
    obtain hp | hp := hlow.protocol
    · simp [hp]
    · simp [hp]
  refine ⟨fun s hs => ?_, fun s hs => ?_, fun i hi => ?_⟩
  · obtain ⟨b, hb, hs⟩ := List.mem_flatMap.mp hs
    rw [(hlowered b hb s hs).1]
    exact List.mem_map_of_mem (List.mem_map_of_mem hb)
  · obtain ⟨b, hb, hs⟩ := List.mem_flatMap.mp hs
    exact (hlowered b hb s hs).2
  · obtain ⟨b, hb, hi⟩ := List.mem_flatMap.mp hi
    obtain ⟨app, r, hres, -, hsvcs, hings⟩ := hparts b hb
    obtain ⟨-, -, -, hingresses⟩ := App.resolve_parts hres
    obtain ⟨svc, hsvc, hname⟩ := List.mem_map.mp
      (App.resolveIngressesFrom_refers hingresses i (hings ▸ hi)).2
    exact List.mem_map.mpr ⟨svc, List.mem_flatMap.mpr ⟨b, hb, hsvcs ▸ hsvc⟩, hname⟩

theorem liveKeys_ok {net : Net} {s : Recorded} {l : Keys}
    (h : (controlPlane net).liveKeys s = .ok l) :
    l = ⟨(s.stores.workloads.list.toList.map Prod.snd).map Workload.id,
      s.stores.services.list.map Service.name, s.stores.ingresses.list.map Ingress.host⟩ := by
  unfold liveKeys controlPlane at h
  cases hw : net.listWorkloads with
  | some e => simp [hw] at h
  | none =>
    cases hs : net.listServices with
    | some e => simp [hw, hs] at h
    | none =>
      cases hi : net.listIngresses with
      | some e => simp [hw, hs, hi] at h
      | none =>
        simp only [hw, hs, hi] at h
        exact (Except.ok.inj h).symm

theorem liveKeys_iff {net : Net} {s : Recorded} {l : Keys}
    (h : (controlPlane net).liveKeys s = .ok l) :
    (∀ id, id ∈ l.workloads ↔ s.stores.view.workloads[id]? ≠ none) ∧
      (∀ n, n ∈ l.services ↔ s.stores.view.services[n]? ≠ none) ∧
      ∀ host, host ∈ l.ingresses ↔ s.stores.view.ingresses[host]? ≠ none := by
  obtain ⟨st, history⟩ := s
  obtain rfl := liveKeys_ok h
  dsimp only
  refine ⟨fun id => ?_, fun n => ?_, fun host => ?_⟩
  · simp only [List.map_map, List.mem_map, Prod.exists, Function.comp_apply,
      ExtTreeMap.mem_toList_iff_getElem?_eq_some, Option.ne_none_iff_exists']
    constructor
    · rintro ⟨k, w, hk, rfl⟩
      rw [(st.workloads.valid k w hk).1]
      exact ⟨w, hk⟩
    · rintro ⟨w, hw⟩
      exact ⟨id, w, hw, (st.workloads.valid id w hw).1⟩
  · have hcontents : st.view.services[n]? = st.services.rows[n]?.map Service.content :=
      ServiceStore.lookup_contents st.services n
    rw [hcontents, Ne, Option.map_eq_none_iff, ← Ne, Option.ne_none_iff_exists']
    simp only [ServiceStore.list, List.mem_map, Prod.exists,
      ExtTreeMap.mem_toList_iff_getElem?_eq_some]
    constructor
    · rintro ⟨svc, ⟨k, x, hk, rfl⟩, rfl⟩
      rw [st.services.named k x hk]
      exact ⟨x, hk⟩
    · rintro ⟨svc, hsvc⟩
      exact ⟨svc, ⟨n, svc, hsvc, rfl⟩, st.services.named n svc hsvc⟩
  · simp only [IngressStore.list, List.mem_map, Prod.exists,
      ExtTreeMap.mem_toList_iff_getElem?_eq_some, Option.ne_none_iff_exists', Stores.view]
    constructor
    · rintro ⟨i, ⟨k, s, hk, rfl⟩, rfl⟩
      exact ⟨s, hk⟩
    · rintro ⟨s, hs⟩
      exact ⟨⟨host, s⟩, ⟨host, s, hs, rfl⟩, rfl⟩

theorem mem_del {desired live : List String} {k : String} :
    k ∈ (delta desired live).del ↔ k ∈ live ∧ k ∉ desired := by
  simp [delta, sortStrings, mem_sortSlice]

theorem lookup_pruned {V : Type} {t : GoMap V} {desired live : List String}
    (hlive : ∀ k, k ∈ live ↔ t[k]? ≠ none) (k : String) :
    ((delta desired live).del.foldl (fun t k => t.erase k) t)[k]? =
      if k ∈ desired then t[k]? else none := by
  rw [lookup_foldl_erase]
  by_cases hd : k ∈ desired
  · rw [if_neg fun hk => (mem_del.mp hk).2 hd, if_pos hd]
  · rw [if_neg hd]
    split_ifs with hk
    · rfl
    · by_contra hne
      exact hk (mem_del.mpr ⟨(hlive k).mpr hne, hd⟩)

end Smith
