import Smith.ApplyRuns

set_option autoImplicit false

/-!
# Secret values stay out of the output

Two runs over the same directory whose decryptors differ only in the values of the overlays.
Their bundles are equal once environment values are blotted out, and the values they do not
share belong to keys that the plan prints redacted. Against a cluster whose answers do not
depend on environment values the two runs print the same lines and end the same way.
-/
namespace Smith
open FiniteMaps Overwrites Std

def Workload.redact (w : Workload) : Workload :=
  { w with env := w.env.map fun m => m.map fun _ _ => "" }

theorem Workload.printed_of_redact {w w' : Workload} (h : w.redact = w'.redact) :
    w.id = w'.id ∧ w.image = w'.image ∧ w.replicas = w'.replicas := by
  simp only [redact, Workload.mk.injEq] at h
  exact ⟨h.1, h.2.1, h.2.2.2.2.2.2.2.1⟩

theorem Workload.ids_redact (ws : List Workload) :
    (ws.map Workload.redact).map Workload.id = ws.map Workload.id := by
  rw [List.map_map]
  rfl

def Request.redact : Request → Request
  | .applyWorkload w => .applyWorkload w.redact
  | r => r

/-- The decryptors fail on the same overlays, with the same error, and find the same keys. -/
def SameOverlayKeys (dec dec' : String → Except String (GoMap String)) : Prop :=
  ∀ path, (dec path).map ExtTreeMap.keys = (dec' path).map ExtTreeMap.keys

/-- Both fail alike, or both succeed with related results. -/
inductive Alike {α : Type} (R : α → α → Prop) : Except String α → Except String α → Prop where
  | error (e : String) : Alike R (.error e) (.error e)
  | ok {a b : α} (h : R a b) : Alike R (.ok a) (.ok b)

theorem Alike.of_map_eq {α β : Type} {f : α → β} {x y : Except String α}
    (h : x.map f = y.map f) : Alike (fun a b => f a = f b) x y := by
  cases x with
  | error e =>
    cases y with
    | error e' =>
      obtain rfl : e = e' := Except.error.inj h
      exact .error e
    | ok b => exact absurd h (by simp [Except.map])
  | ok a =>
    cases y with
    | error e' => exact absurd h (by simp [Except.map])
    | ok b => exact .ok (Except.ok.inj h)

theorem Alike.elim {α : Type} {R : α → α → Prop} {x y : Except String α} (h : Alike R x y) :
    (∃ e, x = .error e ∧ y = .error e) ∨ ∃ a b, R a b ∧ x = .ok a ∧ y = .ok b := by
  cases h with
  | error e => exact .inl ⟨e, rfl, rfl⟩
  | ok h => exact .inr ⟨_, _, h, rfl, rfl⟩

/-- Bundles that differ in the values of their overlay at most. -/
structure Bundle.SameButSecrets (b b' : Bundle) : Prop where
  overlayKeys : b.overlayKeys = b'.overlayKeys
  workload : b.res.workload.redact = b'.res.workload.redact
  services : b.res.services = b'.res.services
  ingresses : b.res.ingresses = b'.res.ingresses
  plain : ∀ k ∉ b.overlayKeys,
    (b.res.workload.env.getD ∅).getD k "" = (b'.res.workload.env.getD ∅).getD k ""

theorem Bundle.SameButSecrets.refl (b : Bundle) : b.SameButSecrets b :=
  ⟨rfl, rfl, rfl, rfl, fun _ _ => rfl⟩

theorem mem_iff_of_keys_eq {m m' : GoMap String} (h : m.keys = m'.keys) (k : String) :
    k ∈ m.toList.map Prod.fst ↔ k ∈ m'.toList.map Prod.fst := by
  rw [ExtTreeMap.map_fst_toList_eq_keys, ExtTreeMap.map_fst_toList_eq_keys, h]

theorem blot_eq_of_keys {m m' : GoMap String}
    (h : ∀ k : String, m[k]? = none ↔ m'[k]? = none) :
    (m.map fun _ _ => "") = m'.map fun _ _ => "" := by
  apply ExtTreeMap.ext_getElem?
  intro k
  rw [ExtTreeMap.getElem?_map, ExtTreeMap.getElem?_map]
  cases hm : m[k]? with
  | none => rw [(h k).mp hm]
  | some v =>
    cases hm' : m'[k]? with
    | none => exact absurd ((h k).mpr hm') (by simp [hm])
    | some v' => rfl

theorem overwrite_eq_none {t : GoMap String} {m : GoMap String} {k : String} :
    (overwrite t m.toList)[k]? = none ↔ k ∉ m.toList.map Prod.fst ∧ t[k]? = none := by
  rw [lookup_overwrite, Option.or_eq_none_iff, lookup_eq_none]

theorem mergeOverlay_alike {dec dec' : String → Except String (GoMap String)}
    (h : SameOverlayKeys dec dec') (fs : Files) (b : Bundle) :
    Alike Bundle.SameButSecrets (mergeOverlay fs dec b) (mergeOverlay fs dec' b) := by
  unfold mergeOverlay
  generalize hp : trimSuffix b.file ".yaml" ++ ".sops.yaml" = path
  have hpath := h path
  simp only
  cases fs.stat path with
  | missing => exact .ok (.refl b)
  | failed e => exact .error _
  | found =>
    obtain ⟨e, hd, hd'⟩ | ⟨m, m', hkeys, hd, hd'⟩ := (Alike.of_map_eq hpath).elim
    · rw [hd, hd']
      exact .error _
    · rw [hd, hd']
      refine .ok ⟨hkeys, ?_, rfl, rfl, fun k hk => ?_⟩
      · have hblot := @blot_eq_of_keys (overwrite (b.res.workload.env.getD ∅) m.toList)
          (overwrite (b.res.workload.env.getD ∅) m'.toList) fun k => by
            rw [overwrite_eq_none, overwrite_eq_none, mem_iff_of_keys_eq hkeys]
        simp only [Workload.redact, Option.map_some, hblot]
      · -- a key outside the overlay still has the value of the manifest
        have hplain {m : GoMap String} (hk : k ∉ m.keys) :
            (overwrite (b.res.workload.env.getD ∅) m.toList)[k]? =
              (b.res.workload.env.getD ∅)[k]? := by
          rw [lookup_overwrite, lookup_eq_none.mpr, Option.none_or]
          rwa [ExtTreeMap.map_fst_toList_eq_keys]
        simp only [Option.getD_some]
        rw [getD_eq, getD_eq, hplain hk, hplain (hkeys ▸ hk)]

theorem mapM_alike {R : Bundle → Bundle → Prop} {f g : Bundle → Except String Bundle}
    (h : ∀ b, Alike R (f b) (g b)) (l : List Bundle) :
    Alike (List.Forall₂ R) (l.mapM f) (l.mapM g) := by
  induction l with
  | nil => exact .ok .nil
  | cons b l ih =>
    rw [List.mapM_cons, List.mapM_cons]
    obtain ⟨e, hf, hg⟩ | ⟨x, y, hxy, hf, hg⟩ := (h b).elim
    · rw [hf, hg]
      exact .error e
    · obtain ⟨e, hl, hl'⟩ | ⟨xs, ys, hxys, hl, hl'⟩ := ih.elim
      · rw [hf, hg, hl, hl']
        exact .error e
      · rw [hf, hg, hl, hl']
        exact .ok (.cons hxy hxys)

theorem resolvedBundles_alike {dec dec' : String → Except String (GoMap String)}
    (h : SameOverlayKeys dec dec') (fs : Files) (dir : String) :
    Alike (List.Forall₂ Bundle.SameButSecrets) (resolvedBundles fs dec dir)
      (resolvedBundles fs dec' dir) := by
  unfold resolvedBundles
  cases loadBundles fs dir with
  | error e => exact .error e
  | ok bundles => exact mapM_alike (mergeOverlay_alike h fs) bundles

section Bundles
variable {bundles bundles' : List Bundle}
  (h : List.Forall₂ Bundle.SameButSecrets bundles bundles')
include h

theorem redact_declaredWorkloads : (declaredWorkloads bundles).map Workload.redact =
    (declaredWorkloads bundles').map Workload.redact := by
  induction h with
  | nil => rfl
  | cons hb _ ih => exact congrArg₂ List.cons hb.workload ih

theorem declaredServices_eq : declaredServices bundles = declaredServices bundles' := by
  induction h with
  | nil => rfl
  | cons hb _ ih => exact congrArg₂ List.append hb.services ih

theorem declaredIngresses_eq : declaredIngresses bundles = declaredIngresses bundles' := by
  induction h with
  | nil => rfl
  | cons hb _ ih => exact congrArg₂ List.append hb.ingresses ih

theorem desiredKeys_same : desiredKeys bundles = desiredKeys bundles' := by
  rw [desiredKeys, desiredKeys, declaredServices_eq h, declaredIngresses_eq h,
    ← Workload.ids_redact, redact_declaredWorkloads h, Workload.ids_redact]

end Bundles

theorem keys_blot (m : GoMap String) : (m.map fun _ _ => "").keys = m.keys := by
  rw [← ExtTreeMap.map_fst_toList_eq_keys, ← ExtTreeMap.map_fst_toList_eq_keys,
    ExtTreeMap.toList_map, List.map_map]
  rfl

theorem Bundle.SameButSecrets.keys {b b' : Bundle} (h : b.SameButSecrets b') :
    (b.res.workload.env.getD ∅).keys = (b'.res.workload.env.getD ∅).keys := by
  have henv := congrArg Workload.env h.workload
  simp only [Workload.redact] at henv
  cases he : b.res.workload.env with
  | none =>
    rw [he, Option.map_none] at henv
    rw [Option.map_eq_none_iff.mp henv.symm]
  | some m =>
    rw [he, Option.map_some] at henv
    obtain ⟨m', he', hm⟩ := Option.map_eq_some_iff.mp henv.symm
    rw [he', Option.getD_some, Option.getD_some, ← keys_blot m, ← keys_blot m', hm]

theorem flatMap_same {bundles bundles' : List Bundle} {f : Bundle → List String}
    (h : List.Forall₂ Bundle.SameButSecrets bundles bundles')
    (hf : ∀ b b' : Bundle, b.SameButSecrets b' → f b = f b') :
    bundles.flatMap f = bundles'.flatMap f := by
  induction h with
  | nil => rfl
  | cons hb _ ih => exact congrArg₂ List.append (hf _ _ hb) ih

/-- The plan prints the values that the two runs share, and the keys of the others. -/
theorem planLines_same {bundles bundles' : List Bundle}
    (h : List.Forall₂ Bundle.SameButSecrets bundles bundles') :
    planLines bundles = planLines bundles' := by
  unfold planLines
  rw [declaredServices_eq h, declaredIngresses_eq h]
  refine congrArg (fun l => _ ++ l ++ _ ++ _) (flatMap_same h fun b b' hb => ?_)
  obtain ⟨hid, himage, hreplicas⟩ := Workload.printed_of_redact hb.workload
  simp only [hid, himage, hreplicas, hb.keys, ← hb.overlayKeys]
  refine congrArg (List.cons _) (List.map_congr_left fun k _ => ?_)
  split_ifs with hk
  · rfl
  · rw [hb.plain k hk]

/-- What is printed about a request does not show environment values. -/
theorem Request.printed_of_redact {r r' : Request} (h : r.redact = r'.redact) :
    Request.label r = Request.label r' ∧ Request.done r = Request.done r' := by
  cases r <;> cases r' <;> simp only [redact, reduceCtorEq, Request.applyWorkload.injEq] at h
  case applyWorkload w w' =>
    have hid := (Workload.printed_of_redact h).1
    exact ⟨congrArg (fun id => s!"workload {id}") hid,
      congrArg (fun id => s!"applied workload {id}") hid⟩
  all_goals exact ⟨congrArg Request.label h, congrArg Request.done h⟩

namespace Remote
variable {σ : Type} (c : Remote σ)

/-- The state that a sequence of requests leads to, whatever the answers. -/
def after (s : σ) (rs : List Request) : σ := rs.foldl (fun s r => (c.call s r).1) s

/-- Requests that differ in environment values only get the same answers, and the lists
    differ in environment values only. -/
structure Oblivious (s : σ) : Prop where
  call : ∀ (rs rs' : List Request) (r r' : Request), rs.map Request.redact = rs'.map Request.redact →
    r.redact = r'.redact → (c.call (c.after s rs) r).2 = (c.call (c.after s rs') r').2
  listWorkloads : ∀ rs rs' : List Request, rs.map Request.redact = rs'.map Request.redact →
    (c.listWorkloads (c.after s rs)).map (List.map Workload.redact) =
      (c.listWorkloads (c.after s rs')).map (List.map Workload.redact)
  listServices : ∀ rs rs' : List Request, rs.map Request.redact = rs'.map Request.redact →
    c.listServices (c.after s rs) = c.listServices (c.after s rs')
  listIngresses : ∀ rs rs' : List Request, rs.map Request.redact = rs'.map Request.redact →
    c.listIngresses (c.after s rs) = c.listIngresses (c.after s rs')

/-- Two runs that have sent the same but for environment values and have printed the same. -/
def SameSoFar (s : σ) (w w' : Client σ) : Prop :=
  ∃ rs rs' : List Request, rs.map Request.redact = rs'.map Request.redact ∧
    w.state = c.after s rs ∧ w'.state = c.after s rs' ∧ w.out = w'.out

/-- The same error or none, in runs that are the same so far. -/
def SameEnd (s : σ) (r r' : Client σ × Except String Unit) : Prop :=
  c.SameSoFar s r.1 r'.1 ∧ r.2 = r'.2

variable {c} {s : σ} {w w' : Client σ}

theorem after_snoc (rs : List Request) (r : Request) :
    c.after s (rs ++ [r]) = (c.call (c.after s rs) r).1 :=
  List.foldl_concat ..

theorem SameSoFar.issueAll (hc : c.Oblivious s) {rs rs' : List Request}
    (hrs : rs.map Request.redact = rs'.map Request.redact) (h : c.SameSoFar s w w') :
    c.SameEnd s (c.issueAll w rs) (c.issueAll w' rs') := by
  induction rs generalizing rs' w w' with
  | nil =>
    obtain rfl := List.map_eq_nil_iff.mp hrs.symm
    exact ⟨h, rfl⟩
  | cons r rs ih =>
    obtain ⟨r', rs', rfl, hr, hrs⟩ := List.map_eq_cons_iff.mp hrs.symm
    obtain ⟨hs, hs', hhist, hw, hw', hout⟩ := h
    have hanswer := hc.call hs hs' r r' hhist hr.symm
    obtain ⟨hlabel, hdone⟩ := Request.printed_of_redact hr.symm
    have hnext : (hs ++ [r]).map Request.redact = (hs' ++ [r']).map Request.redact := by
      rw [List.map_append, List.map_append, hhist, List.map_singleton, List.map_singleton, hr]
    unfold issueAll
    rw [hw, hw', hlabel, hdone]
    cases hcall : c.call (c.after s hs) r with
    | mk t u =>
      cases hcall' : c.call (c.after s hs') r' with
      | mk t' u' =>
        rw [hcall, hcall'] at hanswer
        obtain rfl : u = u' := hanswer
        have ht : t = c.after s (hs ++ [r]) := by rw [after_snoc, hcall]
        have ht' : t' = c.after s (hs' ++ [r']) := by rw [after_snoc, hcall']
        cases u with
        | error e => exact ⟨⟨_, _, hnext, ht, ht', hout⟩, rfl⟩
        | ok u => exact ih hrs.symm ⟨_, _, hnext, ht, ht', by rw [hout]⟩

theorem SameEnd.andThen {r r' : Client σ × Except String Unit} (h : c.SameEnd s r r')
    {k l : Client σ → Client σ × Except String Unit}
    (hk : ∀ w w', c.SameSoFar s w w' → c.SameEnd s (k w) (l w')) :
    c.SameEnd s (andThen r k) (andThen r' l) := by
  obtain ⟨w, u⟩ := r
  obtain ⟨w', u'⟩ := r'
  obtain ⟨hw, rfl⟩ : c.SameSoFar s w w' ∧ u = u' := h
  cases u with
  | error e => exact ⟨hw, rfl⟩
  | ok u => exact hk w w' hw

theorem SameSoFar.liveKeys (hc : c.Oblivious s) (h : c.SameSoFar s w w') :
    c.liveKeys w.state = c.liveKeys w'.state := by
  obtain ⟨rs, rs', hrs, hw, hw', -⟩ := h
  have hlist := hc.listWorkloads rs rs' hrs
  unfold Remote.liveKeys
  rw [hw, hw', hc.listServices rs rs' hrs, hc.listIngresses rs rs' hrs]
  obtain ⟨e, hl, hl'⟩ | ⟨ws, ws', hws, hl, hl'⟩ := (Alike.of_map_eq hlist).elim
  · rw [hl, hl']
  · rw [hl, hl']
    cases c.listServices (c.after s rs') with
    | error e => rfl
    | ok ss =>
      cases c.listIngresses (c.after s rs') with
      | error e => rfl
      | ok is => simp only [← Workload.ids_redact ws, hws, Workload.ids_redact ws']

section Runs
variable {bundles bundles' : List Bundle} (hc : c.Oblivious s)
  (hb : List.Forall₂ Bundle.SameButSecrets bundles bundles') (h : c.SameSoFar s w w')
include hc hb h

theorem SameSoFar.applyAll :
    c.SameEnd s (c.applyAll bundles w) (c.applyAll bundles' w') := by
  have hw : ((declaredWorkloads bundles).map Request.applyWorkload).map Request.redact =
      ((declaredWorkloads bundles').map Request.applyWorkload).map Request.redact := by
    have hcomp : Request.redact ∘ Request.applyWorkload = Request.applyWorkload ∘ Workload.redact :=
      rfl
    rw [List.map_map, List.map_map, hcomp, ← List.map_map, ← List.map_map,
      redact_declaredWorkloads hb]
  refine (h.issueAll hc hw).andThen fun w w' h => ?_
  rw [declaredServices_eq hb, declaredIngresses_eq hb]
  exact (h.issueAll hc rfl).andThen fun w w' h => h.issueAll hc rfl

theorem SameSoFar.pruneDrift :
    c.SameEnd s (c.pruneDrift bundles w) (c.pruneDrift bundles' w') := by
  have hplan : c.prunePlan bundles w.state = c.prunePlan bundles' w'.state := by
    unfold Remote.prunePlan
    rw [h.liveKeys hc, desiredKeys_same hb]
  unfold Remote.pruneDrift
  rw [hplan]
  cases c.prunePlan bundles' w'.state with
  | error e => exact ⟨h, rfl⟩
  | ok plan =>
    exact (h.issueAll hc rfl).andThen fun w w' h =>
      (h.issueAll hc rfl).andThen fun w w' h => h.issueAll hc rfl

end Runs

end Remote

section ControlPlane

structure Stores.SameButEnv (st st' : Stores) : Prop where
  workloads : (st.workloads.list.map fun _ w => w.redact) =
    st'.workloads.list.map fun _ w => w.redact
  services : st.services = st'.services
  ingresses : st.ingresses = st'.ingresses

theorem validateWorkload_redact (w : Workload) : validateWorkload w.redact = validateWorkload w :=
  rfl

theorem Store.add_redact {s s' : Store} {w w' : Workload} (hw : w.redact = w'.redact)
    (hs : (s.list.map fun _ v => v.redact) = s'.list.map fun _ v => v.redact) :
    Alike (fun t t' : Store => (t.list.map fun _ v => v.redact) = t'.list.map fun _ v => v.redact)
      (s.add w) (s'.add w') := by
  obtain ⟨hid, himage, -⟩ := Workload.printed_of_redact hw
  unfold Store.add
  by_cases h : w.id = ""
  · rw [dif_pos h, dif_pos (hid ▸ h)]
    exact .error _
  by_cases h' : w.image = ""
  · rw [dif_neg h, dif_pos h', dif_neg (hid ▸ h), dif_pos (himage ▸ h'), hid]
    exact .error _
  · rw [dif_neg h, dif_neg h', dif_neg (hid ▸ h), dif_neg (himage ▸ h')]
    refine .ok (ExtTreeMap.ext_getElem? fun k => ?_)
    have hk := congrArg (fun m : GoMap Workload => m[k]?) hs
    simp only [ExtTreeMap.getElem?_map, Store.list] at hk ⊢
    rw [lookup_insert, lookup_insert, hid]
    split_ifs
    · exact congrArg some hw
    · exact hk

theorem Request.exec_redact {r r' : Request} {st st' : Stores} (hr : r.redact = r'.redact)
    (hst : st.SameButEnv st') : Alike Stores.SameButEnv (r.exec st) (r'.exec st') := by
  obtain ⟨ws, svcs, ings⟩ := st
  obtain ⟨ws', svcs', ings'⟩ := st'
  obtain ⟨hws, rfl, rfl⟩ : _ ∧ svcs = svcs' ∧ ings = ings' :=
    ⟨hst.workloads, hst.services, hst.ingresses⟩
  cases r <;> cases r' <;> simp only [redact, reduceCtorEq, Request.applyWorkload.injEq] at hr
  case applyWorkload w w' =>
    simp only [exec]
    rw [← validateWorkload_redact w, hr, validateWorkload_redact w']
    cases validateWorkload w' with
    | error e => exact .error e
    | ok u =>
      obtain ⟨e, ha, ha'⟩ | ⟨t, t', ht, ha, ha'⟩ := (Store.add_redact hr hws).elim
      · rw [ha, ha']
        exact .error _
      · rw [ha, ha']
        exact .ok ⟨ht, rfl, rfl⟩
  case applyService svc svc' =>
    rw [hr]
    simp only [exec]
    cases svcs.add svc' with
    | mk t u =>
      cases u with
      | error e => exact .error _
      | ok u => exact .ok ⟨hws, rfl, rfl⟩
  case applyIngress ing ing' =>
    rw [hr]
    simp only [exec]
    cases ings.add ing' with
    | error e => exact .error _
    | ok t => exact .ok ⟨hws, rfl, rfl⟩
  case deleteIngress => exact .ok ⟨hws, rfl, congrArg ings.remove (by simpa using hr)⟩
  case deleteService => exact .ok ⟨hws, congrArg svcs.remove (by simpa using hr), rfl⟩
  case deleteWorkload id id' =>
    obtain rfl : id = id' := by simpa using hr
    refine .ok ⟨ExtTreeMap.ext_getElem? fun k => ?_, rfl, rfl⟩
    have hk := congrArg (fun m : GoMap Workload => m[k]?) hws
    simp only [ExtTreeMap.getElem?_map, Store.list, Store.remove] at hk ⊢
    rw [lookup_erase, lookup_erase]
    split_ifs
    · rfl
    · exact hk

open Remote
variable (net : Net)

/-- As many requests have left stores that differ in environment values at most. -/
structure Recorded.SameButEnv (s s' : Recorded) : Prop where
  stores : s.stores.SameButEnv s'.stores
  count : s.history.length = s'.history.length

theorem controlPlane_call {r r' : Request} {s s' : Recorded} (hr : r.redact = r'.redact)
    (hs : s.SameButEnv s') :
    ((controlPlane net).call s r).1.SameButEnv ((controlPlane net).call s' r').1 ∧
      ((controlPlane net).call s r).2 = ((controlPlane net).call s' r').2 := by
  have hrecord : ∀ {st st' : Stores}, st.SameButEnv st' →
      (s.record r st).SameButEnv (s'.record r' st') := by
    intro st st' hst
    exact ⟨hst, by simp [Recorded.record, hs.count]⟩
  simp only [controlPlane, Recorded.call]
  rw [hs.count]
  obtain ⟨e, hx, hx'⟩ | ⟨t, t', ht, hx, hx'⟩ := (Request.exec_redact hr hs.stores).elim
  · rw [hx, hx']
    cases net.call s'.history.length with
    | served => exact ⟨hrecord hs.stores, rfl⟩
    | lost e => exact ⟨hrecord hs.stores, rfl⟩
    | unanswered e => exact ⟨hrecord hs.stores, rfl⟩
  · rw [hx, hx']
    cases net.call s'.history.length with
    | served => exact ⟨hrecord ht, rfl⟩
    | lost e => exact ⟨hrecord hs.stores, rfl⟩
    | unanswered e => exact ⟨hrecord ht, rfl⟩

theorem controlPlane_after (s : Recorded) {rs rs' : List Request}
    (hrs : rs.map Request.redact = rs'.map Request.redact) :
    ((controlPlane net).after s rs).SameButEnv ((controlPlane net).after s rs') := by
  induction rs using List.reverseRecOn generalizing rs' with
  | nil =>
    obtain rfl := List.map_eq_nil_iff.mp hrs.symm
    exact ⟨⟨rfl, rfl, rfl⟩, rfl⟩
  | append_singleton rs r ih =>
    rw [List.map_append, List.map_singleton] at hrs
    obtain ⟨l, l', rfl, hl, hl'⟩ := List.map_eq_append_iff.mp hrs.symm
    obtain ⟨r', rfl, hr⟩ := List.map_eq_singleton_iff.mp hl'
    rw [after_snoc, after_snoc]
    exact (controlPlane_call net hr.symm (ih hl.symm)).1

theorem controlPlane_lists {s s' : Recorded} (hs : s.stores.SameButEnv s'.stores) :
    ((controlPlane net).listWorkloads s).map (List.map Workload.redact) =
      ((controlPlane net).listWorkloads s').map (List.map Workload.redact) ∧
    (controlPlane net).listServices s = (controlPlane net).listServices s' ∧
    (controlPlane net).listIngresses s = (controlPlane net).listIngresses s' := by
  simp only [controlPlane, hs.services, hs.ingresses, and_true]
  cases net.listWorkloads with
  | some e => rfl
  | none =>
    have hlist := congrArg (fun m : GoMap Workload => m.toList.map Prod.snd) hs.workloads
    simp only [ExtTreeMap.toList_map, List.map_map] at hlist
    simp only [Except.map, List.map_map]
    exact congrArg Except.ok hlist

/-- The control plane, behind any network, is a cluster whose answers do not depend on
    environment values. -/
theorem controlPlane_oblivious (s : Recorded) : (controlPlane net).Oblivious s where
  call _ _ _ _ hrs hr := (controlPlane_call net hr (controlPlane_after net s hrs)).2
  listWorkloads _ _ hrs := (controlPlane_lists net (controlPlane_after net s hrs).stores).1
  listServices _ _ hrs := (controlPlane_lists net (controlPlane_after net s hrs).stores).2.1
  listIngresses _ _ hrs := (controlPlane_lists net (controlPlane_after net s hrs).stores).2.2

end ControlPlane

/-- Decryptors that differ in secret values only make a dry run, and a run against a cluster
    that is oblivious of environment values, print the same and end with the same error. -/
theorem output_without_secrets {dec dec' : String → Except String (GoMap String)}
    (h : SameOverlayKeys dec dec') (fs : Files) (dir : String) (prune : Bool) {σ : Type}
    (c : Remote σ) (s : σ) :
    ((c.apply fs dec dir true prune ⟨s, []⟩).1.out =
        (c.apply fs dec' dir true prune ⟨s, []⟩).1.out ∧
      (c.apply fs dec dir true prune ⟨s, []⟩).2 =
        (c.apply fs dec' dir true prune ⟨s, []⟩).2) ∧
    (c.Oblivious s →
      (c.apply fs dec dir false prune ⟨s, []⟩).1.out =
        (c.apply fs dec' dir false prune ⟨s, []⟩).1.out ∧
      (c.apply fs dec dir false prune ⟨s, []⟩).2 =
        (c.apply fs dec' dir false prune ⟨s, []⟩).2) := by
  unfold Remote.apply
  obtain ⟨e, hb, hb'⟩ | ⟨bundles, bundles', hsame, hb, hb'⟩ := (resolvedBundles_alike h fs dir).elim
  · rw [hb, hb']
    exact ⟨⟨rfl, rfl⟩, fun _ => ⟨rfl, rfl⟩⟩
  · rw [hb, hb']
    refine ⟨?_, fun hc => ?_⟩
    · -- no request is sent, so the cluster need not be oblivious
      simp only [if_true, planLines_same hsame, Remote.printPrunePlan, Remote.prunePlan,
        desiredKeys_same hsame, and_self]
    · have hstart : c.SameSoFar s ⟨s, []⟩ ⟨s, []⟩ := ⟨[], [], rfl, rfl, rfl, rfl⟩
      have hend := (hstart.applyAll hc hsame).andThen (k := fun w =>
        if prune then c.pruneDrift bundles w else (w, .ok ())) (l := fun w =>
        if prune then c.pruneDrift bundles' w else (w, .ok ())) fun w w' h => by
          cases prune with
          | false => exact ⟨h, rfl⟩
          | true => exact h.pruneDrift hc hsame
      obtain ⟨⟨-, -, -, -, -, hout⟩, herr⟩ := hend
      exact ⟨hout, herr⟩

/-- A bundle with an overlay, under two values of the one secret. -/
theorem output_without_secrets_token :
    let fs : Files := { Files.ofBundles [("web.yaml", App.web 8080)] with stat := fun _ => .found }
    let dec (token : String) : String → Except String (GoMap String) :=
      fun _ => .ok (ExtTreeMap.ofList [("TOKEN", token)] compare)
    let run (token : String) (dryRun : Bool) := (Remote.controlPlane .healthy).apply fs (dec token)
      "apps" dryRun true (Session.start Stores.empty)
    (run "hunter2" true).2 = .ok () ∧ (run "hunter2" true).1.out = (run "swordfish" true).1.out ∧
      (run "hunter2" false).2 = .ok () ∧
      (run "hunter2" false).1.out = (run "swordfish" false).1.out := by
  intro fs dec run
  have hkeys : SameOverlayKeys (dec "hunter2") (dec "swordfish") :=
    fun _ => congrArg Except.ok (by decide +kernel)
  have hdry : (run "hunter2" true).2 = .ok () := by decide +kernel
  have hreal : (run "hunter2" false).2 = .ok () := by decide +kernel
  have hsame := output_without_secrets hkeys fs "apps" true (Remote.controlPlane .healthy)
    { stores := Stores.empty }
  clear_value fs dec
  exact ⟨hdry, hsame.1.1, hreal, (hsame.2 (controlPlane_oblivious .healthy _)).1⟩

end Smith
