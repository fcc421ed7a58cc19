import Smith.Types

set_option autoImplicit false

/-!
# Desired state

The in-memory workload store and its expansion into replica instances. A replica
id determines its workload and its index, because the index holds no dash.
-/
namespace Smith
open FiniteMaps Std

/-- Workloads are stored under their own id, with an id and an image. -/
structure Store where
  workloads : GoMap Workload
  valid : ∀ (id : String) (w : Workload), workloads[id]? = some w →
    w.id = id ∧ w.id ≠ "" ∧ w.image ≠ ""

namespace Store

def new : Store := ⟨∅, by simp⟩

def add (s : Store) (w : Workload) : Except String Store :=
  if hid : w.id = "" then .error "workload ID cannot be empty"
  else if himage : w.image = "" then .error s!"workload {w.id}: image cannot be empty"
  else .ok {
    workloads := s.workloads.insert w.id w
    valid := by
      intro id v h
      rw [lookup_insert] at h
      split_ifs at h with he
      · obtain rfl := Option.some.inj h
        exact ⟨he, hid, himage⟩
      · exact s.valid id v h }

def remove (s : Store) (id : String) : Store where
  workloads := s.workloads.erase id
  valid a w h := by
    rw [lookup_erase] at h
    split_ifs at h
    exact s.valid a w h

def list (s : Store) : GoMap Workload := s.workloads

theorem list_add {s s' : Store} {w : Workload} (h : s.add w = .ok s') :
    s'.list = s.list.insert w.id w := by
  unfold add at h
  split_ifs at h
  rw [← Except.ok.inj h]
  rfl

end Store

/-- One replica of a workload: a derived single-container workload and the id of
    the workload it belongs to. -/
structure ReplicaInstance where
  wl : Workload
  parent : String

def replicaID (id : String) (i : ℕ) : String := id ++ "-" ++ toString i

def replicaCount (w : Workload) : ℕ := (if w.replicas < 1 then 1 else w.replicas).toNat

def replicaInstance (id : String) (w : Workload) (i : ℕ) : ReplicaInstance where
  wl := { w with id := replicaID id i, replicas := 0 }
  parent := id

def expand (desired : GoMap Workload) : GoMap ReplicaInstance :=
  desired.foldl (fun out id w =>
    (List.range (replicaCount w)).foldl (fun out i =>
      out.insert (replicaInstance id w i).wl.id (replicaInstance id w i)) out) ∅

def sortedReplicaIDs (desired : GoMap ReplicaInstance) : List String :=
  sortSlice (fun a b => a < b) desired.keys

def instances (desired : GoMap ReplicaInstance) : List ReplicaInstance :=
  (sortedReplicaIDs desired).filterMap fun id => desired[id]?

def requestOf (w : Workload) : Resources :=
  match w.resources with
  | none => {}
  | some r => r

def maxUnavailable (w : Workload) : ℤ := if w.maxUnavailable < 1 then 1 else w.maxUnavailable

/-- The container-defining fields that the spec hash covers. -/
structure Canonical where
  image : String
  args : Option (List String)
  env : Option (GoMap String)
  ports : Option (List PortMapping)
  resources : Option Resources
  volumes : Option (List Volume)

def canonical (w : Workload) : Canonical :=
  ⟨w.image, w.args, w.env, w.ports, w.resources, w.volumes⟩

/-- `digest` stands for the hex SHA-256 of the JSON encoding. -/
def specHash (digest : Canonical → String) (w : Workload) : String := digest (canonical w)

theorem append_dash_cancel {a b x y : List Char} (hx : '-' ∉ x) (hy : '-' ∉ y)
    (h : a ++ '-' :: x = b ++ '-' :: y) : a = b ∧ x = y := by
  obtain ⟨c, rfl, hc⟩ | ⟨c, rfl, hc⟩ := List.append_eq_append_iff.mp h
  all_goals
    cases c with
    | nil =>
      rw [List.nil_append, List.cons.injEq] at hc
      simp [hc.2]
    | cons d c =>
      rw [List.cons_append, List.cons.injEq] at hc
      simp [hc.2] at hx hy

theorem replicaID_injective {id id' : String} {i j : ℕ} (h : replicaID id i = replicaID id' j) :
    id = id' ∧ i = j := by
  have hdash : ∀ n : ℕ, '-' ∉ Nat.toDigits 10 n := by
    intro n hm
    have hd := Nat.isDigit_of_mem_toDigits (by decide) (by decide) hm
    revert hd
    decide
  have hl := congrArg String.toList h
  simp only [replicaID, String.toList_append, Nat.toString_eq_repr, Nat.toList_repr,
    List.append_assoc] at hl
  obtain ⟨hid, hdigits⟩ := append_dash_cancel (hdash i) (hdash j) hl
  refine ⟨String.toList_inj.mp hid, ?_⟩
  calc
    i = Nat.ofDigitChars 10 (Nat.toDigits 10 i) 0 := Nat.ofDigitChars_ten_toDigits.symm
    _ = j := by rw [hdigits, Nat.ofDigitChars_ten_toDigits]

/-- The pairs that expansion writes, workload by workload. -/
def expansion (desired : GoMap Workload) : List (String × ReplicaInstance) :=
  desired.toList.flatMap fun e => (List.range (replicaCount e.2)).map fun i =>
    (replicaID e.1 i, replicaInstance e.1 e.2 i)

theorem expand_eq (desired : GoMap Workload) :
    expand desired = (expansion desired).foldl (fun out e => out.insert e.1 e.2) ∅ := by
  rw [expand, ExtTreeMap.foldl_eq_foldl_toList, expansion, List.foldl_flatMap]
  simp only [List.foldl_map]
  rfl

theorem mem_expansion (desired : GoMap Workload) (r : String) (inst : ReplicaInstance) :
    (r, inst) ∈ expansion desired ↔ ∃ (id : String) (w : Workload) (i : ℕ),
      desired[id]? = some w ∧ i < replicaCount w ∧ r = replicaID id i ∧
        inst = replicaInstance id w i := by
  simp only [expansion, List.mem_flatMap, List.mem_map, List.mem_range, Prod.exists,
    ExtTreeMap.mem_toList_iff_getElem?_eq_some, Prod.mk.injEq]
  constructor
  · rintro ⟨id, w, hw, i, hi, rfl, rfl⟩
    exact ⟨id, w, i, hw, hi, rfl, rfl⟩
  · rintro ⟨id, w, i, hw, hi, rfl, rfl⟩
    exact ⟨id, w, hw, i, hi, rfl, rfl⟩

theorem expand_lookup (desired : GoMap Workload) (r : String) (inst : ReplicaInstance) :
    (expand desired)[r]? = some inst ↔ ∃ (id : String) (w : Workload) (i : ℕ),
      desired[id]? = some w ∧ i < replicaCount w ∧ r = replicaID id i ∧
        inst = replicaInstance id w i := by
  have hfun : ∀ e ∈ expansion desired, ∀ d ∈ expansion desired, e.1 = d.1 → e.2 = d.2 := by
    intro e he d hd heq
    obtain ⟨id, w, i, hw, -, hr, hi⟩ := (mem_expansion desired e.1 e.2).mp he
    obtain ⟨id', w', j, hw', -, hr', hj⟩ := (mem_expansion desired d.1 d.2).mp hd
    obtain ⟨rfl, rfl⟩ := replicaID_injective (hr.symm.trans (heq.trans hr'))
    obtain rfl := Option.some.inj (hw.symm.trans hw')
    rw [hi, hj]
  rw [expand_eq, lookup_foldl_insert hfun, mem_expansion]
  simp

theorem expand_keyed {desired : GoMap Workload} {r : String} {inst : ReplicaInstance}
    (h : (expand desired)[r]? = some inst) : inst.wl.id = r := by
  obtain ⟨id, w, i, -, -, rfl, rfl⟩ := (expand_lookup desired r inst).mp h
  rfl

theorem expand_update {desired : GoMap Workload} {w old : Workload}
    (hold : desired[w.id]? = some old) (hcount : replicaCount w = replicaCount old) {r : String}
    {inst : ReplicaInstance} (h : (expand (desired.insert w.id w))[r]? = some inst) :
    (inst.parent ≠ w.id ∧ (expand desired)[r]? = some inst) ∨
    ∃ i, inst = replicaInstance w.id w i ∧
      (expand desired)[r]? = some (replicaInstance w.id old i) := by
  obtain ⟨id, v, i, hv, hi, rfl, rfl⟩ := (expand_lookup _ r inst).mp h
  rw [lookup_insert] at hv
  split_ifs at hv with hid
  · subst hid
    obtain rfl := Option.some.inj hv
    refine .inr ⟨i, rfl, (expand_lookup _ _ _).mpr ⟨w.id, old, i, hold, ?_, rfl, rfl⟩⟩
    rwa [← hcount]
  · exact .inl ⟨Ne.symm hid, (expand_lookup _ _ _).mpr ⟨id, v, i, hv, hi, rfl, rfl⟩⟩

theorem expand_update_ne_none {desired : GoMap Workload} {w old : Workload}
    (hold : desired[w.id]? = some old) (hcount : replicaCount w = replicaCount old) {r : String}
    (h : (expand desired)[r]? ≠ none) : (expand (desired.insert w.id w))[r]? ≠ none := by
  obtain ⟨inst, hinst⟩ := Option.ne_none_iff_exists'.mp h
  obtain ⟨id, v, i, hv, hi, rfl, rfl⟩ := (expand_lookup _ r inst).mp hinst
  by_cases hid : w.id = id
  · subst hid
    obtain rfl := Option.some.inj (hv.symm.trans hold)
    rw [(expand_lookup _ _ (replicaInstance w.id w i)).mpr
      ⟨w.id, w, i, lookup_insert_self _ _ _, hcount.symm ▸ hi, rfl, rfl⟩]
    exact Option.some_ne_none _
  · rw [(expand_lookup _ _ (replicaInstance id v i)).mpr
      ⟨id, v, i, by rw [lookup_insert_ne _ _ hid, hv], hi, rfl, rfl⟩]
    exact Option.some_ne_none _

section Instances
variable (desired : GoMap Workload)

theorem map_id_instances :
    (instances (expand desired)).map (fun inst => inst.wl.id) = sortedReplicaIDs (expand desired) := by
  have hkeys : ∀ r ∈ sortedReplicaIDs (expand desired),
      (expand desired)[r]?.map (fun inst => inst.wl.id) = some r := by
    intro r hr
    rw [sortedReplicaIDs, mem_sortSlice, mem_keys_iff, Option.ne_none_iff_exists'] at hr
    obtain ⟨inst, hinst⟩ := hr
    rw [hinst, Option.map_some, expand_keyed hinst]
  rw [instances, List.map_filterMap, List.filterMap_congr hkeys, List.filterMap_some]

theorem nodup_instances : ((instances (expand desired)).map fun inst => inst.wl.id).Nodup := by
  rw [map_id_instances, sortedReplicaIDs, (perm_sortSlice _ _).nodup_iff]
  exact ExtTreeMap.nodup_keys

theorem mem_instances (inst : ReplicaInstance) :
    inst ∈ instances (expand desired) ↔ (expand desired)[inst.wl.id]? = some inst := by
  rw [instances, List.mem_filterMap]
  constructor
  · rintro ⟨r, -, hr⟩
    rw [expand_keyed hr]
    exact hr
  · intro h
    refine ⟨inst.wl.id, ?_, h⟩
    rw [sortedReplicaIDs, mem_sortSlice]
    exact mem_keys_of_lookup h

end Instances
end Smith
