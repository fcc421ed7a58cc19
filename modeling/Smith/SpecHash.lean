import Smith.JsonText
import Smith.SqliteStore
import Smith.VolumeDirs

set_option autoImplicit false

/-!
# What the spec hash covers

A container is recreated when the hash of its workload changes, and an agent builds it from
the workload that is pushed as JSON. The two texts are written from different lists of fields:
the hash leaves out the replica counts, the id and the probe, the push leaves out what is empty.
Everything the agent passes on to the runtime is among the hashed fields.
-/
namespace Smith
open FiniteMaps Json Overwrites
open Std (ExtTreeMap)

section Hash

/-- The entries of a map, as they come in a range over it, are written in the order of the keys. -/
def marshalEntries (entries : List (String × String)) : Value :=
  .obj ((sortSlice (fun a b => a.1 < b.1) entries).map fun e => (e.1, .str e.2))

/-- The hashed struct, with the order in which the environment is ranged over. -/
def Canonical.marshalIn (entries : List (String × String)) (c : Canonical) : Value :=
  .obj [("image", .str c.image),
    ("args", nilable (fun l => .arr (l.map .str)) c.args),
    ("env", nilable (fun _ => marshalEntries entries) c.env),
    ("ports", nilable (fun l => .arr (l.map PortMapping.marshal)) c.ports),
    ("resources", nilable Resources.marshal c.resources),
    ("volumes", nilable (fun l => .arr (l.map Volume.marshal)) c.volumes)]

def Canonical.marshal (c : Canonical) : Value := c.marshalIn (c.env.getD ∅).toList

def specText (w : Workload) : String := encoding.marshal (canonical w).marshal

def specDigest (sha256 : String → String) (c : Canonical) : String :=
  sha256 (encoding.marshal c.marshal)

def specHashIn (sha256 : String → String) (entries : List (String × String)) (w : Workload) :
    String :=
  sha256 (encoding.marshal ((canonical w).marshalIn entries))

variable {entries : List (String × String)}

theorem marshalEntries_perm {m : GoMap String} (h : entries.Perm m.toList) :
    marshalEntries entries = marshalEnv m := by
  have hkeys : ∀ a ∈ entries, ∀ b ∈ entries, a.1 = b.1 → a = b := by
    intro a ha b hb hab
    rw [h.mem_iff, ExtTreeMap.mem_toList_iff_getElem?_eq_some] at ha hb
    rw [hab] at ha
    exact Prod.ext hab (Option.some.inj (ha.symm.trans hb))
  have hsorted : sortSlice (fun a b => a.1 < b.1) m.toList = m.toList := by
    refine List.Pairwise.insertionSort_eq (ExtTreeMap.ordered_keys_toList.imp fun {a b} hab => ?_)
    rw [Bool.not_eq_true', decide_eq_false_iff_not]
    exact (compare_lt_iff_lt.mp hab).not_gt
  rw [marshalEntries, sortSlice_perm (fun a b => decide_eq_true_iff) hkeys h, hsorted]
  rfl

theorem Canonical.marshalIn_perm {c : Canonical} (h : entries.Perm (c.env.getD ∅).toList) :
    c.marshalIn entries = c.marshal := by
  rw [Canonical.marshal, marshalIn, marshalIn, marshalEntries_perm h, marshalEntries_perm (.refl _)]

theorem Canonical.marshal_injective : Function.Injective Canonical.marshal := by
  have hlist {β : Type} {enc : β → Value} {dec : Value → Except String β}
      (h : ∀ b, dec (enc b) = .ok b) :
      Function.Injective (nilable fun l : List β => Value.arr (l.map enc)) :=
    nilable_injective (fun l l' hl => List.map_injective_iff.mpr (injective_of_decode h)
      (Value.arr.inj hl)) (fun _ => by simp)
  have henv : Function.Injective (nilable marshalEnv) := by
    refine nilable_injective (fun m m' hm => ?_) (fun m => by simp [marshalEnv])
    have hread := @map_obj String .str string (fun _ => rfl) m
    rw [marshalEnv, marshalEnv] at hm
    rw [hm, @map_obj String .str string (fun _ => rfl) m', Except.ok.injEq,
      Option.some.injEq] at hread
    exact hread.symm
  have hresources : Function.Injective (nilable Resources.marshal) :=
    nilable_injective (injective_of_decode Resources.unmarshal_marshal)
      (fun r => by simp [Resources.marshal])
  have hentries (c : Canonical) :
      nilable (fun _ => marshalEntries (c.env.getD ∅).toList) c.env = nilable marshalEnv c.env := by
    cases c.env with
    | none => rfl
    | some m => exact marshalEntries_perm (.refl _)
  intro c c' h
  simp only [marshal, marshalIn, hentries, Value.obj.injEq, Value.str.injEq, List.cons.injEq,
    Prod.mk.injEq, true_and, and_true] at h
  obtain ⟨himage, hargs, he, hports, hres, hvolumes⟩ := h
  obtain ⟨image, args, env, ports, resources, volumes⟩ := c
  obtain ⟨image', args', env', ports', resources', volumes'⟩ := c'
  have hstr : ∀ s, string (.str s) = .ok s := fun _ => rfl
  rw [Canonical.mk.injEq]
  exact ⟨himage, hlist hstr hargs, henv he, hlist PortMapping.unmarshal_marshal hports,
    hresources hres, hlist Volume.unmarshal_marshal hvolumes⟩

end Hash

section Push
variable (dur : Durations)

def Workload.fields (w : Workload) : List (String × Value) :=
  [("id", .str w.id), ("image", .str w.image), ("args", marshalArgs w.args)] ++
    omitEmpty w.healthCheck.isNone "health_check"
      (nilable (HealthCheck.marshal dur) w.healthCheck) ++
    omitEmpty (w.ports.getD []).isEmpty "ports"
      (.arr ((w.ports.getD []).map PortMapping.marshal)) ++
    omitEmpty ((w.env.getD ∅).size = 0) "env" (marshalEnv (w.env.getD ∅)) ++
    omitEmpty w.resources.isNone "resources" (nilable Resources.marshal w.resources) ++
    omitEmpty (w.replicas = 0) "replicas" (.num w.replicas) ++
    omitEmpty (w.maxUnavailable = 0) "max_unavailable" (.num w.maxUnavailable) ++
    omitEmpty (w.volumes.getD []).isEmpty "volumes"
      (.arr ((w.volumes.getD []).map Volume.marshal))

def Workload.marshal (w : Workload) : Value := .obj (w.fields dur)

def Workload.unmarshal : Value → Except String Workload :=
  object { id := "", image := "" } fun fields =>
    return {
      id := ← field string "" "id" fields
      image := ← field string "" "image" fields
      args := ← field (slice string) none "args" fields
      healthCheck := ← field (pointer (HealthCheck.unmarshal dur)) none "health_check" fields
      ports := ← field (slice PortMapping.unmarshal) none "ports" fields
      env := ← field (Json.map string) none "env" fields
      resources := ← field (pointer Resources.unmarshal) none "resources" fields
      replicas := ← field int 0 "replicas" fields
      maxUnavailable := ← field int 0 "max_unavailable" fields
      volumes := ← field (slice Volume.unmarshal) none "volumes" fields }

section Fields
variable {dur} (w : Workload) {α : Type} (dec : Value → Except String α) (zero : α)

/-- A list that is left out where it is empty. -/
theorem slice_of_nonempty {β : Type} {enc : β → Value} {dec : Value → Except String β}
    (h : ∀ b, dec (enc b) = .ok b) (l : Option (List β)) :
    (if (l.getD []).isEmpty then .ok none else slice dec (.arr ((l.getD []).map enc))) =
      .ok (l.filter fun l => 0 < l.length) := by
  rcases l with - | (- | ⟨b, l⟩)
  · rfl
  · rfl
  · exact slice_arr h (b :: l)

theorem field_ports : field (slice PortMapping.unmarshal) none "ports" (w.fields dur) =
    .ok (w.ports.filter fun l => 0 < l.length) := by
  unfold Workload.fields
  simp (disch := decide) only [field_omitEmpty_ne, field_omitEmpty_self]
  exact slice_of_nonempty PortMapping.unmarshal_marshal w.ports

theorem field_volumes : field (slice Volume.unmarshal) none "volumes" (w.fields dur) =
    .ok (w.volumes.filter fun l => 0 < l.length) := by
  unfold Workload.fields
  simp (disch := decide) only [field_omitEmpty_ne, field_omitEmpty_self]
  exact slice_of_nonempty Volume.unmarshal_marshal w.volumes

theorem field_env : field (Json.map string) none "env" (w.fields dur) =
    .ok (w.env.filter fun m => 0 < m.size) := by
  unfold Workload.fields
  simp (disch := decide) only [field_omitEmpty_ne, field_omitEmpty_self]
  cases w.env with
  | none => rfl
  | some m =>
    rw [Option.getD_some, Option.filter_some, marshalEnv,
      @map_obj String .str string (fun _ => rfl) m]
    by_cases hm : m.size = 0
    · rw [hm]
      rfl
    · simp [hm, Nat.pos_of_ne_zero hm]

/-- A number that is left out where it is zero. -/
theorem int_of_nonzero (n : ℤ) :
    (if decide (n = 0) then .ok 0 else int (.num n)) = Except.ok (ε := String) n := by
  by_cases h : n = 0
  · rw [h]
    rfl
  · rw [if_neg (by simpa using h)]
    rfl

theorem field_replicas : field int 0 "replicas" (w.fields dur) = .ok w.replicas := by
  unfold Workload.fields
  simp (disch := decide) only [field_omitEmpty_ne, field_omitEmpty_self]
  exact int_of_nonzero w.replicas

theorem field_maxUnavailable :
    field int 0 "max_unavailable" (w.fields dur) = .ok w.maxUnavailable := by
  unfold Workload.fields
  simp (disch := decide) only [field_omitEmpty_ne, field_omitEmpty_self]
  exact int_of_nonzero w.maxUnavailable

theorem field_args : field (slice string) none "args" (w.fields dur) = .ok w.args := by
  unfold Workload.fields
  simp (disch := decide) only [field_omitEmpty_ne]
  cases hargs : w.args with
  | none => rfl
  | some l => exact @slice_arr String .str string (fun _ => rfl) l

theorem field_resources : field (pointer Resources.unmarshal) none "resources" (w.fields dur) =
    .ok w.resources := by
  unfold Workload.fields
  simp (disch := decide) only [field_omitEmpty_ne, field_omitEmpty_self]
  cases w.resources with
  | none => rfl
  | some r => exact congrArg (Except.map some) (Resources.unmarshal_marshal r)

theorem field_healthCheck :
    field (pointer (HealthCheck.unmarshal dur)) none "health_check" (w.fields dur) =
      .ok (w.healthCheck.map HealthCheck.normalize) := by
  unfold Workload.fields
  simp (disch := decide) only [field_omitEmpty_ne, field_omitEmpty_self]
  cases w.healthCheck with
  | none => rfl
  | some hc => exact congrArg (Except.map some) (HealthCheck.unmarshal_marshal dur hc)

end Fields

/-- A pushed workload arrives with nil for what was empty. -/
theorem Workload.unmarshal_marshal (w : Workload) :
    Workload.unmarshal dur (w.marshal dur) = .ok w.normalize := by
  have hid : field string "" "id" (w.fields dur) = .ok w.id := by
    unfold Workload.fields
    simp (disch := decide) only [field_omitEmpty_ne]
    rfl
  have himage : field string "" "image" (w.fields dur) = .ok w.image := by
    unfold Workload.fields
    simp (disch := decide) only [field_omitEmpty_ne]
    rfl
  simp only [Workload.unmarshal, Workload.marshal, object, hid, himage, field_args, field_ports,
    field_volumes, field_env, field_resources, field_healthCheck, field_replicas,
    field_maxUnavailable]
  rfl

def pushBody (w : Workload) : String := encoding.marshal (w.marshal dur)

theorem unmarshal_pushBody (w : Workload) :
    encoding.unmarshal (pushBody dur w) >>= Workload.unmarshal dur = .ok w.normalize := by
  rw [pushBody, encoding.unmarshal_marshal]
  exact w.unmarshal_marshal dur

end Push

section Assign
variable {Image Network : Type}

structure RunOptions (Image Network : Type) where
  id : String
  image : Image
  args : Option (List String)
  ports : Option (List PortMapping)
  cni : Option Network
  env : Option (GoMap String)
  resources : Option Resources
  mounts : List Mount

/-- What an agent has and meets when it is assigned a workload. -/
structure RunAgent (Image Network : Type) where
  nfsSource : String
  dirs : DirCalls
  getImage : String → Except String Image
  pullImage : String → Except String Image
  cni : Option Network

/-- The options that `RunContainer` is called with. There is no call where the image can
    neither be found nor be pulled. -/
def RunAgent.handleAssign (a : RunAgent Image Network) (dur : Durations) (body : String) :
    Except String (Option (RunOptions Image Network)) := do
  let wl ← encoding.unmarshal body >>= Workload.unmarshal dur
  let mounts ← resolveVolumes a.dirs a.nfsSource wl
  let options (image : Image) : RunOptions Image Network := {
    id := wl.id, image := image, args := wl.args, ports := wl.ports, cni := a.cni
    env := wl.env, resources := wl.resources, mounts := mounts }
  match a.getImage wl.image with
  | .ok image => return some (options image)
  | .error _ =>
    match a.pullImage wl.image with
    | .ok image => return some (options image)
    | .error _ => return none

/-- The options depend on the id and the hashed fields only. -/
theorem handleAssign_pushBody_congr (a : RunAgent Image Network) (dur : Durations)
    {w w' : Workload} (hid : w.id = w'.id) (h : canonical w = canonical w') :
    a.handleAssign dur (pushBody dur w) = a.handleAssign dur (pushBody dur w') := by
  obtain ⟨id, image, args, hc, ports, env, resources, replicas, unavailable, volumes⟩ := w
  obtain ⟨id', image', args', hc', ports', env', resources', replicas', unavailable',
    volumes'⟩ := w'
  simp only [canonical, Canonical.mk.injEq] at hid h
  obtain ⟨rfl, rfl, rfl, rfl, rfl, rfl⟩ := h
  subst hid
  unfold RunAgent.handleAssign
  rw [unmarshal_pushBody, unmarshal_pushBody]
  rfl

/-- Workloads with one id and one hash are run with the same options, and the hash changes
    neither with the counts, the id and the probe nor with the order of the environment. -/
theorem spec_hash_covers_run_options (sha256 : String → String) (dur : Durations) :
    (∀ w w' : Workload, w.id = w'.id →
      (sha256 (specText w) = sha256 (specText w') → specText w = specText w') →
      specHash (specDigest sha256) w = specHash (specDigest sha256) w' →
      ∀ (Image Network : Type) (a : RunAgent Image Network),
        a.handleAssign dur (pushBody dur w) = a.handleAssign dur (pushBody dur w')) ∧
    (∀ (w : Workload) (id : String) (hc : Option HealthCheck) (replicas maxUnavailable : ℤ),
      specHash (specDigest sha256) { w with
        id := id, healthCheck := hc, replicas := replicas, maxUnavailable := maxUnavailable } =
          specHash (specDigest sha256) w) ∧
    ∀ (w : Workload) (entries : List (String × String)), entries.Perm (w.env.getD ∅).toList →
      specHashIn sha256 entries w = specHash (specDigest sha256) w := by
  refine ⟨fun w w' hid hsha h Image Network a => ?_, fun w id hc replicas maxUnavailable => rfl,
    fun w entries hentries => ?_⟩
  · have hspec := encoding.marshal_injective (hsha h)
    exact handleAssign_pushBody_congr a dur hid (Canonical.marshal_injective hspec)
  · rw [specHashIn, Canonical.marshalIn_perm hentries]
    rfl

/-- Durations as numbers of nanoseconds. -/
private def nanoseconds : Durations where
  text d := String.ofList (intText d)
  parse s :=
    match readInt s.toList with
    | some (d, []) => .ok d
    | _ => .error "time: invalid duration"
  parse_text d := by
    have hread := readInt_intText d (s := []) (by simp [Ends])
    rw [List.append_nil] at hread
    simp only [String.toList_ofList, hread]

private def postgres : Workload :=
  { id := "postgres-0", image := "postgres:17", args := some ["-c", "fsync=on"]
    ports := some [⟨5432, 5432, ""⟩], env := some (ExtTreeMap.ofList [("PGDATA", "/data")] compare)
    resources := some ⟨500, 1024⟩, volumes := some [⟨"data", "/data"⟩] }

private def probed : Workload :=
  { postgres with replicas := 3, healthCheck := some ⟨"exec", some ["pg_isready"], "", 5, 10, 3⟩ }

private def shareAgent : RunAgent String String where
  nfsSource := "nas:/share"
  dirs := ⟨fun _ => none, fun _ => none⟩
  getImage name := .ok name
  pullImage name := .error s!"pull {name}"
  cni := some "bridge"

/-- A replica that is given a probe is run as before, on a node with the cluster's share. -/
theorem spec_hash_covers_run_options_probed :
    specHash (specDigest id) postgres = specHash (specDigest id) probed ∧
      (shareAgent.handleAssign nanoseconds (pushBody nanoseconds postgres)).toOption.isSome ∧
      shareAgent.handleAssign nanoseconds (pushBody nanoseconds postgres) =
        shareAgent.handleAssign nanoseconds (pushBody nanoseconds probed) := by
  obtain ⟨hcovers, hignores, -⟩ := spec_hash_covers_run_options id nanoseconds
  have hhash := hignores postgres "postgres-0" probed.healthCheck 3 0
  refine ⟨hhash.symm, ?_, hcovers postgres probed rfl id hhash.symm _ _ shareAgent⟩
  unfold RunAgent.handleAssign
  rw [unmarshal_pushBody]
  decide +kernel

end Assign
end Smith
