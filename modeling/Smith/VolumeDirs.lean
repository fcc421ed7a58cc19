import Smith.ApplyRuns

set_option autoImplicit false

/-!
# Volume directories

The agent keeps a volume in a directory of the NFS share that is named by the workload and
the volume. It recovers the workload from the replica's id, and the path is cleaned after the
names have been joined. The API checks the names of volumes and takes any workload id, so an
id with separators or dots can lead out of the share or into another workload's directory.
-/
namespace Smith
open App (ne_empty_of_nameRe)

def nfsMountRoot : String := "/var/lib/smith/nfs"

/-- A replica id without its match of `-\d+$`. -/
def trimReplicaSuffix (id : String) : String :=
  match id.toList.reverse.takeWhile Char.isDigit, id.toList.reverse.dropWhile Char.isDigit with
  | _ :: _, '-' :: base => String.ofList base.reverse
  | _, _ => id

structure DirCalls where
  mkdirAll : String → Option String
  chmod : String → Option String

def volumeDir (baseID name : String) : String := joinPaths [nfsMountRoot, baseID, name]

def ensureVolumeDir (fs : DirCalls) (baseID name : String) : Except String String :=
  let dir := volumeDir baseID name
  match fs.mkdirAll dir with
  | some e => .error s!"ensure volume dir {dir}: {e}"
  | none =>
    match fs.chmod dir with
    | some e => .error s!"chmod volume dir {dir}: {e}"
    | none => .ok dir

structure Mount where
  source : String
  dest : String
  deriving DecidableEq, Repr

def resolveVolumes (fs : DirCalls) (nfsSource : String) (wl : Workload) :
    Except String (List Mount) :=
  if (wl.volumes.getD []).length = 0 then .ok []
  else if nfsSource = "" then
    .error s!"workload {wl.id} has volumes but this node has no NFS share (SMITH_NFS_SOURCE unset)"
  else
    let baseID := trimReplicaSuffix wl.id
    (wl.volumes.getD []).mapM fun v =>
      match ensureVolumeDir fs baseID v.name with
      | .error e => .error e
      | .ok hostPath => .ok ⟨hostPath, v.path⟩

def replicaVolumeDir (w : Workload) (i : ℕ) (v : Volume) : String :=
  volumeDir (trimReplicaSuffix (replicaInstance w.id w i).wl.id) v.name

theorem ensureVolumeDir_eq {fs : DirCalls} {baseID name dir : String}
    (h : ensureVolumeDir fs baseID name = .ok dir) : dir = volumeDir baseID name := by
  simp only [ensureVolumeDir] at h
  split at h
  · exact absurd h (by simp)
  · split at h
    · exact absurd h (by simp)
    · exact (Except.ok.inj h).symm

theorem resolveVolumes_eq {fs : DirCalls} {nfsSource : String} {w : Workload} {i : ℕ}
    {mounts : List Mount}
    (h : resolveVolumes fs nfsSource (replicaInstance w.id w i).wl = .ok mounts) :
    mounts = (w.volumes.getD []).map fun v => ⟨replicaVolumeDir w i v, v.path⟩ := by
  have hvols : (replicaInstance w.id w i).wl.volumes = w.volumes := rfl
  unfold resolveVolumes at h
  rw [hvols] at h
  split_ifs at h with hlen
  · rw [List.length_eq_zero_iff.mp hlen, ← Except.ok.inj h]
    rfl
  · generalize w.volumes.getD [] = vols at h
    induction vols generalizing mounts with
    | nil => exact (Except.ok.inj h).symm
    | cons v vols ih =>
      obtain ⟨m, ms, hm, hms, rfl⟩ := mapM_cons_ok h
      split at hm
      · exact absurd hm (by simp)
      · rename_i hostPath hdir
        rw [List.map_cons, ← ih hms, ← Except.ok.inj hm, ensureVolumeDir_eq hdir]
        rfl

theorem trimReplicaSuffix_replicaID (id : String) (i : ℕ) :
    trimReplicaSuffix (replicaID id i) = id := by
  have hdigits : ∀ c ∈ (Nat.toDigits 10 i).reverse, c.isDigit = true := fun c hc =>
    Nat.isDigit_of_mem_toDigits (by decide) (by decide) (List.mem_reverse.mp hc)
  have hrev : (replicaID id i).toList.reverse =
      (Nat.toDigits 10 i).reverse ++ '-' :: id.toList.reverse := by
    simp [replicaID, Nat.toString_eq_repr, Nat.toList_repr]
  have htake : (replicaID id i).toList.reverse.takeWhile Char.isDigit =
      (Nat.toDigits 10 i).reverse := by
    rw [hrev, List.takeWhile_append_of_pos hdigits]
    simp
  have hdrop : (replicaID id i).toList.reverse.dropWhile Char.isDigit =
      '-' :: id.toList.reverse := by
    rw [hrev, List.dropWhile_append_of_pos hdigits]
    simp
  rw [trimReplicaSuffix, htake, hdrop]
  cases hne : (Nat.toDigits 10 i).reverse with
  | nil => exact absurd (List.reverse_eq_nil_iff.mp hne) (by simp)
  | cons c l => simp

theorem replicaVolumeDir_eq (w : Workload) (i : ℕ) (v : Volume) :
    replicaVolumeDir w i v = volumeDir w.id v.name := by
  rw [replicaVolumeDir, replicaInstance, trimReplicaSuffix_replicaID]

theorem PlainName.of_nameRe {name : String} (h : nameRe name) : PlainName name := by
  have hall : ∀ c ∈ name.toList, nameChar c = true :=
    List.all_eq_true.mp (Bool.and_eq_true_iff.mp h).2
  have hdot : '.' ∉ name.toList := fun hc => absurd (hall _ hc) (by decide)
  refine ⟨ne_empty_of_nameRe h, ?_, ?_, fun hc => absurd (hall _ hc) (by decide)⟩
  all_goals
    rintro rfl
    exact hdot (by decide)

/-- The names of the directory that an id leads to, cleaned against the mount root. -/
def workloadNames (id : String) : List String := pathNames (joinPath nfsMountRoot id)

theorem pathNames_volumeDir (id : String) {name : String} (h : PlainName name) :
    pathNames (volumeDir id name) = workloadNames id ++ [name] := by
  have hjoin : volumeDir id name = cleanPath (nfsMountRoot ++ "/" ++ id ++ "/" ++ name) := by
    simp [volumeDir, joinPaths, nfsMountRoot, String.append_assoc]
  have hid : joinPath nfsMountRoot id = cleanPath (nfsMountRoot ++ "/" ++ id) := rfl
  rw [hjoin, workloadNames, hid]
  exact pathNames_cleanPath_plain (by simp [nfsMountRoot]) h

/-- A plain id names a directory of its own just below the mount root. -/
theorem workloadNames_plain {id : String} (h : PlainName id) :
    workloadNames id = pathNames nfsMountRoot ++ [id] := by
  have hid : joinPath nfsMountRoot id = cleanPath (nfsMountRoot ++ "/" ++ id) := rfl
  have hroot : pathNames (cleanPath nfsMountRoot) = pathNames nfsMountRoot := by decide +kernel
  rw [workloadNames, hid, pathNames_cleanPath_plain (by simp [nfsMountRoot]) h, hroot]

theorem nameRe_of_checkVolumes {context : String} {seen : List String} {vols : List Volume}
    (h : checkVolumes context seen vols = .ok ()) {v : Volume} (hv : v ∈ vols) : nameRe v.name := by
  induction vols generalizing seen with
  | nil => exact absurd hv List.not_mem_nil
  | cons v' vols ih =>
    unfold checkVolumes at h
    split_ifs at h with hname
    obtain rfl | hv := List.mem_cons.mp hv
    · exact hname
    · exact ih h hv

theorem plainName_of_accepted {w : Workload} {st st' : Stores}
    (h : (Request.applyWorkload w).exec st = .ok st') {v : Volume}
    (hv : v ∈ w.volumes.getD []) : PlainName v.name := by
  have hvalid : validateWorkload w = .ok () := by
    cases hw : validateWorkload w with
    | ok u => rfl
    | error e =>
      simp only [Request.exec, hw] at h
      exact absurd h (by simp)
  unfold validateWorkload at hvalid
  split_ifs at hvalid with hlen
  · rw [List.length_eq_zero_iff.mp hlen] at hv
    exact absurd hv List.not_mem_nil
  · exact .of_nameRe (nameRe_of_checkVolumes hvalid hv)

/-- Both directories lie strictly below the mount root, and they are equal or nested only for
    one volume of one workload. -/
structure ContainedPrivate (w w' : Workload) (v v' : Volume) (i i' : ℕ) : Prop where
  left : Below nfsMountRoot (replicaVolumeDir w i v)
  right : Below nfsMountRoot (replicaVolumeDir w' i' v')
  separate : Overlap (replicaVolumeDir w i v) (replicaVolumeDir w' i' v') →
    w.id = w'.id ∧ v.name = v'.name

/-- Neither id leads out of the share. Two ids that lead to one directory have different volume
    names there, and neither leads into the other's volume. -/
structure Apart (id id' name name' : String) : Prop where
  left : pathNames nfsMountRoot <+: workloadNames id
  right : pathNames nfsMountRoot <+: workloadNames id'
  different : id ≠ id' → workloadNames id = workloadNames id' → name ≠ name'
  outside : id ≠ id' → ¬ workloadNames id ++ [name] <+: workloadNames id'
  outside' : id ≠ id' → ¬ workloadNames id' ++ [name'] <+: workloadNames id

theorem below_replicaVolumeDir_iff {w : Workload} {v : Volume} (h : PlainName v.name) (i : ℕ) :
    Below nfsMountRoot (replicaVolumeDir w i v) ↔
      pathNames nfsMountRoot <+: workloadNames w.id := by
  rw [Below, replicaVolumeDir_eq, pathNames_volumeDir _ h, List.prefix_concat_iff]
  constructor
  · rintro ⟨heq | hprefix, hne⟩
    · exact absurd heq.symm hne
    · exact hprefix
  · intro hprefix
    exact ⟨.inr hprefix, fun heq => not_append_prefix_self _ _ (heq ▸ hprefix)⟩

/-- The directories are contained and private exactly if the ids keep apart. -/
theorem contained_private_iff_apart {w w' : Workload} {v v' : Volume} {st₁ st₁' st₂ st₂' : Stores}
    (hw : (Request.applyWorkload w).exec st₁ = .ok st₁')
    (hw' : (Request.applyWorkload w').exec st₂ = .ok st₂')
    (hv : v ∈ w.volumes.getD []) (hv' : v' ∈ w'.volumes.getD []) (i i' : ℕ) :
    ContainedPrivate w w' v v' i i' ↔ Apart w.id w'.id v.name v'.name := by
  have hname := plainName_of_accepted hw hv
  have hname' := plainName_of_accepted hw' hv'
  have hoverlap : Overlap (replicaVolumeDir w i v) (replicaVolumeDir w' i' v') ↔
      (workloadNames w.id = workloadNames w'.id ∧ v.name = v'.name ∨
        workloadNames w.id ++ [v.name] <+: workloadNames w'.id) ∨
      (workloadNames w'.id = workloadNames w.id ∧ v'.name = v.name ∨
        workloadNames w'.id ++ [v'.name] <+: workloadNames w.id) := by
    rw [Overlap, replicaVolumeDir_eq, replicaVolumeDir_eq, pathNames_volumeDir _ hname,
      pathNames_volumeDir _ hname', append_prefix_append_iff, append_prefix_append_iff]
  have hbelow := below_replicaVolumeDir_iff (w := w) hname i
  have hbelow' := below_replicaVolumeDir_iff (w := w') hname' i'
  constructor
  · intro h
    refine ⟨hbelow.mp h.left, hbelow'.mp h.right, ?_, ?_, ?_⟩
    · exact fun hne hsame heq => hne (h.separate (hoverlap.mpr (.inl (.inl ⟨hsame, heq⟩)))).1
    · exact fun hne hin => hne (h.separate (hoverlap.mpr (.inl (.inr hin)))).1
    · exact fun hne hin => hne (h.separate (hoverlap.mpr (.inr (.inr hin)))).1
  · intro h
    refine ⟨hbelow.mpr h.left, hbelow'.mpr h.right, fun ho => ?_⟩
    by_cases hid : w.id = w'.id
    · refine ⟨hid, ?_⟩
      rw [hoverlap, hid] at ho
      obtain (⟨-, heq⟩ | hin) | (⟨-, heq⟩ | hin) := ho
      · exact heq
      · exact absurd hin (not_append_prefix_self _ _)
      · exact heq.symm
      · exact absurd hin (not_append_prefix_self _ _)
    · obtain (⟨hsame, heq⟩ | hin) | (⟨hsame, heq⟩ | hin) := hoverlap.mp ho
      · exact absurd heq (h.different hid hsame)
      · exact absurd hin (h.outside hid)
      · exact absurd heq.symm (h.different hid hsame.symm)
      · exact absurd hin (h.outside' hid)

/-- Ids that are plain names keep apart, whatever their volumes are called. -/
theorem Apart.of_plain {id id' name name' : String} (h : PlainName id) (h' : PlainName id') :
    Apart id id' name name' := by
  have hlen : ∀ (a b n : String), ¬ pathNames nfsMountRoot ++ [a] ++ [n] <+:
      pathNames nfsMountRoot ++ [b] := by
    intro a b n hin
    have hle := hin.length_le
    simp only [List.length_append, List.length_singleton] at hle
    omega
  refine ⟨?_, ?_, fun hne hsame => ?_, fun _ => ?_, fun _ => ?_⟩
  · rw [workloadNames_plain h]
    exact List.prefix_append _ _
  · rw [workloadNames_plain h']
    exact List.prefix_append _ _
  · rw [workloadNames_plain h, workloadNames_plain h', List.append_cancel_left_eq] at hsame
    exact absurd (List.singleton_inj.mp hsame) hne
  · rw [workloadNames_plain h, workloadNames_plain h']
    exact hlen id id' name
  · rw [workloadNames_plain h, workloadNames_plain h']
    exact hlen id' id name'

private def withVolume (id name : String) : Workload :=
  { id := id, image := "pg", volumes := some [⟨name, "/data"⟩] }

private def noStores : Stores := ⟨.new, .new, ⟨∅⟩⟩

private def accepted (id name : String) : Bool :=
  ((Request.applyWorkload (withVolume id name)).exec noStores).isOk

/-- Two plain ids, whose volumes have the same name. -/
theorem contained_private_iff_apart_plain :
    ContainedPrivate (withVolume "web" "data") (withVolume "db" "data") ⟨"data", "/data"⟩
      ⟨"data", "/data"⟩ 0 0 := by
  have hweb : (Request.applyWorkload (withVolume "web" "data")).exec noStores = .ok _ := rfl
  have hdb : (Request.applyWorkload (withVolume "db" "data")).exec noStores = .ok _ := rfl
  refine (contained_private_iff_apart hweb hdb List.mem_cons_self List.mem_cons_self 0 0).mpr ?_
  exact Apart.of_plain (.of_nameRe (by decide)) (.of_nameRe (by decide))

/-- The id `..` puts a volume next to the share, and the volume `x` of `web/data` lies within
    the volume `data` of `web`. -/
theorem volume_dirs_escape_and_nest :
    accepted ".." "data" ∧ accepted "web" "data" ∧ accepted "web/data" "x" ∧
    replicaVolumeDir (withVolume ".." "data") 0 ⟨"data", "/data"⟩ = "/var/lib/smith/data" ∧
    ¬ Below nfsMountRoot (replicaVolumeDir (withVolume ".." "data") 0 ⟨"data", "/data"⟩) ∧
    Overlap (replicaVolumeDir (withVolume "web" "data") 0 ⟨"data", "/data"⟩)
      (replicaVolumeDir (withVolume "web/data" "x") 0 ⟨"x", "/data"⟩) := by
  unfold Below Overlap
  decide +kernel

end Smith
