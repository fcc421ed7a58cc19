import Smith.FiniteMaps

set_option autoImplicit false

/-!
# Control-plane data

Integers are Go integers without wraparound, times and durations count
nanoseconds. A Go slice or map that may be nil is an `Option`, since the JSON
encodings of nil and empty differ. A map is read through its keys only, so its
extensional value is all that a program using it can observe.
-/
namespace Smith
open Std

abbrev GoMap (V : Type) := ExtTreeMap String V

structure Resources where
  cpuMillicores : ℤ := 0
  memoryMB : ℤ := 0
  deriving DecidableEq, Repr

structure PortMapping where
  hostPort : ℤ
  containerPort : ℤ
  protocol : String := ""
  deriving DecidableEq, Repr

structure Volume where
  name : String
  path : String
  deriving DecidableEq, Repr

structure HealthCheck where
  type : String
  command : Option (List String) := none
  url : String := ""
  initialDelay : ℤ
  interval : ℤ
  threshold : ℤ
  deriving DecidableEq, Repr

structure Workload where
  id : String
  image : String
  args : Option (List String) := none
  healthCheck : Option HealthCheck := none
  ports : Option (List PortMapping) := none
  env : Option (GoMap String) := none
  resources : Option Resources := none
  replicas : ℤ := 0
  maxUnavailable : ℤ := 0
  volumes : Option (List Volume) := none

structure Node where
  id : String
  addr : String := ""
  hostIP : String := ""
  lastHeartbeat : ℤ := 0
  cpu : ℤ
  memoryMB : ℤ
  deriving DecidableEq, Repr

structure Assignment where
  workloadID : String
  nodeID : String
  parentID : String
  deriving DecidableEq, Repr

structure Move where
  replicaID : String
  fromNode : String
  toNode : String
  deriving DecidableEq, Repr

/-- CPU and memory of a request, ordered component by component. -/
def Resources.pair (q : Resources) : ℤ × ℤ := (q.cpuMillicores, q.memoryMB)

theorem Resources.pair_injective : Function.Injective Resources.pair := by
  rintro ⟨c, m⟩ ⟨c', m'⟩ h
  obtain ⟨hc, hm⟩ := Prod.mk.inj h
  exact congrArg₂ Resources.mk hc hm

/-- `sort.Slice` and `sort.Strings`: the arrangement in which no element is less
    than an earlier one, unique for the comparators used here. -/
def sortSlice {α : Type} (less : α → α → Bool) (l : List α) : List α :=
  l.insertionSort fun a b => !less b a

theorem perm_sortSlice {α : Type} (less : α → α → Bool) (l : List α) : (sortSlice less l).Perm l :=
  List.perm_insertionSort _ l

theorem mem_sortSlice {α : Type} (less : α → α → Bool) (l : List α) (a : α) :
    a ∈ sortSlice less l ↔ a ∈ l :=
  (perm_sortSlice less l).mem_iff

theorem pairwise_sortSlice {α β : Type} [LinearOrder β] {less : α → α → Bool} {key : α → β}
    (hless : ∀ a b, less a b = true ↔ key a < key b) (l : List α) :
    (sortSlice less l).Pairwise fun a b => key a ≤ key b := by
  have hle : ∀ a b, (!less b a) = true ↔ key a ≤ key b := by
    intro a b
    rw [Bool.not_eq_true', Bool.eq_false_iff, Ne, hless]
    exact ⟨fun h => (lt_or_ge (key b) (key a)).resolve_left h, fun h => h.not_gt⟩
  have htotal : Std.Total fun a b => (!less b a) = true :=
    ⟨fun a b => by simpa only [hle] using le_total (key a) (key b)⟩
  have htrans : IsTrans α fun a b => (!less b a) = true :=
    ⟨fun a b c => by simpa only [hle] using LE.le.trans⟩
  exact (List.pairwise_insertionSort _ l).imp fun {a b} h => (hle a b).mp h

/-- Comparing by a key that tells the elements apart, the arrangement does not depend
    on the order in which they are given. -/
theorem sortSlice_perm {α β : Type} [LinearOrder β] {less : α → α → Bool} {key : α → β}
    (hless : ∀ a b, less a b = true ↔ key a < key b) {l l' : List α}
    (hinj : ∀ a ∈ l, ∀ b ∈ l, key a = key b → a = b) (hp : l.Perm l') :
    sortSlice less l = sortSlice less l' := by
  have hl := perm_sortSlice less l
  have hl' := perm_sortSlice less l'
  refine List.Perm.eq_of_pairwise ?_ (pairwise_sortSlice hless l) (pairwise_sortSlice hless l')
    (hl.trans (hp.trans hl'.symm))
  intro a b ha hb hab hba
  exact hinj a (hl.mem_iff.mp ha) b (hp.mem_iff.mpr (hl'.mem_iff.mp hb)) (hab.antisymm hba)

theorem sortSlice_eq_nil {α : Type} (less : α → α → Bool) (l : List α) :
    sortSlice less l = [] ↔ l = [] := by
  constructor
  · intro h
    have hp := perm_sortSlice less l
    rw [h] at hp
    exact hp.symm.eq_nil
  · rintro rfl
    rfl

end Smith
