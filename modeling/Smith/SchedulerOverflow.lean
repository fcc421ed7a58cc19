import Smith.Placement
import Mathlib.Data.BitVec

set_option autoImplicit false

/-!
# The scheduler's sums in 64-bit words

The scheduler adds requests to committed loads in machine integers and compares the
sums afterwards. A sum above the largest word wraps to a negative one, which is within
every capacity. The sums are words here, read signed where they are compared; the loads
and requests themselves are integers.
-/
namespace Smith
open FiniteMaps Binary64
open Std (ExtTreeMap)

/-- An integer in a 64-bit word. -/
def word : ℤ →+* BitVec 64 := Int.castRingHom (BitVec 64)

def maxInt : ℤ := 2 ^ 63 - 1

theorem toInt_word (a : ℤ) : (word a).toInt = a.bmod (2 ^ 64) := by
  change (BitVec.ofInt 64 a).toInt = _
  rw [BitVec.toInt_ofInt]

theorem toInt_word_of_le {a : ℤ} (h : 0 ≤ a) (hmax : a ≤ maxInt) : (word a).toInt = a := by
  rw [toInt_word]
  unfold maxInt at hmax
  exact Int.bmod_eq_of_le (by omega) (by omega)

/-- `schedulable` with its product in a word. The conversion to `int` is in range. -/
def schedulable64 (n : Node) : ℤ × ℤ :=
  let share := float64 (1 - schedulableReserveFraction)
  (truncate (float64 (float64 (word (n.cpu * 1000)).toInt * share)),
    truncate (float64 (float64 (word n.memoryMB).toInt * share)))

def freeFraction64 (cap : ℤ) (alloc req : BitVec 64) : ℚ :=
  if 0 < cap then float64 (float64 (word cap - alloc - req).toInt / float64 cap) else 0

def candidate64 (allocCPU allocMem : GoMap (BitVec 64)) (siblings : GoMap ℤ) (req : Resources)
    (n : Node) : Option Candidate :=
  let (capCPU, capMem) := schedulable64 n
  if (allocCPU.getD n.id 0 + word req.cpuMillicores).toInt > capCPU ∨
      (allocMem.getD n.id 0 + word req.memoryMB).toInt > capMem then none
  else some {
    id := n.id
    siblings := siblings.getD n.id 0
    remaining := float64 (freeFraction64 capCPU (allocCPU.getD n.id 0) (word req.cpuMillicores) +
      freeFraction64 capMem (allocMem.getD n.id 0) (word req.memoryMB)) }

def place64 (nodes : List Node) (allocCPU allocMem : GoMap (BitVec 64)) (siblings : GoMap ℤ)
    (req : Resources) : String :=
  match sortSlice Candidate.less (nodes.filterMap (candidate64 allocCPU allocMem siblings req)) with
  | [] => ""
  | c :: _ => c.id

namespace Scheduler

def allocCPU64 (s : Scheduler) : GoMap (BitVec 64) :=
  tally s.assignments (fun _ nodeID => nodeID) fun rID _ => word (s.request rID).cpuMillicores

def allocMem64 (s : Scheduler) : GoMap (BitVec 64) :=
  tally s.assignments (fun _ nodeID => nodeID) fun rID _ => word (s.request rID).memoryMB

def fitsOnNode64 (g : Registry) (s : Scheduler) (nodeID replicaID : String) (req : Resources) :
    Bool :=
  match g.get nodeID with
  | none => false
  | some node =>
    let (capCPU, capMem) := schedulable64 node
    let (usedCPU, usedMem) := s.assignments.foldl (fun used rID nID =>
      if nID ≠ nodeID ∨ rID = replicaID then used
      else (used.1 + word (s.request rID).cpuMillicores, used.2 + word (s.request rID).memoryMB))
      ((0, 0) : BitVec 64 × BitVec 64)
    (usedCPU + word req.cpuMillicores).toInt ≤ capCPU &&
      (usedMem + word req.memoryMB).toInt ≤ capMem

def assignFresh64 (g : Registry) (now : ℤ) (s : Scheduler) (replicaID parentID : String)
    (req : Resources) : Scheduler × Except String Assignment :=
  let nodes := g.alive now
  if nodes.isEmpty then (s, .error "no alive nodes available")
  else
    let best := place64 nodes s.allocCPU64 s.allocMem64 (s.siblings parentID) req
    if best = "" then
      (s, .error
        s!"insufficient capacity for {replicaID} (cpu={req.cpuMillicores}m mem={req.memoryMB}MB)")
    else ({
      assignments := s.assignments.insert replicaID best
      parents := s.parents.insert replicaID parentID
      requests := s.requests.insert replicaID req }, .ok ⟨replicaID, best, parentID⟩)

def assign64 (g : Registry) (now : ℤ) (s : Scheduler) (replicaID parentID : String)
    (req : Resources) : Scheduler × Except String Assignment :=
  match s.assignments[replicaID]? with
  | some nodeID =>
    if s.fitsOnNode64 g nodeID replicaID req then
      ({ s with requests := s.requests.insert replicaID req },
        .ok ⟨replicaID, nodeID, s.parent replicaID⟩)
    else (s.unassign replicaID).assignFresh64 g now replicaID parentID req
  | none => s.assignFresh64 g now replicaID parentID req

end Scheduler

/-- What is left of a word after the reserve is a word again. -/
theorem reserved_lt {x : ℤ} (h : |x| ≤ 2 ^ 63) :
    |truncate (float64 (float64 x * float64 (1 - schedulableReserveFraction)))| ≤ maxInt := by
  have hx : |(x : ℚ)| ≤ 2 ^ 63 := by exact_mod_cast h
  have hreserve : |(1 - schedulableReserveFraction : ℚ)| = 17 / 20 := by
    norm_num [schedulableReserveFraction]
  have hbound : |(truncate (float64 (float64 x * float64 (1 - schedulableReserveFraction))) : ℚ)| ≤
      maxInt := by
    calc _ ≤ |float64 (float64 x * float64 (1 - schedulableReserveFraction))| := abs_truncate_le _
      _ ≤ |float64 x * float64 (1 - schedulableReserveFraction)| * (1 + 1 / 2 ^ 53) :=
        abs_float64_le _
      _ = |float64 x| * |float64 (1 - schedulableReserveFraction)| * (1 + 1 / 2 ^ 53) := by
        rw [abs_mul]
      _ ≤ (2 ^ 63 * (1 + 1 / 2 ^ 53)) * (17 / 20 * (1 + 1 / 2 ^ 53)) * (1 + 1 / 2 ^ 53) := by
        gcongr
        · exact (abs_float64_le x).trans (by gcongr)
        · exact (abs_float64_le _).trans (by rw [hreserve])
      _ ≤ maxInt := by norm_num [maxInt]
  exact_mod_cast hbound

theorem schedulable64_le (n : Node) : schedulable64 n ≤ (maxInt, maxInt) := by
  have hword : ∀ a : ℤ, |(word a).toInt| ≤ 2 ^ 63 := by
    intro a
    rw [abs_le]
    have hlow := (word a).le_toInt
    have hhigh := (word a).toInt_lt
    constructor <;> omega
  exact ⟨(le_abs_self _).trans (reserved_lt (hword _)),
    (le_abs_self _).trans (reserved_lt (hword _))⟩

namespace Scheduler
variable {s : Scheduler} {req : Resources}

theorem allocCPU64_getD (s : Scheduler) (n : String) :
    s.allocCPU64.getD n 0 = word (s.committed n).1 := by
  rw [← allocCPU_getD]
  exact getD_tally_map word.toAddMonoidHom _ _ _ n

theorem allocMem64_getD (s : Scheduler) (n : String) :
    s.allocMem64.getD n 0 = word (s.committed n).2 := by
  rw [← allocMem_getD]
  exact getD_tally_map word.toAddMonoidHom _ _ _ n

/-- The sums of `fitsOnNode` are the words of the sums without wraparound. -/
theorem foldl_used64 (s : Scheduler) (n r : String) (l : List (String × String)) (a : ℤ × ℤ) :
    l.foldl (fun used e => if e.2 ≠ n ∨ e.1 = r then used
      else (used.1 + word (s.request e.1).cpuMillicores, used.2 + word (s.request e.1).memoryMB))
      (word a.1, word a.2) =
    (word (l.foldl (fun used e => if e.2 ≠ n ∨ e.1 = r then used
      else (used.1 + (s.request e.1).cpuMillicores, used.2 + (s.request e.1).memoryMB)) a).1,
    word (l.foldl (fun used e => if e.2 ≠ n ∨ e.1 = r then used
      else (used.1 + (s.request e.1).cpuMillicores, used.2 + (s.request e.1).memoryMB)) a).2) := by
  induction l generalizing a with
  | nil => rfl
  | cons e l ih =>
    rw [List.foldl_cons, List.foldl_cons]
    split_ifs
    · exact ih a
    · rw [← ih, map_add, map_add]

theorem fitsOnNode64_iff (g : Registry) (s : Scheduler) (n r : String) (req : Resources) :
    s.fitsOnNode64 g n r req = true ↔ ∃ node, g.get n = some node ∧
      (word (((s.unassign r).committed n) + req.pair).1).toInt ≤ (schedulable64 node).1 ∧
      (word (((s.unassign r).committed n) + req.pair).2).toInt ≤ (schedulable64 node).2 := by
  have hused := foldl_used64 s n r s.assignments.toList (0, 0)
  rw [map_zero] at hused
  have hload : (s.unassign r).committed n = (s.packing.drop r).load n := by
    rw [committed_eq_load, packing_unassign]
  rw [← used_eq_load, ExtTreeMap.foldl_eq_foldl_toList] at hload
  unfold fitsOnNode64
  cases hg : g.get n with
  | none => simp
  | some node =>
    dsimp only
    rw [ExtTreeMap.foldl_eq_foldl_toList]
    simp only [hused, ← hload, ← map_add, Bool.and_eq_true, decide_eq_true_eq, Option.some.injEq,
      exists_eq_left']
    rfl

theorem candidate64_ne_none_iff (s : Scheduler) (siblings : GoMap ℤ) (req : Resources) (n : Node) :
    candidate64 s.allocCPU64 s.allocMem64 siblings req n ≠ none ↔
      (word (s.committed n.id + req.pair).1).toInt ≤ (schedulable64 n).1 ∧
      (word (s.committed n.id + req.pair).2).toInt ≤ (schedulable64 n).2 := by
  unfold candidate64
  dsimp only
  rw [allocCPU64_getD, allocMem64_getD, ← map_add, ← map_add]
  split_ifs with h
  · simp only [ne_eq, not_true_eq_false, false_iff, not_and_or, not_le]
    exact h
  · simp only [ne_eq, reduceCtorEq, not_false_eq_true, true_iff]
    push Not at h
    exact h

end Scheduler

/-- The number that a word holds in place of an integer. -/
def wrapped (a : ℤ) : ℤ := (a + 2 ^ 63) % 2 ^ 64 - 2 ^ 63

theorem toInt_word_eq (a : ℤ) : (word a).toInt = wrapped a := by
  rw [toInt_word, Int.bmod_def, wrapped]
  split_ifs <;> omega

/-- The sum is at most the largest word in both dimensions, or its word is above the capacity in
    one. -/
def Guarded64 (sum cap : ℤ × ℤ) : Prop :=
  sum ≤ (maxInt, maxInt) ∨ cap.1 < wrapped sum.1 ∨ cap.2 < wrapped sum.2

instance (sum cap : ℤ × ℤ) : Decidable (Guarded64 sum cap) :=
  inferInstanceAs (Decidable (_ ∨ _ ∨ _))

/-- A comparison of words is as good as one of integers exactly for guarded sums. -/
theorem word_le_imp_le_iff {x cap : ℤ × ℤ} (h0 : 0 ≤ x) (hcap : cap ≤ (maxInt, maxInt)) :
    ((word x.1).toInt ≤ cap.1 ∧ (word x.2).toInt ≤ cap.2 → x ≤ cap) ↔ Guarded64 x cap := by
  rw [toInt_word_eq, toInt_word_eq]
  constructor
  · intro h
    by_cases hle : wrapped x.1 ≤ cap.1 ∧ wrapped x.2 ≤ cap.2
    · exact .inl ((h hle).trans hcap)
    · rw [not_and_or, not_le, not_le] at hle
      exact .inr hle
  · rintro (hmax | hover | hover) ⟨h1, h2⟩
    · have hfst := toInt_word_of_le h0.1 hmax.1
      have hsnd := toInt_word_of_le h0.2 hmax.2
      rw [toInt_word_eq] at hfst hsnd
      exact ⟨hfst ▸ h1, hsnd ▸ h2⟩
    · omega
    · omega

namespace Scheduler

theorem committed_nonneg {s : Scheduler} (hs : s.packing.Nonneg) (n : String) :
    0 ≤ s.committed n := by
  rw [committed_eq_load]
  exact Finset.sum_nonneg fun r _ => Packing.share_nonneg hs n r

/-- What `place` and `fitsOnNode` accept leaves the true sum of the committed load and
    the request within a bound. -/
structure Bounded (bound : ℤ × ℤ) (g : Registry) (s : Scheduler) (node : Node)
    (siblings : GoMap ℤ) (r : String) (req : Resources) : Prop where
  place : candidate64 s.allocCPU64 s.allocMem64 siblings req node ≠ none →
    s.committed node.id + req.pair ≤ bound
  fits : g.get node.id = some node → s.fitsOnNode64 g node.id r req = true →
    (s.unassign r).committed node.id + req.pair ≤ bound

/-- The two checks are exact exactly if both sums are guarded. -/
theorem fit_checks_exact_iff (g : Registry) (s : Scheduler) (node : Node) (siblings : GoMap ℤ)
    (r : String) (req : Resources)
    (hs : ∀ (r : String) (q : Resources), s.requests[r]? = some q → 0 ≤ q.pair)
    (hreq : 0 ≤ req.pair) :
    Bounded (schedulable64 node) g s node siblings r req ↔
      Guarded64 (s.committed node.id + req.pair) (schedulable64 node) ∧
        (g.get node.id = some node →
          Guarded64 ((s.unassign r).committed node.id + req.pair) (schedulable64 node)) := by
  have hn := nonneg_of_requests hs
  have hn' : (s.unassign r).packing.Nonneg := by
    rw [packing_unassign]
    exact Packing.restrict_nonneg hn _
  have hplace := word_le_imp_le_iff (add_nonneg (committed_nonneg hn node.id) hreq)
    (schedulable64_le node)
  have hfits := word_le_imp_le_iff (add_nonneg (committed_nonneg hn' node.id) hreq)
    (schedulable64_le node)
  have haccept (hg : g.get node.id = some node) := fitsOnNode64_iff g s node.id r req
  rw [← hplace, ← hfits, ← candidate64_ne_none_iff s siblings req node]
  constructor
  · refine fun h => ⟨h.place, fun hg hle => h.fits hg ?_⟩
    exact (haccept hg).mpr ⟨node, hg, hle⟩
  · refine fun h => ⟨h.1, fun hg ha => h.2 hg ?_⟩
    obtain ⟨m, hm, hle⟩ := (haccept hg).mp ha
    obtain rfl := Option.some.inj (hg.symm.trans hm)
    exact hle

def assignAll64 (g : Registry) (calls : List AssignCall) : Scheduler :=
  calls.foldl (fun s c => (s.assign64 g c.now c.replicaID c.parentID c.req).1) new

private def bigNode : Node := { id := "n1", cpu := 4, memoryMB := 8000 }

private def oneReplica : Scheduler :=
  assignAll64 (Registry.new.register bigNode 0) [⟨"a-0", "a", ⟨0, 100⟩, 1⟩]

/-- A second request that fits, and one whose sum wraps to a word that is still too large. -/
theorem fit_checks_exact_iff_small :
    Bounded (schedulable64 bigNode) (Registry.new.register bigNode 0) oneReplica bigNode ∅ "b-0"
        ⟨0, 500⟩ ∧
      Bounded (schedulable64 bigNode) (Registry.new.register bigNode 0) oneReplica bigNode ∅ "b-0"
        ⟨3401, maxInt⟩ :=
  ⟨(fit_checks_exact_iff (Registry.new.register bigNode 0) oneReplica bigNode ∅ "b-0" ⟨0, 500⟩
      (forall_lookup_iff.mpr (by decide +kernel)) (by decide)).mpr
      ⟨by decide +kernel, fun _ => by decide +kernel⟩,
    (fit_checks_exact_iff (Registry.new.register bigNode 0) oneReplica bigNode ∅ "b-0" ⟨3401, maxInt⟩
      (forall_lookup_iff.mpr (by decide +kernel)) (by decide)).mpr
      ⟨by decide +kernel, fun _ => by decide +kernel⟩⟩

/-- Next to a replica of 100 MB a request for the largest word is accepted. -/
theorem large_request_accepted :
    ¬ ∀ (g : Registry) (calls : List AssignCall) (node : Node) (siblings : GoMap ℤ) (r : String)
      (req : Resources), (∀ c ∈ calls, 0 ≤ c.req.pair ∧ c.req.pair ≤ (maxInt, maxInt)) →
      0 ≤ req.pair → req.pair ≤ (maxInt, maxInt) →
      Bounded (schedulable64 node) g (assignAll64 g calls) node siblings r req := by
  intro h
  have hb := (h (Registry.new.register bigNode 0) [⟨"a-0", "a", ⟨0, 100⟩, 1⟩] bigNode ∅ "b-0"
    ⟨0, maxInt⟩ (by decide) (by decide) (by decide)).place
  revert hb
  rw [candidate64_ne_none_iff]
  decide +kernel

end Scheduler

/-! ### Sums that fit in a word -/

/-- The figures of a node that its words hold. -/
def Node.Fits64 (n : Node) : Prop :=
  (-2 ^ 63 ≤ n.cpu * 1000 ∧ n.cpu * 1000 < 2 ^ 63) ∧ -2 ^ 63 ≤ n.memoryMB ∧ n.memoryMB < 2 ^ 63

instance (n : Node) : Decidable n.Fits64 := inferInstanceAs (Decidable (_ ∧ _))

namespace Scheduler
variable {g : Registry} {s : Scheduler} {req : Resources}

/-- A registered node's figures, and what is committed to it with the request, fit in words. -/
structure Fits64 (g : Registry) (s : Scheduler) (req : Resources) : Prop where
  node : ∀ id n, g.get id = some n → n.Fits64
  nonneg : s.packing.Nonneg
  request : 0 ≤ req.pair
  sum : ∀ id, g.get id ≠ none → s.committed id + req.pair ≤ (maxInt, maxInt)

theorem Fits64.unassign (h : Fits64 g s req) (r : String) : Fits64 g (s.unassign r) req := by
  have hn : (s.unassign r).packing.Nonneg := by
    rw [packing_unassign]
    exact Packing.restrict_nonneg h.nonneg _
  refine ⟨h.node, hn, h.request, fun id hid => le_trans ?_ (h.sum id hid)⟩
  rw [committed_eq_load, committed_eq_load, packing_unassign]
  exact add_le_add_left (Packing.load_restrict_le h.nonneg _ id) _

end Scheduler

namespace Ledger
open Scheduler Runs

/-- Every request is small enough to be added to any capacity, and the figures of the nodes are
    words. -/
def Small (cap : String → ℤ × ℤ) : LedgerOp → Prop
  | .assign _ _ req _ => ∀ id, 0 ⊔ cap id + req.pair ≤ (maxInt, maxInt)
  | .join n _ => n.Fits64
  | _ => True

structure Sound64 (cap : String → ℤ × ℤ) (l : Ledger) : Prop extends Sound cap l where
  node : ∀ id n, l.registry.get id = some n → n.Fits64

variable {cap : String → ℤ × ℤ} {l : Ledger}

theorem Sound64.step (h : Sound64 cap l) {op : LedgerOp} (hp : Permitted cap op)
    (hsmall : Small cap op) : Sound64 cap (l.step op) := by
  refine ⟨sound_step l op hp h.toSound, ?_⟩
  cases op with
  | join n now =>
    intro id m hm
    rw [Ledger.step, Registry.get_register] at hm
    split_ifs at hm
    · exact Option.some.inj hm ▸ hsmall
    · exact h.node id m hm
  | heartbeat id now =>
    rw [Ledger.step]
    cases hg : l.registry.get id with
    | none =>
      rw [Registry.heartbeat_unknown hg now]
      exact h.node
    | some n =>
      obtain ⟨g, hok, hget⟩ := Registry.heartbeat_known hg now
      rw [hok]
      intro a m hm
      rw [hget] at hm
      split_ifs at hm
      · obtain rfl := Option.some.inj hm
        exact h.node id n hg
      · exact h.node a m hm
  | leave id =>
    intro a m hm
    rw [Ledger.step, Registry.get_remove] at hm
    split_ifs at hm
    exact h.node a m hm
  | _ => exact h.node

end Ledger
end Smith
