import Smith.Manifest
import Smith.SchedulerCapacity

set_option autoImplicit false

/-!
# What a workload may ask for

The scheduler takes for granted that no request is negative. Neither of the two ways
into the store checks it, and a negative request is room for others for as long as it
is assigned.
-/
namespace Smith
open FiniteMaps
open Std (ExtTreeMap)

/-- Accepted by the handler of `POST /workloads`, or the result of resolving a bundle. -/
def Admitted (w : Workload) : Prop :=
  (∃ st st', (Request.applyWorkload w).exec st = .ok st') ∨
    ∃ (a : App) (r : Resolved), a.resolve = .ok r ∧ r.workload = w

/-- No replica of the workload makes room by being assigned or takes room away by
    being removed. -/
structure NeverFrees (w : Workload) : Prop where
  take : ∀ (g : Registry) (now : ℤ) (s : Scheduler) (i : ℕ) (n : String) (node : Node)
    (q : Resources), s.assignments[replicaID w.id i]? = none → g.get n = some node →
    ¬ s.committed n + q.pair ≤ schedulable node →
    ¬ (s.assign g now (replicaID w.id i) w.id (requestOf w)).1.committed n + q.pair ≤
      schedulable node
  release : ∀ (s : Scheduler) (i : ℕ) (n : String) (node : Node),
    s.requests[replicaID w.id i]? = some (requestOf w) → s.committed n ≤ schedulable node →
    (s.unassign (replicaID w.id i)).committed n ≤ schedulable node

namespace Scheduler
variable {s : Scheduler} {r : String} {req : Resources}

theorem committed_le_assign (hr : s.assignments[r]? = none) (hreq : 0 ≤ req.pair) (g : Registry)
    (now : ℤ) (p n : String) : s.committed n ≤ (s.assign g now r p req).1.committed n := by
  have hdrop := (unassign_of_none hr).1
  have h := assign_result g now s r p req
  revert h
  generalize s.assign g now r p req = out
  intro h
  rw [committed_eq_load, committed_eq_load]
  cases h with
  | ok _ _ assignments requests =>
    rw [packing_put assignments requests, Packing.load_put, hdrop]
    split_ifs
    · exact le_add_of_nonneg_right hreq
    · rw [add_zero]
  | rejected assignments requests => rw [packing_drop assignments requests, hdrop]

def filled (r : String) (req : Resources) (node : Node) : Scheduler where
  assignments := (∅ : GoMap String).insert "" node.id |>.insert r node.id
  parents := ∅
  requests := (∅ : GoMap Resources).insert ""
    ⟨(schedulable node).1 - req.cpuMillicores, (schedulable node).2 - req.memoryMB⟩ |>.insert r req

theorem committed_filled (hr : r ≠ "") (req : Resources) (node : Node) :
    (filled r req node).committed node.id = schedulable node ∧
      ((filled r req node).unassign r).committed node.id = schedulable node - req.pair := by
  set rest : Resources :=
    ⟨(schedulable node).1 - req.cpuMillicores, (schedulable node).2 - req.memoryMB⟩
  have hrest : rest.pair = schedulable node - req.pair := rfl
  have hnew : ∀ q, new.packing.slot q = none := by
    intro q
    simp [packing_slot, new]
  have hpacking : (filled r req node).packing =
      ((new.packing.put "" node.id rest.pair).put r node.id req.pair) := by
    rw [← packing_insert new "" node.id rest ∅, ← packing_insert _ r node.id req ∅]
    rfl
  have hdrop : (new.packing.put "" node.id rest.pair).drop r =
      new.packing.put "" node.id rest.pair :=
    Packing.drop_of_none (by rw [Packing.slot_put_ne _ _ _ hr, hnew])
  have hload : (new.packing.put "" node.id rest.pair).load node.id = rest.pair := by
    rw [Packing.load_put, if_pos rfl, Packing.drop_of_none (hnew ""),
      Packing.load_eq_zero fun q x hq => Option.some_ne_none _ (hq.symm.trans (hnew q)), zero_add]
  constructor
  · rw [committed_eq_load, hpacking, Packing.load_put, if_pos rfl, hdrop, hload, hrest,
      sub_add_cancel]
  · rw [committed_eq_load, packing_unassign, hpacking, Packing.drop_put, hdrop, hload, hrest]

end Scheduler

open Scheduler

/-- A workload never frees capacity exactly if it asks for nothing negative. -/
theorem never_frees_iff (w : Workload) : NeverFrees w ↔ 0 ≤ (requestOf w).pair := by
  constructor
  · intro h
    have hr : replicaID w.id 0 ≠ "" := by
      simp [replicaID]
    obtain ⟨hfull, hrest⟩ :=
      committed_filled hr (requestOf w) { id := "n", cpu := 0, memoryMB := 0 }
    have hle := h.release (filled (replicaID w.id 0) (requestOf w)
      { id := "n", cpu := 0, memoryMB := 0 }) 0 "n" _ (lookup_insert_self _ _ _) hfull.le
    rw [hrest] at hle
    exact sub_le_self_iff _ |>.mp hle
  · intro h
    refine ⟨fun g now s i n node q hnew _ hfull hfits => hfull ?_, fun s i n node hreq hle => ?_⟩
    · exact (add_le_add_left (committed_le_assign hnew h g now w.id n) _).trans hfits
    · have hq : 0 ≤ (s.request (replicaID w.id i)).pair := by
        rw [request, getD_eq, hreq]
        exact h
      exact (committed_unassign_le hq n).trans hle

private def credit : Workload := { id := "credit", image := "web", resources := some ⟨0, -1000⟩ }

private def fullNode : Registry × Scheduler :=
  let g := Registry.new.register { id := "n1", cpu := 4, memoryMB := 8000 } 0
  (g, (new.assign g 1 "a-0" "a" ⟨0, 6800⟩).1)

/-- A workload of -1000 MB is accepted, and once it is assigned to the full node
    another 1000 MB fit there. -/
theorem negative_request_frees_memory : ¬ ∀ w, Admitted w → NeverFrees w := by
  intro h
  have hadmitted : Admitted credit := by
    refine .inl ⟨⟨.new, .new, ⟨∅⟩⟩, _, rfl⟩
  have hfree := (h credit hadmitted).take fullNode.1 1 fullNode.2 0 "n1"
    { id := "n1", cpu := 4, memoryMB := 8000 } ⟨0, 1000⟩ (by decide +kernel) (by decide +kernel)
    (by decide +kernel)
  revert hfree
  decide +kernel

end Smith
