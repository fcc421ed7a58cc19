import Smith.Packing
import Smith.Scheduler

set_option autoImplicit false

/-!
# The scheduler's maps as a packing

Replicas are items, nodes are bins and recorded requests are sizes. Both
accounting paths of `Assign` sum the same packing, the sticky one with the
replica itself taken out, so `Assign` either puts the replica where it then fits
or drops it.
-/
namespace Smith
open FiniteMaps Std

namespace Scheduler

/-- The sum of the recorded requests of all replicas assigned to a node. -/
def committed (s : Scheduler) (nodeID : String) : ℤ × ℤ :=
  ((s.assignments.toList.filter fun e => e.2 = nodeID).map fun e => (s.request e.1).pair).sum

def packing (s : Scheduler) : Packing String String (ℤ × ℤ) where
  slot r := s.assignments[r]?.map fun n => (n, (s.request r).pair)
  items := s.assignments.keys.toFinset
  mem_items r := by
    rw [List.mem_toFinset, mem_keys_iff, ne_eq, ne_eq, Option.map_eq_none_iff]

theorem packing_slot (s : Scheduler) (r : String) :
    s.packing.slot r = s.assignments[r]?.map fun n => (n, (s.request r).pair) := rfl

theorem packing_slot_eq (s : Scheduler) (r n : String) (x : ℤ × ℤ) :
    s.packing.slot r = some (n, x) ↔ s.assignments[r]? = some n ∧ x = (s.request r).pair := by
  rw [packing_slot, Option.map_eq_some_iff]
  constructor
  · rintro ⟨m, hm, he⟩
    obtain ⟨rfl, rfl⟩ := Prod.mk.inj he
    exact ⟨hm, rfl⟩
  · rintro ⟨hm, rfl⟩
    exact ⟨n, hm, rfl⟩

theorem load_eq_sum (s : Scheduler) (n : String) :
    s.packing.load n = ∑ r ∈ s.assignments.keys.toFinset,
      entry s.assignments (fun r m => if m = n then (s.request r).pair else 0) r := by
  apply Finset.sum_congr rfl
  intro r _
  cases h : s.assignments[r]? with
  | none =>
    have hs : s.packing.slot r = none := by rw [packing_slot, h]; rfl
    simp [Packing.share_of_none hs, entry, h]
  | some m =>
    have hs : s.packing.slot r = some (m, (s.request r).pair) := by rw [packing_slot, h]; rfl
    simp [Packing.share_of_slot hs, entry, h]

theorem committed_eq_load (s : Scheduler) (n : String) : s.committed n = s.packing.load n := by
  rw [load_eq_sum, ← sum_toList, committed]
  generalize s.assignments.toList = l
  induction l with
  | nil => rfl
  | cons e l ih =>
    rw [List.filter_cons, List.map_cons, List.sum_cons]
    by_cases h : e.2 = n
    · simp only [h, decide_true, ↓reduceIte, List.map_cons, List.sum_cons, ih]
    · simp only [h, decide_false, Bool.false_eq_true, ↓reduceIte, zero_add, ih]

theorem allocCPU_getD (s : Scheduler) (n : String) : s.allocCPU.getD n 0 = (s.committed n).1 := by
  rw [committed_eq_load, load_eq_sum, allocCPU, getD_tally, Prod.fst_sum]
  apply Finset.sum_congr rfl
  intro r _
  cases h : s.assignments[r]? with
  | none => simp [entry, h]
  | some m => by_cases hm : m = n <;> simp [entry, h, hm, Resources.pair]

theorem allocMem_getD (s : Scheduler) (n : String) : s.allocMem.getD n 0 = (s.committed n).2 := by
  rw [committed_eq_load, load_eq_sum, allocMem, getD_tally, Prod.snd_sum]
  apply Finset.sum_congr rfl
  intro r _
  cases h : s.assignments[r]? with
  | none => simp [entry, h]
  | some m => by_cases hm : m = n <;> simp [entry, h, hm, Resources.pair]

@[simp] theorem assignments_unassign (s : Scheduler) (r : String) :
    (s.unassign r).assignments = s.assignments.erase r := rfl

theorem request_unassign (s : Scheduler) {r q : String} (h : q ≠ r) :
    (s.unassign r).request q = s.request q := by
  rw [request, request, getD_eq, getD_eq, unassign, lookup_erase_ne _ h.symm]

theorem packing_unassign (s : Scheduler) (r : String) :
    (s.unassign r).packing = s.packing.drop r := by
  apply Packing.ext_slot
  intro q
  rw [Packing.slot_drop, packing_slot, packing_slot]
  by_cases h : q = r
  · subst h
    simp [unassign]
  · rw [request_unassign s h, if_neg h]
    simp only [unassign, lookup_erase_ne _ (Ne.symm h)]

theorem unassign_of_none {s : Scheduler} {r : String} (h : s.assignments[r]? = none) :
    s.packing.drop r = s.packing ∧ s.assignments.erase r = s.assignments := by
  refine ⟨Packing.drop_of_none (by rw [packing_slot, h]; rfl), ?_⟩
  · apply ExtTreeMap.ext_getElem?
    intro q
    rw [lookup_erase]
    split_ifs with hq
    · rw [← hq, h]
    · rfl

theorem packing_insert (s : Scheduler) (r n : String) (req : Resources) (ps : GoMap String) :
    packing ⟨s.assignments.insert r n, ps, s.requests.insert r req⟩ =
      s.packing.put r n req.pair := by
  apply Packing.ext_slot
  intro q
  by_cases h : q = r
  · subst h
    simp [Packing.slot_put_self, packing_slot, request, getD_eq]
  · rw [Packing.slot_put_ne _ _ _ h, packing_slot, packing_slot, request, request, getD_eq, getD_eq]
    simp only [lookup_insert_ne _ _ (Ne.symm h)]

theorem foldl_used (s : Scheduler) (n r : String) (l : List (String × String)) (a : ℤ × ℤ) :
    l.foldl (fun used e => if e.2 ≠ n ∨ e.1 = r then used
      else (used.1 + (s.request e.1).cpuMillicores, used.2 + (s.request e.1).memoryMB)) a =
    a + (l.map fun e => if e.2 = n ∧ e.1 ≠ r then (s.request e.1).pair else 0).sum := by
  induction l generalizing a with
  | nil => simp
  | cons e l ih =>
    rw [List.foldl_cons, ih, List.map_cons, List.sum_cons, ← add_assoc]
    congr 1
    by_cases h : e.2 = n ∧ e.1 ≠ r
    · simp only [h, ne_eq, not_true_eq_false, or_self, ↓reduceIte, and_self, not_false_eq_true]
      rfl
    · have h' : e.2 ≠ n ∨ e.1 = r := by tauto
      simp only [h, h', ↓reduceIte, add_zero]

theorem keys_unassign (s : Scheduler) (r : String) :
    (s.unassign r).assignments.keys.toFinset = s.assignments.keys.toFinset.erase r := by
  ext q
  simp only [List.mem_toFinset, mem_keys_iff, Finset.mem_erase, assignments_unassign, lookup_erase]
  by_cases hq : r = q
  · simp [hq]
  · simp [hq, Ne.symm hq]

theorem used_eq_load (s : Scheduler) (n r : String) :
    s.assignments.foldl (fun used rID nID =>
      if nID ≠ n ∨ rID = r then used
      else (used.1 + (s.request rID).cpuMillicores, used.2 + (s.request rID).memoryMB))
      ((0, 0) : ℤ × ℤ) = (s.packing.drop r).load n := by
  have hsum := sum_toList s.assignments fun k v =>
    if v = n ∧ k ≠ r then (s.request k).pair else 0
  rw [ExtTreeMap.foldl_eq_foldl_toList, foldl_used, hsum, ← packing_unassign, load_eq_sum,
    show ((0, 0) : ℤ × ℤ) = 0 from rfl, zero_add, keys_unassign]
  have hr : entry s.assignments (fun k v => if v = n ∧ k ≠ r then (s.request k).pair else 0) r = 0 := by
    cases h : s.assignments[r]? <;> simp [entry, h]
  rw [← Finset.sum_erase _ hr]
  apply Finset.sum_congr rfl
  intro q hq
  have hne : q ≠ r := Finset.ne_of_mem_erase hq
  simp only [entry, request_unassign s hne, assignments_unassign, lookup_erase_ne _ hne.symm, hne,
    ne_eq, not_false_eq_true, and_true]

theorem fitsOnNode_iff (g : Registry) (s : Scheduler) (n r : String) (req : Resources) :
    s.fitsOnNode g n r req = true ↔
      ∃ node, g.get n = some node ∧ (s.packing.drop r).load n + req.pair ≤ schedulable node := by
  unfold fitsOnNode
  cases hg : g.get n with
  | none => simp
  | some node =>
    dsimp only
    rw [used_eq_load]
    simp [Prod.le_def, Resources.pair]

end Scheduler

theorem candidate_spec {round : ℚ → ℚ} {allocCPU allocMem siblings : GoMap ℤ} {req : Resources}
    {n : Node} {c : Candidate} (h : candidate round allocCPU allocMem siblings req n = some c) :
    c.id = n.id ∧ (allocCPU.getD n.id 0, allocMem.getD n.id 0) + req.pair ≤ schedulable n := by
  unfold candidate at h
  dsimp only at h
  split_ifs at h with hfit
  obtain rfl := Option.some.inj h
  refine ⟨rfl, ?_⟩
  push Not at hfit
  exact ⟨hfit.1, hfit.2⟩

theorem place_spec {nodes : List Node} {allocCPU allocMem siblings : GoMap ℤ} {req : Resources}
    (h : place nodes allocCPU allocMem siblings req ≠ "") :
    ∃ n ∈ nodes, n.id = place nodes allocCPU allocMem siblings req ∧
      (allocCPU.getD n.id 0, allocMem.getD n.id 0) + req.pair ≤ schedulable n := by
  unfold place placeWith at *
  split at h
  · exact absurd rfl h
  · rename_i c l hc
    have hm : c ∈ nodes.filterMap (candidate Binary64.float64 allocCPU allocMem siblings req) := by
      rw [← mem_sortSlice Candidate.less, hc]
      exact List.mem_cons_self
    obtain ⟨n, hn, hcn⟩ := List.mem_filterMap.mp hm
    obtain ⟨hid, hfit⟩ := candidate_spec hcn
    exact ⟨n, hn, hid.symm, hfit⟩

namespace Scheduler

theorem assignFresh_spec (g : Registry) (now : ℤ) (s : Scheduler) (r p : String)
    (req : Resources) :
    (∃ n node, g.get n = some node ∧ s.packing.load n + req.pair ≤ schedulable node ∧
      s.assignFresh g now r p req = (⟨s.assignments.insert r n, s.parents.insert r p,
        s.requests.insert r req⟩, .ok ⟨r, n, p⟩)) ∨
    ∃ e, s.assignFresh g now r p req = (s, .error e) := by
  unfold assignFresh
  dsimp only
  split_ifs with hn hb
  · exact .inr ⟨_, rfl⟩
  · exact .inr ⟨_, rfl⟩
  · obtain ⟨node, hm, hid, hfit⟩ := place_spec hb
    rw [allocCPU_getD, allocMem_getD, committed_eq_load, hid] at hfit
    have hg := ((g.mem_alive now node).mp hm).1
    rw [hid] at hg
    exact .inl ⟨_, node, hg, hfit, rfl⟩

/-- What one `Assign` can do: record the request on a registered node that has
    room for it, or fail and leave the replica without an assignment. No other
    replica is touched. -/
inductive AssignResult (g : Registry) (s : Scheduler) (r : String) (req : Resources) :
    Scheduler × Except String Assignment → Prop where
  | ok {s' : Scheduler} {n parent : String} {node : Node} (registered : g.get n = some node)
      (fits : (s.packing.drop r).load n + req.pair ≤ schedulable node)
      (assignments : s'.assignments = s.assignments.insert r n)
      (requests : s'.requests = s.requests.insert r req) :
      AssignResult g s r req (s', .ok ⟨r, n, parent⟩)
  | rejected {s' : Scheduler} {e : String} (assignments : s'.assignments = s.assignments.erase r)
      (requests : ∀ q, q ≠ r → s'.request q = s.request q) :
      AssignResult g s r req (s', .error e)

theorem assign_sticky {g : Registry} {s : Scheduler} {r n : String} {req : Resources}
    (h : s.assignments[r]? = some n) (hfit : s.fitsOnNode g n r req = true) (now : ℤ) (p : String) :
    s.assign g now r p req =
      ({ s with requests := s.requests.insert r req }, .ok ⟨r, n, s.parent r⟩) := by
  simp only [assign, h, hfit, ↓reduceIte]

theorem assign_result (g : Registry) (now : ℤ) (s : Scheduler) (r p : String) (req : Resources) :
    AssignResult g s r req (s.assign g now r p req) := by
  cases h : s.assignments[r]? with
  | none =>
    have he : s.assign g now r p req = s.assignFresh g now r p req := by simp only [assign, h]
    obtain ⟨hd, hk⟩ := unassign_of_none h
    rw [he]
    obtain ⟨n, node, hg, hfit, hs⟩ | ⟨e, hs⟩ := assignFresh_spec g now s r p req
    · rw [hs]
      exact .ok hg (hd.symm ▸ hfit) rfl rfl
    · rw [hs]
      exact .rejected hk.symm fun _ _ => rfl
  | some n =>
    by_cases hf : s.fitsOnNode g n r req = true
    · rw [assign_sticky h hf]
      obtain ⟨node, hg, hfit⟩ := (fitsOnNode_iff g s n r req).mp hf
      exact .ok hg hfit (insert_of_lookup _ h).symm rfl
    · have he : s.assign g now r p req = (s.unassign r).assignFresh g now r p req := by
        simp only [assign, h, hf, Bool.false_eq_true, ↓reduceIte]
      rw [he]
      obtain ⟨m, node, hg, hfit, hs⟩ | ⟨e, hs⟩ := assignFresh_spec g now (s.unassign r) r p req
      · rw [hs]
        rw [packing_unassign] at hfit
        exact .ok hg hfit (insert_erase _ _ _) (insert_erase _ _ _)
      · rw [hs]
        exact .rejected rfl fun q hq => request_unassign s hq

variable {g : Registry} {s s' : Scheduler} {r : String} {req : Resources}

theorem AssignResult.lookup_ne {out : Scheduler × Except String Assignment}
    (h : AssignResult g s r req out) {q : String} (hq : q ≠ r) :
    out.1.assignments[q]? = s.assignments[q]? := by
  cases h with
  | ok _ _ assignments _ => rw [assignments, lookup_insert_ne _ _ hq.symm]
  | rejected assignments _ => rw [assignments, lookup_erase_ne _ hq.symm]

theorem AssignResult.registered_of_lookup {out : Scheduler × Except String Assignment}
    (h : AssignResult g s r req out) {n : String} (hn : out.1.assignments[r]? = some n) :
    g.get n ≠ none := by
  cases h with
  | ok registered _ assignments _ =>
    rw [assignments, lookup_insert_self, Option.some.injEq] at hn
    rw [← hn, registered]
    exact Option.some_ne_none _
  | rejected assignments _ =>
    rw [assignments, lookup_erase_self] at hn
    exact absurd hn (Option.some_ne_none n).symm

theorem packing_put {n : String} (ha : s'.assignments = s.assignments.insert r n)
    (hr : s'.requests = s.requests.insert r req) : s'.packing = s.packing.put r n req.pair := by
  rw [← packing_insert s r n req s'.parents, ← ha, ← hr]

theorem packing_drop (ha : s'.assignments = s.assignments.erase r)
    (hr : ∀ q, q ≠ r → s'.request q = s.request q) : s'.packing = s.packing.drop r := by
  apply Packing.ext_slot
  intro q
  rw [Packing.slot_drop, packing_slot, packing_slot, ha]
  by_cases h : q = r
  · simp [h]
  · rw [if_neg h, hr q h, lookup_erase_ne _ (Ne.symm h)]

theorem AssignResult.slot_self {out : Scheduler × Except String Assignment}
    (h : AssignResult g s r req out) {n : String} {x : ℤ × ℤ}
    (hx : out.1.packing.slot r = some (n, x)) : x = req.pair := by
  cases h with
  | ok _ _ assignments requests =>
    rw [packing_put assignments requests, Packing.slot_put_self, Option.some.injEq] at hx
    exact (congrArg Prod.snd hx).symm
  | rejected assignments requests =>
    rw [packing_drop assignments requests, Packing.slot_drop, if_pos rfl] at hx
    exact absurd hx (Option.some_ne_none _).symm

theorem AssignResult.slot_ne {out : Scheduler × Except String Assignment}
    (h : AssignResult g s r req out) {q : String} (hq : q ≠ r) :
    out.1.packing.slot q = s.packing.slot q := by
  cases h with
  | ok _ _ assignments requests =>
    rw [packing_put assignments requests, Packing.slot_put_ne _ _ _ hq]
  | rejected assignments requests =>
    rw [packing_drop assignments requests, Packing.slot_drop, if_neg hq]

end Scheduler
end Smith
