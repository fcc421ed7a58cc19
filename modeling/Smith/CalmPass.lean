import Smith.RollingBudget
import Smith.SchedulerStability

set_option autoImplicit false

/-!
# Calm passes

Once every desired replica sits on its node, a pass without failures leaves the
scheduler as it is and replaces the first stale replicas of each workload, as many
as its budget allows. It keeps every replica seated.
-/
namespace Smith
open FiniteMaps Std

namespace Reconciler

/-- Every desired replica is assigned to a node within capacity with its current
    request and was pushed there, and nothing else is assigned. -/
structure Seated (c : Reconciler) : Prop where
  replica : ∀ (r : String) (inst : ReplicaInstance), (expand c.store.list)[r]? = some inst →
    ∃ n node rec, c.scheduler.assignments[r]? = some n ∧ c.registry.get n = some node ∧
      c.scheduler.committed n ≤ schedulable node ∧
      c.scheduler.requests[r]? = some (requestOf inst.wl) ∧
      c.pushed[r]? = some rec ∧ rec.nodeID = n
  only : ∀ r n : String, c.scheduler.assignments[r]? = some n → (expand c.store.list)[r]? ≠ none

/-- A pass that meets no failure and finds every desired replica Running. -/
structure Calm (c : Reconciler) (env : Env) : Prop where
  listed : env.listError = none
  alive : c.registry.dead env.now = []
  answers : ∀ call, env.answer call = true
  running : ∀ r : String, (expand c.store.list)[r]? ≠ none → (c.running env).getD r false = true

/-- A replica whose push record carries another spec than the desired one. -/
def stale (digest : Canonical → String) (c : Reconciler) (inst : ReplicaInstance) : Bool :=
  c.pushed[inst.wl.id]?.any fun rec => rec.specHash ≠ specHash digest inst.wl

section Pass
variable {digest : Canonical → String} {env : Env} {c : Reconciler}

theorem Calm.evict_eq (h : Calm c env) : c.evictDead env.now = c := evictDead_of_alive c h.alive

theorem Seated.steady (h : Seated c) :
    c.scheduler.Steady c.registry (desiredRequest (expand c.store.list)) := by
  constructor
  · intro r n hr
    obtain ⟨inst, hinst⟩ := Option.ne_none_iff_exists'.mp (h.only r n hr)
    obtain ⟨m, node, -, hm, hnode, hle, -⟩ := h.replica r inst hinst
    obtain rfl := Option.some.inj (hm.symm.trans hr)
    exact ⟨node, hnode, hle⟩
  · intro r n hr
    obtain ⟨inst, hinst⟩ := Option.ne_none_iff_exists'.mp (h.only r n hr)
    obtain ⟨-, -, -, -, -, -, hreq, -⟩ := h.replica r inst hinst
    rw [Scheduler.request, getD_eq, hreq, desiredRequest, hinst]
    rfl

theorem Seated.assignAll_eq (h : Seated c) (now : ℤ) :
    c.scheduler.assignAll c.registry (assignCalls now (expand c.store.list)) = c.scheduler := by
  refine h.steady.assignAll_eq fun a ha => ⟨assignCalls_request c.store.list now a ha, ?_⟩
  obtain ⟨inst, hi, rfl⟩ := List.mem_map.mp ha
  obtain ⟨n, -, -, hn, -, -, hreq, -⟩ :=
    h.replica inst.wl.id inst ((mem_instances c.store.list inst).mp hi)
  exact ⟨hreq, hn ▸ Option.some_ne_none n⟩

theorem Seated.assigned_eq (h : Seated c) (hc : Calm c env) :
    c.assigned env = c.scheduler.assignments := by
  rw [assigned, hc.evict_eq, h.assignAll_eq]

theorem Seated.pass_scheduler_eq (h : Seated c) (hc : Calm c env) :
    (pass digest env c).1.scheduler = c.scheduler := by
  rw [pass_scheduler digest env c (by rw [hc.evict_eq]; exact h.only), hc.evict_eq, h.assignAll_eq]

theorem Calm.budget_eq (hc : Calm c env) (w : String) :
    c.budget env w = (maxUnavailable (workloadOf c.store.list w)).toNat := by
  have hz : c.notRunning env w = 0 := by
    rw [notRunning, List.length_eq_zero_iff, List.filter_eq_nil_iff]
    intro inst hi
    have hd := ((c.mem_replicasOf w inst).mp hi).1
    simp [hc.running inst.wl.id (hd ▸ Option.some_ne_none inst)]
  rw [budget, hz, Nat.cast_zero, sub_zero]

/-- The first stale replicas of the workload are replaced. -/
theorem Seated.rolled_eq (h : Seated c) (hc : Calm c env) (w : String) :
    c.rolled digest env w = ((c.replicasOf w).filter (c.stale digest)).take
      (maxUnavailable (workloadOf c.store.list w)).toNat := by
  rw [rolled_eq_take digest hc.answers, hc.budget_eq]
  refine congrArg _ (List.filter_congr fun inst hi => ?_)
  have hd := ((c.mem_replicasOf w inst).mp hi).1
  obtain ⟨n, -, rec, hn, -, -, -, hrec, rfl⟩ := h.replica inst.wl.id inst hd
  rw [staleInPlace, hc.running inst.wl.id (hd ▸ Option.some_ne_none inst), hc.evict_eq,
    h.assigned_eq hc, staleOn, stale, hn, hrec]
  simp

/-- A pass replaces a replica of the batch on its node and leaves any other alone. -/
theorem Seated.pass_replica (digest : Canonical → String) (h : Seated c) (hc : Calm c env)
    {r : String} {inst : ReplicaInstance}
    (hr : (expand c.store.list)[r]? = some inst) :
    (inst ∈ c.rolled digest env inst.parent ∧ ∃ n, c.scheduler.assignments[r]? = some n ∧
      sentFor r (pass digest env c).2 =
        [⟨.roll, .unassign n r, true⟩, ⟨.roll, .assign n inst.wl, true⟩] ∧
      (pass digest env c).1.pushed[r]? = some ⟨n, env.now, specHash digest inst.wl⟩) ∨
    (inst ∉ c.rolled digest env inst.parent ∧ sentFor r (pass digest env c).2 = [] ∧
      (pass digest env c).1.pushed[r]? = c.pushed[r]?) := by
  obtain rfl := expand_keyed hr
  have hrunning := hc.running inst.wl.id (hr ▸ Option.some_ne_none inst)
  have hkeep : ∀ rec, c.keeps env inst.wl.id rec = true := fun rec => by simp [keeps, hrunning]
  have hmem : inst ∈ c.rolled digest env inst.parent ↔
      stopped .roll (sentFor inst.wl.id (pass digest env c).2) = true := by
    rw [rolled, List.mem_filter, mem_replicasOf]
    simp [hr, hrunning]
  obtain ⟨roll, -, hpushed, -, hsent⟩ := pass_desired digest env c hr
  obtain ⟨n, node, rec, hn, hnode, -, -, hrec, rfl⟩ := h.replica _ inst hr
  have hid := Registry.get_id hnode
  rw [h.assigned_eq hc, hc.evict_eq, hn, turn_some digest env c.registry hnode, hrec]
    at hpushed hsent
  rw [hmem, hsent, hpushed, hrec]
  obtain ⟨hnone, -⟩ | ⟨old, hold, hne, -⟩ | ⟨old, hold, -, -, -, hd⟩ | ⟨old, hold, -, -, hd⟩ :=
    deploy_cases digest env node inst.wl c.registry (some rec) roll
  · exact absurd hnone (Option.some_ne_none rec)
  · obtain rfl := Option.some.inj hold
    exact absurd hid.symm hne
  · have hroll : Reconciler.roll digest env node inst.wl =
        ⟨[⟨.roll, .unassign rec.nodeID inst.wl.id, true⟩, ⟨.roll, .assign rec.nodeID inst.wl, true⟩],
          some ⟨rec.nodeID, env.now, specHash digest inst.wl⟩, true⟩ := by
      simp [Reconciler.roll, pushUnassign, pushAssignment, recordPush, hc.answers, hid]
    rw [hd, hroll]
    exact .inl ⟨rfl, rec.nodeID, hn, rfl, by simp [hkeep]⟩
  · rw [hd]
    exact .inr ⟨by simp [stopped], rfl, by simp [hkeep]⟩

theorem Seated.pass_other (h : Seated c) (hc : Calm c env) {r : String}
    (hr : (expand c.store.list)[r]? = none) :
    sentFor r (pass digest env c).2 = [] ∧
      (pass digest env c).1.pushed[r]? = c.pushed[r]?.filter (c.keeps env r) := by
  obtain ⟨-, ⟨-, hpushed, hsent⟩ | ⟨n, hn, -, -⟩⟩ := pass_undesired digest env c hr
  · rw [hc.evict_eq] at hpushed
    exact ⟨hsent, hpushed⟩
  · rw [hc.evict_eq] at hn
    exact absurd hr (h.only r n hn)

theorem Seated.pass (h : Seated c) (hc : Calm c env) : Seated (pass digest env c).1 := by
  obtain ⟨hg, hstore, -⟩ := pass_rest digest env c
  rw [hc.evict_eq] at hg
  refine ⟨?_, ?_⟩
  · rw [hstore, hg, h.pass_scheduler_eq hc]
    intro r inst hr
    obtain ⟨n, node, rec, hn, hnode, hle, hreq, hrec, hid⟩ := h.replica r inst hr
    obtain ⟨-, m, hm, -, hp⟩ | ⟨-, -, hp⟩ := h.pass_replica digest hc hr
    · obtain rfl := Option.some.inj (hn.symm.trans hm)
      exact ⟨n, node, _, hn, hnode, hle, hreq, hp, rfl⟩
    · exact ⟨n, node, rec, hn, hnode, hle, hreq, hp.trans hrec, hid⟩
  · rw [hstore, h.pass_scheduler_eq hc]
    exact h.only

theorem Seated.registry (h : Seated c) {g : Registry} (hg : ∀ n node, c.registry.get n = some node →
    ∃ node', g.get n = some node' ∧ schedulable node' = schedulable node) :
    Seated { c with registry := g } := by
  refine ⟨fun r inst hr => ?_, h.only⟩
  obtain ⟨n, node, rec, hn, hnode, hle, hrest⟩ := h.replica r inst hr
  obtain ⟨node', hnode', hs⟩ := hg n node hnode
  exact ⟨n, node', rec, hn, hnode', hs ▸ hle, hrest⟩

end Pass

section Replicas
variable (c : Reconciler) {w : Workload}

theorem replicasOf_stored (hw : c.store.list[w.id]? = some w) (inst : ReplicaInstance) :
    inst ∈ c.replicasOf w.id ↔ ∃ i < replicaCount w, inst = replicaInstance w.id w i := by
  rw [mem_replicasOf, expand_lookup]
  constructor
  · rintro ⟨⟨id, v, i, hv, hi, -, rfl⟩, rfl⟩
    obtain rfl := Option.some.inj (hv.symm.trans hw)
    exact ⟨i, hi, rfl⟩
  · rintro ⟨i, hi, rfl⟩
    exact ⟨⟨w.id, w, i, hw, hi, rfl, rfl⟩, rfl⟩

theorem nodup_replicasOf (w : String) : (c.replicasOf w).Nodup :=
  (List.Nodup.of_map _ (nodup_instances c.store.list)).filter _

theorem length_replicasOf (hw : c.store.list[w.id]? = some w) :
    (c.replicasOf w.id).length = replicaCount w := by
  have hinj : Function.Injective (replicaInstance w.id w) := fun i j hij =>
    (replicaID_injective (congrArg (fun inst => inst.wl.id) hij)).2
  have hperm : (c.replicasOf w.id).Perm
      ((List.range (replicaCount w)).map (replicaInstance w.id w)) := by
    refine (List.perm_ext_iff_of_nodup (c.nodup_replicasOf w.id)
      (List.nodup_range.map hinj)).mpr fun inst => ?_
    rw [c.replicasOf_stored hw]
    simp [eq_comm]
  rw [hperm.length_eq, List.length_map, List.length_range]

end Replicas

end Reconciler
end Smith
