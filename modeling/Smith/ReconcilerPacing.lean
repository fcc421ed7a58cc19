import Smith.PacedLoops
import Smith.ReconcilerPass

set_option autoImplicit false

/-!
# The pace of a pass

Within one workload the replicas' turns are paced by the counter of replicas that
are not available, whatever other workloads' turns come in between.
-/
namespace Smith
open FiniteMaps KeyedLoops PacedLoops Std

namespace Reconciler

section Counter

/-- The counter starts at the number of the workload's replicas that are not Running. -/
theorem unavailable_getD (stored : GoMap Workload) (running : GoMap Bool) (w : String) :
    (unavailable (expand stored) running).getD w 0 =
      (((instances (expand stored)).filter fun inst => inst.parent = w).filter
        fun inst => !running.getD inst.wl.id false).length := by
  set t := (expand stored).filter fun _ inst => !running.getD inst.wl.id false with ht
  have hlookup : ∀ (r : String) (inst : ReplicaInstance), t[r]? = some inst ↔
      (expand stored)[r]? = some inst ∧ running.getD inst.wl.id false = false := by
    intro r inst
    rw [ht, lookup_filter, Option.filter_eq_some_iff, Bool.not_eq_true']
  have hids : (t.toList.map Prod.snd).map (fun inst => inst.wl.id) = t.keys := by
    rw [List.map_map, ← ExtTreeMap.map_fst_toList_eq_keys]
    refine List.map_congr_left fun e he => ?_
    exact expand_keyed ((hlookup _ _).mp (ExtTreeMap.mem_toList_iff_getElem?_eq_some.mp he)).1
  have hnodup : (t.toList.map Prod.snd).Nodup :=
    List.Nodup.of_map _ (hids ▸ ExtTreeMap.nodup_keys)
  have hperm : (t.toList.map Prod.snd).Perm
      ((instances (expand stored)).filter fun inst => !running.getD inst.wl.id false) := by
    refine (List.perm_ext_iff_of_nodup hnodup
      ((List.Nodup.of_map _ (nodup_instances stored)).filter _)).mpr fun inst => ?_
    rw [List.mem_filter, mem_instances, Bool.not_eq_true']
    simp only [List.mem_map, Prod.exists, exists_eq_right,
      ExtTreeMap.mem_toList_iff_getElem?_eq_some, hlookup]
    constructor
    · rintro ⟨r, hr, hrun⟩
      exact ⟨(expand_keyed hr).symm ▸ hr, hrun⟩
    · rintro ⟨hr, hrun⟩
      exact ⟨_, hr, hrun⟩
  have hlen := (hperm.filter fun inst => decide (inst.parent = w)).length_eq
  rw [List.filter_map, List.length_map] at hlen
  rw [unavailable, getD_tally_count, List.filter_comm, ← hlen]
  rfl

end Counter

section Turns
variable (digest : Canonical → String) (env : Env) (stored : GoMap Workload)
  (running : GoMap Bool) (g : Registry)

/-- A turn told whether its workload is within the budget. -/
def pacedTurn (pushed : GoMap PushRecord) (assigned : GoMap String) (inst : ReplicaInstance)
    (within : Bool) : Deployment :=
  turn digest env g pushed[inst.wl.id]? assigned[inst.wl.id]? inst.wl
    (running.getD inst.wl.id false && within)

theorem ensure_unavailable (p : Progress) (inst : ReplicaInstance) (w : String) :
    let s := (p.scheduler.assign g env.now inst.wl.id inst.parent (requestOf inst.wl)).1
    let d := turn digest env g p.pushed[inst.wl.id]? s.assignments[inst.wl.id]? inst.wl
      (mayRoll stored running p inst)
    (ensure digest env stored running g p inst).unavailable.getD w 0 =
      if d.charged ∧ inst.parent = w then p.unavailable.getD w 0 + 1
      else p.unavailable.getD w 0 := by
  intro s d
  rw [ensure_eq]
  change (if d.charged then bump p.unavailable inst.parent 1 else p.unavailable).getD w 0 = _
  by_cases hc : d.charged = true
  · rw [if_pos hc, getD_bump]
    by_cases hw : inst.parent = w <;> simp [hc, hw]
  · simp [hc]

/-- Through the loop over all replicas the turns of one workload are paced by its
    own counter. -/
theorem foldl_ensure_paced (pushed : GoMap PushRecord) (assigned : GoMap String) {w : String}
    {l : List ReplicaInstance} (hnd : (l.map fun inst => inst.wl.id).Nodup) {p : Progress}
    (hpushed : ∀ inst ∈ l, p.pushed[inst.wl.id]? = pushed[inst.wl.id]?)
    (hassigned : ∀ inst ∈ l, (l.foldl (ensure digest env stored running g)
      p).scheduler.assignments[inst.wl.id]? = assigned[inst.wl.id]?)
    (hsent : ∀ inst ∈ l, sentFor inst.wl.id p.sent = []) :
    ∀ e ∈ paced (pacedTurn digest env running g pushed assigned) Deployment.charged
      (maxUnavailable (workloadOf stored w)) (p.unavailable.getD w 0)
      (l.filter fun inst => inst.parent = w),
      (l.foldl (ensure digest env stored running g) p).view e.1.wl.id =
        (e.2.recorded.or pushed[e.1.wl.id]?, assigned[e.1.wl.id]?, e.2.sent) := by
  have hframe := ensure_framed digest env g stored running
  -- The counter of `w` after a turn is the one `paced` carries on with; turns of other
  -- workloads leave it alone.
  induction l generalizing p with
  | nil => exact fun e he => absurd he List.not_mem_nil
  | cons inst l ih =>
    rw [List.map_cons, List.nodup_cons] at hnd
    obtain ⟨hnotin, hnd⟩ := hnd
    have hne : ∀ a ∈ l, a.wl.id ≠ inst.wl.id := fun a ha heq =>
      hnotin (heq ▸ List.mem_map_of_mem ha)
    have hstep : ∀ a ∈ l, (ensure digest env stored running g p inst).view a.wl.id =
        p.view a.wl.id := fun a ha => hframe p inst a.wl.id (hne a ha)
    have hlater := ih hnd (p := ensure digest env stored running g p inst)
      (fun a ha => (congrArg Prod.fst (hstep a ha)).trans
        (hpushed a (List.mem_cons_of_mem inst ha)))
      (fun a ha => hassigned a (List.mem_cons_of_mem inst ha))
      (fun a ha => (congrArg (fun v => v.2.2) (hstep a ha)).trans
        (hsent a (List.mem_cons_of_mem inst ha)))
    have hcount := ensure_unavailable digest env stored running g p inst w
    have hview := ensure_view digest env g stored running p inst
    have hlast := hframe.foldl_of_notMem hnotin (ensure digest env stored running g p inst)
    have hfinal := hassigned inst List.mem_cons_self
    rw [List.foldl_cons] at hfinal
    have hnode := (congrArg (fun v => v.2.1) (hlast.trans hview)).symm.trans hfinal
    dsimp only at hcount hview hnode
    rw [hnode, hpushed inst List.mem_cons_self] at hcount hview
    by_cases hw : inst.parent = w
    · have hact : turn digest env g pushed[inst.wl.id]? assigned[inst.wl.id]? inst.wl
          (mayRoll stored running p inst) = pacedTurn digest env running g pushed assigned inst
            (p.unavailable.getD w 0 < maxUnavailable (workloadOf stored w)) := by
        rw [pacedTurn, mayRoll, hw]
      rw [hact] at hcount hview
      simp only [hw, and_true] at hcount
      rw [List.filter_cons_of_pos (by simpa using hw), paced, List.forall_mem_cons, ← hcount]
      refine ⟨?_, hlater⟩
      rw [List.foldl_cons, hlast, hview, hsent inst List.mem_cons_self, List.nil_append]
    · simp only [hw, and_false, ↓reduceIte] at hcount
      rw [List.filter_cons_of_neg (by simpa using hw), ← hcount]
      exact hlater

end Turns

section Budget
variable (digest : Canonical → String) (env : Env) (c : Reconciler)

def replicasOf (w : String) : List ReplicaInstance :=
  (instances (expand c.store.list)).filter fun inst => inst.parent = w

theorem mem_replicasOf (w : String) (inst : ReplicaInstance) : inst ∈ c.replicasOf w ↔
    (expand c.store.list)[inst.wl.id]? = some inst ∧ inst.parent = w := by
  rw [replicasOf, List.mem_filter, mem_instances, decide_eq_true_eq]

def notRunning (w : String) : ℕ :=
  ((c.replicasOf w).filter fun inst => !(c.running env).getD inst.wl.id false).length

/-- How many replicas of the workload may still go down in a pass. -/
def budget (w : String) : ℕ :=
  (maxUnavailable (workloadOf c.store.list w) - c.notRunning env w).toNat

def passTurn : ReplicaInstance → Bool → Deployment :=
  pacedTurn digest env (c.running env) (c.evictDead env.now).registry
    (c.evictDead env.now).pushed (c.assigned env)

def passTurns (w : String) : List (ReplicaInstance × Deployment) :=
  paced (c.passTurn digest env) Deployment.charged (maxUnavailable (workloadOf c.store.list w))
    (c.notRunning env w) (c.replicasOf w)

theorem map_fst_passTurns (w : String) :
    (c.passTurns digest env w).map Prod.fst = c.replicasOf w :=
  map_fst_paced _ _

theorem pass_turns (w : String) : ∀ e ∈ c.passTurns digest env w,
    (pass digest env c).1.pushed[e.1.wl.id]? =
        (e.2.recorded.or (c.evictDead env.now).pushed[e.1.wl.id]?).filter (c.keeps env e.1.wl.id) ∧
      sentFor e.1.wl.id (pass digest env c).2 = e.2.sent := by
  intro e he
  have hmem := ((c.mem_replicasOf w e.1).mp (mem_paced he).1).1
  have hp := pass_view_of_desired digest env c (hmem ▸ Option.some_ne_none e.1)
  have hloop := foldl_ensure_paced digest env c.store.list (c.running env)
    (c.evictDead env.now).registry (c.evictDead env.now).pushed (c.assigned env) (w := w)
    (nodup_instances c.store.list)
    (p := ⟨(c.evictDead env.now).scheduler, (c.evictDead env.now).pushed,
      unavailable (expand c.store.list) (c.running env), []⟩)
    (fun _ _ => rfl)
    (fun inst _ => by rw [foldl_ensure_scheduler]; rfl) (fun _ _ => rfl)
  dsimp only at hloop hp
  rw [unavailable_getD] at hloop
  have hv := hloop e he
  change (ensureAll digest env c.store.list (c.running env) (c.evictDead env.now)).view _ = _ at hv
  rw [hv] at hp
  simp only [Prod.mk.injEq] at hp
  exact ⟨hp.1, hp.2.2⟩

end Budget

end Reconciler
end Smith
