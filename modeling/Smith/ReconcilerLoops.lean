import Smith.KeyedLoops
import Smith.Reconciler
import Smith.SchedulerCapacity

set_option autoImplicit false

/-!
# The loops of a pass, replica by replica

Both loops change a replica's assignment, push record and calls only in the
replica's own turn. The scheduler alone sees one `Assign` for each desired replica
in the order of the ids.
-/
namespace Smith
open FiniteMaps KeyedLoops Std

def Call.replica : Call → String
  | .assign _ w => w.id
  | .unassign _ id => id

def sentFor (r : String) (l : List Sent) : List Sent := l.filter fun x => x.call.replica = r

theorem sentFor_append (r : String) (l l' : List Sent) :
    sentFor r (l ++ l') = sentFor r l ++ sentFor r l' :=
  List.filter_append ..

theorem sentFor_self {r : String} {l : List Sent} (h : ∀ x ∈ l, x.call.replica = r) :
    sentFor r l = l :=
  List.filter_eq_self.mpr fun x hx => decide_eq_true (h x hx)

theorem sentFor_ne {q r : String} {l : List Sent} (h : ∀ x ∈ l, x.call.replica = r) (hq : q ≠ r) :
    sentFor q l = [] :=
  List.filter_eq_nil_iff.mpr fun x hx => by simpa [h x hx] using hq.symm

namespace Reconciler

/-- What a pass sees and changes of one replica. -/
def Progress.view (r : String) (p : Progress) : Option PushRecord × Option String × List Sent :=
  (p.pushed[r]?, p.scheduler.assignments[r]?, sentFor r p.sent)

section Turn
variable (digest : Canonical → String) (env : Env) (g : Registry)

theorem stopOn_replica (cause : Cause) (nodeID r : String) :
    ∀ x ∈ stopOn env g cause nodeID r, x.call.replica = r := by
  intro x hx
  unfold stopOn at hx
  split at hx
  · obtain rfl := List.mem_singleton.mp hx
    rfl
  · exact absurd hx List.not_mem_nil

theorem deploy_replica (node : Node) (wl : Workload) (record : Option PushRecord)
    (mayRoll : Bool) : ∀ x ∈ (deploy digest env node wl g record mayRoll).sent,
      x.call.replica = wl.id := by
  intro x hx
  unfold deploy at hx
  split at hx
  · obtain rfl := List.mem_singleton.mp hx
    rfl
  · rename_i rec
    split_ifs at hx
    · unfold relocate at hx
      simp only [List.mem_append, List.mem_singleton] at hx
      rcases hx with hx | rfl
      · exact stopOn_replica env g .relocate _ _ x hx
      · rfl
    · unfold roll at hx
      dsimp only at hx
      split_ifs at hx <;> simp only [List.mem_cons, List.not_mem_nil, or_false] at hx
      · rcases hx with rfl | rfl <;> rfl
      · rcases hx with rfl | rfl <;> rfl
      · subst hx
        rfl
    · exact absurd hx List.not_mem_nil
    · exact absurd hx List.not_mem_nil

variable (stored : GoMap Workload) (running : GoMap Bool) (p : Progress) (inst : ReplicaInstance)

/-- A turn either leaves the replica pending or deploys it to the registered node
    that `Assign` chose. The branch for an unregistered node is never taken. -/
theorem ensure_cases :
    let s := (p.scheduler.assign g env.now inst.wl.id inst.parent (requestOf inst.wl)).1
    (s.assignments[inst.wl.id]? = none ∧
      ensure digest env stored running g p inst = { p with scheduler := s }) ∨
    ∃ node, g.get node.id = some node ∧ s.assignments[inst.wl.id]? = some node.id ∧
      ensure digest env stored running g p inst = p.deployed s inst
        (deploy digest env node inst.wl g p.pushed[inst.wl.id]? (mayRoll stored running p inst)) := by
  have h := Scheduler.assign_result g env.now p.scheduler inst.wl.id inst.parent (requestOf inst.wl)
  unfold ensure
  revert h
  generalize p.scheduler.assign g env.now inst.wl.id inst.parent (requestOf inst.wl) = out
  intro h
  cases h with
  | @ok s n _ node registered fits assignments requests =>
    refine .inr ⟨node, ?_, ?_, ?_⟩
    · rw [Registry.get_id registered]
      exact registered
    · rw [assignments, lookup_insert_self, Registry.get_id registered]
    · simp only [registered]
  | rejected assignments requests =>
    exact .inl ⟨by rw [assignments, lookup_erase_self], rfl⟩

theorem ensure_scheduler : (ensure digest env stored running g p inst).scheduler =
    (p.scheduler.assign g env.now inst.wl.id inst.parent (requestOf inst.wl)).1 := by
  obtain ⟨-, h⟩ | ⟨node, -, -, h⟩ := ensure_cases digest env g stored running p inst
  · rw [h]
  · rw [h]
    rfl

/-- The deployment of a replica, given the node that `Assign` left it on. -/
def turn (record : Option PushRecord) (nodeID : Option String) (wl : Workload) (mayRoll : Bool) :
    Deployment :=
  match nodeID.bind g.get with
  | none => {}
  | some node => deploy digest env node wl g record mayRoll

theorem turn_none (record : Option PushRecord) (wl : Workload) (mayRoll : Bool) :
    turn digest env g record none wl mayRoll = {} := rfl

theorem turn_some {n : String} {node : Node} (h : g.get n = some node)
    (record : Option PushRecord) (wl : Workload) (mayRoll : Bool) :
    turn digest env g record (some n) wl mayRoll = deploy digest env node wl g record mayRoll := by
  simp [turn, h]

theorem turn_replica (record : Option PushRecord) (nodeID : Option String) (wl : Workload)
    (mayRoll : Bool) : ∀ x ∈ (turn digest env g record nodeID wl mayRoll).sent,
      x.call.replica = wl.id := by
  unfold turn
  split
  · exact fun x hx => absurd hx List.not_mem_nil
  · exact deploy_replica digest env g _ wl record mayRoll

/-- A turn is a deployment that depends on the replica's own record and node. -/
theorem ensure_eq :
    let s := (p.scheduler.assign g env.now inst.wl.id inst.parent (requestOf inst.wl)).1
    ensure digest env stored running g p inst = p.deployed s inst
      (turn digest env g p.pushed[inst.wl.id]? s.assignments[inst.wl.id]? inst.wl
        (mayRoll stored running p inst)) := by
  intro s
  obtain ⟨hs, h⟩ | ⟨node, hg, hs, h⟩ := ensure_cases digest env g stored running p inst
  · rw [h]
    simp [s, turn, hs, Progress.deployed]
  · rw [h]
    simp [s, turn, hs, hg]

theorem ensure_framed : Framed (ensure digest env stored running g)
    (fun inst => inst.wl.id) Progress.view := by
  intro p inst r hr
  have hs := (Scheduler.assign_result g env.now p.scheduler inst.wl.id inst.parent
    (requestOf inst.wl)).lookup_ne hr
  rw [ensure_eq]
  simp only [Progress.view, Progress.deployed, hs, sentFor_append,
    sentFor_ne (turn_replica digest env g _ _ inst.wl _) hr, List.append_nil]
  split
  · rw [lookup_insert_ne _ _ hr.symm]
  · rfl

theorem ensure_view :
    let s := (p.scheduler.assign g env.now inst.wl.id inst.parent (requestOf inst.wl)).1
    let d := turn digest env g p.pushed[inst.wl.id]? s.assignments[inst.wl.id]? inst.wl
      (mayRoll stored running p inst)
    (ensure digest env stored running g p inst).view inst.wl.id =
      (d.recorded.or p.pushed[inst.wl.id]?, s.assignments[inst.wl.id]?,
        sentFor inst.wl.id p.sent ++ d.sent) := by
  intro s d
  have hsent : sentFor inst.wl.id d.sent = d.sent :=
    sentFor_self (turn_replica digest env g _ _ inst.wl _)
  rw [ensure_eq]
  simp only [Progress.view, Progress.deployed, sentFor_append]
  change (_, _, _ ++ sentFor inst.wl.id d.sent) = _
  rw [hsent]
  cases d.recorded <;> simp [d, s]

end Turn

section Loops
variable (digest : Canonical → String) (env : Env) (stored : GoMap Workload)
  (running : GoMap Bool) (c : Reconciler)

def assignCalls (now : ℤ) (desired : GoMap ReplicaInstance) : List Scheduler.AssignCall :=
  (instances desired).map fun inst => ⟨inst.wl.id, inst.parent, requestOf inst.wl, now⟩

/-- The request that the desired state gives a replica. -/
def desiredRequest (desired : GoMap ReplicaInstance) (r : String) : Resources :=
  (desired[r]?.map fun inst => requestOf inst.wl).getD {}

theorem assignCalls_request (now : ℤ) :
    ∀ a ∈ assignCalls now (expand stored), a.req = desiredRequest (expand stored) a.replicaID := by
  intro a ha
  obtain ⟨inst, hi, rfl⟩ := List.mem_map.mp ha
  rw [desiredRequest, (mem_instances stored inst).mp hi]
  rfl

theorem foldl_ensure_scheduler (g : Registry) (l : List ReplicaInstance) (p : Progress) :
    (l.foldl (ensure digest env stored running g) p).scheduler = p.scheduler.assignAll g
      (l.map fun inst => ⟨inst.wl.id, inst.parent, requestOf inst.wl, env.now⟩) := by
  induction l generalizing p with
  | nil => rfl
  | cons inst l ih =>
    rw [List.foldl_cons, ih, ensure_scheduler]
    rfl

theorem ensureAll_scheduler : (ensureAll digest env stored running c).scheduler =
    c.scheduler.assignAll c.registry (assignCalls env.now (expand stored)) :=
  foldl_ensure_scheduler ..

theorem ensureAll_view_of_none {r : String} (h : (expand stored)[r]? = none) :
    (ensureAll digest env stored running c).view r =
      (c.pushed[r]?, c.scheduler.assignments[r]?, []) := by
  refine (ensure_framed digest env c.registry stored running).foldl_of_notMem ?_ _
  intro hm
  obtain ⟨inst, hi, rfl⟩ := List.mem_map.mp hm
  rw [(mem_instances stored inst).mp hi] at h
  exact absurd h (Option.some_ne_none inst)

/-- A desired replica's record, assignment and calls after the loop, from the state
    before the loop and the node that the assignments end on. -/
theorem ensureAll_view_of_some {r : String} {inst : ReplicaInstance}
    (h : (expand stored)[r]? = some inst) :
    ∃ roll : Bool, (roll = true → running.getD r false = true) ∧
      let n := (c.scheduler.assignAll c.registry (assignCalls env.now (expand stored))).assignments[r]?
      let d := turn digest env c.registry c.pushed[r]? n inst.wl roll
      (ensureAll digest env stored running c).view r = (d.recorded.or c.pushed[r]?, n, d.sent) := by
  have hid := expand_keyed h
  have hm : inst ∈ instances (expand stored) := (mem_instances stored inst).mpr (hid.symm ▸ h)
  obtain ⟨l₁, l₂, hl⟩ := List.append_of_mem hm
  have hnd := nodup_instances stored
  rw [hl] at hnd
  have hframe := ensure_framed digest env c.registry stored running
  obtain ⟨hbefore, hafter⟩ := hframe.foldl_visit hnd
    ⟨c.scheduler, c.pushed, unavailable (expand stored) running, []⟩
  rw [← hl] at hafter
  subst hid
  set p := l₁.foldl (ensure digest env stored running c.registry)
    ⟨c.scheduler, c.pushed, unavailable (expand stored) running, []⟩
  refine ⟨mayRoll stored running p inst, ?_, ?_⟩
  · intro hroll
    rw [mayRoll, Bool.and_eq_true] at hroll
    exact hroll.1
  · intro n d
    have hv := ensure_view digest env c.registry stored running p inst
    rw [← hafter] at hv
    simp only [Progress.view, Prod.mk.injEq] at hbefore
    obtain ⟨hpushed, -, hsent⟩ := hbefore
    dsimp only at hv
    have hn := congrArg (fun v : Option PushRecord × Option String × List Sent => v.2.1) hv
    change (ensureAll digest env stored running c).scheduler.assignments[inst.wl.id]? = _ at hn
    rw [ensureAll_scheduler] at hn
    dsimp only at hn
    rw [hpushed, hsent, ← hn] at hv
    exact hv

theorem stopRemoved_framed (g : Registry) (desired : GoMap ReplicaInstance) :
    Framed (stopRemoved env g desired) Assignment.workloadID Progress.view := by
  intro p a r hr
  unfold stopRemoved
  split_ifs
  · rfl
  · simp only [Progress.view, sentFor_append, sentFor_ne (stopOn_replica env g _ _ _) hr,
      List.append_nil, Scheduler.unassign, lookup_erase_ne _ hr.symm]

end Loops

end Reconciler

theorem Scheduler.mem_listAssignments (s : Scheduler) (a : Assignment) :
    a ∈ s.listAssignments ↔
      s.assignments[a.workloadID]? = some a.nodeID ∧ a.parentID = s.parent a.workloadID := by
  simp only [listAssignments, List.mem_map, Prod.exists, ExtTreeMap.mem_toList_iff_getElem?_eq_some]
  constructor
  · rintro ⟨r, n, h, rfl⟩
    exact ⟨h, rfl⟩
  · rintro ⟨h, hp⟩
    exact ⟨_, _, h, by rw [← hp]⟩

theorem Scheduler.nodup_listAssignments (s : Scheduler) :
    (s.listAssignments.map Assignment.workloadID).Nodup := by
  rw [listAssignments, List.map_map]
  exact ExtTreeMap.map_fst_toList_eq_keys (t := s.assignments) ▸ ExtTreeMap.nodup_keys

namespace Reconciler

section Stop
variable (env : Env) (g : Registry) (desired : GoMap ReplicaInstance) (p : Progress)

theorem stopAll_view_of_none {r : String} (h : p.scheduler.assignments[r]? = none) :
    (stopAll env g desired p).view r = p.view r := by
  refine (stopRemoved_framed env g desired).foldl_of_notMem ?_ p
  intro hm
  obtain ⟨a, ha, rfl⟩ := List.mem_map.mp hm
  rw [((p.scheduler.mem_listAssignments a).mp ha).1] at h
  exact absurd h (Option.some_ne_none _)

theorem stopAll_view_of_some {r n : String} (h : p.scheduler.assignments[r]? = some n) :
    (stopAll env g desired p).view r =
      if desired.contains r then p.view r
      else (none, none, sentFor r p.sent ++ stopOn env g .remove n r) := by
  have hm : ⟨r, n, p.scheduler.parent r⟩ ∈ p.scheduler.listAssignments :=
    (p.scheduler.mem_listAssignments _).mpr ⟨h, rfl⟩
  obtain ⟨l₁, l₂, hl⟩ := List.append_of_mem hm
  have hnd := p.scheduler.nodup_listAssignments
  rw [hl] at hnd
  obtain ⟨hbefore, hafter⟩ := (stopRemoved_framed env g desired).foldl_visit hnd p
  rw [← hl] at hafter
  dsimp only at hbefore hafter
  rw [stopAll, hafter, stopRemoved]
  split_ifs
  · exact hbefore
  · simp only [Progress.view, Prod.mk.injEq] at hbefore
    simp only [Progress.view, Scheduler.unassign, lookup_erase_self, sentFor_append, hbefore.2.2,
      sentFor_self (stopOn_replica env g _ _ _)]

theorem stopAll_view_of_desired {r : String} (h : desired[r]? ≠ none) :
    (stopAll env g desired p).view r = p.view r := by
  cases hs : p.scheduler.assignments[r]? with
  | none => exact stopAll_view_of_none env g desired p hs
  | some n =>
    rw [stopAll_view_of_some env g desired p hs, if_pos]
    rwa [ExtTreeMap.contains_iff_mem, ExtTreeMap.mem_iff_isSome_getElem?,
      Option.isSome_iff_ne_none]

/-- With every assigned replica desired there is nothing to stop. -/
theorem stopAll_of_desired
    (h : ∀ r n : String, p.scheduler.assignments[r]? = some n → desired[r]? ≠ none) :
    stopAll env g desired p = p := by
  have hfold : ∀ l : List Assignment, (∀ a ∈ l, desired[a.workloadID]? ≠ none) →
      l.foldl (stopRemoved env g desired) p = p := by
    intro l hl
    induction l with
    | nil => rfl
    | cons a l ih =>
      have ha : stopRemoved env g desired p a = p := by
        refine if_pos ?_
        rw [ExtTreeMap.contains_iff_mem, ExtTreeMap.mem_iff_isSome_getElem?,
          Option.isSome_iff_ne_none]
        exact hl a List.mem_cons_self
      rw [List.foldl_cons, ha]
      exact ih fun b hb => hl b (List.mem_cons_of_mem a hb)
  exact hfold _ fun a ha => h _ _ ((p.scheduler.mem_listAssignments a).mp ha).1

theorem stopAll_view_of_undesired {r n : String} (h : desired[r]? = none)
    (hs : p.scheduler.assignments[r]? = some n) : (stopAll env g desired p).view r =
      (none, none, sentFor r p.sent ++ stopOn env g .remove n r) := by
  rw [stopAll_view_of_some env g desired p hs, if_neg]
  rw [ExtTreeMap.contains_iff_mem, ExtTreeMap.mem_iff_isSome_getElem?, h]
  exact Bool.false_ne_true

end Stop

end Reconciler
end Smith
