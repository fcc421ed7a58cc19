import Smith.ReconcilerLoops

set_option autoImplicit false

/-!
# What a pass does to each replica

A dead node's replicas lose assignment and push record together. After that a pass
deploys a desired replica in one turn, by its push record and the node that
`Assign` leaves it on, and stops any other replica on the node of its assignment.
-/
namespace Smith
open FiniteMaps KeyedLoops Std

namespace Reconciler

section Evict
variable (c : Reconciler)

theorem evict_assignments (node : Node) (r : String) :
    (c.evict node).scheduler.assignments[r]? =
      if c.scheduler.assignments[r]? = some node.id then none
      else c.scheduler.assignments[r]? := by
  have h := lookup_foldl_erase c.scheduler.assignments (c.scheduler.reassignNode node.id).2 r
  rw [← Scheduler.foldl_unassign_assignments] at h
  simp only [Scheduler.mem_evicted] at h
  exact h

theorem evict_pushed (node : Node) (r : String) :
    (c.evict node).pushed[r]? =
      if c.scheduler.assignments[r]? = some node.id then none else c.pushed[r]? := by
  have h := lookup_foldl_erase c.pushed (c.scheduler.reassignNode node.id).2 r
  simp only [Scheduler.mem_evicted] at h
  exact h

theorem foldl_evict (l : List Node) (r : String) :
    ((∃ node ∈ l, c.scheduler.assignments[r]? = some node.id) ∧
      (l.foldl evict c).scheduler.assignments[r]? = none ∧ (l.foldl evict c).pushed[r]? = none) ∨
    ((∀ node ∈ l, c.scheduler.assignments[r]? ≠ some node.id) ∧
      (l.foldl evict c).scheduler.assignments[r]? = c.scheduler.assignments[r]? ∧
      (l.foldl evict c).pushed[r]? = c.pushed[r]?) := by
  induction l generalizing c with
  | nil => exact .inr ⟨by simp, rfl, rfl⟩
  | cons node l ih =>
    rw [List.foldl_cons]
    have hA := evict_assignments c node r
    have hP := evict_pushed c node r
    by_cases h : c.scheduler.assignments[r]? = some node.id
    · rw [if_pos h] at hA hP
      refine .inl ⟨⟨node, List.mem_cons_self, h⟩, ?_⟩
      obtain ⟨-, ha, hp⟩ | ⟨-, ha, hp⟩ := ih (c.evict node)
      · exact ⟨ha, hp⟩
      · exact ⟨ha.trans hA, hp.trans hP⟩
    · rw [if_neg h] at hA hP
      obtain ⟨⟨m, hm, he⟩, ha, hp⟩ | ⟨hm, ha, hp⟩ := ih (c.evict node)
      · exact .inl ⟨⟨m, List.mem_cons_of_mem node hm, hA ▸ he⟩, ha, hp⟩
      · refine .inr ⟨?_, ha.trans hA, hp.trans hP⟩
        intro m hmem
        rcases List.mem_cons.mp hmem with rfl | hmem
        · exact h
        · exact hA ▸ hm m hmem

theorem foldl_evict_rest (l : List Node) : (l.foldl evict c).store = c.store ∧
    (l.foldl evict c).interval = c.interval ∧ ∀ id, (l.foldl evict c).registry.get id =
      if id ∈ l.map Node.id then none else c.registry.get id := by
  induction l generalizing c with
  | nil => exact ⟨rfl, rfl, by simp⟩
  | cons node l ih =>
    obtain ⟨hs, hi, hg⟩ := ih (c.evict node)
    refine ⟨hs, hi, fun id => ?_⟩
    rw [List.foldl_cons, hg]
    change (if id ∈ l.map Node.id then none else (c.registry.remove node.id).get id) = _
    rw [Registry.get_remove, List.map_cons]
    by_cases h : node.id = id
    · simp [h]
    · simp only [List.mem_cons, Ne.symm h, false_or, if_neg h]

theorem evictDead_store (now : ℤ) : (c.evictDead now).store = c.store :=
  (foldl_evict_rest c _).1

theorem evictDead_interval (now : ℤ) : (c.evictDead now).interval = c.interval :=
  (foldl_evict_rest c _).2.1

theorem evictDead_of_alive {now : ℤ} (h : c.registry.dead now = []) : c.evictDead now = c := by
  rw [evictDead, h]
  rfl

end Evict

theorem foldl_status_getD (l : List (String × ProcessStatus)) (out : GoMap Bool) (r : String) :
    (l.foldl (fun out e => if e.2 = .running then out.insert e.1 true else out) out).getD r false =
        true ↔ out.getD r false = true ∨ (r, .running) ∈ l := by
  induction l generalizing out with
  | nil => simp
  | cons e l ih =>
    rw [List.foldl_cons, ih, List.mem_cons]
    by_cases he : e.2 = .running
    · rw [if_pos he, getD_eq, lookup_insert]
      by_cases hr : e.1 = r
      · have hre : (r, ProcessStatus.running) = e := by rw [← hr, ← he]
        simp [hr, hre]
      · have hre : (r, ProcessStatus.running) ≠ e := fun h => hr (by rw [← h])
        simp [hr, hre, getD_eq]
    · have hre : (r, ProcessStatus.running) ≠ e := fun h => he (by rw [← h])
      simp [he, hre]

theorem clusterRunning_iff (env : Env) (g : Registry) (r : String) :
    (clusterRunning env g).getD r false = true ↔ ∃ node ∈ g.alive env.now, ∃ status,
      env.status node.id = some status ∧ status[r]? = some .running := by
  have hfold : ∀ (l : List Node) (out : GoMap Bool),
      (l.foldl (readStatus env) out).getD r false = true ↔
      out.getD r false = true ∨ ∃ node ∈ l, ∃ status, env.status node.id = some status ∧
        status[r]? = some .running := by
    intro l
    induction l with
    | nil => simp
    | cons node l ih =>
      intro out
      rw [List.foldl_cons, ih, readStatus]
      cases hs : env.status node.id with
      | none => simp [hs]
      | some status =>
        dsimp only
        rw [ExtTreeMap.foldl_eq_foldl_toList, foldl_status_getD,
          ExtTreeMap.mem_toList_iff_getElem?_eq_some]
        simp [hs, or_assoc]
  rw [clusterRunning, hfold]
  simp [getD_eq]

/-- The four things a turn can do for an assigned replica. -/
theorem deploy_cases (digest : Canonical → String) (env : Env) (node : Node) (wl : Workload)
    (g : Registry) (record : Option PushRecord) (mayRoll : Bool) :
    let d := deploy digest env node wl g record mayRoll
    let stored := if env.answer (.assign node.id wl) then some (recordPush digest env node wl) else none
    (record = none ∧ d.sent = [pushAssignment env node wl .place] ∧ d.recorded = stored ∧
      d.charged = false) ∨
    (∃ rec, record = some rec ∧ rec.nodeID ≠ node.id ∧
      d.sent = stopOn env g .relocate rec.nodeID wl.id ++ [pushAssignment env node wl .relocate] ∧
      d.recorded = stored ∧ d.charged = false) ∨
    (∃ rec, record = some rec ∧ rec.nodeID = node.id ∧ rec.specHash ≠ specHash digest wl ∧
      mayRoll = true ∧ d = roll digest env node wl) ∨
    (∃ rec, record = some rec ∧ rec.nodeID = node.id ∧
      (rec.specHash = specHash digest wl ∨ mayRoll = false) ∧ d = {}) := by
  intro d stored
  cases record with
  | none => exact .inl ⟨rfl, rfl, rfl, rfl⟩
  | some rec =>
    by_cases hn : rec.nodeID = node.id
    · by_cases hh : rec.specHash = specHash digest wl
      · refine .inr (.inr (.inr ⟨rec, rfl, hn, .inl hh, ?_⟩))
        simp [d, deploy, hn, hh]
      · cases mayRoll with
        | true =>
          refine .inr (.inr (.inl ⟨rec, rfl, hn, hh, rfl, ?_⟩))
          simp [d, deploy, hn, hh]
        | false =>
          refine .inr (.inr (.inr ⟨rec, rfl, hn, .inr rfl, ?_⟩))
          simp [d, deploy, hn, hh]
    · have hd : d = ⟨(relocate env node wl g rec.nodeID).1, stored, false⟩ := if_pos hn
      exact .inr (.inl ⟨rec, rfl, hn, by rw [hd]; rfl, by rw [hd], by rw [hd]⟩)

theorem roll_recorded (digest : Canonical → String) (env : Env) (node : Node) (wl : Workload) :
    (roll digest env node wl).recorded = none ∨
      (roll digest env node wl).recorded = some (recordPush digest env node wl) := by
  unfold roll
  dsimp only
  split_ifs
  · exact .inr rfl
  · exact .inl rfl
  · exact .inl rfl

section Pass
variable (digest : Canonical → String) (env : Env) (c : Reconciler)

/-- The assignments after one `Assign` for every desired replica. -/
def assigned : GoMap String :=
  ((c.evictDead env.now).scheduler.assignAll (c.evictDead env.now).registry
    (assignCalls env.now (expand c.store.list))).assignments

theorem assigned_get {r : String} (hr : (expand c.store.list)[r]? ≠ none) :
    ∀ n, (c.assigned env)[r]? = some n → (c.evictDead env.now).registry.get n ≠ none := by
  obtain ⟨inst, hinst⟩ := Option.ne_none_iff_exists'.mp hr
  have hid := expand_keyed hinst
  have hcall : ∃ a ∈ assignCalls env.now (expand c.store.list), a.replicaID = r :=
    ⟨_, List.mem_map_of_mem ((mem_instances c.store.list inst).mpr (hid.symm ▸ hinst)), hid⟩
  exact Scheduler.assignAll_registered _ _ _ r (.inl hcall)

theorem assigned_registered {r n : String} (hr : (expand c.store.list)[r]? ≠ none)
    (h : (c.assigned env)[r]? = some n) :
    ∃ node, (c.evictDead env.now).registry.get n = some node ∧ node.id = n := by
  obtain ⟨node, hnode⟩ := Option.ne_none_iff_exists'.mp (assigned_get env c hr n h)
  exact ⟨node, hnode, Registry.get_id hnode⟩

/-- The replicas a pass takes to be Running. -/
def running : GoMap Bool := clusterRunning env (c.evictDead env.now).registry

/-- Whether a push record outlives the check for replicas that are not Running. -/
def keeps (r : String) (rec : PushRecord) : Bool :=
  env.now - rec.pushedAt < 2 * c.interval || (c.running env).getD r false

theorem pass_rest : (pass digest env c).1.registry = (c.evictDead env.now).registry ∧
    (pass digest env c).1.store = c.store ∧ (pass digest env c).1.interval = c.interval :=
  ⟨rfl, evictDead_store c env.now, evictDead_interval c env.now⟩

theorem pass_scheduler (h : ∀ r n : String,
      (c.evictDead env.now).scheduler.assignments[r]? = some n → (expand c.store.list)[r]? ≠ none) :
    (pass digest env c).1.scheduler = (c.evictDead env.now).scheduler.assignAll
      (c.evictDead env.now).registry (assignCalls env.now (expand c.store.list)) := by
  rw [← ensureAll_scheduler digest env c.store.list (c.running env) (c.evictDead env.now)]
  have hstop : stopAll env (c.evictDead env.now).registry (expand c.store.list) _ = _ :=
    stopAll_of_desired env (c.evictDead env.now).registry (expand c.store.list)
      (repush env.now (c.evictDead env.now).interval (c.running env)
        (ensureAll digest env c.store.list (c.running env) (c.evictDead env.now))) ?_
  · have hs := congrArg Progress.scheduler hstop
    exact hs
  · intro r n hr
    simp only [repush, ensureAll_scheduler] at hr
    rcases Scheduler.assignAll_keys _ _ _ r (hr ▸ Option.some_ne_none n) with hr | ⟨a, ha, rfl⟩
    · obtain ⟨m, hm⟩ := Option.ne_none_iff_exists'.mp hr
      exact h r m hm
    · obtain ⟨inst, hi, rfl⟩ := List.mem_map.mp ha
      rw [(mem_instances c.store.list inst).mp hi]
      exact Option.some_ne_none inst

theorem repush_view (p : Progress) (r : String) :
    (repush env.now (c.evictDead env.now).interval (c.running env) p).view r =
      ((p.view r).1.filter (c.keeps env r), (p.view r).2) := by
  rw [evictDead_interval]
  simp only [Progress.view, repush, lookup_filter]
  rfl

theorem pass_view (r : String) :
    ((pass digest env c).1.pushed[r]?, (pass digest env c).1.scheduler.assignments[r]?,
      sentFor r (pass digest env c).2) =
    (stopAll env (c.evictDead env.now).registry (expand c.store.list)
      (repush env.now (c.evictDead env.now).interval (c.running env)
        (ensureAll digest env c.store.list (c.running env) (c.evictDead env.now)))).view r :=
  rfl

theorem pass_view_of_desired {r : String} (h : (expand c.store.list)[r]? ≠ none) :
    ((pass digest env c).1.pushed[r]?, (pass digest env c).1.scheduler.assignments[r]?,
      sentFor r (pass digest env c).2) =
    let v := (ensureAll digest env c.store.list (c.running env) (c.evictDead env.now)).view r
    (v.1.filter (c.keeps env r), v.2) := by
  rw [pass_view, stopAll_view_of_desired _ _ _ _ h, repush_view]

/-- A pass deploys a desired replica in one turn and checks its record. -/
theorem pass_desired {r : String} {inst : ReplicaInstance}
    (h : (expand c.store.list)[r]? = some inst) :
    ∃ roll : Bool, (roll = true → (c.running env).getD r false = true) ∧
      let d := turn digest env (c.evictDead env.now).registry (c.evictDead env.now).pushed[r]?
        (c.assigned env)[r]? inst.wl roll
      (pass digest env c).1.pushed[r]? =
        (d.recorded.or (c.evictDead env.now).pushed[r]?).filter (c.keeps env r) ∧
      (pass digest env c).1.scheduler.assignments[r]? = (c.assigned env)[r]? ∧
      sentFor r (pass digest env c).2 = d.sent := by
  obtain ⟨roll, hroll, hv⟩ := ensureAll_view_of_some digest env c.store.list (c.running env)
    (c.evictDead env.now) h
  refine ⟨roll, hroll, ?_⟩
  have hp := pass_view_of_desired digest env c (h ▸ Option.some_ne_none inst)
  dsimp only at hv hp
  rw [hv] at hp
  simp only [Prod.mk.injEq] at hp
  exact hp

theorem pass_pending {r : String} {inst : ReplicaInstance}
    (h : (expand c.store.list)[r]? = some inst) (hn : (c.assigned env)[r]? = none) :
    (pass digest env c).1.pushed[r]? = (c.evictDead env.now).pushed[r]?.filter (c.keeps env r) ∧
      sentFor r (pass digest env c).2 = [] := by
  obtain ⟨roll, -, hpushed, -, hsent⟩ := pass_desired digest env c h
  rw [hn, turn_none] at hpushed hsent
  exact ⟨hpushed, hsent⟩

/-- A pass stops an assigned replica that is not desired on the node of its
    assignment, and only checks the record of an unassigned one. -/
theorem pass_undesired {r : String} (h : (expand c.store.list)[r]? = none) :
    (pass digest env c).1.scheduler.assignments[r]? = none ∧
    (((c.evictDead env.now).scheduler.assignments[r]? = none ∧
      (pass digest env c).1.pushed[r]? =
        (c.evictDead env.now).pushed[r]?.filter (c.keeps env r) ∧
      sentFor r (pass digest env c).2 = []) ∨
    ∃ n, (c.evictDead env.now).scheduler.assignments[r]? = some n ∧
      (pass digest env c).1.pushed[r]? = none ∧
      sentFor r (pass digest env c).2 = stopOn env (c.evictDead env.now).registry .remove n r) := by
  have hv := ensureAll_view_of_none digest env c.store.list (c.running env) (c.evictDead env.now) h
  have hp := pass_view digest env c r
  have hr := repush_view env c (ensureAll digest env c.store.list (c.running env)
    (c.evictDead env.now)) r
  rw [hv] at hr
  simp only [Progress.view, Prod.mk.injEq] at hr
  cases hs : (c.evictDead env.now).scheduler.assignments[r]? with
  | none =>
    rw [hs] at hr
    rw [stopAll_view_of_none _ _ _ _ hr.2.1] at hp
    simp only [Progress.view, Prod.mk.injEq, hr.1, hr.2.1, hr.2.2] at hp
    exact ⟨hp.2.1, .inl ⟨rfl, hp.1, hp.2.2⟩⟩
  | some n =>
    rw [hs] at hr
    rw [stopAll_view_of_undesired _ _ _ _ h hr.2.1, hr.2.2] at hp
    simp only [Prod.mk.injEq, List.nil_append] at hp
    exact ⟨hp.2.1, .inr ⟨n, rfl, hp.1, hp.2.2⟩⟩

end Pass

end Reconciler
end Smith
