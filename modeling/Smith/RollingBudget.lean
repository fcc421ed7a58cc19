import Smith.ReconcilerPacing
import Smith.StrandedContainers

set_option autoImplicit false

/-!
# The rolling budget

Only a replica that was both stopped and started again is charged to the counter of
its workload. A stop whose start fails is not charged, nor is a stop that moves the
replica to another node.
-/
namespace Smith
open FiniteMaps PacedLoops Std

/-- A call of the given branch that took a container down. -/
def Sent.stops (cause : Cause) (x : Sent) : Bool :=
  match x.call with
  | .unassign _ _ => x.cause = cause && x.ok
  | .assign _ _ => false

namespace Reconciler

def stopped (cause : Cause) (l : List Sent) : Bool := l.any (Sent.stops cause)

theorem stopped_append (cause : Cause) (l l' : List Sent) :
    stopped cause (l ++ l') = (stopped cause l || stopped cause l') :=
  List.any_append

section Deploy
variable (digest : Canonical → String) (env : Env) (node : Node) (wl : Workload) (g : Registry)

theorem stopped_pushAssignment (cause cause' : Cause) :
    stopped cause [pushAssignment env node wl cause'] = false := by
  simp [stopped, Sent.stops, pushAssignment]

theorem stopped_stopOn (cause cause' : Cause) (nodeID r : String) :
    stopped cause (stopOn env g cause' nodeID r) =
      (decide (cause' = cause) && (g.get nodeID).isSome && env.answer (.unassign nodeID r)) := by
  unfold stopOn
  cases h : g.get nodeID with
  | none => simp [stopped]
  | some m => simp [stopped, Sent.stops, pushUnassign, Registry.get_id h]

theorem stopped_roll (cause : Cause) : stopped cause (roll digest env node wl).sent =
    (decide (.roll = cause) && env.answer (.unassign node.id wl.id)) := by
  unfold roll
  cases hs : env.answer (.unassign node.id wl.id) <;>
    cases ha : env.answer (.assign node.id wl) <;>
      simp [stopped, Sent.stops, pushUnassign, pushAssignment, hs, ha]

theorem charged_roll : (roll digest env node wl).charged =
    (env.answer (.unassign node.id wl.id) && env.answer (.assign node.id wl)) := by
  unfold roll
  cases hs : env.answer (.unassign node.id wl.id) <;>
    cases ha : env.answer (.assign node.id wl) <;>
      simp [pushUnassign, pushAssignment, hs, ha]

def staleOn (record : Option PushRecord) (nodeID : Option String) : Bool :=
  record.any fun rec => nodeID = some rec.nodeID && rec.specHash ≠ specHash digest wl

def leaves (record : Option PushRecord) (nodeID : Option String) : Bool :=
  nodeID.isSome && record.any fun rec => nodeID ≠ some rec.nodeID && (g.get rec.nodeID).isSome

theorem turn_roll {nodeID : Option String} (hreg : ∀ n, nodeID = some n → g.get n ≠ none)
    (record : Option PushRecord) (mayRoll : Bool) :
    let d := turn digest env g record nodeID wl mayRoll
    let stop := mayRoll && staleOn digest wl record nodeID &&
      nodeID.any fun n => env.answer (.unassign n wl.id)
    stopped .roll d.sent = stop ∧
      d.charged = (stop && nodeID.any fun n => env.answer (.assign n wl)) := by
  cases nodeID with
  | none => simp [turn, stopped]
  | some n =>
    obtain ⟨node, hg⟩ := Option.ne_none_iff_exists'.mp (hreg n rfl)
    obtain rfl := Registry.get_id hg
    rw [turn_some digest env g hg]
    dsimp only
    obtain ⟨rfl, hs, -, hc⟩ | ⟨old, rfl, hne, hs, -, hc⟩ | ⟨old, rfl, heq, hh, rfl, hd⟩ |
      ⟨old, rfl, heq, hidle, hd⟩ := deploy_cases digest env node wl g record mayRoll
    · rw [hs, hc]
      simp [staleOn, stopped_pushAssignment]
    · rw [hs, hc, stopped_append, stopped_stopOn, stopped_pushAssignment]
      simp [staleOn, Ne.symm hne]
    · rw [hd, stopped_roll, charged_roll]
      simp [staleOn, heq, hh]
    · rw [hd]
      rcases hidle with hh | rfl <;> simp [staleOn, stopped, *]

theorem turn_relocate {nodeID : Option String} (hreg : ∀ n, nodeID = some n → g.get n ≠ none)
    (record : Option PushRecord) (mayRoll : Bool) :
    stopped .relocate (turn digest env g record nodeID wl mayRoll).sent =
      (leaves g record nodeID && record.any fun rec => env.answer (.unassign rec.nodeID wl.id)) := by
  cases nodeID with
  | none => simp [turn, stopped, leaves]
  | some n =>
    obtain ⟨node, hg⟩ := Option.ne_none_iff_exists'.mp (hreg n rfl)
    obtain rfl := Registry.get_id hg
    rw [turn_some digest env g hg]
    obtain ⟨rfl, hs, -⟩ | ⟨old, rfl, hne, hs, -⟩ | ⟨old, rfl, heq, -, -, hd⟩ |
      ⟨old, rfl, heq, -, hd⟩ := deploy_cases digest env node wl g record mayRoll
    · rw [hs]
      simp [leaves, stopped_pushAssignment]
    · rw [hs, stopped_append, stopped_stopOn, stopped_pushAssignment]
      simp [leaves, Ne.symm hne]
    · rw [hd, stopped_roll]
      simp [leaves, heq]
    · rw [hd]
      simp [leaves, heq, stopped]

end Deploy

section Rolled
variable (digest : Canonical → String) (env : Env) (c : Reconciler)

/-- The Running replicas of a workload that the stale-spec branch stops. -/
def rolled (w : String) : List ReplicaInstance :=
  (c.replicasOf w).filter fun inst => (c.running env).getD inst.wl.id false &&
    stopped .roll (sentFor inst.wl.id (pass digest env c).2)

def staleInPlace (inst : ReplicaInstance) : Bool :=
  (c.running env).getD inst.wl.id false &&
    staleOn digest inst.wl (c.evictDead env.now).pushed[inst.wl.id]? (c.assigned env)[inst.wl.id]?

def stoppable (inst : ReplicaInstance) : Bool :=
  c.staleInPlace digest env inst &&
    (c.assigned env)[inst.wl.id]?.any fun n => env.answer (.unassign n inst.wl.id)

def startable (inst : ReplicaInstance) : Bool :=
  (c.assigned env)[inst.wl.id]?.any fun n => env.answer (.assign n inst.wl)

variable {c} in
theorem passTurn_roll {inst : ReplicaInstance} {w : String} (h : inst ∈ c.replicasOf w)
    (within : Bool) :
    stopped .roll (c.passTurn digest env inst within).sent =
        (within && c.stoppable digest env inst) ∧
      (c.passTurn digest env inst within).charged =
        (within && c.stoppable digest env inst && c.startable env inst) := by
  have hd := ((c.mem_replicasOf w inst).mp h).1
  have hreg := assigned_get env c (hd ▸ Option.some_ne_none inst)
  have hroll := turn_roll digest env inst.wl (c.evictDead env.now).registry hreg
    (c.evictDead env.now).pushed[inst.wl.id]? ((c.running env).getD inst.wl.id false && within)
  rw [stoppable, staleInPlace]
  refine ⟨hroll.1.trans ?_, hroll.2.trans ?_⟩
  · rw [Bool.and_comm _ within, Bool.and_assoc, Bool.and_assoc, Bool.and_assoc]
  · rw [Bool.and_comm _ within, Bool.and_assoc within, Bool.and_assoc within, startable]

theorem rolled_eq_spend (w : String) : c.rolled digest env w =
    spend (fun inst => (c.passTurn digest env inst true).charged) (c.budget env w)
      ((c.replicasOf w).filter (c.stoppable digest env)) := by
  have hrolled : c.rolled digest env w = ((c.passTurns digest env w).filter
      fun e => stopped .roll e.2.sent).map Prod.fst := by
    rw [rolled, ← map_fst_passTurns digest env c w, List.filter_map]
    refine congrArg (List.map Prod.fst) (List.filter_congr fun e he => ?_)
    obtain ⟨hmem, within, hd⟩ := mem_paced he
    have hroll := (passTurn_roll digest env hmem within).1
    rw [Function.comp_apply, (pass_turns digest env c w e he).2, hd, hroll, stoppable, staleInPlace]
    cases (c.running env).getD e.1.wl.id false <;> simp
  have hspend := filter_paced (c.passTurn digest env) Deployment.charged
    (fun d => stopped .roll d.sent) (maxUnavailable (workloadOf c.store.list w))
    (l := c.replicasOf w)
    (fun inst hi => (passTurn_roll digest env hi false).1)
    (fun inst hi within hc => by
      rw [(passTurn_roll digest env hi within).2, Bool.and_eq_true] at hc
      rw [(passTurn_roll digest env hi within).1]
      exact hc.1)
    (c.notRunning env w)
  rw [hrolled, passTurns, hspend]
  refine congrArg _ (List.filter_congr fun inst hi => ?_)
  rw [(passTurn_roll digest env hi true).1, Bool.true_and]

/-- The stale-spec branch stays within the budget exactly if the budget is enough for
    every replica it could stop, or every replica that fills it starts again. -/
theorem rolled_within_budget_iff (w : String) :
    (c.rolled digest env w).length ≤ c.budget env w ↔
      ((c.replicasOf w).filter (c.stoppable digest env)).length ≤ c.budget env w ∨
      ∀ inst ∈ ((c.replicasOf w).filter (c.stoppable digest env)).take (c.budget env w),
        c.startable env inst = true := by
  rw [rolled_eq_spend, length_spend_le_iff]
  refine or_congr_right (forall₂_congr fun inst hi => ?_)
  have hi := List.mem_filter.mp (List.mem_of_mem_take hi)
  rw [(passTurn_roll digest env hi.1 true).2, hi.2, Bool.and_self, Bool.true_and]

def Stays (w : String) : Prop :=
  ∀ inst ∈ c.replicasOf w, ∀ rec ∈ c.pushed[inst.wl.id]?,
    (c.assigned env)[inst.wl.id]? = some rec.nodeID

/-- A workload of two replicas runs on `n1`, and then its image changes. -/
def imageUpdated : Cluster :=
  Cluster.runOf (Cluster.thenPass (Cluster.deployed ["n1"] [] ++
    [.add { id := "a", image := "web", replicas := 2 }]) 1 ++
    [.add { id := "a", image := "web:2", replicas := 2 }])

def startFails : Call → Bool
  | .assign _ wl => wl.id ≠ "a-0"
  | .unassign _ _ => true

/-- With a budget of one, the failed start of `a-0` leaves the stop of `a-1` allowed. -/
theorem failed_start_exceeds_budget :
    ¬ ∀ (digest : Canonical → String) (env : Env) (c : Reconciler) (w : String),
      Stays env c w → (c.rolled digest env w).length ≤ c.budget env w := by
  intro h
  have hs := h Canonical.image { Cluster.honest imageUpdated 2 with answer := startFails }
    imageUpdated.plane "a" (by unfold Stays; decide +kernel)
  revert hs
  decide +kernel

end Rolled

section TakenDown
variable (digest : Canonical → String) (env : Env) (c : Reconciler)

/-- The Running replicas of a workload that a pass stops, in place or by a move. -/
def takenDown (w : String) : List ReplicaInstance :=
  (c.replicasOf w).filter fun inst => (c.running env).getD inst.wl.id false &&
    (stopped .roll (sentFor inst.wl.id (pass digest env c).2) ||
      stopped .relocate (sentFor inst.wl.id (pass digest env c).2))

def relocating (inst : ReplicaInstance) : Bool :=
  (c.running env).getD inst.wl.id false &&
    leaves (c.evictDead env.now).registry (c.evictDead env.now).pushed[inst.wl.id]?
      (c.assigned env)[inst.wl.id]?

variable {env c}

theorem not_leaves_of_staleOn {wl : Workload} {g : Registry} {record : Option PushRecord}
    {nodeID : Option String} (h : staleOn digest wl record nodeID = true) :
    leaves g record nodeID = false := by
  cases record with
  | none => simp [staleOn] at h
  | some rec =>
    have hn : nodeID = some rec.nodeID := by
      simp only [staleOn, Option.any_some, Bool.and_eq_true, decide_eq_true_eq] at h
      exact h.1
    simp [leaves, hn]

theorem length_takenDown (hok : ∀ call, env.answer call = true) (w : String) :
    (c.takenDown digest env w).length = (c.rolled digest env w).length +
      ((c.replicasOf w).filter (c.relocating env)).length := by
  have hcount : ∀ (l : List ReplicaInstance) (p q : ReplicaInstance → Bool),
      (∀ a ∈ l, p a = true → q a = false) →
      (l.filter fun a => p a || q a).length = (l.filter p).length + (l.filter q).length := by
    intro l p q hpq
    simp only [← List.countP_eq_length_filter]
    induction l with
    | nil => rfl
    | cons a l ih =>
      have ih := ih fun b hb => hpq b (List.mem_cons_of_mem a hb)
      have ha := hpq a List.mem_cons_self
      simp only [List.countP_cons, ih]
      cases hp : p a <;> cases hq : q a <;> simp_all <;> omega
  have hsent : ∀ inst ∈ c.replicasOf w,
      (stopped .roll (sentFor inst.wl.id (pass digest env c).2) = true →
        c.relocating env inst = false) ∧
      ((c.running env).getD inst.wl.id false &&
        stopped .relocate (sentFor inst.wl.id (pass digest env c).2)) = c.relocating env inst := by
    intro inst hi
    have hd := ((c.mem_replicasOf w inst).mp hi).1
    obtain ⟨roll, -, -, -, hs⟩ := pass_desired digest env c hd
    have hreg := assigned_get env c (hd ▸ Option.some_ne_none inst)
    rw [hs, (turn_roll digest env inst.wl _ hreg _ roll).1, turn_relocate digest env inst.wl _ hreg]
    constructor
    · intro hroll
      simp only [Bool.and_eq_true] at hroll
      rw [relocating, not_leaves_of_staleOn digest hroll.1.2, Bool.and_false]
    · rw [relocating]
      cases (c.evictDead env.now).pushed[inst.wl.id]? <;> simp [leaves, hok]
  rw [takenDown, rolled]
  simp only [Bool.and_or_distrib_left]
  rw [hcount, List.filter_congr fun inst hi => (hsent inst hi).2]
  intro inst hi hroll
  rw [(hsent inst hi).2]
  rw [Bool.and_eq_true] at hroll
  exact (hsent inst hi).1 hroll.2

theorem rolled_eq_take (hok : ∀ call, env.answer call = true) (w : String) :
    c.rolled digest env w =
      ((c.replicasOf w).filter (c.staleInPlace digest env)).take (c.budget env w) := by
  have hstop : c.stoppable digest env = c.staleInPlace digest env := by
    funext inst
    rw [stoppable]
    cases hn : (c.assigned env)[inst.wl.id]? with
    | none =>
      cases hp : (c.evictDead env.now).pushed[inst.wl.id]? <;> simp [staleInPlace, staleOn, hn, hp]
    | some n => simp [hok]
  rw [rolled_eq_spend, spend_of_pays]
  · rw [hstop]
  · intro inst hi
    have hi := List.mem_filter.mp hi
    rw [(passTurn_roll digest env hi.1 true).2, hi.2, startable]
    have hstop := hi.2
    rw [stoppable, Bool.and_eq_true] at hstop
    cases hn : (c.assigned env)[inst.wl.id]? with
    | none => simp [hn] at hstop
    | some n => simp [hok]

/-- With all calls succeeding, a pass stays within the budget exactly if it moves no
    Running replica, or if the budget is enough for all it moves or could replace. -/
theorem takenDown_within_budget_iff (digest : Canonical → String) (env : Env) (c : Reconciler)
    (hok : ∀ call, env.answer call = true) (w : String) :
    (c.takenDown digest env w).length ≤ c.budget env w ↔
      ((c.replicasOf w).filter (c.relocating env)).length = 0 ∨
      ((c.replicasOf w).filter (c.relocating env)).length +
        ((c.replicasOf w).filter (c.staleInPlace digest env)).length ≤ c.budget env w := by
  rw [length_takenDown digest hok, rolled_eq_take digest hok, List.length_take]
  omega

/-- A digest that tells the two memory requests below apart. -/
def sizeDigest (k : Canonical) : String :=
  if (k.resources.map Resources.memoryMB).getD 0 ≤ 1000 then "small" else "large"

def twoReplicas (memoryMB : ℤ) : Workload :=
  { id := "a", image := "web", resources := some ⟨0, memoryMB⟩, replicas := 2 }

/-- Two replicas of 1000 MB next to other workloads on `n1` and `n2`. -/
def sharing (others : List (String × ℤ)) : Cluster :=
  let cl := Runs.run (Cluster.step sizeDigest) (Cluster.new 1 Int.zero_lt_one)
    (Cluster.deployed ["n1", "n2"] others ++ [.add (twoReplicas 1000)])
  cl.step sizeDigest (.reconcile (Cluster.honest cl 1))

/-- Both nodes have room for the new request, so one replica is replaced in place. -/
theorem takenDown_within_budget_iff_in_place :
    let cl := (sharing []).step sizeDigest (.add (twoReplicas 2000))
    (cl.plane.takenDown sizeDigest (Cluster.honest cl 2) "a").length ≤
      cl.plane.budget (Cluster.honest cl 2) "a" :=
  (takenDown_within_budget_iff _ _ _ (fun _ => rfl) _).mpr (.inl (by decide +kernel))

/-- Next to `z-0` the new request no longer fits `n1`: `a-0` moves to `n2`, where the
    same pass replaces `a-1`. -/
theorem relocation_exceeds_budget :
    ¬ ∀ (digest : Canonical → String) (env : Env) (cl : Cluster) (w : Workload)
      (resources : Option Resources), cl.plane.store.list[w.id]? = some w →
      (∀ call, env.answer call = true) →
      let c := (cl.step digest (.add { w with resources := resources })).plane
      (c.takenDown digest env w.id).length ≤ c.budget env w.id := by
  intro h
  have hstored : (sharing [("z", 5500)]).plane.store.list["a"]? = some (twoReplicas 1000) := rfl
  have hs := h sizeDigest (Cluster.honest ((sharing [("z", 5500)]).step sizeDigest
    (.add (twoReplicas 2000))) 2) (sharing [("z", 5500)]) (twoReplicas 1000) (some ⟨0, 2000⟩)
    hstored (fun _ => rfl)
  revert hs
  decide +kernel

end TakenDown

end Reconciler
end Smith
