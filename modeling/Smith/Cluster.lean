import Smith.ReconcilerPass

set_option autoImplicit false

/-!
# The control plane together with its agents

An agent holds containers under replica ids, each with the workload it was created
from. It ignores an assign for an id that exists and forgets a container that is
unassigned or exits. A call that fails leaves the agent as it was.
-/
namespace Smith
open FiniteMaps Runs Std

abbrev Agents := String → GoMap Workload

namespace Agents

def apply (a : Agents) : Call → Agents
  | .assign nodeID w => Function.update a nodeID
      (if (a nodeID).contains w.id then a nodeID else (a nodeID).insert w.id w)
  | .unassign nodeID id => Function.update a nodeID ((a nodeID).erase id)

def receive (a : Agents) (sent : List Sent) : Agents :=
  sent.foldl (fun a x => if x.ok then a.apply x.call else a) a

theorem receive_nil (a : Agents) : a.receive [] = a := rfl

theorem receive_cons (a : Agents) (x : Sent) (l : List Sent) :
    a.receive (x :: l) = (if x.ok then a.apply x.call else a).receive l := rfl

theorem receive_append (a : Agents) (l l' : List Sent) :
    a.receive (l ++ l') = (a.receive l).receive l' :=
  List.foldl_append

theorem apply_assign (a : Agents) (nodeID : String) (w : Workload) (n r : String) :
    (a.apply (.assign nodeID w) n)[r]? =
      if n = nodeID ∧ r = w.id ∧ (a n)[r]? = none then some w else (a n)[r]? := by
  unfold apply
  dsimp only
  by_cases hn : n = nodeID
  · subst hn
    rw [Function.update_self]
    by_cases hc : (a n).contains w.id
    · rw [if_pos hc, if_neg]
      rintro ⟨-, rfl, hr⟩
      rw [ExtTreeMap.contains_iff_mem, ExtTreeMap.mem_iff_isSome_getElem?, hr] at hc
      exact Bool.false_ne_true hc
    · rw [if_neg hc, lookup_insert]
      have hnone : (a n)[w.id]? = none := by simpa using hc
      by_cases hr : w.id = r
      · subst hr
        simp [hnone]
      · simp [hr, Ne.symm hr]
  · rw [Function.update_of_ne hn, if_neg fun h => hn h.1]

theorem apply_unassign (a : Agents) (nodeID id n r : String) :
    (a.apply (.unassign nodeID id) n)[r]? =
      if n = nodeID ∧ r = id then none else (a n)[r]? := by
  unfold apply
  dsimp only
  by_cases hn : n = nodeID
  · subst hn
    rw [Function.update_self, lookup_erase]
    simp [eq_comm]
  · rw [Function.update_of_ne hn, if_neg fun h => hn h.1]

theorem apply_of_ne (a : Agents) {call : Call} {r : String} (h : call.replica ≠ r) (n : String) :
    (a.apply call n)[r]? = (a n)[r]? := by
  cases call with
  | assign nodeID w => rw [apply_assign, if_neg fun hc => h hc.2.1.symm]
  | unassign nodeID id => rw [apply_unassign, if_neg fun hc => h hc.2.symm]

/-- A replica's containers only depend on the calls about that replica. -/
theorem receive_sentFor (a : Agents) (l : List Sent) (n r : String) :
    (a.receive l n)[r]? = (a.receive (sentFor r l) n)[r]? := by
  have hcongr : ∀ (l : List Sent) (a b : Agents), (∀ n, (a n)[r]? = (b n)[r]?) →
      ∀ n, (a.receive l n)[r]? = (b.receive (sentFor r l) n)[r]? := by
    intro l
    induction l with
    | nil => exact fun a b h => h
    | cons x l ih =>
      intro a b h
      by_cases hx : x.call.replica = r
      · rw [sentFor, List.filter_cons_of_pos (by simpa using hx)]
        refine ih _ _ fun n => ?_
        dsimp only
        split_ifs
        · cases hc : x.call with
          | assign nodeID w => rw [apply_assign, apply_assign, h n]
          | unassign nodeID id => rw [apply_unassign, apply_unassign, h n]
        · exact h n
      · rw [sentFor, List.filter_cons_of_neg (by simpa using hx)]
        refine ih _ _ fun n => ?_
        dsimp only
        split_ifs
        · rw [apply_of_ne a hx, h n]
        · exact h n
  exact hcongr l a a (fun _ => rfl) n

section Calls
open Reconciler
variable (a : Agents) (env : Env) (n r : String)

theorem receive_pushAssignment (node : Node) (wl : Workload) (cause : Cause) :
    (a.receive [pushAssignment env node wl cause] n)[r]? =
      if n = node.id ∧ r = wl.id ∧ env.answer (.assign node.id wl) = true ∧ (a n)[r]? = none then
        some wl
      else (a n)[r]? := by
  rw [receive_cons, receive_nil, pushAssignment]
  by_cases h : env.answer (.assign node.id wl) = true
  · simp only [h, ↓reduceIte, apply_assign, true_and]
  · simp only [h, Bool.false_eq_true, ↓reduceIte, false_and, and_false]

theorem receive_stopOn (g : Registry) (cause : Cause) (m q : String) :
    (a.receive (stopOn env g cause m q) n)[r]? =
      if n = m ∧ r = q ∧ g.get m ≠ none ∧ env.answer (.unassign m q) = true then none
      else (a n)[r]? := by
  unfold stopOn
  cases hg : g.get m with
  | none => simp [receive_nil]
  | some node =>
    dsimp only
    rw [receive_cons, receive_nil, pushUnassign, Registry.get_id hg]
    by_cases h : env.answer (.unassign m q) = true
    · simp [h, apply_unassign]
    · simp [h]

theorem receive_roll (digest : Canonical → String) (node : Node) (wl : Workload) :
    (a.receive (roll digest env node wl).sent n)[r]? =
      if n = node.id ∧ r = wl.id ∧ env.answer (.unassign node.id wl.id) = true then
        if env.answer (.assign node.id wl) = true then some wl else none
      else (a n)[r]? := by
  unfold roll
  by_cases hs : env.answer (.unassign node.id wl.id) = true
  · by_cases ha : env.answer (.assign node.id wl) = true
    · simp only [pushUnassign, pushAssignment, hs, ha, ↓reduceIte, receive_cons, receive_nil,
        apply_assign, apply_unassign, and_true]
      by_cases hnr : n = node.id ∧ r = wl.id
      · simp [hnr]
      · simp only [hnr, ↓reduceIte]
        rw [if_neg fun h => hnr ⟨h.1, h.2.1⟩]
    · simp only [pushUnassign, pushAssignment, hs, ha, ↓reduceIte, receive_cons, receive_nil,
        apply_unassign, and_true, Bool.false_eq_true]
  · simp only [pushUnassign, hs, Bool.false_eq_true, ↓reduceIte, receive_cons, receive_nil, and_false]

end Calls

end Agents

structure Cluster where
  plane : Reconciler
  agents : Agents

/-- An agent announces itself by a heartbeat, and registers where the control plane
    does not know it: when it joins, or after a heartbeat was answered 404. -/
inductive Event where
  | add (w : Workload)
  | remove (id : String)
  | rebalance (now : ℤ)
  | announce (n : Node) (now : ℤ)
  | exit (nodeID replicaID : String)
  | reconcile (env : Env)

namespace Cluster

def new (interval : ℤ) (interval_pos : 0 < interval) : Cluster :=
  ⟨Reconciler.new interval interval_pos, fun _ => ∅⟩

def addWorkload (cl : Cluster) (w : Workload) : Cluster :=
  match cl.plane.store.add w with
  | .ok store => { cl with plane := { cl.plane with store := store } }
  | .error _ => cl

def announce (cl : Cluster) (n : Node) (now : ℤ) : Cluster :=
  match cl.plane.registry.heartbeat n.id now with
  | .ok registry => { cl with plane := { cl.plane with registry := registry } }
  | .error _ =>
    { cl with plane := { cl.plane with registry := cl.plane.registry.register n now } }

def reconcile (digest : Canonical → String) (cl : Cluster) (env : Env) : Cluster :=
  match cl.plane.reconcile digest env with
  | .ok (plane, sent) => ⟨plane, cl.agents.receive sent⟩
  | .error _ => cl

def step (digest : Canonical → String) (cl : Cluster) : Event → Cluster
  | .add w => cl.addWorkload w
  | .remove id => { cl with plane := { cl.plane with store := cl.plane.store.remove id } }
  | .rebalance now => { cl with plane := { cl.plane with
      scheduler := (cl.plane.scheduler.rebalance cl.plane.registry now).1 } }
  | .announce n now => cl.announce n now
  | .exit nodeID replicaID => { cl with
      agents := Function.update cl.agents nodeID ((cl.agents nodeID).erase replicaID) }
  | .reconcile env => cl.reconcile digest env

theorem step_reconcile (digest : Canonical → String) (cl : Cluster) {env : Env}
    (h : env.listError = none) : cl.step digest (.reconcile env) =
      ⟨(cl.plane.pass digest env).1, cl.agents.receive (cl.plane.pass digest env).2⟩ := by
  simp only [step, reconcile, Reconciler.reconcile, h]

theorem addWorkload_list (cl : Cluster) (w : Workload) :
    ∃ store, cl.addWorkload w = { cl with plane := { cl.plane with store := store } } ∧
      (store.list = cl.plane.store.list.insert w.id w ∨ store.list = cl.plane.store.list) := by
  unfold addWorkload
  cases h : cl.plane.store.add w with
  | ok store => exact ⟨store, rfl, .inl (Store.list_add h)⟩
  | error e => exact ⟨cl.plane.store, rfl, .inr rfl⟩

theorem announce_eq (cl : Cluster) (n : Node) (now : ℤ) :
    ∃ registry, cl.announce n now = { cl with plane := { cl.plane with registry := registry } } ∧
      ∀ id, registry.get id =
        if n.id = id then some { (cl.plane.registry.get n.id).getD n with lastHeartbeat := now }
        else cl.plane.registry.get id := by
  unfold announce
  cases hg : cl.plane.registry.get n.id with
  | none =>
    rw [Registry.heartbeat_unknown hg now]
    exact ⟨_, rfl, Registry.get_register _ n now⟩
  | some m =>
    obtain ⟨g, hok, hget⟩ := Registry.heartbeat_known hg now
    rw [hok]
    exact ⟨g, rfl, hget⟩

theorem announce_schedulable {g g' : Registry} {n : Node} {now : ℤ} (hget : ∀ id, g'.get id =
      if n.id = id then some { (g.get n.id).getD n with lastHeartbeat := now } else g.get id) :
    ∀ id node, g.get id = some node →
      ∃ node', g'.get id = some node' ∧ schedulable node' = schedulable node := by
  intro id node hnode
  rw [hget]
  split_ifs with hid
  · subst hid
    rw [hnode]
    exact ⟨_, rfl, rfl⟩
  · exact ⟨node, hnode, rfl⟩

/-- Everything but a pass and an exit leaves the containers and the push records
    alone, and no such event unregisters a node. -/
theorem step_frame (digest : Canonical → String) (cl : Cluster) {e : Event}
    (hpass : ∀ env, e ≠ .reconcile env) (hexit : ∀ n r, e ≠ .exit n r) :
    (cl.step digest e).agents = cl.agents ∧ (cl.step digest e).plane.pushed = cl.plane.pushed ∧
      ∀ n, cl.plane.registry.get n ≠ none → (cl.step digest e).plane.registry.get n ≠ none := by
  cases e with
  | add w =>
    obtain ⟨store, h, -⟩ := cl.addWorkload_list w
    rw [step, h]
    exact ⟨rfl, rfl, fun _ h => h⟩
  | remove id => exact ⟨rfl, rfl, fun _ h => h⟩
  | rebalance now => exact ⟨rfl, rfl, fun _ h => h⟩
  | announce n now =>
    obtain ⟨registry, h, hget⟩ := cl.announce_eq n now
    rw [step, h]
    refine ⟨rfl, rfl, fun id hid => ?_⟩
    dsimp only
    rw [hget]
    split_ifs
    · exact Option.some_ne_none _
    · exact hid
  | exit n r => exact absurd rfl (hexit n r)
  | reconcile env => exact absurd rfl (hpass env)

theorem step_scheduler (digest : Canonical → String) (cl : Cluster) {e : Event}
    (hpass : ∀ env, e ≠ .reconcile env) (hrebalance : ∀ now, e ≠ .rebalance now) :
    (cl.step digest e).plane.scheduler = cl.plane.scheduler := by
  cases e with
  | add w =>
    obtain ⟨store, h, -⟩ := cl.addWorkload_list w
    rw [step, h]
  | announce n now =>
    obtain ⟨registry, h, -⟩ := cl.announce_eq n now
    rw [step, h]
  | rebalance now => exact absurd rfl (hrebalance now)
  | reconcile env => exact absurd rfl (hpass env)
  | remove id => rfl
  | exit n r => rfl

/-- A pass deploys a desired replica to the registered node that `Assign` leaves it
    on, and its containers only see the calls of that deployment. -/
theorem pass_deploys (digest : Canonical → String) {cl : Cluster} {env : Env} {r n : String}
    {inst : ReplicaInstance} (hr : (expand cl.plane.store.list)[r]? = some inst)
    (hn : (cl.plane.assigned env)[r]? = some n) :
    ∃ (node : Node) (roll : Bool), node.id = n ∧
      (cl.plane.evictDead env.now).registry.get n = some node ∧
      let d := Reconciler.deploy digest env node inst.wl (cl.plane.evictDead env.now).registry
        (cl.plane.evictDead env.now).pushed[r]? roll
      (cl.plane.pass digest env).1.pushed[r]? =
        (d.recorded.or (cl.plane.evictDead env.now).pushed[r]?).filter (cl.plane.keeps env r) ∧
      ∀ m, (cl.agents.receive (cl.plane.pass digest env).2 m)[r]? =
        (cl.agents.receive d.sent m)[r]? := by
  obtain ⟨node, hnode, rfl⟩ :=
    Reconciler.assigned_registered env cl.plane (hr ▸ Option.some_ne_none inst) hn
  obtain ⟨roll, -, hpushed, -, hsent⟩ := Reconciler.pass_desired digest env cl.plane hr
  rw [hn, Reconciler.turn_some digest env _ hnode] at hpushed hsent
  refine ⟨node, roll, rfl, hnode, hpushed, fun m => ?_⟩
  rw [Agents.receive_sentFor, hsent]

end Cluster
end Smith
