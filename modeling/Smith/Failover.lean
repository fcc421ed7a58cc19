import Smith.NodeReturn
import Smith.RebalanceOrder
import Smith.SelfHealing

set_option autoImplicit false

/-!
# Giving up a silent node

A node that sends no heartbeat is given up by the first pass after the timeout, and
nothing is placed on it until it announces itself again. Its replicas are placed
elsewhere in that same pass, without fail if one surviving node has room for all that
is then without a node.
-/
namespace Smith
open FiniteMaps Reconciler Runs Std

namespace Scheduler

def owed (s : Scheduler) (calls : List AssignCall) : ℤ × ℤ :=
  ((calls.filter fun c => s.assignments[c.replicaID]?.isNone).map fun c => c.req.pair).sum

section Owed
variable {s s' : Scheduler} {c : AssignCall} {calls : List AssignCall}

theorem owed_cons_some (h : s.assignments[c.replicaID]? ≠ none) :
    s.owed (c :: calls) = s.owed calls := by
  simp [owed, h]

theorem owed_cons_none (h : s.assignments[c.replicaID]? = none) :
    s.owed (c :: calls) = c.req.pair + s.owed calls := by
  simp [owed, h]

theorem owed_nonneg (h : ∀ c ∈ calls, 0 ≤ c.req.pair) : 0 ≤ s.owed calls := by
  refine List.sum_nonneg fun x hx => ?_
  obtain ⟨c, hc, rfl⟩ := List.mem_map.mp hx
  exact h c (List.mem_of_mem_filter hc)

theorem owed_anti (h : ∀ c ∈ calls, 0 ≤ c.req.pair)
    (hkeep : ∀ q n : String, s.assignments[q]? = some n → s'.assignments[q]? = some n) :
    s'.owed calls ≤ s.owed calls := by
  induction calls with
  | nil => exact le_rfl
  | cons c calls ih =>
    have ih := ih fun d hd => h d (List.mem_cons_of_mem c hd)
    cases hs : s.assignments[c.replicaID]? with
    | some n =>
      rw [owed_cons_some (hkeep _ n hs ▸ Option.some_ne_none n),
        owed_cons_some (hs ▸ Option.some_ne_none n)]
      exact ih
    | none =>
      rw [owed_cons_none hs]
      cases hs' : s'.assignments[c.replicaID]? with
      | some n =>
        rw [owed_cons_some (hs' ▸ Option.some_ne_none n)]
        exact le_add_of_nonneg_of_le (h c List.mem_cons_self) ih
      | none =>
        rw [owed_cons_none hs']
        exact add_le_add_right ih _

end Owed

variable {g : Registry} {req : String → Resources} {s : Scheduler} {node : Node}

/-- A replica without a node is placed while some alive node has room for it. -/
theorem assign_of_room {now : ℤ} {r p : String} {q : Resources}
    (hr : s.assignments[r]? = none) (hnode : node ∈ g.alive now)
    (hids : ∀ m ∈ g.alive now, m.id ≠ "") (hroom : s.packing.load node.id + q.pair ≤ schedulable node) :
    ∃ n, (s.assign g now r p q).1.assignments = s.assignments.insert r n ∧
      (s.assign g now r p q).1.requests = s.requests.insert r q := by
  have hne : place (g.alive now) s.allocCPU s.allocMem (s.siblings p) q ≠ "" := by
    intro hempty
    refine place_eq_empty hempty hnode hids ?_
    rw [allocCPU_getD, allocMem_getD, committed_eq_load]
    exact hroom
  have hsome : (g.alive now).isEmpty = false := by
    cases hl : g.alive now with
    | nil => exact absurd (hl ▸ hnode) List.not_mem_nil
    | cons m l => rfl
  refine ⟨place (g.alive now) s.allocCPU s.allocMem (s.siblings p) q, ?_, ?_⟩
  all_goals simp only [assign, hr, assignFresh, hsome, hne, Bool.false_eq_true, ↓reduceIte]

/-- One `Assign` takes from the room of a node no more than it takes from what is owed. -/
theorem Steady.assign_room (h : Steady g req s) {c : AssignCall} {calls : List AssignCall}
    (hc : c.req = req c.replicaID) (hnode : node ∈ g.alive c.now)
    (hids : ∀ m ∈ g.alive c.now, m.id ≠ "") (hreq : ∀ d ∈ c :: calls, 0 ≤ d.req.pair)
    (hroom : s.packing.load node.id + s.owed (c :: calls) ≤ schedulable node) :
    let s' := (s.assign g c.now c.replicaID c.parentID c.req).1
    s'.assignments[c.replicaID]? ≠ none ∧
      s'.packing.load node.id + s'.owed calls ≤ schedulable node := by
  intro s'
  have hpos := hreq c List.mem_cons_self
  have hrest : ∀ d ∈ calls, 0 ≤ d.req.pair := fun d hd => hreq d (List.mem_cons_of_mem c hd)
  obtain ⟨-, hkeep⟩ := h.assign c.now c.replicaID c.parentID
  rw [← hc] at hkeep
  have hanti : s'.owed calls ≤ s.owed calls := owed_anti hrest hkeep
  cases hr : s.assignments[c.replicaID]? with
  | some n =>
    rw [owed_cons_some (hr ▸ Option.some_ne_none n)] at hroom
    refine ⟨hkeep _ n hr ▸ Option.some_ne_none n, ?_⟩
    have hstick : s' = { s with requests := s.requests.insert c.replicaID c.req } := by
      simp only [s', hc, h.assign_assigned hr]
    have hslot : s.packing.slot c.replicaID = some (n, c.req.pair) :=
      (packing_slot_eq s _ n _).mpr ⟨hr, by rw [h.request _ n hr, hc]⟩
    have hput : s'.packing = s.packing.put c.replicaID n c.req.pair := by
      rw [hstick]
      exact packing_put (insert_of_lookup _ hr).symm rfl
    have hload : s'.packing.load node.id = s.packing.load node.id := by
      rw [hput, Packing.load_put, Packing.load_drop s.packing c.replicaID,
        Packing.share_of_slot hslot]
    rw [hload]
    exact (add_le_add_right hanti _).trans hroom
  | none =>
    rw [owed_cons_none hr] at hroom
    have hfit : s.packing.load node.id + c.req.pair ≤ schedulable node :=
      (add_le_add_right (le_add_of_nonneg_right (owed_nonneg hrest)) _).trans hroom
    obtain ⟨n, ha, hq⟩ := assign_of_room (p := c.parentID) hr hnode hids hfit
    refine ⟨?_, ?_⟩
    · rw [ha, lookup_insert_self]
      exact Option.some_ne_none n
    · have hnone : s.packing.slot c.replicaID = none := by rw [packing_slot, hr]; rfl
      have hload : s'.packing.load node.id ≤ s.packing.load node.id + c.req.pair := by
        rw [packing_put ha hq, Packing.load_put, Packing.drop_of_none hnone]
        split_ifs
        · exact le_rfl
        · exact add_le_add_right hpos _
      calc
        s'.packing.load node.id + s'.owed calls
            ≤ s.packing.load node.id + c.req.pair + s.owed calls := add_le_add hload hanti
        _ = s.packing.load node.id + (c.req.pair + s.owed calls) := add_assoc ..
        _ ≤ schedulable node := hroom

theorem Steady.assignAll_room (h : Steady g req s) (node : Node) {calls : List AssignCall}
    (hc : ∀ c ∈ calls, c.req = req c.replicaID)
    (halive : ∀ c ∈ calls, node ∈ g.alive c.now ∧ ∀ m ∈ g.alive c.now, m.id ≠ "")
    (hreq : ∀ c ∈ calls, 0 ≤ c.req.pair)
    (hroom : s.packing.load node.id + s.owed calls ≤ schedulable node) :
    ∀ c ∈ calls, (s.assignAll g calls).assignments[c.replicaID]? ≠ none := by
  induction calls generalizing s with
  | nil => simp
  | cons c calls ih =>
    have hhead := hc c List.mem_cons_self
    obtain ⟨hnode, hids⟩ := halive c List.mem_cons_self
    obtain ⟨hplaced, hroom'⟩ := h.assign_room hhead hnode hids hreq hroom
    obtain ⟨hs, -⟩ := h.assign c.now c.replicaID c.parentID
    rw [← hhead] at hs
    have hc' : ∀ d ∈ calls, d.req = req d.replicaID := fun d hd => hc d (List.mem_cons_of_mem c hd)
    intro d hd
    rcases List.mem_cons.mp hd with rfl | hd
    · obtain ⟨n, hn⟩ := Option.ne_none_iff_exists'.mp hplaced
      have hkept := (hs.assignAll hc').2 _ n hn
      change (Scheduler.assignAll g _ calls).assignments[d.replicaID]? ≠ none
      rw [hkept]
      exact Option.some_ne_none n
    · exact ih hs hc' (fun e he => halive e (List.mem_cons_of_mem c he))
        (fun e he => hreq e (List.mem_cons_of_mem c he)) hroom' d hd

end Scheduler

namespace Reconciler
variable (c : Reconciler) (now : ℤ)

theorem evictDead_get (id : String) : (c.evictDead now).registry.get id =
    (c.registry.get id).filter fun node => now - heartbeatTimeout < node.lastHeartbeat := by
  have h := (foldl_evict_rest c (c.registry.dead now)).2.2 id
  rw [evictDead, h]
  cases hg : c.registry.get id with
  | none => simp
  | some node =>
    have hid := Registry.get_id hg
    subst hid
    have hmem : node.id ∈ (c.registry.dead now).map Node.id ↔
        node.lastHeartbeat ≤ now - heartbeatTimeout := by
      constructor
      · intro hm
        obtain ⟨m, hm, he⟩ := List.mem_map.mp hm
        obtain ⟨hget, hle⟩ := (Registry.mem_dead _ _ _).mp hm
        rw [he, hg, Option.some.injEq] at hget
        rwa [hget]
      · intro hle
        exact List.mem_map_of_mem ((Registry.mem_dead _ _ _).mpr ⟨hg, hle⟩)
    by_cases hlt : now - heartbeatTimeout < node.lastHeartbeat
    · rw [if_neg (hmem.not.mpr hlt.not_ge), Option.filter_some, decide_eq_true hlt, if_pos rfl]
    · rw [if_pos (hmem.mpr (Int.not_lt.mp hlt)), Option.filter_some, decide_eq_false hlt,
        if_neg Bool.false_ne_true]

end Reconciler

namespace Cluster
variable {digest : Canonical → String} {cl : Cluster} {env : Env} {n : String}

/-- No heartbeat of the node later than `t` is known. -/
def QuietSince (t : ℤ) (n : String) (cl : Cluster) : Prop :=
  ∀ node, cl.plane.registry.get n = some node → node.lastHeartbeat ≤ t

structure GivenUp (n : String) (cl : Cluster) : Prop where
  unregistered : cl.plane.registry.get n = none
  unassigned : ∀ r : String, cl.plane.scheduler.assignments[r]? ≠ some n

def Announces (n : String) : Event → Prop
  | .announce m _ => m.id = n
  | _ => False

theorem pass_assigned_registered (hl : env.listError = none) (r : String)
    (h : (cl.step digest (.reconcile env)).plane.scheduler.assignments[r]? = some n) :
    (cl.plane.evictDead env.now).registry.get n ≠ none := by
  rw [step_reconcile digest cl hl] at h
  cases hr : (expand cl.plane.store.list)[r]? with
  | some inst =>
    obtain ⟨-, -, -, hassigned, -⟩ := pass_desired digest env cl.plane hr
    exact assigned_get env cl.plane (hr ▸ Option.some_ne_none inst) n (hassigned.symm.trans h)
  | none =>
    have hnone := (pass_undesired digest env cl.plane hr).1
    exact absurd (hnone.symm.trans h) (Option.some_ne_none n).symm

theorem givenUp_pass (hl : env.listError = none)
    (h : (cl.plane.evictDead env.now).registry.get n = none) :
    GivenUp n (cl.step digest (.reconcile env)) := by
  refine ⟨?_, fun r hr => pass_assigned_registered hl r hr h⟩
  rw [step_reconcile digest cl hl]
  exact h

theorem GivenUp.rebalance (h : GivenUp n cl) (now : ℤ) :
    GivenUp n (cl.step digest (.rebalance now)) := by
  refine ⟨h.unregistered, fun r hr => ?_⟩
  rw [step] at hr
  dsimp only at hr
  rw [Scheduler.rebalance_lookup, Option.map_eq_some_iff] at hr
  obtain ⟨m, hm, hn⟩ := hr
  cases ht : (Scheduler.simulation (cl.plane.registry.alive now) cl.plane.scheduler).target[r]? with
  | none =>
    rw [ht, Option.getD_none] at hn
    exact h.unassigned r (hn ▸ hm)
  | some t =>
    rw [ht, Option.getD_some] at hn
    obtain ⟨node, hnode, hid⟩ := Scheduler.simulation_target_mem ht
    have hget := ((Registry.mem_alive _ _ _).mp hnode).1
    rw [hid, hn, h.unregistered] at hget
    exact absurd hget (Option.some_ne_none node).symm

theorem GivenUp.step (h : GivenUp n cl) {e : Event} (he : ¬ Announces n e) :
    GivenUp n (cl.step digest e) := by
  cases e with
  | add w =>
    obtain ⟨store, hs, -⟩ := cl.addWorkload_list w
    rw [Cluster.step, hs]
    exact ⟨h.unregistered, h.unassigned⟩
  | announce m now =>
    obtain ⟨registry, hs, hget⟩ := cl.announce_eq m now
    rw [Cluster.step, hs]
    have hid : m.id ≠ n := he
    exact ⟨(hget n).trans ((if_neg hid).trans h.unregistered), h.unassigned⟩
  | reconcile env =>
    cases hl : env.listError with
    | none =>
      refine givenUp_pass hl ?_
      rw [evictDead_get, h.unregistered]
      rfl
    | some e =>
      simp only [Cluster.step, reconcile, Reconciler.reconcile, hl]
      exact h
  | rebalance now => exact h.rebalance now
  | remove id => exact ⟨h.unregistered, h.unassigned⟩
  | exit m r => exact ⟨h.unregistered, h.unassigned⟩

theorem QuietSince.step {t : ℤ} (h : QuietSince t n cl) {e : Event} (he : ¬ Announces n e) :
    QuietSince t n (cl.step digest e) := by
  cases e with
  | add w =>
    obtain ⟨store, hs, -⟩ := cl.addWorkload_list w
    rw [Cluster.step, hs]
    exact h
  | announce m now =>
    obtain ⟨registry, hs, hget⟩ := cl.announce_eq m now
    rw [Cluster.step, hs]
    have hid : m.id ≠ n := he
    exact fun node hnode => h node (((hget n).trans (if_neg hid)).symm.trans hnode)
  | reconcile env =>
    cases hl : env.listError with
    | none =>
      rw [step_reconcile digest cl hl]
      intro node hnode
      rw [(pass_rest digest env cl.plane).1, evictDead_get, Option.filter_eq_some_iff] at hnode
      exact h node hnode.1
    | some e =>
      simp only [Cluster.step, reconcile, Reconciler.reconcile, hl]
      exact h
  | rebalance now => exact h
  | remove id => exact h
  | exit m r => exact h

/-- The first pass after the timeout gives a silent node up, and it stays given up
    until it announces itself, whatever else happens and whichever calls fail. -/
theorem silent_node_given_up (digest : Canonical → String) (cl : Cluster) (n : String) (t : ℤ)
    (before after : List Event) (env : Env) (hquiet : QuietSince t n cl)
    (hsilent : ∀ e ∈ before ++ after, ¬ Announces n e) (hlisted : env.listError = none)
    (hnow : t + heartbeatTimeout ≤ env.now) :
    GivenUp n (run (step digest) cl (before ++ .reconcile env :: after)) := by
  have hbefore : Guarded (step digest) (fun _ e => ¬ Announces n e) cl before :=
    guarded_of_forall (fun _ _ h => h) cl fun e he => hsilent e (List.mem_append_left after he)
  have hq := hbefore.invariant (fun _ _ he h => h.step he) hquiet
  have hgone : GivenUp n ((run (step digest) cl before).step digest (.reconcile env)) := by
    refine givenUp_pass hlisted ?_
    rw [evictDead_get, Option.filter_eq_none_iff]
    intro node hnode
    have hle := hq node hnode
    rw [decide_eq_true_iff]
    omega
  have hafter : Guarded (step digest) (fun _ e => ¬ Announces n e)
      ((run (step digest) cl before).step digest (.reconcile env)) after :=
    guarded_of_forall (fun _ _ h => h) _ fun e he => hsilent e (List.mem_append_right before he)
  rw [run_append]
  exact hafter.invariant (fun _ _ he h => h.step he) hgone

/-- Two nodes, the second of which is heard again 40 seconds later. -/
def n1Silent : List Event := thenPass (deployed ["n1", "n2"] [("a", 1000)]) 1 ++
  [.announce { id := "n2", cpu := 4, memoryMB := 8000 } (40 * 10 ^ 9)]

theorem silent_node_given_up_n1 : GivenUp "n1" (runOf (thenPass n1Silent (40 * 10 ^ 9))) := by
  have hrun : runOf (thenPass n1Silent (40 * 10 ^ 9)) = run (step Canonical.image)
      (runOf (deployed ["n1", "n2"] [("a", 1000)]))
      ([.reconcile (honest (runOf (deployed ["n1", "n2"] [("a", 1000)])) 1),
        .announce { id := "n2", cpu := 4, memoryMB := 8000 } (40 * 10 ^ 9)] ++
        [.reconcile (honest (runOf n1Silent) (40 * 10 ^ 9))]) := by
    rw [runOf, thenPass, n1Silent, thenPass, List.append_assoc, List.append_assoc, run_append]
    rfl
  rw [hrun]
  refine silent_node_given_up Canonical.image _ "n1" 0 _ [] _ ?_ ?_ rfl ?_
  · intro node hnode
    have hall : ∀ m ∈ (runOf (deployed ["n1", "n2"] [("a", 1000)])).plane.registry.list,
        m.lastHeartbeat ≤ 0 := by decide +kernel
    exact hall node ((Registry.mem_list _ _).mpr ((Registry.get_id hnode).symm ▸ hnode))
  · simp [Announces]
  · decide

section Replaced

/-- An evicted replica is pushed afresh to the node that it is then assigned to. -/
theorem pass_restarts {r m : String} (hl : env.listError = none)
    (hok : ∀ id w, env.answer (.assign id w) = true) (hd : cl.Desired r)
    (hr : cl.plane.scheduler.assignments[r]? = some n)
    (hdead : (cl.plane.evictDead env.now).registry.get n = none)
    (hreg : cl.plane.registry.get n ≠ none)
    (hm : (cl.step digest (.reconcile env)).plane.scheduler.assignments[r]? = some m) :
    ((cl.step digest (.reconcile env)).agents m)[r]? ≠ none := by
  obtain ⟨inst, hinst⟩ := Option.ne_none_iff_exists'.mp hd
  have hpushed : (cl.plane.evictDead env.now).pushed[r]? = none := by
    obtain ⟨-, -, hp⟩ | ⟨hno, -, -⟩ := foldl_evict cl.plane (cl.plane.registry.dead env.now) r
    · exact hp
    · obtain ⟨node, hnode⟩ := Option.ne_none_iff_exists'.mp hreg
      rw [evictDead_get, hnode] at hdead
      have hlate : node.lastHeartbeat ≤ env.now - heartbeatTimeout := by simpa using hdead
      have hid := Registry.get_id hnode
      subst hid
      exact absurd hr (hno node ((Registry.mem_dead _ _ _).mpr ⟨hnode, hlate⟩))
  rw [step_reconcile digest cl hl] at hm ⊢
  obtain ⟨-, -, -, hassigned, -⟩ := pass_desired digest env cl.plane hinst
  obtain ⟨node, roll, rfl, -, -, hagents⟩ := pass_deploys digest hinst (hassigned.symm.trans hm)
  rw [hpushed] at hagents
  dsimp only
  rw [hagents, deploy, Agents.receive_pushAssignment]
  split_ifs with h
  · exact Option.some_ne_none _
  · intro hnone
    exact h ⟨rfl, (expand_keyed hinst).symm, hok _ _, hnone⟩

/-- With room on one surviving node for all that is without a node, a pass leaves no
    desired replica pending. The replicas of the other nodes stay, and those of the
    dead nodes are started on their new ones. -/
theorem failover_replaces (digest : Canonical → String) (cl : Cluster) (env : Env)
    (survivor : Node) (hlisted : env.listError = none)
    (hstarts : ∀ id w, env.answer (.assign id w) = true)
    (hsteady : cl.plane.scheduler.Steady cl.plane.registry
      (desiredRequest (expand cl.plane.store.list)))
    (hids : cl.plane.registry.get "" = none)
    (hnonneg : ∀ (r : String) (inst : ReplicaInstance),
      (expand cl.plane.store.list)[r]? = some inst → 0 ≤ (requestOf inst.wl).pair)
    (hsurvivor : survivor ∈ cl.plane.registry.alive env.now)
    (hroom : (cl.plane.evictDead env.now).scheduler.committed survivor.id +
      (cl.plane.evictDead env.now).scheduler.owed
        (assignCalls env.now (expand cl.plane.store.list)) ≤ schedulable survivor) :
    let cl' := cl.step digest (.reconcile env)
    ∀ r, cl.Desired r → ∃ n, cl'.plane.scheduler.assignments[r]? = some n ∧
      cl'.plane.registry.get n ≠ none ∧
      (∀ old, cl.plane.scheduler.assignments[r]? = some old →
        if cl'.plane.registry.get old ≠ none then n = old else (cl'.agents n)[r]? ≠ none) := by
  intro cl' r hd
  obtain ⟨inst, hinst⟩ := Option.ne_none_iff_exists'.mp hd
  have hstep : cl' = ⟨(cl.plane.pass digest env).1, cl.agents.receive (cl.plane.pass digest env).2⟩ :=
    step_reconcile digest cl hlisted
  have hreg : cl'.plane.registry = (cl.plane.evictDead env.now).registry := by rw [hstep]; rfl
  have hevict : (cl.plane.evictDead env.now).scheduler.Steady
      (cl.plane.evictDead env.now).registry (desiredRequest (expand cl.plane.store.list)) :=
    steady_foldl_evict _ hsteady
  have hcalls := assignCalls_request cl.plane.store.list env.now
  have hcall : (⟨inst.wl.id, inst.parent, requestOf inst.wl, env.now⟩ : Scheduler.AssignCall) ∈
      assignCalls env.now (expand cl.plane.store.list) :=
    List.mem_map_of_mem ((mem_instances _ _).mpr ((expand_keyed hinst).symm ▸ hinst))
  have hassigned : ∀ old, (cl.plane.evictDead env.now).scheduler.assignments[r]? = some old →
      (cl.plane.assigned env)[r]? = some old := (hevict.assignAll hcalls).2 r
  obtain ⟨n, hn⟩ : ∃ n, (cl.plane.assigned env)[r]? = some n := by
    refine Option.ne_none_iff_exists'.mp ?_
    have hplaced := hevict.assignAll_room survivor hcalls ?_ ?_ ?_ _ hcall
    · rw [expand_keyed hinst] at hplaced
      exact hplaced
    · intro c hc
      obtain ⟨i, -, rfl⟩ := List.mem_map.mp hc
      constructor
      · obtain ⟨hget, hlt⟩ := (Registry.mem_alive _ _ _).mp hsurvivor
        refine (Registry.mem_alive _ _ _).mpr ⟨?_, hlt⟩
        rw [evictDead_get, hget]
        simp [hlt]
      · intro m hm hempty
        have hget := ((Registry.mem_alive _ _ _).mp hm).1
        rw [hempty, evictDead_get, hids] at hget
        exact absurd hget (Option.some_ne_none m).symm
    · intro c hc
      obtain ⟨i, hi, rfl⟩ := List.mem_map.mp hc
      exact hnonneg _ i ((mem_instances _ i).mp hi)
    · rw [← Scheduler.committed_eq_load]
      exact hroom
  obtain ⟨-, -, -, hfinal, -⟩ := pass_desired digest env cl.plane hinst
  have hfinal' : cl'.plane.scheduler.assignments[r]? = some n := by
    rw [hstep]
    exact hfinal.trans hn
  refine ⟨n, hfinal', ?_, fun old hold => ?_⟩
  · rw [hreg]
    exact assigned_get env cl.plane hd n hn
  · split_ifs with hkept
    · have hsame : (cl.plane.evictDead env.now).scheduler.assignments[r]? = some old := by
        obtain ⟨⟨node, hnode, he⟩, -, -⟩ | ⟨-, ha, -⟩ :=
          foldl_evict cl.plane (cl.plane.registry.dead env.now) r
        · obtain ⟨hget, hle⟩ := (Registry.mem_dead _ _ _).mp hnode
          obtain rfl := Option.some.inj (he.symm.trans hold)
          rw [hreg, evictDead_get, hget] at hkept
          exact absurd (by simpa using hle) hkept
        · exact ha.trans hold
      exact Option.some.inj (hn.symm.trans (hassigned old hsame))
    · obtain ⟨node, hnode, -⟩ := hsteady.within r old hold
      rw [not_not, hreg] at hkept
      exact pass_restarts hlisted hstarts hd hold hkept (hnode ▸ Option.some_ne_none node) hfinal'

/-- The second node has room for the replica of the first. -/
theorem failover_replaces_n1 :
    (runOf n1Silent).plane.scheduler.assignments["a-0"]? = some "n1" ∧
      ∃ n, (runOf (thenPass n1Silent (40 * 10 ^ 9))).plane.scheduler.assignments["a-0"]? = some n ∧
        ((runOf (thenPass n1Silent (40 * 10 ^ 9))).agents n)["a-0"]? ≠ none := by
  have hhomed : Homed (runOf n1Silent) := by
    have hguard : Guarded (step Canonical.image) EmptyReturnStep (new 1 one_pos) n1Silent := by
      refine guarded_snoc (guarded_snoc ⟨?_, ?_, ?_, trivial⟩ trivial) fun hn => ?_
      · exact fun _ _ => rfl
      · exact fun _ _ => rfl
      · exact rfl
      · exact absurd hn (by decide +kernel)
    exact hguard.invariant (fun _ _ he h => h.step he) (homed_new 1 one_pos)
  have hrun : runOf (thenPass n1Silent (40 * 10 ^ 9)) = (runOf n1Silent).step Canonical.image
      (.reconcile (honest (runOf n1Silent) (40 * 10 ^ 9))) := run_append ..
  refine ⟨by decide +kernel, ?_⟩
  obtain ⟨n, hn, -, hold⟩ := failover_replaces Canonical.image (runOf n1Silent)
    (honest (runOf n1Silent) (40 * 10 ^ 9))
    { id := "n2", cpu := 4, memoryMB := 8000, lastHeartbeat := 40 * 10 ^ 9 } rfl (fun _ _ => rfl)
    hhomed.steady (by decide +kernel) (forall_lookup_iff.mpr (by decide +kernel))
    (by decide +kernel) (by decide +kernel) "a-0" (by unfold Desired; decide +kernel)
  have hgone := hold "n1" (by decide +kernel)
  rw [if_neg (by decide +kernel)] at hgone
  exact ⟨n, hrun ▸ hn, hrun ▸ hgone⟩

end Replaced

end Cluster
end Smith
