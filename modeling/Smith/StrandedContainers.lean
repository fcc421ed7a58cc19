import Smith.ContainerTracking

set_option autoImplicit false

/-!
# Containers that no pass stops

A pass relocates by push record but stops by assignment. Where the two name
different nodes, or where the assignment is gone, a container outlives its
workload. Rebalancing makes the first happen, a request that has outgrown every
node the second.
-/
namespace Smith
open FiniteMaps Reconciler Runs Std

namespace Cluster
variable {digest : Canonical → String} {cl : Cluster} {env : Env}

def Placed (cl : Cluster) : Prop :=
  ∀ n r : String, (cl.agents n)[r]? ≠ none →
    (expand cl.plane.store.list)[r]? ≠ none ∧ cl.plane.scheduler.assignments[r]? = some n

/-- Every pushed replica is given a node by this pass if it is desired, and is
    otherwise still assigned to the node it was pushed to. -/
def Followed (env : Env) (c : Reconciler) : Prop :=
  ∀ (r : String) (rec : PushRecord), c.pushed[r]? = some rec →
    ((expand c.store.list)[r]? ≠ none → (c.assigned env)[r]? ≠ none) ∧
    ((expand c.store.list)[r]? = none → c.scheduler.assignments[r]? = some rec.nodeID)

theorem Healthy.store_eq (hh : Healthy cl env) :
    (cl.step digest (.reconcile env)).plane.store = cl.plane.store := by
  rw [hh.step_eq]
  exact (pass_rest digest env cl.plane).2.1

theorem Healthy.assignments_eq (hh : Healthy cl env) {r : String} {inst : ReplicaInstance}
    (hr : (expand cl.plane.store.list)[r]? = some inst) :
    (cl.step digest (.reconcile env)).plane.scheduler.assignments[r]? =
      (cl.plane.assigned env)[r]? := by
  rw [hh.step_eq]
  obtain ⟨roll, -, -, h, -⟩ := pass_desired digest env cl.plane hr
  exact h

theorem Tracked.placed_iff (ht : Tracked cl) (hh : Healthy cl env) :
    Placed (cl.step digest (.reconcile env)) ↔ Followed env cl.plane := by
  unfold Placed
  rw [hh.store_eq]
  constructor
  · intro hp r rec hrec
    have hc : (cl.agents rec.nodeID)[r]? ≠ none := (ht.container _ _).mpr ⟨rec, hrec, rfl⟩
    refine ⟨fun hr hm => ?_, fun hr => ?_⟩
    · obtain ⟨inst, hinst⟩ := Option.ne_none_iff_exists'.mp hr
      have hsame := (ht.pass_unassigned digest hh (.inl ⟨inst, hinst, hm⟩)).1
      have ha := (hp rec.nodeID r (hsame rec.nodeID ▸ hc)).2
      rw [hh.assignments_eq hinst, hm] at ha
      exact absurd ha (Option.some_ne_none _).symm
    · cases hm : cl.plane.scheduler.assignments[r]? with
      | none =>
        have hsame := (ht.pass_unassigned digest hh (.inr ⟨hr, hm⟩)).1
        exact absurd hr (hp rec.nodeID r (hsame rec.nodeID ▸ hc)).1
      | some m =>
        by_contra hne
        have hnm : rec.nodeID ≠ m := fun h => hne (h ▸ rfl)
        have hleft := (ht.pass_removed digest hh hr hm).1 rec.nodeID
        rw [if_neg hnm] at hleft
        exact absurd hr (hp rec.nodeID r (hleft ▸ hc)).1
  · intro hf n r hc
    cases hr : (expand cl.plane.store.list)[r]? with
    | some inst =>
      refine ⟨Option.some_ne_none inst, ?_⟩
      rw [hh.assignments_eq hr]
      cases hm : (cl.plane.assigned env)[r]? with
      | none =>
        rw [(ht.pass_unassigned digest hh (.inl ⟨inst, hr, hm⟩)).1 n] at hc
        obtain ⟨rec, hrec, -⟩ := (ht.container n r).mp hc
        exact absurd hm ((hf r rec hrec).1 (hr ▸ Option.some_ne_none inst))
      | some m => rw [((ht.pass_assigned digest hh hr hm).1 n).mp hc]
    | none =>
      exfalso
      cases hm : cl.plane.scheduler.assignments[r]? with
      | none =>
        rw [(ht.pass_unassigned digest hh (.inr ⟨hr, hm⟩)).1 n] at hc
        obtain ⟨rec, hrec, -⟩ := (ht.container n r).mp hc
        have ha := (hf r rec hrec).2 hr
        rw [hm] at ha
        exact absurd ha (Option.some_ne_none _).symm
      | some m =>
        rw [(ht.pass_removed digest hh hr hm).1 n] at hc
        split_ifs at hc with hn
        · exact hc rfl
        · obtain ⟨rec, hrec, rfl⟩ := (ht.container n r).mp hc
          exact hn (Option.some.inj (((hf r rec hrec).2 hr).symm.trans hm))

/-- Containers end by being stopped only, no stored request changes, and every pass
    is healthy. -/
def HealthyStep (cl : Cluster) : Event → Prop
  | .exit _ _ => False
  | .add w => ∀ q ∈ cl.plane.store.list[w.id]?.map requestOf, q = requestOf w
  | .reconcile env => Healthy cl env
  | _ => True

def FollowedStep (cl : Cluster) : Event → Prop
  | .exit _ _ => False
  | .reconcile env => Healthy cl env ∧ Followed env cl.plane
  | _ => True

theorem Followed.tracked_step {e : Event} (h : FollowedStep cl e) (ht : Tracked cl) :
    Tracked (cl.step digest e) := by
  cases e with
  | exit n r => exact absurd h id
  | reconcile env =>
    obtain ⟨hh, hf⟩ := h
    refine ht.pass hh fun r m rec hr hm hrec => ?_
    exact Option.some.inj (((hf r rec hrec).2 hr).symm.trans hm)
  | _ => exact ht.frame (by rintro _ ⟨⟩) (by rintro _ _ ⟨⟩)

/-- In a run with any adds, removes, scalings and rebalances a pass leaves every
    container placed exactly if it follows its push records, as long as every
    earlier pass did. -/
theorem pass_places_containers_iff (digest : Canonical → String) (interval : ℤ)
    (hpos : 0 < interval) (es : List Event) (env : Env)
    (hrun : Guarded (step digest) FollowedStep (new interval hpos) es)
    (hh : Healthy (run (step digest) (new interval hpos) es) env) :
    Placed (run (step digest) (new interval hpos) (es ++ [.reconcile env])) ↔
      Followed env (run (step digest) (new interval hpos) es).plane := by
  have ht : Tracked (run (step digest) (new interval hpos) es) :=
    hrun.invariant (fun _ _ hg => Followed.tracked_step hg) (tracked_new interval hpos)
  rw [run_append]
  exact ht.placed_iff hh

def Cleaned (cl : Cluster) : Prop :=
  (∀ n r : String, (cl.agents n)[r]? ≠ none → (expand cl.plane.store.list)[r]? ≠ none) ∧
    ∀ r : String, cl.plane.pushed[r]? ≠ none → (expand cl.plane.store.list)[r]? ≠ none

def Removable (c : Reconciler) : Prop :=
  ∀ (r : String) (rec : PushRecord), c.pushed[r]? = some rec →
    (expand c.store.list)[r]? = none → c.scheduler.assignments[r]? ≠ none

def Aligned (c : Reconciler) : Prop :=
  ∀ (r n : String) (rec : PushRecord), c.scheduler.assignments[r]? = some n →
    c.pushed[r]? = some rec → rec.nodeID = n

theorem Tracked.cleaned_iff (ht : Tracked cl) (hh : Healthy cl env) (ha : Aligned cl.plane) :
    Cleaned (cl.step digest (.reconcile env)) ↔ Removable cl.plane := by
  unfold Cleaned
  rw [hh.store_eq]
  constructor
  · intro hc r rec hp hr hm
    refine hc.2 r ?_ hr
    rw [(ht.pass_unassigned digest hh (.inr ⟨hr, hm⟩)).2, hp]
    exact Option.some_ne_none rec
  · intro hrem
    have hgone : ∀ r : String, (expand cl.plane.store.list)[r]? = none →
        (∀ n, ((cl.step digest (.reconcile env)).agents n)[r]? = none) ∧
          (cl.step digest (.reconcile env)).plane.pushed[r]? = none := by
      intro r hr
      cases hm : cl.plane.scheduler.assignments[r]? with
      | none =>
        obtain ⟨hsame, hp⟩ := ht.pass_unassigned digest hh (.inr ⟨hr, hm⟩)
        have hnone : cl.plane.pushed[r]? = none := by
          by_contra hne
          obtain ⟨rec, hrec⟩ := Option.ne_none_iff_exists'.mp hne
          exact hrem r rec hrec hr hm
        exact ⟨fun n => (hsame n).trans (ht.container_of_none hnone n), hp.trans hnone⟩
      | some m =>
        obtain ⟨hc, hp⟩ := ht.pass_removed digest hh hr hm
        refine ⟨fun n => ?_, hp⟩
        rw [hc n]
        split_ifs with hn
        · rfl
        · by_contra hne
          obtain ⟨rec, hrec, rfl⟩ := (ht.container n r).mp hne
          exact hn (ha r m rec hm hrec)
    exact ⟨fun n r hne hr => hne ((hgone r hr).1 n), fun r hne hr => hne (hgone r hr).2⟩

theorem Aligned.pass (ht : Tracked cl) (hh : Healthy cl env) :
    Aligned (cl.step digest (.reconcile env)).plane := by
  intro r n rec hn hrec
  cases hr : (expand cl.plane.store.list)[r]? with
  | some inst =>
    rw [hh.assignments_eq hr] at hn
    obtain ⟨-, rec', hrec', rfl⟩ := ht.pass_assigned digest hh hr hn
    rw [Option.some.inj (hrec.symm.trans hrec')]
  | none =>
    rw [hh.step_eq] at hn
    rw [(pass_undesired digest env cl.plane hr).1] at hn
    exact absurd hn (Option.some_ne_none n).symm

/-- Any request may change, but nothing is rebalanced. -/
def UnmovedStep (cl : Cluster) : Event → Prop
  | .exit _ _ => False
  | .rebalance _ => False
  | .reconcile env => Healthy cl env
  | _ => True

theorem UnmovedStep.invariant {e : Event} (h : UnmovedStep cl e)
    (hi : Tracked cl ∧ Aligned cl.plane) :
    Tracked (cl.step digest e) ∧ Aligned (cl.step digest e).plane := by
  obtain ⟨ht, ha⟩ := hi
  have hkeep : (∀ env, e ≠ .reconcile env) → (∀ n r, e ≠ .exit n r) → (∀ now, e ≠ .rebalance now) →
      Tracked (cl.step digest e) ∧ Aligned (cl.step digest e).plane := by
    intro hpass hexit hrebalance
    refine ⟨ht.frame hpass hexit, ?_⟩
    unfold Aligned
    rw [cl.step_scheduler digest hpass hrebalance, (cl.step_frame digest hpass hexit).2.1]
    exact ha
  cases e with
  | exit n r => exact absurd h id
  | rebalance now => exact absurd h id
  | reconcile env => exact ⟨ht.pass h fun r m rec _ hm hrec => ha r m rec hm hrec, Aligned.pass ht h⟩
  | _ => exact hkeep (by rintro _ ⟨⟩) (by rintro _ _ ⟨⟩) (by rintro _ ⟨⟩)

theorem aligned_new (interval : ℤ) (hpos : 0 < interval) : Aligned (new interval hpos).plane := by
  intro r n rec hn
  simp [new, Reconciler.new, Scheduler.new] at hn

/-- In a run of adds, updates, removes and passes, a pass stops all that is no
    longer desired exactly if all of it still has an assignment. -/
theorem pass_cleans_removed_iff (digest : Canonical → String) (interval : ℤ)
    (hpos : 0 < interval) (es : List Event) (env : Env)
    (hrun : Guarded (step digest) UnmovedStep (new interval hpos) es)
    (hh : Healthy (run (step digest) (new interval hpos) es) env) :
    Cleaned (run (step digest) (new interval hpos) (es ++ [.reconcile env])) ↔
      Removable (run (step digest) (new interval hpos) es).plane := by
  obtain ⟨ht, ha⟩ := hrun.invariant (fun _ _ hg => UnmovedStep.invariant hg)
    ⟨tracked_new interval hpos, aligned_new interval hpos⟩
  rw [run_append]
  exact ht.cleaned_iff hh ha

section Runs

/-- The first events of the runs below: nodes with 6800 MB schedulable each and
    workloads of one replica with the given memory requests. -/
def deployed (nodes : List String) (workloads : List (String × ℤ)) : List Event :=
  nodes.map (fun id => .announce { id := id, cpu := 4, memoryMB := 8000 } 0) ++
    workloads.map fun w => .add { id := w.1, image := "web", resources := some ⟨0, w.2⟩ }

def runOf (es : List Event) : Cluster := run (step Canonical.image) (new 1 Int.zero_lt_one) es

def thenPass (es : List Event) (now : ℤ) : List Event :=
  es ++ [.reconcile (honest (runOf es) now)]

theorem guarded_deployed {σ : Type} {step : σ → Event → σ} {G : σ → Event → Prop} {s : σ}
    (hnode : ∀ s n now, G s (.announce n now)) (hadd : ∀ s w, G s (.add w))
    (nodes : List String) (workloads : List (String × ℤ)) :
    Guarded step G s (deployed nodes workloads) := by
  refine guarded_of_forall (P := fun e => ∀ s, G s e) (fun s _ h => h s) _ ?_
  intro e he
  rcases List.mem_append.mp he with he | he
  · obtain ⟨id, -, rfl⟩ := List.mem_map.mp he
    exact fun s => hnode s _ _
  · obtain ⟨w, -, rfl⟩ := List.mem_map.mp he
    exact fun s => hadd s _

/-- With a pass between the rebalance and the removal the container is moved first. -/
theorem pass_places_containers_iff_relocated :
    Placed (runOf (thenPass (thenPass (thenPass
      (deployed ["n1", "n2"] [("a", 1000), ("b", 6000)]) 1 ++ [.rebalance 2]) 3 ++
        [.remove "a"]) 4)) := by
  refine (pass_places_containers_iff Canonical.image 1 one_pos _ _ ?_
    (honest_healthy (by decide +kernel))).mpr ?_
  · refine guarded_snoc (guarded_snoc (guarded_snoc (guarded_snoc (guarded_deployed ?_ ?_ _ _) ?_)
      trivial) ?_) trivial
    · exact fun _ _ _ => trivial
    · exact fun _ _ => trivial
    · exact ⟨honest_healthy (by decide +kernel), forall_lookup_iff.mpr (by decide +kernel)⟩
    · exact ⟨honest_healthy (by decide +kernel), forall_lookup_iff.mpr (by decide +kernel)⟩
  · exact forall_lookup_iff.mpr (by decide +kernel)

/-- Rebalancing swaps the two replicas, and the workload of the first is removed
    before the next pass: the stop goes to `n2` and the container stays on `n1`. -/
theorem rebalance_strands_container :
    ¬ ∀ (digest : Canonical → String) (interval : ℤ) (hpos : 0 < interval) (es : List Event)
      (env : Env), Guarded (step digest) HealthyStep (new interval hpos) es →
      Healthy (run (step digest) (new interval hpos) es) env →
      Placed (run (step digest) (new interval hpos) (es ++ [.reconcile env])) := by
  intro h
  have hguard : Guarded (step Canonical.image) HealthyStep (new 1 one_pos)
      (thenPass (deployed ["n1", "n2"] [("a", 1000), ("b", 6000)]) 1 ++ [.rebalance 2] ++
        [.remove "a"]) := by
    change _ ∧ _ ∧ _ ∧ _ ∧ _ ∧ _ ∧ _ ∧ True
    exact ⟨trivial, trivial, by unfold HealthyStep; decide +kernel,
      by unfold HealthyStep; decide +kernel, honest_healthy (by decide +kernel), trivial, trivial,
      trivial⟩
  have hs := h Canonical.image 1 one_pos _ _ hguard (@honest_healthy _ 3 (by decide +kernel))
    "n1" "a-0" (by decide +kernel)
  revert hs
  decide +kernel

/-- A removed workload that fits its node is stopped. -/
theorem pass_cleans_removed_iff_one_node :
    Cleaned (runOf (thenPass (thenPass (deployed ["n1"] [("a", 1000)]) 1 ++ [.remove "a"]) 2)) := by
  refine (pass_cleans_removed_iff Canonical.image 1 one_pos _ _ ?_
    (honest_healthy (by decide +kernel))).mpr ?_
  · exact guarded_snoc (guarded_snoc (guarded_deployed (fun _ _ _ => trivial)
      (fun _ _ => trivial) _ _) (honest_healthy (by decide +kernel))) trivial
  · exact forall_lookup_iff.mpr (by decide +kernel)

/-- The request outgrows the only node, so `Assign` drops the assignment and nobody
    stops the container. After the removal nothing remembers to stop it either. -/
theorem outgrown_replica_never_stopped :
    ¬ ∀ (digest : Canonical → String) (interval : ℤ) (hpos : 0 < interval) (es : List Event)
      (env : Env), Guarded (step digest) UnmovedStep (new interval hpos) es →
      Healthy (run (step digest) (new interval hpos) es) env →
      Cleaned (run (step digest) (new interval hpos) (es ++ [.reconcile env])) := by
  intro h
  have hguard : Guarded (step Canonical.image) UnmovedStep (new 1 one_pos)
      (thenPass (thenPass (deployed ["n1"] [("a", 1000)]) 1 ++
        [.add { id := "a", image := "web", resources := some ⟨0, 9000⟩ }]) 2 ++ [.remove "a"]) :=
    guarded_snoc (guarded_snoc (guarded_snoc (guarded_snoc (guarded_deployed (fun _ _ _ => trivial)
      (fun _ _ => trivial) _ _) (honest_healthy (by decide +kernel))) trivial)
      (honest_healthy (by decide +kernel))) trivial
  have hs := (h Canonical.image 1 one_pos _ _ hguard (@honest_healthy _ 3 (by decide +kernel))).1
    "n1" "a-0" (by decide +kernel)
  revert hs
  decide +kernel

end Runs

end Cluster
end Smith
