import Smith.CalmPass

set_option autoImplicit false

/-!
# Rolls converge

In a cluster of seated replicas the roll of one workload takes the stale replicas
batch by batch in the order of their ids, leaves every other workload alone, and
ends in passes that do nothing.
-/
namespace Smith
open FiniteMaps PacedLoops Runs Std

namespace Reconciler

structure Converged (digest : Canonical → String) (c : Reconciler) : Prop where
  seated : Seated c
  current : ∀ (r : String) (inst : ReplicaInstance), (expand c.store.list)[r]? = some inst →
    c.stale digest inst = false

/-- An accepted update of a stored workload that keeps its request and its number of
    replicas and changes its spec. -/
structure SpecUpdate (digest : Canonical → String) (c : Reconciler) (w : Workload) : Prop where
  accepted : ∃ store, c.store.add w = .ok store
  changed : ∃ old, c.store.list[w.id]? = some old ∧ replicaCount w = replicaCount old ∧
    requestOf w = requestOf old ∧ specHash digest w ≠ specHash digest old

end Reconciler

namespace Cluster
open Reconciler

def isPass : Event → Bool
  | .reconcile _ => true
  | _ => false

def passes (es : List Event) : ℕ := es.countP isPass

theorem passes_append_reconcile (before after : List Event) (env : Env) :
    passes (before ++ .reconcile env :: after) = passes before + 1 + passes after := by
  rw [passes, List.countP_append, List.countP_cons_of_pos rfl, passes, passes]
  omega

/-- Nodes heartbeat or join, containers may exit, and every pass is calm. -/
def CalmRollStep (cl : Cluster) : Event → Prop
  | .announce _ _ => True
  | .exit _ _ => True
  | .reconcile env => Calm cl.plane env
  | _ => False

/-- After `k` passes only the replicas of `w` beyond the first `k` batches are stale. -/
structure Rolling (digest : Canonical → String) (stored : GoMap Workload) (w : String) (k : ℕ)
    (cl : Cluster) : Prop where
  store : cl.plane.store.list = stored
  seated : Seated cl.plane
  others : ∀ (r : String) (inst : ReplicaInstance), (expand stored)[r]? = some inst →
    inst.parent ≠ w → cl.plane.stale digest inst = false
  batches : ∀ inst ∈ cl.plane.replicasOf w, cl.plane.stale digest inst = true ↔
    inst ∈ (cl.plane.replicasOf w).drop (k * (maxUnavailable (workloadOf stored w)).toNat)
  tidy : ∀ r : String, cl.plane.pushed[r]? ≠ none → (expand stored)[r]? ≠ none

section Rolling
variable {digest : Canonical → String} {stored : GoMap Workload} {w : String} {k : ℕ}
  {cl : Cluster} {env : Env}

theorem Rolling.stale_eq (h : Rolling digest stored w k cl) :
    (cl.plane.replicasOf w).filter (cl.plane.stale digest) =
      (cl.plane.replicasOf w).drop (k * (maxUnavailable (workloadOf stored w)).toNat) :=
  filter_eq_drop (cl.plane.nodup_replicasOf w) h.batches

theorem Rolling.rolled_eq (h : Rolling digest stored w k cl) (hc : Calm cl.plane env) :
    cl.plane.rolled digest env w =
      ((cl.plane.replicasOf w).drop (k * (maxUnavailable (workloadOf stored w)).toNat)).take
        (maxUnavailable (workloadOf stored w)).toNat := by
  rw [h.seated.rolled_eq hc, h.stale_eq, h.store]

theorem Rolling.rolled_others (h : Rolling digest stored w k cl) (hc : Calm cl.plane env)
    {v : String} (hv : v ≠ w) : cl.plane.rolled digest env v = [] := by
  rw [h.seated.rolled_eq hc, List.filter_eq_nil_iff.mpr, List.take_nil]
  intro inst hi
  obtain ⟨hd, hp⟩ := (cl.plane.mem_replicasOf v inst).mp hi
  rw [h.others inst.wl.id inst (h.store ▸ hd) (hp ▸ hv)]
  exact Bool.false_ne_true

/-- A pass makes exactly the replicas of its batch current. -/
theorem Rolling.pass_stale (h : Rolling digest stored w k cl) (hc : Calm cl.plane env)
    {r : String} {inst : ReplicaInstance} (hr : (expand stored)[r]? = some inst) :
    (cl.plane.pass digest env).1.stale digest inst = true ↔
      cl.plane.stale digest inst = true ∧ inst ∉ cl.plane.rolled digest env inst.parent := by
  obtain rfl := expand_keyed hr
  obtain ⟨hroll, n, -, -, hp⟩ | ⟨hroll, -, hp⟩ :=
    h.seated.pass_replica digest hc (h.store ▸ hr)
  · rw [stale, hp]
    simp [hroll]
  · rw [stale, hp, stale]
    simp [hroll]

theorem Rolling.pass (h : Rolling digest stored w k cl) (hc : Calm cl.plane env) :
    Rolling digest stored w (k + 1) (cl.step digest (.reconcile env)) := by
  have hstore := (pass_rest digest env cl.plane).2.1
  have hlist : (cl.plane.pass digest env).1.replicasOf w = cl.plane.replicasOf w := by
    rw [replicasOf, hstore, ← replicasOf]
  rw [step_reconcile digest cl hc.listed]
  refine ⟨?_, h.seated.pass hc, ?_, ?_, ?_⟩
  · dsimp only
    rw [hstore, h.store]
  · intro r inst hr hp
    have hs := h.pass_stale hc hr
    rw [h.others r inst hr hp] at hs
    simpa using hs
  · dsimp only
    rw [hlist]
    intro inst hi
    obtain ⟨hd, hp⟩ := (cl.plane.mem_replicasOf w inst).mp hi
    rw [h.pass_stale hc (h.store ▸ hd), hp, h.batches inst hi, h.rolled_eq hc, Nat.add_mul, one_mul,
      mem_drop_add (cl.plane.nodup_replicasOf w)]
  · intro r hp hr
    have hnone : cl.plane.pushed[r]? = none := by
      by_contra hne
      exact h.tidy r hne hr
    dsimp only at hp
    rw [(h.seated.pass_other hc (h.store ▸ hr)).2, hnone] at hp
    exact hp rfl

theorem Rolling.step {e : Event} (h : Rolling digest stored w k cl) (he : CalmRollStep cl e) :
    Rolling digest stored w (k + passes [e]) (cl.step digest e) := by
  cases e with
  | reconcile env => exact h.pass he
  | announce n now =>
    obtain ⟨registry, ha, hget⟩ := cl.announce_eq n now
    rw [Cluster.step, ha]
    exact ⟨h.store, h.seated.registry (announce_schedulable hget), h.others, h.batches, h.tidy⟩
  | exit n r => exact ⟨h.store, h.seated, h.others, h.batches, h.tidy⟩
  | add v => exact absurd he id
  | remove a => exact absurd he id
  | rebalance now => exact absurd he id

theorem Rolling.run {es : List Event} (h : Rolling digest stored w k cl)
    (hrun : Guarded (Cluster.step digest) CalmRollStep cl es) :
    Rolling digest stored w (k + passes es) (Runs.run (Cluster.step digest) cl es) := by
  induction es generalizing cl k with
  | nil => exact h
  | cons e es ih =>
    have hs := ih (h.step hrun.1) hrun.2
    have hp : k + passes [e] + passes es = k + passes (e :: es) := by
      rw [add_assoc, passes, passes, passes, ← List.countP_append]
      rfl
    rw [hp] at hs
    exact hs

theorem Rolling.current {v : Workload} (h : Rolling digest stored v.id k cl)
    (hv : cl.plane.store.list[v.id]? = some v)
    (hdone : (cl.plane.replicasOf v.id).drop
      (k * (maxUnavailable (workloadOf stored v.id)).toNat) = []) {i : ℕ} (hi : i < replicaCount v) :
    ∃ rec, cl.plane.pushed[replicaID v.id i]? = some rec ∧ rec.specHash = specHash digest v := by
  have hmem := (cl.plane.replicasOf_stored hv _).mpr ⟨i, hi, rfl⟩
  have hd := ((cl.plane.mem_replicasOf v.id _).mp hmem).1
  obtain ⟨-, -, rec, -, -, -, -, hrec, -⟩ := h.seated.replica _ _ hd
  refine ⟨rec, hrec, ?_⟩
  have hs := h.batches _ hmem
  rw [hdone, stale, hrec] at hs
  have hcur : rec.specHash = specHash digest (replicaInstance v.id v i).wl := by simpa using hs
  exact hcur

def Quiet (digest : Canonical → String) (c : Reconciler) (env : Env) : Prop :=
  (c.pass digest env).2 = [] ∧ (c.pass digest env).1.scheduler = c.scheduler ∧
    (c.pass digest env).1.pushed = c.pushed

/-- A pass stops and restarts the batch on its nodes and calls no agent for any other
    replica of any workload. -/
def RestartsOnly (digest : Canonical → String) (c : Reconciler) (env : Env)
    (batch : List ReplicaInstance) : Prop :=
  ∀ r : String,
    (∃ inst ∈ batch, inst.wl.id = r ∧ ∃ n, c.scheduler.assignments[r]? = some n ∧
      sentFor r (c.pass digest env).2 =
        [⟨.roll, .unassign n r, true⟩, ⟨.roll, .assign n inst.wl, true⟩]) ∨
    ((∀ inst ∈ batch, inst.wl.id ≠ r) ∧ sentFor r (c.pass digest env).2 = [])

theorem Rolling.restarts (h : Rolling digest stored w k cl) (hc : Calm cl.plane env) :
    RestartsOnly digest cl.plane env (cl.plane.rolled digest env w) := by
  have hmem : ∀ inst ∈ cl.plane.rolled digest env w,
      (expand cl.plane.store.list)[inst.wl.id]? = some inst ∧ inst.parent = w := by
    exact fun inst hi => (cl.plane.mem_replicasOf w inst).mp (List.mem_filter.mp hi).1
  intro r
  cases hr : (expand cl.plane.store.list)[r]? with
  | none =>
    refine .inr ⟨fun inst hi hid => ?_, (h.seated.pass_other hc hr).1⟩
    rw [← hid, (hmem inst hi).1] at hr
    exact absurd hr (Option.some_ne_none inst)
  | some inst =>
    obtain ⟨hi, n, hn, hsent, -⟩ | ⟨hi, hsent, -⟩ :=
      h.seated.pass_replica digest hc hr
    · by_cases hp : inst.parent = w
      · exact .inl ⟨inst, hp ▸ hi, expand_keyed hr, n, hn, hsent⟩
      · rw [h.rolled_others hc hp] at hi
        exact absurd hi List.not_mem_nil
    · refine .inr ⟨fun other ho hid => ?_, hsent⟩
      obtain ⟨hother, hp⟩ := hmem other ho
      rw [hid, hr] at hother
      obtain rfl := Option.some.inj hother
      exact hi (hp.symm ▸ ho)

theorem Rolling.quiet (h : Rolling digest stored w k cl) (hc : Calm cl.plane env)
    (hdone : cl.plane.rolled digest env w = []) : Quiet digest cl.plane env := by
  have hsent : ∀ r, sentFor r (cl.plane.pass digest env).2 = [] := by
    intro r
    obtain ⟨inst, hi, -⟩ | ⟨-, hs⟩ := h.restarts hc r
    · rw [hdone] at hi
      exact absurd hi List.not_mem_nil
    · exact hs
  refine ⟨?_, h.seated.pass_scheduler_eq hc, ?_⟩
  · refine List.eq_nil_iff_forall_not_mem.mpr fun x hx => ?_
    have hmem : x ∈ sentFor x.call.replica (cl.plane.pass digest env).2 :=
      List.mem_filter.mpr ⟨hx, decide_eq_true rfl⟩
    rw [hsent] at hmem
    exact List.not_mem_nil hmem
  · apply ExtTreeMap.ext_getElem?
    intro r
    cases hr : (expand cl.plane.store.list)[r]? with
    | none =>
      have hnone : cl.plane.pushed[r]? = none := by
        by_contra hne
        exact h.tidy r hne (h.store ▸ hr)
      rw [(h.seated.pass_other hc hr).2, hnone]
      rfl
    | some inst =>
      obtain ⟨-, n, -, hs, -⟩ | ⟨-, -, hp⟩ := h.seated.pass_replica digest hc hr
      · rw [hsent] at hs
        exact absurd hs.symm (List.cons_ne_nil _ _)
      · exact hp

end Rolling

section Update
variable {digest : Canonical → String} {cl : Cluster} {w : Workload}

theorem step_update (hu : SpecUpdate digest cl.plane w) :
    ∃ store, store.list = cl.plane.store.list.insert w.id w ∧
      cl.step digest (.add w) = { cl with plane := { cl.plane with store := store } } := by
  obtain ⟨store, hadd⟩ := hu.accepted
  refine ⟨store, Store.list_add hadd, ?_⟩
  simp only [step, addWorkload, hadd]

/-- The update makes every replica of its workload stale and changes nothing else. -/
theorem rolling_of_update (h : Converged digest cl.plane)
    (htidy : ∀ r : String, cl.plane.pushed[r]? ≠ none → (expand cl.plane.store.list)[r]? ≠ none)
    (hu : SpecUpdate digest cl.plane w) :
    Rolling digest (cl.plane.store.list.insert w.id w) w.id 0 (cl.step digest (.add w)) := by
  obtain ⟨old, hold, hcount, hreq, hhash⟩ := hu.changed
  obtain ⟨store, hlist, hstep⟩ := step_update hu
  rw [hstep]
  refine ⟨hlist, ⟨?_, ?_⟩, ?_, ?_, ?_⟩
  · intro r inst hr
    dsimp only at hr ⊢
    rw [hlist] at hr
    obtain ⟨-, hsame⟩ | ⟨i, rfl, hprev⟩ := expand_update hold hcount hr
    · exact h.seated.replica r inst hsame
    · obtain ⟨n, node, rec, hn, hnode, hle, hrec, hrest⟩ := h.seated.replica r _ hprev
      refine ⟨n, node, rec, hn, hnode, hle, ?_, hrest⟩
      rw [hrec]
      exact congrArg some hreq.symm
  · intro r n hn
    dsimp only
    rw [hlist]
    exact expand_update_ne_none hold hcount (h.seated.only r n hn)
  · intro r inst hr hp
    obtain ⟨-, hsame⟩ | ⟨i, rfl, -⟩ := expand_update hold hcount hr
    · exact h.current r inst hsame
    · exact absurd rfl hp
  · intro inst hi
    rw [Nat.zero_mul, List.drop_zero]
    refine iff_of_true ?_ hi
    obtain ⟨hr, hp⟩ := (mem_replicasOf _ w.id inst).mp hi
    dsimp only at hr
    rw [hlist] at hr
    obtain ⟨hne, -⟩ | ⟨i, rfl, hprev⟩ := expand_update hold hcount hr
    · exact absurd hp hne
    · obtain ⟨-, -, rec, -, -, -, -, hrec, -⟩ := h.seated.replica _ _ hprev
      have hcur := h.current _ _ hprev
      change (cl.plane.pushed[(replicaInstance w.id w i).wl.id]?.any fun rec =>
        rec.specHash ≠ specHash digest old) = false at hcur
      change (cl.plane.pushed[(replicaInstance w.id w i).wl.id]?.any fun rec =>
        rec.specHash ≠ specHash digest w) = true
      rw [hrec] at hcur ⊢
      simp only [Option.any_some, ne_eq, decide_not, Bool.not_eq_false', decide_eq_true_eq] at hcur
      simpa [hcur] using Ne.symm hhash
  · intro r hp
    exact expand_update_ne_none hold hcount (htidy r hp)

/-- The roll of `w` from the updated cluster `cl`, at the pass `env` after the events
    `es`: the pass replaces as many stale replicas as the budget allows and none that
    an earlier pass replaced. After enough passes all records carry the new spec and
    the pass is quiet. -/
structure RollsInBatches (digest : Canonical → String) (cl : Cluster) (w : Workload)
    (es : List Event) (env : Env) : Prop where
  batch : ((run (step digest) cl es).plane.rolled digest env w.id).length =
    min (maxUnavailable w).toNat (((run (step digest) cl es).plane.replicasOf w.id).filter
      ((run (step digest) cl es).plane.stale digest)).length
  restarts : RestartsOnly digest (run (step digest) cl es).plane env
    ((run (step digest) cl es).plane.rolled digest env w.id)
  once : ∀ before env' after, es = before ++ .reconcile env' :: after →
    ∀ inst ∈ (run (step digest) cl before).plane.rolled digest env' w.id,
      inst ∉ (run (step digest) cl es).plane.rolled digest env w.id
  finished : replicaCount w ⌈/⌉ (maxUnavailable w).toNat ≤ passes es →
    (∀ i < replicaCount w, ∃ rec,
      (run (step digest) cl es).plane.pushed[replicaID w.id i]? = some rec ∧
        rec.specHash = specHash digest w) ∧
    Quiet digest (run (step digest) cl es).plane env

/-- A roll goes through the replicas batch by batch and then goes quiet. -/
theorem roll_converges (digest : Canonical → String) (cl : Cluster) (w : Workload)
    (h : Converged digest cl.plane)
    (htidy : ∀ r : String, cl.plane.pushed[r]? ≠ none → (expand cl.plane.store.list)[r]? ≠ none)
    (hu : SpecUpdate digest cl.plane w) (es : List Event) (env : Env)
    (hrun : Guarded (step digest) CalmRollStep (cl.step digest (.add w)) es)
    (hcalm : Calm (run (step digest) (cl.step digest (.add w)) es).plane env) :
    RollsInBatches digest (cl.step digest (.add w)) w es env := by
  have hstart := rolling_of_update h htidy hu
  set start := cl.step digest (.add w) with hcl
  have hw : workloadOf (cl.plane.store.list.insert w.id w) w.id = w := by
    simp [workloadOf, getD_eq]
  have hroll : ∀ {es}, Guarded (step digest) CalmRollStep start es →
      Rolling digest (cl.plane.store.list.insert w.id w) w.id (passes es) (run (step digest) start es) :=
    fun hrun => by simpa using hstart.run hrun
  have hlist : ∀ {es}, Guarded (step digest) CalmRollStep start es →
      (run (step digest) start es).plane.replicasOf w.id = start.plane.replicasOf w.id :=
    fun hrun => by rw [replicasOf, (hroll hrun).store, ← hstart.store, ← replicasOf]
  have hend := hroll hrun
  have hstored : (run (step digest) start es).plane.store.list[w.id]? = some w := by
    rw [hend.store, lookup_insert_self]
  refine ⟨?_, hend.restarts hcalm, ?_, ?_⟩
  · rw [hend.rolled_eq hcalm, hend.stale_eq, List.length_take, hw]
  · rintro before env' after rfl inst hi
    obtain ⟨hbefore, hcalm', -⟩ := (guarded_append _ _ _).mp hrun
    rw [(hroll hbefore).rolled_eq hcalm', hlist hbefore, hw] at hi
    rw [hend.rolled_eq hcalm, hlist hrun, hw]
    intro hlater
    -- a later batch starts behind the whole of this one, and no replica is listed twice
    have hcount : passes (before ++ .reconcile env' :: after) * (maxUnavailable w).toNat =
        (passes before * (maxUnavailable w).toNat + (maxUnavailable w).toNat) +
          passes after * (maxUnavailable w).toNat := by
      rw [passes_append_reconcile]
      ring
    rw [hcount, ← List.drop_drop] at hlater
    have hdrop := List.mem_of_mem_drop (List.mem_of_mem_take hlater)
    exact ((mem_drop_add (start.plane.nodup_replicasOf w.id) _ inst).mp hdrop).2 hi
  · intro hk
    have hb : 0 < (maxUnavailable w).toNat := by
      unfold maxUnavailable
      split_ifs <;> omega
    rw [ceilDiv_le_iff_le_mul hb, Nat.mul_comm, ← length_replicasOf _ hstored] at hk
    have hdrop : ((run (step digest) start es).plane.replicasOf w.id).drop
        (passes es * (maxUnavailable w).toNat) = [] := List.drop_eq_nil_of_le hk
    refine ⟨fun i hi => ?_, hend.quiet hcalm ?_⟩
    · exact hend.current hstored (by rw [hw, hdrop]) hi
    · rw [hend.rolled_eq hcalm, hw, hdrop, List.take_nil]

end Update

section Runs

/-- What is desired runs on `n1`, as the pass at 1 has pushed it. -/
structure OnOneNode (c : Reconciler) : Prop where
  desired : ∀ (r : String) (inst : ReplicaInstance), (expand c.store.list)[r]? = some inst →
    c.scheduler.assignments[r]? = some "n1" ∧
      c.scheduler.requests[r]? = some (requestOf inst.wl) ∧
      c.pushed[r]? = some ⟨"n1", 1, inst.wl.image⟩
  registered : c.registry.get "n1" = some { id := "n1", cpu := 4, memoryMB := 8000 }
  within : c.scheduler.committed "n1" ≤ schedulable { id := "n1", cpu := 4, memoryMB := 8000 }
  only : ∀ r n : String, c.scheduler.assignments[r]? = some n → (expand c.store.list)[r]? ≠ none

theorem OnOneNode.converged {c : Reconciler} (h : OnOneNode c) : Converged Canonical.image c := by
  refine ⟨⟨fun r inst hr => ?_, h.only⟩, fun r inst hr => ?_⟩
  · obtain ⟨hassigned, hreq, hpushed⟩ := h.desired r inst hr
    exact ⟨"n1", _, _, hassigned, h.registered, h.within, hreq, hpushed, rfl⟩
  · obtain ⟨-, -, hpushed⟩ := h.desired r inst hr
    rw [stale, expand_keyed hr, hpushed]
    simp [specHash, canonical]

theorem calm_honest {cl : Cluster} {now : ℤ} (halive : cl.plane.registry.dead now = [])
    (hrunning : ∀ e ∈ (expand cl.plane.store.list).toList,
      (cl.plane.running (honest cl now)).getD e.1 false = true) :
    Calm cl.plane (honest cl now) := by
  have hall : ∀ (r : String) (inst : ReplicaInstance), (expand cl.plane.store.list)[r]? = some inst →
      (cl.plane.running (honest cl now)).getD r false = true := forall_lookup_iff.mpr hrunning
  refine ⟨rfl, halive, fun _ => rfl, fun r hr => ?_⟩
  obtain ⟨inst, hinst⟩ := Option.ne_none_iff_exists'.mp hr
  exact hall r inst hinst

def threeReplicas (image : String) : Workload :=
  { id := "a", image := image, resources := some ⟨0, 1000⟩, replicas := 3, maxUnavailable := 2 }

def besideOther : Cluster :=
  runOf (thenPass (deployed ["n1"] [("b", 1000)] ++ [.add (threeReplicas "web")]) 1)

theorem besideOther_converged : Converged Canonical.image besideOther.plane := by
  refine OnOneNode.converged ⟨?_, by decide +kernel, by decide +kernel, ?_⟩
  · exact forall_lookup_iff.mpr (by decide +kernel)
  · exact forall_lookup_iff.mpr (by decide +kernel)

/-- Two replicas are replaced, then the third, and the next pass is quiet. -/
theorem roll_converges_three_replicas :
    let cl := besideOther.step Canonical.image (.add (threeReplicas "web:2"))
    let cl₁ := cl.step Canonical.image (.reconcile (honest cl 2))
    let cl₂ := cl₁.step Canonical.image (.reconcile (honest cl₁ 3))
    (cl.plane.rolled Canonical.image (honest cl 2) "a").length = 2 ∧
      (cl₁.plane.rolled Canonical.image (honest cl₁ 3) "a").length = 1 ∧
      Quiet Canonical.image cl₂.plane (honest cl₂ 4) := by
  intro cl cl₁ cl₂
  have hrecords : ∀ (r : String) (rec : PushRecord), besideOther.plane.pushed[r]? = some rec →
      (expand besideOther.plane.store.list)[r]? ≠ none := forall_lookup_iff.mpr (by decide +kernel)
  have htidy : ∀ r : String, besideOther.plane.pushed[r]? ≠ none →
      (expand besideOther.plane.store.list)[r]? ≠ none := by
    intro r hr
    obtain ⟨rec, hrec⟩ := Option.ne_none_iff_exists'.mp hr
    exact hrecords r rec hrec
  have hupdate : SpecUpdate Canonical.image besideOther.plane (threeReplicas "web:2") :=
    ⟨⟨_, rfl⟩, threeReplicas "web", rfl, rfl, rfl, by decide⟩
  have hcalm : Calm cl.plane (honest cl 2) := calm_honest (by decide +kernel) (by decide +kernel)
  have hcalm₁ : Calm cl₁.plane (honest cl₁ 3) := calm_honest (by decide +kernel) (by decide +kernel)
  have hcalm₂ : Calm cl₂.plane (honest cl₂ 4) := calm_honest (by decide +kernel) (by decide +kernel)
  have hroll := roll_converges Canonical.image besideOther _ besideOther_converged htidy hupdate
  refine ⟨(hroll [] _ trivial hcalm).batch.trans ?_,
    (hroll [.reconcile (honest cl 2)] _ ⟨hcalm, trivial⟩ hcalm₁).batch.trans ?_,
    ((hroll [.reconcile (honest cl 2), .reconcile (honest cl₁ 3)] _ ⟨hcalm, hcalm₁, trivial⟩
      hcalm₂).finished ?_).2⟩
  · decide +kernel
  · decide +kernel
  · decide

def webTwo : Workload := { id := "a", image := "web:2", resources := some ⟨0, 1000⟩ }

/-- The request of `x` outgrew `n1` before `x` was removed, so its container and its
    push record are left behind. -/
def leftover : Cluster :=
  runOf (thenPass (thenPass (thenPass (deployed ["n1"] [("a", 1000), ("x", 1000)]) 1 ++
    [.add { id := "x", image := "web", resources := some ⟨0, 9000⟩ }]) 2 ++ [.remove "x"]) 3)

/-- After the roll of `a` the left container exits and a later pass drops its record. -/
theorem leftover_record_dropped_later :
    ¬ ∀ (digest : Canonical → String) (cl : Cluster) (w : Workload), Converged digest cl.plane →
      SpecUpdate digest cl.plane w → ∀ (es : List Event) (env : Env),
      Guarded (step digest) CalmRollStep (cl.step digest (.add w)) es →
      Calm (run (step digest) (cl.step digest (.add w)) es).plane env →
      RollsInBatches digest (cl.step digest (.add w)) w es env := by
  intro h
  have hspec : OnOneNode leftover.plane := by
    refine ⟨?_, by decide +kernel, by decide +kernel, ?_⟩
    · exact forall_lookup_iff.mpr (by decide +kernel)
    · exact forall_lookup_iff.mpr (by decide +kernel)
  have hupdate : SpecUpdate Canonical.image leftover.plane webTwo :=
    ⟨⟨_, rfl⟩, { webTwo with image := "web" }, rfl, rfl, rfl, by decide⟩
  have hroll := h Canonical.image leftover webTwo hspec.converged hupdate
    [.reconcile (honest (leftover.step Canonical.image (.add webTwo)) 4), .exit "n1" "x-0"]
    (honest (run (step Canonical.image) (leftover.step Canonical.image (.add webTwo))
      [.reconcile (honest (leftover.step Canonical.image (.add webTwo)) 4), .exit "n1" "x-0"]) 10)
    ⟨calm_honest (by decide +kernel) (by decide +kernel), trivial, trivial⟩
    (calm_honest (by decide +kernel) (by decide +kernel))
  have hsame := congrArg (fun t : GoMap PushRecord => t["x-0"]?) (hroll.finished (by decide)).2.2.2
  revert hsame
  decide +kernel

end Runs

end Cluster
end Smith
