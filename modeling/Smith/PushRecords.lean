import Smith.StrandedContainers

set_option autoImplicit false

/-!
# What push records say about the running spec

A push record is written after an acknowledged assign. The agent acknowledges an
assign for a container that exists and ignores it, so the record tells the truth
exactly if no acknowledged push, other than a roll, meets a container of another
spec. Status replies, exits and failing calls never make a record lie by themselves.
-/
namespace Smith
open FiniteMaps Reconciler Runs Std

namespace Cluster
variable {digest : Canonical → String} {cl : Cluster} {env : Env}

def Truthful (digest : Canonical → String) (cl : Cluster) : Prop :=
  ∀ (r : String) (rec : PushRecord) (w : Workload), cl.plane.pushed[r]? = some rec →
    (cl.agents rec.nodeID)[r]? = some w → specHash digest w = rec.specHash

/-- Wherever this pass pushes a replica that has no record for its node, with
    success, a container already there has the desired spec. -/
def MeetsOwnSpec (digest : Canonical → String) (env : Env) (cl : Cluster) : Prop :=
  ∀ (r n : String) (inst : ReplicaInstance) (w : Workload),
    (expand cl.plane.store.list)[r]? = some inst → (cl.plane.assigned env)[r]? = some n →
    (∀ rec, (cl.plane.evictDead env.now).pushed[r]? = some rec → rec.nodeID ≠ n) →
    env.answer (.assign n inst.wl) = true → (cl.agents n)[r]? = some w →
    specHash digest w = specHash digest inst.wl

theorem pushed_of_evictDead {now : ℤ} {c : Reconciler} {r : String} {rec : PushRecord}
    (h : (c.evictDead now).pushed[r]? = some rec) : c.pushed[r]? = some rec := by
  obtain ⟨-, -, hp⟩ | ⟨-, -, hp⟩ := foldl_evict c (c.registry.dead now) r
  · exact absurd (hp.symm.trans h) (Option.some_ne_none rec).symm
  · exact hp.symm.trans h

theorem Truthful.of_kept (h : Truthful digest cl) {r : String} {rec : PushRecord} {w : Workload}
    (hp : (cl.plane.evictDead env.now).pushed[r]? = some rec)
    (hw : (cl.agents rec.nodeID)[r]? = some w) : specHash digest w = rec.specHash :=
  h r rec w (pushed_of_evictDead hp) hw

section Deploy
variable {node : Node} {inst : ReplicaInstance} {r : String} {rec : PushRecord} {w : Workload}

theorem pushed_spec {a : Agents} {cause : Cause}
    (hold : ∀ w, (a node.id)[r]? = some w → specHash digest w = specHash digest inst.wl)
    (hw : (a.receive [pushAssignment env node inst.wl cause] node.id)[r]? = some w) :
    specHash digest w = specHash digest inst.wl := by
  rw [Agents.receive_pushAssignment] at hw
  split_ifs at hw with hc
  · rw [← Option.some.inj hw]
  · exact hold w hw

theorem roll_spec {a : Agents} (hid : inst.wl.id = r)
    (hrec : rec.nodeID = node.id)
    (hold : ∀ w, (a node.id)[r]? = some w → specHash digest w = rec.specHash)
    {rec' : PushRecord} (hp : (roll digest env node inst.wl).recorded.or (some rec) = some rec')
    (hw : (a.receive (roll digest env node inst.wl).sent rec'.nodeID)[r]? = some w) :
    specHash digest w = rec'.specHash := by
  rw [Agents.receive_roll, hid] at hw
  by_cases hs : env.answer (.unassign node.id inst.wl.id) = true
  · by_cases ha : env.answer (.assign node.id inst.wl) = true
    · have hroll : (roll digest env node inst.wl).recorded =
          some (recordPush digest env node inst.wl) := by
        simp [roll, pushUnassign, pushAssignment, hs, ha]
      rw [hroll, Option.some_or] at hp
      obtain rfl := Option.some.inj hp
      rw [hid] at hs
      simp only [recordPush, hs, ha, and_self, ↓reduceIte, Option.some.injEq] at hw
      rw [← hw]
      rfl
    · have hroll : (roll digest env node inst.wl).recorded = none := by
        simp [roll, pushUnassign, pushAssignment, hs, ha]
      rw [hroll, Option.none_or] at hp
      obtain rfl := Option.some.inj hp
      rw [hid] at hs
      simp [hrec, hs, ha] at hw
  · have hroll : (roll digest env node inst.wl).recorded = none := by
      simp [roll, pushUnassign, hs]
    rw [hroll, Option.none_or] at hp
    obtain rfl := Option.some.inj hp
    rw [hid] at hs
    simp only [hrec, hs, Bool.false_eq_true, and_false, ↓reduceIte] at hw
    exact hold w hw

end Deploy

/-- A desired replica with a node, by the four cases of its turn. -/
theorem Truthful.pass_deployed (h : Truthful digest cl) (hm : MeetsOwnSpec digest env cl)
    {r n : String} {inst : ReplicaInstance} {rec : PushRecord} {w : Workload}
    (hr : (expand cl.plane.store.list)[r]? = some inst) (hn : (cl.plane.assigned env)[r]? = some n)
    (hp : (cl.plane.pass digest env).1.pushed[r]? = some rec)
    (hw : (cl.agents.receive (cl.plane.pass digest env).2 rec.nodeID)[r]? = some w) :
    specHash digest w = rec.specHash := by
  obtain ⟨node, roll, rfl, -, hpushed, hagents⟩ := pass_deploys digest hr hn
  rw [hagents] at hw
  rw [hpushed, Option.filter_eq_some_iff] at hp
  replace hp := hp.1
  obtain ⟨hrec, hs, hd, -⟩ | ⟨old, hrec, hne, hs, hd, -⟩ | ⟨old, hrec, heq, -, -, hd⟩ |
      ⟨old, hrec, heq, -, hd⟩ := deploy_cases digest env node inst.wl
        (cl.plane.evictDead env.now).registry (cl.plane.evictDead env.now).pushed[r]? roll
  · rw [hd, hrec] at hp
    rw [hs] at hw
    split_ifs at hp with ha
    · obtain rfl := Option.some.inj hp
      refine pushed_spec (fun w' hw' => ?_) hw
      exact hm r node.id inst w' hr hn (fun rec' h' => by simp [hrec] at h') ha hw'
    · exact absurd hp (Option.some_ne_none rec).symm
  · rw [hd, hrec] at hp
    rw [hs, Agents.receive_append] at hw
    split_ifs at hp with ha
    · obtain rfl := Option.some.inj hp
      refine pushed_spec (fun w' hw' => ?_) hw
      rw [Agents.receive_stopOn, if_neg fun hc => hne hc.1.symm] at hw'
      refine hm r node.id inst w' hr hn (fun rec' h' => ?_) ha hw'
      rw [hrec] at h'
      rwa [← Option.some.inj h']
    -- the start was refused: the old record stays, and its container unless it was stopped
    · obtain rfl := Option.some.inj hp
      rw [Agents.receive_pushAssignment, if_neg fun hc => ha hc.2.2.1,
        Agents.receive_stopOn] at hw
      split_ifs at hw
      exact h.of_kept hrec hw
  · rw [hd, hrec] at hp
    rw [hd] at hw
    refine roll_spec (expand_keyed hr) heq (fun w' hw' => ?_) hp hw
    exact h.of_kept hrec (heq.symm ▸ hw')
  · rw [hd] at hp hw
    exact h.of_kept hp hw

theorem Truthful.pass (h : Truthful digest cl) (hm : MeetsOwnSpec digest env cl)
    (hl : env.listError = none) : Truthful digest (cl.step digest (.reconcile env)) := by
  intro r rec w hp hw
  rw [step_reconcile digest cl hl] at hp hw
  dsimp only at hp hw
  cases hr : (expand cl.plane.store.list)[r]? with
  | none =>
    obtain ⟨-, ⟨-, hpushed, hsent⟩ | ⟨n, -, hpushed, -⟩⟩ := pass_undesired digest env cl.plane hr
    · rw [Agents.receive_sentFor, hsent, Agents.receive_nil] at hw
      rw [hpushed, Option.filter_eq_some_iff] at hp
      exact h.of_kept hp.1 hw
    · rw [hpushed] at hp
      exact absurd hp (Option.some_ne_none rec).symm
  | some inst =>
    cases hn : (cl.plane.assigned env)[r]? with
    | none =>
      obtain ⟨hpushed, hsent⟩ := pass_pending digest env cl.plane hr hn
      rw [Agents.receive_sentFor, hsent, Agents.receive_nil] at hw
      rw [hpushed, Option.filter_eq_some_iff] at hp
      exact h.of_kept hp.1 hw
    | some n => exact h.pass_deployed hm hr hn hp hw

/-- A push that meets a container of another spec makes the record lie. -/
theorem meetsOwnSpec_of_truthful (hl : env.listError = none)
    (h : Truthful digest (cl.step digest (.reconcile env))) : MeetsOwnSpec digest env cl := by
  intro r n inst w hr hn hother ha hw
  have hid := expand_keyed hr
  rw [step_reconcile digest cl hl] at h
  obtain ⟨node, roll, rfl, -, hpushed, hagents⟩ := pass_deploys digest hr hn
  have hstored : (if env.answer (.assign node.id inst.wl) then
      some (recordPush digest env node inst.wl) else none) =
      some (recordPush digest env node inst.wl) := if_pos ha
  have hkept := keeps_recordPush digest cl env node inst.wl r
  have hkeep : ∀ a : Agents, (a node.id)[r]? = some w → ∀ cause,
      (a.receive [pushAssignment env node inst.wl cause] node.id)[r]? = some w := by
    intro a hw cause
    rw [Agents.receive_pushAssignment, if_neg fun hc => by simp [hw] at hc]
    exact hw
  obtain ⟨hrec, hs, hd, -⟩ | ⟨old, hrec, hne, hs, hd, -⟩ | ⟨old, hrec, heq, -, -, hd⟩ |
      ⟨old, hrec, heq, -, hd⟩ := deploy_cases digest env node inst.wl
        (cl.plane.evictDead env.now).registry (cl.plane.evictDead env.now).pushed[r]? roll
  · rw [hd, hstored, Option.some_or, Option.filter_some, if_pos hkept] at hpushed
    refine h r _ w hpushed ?_
    rw [hagents, hs]
    exact hkeep _ hw _
  · rw [hd, hstored, Option.some_or, Option.filter_some, if_pos hkept] at hpushed
    refine h r _ w hpushed ?_
    rw [hagents, hs, Agents.receive_append]
    refine hkeep _ ?_ _
    rw [Agents.receive_stopOn, if_neg fun hc => hne hc.1.symm]
    exact hw
  · exact absurd heq (hother old hrec)
  · exact absurd heq (hother old hrec)

def MeetsOwnSpecStep (digest : Canonical → String) (cl : Cluster) : Event → Prop
  | .reconcile env => env.listError = none → MeetsOwnSpec digest env cl
  | _ => True

theorem Truthful.step (h : Truthful digest cl) {e : Event} (he : MeetsOwnSpecStep digest cl e) :
    Truthful digest (cl.step digest e) := by
  have hframe : (∀ env, e ≠ .reconcile env) → (∀ n r, e ≠ .exit n r) →
      Truthful digest (cl.step digest e) := by
    intro hpass hexit
    obtain ⟨ha, hp, -⟩ := cl.step_frame digest hpass hexit
    unfold Truthful
    rw [ha, hp]
    exact h
  cases e with
  | reconcile env =>
    cases hl : env.listError with
    | none => exact h.pass (he hl) hl
    | some e =>
      have hsame : cl.step digest (.reconcile env) = cl := by
        simp only [Cluster.step, reconcile, Reconciler.reconcile, hl]
      rwa [hsame]
  | exit n q =>
    intro r rec w hp hw
    refine h r rec w hp ?_
    change (cl.agents.apply (.unassign n q) rec.nodeID)[r]? = some w at hw
    rw [Agents.apply_unassign] at hw
    split_ifs at hw
    exact hw
  | _ => exact hframe (by rintro _ ⟨⟩) (by rintro _ _ ⟨⟩)

/-- In a run of any events, with any status replies and any failing calls, the push
    records stay truthful as long as no push meets a container of another spec, and
    the first pass in which one does makes a record lie. -/
theorem push_records_truthful_iff (digest : Canonical → String) (interval : ℤ)
    (hpos : 0 < interval) (es : List Event) (env : Env)
    (hrun : Guarded (step digest) (MeetsOwnSpecStep digest) (new interval hpos) es)
    (hl : env.listError = none) :
    Truthful digest (run (step digest) (new interval hpos) es) ∧
    (Truthful digest (run (step digest) (new interval hpos) (es ++ [.reconcile env])) ↔
      MeetsOwnSpec digest env (run (step digest) (new interval hpos) es)) := by
  have hnew : Truthful digest (new interval hpos) := by
    intro r rec w hp
    simp [new, Reconciler.new] at hp
  have ht := hrun.invariant (fun _ _ he hc => Truthful.step hc he) hnew
  refine ⟨ht, ?_⟩
  rw [run_append]
  exact ⟨meetsOwnSpec_of_truthful hl, fun hm => ht.pass hm hl⟩

theorem meetsOwnSpec_of_assigned (h : ∀ r n : String, (cl.plane.assigned env)[r]? = some n →
      ∀ inst : ReplicaInstance, inst ∈ (expand cl.plane.store.list)[r]? → ∀ w ∈ (cl.agents n)[r]?,
        specHash digest w = specHash digest inst.wl) : MeetsOwnSpec digest env cl :=
  fun r n inst w hr hn _ _ hw => h r n hn inst hr w hw

/-- The pass at 10 gets no status reply and forgets the record of the push at 1. -/
def forgotten : List Event := thenPass (deployed ["n1"] [("a", 1000)]) 1 ++
  [.reconcile { now := 10, status := fun _ => none, answer := fun _ => true }]

/-- The pass at 11 pushes onto the container that the pass at 1 has started, which is of the
    same spec. -/
theorem push_records_truthful_iff_pushed_twice :
    (runOf forgotten).plane.pushed["a-0"]? = none ∧
      ((runOf forgotten).agents "n1")["a-0"]?.isSome ∧
      (runOf (thenPass forgotten 11)).plane.pushed["a-0"]? = some ⟨"n1", 11, "web"⟩ ∧
      Truthful Canonical.image (runOf (thenPass forgotten 11)) := by
  refine ⟨by decide +kernel, by decide +kernel, by decide +kernel, ?_⟩
  have hguard : Guarded (step Canonical.image) (MeetsOwnSpecStep Canonical.image) (new 1 one_pos)
      forgotten := by
    refine guarded_snoc (guarded_snoc
      (guarded_deployed (fun _ _ _ => trivial) (fun _ _ => trivial) _ _) fun _ => ?_) fun _ => ?_
    · exact meetsOwnSpec_of_assigned (forall_lookup_iff.mpr (by decide +kernel))
    · exact meetsOwnSpec_of_assigned (forall_lookup_iff.mpr (by decide +kernel))
  refine (push_records_truthful_iff Canonical.image 1 one_pos forgotten _ hguard rfl).2.mpr ?_
  exact meetsOwnSpec_of_assigned (forall_lookup_iff.mpr (by decide +kernel))

/-- The image is updated before the pass at 11. -/
def updatedUnseen : List Event :=
  thenPass (forgotten ++ [.add { id := "a", image := "web:2", resources := some ⟨0, 1000⟩ }]) 11

/-- No node dies and nothing is rebalanced. -/
def CalmStep (cl : Cluster) : Event → Prop
  | .rebalance _ => False
  | .reconcile env => cl.plane.registry.dead env.now = []
  | _ => True

/-- The new image is pushed onto the running container of the old one. -/
theorem failed_status_fetch_falsifies_record :
    ¬ ∀ (digest : Canonical → String) (interval : ℤ) (hpos : 0 < interval) (es : List Event),
      Guarded (step digest) CalmStep (new interval hpos) es →
      Truthful digest (run (step digest) (new interval hpos) es) := by
  intro h
  have hguard : Guarded (step Canonical.image) CalmStep (new 1 one_pos) updatedUnseen := by
    change _ ∧ _ ∧ _ ∧ _ ∧ _ ∧ _ ∧ True
    exact ⟨trivial, trivial, by unfold CalmStep; decide +kernel,
      by unfold CalmStep; decide +kernel, trivial, by unfold CalmStep; decide +kernel, trivial⟩
  have hold : ((runOf updatedUnseen).agents "n1")["a-0"]?.map Workload.image = some "web" := by
    decide +kernel
  obtain ⟨w, hw, himage⟩ := Option.map_eq_some_iff.mp hold
  have hs := h Canonical.image 1 one_pos _ hguard "a-0" ⟨"n1", 11, "web:2"⟩ w (by decide +kernel) hw
  change w.image = "web:2" at hs
  rw [himage] at hs
  revert hs
  decide

end Cluster
end Smith
