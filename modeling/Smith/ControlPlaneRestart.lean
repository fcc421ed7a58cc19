import Smith.Failover
import Smith.PushRecords

set_option autoImplicit false

/-!
# The control plane starts again

The workloads are on disk. The nodes, the assignments and the push records are in
memory, and a restart loses them while the agents and their containers go on. The
first pass then places every replica as if none were running, and nothing that the
control plane does later stops a copy on a node that it does not place the replica on
again, as long as no other workload has an id that a URL turns into the replica's.
-/
namespace Smith
open FiniteMaps Reconciler Runs Std

namespace Cluster

/-- What `runServer` starts from: the stored workloads and a new registry, scheduler
    and reconciler. -/
def restart (cl : Cluster) : Cluster :=
  { cl with plane := { cl.plane with
      registry := Registry.new, scheduler := Scheduler.new, pushed := ∅ } }

inductive LifeEvent where
  | event (e : Event)
  | restart

def lifeStep (digest : Canonical → String) (cl : Cluster) : LifeEvent → Cluster
  | .event e => cl.stepHttp digest e
  | .restart => cl.restart

def LifeEvent.NamesUnmarked : LifeEvent → Prop
  | .event e => Cluster.NamesUnmarked e
  | .restart => True

variable {digest : Canonical → String} {cl : Cluster} {env : Env} {n r : String} {w : Workload}

/-- A container that neither an assignment nor a push record of its replica names. -/
structure Orphan (n r : String) (w : Workload) (cl : Cluster) : Prop where
  container : (cl.agents n)[r]? = some w
  unassigned : cl.plane.scheduler.assignments[r]? ≠ some n
  unrecorded : ∀ rec, cl.plane.pushed[r]? = some rec → rec.nodeID ≠ n

/-- No step brings the replica back to the node, and its container does not exit. -/
def NotReturned (digest : Canonical → String) (n r : String) (cl : Cluster) (e : LifeEvent) : Prop :=
  e ≠ .event (.exit n r) ∧ (cl.lifeStep digest e).plane.scheduler.assignments[r]? ≠ some n

section Elsewhere
variable {a : Agents} {g : Registry} {node : Node} {wl : Workload} {record : Option PushRecord}
  {roll : Bool}

/-- Deploying to one node reaches another only to stop the recorded container. -/
theorem receive_deploy_elsewhere (hnode : node.id ≠ n)
    (hrec : ∀ rec, record = some rec → rec.nodeID ≠ n) :
    (a.receive (deploy digest env node wl g record roll).sent n)[r]? = (a n)[r]? := by
  obtain ⟨-, hs, -⟩ | ⟨rec, hrecord, -, hs, -⟩ | ⟨rec, -, -, -, -, hd⟩ | ⟨rec, -, -, -, hd⟩ :=
    deploy_cases digest env node wl g record roll
  · rw [hs, Agents.receive_pushAssignment, if_neg fun h => hnode h.1.symm]
  · rw [hs, Agents.receive_append, Agents.receive_pushAssignment, if_neg fun h => hnode h.1.symm,
      Agents.receive_stopOn, if_neg fun h => hrec rec hrecord h.1.symm]
  · rw [hd, Agents.receive_roll, if_neg fun h => hnode h.1.symm]
  · rw [hd]
    rfl

theorem deploy_recorded_node {rec : PushRecord}
    (h : (deploy digest env node wl g record roll).recorded = some rec) : rec.nodeID = node.id := by
  have hstored : (if env.answer (.assign node.id wl) then some (recordPush digest env node wl)
      else none) = some rec → rec.nodeID = node.id := by
    intro hrec
    split_ifs at hrec
    rw [← Option.some.inj hrec]
    rfl
  obtain ⟨-, -, hd, -⟩ | ⟨old, -, -, -, hd, -⟩ | ⟨old, -, -, -, -, hd⟩ | ⟨old, -, -, -, hd⟩ :=
    deploy_cases digest env node wl g record roll
  · exact hstored (hd.symm.trans h)
  · exact hstored (hd.symm.trans h)
  · rw [hd] at h
    rcases roll_recorded digest env node wl with hroll | hroll
    · exact absurd (hroll.symm.trans h) (Option.some_ne_none rec).symm
    · rw [← Option.some.inj (hroll.symm.trans h)]
      rfl
  · rw [hd] at h
    exact absurd h (Option.some_ne_none rec).symm

end Elsewhere

theorem assigned_of_evictDead {now : ℤ} {c : Reconciler}
    (h : (c.evictDead now).scheduler.assignments[r]? = some n) :
    c.scheduler.assignments[r]? = some n := by
  obtain ⟨-, ha, -⟩ | ⟨-, ha, -⟩ := foldl_evict c (c.registry.dead now) r
  · exact absurd (ha.symm.trans h) (Option.some_ne_none n).symm
  · exact ha.symm.trans h

theorem Orphan.pass (h : Orphan n r w cl) (hl : env.listError = none)
    (hn : (cl.step digest (.reconcile env)).plane.scheduler.assignments[r]? ≠ some n) :
    Orphan n r w (cl.step digest (.reconcile env)) := by
  have hrecord : ∀ rec, (cl.plane.evictDead env.now).pushed[r]? = some rec → rec.nodeID ≠ n :=
    fun rec hrec => h.unrecorded rec (pushed_of_evictDead hrec)
  have hquiet : sentFor r (cl.plane.pass digest env).2 = [] →
      (cl.plane.pass digest env).1.pushed[r]? =
        (cl.plane.evictDead env.now).pushed[r]?.filter (cl.plane.keeps env r) →
      Orphan n r w (cl.step digest (.reconcile env)) := by
    intro hsent hpushed
    refine ⟨?_, hn, fun rec hrec => ?_⟩
    · rw [step_reconcile digest cl hl, Agents.receive_sentFor, hsent]
      exact h.container
    · rw [step_reconcile digest cl hl, hpushed, Option.filter_eq_some_iff] at hrec
      exact hrecord rec hrec.1
  cases hr : (expand cl.plane.store.list)[r]? with
  | some inst =>
    obtain ⟨-, -, -, hassigned, -⟩ := pass_desired digest env cl.plane hr
    cases hm : (cl.plane.assigned env)[r]? with
    | none =>
      obtain ⟨hpushed, hsent⟩ := pass_pending digest env cl.plane hr hm
      exact hquiet hsent hpushed
    | some m =>
      obtain ⟨node, roll, rfl, -, hpushed, hagents⟩ := pass_deploys digest hr hm
      have hne : node.id ≠ n := by
        rintro rfl
        rw [step_reconcile digest cl hl] at hn
        exact hn (hassigned.trans hm)
      refine ⟨?_, hn, fun rec hrec => ?_⟩
      · rw [step_reconcile digest cl hl, hagents, receive_deploy_elsewhere hne hrecord]
        exact h.container
      · rw [step_reconcile digest cl hl, hpushed, Option.filter_eq_some_iff, Option.or_eq_some_iff]
          at hrec
        obtain ⟨hnew | ⟨-, hold⟩, -⟩ := hrec
        · rw [deploy_recorded_node hnew]
          exact hne
        · exact hrecord rec hold
  | none =>
    obtain ⟨-, ⟨-, hpushed, hsent⟩ | ⟨m, hm, hpushed, hsent⟩⟩ :=
      pass_undesired digest env cl.plane hr
    · exact hquiet hsent hpushed
    · refine ⟨?_, hn, fun rec hrec => ?_⟩
      · have hne : n ≠ m := by
          rintro rfl
          exact h.unassigned (assigned_of_evictDead hm)
        rw [step_reconcile digest cl hl, Agents.receive_sentFor, hsent, Agents.receive_stopOn,
          if_neg fun hc => hne hc.1]
        exact h.container
      · rw [step_reconcile digest cl hl, hpushed] at hrec
        exact absurd hrec (Option.some_ne_none rec).symm

theorem Addressable.lifeStep (h : Addressable cl) {e : LifeEvent} (he : e.NamesUnmarked) :
    Addressable (cl.lifeStep digest e) := by
  cases e with
  | event e =>
    rw [Cluster.lifeStep, h.stepHttp_eq]
    exact h.step he
  | restart =>
    refine ⟨h.stored, fun r hr => absurd ?_ hr⟩
    simp [Cluster.lifeStep, restart, Scheduler.new]

theorem Orphan.step (h : Orphan n r w cl) (hids : Addressable cl) {e : LifeEvent}
    (he : NotReturned digest n r cl e) : Orphan n r w (cl.lifeStep digest e) := by
  obtain ⟨hexit, hn⟩ := he
  cases e with
  | restart => exact ⟨h.container, by simp [lifeStep, restart, Scheduler.new],
      by simp [lifeStep, restart]⟩
  | event e =>
    rw [lifeStep, hids.stepHttp_eq] at hn ⊢
    have hframe : (∀ env, e ≠ .reconcile env) → (∀ m q, e ≠ .exit m q) →
        Orphan n r w (cl.step digest e) := by
      intro hpass hne
      obtain ⟨ha, hp, -⟩ := cl.step_frame digest hpass hne
      refine ⟨?_, hn, ?_⟩
      · rw [ha]
        exact h.container
      · rw [hp]
        exact h.unrecorded
    cases e with
    | reconcile env =>
      cases hl : env.listError with
      | none => exact h.pass hl hn
      | some e =>
        have hsame : cl.step digest (.reconcile env) = cl := by
          simp only [Cluster.step, reconcile, Reconciler.reconcile, hl]
        rw [hsame]
        exact h
    | exit m q =>
      refine ⟨?_, h.unassigned, h.unrecorded⟩
      rw [Cluster.step]
      dsimp only
      by_cases hm : n = m
      · subst hm
        rw [Function.update_self, lookup_erase_ne]
        · exact h.container
        · rintro rfl
          exact hexit rfl
      · rw [Function.update_of_ne hm]
        exact h.container
    | _ => exact hframe (by simp) (by simp)

/-- Through any run, restarts included, a container that nothing names stays as it is
    for as long as its replica is not placed on its node and it does not exit. -/
theorem orphan_outlives_runs (digest : Canonical → String) (cl : Cluster) (n r : String)
    (w : Workload) (es : List LifeEvent) (hids : Addressable cl) (horphan : Orphan n r w cl)
    (hrun : Guarded (lifeStep digest) (fun cl e => NotReturned digest n r cl e ∧ e.NamesUnmarked)
      cl es) :
    ((run (lifeStep digest) cl es).agents n)[r]? = some w := by
  have hboth := hrun.invariant (I := fun cl => Addressable cl ∧ Orphan n r w cl)
    (fun _ _ he h => ⟨h.1.lifeStep he.2, h.2.step h.1 he.1⟩) ⟨hids, horphan⟩
  exact hboth.2.container

/-- `n1` and `n2` have one replica each when the control plane starts again. Only `n2`
    registers, gets both replicas and later loses one of them again. -/
theorem orphan_outlives_runs_two_nodes :
    let before := runOf (thenPass (deployed ["n1", "n2"] [("a", 5000), ("b", 5000)]) 1)
    let register : Event := .announce { id := "n2", cpu := 4, memoryMB := 16000 } 2
    let known := before.restart.step Canonical.image register
    let placed := known.step Canonical.image (.reconcile (honest known 3))
    placed.plane.scheduler.assignments["a-0"]? = some "n2" ∧
      ((run (lifeStep Canonical.image) before [.restart, .event register,
        .event (.reconcile (honest known 3)), .event (.remove "a"),
        .event (.reconcile (honest placed 4))]).agents "n1")["a-0"]?.isSome := by
  intro before register known placed
  refine ⟨by decide +kernel, ?_⟩
  obtain ⟨w, hw⟩ : ∃ w, (before.agents "n1")["a-0"]? = some w :=
    Option.isSome_iff_exists.mp (by decide +kernel)
  have hblank : Orphan "n1" "a-0" w before.restart :=
    ⟨hw, by simp [restart, Scheduler.new], by simp [restart]⟩
  have hids : Addressable before.restart :=
    addressable_of_entries (forall_lookup_iff.mpr (by decide +kernel))
      (forall_lookup_iff.mpr (by decide +kernel))
  have hrun := orphan_outlives_runs Canonical.image before.restart "n1" "a-0" w
    [.event register, .event (.reconcile (honest known 3)), .event (.remove "a"),
      .event (.reconcile (honest placed 4))] hids hblank
    ⟨⟨⟨by simp [register], by decide +kernel⟩, trivial⟩, ⟨⟨by simp, by decide +kernel⟩, trivial⟩,
      ⟨⟨by simp, by decide +kernel⟩, trivial⟩, ⟨⟨by simp, by decide +kernel⟩, trivial⟩, trivial⟩
  change ((run (lifeStep Canonical.image) before.restart _).agents "n1")["a-0"]?.isSome = true
  rw [hrun]
  rfl

section FirstPass

def Blank (cl : Cluster) : Prop :=
  (∀ r : String, cl.plane.scheduler.assignments[r]? = none) ∧ ∀ r : String, cl.plane.pushed[r]? = none

theorem Blank.announce (digest : Canonical → String) (h : Blank cl) (m : Node) (now : ℤ) :
    Blank (cl.step digest (.announce m now)) ∧
      (cl.step digest (.announce m now)).agents = cl.agents := by
  obtain ⟨ha, hp, -⟩ := @step_frame digest cl (.announce m now) (by simp) (by simp)
  have hs := @step_scheduler digest cl (.announce m now) (by simp) (by simp)
  refine ⟨⟨fun r => ?_, fun r => ?_⟩, ha⟩
  · rw [hs]
    exact h.1 r
  · rw [hp]
    exact h.2 r

theorem Blank.announceAll (digest : Canonical → String) (h : Blank cl) (nodes : List (Node × ℤ)) :
    let cl' := run (step digest) cl (nodes.map fun a => .announce a.1 a.2)
    Blank cl' ∧ cl'.agents = cl.agents := by
  induction nodes generalizing cl with
  | nil => exact ⟨h, rfl⟩
  | cons a nodes ih =>
    obtain ⟨hblank, hagents⟩ := h.announce digest a.1 a.2
    obtain ⟨h', hsame⟩ := ih hblank
    exact ⟨h', hsame.trans hagents⟩

theorem Blank.pass_containers (digest : Canonical → String) (h : Blank cl) (hl : env.listError = none)
    (hstarts : ∀ id w, env.answer (.assign id w) = true) (n r : String) :
    let cl' := cl.step digest (.reconcile env)
    (∀ w, (cl.agents n)[r]? = some w → (cl'.agents n)[r]? = some w) ∧
      ((cl'.agents n)[r]? ≠ none ↔
        (cl.agents n)[r]? ≠ none ∨ cl'.plane.scheduler.assignments[r]? = some n) := by
  intro cl'
  have hcl' : cl' = ⟨(cl.plane.pass digest env).1, cl.agents.receive (cl.plane.pass digest env).2⟩ :=
    step_reconcile digest cl hl
  have hpushed : (cl.plane.evictDead env.now).pushed[r]? = none := by
    cases hp : (cl.plane.evictDead env.now).pushed[r]? with
    | none => rfl
    | some rec => exact absurd ((h.2 r).symm.trans (pushed_of_evictDead hp)) (by simp)
  have hquiet : sentFor r (cl.plane.pass digest env).2 = [] →
      (cl'.agents n)[r]? = (cl.agents n)[r]? := by
    intro hsent
    rw [hcl', Agents.receive_sentFor, hsent, Agents.receive_nil]
  cases hr : (expand cl.plane.store.list)[r]? with
  | none =>
    obtain ⟨hnone, ⟨-, -, hsent⟩ | ⟨m, hm, -⟩⟩ := pass_undesired digest env cl.plane hr
    · rw [hquiet hsent, show cl'.plane.scheduler.assignments[r]? = none from hcl' ▸ hnone]
      exact ⟨fun w hw => hw, by simp⟩
    · exact absurd ((h.1 r).symm.trans (assigned_of_evictDead hm)) (by simp)
  | some inst =>
    obtain ⟨-, -, -, hassigned, -⟩ := pass_desired digest env cl.plane hr
    cases hm : (cl.plane.assigned env)[r]? with
    | none =>
      rw [hquiet (pass_pending digest env cl.plane hr hm).2,
        show cl'.plane.scheduler.assignments[r]? = none from hcl' ▸ hassigned.trans hm]
      exact ⟨fun w hw => hw, by simp⟩
    | some m =>
      obtain ⟨node, roll, rfl, -, -, hagents⟩ := pass_deploys digest hr hm
      have hplaced : cl'.plane.scheduler.assignments[r]? = some node.id :=
        hcl' ▸ hassigned.trans hm
      have hstart : (cl'.agents n)[r]? = if n = node.id ∧ (cl.agents n)[r]? = none then
          some inst.wl else (cl.agents n)[r]? := by
        rw [hcl', hagents, hpushed, deploy, Agents.receive_pushAssignment, expand_keyed hr,
          hstarts]
        simp only [true_and]
      rw [hstart, hplaced, Option.some.injEq, @eq_comm _ node.id]
      cases hc : (cl.agents n)[r]? with
      | some w => simp
      | none => simp

/-- After a restart, with any nodes registering again: the first pass stops nothing,
    and a replica with one container keeps one exactly if it is placed where that
    container runs or not at all. -/
theorem restart_single_copy_iff (digest : Canonical → String) (cl : Cluster)
    (nodes : List (Node × ℤ)) (env : Env) (hlisted : env.listError = none)
    (hstarts : ∀ id w, env.answer (.assign id w) = true) :
    let known := run (step digest) cl.restart (nodes.map fun a => .announce a.1 a.2)
    let cl' := known.step digest (.reconcile env)
    (∀ (n r : String) (w : Workload),
      (cl.agents n)[r]? = some w → (cl'.agents n)[r]? = some w) ∧
    ∀ r n : String, (∀ m, (cl.agents m)[r]? ≠ none ↔ m = n) →
      ((∀ m, (cl'.agents m)[r]? ≠ none ↔ m = n) ↔
        ∀ m, cl'.plane.scheduler.assignments[r]? = some m → m = n) := by
  intro known cl'
  have hrestart : Blank cl.restart :=
    ⟨by simp [restart, Scheduler.new], by simp [restart]⟩
  obtain ⟨hblank, hagents⟩ := hrestart.announceAll digest nodes
  have hpass := fun n r => hblank.pass_containers digest hlisted hstarts n r
  rw [hagents] at hpass
  refine ⟨fun n r w hw => (hpass n r).1 w hw, fun r n hone => ?_⟩
  have hiff : ∀ m, (cl'.agents m)[r]? ≠ none ↔
      m = n ∨ cl'.plane.scheduler.assignments[r]? = some m :=
    fun m => (hpass m r).2.trans (or_congr_left (hone m))
  constructor
  · intro h m hm
    exact (h m).mp ((hiff m).mpr (.inr hm))
  · intro h m
    rw [hiff]
    exact ⟨fun hm => hm.elim id (h m), .inl⟩

/-- Only `n2` registers again, so `a-0` is placed there beside its copy on `n1`. -/
theorem restart_single_copy_iff_second_copy :
    let before := runOf (thenPass (deployed ["n1", "n2"] [("a", 5000), ("b", 5000)]) 1)
    let known := before.restart.step Canonical.image
      (.announce { id := "n2", cpu := 4, memoryMB := 16000 } 2)
    let cl' := known.step Canonical.image (.reconcile (honest known 3))
    (cl'.agents "n1")["a-0"]?.isSome ∧ (cl'.agents "n2")["a-0"]?.isSome := by
  intro before known cl'
  refine ⟨?_, by decide +kernel⟩
  obtain ⟨w, hw⟩ : ∃ w, (before.agents "n1")["a-0"]? = some w :=
    Option.isSome_iff_exists.mp (by decide +kernel)
  have kept : (cl'.agents "n1")["a-0"]? = some w :=
    (restart_single_copy_iff Canonical.image before
      [({ id := "n2", cpu := 4, memoryMB := 16000 }, 2)] (honest known 3) rfl
      fun _ _ => rfl).1 "n1" "a-0" w hw
  rw [kept]
  rfl

end FirstPass

end Cluster
end Smith
