import Smith.AgentRequests

set_option autoImplicit false

/-!
# Undisturbed passes restore what is missing

A disturbance is a container that exits, a call that fails, a status that does not
arrive or a node that dies. Nothing is assumed about the state it leaves behind.
After it, no pass takes the last live copy of a desired replica away, and a record
without a live copy outlives the grace period by no more than one pass. Both hold over
HTTP for workload ids that a URL leaves alone.
-/
namespace Smith
open FiniteMaps Reconciler Runs Std

namespace Cluster

def Live (cl : Cluster) (r : String) : Prop :=
  ∃ n, cl.plane.registry.get n ≠ none ∧ (cl.agents n)[r]? ≠ none

def Desired (cl : Cluster) (r : String) : Prop := (expand cl.plane.store.list)[r]? ≠ none

def Assigned (cl : Cluster) (r : String) : Prop := cl.plane.scheduler.assignments[r]? ≠ none

/-- Workloads, rebalances and announcements come as they like. -/
def UndisturbedStep (cl : Cluster) : Event → Prop
  | .exit _ _ => False
  | .reconcile env => Healthy cl env
  | _ => True

variable {digest : Canonical → String} {cl : Cluster} {env : Env} {r : String}

theorem step_interval (digest : Canonical → String) (cl : Cluster) (e : Event) :
    (cl.step digest e).plane.interval = cl.plane.interval := by
  cases e with
  | add w =>
    obtain ⟨store, h, -⟩ := cl.addWorkload_list w
    rw [step, h]
  | announce n now =>
    obtain ⟨registry, h, -⟩ := cl.announce_eq n now
    rw [step, h]
  | reconcile env =>
    cases hl : env.listError with
    | none =>
      rw [step_reconcile digest cl hl]
      exact (pass_rest digest env cl.plane).2.2
    | some e => simp only [step, reconcile, Reconciler.reconcile, hl]
  | remove id => rfl
  | rebalance now => rfl
  | exit n r => rfl

theorem Live.of_same {cl' : Cluster} (h : cl.Live r)
    (hreg : ∀ n, cl.plane.registry.get n ≠ none → cl'.plane.registry.get n ≠ none)
    (hagents : ∀ n, (cl'.agents n)[r]? = (cl.agents n)[r]?) : cl'.Live r := by
  obtain ⟨n, hn, hc⟩ := h
  exact ⟨n, hreg n hn, hagents n ▸ hc⟩

section Pass
variable (hh : Healthy cl env)
include hh

theorem Healthy.registry_eq (digest : Canonical → String) :
    (cl.step digest (.reconcile env)).plane.registry = cl.plane.registry := by
  rw [hh.step_eq]
  exact (pass_rest digest env cl.plane).1.trans (congrArg _ hh.evict_eq)

theorem Healthy.running_iff :
    (cl.plane.running env).getD r false = true ↔ cl.Live r := by
  rw [running, hh.evict_eq, clusterRunning_iff]
  constructor
  · rintro ⟨node, hnode, status, hs, hrun⟩
    have hreg : cl.plane.registry.get node.id ≠ none := by
      rw [((Registry.mem_alive _ _ _).mp hnode).1]
      exact Option.some_ne_none node
    obtain ⟨status', hs', htrue⟩ := hh.statuses node.id hreg
    obtain rfl := Option.some.inj (hs.symm.trans hs')
    exact ⟨node.id, hreg, (htrue r).mp hrun⟩
  · rintro ⟨n, hn, hc⟩
    obtain ⟨node, hnode⟩ := Option.ne_none_iff_exists'.mp hn
    obtain ⟨status, hs, htrue⟩ := hh.statuses n hn
    refine ⟨node, hh.mem_alive hnode, status, ?_, (htrue r).mpr hc⟩
    rw [Registry.get_id hnode]
    exact hs

/-- A deployed replica has a container on its node, unless its record already named
    the node and nothing was sent. -/
theorem Healthy.pass_deployed {inst : ReplicaInstance} {n : String}
    (hr : (expand cl.plane.store.list)[r]? = some inst)
    (hn : (cl.plane.assigned env)[r]? = some n) :
    (cl.step digest (.reconcile env)).Live r ∨ cl.plane.pushed[r]? ≠ none ∧
      (cl.step digest (.reconcile env)).plane.pushed[r]? =
        cl.plane.pushed[r]?.filter (cl.plane.keeps env r) ∧
      ∀ m, ((cl.step digest (.reconcile env)).agents m)[r]? = (cl.agents m)[r]? := by
  obtain ⟨node, roll, rfl, hnode, hpushed, hagents⟩ := pass_deploys digest hr hn
  rw [hh.evict_eq] at hnode hpushed hagents
  have hid := expand_keyed hr
  have hlive : (cl.agents.receive (deploy digest env node inst.wl cl.plane.registry
      cl.plane.pushed[r]? roll).sent node.id)[r]? ≠ none →
      (cl.step digest (.reconcile env)).Live r := by
    intro hc
    refine ⟨node.id, ?_, ?_⟩
    · rw [hh.registry_eq digest, hnode]
      exact Option.some_ne_none node
    · rw [hh.step_eq, hagents]
      exact hc
  -- a push that is obeyed leaves a container, whether or not there was one
  have hstart : ∀ (a : Agents) (cause : Cause),
      (a.receive [pushAssignment env node inst.wl cause] node.id)[r]? ≠ none := by
    intro a cause
    rw [Agents.receive_pushAssignment]
    split_ifs with h
    · exact Option.some_ne_none _
    · intro hnone
      exact h ⟨rfl, hid.symm, hh.answers _, hnone⟩
  obtain ⟨-, hs, -⟩ | ⟨rec, -, -, hs, -⟩ | ⟨rec, -, -, -, -, hd⟩ | ⟨rec, hrec, -, -, hd⟩ :=
    deploy_cases digest env node inst.wl cl.plane.registry cl.plane.pushed[r]? roll
  · exact .inl (hlive (hs ▸ hstart _ _))
  · refine .inl (hlive ?_)
    rw [hs, Agents.receive_append]
    exact hstart _ _
  · refine .inl (hlive ?_)
    rw [hd, Agents.receive_roll, if_pos ⟨rfl, hid.symm, hh.answers _⟩, if_pos (hh.answers _)]
    exact Option.some_ne_none _
  · refine .inr ⟨hrec ▸ Option.some_ne_none rec, ?_, fun m => ?_⟩
    · rw [hh.step_eq, hpushed, hd]
      exact congrArg _ Option.none_or
    · rw [hh.step_eq, hagents, hd]
      rfl

/-- What a pass does to a replica: it leaves a live copy, or it sends nothing, or the
    replica is not desired and its record is gone. -/
theorem Healthy.pass_cases (digest : Canonical → String) (r : String) :
    (cl.step digest (.reconcile env)).Live r ∨
    ((cl.step digest (.reconcile env)).plane.pushed[r]? =
        cl.plane.pushed[r]?.filter (cl.plane.keeps env r) ∧
      (∀ m, ((cl.step digest (.reconcile env)).agents m)[r]? = (cl.agents m)[r]?) ∧
      ((cl.step digest (.reconcile env)).Assigned r → cl.plane.pushed[r]? ≠ none)) ∨
    ¬ cl.Desired r ∧ (cl.step digest (.reconcile env)).plane.pushed[r]? = none := by
  have hquiet : sentFor r (cl.plane.pass digest env).2 = [] →
      ∀ m, ((cl.step digest (.reconcile env)).agents m)[r]? = (cl.agents m)[r]? := by
    intro hsent m
    rw [hh.step_eq, Agents.receive_sentFor, hsent, Agents.receive_nil]
  cases hr : (expand cl.plane.store.list)[r]? with
  | some inst =>
    cases hn : (cl.plane.assigned env)[r]? with
    | some n =>
      obtain h | ⟨hrec, hpushed, hagents⟩ := hh.pass_deployed hr hn
      · exact .inl h
      · exact .inr (.inl ⟨hpushed, hagents, fun _ => hrec⟩)
    | none =>
      obtain ⟨hpushed, hsent⟩ := pass_pending digest env cl.plane hr hn
      obtain ⟨-, -, -, hassigned, -⟩ := pass_desired digest env cl.plane hr
      rw [hh.evict_eq] at hpushed
      refine .inr (.inl ⟨?_, hquiet hsent, ?_⟩)
      · rw [hh.step_eq]
        exact hpushed
      · rw [Assigned, hh.step_eq]
        exact fun h => absurd (hassigned.trans hn) h
  | none =>
    obtain ⟨hnone, ⟨-, hpushed, hsent⟩ | ⟨n, -, hpushed, -⟩⟩ := pass_undesired digest env cl.plane hr
    · rw [hh.evict_eq] at hpushed
      refine .inr (.inl ⟨?_, hquiet hsent, ?_⟩)
      · rw [hh.step_eq]
        exact hpushed
      · rw [Assigned, hh.step_eq]
        exact fun h => absurd hnone h
    · refine .inr (.inr ⟨not_not.mpr hr, ?_⟩)
      rw [hh.step_eq]
      exact hpushed

theorem Healthy.live_pass (hl : cl.Live r) (hd : cl.Desired r) :
    (cl.step digest (.reconcile env)).Live r := by
  obtain h | ⟨-, hagents, -⟩ | ⟨hnd, -⟩ := hh.pass_cases digest r
  · exact h
  · exact hl.of_same (fun n hn => hh.registry_eq digest ▸ hn) hagents
  · exact absurd hd hnd

end Pass

/-- Every record is excused by `P` or its replica has a live copy. -/
def Covered (P : PushRecord → Prop) (cl : Cluster) : Prop :=
  ∀ (r : String) (rec : PushRecord), cl.plane.pushed[r]? = some rec → P rec ∨ cl.Live r

theorem Live.frame (h : cl.Live r) {e : Event} (hpass : ∀ env, e ≠ .reconcile env)
    (hexit : ∀ n r, e ≠ .exit n r) : (cl.step digest e).Live r := by
  obtain ⟨ha, -, hg⟩ := cl.step_frame digest hpass hexit
  exact h.of_same hg fun n => by rw [ha]

theorem Live.step (h : cl.Live r) {e : Event} (he : UndisturbedStep cl e) (hd : cl.Desired r) :
    (cl.step digest e).Live r := by
  cases e with
  | reconcile env => exact Healthy.live_pass he h hd
  | exit n r => exact he.elim
  | _ => exact h.frame (by simp) (by simp)

section Covered
variable {P : PushRecord → Prop}

theorem Covered.pass (h : Covered P cl) (hh : Healthy cl env) :
    Covered P (cl.step digest (.reconcile env)) := by
  intro r rec hrec
  obtain hl | ⟨hpushed, hagents, -⟩ | ⟨-, hnone⟩ := hh.pass_cases digest r
  · exact .inr hl
  · rw [hpushed, Option.filter_eq_some_iff] at hrec
    refine (h r rec hrec.1).imp_right fun hl => ?_
    exact hl.of_same (fun n hn => hh.registry_eq digest ▸ hn) hagents
  · exact absurd (hnone.symm.trans hrec) (Option.some_ne_none rec).symm

theorem Covered.step (h : Covered P cl) {e : Event} (he : UndisturbedStep cl e) :
    Covered P (cl.step digest e) := by
  have hframe : (∀ env, e ≠ .reconcile env) → (∀ n r, e ≠ .exit n r) →
      Covered P (cl.step digest e) := by
    intro hpass hexit r rec hrec
    rw [(cl.step_frame digest hpass hexit).2.1] at hrec
    exact (h r rec hrec).imp_right fun hl => hl.frame hpass hexit
  cases e with
  | reconcile env => exact h.pass he
  | exit n r => exact he.elim
  | _ => exact hframe (by simp) (by simp)

theorem Covered.pass_expired (digest : Canonical → String) {t : ℤ}
    (h : Covered (fun rec => rec.pushedAt ≤ t) cl)
    (hh : Healthy cl env) (ht : t + 2 * cl.plane.interval ≤ env.now) :
    Covered (fun _ => False) (cl.step digest (.reconcile env)) := by
  intro r rec hrec
  obtain hl | ⟨hpushed, hagents, -⟩ | ⟨-, hnone⟩ := hh.pass_cases digest r
  · exact .inr hl
  · rw [hpushed, Option.filter_eq_some_iff] at hrec
    obtain ⟨hold, hkeeps⟩ := hrec
    suffices hl : cl.Live r from
      .inr (hl.of_same (fun n hn => hh.registry_eq digest ▸ hn) hagents)
    rcases h r rec hold with hle | hl
    · rw [keeps, Bool.or_eq_true, decide_eq_true_iff] at hkeeps
      exact hh.running_iff.mp (hkeeps.resolve_left (by omega))
    · exact hl
  · exact absurd (hnone.symm.trans hrec) (Option.some_ne_none rec).symm

theorem Covered.pass_assigned (h : Covered (fun _ => False) cl) (hh : Healthy cl env)
    (ha : (cl.step digest (.reconcile env)).Assigned r) :
    (cl.step digest (.reconcile env)).Live r := by
  obtain hl | ⟨-, hagents, hrec⟩ | ⟨hnd, -⟩ := hh.pass_cases digest r
  · exact hl
  · obtain ⟨rec, hrec⟩ := Option.ne_none_iff_exists'.mp (hrec ha)
    have hl : cl.Live r := (h r rec hrec).resolve_left id
    exact hl.of_same (fun n hn => hh.registry_eq digest ▸ hn) hagents
  · refine absurd ?_ ha
    rw [hh.step_eq]
    exact (pass_undesired digest env cl.plane (not_not.mp hnd)).1

end Covered

theorem run_interval (es : List Event) :
    (run (step digest) cl es).plane.interval = cl.plane.interval := by
  induction es generalizing cl with
  | nil => rfl
  | cons e es ih => exact ih.trans (step_interval digest cl e)

/-- A replica that stays desired keeps a live copy. -/
theorem live_copies_survive (digest : Canonical → String) (cl : Cluster) (r : String)
    (es : List Event) (hids : Addressable cl) (hlive : cl.Live r)
    (hrun : Guarded (stepHttp digest)
      (fun cl e => (UndisturbedStep cl e ∧ cl.Desired r) ∧ NamesUnmarked e) cl es) :
    (run (stepHttp digest) cl es).Live r := by
  obtain ⟨hsame, hguard⟩ := hids.run_http hrun
  rw [hsame]
  exact hguard.invariant (I := fun cl => cl.Live r) (fun _ _ he h => h.step he.1 he.2) hlive

/-- A new image reaches the only replica by a roll. -/
theorem live_copies_survive_roll :
    let cl := runOf (thenPass (deployed ["n1"] [("a", 1000)]) 1)
    let add : Event := .add { id := "a", image := "web:2", resources := some ⟨0, 1000⟩ }
    let pass : Event := .reconcile (honest (cl.stepHttp Canonical.image add) 2)
    let cl' := run (stepHttp Canonical.image) cl [add, pass]
    (cl'.agents "n1")["a-0"]?.map Workload.image = some "web:2" ∧ cl'.Live "a-0" := by
  intro cl add pass cl'
  refine ⟨by decide +kernel, ?_⟩
  refine live_copies_survive Canonical.image cl "a-0" _ ?_ ⟨"n1", by decide +kernel, by decide +kernel⟩
    ⟨⟨⟨trivial, ?_⟩, ?_⟩, ⟨⟨?_, ?_⟩, trivial⟩, trivial⟩
  · exact addressable_of_entries (forall_lookup_iff.mpr (by decide +kernel))
      (forall_lookup_iff.mpr (by decide +kernel))
  · unfold Desired
    decide +kernel
  · exact (by decide +kernel : Unmarked "a")
  · exact honest_healthy (by decide +kernel)
  · unfold Desired
    decide +kernel

/-- From any state with such ids: once a pass has run that comes a grace period after the
    newest record, every assigned replica has a live copy after every further pass. -/
theorem grace_period_heals (digest : Canonical → String) (cl : Cluster) (t : ℤ)
    (before after : List Event) (envA envB : Env)
    (hold : ∀ (r : String) (rec : PushRecord), cl.plane.pushed[r]? = some rec → rec.pushedAt ≤ t)
    (hexpired : t + 2 * cl.plane.interval ≤ envA.now) (hids : Addressable cl)
    (hrun : Guarded (stepHttp digest) (fun cl e => UndisturbedStep cl e ∧ NamesUnmarked e) cl
      (before ++ .reconcile envA :: after ++ [.reconcile envB])) :
    let cl' := run (stepHttp digest) cl (before ++ .reconcile envA :: after ++ [.reconcile envB])
    ∀ r, cl'.Assigned r → cl'.Live r := by
  intro cl' r
  obtain ⟨hsame, hguard⟩ := hids.run_http hrun
  obtain ⟨hfirst, hB⟩ := guarded_snoc_iff.mp hguard
  obtain ⟨hbefore, hA, hafter⟩ := (guarded_append cl before _).mp hfirst
  have hstart : Covered (fun rec => rec.pushedAt ≤ t) cl := fun r rec h => .inl (hold r rec h)
  have hcovered := hbefore.invariant (fun _ _ he h => h.step he) hstart
  have hdropped := hcovered.pass_expired digest hA ((run_interval before).symm ▸ hexpired)
  have hkept := hafter.invariant (fun _ _ he h => h.step he) hdropped
  have hfinal : cl' = (run (step digest) (run (step digest) cl
      (before ++ .reconcile envA :: after)) [.reconcile envB]) := hsame.trans (run_append ..)
  rw [hfinal]
  rw [run_append] at hB ⊢
  exact hkept.pass_assigned hB

/-- A container that exited after the pass that pushed it. -/
def exited : Cluster := runOf (thenPass (deployed ["n1"] [("a", 1000)]) 1 ++ [.exit "n1" "a-0"])

/-- The pass at 3 drops the record of the push at 1, the pass at 4 pushes again. -/
theorem grace_period_heals_exited :
    (exited.agents "n1")["a-0"]? = none ∧
      let dropped := exited.stepHttp Canonical.image (.reconcile (honest exited 3))
      (dropped.stepHttp Canonical.image (.reconcile (honest dropped 4))).Live "a-0" := by
  refine ⟨by decide +kernel, ?_⟩
  refine grace_period_heals Canonical.image exited 1 [] [] (honest exited 3) (honest _ 4) ?_ ?_ ?_ ?_
    "a-0" ?_
  · exact forall_lookup_iff.mpr (by decide +kernel)
  · decide +kernel
  · exact addressable_of_entries (forall_lookup_iff.mpr (by decide +kernel))
      (forall_lookup_iff.mpr (by decide +kernel))
  · exact ⟨⟨honest_healthy (by decide +kernel), trivial⟩,
      ⟨honest_healthy (by decide +kernel), trivial⟩, trivial⟩
  · unfold Assigned
    decide +kernel

end Cluster
end Smith
