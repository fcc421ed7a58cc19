import Smith.StrandedContainers

set_option autoImplicit false

/-!
# Whether a failed stop is remembered

A node owes every replica whose push it acknowledged and whose unassign it did not,
since it was last registered. The control plane can retry a stop only on a node that an
assignment or a push record names, and a pass forgets both when it removes a workload
and overwrites the record when it relocates a replica, whether or not the stop succeeded.
-/
namespace Smith
open FiniteMaps Reconciler Runs Std

structure Watched where
  cluster : Cluster
  owed : Agents

namespace Watched

def new (interval : ℤ) (interval_pos : 0 < interval) : Watched :=
  ⟨Cluster.new interval interval_pos, fun _ => ∅⟩

def onlyRegistered (g : Registry) (owed : Agents) : Agents :=
  fun n => if g.get n = none then ∅ else owed n

def step (digest : Canonical → String) (w : Watched) (e : Event) : Watched where
  cluster := w.cluster.step digest e
  owed := match e with
    | .reconcile env =>
      match w.cluster.plane.reconcile digest env with
      | .ok (plane, sent) => (onlyRegistered plane.registry w.owed).receive sent
      | .error _ => w.owed
    | _ => w.owed

def Named (c : Reconciler) (r n : String) : Prop :=
  c.scheduler.assignments[r]? = some n ∨ ∃ rec, c.pushed[r]? = some rec ∧ rec.nodeID = n

def Remembered (w : Watched) : Prop :=
  ∀ n r : String, (w.owed n)[r]? ≠ none → Named w.cluster.plane r n

/-- The record a pass finds for `r` names `n` and is such that `P`. -/
def recorded (env : Env) (c : Reconciler) (r n : String) (P : PushRecord → Bool) : Bool :=
  (c.evictDead env.now).pushed[r]?.any fun rec => rec.nodeID == n && P rec

/-- What a pass meets where it does not lose `r` on `n`. A desired replica stays assigned
    to `n`, or its record names `n` and either the stop of its relocation is acknowledged
    or it is not relocated and the record is recent or the replica Running. A replica no
    longer desired is assigned to `n` and its stop acknowledged, or it is not assigned and
    its record names `n` and is recent or the replica Running. -/
def kept (env : Env) (c : Reconciler) (r n : String) : Bool :=
  match (expand c.store.list)[r]? with
  | some inst =>
    match (c.assigned env)[r]? with
    | some m => m == n || recorded env c r n fun rec => env.answer (.unassign n r) ||
        !env.answer (.assign m inst.wl) && c.keeps env r rec
    | none => recorded env c r n (c.keeps env r)
  | none =>
    match (c.evictDead env.now).scheduler.assignments[r]? with
    | some m => m == n && env.answer (.unassign n r)
    | none => recorded env c r n (c.keeps env r)

/-- No replica owed by a node that is still registered is lost. -/
def Retains (env : Env) (w : Watched) : Prop :=
  ∀ n r : String, (w.owed n)[r]? ≠ none →
    (w.cluster.plane.evictDead env.now).registry.get n ≠ none →
      kept env w.cluster.plane r n = true

variable {digest : Canonical → String} {w : Watched} {env : Env}

theorem lookup_onlyRegistered (g : Registry) (owed : Agents) (n r : String) :
    (onlyRegistered g owed n)[r]? ≠ none ↔ g.get n ≠ none ∧ (owed n)[r]? ≠ none := by
  unfold onlyRegistered
  split_ifs with h
  · simp [h]
  · simp [h]

theorem step_reconcile (hl : env.listError = none) : w.step digest (.reconcile env) =
    ⟨w.cluster.step digest (.reconcile env),
      (onlyRegistered (w.cluster.plane.evictDead env.now).registry w.owed).receive
        (w.cluster.plane.pass digest env).2⟩ := by
  simp only [step, Reconciler.reconcile, hl]
  rfl

theorem recorded_iff (c : Reconciler) (r n : String) (P : PushRecord → Bool) :
    recorded env c r n P = true ↔
      ∃ rec, (c.evictDead env.now).pushed[r]?.filter P = some rec ∧ rec.nodeID = n := by
  unfold recorded
  cases (c.evictDead env.now).pushed[r]? with
  | none => simp
  | some rec =>
    simp only [Option.any_some, Bool.and_eq_true, beq_iff_eq, Option.filter_eq_some_iff,
      Option.some.injEq]
    exact ⟨fun h => ⟨rec, ⟨rfl, h.2⟩, h.1⟩, fun ⟨_, ⟨he, hP⟩, h⟩ => he ▸ ⟨h, hP⟩⟩

section Replica
variable {c : Reconciler} {o : Agents} {r n : String}

def NamedAfter (digest : Canonical → String) (env : Env) (c : Reconciler) (o : Agents)
    (r n : String) : Prop :=
  (o.receive (c.pass digest env).2 n)[r]? ≠ none → Named (c.pass digest env).1 r n

theorem namedAfter_of_quiet (ha : (c.pass digest env).1.scheduler.assignments[r]? = none)
    (hp : (c.pass digest env).1.pushed[r]? =
      (c.evictDead env.now).pushed[r]?.filter (c.keeps env r))
    (hs : sentFor r (c.pass digest env).2 = []) :
    NamedAfter digest env c o r n ↔
      ((o n)[r]? ≠ none → recorded env c r n (c.keeps env r) = true) := by
  rw [NamedAfter, Agents.receive_sentFor, hs, Agents.receive_nil, Named, ha, hp,
    recorded_iff]
  simp only [reduceCtorEq, false_or]

/-- A removed replica is forgotten, so its stop has to succeed. -/
theorem namedAfter_of_removed {m : String}
    (hm : (c.evictDead env.now).registry.get m ≠ none ∨ (o m)[r]? = none)
    (ha : (c.pass digest env).1.scheduler.assignments[r]? = none)
    (hp : (c.pass digest env).1.pushed[r]? = none)
    (hs : sentFor r (c.pass digest env).2 =
      stopOn env (c.evictDead env.now).registry .remove m r) :
    NamedAfter digest env c o r n ↔
      ((o n)[r]? ≠ none → (m == n && env.answer (.unassign n r)) = true) := by
  rw [NamedAfter, Agents.receive_sentFor, hs, Agents.receive_stopOn, Named, ha, hp]
  by_cases hn : n = m
  · subst hn
    rcases hm with hm | hm
    · by_cases hans : env.answer (.unassign n r) = true
      · simp [hm, hans]
      · simp [hans]
    · simp [hm]
  · simp [hn, Ne.symm hn]

theorem not_recorded_elsewhere {m : String} {X : Option PushRecord} (hn : m ≠ n)
    (hX : ∀ rec, X = some rec → rec.nodeID = m) (P : PushRecord → Bool) :
    ¬ ∃ rec, X.filter P = some rec ∧ rec.nodeID = n := by
  rintro ⟨rec, hrec, rfl⟩
  exact hn (hX rec (Option.filter_eq_some_iff.mp hrec).1).symm

/-- A relocation stops the replica on the node of its record and overwrites the record
    once the start succeeded. -/
theorem named_of_relocated {node : Node} {wl : Workload} {rec : PushRecord} (hid : wl.id = r)
    (hrec : (c.evictDead env.now).pushed[r]? = some rec) (hn : node.id ≠ n)
    (ho : ∀ n, (o n)[r]? ≠ none → (c.evictDead env.now).registry.get n ≠ none) :
    ((o.receive (stopOn env (c.evictDead env.now).registry .relocate rec.nodeID wl.id ++
        [pushAssignment env node wl .relocate]) n)[r]? ≠ none →
      ∃ rec', ((if env.answer (.assign node.id wl) then some (recordPush digest env node wl)
        else none).or (c.evictDead env.now).pushed[r]?).filter (c.keeps env r) = some rec' ∧
          rec'.nodeID = n) ↔
    ((o n)[r]? ≠ none → recorded env c r n (fun rec => env.answer (.unassign n r) ||
      !env.answer (.assign node.id wl) && c.keeps env r rec) = true) := by
  rw [Agents.receive_append, Agents.receive_pushAssignment, if_neg fun h => hn h.1.symm,
    Agents.receive_stopOn, hid, recorded_iff, hrec]
  by_cases hrn : n = rec.nodeID
  · subst hrn
    by_cases hstop : env.answer (.unassign rec.nodeID r) = true
    · refine iff_of_true (fun h => ?_) fun _ => ⟨rec, by simp [hstop], rfl⟩
      by_contra
      refine h (if_pos ⟨rfl, rfl, ho rec.nodeID fun hnone => h ?_, hstop⟩)
      rw [hnone, ite_self]
    · rw [if_neg fun h => hstop h.2.2.2]
      refine imp_congr_right fun _ => ?_
      by_cases hstart : env.answer (.assign node.id wl) = true
      · rw [if_pos hstart, Option.some_or]
        refine iff_of_false (not_recorded_elsewhere hn ?_ _) ?_
        · rintro rec' h
          rw [← Option.some.inj h]
          rfl
        · simp [hstop, hstart]
      · rw [if_neg hstart, Option.none_or]
        simp [hstop, hstart]
  · rw [if_neg fun h => hrn h.1]
    have hold : ∀ rec', some rec = some rec' → rec'.nodeID = rec.nodeID := fun rec' h =>
      congrArg PushRecord.nodeID (Option.some.inj h).symm
    refine imp_congr_right fun _ => iff_of_false ?_ (not_recorded_elsewhere (Ne.symm hrn) hold _)
    split_ifs
    · rw [Option.some_or]
      refine not_recorded_elsewhere hn (fun rec' h => ?_) _
      rw [← Option.some.inj h]
      rfl
    · rw [Option.none_or]
      exact not_recorded_elsewhere (Ne.symm hrn) hold _

/-- A deployed replica is named on its new node, and on another one only by a record
    that the pass neither overwrites nor drops. -/
theorem namedAfter_of_deployed {m : String} {inst : ReplicaInstance}
    (hr : (expand c.store.list)[r]? = some inst) (hm : (c.assigned env)[r]? = some m)
    (ho : ∀ n, (o n)[r]? ≠ none → (c.evictDead env.now).registry.get n ≠ none) :
    NamedAfter digest env c o r n ↔ ((o n)[r]? ≠ none →
      (m == n || recorded env c r n fun rec => env.answer (.unassign n r) ||
        !env.answer (.assign m inst.wl) && c.keeps env r rec) = true) := by
  have ha : (c.pass digest env).1.scheduler.assignments[r]? = some m := by
    obtain ⟨-, -, -, ha, -⟩ := pass_desired digest env c hr
    exact ha.trans hm
  by_cases hn : m = n
  · refine iff_of_true (fun _ => .inl (ha.trans (congrArg some hn))) fun _ => ?_
    simp [hn]
  obtain ⟨node, roll, rfl, -, hpushed, hagents⟩ :=
    @Cluster.pass_deploys digest ⟨c, o⟩ env r m inst hr hm
  have hnamed : Named (c.pass digest env).1 r n ↔
      ∃ rec, (c.pass digest env).1.pushed[r]? = some rec ∧ rec.nodeID = n := by
    simp [Named, ha, hn]
  have hbeq : (node.id == n) = false := by simpa using hn
  dsimp only at hpushed hagents
  rw [NamedAfter, hagents, hnamed, hpushed, hbeq, Bool.false_or]
  have hold {rec : PushRecord} (heq : rec.nodeID = node.id) :
      ∀ rec', some rec = some rec' → rec'.nodeID = node.id := fun rec' h =>
    (congrArg PushRecord.nodeID (Option.some.inj h).symm).trans heq
  -- a first push, a move, a roll, or nothing to do: only a move touches the record of `n`
  obtain ⟨hrec, hs, hd, -⟩ | ⟨rec, hrec, -, hs, hd, -⟩ | ⟨rec, hrec, heq, -, -, hd⟩ |
      ⟨rec, hrec, heq, -, hd⟩ :=
    deploy_cases digest env node inst.wl (c.evictDead env.now).registry
      (c.evictDead env.now).pushed[r]? roll
  · rw [hs, hd, Agents.receive_pushAssignment, if_neg fun h => hn h.1.symm, recorded_iff,
      hrec, Option.or_none]
    refine imp_congr_right fun _ => iff_of_false (not_recorded_elsewhere hn ?_ _) (by simp)
    intro rec h
    split_ifs at h
    rw [← Option.some.inj h]
    rfl
  · rw [hs, hd]
    exact named_of_relocated (expand_keyed hr) hrec hn ho
  · rw [hd, Agents.receive_roll, if_neg fun h => hn h.1.symm, recorded_iff, hrec]
    refine imp_congr_right fun _ => iff_of_false ?_ (not_recorded_elsewhere hn (hold heq) _)
    rcases roll_recorded digest env node inst.wl with h | h
    · rw [h, Option.none_or]
      exact not_recorded_elsewhere hn (hold heq) _
    · rw [h, Option.some_or]
      refine not_recorded_elsewhere hn (fun rec' h' => ?_) _
      rw [← Option.some.inj h']
      rfl
  · rw [hd, Agents.receive_nil, Option.none_or, recorded_iff, hrec]
    exact imp_congr_right fun _ => iff_of_false (not_recorded_elsewhere hn (hold heq) _)
      (not_recorded_elsewhere hn (hold heq) _)

theorem namedAfter_iff (ho : ∀ n, (o n)[r]? ≠ none → (c.evictDead env.now).registry.get n ≠ none) :
    NamedAfter digest env c o r n ↔ ((o n)[r]? ≠ none → kept env c r n = true) := by
  unfold kept
  cases hr : (expand c.store.list)[r]? with
  | some inst =>
    cases hm : (c.assigned env)[r]? with
    | some m => exact namedAfter_of_deployed hr hm ho
    | none =>
      obtain ⟨hp, hs⟩ := pass_pending digest env c hr hm
      obtain ⟨-, -, -, ha, -⟩ := pass_desired digest env c hr
      exact namedAfter_of_quiet (ha.trans hm) hp hs
  | none =>
    obtain ⟨ha, ⟨hm, hp, hs⟩ | ⟨m, hm, hp, hs⟩⟩ := pass_undesired digest env c hr
    · rw [hm]
      exact namedAfter_of_quiet ha hp hs
    · rw [hm]
      refine namedAfter_of_removed ?_ ha hp hs
      by_cases h : (o m)[r]? = none
      · exact .inr h
      · exact .inl (ho m h)

end Replica

theorem remembered_step_iff (hl : env.listError = none) :
    Remembered (w.step digest (.reconcile env)) ↔ Retains env w := by
  have hnode : ∀ n r : String,
      NamedAfter digest env w.cluster.plane
        (onlyRegistered (w.cluster.plane.evictDead env.now).registry w.owed) r n ↔
      ((w.owed n)[r]? ≠ none → (w.cluster.plane.evictDead env.now).registry.get n ≠ none →
        kept env w.cluster.plane r n = true) := by
    intro n r
    rw [namedAfter_iff fun n h => ((lookup_onlyRegistered _ _ n r).mp h).1, lookup_onlyRegistered]
    exact ⟨fun h ho hg => h ⟨hg, ho⟩, fun h ho => h ho.2 ho.1⟩
  rw [step_reconcile hl, Remembered, Cluster.step_reconcile digest w.cluster hl]
  exact forall_congr' fun n => forall_congr' fun r => hnode n r

/-- The steps of a run of adds, removes and passes, with nodes joining and containers
    exiting, where every pass loses nothing. -/
def RetainsStep (w : Watched) : Event → Prop
  | .rebalance _ => False
  | .reconcile env => env.listError = none → Retains env w
  | _ => True

theorem Remembered.step (hw : Remembered w) {e : Event} (he : RetainsStep w e) :
    Remembered (w.step digest e) := by
  cases e with
  | add wl =>
    obtain ⟨store, h, -⟩ := w.cluster.addWorkload_list wl
    intro n r hr
    have hn := hw n r hr
    simp only [Watched.step, Cluster.step, h]
    exact hn
  | remove id => exact hw
  | rebalance now => exact he.elim
  | announce node now =>
    obtain ⟨registry, h, -⟩ := w.cluster.announce_eq node now
    intro n r hr
    have hn := hw n r hr
    simp only [Watched.step, Cluster.step, h]
    exact hn
  | exit n r => exact hw
  | reconcile env =>
    by_cases hl : env.listError = none
    · exact (remembered_step_iff hl).mpr (he hl)
    · obtain ⟨msg, hmsg⟩ := Option.ne_none_iff_exists'.mp hl
      have hsame : w.step digest (.reconcile env) = w := by
        simp only [Watched.step, Cluster.step, Cluster.reconcile, Reconciler.reconcile, hmsg]
      rw [hsame]
      exact hw

theorem remembered_new (interval : ℤ) (hpos : 0 < interval) : Remembered (new interval hpos) := by
  intro n r h
  simp [new] at h

/-- In a run whose passes lose nothing every stop that failed is remembered, and in any
    run a pass forgets none exactly if it loses nothing. -/
theorem failed_stops_remembered_iff (digest : Canonical → String) (interval : ℤ)
    (hpos : 0 < interval) :
    (∀ es : List Event, Guarded (Watched.step digest) RetainsStep (new interval hpos) es →
      Remembered (run (Watched.step digest) (new interval hpos) es)) ∧
    ∀ (es : List Event) (env : Env), env.listError = none →
      (Remembered (run (Watched.step digest) (new interval hpos) (es ++ [.reconcile env])) ↔
        Retains env (run (Watched.step digest) (new interval hpos) es)) := by
  refine ⟨fun es h => ?_, fun es env hl => ?_⟩
  · exact h.invariant (fun _ _ he hw => Remembered.step hw he) (remembered_new interval hpos)
  · rw [run_append]
    exact remembered_step_iff hl

section Runs
open Cluster

/-- The steps of a run in which nothing goes wrong but stops. -/
def OnlyStopsFail (w : Watched) : Event → Prop
  | .reconcile env => env.listError = none ∧ w.cluster.plane.registry.dead env.now = [] ∧
      (∀ n wl, env.answer (.assign n wl) = true) ∧
      ∀ n, w.cluster.plane.registry.get n ≠ none → ∃ status, env.status n = some status ∧
        ∀ r : String, status[r]? = some .running ↔ (w.cluster.agents n)[r]? ≠ none
  | .rebalance _ => False
  | .exit _ _ => False
  | _ => True

def stopsFail (cl : Cluster) (now : ℤ) : Env :=
  { honest cl now with
    answer := fun
      | .assign _ _ => true
      | .unassign _ _ => false }

theorem onlyStopsFail_pass {now : ℤ} {answer : Call → Bool}
    (h : w.cluster.plane.registry.dead now = []) (ha : ∀ n wl, answer (.assign n wl) = true) :
    OnlyStopsFail w (.reconcile { honest w.cluster now with answer := answer }) :=
  ⟨rfl, h, ha, (honest_healthy h).statuses⟩

def runOf (es : List Event) : Watched :=
  run (Watched.step Canonical.image) (new 1 Int.zero_lt_one) es

def thenPass (es : List Event) (now : ℤ) : List Event :=
  es ++ [.reconcile (honest (runOf es).cluster now)]

theorem Remembered.retains (hw : Remembered w)
    (ha : ∀ r n : String, w.cluster.plane.scheduler.assignments[r]? = some n →
      kept env w.cluster.plane r n = true)
    (hp : ∀ (r : String) (rec : PushRecord), w.cluster.plane.pushed[r]? = some rec →
      kept env w.cluster.plane r rec.nodeID = true) : Retains env w := by
  intro n r ho _
  rcases hw n r ho with h | ⟨rec, h, rfl⟩
  · exact ha r n h
  · exact hp r rec h

/-- A roll whose stop fails leaves the record in place. -/
theorem failed_stops_remembered_iff_roll :
    let es := thenPass (deployed ["n1"] [("a", 1000)]) 1 ++
      [.add { id := "a", image := "web:2", resources := some ⟨0, 1000⟩ }]
    ((runOf (es ++ [.reconcile (stopsFail (runOf es).cluster 2)])).owed "n1")["a-0"]? ≠ none ∧
      Remembered (runOf (es ++ [.reconcile (stopsFail (runOf es).cluster 2)])) := by
  intro es
  have hdeployed : Guarded (Watched.step Canonical.image) RetainsStep (new 1 one_pos)
      (deployed ["n1"] [("a", 1000)]) :=
    guarded_deployed (fun _ _ _ => trivial) (fun _ _ => trivial) _ _
  have hremember := (failed_stops_remembered_iff Canonical.image 1 one_pos).1
  have hfirst : Guarded (Watched.step Canonical.image) RetainsStep (new 1 one_pos) es := by
    refine guarded_snoc (guarded_snoc hdeployed fun _ => ?_) trivial
    exact (hremember _ hdeployed).retains (forall_lookup_iff.mpr (by decide +kernel))
      (forall_lookup_iff.mpr (by decide +kernel))
  refine ⟨by decide +kernel, hremember _ (guarded_snoc hfirst fun _ => ?_)⟩
  exact (hremember _ hfirst).retains (forall_lookup_iff.mpr (by decide +kernel))
    (forall_lookup_iff.mpr (by decide +kernel))

/-- The stop of a removed workload fails and the pass forgets the replica. -/
theorem failed_stop_forgotten :
    ¬ ∀ (digest : Canonical → String) (interval : ℤ) (hpos : 0 < interval) (es : List Event),
      Guarded (Watched.step digest) OnlyStopsFail (new interval hpos) es →
      Remembered (run (Watched.step digest) (new interval hpos) es) := by
  intro h
  let es : List Event := thenPass (deployed ["n1"] [("a", 1000)]) 1 ++ [.remove "a"]
  have hguard : Guarded (Watched.step Canonical.image) OnlyStopsFail (new 1 one_pos)
      (es ++ [.reconcile (stopsFail (runOf es).cluster 2)]) := by
    refine guarded_snoc (guarded_snoc (guarded_snoc (guarded_deployed (fun _ _ _ => trivial)
      (fun _ _ => trivial) _ _) ?_) trivial) ?_
    · exact onlyStopsFail_pass (by decide +kernel) fun _ _ => rfl
    · exact onlyStopsFail_pass (by decide +kernel) fun _ _ => rfl
  have hnamed := h Canonical.image 1 one_pos _ hguard "n1" "a-0" (by decide +kernel)
  rcases hnamed with hn | ⟨rec, hn, -⟩
  · revert hn
    decide +kernel
  · have hnone : (runOf (es ++ [.reconcile (stopsFail (runOf es).cluster 2)])).cluster.plane.pushed["a-0"]? =
        none := by decide +kernel
    exact absurd (hnone.symm.trans hn) (Option.some_ne_none rec).symm

end Runs

end Watched
end Smith
