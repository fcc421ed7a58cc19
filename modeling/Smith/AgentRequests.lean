import Smith.RebalanceOrder
import Smith.StrandedContainers
import Smith.UrlPaths

set_option autoImplicit false

/-!
# Replica ids in the URLs of the agents

The control plane sends an assignment in the body of a request, and an unassignment as a URL
that ends in the replica id as it is. The agent unassigns what it reads out of the path. With
replica ids that a URL leaves alone the cluster runs as if the calls were made directly.
-/
namespace Smith
open FiniteMaps Reconciler Runs Std UrlPaths

/-- What an agent reads from the requests for the URL that `pushUnassign` builds. -/
def unassignTarget (workloadID : String) : Option String :=
  match request (ascii "assign") (pathOf (ascii "assign") (utf8 workloadID)) with
  | .handled value => decoded value
  | _ => none

namespace Agents

/-- A call over HTTP. What reaches no handler, or names no text, stops nothing. -/
def applyHttp (a : Agents) : Call → Agents
  | .assign nodeID w => a.apply (.assign nodeID w)
  | .unassign nodeID id =>
    match unassignTarget id with
    | some target => a.apply (.unassign nodeID target)
    | none => a

def receiveHttp (a : Agents) (sent : List Sent) : Agents :=
  sent.foldl (fun a x => if x.ok then a.applyHttp x.call else a) a

theorem receiveHttp_cons (a : Agents) (x : Sent) (l : List Sent) :
    a.receiveHttp (x :: l) = (if x.ok then a.applyHttp x.call else a).receiveHttp l := rfl

end Agents

theorem literal_assign : Literal (ascii "assign") :=
  ⟨by decide +kernel, by decide +kernel, by decide +kernel⟩

theorem unassignTarget_eq_some {id target : String} : unassignTarget id = some target ↔
    request (ascii "assign") (pathOf (ascii "assign") (utf8 id)) = .handled (utf8 target) := by
  unfold unassignTarget
  constructor
  · intro h
    split at h
    · rename_i value hvalue
      rw [hvalue, utf8_of_decoded h]
    · exact absurd h (by simp)
  · intro h
    simp only [h, decoded_utf8]

/-- A replica id comes through if a URL leaves it alone, and only then. -/
theorem unassignTarget_self_iff (id : String) : unassignTarget id = some id ↔ Plain (utf8 id) := by
  rw [unassignTarget_eq_some, literal_assign.request_raw_iff]

-- The agent answers with the clean path, and the client repeats its request there.
example : unassignTarget "x/../a-0" = some "a-0" := by decide +kernel

/-! ### Ids that come through -/

/-- A workload id without the characters that a URL reads. -/
def Unmarked (id : String) : Prop := (utf8 id).all unmarked = true

instance (id : String) : Decidable (Unmarked id) := inferInstanceAs (Decidable (_ = true))

theorem plain_replicaID {id : String} (h : Unmarked id) (i : ℕ) : Plain (utf8 (replicaID id i)) := by
  have hdash : utf8 "-" = [45] := by decide +kernel
  have hbytes : utf8 (replicaID id i) = utf8 id ++ 45 :: utf8 (toString i) := by
    rw [replicaID, utf8_append, utf8_append, hdash]
    simp
  have hmem : (45 : UInt8) ∈ utf8 (replicaID id i) := by
    rw [hbytes]
    simp
  have hdots : ∀ s ∈ dots, (45 : UInt8) ∉ s := by decide +kernel
  refine plain_iff.mpr ⟨List.ne_nil_of_mem hmem, fun hd => hdots _ hd hmem, ?_⟩
  rw [hbytes, List.all_append, List.all_cons, unmarked_toString, h]
  decide

namespace Agents
variable {a : Agents} {sent : List Sent}

def Direct (sent : List Sent) : Prop :=
  ∀ x ∈ sent, ∀ n id, x.call = .unassign n id → Plain (utf8 id)

theorem applyHttp_eq {call : Call} (h : ∀ n id, call = .unassign n id → Plain (utf8 id)) :
    a.applyHttp call = a.apply call := by
  cases call with
  | assign n w => rfl
  | unassign n id => simp only [applyHttp, (unassignTarget_self_iff id).mpr (h n id rfl)]

theorem receiveHttp_eq (h : Direct sent) : a.receiveHttp sent = a.receive sent := by
  induction sent generalizing a with
  | nil => rfl
  | cons x sent ih =>
    rw [Direct, List.forall_mem_cons] at h
    rw [receiveHttp_cons, receive_cons, applyHttp_eq h.1, ih h.2]

end Agents

namespace Cluster

def reconcileHttp (digest : Canonical → String) (cl : Cluster) (env : Env) : Cluster :=
  match cl.plane.reconcile digest env with
  | .ok (plane, sent) => ⟨plane, cl.agents.receiveHttp sent⟩
  | .error _ => cl

def stepHttp (digest : Canonical → String) (cl : Cluster) : Event → Cluster
  | .reconcile env => cl.reconcileHttp digest env
  | e => cl.step digest e

variable {digest : Canonical → String} {cl : Cluster} {env : Env}

/-- Every id that a pass may send comes through. -/
structure Addressable (cl : Cluster) : Prop where
  stored : ∀ id w, cl.plane.store.list[id]? = some w → Unmarked id
  assigned : ∀ r, cl.plane.scheduler.assignments[r]? ≠ none → Plain (utf8 r)

theorem addressable_of_entries (hstored : ∀ id w, cl.plane.store.list[id]? = some w → Unmarked id)
    (hassigned : ∀ r n, cl.plane.scheduler.assignments[r]? = some n → Plain (utf8 r)) :
    Addressable cl := by
  refine ⟨hstored, fun r hr => ?_⟩
  obtain ⟨n, hn⟩ := Option.ne_none_iff_exists'.mp hr
  exact hassigned r n hn

theorem Addressable.desired (h : Addressable cl) {r : String}
    (hr : (expand cl.plane.store.list)[r]? ≠ none) : Plain (utf8 r) := by
  obtain ⟨inst, hinst⟩ := Option.ne_none_iff_exists'.mp hr
  obtain ⟨id, w, i, hid, -, rfl, -⟩ := (expand_lookup _ r inst).mp hinst
  exact plain_replicaID (h.stored id w hid) i

theorem evictDead_assigned {c : Reconciler} {now : ℤ} {r : String}
    (h : (c.evictDead now).scheduler.assignments[r]? ≠ none) :
    c.scheduler.assignments[r]? ≠ none := by
  obtain ⟨-, hnone, -⟩ | ⟨-, hsame, -⟩ := foldl_evict c (c.registry.dead now) r
  · exact absurd hnone h
  · rw [← hsame]
    exact h

/-- A pass unassigns replicas that are desired or were assigned. -/
theorem Addressable.direct (h : Addressable cl) (digest : Canonical → String) (env : Env) :
    Agents.Direct (cl.plane.pass digest env).2 := by
  intro x hx n id hcall
  have hmem : x ∈ sentFor id (cl.plane.pass digest env).2 := by
    refine List.mem_filter.mpr ⟨hx, ?_⟩
    rw [hcall]
    exact decide_eq_true rfl
  by_cases hr : (expand cl.plane.store.list)[id]? = none
  · obtain ⟨-, ⟨-, -, hsent⟩ | ⟨m, hm, -⟩⟩ := pass_undesired digest env cl.plane hr
    · rw [hsent] at hmem
      exact absurd hmem List.not_mem_nil
    · exact h.assigned id (evictDead_assigned (hm ▸ Option.some_ne_none m))
  · exact h.desired hr

theorem Addressable.stepHttp_eq (h : Addressable cl) (digest : Canonical → String) (e : Event) :
    cl.stepHttp digest e = cl.step digest e := by
  cases e with
  | reconcile env =>
    cases hl : env.listError with
    | none =>
      rw [step_reconcile digest cl hl]
      simp only [stepHttp, reconcileHttp, Reconciler.reconcile, hl]
      rw [Agents.receiveHttp_eq (h.direct digest env)]
    | some e => simp only [stepHttp, reconcileHttp, step, reconcile, Reconciler.reconcile, hl]
  | _ => rfl

def NamesUnmarked : Event → Prop
  | .add w => Unmarked w.id
  | _ => True

theorem Addressable.step (h : Addressable cl) {e : Event} (he : NamesUnmarked e) :
    Addressable (cl.step digest e) := by
  cases e with
  | add w =>
    obtain ⟨store, hs, hlist | hlist⟩ := cl.addWorkload_list w
    · rw [Cluster.step, hs]
      refine ⟨fun id w' hid => ?_, h.assigned⟩
      dsimp only at hid
      rw [hlist, lookup_insert] at hid
      split_ifs at hid with heq
      · exact heq ▸ he
      · exact h.stored id w' hid
    · rw [Cluster.step, hs]
      exact ⟨fun id w' hid => h.stored id w' (hlist ▸ hid), h.assigned⟩
  | remove id =>
    refine ⟨fun id' w hw => ?_, h.assigned⟩
    have hlookup : (cl.plane.store.list.erase id)[id']? = some w := hw
    rw [lookup_erase] at hlookup
    split_ifs at hlookup
    exact h.stored id' w hlookup
  | rebalance now =>
    exact ⟨h.stored, fun r hr => h.assigned r ((Scheduler.rebalance_keys _ _ _ r).mp hr)⟩
  | announce m now =>
    obtain ⟨registry, hs, -⟩ := cl.announce_eq m now
    rw [Cluster.step, hs]
    exact ⟨h.stored, h.assigned⟩
  | reconcile env =>
    cases hl : env.listError with
    | none =>
      rw [step_reconcile digest cl hl]
      refine ⟨?_, fun r hr => ?_⟩
      · rw [(pass_rest digest env cl.plane).2.1]
        exact h.stored
      · refine h.desired fun hnone => hr ?_
        exact (pass_undesired digest env cl.plane hnone).1
    | some e =>
      simp only [Cluster.step, reconcile, Reconciler.reconcile, hl]
      exact h
  | exit m r => exact ⟨h.stored, h.assigned⟩

/-- With such ids a run over HTTP is the run of direct calls. -/
theorem Addressable.run_http (h : Addressable cl) {G : Cluster → Event → Prop} {es : List Event}
    (hrun : Guarded (stepHttp digest) (fun cl e => G cl e ∧ NamesUnmarked e) cl es) :
    run (stepHttp digest) cl es = run (Cluster.step digest) cl es ∧
      Guarded (Cluster.step digest) G cl es := by
  obtain ⟨hsame, hguard⟩ := hrun.run_congr (G := fun cl e => G cl e ∧ NamesUnmarked e)
    (fun _ e h => h.stepHttp_eq digest e) (fun _ _ he h => h.step he.2) h
  exact ⟨hsame, (guarded_and.mp hguard).1⟩

theorem addressable_new (interval : ℤ) (hpos : 0 < interval) : Addressable (new interval hpos) := by
  constructor
  · intro id w h
    have hempty : (∅ : GoMap Workload)[id]? = some w := h
    simp at hempty
  · intro r h
    exact absurd rfl h

/-- With such ids the cluster over HTTP runs as the cluster of direct calls. -/
theorem http_runs_direct (digest : Canonical → String) (interval : ℤ) (hpos : 0 < interval)
    (es : List Event) (h : ∀ e ∈ es, NamesUnmarked e) :
    run (stepHttp digest) (new interval hpos) es = run (Cluster.step digest) (new interval hpos) es := by
  have hguard : Guarded (stepHttp digest) (fun _ e => True ∧ NamesUnmarked e)
      (new interval hpos) es := guarded_of_forall (fun _ _ he => ⟨trivial, he⟩) _ h
  exact ((addressable_new interval hpos).run_http hguard).1

/-- Two workloads are deployed, and one is removed again. -/
theorem http_runs_direct_removed :
    let es := thenPass (thenPass (deployed ["n1"] [("a", 1000), ("b.2", 1000)]) 1 ++
      [.remove "b.2"]) 2
    run (stepHttp Canonical.image) (new 1 Int.zero_lt_one) es = runOf es := by
  intro es
  refine http_runs_direct Canonical.image 1 Int.zero_lt_one es fun e he => ?_
  simp only [es, thenPass, deployed, List.map_cons, List.map_nil, List.cons_append,
    List.nil_append, List.mem_cons, List.not_mem_nil, or_false] at he
  obtain rfl | rfl | rfl | rfl | rfl | rfl := he
  · trivial
  · exact (by decide +kernel : Unmarked "a")
  · exact (by decide +kernel : Unmarked "b.2")
  · trivial
  · trivial
  · trivial

end Cluster

/-! ### Ids that do not -/

theorem unassignTarget_query {r q : String} (hr : Plain (utf8 r)) (hhash : hash ∉ utf8 q)
    (hcontrol : (utf8 q).any isControl = false) (hspace : space ∉ utf8 q) :
    unassignTarget (r ++ "?" ++ q) = some r := by
  have hmark : utf8 "?" = [question] := by decide +kernel
  have hbytes : utf8 (r ++ "?" ++ q) = utf8 r ++ question :: utf8 q := by
    rw [utf8_append, utf8_append, hmark]
    simp
  rw [unassignTarget_eq_some, hbytes]
  exact literal_assign.request_query hr hhash hcontrol hspace

namespace Agents
variable {a : Agents} {sent : List Sent} {n r : String}

theorem applyHttp_none {call : Call} (h : (a n)[r]? = none) (hcall : call.replica ≠ r) :
    (a.applyHttp call n)[r]? = none := by
  cases call with
  | assign m w =>
    rw [applyHttp, apply_of_ne a hcall]
    exact h
  | unassign m id =>
    cases htarget : unassignTarget id with
    | none => simp only [applyHttp, htarget, h]
    | some target => simp only [applyHttp, htarget, apply_unassign, h, ite_self]

theorem receiveHttp_none (h : (a n)[r]? = none) (hsent : ∀ x ∈ sent, x.call.replica ≠ r) :
    (a.receiveHttp sent n)[r]? = none := by
  induction sent generalizing a with
  | nil => exact h
  | cons x sent ih =>
    rw [List.forall_mem_cons] at hsent
    rw [receiveHttp_cons]
    refine ih ?_ hsent.2
    split_ifs
    · exact applyHttp_none h hsent.1
    · exact h

theorem receiveHttp_stopped {x : Sent} {id : String} (hx : x ∈ sent) (hok : x.ok = true)
    (hcall : x.call = .unassign n id) (htarget : unassignTarget id = some r)
    (hsent : ∀ x ∈ sent, x.call.replica ≠ r) : (a.receiveHttp sent n)[r]? = none := by
  induction sent generalizing a with
  | nil => exact absurd hx List.not_mem_nil
  | cons y sent ih =>
    rw [List.forall_mem_cons] at hsent
    rw [receiveHttp_cons]
    obtain rfl | hx := List.mem_cons.mp hx
    · refine receiveHttp_none ?_ hsent.2
      rw [if_pos hok, hcall, applyHttp, htarget]
      dsimp only
      rw [apply_unassign, if_pos ⟨rfl, rfl⟩]
    · exact ih hx hsent.2

end Agents

namespace Cluster

/-- A workload whose id goes on after a replica id with a question mark takes that replica's
    container along when it is removed, from under a pass that has nothing to do for it. -/
theorem removal_stops_other (digest : Canonical → String) (cl : Cluster) (env : Env)
    (r q n : String) (hlist : env.listError = none) (hr : Plain (utf8 r)) (hhash : hash ∉ utf8 q)
    (hcontrol : (utf8 q).any isControl = false) (hspace : space ∉ utf8 q)
    (hremoved : (expand cl.plane.store.list)[r ++ "?" ++ q]? = none)
    (hassigned : (cl.plane.evictDead env.now).scheduler.assignments[r ++ "?" ++ q]? = some n)
    (hnode : (cl.plane.evictDead env.now).registry.get n ≠ none)
    (hanswer : env.answer (.unassign n (r ++ "?" ++ q)) = true)
    (hquiet : sentFor r (cl.plane.pass digest env).2 = []) :
    ((cl.stepHttp digest (.reconcile env)).agents n)[r]? = none ∧
      ((cl.step digest (.reconcile env)).agents n)[r]? = (cl.agents n)[r]? := by
  have hother : ∀ x ∈ (cl.plane.pass digest env).2, x.call.replica ≠ r := by
    intro x hx heq
    have hmem : x ∈ sentFor r (cl.plane.pass digest env).2 :=
      List.mem_filter.mpr ⟨hx, decide_eq_true heq⟩
    rw [hquiet] at hmem
    exact List.not_mem_nil hmem
  obtain ⟨-, ⟨hnone, -⟩ | ⟨m, hm, -, hsent⟩⟩ := pass_undesired digest env cl.plane hremoved
  · exact absurd (hnone.symm.trans hassigned) (Option.some_ne_none n).symm
  · obtain rfl := Option.some.inj (hassigned.symm.trans hm)
    obtain ⟨node, hget⟩ := Option.ne_none_iff_exists'.mp hnode
    have hid := Registry.get_id hget
    have hstop : pushUnassign env node .remove (r ++ "?" ++ q) ∈ (cl.plane.pass digest env).2 := by
      refine (List.mem_filter (p := fun x : Sent => x.call.replica = r ++ "?" ++ q)).mp ?_ |>.1
      change _ ∈ sentFor _ _
      rw [hsent, stopOn, hget]
      exact List.mem_singleton_self _
    constructor
    · simp only [stepHttp, reconcileHttp, Reconciler.reconcile, hlist]
      refine Agents.receiveHttp_stopped hstop ?_ ?_ (unassignTarget_query hr hhash hcontrol hspace)
        hother
      · rw [pushUnassign, hid]
        exact hanswer
      · rw [pushUnassign, hid]
    · rw [step_reconcile digest cl hlist, Agents.receive_sentFor, hquiet]
      rfl

section Removal

/-- The agent refuses to create the container of `a-0?x-0`. -/
private def refusing (cl : Cluster) (now : ℤ) : Env :=
  { honest cl now with answer := fun
      | .assign _ w => w.id ≠ "a-0?x-0"
      | .unassign _ _ => true }

/-- Both workloads were deployed and the second was removed. -/
private def markRemoved : Cluster :=
  let es := deployed ["n1"] [("a", 1000), ("a-0?x", 1000)]
  runOf (es ++ [.reconcile (refusing (runOf es) 1), .remove "a-0?x"])

theorem removal_stops_other_a :
    (markRemoved.agents "n1")["a-0"]?.isSome = true ∧
      ((markRemoved.stepHttp Canonical.image (.reconcile (refusing markRemoved 2))).agents "n1")["a-0"]? =
        none := by
  refine ⟨by decide +kernel, ?_⟩
  exact (removal_stops_other Canonical.image markRemoved (refusing markRemoved 2) "a-0" "x-0" "n1" rfl
    (by decide +kernel) (by decide +kernel) (by decide +kernel) (by decide +kernel) (by decide +kernel)
    (by decide +kernel) (by decide +kernel) (by decide +kernel) (by decide +kernel)).1

end Removal

end Cluster
end Smith
