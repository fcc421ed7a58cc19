import Smith.Runs
import Smith.SchedulerPacking

set_option autoImplicit false

namespace Smith
open FiniteMaps Runs Std

namespace Scheduler

theorem reassignNode_foldl (s : Scheduler) (l : List String) :
    (l.foldl unassign s).packing = s.packing.restrict (· ∉ l) := by
  induction l generalizing s with
  | nil =>
    apply Packing.ext_slot
    intro q
    simp [Packing.restrict]
  | cons r l ih =>
    rw [List.foldl_cons, ih, packing_unassign]
    apply Packing.ext_slot
    intro q
    by_cases hq : q = r <;> simp [Packing.restrict, Packing.drop, hq]

theorem foldl_unassign_assignments (s : Scheduler) (l : List String) :
    (l.foldl Scheduler.unassign s).assignments =
      l.foldl (fun t k => t.erase k) s.assignments := by
  induction l generalizing s with
  | nil => rfl
  | cons r l ih => exact ih (s.unassign r)

theorem mem_evicted (s : Scheduler) (nodeID r : String) :
    r ∈ (s.reassignNode nodeID).2 ↔ s.assignments[r]? = some nodeID := by
  rw [Scheduler.reassignNode, mem_keys_iff, lookup_filter]
  cases s.assignments[r]? <;> simp [Option.filter]

theorem committed_put {s s' : Scheduler} {r n : String} {req : Resources}
    (ha : s'.assignments = s.assignments.insert r n)
    (hr : s'.requests = s.requests.insert r req) :
    s'.committed n = (s.packing.drop r).load n + req.pair := by
  rw [committed_eq_load, packing_put ha hr, Packing.load_put, if_pos rfl]

theorem committed_unassign_le {s : Scheduler} {r : String} (h : 0 ≤ (s.request r).pair)
    (n : String) : (s.unassign r).committed n ≤ s.committed n := by
  rw [committed_eq_load, committed_eq_load, packing_unassign, Packing.load_drop s.packing r n]
  refine le_add_of_nonneg_right ?_
  cases hs : s.packing.slot r with
  | none => rw [Packing.share_of_none hs]
  | some e =>
    rw [Packing.share_of_slot hs]
    split_ifs
    · rw [((packing_slot_eq s r e.1 e.2).mp hs).2]
      exact h
    · exact le_rfl

theorem assign_ok_committed {g : Registry} {now : ℤ} {s s' : Scheduler} {r p : String}
    {req : Resources} {a : Assignment} (h : s.assign g now r p req = (s', .ok a)) :
    ∃ node, g.get a.nodeID = some node ∧ s'.committed a.nodeID ≤ schedulable node := by
  have hs := assign_result g now s r p req
  rw [h] at hs
  cases hs with
  | ok registered fits assignments requests =>
    refine ⟨_, registered, ?_⟩
    rw [committed_put assignments requests]
    exact fits

variable {ok : String → Prop} {cap : String → ℤ × ℤ} {V : Set String}

theorem assign_settled {g : Registry} {s : Scheduler} (hs : s.packing.Settled ok cap V)
    (hn : s.packing.Nonneg) (now : ℤ) (r p : String) (req : Resources) (hreq : 0 ≤ req.pair)
    (hcap : ∀ n node, g.get n = some node → ok n ∧ schedulable node ≤ cap n) :
    (s.assign g now r p req).1.packing.Settled ok cap (insert r V) ∧
      (s.assign g now r p req).1.packing.Nonneg := by
  have h := assign_result g now s r p req
  revert h
  generalize s.assign g now r p req = out
  intro h
  cases h with
  | @ok s' n _ node registered fits assignments requests =>
    obtain ⟨hok, hle⟩ := hcap n node registered
    have hload : (s.packing.put r n req.pair).load n ≤ cap n := by
      rw [Packing.load_put, if_pos rfl]
      exact fits.trans hle
    change s'.packing.Settled ok cap (insert r V) ∧ s'.packing.Nonneg
    rw [packing_put assignments requests]
    exact ⟨hs.put hn hok hload, Packing.put_nonneg hn hreq⟩
  | @rejected s' _ assignments requests =>
    change s'.packing.Settled ok cap (insert r V) ∧ s'.packing.Nonneg
    rw [packing_drop assignments requests]
    exact ⟨hs.drop hn r, Packing.restrict_nonneg hn _⟩

end Scheduler

/-- The registry and the scheduler reading it, as the calls below change them. -/
structure Ledger where
  registry : Registry
  scheduler : Scheduler

inductive LedgerOp where
  | assign (replicaID parentID : String) (req : Resources) (now : ℤ)
  | unassign (replicaID : String)
  | reassignNode (nodeID : String)
  | join (n : Node) (now : ℤ)
  | heartbeat (id : String) (now : ℤ)
  | leave (id : String)

namespace Ledger
open Scheduler

def new : Ledger := ⟨Registry.new, Scheduler.new⟩

/-- A node dies by missing heartbeats: the clock of a later call then counts it
    out of the alive nodes. -/
def step (l : Ledger) : LedgerOp → Ledger
  | .assign r p req now => { l with scheduler := (l.scheduler.assign l.registry now r p req).1 }
  | .unassign r => { l with scheduler := l.scheduler.unassign r }
  | .reassignNode n => { l with scheduler := (l.scheduler.reassignNode n).1 }
  | .join n now => { l with registry := l.registry.register n now }
  | .heartbeat id now =>
    match l.registry.heartbeat id now with
    | .ok g => { l with registry := g }
    | .error _ => l
  | .leave id => { l with registry := l.registry.remove id }

/-- Requests are non-negative and a node that joins has the capacity fixed for its id. -/
def Permitted (cap : String → ℤ × ℤ) : LedgerOp → Prop
  | .assign _ _ req _ => 0 ≤ req.pair
  | .join n _ => schedulable n = cap n.id
  | _ => True

structure Sound (cap : String → ℤ × ℤ) (l : Ledger) : Prop where
  capacity : ∀ id n, l.registry.get id = some n → schedulable n = cap id
  nonneg : l.scheduler.packing.Nonneg
  settled : l.scheduler.packing.Settled (fun _ => True) cap Set.univ

variable {cap : String → ℤ × ℤ}

theorem sound_new : Sound cap new := by
  have hslot : ∀ r, new.scheduler.packing.slot r = none := by
    intro r
    simp [packing_slot, new, Scheduler.new]
  refine ⟨?_, ?_, ?_⟩
  · intro id n h
    simp [new, Registry.new, Registry.get] at h
  · intro r n x h
    rw [hslot] at h
    exact absurd h (Option.some_ne_none _).symm
  · intro r _ n x h
    rw [hslot] at h
    exact absurd h (Option.some_ne_none _).symm

theorem Sound.heartbeat {l : Ledger} (h : Sound cap l) (id : String) (now : ℤ) :
    Sound cap (l.step (.heartbeat id now)) := by
  cases hg : l.registry.get id with
  | none =>
    have he := Registry.heartbeat_unknown hg now
    simpa only [step, he] using h
  | some n =>
    obtain ⟨g, hok, hget⟩ := Registry.heartbeat_known hg now
    simp only [step, hok]
    refine ⟨?_, h.nonneg, h.settled⟩
    intro a m hm
    rw [hget] at hm
    split_ifs at hm with ha
    · obtain rfl := Option.some.inj hm
      rw [← ha]
      exact h.capacity id n hg
    · exact h.capacity a m hm

theorem sound_step (l : Ledger) (op : LedgerOp) (hp : Permitted cap op) (h : Sound cap l) :
    Sound cap (l.step op) := by
  cases op with
  | assign r p req now =>
    have hs := assign_settled h.settled h.nonneg now r p req hp
      fun n node hn => ⟨trivial, (h.capacity n node hn).le⟩
    rw [Set.insert_eq_of_mem (Set.mem_univ r)] at hs
    exact ⟨h.capacity, hs.2, hs.1⟩
  | unassign r =>
    refine ⟨h.capacity, ?_, ?_⟩
    · simpa only [step, packing_unassign, Packing.drop] using Packing.restrict_nonneg h.nonneg (· ≠ r)
    · simpa only [step, packing_unassign, Packing.drop] using h.settled.restrict h.nonneg (· ≠ r)
  | reassignNode n =>
    refine ⟨h.capacity, ?_, ?_⟩
    · simpa only [step, reassignNode, reassignNode_foldl] using
        Packing.restrict_nonneg h.nonneg _
    · simpa only [step, reassignNode, reassignNode_foldl] using h.settled.restrict h.nonneg _
  | join n now =>
    refine ⟨?_, h.nonneg, h.settled⟩
    intro id m hm
    simp only [step, Registry.get_register] at hm
    split_ifs at hm with hid
    · obtain rfl := Option.some.inj hm
      rw [← hid]
      exact hp
    · exact h.capacity id m hm
  | heartbeat id now => exact h.heartbeat id now
  | leave id =>
    refine ⟨?_, h.nonneg, h.settled⟩
    intro a m hm
    simp only [step, Registry.get_remove] at hm
    split_ifs at hm
    exact h.capacity a m hm

theorem sound_run {ops : List LedgerOp} (h : ∀ op ∈ ops, Permitted cap op) :
    Sound cap (run step new ops) :=
  (guarded_of_forall (fun _ _ hp => hp) new h).invariant
    (fun l op hp hl => sound_step l op hp hl) sound_new

/-- A successful `Assign` leaves its node within capacity from any state
    whatever, and no sequence of calls overcommits a node that holds a replica or
    has no negative capacity. -/
theorem assign_never_overcommits (cap : String → ℤ × ℤ) :
    (∀ (g : Registry) (now : ℤ) (s s' : Scheduler) (r p : String) (req : Resources)
      (a : Assignment), s.assign g now r p req = (s', .ok a) →
      ∃ node, g.get a.nodeID = some node ∧ s'.committed a.nodeID ≤ schedulable node) ∧
    ∀ ops : List LedgerOp, (∀ op ∈ ops, Permitted cap op) →
      ∀ id node, (run step new ops).registry.get id = some node →
        (0 ≤ schedulable node ∨ ∃ r : String, (run step new ops).scheduler.assignments[r]? = some id) →
        (run step new ops).scheduler.committed id ≤ schedulable node := by
  refine ⟨fun g now s s' r p req a h => assign_ok_committed h, ?_⟩
  intro ops hops id node hg hc
  have hs := sound_run hops
  have hcap := hs.capacity id node hg
  rw [committed_eq_load, hcap]
  refine hs.settled.load_le ?_
  rw [hcap] at hc
  refine hc.imp_right ?_
  rintro ⟨r, hr⟩
  exact ⟨r, _, (packing_slot_eq _ r id _).mpr ⟨hr, rfl⟩⟩

theorem assign_never_overcommits_two_replicas :
    (run step new [.join ⟨"n1", "", "", 0, 1, 1000⟩ 0, .assign "a-0" "a" ⟨0, 500⟩ 1,
      .assign "b-0" "b" ⟨0, 500⟩ 1]).scheduler.committed "n1" ≤ (850, 850) := by
  have h := (assign_never_overcommits fun _ => (850, 850)).2
    [.join ⟨"n1", "", "", 0, 1, 1000⟩ 0, .assign "a-0" "a" ⟨0, 500⟩ 1,
      .assign "b-0" "b" ⟨0, 500⟩ 1]
    (by
      simp only [List.forall_mem_cons, List.not_mem_nil, false_implies, implies_true, and_true]
      exact ⟨by unfold Permitted; decide +kernel, by unfold Permitted; decide,
        by unfold Permitted; decide⟩)
    "n1" ⟨"n1", "", "", 0, 1, 1000⟩ (by decide +kernel) (.inl (by decide +kernel))
  have hc : schedulable ⟨"n1", "", "", 0, 1, 1000⟩ = (850, 850) := by decide +kernel
  rwa [hc] at h

/-- The bound does not extend to an idle node that registers with a negative
    capacity: nothing is committed to it, and nothing is already too much. -/
theorem idle_node_of_negative_capacity :
    ¬ ∀ (cap : String → ℤ × ℤ) (ops : List LedgerOp), (∀ op ∈ ops, Permitted cap op) →
      ∀ id node, (run step new ops).registry.get id = some node →
        (run step new ops).scheduler.committed id ≤ schedulable node := by
  intro h
  have hn := h (fun _ => (-850, 850)) [.join ⟨"n1", "", "", 0, -1, 1000⟩ 0]
    (by
      simp only [List.forall_mem_cons, List.not_mem_nil, false_implies, implies_true, and_true]
      unfold Permitted
      decide +kernel)
    "n1" ⟨"n1", "", "", 0, -1, 1000⟩ (by decide +kernel)
  revert hn
  decide +kernel

end Ledger

namespace Scheduler

structure AssignCall where
  replicaID : String
  parentID : String
  req : Resources
  now : ℤ

def assignAll (g : Registry) (s : Scheduler) (calls : List AssignCall) : Scheduler :=
  calls.foldl (fun s c => (s.assign g c.now c.replicaID c.parentID c.req).1) s

def capacityOf (g : Registry) (id : String) : ℤ × ℤ :=
  match g.get id with
  | some n => schedulable n
  | none => 0

theorem assignAll_settled {g : Registry} {calls : List AssignCall}
    (hreq : ∀ c ∈ calls, 0 ≤ c.req.pair) {s : Scheduler} {V : Set String}
    (hs : s.packing.Settled (fun n => g.get n ≠ none) (capacityOf g) V)
    (hn : s.packing.Nonneg) :
    (s.assignAll g calls).packing.Settled (fun n => g.get n ≠ none) (capacityOf g)
      (V ∪ {r | ∃ c ∈ calls, c.replicaID = r}) ∧ (s.assignAll g calls).packing.Nonneg := by
  induction calls generalizing s V with
  | nil => simpa [assignAll] using ⟨hs, hn⟩
  | cons c calls ih =>
    have hcap : ∀ n node, g.get n = some node →
        g.get n ≠ none ∧ schedulable node ≤ capacityOf g n := by
      intro n node hg
      simp [capacityOf, hg]
    obtain ⟨hs', hn'⟩ := assign_settled hs hn c.now c.replicaID c.parentID c.req
      (hreq c List.mem_cons_self) hcap
    obtain ⟨h, hnonneg⟩ := ih (fun d hd => hreq d (List.mem_cons_of_mem c hd)) hs' hn'
    refine ⟨fun r hr n x hx => h r ?_ n x hx, hnonneg⟩
    rcases hr with hr | ⟨d, hd, rfl⟩
    · exact .inl (Set.mem_insert_of_mem _ hr)
    · rcases List.mem_cons.mp hd with rfl | hd
      · exact .inl (Set.mem_insert _ V)
      · exact .inr ⟨d, hd, rfl⟩

theorem assignAll_keys (g : Registry) (s : Scheduler) (calls : List AssignCall) (r : String)
    (h : (s.assignAll g calls).assignments[r]? ≠ none) :
    s.assignments[r]? ≠ none ∨ ∃ c ∈ calls, c.replicaID = r := by
  induction calls generalizing s with
  | nil => exact .inl h
  | cons c calls ih =>
    rcases ih _ h with hr | ⟨d, hd, hr⟩
    · by_cases hc : c.replicaID = r
      · exact .inr ⟨c, List.mem_cons_self, hc⟩
      · have hs := assign_result g c.now s c.replicaID c.parentID c.req
        exact .inl (hs.lookup_ne (Ne.symm hc) ▸ hr)
    · exact .inr ⟨d, List.mem_cons_of_mem c hd, hr⟩

theorem assignAll_registered (g : Registry) (s : Scheduler) (calls : List AssignCall) (r : String)
    (h : (∃ c ∈ calls, c.replicaID = r) ∨ ∀ n, s.assignments[r]? = some n → g.get n ≠ none) :
    ∀ n, (s.assignAll g calls).assignments[r]? = some n → g.get n ≠ none := by
  induction calls generalizing s with
  | nil => exact h.resolve_left (by simp)
  | cons c calls ih =>
    refine ih _ ?_
    have hs := assign_result g c.now s c.replicaID c.parentID c.req
    by_cases hc : c.replicaID = r
    · subst hc
      exact .inr fun n hn => hs.registered_of_lookup hn
    · rw [hs.lookup_ne (Ne.symm hc)]
      refine h.imp_left ?_
      rintro ⟨d, hd, hr⟩
      rcases List.mem_cons.mp hd with rfl | hd
      · exact absurd hr hc
      · exact ⟨d, hd, hr⟩

theorem assignAll_slot (g : Registry) (s : Scheduler) {calls : List AssignCall} {r : String}
    {req : Resources} (hreq : ∀ c ∈ calls, c.replicaID = r → c.req = req)
    (h : (∃ c ∈ calls, c.replicaID = r) ∨ ∀ n x, s.packing.slot r = some (n, x) → x = req.pair) :
    ∀ n x, (s.assignAll g calls).packing.slot r = some (n, x) → x = req.pair := by
  induction calls generalizing s with
  | nil => exact h.resolve_left (by simp)
  | cons c calls ih =>
    refine ih _ (fun d hd => hreq d (List.mem_cons_of_mem c hd)) ?_
    have hs := assign_result g c.now s c.replicaID c.parentID c.req
    by_cases hc : c.replicaID = r
    · obtain rfl := hreq c List.mem_cons_self hc
      subst hc
      exact .inr fun n x hx => hs.slot_self hx
    · rw [hs.slot_ne (Ne.symm hc)]
      refine h.imp_left ?_
      rintro ⟨d, hd, hr⟩
      rcases List.mem_cons.mp hd with rfl | hd
      · exact absurd hr hc
      · exact ⟨d, hd, hr⟩

theorem nonneg_of_requests {s : Scheduler}
    (h : ∀ (r : String) (q : Resources), s.requests[r]? = some q → 0 ≤ q.pair) :
    s.packing.Nonneg := by
  intro r n x hx
  obtain ⟨-, rfl⟩ := (packing_slot_eq s r n x).mp hx
  rw [request, getD_eq]
  cases hq : s.requests[r]? with
  | none => exact (rfl : (0 : ℤ × ℤ) = 0).le
  | some q => exact h r q hq

/-- Calling `Assign` once for every assigned replica repairs any overcommit. A
    node that holds a visited replica is within capacity from that visit on, so
    the order of the calls and the failures among them do not matter. -/
theorem assign_pass_repairs (g : Registry) (s : Scheduler) (calls : List AssignCall)
    (hrecorded : ∀ (r : String) (q : Resources), s.requests[r]? = some q → 0 ≤ q.pair)
    (hcap : ∀ id node, g.get id = some node → 0 ≤ schedulable node)
    (hcalls : (calls.map AssignCall.replicaID).Perm s.assignments.keys)
    (hreq : ∀ c ∈ calls, 0 ≤ c.req.pair) :
    (∀ r n : String, (s.assignAll g calls).assignments[r]? = some n → g.get n ≠ none) ∧
    ∀ id node, g.get id = some node → (s.assignAll g calls).committed id ≤ schedulable node := by
  have hempty : s.packing.Settled (fun n => g.get n ≠ none) (capacityOf g) ∅ :=
    fun r hr => absurd hr (Set.notMem_empty r)
  obtain ⟨hs, -⟩ := assignAll_settled hreq hempty (nonneg_of_requests hrecorded)
  have hall : (s.assignAll g calls).packing.Settled (fun n => g.get n ≠ none) (capacityOf g)
      Set.univ := by
    intro r _ n x hx
    refine hs r ?_ n x hx
    have hr : (s.assignAll g calls).assignments[r]? ≠ none := by
      rw [((packing_slot_eq _ r n x).mp hx).1]
      exact Option.some_ne_none n
    rcases assignAll_keys g s calls r hr with hk | hc
    · have hm : r ∈ calls.map AssignCall.replicaID :=
        hcalls.mem_iff.mpr ((mem_keys_iff s.assignments r).mpr hk)
      exact .inr (List.mem_map.mp hm)
    · exact .inr hc
  refine ⟨fun r n hr => ?_, fun id node hg => ?_⟩
  · exact (hall r (Set.mem_univ r) n _ ((packing_slot_eq _ r n _).mpr ⟨hr, rfl⟩)).1
  · have hle : capacityOf g id = schedulable node := by simp [capacityOf, hg]
    rw [committed_eq_load, ← hle]
    refine hall.load_le (.inl ?_)
    rw [hle]
    exact hcap id node hg

/-- Two requests of 500 MB on a node that came back with 850 MB schedulable. -/
theorem assign_pass_repairs_shrunk_node :
    let g := Registry.new.register ⟨"n1", "", "", 0, 1, 1000⟩ 0
    let s : Scheduler := ⟨(∅ : GoMap String).insert "a-0" "n1" |>.insert "b-0" "n1", ∅,
      (∅ : GoMap Resources).insert "a-0" ⟨0, 500⟩ |>.insert "b-0" ⟨0, 500⟩⟩
    s.committed "n1" = (0, 1000) ∧
      (s.assignAll g [⟨"b-0", "b", ⟨0, 500⟩, 1⟩, ⟨"a-0", "a", ⟨0, 500⟩, 1⟩]).committed "n1" ≤
        (850, 850) := by
  intro g s
  refine ⟨by decide +kernel, ?_⟩
  have hrec : ∀ (r : String) (q : Resources), s.requests[r]? = some q → 0 ≤ q.pair :=
    forall_lookup_iff.mpr (by decide +kernel)
  have hcap : ∀ id node, g.get id = some node → 0 ≤ schedulable node :=
    forall_lookup_iff.mpr (by decide +kernel)
  have hc : schedulable ⟨"n1", "", "", 0, 1, 1000⟩ = (850, 850) := by decide +kernel
  rw [← hc]
  refine (assign_pass_repairs g s _ hrec hcap ?_ ?_).2 "n1" ⟨"n1", "", "", 0, 1, 1000⟩
    (by decide +kernel)
  · decide +kernel
  · decide

end Scheduler
end Smith
