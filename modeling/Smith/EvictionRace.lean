import Smith.Reconciler
import Smith.Runs

set_option autoImplicit false

/-!
# The dead-node loop and late heartbeats

The loop of a pass that evicts dead nodes takes the registry's lock anew for the list of dead
nodes and for each removal, so heartbeats and registrations fall between its critical
sections. A node is removed with an expired heartbeat as long as no node that the loop has
still to remove makes itself heard, and the first that does can be removed at once.
-/
namespace Smith
open FiniteMaps Runs Std

/-- Where the loop stands: the node of its turn and the nodes after it. -/
inductive DeadLoop where
  | idle
  | reassign (node : Node) (rest : List Node)
  | forget (node : Node) (evicted : List String) (rest : List Node)
  | remove (node : Node) (rest : List Node)

namespace DeadLoop

def next : List Node → DeadLoop
  | [] => .idle
  | node :: rest => .reassign node rest

def pending : DeadLoop → List Node
  | .idle => []
  | .reassign node rest => node :: rest
  | .forget node _ rest => node :: rest
  | .remove node rest => node :: rest

@[simp] theorem pending_next (dead : List Node) : (next dead).pending = dead := by
  cases dead <;> rfl

end DeadLoop

/-- The reconciler in the middle of a pass. -/
structure Eviction where
  now : ℤ
  reconciler : Reconciler
  loop : DeadLoop := .idle

/-- One critical section, of the loop or of a request to the registry, or time passing. The
    dead nodes come in the order of a map iteration, which may be any. -/
inductive EvictionEvent where
  | advance (d : ℕ)
  | register (n : Node)
  | heartbeat (id : String)
  | snapshot (dead : List Node)
  | turn

namespace Eviction

def registry (s : Eviction) : Registry := s.reconciler.registry

def withRegistry (s : Eviction) (g : Registry) : Eviction :=
  { s with reconciler := { s.reconciler with registry := g } }

def turn (s : Eviction) : Eviction :=
  match s.loop with
  | .idle => s
  | .reassign node rest =>
    let (scheduler, evicted) := s.reconciler.scheduler.reassignNode node.id
    { s with
      reconciler := { s.reconciler with scheduler := scheduler }
      loop := .forget node evicted rest }
  | .forget node evicted rest =>
    { s with
      reconciler := { s.reconciler with
        pushed := evicted.foldl (fun pushed wID => pushed.erase wID) s.reconciler.pushed }
      loop := .remove node rest }
  | .remove node rest => { s.withRegistry (s.registry.remove node.id) with loop := .next rest }

def step (s : Eviction) : EvictionEvent → Eviction
  | .advance d => { s with now := s.now + d }
  | .register n => s.withRegistry (s.registry.register n s.now)
  | .heartbeat id =>
    match s.registry.heartbeat id s.now with
    | .error _ => s
    | .ok g => s.withRegistry g
  | .snapshot dead =>
    match s.loop with
    | .idle => if dead.Perm (s.registry.dead s.now) then { s with loop := .next dead } else s
    | _ => s
  | .turn => s.turn

/-- A removal that the loop is about to make is of a node whose last heartbeat is at least
    the timeout old. -/
def RemovesExpired (s : Eviction) : Prop :=
  ∀ node rest n, s.loop = .remove node rest → s.registry.get node.id = some n →
    n.lastHeartbeat ≤ s.now - heartbeatTimeout

/-- No node that the loop has still to remove sends a heartbeat or registers. -/
def Unheard (s : Eviction) : EvictionEvent → Prop
  | .heartbeat id => id ∉ s.loop.pending.map Node.id
  | .register n => n.id ∉ s.loop.pending.map Node.id
  | _ => True

/-- The nodes to remove are distinct, registered and as long silent as the snapshot saw them. -/
structure Silent (s : Eviction) : Prop where
  distinct : (s.loop.pending.map Node.id).Nodup
  silent : ∀ n ∈ s.loop.pending, s.registry.get n.id = some n ∧
    n.lastHeartbeat ≤ s.now - heartbeatTimeout

theorem Silent.removesExpired {s : Eviction} (h : s.Silent) : s.RemovesExpired := by
  intro node rest n hloop hget
  obtain ⟨hnode, hexpired⟩ := h.silent node (by simp [hloop, DeadLoop.pending])
  rw [hnode] at hget
  rwa [← Option.some.inj hget]

end Eviction

theorem Registry.ids_list (g : Registry) : g.list.map Node.id = g.nodes.keys := by
  rw [list, List.map_map, ← ExtTreeMap.map_fst_toList_eq_keys]
  refine List.map_congr_left fun e he => ?_
  exact g.keyed e.1 e.2 (ExtTreeMap.mem_toList_iff_getElem?_eq_some.mp he)

theorem Registry.ids_dead_nodup (g : Registry) (now : ℤ) : ((g.dead now).map Node.id).Nodup := by
  have hlist : (g.list.map Node.id).Nodup := by
    rw [ids_list]
    exact ExtTreeMap.nodup_keys
  exact hlist.sublist (List.filter_sublist.map Node.id)

namespace Eviction

section Steps
variable {s : Eviction}

theorem Silent.of_pending {t : Eviction} (h : s.Silent) (hloop : s.loop.pending = t.loop.pending)
    (hreg : t.registry = s.registry) (hnow : t.now = s.now) : t.Silent :=
  ⟨hloop ▸ h.distinct, hreg ▸ hnow ▸ hloop ▸ h.silent⟩

theorem Silent.snapshot (h : s.Silent) (dead : List Node) : (s.step (.snapshot dead)).Silent := by
  simp only [step]
  split
  · split_ifs with hperm
    · refine ⟨?_, fun n hn => ?_⟩
      · rw [DeadLoop.pending_next]
        exact (hperm.map Node.id).nodup_iff.mpr (s.registry.ids_dead_nodup s.now)
      · rw [DeadLoop.pending_next, hperm.mem_iff, Registry.mem_dead] at hn
        exact hn
    · exact h
  · exact h

theorem Silent.turn (h : s.Silent) : s.turn.Silent := by
  unfold Eviction.turn
  cases hloop : s.loop with
  | idle => exact h
  | reassign node rest => exact h.of_pending (by rw [hloop]; rfl) rfl rfl
  | forget node evicted rest => exact h.of_pending (by rw [hloop]; rfl) rfl rfl
  | remove node rest =>
    have hdistinct := h.distinct
    have hsilent := h.silent
    rw [hloop, DeadLoop.pending] at hdistinct hsilent
    rw [List.map_cons, List.nodup_cons] at hdistinct
    refine ⟨by simpa using hdistinct.2, fun n hn => ?_⟩
    rw [DeadLoop.pending_next] at hn
    obtain ⟨hget, hexpired⟩ := hsilent n (List.mem_cons_of_mem node hn)
    refine ⟨?_, hexpired⟩
    -- another node's removal
    have hne : node.id ≠ n.id := fun he => hdistinct.1 (he ▸ List.mem_map_of_mem hn)
    exact (Registry.get_remove ..).trans ((if_neg hne).trans hget)

theorem Silent.withRegistry (h : s.Silent) {g : Registry}
    (hg : ∀ n ∈ s.loop.pending, g.get n.id = s.registry.get n.id) : (s.withRegistry g).Silent :=
  ⟨h.distinct, fun n hn => ⟨(hg n hn).trans (h.silent n hn).1, (h.silent n hn).2⟩⟩

theorem Silent.step (h : s.Silent) (e : EvictionEvent) (he : s.Unheard e) : (s.step e).Silent := by
  cases e with
  | advance d =>
    refine ⟨h.distinct, fun n hn => ⟨(h.silent n hn).1, ?_⟩⟩
    have hold := (h.silent n hn).2
    simp only [Eviction.step]
    omega
  | register n =>
    refine h.withRegistry fun m hm => ?_
    rw [Registry.get_register, if_neg]
    exact fun hid => he (hid ▸ List.mem_map_of_mem hm)
  | heartbeat id =>
    simp only [Eviction.step]
    cases hget : s.registry.get id with
    | none =>
      rw [Registry.heartbeat_unknown hget]
      exact h
    | some n =>
      obtain ⟨g, hg, hother⟩ := Registry.heartbeat_known hget s.now
      rw [hg]
      refine h.withRegistry fun m hm => ?_
      rw [hother, if_neg]
      exact fun hid => he (hid ▸ List.mem_map_of_mem hm)
  | snapshot dead => exact h.snapshot dead
  | turn => exact h.turn

theorem turns_to_removal {node : Node} {rest : List Node} (h : s.loop.pending = node :: rest) :
    ∃ k, ∃ t : Eviction, run step s (.replicate k .turn) = t ∧ t.loop = .remove node rest ∧
      t.registry = s.registry ∧ t.now = s.now := by
  cases hloop : s.loop with
  | idle => simp [hloop, DeadLoop.pending] at h
  | reassign node' rest' =>
    obtain ⟨rfl, rfl⟩ : node' = node ∧ rest' = rest := by simpa [hloop, DeadLoop.pending] using h
    refine ⟨2, _, rfl, ?_⟩
    simp [run, List.replicate, step, turn, hloop, registry]
  | forget node' evicted rest' =>
    obtain ⟨rfl, rfl⟩ : node' = node ∧ rest' = rest := by simpa [hloop, DeadLoop.pending] using h
    refine ⟨1, _, rfl, ?_⟩
    simp [run, List.replicate, step, turn, hloop, registry]
  | remove node' rest' =>
    obtain ⟨rfl, rfl⟩ : node' = node ∧ rest' = rest := by simpa [hloop, DeadLoop.pending] using h
    exact ⟨0, s, rfl, hloop, rfl, rfl⟩

/-- Left to itself the loop comes to the removal of every node it has still to remove, and
    finds the node as it is now. -/
theorem turns_reach (dead : List Node) {id : String} {n : Node} (hdead : s.loop.pending = dead)
    (hid : id ∈ dead.map Node.id) (hget : s.registry.get id = some n) :
    ∃ k, ∃ t : Eviction, run step s (.replicate k .turn) = t ∧
      (∃ node rest, t.loop = .remove node rest ∧ node.id = id) ∧
      t.registry.get id = some n ∧ t.now = s.now := by
  induction dead generalizing s with
  | nil => simp at hid
  | cons node rest ih =>
    obtain ⟨k, t, hrun, hloop, hreg, hnow⟩ := turns_to_removal hdead
    by_cases he : node.id = id
    · exact ⟨k, t, hrun, ⟨node, rest, hloop, he⟩, hreg ▸ hget, hnow⟩
    · have hrest : id ∈ rest.map Node.id := by
        simpa [Ne.symm he] using hid
      have hturn : t.turn.loop.pending = rest ∧ t.turn.registry.get id = some n ∧
          t.turn.now = t.now := by
        unfold turn
        rw [hloop]
        refine ⟨DeadLoop.pending_next rest, ?_, rfl⟩
        exact (Registry.get_remove ..).trans ((if_neg he).trans (hreg ▸ hget))
      obtain ⟨k', t', hrun', hloop', hget', hnow'⟩ := ih hturn.1 hrest hturn.2.1
      refine ⟨k + (1 + k'), t', ?_, hloop', hget', hnow'.trans (hturn.2.2.trans hnow)⟩
      rw [List.replicate_add, List.replicate_add, run_append, hrun, run_append]
      exact hrun'

theorem removed_when_heard (h : s.Silent) {e : EvictionEvent} (he : ¬ s.Unheard e) :
    ∃ k, ¬ (run step (s.step e) (.replicate k .turn)).RemovesExpired := by
  obtain ⟨id, n, hpending, hid, hget, hnow, hheard⟩ : ∃ id n,
      (s.step e).loop.pending = s.loop.pending ∧ id ∈ s.loop.pending.map Node.id ∧
      (s.step e).registry.get id = some n ∧ (s.step e).now = s.now ∧ n.lastHeartbeat = s.now := by
    cases e with
    | advance d => exact absurd trivial he
    | snapshot dead => exact absurd trivial he
    | turn => exact absurd trivial he
    | register n =>
      exact ⟨n.id, { n with lastHeartbeat := s.now }, rfl, not_not.mp he,
        (Registry.get_register ..).trans (if_pos rfl), rfl, rfl⟩
    | heartbeat id =>
      have hid := not_not.mp he
      obtain ⟨m, hm, rfl⟩ := List.mem_map.mp hid
      obtain ⟨g, hg, hget⟩ := Registry.heartbeat_known (h.silent m hm).1 s.now
      simp only [step, hg]
      exact ⟨m.id, { m with lastHeartbeat := s.now }, rfl, hid, (hget m.id).trans (if_pos rfl),
        rfl, rfl⟩
  obtain ⟨k, t, hrun, ⟨node, rest, hloop, rfl⟩, hget', hnow'⟩ := turns_reach _ hpending hid hget
  refine ⟨k, fun hexpired => ?_⟩
  have := hexpired node rest n (hrun ▸ hloop) (hrun ▸ hget')
  rw [hrun, hnow', hnow, hheard, heartbeatTimeout] at this
  omega

end Steps

/-- With nothing in between, the critical sections of the loop are the eviction of a pass. -/
theorem turns_evictDead (now : ℤ) (c : Reconciler) :
    run step ⟨now, c, .idle⟩
      (.snapshot (c.registry.dead now) :: .replicate (3 * (c.registry.dead now).length) .turn) =
      ⟨now, c.evictDead now, .idle⟩ := by
  have hloop (dead : List Node) (c : Reconciler) :
      run step ⟨now, c, .next dead⟩ (.replicate (3 * dead.length) .turn) =
        ⟨now, dead.foldl Reconciler.evict c, .idle⟩ := by
    induction dead generalizing c with
    | nil => rfl
    | cons node rest ih =>
      have hturns : run step ⟨now, c, .next (node :: rest)⟩ (.replicate 3 .turn) =
          ⟨now, c.evict node, .next rest⟩ := rfl
      rw [List.length_cons, Nat.mul_succ, Nat.add_comm, List.replicate_add, run_append, hturns]
      exact ih (c.evict node)
  have hsnapshot : step ⟨now, c, .idle⟩ (.snapshot (c.registry.dead now)) =
      ⟨now, c, .next (c.registry.dead now)⟩ :=
    if_pos (List.Perm.refl _)
  rw [run, List.foldl_cons, hsnapshot]
  exact hloop _ c

/-- A run in which no node of the running loop makes itself heard removes expired nodes only,
    and the first node that does can be removed with a fresh heartbeat. -/
theorem removals_expired (now : ℤ) (c : Reconciler) :
    (∀ es : List EvictionEvent, Guarded step Unheard ⟨now, c, .idle⟩ es →
      (run step ⟨now, c, .idle⟩ es).RemovesExpired) ∧
    ∀ (es : List EvictionEvent) (e : EvictionEvent), Guarded step Unheard ⟨now, c, .idle⟩ es →
      ¬ (run step ⟨now, c, .idle⟩ es).Unheard e → ∃ k, ¬ (run step ⟨now, c, .idle⟩
        (es ++ e :: .replicate k .turn)).RemovesExpired := by
  have hstart : (⟨now, c, .idle⟩ : Eviction).Silent :=
    ⟨.nil, fun n hn => absurd hn List.not_mem_nil⟩
  have hsilent {es : List EvictionEvent} (hes : Guarded step Unheard ⟨now, c, .idle⟩ es) :
      (run step ⟨now, c, .idle⟩ es).Silent :=
    hes.invariant (fun s e he h => h.step e he) hstart
  refine ⟨fun es hes => (hsilent hes).removesExpired, fun es e hes he => ?_⟩
  obtain ⟨k, hk⟩ := removed_when_heard (hsilent hes) he
  exact ⟨k, by rwa [run_append]⟩

instance (s : Eviction) (e : EvictionEvent) : Decidable (s.Unheard e) :=
  match e with
  | .heartbeat id => inferInstanceAs (Decidable (id ∉ s.loop.pending.map Node.id))
  | .register n => inferInstanceAs (Decidable (n.id ∉ s.loop.pending.map Node.id))
  | .advance _ | .snapshot _ | .turn => isTrue trivial

section Samples

private def n1 : Node := { id := "n1", cpu := 4, memoryMB := 8000 }

deriving instance DecidableEq for DeadLoop

/-- One node goes silent for the timeout, another does not. -/
private def silence : List EvictionEvent :=
  [.register n1, .advance (10 * 10 ^ 9), .register { n1 with id := "n2" }, .advance (20 * 10 ^ 9),
    .snapshot [n1]]

theorem removals_expired_silence :
    let start : Eviction := ⟨0, .new 1 Int.zero_lt_one, .idle⟩
    let es := silence ++ [.turn, .heartbeat "n2", .turn]
    (run step start es).registry.get "n1" = some n1 ∧ (run step start es).RemovesExpired := by
  intro start es
  have hguard : Guarded step Unheard start es := by decide +kernel
  have hkept : (run step start es).registry.get "n1" = some n1 := by decide +kernel
  exact ⟨hkept, (removals_expired 0 (.new 1 Int.zero_lt_one)).1 es hguard⟩

/-- A heartbeat between the snapshot and the removal: the node goes in the instant of it. -/
theorem late_heartbeat_removed :
    let start : Eviction := ⟨0, .new 1 Int.zero_lt_one, .idle⟩
    let s := run step start (silence ++ [.turn, .heartbeat "n1", .turn])
    ¬ s.RemovesExpired ∧ s.registry.get "n1" = some { n1 with lastHeartbeat := s.now } ∧
      s.turn.registry.get "n1" = none := by
  intro start s
  have hheard : s.registry.get "n1" = some { n1 with lastHeartbeat := s.now } := by decide +kernel
  have hloop : s.loop = .remove n1 [] := by decide +kernel
  refine ⟨fun hexpired => ?_, hheard, by decide +kernel⟩
  clear_value s
  have hexpired := hexpired n1 [] { n1 with lastHeartbeat := s.now } hloop hheard
  simp only [heartbeatTimeout] at hexpired
  omega

end Samples

end Eviction
end Smith
