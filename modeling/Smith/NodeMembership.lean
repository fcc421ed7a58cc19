import Smith.NodeTables
import Smith.Runs
import Smith.SubnetAllocator

set_option autoImplicit false

/-!
# Joining and leaving the cluster

A registration writes the registry and then the subnet table. A decommission writes the
registry, the subnet table and the assignments in this order. Neither handler takes back what
it has written when a later write fails, so a request that fails on the subnet table leaves
the registry changed.
-/
namespace Smith
open FiniteMaps Leases Runs

inductive ListFault where
  | query (e : String)
  | scan (e : String)
  | iterate (e : String)

def ListFault.text : ListFault → String
  | .query e => s!"list allocated indexes: {e}"
  | .scan e => s!"scan index: {e}"
  | .iterate e => s!"iterate indexes: {e}"

/-- The statements on `node_subnets` that the database fails. A failed statement changes no row. -/
structure Outage where
  lookup : Option String := none
  list : Option ListFault := none
  insert : Option String := none
  delete : Option String := none

namespace SubnetAllocator

def allocateOn (db : Outage) (a : SubnetAllocator) (nodeID : String) :
    SubnetAllocator × Except String NetworkConfig :=
  if nodeID = "" then (a, .error "node ID cannot be empty")
  else
    match db.lookup with
    | some e => (a, .error s!"lookup subnet for {nodeID}: {e}")
    | none =>
      match a.rows[nodeID]? with
      | some row => (a, .ok (a.config row.idx))
      | none =>
        match db.list with
        | some fault => (a, .error fault.text)
        | none =>
          match lowestFree (List.range 256) (held SubnetRow.idx a.rows) with
          | none => (a, .error "subnet pool exhausted: all 256 /24 blocks in use")
          | some free =>
            let cfg := a.config free
            match db.insert with
            | some e => (a, .error s!"persist subnet for {nodeID}: {e}")
            | none =>
              match insertRow a.rows nodeID ⟨free, cfg.subnet⟩ with
              | .error e => (a, .error s!"persist subnet for {nodeID}: {e}")
              | .ok rows => ({ a with rows := rows }, .ok cfg)

def releaseOn (db : Outage) (a : SubnetAllocator) (nodeID : String) :
    Except String SubnetAllocator :=
  match db.delete with
  | some e => .error s!"release subnet for {nodeID}: {e}"
  | none => .ok (a.release nodeID)

/-- The node has a subnet, or there is one left for it, and the database serves the
    statements on the way. -/
def Allocates (db : Outage) (a : SubnetAllocator) (nodeID : String) : Prop :=
  nodeID ≠ "" ∧ db.lookup = none ∧
    (a.rows[nodeID]? ≠ none ∨
      db.list = none ∧ db.insert = none ∧ ∃ i < 256, i ∉ held SubnetRow.idx a.rows)

theorem allocateOn_spec (db : Outage) (a : SubnetAllocator) (nodeID : String) :
    (Allocates db a nodeID ∧ ∃ a' cfg row, a.allocateOn db nodeID = (a', .ok cfg) ∧
      a'.rows[nodeID]? = some row ∧ ∀ n, n ≠ nodeID → a'.rows[n]? = a.rows[n]?) ∨
    ¬ Allocates db a nodeID ∧ ∃ e, a.allocateOn db nodeID = (a, .error e) := by
  unfold allocateOn Allocates
  by_cases hid : nodeID = ""
  · exact .inr ⟨fun h => h.1 hid, _, if_pos hid⟩
  rw [if_neg hid]
  cases hlookup : db.lookup with
  | some e => exact .inr ⟨fun h => absurd h.2.1 (by simp), _, rfl⟩
  | none =>
    cases hrow : a.rows[nodeID]? with
    | some row =>
      exact .inl ⟨⟨hid, rfl, .inl (by simp)⟩, a, _, row, rfl, hrow, fun _ _ => rfl⟩
    | none =>
      cases hlist : db.list with
      | some fault => exact .inr ⟨fun h => by simp at h, _, rfl⟩
      | none =>
        cases hfree : lowestFree (List.range 256) (held SubnetRow.idx a.rows) with
        | none =>
          refine .inr ⟨?_, _, rfl⟩
          rintro ⟨-, -, h | ⟨-, -, i, hi, hnew⟩⟩
          · exact h rfl
          · exact hnew (lowestFree_eq_none.mp hfree i (List.mem_range.mpr hi))
        | some free =>
          obtain ⟨hmem, hnew⟩ := mem_of_lowestFree hfree
          cases hinsert : db.insert with
          | some e => exact .inr ⟨fun h => by simp at h, _, rfl⟩
          | none =>
            have hok : insertRow a.rows nodeID ⟨free, (a.config free).subnet⟩ =
                .ok (a.rows.insert nodeID ⟨free, (a.config free).subnet⟩) := by
              simp [insertRow, hrow, hnew]
            refine .inl ⟨⟨hid, rfl, .inr ⟨rfl, rfl, free, List.mem_range.mp hmem, hnew⟩⟩,
              { a with rows := a.rows.insert nodeID ⟨free, (a.config free).subnet⟩ }, a.config free,
              ⟨free, (a.config free).subnet⟩, ?_, lookup_insert_self _ _ _, fun n hn => ?_⟩
            · simp only [hok]
            · exact lookup_insert_ne _ _ (Ne.symm hn)

end SubnetAllocator

/-- What the handlers of nodes write. The server may run without an allocator. -/
@[ext]
structure Membership where
  registry : Registry
  allocator : Option SubnetAllocator
  scheduler : Scheduler

def Response.failed {α : Type} : Response α → Bool
  | .ok _ => false
  | .error _ _ => true

namespace Membership

/-- A registration, whose body is given as the decoder reads it. -/
def registerNode (db : Outage) (now : ℤ) (st : Membership) (body : Except String Node) :
    Membership × Response (Option NetworkConfig) :=
  match body with
  | .error e => (st, .error 400 s!"decode body: {e}")
  | .ok node =>
    let registered := { st with registry := st.registry.register node now }
    match st.allocator with
    | none => (registered, .ok none)
    | some a =>
      match a.allocateOn db node.id with
      | (a', .error e) =>
        ({ registered with allocator := some a' },
          .error 500 s!"allocate subnet for {node.id}: {e}")
      | (a', .ok netCfg) => ({ registered with allocator := some a' }, .ok (some netCfg))

def removeNode (db : Outage) (st : Membership) (id : String) : Membership × Response Unit :=
  if id = "" then (st, .error 400 "missing id")
  else
    let removed := { st with registry := st.registry.remove id }
    match st.allocator with
    | none => ({ removed with scheduler := (st.scheduler.reassignNode id).1 }, .ok ())
    | some a =>
      match a.releaseOn db id with
      | .error e => (removed, .error 500 s!"release subnet for {id}: {e}")
      | .ok a' =>
        (⟨removed.registry, some a', (st.scheduler.reassignNode id).1⟩, .ok ())

end Membership

inductive NodeRequest where
  | register (body : Except String Node)
  | remove (id : String)

/-- A request with the moment of its arrival and the state of the database then. -/
structure Arrival where
  db : Outage
  now : ℤ
  request : NodeRequest

namespace Membership

def step (st : Membership) (e : Arrival) : Membership :=
  match e.request with
  | .register body => (st.registerNode e.db e.now body).1
  | .remove id => (st.removeNode e.db id).1

def HoldsSubnet (st : Membership) (id : String) : Prop :=
  ∃ a row, st.allocator = some a ∧ a.rows[id]? = some row

/-- A failed request changes nothing, and a node whose registration succeeds is registered and
    holds a subnet. -/
def Atomic (st : Membership) (e : Arrival) : Prop :=
  match e.request with
  | .register body =>
    ((st.registerNode e.db e.now body).2.failed = true → st.step e = st) ∧
    ∀ node, body = .ok node → (st.registerNode e.db e.now body).2.failed = false →
      (st.step e).registry.get node.id = some { node with lastHeartbeat := e.now } ∧
      (st.step e).HoldsSubnet node.id
  | .remove id => (st.removeNode e.db id).2.failed = true → st.step e = st

/-- The subnet table takes the write, or the registry has nothing to write. -/
def Served (st : Membership) (e : Arrival) : Prop :=
  match e.request with
  | .register (.error _) => True
  | .register (.ok node) => ∃ a, st.allocator = some a ∧
      (a.Allocates e.db node.id ∨
        st.registry.nodes[node.id]? = some { node with lastHeartbeat := e.now })
  | .remove id =>
    id = "" ∨ st.allocator = none ∨ e.db.delete = none ∨ st.registry.nodes[id]? = none

end Membership

namespace Registry

theorem eq_of_nodes {g g' : Registry} (h : g.nodes = g'.nodes) : g = g' := by
  cases g
  cases g'
  simpa only [Registry.mk.injEq] using h

theorem register_eq_self {g : Registry} {n : Node} {now : ℤ} :
    g.register n now = g ↔ g.nodes[n.id]? = some { n with lastHeartbeat := now } := by
  constructor
  · intro h
    rw [← h]
    exact lookup_insert_self _ _ _
  · exact fun h => eq_of_nodes (insert_of_lookup _ h)

theorem remove_eq_self {g : Registry} {id : String} : g.remove id = g ↔ g.nodes[id]? = none := by
  constructor
  · intro h
    rw [← h]
    exact lookup_erase_self _ _
  · exact fun h => eq_of_nodes (erase_of_lookup _ h)

end Registry

namespace Membership
variable {st : Membership} {e : Arrival}

theorem registerNode_spec (db : Outage) (now : ℤ) (node : Node) {a : SubnetAllocator}
    (ha : st.allocator = some a) :
    (a.Allocates db node.id ∧ ∃ a' cfg row,
      st.registerNode db now (.ok node) =
        ({ st with registry := st.registry.register node now, allocator := some a' },
          .ok (some cfg)) ∧
      a'.rows[node.id]? = some row ∧ ∀ n, n ≠ node.id → a'.rows[n]? = a.rows[n]?) ∨
    ¬ a.Allocates db node.id ∧ ∃ text,
      st.registerNode db now (.ok node) =
        ({ st with registry := st.registry.register node now }, .error 500 text) := by
  obtain ⟨halloc, a', cfg, row, he, hrow, hother⟩ | ⟨halloc, text, he⟩ :=
    a.allocateOn_spec db node.id
  · exact .inl ⟨halloc, a', cfg, row, by simp only [registerNode, ha, he], hrow, hother⟩
  · refine .inr ⟨halloc, s!"allocate subnet for {node.id}: {text}", ?_⟩
    simp only [registerNode, ha, he]

theorem removeNode_failed {db : Outage} {id : String} (hid : id ≠ "") {a : SubnetAllocator}
    (ha : st.allocator = some a) {text : String} (hdb : db.delete = some text) :
    ∃ answer, st.removeNode db id =
      ({ st with registry := st.registry.remove id }, .error 500 answer) := by
  simp only [removeNode, if_neg hid, ha, SubnetAllocator.releaseOn, hdb]
  exact ⟨_, rfl⟩

theorem atomic_register_iff {db : Outage} {now : ℤ} {node : Node} :
    st.Atomic ⟨db, now, .register (.ok node)⟩ ↔ st.Served ⟨db, now, .register (.ok node)⟩ := by
  cases ha : st.allocator with
  | none =>
    -- the handler answers 200 without a subnet
    have hstep : st.registerNode db now (.ok node) =
        ({ st with registry := st.registry.register node now }, .ok none) := by
      simp only [registerNode, ha]
    constructor
    · intro h
      obtain ⟨-, a, row, ha', -⟩ := h.2 node rfl (by rw [hstep]; rfl)
      simp only [step, hstep] at ha'
      exact absurd (ha.symm.trans ha') (by simp)
    · rintro ⟨a, ha', -⟩
      exact absurd (ha.symm.trans ha') (by simp)
  | some a =>
    obtain ⟨halloc, a', cfg, row, hstep, hrow, -⟩ | ⟨halloc, text, hstep⟩ :=
      registerNode_spec db now node ha
    · refine iff_of_true ⟨fun h => ?_, ?_⟩ ⟨a, ha, .inl halloc⟩
      · rw [hstep] at h
        exact absurd h (by simp [Response.failed])
      · rintro _ ⟨rfl⟩ -
        simp only [step, hstep]
        exact ⟨lookup_insert_self _ _ _, a', row, rfl, hrow⟩
    · constructor
      · intro h
        have hsame := h.1 (by rw [hstep]; rfl)
        simp only [step, hstep, Membership.ext_iff] at hsame
        exact ⟨a, ha, .inr (Registry.register_eq_self.mp hsame.1)⟩
      · rintro ⟨a₁, ha₁, h | h⟩
        · cases ha.symm.trans ha₁
          exact absurd h halloc
        · refine ⟨fun _ => ?_, fun _ _ hok => ?_⟩
          · simp only [step, hstep, Registry.register_eq_self.mpr h]
          · rw [hstep] at hok
            exact absurd hok (by simp [Response.failed])

theorem atomic_remove_iff {db : Outage} {now : ℤ} {id : String} :
    st.Atomic ⟨db, now, .remove id⟩ ↔ st.Served ⟨db, now, .remove id⟩ := by
  by_cases hid : id = ""
  · exact iff_of_true (fun _ => by simp only [step, removeNode, if_pos hid]) (.inl hid)
  cases ha : st.allocator with
  | none =>
    refine iff_of_true (fun h => ?_) (.inr (.inl ha))
    simp only [removeNode, if_neg hid, ha] at h
    exact absurd h (by simp [Response.failed])
  | some a =>
    cases hdb : db.delete with
    | none =>
      refine iff_of_true (fun h => ?_) (.inr (.inr (.inl hdb)))
      simp only [removeNode, if_neg hid, ha, SubnetAllocator.releaseOn, hdb] at h
      exact absurd h (by simp [Response.failed])
    | some text =>
      obtain ⟨answer, hstep⟩ := removeNode_failed hid ha hdb
      constructor
      · intro h
        have hsame := h (by rw [hstep]; rfl)
        simp only [step, hstep, Membership.ext_iff] at hsame
        exact .inr (.inr (.inr (Registry.remove_eq_self.mp hsame.1)))
      · rintro (h | h | h | h)
        · exact absurd h hid
        · exact absurd (ha.symm.trans h) (by simp)
        · exact absurd (hdb.symm.trans h) (by simp)
        · intro _
          simp only [step, hstep, Registry.remove_eq_self.mpr h]

/-- A request is atomic exactly if the subnet table takes its write or its write to the
    registry changes nothing. -/
theorem atomic_iff_served (st : Membership) (e : Arrival) : st.Atomic e ↔ st.Served e := by
  obtain ⟨db, now, body | id⟩ := e
  · cases body with
    | error text => exact iff_of_true ⟨fun _ => rfl, nofun⟩ trivial
    | ok node => exact atomic_register_iff
  · exact atomic_remove_iff

private def freshCluster : Membership :=
  ⟨.new, some ⟨.ofNat (10 * 2 ^ 24 + 42 * 2 ^ 16), ∅⟩, .new⟩

private def nameless : Node := { id := "", cpu := 4, memoryMB := 8000 }

private def namelessArrival : Arrival := ⟨{}, 0, .register (.ok nameless)⟩

/-- A node that registers without an id is refused, and then it is in the registry and alive. -/
theorem nameless_node_registered :
    (freshCluster.registerNode {} 0 (.ok nameless)).2 =
      .error 500 "allocate subnet for : node ID cannot be empty" ∧
    freshCluster.registry.list = [] ∧
    (freshCluster.step namelessArrival).registry.alive 0 = [nameless] ∧
    ¬ freshCluster.Atomic namelessArrival := by
  refine ⟨rfl, by decide +kernel, by decide +kernel, ?_⟩
  rw [namelessArrival, atomic_register_iff]
  rintro ⟨a, ha, ⟨hid, -⟩ | h⟩
  · exact hid rfl
  · exact absurd h (by decide +kernel)

def Networked (st : Membership) : Prop :=
  ∀ id : String, st.registry.nodes[id]? ≠ none → st.HoldsSubnet id

theorem Networked.register (h : st.Networked) {db : Outage} {now : ℤ} {body : Except String Node}
    (hserved : st.Served ⟨db, now, .register body⟩) :
    (st.step ⟨db, now, .register body⟩).Networked := by
  cases body with
  | error text => exact h
  | ok node =>
    obtain ⟨a, ha, hwrite⟩ := hserved
    obtain ⟨-, a', cfg, row, hstep, hrow, hother⟩ | ⟨halloc, text, hstep⟩ :=
      registerNode_spec db now node ha
    · intro id hid
      simp only [step, hstep] at hid ⊢
      by_cases hne : id = node.id
      · exact ⟨a', row, rfl, hne ▸ hrow⟩
      · rw [Registry.register, lookup_insert_ne _ _ (Ne.symm hne)] at hid
        obtain ⟨a₁, row₁, ha₁, hrow₁⟩ := h id hid
        cases ha.symm.trans ha₁
        exact ⟨a', row₁, rfl, (hother id hne).trans hrow₁⟩
    · have hsame := Registry.register_eq_self.mpr (hwrite.resolve_left halloc)
      simpa only [step, hstep, hsame] using h

theorem Networked.remove (h : st.Networked) {db : Outage} {now : ℤ} {id : String}
    (hserved : st.Served ⟨db, now, .remove id⟩) : (st.step ⟨db, now, .remove id⟩).Networked := by
  by_cases hid : id = ""
  · simpa only [step, removeNode, if_pos hid] using h
  have hother : ∀ n : String, (st.registry.remove id).nodes[n]? ≠ none →
      id ≠ n ∧ st.HoldsSubnet n := by
    intro n hn
    rw [Registry.remove, lookup_erase] at hn
    split_ifs at hn with hne
    · exact absurd rfl hn
    · exact ⟨hne, h n hn⟩
  cases ha : st.allocator with
  | none =>
    intro n hn
    simp only [step, removeNode, if_neg hid, ha] at hn ⊢
    simpa only [HoldsSubnet, ha] using (hother n hn).2
  | some a =>
    cases hdb : db.delete with
    | none =>
      intro n hn
      simp only [step, removeNode, if_neg hid, ha, SubnetAllocator.releaseOn, hdb] at hn ⊢
      obtain ⟨hne, a₁, row, ha₁, hrow⟩ := hother n hn
      cases ha.symm.trans ha₁
      exact ⟨a.release id, row, rfl, (lookup_erase_ne _ hne).trans hrow⟩
    | some text =>
      -- a release that fails is only served for a node that is not registered
      have hgone : st.registry.nodes[id]? = none := by
        obtain h | h | h | h := hserved
        · exact absurd h hid
        · exact absurd (ha.symm.trans h) (by simp)
        · exact absurd (hdb.symm.trans h) (by simp)
        · exact h
      obtain ⟨answer, hstep⟩ := removeNode_failed hid ha hdb
      simpa only [step, hstep, Registry.remove_eq_self.mpr hgone] using h

theorem networked_run {es : List Arrival} (h0 : st.Networked) (h : Guarded step Served st es) :
    (run step st es).Networked := by
  refine h.invariant (fun st e hserved hst => ?_) h0
  obtain ⟨db, now, body | id⟩ := e
  · exact hst.register hserved
  · exact hst.remove hserved

end Membership
end Smith
