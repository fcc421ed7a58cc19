import Smith.NodeMembership
import Smith.RemoteCalls
import Smith.RouteManager

set_option autoImplicit false

/-!
# Agents and the control plane over a network

An agent registers when it starts and again whenever a heartbeat is answered 404, and it
keeps the subnet that its start was answered with. The handlers run side by side, so each
is cut at its locks, and a call can be served after its caller has given up on it.
-/
namespace Smith
open FiniteMaps IPv4 Leases RemoteCalls Runs SubnetAllocator

def bridgeSubnet : String := "10.22.0.0/16"

namespace Membership

def heartbeat (now : ℤ) (st : Membership) (id : String) : Membership × Response Unit :=
  if id = "" then (st, .error 400 "missing id")
  else
    match st.registry.heartbeat id now with
    | .error e => (st, .error 404 e)
    | .ok registry => ({ st with registry := registry }, .ok ())

theorem heartbeat_allocator (now : ℤ) (st : Membership) (id : String) :
    (st.heartbeat now id).1.allocator = st.allocator := by
  unfold heartbeat
  split_ifs
  · rfl
  · split <;> rfl

/-- What `registerNode` does after it has written the registry. -/
def allocateFor (db : Outage) (st : Membership) (node : Node) :
    Membership × Response (Option NetworkConfig) :=
  match st.allocator with
  | none => (st, .ok none)
  | some a =>
    match a.allocateOn db node.id with
    | (a', .error e) =>
      ({ st with allocator := some a' }, .error 500 s!"allocate subnet for {node.id}: {e}")
    | (a', .ok netCfg) => ({ st with allocator := some a' }, .ok (some netCfg))

/-- What `removeNode` does after it has written the registry. -/
def releaseOf (db : Outage) (st : Membership) (id : String) : Membership × Response Unit :=
  match st.allocator with
  | none => ({ st with scheduler := (st.scheduler.reassignNode id).1 }, .ok ())
  | some a =>
    match a.releaseOn db id with
    | .error e => (st, .error 500 s!"release subnet for {id}: {e}")
    | .ok a' => (⟨st.registry, some a', (st.scheduler.reassignNode id).1⟩, .ok ())

theorem registerNode_split (db : Outage) (now : ℤ) (st : Membership) (node : Node) :
    st.registerNode db now (.ok node) =
      allocateFor db { st with registry := st.registry.register node now } node := rfl

theorem removeNode_split (db : Outage) (st : Membership) {id : String} (h : id ≠ "") :
    st.removeNode db id = releaseOf db { st with registry := st.registry.remove id } id :=
  if_neg h

end Membership

/-- What an agent tells the control plane about itself besides its id. -/
structure Host where
  addr : String
  hostIP : String
  cpu : ℤ
  memoryMB : ℤ
  deriving DecidableEq

def Host.node (h : Host) (id : String) : Node :=
  { id := id, addr := h.addr, hostIP := h.hostIP, cpu := h.cpu, memoryMB := h.memoryMB }

namespace Fleet

deriving instance DecidableEq for Response

inductive Ask where
  | register (node : Node)
  | heartbeat (id : String)
  | remove (id : String)
  deriving DecidableEq

inductive Reply where
  | registered (r : Response (Option NetworkConfig))
  | heard (r : Response Unit)
  | removed (r : Response Unit)
  deriving DecidableEq

/-- The agent that waits for the answer. An operator removes nodes. -/
def Ask.sender : Ask → Option String
  | .register node => some node.id
  | .heartbeat id => some id
  | .remove _ => none

/-- What `register` returns. `none` stands for a call that fails on the way. -/
def register : Option Reply → Except String NetworkConfig
  | some (.registered (.ok (some netCfg))) => .ok netCfg
  | some (.registered (.ok none)) => .ok ⟨"", ""⟩
  | some (.registered (.error status _)) => .error s!"register failed: status {status}"
  | _ => .error "post register"

inductive HeartbeatError where
  | nodeUnknown
  | failed (text : String)

def sendHeartbeat : Option Reply → Except HeartbeatError Unit
  | some (.heard (.ok ())) => .ok ()
  | some (.heard (.error status _)) =>
    if status = 404 then .error .nodeUnknown
    else .error (.failed s!"heartbeat failed: status {status}")
  | _ => .error (.failed "post heartbeat")

/-- Where `heartbeatLoop` stands: at its ticker or in a call. -/
inductive Beat where
  | idle
  | heartbeat (call : ℕ)
  | reRegister (call : ℕ)
  deriving DecidableEq

structure Running where
  host : Host
  netCfg : NetworkConfig
  beat : Beat
  warnings : List String
  deriving DecidableEq

/-- `registering` and `backingOff` are the two places where `registerWithRetry` blocks. -/
inductive Process where
  | stopped
  | registering (host : Host) (call : ℕ) (backoff : ℕ)
  | backingOff (host : Host) (backoff : ℕ)
  | running (r : Running)
  deriving DecidableEq

def maxBackoff : ℕ := 30

def warning (returned configured : String) : String :=
  s!"agent: WARNING re-registration returned subnet {returned} but this node is configured for {configured}; restart the agent to reconfigure networking"

def Running.reRegister (r : Running) : Except String NetworkConfig → Running
  | .error _ => { r with beat := .idle }
  | .ok netCfg =>
    if netCfg.subnet ≠ "" ∧ r.netCfg.subnet ≠ "" ∧ netCfg.subnet ≠ r.netCfg.subnet then
      { r with beat := .idle, warnings := r.warnings ++ [warning netCfg.subnet r.netCfg.subnet] }
    else { r with beat := .idle }

def Process.awaits (id : String) : Process → Option (ℕ × Ask)
  | .registering host k _ => some (k, .register (host.node id))
  | .running ⟨_, _, .heartbeat k, _⟩ => some (k, .heartbeat id)
  | .running ⟨host, _, .reRegister k, _⟩ => some (k, .register (host.node id))
  | _ => none

end Fleet

/-- The control plane, the agents by their ids, and all calls so far. -/
structure Fleet where
  server : Membership
  calls : List (Flight Fleet.Ask Fleet.Reply)
  agent : String → Fleet.Process

namespace Fleet

def new : Fleet where
  server := ⟨.new, (SubnetAllocator.new ∅ bridgeSubnet).toOption, .new⟩
  calls := []
  agent _ := .stopped

inductive AgentEvent where
  | boot (host : Host)
  | tick
  | elapse
  | giveUp
  | stop

inductive ServerEvent where
  | accept (k : ℕ) (now : ℤ)
  | finish (k : ℕ) (db : Outage)
  | evict (id : String)
  | restart

inductive Event where
  | agent (id : String) (e : AgentEvent)
  | receive (k : ℕ)
  | decommission (id : String)
  | server (e : ServerEvent)

def become (f : Fleet) (id : String) (p : Process) : Fleet :=
  { f with agent := Function.update f.agent id p }

def call (f : Fleet) (id : String) (a : Ask) (p : ℕ → Process) : Fleet :=
  { f with
    calls := f.calls ++ [.request a]
    agent := Function.update f.agent id (p f.calls.length) }

def resume (f : Fleet) (id : String) (reply : Option Reply) : Fleet :=
  match f.agent id with
  | .stopped | .backingOff _ _ => f
  | .registering host _ backoff =>
    match register reply with
    | .ok netCfg => f.become id (.running ⟨host, netCfg, .idle, []⟩)
    | .error _ => f.become id (.backingOff host backoff)
  | .running r =>
    match r.beat with
    | .idle => f
    | .heartbeat _ =>
      match sendHeartbeat reply with
      | .error .nodeUnknown =>
        f.call id (.register (r.host.node id)) fun k => .running { r with beat := .reRegister k }
      | _ => f.become id (.running { r with beat := .idle })
    | .reRegister _ => f.become id (.running (r.reRegister (register reply)))

def agentStep (f : Fleet) (id : String) : AgentEvent → Fleet
  | .boot host =>
    match f.agent id with
    | .stopped => f.call id (.register (host.node id)) fun k => .registering host k 1
    | _ => f
  | .tick =>
    match f.agent id with
    | .running ⟨host, netCfg, .idle, warnings⟩ =>
      f.call id (.heartbeat id) fun k => .running ⟨host, netCfg, .heartbeat k, warnings⟩
    | _ => f
  | .elapse =>
    match f.agent id with
    | .backingOff host backoff =>
      f.call id (.register (host.node id)) fun k => .registering host k (min (2 * backoff) maxBackoff)
    | _ => f
  | .giveUp => f.resume id none
  | .stop => f.become id .stopped

/-- An answer that its caller no longer waits for is dropped. -/
def receive (f : Fleet) (k : ℕ) : Fleet :=
  match f.calls[k]? with
  | some (.answer ask reply) =>
    let read := { f with calls := f.calls.set k (.returned ask) }
    match ask.sender with
    | some id =>
      if ((f.agent id).awaits id).map Prod.fst = some k then read.resume id (some reply) else read
    | none => read
  | _ => f

def accept (f : Fleet) (k : ℕ) (now : ℤ) : Fleet :=
  match f.calls[k]? with
  | some (.request (.register node)) =>
    { f with
      server := { f.server with registry := f.server.registry.register node now }
      calls := f.calls.set k (.handling (.register node)) }
  | some (.request (.heartbeat id)) =>
    { f with
      server := (f.server.heartbeat now id).1
      calls := f.calls.set k (.answer (.heartbeat id) (.heard (f.server.heartbeat now id).2)) }
  | some (.request (.remove id)) =>
    if id = "" then
      { f with calls := f.calls.set k (.answer (.remove id) (.removed (.error 400 "missing id"))) }
    else
      { f with
        server := { f.server with registry := f.server.registry.remove id }
        calls := f.calls.set k (.handling (.remove id)) }
  | _ => f

def finish (f : Fleet) (k : ℕ) (db : Outage) : Fleet :=
  match f.calls[k]? with
  | some (.handling (.register node)) =>
    { f with
      server := (f.server.allocateFor db node).1
      calls := f.calls.set k
        (.answer (.register node) (.registered (f.server.allocateFor db node).2)) }
  | some (.handling (.remove id)) =>
    { f with
      server := (f.server.releaseOf db id).1
      calls := f.calls.set k (.answer (.remove id) (.removed (f.server.releaseOf db id).2)) }
  | _ => f

/-- A restart opens the subnet table again and starts from an empty registry. -/
def restart (f : Fleet) : Fleet :=
  match f.server.allocator with
  | none => { f with server := ⟨.new, none, .new⟩ }
  | some a =>
    match SubnetAllocator.new a.rows bridgeSubnet with
    | .ok a' => { f with server := ⟨.new, some a', .new⟩ }
    | .error _ => f

def serverStep (f : Fleet) : ServerEvent → Fleet
  | .accept k now => f.accept k now
  | .finish k db => f.finish k db
  | .evict id => { f with server := { f.server with
      registry := f.server.registry.remove id
      scheduler := (f.server.scheduler.reassignNode id).1 } }
  | .restart => f.restart

def step (f : Fleet) : Event → Fleet
  | .agent id e => f.agentStep id e
  | .receive k => f.receive k
  | .decommission id => { f with calls := f.calls ++ [.request (.remove id)] }
  | .server e => f.serverStep e

end Fleet

/-! ### The subnet table under any order of the handlers' parts -/

theorem SubnetAllocator.allocateOn_cases (db : Outage) (a : SubnetAllocator) (id : String) :
    a.allocateOn db id = a.allocate id ∨ ∃ e, a.allocateOn db id = (a, .error e) := by
  unfold allocateOn allocate
  by_cases hid : id = ""
  · exact .inl (by rw [if_pos hid, if_pos hid])
  rw [if_neg hid, if_neg hid]
  cases hlookup : db.lookup with
  | some e => exact .inr ⟨_, rfl⟩
  | none =>
    cases hrow : a.rows[id]? with
    | some row => exact .inl rfl
    | none =>
      cases hlist : db.list with
      | some fault => exact .inr ⟨_, rfl⟩
      | none =>
        cases hfree : lowestFree (List.range 256) (held SubnetRow.idx a.rows) with
        | none => exact .inl rfl
        | some free =>
          cases hinsert : db.insert with
          | some e => exact .inr ⟨_, rfl⟩
          | none => exact .inl rfl

/-- The table keeps its rows, and a node whose allocation succeeds has the network that is
    answered. -/
theorem SubnetAllocator.Opened.allocateOn {a : SubnetAllocator} (h : Opened bridgeSubnet a) (db : Outage)
    (id : String) :
    Opened bridgeSubnet (a.allocateOn db id).1 ∧ (a.allocateOn db id).1.base = a.base ∧
    (∀ (n : String) (row : SubnetRow), a.rows[n]? = some row →
      (a.allocateOn db id).1.rows[n]? = some row) ∧
    ∀ cfg, (a.allocateOn db id).2 = .ok cfg → ∃ row : SubnetRow,
      (a.allocateOn db id).1.rows[id]? = some row ∧ cfg = a.config row.idx := by
  obtain he | ⟨e, he⟩ := a.allocateOn_cases db id
  · rw [he]
    refine ⟨h.step (.allocate id), step_base h (.allocate id), fun n row hrow => ?_,
      fun cfg hcfg => ?_⟩
    · have hop : Op.allocate id ≠ .release n := by simp
      exact step_keeps h hrow hop
    · obtain ⟨-, row, hrow, hrest, -⟩ := row_of_allocate hcfg
      exact ⟨row, hrow, hrest⟩
  · rw [he]
    exact ⟨h, rfl, fun _ _ hrow => hrow, fun cfg hcfg => by simp at hcfg⟩

namespace Membership

def Holds (st : Membership) (id : String) (cfg : NetworkConfig) : Prop :=
  ∃ a row, st.allocator = some a ∧ a.rows[id]? = some row ∧ cfg = a.config row.idx

theorem holds_iff (st : Membership) (id : String) (cfg : NetworkConfig) : st.Holds id cfg ↔
    (st.allocator.bind fun a => a.rows[id]?.map fun row => a.config row.idx) = some cfg := by
  simp only [Holds, Option.bind_eq_some_iff, Option.map_eq_some_iff]
  constructor
  · rintro ⟨a, row, ha, hrow, rfl⟩
    exact ⟨a, ha, row, hrow, rfl⟩
  · rintro ⟨a, ha, row, hrow, rfl⟩
    exact ⟨a, row, ha, hrow, rfl⟩

instance (st : Membership) (id : String) (cfg : NetworkConfig) : Decidable (st.Holds id cfg) :=
  decidable_of_iff _ (holds_iff st id cfg).symm

def Online (st : Membership) : Prop :=
  ∃ a, st.allocator = some a ∧ Opened bridgeSubnet a

variable {st : Membership} {id : String} {cfg : NetworkConfig}

theorem Holds.eq {cfg' : NetworkConfig} (h : st.Holds id cfg) (h' : st.Holds id cfg') :
    cfg = cfg' := by
  obtain ⟨a, row, ha, hrow, rfl⟩ := h
  obtain ⟨a', row', ha', hrow', rfl⟩ := h'
  obtain rfl := Option.some.inj (ha.symm.trans ha')
  obtain rfl := Option.some.inj (hrow.symm.trans hrow')
  rfl

theorem Holds.subnet_ne (h : st.Holds id cfg) : cfg.subnet ≠ "" := by
  obtain ⟨a, row, -, -, rfl⟩ := h
  intro hempty
  have hlast := congrArg (fun s : String => s.toList.getLast?) hempty
  simp [config] at hlast

theorem allocateFor_eq {a : SubnetAllocator} (ha : st.allocator = some a) (db : Outage)
    (node : Node) :
    (st.allocateFor db node).1 = { st with allocator := some (a.allocateOn db node.id).1 } ∧
    ∀ cfg, Fleet.register (some (.registered (st.allocateFor db node).2)) = .ok cfg ↔
      (a.allocateOn db node.id).2 = .ok cfg := by
  unfold allocateFor
  simp only [ha]
  split
  · rename_i he
    simp [he, Fleet.register]
  · rename_i he
    simp [he, Fleet.register]

theorem Online.allocateFor (h : st.Online) (db : Outage) (node : Node) :
    (st.allocateFor db node).1.Online ∧
    (st.allocateFor db node).1.registry = st.registry ∧
    (∀ id cfg, st.Holds id cfg → (st.allocateFor db node).1.Holds id cfg) ∧
    ∀ cfg, Fleet.register (some (.registered (st.allocateFor db node).2)) = .ok cfg →
      (st.allocateFor db node).1.Holds node.id cfg := by
  obtain ⟨a, ha, hopen⟩ := h
  obtain ⟨hst, hok⟩ := allocateFor_eq ha db node
  obtain ⟨hopen', hbase, hkeeps, hrow⟩ := hopen.allocateOn db node.id
  have hconfig (idx : ℕ) : (a.allocateOn db node.id).1.config idx = a.config idx := by
    rw [config, config, hbase]
  rw [hst]
  refine ⟨⟨_, rfl, hopen'⟩, rfl, ?_, fun cfg hcfg => ?_⟩
  · rintro id cfg ⟨a₁, row, ha₁, hrow, rfl⟩
    obtain rfl := Option.some.inj (ha.symm.trans ha₁)
    exact ⟨_, row, rfl, hkeeps id row hrow, (hconfig row.idx).symm⟩
  · obtain ⟨row, hr, rfl⟩ := hrow cfg ((hok cfg).mp hcfg)
    exact ⟨_, row, rfl, hr, (hconfig row.idx).symm⟩

theorem Online.holds_of_allocateFor (h : st.Online) {db : Outage} {node : Node}
    (hold : (st.allocateFor db node).1.Holds id cfg) : st.Holds id cfg ∨ node.id = id ∧
      Fleet.register (some (.registered (st.allocateFor db node).2)) = .ok cfg := by
  have hon := h
  obtain ⟨a, ha, hopen⟩ := h
  obtain ⟨hst, hok⟩ := allocateFor_eq ha db node
  obtain ⟨-, hbase, -⟩ := hopen.allocateOn db node.id
  obtain ⟨-, a', cfg', row, he, -, hother⟩ | ⟨-, text, he⟩ := a.allocateOn_spec db node.id
  · by_cases hid : node.id = id
    · have hcfg := (hok cfg').mpr (by rw [he])
      have hnew := (hon.allocateFor db node).2.2.2 cfg' hcfg
      rw [hid] at hnew
      exact .inr ⟨hid, hold.eq hnew ▸ hcfg⟩
    · rw [hst, he] at hold
      rw [he] at hbase
      obtain ⟨a₁, row₁, ha₁, hrow₁, rfl⟩ := hold
      obtain rfl := Option.some.inj ha₁
      refine .inl ⟨a, row₁, ha, (hother id (Ne.symm hid)).symm.trans hrow₁, ?_⟩
      rw [config, config, hbase]
  · rw [hst, he, ← ha] at hold
    exact .inl hold

theorem Online.releaseOf (h : st.Online) (db : Outage) (id : String) :
    (st.releaseOf db id).1.Online ∧ (st.releaseOf db id).1.registry = st.registry ∧
    ∀ n cfg, n ≠ id → st.Holds n cfg → (st.releaseOf db id).1.Holds n cfg := by
  obtain ⟨a, ha, hopen⟩ := h
  unfold Membership.releaseOf
  simp only [ha, releaseOn]
  cases hdb : db.delete with
  | some e => exact ⟨⟨a, ha, hopen⟩, rfl, fun _ _ _ hn => hn⟩
  | none =>
    refine ⟨⟨_, rfl, hopen.step (.release id)⟩, rfl, ?_⟩
    rintro n cfg hne ⟨a₁, row, ha₁, hrow, rfl⟩
    obtain rfl := Option.some.inj (ha.symm.trans ha₁)
    exact ⟨_, row, rfl, (lookup_erase_ne _ hne.symm).trans hrow, rfl⟩

theorem Online.holds_of_releaseOf (h : st.Online) {db : Outage} {n : String}
    (hold : (st.releaseOf db n).1.Holds id cfg) : st.Holds id cfg := by
  obtain ⟨a, ha, -⟩ := h
  unfold Membership.releaseOf at hold
  simp only [ha, releaseOn] at hold
  cases hdb : db.delete with
  | some e =>
    simp only [hdb] at hold
    exact hold
  | none =>
    simp only [hdb] at hold
    obtain ⟨a₁, row, ha₁, hrow, rfl⟩ := hold
    obtain rfl := Option.some.inj ha₁
    refine ⟨a, row, ha, ?_, rfl⟩
    rw [release, lookup_erase] at hrow
    split_ifs at hrow
    exact hrow

end Membership

end Smith
