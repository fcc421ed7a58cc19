import Smith.NodeNetwork
import Smith.SubnetAgreement

set_option autoImplicit false

/-!
# Packets from node to node

The agents, the control plane and the hosts together. A container's packet to a container on
another node is routed by the table that its node was last served, goes to the address that
the other node is registered with, and is delivered there on the bridge. It keeps its source
address. The routes live on the registrations: a node that the control plane has forgotten is
cut off at the next sync, and is back after it has registered again.
-/
namespace Smith
open FiniteMaps Forwarding IPv4 Runs SubnetAllocator

structure Network where
  fleet : Fleet
  node : String → NodeNetwork

namespace Network

inductive Event where
  | fleet (e : Fleet.Event)
  | node (id : String) (e : NodeNetwork.Event)
  | syncRoutes (id : String) (subnets : List (String × String))

/-- What an agent syncs its routes with, if it has a route manager and is served routes. The
    subnets are read from the table in any order. -/
def routesFor (s : Network) (id : String) (subnets : List (String × String)) :
    Option (RouteManager × List Route) :=
  match s.fleet.agent id with
  | .running r =>
    let served := nodeRoutes id (s.fleet.server.allocator.map fun _ => .ok subnets)
      s.fleet.server.registry
    match RouteManager.new bridgeSubnet r.netCfg.subnet, served with
    | .ok rm, .ok routes => some (rm, routes)
    | _, _ => none
  | _ => none

def step (pool : Block) (s : Network) : Event → Network
  | .fleet e => { s with fleet := s.fleet.step e }
  | .node id e => { s with node := Function.update s.node id ((s.node id).step pool e) }
  | .syncRoutes id subnets =>
    match s.routesFor id subnets with
    | some (rm, routes) =>
      { s with node := Function.update s.node id ((s.node id).syncRoutes rm routes) }
    | none => s

variable {filter : String → Packet → Option FilterVerdict}
  {nat : String → Packet → Option NatVerdict} {pool x y : Block} {s : Network} {i j id : String}
  {subnets : List (String × String)}

def Listed (s : Network) (subnets : List (String × String)) : Prop :=
  ∀ a, s.fleet.server.allocator = some a → subnets.Perm a.all.toList

section Sync
variable {a : SubnetAllocator}

theorem served_ones (ha : Sound a) (hperm : subnets.Perm a.all.toList) {g : Registry} {k : String}
    {dst : Block} (hk : (RouteManager.desired parse (routesTo id g subnets))[k]? ≠ none)
    (hdst : parseCIDR k = some dst) : dst.ones ≤ 24 := by
  obtain ⟨gw, hgw⟩ := Option.ne_none_iff_exists'.mp hk
  obtain ⟨n, dst', hpeer, rfl⟩ := (ha.desired_iff (by decide) hperm k gw).mp hgw
  obtain rfl := Option.some.inj (hdst.symm.trans hpeer.parseCIDR_text)
  obtain ⟨-, ⟨row, hrow, hparse⟩, -⟩ := hpeer
  rw [ha.parse_subnet hrow] at hparse
  rw [← Option.some.inj hparse]

/-- A sync changes nothing or one node's routes, to those to its peers. -/
theorem routesFor_eq {rm : RouteManager} {routes : List Route}
    (h : s.routesFor id subnets = some (rm, routes)) (ha : s.fleet.server.allocator = some a) :
    routes = routesTo id s.fleet.server.registry subnets := by
  unfold routesFor at h
  rw [ha] at h
  split at h
  · dsimp only at h
    split at h
    · rename_i rm' routes' hrm hroutes
      obtain ⟨-, rfl⟩ := Prod.mk.inj (Option.some.inj h)
      unfold nodeRoutes at hroutes
      split_ifs at hroutes
      exact (Response.ok.inj hroutes).symm
    · exact absurd h (by simp)
  · exact absurd h (by simp)

theorem routesFor_running (hpool : parseCIDR bridgeSubnet = some pool) {r : Fleet.Running}
    (hr : s.fleet.agent id = .running r) (hon : s.fleet.server.Online)
    (hold : s.fleet.server.Holds id r.netCfg) (hy : parseCIDR r.netCfg.subnet = some y) :
    s.routesFor id subnets =
      some (⟨pool, y.text⟩, routesTo id s.fleet.server.registry subnets) := by
  obtain ⟨a, row, ha, hrow, -⟩ := hold
  obtain ⟨a', ha', hopen⟩ := hon
  obtain rfl := Option.some.inj (ha.symm.trans ha')
  have hid : id ≠ "" := hopen.named id row hrow
  simp only [routesFor, hr, RouteManager.new, hpool, hy, ha, Option.map_some, nodeRoutes, if_neg hid]

theorem syncRoutes_running (hpool : parseCIDR bridgeSubnet = some pool) {r : Fleet.Running}
    (hr : s.fleet.agent id = .running r) (hon : s.fleet.server.Online)
    (hold : s.fleet.server.Holds id r.netCfg) (hy : parseCIDR r.netCfg.subnet = some y) :
    (s.step pool (.syncRoutes id subnets)).node id =
      (s.node id).syncRoutes ⟨pool, y.text⟩ (routesTo id s.fleet.server.registry subnets) := by
  simp only [step, routesFor_running hpool hr hon hold hy, Function.update_self]

end Sync

/-! ### Runs -/

/-- The subnets of the two nodes are released only while their agents are stopped, and other
    programs on the hosts do no harm. -/
def Allowed (filter : String → Packet → Option FilterVerdict)
    (nat : String → Packet → Option NatVerdict) (pool : Block) (i j : String) (s : Network) :
    Event → Prop
  | .fleet e => Fleet.ReleasedStopped i s.fleet e ∧ Fleet.ReleasedStopped j s.fleet e
  | .node id e => NodeNetwork.Harmless filter nat pool (s.node id) e
  | .syncRoutes _ subnets => s.Listed subnets

structure Consistent (filter : String → Packet → Option FilterVerdict)
    (nat : String → Packet → Option NatVerdict) (pool : Block) (i j : String) (s : Network) :
    Prop where
  left : Fleet.Settled i s.fleet
  right : Fleet.Settled j s.fleet
  sane : ∀ id, (s.node id).Sane filter nat pool

/-- What can happen to a node. -/
inductive Change (pool : Block) (s : Network) (id : String) : Event → NodeNetwork → Prop where
  | stay {e : Event} : Change pool s id e (s.node id)
  | event (e : NodeNetwork.Event) : Change pool s id (.node id e) ((s.node id).step pool e)
  | sync {subnets : List (String × String)} {rm : RouteManager} {routes : List Route}
      (h : s.routesFor id subnets = some (rm, routes)) :
      Change pool s id (.syncRoutes id subnets) ((s.node id).syncRoutes rm routes)

theorem step_change (pool : Block) (s : Network) (e : Event) (id : String) :
    Change pool s id e ((s.step pool e).node id) := by
  cases e with
  | fleet e => exact .stay
  | node n e =>
    by_cases hn : id = n
    · subst hn
      simp only [step, Function.update_self]
      exact .event e
    · simp only [step, Function.update_of_ne hn]
      exact .stay
  | syncRoutes n subnets =>
    cases hroutes : s.routesFor n subnets with
    | none =>
      simp only [step, hroutes]
      exact .stay
    | some synced =>
      by_cases hn : id = n
      · subst hn
        simp only [step, hroutes, Function.update_self]
        exact .sync hroutes
      · simp only [step, hroutes, Function.update_of_ne hn]
        exact .stay

theorem step_syncRoutes_fleet : (s.step pool (.syncRoutes id subnets)).fleet = s.fleet := by
  rw [step]
  split <;> rfl

theorem step_syncRoutes_other (h : i ≠ j) :
    (s.step pool (.syncRoutes j subnets)).node i = s.node i := by
  rw [step]
  split
  · exact Function.update_of_ne h _ _
  · rfl

theorem sane_step (hon : s.fleet.server.Online) {e : Event} (he : Allowed filter nat pool i j s e)
    (h : (s.node id).Sane filter nat pool) : ((s.step pool e).node id).Sane filter nat pool := by
  have hchange := step_change pool s e id
  generalize (s.step pool e).node id = n at hchange ⊢
  cases hchange with
  | stay => exact h
  | event e => exact h.step he
  | sync hroutes =>
    obtain ⟨a, ha, hopen⟩ := hon
    obtain rfl := routesFor_eq hroutes ha
    exact h.syncRoutes fun k dst hk hdst => served_ones hopen.toSound (he a ha) hk hdst

theorem Consistent.step (h : Consistent filter nat pool i j s) {e : Event}
    (he : Allowed filter nat pool i j s e) : Consistent filter nat pool i j (s.step pool e) := by
  have hsane := fun id => sane_step h.left.online he (h.sane id)
  cases e with
  | fleet e => exact ⟨h.left.step he.1, h.right.step he.2, hsane⟩
  | node id e => exact ⟨h.left, h.right, hsane⟩
  | syncRoutes id subnets =>
    have hfleet : (s.step pool (.syncRoutes id subnets)).fleet = s.fleet := step_syncRoutes_fleet
    exact ⟨hfleet ▸ h.left, hfleet ▸ h.right, hsane⟩

theorem open_step (h : (s.node id).Open pool) (e : Event) : ((s.step pool e).node id).Open pool := by
  have hchange := step_change pool s e id
  generalize (s.step pool e).node id = n at hchange ⊢
  cases hchange with
  | stay => exact h
  | event e => exact h.step e
  | sync => exact h

theorem open_of_setup {es : List Event} (h : .node id (.setup true []) ∈ es) (s : Network) :
    ((run (step pool) s es).node id).Open pool := by
  obtain ⟨before, after, rfl⟩ := List.append_of_mem h
  rw [run_append]
  have hset : (((run (step pool) s before).step pool (.node id (.setup true []))).node id).Open pool := by
    simp only [step, Function.update_self]
    exact NodeNetwork.open_setup pool _
  have hrun : Guarded (step pool) (fun _ _ => True)
      ((run (step pool) s before).step pool (.node id (.setup true []))) after :=
    guarded_of_forall (P := fun _ => True) (fun _ _ _ => trivial) _ fun _ _ => trivial
  exact hrun.invariant (I := fun s => (s.node id).Open pool) (fun _ e _ hs => open_step hs e) hset

section Arrival
variable {r : Fleet.Running} {cfg : NetworkConfig}

theorem subnet_of_holds {st : Membership} (hpool : parseCIDR bridgeSubnet = some pool)
    (hon : st.Online) (hold : st.Holds id cfg) (hx : parseCIDR cfg.subnet = some x) :
    ∃ a row, st.allocator = some a ∧ Opened bridgeSubnet a ∧ a.rows[id]? = some row ∧
      parseCIDR row.subnet = some x ∧ x.ones = 24 ∧ x.Within pool := by
  obtain ⟨a, row, ha, hrow, rfl⟩ := hold
  obtain ⟨a', ha', hopened⟩ := hon
  obtain rfl := Option.some.inj (ha.symm.trans ha')
  rw [← hopened.subnet id row hrow] at hx
  obtain ⟨cluster, block, hcluster, -, hblock, hones, hin⟩ := hopened.subnet_within hrow
  obtain rfl := Option.some.inj (hpool.symm.trans hcluster)
  obtain rfl := Option.some.inj (hx.symm.trans hblock)
  exact ⟨a, row, ha, hopened, hrow, hx, hones, hin⟩

/-- After a sync, the node sends what is for a registered peer's subnet to the peer. -/
theorem relay_syncRoutes (hpool : parseCIDR bridgeSubnet = some pool)
    (hsane : (s.node j).Sane filter nat pool) (hopen : (s.node j).Open pool)
    (hon : s.fleet.server.Online) (hr : s.fleet.agent j = .running r)
    (hj : s.fleet.server.Holds j r.netCfg) (hy : parseCIDR r.netCfg.subnet = some y)
    (hi : s.fleet.server.Holds i cfg) (hx : parseCIDR cfg.subnet = some x) (hij : i ≠ j)
    {peer : Node} (hpeer : s.fleet.server.registry.get i = some peer) {gw : Addr}
    (hgw : parse peer.hostIP = some gw) (hlisted : s.Listed subnets) {pkt : Packet}
    (hsrc : y.Contains pkt.src) (hdst : x.Contains pkt.dst) :
    ((s.step pool (.syncRoutes j subnets)).node j).relay filter nat pkt =
      some (.gateway gw, pkt) := by
  obtain ⟨a, row, ha, hopened, hrow, hxrow, hones, hxin⟩ := subnet_of_holds hpool hon hi hx
  obtain ⟨-, -, -, -, -, -, -, hyin⟩ := subnet_of_holds hpool hon hj hy
  have hperm := hlisted a ha
  have hroute : a.Peer parse s.fleet.server.registry j i x gw :=
    ⟨hij, ⟨row, hrow, hxrow⟩, peer, hpeer, hgw⟩
  have hdesired := (hopened.desired_iff (by decide) hperm x.text gw).mpr ⟨i, x, hroute, rfl⟩
  rw [syncRoutes_running hpool hr hon hj hy]
  have hsane' : ((s.node j).syncRoutes ⟨pool, y.text⟩
      (routesTo j s.fleet.server.registry subnets)).Sane filter nat pool :=
    hsane.syncRoutes fun k dst hk hkdst => served_ones hopened.toSound hperm hk hkdst
  have hhas : ((s.node j).syncRoutes ⟨pool, y.text⟩
      (routesTo j s.fleet.server.registry subnets)).routes.Has ⟨some x, some gw⟩ := by
    rw [NodeNetwork.syncRoutes, KernelTable.Has, RouteManager.lookup_sync]
    simp only [KernelRoute.key, hdesired, hroute.parseCIDR_text, Option.map_some, Option.some_or]
  exact hsane'.relay hopen hhas rfl hones ⟨hyin _ hsrc, hxin _ hdst⟩ hdst

theorem gw_of_forgotten (hpool : parseCIDR bridgeSubnet = some pool) (hon : s.fleet.server.Online)
    (hj : s.fleet.server.Holds j r.netCfg) (hy : parseCIDR r.netCfg.subnet = some y)
    (hi : s.fleet.server.Holds i cfg) (hx : parseCIDR cfg.subnet = some x) (hij : i ≠ j)
    (hlost : s.fleet.server.registry.get i = none) (hlisted : s.Listed subnets)
    {t : KernelTable Addr} {rt : KernelRoute Addr}
    (hrt : ((RouteManager.mk pool y.text).sync parse
      (routesTo j s.fleet.server.registry subnets) t).Has rt) (hdst : rt.dst = some x) :
    rt.gw = none := by
  obtain ⟨a, row, ha, hopened, hrow, hxrow, hones, hxin⟩ := subnet_of_holds hpool hon hi hx
  obtain ⟨a', own, ha', -, hown, hyown, -⟩ := subnet_of_holds hpool hon hj hy
  obtain rfl := Option.some.inj (ha.symm.trans ha')
  have hnone : (RouteManager.desired parse (routesTo j s.fleet.server.registry subnets))[rt.key]? =
      none := by
    refine desired_eq_none hopened.toSound (by decide) (hlisted a ha) fun n dst gw hpeer hd => ?_
    obtain ⟨-, ⟨row', hrow', hparse⟩, p, hp, -⟩ := hpeer
    obtain rfl := Option.some.inj (hdst.symm.trans hd)
    obtain rfl := hopened.eq_of_block hrow hrow' hxrow hparse
    rw [hlost] at hp
    exact absurd hp (by simp)
  rw [KernelTable.Has, RouteManager.lookup_sync, hnone, Option.map_none, Option.none_or,
    Option.filter_eq_some_iff, Bool.not_eq_true', ← Bool.not_eq_true] at hrt
  cases hgw : rt.gw with
  | none => rfl
  | some gw =>
    -- a route to a peer that is not desired is stale
    have hsixteen : pool.ones = 16 := by
      obtain rfl := Option.some.inj (hpool.symm.trans hopened.parsed)
      rfl
    refine absurd ((RouteManager.managed_iff hsixteen rt).mpr ⟨x, gw, ?_, hones, hxin, ?_⟩) hrt.2
    · rw [← hdst, ← hgw]
    · rintro rfl
      exact hij (hopened.eq_of_block hrow hown hxrow hyown)

end Arrival

/-- Two nodes that were set up, with agents whose subnets were only ever released while they
    were stopped: after a sync of the one, its containers' packets to the containers of the
    other go to the address that the other is registered with, arrive on its bridge, and keep
    their source address. -/
theorem cross_node_packets_arrive {filter : String → Packet → Option FilterVerdict}
    {nat : String → Packet → Option NatVerdict} {pool : Block}
    (hpool : parseCIDR bridgeSubnet = some pool) {nodes : String → NodeNetwork}
    (hsane : ∀ id, (nodes id).Sane filter nat pool) {i j : String} (hij : i ≠ j)
    {es : List Event} (hrun : Guarded (step pool) (Allowed filter nat pool i j) ⟨.new, nodes⟩ es)
    (hopeni : .node i (.setup true []) ∈ es) (hopenj : .node j (.setup true []) ∈ es)
    {r q : Fleet.Running} (hr : (run (step pool) ⟨.new, nodes⟩ es).fleet.agent i = .running r)
    (hq : (run (step pool) ⟨.new, nodes⟩ es).fleet.agent j = .running q) {x y : Block}
    (hx : parseCIDR r.netCfg.subnet = some x) (hy : parseCIDR q.netCfg.subnet = some y)
    (hbridge : ((run (step pool) ⟨.new, nodes⟩ es).node i).routes.Has ⟨some x, none⟩)
    {peer : Node}
    (hpeer : (run (step pool) ⟨.new, nodes⟩ es).fleet.server.registry.get i = some peer) {gw : Addr}
    (hgw : parse peer.hostIP = some gw) {subnets : List (String × String)}
    (hlisted : (run (step pool) ⟨.new, nodes⟩ es).Listed subnets) :
    let net := (run (step pool) ⟨.new, nodes⟩ es).step pool (.syncRoutes j subnets)
    ∀ pkt : Packet, y.Contains pkt.src → x.Contains pkt.dst →
      (net.node j).relay filter nat pkt = some (.gateway gw, pkt) ∧
        (net.node i).relay filter nat pkt = some (.onLink, pkt) := by
  intro net pkt hsrc hdst
  have consistent : Consistent filter nat pool i j (run (step pool) ⟨.new, nodes⟩ es) :=
    hrun.invariant (fun _ _ he h => h.step he)
      ⟨Fleet.settled_new i, Fleet.settled_new j, hsane⟩
  have hi := consistent.left.running r hr
  have hj := consistent.right.running q hq
  have hon := consistent.left.online
  refine ⟨relay_syncRoutes hpool (consistent.sane j) (open_of_setup hopenj _) hon hq hj hy hi hx hij
    hpeer hgw hlisted hsrc hdst, ?_⟩
  obtain ⟨-, -, -, -, -, -, hones, hxin⟩ := subnet_of_holds hpool hon hi hx
  obtain ⟨-, -, -, -, -, -, -, hyin⟩ := subnet_of_holds hpool hon hj hy
  rw [step_syncRoutes_other hij]
  exact (consistent.sane i).relay (open_of_setup hopeni _) hbridge rfl hones
    ⟨hyin _ hsrc, hxin _ hdst⟩ hdst

/-! ### Two nodes -/

theorem run_fleet (s : Network) (es : List Fleet.Event) :
    run (step pool) s (es.map .fleet) = { s with fleet := run Fleet.step s.fleet es } := by
  induction es generalizing s with
  | nil => rfl
  | cons e es ih => exact ih (s.step pool (.fleet e))

theorem guarded_fleet {es : List Fleet.Event}
    (hi : Guarded Fleet.step (Fleet.ReleasedStopped i) s.fleet es)
    (hj : Guarded Fleet.step (Fleet.ReleasedStopped j) s.fleet es) :
    Guarded (step pool) (Allowed filter nat pool i j) s (es.map .fleet) := by
  induction es generalizing s with
  | nil => trivial
  | cons e es ih => exact ⟨⟨hi.1, hj.1⟩, ih hi.2 hj.2⟩

private def bare (address : Addr) (routes : KernelTable Addr) : NodeNetwork :=
  ⟨address, false, .drop, [.foreign "reject"], [], routes⟩

private def rejects (_ : String) (_ : Packet) : Option FilterVerdict := some .drop

private def untouched (_ : String) (_ : Packet) : Option NatVerdict := none

private theorem bare_sane (address : Addr) {routes : KernelTable Addr}
    (h : ∀ r, routes.Has r → r.dst = none) (pool : Block) :
    (bare address routes).Sane rejects untouched pool where
  forward hmem := absurd hmem (by simp [bare, NodeNetwork.toSubnet])
  postrouting := by simp [bare]
  routes r hr k _ hk := absurd ((h r hr).symm.trans hk) (by simp)

private def hostAt (ip : String) : Host := ⟨ip ++ ":9000", ip, 4, 8000⟩

private def joins : List Fleet.Event :=
  [.agent "n1" (.boot (hostAt "192.168.1.1")), .server (.accept 0 0), .server (.finish 0 {}),
    .receive 0, .agent "n2" (.boot (hostAt "192.168.1.2")), .server (.accept 1 0),
    .server (.finish 1 {}), .receive 1]

private def setups (subnet : Block) : List Event :=
  [.node "n1" (.setup true []), .node "n2" (.setup true []),
    .node "n1" (.routeReplace ⟨some subnet, none⟩)]

private theorem setups_allowed {subnet : Block} (hones : subnet.ones ≤ 24)
    (hnormal : Forwarding.Normal subnet) (s : Network) :
    Guarded (step pool) (Allowed rejects untouched pool "n1" "n2") s (setups subnet) := by
  refine ⟨trivial, trivial, fun k x hk _ _ => ?_, trivial⟩
  obtain rfl := Option.some.inj hk
  exact ⟨hones, hnormal⟩

private theorem fleet_setups (subnet : Block) (s : Network) :
    (run (step pool) s (setups subnet)).fleet = s.fleet := rfl

private theorem has_setups (subnet : Block) (s : Network) :
    ((run (step pool) s (setups subnet)).node "n1").routes.Has ⟨some subnet, none⟩ := by
  have hlast : run (step pool) s (setups subnet) = (run (step pool) s
      [.node "n1" (.setup true []), .node "n2" (.setup true [])]).step pool
        (.node "n1" (.routeReplace ⟨some subnet, none⟩)) := rfl
  rw [hlast]
  simp only [step, Function.update_self, NodeNetwork.step, KernelTable.Has, KernelTable.routeReplace]
  exact lookup_insert_self ..

private def twoSubnets : List (String × String) := [("n1", "10.22.0.0/24"), ("n2", "10.22.1.0/24")]

private theorem listed_of_map {s : Network}
    (h : s.fleet.server.allocator.map (fun a => a.all.toList) = some twoSubnets) :
    s.Listed twoSubnets := by
  intro a ha
  rw [ha] at h
  exact .of_eq (Option.some.inj h).symm

private def synced (pool : Block) (nodes : String → NodeNetwork) (es : List Event) : Network :=
  (run (step pool) ⟨.new, nodes⟩ es).step pool (.syncRoutes "n2" twoSubnets)

/-- A container of `n2` asks one of `n1`. -/
theorem cross_node_packets_arrive_request :
    let pool : Block := ⟨⟨10, 22, 0, 0⟩, 16⟩
    let subnet : Block := ⟨⟨10, 22, 0, 0⟩, 24⟩
    let nodes (_ : String) : NodeNetwork := bare ⟨192, 168, 1, 9⟩ ⟨∅, by simp⟩
    let net := synced pool nodes (joins.map .fleet ++ setups subnet)
    let request : Packet := ⟨⟨10, 22, 1, 5⟩, ⟨10, 22, 0, 7⟩⟩
    (net.node "n2").relay rejects untouched request = some (.gateway ⟨192, 168, 1, 1⟩, request) ∧
      (net.node "n1").relay rejects untouched request = some (.onLink, request) := by
  intro pool subnet nodes net request
  have hrun : run (step pool) ⟨.new, nodes⟩ (joins.map .fleet ++ setups subnet) =
      run (step pool) ⟨run Fleet.step .new joins, nodes⟩ (setups subnet) := by
    rw [run_append, run_fleet]
  have hfleet : (run (step pool) ⟨.new, nodes⟩ (joins.map .fleet ++ setups subnet)).fleet =
      run Fleet.step .new joins := by
    rw [hrun, fleet_setups]
  have hnormal : Forwarding.Normal subnet := normal_of_parse (s := "10.22.0.0/24") (by decide +kernel)
  have hallowed : Guarded (step pool) (Allowed rejects untouched pool "n1" "n2")
      ⟨.new, nodes⟩ (joins.map .fleet ++ setups subnet) :=
    (guarded_append _ _ _).mpr ⟨guarded_fleet (by decide +kernel) (by decide +kernel),
      setups_allowed (by decide) hnormal _⟩
  have hn1 : (run Fleet.step .new joins).agent "n1" = .running
      ⟨hostAt "192.168.1.1", ⟨"10.22.0.0/24", "10.22.0.1"⟩, .idle, []⟩ := by decide +kernel
  have hn2 : (run Fleet.step .new joins).agent "n2" = .running
      ⟨hostAt "192.168.1.2", ⟨"10.22.1.0/24", "10.22.1.1"⟩, .idle, []⟩ := by decide +kernel
  have hpeer : (run Fleet.step .new joins).server.registry.get "n1" =
      some { (hostAt "192.168.1.1").node "n1" with lastHeartbeat := 0 } := by decide +kernel
  have hlisted := @listed_of_map (run (step pool) ⟨.new, nodes⟩ (joins.map .fleet ++ setups subnet))
    (by rw [hfleet]; decide +kernel)
  have hpool : parseCIDR bridgeSubnet = some pool := by decide +kernel
  have hx : parseCIDR "10.22.0.0/24" = some subnet := by decide +kernel
  have hy : parseCIDR "10.22.1.0/24" = some ⟨⟨10, 22, 1, 0⟩, 24⟩ := by decide +kernel
  have hgw : parse "192.168.1.1" = some ⟨192, 168, 1, 1⟩ := by decide +kernel
  have hsane (id : String) : (nodes id).Sane rejects untouched pool :=
    bare_sane _ (fun r hr => absurd hr (by simp [KernelTable.Has])) pool
  have hbridge : ((run (step pool) ⟨.new, nodes⟩ (joins.map .fleet ++ setups subnet)).node "n1").routes.Has
      ⟨some subnet, none⟩ := by
    rw [hrun]
    exact has_setups subnet _
  rw [← hfleet] at hn1 hn2 hpeer
  unfold net synced
  exact cross_node_packets_arrive hpool hsane (by decide) hallowed
    (by simp [setups]) (by simp [setups]) hn1 hn2 hx hy hbridge hpeer hgw hlisted request
    (by decide +kernel) (by decide +kernel)

/-- An agent goes on after its control plane has forgotten it. From the next sync on, the other
    node no longer has a route of its own to the agent's subnet, and what is for the containers
    there is left to the routes that are coarser than a node's subnet, such as the default. -/
theorem forgotten_peer_cut_off {filter : String → Packet → Option FilterVerdict}
    {nat : String → Packet → Option NatVerdict} {pool : Block}
    (hpool : parseCIDR bridgeSubnet = some pool) {nodes : String → NodeNetwork}
    (hsane : ∀ id, (nodes id).Sane filter nat pool) {i j : String} (hij : i ≠ j)
    {es : List Event} (hrun : Guarded (step pool) (Allowed filter nat pool i j) ⟨.new, nodes⟩ es)
    {r q : Fleet.Running} (hr : (run (step pool) ⟨.new, nodes⟩ es).fleet.agent i = .running r)
    (hq : (run (step pool) ⟨.new, nodes⟩ es).fleet.agent j = .running q) {x : Block}
    (hx : parseCIDR r.netCfg.subnet = some x)
    (hlost : (run (step pool) ⟨.new, nodes⟩ es).fleet.server.registry.get i = none)
    {subnets : List (String × String)}
    (hlisted : (run (step pool) ⟨.new, nodes⟩ es).Listed subnets) :
    let net := (run (step pool) ⟨.new, nodes⟩ es).step pool (.syncRoutes j subnets)
    ∀ (pkt pkt' : Packet) (hop : Hop), x.Contains pkt.dst →
      (net.node j).relay filter nat pkt = some (hop, pkt') →
      hop = .onLink ∨
        ∃ rt, (net.node j).routes.Has rt ∧ rt.hop = hop ∧ KernelTable.specificity rt < 24 := by
  intro net pkt pkt' hop hdst hrelay
  have consistent : Consistent filter nat pool i j (run (step pool) ⟨.new, nodes⟩ es) :=
    hrun.invariant (fun _ _ he h => h.step he)
      ⟨Fleet.settled_new i, Fleet.settled_new j, hsane⟩
  have hi := consistent.left.running r hr
  have hj := consistent.right.running q hq
  have hon := consistent.left.online
  obtain ⟨a, row, ha, hopened, hrow, hxrow, hones, hxin⟩ := subnet_of_holds hpool hon hi hx
  obtain ⟨y, hy⟩ : ∃ y, parseCIDR q.netCfg.subnet = some y := by
    obtain ⟨a', own, ha', hown, hcfg⟩ := hj
    obtain rfl := Option.some.inj (ha.symm.trans ha')
    rw [hcfg, ← hopened.subnet j own hown]
    exact ⟨_, hopened.parse_subnet hown⟩
  have hsane' : (net.node j).Sane filter nat pool :=
    (consistent.step (e := .syncRoutes j subnets) hlisted).sane j
  obtain ⟨rt, hhas, hcovers, rfl⟩ := NodeNetwork.route_of_relay hrelay
  by_cases hfine : KernelTable.specificity rt < 24
  · exact .inr ⟨rt, hhas, rfl, hfine⟩
  · refine .inl ?_
    unfold KernelTable.specificity at hfine
    unfold KernelTable.covers at hcovers
    cases hrt : rt.dst with
    | none => simp [hrt] at hfine
    | some k =>
      rw [hrt] at hfine hcovers
      dsimp only at hfine
      have hk : k.Contains pkt.dst := of_decide_eq_true hcovers
      obtain ⟨hle, hnormal⟩ := hsane'.routes rt hhas k pkt.dst hrt (hxin _ hdst) hk
      obtain rfl : k = x := hnormal.eq_of_contains (normal_of_parse hxrow) (by omega) hk hdst
      rw [syncRoutes_running hpool hq hon hj hy] at hhas
      rw [KernelRoute.hop, gw_of_forgotten hpool hon hj hy hi hx hij hlost hlisted hhas hrt]

private def dotted (a b c d : ℕ) : Addr := .ofNat (((a * 256 + b) * 256 + c) * 256 + d)

private theorem keyed_empty (k : String) (r : KernelRoute Addr)
    (h : (∅ : GoMap (KernelRoute Addr))[k]? = some r) : r.key = k := by
  simp at h

private def defaultRoute : KernelTable Addr :=
  KernelTable.routeReplace ⟨∅, keyed_empty⟩ ⟨none, some (dotted 192 168 1 254)⟩

private theorem defaultRoute_dst (r : KernelRoute Addr) (h : defaultRoute.Has r) : r.dst = none := by
  simp only [defaultRoute, KernelTable.Has, KernelTable.routeReplace, lookup_insert] at h
  split_ifs at h
  · rw [← Option.some.inj h]
  · exact absurd h (by simp)

private def twoHosts : Network := ⟨.new, fun _ => bare (dotted 192 168 1 9) defaultRoute⟩

/-- `n2` has a route to `n1` when the control plane is restarted. -/
private def forgetting : List Event :=
  joins.map .fleet ++ [.node "n2" (.setup true []), .syncRoutes "n2" twoSubnets,
    .fleet (.server .restart)]

private def wide : Block := ⟨dotted 10 22 0 0, 16⟩

/-- `n2` syncs before `n1` is heard again: a packet that went to `n1` goes to the default route. -/
theorem forgotten_peer_cut_off_restart :
    let before := run (step wide) twoHosts forgetting
    let net := before.step wide (.syncRoutes "n2" twoSubnets)
    let pkt : Packet := ⟨⟨10, 22, 1, 5⟩, ⟨10, 22, 0, 7⟩⟩
    (before.node "n2").relay rejects untouched pkt = some (.gateway ⟨192, 168, 1, 1⟩, pkt) ∧
      (net.node "n2").relay rejects untouched pkt = some (.gateway ⟨192, 168, 1, 254⟩, pkt) ∧
      ∃ rt, (net.node "n2").routes.Has rt ∧ rt.hop = .gateway ⟨192, 168, 1, 254⟩ ∧
        KernelTable.specificity rt < 24 := by
  intro before net pkt
  have hrelay : (net.node "n2").relay rejects untouched pkt =
      some (.gateway ⟨192, 168, 1, 254⟩, pkt) := by decide +kernel
  refine ⟨by decide +kernel, hrelay, ?_⟩
  have hrun : Guarded (step wide) (Allowed rejects untouched wide "n1" "n2") twoHosts forgetting :=
    (guarded_append _ _ _).mpr ⟨guarded_fleet (by decide +kernel) (by decide +kernel), trivial,
      listed_of_map (by decide +kernel), ⟨by decide +kernel, by decide +kernel⟩, trivial⟩
  have hn1 : before.fleet.agent "n1" = .running
      ⟨hostAt "192.168.1.1", ⟨"10.22.0.0/24", "10.22.0.1"⟩, .idle, []⟩ := by decide +kernel
  have hn2 : before.fleet.agent "n2" = .running
      ⟨hostAt "192.168.1.2", ⟨"10.22.1.0/24", "10.22.1.1"⟩, .idle, []⟩ := by decide +kernel
  have hx : parseCIDR "10.22.0.0/24" = some ⟨⟨10, 22, 0, 0⟩, 24⟩ := by decide +kernel
  have hlost : before.fleet.server.registry.get "n1" = none := by decide +kernel
  obtain hlink | hroute := forgotten_peer_cut_off (by decide +kernel)
    (fun _ => bare_sane _ defaultRoute_dst wide) (by decide) hrun hn1 hn2 hx hlost
    (listed_of_map (by decide +kernel)) pkt pkt _ (by decide +kernel) hrelay
  · exact absurd hlink (by simp)
  · exact hroute

end Network
end Smith
