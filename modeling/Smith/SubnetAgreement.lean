import Smith.FleetSteps

set_option autoImplicit false

/-!
# The subnets that agents are configured with

An agent takes its subnet once, from the answer that starts it. As long as the subnet of a
node is released only while its agent is stopped, the table, the agent and the routes of its
peers agree on it, whatever is lost, late or restarted. After a release under a running
agent they need not, and the agent warns of it unless an answer is lost.
-/
namespace Smith
open FiniteMaps IPv4 RemoteCalls Runs Std SubnetAllocator

/-- A node is served one route to a peer's subnet. -/
theorem SubnetAllocator.Sound.route_iff {a : SubnetAllocator} (h : Sound a) {g : Registry}
    {subnets : List (String × String)} (hperm : subnets.Perm a.all.toList) {i j : String}
    {row : SubnetRow} (hrow : a.rows[i]? = some row) (hij : i ≠ j) {peer : Node}
    (hpeer : g.get i = some peer) (hip : peer.hostIP ≠ "") {via : String} :
    ⟨row.subnet, via⟩ ∈ routesTo j g subnets ↔ via = peer.hostIP := by
  have hmem (n t : String) : (n, t) ∈ subnets ↔ ∃ x, a.rows[n]? = some x ∧ x.subnet = t := by
    rw [hperm.mem_iff, ExtTreeMap.mem_toList_iff_getElem?_eq_some, all, ExtTreeMap.getElem?_map]
    exact Option.map_eq_some_iff
  rw [RouteManager.mem_routesTo]
  constructor
  · rintro ⟨⟨n, t⟩, hn, -, p, hp, -, hroute⟩
    obtain ⟨x, hx, rfl⟩ := (hmem n t).mp hn
    obtain ⟨hsubnet, rfl⟩ := Route.mk.inj hroute
    have hsame : n = i := by
      have hparse := h.parse_subnet hx
      exact h.eq_of_block hx hrow hparse (hsubnet ▸ hparse)
    subst hsame
    rw [Option.some.inj (hp.symm.trans hpeer)]
  · rintro rfl
    exact ⟨(i, row.subnet), (hmem i row.subnet).mpr ⟨row, hrow, rfl⟩, hij, peer, hpeer, hip, rfl⟩

namespace Fleet
variable {f : Fleet} {e : Event} {id : String}

theorem Running.reRegister_eq (r : Running) (result : Except String NetworkConfig) :
    ∃ ws, r.reRegister result = { r with beat := .idle, warnings := r.warnings ++ ws } := by
  unfold Running.reRegister
  split
  · exact ⟨[], by rw [List.append_nil]⟩
  · split_ifs
    · exact ⟨_, rfl⟩
    · exact ⟨[], by rw [List.append_nil]⟩

def Waits (id : String) (f : Fleet) : Prop :=
  ∀ k ask, (f.agent id).awaits id = some (k, ask) → ∃ x, f.calls[k]? = some x ∧ x.ask = ask

theorem Waits.step (h : Waits id f) (hon : f.server.Online) (e : Event) : Waits id (f.step e) := by
  intro k ask hk
  have hm := step_move f e id
  have ht := (step_traffic hon e).extends
  generalize (f.step e).agent id = p at hm hk
  cases hm with
  | stay =>
    obtain ⟨x, hx, hask⟩ := h k ask hk
    obtain ⟨y, hy, hask'⟩ := ht k x hx
    exact ⟨y, hy, hask'.trans hask⟩
  | ask host b sent =>
    obtain ⟨rfl, rfl⟩ := Prod.mk.inj (Option.some.inj hk)
    exact ⟨_, sent, rfl⟩
  | beat r _ _ sent | again r _ _ _ sent =>
    obtain ⟨rfl, rfl⟩ := Prod.mk.inj (Option.some.inj hk)
    exact ⟨_, sent, rfl⟩
  | told r j a reply =>
    obtain ⟨ws, hr⟩ := r.reRegister_eq (register (some reply))
    rw [hr] at hk
    exact absurd hk (by simp [Process.awaits])
  | stop | back | start | rest | lost => exact absurd hk (by simp [Process.awaits])

/-- The subnet of the node is released only while its agent is stopped. -/
def ReleasedStopped (id : String) (f : Fleet) : Event → Prop
  | .server (.finish k _) => f.calls[k]? = some (.handling (.remove id)) → f.agent id = .stopped
  | _ => True

instance (id : String) (f : Fleet) : (e : Event) → Decidable (ReleasedStopped id f e)
  | .server (.finish k _) => inferInstanceAs (Decidable
      (f.calls[k]? = some (.handling (.remove id)) → f.agent id = .stopped))
  | .server (.accept _ _) | .server (.evict _) | .server .restart => isTrue trivial
  | .agent _ _ | .receive _ | .decommission _ => isTrue trivial

/-- The agent has, or will be answered with, the subnet that the table gives its node. -/
structure Settled (id : String) (f : Fleet) : Prop where
  online : f.server.Online
  waits : Waits id f
  running : ∀ r, f.agent id = .running r → f.server.Holds id r.netCfg
  answered : ∀ host k b ask reply cfg, f.agent id = .registering host k b →
    f.calls[k]? = some (.answer ask reply) → register (some reply) = .ok cfg →
    f.server.Holds id cfg

theorem Settled.step (h : Settled id f) (hg : ReleasedStopped id f e) : Settled id (f.step e) := by
  have ht := step_traffic h.online e
  have hm := step_move f e id
  have hwaits := h.waits.step h.online e
  have hon := ht.online h.online
  by_cases hrel : ∃ k db, e = .server (.finish k db) ∧ f.calls[k]? = some (.handling (.remove id))
  · obtain ⟨k, db, rfl, hk⟩ := hrel
    have hstopped : (f.step (.server (.finish k db))).agent id = .stopped :=
      (congrFun (finish_agent k db) id).trans (hg hk)
    exact ⟨hon, hwaits, fun r hr => by simp [hstopped] at hr,
      fun host k b ask reply cfg hr => by simp [hstopped] at hr⟩
  have hkeep (cfg : NetworkConfig) : f.server.Holds id cfg → (f.step e).server.Holds id cfg :=
    ht.holds h.online fun k db he hk => hrel ⟨k, db, he, hk⟩
  refine ⟨hon, hwaits, fun r hr => ?_, fun host k b ask reply cfg hr hanswer hok => ?_⟩
  · generalize (f.step e).agent id = p at hm hr
    cases hm with
    | stay => exact hkeep _ (h.running r hr)
    | start host k b ask reply cfg was answer ok =>
      obtain rfl := Process.running.inj hr
      exact hkeep _ (h.answered host k b ask reply cfg was answer ok)
    | beat r₀ was | again r₀ _ was | rest r₀ _ was | lost r₀ _ was =>
      obtain rfl := Process.running.inj hr
      exact hkeep _ (h.running r₀ was)
    | told r₀ k ask reply was =>
      obtain rfl := Process.running.inj hr
      obtain ⟨ws, he⟩ := r₀.reRegister_eq (register (some reply))
      rw [he]
      exact hkeep _ (h.running r₀ was)
    | stop | ask | back => exact absurd hr (by simp)
  · generalize (f.step e).agent id = p at hm hr
    cases hm with
    | ask host' b' sent =>
      obtain ⟨-, rfl, -⟩ := Process.registering.inj hr
      rw [sent] at hanswer
      exact absurd hanswer (by simp)
    | stay =>
      obtain hold | ⟨db, node, rfl, hk, rfl, rfl, hst⟩ := ht.answer hanswer hok
      · exact hkeep cfg (h.answered host k b ask reply cfg hr hold hok)
      · -- the call that is answered is the one that the agent has made for its own node
        obtain ⟨x, hx, hask⟩ := h.waits k (.register (host.node id)) (by rw [hr]; rfl)
        obtain rfl := Option.some.inj (hk.symm.trans hx)
        obtain rfl := Ask.register.inj hask
        rw [hst]
        exact (h.online.allocateFor db (host.node id)).2.2.2 cfg hok
    | stop | back | start | beat | again | rest | told | lost => exact absurd hr (by simp)

theorem online_new : new.server.Online := by
  have hparse : parseCIDR bridgeSubnet = some ⟨⟨10, 22, 0, 0⟩, 16⟩ := by decide +kernel
  have hopen := new_of_parse hparse ∅
  exact ⟨_, by rw [new, hopen]; rfl, Opened.new hopen⟩

theorem settled_new (id : String) : Settled id new where
  online := online_new
  waits _ _ h := absurd h (by simp [new, Process.awaits])
  running _ h := absurd h (by simp [new])
  answered _ _ _ _ _ _ h := absurd h (by simp [new])

theorem settled_run {es : List Event} (h : Settled id f)
    (hg : Guarded step (ReleasedStopped id) f es) : Settled id (run step f es) :=
  hg.invariant (fun _ _ hg h => h.step hg) h

/-- Two running agents whose subnets were only ever released while they were stopped. The
    table still answers them with the subnet they are configured with, the two subnets are
    disjoint, and each node is served one route to the other's subnet, through the address
    that the other is registered with. -/
theorem running_subnets_agree {i j : String} (hij : i ≠ j) {es : List Event}
    (hi : Guarded step (ReleasedStopped i) new es) (hj : Guarded step (ReleasedStopped j) new es)
    {r s : Running} (hr : (run step new es).agent i = .running r)
    (hs : (run step new es).agent j = .running s) :
    ∃ a x y, (run step new es).server.allocator = some a ∧
      a.allocate i = (a, .ok r.netCfg) ∧ a.allocate j = (a, .ok s.netCfg) ∧
      parseCIDR r.netCfg.subnet = some x ∧ parseCIDR s.netCfg.subnet = some y ∧ x.Disjoint y ∧
      ∀ subnets : List (String × String), subnets.Perm a.all.toList →
        ∀ peer, (run step new es).server.registry.get i = some peer → peer.hostIP ≠ "" →
          ∀ via, ⟨r.netCfg.subnet, via⟩ ∈
            routesTo j (run step new es).server.registry subnets ↔ via = peer.hostIP := by
  have settled := settled_run (settled_new i) hi
  obtain ⟨a, row, ha, hrow, hcfg⟩ := settled.running r hr
  obtain ⟨a₁, row', ha₁, hrow', hcfg'⟩ := (settled_run (settled_new j) hj).running s hs
  obtain rfl := Option.some.inj (ha.symm.trans ha₁)
  obtain ⟨a₁, ha₁, hopen⟩ := settled.online
  obtain rfl := Option.some.inj (ha.symm.trans ha₁)
  obtain ⟨x, y, hx, hy, hdisjoint⟩ := hopen.subnet_disjoint hrow hrow' hij
  rw [hopen.subnet i row hrow] at hx
  rw [hopen.subnet j row' hrow'] at hy
  rw [hcfg, hcfg']
  refine ⟨a, x, y, ha, allocate_of_row (hopen.named i row hrow) hrow,
    allocate_of_row (hopen.named j row' hrow') hrow', hx, hy, hdisjoint, ?_⟩
  intro subnets hperm peer hpeer hip via
  rw [← hopen.subnet i row hrow]
  exact hopen.route_iff hperm hrow hij hpeer hip

private def host (ip : String) : Host := ⟨ip ++ ":9000", ip, 4, 8000⟩

/-- An attempt of `n1` is lost, `n3` leaves for good, `n2` takes over its subnet, and `n1`
    registers again after a restart of the control plane. -/
private def comings : List Event :=
  [.agent "n3" (.boot (host "192.168.1.3")), .server (.accept 0 0), .server (.finish 0 {}),
    .receive 0,
    .agent "n1" (.boot (host "192.168.1.1")), .agent "n1" .giveUp, .agent "n1" .elapse,
    .server (.accept 2 1), .server (.finish 2 {}), .receive 2,
    .agent "n3" .stop, .decommission "n3", .server (.accept 3 2), .server (.finish 3 {}),
    .agent "n2" (.boot (host "192.168.1.2")), .server (.accept 4 3), .server (.finish 4 {}),
    .receive 4, .server .restart,
    .agent "n1" .tick, .server (.accept 5 4), .receive 5, .server (.accept 6 5),
    .server (.finish 6 {}), .receive 6]

theorem running_subnets_agree_comings :
    ∃ a, (run step new comings).server.allocator = some a ∧
      a.allocate "n1" = (a, .ok ⟨"10.22.1.0/24", "10.22.1.1"⟩) ∧
      a.allocate "n2" = (a, .ok ⟨"10.22.0.0/24", "10.22.0.1"⟩) ∧
      ⟨"10.22.1.0/24", "192.168.1.1"⟩ ∈ routesTo "n2"
        (run step new comings).server.registry a.all.toList := by
  have hr : (run step new comings).agent "n1" = .running
      ⟨host "192.168.1.1", ⟨"10.22.1.0/24", "10.22.1.1"⟩, .idle, []⟩ := by decide +kernel
  have hs : (run step new comings).agent "n2" = .running
      ⟨host "192.168.1.2", ⟨"10.22.0.0/24", "10.22.0.1"⟩, .idle, []⟩ := by decide +kernel
  have hpeer : (run step new comings).server.registry.get "n1" =
      some { (host "192.168.1.1").node "n1" with lastHeartbeat := 5 } := by decide +kernel
  have hn1 : Guarded step (ReleasedStopped "n1") new comings := by decide +kernel
  have hn2 : Guarded step (ReleasedStopped "n2") new comings := by decide +kernel
  obtain ⟨a, x, y, ha, hi, hj, -, -, -, hroutes⟩ :=
    running_subnets_agree (by decide) hn1 hn2 hr hs
  exact ⟨a, ha, hi, hj, (hroutes _ (.refl _) _ hpeer (by decide) _).mpr rfl⟩

section Exchange
variable {st : Membership} {cs : List (Flight Ask Reply)} {p : Process} {host : Host}
  {netCfg : NetworkConfig} {ws : List String}

/-- What an exchange between one agent and the control plane reads and writes. -/
structure At (id : String) (f : Fleet) (st : Membership) (cs : List (Flight Ask Reply))
    (p : Process) : Prop where
  server : f.server = st
  calls : f.calls = cs
  agent : f.agent id = p

theorem At.tick (h : At id f st cs (.running ⟨host, netCfg, .idle, ws⟩)) :
    At id (f.step (.agent id .tick)) st (cs ++ [.request (.heartbeat id)])
      (.running ⟨host, netCfg, .heartbeat cs.length, ws⟩) := by
  obtain ⟨rfl, rfl, hp⟩ := h
  simp only [step, agentStep, hp]
  exact ⟨rfl, rfl, Function.update_self ..⟩

theorem At.accept_unknown (h : At id f st (cs ++ [.request (.heartbeat id)]) p) (hid : id ≠ "")
    (hlost : st.registry.get id = none) (now : ℤ) :
    At id (f.step (.server (.accept cs.length now))) st
      (cs ++ [.answer (.heartbeat id) (.heard (.error 404 s!"node {id} not registered"))]) p := by
  obtain ⟨rfl, hc, rfl⟩ := h
  simp only [step, serverStep, accept, hc, getElem?_sent, set_sent, Membership.heartbeat,
    if_neg hid, Registry.heartbeat_unknown hlost]
  exact ⟨rfl, rfl, rfl⟩

theorem At.receive {ask : Ask} {reply : Reply} (h : At id f st (cs ++ [.answer ask reply]) p)
    (hsender : ask.sender = some id) (hawaits : p.awaits id = some (cs.length, ask)) :
    f.step (.receive cs.length) =
      resume { f with calls := cs ++ [.returned ask] } id (some reply) := by
  obtain ⟨rfl, hc, rfl⟩ := h
  simp only [step, Fleet.receive, hc, getElem?_sent, set_sent, hsender, hawaits, Option.map_some,
    if_true]

theorem At.receive_unknown {text : String}
    (h : At id f st (cs ++ [.answer (.heartbeat id) (.heard (.error 404 text))])
      (.running ⟨host, netCfg, .heartbeat cs.length, ws⟩)) :
    At id (f.step (.receive cs.length)) st
      (cs ++ [.returned (.heartbeat id)] ++ [.request (.register (host.node id))])
      (.running ⟨host, netCfg, .reRegister (cs ++ [Flight.returned (Ask.heartbeat id)]).length, ws⟩) := by
  rw [h.receive rfl rfl]
  obtain ⟨rfl, -, hp⟩ := h
  simp only [resume, hp, sendHeartbeat, if_true, call]
  exact ⟨rfl, rfl, Function.update_self ..⟩

theorem At.accept_register {node : Node} (h : At id f st (cs ++ [.request (.register node)]) p)
    (now : ℤ) :
    At id (f.step (.server (.accept cs.length now)))
      { st with registry := st.registry.register node now }
      (cs ++ [.handling (.register node)]) p := by
  obtain ⟨rfl, hc, rfl⟩ := h
  simp only [step, serverStep, accept, hc, getElem?_sent, set_sent]
  exact ⟨rfl, rfl, rfl⟩

theorem At.finish_register {node : Node} (h : At id f st (cs ++ [.handling (.register node)]) p)
    (db : Outage) :
    At id (f.step (.server (.finish cs.length db))) (st.allocateFor db node).1
      (cs ++ [.answer (.register node) (.registered (st.allocateFor db node).2)]) p := by
  obtain ⟨rfl, hc, rfl⟩ := h
  simp only [step, serverStep, finish, hc, getElem?_sent, set_sent]
  exact ⟨rfl, rfl, rfl⟩

theorem At.receive_registered {reply : Reply}
    (h : At id f st (cs ++ [.answer (.register (host.node id)) reply])
      (.running ⟨host, netCfg, .reRegister cs.length, ws⟩)) :
    At id (f.step (.receive cs.length)) st (cs ++ [.returned (.register (host.node id))])
      (.running (Running.reRegister ⟨host, netCfg, .reRegister cs.length, ws⟩
        (register (some reply)))) := by
  rw [h.receive rfl rfl]
  obtain ⟨rfl, -, hp⟩ := h
  simp only [resume, hp, become]
  exact ⟨rfl, rfl, Function.update_self ..⟩

end Exchange

/-- A tick of an agent that the control plane does not know, with nothing lost on the way. -/
def exchange (id : String) (k : ℕ) (now : ℤ) : List Event :=
  [.agent id .tick, .server (.accept k now), .receive k, .server (.accept (k + 1) now),
    .server (.finish (k + 1) {}), .receive (k + 1)]

theorem Settled.exchange (h : Settled id f) {r : Running} (hr : f.agent id = .running r)
    (hidle : r.beat = .idle) (hlost : f.server.registry.get id = none) (now : ℤ) :
    let f' := run Fleet.step f (Fleet.exchange id f.calls.length now)
    f'.agent id = .running r ∧
      f'.server.registry.get id = some { r.host.node id with lastHeartbeat := now } ∧
      f'.server.Holds id r.netCfg := by
  intro f'
  obtain ⟨host, netCfg, beat, ws⟩ := r
  obtain rfl : beat = .idle := hidle
  obtain ⟨a, row, ha, hrow, rfl⟩ := h.running _ hr
  obtain ⟨a₁, ha₁, hopen⟩ := h.online
  obtain rfl := Option.some.inj (ha.symm.trans ha₁)
  have hid : id ≠ "" := hopen.named id row hrow
  have hlen : (f.calls ++ [Flight.returned (Ask.heartbeat id)]).length = f.calls.length + 1 := by
    simp
  -- the agent and the control plane at the end of the exchange
  have h0 : At id f f.server f.calls (.running ⟨host, a.config row.idx, .idle, ws⟩) :=
    ⟨rfl, rfl, hr⟩
  have hsent := (h0.tick.accept_unknown hid hlost now).receive_unknown
  have hdone := ((hsent.accept_register now).finish_register {}).receive_registered
  rw [hlen] at hdone
  obtain ⟨hserver, -, hagent⟩ : At id f' _ _ _ := hdone
  -- the row of the node is what it is answered with
  have hrow' : (a.allocateOn {} (host.node id).id).2 = .ok (a.config row.idx) :=
    congrArg Prod.snd (allocate_of_row hid hrow)
  have hon : Membership.Online
      { f.server with registry := f.server.registry.register (host.node id) now } := h.online
  obtain ⟨-, hregistry, -, hholds⟩ := hon.allocateFor {} (host.node id)
  have hok := ((@Membership.allocateFor_eq { f.server with
    registry := f.server.registry.register (host.node id) now } a ha {} (host.node id)).2 _).mpr hrow'
  rw [hok] at hagent
  refine ⟨?_, ?_, ?_⟩
  · rw [hagent]
    simp [Running.reRegister]
  · rw [hserver, hregistry, Registry.get_register]
    exact if_pos rfl
  · rw [hserver]
    exact hholds _ hok

/-- A control plane that has lost the registration of a running agent has it back after one
    exchange, with the subnet that the agent is configured with, and the agent goes on as
    before. -/
theorem registration_restored {es : List Event} (hg : Guarded step (ReleasedStopped id) new es)
    {r : Running} (hr : (run step new es).agent id = .running r) (hidle : r.beat = .idle)
    (hlost : (run step new es).server.registry.get id = none) (now : ℤ) :
    let f' := run step (run step new es) (exchange id (run step new es).calls.length now)
    f'.agent id = .running r ∧
      f'.server.registry.get id = some { r.host.node id with lastHeartbeat := now } ∧
      f'.server.Holds id r.netCfg :=
  (settled_run (settled_new id) hg).exchange hr hidle hlost now

theorem registration_restored_n1 :
    let es : List Event := [.agent "n1" (.boot (host "192.168.1.1")), .server (.accept 0 0),
      .server (.finish 0 {}), .receive 0, .server .restart]
    let r : Running := ⟨host "192.168.1.1", ⟨"10.22.0.0/24", "10.22.0.1"⟩, .idle, []⟩
    (run step new es).server.registry.get "n1" = none ∧
      (run step (run step new es) (exchange "n1" 1 7)).agent "n1" = .running r := by
  intro es r
  have hlost : (run step new es).server.registry.get "n1" = none := by decide +kernel
  have hg : Guarded step (ReleasedStopped "n1") new es := by decide +kernel
  have hr : (run step new es).agent "n1" = .running r := by decide +kernel
  exact ⟨hlost, (registration_restored hg hr rfl hlost 7).1⟩

/-! ### The warning -/

/-- The second part of a registration of the node is still to come. -/
def registers (id : String) : Flight Ask Reply → Bool
  | .handling (.register node) => node.id = id
  | _ => false

def answered : Flight Ask Reply → Bool
  | .answer _ _ => true
  | _ => false

def Process.reRegistering : Process → Option ℕ
  | .running ⟨_, _, .reRegister k, _⟩ => some k
  | _ => none

/-- A registration of the node is completed only while its agent waits for it, and the agent
    does not give up on a re-registration that has been answered. -/
def Answered (id : String) (f : Fleet) : Event → Prop
  | .server (.finish k _) => ∀ x ∈ f.calls[k]?, registers id x = true →
      ((f.agent id).awaits id).map Prod.fst = some k
  | .agent j .giveUp => j = id → ∀ k ∈ (f.agent id).reRegistering, ∀ x ∈ f.calls[k]?,
      answered x = false
  | _ => True

instance (id : String) (f : Fleet) : (e : Event) → Decidable (Answered id f e)
  | .server (.finish k _) => inferInstanceAs (Decidable (∀ x ∈ f.calls[k]?, registers id x = true →
      ((f.agent id).awaits id).map Prod.fst = some k))
  | .agent j .giveUp => inferInstanceAs (Decidable (j = id →
      ∀ k ∈ (f.agent id).reRegistering, ∀ x ∈ f.calls[k]?, answered x = false))
  | .agent _ (.boot _) | .agent _ .tick | .agent _ .elapse | .agent _ .stop => isTrue trivial
  | .receive _ | .decommission _ => isTrue trivial
  | .server (.accept _ _) | .server (.evict _) | .server .restart => isTrue trivial

/-- The agent has warned of the subnet, or is about to read it. -/
def Informed (f : Fleet) (r : Running) (cfg : NetworkConfig) : Prop :=
  warning cfg.subnet r.netCfg.subnet ∈ r.warnings ∨ ∃ k ask reply,
    r.beat = .reRegister k ∧ f.calls[k]? = some (.answer ask reply) ∧
      register (some reply) = .ok cfg

structure Aware (id : String) (f : Fleet) : Prop where
  online : f.server.Online
  waits : Waits id f
  answered : ∀ host k b ask reply cfg, f.agent id = .registering host k b →
    f.calls[k]? = some (.answer ask reply) → register (some reply) = .ok cfg →
    cfg.subnet ≠ "" ∧ ∀ cfg', f.server.Holds id cfg' → cfg' = cfg
  configured : ∀ r, f.agent id = .running r → r.netCfg.subnet ≠ ""
  informed : ∀ r cfg, f.agent id = .running r → f.server.Holds id cfg →
    cfg.subnet ≠ r.netCfg.subnet → f.Informed r cfg

variable {r : Running}

/-- The subnet of the node in the table is one that the agent is to be told of. -/
theorem Aware.informed_of_finish {k : ℕ} {node : Node} {reply : Reply} {cfg : NetworkConfig}
    (hr : f.agent id = .running r) (hawaits : (f.agent id).awaits id = some (k, .register node))
    (hk : (f.step e).calls[k]? = some (.answer (.register node) reply))
    (hok : register (some reply) = .ok cfg) : (f.step e).Informed r cfg := by
  rw [hr, awaits_running] at hawaits
  cases hb : r.beat with
  | idle => simp [hb] at hawaits
  | heartbeat j => simp [hb] at hawaits
  | reRegister j =>
    obtain ⟨rfl, -⟩ : j = k ∧ _ := by simpa [hb] using hawaits
    exact .inr ⟨j, _, reply, hb, hk, hok⟩

theorem Running.reRegister_warns {cfg : NetworkConfig} (hcfg : cfg.subnet ≠ "")
    (hr : r.netCfg.subnet ≠ "") (hne : cfg.subnet ≠ r.netCfg.subnet) :
    warning cfg.subnet r.netCfg.subnet ∈ (r.reRegister (.ok cfg)).warnings := by
  simp [Running.reRegister, hcfg, hr, hne]

/-- The calls of an agent that is not re-registering. -/
theorem Informed.warned {cfg : NetworkConfig} (h : f.Informed r cfg)
    (hbeat : ∀ k, r.beat ≠ .reRegister k) :
    warning cfg.subnet r.netCfg.subnet ∈ r.warnings := by
  obtain h | ⟨k, -, -, hk, -⟩ := h
  · exact h
  · exact absurd hk (hbeat k)

theorem Aware.informed_step (h : Aware id f) (hg : Answered id f e)
    (hm : Move f e id (f.step e).calls ((f.step e).agent id))
    (hback : ∀ cfg, (f.step e).server.Holds id cfg →
      f.server.Holds id cfg ∨ ∃ k node reply, (∃ db, e = .server (.finish k db)) ∧
        f.calls[k]? = some (.handling (.register node)) ∧
        (f.agent id).awaits id = some (k, .register node) ∧
        (f.step e).calls[k]? = some (.answer (.register node) reply) ∧
        register (some reply) = .ok cfg) (r : Running) (cfg : NetworkConfig)
    (hr : (f.step e).agent id = .running r) (hold : (f.step e).server.Holds id cfg)
    (hne : cfg.subnet ≠ r.netCfg.subnet) : (f.step e).Informed r cfg := by
  have hsubnet := hold.subnet_ne
  have hbefore := hback cfg hold
  generalize (f.step e).agent id = p at hm hr
  cases hm with
  | stay unread =>
    obtain hold | ⟨k, node, reply, -, -, hawaits, hk, hok⟩ := hbefore
    · obtain hw | ⟨k, ask, reply, hb, hk, hok⟩ := h.informed r cfg hr hold hne
      · exact .inl hw
      · have hawaits : (f.agent id).awaits id = some (k, .register (r.host.node id)) := by
          rw [hr, awaits_running, hb]
        obtain ⟨x, hx, hask⟩ := h.waits k _ hawaits
        obtain rfl := Option.some.inj (hk.symm.trans hx)
        obtain rfl : ask = .register (r.host.node id) := hask
        obtain rfl | hkept := (step_traffic h.online e).answer_kept hk
        · exact absurd hawaits (unread k _ reply rfl hk)
        · exact .inr ⟨k, _, reply, hb, hkept, hok⟩
    · exact Aware.informed_of_finish hr hawaits hk hok
  | start host k b ask reply cfg₀ was answer ok =>
    obtain rfl := Process.running.inj hr
    obtain hold | ⟨k', node, _, -, hk, hawaits, -⟩ := hbefore
    · rw [(h.answered host k b ask reply cfg₀ was answer ok).2 cfg hold] at hne
      exact absurd rfl hne
    · rw [was] at hawaits
      obtain ⟨rfl, -⟩ := Prod.mk.inj (Option.some.inj hawaits)
      exact absurd (hk.symm.trans answer) (by simp)
  | beat r₀ was hb =>
    obtain rfl := Process.running.inj hr
    obtain hold | ⟨k', node, _, -, hk, hawaits, -⟩ := hbefore
    · exact .inl ((h.informed r₀ cfg was hold hne).warned (by simp [hb]))
    · rw [was, awaits_running, hb] at hawaits
      exact absurd hawaits (by simp)
  | again r₀ k was hb | rest r₀ k was hb =>
    obtain rfl := Process.running.inj hr
    obtain hold | ⟨k', node, _, -, hk, hawaits, -⟩ := hbefore
    · exact .inl ((h.informed r₀ cfg was hold hne).warned (by simp [hb]))
    · rw [was, awaits_running, hb] at hawaits
      exact absurd hawaits (by simp)
  | told r₀ k ask reply was hb answer =>
    obtain rfl := Process.running.inj hr
    obtain ⟨ws, he⟩ := r₀.reRegister_eq (register (some reply))
    obtain hold | ⟨k', node, _, -, hk, hawaits, -⟩ := hbefore
    · have hne₀ : cfg.subnet ≠ r₀.netCfg.subnet := by rwa [he] at hne
      obtain hw | ⟨k', ask', reply', hb', hk, hok⟩ := h.informed r₀ cfg was hold hne₀
      · rw [he]
        exact .inl (List.mem_append_left ws hw)
      · obtain rfl := Beat.reRegister.inj (hb.symm.trans hb')
        obtain ⟨-, rfl⟩ := Flight.answer.inj (Option.some.inj (hk.symm.trans answer))
        rw [hok]
        refine .inl ?_
        have hw := Running.reRegister_warns hsubnet (h.configured r₀ was) hne₀
        rwa [show (r₀.reRegister (.ok cfg)).netCfg = r₀.netCfg by rw [← hok, he]]
    · rw [was, awaits_running, hb] at hawaits
      obtain ⟨rfl, -⟩ := Prod.mk.inj (Option.some.inj hawaits)
      exact absurd (hk.symm.trans answer) (by simp)
  | lost r₀ k was hb gaveUp =>
    obtain rfl := Process.running.inj hr
    obtain hold | ⟨k', node, _, ⟨db, rfl⟩, -⟩ := hbefore
    · obtain hw | ⟨k', ask', reply', hb', hk, -⟩ := h.informed r₀ cfg was hold hne
      · exact .inl hw
      · subst gaveUp
        have hre : (f.agent id).reRegistering = some k' := by
          obtain ⟨host, netCfg, beat, ws⟩ := r₀
          obtain rfl : beat = .reRegister k' := hb'
          rw [was]
          rfl
        exact absurd (hg rfl k' hre _ hk) (by simp [Fleet.answered])
    · exact absurd gaveUp (by simp)
  | stop | ask | back => exact absurd hr (by simp)

theorem Aware.step (h : Aware id f) (hg : Answered id f e) : Aware id (f.step e) := by
  have ht := step_traffic h.online e
  have hm := step_move f e id
  -- a new row of the node comes with the answer to the call that the agent waits for
  have hback (cfg : NetworkConfig) (hold : (f.step e).server.Holds id cfg) :
      f.server.Holds id cfg ∨ ∃ k node reply, (∃ db, e = .server (.finish k db)) ∧
        f.calls[k]? = some (.handling (.register node)) ∧
        (f.agent id).awaits id = some (k, .register node) ∧
        (f.step e).calls[k]? = some (.answer (.register node) reply) ∧
        register (some reply) = .ok cfg := by
    obtain hold | ⟨k, db, node, rfl, hk, hid, reply, hreply, hok⟩ := ht.holds_before h.online hold
    · exact .inl hold
    · obtain ⟨⟨_, ask⟩, hawaits, rfl⟩ := Option.map_eq_some_iff.mp (hg _ hk (by simp [registers, hid]))
      obtain ⟨x, hx, rfl⟩ := h.waits _ ask hawaits
      obtain rfl := Option.some.inj (hk.symm.trans hx)
      exact .inr ⟨_, node, reply, ⟨db, rfl⟩, hk, hawaits, hreply, hok⟩
  refine ⟨ht.online h.online, h.waits.step h.online e,
    fun host k b ask reply cfg hr hanswer hok => ?_, fun r hr => ?_, fun r cfg hr hold hne => ?_⟩
  · generalize (f.step e).agent id = p at hm hr
    cases hm with
    | ask host' b' sent =>
      obtain ⟨-, rfl, -⟩ := Process.registering.inj hr
      rw [sent] at hanswer
      exact absurd hanswer (by simp)
    | stay =>
      obtain hbefore | ⟨db, node, rfl, hk, rfl, rfl, hst⟩ := ht.answer hanswer hok
      · obtain ⟨hsubnet, hunique⟩ := h.answered host k b ask reply cfg hr hbefore hok
        refine ⟨hsubnet, fun cfg' hold => ?_⟩
        obtain hold | ⟨k', node, _, -, hk, hawaits, -⟩ := hback cfg' hold
        · exact hunique cfg' hold
        · rw [hr] at hawaits
          obtain ⟨rfl, -⟩ := Prod.mk.inj (Option.some.inj hawaits)
          exact absurd (hk.symm.trans hbefore) (by simp)
      · obtain ⟨x, hx, hask⟩ := h.waits k (.register (host.node id)) (by rw [hr]; rfl)
        obtain rfl := Option.some.inj (hk.symm.trans hx)
        obtain rfl := Ask.register.inj hask
        have hnew := (h.online.allocateFor db (host.node id)).2.2.2 cfg hok
        rw [← hst] at hnew
        exact ⟨hnew.subnet_ne, fun cfg' hold => hold.eq hnew⟩
    | stop | back | start | beat | again | rest | told | lost => exact absurd hr (by simp)
  · generalize (f.step e).agent id = p at hm hr
    cases hm with
    | stay => exact h.configured r hr
    | start host k b ask reply cfg was answer ok =>
      obtain rfl := Process.running.inj hr
      exact (h.answered host k b ask reply cfg was answer ok).1
    | beat r₀ was | again r₀ _ was | rest r₀ _ was | lost r₀ _ was =>
      obtain rfl := Process.running.inj hr
      exact h.configured r₀ was
    | told r₀ k ask reply was =>
      obtain rfl := Process.running.inj hr
      obtain ⟨ws, he⟩ := r₀.reRegister_eq (register (some reply))
      rw [he]
      exact h.configured r₀ was
    | stop | ask | back => exact absurd hr (by simp)
  · exact h.informed_step hg hm hback r cfg hr hold hne

theorem aware_new (id : String) : Aware id new where
  online := online_new
  waits _ _ h := absurd h (by simp [new, Process.awaits])
  answered _ _ _ _ _ _ h := absurd h (by simp [new])
  configured _ h := absurd h (by simp [new])
  informed _ _ h := absurd h (by simp [new])

/-- Nodes may be released under running agents. An agent that the table gives another subnet
    than the one it is configured with has warned of it, if every registration of it that is
    completed is also answered. -/
theorem other_subnet_warned {es : List Event} (hg : Guarded step (Answered id) new es)
    (hr : (run step new es).agent id = .running r) (hbeat : ∀ k, r.beat ≠ .reRegister k)
    {cfg : NetworkConfig} (hold : (run step new es).server.Holds id cfg)
    (hne : cfg.subnet ≠ r.netCfg.subnet) : warning cfg.subnet r.netCfg.subnet ∈ r.warnings :=
  have aware : Aware id (run step new es) :=
    hg.invariant (fun _ _ hg h => h.step hg) (aware_new id)
  (aware.informed r cfg hr hold hne).warned hbeat

/-- `n1` is removed while it runs, and `n2` gets its subnet before `n1` registers again. -/
private def takenOver (last : Event) : List Event :=
  [.agent "n1" (.boot (host "192.168.1.1")), .server (.accept 0 0), .server (.finish 0 {}),
    .receive 0, .decommission "n1", .server (.accept 1 1), .server (.finish 1 {}),
    .agent "n2" (.boot (host "192.168.1.2")), .server (.accept 2 2), .server (.finish 2 {}),
    .receive 2, .agent "n1" .tick, .server (.accept 3 3), .receive 3, .server (.accept 4 4),
    .server (.finish 4 {}), last]

theorem other_subnet_warned_takenOver :
    ∃ r s, (run step new (takenOver (.receive 4))).agent "n1" = .running r ∧
      (run step new (takenOver (.receive 4))).agent "n2" = .running s ∧
      r.netCfg = s.netCfg ∧ warning "10.22.1.0/24" "10.22.0.0/24" ∈ r.warnings := by
  have hr : (run step new (takenOver (.receive 4))).agent "n1" = .running
      ⟨host "192.168.1.1", ⟨"10.22.0.0/24", "10.22.0.1"⟩, .idle,
        [warning "10.22.1.0/24" "10.22.0.0/24"]⟩ := by decide +kernel
  have hs : (run step new (takenOver (.receive 4))).agent "n2" = .running
      ⟨host "192.168.1.2", ⟨"10.22.0.0/24", "10.22.0.1"⟩, .idle, []⟩ := by decide +kernel
  have hg : Guarded step (Answered "n1") new (takenOver (.receive 4)) := by decide +kernel
  have hold : (run step new (takenOver (.receive 4))).server.Holds "n1"
      ⟨"10.22.1.0/24", "10.22.1.1"⟩ := by decide +kernel
  have hwarned := other_subnet_warned hg hr nofun hold (by decide)
  exact ⟨_, _, hr, hs, rfl, hwarned⟩

-- The same run with the last answer lost: nothing is logged.
example : (run step new (takenOver (.agent "n1" .giveUp))).agent "n1" = .running
    ⟨host "192.168.1.1", ⟨"10.22.0.0/24", "10.22.0.1"⟩, .idle, []⟩ := by decide +kernel

end Fleet
end Smith
