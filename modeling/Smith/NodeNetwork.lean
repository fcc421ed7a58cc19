import Smith.Commands
import Smith.PacketForwarding
import Smith.RouteManager

set_option autoImplicit false

/-!
# The network of a node

What an agent sets up on its host for packets between containers: two accept rules at the
head of the filter's forward chain, one masquerade rule, and forwarding itself. The host has
other programs, whose rules and routes come and go. A rule that is found is left where it is,
so it is of use only as long as no rule before it drops the packets.
-/
namespace Smith
open Commands FiniteMaps Forwarding IPv4

inductive FilterVerdict where
  | accept
  | drop
  deriving DecidableEq

inductive NatVerdict where
  | masquerade
  | accept
  deriving DecidableEq

structure NodeNetwork where
  address : Addr
  ipForward : Bool
  policy : FilterVerdict
  forward : List (Rule FilterVerdict)
  postrouting : List (Rule NatVerdict)
  routes : KernelTable Addr

namespace KernelTable

def covers (x : Addr) (r : KernelRoute Addr) : Bool :=
  match r.dst with
  | none => true
  | some k => k.Contains x

def specificity (r : KernelRoute Addr) : ℕ :=
  match r.dst with
  | none => 0
  | some k => k.ones

def route (t : KernelTable Addr) (x : Addr) : Option (KernelRoute Addr) :=
  (t.routeList.filter (covers x)).argmax specificity

end KernelTable

inductive Hop where
  | gateway (gw : Addr)
  | onLink
  deriving DecidableEq

def KernelRoute.hop (r : KernelRoute Addr) : Hop :=
  match r.gw with
  | some gw => .gateway gw
  | none => .onLink

namespace NodeNetwork

/-! ### Setting up the host -/

abbrev Program (α : Type) := Prog String NodeNetwork α

def labelled {α : Type} (what : String) (p : Program α) : Program α :=
  EStateM.adaptExcept (fun e => s!"{what}: {e}") p

def tolerated (p : Program Unit) : Program Unit := fun w =>
  match p w with
  | .ok _ w' => .ok () w'
  | .error _ w' => .ok () w'

structure Chain (V : Type) where
  rules : NodeNetwork → List (Rule V)
  put : List (Rule V) → NodeNetwork → NodeNetwork
  put_rules : ∀ n, put (rules n) n = n

def forwardChain : Chain FilterVerdict := ⟨forward, fun rules n => { n with forward := rules }, fun _ => rfl⟩

def postroutingChain : Chain NatVerdict :=
  ⟨postrouting, fun rules n => { n with postrouting := rules }, fun _ => rfl⟩

section Rules
variable {V : Type} [DecidableEq V]

def found (c : Chain V) (r : Rule V) : Program Bool :=
  command fun n => .ok (decide (r ∈ c.rules n), n)

def insert (c : Chain V) (r : Rule V) : Program Unit :=
  command fun n => .ok ((), c.put (r :: c.rules n) n)

def ensureRule (c : Chain V) (r : Rule V) : Program Unit := do
  let present ← labelled "check rule" (found c r)
  if present then pure () else labelled "insert rule" (insert c r)

def ensured (r : Rule V) (rules : List (Rule V)) : List (Rule V) :=
  if r ∈ rules then rules else r :: rules

theorem mem_ensured (r : Rule V) (rules : List (Rule V)) : r ∈ ensured r rules := by
  unfold ensured
  split_ifs with h
  · exact h
  · exact List.mem_cons_self

theorem mem_ensured_of_mem {q : Rule V} (r : Rule V) {rules : List (Rule V)} (h : q ∈ rules) :
    q ∈ ensured r rules := by
  unfold ensured
  split_ifs
  · exact h
  · exact List.mem_cons_of_mem r h

theorem ensureRule_yields (c : Chain V) (r : Rule V) (n : NodeNetwork) :
    Yields n (ensureRule c r) () (c.put (ensured r (c.rules n)) n) := by
  have hfound : Yields n (labelled "check rule" (found c r)) (decide (r ∈ c.rules n)) n :=
    (Yields.command rfl).label _
  refine hfound.bind ?_
  unfold ensured
  by_cases h : r ∈ c.rules n
  · rw [decide_eq_true h, if_pos h, c.put_rules]
    exact Yields.pure ()
  · rw [decide_eq_false h, if_neg h]
    exact (Yields.command rfl).label _

theorem keeps_ensureRule {I : NodeNetwork → Prop} {c : Chain V} {r : Rule V}
    (h : ∀ n, I n → I (c.put (r :: c.rules n) n)) : Keeps I (ensureRule c r) := by
  have hfound : Keeps I (found c r) := by
    refine Keeps.command fun n a t hn hact => ?_
    cases hact
    exact hn
  refine (hfound.label _).bind fun present => ?_
  cases present with
  | true => exact Keeps.pure ()
  | false =>
    refine (Keeps.command fun n a t hn hact => ?_).label _
    cases hact
    exact h n hn

end Rules

def toSubnet (subnet : Block) : Rule FilterVerdict := .spec none (some subnet) none .accept

def fromSubnet (subnet : Block) : Rule FilterVerdict := .spec (some subnet) none none .accept

def egress (clusterCIDR : Block) : Rule NatVerdict :=
  .spec (some clusterCIDR) none (some clusterCIDR) .masquerade

def ensureForwarding (subnet : Block) : Program Unit := do
  labelled "forward to subnet" (ensureRule forwardChain (toSubnet subnet))
  labelled "forward from subnet" (ensureRule forwardChain (fromSubnet subnet))

def ensureMasquerade (clusterCIDR : Block) : Program Unit :=
  labelled s!"masquerade for {clusterCIDR.text}" (ensureRule postroutingChain (egress clusterCIDR))

def enableIPForwarding : Program Unit :=
  labelled "enable ip_forward" (command fun n => .ok ((), { n with ipForward := true }))

def setupFirewall (firewall : Bool) (pool : Block) : Program Unit :=
  if firewall then do
    tolerated (ensureForwarding pool)
    tolerated (ensureMasquerade pool)
  else pure ()

/-- The part of `Start` that sets the host up. -/
def setup (firewall : Bool) (pool : Block) : Program Unit := do
  setupFirewall firewall pool
  tolerated enableIPForwarding

theorem tolerated_of_ok {p : Program Unit} {w w' : World String NodeNetwork} (h : p w = .ok () w') :
    tolerated p w = .ok () w' := by
  rw [tolerated, h]

theorem left_tolerated (p : Program Unit) (w : World String NodeNetwork) :
    left (tolerated p w) = left (p w) := by
  unfold tolerated
  cases p w <;> rfl

theorem keeps_tolerated {I : NodeNetwork → Prop} {p : Program Unit} (h : Keeps I p) :
    Keeps I (tolerated p) := by
  intro n faults hn
  rw [left_tolerated]
  exact h n faults hn

theorem ensureForwarding_yields (subnet : Block) (n : NodeNetwork) :
    Yields n (ensureForwarding subnet) ()
      { n with forward := ensured (fromSubnet subnet) (ensured (toSubnet subnet) n.forward) } :=
  Yields.bind ((ensureRule_yields forwardChain (toSubnet subnet) n).label _)
    ((ensureRule_yields forwardChain (fromSubnet subnet) _).label _)

theorem ensureMasquerade_yields (clusterCIDR : Block) (n : NodeNetwork) :
    Yields n (ensureMasquerade clusterCIDR) ()
      { n with postrouting := ensured (egress clusterCIDR) n.postrouting } :=
  (ensureRule_yields postroutingChain (egress clusterCIDR) n).label _

theorem setup_quiet (pool : Block) (n : NodeNetwork) :
    left (setup true pool (n, [])) =
      { n with
        ipForward := true
        forward := ensured (fromSubnet pool) (ensured (toSubnet pool) n.forward)
        postrouting := ensured (egress pool) n.postrouting } := by
  have hfirewall : setupFirewall true pool (n, []) = .ok () (_, []) :=
    (bind_of_ok (tolerated_of_ok (ensureForwarding_yields pool n).quiet)).trans
      (tolerated_of_ok (ensureMasquerade_yields pool _).quiet)
  unfold setup
  rw [bind_of_ok hfirewall]
  rfl

/-- Whatever fails, what the three rules and forwarding itself keep is kept. -/
theorem keeps_setup {I : NodeNetwork → Prop} {pool : Block} (firewall : Bool)
    (hto : ∀ n, I n → I { n with forward := toSubnet pool :: n.forward })
    (hfrom : ∀ n, I n → I { n with forward := fromSubnet pool :: n.forward })
    (hegress : ∀ n, I n → I { n with postrouting := egress pool :: n.postrouting })
    (hip : ∀ n, I n → I { n with ipForward := true }) : Keeps I (setup firewall pool) := by
  have hforwarding : Keeps I (ensureForwarding pool) :=
    ((keeps_ensureRule hto).label _).bind fun _ => (keeps_ensureRule hfrom).label _
  have hfirewall : Keeps I (setupFirewall firewall pool) := by
    cases firewall with
    | false => exact Keeps.pure ()
    | true =>
      exact (keeps_tolerated hforwarding).bind fun _ =>
        keeps_tolerated ((keeps_ensureRule hegress).label _)
  refine hfirewall.bind fun _ => keeps_tolerated ?_
  refine (Keeps.command fun n a t hn hact => ?_).label _
  cases hact
  exact hip n hn

/-! ### Packets -/

section Packets
variable (filter : String → Packet → Option FilterVerdict) (nat : String → Packet → Option NatVerdict)

/-- Where a packet goes that is not for the node itself, and how it leaves. -/
def relay (n : NodeNetwork) (pkt : Packet) : Option (Hop × Packet) :=
  if n.ipForward then
    match n.routes.route pkt.dst with
    | none => none
    | some r =>
      if (outcome filter n.forward pkt).getD n.policy = .accept then
        some (r.hop, if outcome nat n.postrouting pkt = some .masquerade then
          { pkt with src := n.address } else pkt)
      else none
  else none

variable {filter nat} {n : NodeNetwork} {pkt pkt' : Packet} {hop : Hop}

theorem route_of_relay (h : n.relay filter nat pkt = some (hop, pkt')) :
    ∃ r, n.routes.Has r ∧ KernelTable.covers pkt.dst r = true ∧ r.hop = hop := by
  rw [relay] at h
  cases hroute : n.routes.route pkt.dst with
  | none => simp [hroute] at h
  | some r =>
    have hmem := List.argmax_mem hroute
    rw [List.mem_filter, KernelTable.mem_routeList] at hmem
    simp only [hroute, ite_eq_iff, Option.some.injEq, Prod.mk.injEq, reduceCtorEq, and_false,
      or_false] at h
    exact ⟨r, hmem.1, hmem.2, h.2.2.1⟩

end Packets

/-- Bring the routes in line with those that are served. -/
def syncRoutes (n : NodeNetwork) (rm : RouteManager) (routes : List Route) : NodeNetwork :=
  { n with routes := rm.sync parse routes n.routes }

inductive Event where
  | setup (firewall : Bool) (faults : List (Option String))
  | routeReplace (r : KernelRoute Addr)
  | routeDel (r : KernelRoute Addr)
  | filterInsert (position : ℕ) (name : String)
  | filterDelete (name : String)
  | natInsert (position : ℕ) (name : String)
  | natDelete (name : String)

def step (pool : Block) (n : NodeNetwork) : Event → NodeNetwork
  | .setup firewall faults => left (setup firewall pool (n, faults))
  | .routeReplace r => { n with routes := n.routes.routeReplace r }
  | .routeDel r => { n with routes := n.routes.routeDel r }
  | .filterInsert k name => { n with forward := n.forward.insertIdx k (.foreign name) }
  | .filterDelete name => { n with forward := n.forward.erase (.foreign name) }
  | .natInsert k name => { n with postrouting := n.postrouting.insertIdx k (.foreign name) }
  | .natDelete name => { n with postrouting := n.postrouting.erase (.foreign name) }

section Invariants
variable (filter : String → Packet → Option FilterVerdict) (nat : String → Packet → Option NatVerdict)
  (pool : Block)

def Inside (pkt : Packet) : Prop := pool.Contains pkt.src ∧ pool.Contains pkt.dst

def Lets (q : Rule FilterVerdict) : Prop := ∀ pkt, Inside pool pkt → q.verdict filter pkt ≠ some .drop

def Leaves (q : Rule NatVerdict) : Prop :=
  ∀ pkt, Inside pool pkt → q.verdict nat pkt ≠ some .masquerade

/-- Where it covers the pool, the route is no finer than the subnet of a node. -/
def Placed (r : KernelRoute Addr) : Prop :=
  ∀ k x, r.dst = some k → pool.Contains x → k.Contains x → k.ones ≤ 24 ∧ Normal k

/-- No rule before the agent's own drops what goes on inside the pool, none rewrites it, and
    no route leads it astray. -/
structure Sane (n : NodeNetwork) : Prop where
  forward : toSubnet pool ∈ n.forward → Reached (Lets filter pool) (toSubnet pool) n.forward
  postrouting : ∀ q ∈ n.postrouting, Leaves nat pool q
  routes : ∀ r, n.routes.Has r → Placed pool r

def Open (n : NodeNetwork) : Prop := n.ipForward = true ∧ toSubnet pool ∈ n.forward

/-- Other programs put no rule in front of the agent's that drops what goes on inside the pool,
    rewrite none of it and route to no part of a node's subnet. -/
def Harmless (n : NodeNetwork) : Event → Prop
  | .filterInsert k name => toSubnet pool ∈ n.forward →
      Lets filter pool (.foreign name) ∨ n.forward.idxOf (toSubnet pool) < k
  | .natInsert _ name => Leaves nat pool (.foreign name)
  | .routeReplace r => Placed pool r
  | _ => True

variable {filter nat pool} {n : NodeNetwork}

theorem lets_fromSubnet : Lets filter pool (fromSubnet pool) := by
  intro pkt _
  simp only [fromSubnet, Rule.verdict]
  split_ifs <;> simp

theorem leaves_egress : Leaves nat pool (egress pool) := by
  rintro pkt ⟨-, hdst⟩
  simp [egress, Rule.verdict, hdst]

theorem toSubnet_ne_fromSubnet : toSubnet pool ≠ fromSubnet pool := by simp [toSubnet, fromSubnet]

theorem Sane.insert_toSubnet (h : Sane filter nat pool n) :
    Sane filter nat pool { n with forward := toSubnet pool :: n.forward } :=
  { h with forward := fun _ => .inl rfl }

theorem Sane.insert_fromSubnet (h : Sane filter nat pool n) :
    Sane filter nat pool { n with forward := fromSubnet pool :: n.forward } where
  forward hmem := by
    rw [List.mem_cons, or_iff_right toSubnet_ne_fromSubnet] at hmem
    exact (h.forward hmem).cons lets_fromSubnet
  postrouting := h.postrouting
  routes := h.routes

theorem Sane.insert_egress (h : Sane filter nat pool n) :
    Sane filter nat pool { n with postrouting := egress pool :: n.postrouting } :=
  { h with postrouting := List.forall_mem_cons.mpr ⟨leaves_egress, h.postrouting⟩ }

/-- What is served to a node is in the pool's own grain, and the rest was there before. -/
theorem Sane.syncRoutes (h : Sane filter nat pool n) {rm : RouteManager} {routes : List Route}
    (hserved : ∀ k dst, (RouteManager.desired parse routes)[k]? ≠ none →
      parseCIDR k = some dst → dst.ones ≤ 24) :
    Sane filter nat pool (n.syncRoutes rm routes) where
  forward := h.forward
  postrouting := h.postrouting
  routes r hr := by
    rw [NodeNetwork.syncRoutes, KernelTable.Has, RouteManager.lookup_sync, Option.or_eq_some_iff] at hr
    obtain hr | ⟨-, hr⟩ := hr
    · obtain ⟨gw, hgw, hrow⟩ := Option.map_eq_some_iff.mp hr
      intro k x hk _ _
      have hparse : parseCIDR r.key = some k := (congrArg KernelRoute.dst hrow).trans hk
      exact ⟨hserved r.key k (by simp [hgw]) hparse, normal_of_parse hparse⟩
    · exact h.routes r (Option.filter_eq_some_iff.mp hr).1

theorem Sane.step (h : Sane filter nat pool n) {e : Event} (he : Harmless filter nat pool n e) :
    Sane filter nat pool (n.step pool e) := by
  cases e with
  | setup firewall faults =>
    exact keeps_setup firewall (fun _ => insert_toSubnet) (fun _ => insert_fromSubnet)
      (fun _ => insert_egress) (fun _ hn => { hn with }) n faults h
  | routeReplace r =>
    refine { h with routes := fun x hx => ?_ }
    rw [NodeNetwork.step, KernelTable.Has, KernelTable.routeReplace, lookup_insert] at hx
    split_ifs at hx
    · obtain rfl := Option.some.inj hx
      exact he
    · exact h.routes x hx
  | routeDel r =>
    refine { h with routes := fun x hx => ?_ }
    rw [NodeNetwork.step, KernelTable.Has, KernelTable.routeDel, lookup_erase] at hx
    split_ifs at hx
    exact h.routes x hx
  | filterInsert k name =>
    refine { h with forward := fun hmem => ?_ }
    have hmem : toSubnet pool ∈ n.forward :=
      (List.eq_or_mem_of_mem_insertIdx hmem).resolve_left (by simp [toSubnet])
    obtain hlets | hlt := he hmem
    · exact (h.forward hmem).insertIdx hlets k
    · exact (h.forward hmem).insertIdx_of_lt hlt _
  | filterDelete name =>
    refine { h with forward := fun hmem => ?_ }
    exact (h.forward (List.mem_of_mem_erase hmem)).erase (by simp [toSubnet])
  | natInsert k name =>
    refine { h with postrouting := fun q hq => ?_ }
    obtain rfl | hq := List.eq_or_mem_of_mem_insertIdx hq
    · exact he
    · exact h.postrouting q hq
  | natDelete name =>
    exact { h with postrouting := fun q hq => h.postrouting q (List.mem_of_mem_erase hq) }

theorem open_setup (pool : Block) (n : NodeNetwork) : Open pool (n.step pool (.setup true [])) := by
  rw [step, setup_quiet]
  exact ⟨rfl, mem_ensured_of_mem _ (mem_ensured _ _)⟩

theorem Open.step (h : Open pool n) (e : Event) : Open pool (n.step pool e) := by
  cases e with
  | setup firewall faults =>
    exact keeps_setup firewall (fun _ hn => ⟨hn.1, List.mem_cons_of_mem _ hn.2⟩)
      (fun _ hn => ⟨hn.1, List.mem_cons_of_mem _ hn.2⟩) (fun _ hn => hn) (fun _ hn => ⟨rfl, hn.2⟩)
      n faults h
  | filterInsert k name => exact ⟨h.1, List.subset_insertIdx _ _ _ h.2⟩
  | filterDelete name => exact ⟨h.1, (List.mem_erase_of_ne (by simp [toSubnet])).mpr h.2⟩
  | routeReplace | routeDel | natInsert | natDelete => exact h

theorem KernelTable.route_eq {t : KernelTable Addr} (ht : ∀ r, t.Has r → Placed pool r)
    {r : KernelRoute Addr} (hr : t.Has r) {k : Block} (hdst : r.dst = some k) (hones : k.ones = 24)
    {x : Addr} (hpool : pool.Contains x) (hx : k.Contains x) : t.route x = some r := by
  have hnormal := (ht r hr k x hdst hpool hx).2
  have hspecific : KernelTable.specificity r = 24 := by rw [KernelTable.specificity, hdst, ← hones]
  refine argmax_of_forall_lt ?_ fun r' hr' hne => ?_
  · rw [List.mem_filter, KernelTable.mem_routeList, KernelTable.covers, hdst]
    exact ⟨hr, decide_eq_true hx⟩
  · rw [List.mem_filter, KernelTable.mem_routeList, KernelTable.covers] at hr'
    obtain ⟨hhas, hcovers⟩ := hr'
    rw [hspecific, KernelTable.specificity]
    cases hdst' : r'.dst with
    | none => simp
    | some k' =>
      rw [hdst'] at hcovers
      obtain ⟨hle, hnormal'⟩ := ht r' hhas k' x hdst' hpool (of_decide_eq_true hcovers)
      refine lt_of_le_of_ne hle fun hones' => hne ?_
      -- two routes to one block are one row of the table
      have hkk : k' = k := hnormal'.eq_of_contains hnormal (hones'.trans hones.symm)
        (of_decide_eq_true hcovers) hx
      have hkey : r'.key = r.key := by rw [KernelRoute.key, KernelRoute.key, hdst', hdst, hkk]
      rw [KernelTable.Has, hkey] at hhas
      exact Option.some.inj (hhas.symm.trans hr)

/-- A packet inside the pool takes the route to the subnet it is for, and leaves as it came. -/
theorem Sane.relay (h : Sane filter nat pool n) (hopen : Open pool n) {r : KernelRoute Addr}
    (hr : n.routes.Has r) {k : Block} (hdst : r.dst = some k) (hones : k.ones = 24) {pkt : Packet}
    (hin : Inside pool pkt) (hk : k.Contains pkt.dst) :
    n.relay filter nat pkt = some (r.hop, pkt) := by
  have haccept : outcome filter n.forward pkt = some .accept := by
    refine (h.forward hopen.2).outcome_eq (fun q hq => ?_) ?_
    · have := hq pkt hin
      cases hv : q.verdict filter pkt with
      | none => exact .inl rfl
      | some v => cases v with
        | accept => exact .inr rfl
        | drop => exact absurd hv this
    · simp [toSubnet, Rule.verdict, hin.2]
  have hkeep : outcome nat n.postrouting pkt ≠ some .masquerade :=
    outcome_ne fun q hq => h.postrouting q hq pkt hin
  simp only [NodeNetwork.relay, hopen.1, if_true, KernelTable.route_eq h.routes hr hdst hones hin.2 hk,
    haccept, Option.getD_some, if_neg hkeep]

end Invariants
end NodeNetwork
end Smith
