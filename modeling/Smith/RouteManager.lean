import Smith.NodeTables
import Smith.SubnetAllocator

set_option autoImplicit false

/-!
# Cross-node routes

The agent brings the kernel's routing table in line with the routes it is served. The table
is keyed by destination, written in CIDR notation. Reading an address is a parameter: nothing
depends on which texts are addresses, only that the empty one is not.
-/
namespace Smith
open FiniteMaps IPv4 Overwrites Runs Std

/-- A kernel route, without a destination where it is the default route and without a gateway
    where it is on-link. -/
structure KernelRoute (IP : Type) where
  dst : Option Block
  gw : Option IP

def KernelRoute.key {IP : Type} (r : KernelRoute IP) : String :=
  match r.dst with
  | none => "default"
  | some dst => dst.text

@[ext]
structure KernelTable (IP : Type) where
  rows : GoMap (KernelRoute IP)
  keyed : ∀ (k : String) (r : KernelRoute IP), rows[k]? = some r → r.key = k

namespace KernelTable
variable {IP : Type}

def Has (t : KernelTable IP) (r : KernelRoute IP) : Prop := t.rows[r.key]? = some r

def routeReplace (t : KernelTable IP) (r : KernelRoute IP) : KernelTable IP where
  rows := t.rows.insert r.key r
  keyed k x h := by
    rw [lookup_insert] at h
    split_ifs at h with hk
    · rw [← Option.some.inj h]
      exact hk
    · exact t.keyed k x h

def routeDel (t : KernelTable IP) (r : KernelRoute IP) : KernelTable IP where
  rows := t.rows.erase r.key
  keyed k x h := by
    rw [lookup_erase] at h
    split_ifs at h
    exact t.keyed k x h

def routeList (t : KernelTable IP) : List (KernelRoute IP) := t.rows.toList.map Prod.snd

theorem mem_routeList {t : KernelTable IP} {r : KernelRoute IP} : r ∈ t.routeList ↔ t.Has r := by
  simp only [routeList, List.mem_map, Prod.exists, exists_eq_right, Has,
    ExtTreeMap.mem_toList_iff_getElem?_eq_some]
  constructor
  · rintro ⟨k, hk⟩
    rw [t.keyed k r hk]
    exact hk
  · exact fun h => ⟨r.key, h⟩

end KernelTable

structure RouteManager where
  cluster : Block
  ownSubnet : String

namespace RouteManager

def new (clusterCIDR ownSubnet : String) : Except String RouteManager :=
  match parseCIDR clusterCIDR with
  | none => .error s!"parse cluster CIDR {clusterCIDR}: invalid CIDR address: {clusterCIDR}"
  | some cluster =>
    match parseCIDR ownSubnet with
    | none => .error s!"parse own subnet {ownSubnet}: invalid CIDR address: {ownSubnet}"
    | some own => .ok ⟨cluster, own.text⟩

def nodeSubnetBits : ℕ := 24

section Sync
variable {IP : Type} (rm : RouteManager) (parseIP : String → Option IP)

def managed (route : KernelRoute IP) : Bool :=
  match route.dst, route.gw with
  | some dst, some _ =>
    rm.cluster.Contains dst.base ∧ dst.ones = nodeSubnetBits ∧ dst.text ≠ rm.ownSubnet
  | _, _ => false

/-- The destination and gateway of a served route, if both can be read. -/
def entry (r : Route) : Option (String × IP) :=
  match parseCIDR r.subnet with
  | none => none
  | some dst => (parseIP r.via).map fun gw => (dst.text, gw)

def desired (routes : List Route) : GoMap IP := overwrite ∅ (routes.filterMap (entry parseIP))

def install (t : KernelTable IP) (e : String × IP) : KernelTable IP :=
  t.routeReplace ⟨parseCIDR e.1, some e.2⟩

def removeStale (desired : GoMap IP) (t : KernelTable IP) (route : KernelRoute IP) :
    KernelTable IP :=
  if rm.managed route then
    match desired[route.key]? with
    | some _ => t
    | none => t.routeDel route
  else t

def sync (routes : List Route) (t : KernelTable IP) : KernelTable IP :=
  let desired := desired parseIP routes
  let installed := desired.toList.foldl install t
  installed.routeList.foldl (rm.removeStale desired) installed

end Sync

theorem mem_routesTo {id : String} {g : Registry} {subnets : List (String × String)} {r : Route} :
    r ∈ routesTo id g subnets ↔ ∃ e ∈ subnets, e.1 ≠ id ∧ ∃ peer, g.get e.1 = some peer ∧
      peer.hostIP ≠ "" ∧ r = ⟨e.2, peer.hostIP⟩ := by
  unfold routesTo
  rw [List.mem_filterMap]
  refine exists_congr fun e => and_congr_right fun _ => ?_
  by_cases hid : e.1 = id
  · simp [hid]
  · cases hg : g.get e.1 with
    | none => simp [hid]
    | some peer =>
      by_cases hip : peer.hostIP = ""
      · simp [hid, hip]
      · simp only [hid, hip, if_false, Option.some.injEq, ne_eq, not_false_eq_true, true_and,
          exists_eq_left']
        exact eq_comm

section Lookup
variable {IP : Type} {rm : RouteManager} {parseIP : String → Option IP} {routes : List Route}

theorem entry_eq_some {r : Route} {k : String} {gw : IP} : entry parseIP r = some (k, gw) ↔
    ∃ dst, parseCIDR r.subnet = some dst ∧ parseIP r.via = some gw ∧ dst.text = k := by
  unfold entry
  cases parseCIDR r.subnet with
  | none => simp
  | some dst => simp

/-- What is desired at a text is what the text denotes. -/
theorem key_of_desired {k : String} {gw : IP} (h : (desired parseIP routes)[k]? = some gw) :
    (KernelRoute.mk (parseCIDR k) (some gw)).key = k := by
  obtain ⟨r, -, he⟩ := List.mem_filterMap.mp (mem_of_lookup h)
  obtain ⟨dst, hp, -, rfl⟩ := entry_eq_some.mp he
  rw [KernelRoute.key, parseCIDR_text_of_parse hp]

theorem rows_foldl_install (l : List (String × IP)) (t : KernelTable IP) :
    (l.foldl install t).rows = overwrite t.rows (l.map fun e =>
      ((KernelRoute.mk (parseCIDR e.1) (some e.2)).key, ⟨parseCIDR e.1, some e.2⟩)) := by
  induction l generalizing t with
  | nil => rfl
  | cons e l ih => exact ih _

theorem lookup_installed (t : KernelTable IP) (k : String) :
    ((desired parseIP routes).toList.foldl install t).rows[k]? =
      ((desired parseIP routes)[k]?.map fun gw => ⟨parseCIDR k, some gw⟩).or t.rows[k]? := by
  have hkey : ∀ e ∈ (desired parseIP routes).toList,
      ((KernelRoute.mk (parseCIDR e.1) (some e.2)).key, KernelRoute.mk (parseCIDR e.1) (some e.2)) =
        (e.1, ⟨parseCIDR e.1, some e.2⟩) := fun e he =>
    congrArg (·, _) (key_of_desired (ExtTreeMap.mem_toList_iff_getElem?_eq_some.mp he))
  rw [rows_foldl_install, List.map_congr_left hkey, lookup_overwrite,
    lookup_overwrite_toList _ fun k gw => KernelRoute.mk (parseCIDR k) (some gw)]

theorem rows_foldl_removeStale (d : GoMap IP) (l : List (KernelRoute IP)) (t : KernelTable IP) :
    (l.foldl (rm.removeStale d) t).rows =
      ((l.filter fun r => rm.managed r ∧ d[r.key]? = none).map KernelRoute.key).foldl
        (fun rows k => rows.erase k) t.rows := by
  induction l generalizing t with
  | nil => rfl
  | cons r l ih =>
    rw [List.foldl_cons, ih]
    by_cases hstale : rm.managed r = true ∧ d[r.key]? = none
    · have hdel : rm.removeStale d t r = t.routeDel r := by
        simp only [removeStale, hstale.1, if_true, hstale.2]
      rw [hdel, List.filter_cons_of_pos (by simpa using hstale)]
      rfl
    · have hkeep : rm.removeStale d t r = t := by
        unfold removeStale
        split_ifs with hm
        · cases hd : d[r.key]? with
          | none => exact absurd ⟨hm, hd⟩ hstale
          | some gw => rfl
        · rfl
      rw [hkeep, List.filter_cons_of_neg (by simpa using hstale)]

theorem lookup_sync (t : KernelTable IP) (k : String) :
    (rm.sync parseIP routes t).rows[k]? =
      ((desired parseIP routes)[k]?.map fun gw => ⟨parseCIDR k, some gw⟩).or
        (t.rows[k]?.filter fun r => !rm.managed r) := by
  have hinstalled := @lookup_installed IP parseIP routes t k
  unfold sync
  simp only
  rw [rows_foldl_removeStale, lookup_foldl_erase]
  generalize (desired parseIP routes).toList.foldl install t = installed at hinstalled ⊢
  have hstale : k ∈ (installed.routeList.filter fun r =>
      rm.managed r ∧ (desired parseIP routes)[r.key]? = none).map KernelRoute.key ↔
      (desired parseIP routes)[k]? = none ∧ ∃ r, installed.rows[k]? = some r ∧ rm.managed r := by
    simp only [List.mem_map, List.mem_filter, KernelTable.mem_routeList, decide_eq_true_eq]
    constructor
    · rintro ⟨r, ⟨hr, hm, hd⟩, rfl⟩
      exact ⟨hd, r, hr, hm⟩
    · rintro ⟨hd, r, hr, hm⟩
      obtain rfl := installed.keyed k r hr
      exact ⟨r, ⟨hr, hm, hd⟩, rfl⟩
  simp only [hstale, hinstalled]
  cases hd : (desired parseIP routes)[k]? with
  | some gw => simp
  | none =>
    cases hr : t.rows[k]? with
    | none => simp
    | some r => cases hm : rm.managed r <;> simp [hm, Option.filter_some]

theorem sync_sync (t : KernelTable IP) :
    rm.sync parseIP routes (rm.sync parseIP routes t) = rm.sync parseIP routes t := by
  apply KernelTable.ext
  apply ExtTreeMap.ext_getElem?
  intro k
  rw [lookup_sync, lookup_sync]
  cases (desired parseIP routes)[k]? with
  | some gw => rfl
  | none => simp

end Lookup

/-- A gateway'd /24 inside the cluster pool other than this node's own subnet. -/
def PeerRoute {IP : Type} (cluster own : Block) (r : KernelRoute IP) : Prop :=
  ∃ dst gw, r = ⟨some dst, some gw⟩ ∧ dst.ones = 24 ∧ dst.Within cluster ∧ dst ≠ own

theorem managed_iff {IP : Type} {cluster own : Block} (h : cluster.ones = 16)
    (r : KernelRoute IP) :
    (RouteManager.mk cluster own.text).managed r = true ↔ PeerRoute cluster own r := by
  unfold managed
  split
  · rename_i dst gw hdst hgw
    obtain ⟨_, _⟩ := r
    subst hdst hgw
    refine decide_eq_true_iff.trans ?_
    constructor
    · rintro ⟨hin, hones, hne⟩
      exact ⟨dst, gw, rfl, hones, within_of_contains hin (by simp [h, hones, nodeSubnetBits]),
        fun he => hne (congrArg Block.text he)⟩
    · rintro ⟨dst', gw', he, hones, hin, hne⟩
      obtain ⟨rfl, rfl⟩ : dst = dst' ∧ gw = gw' := by simpa using he
      exact ⟨hin dst.base rfl, hones, fun ht => hne (Block.text_injective ht)⟩
  · rename_i hnot
    refine iff_of_false (by simp) ?_
    rintro ⟨dst, gw, rfl, -⟩
    exact hnot dst gw rfl rfl

end RouteManager

/-- Another node with a subnet, registered with an address that can be read: its subnet and
    that address. -/
def SubnetAllocator.Peer {IP : Type} (parseIP : String → Option IP) (a : SubnetAllocator)
    (g : Registry) (id n : String) (dst : Block) (gw : IP) : Prop :=
  n ≠ id ∧ (∃ row, a.rows[n]? = some row ∧ parseCIDR row.subnet = some dst) ∧
    ∃ peer, g.get n = some peer ∧ parseIP peer.hostIP = some gw

namespace SubnetAllocator
variable {IP : Type} {parseIP : String → Option IP} {a : SubnetAllocator} {g : Registry}
  {id : String} {clusterCIDR : String}

theorem Sound.eq_of_block (h : Sound a) {m n : String} {x y : SubnetRow} {dst : Block}
    (hx : a.rows[m]? = some x) (hy : a.rows[n]? = some y) (hdx : parseCIDR x.subnet = some dst)
    (hdy : parseCIDR y.subnet = some dst) : m = n := by
  rw [h.parse_subnet hx] at hdx
  rw [h.parse_subnet hy, ← hdx] at hdy
  exact h.distinct m n x y hx hy (by simpa using hdy.symm)

theorem Peer.parseCIDR_text {n : String} {dst : Block} {gw : IP}
    (h : a.Peer parseIP g id n dst gw) : parseCIDR dst.text = some dst := by
  obtain ⟨-, ⟨row, -, hdst⟩, -⟩ := h
  exact parseCIDR_text_of_parse hdst

theorem Peer.unique (h : Sound a) {m n : String} {dst : Block} {gw gw' : IP}
    (hm : a.Peer parseIP g id m dst gw) (hn : a.Peer parseIP g id n dst gw') :
    m = n ∧ gw = gw' := by
  obtain ⟨-, ⟨x, hx, hdx⟩, p, hp, hgw⟩ := hm
  obtain ⟨-, ⟨y, hy, hdy⟩, q, hq, hgw'⟩ := hn
  obtain rfl := h.eq_of_block hx hy hdx hdy
  obtain rfl := Option.some.inj (hp.symm.trans hq)
  exact ⟨rfl, Option.some.inj (hgw.symm.trans hgw')⟩

/-- The routes that are served and can be read are those of the peers, in whatever order the
    subnets are listed. -/
theorem mem_entries (hempty : parseIP "" = none)
    {subnets : List (String × String)} (hperm : subnets.Perm a.all.toList) (k : String) (gw : IP) :
    (k, gw) ∈ (routesTo id g subnets).filterMap (RouteManager.entry parseIP) ↔
      ∃ n dst, a.Peer parseIP g id n dst gw ∧ dst.text = k := by
  have hmem (n s : String) : (n, s) ∈ subnets ↔ ∃ row, a.rows[n]? = some row ∧ row.subnet = s := by
    rw [hperm.mem_iff, ExtTreeMap.mem_toList_iff_getElem?_eq_some, all, ExtTreeMap.getElem?_map]
    exact Option.map_eq_some_iff
  simp only [List.mem_filterMap, RouteManager.mem_routesTo, RouteManager.entry_eq_some, Prod.exists,
    hmem]
  constructor
  · rintro ⟨r, ⟨n, s, ⟨row, hrow, rfl⟩, hid, peer, hpeer, -, rfl⟩, dst, hdst, hgw, hk⟩
    exact ⟨n, dst, ⟨hid, ⟨row, hrow, hdst⟩, peer, hpeer, hgw⟩, hk⟩
  · rintro ⟨n, dst, ⟨hid, ⟨row, hrow, hdst⟩, peer, hpeer, hgw⟩, hk⟩
    have hip : peer.hostIP ≠ "" := by
      intro he
      rw [he, hempty] at hgw
      exact absurd hgw (by simp)
    exact ⟨⟨row.subnet, peer.hostIP⟩,
      ⟨n, row.subnet, ⟨row, hrow, rfl⟩, hid, peer, hpeer, hip, rfl⟩, dst, hdst, hgw, hk⟩

theorem Sound.desired_iff (h : Sound a) (hempty : parseIP "" = none)
    {subnets : List (String × String)} (hperm : subnets.Perm a.all.toList) (k : String) (gw : IP) :
    (RouteManager.desired parseIP (routesTo id g subnets))[k]? = some gw ↔
      ∃ n dst, a.Peer parseIP g id n dst gw ∧ dst.text = k := by
  rw [← mem_entries hempty hperm, RouteManager.desired, overwrite, lookup_foldl_insert]
  · simp
  · rintro ⟨k, gw⟩ he ⟨k', gw'⟩ hd hk
    obtain rfl : k = k' := hk
    obtain ⟨m, dst, hm, hkm⟩ := (mem_entries hempty hperm k gw).mp he
    obtain ⟨n, dst', hn, hkn⟩ := (mem_entries hempty hperm k gw').mp hd
    obtain rfl := Block.text_injective (hkm.trans hkn.symm)
    exact (Peer.unique h hm hn).2

theorem Opened.peerRoute (h : Opened clusterCIDR a) {own : SubnetRow} {cluster ownBlock : Block}
    (hcluster : parseCIDR clusterCIDR = some cluster) (hown : a.rows[id]? = some own)
    (hblock : parseCIDR own.subnet = some ownBlock) {n : String} {dst : Block} {gw : IP}
    (hpeer : a.Peer parseIP g id n dst gw) :
    RouteManager.PeerRoute cluster ownBlock ⟨some dst, some gw⟩ := by
  obtain ⟨hid, ⟨row, hrow, hdst⟩, -⟩ := hpeer
  obtain ⟨cluster', dst', hc, -, hd, hones, hin⟩ := h.subnet_within hrow
  obtain rfl := Option.some.inj (hcluster.symm.trans hc)
  obtain rfl := Option.some.inj (hdst.symm.trans hd)
  refine ⟨dst, gw, rfl, hones, hin, ?_⟩
  rintro rfl
  exact hid (h.eq_of_block hrow hown hdst hblock)

end SubnetAllocator

/-- A route whose destination is no peer's has a key at which nothing is desired. -/
theorem desired_eq_none {IP : Type} {parseIP : String → Option IP} {a : SubnetAllocator}
    {g : Registry} {id : String} (h : a.Sound) (hempty : parseIP "" = none)
    {subnets : List (String × String)} (hperm : subnets.Perm a.all.toList) {r : KernelRoute IP}
    (hr : ∀ n dst gw, a.Peer parseIP g id n dst gw → r.dst ≠ some dst) :
    (RouteManager.desired parseIP (routesTo id g subnets))[r.key]? = none := by
  rw [Option.eq_none_iff_forall_ne_some]
  intro gw hgw
  obtain ⟨n, dst, hpeer, hkey⟩ := (h.desired_iff hempty hperm _ gw).mp hgw
  unfold KernelRoute.key at hkey
  cases hd : r.dst with
  | none =>
    have hdefault : parseCIDR "default" = none := by decide
    rw [hd] at hkey
    have hparse := hpeer.parseCIDR_text
    rw [hkey, hdefault] at hparse
    exact absurd hparse (by simp)
  | some d =>
    rw [hd] at hkey
    exact hr n dst gw hpeer (hd.trans (congrArg some (Block.text_injective hkey).symm))

/-- After a sync with the routes it is served, a node has exactly one gateway'd route into the
    pool for each peer. Routes to other destinations that are not of this kind stay as they
    are, and another sync changes nothing. -/
theorem routes_reach_peers {IP : Type} {parseIP : String → Option IP} (hempty : parseIP "" = none)
    {clusterCIDR : String} {opened : SubnetAllocator}
    (hopened : SubnetAllocator.new ∅ clusterCIDR = .ok opened) (ops : List SubnetAllocator.Op)
    (g : Registry) {id : String} {own : SubnetRow}
    (hown : (run (SubnetAllocator.step clusterCIDR) opened ops).rows[id]? = some own)
    {subnets : List (String × String)}
    (hperm : subnets.Perm (run (SubnetAllocator.step clusterCIDR) opened ops).all.toList)
    (t : KernelTable IP) :
    let a := run (SubnetAllocator.step clusterCIDR) opened ops
    ∃ cluster ownBlock rm routes, parseCIDR clusterCIDR = some cluster ∧
      parseCIDR own.subnet = some ownBlock ∧ RouteManager.new clusterCIDR own.subnet = .ok rm ∧
      nodeRoutes id (some (.ok subnets)) g = .ok routes ∧
      let t' := rm.sync parseIP routes t
      (∀ r, t'.Has r ∧ RouteManager.PeerRoute cluster ownBlock r ↔
        ∃ n dst gw, a.Peer parseIP g id n dst gw ∧ r = ⟨some dst, some gw⟩) ∧
      (∀ m n dst gw gw', a.Peer parseIP g id m dst gw → a.Peer parseIP g id n dst gw' → m = n) ∧
      (∀ r, ¬ RouteManager.PeerRoute cluster ownBlock r →
        (∀ n dst gw, a.Peer parseIP g id n dst gw → r.dst ≠ some dst) → (t'.Has r ↔ t.Has r)) ∧
      rm.sync parseIP routes t' = t' := by
  intro a
  have ha : SubnetAllocator.Opened clusterCIDR a := (SubnetAllocator.Opened.new hopened).run ops
  have hid : id ≠ "" := ha.named id own hown
  obtain ⟨cluster, ownBlock, hcluster, hsixteen, hblock, -⟩ := ha.subnet_within hown
  have hmanaged (r : KernelRoute IP) := @RouteManager.managed_iff IP cluster ownBlock hsixteen r
  refine ⟨cluster, ownBlock, ⟨cluster, ownBlock.text⟩, routesTo id g subnets, hcluster, hblock,
    by simp only [RouteManager.new, hcluster, hblock], by simp only [nodeRoutes, if_neg hid], ?_⟩
  intro t'
  refine ⟨fun r => ⟨?_, ?_⟩, fun m n dst gw gw' hm hn => (hm.unique ha.toSound hn).1,
    fun r hr hdst => ?_, RouteManager.sync_sync t⟩
  · rintro ⟨hhas, hpeer⟩
    rw [KernelTable.Has, RouteManager.lookup_sync] at hhas
    cases hd : (RouteManager.desired parseIP (routesTo id g subnets))[r.key]? with
    | none =>
      rw [hd, Option.map_none, Option.none_or, Option.filter_eq_some_iff] at hhas
      simp [(hmanaged r).mpr hpeer] at hhas
    | some gw =>
      obtain ⟨n, dst, hn, hkey⟩ := (ha.desired_iff hempty hperm _ gw).mp hd
      rw [hd, ← hkey, hn.parseCIDR_text] at hhas
      exact ⟨n, dst, gw, hn, (Option.some.inj hhas).symm⟩
  · rintro ⟨n, dst, gw, hn, rfl⟩
    have hd := (ha.desired_iff hempty hperm _ gw).mpr ⟨n, dst, hn, rfl⟩
    refine ⟨?_, ha.peerRoute hcluster hown hblock hn⟩
    rw [KernelTable.Has, RouteManager.lookup_sync]
    simp only [KernelRoute.key, hd, hn.parseCIDR_text, Option.map_some, Option.some_or]
  · rw [KernelTable.Has, RouteManager.lookup_sync, desired_eq_none ha.toSound hempty hperm hdst,
      Option.map_none, Option.none_or, Option.filter_eq_some_iff]
    have hunmanaged : (RouteManager.mk cluster ownBlock.text).managed r = false := by
      rwa [← Bool.not_eq_true, hmanaged]
    simp [hunmanaged, KernelTable.Has]

/-- Two nodes with a subnet each, and a stale route to a third. -/
theorem routes_reach_peers_two_nodes :
    let opened : SubnetAllocator := ⟨⟨10, 22, 0, 0⟩, ∅⟩
    let a := run (SubnetAllocator.step "10.22.0.0/16") opened [.allocate "n1", .allocate "n2"]
    let g := (Registry.new.register ⟨"n1", "", "192.168.1.1", 0, 4, 8000⟩ 0).register
      ⟨"n2", "", "192.168.1.2", 0, 4, 8000⟩ 0
    let stale : KernelRoute Addr := ⟨some ⟨⟨10, 22, 9, 0⟩, 24⟩, some ⟨192, 168, 1, 9⟩⟩
    let t := (KernelTable.mk ∅ (by simp)).routeReplace stale
    ∃ rm routes, RouteManager.new "10.22.0.0/16" "10.22.0.0/24" = .ok rm ∧
      nodeRoutes "n1" (some (.ok a.all.toList)) g = .ok routes ∧
      (rm.sync parse routes t).Has ⟨some ⟨⟨10, 22, 1, 0⟩, 24⟩, some ⟨192, 168, 1, 2⟩⟩ := by
  intro opened a g stale t
  have hopened : SubnetAllocator.new ∅ "10.22.0.0/16" = .ok opened := by
    have hparse : parseCIDR "10.22.0.0/16" = some ⟨opened.base, 16⟩ := by decide +kernel
    exact SubnetAllocator.new_of_parse hparse ∅
  have hown : a.rows["n1"]? = some (⟨0, "10.22.0.0/24"⟩ : SubnetRow) := by decide +kernel
  have hrow : a.rows["n2"]? = some (⟨1, "10.22.1.0/24"⟩ : SubnetRow) := by decide +kernel
  have hnode : g.get "n2" = some ⟨"n2", "", "192.168.1.2", 0, 4, 8000⟩ := by decide +kernel
  have hpeer : a.Peer parse g "n1" "n2" ⟨⟨10, 22, 1, 0⟩, 24⟩ ⟨192, 168, 1, 2⟩ :=
    ⟨by decide, ⟨_, hrow, by decide +kernel⟩, _, hnode, by decide +kernel⟩
  have hempty : parse "" = none := by decide
  obtain ⟨cluster, ownBlock, rm, routes, -, -, hrm, hroutes, hexact, -⟩ :=
    routes_reach_peers hempty hopened [.allocate "n1", .allocate "n2"] g hown (.refl _) t
  exact ⟨rm, routes, hrm, hroutes, ((hexact _).mpr ⟨"n2", _, _, hpeer, rfl⟩).1⟩

end Smith
