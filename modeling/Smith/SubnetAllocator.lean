import Smith.IPv4
import Smith.Leases
import Smith.Runs
import Smith.Types

set_option autoImplicit false

/-!
# Per-node subnets

The allocator carves a cluster /16 into per-node /24 blocks. Its table is keyed by node id
with a unique index, and a row also stores the text of its subnet. The database behaves
as a table with these keys.
-/
namespace Smith
open FiniteMaps IPv4 Leases Runs Std

structure NetworkConfig where
  subnet : String
  gateway : String
  deriving DecidableEq, Repr

structure SubnetRow where
  idx : ℕ
  subnet : String
  deriving DecidableEq, Repr

structure SubnetAllocator where
  base : Addr
  rows : GoMap SubnetRow

namespace SubnetAllocator

/-- Open the table for a cluster CIDR. -/
def new (rows : GoMap SubnetRow) (clusterCIDR : String) : Except String SubnetAllocator :=
  match parseCIDR clusterCIDR with
  | none => .error s!"parse cluster CIDR {clusterCIDR}: invalid CIDR address: {clusterCIDR}"
  | some ipnet =>
    if ipnet.ones ≠ 16 then
      .error s!"cluster CIDR must be a /16 (got /{ipnet.ones}); per-node /24 allocation assumes a /16 pool"
    else .ok ⟨ipnet.base, rows⟩

def config (a : SubnetAllocator) (idx : ℕ) : NetworkConfig where
  subnet := s!"{a.base.a.val}.{a.base.b.val}.{idx}.0/24"
  gateway := s!"{a.base.a.val}.{a.base.b.val}.{idx}.1"

/-- An insert respects the primary key and the unique index. -/
def insertRow (rows : GoMap SubnetRow) (nodeID : String) (row : SubnetRow) :
    Except String (GoMap SubnetRow) :=
  if rows[nodeID]? ≠ none then .error "UNIQUE constraint failed: node_subnets.node_id"
  else if row.idx ∈ held SubnetRow.idx rows then
    .error "UNIQUE constraint failed: node_subnets.idx"
  else .ok (rows.insert nodeID row)

def allocate (a : SubnetAllocator) (nodeID : String) :
    SubnetAllocator × Except String NetworkConfig :=
  if nodeID = "" then (a, .error "node ID cannot be empty")
  else
    match a.rows[nodeID]? with
    | some row => (a, .ok (a.config row.idx))
    | none =>
      match lowestFree (List.range 256) (held SubnetRow.idx a.rows) with
      | none => (a, .error "subnet pool exhausted: all 256 /24 blocks in use")
      | some free =>
        let cfg := a.config free
        match insertRow a.rows nodeID ⟨free, cfg.subnet⟩ with
        | .error e => (a, .error s!"persist subnet for {nodeID}: {e}")
        | .ok rows => ({ a with rows := rows }, .ok cfg)

def release (a : SubnetAllocator) (nodeID : String) : SubnetAllocator :=
  { a with rows := a.rows.erase nodeID }

def all (a : SubnetAllocator) : GoMap String := a.rows.map fun _ row => row.subnet

inductive Op where
  | allocate (nodeID : String)
  | release (nodeID : String)
  | reopen
  deriving DecidableEq

def step (clusterCIDR : String) (a : SubnetAllocator) : Op → SubnetAllocator
  | .allocate nodeID => (a.allocate nodeID).1
  | .release nodeID => a.release nodeID
  | .reopen =>
    match new a.rows clusterCIDR with
    | .ok a' => a'
    | .error _ => a

theorem allocate_cases (a : SubnetAllocator) {nodeID : String} (hid : nodeID ≠ "") :
    (∃ row, a.rows[nodeID]? = some row ∧ a.allocate nodeID = (a, .ok (a.config row.idx))) ∨
    (a.rows[nodeID]? = none ∧
      lowestFree (List.range 256) (held SubnetRow.idx a.rows) = none ∧
      a.allocate nodeID = (a, .error "subnet pool exhausted: all 256 /24 blocks in use")) ∨
    ∃ free, a.rows[nodeID]? = none ∧ free < 256 ∧ free ∉ held SubnetRow.idx a.rows ∧
      a.allocate nodeID =
        ({ a with rows := a.rows.insert nodeID ⟨free, (a.config free).subnet⟩ },
          .ok (a.config free)) := by
  unfold allocate
  rw [if_neg hid]
  cases hrow : a.rows[nodeID]? with
  | some row => exact .inl ⟨row, rfl, rfl⟩
  | none =>
    cases hfree : lowestFree (List.range 256) (held SubnetRow.idx a.rows) with
    | none => exact .inr (.inl ⟨rfl, rfl, rfl⟩)
    | some free =>
      obtain ⟨hmem, hnew⟩ := mem_of_lowestFree hfree
      refine .inr (.inr ⟨free, rfl, List.mem_range.mp hmem, hnew, ?_⟩)
      simp [insertRow, hrow, hnew]

theorem allocate_empty (a : SubnetAllocator) :
    a.allocate "" = (a, .error "node ID cannot be empty") := rfl

/-- Every row belongs to a named node and holds an index of its own in the pool and the text of
that subnet. -/
structure Sound (a : SubnetAllocator) : Prop where
  named : ∀ (n : String) (row : SubnetRow), a.rows[n]? = some row → n ≠ ""
  range : ∀ (n : String) (row : SubnetRow), a.rows[n]? = some row → row.idx < 256
  distinct : Distinct SubnetRow.idx a.rows
  subnet : ∀ (n : String) (row : SubnetRow), a.rows[n]? = some row →
    row.subnet = (a.config row.idx).subnet

variable {a : SubnetAllocator} {clusterCIDR : String}

theorem Sound.allocate (h : Sound a) (nodeID : String) : Sound (a.allocate nodeID).1 := by
  by_cases hid : nodeID = ""
  · subst hid
    exact h
  · obtain ⟨row, -, he⟩ | ⟨-, -, he⟩ | ⟨free, -, hlt, hnew, he⟩ := allocate_cases a hid
    · rw [he]
      exact h
    · rw [he]
      exact h
    · rw [he]
      refine ⟨fun n row hrow => ?_, fun n row hrow => ?_, h.distinct.insert hnew,
        fun n row hrow => ?_⟩
      all_goals
        rw [lookup_insert] at hrow
        split_ifs at hrow with hn
      · exact hn ▸ hid
      · exact h.named n row hrow
      · rw [← Option.some.inj hrow]
        exact hlt
      · exact h.range n row hrow
      · rw [← Option.some.inj hrow]
        rfl
      · exact h.subnet n row hrow

theorem Sound.release (h : Sound a) (nodeID : String) : Sound (a.release nodeID) := by
  have hrow : ∀ (n : String) (row : SubnetRow), (a.release nodeID).rows[n]? = some row →
      a.rows[n]? = some row := by
    intro n row hr
    rw [SubnetAllocator.release, lookup_erase] at hr
    split_ifs at hr
    exact hr
  exact ⟨fun n row hr => h.named n row (hrow n row hr), fun n row hr => h.range n row (hrow n row hr),
    h.distinct.erase nodeID, fun n row hr => h.subnet n row (hrow n row hr)⟩

theorem new_eq {rows : GoMap SubnetRow} (h : new rows clusterCIDR = .ok a) :
    a.rows = rows ∧ parseCIDR clusterCIDR = some ⟨a.base, 16⟩ := by
  unfold new at h
  cases hp : parseCIDR clusterCIDR with
  | none =>
    rw [hp] at h
    exact absurd h (by simp)
  | some ipnet =>
    simp only [hp] at h
    split_ifs at h with hones
    rw [← Except.ok.inj h]
    exact ⟨rfl, by rw [← not_not.mp hones]⟩

theorem new_of_parse {base : Addr} (h : parseCIDR clusterCIDR = some ⟨base, 16⟩)
    (rows : GoMap SubnetRow) : new rows clusterCIDR = .ok ⟨base, rows⟩ := by
  simp [new, h]

/-- The stored text of an index is the /24 with that third octet. -/
theorem parseCIDR_config (a : SubnetAllocator) {idx : ℕ} (h : idx < 256) :
    parseCIDR (a.config idx).subnet = some ⟨⟨a.base.a, a.base.b, ⟨idx, h⟩, 0⟩, 24⟩ := by
  have htext : (a.config idx).subnet =
      (Addr.mk a.base.a a.base.b ⟨idx, h⟩ 0).text ++ "/" ++ toString 24 := by
    apply String.toList_inj.mp
    simp only [config, Addr.text, String.toList_append, List.append_assoc]
    rfl
  have hcut : (Addr.mk a.base.a a.base.b ⟨idx, h⟩ 0).toNat / 2 ^ (32 - 24) * 2 ^ (32 - 24) =
      (Addr.mk a.base.a a.base.b ⟨idx, h⟩ 0).toNat := by
    simp only [Addr.toNat, Fin.val_zero]
    omega
  rw [htext, parseCIDR_text _ (by decide), hcut, Addr.ofNat_toNat]

/-- An allocator opened on the cluster CIDR over sound rows. -/
structure Opened (clusterCIDR : String) (a : SubnetAllocator) : Prop extends Sound a where
  parsed : parseCIDR clusterCIDR = some ⟨a.base, 16⟩

theorem step_base (h : Opened clusterCIDR a) (op : Op) : (a.step clusterCIDR op).base = a.base := by
  cases op with
  | allocate nodeID =>
    by_cases hid : nodeID = ""
    · subst hid
      rfl
    · obtain ⟨row, -, he⟩ | ⟨-, -, he⟩ | ⟨free, -, -, -, he⟩ := allocate_cases a hid
      all_goals
        rw [step, he]
  | release nodeID => rfl
  | reopen => rw [step, new_of_parse h.parsed]

theorem Opened.step (h : Opened clusterCIDR a) (op : Op) :
    Opened clusterCIDR (a.step clusterCIDR op) := by
  have hsound : Sound (a.step clusterCIDR op) := by
    cases op with
    | allocate nodeID => exact h.toSound.allocate nodeID
    | release nodeID => exact h.toSound.release nodeID
    | reopen =>
      rw [SubnetAllocator.step, new_of_parse h.parsed]
      exact h.toSound
  exact ⟨hsound, (step_base h op).symm ▸ h.parsed⟩

theorem Opened.run (h : Opened clusterCIDR a) (ops : List Op) :
    Opened clusterCIDR (run (SubnetAllocator.step clusterCIDR) a ops) := by
  induction ops generalizing a with
  | nil => exact h
  | cons op ops ih => exact ih (h.step op)

/-- Only its own release takes a node's row away. -/
theorem step_keeps (h : Opened clusterCIDR a) {n : String} {row : SubnetRow}
    (hrow : a.rows[n]? = some row) {op : Op} (hop : op ≠ .release n) :
    (a.step clusterCIDR op).rows[n]? = some row := by
  cases op with
  | allocate nodeID =>
    by_cases hid : nodeID = ""
    · subst hid
      exact hrow
    · obtain ⟨_, -, he⟩ | ⟨-, -, he⟩ | ⟨free, hnone, -, -, he⟩ := allocate_cases a hid
      · rw [step, he]
        exact hrow
      · rw [step, he]
        exact hrow
      · have hne : nodeID ≠ n := by
          rintro rfl
          exact absurd (hnone.symm.trans hrow) (Option.some_ne_none row).symm
        rw [step, he]
        exact (lookup_insert_ne _ _ hne).trans hrow
  | release nodeID =>
    have hne : nodeID ≠ n := fun he => hop (he ▸ rfl)
    exact (lookup_erase_ne _ hne).trans hrow
  | reopen =>
    rw [step, new_of_parse h.parsed]
    exact hrow

theorem run_keeps (h : Opened clusterCIDR a) {n : String} {row : SubnetRow}
    (hrow : a.rows[n]? = some row) {ops : List Op} (hops : .release n ∉ ops) :
    (run (step clusterCIDR) a ops).rows[n]? = some row ∧
      (run (step clusterCIDR) a ops).base = a.base := by
  induction ops generalizing a with
  | nil => exact ⟨hrow, rfl⟩
  | cons op ops ih =>
    rw [List.mem_cons, not_or] at hops
    obtain ⟨hr, hb⟩ := ih (h.step op) (step_keeps h hrow (Ne.symm hops.1)) hops.2
    exact ⟨hr, hb.trans (step_base h op)⟩

theorem allocate_of_row {n : String} {row : SubnetRow} (hn : n ≠ "") (h : a.rows[n]? = some row) :
    a.allocate n = (a, .ok (a.config row.idx)) := by
  simp [allocate, hn, h]

theorem row_of_allocate {n : String} {cfg : NetworkConfig} (h : (a.allocate n).2 = .ok cfg) :
    n ≠ "" ∧ ∃ row, (a.allocate n).1.rows[n]? = some row ∧ cfg = a.config row.idx ∧
      (a.allocate n).1.base = a.base := by
  by_cases hid : n = ""
  · subst hid
    exact absurd h (by simp [allocate_empty])
  · refine ⟨hid, ?_⟩
    obtain ⟨row, hrow, he⟩ | ⟨-, -, he⟩ | ⟨free, -, -, -, he⟩ := allocate_cases a hid
    · rw [he] at h ⊢
      exact ⟨row, hrow, (Except.ok.inj h).symm, rfl⟩
    · rw [he] at h
      exact absurd h (by simp)
    · rw [he] at h ⊢
      exact ⟨_, lookup_insert_self _ _ _, (Except.ok.inj h).symm, rfl⟩

theorem allocate_frame (a : SubnetAllocator) {m n : String} (hne : m ≠ n) :
    (a.allocate n).1.rows[m]? = a.rows[m]? := by
  by_cases hid : n = ""
  · subst hid
    rfl
  · obtain ⟨row, -, he⟩ | ⟨-, -, he⟩ | ⟨free, -, -, -, he⟩ := allocate_cases a hid
    · rw [he]
    · rw [he]
    · rw [he]
      exact lookup_insert_ne _ _ (Ne.symm hne)

/-- `Allocate` fails for a node without a row exactly when all indexes are taken. -/
theorem Sound.allocate_fails_iff (h : Sound a) {n : String} (hn : n ≠ "") :
    (∃ e, (a.allocate n).2 = .error e) ↔ a.rows[n]? = none ∧ a.rows.size = 256 := by
  have hpool := lowestFree_eq_none_iff (List.nodup_range (n := 256)) h.distinct.nodup_held (by
    intro i hi
    obtain ⟨k, row, hrow, rfl⟩ := mem_held.mp hi
    exact List.mem_range.mpr (h.range k row hrow))
  rw [length_held, List.length_range] at hpool
  obtain ⟨row, hrow, he⟩ | ⟨hrow, hfull, he⟩ | ⟨free, hrow, hlt, hfree, he⟩ := allocate_cases a hn
  · simp [he, hrow]
  · simp [he, hrow, hpool.mp hfull]
  · have hsize : a.rows.size ≠ 256 := fun hs =>
      hfree (lowestFree_eq_none.mp (hpool.mpr hs) free (List.mem_range.mpr hlt))
    simp [he, hsize]

theorem Opened.new (h : new ∅ clusterCIDR = .ok a) : Opened clusterCIDR a := by
  obtain ⟨hrows, hp⟩ := new_eq h
  have hnone : ∀ (n : String) (row : SubnetRow), a.rows[n]? ≠ some row := by
    intro n row
    simp [hrows]
  exact ⟨⟨fun n row hr => absurd hr (hnone n row), fun n row hr => absurd hr (hnone n row),
    hrows ▸ distinct_empty, fun n row hr => absurd hr (hnone n row)⟩, hp⟩

/-- The block a row stands for. -/
theorem Sound.parse_subnet (h : Sound a) {n : String} {row : SubnetRow}
    (hrow : a.rows[n]? = some row) :
    parseCIDR row.subnet = some ⟨⟨a.base.a, a.base.b, ⟨row.idx, h.range n row hrow⟩, 0⟩, 24⟩ := by
  rw [h.subnet n row hrow]
  exact parseCIDR_config a (h.range n row hrow)

theorem Opened.subnet_within (h : Opened clusterCIDR a) {n : String} {row : SubnetRow}
    (hrow : a.rows[n]? = some row) :
    ∃ cluster block, parseCIDR clusterCIDR = some cluster ∧ cluster.ones = 16 ∧
      parseCIDR row.subnet = some block ∧ block.ones = 24 ∧ block.Within cluster := by
  refine ⟨_, _, h.parsed, rfl, h.parse_subnet hrow, rfl, ?_⟩
  rw [parseCIDR_sixteen h.parsed]
  exact within_sixteen _ _ _

theorem Sound.subnet_disjoint (h : Sound a) {m n : String} {x y : SubnetRow}
    (hx : a.rows[m]? = some x) (hy : a.rows[n]? = some y) (hne : m ≠ n) :
    ∃ k l, parseCIDR x.subnet = some k ∧ parseCIDR y.subnet = some l ∧ k.Disjoint l := by
  refine ⟨_, _, h.parse_subnet hx, h.parse_subnet hy, disjoint_twentyFour ?_⟩
  exact fun he => hne (h.distinct m n x y hx hy (Fin.val_eq_of_eq he))

theorem allocate_error {n e : String} (h : (a.allocate n).2 = .error e) :
    (a.allocate n).1 = a := by
  by_cases hid : n = ""
  · subst hid
    rfl
  · obtain ⟨row, -, he⟩ | ⟨-, -, he⟩ | ⟨free, -, -, -, he⟩ := allocate_cases a hid
    · rw [he]
    · rw [he]
    · rw [he] at h
      exact absurd h (by simp)

theorem Sound.all_iff (h : Sound a) (n s : String) :
    a.all[n]? = some s ↔
      a.rows[n]? ≠ none ∧ ∃ cfg, (a.allocate n).2 = .ok cfg ∧ cfg.subnet = s := by
  have hall : a.all[n]? = (a.rows[n]?).map SubnetRow.subnet := by
    simp [all]
  rw [hall]
  cases hrow : a.rows[n]? with
  | none => simp
  | some row => simp [allocate_of_row (h.named n row hrow) hrow, h.subnet n row hrow]

/-- What holds of the allocator after any calls on a table that started empty. -/
theorem subnets_over_runs {clusterCIDR : String} {a₀ : SubnetAllocator}
    (h : new ∅ clusterCIDR = .ok a₀) (ops : List Op) :
    let a := run (step clusterCIDR) a₀ ops
    -- held indexes are in the pool and distinct
    (∀ (n : String) (row : SubnetRow), a.rows[n]? = some row → row.idx < 256) ∧
    (∀ (m n : String) (x y : SubnetRow), a.rows[m]? = some x → a.rows[n]? = some y →
      x.idx = y.idx → m = n) ∧
    -- the subnets lie in the cluster block and are disjoint
    (∀ (n : String) (row : SubnetRow), a.rows[n]? = some row → ∃ cluster block,
      parseCIDR clusterCIDR = some cluster ∧ cluster.ones = 16 ∧
      parseCIDR row.subnet = some block ∧ block.ones = 24 ∧ block.Within cluster) ∧
    (∀ (m n : String) (x y : SubnetRow), a.rows[m]? = some x → a.rows[n]? = some y → m ≠ n →
      ∃ k l, parseCIDR x.subnet = some k ∧ parseCIDR y.subnet = some l ∧ k.Disjoint l) ∧
    -- a node holds what `Allocate` answers, and only its own row is written
    (∀ n cfg, (a.allocate n).2 = .ok cfg → (∃ row, (a.allocate n).1.rows[n]? = some row ∧
        cfg = a.config row.idx ∧ cfg.subnet = row.subnet) ∧
      ∀ m, m ≠ n → (a.allocate n).1.rows[m]? = a.rows[m]?) ∧
    (∀ n, (a.release n).rows[n]? = none ∧ ∀ m, m ≠ n → (a.release n).rows[m]? = a.rows[m]?) ∧
    -- a node keeps its config until its own release
    (∀ n cfg, (a.allocate n).2 = .ok cfg → ∀ later, .release n ∉ later →
      ((run (step clusterCIDR) (a.allocate n).1 later).allocate n).2 = .ok cfg) ∧
    -- exhaustion, and what a failure changes
    (∀ n, n ≠ "" →
      ((∃ e, (a.allocate n).2 = .error e) ↔ a.rows[n]? = none ∧ a.rows.size = 256)) ∧
    (∀ n e, (a.allocate n).2 = .error e → (a.allocate n).1 = a) ∧
    ∀ n s, a.all[n]? = some s ↔
      a.rows[n]? ≠ none ∧ ∃ cfg, (a.allocate n).2 = .ok cfg ∧ cfg.subnet = s := by
  intro a
  have ho : Opened clusterCIDR a := (Opened.new h).run ops
  refine ⟨ho.range, ho.distinct, fun n row => ho.subnet_within, fun m n x y => ho.subnet_disjoint,
    fun n cfg hcfg => ?_, fun n => ⟨lookup_erase_self _ _, fun m hm => lookup_erase_ne _ (Ne.symm hm)⟩,
    fun n cfg hcfg later hlater => ?_, fun n => ho.allocate_fails_iff, fun n e => allocate_error,
    ho.all_iff⟩
  · obtain ⟨-, row, hrow, rfl, hbase⟩ := row_of_allocate hcfg
    have hsubnet := (ho.toSound.allocate n).subnet n row hrow
    refine ⟨⟨row, hrow, rfl, ?_⟩, fun m hm => allocate_frame a hm⟩
    rw [hsubnet]
    simp only [config, hbase]
  · obtain ⟨hn, row, hrow, rfl, hbase⟩ := row_of_allocate hcfg
    have ho' : Opened clusterCIDR (a.allocate n).1 := ho.step (.allocate n)
    obtain ⟨hkept, hbase'⟩ := run_keeps ho' hrow hlater
    rw [allocate_of_row hn hkept]
    simp only [config, hbase', hbase]

/-- Two nodes, one released, its index reused by a third while the second keeps its own. -/
theorem subnets_over_runs_reused_index :
    ∃ a₀, new ∅ "10.22.0.0/16" = .ok a₀ ∧
      let a := run (step "10.22.0.0/16") a₀
        [.allocate "n1", .allocate "n2", .reopen, .release "n1"]
      (a.allocate "n3").2 = .ok ⟨"10.22.0.0/24", "10.22.0.1"⟩ ∧
      (∃ row, (a.allocate "n3").1.rows["n3"]? = some row ∧ "10.22.0.0/24" = row.subnet) ∧
      (a.allocate "n3").1.rows["n2"]? = some ⟨1, "10.22.1.0/24"⟩ ∧
      ∀ later, .release "n3" ∉ later →
        ((run (step "10.22.0.0/16") (a.allocate "n3").1 later).allocate "n3").2 =
          .ok ⟨"10.22.0.0/24", "10.22.0.1"⟩ := by
  have hnew : new ∅ "10.22.0.0/16" = .ok ⟨⟨10, 22, 0, 0⟩, ∅⟩ :=
    new_of_parse (by decide +kernel) ∅
  refine ⟨_, hnew, ?_⟩
  obtain ⟨-, -, -, -, hholds, -, hkeeps, -⟩ := subnets_over_runs hnew
    [.allocate "n1", .allocate "n2", .reopen, .release "n1"]
  intro a
  have hn3 : (a.allocate "n3").2 = .ok ⟨"10.22.0.0/24", "10.22.0.1"⟩ := by decide +kernel
  have hn2 : a.rows["n2"]? = some ⟨1, "10.22.1.0/24"⟩ := by decide +kernel
  obtain ⟨⟨row, hrow, -, hsubnet⟩, hframe⟩ := hholds "n3" _ hn3
  exact ⟨hn3, ⟨row, hrow, hsubnet⟩, (hframe "n2" (by decide)).trans hn2, hkeeps "n3" _ hn3⟩

end SubnetAllocator
end Smith
