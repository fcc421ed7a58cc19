import Smith.RebalanceOrder

set_option autoImplicit false

/-!
# The node that `place` chooses

The comparator of `place` is the lexicographic order on sibling count, free share and
node id. Candidates of distinct nodes never compare equal, so every arrangement that
`sort.Slice` may leave starts with the same one, whatever the order of the nodes.
-/
namespace Smith
open FiniteMaps

section Place
variable (round : ℚ → ℚ) (allocCPU allocMem siblings : GoMap ℤ) (req : Resources)

def Fits (n : Node) : Prop :=
  (allocCPU.getD n.id 0, allocMem.getD n.id 0) + req.pair ≤ schedulable n

/-- What nodes are compared by: sibling count, free share after placement, node id. -/
def rank (n : Node) : ℤ ×ₗ ℚ ×ₗ String :=
  toLex (siblings.getD n.id 0, toLex
    (round (freeFraction round (schedulable n).1 (allocCPU.getD n.id 0) req.cpuMillicores +
      freeFraction round (schedulable n).2 (allocMem.getD n.id 0) req.memoryMB), n.id))

/-- An order that a sort by `less` may leave a slice in. -/
def Arranged (l sorted : List Candidate) : Prop :=
  sorted.Perm l ∧ sorted.Pairwise fun a b => b.less a = false

variable {round allocCPU allocMem siblings req}

theorem fits_iff {n : Node} : Fits allocCPU allocMem req n ↔
    ¬ (allocCPU.getD n.id 0 + req.cpuMillicores > (schedulable n).1 ∨
      allocMem.getD n.id 0 + req.memoryMB > (schedulable n).2) := by
  rw [not_or, not_lt, not_lt]
  rfl

theorem candidate_eq_some_iff {n : Node} {c : Candidate} :
    candidate round allocCPU allocMem siblings req n = some c ↔
      Fits allocCPU allocMem req n ∧ c.key = rank round allocCPU allocMem siblings req n := by
  unfold candidate
  dsimp only
  rw [fits_iff]
  split_ifs with h
  · simp [h]
  · rw [Option.some.injEq]
    refine ⟨fun hc => ⟨h, hc ▸ rfl⟩, fun hc => Candidate.key_injective (hc.2 ▸ rfl)⟩

theorem key_eq_rank {nodes : List Node} {c : Candidate}
    (h : c ∈ nodes.filterMap (candidate round allocCPU allocMem siblings req)) :
    ∃ n ∈ nodes, Fits allocCPU allocMem req n ∧ n.id = c.id ∧
      c.key = rank round allocCPU allocMem siblings req n := by
  obtain ⟨n, hn, hc⟩ := List.mem_filterMap.mp h
  obtain ⟨hfit, hkey⟩ := candidate_eq_some_iff.mp hc
  exact ⟨n, hn, hfit, (candidate_spec hc).1.symm, hkey⟩

theorem exists_candidate (round : ℚ → ℚ) (siblings : GoMap ℤ) {nodes : List Node} {n : Node}
    (hn : n ∈ nodes) (hfit : Fits allocCPU allocMem req n) :
    ∃ c ∈ nodes.filterMap (candidate round allocCPU allocMem siblings req),
      c.key = rank round allocCPU allocMem siblings req n := by
  refine ⟨⟨n.id, siblings.getD n.id 0, _⟩, List.mem_filterMap.mpr ⟨n, hn, ?_⟩, rfl⟩
  exact candidate_eq_some_iff.mpr ⟨hfit, rfl⟩

theorem placeWith_least {nodes : List Node}
    (h : placeWith round nodes allocCPU allocMem siblings req ≠ "") :
    ∃ n ∈ nodes, n.id = placeWith round nodes allocCPU allocMem siblings req ∧
      Fits allocCPU allocMem req n ∧ ∀ m ∈ nodes, Fits allocCPU allocMem req m →
        rank round allocCPU allocMem siblings req n ≤
          rank round allocCPU allocMem siblings req m := by
  have hsorted := pairwise_sortSlice Candidate.less_iff
    (nodes.filterMap (candidate round allocCPU allocMem siblings req))
  have hperm := perm_sortSlice Candidate.less
    (nodes.filterMap (candidate round allocCPU allocMem siblings req))
  unfold placeWith at *
  split at h
  · exact absurd rfl h
  · rename_i c l hl
    rw [hl] at hsorted hperm
    obtain ⟨n, hn, hfit, hid, hkey⟩ := key_eq_rank (hperm.mem_iff.mp List.mem_cons_self)
    refine ⟨n, hn, hid, hfit, fun m hm hmfit => ?_⟩
    obtain ⟨d, hd, hdkey⟩ := exists_candidate round siblings hm hmfit
    rw [← hkey, ← hdkey]
    rcases List.mem_cons.mp (hperm.mem_iff.mpr hd) with rfl | hdl
    · exact le_refl _
    · exact (List.pairwise_cons.mp hsorted).1 d hdl

theorem placeWith_eq_empty_iff {nodes : List Node} (hids : ∀ n ∈ nodes, n.id ≠ "") :
    placeWith round nodes allocCPU allocMem siblings req = "" ↔
      ∀ n ∈ nodes, ¬ Fits allocCPU allocMem req n := by
  constructor
  · intro h n hn hfit
    obtain ⟨c, hc, -⟩ := exists_candidate round siblings hn hfit
    rw [← mem_sortSlice Candidate.less] at hc
    unfold placeWith at h
    split at h
    · rename_i hl
      rw [hl] at hc
      exact List.not_mem_nil hc
    · rename_i d l hl
      have hd : d ∈ sortSlice Candidate.less
          (nodes.filterMap (candidate round allocCPU allocMem siblings req)) :=
        hl ▸ List.mem_cons_self
      obtain ⟨m, hm, -, hid, -⟩ := key_eq_rank ((mem_sortSlice _ _ d).mp hd)
      exact hids m hm (hid.trans h)
  · intro h
    by_contra hne
    obtain ⟨n, hn, -, hfit, -⟩ := placeWith_least hne
    exact h n hn hfit

/-- Every arrangement of the candidates, listed in any order, is the same. -/
theorem arranged_eq {nodes nodes' : List Node} (hp : nodes'.Perm nodes) {sorted : List Candidate}
    (h : Arranged (nodes'.filterMap (candidate round allocCPU allocMem siblings req)) sorted) :
    sorted = sortSlice Candidate.less
      (nodes.filterMap (candidate round allocCPU allocMem siblings req)) := by
  have hle : sorted.Pairwise fun a b => a.key ≤ b.key := by
    refine h.2.imp fun {a b} hab => ?_
    rw [Bool.eq_false_iff, Ne, Candidate.less_iff] at hab
    exact not_lt.mp hab
  refine List.Perm.eq_of_pairwise ?_ hle (pairwise_sortSlice Candidate.less_iff _)
    (h.1.trans ((hp.filterMap _).trans (perm_sortSlice _ _).symm))
  intro a b _ _ hab hba
  exact Candidate.key_injective (hab.antisymm hba)

theorem arranged_head {nodes nodes' : List Node} (hp : nodes'.Perm nodes) {sorted : List Candidate}
    (h : Arranged (nodes'.filterMap (candidate round allocCPU allocMem siblings req)) sorted) :
    (sorted.head?.map Candidate.id).getD "" =
      placeWith round nodes allocCPU allocMem siblings req := by
  rw [arranged_eq hp h, placeWith]
  cases sortSlice Candidate.less
    (nodes.filterMap (candidate round allocCPU allocMem siblings req)) <;> rfl

theorem rank_lt_of_le {nodes : List Node} (hnodup : (nodes.map Node.id).Nodup) {n m : Node}
    (hn : n ∈ nodes) (hm : m ∈ nodes) (hne : m ≠ n)
    (hle : rank round allocCPU allocMem siblings req n ≤
      rank round allocCPU allocMem siblings req m) :
    rank round allocCPU allocMem siblings req n < rank round allocCPU allocMem siblings req m := by
  refine lt_of_le_of_ne hle fun he => hne ?_
  have hid : n.id = m.id := (Prod.mk.inj (Prod.mk.inj he).2).2
  exact (List.inj_on_of_nodup_map hnodup hn hm hid).symm

theorem siblings_le_of_rank {n m : Node}
    (h : rank round allocCPU allocMem siblings req n ≤
      rank round allocCPU allocMem siblings req m) :
    siblings.getD n.id 0 ≤ siblings.getD m.id 0 := by
  rw [rank, rank, Prod.Lex.toLex_le_toLex] at h
  exact h.elim le_of_lt fun h => h.1.le

/-- `place`, with the fractions it compares read as exact rationals. -/
theorem place_lexicographic_least (nodes : List Node) (allocCPU allocMem siblings : GoMap ℤ)
    (req : Resources) (hids : ∀ n ∈ nodes, n.id ≠ "") (hnodup : (nodes.map Node.id).Nodup) :
    let best := placeWith id nodes allocCPU allocMem siblings req
    (best = "" ↔ ∀ n ∈ nodes, ¬ Fits allocCPU allocMem req n) ∧
    (best ≠ "" → ∃ n ∈ nodes, n.id = best ∧ Fits allocCPU allocMem req n ∧
      ∀ m ∈ nodes, Fits allocCPU allocMem req m → m ≠ n →
        rank id allocCPU allocMem siblings req n < rank id allocCPU allocMem siblings req m) ∧
    -- in any order of the nodes and for any sort
    ∀ nodes', nodes'.Perm nodes → placeWith id nodes' allocCPU allocMem siblings req = best ∧
      ∀ sorted, Arranged (nodes'.filterMap (candidate id allocCPU allocMem siblings req)) sorted →
        (sorted.head?.map Candidate.id).getD "" = best := by
  intro best
  refine ⟨placeWith_eq_empty_iff hids, fun hne => ?_, fun nodes' hp => ⟨?_, fun sorted hs => ?_⟩⟩
  · obtain ⟨n, hn, hid, hfit, hleast⟩ := placeWith_least hne
    exact ⟨n, hn, hid, hfit, fun m hm hmfit hmn =>
      rank_lt_of_le hnodup hn hm hmn (hleast m hm hmfit)⟩
  · have hs : Arranged (nodes'.filterMap (candidate id allocCPU allocMem siblings req))
        (sortSlice Candidate.less
          (nodes'.filterMap (candidate id allocCPU allocMem siblings req))) := by
      refine ⟨perm_sortSlice _ _, (pairwise_sortSlice Candidate.less_iff _).imp fun {a b} hab => ?_⟩
      rw [Bool.eq_false_iff, Ne, Candidate.less_iff]
      exact not_lt.mpr hab
    rw [← arranged_head (.refl _) hs, arranged_head hp hs]
  · exact arranged_head hp hs

end Place

private def tied : List Node :=
  ["n2", "n3", "n1"].map fun id => { id := id, cpu := 4, memoryMB := 4000 }

/-- Three equal nodes with room, in two orders. -/
theorem place_lexicographic_least_tied :
    placeWith id tied ∅ ∅ ∅ ⟨0, 500⟩ ≠ "" ∧
      placeWith id tied.reverse ∅ ∅ ∅ ⟨0, 500⟩ = placeWith id tied ∅ ∅ ∅ ⟨0, 500⟩ := by
  obtain ⟨hempty, -, hperm⟩ := place_lexicographic_least tied ∅ ∅ ∅ ⟨0, 500⟩ (by decide) (by decide)
  refine ⟨fun h => hempty.mp h { id := "n1", cpu := 4, memoryMB := 4000 } (by decide) ?_,
    (hperm _ (List.reverse_perm _)).1⟩
  unfold Fits
  decide +kernel

end Smith
