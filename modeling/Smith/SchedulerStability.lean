import Smith.SchedulerCapacity

set_option autoImplicit false

/-!
# Placement is sticky while requests stay

A replica on a registered node within capacity fits there again with its recorded
request, whatever the sign of the requests. Assigning every replica with the request
it already has therefore moves nothing and only places replicas that have no node.
-/
namespace Smith
open FiniteMaps Std

namespace Scheduler

/-- Every assigned replica is on a registered node within capacity, with the
    request it will be assigned with. -/
structure Steady (g : Registry) (req : String → Resources) (s : Scheduler) : Prop where
  within : ∀ r n : String, s.assignments[r]? = some n →
    ∃ node, g.get n = some node ∧ s.committed n ≤ schedulable node
  request : ∀ r n : String, s.assignments[r]? = some n → s.request r = req r

variable {g : Registry} {req : String → Resources} {s : Scheduler}

theorem Steady.settled (h : Steady g req s) :
    s.packing.Settled (fun n => g.get n ≠ none) (capacityOf g) Set.univ := by
  intro r _ n x hs
  obtain ⟨node, hg, hle⟩ := h.within r n ((packing_slot_eq s r n x).mp hs).1
  refine ⟨hg.trans_ne (Option.some_ne_none node), ?_⟩
  rw [← committed_eq_load, capacityOf, hg]
  exact hle

theorem within_of_settled (ok : String → Prop) (cap : String → ℤ × ℤ)
    (h : s.packing.Settled ok cap Set.univ)
    (hok : ∀ n, ok n → ∃ node, g.get n = some node ∧ cap n = schedulable node) (r n : String)
    (hr : s.assignments[r]? = some n) :
    ∃ node, g.get n = some node ∧ s.committed n ≤ schedulable node := by
  obtain ⟨hn, hle⟩ := h r (Set.mem_univ r) n _ ((packing_slot_eq s r n _).mpr ⟨hr, rfl⟩)
  obtain ⟨node, hg, hcap⟩ := hok n hn
  rw [← committed_eq_load, hcap] at hle
  exact ⟨node, hg, hle⟩

theorem capacityOf_registered {n : String} (h : g.get n ≠ none) :
    ∃ node, g.get n = some node ∧ capacityOf g n = schedulable node := by
  obtain ⟨node, hg⟩ := Option.ne_none_iff_exists'.mp h
  exact ⟨node, hg, by rw [capacityOf, hg]⟩

theorem Steady.fits (h : Steady g req s) {r n : String} (hr : s.assignments[r]? = some n) :
    s.fitsOnNode g n r (req r) = true := by
  obtain ⟨node, hg, hle⟩ := h.within r n hr
  refine (fitsOnNode_iff g s n r (req r)).mpr ⟨node, hg, ?_⟩
  have hslot : s.packing.slot r = some (n, (s.request r).pair) :=
    (packing_slot_eq s r n _).mpr ⟨hr, rfl⟩
  rw [committed_eq_load, Packing.load_drop _ r, Packing.share_of_slot hslot, if_pos rfl,
    h.request r n hr] at hle
  exact hle

theorem Steady.assign_assigned (h : Steady g req s) {r n : String}
    (hr : s.assignments[r]? = some n) (now : ℤ) (p : String) :
    s.assign g now r p (req r) =
      ({ s with requests := s.requests.insert r (req r) }, .ok ⟨r, n, s.parent r⟩) :=
  assign_sticky hr (h.fits hr) now p

theorem Steady.assign (h : Steady g req s) (now : ℤ) (r p : String) :
    Steady g req (s.assign g now r p (req r)).1 ∧
      ∀ q n : String, s.assignments[q]? = some n →
        (s.assign g now r p (req r)).1.assignments[q]? = some n := by
  cases hr : s.assignments[r]? with
  | some n =>
    -- the request is stored again with the value it had
    have hreq : ∀ q, ({ s with requests := s.requests.insert r (req r) } : Scheduler).request q =
        s.request q := by
      intro q
      rw [Scheduler.request, getD_insert]
      split_ifs with hq
      · rw [← hq, h.request r n hr]
      · rfl
    have hpack : ({ s with requests := s.requests.insert r (req r) } : Scheduler).packing =
        s.packing := by
      apply Packing.ext_slot
      intro q
      rw [packing_slot, packing_slot, hreq]
    rw [h.assign_assigned hr]
    refine ⟨⟨?_, ?_⟩, fun q n hq => hq⟩
    · intro q m hq
      rw [committed_eq_load, hpack, ← committed_eq_load]
      exact h.within q m hq
    · intro q m hq
      rw [hreq]
      exact h.request q m hq
  | none =>
    have he : s.assign g now r p (req r) = s.assignFresh g now r p (req r) := by
      simp only [Scheduler.assign, hr]
    rw [he]
    obtain ⟨n, node, hg, hfit, hs⟩ | ⟨e, hs⟩ := assignFresh_spec g now s r p (req r)
    · rw [hs]
      have hslot : s.packing.slot r = none := by rw [packing_slot, hr]; rfl
      have hset := h.settled.put_new hslot (hg ▸ Option.some_ne_none node)
        (x := (req r).pair) (by simpa [capacityOf, hg] using hfit)
      rw [← packing_insert s r n (req r) (s.parents.insert r p)] at hset
      refine ⟨⟨within_of_settled _ _ hset fun _ => capacityOf_registered, ?_⟩, ?_⟩
      · intro q m hq
        by_cases hqr : r = q
        · subst hqr
          simp [Scheduler.request, getD_eq]
        · rw [lookup_insert_ne _ _ hqr] at hq
          rw [← h.request q m hq, Scheduler.request, Scheduler.request, getD_eq, getD_eq,
            lookup_insert_ne _ _ hqr]
      · intro q m hq
        have hqr : r ≠ q := by
          rintro rfl
          exact absurd (hr.symm.trans hq) (Option.some_ne_none m).symm
        rw [lookup_insert_ne _ _ hqr]
        exact hq
    · rw [hs]
      exact ⟨h, fun q n hq => hq⟩

theorem Steady.assignAll (h : Steady g req s) {calls : List AssignCall}
    (hc : ∀ c ∈ calls, c.req = req c.replicaID) :
    Steady g req (s.assignAll g calls) ∧ ∀ q n : String, s.assignments[q]? = some n →
      (s.assignAll g calls).assignments[q]? = some n := by
  induction calls generalizing s with
  | nil => exact ⟨h, fun q n hq => hq⟩
  | cons c calls ih =>
    obtain ⟨hs, hkeep⟩ := h.assign c.now c.replicaID c.parentID
    rw [← hc c List.mem_cons_self] at hs hkeep
    obtain ⟨hs', hkeep'⟩ := ih hs fun d hd => hc d (List.mem_cons_of_mem c hd)
    exact ⟨hs', fun q n hq => hkeep' q n (hkeep q n hq)⟩

theorem Steady.assignAll_eq (h : Steady g req s) {calls : List AssignCall}
    (hc : ∀ c ∈ calls, c.req = req c.replicaID ∧ s.requests[c.replicaID]? = some c.req ∧
      s.assignments[c.replicaID]? ≠ none) : s.assignAll g calls = s := by
  induction calls with
  | nil => rfl
  | cons c calls ih =>
    obtain ⟨hreq, hrec, hassigned⟩ := hc c List.mem_cons_self
    obtain ⟨n, hn⟩ := Option.ne_none_iff_exists'.mp hassigned
    have hsame : (s.assign g c.now c.replicaID c.parentID c.req).1 = s := by
      rw [hreq, h.assign_assigned hn, ← hreq, insert_of_lookup _ hrec]
    rw [Scheduler.assignAll, List.foldl_cons, hsame]
    exact ih fun d hd => hc d (List.mem_cons_of_mem c hd)

theorem Steady.reassignNode (h : Steady g req s) (id : String) :
    Steady (g.remove id) req (s.reassignNode id).1 := by
  have hpack : (s.reassignNode id).1.packing =
      s.packing.restrict (fun r => s.assignments[r]? ≠ some id) := by
    refine (reassignNode_foldl s (s.reassignNode id).2).trans ?_
    simp only [mem_evicted, ne_eq]
  refine ⟨within_of_settled (fun n => g.get n ≠ none ∧ n ≠ id) (capacityOf g)
    ?_ ?_, ?_⟩
  · rw [hpack]
    refine h.settled.restrict_bins (· ≠ id) (fun n hn hk => ⟨hn, hk⟩) ?_
    intro r n x hs
    rw [((packing_slot_eq s r n x).mp hs).1, ne_eq, Option.some.injEq]
  · rintro n ⟨hn, hid⟩
    obtain ⟨node, hg, hcap⟩ := capacityOf_registered hn
    exact ⟨node, by rw [Registry.get_remove, if_neg hid.symm, hg], hcap⟩
  · intro r n hr
    have hslot := (packing_slot_eq _ r n _).mpr ⟨hr, rfl⟩
    rw [hpack] at hslot
    have hold : s.packing.slot r = some (n, ((s.reassignNode id).1.request r).pair) := by
      simp only [Packing.restrict, Option.ite_none_right_eq_some] at hslot
      exact hslot.2
    obtain ⟨hr', hpair⟩ := (packing_slot_eq s r n _).mp hold
    rw [← h.request r n hr']
    exact Resources.pair_injective hpair

theorem Steady.registry {g' : Registry} (h : Steady g req s)
    (hg : ∀ n node, g.get n = some node →
      ∃ node', g'.get n = some node' ∧ schedulable node' = schedulable node) :
    Steady g' req s := by
  refine ⟨fun r n hr => ?_, h.request⟩
  obtain ⟨node, hnode, hle⟩ := h.within r n hr
  obtain ⟨node', hnode', hs⟩ := hg n node hnode
  exact ⟨node', hnode', hs ▸ hle⟩

end Scheduler
end Smith
