import Smith.Placement

set_option autoImplicit false

/-!
# Replicas of one workload are spread evenly

The sibling count comes first in what `place` compares. While every alive node has
room, a new replica goes to a node with the fewest replicas of its workload, so no
node gets ahead of another by more than one. Other workloads change the scores but
not these counts.
-/
namespace Smith
open FiniteMaps Runs
open Std (ExtTreeMap)

namespace Scheduler

def replicasOn (s : Scheduler) (p n : String) : ℕ :=
  (s.assignments.toList.filter fun e => e.2 = n ∧ s.parent e.1 = p).length

def spread (s : Scheduler) (p : String) : Packing String String ℤ where
  slot r := (s.assignments.filter fun r _ => s.parent r == p)[r]?.map fun n => (n, 1)
  items := (s.assignments.filter fun r _ => s.parent r == p).keys.toFinset
  mem_items r := by
    rw [List.mem_toFinset, mem_keys_iff, ne_eq, ne_eq, Option.map_eq_none_iff]

variable {s : Scheduler} {p : String}

theorem spread_slot (s : Scheduler) (p r : String) : (s.spread p).slot r =
    if s.parent r = p then s.assignments[r]?.map fun n => (n, 1) else none := by
  unfold spread
  dsimp only
  rw [lookup_filter]
  by_cases h : s.parent r = p
  · cases s.assignments[r]? <;> simp [h]
  · cases s.assignments[r]? <;> simp [h]

theorem siblings_getD (s : Scheduler) (p n : String) :
    (s.siblings p).getD n 0 = (s.spread p).load n := by
  rw [siblings, getD_tally, Packing.load]
  apply Finset.sum_congr rfl
  intro r _
  cases h : (s.assignments.filter fun r _ => s.parent r == p)[r]? with
  | none =>
    have hs : (s.spread p).slot r = none := by simp only [spread, h, Option.map_none]
    simp [Packing.share_of_none hs, entry, h]
  | some m =>
    have hs : (s.spread p).slot r = some (m, 1) := by simp only [spread, h, Option.map_some]
    simp [Packing.share_of_slot hs, entry, h]

theorem replicasOn_eq_load (s : Scheduler) (p n : String) :
    (s.replicasOn p n : ℤ) = (s.spread p).load n := by
  rw [← siblings_getD, siblings, getD_tally_count, ExtTreeMap.toList_filter, List.filter_filter,
    replicasOn]
  simp [beq_eq_decide]

theorem spread_unassign (s : Scheduler) (p r : String) :
    (s.unassign r).spread p = (s.spread p).drop r := by
  apply Packing.ext_slot
  intro q
  rw [Packing.slot_drop, spread_slot, spread_slot]
  by_cases h : q = r
  · subst h
    simp [unassign]
  · simp [unassign, h, parent, getD_eq, lookup_erase_ne _ (Ne.symm h)]

theorem spread_insert (s : Scheduler) (p r n parentID : String) (requests : GoMap Resources) :
    spread ⟨s.assignments.insert r n, s.parents.insert r parentID, requests⟩ p =
      if parentID = p then (s.spread p).put r n 1 else (s.spread p).drop r := by
  apply Packing.ext_slot
  intro q
  rw [spread_slot]
  by_cases hq : q = r
  · subst hq
    by_cases hp : parentID = p
    · simp [parent, getD_eq, hp, Packing.slot_put_self]
    · simp [parent, getD_eq, hp, Packing.slot_drop]
  · have hparent : parent ⟨s.assignments.insert r n, s.parents.insert r parentID, requests⟩ q =
        s.parent q := by
      rw [parent, getD_insert, if_neg (Ne.symm hq), parent]
    rw [hparent, lookup_insert_ne _ _ (Ne.symm hq), ← spread_slot]
    split_ifs
    · rw [Packing.slot_put_ne _ _ _ hq]
    · rw [Packing.slot_drop, if_neg hq]

/-- The ways an `Assign` ends: the replica stays where it is, or it holds no
    assignment any more and is left pending or put on the node that `place` chose. -/
theorem assign_cases (g : Registry) (now : ℤ) (s : Scheduler) (r parentID : String)
    (req : Resources) :
    let s' := (s.assign g now r parentID req).1
    (∃ n, s.assignments[r]? = some n ∧ s.fitsOnNode g n r req = true ∧
      s'.assignments = s.assignments ∧ s'.parents = s.parents) ∨
    (∀ n, s.assignments[r]? = some n → s.fitsOnNode g n r req = false) ∧
      ∃ s₀, (s₀ = s ∧ s.assignments[r]? = none ∨ s₀ = s.unassign r) ∧
        (s' = s₀ ∨
          let best := place (g.alive now) s₀.allocCPU s₀.allocMem (s₀.siblings parentID) req
          best ≠ "" ∧ s' = ⟨s₀.assignments.insert r best, s₀.parents.insert r parentID,
            s₀.requests.insert r req⟩) := by
  have hfresh : ∀ s₀ : Scheduler, (s₀.assignFresh g now r parentID req).1 = s₀ ∨
      let best := place (g.alive now) s₀.allocCPU s₀.allocMem (s₀.siblings parentID) req
      best ≠ "" ∧ (s₀.assignFresh g now r parentID req).1 =
        ⟨s₀.assignments.insert r best, s₀.parents.insert r parentID, s₀.requests.insert r req⟩ := by
    intro s₀
    unfold assignFresh
    dsimp only
    split_ifs with hn hb
    · exact .inl rfl
    · exact .inl rfl
    · exact .inr ⟨hb, rfl⟩
  intro s'
  cases h : s.assignments[r]? with
  | none =>
    have he : s' = (s.assignFresh g now r parentID req).1 := by simp only [s', assign, h]
    refine .inr ⟨fun n hn => absurd hn (Option.some_ne_none n).symm, s, .inl ⟨rfl, rfl⟩, ?_⟩
    rw [he]
    exact hfresh s
  | some n =>
    by_cases hf : s.fitsOnNode g n r req = true
    · have he : s' = { s with requests := s.requests.insert r req } := by
        simp only [s', assign_sticky h hf]
      exact .inl ⟨n, rfl, hf, by rw [he], by rw [he]⟩
    · have he : s' = ((s.unassign r).assignFresh g now r parentID req).1 := by
        simp only [s', assign, h, hf, Bool.false_eq_true, ↓reduceIte]
      refine .inr ⟨fun m hm => ?_, s.unassign r, .inr rfl, he ▸ hfresh _⟩
      obtain rfl := Option.some.inj hm
      exact Bool.eq_false_iff.mpr hf

/-- Calls on the scheduler, each `Assign` with the registry and the clock it reads. -/
inductive SpreadCall where
  | assign (g : Registry) (now : ℤ) (replicaID parentID : String) (req : Resources)
  | unassign (replicaID : String)

def call (s : Scheduler) : SpreadCall → Scheduler
  | .assign g now replicaID parentID req => (s.assign g now replicaID parentID req).1
  | .unassign replicaID => s.unassign replicaID

/-- The alive nodes are always the same, every `Assign` for `p` finds room on all of
    them, and no replica of `p` is taken off its node. A replica that holds an
    assignment keeps it where its request fits again, which room on top of everything
    gives as long as the request it replaces is not negative. -/
def Roomy (p : String) (nodes : Finset String) (s : Scheduler) : SpreadCall → Prop
  | .assign g now r parentID req =>
    ((g.alive now).map Node.id).toFinset = nodes ∧
    (parentID = p → ∀ n ∈ g.alive now, s.committed n.id + req.pair ≤ schedulable n) ∧
    ∀ n, s.assignments[r]? = some n → s.parent r = p ∨ parentID = p →
      parentID = p ∧ 0 ≤ (s.request r).pair ∨ s.fitsOnNode g n r req = true
  | .unassign r => s.assignments[r]? ≠ none → s.parent r ≠ p

/-- The replicas of `p` are on the given nodes, and no node is ahead of another by
    more than one. -/
structure Even (p : String) (nodes : Finset String) (s : Scheduler) : Prop where
  inside : ∀ r n x, (s.spread p).slot r = some (n, x) → n ∈ nodes
  even : ∀ m ∈ nodes, ∀ n ∈ nodes, (s.spread p).load m ≤ (s.spread p).load n + 1

variable {nodes : Finset String} {g : Registry} {now : ℤ} {r parentID : String} {req : Resources}

theorem Even.of_spread_eq {s' : Scheduler} (h : Even p nodes s) (he : s'.spread p = s.spread p) :
    Even p nodes s' :=
  ⟨he ▸ h.inside, he ▸ h.even⟩

theorem Even.put {s' : Scheduler} (h : Even p nodes s) {n : String} (hn : n ∈ nodes)
    (hnew : (s.spread p).slot r = none) (he : s'.spread p = (s.spread p).put r n 1)
    (hleast : ∀ m ∈ nodes, (s.spread p).load n ≤ (s.spread p).load m) : Even p nodes s' := by
  refine ⟨fun q m x hs => ?_, fun m hm k hk => ?_⟩
  · rw [he] at hs
    by_cases hq : q = r
    · subst hq
      rw [Packing.slot_put_self, Option.some.injEq, Prod.mk.injEq] at hs
      exact hs.1 ▸ hn
    · rw [Packing.slot_put_ne _ _ _ hq] at hs
      exact h.inside q m x hs
  · rw [he, Packing.load_put, Packing.load_put, Packing.drop_of_none hnew]
    have hmk := h.even m hm k hk
    have hnk := hleast k hk
    by_cases h₁ : n = m
    · subst h₁
      split_ifs <;> omega
    · rw [if_neg h₁]
      split_ifs <;> omega

theorem fits_of_room {n : String} {node : Node} (hnode : g.get n = some node)
    (hq : 0 ≤ (s.request r).pair)
    (hroom : s.committed n + req.pair ≤ schedulable node) : s.fitsOnNode g n r req = true := by
  refine (fitsOnNode_iff g s n r req).mpr ⟨node, hnode, le_trans ?_ hroom⟩
  have hle := committed_unassign_le hq n
  rw [committed_eq_load, packing_unassign] at hle
  gcongr

/-- A call for which `p`'s replica would have to leave its node is not made. -/
theorem Even.slot_none (h : Even p nodes s) (hg : Roomy p nodes s (.assign g now r parentID req))
    (hmove : ∀ n, s.assignments[r]? = some n → s.fitsOnNode g n r req = false) :
    (s.spread p).slot r = none := by
  obtain ⟨halive, hroom, hkeep⟩ := hg
  by_contra hne
  obtain ⟨⟨n, x⟩, hslot⟩ := Option.ne_none_iff_exists'.mp hne
  have hmem := h.inside r n x hslot
  rw [spread_slot] at hslot
  split_ifs at hslot with hp
  obtain ⟨m, hm, he⟩ := Option.map_eq_some_iff.mp hslot
  obtain rfl : m = n := congrArg Prod.fst he
  rcases hkeep m hm (.inl hp) with ⟨hparent, hq⟩ | hfits
  · rw [← halive, List.mem_toFinset, List.mem_map] at hmem
    obtain ⟨node, hnode, rfl⟩ := hmem
    have hget := ((g.mem_alive now node).mp hnode).1
    have hfits := fits_of_room hget hq (hroom hparent node hnode)
    rw [hmove _ hm] at hfits
    exact Bool.false_ne_true hfits
  · rw [hmove _ hm] at hfits
    exact Bool.false_ne_true hfits

theorem Even.assign (h : Even p nodes s) (hg : Roomy p nodes s (.assign g now r parentID req)) :
    Even p nodes (s.assign g now r parentID req).1 := by
  obtain ⟨n, -, -, hassign, hparents⟩ | ⟨hmove, s₀, hs₀, hs'⟩ :=
    assign_cases g now s r parentID req
  · refine h.of_spread_eq (Packing.ext_slot fun q => ?_)
    rw [spread_slot, spread_slot, parent, parent, hassign, hparents]
  · have hnone := h.slot_none hg hmove
    obtain ⟨halive, hroom, hkeep⟩ := hg
    have hspread : s₀.spread p = s.spread p := by
      rcases hs₀ with ⟨rfl, -⟩ | rfl
      · rfl
      · rw [spread_unassign, Packing.drop_of_none hnone]
    rcases hs' with hs' | ⟨hbest, hs'⟩
    · exact h.of_spread_eq (hs' ▸ hspread)
    · have hinsert := hs' ▸ spread_insert s₀ p r
        (place (g.alive now) s₀.allocCPU s₀.allocMem (s₀.siblings parentID) req) parentID
        (s₀.requests.insert r req)
      rw [hspread] at hinsert
      by_cases hp : parentID = p
      · subst hp
        -- the released replica made no node fuller
        have hcommitted : ∀ n, s₀.committed n ≤ s.committed n := by
          intro n
          rcases hs₀ with ⟨rfl, -⟩ | rfl
          · exact le_refl _
          · cases hr : s.assignments[r]? with
            | none =>
              rw [committed_eq_load, committed_eq_load, packing_unassign, (unassign_of_none hr).1]
            | some m =>
              rcases hkeep m hr (.inr rfl) with ⟨-, hq⟩ | hfits
              · exact committed_unassign_le hq n
              · rw [hmove m hr] at hfits
                exact absurd hfits Bool.false_ne_true
        obtain ⟨node, hnode, hid, -, hleast⟩ := placeWith_least hbest
        rw [if_pos rfl] at hinsert
        refine h.put ?_ hnone hinsert fun m hm => ?_
        · rw [← halive, List.mem_toFinset]
          exact List.mem_map.mpr ⟨node, hnode, hid⟩
        · rw [← halive, List.mem_toFinset] at hm
          obtain ⟨node', hnode', rfl⟩ := List.mem_map.mp hm
          have hfit : Fits s₀.allocCPU s₀.allocMem req node' := by
            rw [Fits, allocCPU_getD, allocMem_getD]
            exact (add_le_add_left (hcommitted node'.id) _).trans (hroom rfl node' hnode')
          have hle := siblings_le_of_rank (hleast node' hnode' hfit)
          rw [siblings_getD, siblings_getD, hspread, hid] at hle
          exact hle
      · rw [if_neg hp, Packing.drop_of_none hnone] at hinsert
        exact h.of_spread_eq hinsert

theorem Even.call (h : Even p nodes s) {c : SpreadCall} (hg : Roomy p nodes s c) :
    Even p nodes (s.call c) := by
  cases c with
  | assign g now r parentID req => exact h.assign hg
  | unassign r =>
    refine h.of_spread_eq ?_
    rw [Scheduler.call, spread_unassign, Packing.drop_of_none]
    rw [spread_slot]
    split_ifs with hp
    · by_contra hne
      exact hg (fun hr => hne (by rw [hr]; rfl)) hp
    · rfl

/-- While every alive node has room, the replicas of a workload are spread evenly. -/
theorem replicas_spread_evenly (p : String) (nodes : Finset String) (s : Scheduler)
    (hstart : ∀ r n : String, s.assignments[r]? = some n → s.parent r ≠ p) (calls : List SpreadCall)
    (h : Guarded call (Roomy p nodes) s calls) :
    ∀ m ∈ nodes, ∀ n ∈ nodes,
      (run call s calls).replicasOn p m ≤ (run call s calls).replicasOn p n + 1 := by
  have hnone : ∀ r, (s.spread p).slot r = none := by
    intro r
    rw [spread_slot]
    split_ifs with hp
    · rw [Option.map_eq_none_iff, Option.eq_none_iff_forall_ne_some]
      exact fun n hn => hstart r n hn hp
    · rfl
  have hzero : ∀ n, (s.spread p).load n = 0 := by
    intro n
    refine Packing.load_eq_zero fun r x hs => ?_
    rw [hnone r] at hs
    exact absurd hs (Option.some_ne_none _).symm
  have heven : Even p nodes (run call s calls) := by
    refine h.invariant (fun _ _ hg he => Even.call he hg) ⟨fun r n x hs => ?_, fun m _ n _ => ?_⟩
    · rw [hnone r] at hs
      exact absurd hs (Option.some_ne_none _).symm
    · rw [hzero m, hzero n]
      exact zero_le_one
  intro m hm n hn
  have hle := heven.even m hm n hn
  rw [← replicasOn_eq_load, ← replicasOn_eq_load] at hle
  exact_mod_cast hle

private def unequalNodes : Registry :=
  (Registry.new.register { id := "n1", cpu := 4, memoryMB := 4000 } 0).register
    { id := "n2", cpu := 4, memoryMB := 8000 } 0

private def three : List SpreadCall :=
  [.assign unequalNodes 1 "a-0" "a" ⟨0, 500⟩, .assign unequalNodes 1 "b-0" "b" ⟨0, 900⟩,
    .assign unequalNodes 1 "a-1" "a" ⟨0, 500⟩, .unassign "b-0",
    .assign unequalNodes 1 "a-2" "a" ⟨0, 500⟩]

/-- Three replicas on two nodes of different size, with another workload in between. -/
theorem replicas_spread_evenly_three :
    (run call new three).replicasOn "a" "n1" ≤ (run call new three).replicasOn "a" "n2" + 1 ∧
      (run call new three).replicasOn "a" "n2" ≤ (run call new three).replicasOn "a" "n1" + 1 := by
  have hfresh : ∀ {s : Scheduler} {r q : String} {req : Resources}, s.assignments[r]? = none →
      (∀ n ∈ unequalNodes.alive 1, s.committed n.id + req.pair ≤ schedulable n) →
      Roomy "a" {"n1", "n2"} s (.assign unequalNodes 1 r q req) := by
    intro s r q req hr hroom
    refine ⟨by decide +kernel, fun _ => hroom, fun n hn => ?_⟩
    exact absurd (hr.symm.trans hn) (Option.some_ne_none n).symm
  have h := replicas_spread_evenly "a" {"n1", "n2"} new (by simp [new]) three ?_
  · exact ⟨h "n1" (by decide) "n2" (by decide), h "n2" (by decide) "n1" (by decide)⟩
  · refine ⟨hfresh ?_ ?_, hfresh ?_ ?_, hfresh ?_ ?_, fun _ => ?_, hfresh ?_ ?_, trivial⟩
    all_goals decide +kernel

/-- `Roomy` for requests of any sign: every alive node has room on top of everything. -/
def RoomyAnySign (p : String) (nodes : Finset String) (s : Scheduler) : SpreadCall → Prop
  | .assign g now r parentID req =>
    ((g.alive now).map Node.id).toFinset = nodes ∧
    (∀ n ∈ g.alive now, s.committed n.id + req.pair ≤ schedulable n) ∧
    (s.assignments[r]? ≠ none → (s.parent r = p ↔ parentID = p))
  | .unassign r => s.assignments[r]? ≠ none → s.parent r ≠ p

private def smallAndLarge : Registry :=
  (Registry.new.register { id := "n1", cpu := 4, memoryMB := 1000 } 0).register
    { id := "n2", cpu := 4, memoryMB := 8000 } 0

private def negativeThenMoved : List SpreadCall :=
  [.assign smallAndLarge 1 "a-0" "a" ⟨0, 50⟩, .assign smallAndLarge 1 "a-1" "a" ⟨0, 50⟩,
    .assign smallAndLarge 1 "a-0" "a" ⟨0, -100⟩, .assign smallAndLarge 1 "b-0" "b" ⟨0, 900⟩,
    .assign smallAndLarge 1 "a-0" "a" ⟨0, 50⟩]

/-- With a request of -100 MB the node takes 900 MB of another workload beside it. There is room
    for 50 MB on top of both, but not for 50 MB in place of the -100. -/
theorem negative_request_unbalances :
    ¬ ∀ (p : String) (nodes : Finset String) (s : Scheduler),
      (∀ r n : String, s.assignments[r]? = some n → s.parent r ≠ p) → ∀ calls : List SpreadCall,
      Guarded call (RoomyAnySign p nodes) s calls → ∀ m ∈ nodes, ∀ n ∈ nodes,
        (run call s calls).replicasOn p m ≤ (run call s calls).replicasOn p n + 1 := by
  intro h
  have hcall : ∀ {s : Scheduler} {r q : String} {req : Resources},
      (∀ n ∈ smallAndLarge.alive 1, s.committed n.id + req.pair ≤ schedulable n) ∧
        (s.assignments[r]? ≠ none → (s.parent r = "a" ↔ q = "a")) →
      RoomyAnySign "a" {"n1", "n2"} s (.assign smallAndLarge 1 r q req) :=
    fun hroom => ⟨by decide +kernel, hroom⟩
  have heven := h "a" {"n1", "n2"} new (by simp [new]) negativeThenMoved
    ⟨hcall (by decide +kernel), hcall (by decide +kernel), hcall (by decide +kernel),
      hcall (by decide +kernel), hcall (by decide +kernel), trivial⟩
    "n2" (by decide) "n1" (by decide)
  revert heven
  decide +kernel

end Scheduler
end Smith
