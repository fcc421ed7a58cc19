import Smith.ContainerRuntime

set_option autoImplicit false

/-!
# Assignments and removals of one container

An agent answers an assignment before its goroutine has created anything, and a removal when
`StopContainer` has returned. While a goroutine is still on its way to its container, a
removal finds nothing to stop and the container appears after the answer. If every goroutine
has its task when a removal arrives, the container is gone for good once it is answered.
-/
namespace Smith
open Runs

/-- A removal request. It is `stale` once an assignment was received after it. -/
structure Unassign where
  stop : Stop := {}
  stale : Bool := false
  deriving DecidableEq, Repr

structure Agent where
  slot : Slot := {}
  runs : List Run := []
  unassigns : List Unassign := []
  deriving DecidableEq, Repr

namespace Agent

inductive Event where
  /-- An assignment, refused if its volumes cannot be resolved. -/
  | assign (volumesOK : Bool)
  | unassign
  /-- The next call of a goroutine, with the address that a setup leases. -/
  | run (i : ℕ) (fails : Bool) (addr : String)
  | stop (j : ℕ) (fails timeout : Bool)
  | exit
  deriving DecidableEq, Repr

def step (cni : Bool) (s : Agent) : Event → Agent
  | .assign volumesOK =>
    { s with
      runs := if volumesOK then s.runs ++ [{}] else s.runs
      unassigns := s.unassigns.map fun u => { u with stale := true } }
  | .unassign => { s with unassigns := s.unassigns ++ [{}] }
  | .run i fails addr =>
    match s.runs[i]? with
    | none => s
    | some r =>
      let (slot, r) := r.step cni fails addr s.slot
      { s with slot := slot, runs := s.runs.set i r }
  | .stop j fails timeout =>
    match s.unassigns[j]? with
    | none => s
    | some u =>
      let (slot, stop) := u.stop.step cni fails timeout s.slot
      { s with slot := slot, unassigns := s.unassigns.set j { u with stop := stop } }
  | .exit => { s with slot := s.slot.exit }

/-- A removal arrives when no goroutine has yet to create its task, and its calls succeed. -/
def Prompt (s : Agent) : Event → Prop
  | .unassign => ∀ r ∈ s.runs, r.pc.creates = false
  | .stop _ fails timeout => fails = false ∧ timeout = false
  | _ => True

instance (s : Agent) (e : Event) : Decidable (Prompt s e) := by
  cases e
  all_goals
    unfold Prompt
    infer_instance

/-- What a removal that met no newer assignment has achieved. -/
def Achieved (p : Stop) (s : Slot) : Prop :=
  match p.pc with
  | .load | .getTask | .wait => True
  | .kill | .await => ∀ t, s.task = some t → t.gen = p.gen
  | .teardown | .taskDelete => ∀ t, s.task = some t → t.status = .stopped
  | .clearIP | .containerDelete => s.task = none
  | .done => s.record = false

theorem Achieved.shrinks {p : Stop} {s s' : Slot} (h : Achieved p s) (hs : s.Shrinks s') :
    Achieved p s' := by
  obtain ⟨pc, gen⟩ := p
  have hnone : s.task = none → s'.task = none := by
    intro ht
    by_contra hne
    obtain ⟨t', ht'⟩ := Option.ne_none_iff_exists'.mp hne
    obtain ⟨t, ht₀, -⟩ := hs.task t' ht'
    exact absurd (ht.symm.trans ht₀) (Option.some_ne_none t).symm
  have hgen : (∀ t, s.task = some t → t.gen = gen) → ∀ t, s'.task = some t → t.gen = gen := by
    intro hg t' ht'
    obtain ⟨t, ht, hgen, -⟩ := hs.task t' ht'
    exact hgen.symm.trans (hg t ht)
  have hstopped : (∀ t, s.task = some t → t.status = .stopped) →
      ∀ t, s'.task = some t → t.status = .stopped := by
    intro hst t' ht'
    obtain ⟨t, ht, -, hstop⟩ := hs.task t' ht'
    exact hstop (hst t ht)
  cases pc with
  | load => trivial
  | getTask => trivial
  | wait => trivial
  | kill => exact hgen h
  | await => exact hgen h
  | teardown => exact hstopped h
  | taskDelete => exact hstopped h
  | clearIP => exact hnone h
  | containerDelete => exact hnone h
  | done =>
    have hr : s.record = false := h
    exact Bool.eq_false_iff.mpr fun ht => absurd (hs.record ht) (by simp [hr])

theorem Achieved.step {p : Stop} {s : Slot} (h : Achieved p s) (cni : Bool) :
    Achieved (p.step cni false false s).2 (p.step cni false false s).1 := by
  obtain ⟨pc, gen⟩ := p
  cases pc with
  | load =>
    simp only [Stop.step, Bool.false_or]
    cases hr : s.record with
    | true => trivial
    | false => exact hr
  | getTask =>
    simp only [Stop.step, Bool.false_or]
    cases ht : s.task with
    | none => exact ht
    | some t => trivial
  | wait =>
    simp only [Stop.step]
    split
    · rename_i hnone
      intro t ht
      exact absurd (hnone.symm.trans ht) (Option.some_ne_none t).symm
    · rename_i t ht
      intro t' ht'
      rw [Option.some.inj (ht'.symm.trans ht)]
      rfl
  | kill => exact h
  | await =>
    simp only [Stop.step, Bool.or_false]
    split_ifs with hexit
    -- the exit that was reported is that of the only task there can be
    · intro t ht
      have hgen := h t ht
      simp only [Slot.exited, ht, hgen] at hexit
      simpa using hexit
    · exact h
  | teardown => exact h.shrinks (p := ⟨.taskDelete, gen⟩) (Slot.shrinks_teardown s cni false)
  | taskDelete =>
    change (s.tolerate false Slot.deleteTask).task = none
    cases ht : s.task with
    | none => simp [Slot.tolerate, Slot.attempt, Slot.deleteTask, ht]
    | some t =>
      obtain ⟨g, status⟩ := t
      obtain rfl : status = .stopped := h _ ht
      simp [Slot.tolerate, Slot.attempt, Slot.deleteTask, ht]
  | clearIP => exact h
  | containerDelete =>
    change (s.tolerate false Slot.deleteContainer).record = false
    have ht : s.task = none := h
    cases hr : s.record with
    | true => simp [Slot.tolerate, Slot.attempt, Slot.deleteContainer, ht, hr]
    | false => simp [Slot.tolerate, Slot.attempt, Slot.deleteContainer, ht, hr]
  | done => exact h

/-- While a removal has met no newer assignment, no goroutine creates anything and the removal
    has achieved what its calls say. -/
structure Inv (s : Agent) : Prop where
  sound : s.slot.Sound
  settled : ∀ u ∈ s.unassigns, u.stale = false → ∀ r ∈ s.runs, r.pc.creates = false
  achieved : ∀ u ∈ s.unassigns, u.stale = false → Achieved u.stop s.slot

variable {s : Agent} {cni : Bool}

theorem Inv.assign (h : Inv s) (volumesOK : Bool) : Inv (s.step cni (.assign volumesOK)) := by
  have hstale : ∀ u ∈ (s.step cni (.assign volumesOK)).unassigns, u.stale = false → False := by
    simp only [step, List.forall_mem_map]
    exact fun u _ hu => absurd hu (by simp)
  exact ⟨h.sound, fun u hu hs => (hstale u hu hs).elim, fun u hu hs => (hstale u hu hs).elim⟩

theorem Inv.unassign (h : Inv s) (hp : Prompt s .unassign) : Inv (s.step cni .unassign) := by
  refine ⟨h.sound, fun _ _ _ => hp, fun u hu hs => ?_⟩
  obtain hu | hu := List.mem_append.mp hu
  · exact h.achieved u hu hs
  · obtain rfl := List.mem_singleton.mp hu
    trivial

theorem Inv.run (h : Inv s) (i : ℕ) (fails : Bool) (addr : String) :
    Inv (s.step cni (.run i fails addr)) := by
  simp only [Agent.step]
  split
  · exact h
  · rename_i r hr
    have hmem : r ∈ s.runs := List.mem_of_getElem? hr
    refine ⟨r.step_sound cni fails addr h.sound, fun u hu hs r' hr' => ?_, fun u hu hs => ?_⟩
    · obtain hr' | rfl := List.mem_or_eq_of_mem_set hr'
      · exact h.settled u hu hs r' hr'
      · exact (Run.step_shrinks (h.settled u hu hs r hmem) cni fails addr s.slot).2
    · exact (h.achieved u hu hs).shrinks
        (Run.step_shrinks (h.settled u hu hs r hmem) cni fails addr s.slot).1

theorem Inv.stop (h : Inv s) (j : ℕ) : Inv (s.step cni (.stop j false false)) := by
  simp only [Agent.step]
  split
  · exact h
  · rename_i u hu
    have hmem : u ∈ s.unassigns := List.mem_of_getElem? hu
    refine ⟨u.stop.step_sound cni false false h.sound, fun u' hu' hs => ?_, fun u' hu' hs => ?_⟩
    · obtain hu' | rfl := List.mem_or_eq_of_mem_set hu'
      · exact h.settled u' hu' hs
      · exact h.settled u hmem hs
    · obtain hu' | rfl := List.mem_or_eq_of_mem_set hu'
      · exact (h.achieved u' hu' hs).shrinks (u.stop.step_shrinks cni false false s.slot)
      · exact (h.achieved u hmem hs).step cni

theorem Inv.exit (h : Inv s) : Inv (s.step cni .exit) :=
  ⟨h.sound.exit, h.settled, fun u hu hs => (h.achieved u hu hs).shrinks s.slot.shrinks_exit⟩

theorem Inv.step (h : Inv s) (e : Event) (hp : Prompt s e) : Inv (s.step cni e) := by
  cases e with
  | assign volumesOK => exact h.assign volumesOK
  | unassign => exact h.unassign hp
  | run i fails addr => exact h.run i fails addr
  | stop j fails timeout =>
    obtain ⟨rfl, rfl⟩ := hp
    exact h.stop j
  | exit => exact h.exit

/-- If every removal arrives when no goroutine has yet to create its task, and no call of a
    removal fails, then after an answered removal the container is gone until the next
    assignment. -/
theorem unassigned_stays_gone (cni : Bool) (slot : Slot) (hslot : slot.Sound) (es : List Event)
    (hes : Guarded (step cni) Prompt { slot := slot } es) :
    let s := Runs.run (step cni) { slot := slot } es
    ∀ u ∈ s.unassigns, u.stop.pc = .done → u.stale = false →
      s.slot.record = false ∧ s.slot.task = none := by
  have hinit : Inv { slot := slot } := ⟨hslot, by simp, by simp⟩
  have hinv := hes.invariant (fun s e hp h => Inv.step h e hp) hinit
  intro s u hu hdone hstale
  have hrecord : s.slot.record = false := by
    have hachieved := hinv.achieved u hu hstale
    simp only [Achieved, hdone] at hachieved
    exact hachieved
  refine ⟨hrecord, ?_⟩
  by_contra htask
  have hsome := hinv.sound (Option.isSome_iff_ne_none.mpr htask)
  exact absurd (hsome.symm.trans hrecord) (by simp)

/-- The container of an assignment is running when its removal arrives, and the goroutine of
    the assignment finds it gone. -/
theorem unassigned_stays_gone_running :
    let es : List Event := .flatten [[.assign true], .replicate 7 (.run 0 false "10.22.0.2"),
      [.unassign], .replicate 4 (.stop 0 false false), [.exit],
      .replicate 5 (.stop 0 false false), .replicate 5 (.run 0 false "")]
    let s := Runs.run (step true) {} es
    s.runs.map Run.pc = [.done] ∧ s.unassigns = [⟨⟨.done, 0⟩, false⟩] ∧
      s.slot.record = false ∧ s.slot.task = none := by
  intro es
  have hguard : Guarded (step true) Prompt {} es := by decide +kernel
  have hruns : (Runs.run (step true) {} es).runs.map Run.pc = [.done] := by decide +kernel
  have hdone : (Runs.run (step true) {} es).unassigns = [⟨⟨.done, 0⟩, false⟩] := by decide +kernel
  clear_value es
  have hmem : ⟨⟨.done, 0⟩, false⟩ ∈ (Runs.run (step true) {} es).unassigns := by
    rw [hdone]
    exact List.mem_singleton_self _
  exact ⟨hruns, hdone, unassigned_stays_gone true {} (fun h => absurd h (by simp)) es hguard _ hmem
    rfl rfl⟩

/-- A removal during the pull is answered, and then the container is created and started. -/
theorem unassigned_during_pull_starts :
    let s := Runs.run (step true) {} (.assign true :: .unassign :: .stop 0 false false ::
      .replicate 7 (.run 0 false "10.22.0.2"))
    s.unassigns = [⟨⟨.done, 0⟩, false⟩] ∧ s.slot.record = true ∧
      s.slot.task = some ⟨0, .running⟩ := by
  decide +kernel

end Agent
end Smith
