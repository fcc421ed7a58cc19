import Smith.AgentUnassign

set_option autoImplicit false

/-!
# The addresses that containers lease

The network plugin leases an address to a container id until it is told to tear the id down.
A goroutine that got the lease gives it back when its container has exited, and an agent that
starts cleans up what containerd lists. A lease whose container has no record any more is
listed nowhere, and only another assignment of the same id can release it. A removal that
overtakes a setup leaves such a lease to the goroutine, and to nobody if the agent dies then.
-/
namespace Smith
open Runs

structure CleanupFaults where
  load : Bool := false
  task : Bool := false
  taskDelete : Bool := false
  teardown : Bool := false
  containerDelete : Bool := false
  deriving DecidableEq

/-- `Cleanup`. Whether the process exits in time does not matter, for the task is deleted with
    a kill. -/
def Slot.cleanup (cni : Bool) (f : CleanupFaults) (s : Slot) : Slot :=
  if f.load || !s.record then s
  else
    let s := if f.task || s.task.isNone then s else s.tolerate f.taskDelete killAndDeleteTask
    (s.teardown cni f.teardown).clearIP.tolerate f.containerDelete deleteContainer

/-- The goroutine has an address and has yet to give it back. -/
def RunPC.leases : RunPC → Bool
  | .setIP | .wait | .start | .running | .cleanupCNI | .teardown => true
  | _ => false

namespace Slot
variable {s : Slot}

theorem lease_teardown (s : Slot) (cni fails : Bool) :
    (s.teardown cni fails).lease = if cni && !fails then none else s.lease := by
  unfold teardown
  split_ifs <;> rfl

theorem lease_tolerate {call : Slot → Except CallError Slot}
    (hcall : ∀ s', call s = .ok s' → s'.lease = s.lease) (fails : Bool) :
    (s.tolerate fails call).lease = s.lease :=
  @tolerate_of (fun s' => s'.lease = s.lease) call s rfl hcall fails

theorem lease_deleteTask {s' : Slot} (h : s.deleteTask = .ok s') : s'.lease = s.lease := by
  rw [deleteTask_ok h]

theorem lease_killAndDeleteTask {s' : Slot} (h : s.killAndDeleteTask = .ok s') :
    s'.lease = s.lease := by
  rw [killAndDeleteTask_ok h]

theorem lease_deleteContainer {s' : Slot} (h : s.deleteContainer = .ok s') : s'.lease = s.lease := by
  rw [(deleteContainer_ok h).2]

end Slot

/-- The goroutine is not denied its teardown, and its setup does not fail with an address
    leased. -/
def Run.Served (r : Run) (fails : Bool) (addr : String) : Prop :=
  (r.pc = .cleanupCNI ∨ r.pc = .teardown → fails = false) ∧
    (r.pc = .setup → fails = true → addr = "")

instance (r : Run) (fails : Bool) (addr : String) : Decidable (r.Served fails addr) :=
  inferInstanceAs (Decidable (_ ∧ _))

theorem Run.step_lease (r : Run) {fails : Bool} {addr : String} (hserved : r.Served fails addr)
    (s : Slot) :
    (r.step true fails addr s).1.lease = none ∨ (r.step true fails addr s).2.pc.leases = true ∨
      r.pc.leases = false ∧ (r.step true fails addr s).1.lease = s.lease := by
  obtain ⟨pc, a, gen⟩ := r
  cases pc with
  | cleanupCNI =>
    obtain rfl := hserved.1 (.inl rfl)
    exact .inl (s.lease_teardown true false)
  | teardown =>
    obtain rfl := hserved.1 (.inr rfl)
    exact .inl (s.lease_teardown true false)
  | setup =>
    simp only [Run.step, Bool.true_eq_false, if_false]
    split_ifs with hfails haddr
    · exact .inr (.inr ⟨rfl, rfl⟩)
    · exact absurd (hserved.2 rfl hfails) haddr
    · exact .inr (.inl rfl)
  | setIP => exact .inr (.inl rfl)
  | wait =>
    simp only [Run.step]
    split
    · exact .inr (.inl rfl)
    · split_ifs
      · exact .inr (.inl rfl)
      · exact .inr (.inl rfl)
  | start =>
    simp only [Run.step]
    split
    · exact .inr (.inl rfl)
    · exact .inr (.inl rfl)
  | running =>
    simp only [Run.step]
    split_ifs
    · exact .inr (.inl rfl)
    · exact .inr (.inl rfl)
  | create =>
    simp only [Run.step]
    split
    · exact .inr (.inr ⟨rfl, rfl⟩)
    · rename_i s' hnew
      exact .inr (.inr ⟨rfl, by rw [Slot.newContainer_ok (Slot.ok_of_attempt hnew)]⟩)
  | newTask =>
    simp only [Run.step]
    split
    · exact .inr (.inr ⟨rfl, rfl⟩)
    · rename_i s' hnew
      exact .inr (.inr ⟨rfl, by rw [(Slot.newTask_ok (Slot.ok_of_attempt hnew)).2]⟩)
  | cleanupTask =>
    exact .inr (.inr ⟨rfl, Slot.lease_tolerate (fun _ => Slot.lease_killAndDeleteTask) fails⟩)
  | taskDelete =>
    exact .inr (.inr ⟨rfl, Slot.lease_tolerate (fun _ => Slot.lease_deleteTask) fails⟩)
  | containerDelete =>
    exact .inr (.inr ⟨rfl, Slot.lease_tolerate (fun _ => Slot.lease_deleteContainer) fails⟩)
  | fetch => exact .inr (.inr ⟨rfl, rfl⟩)
  | clearIP => exact .inr (.inr ⟨rfl, rfl⟩)
  | done => exact .inr (.inr ⟨rfl, rfl⟩)

theorem Stop.step_lease (p : Stop) (fails timeout : Bool) (s : Slot) :
    (p.step true fails timeout s).1.lease = none ∨
      (p.step true fails timeout s).1.lease = s.lease := by
  obtain ⟨pc, gen⟩ := p
  cases pc with
  | teardown =>
    simp only [Stop.step, Slot.lease_teardown]
    split_ifs
    · exact .inl rfl
    · exact .inr rfl
  | wait =>
    simp only [Stop.step]
    split
    · exact .inr rfl
    · exact .inr rfl
  | taskDelete => exact .inr (Slot.lease_tolerate (fun _ => Slot.lease_deleteTask) fails)
  | containerDelete => exact .inr (Slot.lease_tolerate (fun _ => Slot.lease_deleteContainer) fails)
  | load => exact .inr rfl
  | getTask => exact .inr rfl
  | kill => exact .inr rfl
  | await => exact .inr rfl
  | clearIP => exact .inr rfl
  | done => exact .inr rfl

namespace Agent
variable {s : Agent}

def Held (s : Agent) : Prop := s.slot.lease ≠ none → ∃ r ∈ s.runs, r.pc.leases = true

def Served (s : Agent) : Event → Prop
  | .run i fails addr => ∀ r ∈ s.runs[i]?, r.Served fails addr
  | _ => True

instance (s : Agent) : (e : Event) → Decidable (Served s e)
  | .run i fails addr => inferInstanceAs (Decidable (∀ r ∈ s.runs[i]?, r.Served fails addr))
  | .assign _ | .unassign | .stop _ _ _ | .exit => isTrue trivial

theorem Held.step (h : Held s) {e : Event} (hserved : Served s e) :
    Held (s.step true e) := by
  cases e with
  | assign volumesOK =>
    intro hlease
    obtain ⟨r, hr, hleases⟩ := h hlease
    refine ⟨r, ?_, hleases⟩
    simp only [Agent.step]
    split_ifs
    · exact List.mem_append_left _ hr
    · exact hr
  | unassign => exact h
  | exit => exact h
  | stop j fails timeout =>
    simp only [Agent.step]
    split
    · exact h
    · rename_i u hu
      intro hlease
      obtain hnone | hsame := u.stop.step_lease fails timeout s.slot
      · exact absurd hnone hlease
      · exact h (hsame ▸ hlease)
  | run i fails addr =>
    simp only [Agent.step]
    split
    · exact h
    · rename_i r hr
      intro hlease
      obtain hnone | hnew | ⟨hold, hsame⟩ := r.step_lease (hserved r hr) s.slot
      · exact absurd hnone hlease
      · obtain ⟨hi, -⟩ := List.getElem?_eq_some_iff.mp hr
        exact ⟨_, List.mem_set hi _, hnew⟩
      · -- the goroutine that holds the lease is another one
        obtain ⟨r', hr', hleases⟩ := h (hsame ▸ hlease)
        obtain ⟨j, hj⟩ := List.mem_iff_getElem?.mp hr'
        have hne : i ≠ j := by
          rintro rfl
          obtain rfl := Option.some.inj (hr.symm.trans hj)
          exact absurd (hleases.symm.trans hold) (by simp)
        exact ⟨r', List.mem_of_getElem? ((List.getElem?_set_ne hne).trans hj), hleases⟩

end Agent

abbrev Containers := String → Agent

namespace Containers

def cleanupAll (clean : String → Slot → Slot) (ids : List String) (c : Containers) : Containers :=
  ids.foldl (fun c id => Function.update c id { c id with slot := clean id (c id).slot }) c

inductive Event where
  | on (id : String) (e : Agent.Event)
  /-- The agent's process ends and a new one starts. -/
  | start (ids : List String) (faults : String → CleanupFaults)
  /-- A control plane starts on the same host. -/
  | serverStart (ids : List String) (faults : String → CleanupFaults)

/-- What outlives the agent's process. -/
def ended (s : Agent) : Agent := { slot := s.slot.clearIP }

/-- The control plane cleans up without a network plugin and with a table of addresses of its
    own. -/
def serverCleanup (f : CleanupFaults) (s : Slot) : Slot := { s.cleanup false f with ip := s.ip }

def step (c : Containers) : Event → Containers
  | .on id e => Function.update c id ((c id).step true e)
  | .start ids faults =>
    cleanupAll (fun id => Slot.cleanup true (faults id)) ids fun id => ended (c id)
  | .serverStart ids faults => cleanupAll (fun id => serverCleanup (faults id)) ids c

variable {c : Containers} {id : String}

theorem cleanupAll_apply (clean : String → Slot → Slot) {ids : List String} (h : ids.Nodup)
    (c : Containers) (id : String) : cleanupAll clean ids c id =
      if id ∈ ids then { c id with slot := clean id (c id).slot } else c id := by
  induction ids generalizing c with
  | nil => rfl
  | cons a ids ih =>
    obtain ⟨ha, hids⟩ := List.nodup_cons.mp h
    rw [cleanupAll, List.foldl_cons, ← cleanupAll, ih hids]
    by_cases hid : id = a
    · subst hid
      rw [if_neg ha, Function.update_self, if_pos List.mem_cons_self]
    · rw [Function.update_of_ne hid]
      simp only [List.mem_cons, hid, false_or]

theorem cleanupAll_of {P : Agent → Prop} {clean : String → Slot → Slot} (hc : P (c id))
    (hclean : ∀ s, P s → P { s with slot := clean id s.slot }) (ids : List String) :
    P (cleanupAll clean ids c id) := by
  induction ids generalizing c with
  | nil => exact hc
  | cons a ids ih =>
    rw [cleanupAll, List.foldl_cons, ← cleanupAll]
    refine ih ?_
    by_cases hid : id = a
    · subst hid
      rw [Function.update_self]
      exact hclean _ hc
    · rw [Function.update_of_ne hid]
      exact hc

structure Lists (ids : List String) (c : Containers) : Prop where
  nodup : ids.Nodup
  mem : ∀ id, id ∈ ids ↔ (c id).slot.record = true

/-- When the agent starts, every container with a lease has its record and can be loaded, and
    the plugin releases its address. -/
def Served (c : Containers) : Event → Prop
  | .on id e => (c id).Served e
  | .start ids faults => Lists ids c ∧ ∀ id, (c id).slot.lease ≠ none →
      (c id).slot.record = true ∧ (faults id).load = false ∧ (faults id).teardown = false
  | .serverStart _ _ => True

theorem lease_cleanup (cni : Bool) (f : CleanupFaults) (s : Slot) : (s.cleanup cni f).lease =
    if !f.load && s.record && cni && !f.teardown then none else s.lease := by
  simp only [Slot.cleanup]
  cases hl : f.load with
  | true => simp
  | false =>
    cases hr : s.record with
    | false => simp
    | true =>
      have hdrop := @Slot.lease_tolerate s Slot.killAndDeleteTask
        (fun _ => Slot.lease_killAndDeleteTask) f.taskDelete
      simp only [Bool.not_true, Bool.or_self, Bool.false_eq_true, if_false]
      rw [Slot.lease_tolerate fun _ => Slot.lease_deleteContainer]
      simp only [Slot.clearIP, Slot.lease_teardown, Bool.not_false, Bool.true_and]
      split_ifs <;> first | rfl | exact hdrop

theorem lease_serverCleanup (f : CleanupFaults) (s : Slot) : (serverCleanup f s).lease = s.lease := by
  simp [serverCleanup, lease_cleanup]

theorem held_step {e : Event} (h : ∀ id, (c id).Held) (hserved : Served c e) :
    ∀ id, (c.step e id).Held := by
  intro id
  cases e with
  | on a e =>
    by_cases hid : id = a
    · subst hid
      rw [step, Function.update_self]
      exact (h id).step hserved
    · rw [step, Function.update_of_ne hid]
      exact h id
  | start ids faults =>
    obtain ⟨hlists, hleased⟩ := hserved
    rw [step, cleanupAll_apply _ hlists.nodup]
    intro hlease
    split_ifs at hlease with hid
    · have hrecord : (ended (c id)).slot.record = true := (hlists.mem id).mp hid
      have hbefore : (c id).slot.lease ≠ none := by
        intro hnone
        rw [lease_cleanup] at hlease
        split_ifs at hlease
        · exact hlease rfl
        · exact hlease hnone
      obtain ⟨-, hload, hteardown⟩ := hleased id hbefore
      exact absurd (by rw [lease_cleanup, hrecord, hload, hteardown]; rfl) hlease
    · exact absurd ((hlists.mem id).mpr (hleased id hlease).1) hid
  | serverStart ids faults =>
    refine cleanupAll_of (h id) (fun s hs hlease => ?_) ids
    rw [lease_serverCleanup] at hlease
    exact hs hlease

/-- Whichever other calls fail, and however assignments, removals and exits interleave, an
    address is leased only as long as a goroutine is there to give it back. In particular none
    is left when all goroutines of the container have returned. -/
theorem leases_given_back {es : List Event} (h : Guarded step Served (fun _ => {}) es) (id : String) :
    let s := run step (fun _ => {}) es id
    (s.slot.lease ≠ none → ∃ r ∈ s.runs, r.pc.leases = true) ∧
      ((∀ r ∈ s.runs, r.pc = .done) → s.slot.lease = none) := by
  have hempty : ∀ id : String, ((fun _ => {} : Containers) id).Held := fun _ hlease => absurd rfl hlease
  have held := h.invariant (I := fun c => ∀ id, (c id).Held) (fun _ _ hg hc => held_step hc hg) hempty id
  refine ⟨held, fun hdone => ?_⟩
  by_contra hlease
  obtain ⟨r, hr, hleases⟩ := held hlease
  rw [hdone r hr] at hleases
  exact absurd hleases (by decide)

section One
variable {es : List Agent.Event}

theorem run_on (c : Containers) (id : String) (es : List Agent.Event) :
    run step c (es.map (.on id)) = Function.update c id (run (Agent.step true) (c id) es) := by
  induction es generalizing c with
  | nil => exact (Function.update_eq_self id c).symm
  | cons e es ih =>
    have hcons := ih (c.step (.on id e))
    simp only [step, Function.update_self, Function.update_idem] at hcons
    exact hcons

theorem guarded_on (c : Containers) (id : String) (es : List Agent.Event) :
    Guarded step Served c (es.map (.on id)) ↔
      Guarded (Agent.step true) Agent.Served (c id) es := by
  induction es generalizing c with
  | nil => exact Iff.rfl
  | cons e es ih =>
    refine and_congr Iff.rfl ((ih _).trans ?_)
    rw [step, Function.update_self]

end One

/-- containerd does not delete what it is asked to. -/
private def stubborn (_ : String) : CleanupFaults := { taskDelete := true, containerDelete := true }

/-- The agent dies with its container running, and starts again. -/
theorem leases_given_back_restart :
    let before : List Event := (.assign true ::
      List.replicate 7 (.run 0 false "10.22.0.2")).map (.on "web-0")
    let died := run step (fun _ => {}) before
    (died "web-0").slot.lease = some "10.22.0.2" ∧
      (run step (fun _ => {}) (before ++ [.start ["web-0"] stubborn]) "web-0").slot.lease =
        none := by
  intro before died
  have hdied : died = Function.update (fun _ => {}) "web-0"
      { slot := ⟨true, some ⟨0, .running⟩, 1, some "10.22.0.2", some "10.22.0.2"⟩
        runs := [⟨.running, "10.22.0.2", 0⟩] } := by
    rw [show died = _ from run_on _ _ _]
    congr 1
  have hother (id : String) (hid : id ≠ "web-0") : died id = {} := by
    rw [hdied, Function.update_of_ne hid]
  have hlists : Lists ["web-0"] died := by
    refine ⟨List.nodup_singleton _, fun id => ?_⟩
    by_cases hid : id = "web-0"
    · subst hid
      simp [hdied]
    · simp [hother id hid, hid]
  have hrecorded (id : String) (hlease : (died id).slot.lease ≠ none) :
      (died id).slot.record = true := by
    by_cases hid : id = "web-0"
    · subst hid
      rw [hdied, Function.update_self]
    · rw [hother id hid] at hlease
      exact absurd rfl hlease
  have hguard : Guarded step Served (fun _ => {}) (before ++ [.start ["web-0"] stubborn]) :=
    guarded_snoc ((guarded_on _ _ _).mpr (by decide))
      ⟨hlists, fun id hlease => ⟨hrecorded id hlease, rfl, rfl⟩⟩
  refine ⟨by rw [hdied, Function.update_self], (leases_given_back hguard "web-0").2 ?_⟩
  rw [run_append]
  change ∀ r ∈ (died.step (.start ["web-0"] stubborn) "web-0").runs, r.pc = .done
  rw [step, cleanupAll_apply _ hlists.nodup, if_pos List.mem_cons_self]
  exact fun r hr => absurd hr (by simp [ended])

-- A setup that fails with an address leased: the goroutine returns and the lease stays.
example :
    let s := run (Agent.step true) {} (.assign true :: .run 0 false "" :: .run 0 false "" ::
      .run 0 false "" :: .run 0 true "10.22.0.2" :: .replicate 3 (.run 0 false ""))
    s.slot = { gens := 1, lease := some "10.22.0.2" } ∧ s.runs.map Run.pc = [.done] := by
  decide

/-- The container's address is leased, and neither containerd nor a goroutine knows of it. -/
structure Stranded (ip : String) (s : Agent) : Prop where
  lease : s.slot.lease = some ip
  record : s.slot.record = false
  runs : ∀ r ∈ s.runs, r.pc = .done
  unassigns : ∀ u ∈ s.unassigns, u.stop.pc = .load ∨ u.stop.pc = .done

variable {ip : String} {s : Agent}

theorem Stranded.agentStep (h : Stranded ip s) {e : Agent.Event} (he : e ≠ .assign true) :
    Stranded ip (s.step true e) := by
  cases e with
  | assign volumesOK =>
    obtain rfl : volumesOK = false := by
      cases volumesOK
      · rfl
      · exact absurd rfl he
    refine ⟨h.lease, h.record, h.runs, fun u hu => ?_⟩
    obtain ⟨u', hu', rfl⟩ := List.mem_map.mp hu
    exact h.unassigns u' hu'
  | unassign =>
    refine ⟨h.lease, h.record, h.runs, fun u hu => ?_⟩
    obtain hu | hu := List.mem_append.mp hu
    · exact h.unassigns u hu
    · obtain rfl := List.mem_singleton.mp hu
      exact .inl rfl
  | exit => exact ⟨h.lease, h.record, h.runs, h.unassigns⟩
  | run i fails addr =>
    simp only [Agent.step]
    split
    · exact h
    · rename_i r hr
      have hdone := h.runs r (List.mem_of_getElem? hr)
      have hstep : r.step true fails addr s.slot = (s.slot, r) := by
        simp only [Run.step, hdone]
      rw [hstep]
      refine ⟨h.lease, h.record, fun r' hr' => ?_, h.unassigns⟩
      obtain hr' | rfl := List.mem_or_eq_of_mem_set hr'
      · exact h.runs r' hr'
      · exact hdone
  | stop j fails timeout =>
    simp only [Agent.step]
    split
    · exact h
    · rename_i u hu
      have hstep : ∃ p, u.stop.step true fails timeout s.slot = (s.slot, p) ∧ p.pc = .done := by
        obtain hload | hdone := h.unassigns u (List.mem_of_getElem? hu)
        · exact ⟨{ u.stop with pc := .done }, by simp only [Stop.step, hload, h.record]; simp, rfl⟩
        · exact ⟨u.stop, by simp only [Stop.step, hdone], hdone⟩
      obtain ⟨p, hp, hdone⟩ := hstep
      rw [hp]
      refine ⟨h.lease, h.record, h.runs, fun u' hu' => ?_⟩
      obtain hu' | rfl := List.mem_or_eq_of_mem_set hu'
      · exact h.unassigns u' hu'
      · exact .inr hdone

theorem cleanup_unrecorded (cni : Bool) (f : CleanupFaults) {s : Slot} (h : s.record = false) :
    s.cleanup cni f = s := by
  simp [Slot.cleanup, h]

theorem stranded_start (hlease : (c id).slot.lease = some ip) (hrecord : (c id).slot.record = false)
    (ids : List String) (faults : String → CleanupFaults) :
    Stranded ip (c.step (.start ids faults) id) := by
  refine cleanupAll_of ⟨hlease, hrecord, by simp [ended], by simp [ended]⟩ (fun s hs => ?_) ids
  rw [cleanup_unrecorded true (faults id) hs.record]
  exact hs

theorem Stranded.step (h : Stranded ip (c id)) {e : Event} (he : e ≠ .on id (.assign true)) :
    Stranded ip (c.step e id) := by
  cases e with
  | on a e =>
    by_cases hid : id = a
    · subst hid
      rw [Containers.step, Function.update_self]
      exact h.agentStep fun h => he (h ▸ rfl)
    · rw [Containers.step, Function.update_of_ne hid]
      exact h
  | start ids faults => exact stranded_start h.lease h.record ids faults
  | serverStart ids faults =>
    refine cleanupAll_of h (fun s hs => ?_) ids
    rw [serverCleanup, cleanup_unrecorded false (faults id) hs.record]
    exact hs

theorem Stranded.run (h : Stranded ip (c id)) {es : List Event}
    (hes : ∀ e ∈ es, e ≠ .on id (.assign true)) : Stranded ip (run Containers.step c es id) := by
  induction es generalizing c with
  | nil => exact h
  | cons e es ih =>
    exact ih (h.step (hes e List.mem_cons_self)) fun e' he => hes e' (List.mem_cons_of_mem e he)

/-- If an agent dies while an address is leased to a container without a record, nothing but
    another assignment of the container releases the address. -/
theorem unrecorded_lease_outlives_restart (c : Containers) (id : String)
    (hlease : (c id).slot.lease = some ip) (hrecord : (c id).slot.record = false)
    (ids : List String) (faults : String → CleanupFaults) (es : List Event)
    (hes : ∀ e ∈ es, e ≠ .on id (.assign true)) :
    (run step (c.step (.start ids faults)) es id).slot.lease = some ip :=
  ((stranded_start hlease hrecord ids faults).run hes).lease

/-- A removal takes the container away while its setup is on the way. -/
private def overtaken : List Agent.Event := .flatten [[.assign true], .replicate 3 (.run 0 false ""),
  [.unassign], .replicate 4 (.stop 0 false false), [.exit], .replicate 5 (.stop 0 false false),
  [.run 0 false "10.22.0.3"]]

/-- No call fails, and the agent dies before the goroutine finds its task gone. -/
theorem unrecorded_lease_outlives_restart_overtaken :
    let c := run step (fun _ => {}) (overtaken.map (.on "web-0"))
    (c "web-0").runs.map Run.pc = [.setIP] ∧
      (run step (c.step (.start [] fun _ => {})) [.on "web-0" .unassign] "web-0").slot.lease =
        some "10.22.0.3" := by
  intro c
  have hc : c "web-0" = run (Agent.step true) {} overtaken := by
    rw [show c = _ from run_on _ _ _, Function.update_self]
  refine ⟨by rw [hc]; decide, unrecorded_lease_outlives_restart c "web-0" ?_ ?_ [] _ _ (by simp)⟩
  · rw [hc]
    decide
  · rw [hc]
    decide

theorem cleanup_working (cni : Bool) {s : Slot} (h : s.record = true) : s.cleanup cni {} =
    { gens := s.gens, lease := if cni then none else s.lease } := by
  obtain ⟨record, task, gens, lease, ip⟩ := s
  obtain rfl : record = true := h
  cases task <;> cases cni <;> rfl

/-- After a reboot of a host that agent and control plane share, no goroutine is left and the
    records are. If the agent starts first, the containers and their addresses are gone. If
    the control plane does, the containers are gone, and the addresses stay leased whatever
    happens then, until the same container is assigned to the host again. -/
theorem start_order_decides_leases {ids : List String}
    (hidle : ∀ id, (c id).runs = [] ∧ (c id).unassigns = []) (hlists : Lists ids c)
    (hrecord : (c id).slot.record = true) (hlease : (c id).slot.lease = some ip) :
    (c.step (.start ids fun _ => {}) id).slot = { gens := (c id).slot.gens } ∧
    (c.step (.serverStart ids fun _ => {}) id).slot.record = false ∧
    ∀ es : List Event, (∀ e ∈ es, e ≠ .on id (.assign true)) →
      (run step (c.step (.serverStart ids fun _ => {})) es id).slot.lease = some ip := by
  have hid := (hlists.mem id).mpr hrecord
  have hserver : Stranded ip (c.step (.serverStart ids fun _ => {}) id) := by
    rw [step, cleanupAll_apply _ hlists.nodup, if_pos hid]
    refine ⟨?_, ?_, by simp [hidle id], by simp [hidle id]⟩
    · exact (lease_serverCleanup {} _).trans hlease
    · simp [serverCleanup, cleanup_working false hrecord]
  refine ⟨?_, hserver.record, fun es hes => (hserver.run hes).lease⟩
  have hended : (ended (c id)).slot.record = true := hrecord
  rw [step, cleanupAll_apply _ hlists.nodup, if_pos hid]
  exact cleanup_working true hended

/-- One container, and the agent that starts after the control plane. -/
theorem start_order_decides_leases_web :
    let c : Containers := Function.update (fun _ => {}) "web-0"
      { slot := ⟨true, none, 1, some "10.22.0.2", none⟩ }
    (c.step (.start ["web-0"] fun _ => {}) "web-0").slot.lease = none ∧
      (run step (c.step (.serverStart ["web-0"] fun _ => {})) [.start [] fun _ => {}]
        "web-0").slot.lease = some "10.22.0.2" := by
  intro c
  have hidle (id : String) : (c id).runs = [] ∧ (c id).unassigns = [] := by
    by_cases hid : id = "web-0" <;> simp [c, hid]
  have hlists : Lists ["web-0"] c := by
    refine ⟨List.nodup_singleton _, fun id => ?_⟩
    by_cases hid : id = "web-0" <;> simp [c, hid]
  obtain ⟨hagent, -, hserver⟩ := start_order_decides_leases hidle hlists
    (show (c "web-0").slot.record = true from rfl)
    (show (c "web-0").slot.lease = some "10.22.0.2" from rfl)
  exact ⟨by rw [hagent], hserver _ (by simp)⟩

end Containers
end Smith
