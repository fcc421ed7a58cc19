import Smith.Runs

set_option autoImplicit false

/-!
# Running and stopping one container

What an agent holds under one container id, and the two programs that act on it:
`RunContainer`, which creates the container, waits for it and cleans up, and `StopContainer`.
A step of a program is one call to containerd, to the network plugin or to the table of
addresses. All calls are by id: a handle of an earlier container acts on the one that holds
the id now. Any call may fail without effect, and a setup of the network also with the effect
that an address is leased.
-/
namespace Smith

inductive TaskStatus where
  | created
  | running
  | stopped
  deriving DecidableEq, Repr

/-- The task of a container. `gen` tells it from other tasks under the same id. -/
structure Task where
  gen : ℕ
  status : TaskStatus
  deriving DecidableEq, Repr

/-- Everything kept under one container id. -/
structure Slot where
  record : Bool := false
  task : Option Task := none
  /-- The number of tasks created so far. -/
  gens : ℕ := 0
  /-- The address that the network plugin leases to the id. -/
  lease : Option String := none
  /-- The entry of the client's table of addresses. -/
  ip : Option String := none
  deriving DecidableEq, Repr

inductive CallError where
  | notFound
  | alreadyExists
  | failedPrecondition
  | unavailable
  deriving DecidableEq, Repr

namespace Slot

def newContainer (s : Slot) : Except CallError Slot :=
  if s.record then .error .alreadyExists else .ok { s with record := true }

def newTask (s : Slot) : Except CallError Slot :=
  if s.record = false then .error .notFound
  else if s.task.isSome then .error .alreadyExists
  else .ok { s with task := some ⟨s.gens, .created⟩, gens := s.gens + 1 }

def startTask (s : Slot) : Except CallError Slot :=
  match s.task with
  | none => .error .notFound
  | some ⟨gen, .created⟩ => .ok { s with task := some ⟨gen, .running⟩ }
  | some _ => .error .failedPrecondition

/-- A task is deleted once it has stopped. -/
def deleteTask (s : Slot) : Except CallError Slot :=
  match s.task with
  | none => .error .notFound
  | some ⟨_, .stopped⟩ => .ok { s with task := none }
  | some _ => .error .failedPrecondition

/-- `Delete` with `WithProcessKill`. -/
def killAndDeleteTask (s : Slot) : Except CallError Slot :=
  match s.task with
  | none => .error .notFound
  | some _ => .ok { s with task := none }

/-- A container is deleted once it has no task. -/
def deleteContainer (s : Slot) : Except CallError Slot :=
  if s.task.isSome then .error .failedPrecondition
  else if s.record = false then .error .notFound
  else .ok { s with record := false }

/-- The process of the task ends, by itself or by a signal. -/
def exit (s : Slot) : Slot := { s with task := s.task.map fun t => { t with status := .stopped } }

def exited (s : Slot) (gen : ℕ) : Bool :=
  match s.task with
  | none => true
  | some t => t.gen ≠ gen || t.status = .stopped

def teardown (s : Slot) (cni fails : Bool) : Slot :=
  if cni && !fails then { s with lease := none } else s

def setIP (s : Slot) (ip : String) : Slot := if ip = "" then s else { s with ip := some ip }

def clearIP (s : Slot) : Slot := { s with ip := none }

def attempt (fails : Bool) (call : Slot → Except CallError Slot) (s : Slot) :
    Except CallError Slot :=
  if fails then .error .unavailable else call s

/-- A call whose error is only logged. -/
def tolerate (fails : Bool) (call : Slot → Except CallError Slot) (s : Slot) : Slot :=
  match attempt fails call s with
  | .ok s' => s'
  | .error _ => s

end Slot

/-- Where an assignment's goroutine is: the image lookup and pull, then `RunContainer`. -/
inductive RunPC where
  | fetch
  | create
  | newTask
  | setup
  | setIP
  | wait
  | start
  | running
  -- deferred cleanups of an early return
  | cleanupCNI
  | cleanupTask
  -- the exit path, whose last two calls an early return shares
  | teardown
  | taskDelete
  | clearIP
  | containerDelete
  | done
  deriving DecidableEq, Repr

structure Run where
  pc : RunPC := .fetch
  /-- The address that the network plugin returned. -/
  addr : String := ""
  /-- The task whose exit is awaited. -/
  gen : ℕ := 0
  deriving DecidableEq, Repr

/-- One call of the goroutine. `addr` is what the plugin leases at a setup. One that fails
    before it has leased anything has an empty `addr`. -/
def Run.step (cni fails : Bool) (addr : String) (s : Slot) (r : Run) : Slot × Run :=
  match r.pc with
  | .fetch => (s, { r with pc := if fails then .done else .create })
  | .create =>
    match s.attempt fails Slot.newContainer with
    | .error _ => (s, { r with pc := .done })
    | .ok s' => (s', { r with pc := .newTask })
  | .newTask =>
    match s.attempt fails Slot.newTask with
    | .error _ => (s, { r with pc := .clearIP })
    | .ok s' => (s', { r with pc := .setup })
  | .setup =>
    if cni = false then (s, { r with pc := .wait })
    else if fails then
      -- the teardown is deferred only after a setup that returned no error
      (if addr = "" then s else { s with lease := some addr }, { r with pc := .cleanupTask })
    else ({ s with lease := some addr }, { r with pc := .setIP, addr := addr })
  | .setIP => (s.setIP r.addr, { r with pc := .wait })
  | .wait =>
    match s.task with
    | none => (s, { r with pc := .cleanupCNI })
    | some t =>
      (s, if fails then { r with pc := .cleanupCNI } else { r with pc := .start, gen := t.gen })
  | .start =>
    match s.attempt fails Slot.startTask with
    | .error _ => (s, { r with pc := .cleanupCNI })
    | .ok s' => (s', { r with pc := .running })
  | .running => (s, if s.exited r.gen then { r with pc := .teardown } else r)
  | .cleanupCNI => (s.teardown cni fails, { r with pc := .cleanupTask })
  | .cleanupTask => (s.tolerate fails Slot.killAndDeleteTask, { r with pc := .clearIP })
  | .teardown => (s.teardown cni fails, { r with pc := .taskDelete })
  | .taskDelete => (s.tolerate fails Slot.deleteTask, { r with pc := .clearIP })
  | .clearIP => (s.clearIP, { r with pc := .containerDelete })
  | .containerDelete => (s.tolerate fails Slot.deleteContainer, { r with pc := .done })
  | .done => (s, r)

/-- Where a `StopContainer` is. -/
inductive StopPC where
  | load
  | getTask
  | wait
  | kill
  | await
  | teardown
  | taskDelete
  | clearIP
  | containerDelete
  | done
  deriving DecidableEq, Repr

structure Stop where
  pc : StopPC := .load
  gen : ℕ := 0
  deriving DecidableEq, Repr

/-- One call of `StopContainer`. It gives up waiting for the exit on `timeout`, and its error
    is only logged by the caller. -/
def Stop.step (cni fails timeout : Bool) (s : Slot) (p : Stop) : Slot × Stop :=
  match p.pc with
  | .load => (s, { p with pc := if fails || !s.record then .done else .getTask })
  | .getTask => (s, { p with pc := if fails || s.task.isNone then .clearIP else .wait })
  | .wait =>
    match s.task with
    | none => (s, { p with pc := .teardown })
    | some t =>
      (s, if fails then { p with pc := .teardown } else { p with pc := .kill, gen := t.gen })
  | .kill => (s, { p with pc := .await })
  | .await => (s, if s.exited p.gen || timeout then { p with pc := .teardown } else p)
  | .teardown => (s.teardown cni fails, { p with pc := .taskDelete })
  | .taskDelete => (s.tolerate fails Slot.deleteTask, { p with pc := .clearIP })
  | .clearIP => (s.clearIP, { p with pc := .containerDelete })
  | .containerDelete => (s.tolerate fails Slot.deleteContainer, { p with pc := .done })
  | .done => (s, p)

namespace Slot

theorem newContainer_ok {s s' : Slot} (h : s.newContainer = .ok s') :
    s' = { s with record := true } := by
  unfold newContainer at h
  split_ifs at h
  exact (Except.ok.inj h).symm

theorem newTask_ok {s s' : Slot} (h : s.newTask = .ok s') : s.record = true ∧
    s' = { s with task := some ⟨s.gens, .created⟩, gens := s.gens + 1 } := by
  unfold newTask at h
  split_ifs at h with hr
  exact ⟨(Bool.not_eq_false _).mp hr, (Except.ok.inj h).symm⟩

theorem startTask_ok {s s' : Slot} (h : s.startTask = .ok s') : ∃ gen,
    s.task = some ⟨gen, .created⟩ ∧ s' = { s with task := some ⟨gen, .running⟩ } := by
  unfold startTask at h
  split at h
  · exact absurd h (by simp)
  · rename_i gen ht
    exact ⟨gen, ht, (Except.ok.inj h).symm⟩
  · exact absurd h (by simp)

theorem deleteTask_ok {s s' : Slot} (h : s.deleteTask = .ok s') : s' = { s with task := none } := by
  unfold deleteTask at h
  split at h
  · exact absurd h (by simp)
  · exact (Except.ok.inj h).symm
  · exact absurd h (by simp)

theorem killAndDeleteTask_ok {s s' : Slot} (h : s.killAndDeleteTask = .ok s') :
    s' = { s with task := none } := by
  unfold killAndDeleteTask at h
  split at h
  · exact absurd h (by simp)
  · exact (Except.ok.inj h).symm

theorem deleteContainer_ok {s s' : Slot} (h : s.deleteContainer = .ok s') :
    s.task = none ∧ s' = { s with record := false } := by
  unfold deleteContainer at h
  split_ifs at h with ht
  exact ⟨Option.not_isSome_iff_eq_none.mp ht, (Except.ok.inj h).symm⟩

theorem ok_of_attempt {fails : Bool} {call : Slot → Except CallError Slot} {s s' : Slot}
    (h : s.attempt fails call = .ok s') : call s = .ok s' := by
  unfold attempt at h
  split_ifs at h
  exact h

theorem tolerate_of {P : Slot → Prop} {call : Slot → Except CallError Slot} {s : Slot} (hs : P s)
    (hcall : ∀ s', call s = .ok s' → P s') (fails : Bool) : P (s.tolerate fails call) := by
  unfold tolerate
  split
  · rename_i s' h
    exact hcall s' (ok_of_attempt h)
  · exact hs

theorem tolerate_deleteTask_of {P : Slot → Prop} {s : Slot} (hs : P s)
    (hdrop : P { s with task := none }) (fails : Bool) :
    P (s.tolerate fails deleteTask) ∧ P (s.tolerate fails killAndDeleteTask) :=
  ⟨tolerate_of hs (fun _ h => deleteTask_ok h ▸ hdrop) fails,
    tolerate_of hs (fun _ h => killAndDeleteTask_ok h ▸ hdrop) fails⟩

/-- containerd keeps no task without its container. -/
def Sound (s : Slot) : Prop := s.task.isSome = true → s.record = true

/-- What programs that create nothing can do to a slot: drop the record, drop the task or
    move it on. -/
structure Shrinks (s s' : Slot) : Prop where
  record : s'.record = true → s.record = true
  task : ∀ t', s'.task = some t' → ∃ t, s.task = some t ∧ t.gen = t'.gen ∧
    (t.status = .stopped → t'.status = .stopped)

theorem Shrinks.refl (s : Slot) : Shrinks s s := ⟨id, fun t h => ⟨t, h, rfl, id⟩⟩

theorem Shrinks.of_task_eq {s s' : Slot} (hr : s'.record = s.record) (ht : s'.task = s.task) :
    Shrinks s s' :=
  ⟨fun h => hr ▸ h, fun t h => ⟨t, ht ▸ h, rfl, id⟩⟩

theorem shrinks_exit (s : Slot) : Shrinks s s.exit := by
  refine ⟨id, fun t' h => ?_⟩
  obtain ⟨t, ht, rfl⟩ := Option.map_eq_some_iff.mp h
  exact ⟨t, ht, rfl, fun _ => rfl⟩

theorem shrinks_teardown (s : Slot) (cni fails : Bool) : Shrinks s (s.teardown cni fails) := by
  unfold teardown
  split_ifs
  · exact .of_task_eq rfl rfl
  · exact .refl s

theorem shrinks_startTask {s s' : Slot} (h : s.startTask = .ok s') : Shrinks s s' := by
  obtain ⟨gen, ht, rfl⟩ := startTask_ok h
  refine ⟨id, fun t' h' => ⟨_, ht, ?_, by simp⟩⟩
  rw [← Option.some.inj h']

theorem shrinks_dropTask (s : Slot) : Shrinks s { s with task := none } := ⟨id, by simp⟩

theorem shrinks_deleteContainer {s s' : Slot} (h : s.deleteContainer = .ok s') : Shrinks s s' := by
  obtain ⟨-, rfl⟩ := deleteContainer_ok h
  exact ⟨by simp, fun t h => ⟨t, h, rfl, id⟩⟩

theorem Sound.of_task_eq {s s' : Slot} (h : s.Sound) (hr : s'.record = s.record)
    (ht : s'.task = s.task) : s'.Sound := by
  unfold Sound
  rw [hr, ht]
  exact h

theorem Sound.exit {s : Slot} (h : s.Sound) : s.exit.Sound := by
  intro ht
  exact h (by simpa [Slot.exit] using ht)

theorem Sound.teardown {s : Slot} (h : s.Sound) (cni fails : Bool) :
    (s.teardown cni fails).Sound := by
  unfold Slot.teardown
  split_ifs
  · exact h.of_task_eq rfl rfl
  · exact h

theorem Sound.setIP {s : Slot} (h : s.Sound) (ip : String) : (s.setIP ip).Sound := by
  unfold Slot.setIP
  split_ifs
  · exact h
  · exact h.of_task_eq rfl rfl

theorem Sound.newContainer {s s' : Slot} (h : s.newContainer = .ok s') : s'.Sound := by
  obtain rfl := newContainer_ok h
  exact fun _ => rfl

theorem Sound.newTask {s s' : Slot} (h : s.newTask = .ok s') : s'.Sound := by
  obtain ⟨hr, rfl⟩ := newTask_ok h
  exact fun _ => hr

theorem Sound.startTask {s s' : Slot} (hs : s.Sound) (h : s.startTask = .ok s') : s'.Sound := by
  obtain ⟨gen, ht, rfl⟩ := startTask_ok h
  exact fun _ => hs (by simp [ht])

theorem sound_dropTask (s : Slot) : Sound { s with task := none } :=
  fun ht => absurd ht (by simp)

theorem Sound.deleteContainer {s s' : Slot} (h : s.deleteContainer = .ok s') : s'.Sound := by
  obtain ⟨ht, rfl⟩ := deleteContainer_ok h
  exact fun ht' => absurd ht' (by simp [ht])

end Slot

/-- The goroutine has yet to create its container or its task. -/
def RunPC.creates : RunPC → Bool
  | .fetch | .create | .newTask => true
  | _ => false

/-- Past the creation of its task a goroutine creates nothing. -/
theorem Run.step_shrinks {r : Run} (h : r.pc.creates = false) (cni fails : Bool) (addr : String)
    (s : Slot) :
    s.Shrinks (r.step cni fails addr s).1 ∧ (r.step cni fails addr s).2.pc.creates = false := by
  obtain ⟨pc, a, gen⟩ := r
  cases pc with
  | fetch => exact absurd h (by simp [RunPC.creates])
  | create => exact absurd h (by simp [RunPC.creates])
  | newTask => exact absurd h (by simp [RunPC.creates])
  | setup =>
    simp only [Run.step]
    split_ifs
    · exact ⟨.refl s, rfl⟩
    · exact ⟨.refl s, rfl⟩
    · exact ⟨.of_task_eq rfl rfl, rfl⟩
    · exact ⟨.of_task_eq rfl rfl, rfl⟩
  | setIP =>
    simp only [Run.step, Slot.setIP]
    split_ifs
    · exact ⟨.refl s, rfl⟩
    · exact ⟨.of_task_eq rfl rfl, rfl⟩
  | wait =>
    simp only [Run.step]
    split
    · exact ⟨.refl s, rfl⟩
    · split_ifs
      · exact ⟨.refl s, rfl⟩
      · exact ⟨.refl s, rfl⟩
  | start =>
    simp only [Run.step]
    split
    · exact ⟨.refl s, rfl⟩
    · rename_i s' hstart
      exact ⟨Slot.shrinks_startTask (Slot.ok_of_attempt hstart), rfl⟩
  | running =>
    simp only [Run.step]
    split_ifs
    · exact ⟨.refl s, rfl⟩
    · exact ⟨.refl s, rfl⟩
  | cleanupCNI => exact ⟨Slot.shrinks_teardown s cni fails, rfl⟩
  | cleanupTask =>
    exact ⟨(Slot.tolerate_deleteTask_of (.refl s) s.shrinks_dropTask fails).2, rfl⟩
  | teardown => exact ⟨Slot.shrinks_teardown s cni fails, rfl⟩
  | taskDelete =>
    exact ⟨(Slot.tolerate_deleteTask_of (.refl s) s.shrinks_dropTask fails).1, rfl⟩
  | clearIP => exact ⟨.of_task_eq rfl rfl, rfl⟩
  | containerDelete =>
    exact ⟨Slot.tolerate_of (.refl s) (fun _ => Slot.shrinks_deleteContainer) fails, rfl⟩
  | done => exact ⟨.refl s, rfl⟩

theorem Stop.step_shrinks (p : Stop) (cni fails timeout : Bool) (s : Slot) :
    s.Shrinks (p.step cni fails timeout s).1 := by
  obtain ⟨pc, gen⟩ := p
  cases pc with
  | wait =>
    simp only [Stop.step]
    split
    · exact .refl s
    · exact .refl s
  | teardown => exact Slot.shrinks_teardown s cni fails
  | taskDelete => exact (Slot.tolerate_deleteTask_of (.refl s) s.shrinks_dropTask fails).1
  | clearIP => exact .of_task_eq rfl rfl
  | containerDelete =>
    exact Slot.tolerate_of (.refl s) (fun _ => Slot.shrinks_deleteContainer) fails
  | load => exact .refl s
  | getTask => exact .refl s
  | kill => exact .refl s
  | await => exact .refl s
  | done => exact .refl s

theorem Run.step_sound (r : Run) (cni fails : Bool) (addr : String) {s : Slot} (h : s.Sound) :
    (r.step cni fails addr s).1.Sound := by
  obtain ⟨pc, a, gen⟩ := r
  cases pc with
  | create =>
    simp only [Run.step]
    split
    · exact h
    · rename_i s' hnew
      exact .newContainer (Slot.ok_of_attempt hnew)
  | newTask =>
    simp only [Run.step]
    split
    · exact h
    · rename_i s' hnew
      exact .newTask (Slot.ok_of_attempt hnew)
  | setup =>
    simp only [Run.step]
    split_ifs
    · exact h
    · exact h
    · exact h.of_task_eq rfl rfl
    · exact h.of_task_eq rfl rfl
  | setIP => exact h.setIP a
  | wait =>
    simp only [Run.step]
    split
    · exact h
    · exact h
  | start =>
    simp only [Run.step]
    split
    · exact h
    · rename_i s' hstart
      exact h.startTask (Slot.ok_of_attempt hstart)
  | cleanupCNI => exact h.teardown cni fails
  | cleanupTask => exact (Slot.tolerate_deleteTask_of h s.sound_dropTask fails).2
  | teardown => exact h.teardown cni fails
  | taskDelete => exact (Slot.tolerate_deleteTask_of h s.sound_dropTask fails).1
  | clearIP => exact h.of_task_eq rfl rfl
  | containerDelete => exact Slot.tolerate_of h (fun _ => .deleteContainer) fails
  | fetch => exact h
  | running => exact h
  | done => exact h

theorem Stop.step_sound (p : Stop) (cni fails timeout : Bool) {s : Slot} (h : s.Sound) :
    (p.step cni fails timeout s).1.Sound := by
  obtain ⟨pc, gen⟩ := p
  cases pc with
  | wait =>
    simp only [Stop.step]
    split
    · exact h
    · exact h
  | teardown => exact h.teardown cni fails
  | taskDelete => exact (Slot.tolerate_deleteTask_of h s.sound_dropTask fails).1
  | clearIP => exact h.of_task_eq rfl rfl
  | containerDelete => exact Slot.tolerate_of h (fun _ => .deleteContainer) fails
  | load => exact h
  | getTask => exact h
  | kill => exact h
  | await => exact h
  | done => exact h

end Smith
