import Smith.ContainerRuntime

set_option autoImplicit false

/-!
# Recreating a container in place

A replica is replaced by a `StopContainer` and then a new `RunContainer` under the same id.
The exit path of the old `RunContainer` runs next to both: nothing waits for it. Its cleanups
are by id, so where they fall after the steps of the new run they undo them.
-/
namespace Smith
open Runs

/-- The old run, the stop, and the new run once it has begun. -/
structure Recreation where
  slot : Slot
  old : Run
  stop : Stop := {}
  new : Option Run := none
  deriving DecidableEq, Repr

namespace Recreation

/-- Whose call comes next, or the end of the process. -/
inductive Turn where
  | old
  | stop (timeout : Bool)
  /-- The new run begins once the stop has returned. -/
  | start
  | new
  | exit
  deriving DecidableEq, Repr

/-- The old container is running with its lease and its address. -/
def init (addr : String) : Recreation where
  slot :=
    { record := true, task := some ⟨0, .running⟩, gens := 1, lease := some addr, ip := some addr }
  old := { pc := .running, addr := addr }

/-- `addr` is the address that the plugin gives to the new container. -/
def step (addr : String) (s : Recreation) : Turn → Recreation
  | .old =>
    let (slot, r) := s.old.step true false "" s.slot
    { s with slot := slot, old := r }
  | .stop timeout =>
    let (slot, p) := s.stop.step true false timeout s.slot
    { s with slot := slot, stop := p }
  | .start =>
    if s.stop.pc = .done ∧ s.new = none then { s with new := some { pc := .create } } else s
  | .new =>
    match s.new with
    | none => s
    | some r =>
      let (slot, r) := r.step true false addr s.slot
      { s with slot := slot, new := some r }
  | .exit => { s with slot := s.slot.exit }

end Recreation

def RunPC.exiting : RunPC → Bool
  | .running | .teardown | .taskDelete | .clearIP | .containerDelete | .done => true
  | _ => false

def RunPC.tornDown : RunPC → Bool
  | .taskDelete | .clearIP | .containerDelete | .done => true
  | _ => false

def RunPC.cleared : RunPC → Bool
  | .containerDelete | .done => true
  | _ => false

def RunPC.beforeSetup : RunPC → Bool
  | .fetch | .create | .newTask | .setup => true
  | _ => false

/-- The network is set up and the process has not been seen to end. -/
def RunPC.networked : RunPC → Bool
  | .setIP | .wait | .start | .running => true
  | _ => false

/-- As `networked`, and the address is recorded. -/
def RunPC.addressed : RunPC → Bool
  | .wait | .start | .running => true
  | _ => false

namespace Slot

def SameNet (s s' : Slot) : Prop := s'.lease = s.lease ∧ s'.ip = s.ip

theorem SameNet.refl (s : Slot) : s.SameNet s := ⟨rfl, rfl⟩

end Slot

/-- What one call of the exit path does to the lease and to the address. -/
structure Run.Exits (r r' : Run) (s s' : Slot) : Prop where
  exiting : r'.pc.exiting = true
  torn : r.pc.tornDown = true → r'.pc.tornDown = true ∧ s'.lease = s.lease
  tears : r.pc.tornDown = false → r'.pc.tornDown = true → s'.lease = none
  cleared : r.pc.cleared = true → r'.pc.cleared = true ∧ s'.ip = s.ip
  clears : r.pc.cleared = false → r'.pc.cleared = true → s'.ip = none

theorem Run.exits_step {r : Run} (h : r.pc.exiting = true) (addr : String) (s : Slot) :
    r.Exits (r.step true false addr s).2 s (r.step true false addr s).1 := by
  obtain ⟨pc, a, gen⟩ := r
  cases pc with
  | running =>
    simp only [Run.step]
    split_ifs
    · constructor <;> simp [RunPC.exiting, RunPC.tornDown, RunPC.cleared]
    · constructor <;> simp [RunPC.exiting, RunPC.tornDown, RunPC.cleared]
  | teardown =>
    constructor <;> simp [Run.step, RunPC.exiting, RunPC.tornDown, RunPC.cleared, Slot.teardown]
  | taskDelete =>
    have hnet : s.SameNet (s.tolerate false Slot.deleteTask) :=
      (Slot.tolerate_deleteTask_of (.refl s) ⟨rfl, rfl⟩ false).1
    constructor <;> simp [Run.step, RunPC.exiting, RunPC.tornDown, RunPC.cleared, hnet.1]
  | clearIP =>
    constructor <;> simp [Run.step, RunPC.exiting, RunPC.tornDown, RunPC.cleared, Slot.clearIP]
  | containerDelete =>
    have hnet : s.SameNet (s.tolerate false Slot.deleteContainer) :=
      Slot.tolerate_of (.refl s) (fun _ h => (Slot.deleteContainer_ok h).2 ▸ ⟨rfl, rfl⟩) false
    constructor <;> simp [Run.step, RunPC.exiting, RunPC.tornDown, RunPC.cleared, hnet.1, hnet.2]
  | done => constructor <;> simp [Run.step, RunPC.exiting, RunPC.tornDown, RunPC.cleared]
  | fetch | create | newTask | setup | setIP | wait | start | cleanupCNI | cleanupTask =>
    exact absurd h (by simp [RunPC.exiting])

/-- What one call of a run that gets its network does to the lease and to the address. -/
structure Run.Advances (addr : String) (r r' : Run) (s s' : Slot) : Prop where
  early : r'.pc.beforeSetup = true → r.pc.beforeSetup = true ∧ r.pc ≠ .setup
  gotAddr : r'.pc = .setIP → r.pc = .setup ∧ r'.addr = addr
  lease : r'.pc.networked = true →
    r.pc = .setup ∧ s'.lease = some addr ∨ r.pc.networked = true ∧ s'.lease = s.lease
  ip : r'.pc.addressed = true →
    r.pc = .setIP ∧ s' = s.setIP r.addr ∨ r.pc.addressed = true ∧ s'.ip = s.ip

theorem Run.Advances.of_leaving {addr : String} {r r' : Run} {s s' : Slot}
    (he : r'.pc.beforeSetup = false) (hn : r'.pc.networked = false) : r.Advances addr r' s s' := by
  have hpc : r'.pc ≠ .setIP := fun h => by simp [h, RunPC.networked] at hn
  have ha : r'.pc.addressed = false := by
    cases h : r'.pc <;> simp_all [RunPC.networked, RunPC.addressed]
  exact ⟨by simp [he], fun h => absurd h hpc, by simp [hn], by simp [ha]⟩

theorem Run.Advances.of_addressed {addr : String} {r r' : Run} {s s' : Slot}
    (hr : r.pc.addressed = true) (hr' : r'.pc.addressed = true) (h : s.SameNet s') :
    r.Advances addr r' s s' := by
  have hn : r.pc.networked = true := by
    cases hpc : r.pc <;> simp_all [RunPC.networked, RunPC.addressed]
  have he : r'.pc.beforeSetup = false ∧ r'.pc ≠ .setIP := by
    cases hpc : r'.pc <;> simp_all [RunPC.beforeSetup, RunPC.addressed]
  exact ⟨by simp [he.1], fun hp => absurd hp he.2, fun _ => .inr ⟨hn, h.1⟩, fun _ => .inr ⟨hr, h.2⟩⟩

theorem Run.advances_step (r : Run) (addr : String) (s : Slot) :
    r.Advances addr (r.step true false addr s).2 s (r.step true false addr s).1 := by
  obtain ⟨pc, a, gen⟩ := r
  cases pc with
  | fetch => constructor <;> simp [Run.step, RunPC.beforeSetup, RunPC.networked, RunPC.addressed]
  | create =>
    simp only [Run.step]
    split
    · exact .of_leaving rfl rfl
    · constructor <;> simp [RunPC.beforeSetup, RunPC.networked, RunPC.addressed]
  | newTask =>
    simp only [Run.step]
    split
    · exact .of_leaving rfl rfl
    · constructor <;> simp [RunPC.beforeSetup, RunPC.networked, RunPC.addressed]
  | setup => constructor <;> simp [Run.step, RunPC.beforeSetup, RunPC.networked, RunPC.addressed]
  | setIP =>
    have hlease : (s.setIP a).lease = s.lease := by
      unfold Slot.setIP
      split_ifs
      · rfl
      · rfl
    constructor <;> simp [Run.step, RunPC.beforeSetup, RunPC.networked, RunPC.addressed, hlease]
  | wait =>
    simp only [Run.step]
    split
    · exact .of_leaving rfl rfl
    · exact .of_addressed rfl rfl (.refl s)
  | start =>
    simp only [Run.step]
    split
    · exact .of_leaving rfl rfl
    · rename_i s' hstart
      obtain ⟨_, -, rfl⟩ := Slot.startTask_ok (Slot.ok_of_attempt hstart)
      exact .of_addressed rfl rfl ⟨rfl, rfl⟩
  | running =>
    simp only [Run.step]
    split_ifs
    · exact .of_leaving rfl rfl
    · exact .of_addressed rfl rfl (.refl s)
  | cleanupCNI | cleanupTask | teardown | taskDelete | clearIP | containerDelete | done =>
    exact .of_leaving rfl rfl

namespace Recreation

def SetupAfterTeardown (s : Recreation) : Turn → Prop
  | .new => ∀ r, s.new = some r → r.pc = .setup → s.old.pc.tornDown = true
  | _ => True

def RecordAfterClear (s : Recreation) : Turn → Prop
  | .new => ∀ r, s.new = some r → r.pc = .setIP → s.old.pc.cleared = true
  | _ => True

def Ordered (s : Recreation) (e : Turn) : Prop := SetupAfterTeardown s e ∧ RecordAfterClear s e

/-- How far the new run is and what of it is left, given whether the setup (`g₁`) and the record
    of the address (`g₂`) came after the old cleanups. -/
structure Inv (addr : String) (g₁ g₂ : Prop) (s : Recreation) : Prop where
  sound : s.slot.Sound
  old : s.old.pc.exiting = true
  stopped : s.new ≠ none → s.stop.pc = .done
  early : (∀ r, s.new = some r → r.pc.beforeSetup = true) → g₁ ∧ g₂
  addressKnown : ∀ r, s.new = some r → r.pc = .setIP → g₂ ∧ r.addr = addr
  lease : ∀ r, s.new = some r → r.pc.networked = true →
    (g₁ → s.old.pc.tornDown = true ∧ s.slot.lease = some addr) ∧
      (¬ g₁ → s.old.pc.tornDown = true → s.slot.lease = none)
  ip : ∀ r, s.new = some r → r.pc.addressed = true →
    (g₂ → s.old.pc.cleared = true ∧ s.slot.ip = some addr) ∧
      (¬ g₂ → s.old.pc.cleared = true → s.slot.ip = none)

theorem Inv.init (addr a₀ : String) : Inv addr True True (Recreation.init a₀) :=
  ⟨fun _ => rfl, rfl, by simp [Recreation.init], fun _ => ⟨trivial, trivial⟩,
    by simp [Recreation.init], by simp [Recreation.init], by simp [Recreation.init]⟩

section

variable {addr : String} {g₁ g₂ : Prop} {s : Recreation}

theorem Inv.old_step (h : Inv addr g₁ g₂ s) : Inv addr g₁ g₂ (step addr s .old) := by
  have hx := Run.exits_step h.old "" s.slot
  refine ⟨Run.step_sound s.old true false "" h.sound, hx.exiting, h.stopped, h.early,
    h.addressKnown, fun r hr hn => ?_, fun r hr ha => ?_⟩
  · obtain ⟨hafter, hbefore⟩ := h.lease r hr hn
    refine ⟨fun hg => ?_, fun hg ht => ?_⟩
    · obtain ⟨ht, hl⟩ := hafter hg
      exact ⟨(hx.torn ht).1, (hx.torn ht).2.trans hl⟩
    · cases hold : s.old.pc.tornDown with
      | true => exact (hx.torn hold).2.trans (hbefore hg hold)
      | false => exact hx.tears hold ht
  · obtain ⟨hafter, hbefore⟩ := h.ip r hr ha
    refine ⟨fun hg => ?_, fun hg hc => ?_⟩
    · obtain ⟨hc, hi⟩ := hafter hg
      exact ⟨(hx.cleared hc).1, (hx.cleared hc).2.trans hi⟩
    · cases hold : s.old.pc.cleared with
      | true => exact (hx.cleared hold).2.trans (hbefore hg hold)
      | false => exact hx.clears hold hc

/-- While the stop still has calls to make, the new run has not begun. -/
theorem Inv.stop_step (h : Inv addr g₁ g₂ s) (timeout : Bool) :
    Inv addr g₁ g₂ (step addr s (.stop timeout)) := by
  by_cases hnew : s.new = none
  -- before the new run begins the invariant says nothing of lease and address
  · exact ⟨Stop.step_sound s.stop true false timeout h.sound, h.old, fun hn => absurd hnew hn,
      h.early, h.addressKnown, by simp [step, hnew], by simp [step, hnew]⟩
  · have hsame : step addr s (.stop timeout) = s := by
      simp only [step, Stop.step, h.stopped hnew]
    rwa [hsame]

theorem Inv.start_step (h : Inv addr g₁ g₂ s) : Inv addr g₁ g₂ (step addr s .start) := by
  simp only [step]
  split_ifs with hstart
  · have hg : g₁ ∧ g₂ := h.early (by simp [hstart.2])
    exact ⟨h.sound, h.old, fun _ => hstart.1, fun _ => hg, by simp, by simp [RunPC.networked],
      by simp [RunPC.addressed]⟩
  · exact h

theorem Inv.exit_step (h : Inv addr g₁ g₂ s) : Inv addr g₁ g₂ (step addr s .exit) :=
  ⟨h.sound.exit, h.old, h.stopped, h.early, h.addressKnown, h.lease, h.ip⟩

section New

variable {r : Run} (hnew : s.new = some r)
include hnew

theorem Inv.before_setup (h : Inv addr g₁ g₂ s) (hb : r.pc.beforeSetup = true) : g₁ ∧ g₂ :=
  h.early fun r' hr' => by
    obtain rfl := Option.some.inj (hnew.symm.trans hr')
    exact hb

theorem Inv.new_lease (h : Inv addr g₁ g₂ s)
    (hn : (r.step true false addr s.slot).2.pc.networked = true) :
    (g₁ ∧ (r.pc = .setup → s.old.pc.tornDown = true) → s.old.pc.tornDown = true ∧
        (r.step true false addr s.slot).1.lease = some addr) ∧
      (¬ (g₁ ∧ (r.pc = .setup → s.old.pc.tornDown = true)) → s.old.pc.tornDown = true →
        (r.step true false addr s.slot).1.lease = none) := by
  rcases (r.advances_step addr s.slot).lease hn with ⟨hp, hl⟩ | ⟨hn, hl⟩
  · have hg : g₁ := (h.before_setup hnew (by rw [hp]; rfl)).1
    exact ⟨fun hg' => ⟨hg'.2 hp, hl⟩, fun hng ht => absurd ⟨hg, fun _ => ht⟩ hng⟩
  · have hne : r.pc ≠ .setup := fun hp => by simp [hp, RunPC.networked] at hn
    rw [and_iff_left fun hp => absurd hp hne, hl]
    exact h.lease r hnew hn

theorem Inv.new_ip (haddr : addr ≠ "") (h : Inv addr g₁ g₂ s)
    (ha : (r.step true false addr s.slot).2.pc.addressed = true) :
    (g₂ ∧ (r.pc = .setIP → s.old.pc.cleared = true) → s.old.pc.cleared = true ∧
        (r.step true false addr s.slot).1.ip = some addr) ∧
      (¬ (g₂ ∧ (r.pc = .setIP → s.old.pc.cleared = true)) → s.old.pc.cleared = true →
        (r.step true false addr s.slot).1.ip = none) := by
  rcases (r.advances_step addr s.slot).ip ha with ⟨hp, hi⟩ | ⟨ha, hi⟩
  · obtain ⟨hg, hra⟩ := h.addressKnown r hnew hp
    rw [hi, hra, Slot.setIP, if_neg haddr]
    exact ⟨fun hg' => ⟨hg'.2 hp, rfl⟩, fun hng hc => absurd ⟨hg, fun _ => hc⟩ hng⟩
  · have hne : r.pc ≠ .setIP := fun hp => by simp [hp, RunPC.addressed] at ha
    rw [and_iff_left fun hp => absurd hp hne, hi]
    exact h.ip r hnew ha

end New

theorem Inv.new_step (haddr : addr ≠ "") (h : Inv addr g₁ g₂ s) :
    Inv addr (g₁ ∧ SetupAfterTeardown s .new) (g₂ ∧ RecordAfterClear s .new)
      (step addr s .new) := by
  cases hnew : s.new with
  | none =>
    have hsame : step addr s .new = s := by simp only [step, hnew]
    have hs : SetupAfterTeardown s .new := by simp [SetupAfterTeardown, hnew]
    have hr : RecordAfterClear s .new := by simp [RecordAfterClear, hnew]
    rw [hsame, and_iff_left hs, and_iff_left hr]
    exact h
  | some r =>
    have hx := Run.advances_step r addr s.slot
    have hs : SetupAfterTeardown s .new ↔ (r.pc = .setup → s.old.pc.tornDown = true) := by
      simp [SetupAfterTeardown, hnew]
    have hr : RecordAfterClear s .new ↔ (r.pc = .setIP → s.old.pc.cleared = true) := by
      simp [RecordAfterClear, hnew]
    have hstep : step addr s .new = { s with
        slot := (r.step true false addr s.slot).1
        new := some (r.step true false addr s.slot).2 } := by
      simp only [step, hnew]
    rw [hstep, hs, hr]
    refine ⟨Run.step_sound r true false addr h.sound, h.old,
      fun _ => h.stopped (by simp [hnew]), fun hb => ?_, fun r' hr' hp => ?_,
      fun r' hr' hn => ?_, fun r' hr' ha => ?_⟩
    · obtain ⟨hb, hne⟩ := hx.early (hb _ rfl)
      obtain ⟨hg₁, hg₂⟩ := h.before_setup hnew hb
      have hne' : r.pc ≠ .setIP := fun hp => by simp [hp, RunPC.beforeSetup] at hb
      exact ⟨⟨hg₁, fun hp => absurd hp hne⟩, hg₂, fun hp => absurd hp hne'⟩
    · obtain rfl := Option.some.inj hr'
      obtain ⟨hp, ha⟩ := hx.gotAddr hp
      exact ⟨⟨(h.before_setup hnew (by rw [hp]; rfl)).2, by simp [hp]⟩, ha⟩
    · obtain rfl := Option.some.inj hr'
      exact h.new_lease hnew hn
    · obtain rfl := Option.some.inj hr'
      exact h.new_ip hnew haddr ha

theorem Inv.step (haddr : addr ≠ "") (h : Inv addr g₁ g₂ s) (e : Turn) :
    Inv addr (g₁ ∧ SetupAfterTeardown s e) (g₂ ∧ RecordAfterClear s e) (step addr s e) := by
  cases e with
  | new => exact h.new_step haddr
  | old => simpa only [SetupAfterTeardown, RecordAfterClear, and_true] using h.old_step
  | stop timeout =>
    simpa only [SetupAfterTeardown, RecordAfterClear, and_true] using h.stop_step timeout
  | start => simpa only [SetupAfterTeardown, RecordAfterClear, and_true] using h.start_step
  | exit => simpa only [SetupAfterTeardown, RecordAfterClear, and_true] using h.exit_step

-- A run is extended at its end: whether the orders held so far is part of the invariant.
theorem Inv.run (haddr : addr ≠ "") (a₀ : String) (es : List Turn) :
    Inv addr (Guarded (Recreation.step addr) SetupAfterTeardown (Recreation.init a₀) es)
      (Guarded (Recreation.step addr) RecordAfterClear (Recreation.init a₀) es)
      (Runs.run (Recreation.step addr) (Recreation.init a₀) es) := by
  induction es using List.reverseRecOn with
  | nil => exact Inv.init addr a₀
  | append_singleton es e ih =>
    rw [guarded_snoc_iff, guarded_snoc_iff, run_append]
    exact ih.step haddr e

end

/-- A replica is recreated in place. Once the old run has returned and the new task is running,
    its container is recorded, its lease is held and the table has its address exactly if the
    new run set up its network after the old exit path tore its own down, and recorded its
    address after the old exit path cleared its own. -/
theorem recreated_in_place_iff {addr : String} (haddr : addr ≠ "") (a₀ : String)
    (es : List Turn) (r : Run)
    (hold : (run (step addr) (init a₀) es).old.pc = .done)
    (hnew : (run (step addr) (init a₀) es).new = some r) (hpc : r.pc = .running)
    (htask : (run (step addr) (init a₀) es).slot.task = some ⟨r.gen, .running⟩) :
    ((run (step addr) (init a₀) es).slot.record = true ∧
      (run (step addr) (init a₀) es).slot.lease = some addr ∧
      (run (step addr) (init a₀) es).slot.ip = some addr) ↔
    Guarded (step addr) Ordered (init a₀) es := by
  have h := Inv.run haddr a₀ es
  have hlease := h.lease r hnew (by rw [hpc]; rfl)
  have hip := h.ip r hnew (by rw [hpc]; rfl)
  have hrecord := h.sound (by simp [htask])
  have hordered : Guarded (step addr) Ordered (init a₀) es ↔ _ := guarded_and
  rw [hordered]
  constructor
  · rintro ⟨-, hl, hi⟩
    constructor
    · by_contra hg
      rw [hlease.2 hg (by rw [hold]; rfl)] at hl
      exact absurd hl (by simp)
    · by_contra hg
      rw [hip.2 hg (by rw [hold]; rfl)] at hi
      exact absurd hi (by simp)
  · rintro ⟨hg₁, hg₂⟩
    exact ⟨hrecord, (hlease.1 hg₁).2, (hip.1 hg₂).2⟩

/-- The old exit path ends before the stop returns. -/
theorem recreated_in_place_iff_joined :
    let es : List Turn := .flatten [.replicate 4 (.stop false), [.exit], .replicate 5 .old,
      .replicate 5 (.stop false), [.start], .replicate 6 .new]
    Guarded (step "10.22.1.8") Ordered (init "10.22.1.7") es := by
  intro es
  let r : Run := { pc := .running, addr := "10.22.1.8", gen := 1 }
  let s := run (step "10.22.1.8") (init "10.22.1.7") es
  have hold : s.old.pc = .done := by decide +kernel
  have hnew : s.new = some r := by decide +kernel
  have htask : s.slot.task = some ⟨r.gen, .running⟩ := by decide +kernel
  have hkept : s.slot.record = true ∧ s.slot.lease = some "10.22.1.8" ∧
      s.slot.ip = some "10.22.1.8" := by decide +kernel
  clear_value es
  exact (recreated_in_place_iff (by decide) "10.22.1.7" es r hold hnew rfl htask).mp hkept

/-- The stop kills the old container and removes it, the new run starts its task, and only then
    does the old run see the exit: its cleanups take the new container's lease and address. -/
theorem new_network_torn_down :
    let s := run (step "10.22.1.8") (init "10.22.1.7")
      (.flatten [.replicate 4 (.stop false), [.exit], .replicate 5 (.stop false), [.start],
        .replicate 6 .new, .replicate 5 .old])
    s.stop.pc = .done ∧ s.old.pc = .done ∧
      s.new = some { pc := .running, addr := "10.22.1.8", gen := 1 } ∧
      s.slot.task = some ⟨1, .running⟩ ∧ s.slot.record = true ∧
      s.slot.lease = none ∧ s.slot.ip = none := by
  decide +kernel

end Recreation
end Smith
