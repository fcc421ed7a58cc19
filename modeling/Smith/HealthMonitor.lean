import Smith.FiniteMaps
import Smith.Runs
import Smith.Types

set_option autoImplicit false

/-!
# The health monitor

`Watch` allocates a status entry and a context and starts a probe loop with them. The loop
holds no lock while it probes, so calls of `Watch` and `Unwatch` fall between the probe and the
update of the status it was made for. The loop looks the entry up by the workload's id, and
finds the one of its own `Watch` exactly if its context has not been cancelled.

Calls are numbered: the context, the entry and the loop of one `Watch` share a number, which
stands for the pointers to them.
-/
namespace Smith.Health
open FiniteMaps Runs

structure Status where
  healthy : Bool
  failures : ℤ
  deriving DecidableEq, Repr

/-- What the world answers a probe: the status code of the response to a request, or the exit
    code of a command, where there is one. -/
structure Answer where
  get : Except String ℤ
  exec : Except String ℤ

def probeHTTP : Except String ℤ → Except String Unit
  | .error err => .error ("http probe: " ++ err)
  | .ok code =>
    if code < 200 ∨ 300 ≤ code then .error ("http probe: status " ++ toString code) else .ok ()

def probeExec (command : List String) (answer : Except String ℤ) : Except String Unit :=
  if command = [] then .error "exec probe: no command specified"
  else match answer with
    | .error err => .error ("exec probe: " ++ err)
    | .ok code =>
      if code ≠ 0 then .error ("exec probe: exit code " ++ toString code) else .ok ()

def probe (hc : HealthCheck) (answer : Answer) : Except String Unit :=
  match hc.type with
  | "http" => probeHTTP answer.get
  | "exec" => probeExec (hc.command.getD []) answer.exec
  | type => .error ("unknown probe type: " ++ type)

/-- Where a probe loop stands: in its initial delay, at its `select`, in a probe, with the
    result of one before the lock, or at its end. -/
inductive Loop where
  | delayed
  | waiting
  | probing
  | probed (result : Except String Unit)
  | returned

def Loop.isProbed : Loop → Bool
  | .probed _ => true
  | _ => false

/-- What one call of `Watch` has allocated and started. -/
structure Watcher where
  id : String
  check : HealthCheck
  entry : Status
  cancelled : Bool
  loop : Loop

/-- The two maps hold numbers of watchers. A panic of a loop ends the process. -/
structure Monitor where
  status : GoMap ℕ
  cancels : GoMap ℕ
  watchers : List Watcher
  crashed : Bool

inductive LoopEvent where
  | delayOver
  | tick
  | answered (answer : Answer)
  | locked
  | cancelled

inductive Event where
  | watch (w : Workload)
  | unwatch (id : String)
  | loop (n : ℕ) (e : LoopEvent)

/-- The entry after a probe, and where its loop goes on. -/
def Status.record (s : Status) (threshold : ℤ) : Except String Unit → Status × Loop
  | .error _ =>
    let s := { s with failures := s.failures + 1 }
    if threshold ≤ s.failures then ({ s with healthy := false }, .returned) else (s, .waiting)
  | .ok () => (⟨true, 0⟩, .waiting)

namespace Monitor

def newMonitor : Monitor := ⟨∅, ∅, [], false⟩

def watch (m : Monitor) (w : Workload) : Monitor :=
  match w.healthCheck with
  | none => m
  | some hc =>
    if w.id ∈ m.cancels then m
    else
      let n := m.watchers.length
      { m with
        cancels := m.cancels.insert w.id n
        status := m.status.insert w.id n
        watchers := m.watchers ++ [⟨w.id, hc, ⟨true, 0⟩, false, .delayed⟩] }

def unwatch (m : Monitor) (id : String) : Monitor :=
  match m.cancels[id]? with
  | none => m
  | some n =>
    { m with
      cancels := m.cancels.erase id
      status := m.status.erase id
      watchers := m.watchers.modify n fun w => { w with cancelled := true } }

def healthy (m : Monitor) (id : String) : Bool :=
  match m.status[id]?.bind fun n => m.watchers[n]? with
  | none => true
  | some w => w.entry.healthy

def setLoop (m : Monitor) (n : ℕ) (loop : Loop) : Monitor :=
  { m with watchers := m.watchers.modify n fun w => { w with loop := loop } }

def setEntry (m : Monitor) (n : ℕ) (s : Status) : Monitor :=
  { m with watchers := m.watchers.modify n fun w => { w with entry := s } }

def crash (m : Monitor) : Monitor := { m with crashed := true }

/-- The update of loop `n` under the lock. The entry is the one that the map has for the id. -/
def update (m : Monitor) (n : ℕ) (w : Watcher) (result : Except String Unit) : Monitor :=
  match m.status[w.id]?.bind fun p => m.watchers[p]?.map fun owner => (p, owner.entry) with
  | none => m.crash -- the nil pointer is dereferenced, whatever the result of the probe
  | some (p, s) =>
    let (s, loop) := s.record w.check.threshold result
    (m.setEntry p s).setLoop n loop

/-- One step of loop `n`. At a `select` with both channels ready either of them may be taken,
    so a tick is also possible once the context has been cancelled. -/
def loopStep (m : Monitor) (n : ℕ) (w : Watcher) (e : LoopEvent) : Monitor :=
  match w.loop, e with
  | .delayed, .delayOver =>
    -- `time.NewTicker` panics for an interval that is not positive
    if w.check.interval ≤ 0 then m.crash else m.setLoop n .waiting
  | .waiting, .tick => m.setLoop n .probing
  | .probing, .answered answer => m.setLoop n (.probed (probe w.check answer))
  | .probed result, .locked => m.update n w result
  | .delayed, .cancelled => if w.cancelled then m.setLoop n .returned else m
  | .waiting, .cancelled => if w.cancelled then m.setLoop n .returned else m
  | _, _ => m

def step (m : Monitor) (e : Event) : Monitor :=
  if m.crashed then m
  else match e with
    | .watch w => m.watch w
    | .unwatch id => m.unwatch id
    | .loop n e =>
      match m.watchers[n]? with
      | none => m
      | some w => m.loopStep n w e

/-- The loop that updates a status in this step, if one does. -/
def updater (m : Monitor) : Event → Option (ℕ × Watcher)
  | .loop n .locked =>
    if m.crashed then none
    else (m.watchers[n]?.filter (·.loop.isProbed)).map fun w => (n, w)
  | _ => none

/-- An update finds an entry, the one of the `Watch` that started the loop. -/
def OwnStatus (m : Monitor) (e : Event) : Prop :=
  ∀ u ∈ m.updater e, m.status[u.2.id]? = some u.1

/-- An update is not made by a loop whose context has been cancelled. -/
def Uncancelled (m : Monitor) (e : Event) : Prop :=
  ∀ u ∈ m.updater e, u.2.cancelled = false

instance (m : Monitor) (e : Event) : Decidable (m.OwnStatus e) :=
  inferInstanceAs (Decidable (∀ u ∈ m.updater e, m.status[u.2.id]? = some u.1))

section Watches

/-- What no loop changes: for each `Watch` its id and whether it has been cancelled. -/
def marks (m : Monitor) : List (String × Bool) := m.watchers.map fun w => (w.id, w.cancelled)

/-- The two maps agree, and an id has the number of the `Watch` that is not cancelled. -/
structure Tracks (m : Monitor) : Prop where
  same : m.status = m.cancels
  current : ∀ (n : ℕ) (id : String) (cancelled : Bool), m.marks[n]? = some (id, cancelled) →
    (m.cancels[id]? = some n ↔ cancelled = false)
  started : ∀ (id : String) (n : ℕ), m.cancels[id]? = some n → ∃ c, m.marks[n]? = some (id, c)

variable {m : Monitor}

theorem tracks_newMonitor : newMonitor.Tracks where
  same := rfl
  current n id c h := by simp [newMonitor, marks] at h
  started id n h := by simp [newMonitor] at h

theorem getElem?_snoc {α : Type} {l : List α} {a b : α} {n : ℕ} :
    (l ++ [a])[n]? = some b ↔ l[n]? = some b ∨ n = l.length ∧ a = b := by
  rcases Nat.lt_trichotomy n l.length with hlt | rfl | hgt
  · simp [List.getElem?_append_left hlt, hlt.ne]
  · simp
  · simp [List.getElem?_append_right hgt.le, hgt.le, hgt.ne', Nat.sub_ne_zero_of_lt hgt]

theorem watch_cases (m : Monitor) (w : Workload) : m.watch w = m ∨
    ∃ hc, w.healthCheck = some hc ∧ m.cancels[w.id]? = none ∧
      m.watch w = { m with
        cancels := m.cancels.insert w.id m.watchers.length
        status := m.status.insert w.id m.watchers.length
        watchers := m.watchers ++ [⟨w.id, hc, ⟨true, 0⟩, false, .delayed⟩] } := by
  unfold Monitor.watch
  cases w.healthCheck with
  | none => exact .inl rfl
  | some hc =>
    dsimp only
    split_ifs with hmem
    · exact .inl rfl
    · exact .inr ⟨hc, rfl, Std.ExtTreeMap.getElem?_eq_none hmem, rfl⟩

theorem Tracks.watch (h : m.Tracks) (w : Workload) : (m.watch w).Tracks := by
  rcases m.watch_cases w with hsame | ⟨hc, -, hnone, hwatch⟩
  · rwa [hsame]
  have hmarks : (m.watch w).marks = m.marks ++ [(w.id, false)] := by
    simp only [hwatch, marks, List.map_append, List.map_cons, List.map_nil]
  have hlen : m.watchers.length = m.marks.length := (List.length_map _).symm
  refine ⟨by rw [hwatch, h.same], fun n id c hn => ?_, fun id n hn => ?_⟩
  · rw [hmarks] at hn
    rw [hwatch, hlen, lookup_insert]
    rcases getElem?_snoc.mp hn with hold | ⟨rfl, hnew⟩
    · have hlt : n < m.marks.length := (List.getElem?_eq_some_iff.mp hold).1
      rw [← h.current n id c hold]
      split_ifs with hid
      · subst hid
        simp [hnone, hlt.ne']
      · rfl
    · obtain ⟨rfl, rfl⟩ := Prod.mk.inj hnew
      simp
  · rw [hwatch, hlen, lookup_insert] at hn
    simp only [hmarks, getElem?_snoc]
    split_ifs at hn with hid
    · exact ⟨false, .inr ⟨(Option.some.inj hn).symm, by rw [hid]⟩⟩
    · obtain ⟨c, hc⟩ := h.started id n hn
      exact ⟨c, .inl hc⟩

theorem Tracks.unwatch (h : m.Tracks) (id : String) : (m.unwatch id).Tracks := by
  unfold Monitor.unwatch
  cases hid : m.cancels[id]? with
  | none => exact h
  | some n =>
    let marked (k : ℕ) (e : String × Bool) : String × Bool := if n = k then (e.1, true) else e
    have hmarks (k : ℕ) : ((m.watchers.modify n fun w => { w with cancelled := true }).map
        fun w => (w.id, w.cancelled))[k]? = m.marks[k]?.map (marked k) := by
      rw [List.getElem?_map, List.getElem?_modify, marks, List.getElem?_map]
      cases m.watchers[k]? with
      | none => rfl
      | some w => by_cases hk : n = k <;> simp [marked, hk]
    obtain ⟨c₀, hn⟩ := h.started id n hid
    refine ⟨by rw [h.same], fun k i c hk => ?_, fun i k hk => ?_⟩
    · rw [marks, hmarks, Option.map_eq_some_iff] at hk
      obtain ⟨⟨i', c'⟩, hold, hmarked⟩ := hk
      by_cases hnk : n = k
      · subst hnk
        rw [hn] at hold
        simp only [marked, if_pos, ← Option.some.inj hold, Prod.mk.injEq] at hmarked
        obtain ⟨rfl, rfl⟩ := hmarked
        simp
      · simp only [marked, if_neg hnk, Prod.mk.injEq] at hmarked
        obtain ⟨rfl, rfl⟩ := hmarked
        rw [← h.current k i' c' hold, lookup_erase]
        split_ifs with hi
        · subst hi
          simp [hid, hnk]
        · rfl
    · rw [lookup_erase] at hk
      split_ifs at hk
      obtain ⟨c, hc⟩ := h.started i k hk
      rw [marks, hmarks, hc]
      by_cases hnk : n = k
      · exact ⟨true, by simp [marked, hnk]⟩
      · exact ⟨c, by simp [marked, hnk]⟩

end Watches

section Loops
variable {m m' : Monitor}

def SameWatches (m m' : Monitor) : Prop :=
  m'.status = m.status ∧ m'.cancels = m.cancels ∧ m'.marks = m.marks

theorem Tracks.of_sameWatches (h : m.Tracks) (hsame : SameWatches m m') : m'.Tracks := by
  obtain ⟨hstatus, hcancels, hmarks⟩ := hsame
  refine ⟨by rw [hstatus, hcancels, h.same], ?_, ?_⟩
  · rw [hcancels, hmarks]
    exact h.current
  · rw [hcancels, hmarks]
    exact h.started

theorem marks_modify (n : ℕ) {f : Watcher → Watcher} (hid : ∀ w, (f w).id = w.id)
    (hcancelled : ∀ w, (f w).cancelled = w.cancelled) :
    { m with watchers := m.watchers.modify n f }.marks = m.marks := by
  refine List.ext_getElem? fun k => ?_
  rw [marks, marks, List.getElem?_map, List.getElem?_modify, List.getElem?_map]
  cases m.watchers[k]? with
  | none => rfl
  | some w => by_cases hk : n = k <;> simp [hk, hid, hcancelled]

@[simp] theorem marks_setLoop (n : ℕ) (loop : Loop) : (m.setLoop n loop).marks = m.marks := by
  unfold setLoop
  exact marks_modify n (fun _ => rfl) fun _ => rfl

@[simp] theorem marks_setEntry (n : ℕ) (s : Status) : (m.setEntry n s).marks = m.marks := by
  unfold setEntry
  exact marks_modify n (fun _ => rfl) fun _ => rfl

theorem sameWatches_setLoop (n : ℕ) (loop : Loop) : SameWatches m (m.setLoop n loop) :=
  ⟨rfl, rfl, marks_setLoop n loop⟩

theorem sameWatches_update (n : ℕ) (w : Watcher) (result : Except String Unit) :
    SameWatches m (m.update n w result) := by
  unfold update
  split
  · exact ⟨rfl, rfl, rfl⟩
  · exact ⟨rfl, rfl, by simp⟩

theorem loopStep_cases (m : Monitor) (n : ℕ) (w : Watcher) (e : LoopEvent) :
    m.loopStep n w e = m ∨ (∃ loop, m.loopStep n w e = m.setLoop n loop) ∨
      w.check.interval ≤ 0 ∧ m.loopStep n w e = m.crash ∨
      ∃ result, w.loop = .probed result ∧ e = .locked ∧ m.loopStep n w e = m.update n w result := by
  unfold loopStep
  split
  · split_ifs with hinterval
    · exact .inr (.inr (.inl ⟨hinterval, rfl⟩))
    · exact .inr (.inl ⟨_, rfl⟩)
  · exact .inr (.inl ⟨_, rfl⟩)
  · exact .inr (.inl ⟨_, rfl⟩)
  · rename_i result hloop
    exact .inr (.inr (.inr ⟨result, hloop, rfl, rfl⟩))
  · split_ifs
    · exact .inr (.inl ⟨_, rfl⟩)
    · exact .inl rfl
  · split_ifs
    · exact .inr (.inl ⟨_, rfl⟩)
    · exact .inl rfl
  · exact .inl rfl

theorem sameWatches_loopStep (n : ℕ) (w : Watcher) (e : LoopEvent) :
    SameWatches m (m.loopStep n w e) := by
  rcases m.loopStep_cases n w e with h | ⟨loop, h⟩ | ⟨-, h⟩ | ⟨result, -, -, h⟩
  · rw [h]
    exact ⟨rfl, rfl, rfl⟩
  · rw [h]
    exact sameWatches_setLoop n loop
  · rw [h]
    exact ⟨rfl, rfl, rfl⟩
  · rw [h]
    exact sameWatches_update n w result

theorem Tracks.step (h : m.Tracks) (e : Event) : (m.step e).Tracks := by
  unfold Monitor.step
  split_ifs
  · exact h
  cases e with
  | watch w => exact h.watch w
  | unwatch id => exact h.unwatch id
  | loop n e =>
    cases hn : m.watchers[n]? with
    | none => simpa only [hn] using h
    | some w => simpa only [hn] using h.of_sameWatches (sameWatches_loopStep n w e)

end Loops

/-- In a consistent state a loop finds its own entry exactly if it has not been cancelled. -/
theorem Tracks.ownStatus_iff {m : Monitor} (h : m.Tracks) (e : Event) :
    m.OwnStatus e ↔ m.Uncancelled e := by
  refine forall₂_congr fun ⟨n, w⟩ hu => ?_
  have hn : m.watchers[n]? = some w := by
    unfold updater at hu
    split at hu
    · split_ifs at hu
      · cases hu
      · obtain ⟨w', hw', heq⟩ := Option.map_eq_some_iff.mp hu
        cases heq
        exact (Option.filter_eq_some_iff.mp hw').1
    · cases hu
  have hmark : m.marks[n]? = some (w.id, w.cancelled) := by rw [marks, List.getElem?_map, hn]; rfl
  rw [h.same]
  exact h.current n w.id w.cancelled hmark

section Panics
variable {m : Monitor}

/-- The intervals that a ticker takes. -/
def Ticking : Event → Prop
  | .watch w => ∀ hc ∈ w.healthCheck, 0 < hc.interval
  | _ => True

/-- The process runs, and every loop can start its ticker. -/
structure Running (m : Monitor) : Prop where
  tracks : m.Tracks
  ticking : ∀ w ∈ m.watchers, 0 < w.check.interval
  alive : m.crashed = false

theorem running_newMonitor : newMonitor.Running := ⟨tracks_newMonitor, by simp [newMonitor], rfl⟩

theorem forall_mem_modify {α : Type} {P : α → Prop} {l : List α} {n : ℕ} {f : α → α}
    (hf : ∀ a, P a → P (f a)) (h : ∀ a ∈ l, P a) : ∀ a ∈ l.modify n f, P a := by
  intro a ha
  obtain ⟨k, hk⟩ := List.mem_iff_getElem?.mp ha
  rw [List.getElem?_modify] at hk
  obtain ⟨b, hb, rfl⟩ := Option.map_eq_some_iff.mp hk
  have hPb : P b := h b (List.mem_of_getElem? hb)
  split_ifs
  · exact hf b hPb
  · exact hPb

theorem Running.watch (h : m.Running) {w : Workload}
    (hw : ∀ hc ∈ w.healthCheck, 0 < hc.interval) : (m.watch w).Running := by
  have htracks := h.tracks.watch w
  rcases m.watch_cases w with hsame | ⟨hc, hcheck, -, hwatch⟩
  · rwa [hsame]
  · rw [hwatch] at htracks ⊢
    refine ⟨htracks, fun v hv => ?_, h.alive⟩
    rcases List.mem_append.mp hv with hold | hnew
    · exact h.ticking v hold
    · rw [List.mem_singleton.mp hnew]
      exact hw hc hcheck

theorem Running.unwatch (h : m.Running) (id : String) : (m.unwatch id).Running := by
  have htracks := h.tracks.unwatch id
  unfold Monitor.unwatch at htracks ⊢
  split
  · exact h
  · rename_i n hn
    rw [hn] at htracks
    exact ⟨htracks, forall_mem_modify (fun _ hw => hw) h.ticking, h.alive⟩

theorem Running.setLoop (h : m.Running) (n : ℕ) (loop : Loop) : (m.setLoop n loop).Running :=
  ⟨h.tracks.of_sameWatches (sameWatches_setLoop n loop),
    forall_mem_modify (fun _ hw => hw) h.ticking, h.alive⟩

theorem Running.update (h : m.Running) {n : ℕ} {w : Watcher} (hn : m.watchers[n]? = some w)
    (hown : m.status[w.id]? = some n) (result : Except String Unit) :
    (m.update n w result).Running := by
  refine ⟨h.tracks.of_sameWatches (sameWatches_update n w result), ?_, ?_⟩
  all_goals simp only [Monitor.update, hown, Option.bind_some, hn, Option.map_some]
  · exact forall_mem_modify (fun _ hw => hw) (forall_mem_modify (fun _ hw => hw) h.ticking)
  · exact h.alive

theorem Running.loopStep (h : m.Running) {n : ℕ} {w : Watcher} (hn : m.watchers[n]? = some w)
    {e : LoopEvent} (he : m.OwnStatus (.loop n e)) : (m.loopStep n w e).Running := by
  rcases m.loopStep_cases n w e with hstep | ⟨loop, hstep⟩ | ⟨hinterval, -⟩ |
    ⟨result, hloop, rfl, hstep⟩
  · rwa [hstep]
  · rw [hstep]
    exact h.setLoop n loop
  · exact absurd hinterval (h.ticking w (List.mem_of_getElem? hn)).not_ge
  · rw [hstep]
    refine h.update hn (he (n, w) ?_) result
    simp [updater, h.alive, hn, hloop, Loop.isProbed]

theorem Running.step (h : m.Running) {e : Event} (he : m.Uncancelled e) (hticking : Ticking e) :
    (m.step e).Running := by
  have hown : m.OwnStatus e := (h.tracks.ownStatus_iff e).mpr he
  unfold Monitor.step
  rw [if_neg (by simp [h.alive])]
  cases e with
  | watch w => exact h.watch hticking
  | unwatch id => exact h.unwatch id
  | loop n e =>
    cases hn : m.watchers[n]? with
    | none => simpa only [hn] using h
    | some w => simpa only [hn] using h.loopStep hn hown

theorem not_crashed {es : List Event} (hes : Guarded Monitor.step Uncancelled newMonitor es)
    (hticking : ∀ e ∈ es, Ticking e) : (run Monitor.step newMonitor es).crashed = false := by
  have hguard : Guarded Monitor.step (fun m e => m.Uncancelled e ∧ Ticking e) newMonitor es :=
    guarded_and.mpr ⟨hes, guarded_of_forall (fun _ _ h => h) _ hticking⟩
  have hstep (m : Monitor) (e : Event) (he : m.Uncancelled e ∧ Ticking e) (hm : m.Running) :
      (m.step e).Running := hm.step he.1 he.2
  exact (hguard.invariant hstep running_newMonitor).alive

end Panics

/-- In every interleaving the updates find the entries of the calls that started their loops
    exactly if none of them is made by a loop after its `Unwatch`. -/
theorem updates_own_status_iff (es : List Event) :
    Guarded step OwnStatus newMonitor es ↔ Guarded step Uncancelled newMonitor es :=
  guarded_congr (fun _ e h => h.step e) (fun _ e h => h.ownStatus_iff e) tracks_newMonitor es

section Samples

private def web : Workload where
  id := "web-0"
  image := "nginx"
  healthCheck := some ⟨"http", none, "http://10.0.0.2/", 0, 10, 1⟩

private def refused : Answer := ⟨.error "connection refused", .error ""⟩

private def probing : List Event := [.watch web, .loop 0 .delayOver, .loop 0 .tick]

private def late : List Event := [.loop 0 (.answered refused), .loop 0 .locked]

/-- A workload is unwatched while it is probed: the loop dereferences a nil pointer. Watched
    anew meanwhile, it is unhealthy before its first probe, for the old loop's failure. -/
theorem late_update_hits_foreign_status :
    let gone := probing ++ [.unwatch "web-0"] ++ late
    let replaced := probing ++ [.unwatch "web-0", .watch web] ++ late
    (¬ Guarded step OwnStatus newMonitor gone ∧ (run step newMonitor gone).crashed = true) ∧
    ¬ Guarded step OwnStatus newMonitor replaced ∧
      (run step newMonitor replaced).healthy "web-0" = false ∧
      ∃ w, (run step newMonitor replaced).watchers[1]? = some w ∧ w.loop = .delayed := by
  refine ⟨⟨by decide +kernel, by decide +kernel⟩, by decide +kernel, by decide +kernel, ?_⟩
  exact ⟨_, rfl, rfl⟩

end Samples

end Monitor
end Smith.Health
