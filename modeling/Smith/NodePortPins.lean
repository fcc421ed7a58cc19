import Smith.ServiceStore

set_option autoImplicit false

/-!
# Pinned NodePorts

A manifest may pin the NodePort of a service, and the pin arrives in the argument of
`Add`. For a new name `Add` overwrites it with the lowest free port, so a pin is met
only where it happens to be that port.
-/
namespace Smith
open FiniteMaps Leases Runs Std

namespace ServiceStore
variable {s : ServiceStore} {svc : Service}

def PortFree (s : ServiceStore) (p : ℤ) : Prop :=
  nodePortMin ≤ p ∧ p ≤ nodePortMax ∧ p ∉ held Service.nodePort s.rows

instance (s : ServiceStore) (p : ℤ) : Decidable (PortFree s p) :=
  inferInstanceAs (Decidable (_ ∧ _ ∧ _))

/-- What a pin asks of the `Add` of a new service. -/
structure PinHonoured (s : ServiceStore) (svc : Service) : Prop where
  stored : PortFree s svc.nodePort → ∃ row, (s.add svc).2 = .ok row ∧
    (s.add svc).1.rows[svc.name]? = some row ∧ row.nodePort = svc.nodePort
  kept : PortFree s svc.nodePort → ∀ ops, Op.remove svc.name ∉ ops →
    ∃ row, (run step (s.add svc).1 (ops ++ [.add svc])).rows[svc.name]? = some row ∧
      row.nodePort = svc.nodePort
  refused : ¬ PortFree s svc.nodePort → ∃ e, s.add svc = (s, .error e)
  unpinned : ∀ other row : Service, other.nodePort = 0 → s.rows[other.name]? = none →
    (s.add other).1.rows[other.name]? = some row → row.nodePort ∉ held Service.nodePort s.rows

/-- A free pin is the lowest free port and there is an address left, or a pin that is
    not free meets a store with nothing left to allocate. -/
def PinDue (s : ServiceStore) (svc : Service) : Prop :=
  if PortFree s svc.nodePort then
    lowestFree nodePorts (held Service.nodePort s.rows) = some svc.nodePort ∧
      lowestFree clusterIPs s.usedIPs ≠ none
  else
    lowestFree nodePorts (held Service.nodePort s.rows) = none ∨
      lowestFree clusterIPs s.usedIPs = none

theorem allocate_port_iff {p : ℤ} : (∃ ip, s.allocate = .ok (ip, p)) ↔
    lowestFree nodePorts (held Service.nodePort s.rows) = some p ∧
      lowestFree clusterIPs s.usedIPs ≠ none := by
  unfold allocate
  cases lowestFree clusterIPs s.usedIPs with
  | none => simp
  | some c => cases lowestFree nodePorts (held Service.nodePort s.rows) <;> simp

theorem allocate_error_iff : (∃ e, s.allocate = .error e) ↔
    lowestFree nodePorts (held Service.nodePort s.rows) = none ∨
      lowestFree clusterIPs s.usedIPs = none := by
  unfold allocate
  cases lowestFree clusterIPs s.usedIPs with
  | none => simp
  | some c => cases lowestFree nodePorts (held Service.nodePort s.rows) <;> simp

theorem add_new_stored (h : Valid svc) (hnew : s.rows[svc.name]? = none) {ip : String} {p : ℤ}
    (ha : s.allocate = .ok (ip, p)) :
    (s.add svc).2 = .ok ((defaulted svc).withAllocation ip p) ∧
      (s.add svc).1.rows[svc.name]? = some ((defaulted svc).withAllocation ip p) := by
  obtain ⟨hrows, hok⟩ := add_new h hnew ha
  exact ⟨hok, by rw [hrows, lookup_insert_self]⟩

theorem lookup_add_ne {n : String} (hn : n ≠ svc.name) : (s.add svc).1.rows[n]? = s.rows[n]? := by
  obtain ⟨e, he⟩ | ⟨_, _, ⟨_, _, hrows⟩ | ⟨_, _, _, _, hrows⟩⟩ := add_cases s svc
  · rw [he]
  · rw [hrows, lookup_insert_ne _ _ (Ne.symm hn)]
  · rw [hrows, lookup_insert_ne _ _ (Ne.symm hn)]

theorem step_keeps_port {op : Op} {n : String} {row : Service} (hop : op ≠ .remove n)
    (hrow : s.rows[n]? = some row) :
    ∃ row', (s.step op).rows[n]? = some row' ∧ row'.nodePort = row.nodePort := by
  cases op with
  | remove name =>
    have hne : name ≠ n := fun h => hop (h ▸ rfl)
    exact ⟨row, by rw [step, remove, lookup_erase_ne _ hne, hrow], rfl⟩
  | add svc =>
    by_cases hn : n = svc.name
    · subst hn
      obtain ⟨⟨row', hrow', -, hport⟩, -⟩ := add_keeps hrow
      exact ⟨row', hrow', hport⟩
    · exact ⟨row, (lookup_add_ne hn).trans hrow, rfl⟩

theorem run_keeps_port {ops : List Op} {n : String} {row : Service} (hops : Op.remove n ∉ ops)
    (hrow : s.rows[n]? = some row) :
    ∃ row', (run step s ops).rows[n]? = some row' ∧ row'.nodePort = row.nodePort := by
  induction ops generalizing s row with
  | nil => exact ⟨row, hrow, rfl⟩
  | cons op ops ih =>
    rw [List.mem_cons, not_or] at hops
    obtain ⟨row', hrow', hport⟩ := step_keeps_port (Ne.symm hops.1) hrow
    obtain ⟨row'', hrow'', hport'⟩ := ih hops.2 hrow'
    exact ⟨row'', hrow'', hport'.trans hport⟩

theorem add_new_port_unheld {other row : Service} (hnew : s.rows[other.name]? = none)
    (hrow : (s.add other).1.rows[other.name]? = some row) :
    row.nodePort ∉ held Service.nodePort s.rows := by
  obtain ⟨e, he⟩ | ⟨-, -, ⟨row', hrow', -⟩ | ⟨ip, p, -, ha, hrows⟩⟩ := add_cases s other
  · rw [he, hnew] at hrow
    exact absurd hrow (Option.some_ne_none row).symm
  · exact absurd (hnew.symm.trans hrow') (Option.some_ne_none row').symm
  · rw [hrows, lookup_insert_self, Option.some.injEq] at hrow
    rw [← hrow]
    exact (allocate_ok ha).2.2.2

/-- The pin of a new service is honoured exactly if it is the port the service would
    have got without it. -/
theorem pin_honoured_iff (s : ServiceStore) (svc : Service) (hv : Valid svc)
    (hnew : s.rows[svc.name]? = none) : PinHonoured s svc ↔ PinDue s svc := by
  unfold PinDue
  constructor
  · intro h
    split_ifs with hfree
    · obtain ⟨row, -, hrow, hport⟩ := h.stored hfree
      obtain ⟨e, he⟩ | ⟨-, -, ⟨row', hrow', -⟩ | ⟨ip, p, -, ha, hrows⟩⟩ := add_cases s svc
      · rw [he, hnew] at hrow
        exact absurd hrow (Option.some_ne_none row).symm
      · exact absurd (hnew.symm.trans hrow') (Option.some_ne_none row').symm
      · rw [hrows, lookup_insert_self, Option.some.injEq] at hrow
        refine allocate_port_iff.mp ⟨ip, ?_⟩
        rw [ha, ← hport, ← hrow]
        rfl
    · obtain ⟨e, he⟩ := h.refused hfree
      refine allocate_error_iff.mp ?_
      cases ha : s.allocate with
      | error e => exact ⟨e, rfl⟩
      | ok alloc =>
        have hok := (add_new_stored hv hnew ha).1
        rw [he] at hok
        exact absurd hok (by simp)
  · intro h
    have hstored : PortFree s svc.nodePort → ∃ row, (s.add svc).2 = .ok row ∧
        (s.add svc).1.rows[svc.name]? = some row ∧ row.nodePort = svc.nodePort := by
      intro hfree
      rw [if_pos hfree] at h
      obtain ⟨ip, ha⟩ := allocate_port_iff.mpr h
      obtain ⟨hok, hrow⟩ := add_new_stored hv hnew ha
      exact ⟨_, hok, hrow, rfl⟩
    refine ⟨hstored, fun hfree ops hops => ?_, fun hfree => ?_, fun other row _ hnew hrow =>
      add_new_port_unheld hnew hrow⟩
    · obtain ⟨row, -, hrow, hport⟩ := hstored hfree
      have hlater : Op.remove svc.name ∉ ops ++ [.add svc] := by simpa using hops
      obtain ⟨row', hrow', hport'⟩ := run_keeps_port hlater hrow
      exact ⟨row', hrow', hport'.trans hport⟩
    · rw [if_neg hfree] at h
      obtain ⟨e, ha⟩ := allocate_error_iff.mpr h
      exact ⟨e, add_exhausted hv hnew ha⟩

private def postgres (port : ℤ) : Service :=
  { name := "postgres", workloadID := "postgres", port := 5432, targetPort := 5432,
    nodePort := port }

private def twoServices : ServiceStore :=
  run step new [.add ⟨"web", "web", 80, 8080, "", "", 0⟩, .add ⟨"db", "db", 5432, 5432, "", "", 0⟩,
    .add ⟨"api", "api", 80, 3000, "", "", 0⟩, .remove "db"]

/-- A service may pin the port that a removed one has left between two others. -/
theorem pin_honoured_iff_gap : held Service.nodePort twoServices.rows = [30002, 30000] ∧
    PinHonoured twoServices (postgres 30001) :=
  ⟨by decide +kernel, (pin_honoured_iff twoServices (postgres 30001)
    ⟨by decide, by decide, by decide, by decide⟩ (by decide +kernel)).mpr
    (by unfold PinDue; decide +kernel)⟩

/-- The first service of a store pins 30100 and gets 30000. -/
theorem pin_overwritten : ¬ ∀ (s : ServiceStore) (svc : Service), Valid svc →
    s.rows[svc.name]? = none → svc.nodePort ≠ 0 → PinHonoured s svc := by
  intro h
  obtain ⟨row, -, hrow, hport⟩ := (h new (postgres 30100)
    ⟨by decide, by decide, by decide, by decide⟩ (by decide +kernel) (by decide)).stored
    (by decide +kernel)
  have hgot : (new.add (postgres 30100)).1.rows["postgres"]?.map Service.nodePort = some 30000 := by
    decide +kernel
  change (new.add (postgres 30100)).1.rows["postgres"]? = some row at hrow
  rw [hrow, Option.map_some, Option.some.injEq, hport] at hgot
  exact absurd hgot (by decide)

end ServiceStore
end Smith
