import Smith.DurationText
import Smith.SpecHash

set_option autoImplicit false

/-!
# Workloads between the API, the store and the agents

A workload comes in as a JSON text, is kept in the columns of a row, and goes out to an agent as
a JSON text again, one for each replica. The durations of its probe are texts in all of them.
-/
namespace Smith
open FiniteMaps Json Std

namespace Duration

def marshalJSON (d : ℤ) : Value := .str (DurationText.text d)

def unmarshalJSON (v : Value) : Except String ℤ := do DurationText.parse (← string v)

/-- The values of a `time.Duration`. -/
def InRange (d : ℤ) : Prop := -2 ^ 63 ≤ d ∧ d < 2 ^ 63

instance (d : ℤ) : Decidable (InRange d) := inferInstanceAs (Decidable (_ ∧ _))

theorem unmarshal_marshal {d : ℤ} (h : InRange d) : unmarshalJSON (marshalJSON d) = .ok d :=
  DurationText.parse_text h.1 h.2

theorem inRange_of_unmarshal {v : Value} {d : ℤ} (h : unmarshalJSON v = .ok d) : InRange d := by
  unfold unmarshalJSON at h
  cases hs : string v with
  | error e =>
    rw [hs] at h
    exact absurd h (by simp [bind, Except.bind])
  | ok s =>
    rw [hs] at h
    exact DurationText.parse_range h

/-- A duration that was read is written as a text that is read as the same duration. -/
theorem accepted_durations_kept {v : Value} {d : ℤ} (h : unmarshalJSON v = .ok d) :
    InRange d ∧
      encoding.unmarshal (encoding.marshal (marshalJSON d)) >>= unmarshalJSON = .ok d := by
  have hrange := inRange_of_unmarshal h
  refine ⟨hrange, ?_⟩
  rw [encoding.unmarshal_marshal]
  exact unmarshal_marshal hrange

theorem accepted_durations_kept_fraction :
    unmarshalJSON (.str "1.5h") = .ok (5400 * 10 ^ 9) ∧
      encoding.unmarshal (encoding.marshal (marshalJSON (5400 * 10 ^ 9))) >>= unmarshalJSON =
        .ok (5400 * 10 ^ 9) := by
  have hread : unmarshalJSON (.str "1.5h") = .ok (5400 * 10 ^ 9) := by decide +kernel
  exact ⟨hread, (accepted_durations_kept hread).2⟩

theorem text_head (d : ℤ) : (DurationText.text d).toList.head? ≠ some '~' := by
  unfold DurationText.text
  rw [String.toList_ofList]
  split_ifs
  · simp
  · intro h
    exact absurd ((DurationText.format_ends d.natAbs).1 '~' h) (by decide)

end Duration

/-- The text of a number as a `time.Duration`. A number that it cannot hold gets a text that
    `ParseDuration` refuses. -/
def Durations.goText (d : ℤ) : String :=
  if Duration.InRange d then DurationText.text d else String.ofList ('~' :: intText d)

def Durations.goParse (s : String) : Except String ℤ :=
  if s.toList.head? = some '~' then
    match readInt s.toList.tail with
    | some (d, []) => .ok d
    | _ => DurationText.parse s
  else DurationText.parse s

theorem Durations.goParse_goText (d : ℤ) : goParse (goText d) = .ok d := by
  unfold goParse goText
  by_cases h : Duration.InRange d
  · rw [if_pos h, if_neg (Duration.text_head d)]
    exact DurationText.parse_text h.1 h.2
  · have hread := readInt_intText d (s := []) (by simp [Ends])
    rw [List.append_nil] at hread
    rw [if_neg h, String.toList_ofList, List.head?_cons, if_pos rfl, List.tail_cons, hread]

/-- Go's own functions on every `time.Duration`. -/
def Durations.go : Durations where
  text := goText
  parse := goParse
  parse_text := goParse_goText

/-- The durations of a probe are written as `MarshalJSON` has it. -/
theorem HealthCheck.marshal_go {hc : HealthCheck} (hdelay : Duration.InRange hc.initialDelay)
    (hinterval : Duration.InRange hc.interval) : ∃ fields, hc.marshal .go = .obj fields ∧
      ("initial_delay", Duration.marshalJSON hc.initialDelay) ∈ fields ∧
      ("interval", Duration.marshalJSON hc.interval) ∈ fields := by
  refine ⟨_, rfl, ?_, ?_⟩
  · simp [Durations.go, Durations.goText, hdelay, Duration.marshalJSON]
  · simp [Durations.go, Durations.goText, hinterval, Duration.marshalJSON]

theorem Workload.normalize_normalize (w : Workload) : w.normalize.normalize = w.normalize := by
  obtain ⟨id, image, args, check, ports, env, resources, replicas, maxUnavailable, volumes⟩ := w
  simp only [normalize, Option.filter_filter, Bool.and_self, Option.map_map]
  congr 1
  cases check with
  | none => rfl
  | some hc => simp [HealthCheck.normalize, Option.filter_filter]

/-- What the store gives back and what each agent decodes is the workload that was added, with nil
    for empty lists and maps, down to the nanoseconds of its probe. -/
theorem workload_reaches_agent {w : Workload}
    (hrange : ∀ hc ∈ w.healthCheck, Duration.InRange hc.initialDelay ∧ Duration.InRange hc.interval) :
    (∀ hc ∈ w.healthCheck, ∃ fields, hc.marshal .go = .obj fields ∧
      ("initial_delay", Duration.marshalJSON hc.initialDelay) ∈ fields ∧
      ("interval", Duration.marshalJSON hc.interval) ∈ fields) ∧
    SqliteStore.readRow encoding .go (SqliteStore.row encoding .go w) = .ok w.normalize ∧
      ∀ i, encoding.unmarshal (pushBody .go (replicaInstance w.id w.normalize i).wl) >>=
        Workload.unmarshal .go =
          .ok { w.normalize with id := replicaID w.id i, replicas := 0 } := by
  refine ⟨fun hc hmem => HealthCheck.marshal_go (hrange hc hmem).1 (hrange hc hmem).2,
    SqliteStore.readRow_row w, fun i => ?_⟩
  rw [unmarshal_pushBody]
  exact congrArg (fun x : Workload => Except.ok { x with id := replicaID w.id i, replicas := 0 })
    w.normalize_normalize

private def timed : Workload :=
  { id := "web", image := "nginx", replicas := 2, ports := some []
    healthCheck := some { type := "http", url := "/", initialDelay := 1500000000,
                          interval := 90000000001, threshold := 3 } }

private theorem timed_normalize : timed.normalize = { timed with ports := none } := by
  simp [timed, Workload.normalize, HealthCheck.normalize]

theorem workload_reaches_agent_timed :
    SqliteStore.readRow encoding .go (SqliteStore.row encoding .go timed) =
        .ok { timed with ports := none } ∧
      encoding.unmarshal (pushBody .go (replicaInstance timed.id timed.normalize 1).wl) >>=
        Workload.unmarshal .go =
          .ok { timed with id := replicaID timed.id 1, replicas := 0, ports := none } := by
  have hrange : ∀ hc ∈ timed.healthCheck,
      Duration.InRange hc.initialDelay ∧ Duration.InRange hc.interval := by
    simp [timed, Duration.InRange]
  obtain ⟨-, hrow, hagent⟩ := workload_reaches_agent hrange
  rw [timed_normalize] at hrow hagent ⊢
  exact ⟨hrow, hagent 1⟩

end Smith
