import Smith.ControlPlane
import Smith.Runs
import Smith.UrlPaths

set_option autoImplicit false

/-!
# Requests to the public API

`smithctl` sends its requests under a bearer token, and puts the key of what it deletes into the
path as one escaped name. The server finds the handler by the path and compares the token
before the handler runs. Other clients can spell a key in other ways, and reach keys of dots
that `smithctl` does not.
-/
namespace Smith.PublicApi
open FiniteMaps Runs UrlPaths

inductive Kind where
  | ingress
  | service
  | workload
  deriving DecidableEq, Repr

namespace Kind

def dir : Kind → String
  | .ingress => "ingresses"
  | .service => "services"
  | .workload => "workloads"

def delete : Kind → String → Request
  | .ingress, host => .deleteIngress host
  | .service, name => .deleteService name
  | .workload, id => .deleteWorkload id

def stored (v : View) (key : String) : Kind → Bool
  | .ingress => v.ingresses[key]?.isSome
  | .service => v.services[key]?.isSome
  | .workload => v.workloads[key]?.isSome

theorem literal_dir (k : Kind) : Literal (ascii k.dir) := by
  cases k <;> exact ⟨by decide +kernel, by decide +kernel, by decide +kernel⟩

end Kind

def requireAuth (token auth : String) : Except String Unit :=
  if "Bearer ".toList <+: auth.toList then
    if auth.toList.drop "Bearer ".length = token.toList then .ok () else .error "invalid token"
  else .error "missing or malformed Authorization header"

inductive Reply where
  | done
  | error (status : ℕ) (message : String)
  | unrouted (outcome : Outcome)
  deriving DecidableEq

/-- A handler behind `requireAuth`. -/
def handle (token auth : String) (st : Stores) (r : Request) : Stores × Reply :=
  match requireAuth token auth with
  | .error e => (st, .error 401 e)
  | .ok () =>
    match r.exec st with
    | .ok st' => (st', .done)
    | .error e => (st, .error 400 e)

def deletePath (k : Kind) (key : String) : Bytes :=
  pathOf (ascii k.dir) (escape .segment (utf8 key))

/-- A `DELETE` request. A name that is not a text is the key of nothing. -/
def del (token auth : String) (st : Stores) (k : Kind) (key : String) : Stores × Reply :=
  match request (ascii k.dir) (deletePath k key) with
  | .handled value =>
    match decoded value with
    | some key => handle token auth st (k.delete key)
    | none =>
      match requireAuth token auth with
      | .error e => (st, .error 401 e)
      | .ok () => (st, .done)
  | outcome => (st, .unrouted outcome)

structure Sent where
  auth : String
  request : Request

def serve (token : String) (st : Stores) (s : Sent) : Stores × Reply :=
  match s.request with
  | .deleteIngress host => del token s.auth st .ingress host
  | .deleteService name => del token s.auth st .service name
  | .deleteWorkload id => del token s.auth st .workload id
  | r => handle token s.auth st r

def step (token : String) (st : Stores) (s : Sent) : Stores := (serve token st s).1

def execute (st : Stores) (r : Request) : Stores := (r.exec st).toOption.getD st

/-- The keys that `smithctl` does not get to a handler. -/
def unreachable : List String := ["", ".", ".."]

def Reaches : Request → Prop
  | .deleteIngress host => host ∉ unreachable
  | .deleteService name => name ∉ unreachable
  | .deleteWorkload id => id ∉ unreachable
  | _ => True

instance (r : Request) : Decidable (Reaches r) := by
  unfold Reaches
  split <;> infer_instance

section Single
variable (token auth : String) (st : Stores)

theorem requireAuth_iff : requireAuth token auth = .ok () ↔ auth = "Bearer " ++ token := by
  unfold requireAuth
  constructor
  · intro h
    split_ifs at h with hprefix htoken
    obtain ⟨rest, hrest⟩ := hprefix
    have hdrop : auth.toList.drop "Bearer ".length = rest := by
      rw [← hrest]
      exact List.drop_left
    rw [hdrop] at htoken
    apply String.toList_injective
    rw [String.toList_append, ← hrest, htoken]
  · rintro rfl
    rw [String.toList_append, if_pos (List.prefix_append _ _), if_pos]
    exact List.drop_left

theorem handle_state (r : Request) : (handle token auth st r).1 =
    if auth = "Bearer " ++ token then execute st r else st := by
  unfold handle execute
  cases hauth : requireAuth token auth with
  | error e =>
    have hne : ¬ auth = "Bearer " ++ token := by
      rw [← requireAuth_iff, hauth]
      exact fun h => nomatch h
    rw [if_neg hne]
  | ok u =>
    rw [if_pos ((requireAuth_iff token auth).mp hauth)]
    cases r.exec st with
    | ok st' => rfl
    | error e => rfl

theorem mem_unreachable (key : String) :
    key ∉ unreachable ↔ utf8 key ≠ [] ∧ utf8 key ∉ dots := by
  have hempty : utf8 "" = [] := by decide +kernel
  have hdots : dots = [utf8 ".", utf8 ".."] := by decide +kernel
  rw [hdots, ← hempty]
  simp only [unreachable, List.mem_cons, List.not_mem_nil, or_false, not_or, ne_eq,
    utf8_injective.eq_iff]

theorem request_deletePath (k : Kind) (key : String) (value : Bytes) :
    request (ascii k.dir) (deletePath k key) = .handled value ↔
      key ∉ unreachable ∧ value = utf8 key := by
  rw [deletePath, k.literal_dir.request_escape_iff, mem_unreachable, and_assoc]

/-- A `DELETE` request reaches the handler with its own key or not at all. -/
theorem del_eq (k : Kind) (key : String) : del token auth st k key =
    if key ∈ unreachable then (st, .unrouted (request (ascii k.dir) (deletePath k key)))
    else handle token auth st (k.delete key) := by
  split_ifs with h
  · cases houtcome : request (ascii k.dir) (deletePath k key) with
    | handled value => exact absurd h ((request_deletePath k key value).mp houtcome).1
    | _ => simp only [del, houtcome]
  · have hhandled := (request_deletePath k key (utf8 key)).mpr ⟨h, rfl⟩
    simp only [del, hhandled, decoded_utf8]

theorem del_state (k : Kind) (key : String) : (del token auth st k key).1 =
    if auth = "Bearer " ++ token ∧ key ∉ unreachable then execute st (k.delete key) else st := by
  rw [del_eq]
  by_cases h : key ∈ unreachable
  · rw [if_pos h, if_neg fun hc => hc.2 h]
  · rw [if_neg h, handle_state]
    simp only [h, not_false_eq_true, and_true]

theorem step_eq (s : Sent) : step token st s =
    if s.auth = "Bearer " ++ token ∧ Reaches s.request then execute st s.request else st := by
  obtain ⟨auth, r⟩ := s
  cases r with
  | applyWorkload w | applyService svc | applyIngress ing =>
    refine (handle_state token auth st _).trans ?_
    simp only [Reaches, and_true]
  | deleteIngress host => exact del_state token auth st .ingress host
  | deleteService name => exact del_state token auth st .service name
  | deleteWorkload id => exact del_state token auth st .workload id

end Single

/-! ### Runs of requests -/

section Stays
variable {k : Kind} {key : String}

theorem stored_effect {v : View} {r : Request} (h : k.stored v key = true)
    (hr : r ≠ k.delete key) : k.stored (r.effect v) key = true := by
  have hinsert : ∀ {V : Type} (m : GoMap V) (key' : String) (x : V), m[key]?.isSome = true →
      (m.insert key' x)[key]?.isSome = true := by
    intro V m key' x hm
    rw [lookup_insert]
    split_ifs
    · rfl
    · exact hm
  have herase : ∀ {V : Type} (m : GoMap V) (key' : String), key' ≠ key → m[key]?.isSome = true →
      (m.erase key')[key]?.isSome = true := by
    intro V m key' hne hm
    rwa [lookup_erase, if_neg hne]
  cases k <;> cases r <;> simp only [Kind.stored, Request.effect] at h ⊢ <;>
    first
      | exact h
      | exact hinsert _ _ _ h
      | exact herase _ _ (fun heq => hr (heq ▸ rfl)) h

theorem stored_execute {st : Stores} {r : Request} (h : k.stored st.view key = true)
    (hr : r ≠ k.delete key) : k.stored (execute st r).view key = true := by
  unfold execute
  cases hexec : r.exec st with
  | error e => exact h
  | ok st' =>
    have heffect := stored_effect h hr
    rw [← Request.exec_view hexec] at heffect
    exact heffect

theorem not_reaches_delete (h : key ∈ unreachable) : ¬ Reaches (k.delete key) := by
  cases k <;> exact not_not_intro h

theorem stored_step {token : String} {st : Stores} (s : Sent) (hkey : key ∈ unreachable)
    (h : k.stored st.view key = true) : k.stored (step token st s).view key = true := by
  rw [step_eq]
  split_ifs with hs
  · refine stored_execute h fun heq => ?_
    rw [heq] at hs
    exact not_reaches_delete hkey hs.2
  · exact h

/-- A workload, a service or an ingress that was stored under one or two dots outlives every
    request of `smithctl`. A client that escapes the dots can name it. -/
theorem dotted_key_stays (token : String) (st : Stores) (k : Kind) (key : String)
    (hkey : key = "." ∨ key = "..") (h : k.stored st.view key = true) :
    (∀ sent : List Sent, k.stored (run (step token) st sent).view key = true) ∧
      ∃ name, request (ascii k.dir) (pathOf (ascii k.dir) name) = .handled (utf8 key) := by
  have hunreachable : key ∈ unreachable := by
    obtain rfl | rfl := hkey
    · simp [unreachable]
    · simp [unreachable]
  refine ⟨fun sent => ?_, ?_⟩
  · induction sent generalizing st with
    | nil => exact h
    | cons s sent ih => exact ih (step token st s) (stored_step s hunreachable h)
  · obtain rfl | rfl := hkey
    · refine ⟨ascii "%2E", ?_⟩
      cases k <;> decide +kernel
    · refine ⟨ascii "%2E%2E", ?_⟩
      cases k <;> decide +kernel

/-- The API takes the workload, and `smithctl` does not get it deleted. -/
theorem dotted_key_stays_workload :
    let dot : Workload := { id := "..", image := "nginx:1.27" }
    let st := step "token" ⟨.new, .new, ⟨∅⟩⟩ ⟨"Bearer token", .applyWorkload dot⟩
    Kind.workload.stored st.view ".." = true ∧
      Kind.workload.stored (run (step "token") st [⟨"Bearer token", .deleteWorkload ".."⟩]).view ".." =
        true := by
  intro dot st
  have hstored : Kind.workload.stored st.view ".." = true := by decide +kernel
  exact ⟨hstored, (dotted_key_stays "token" st .workload ".." (.inr rfl) hstored).1 _⟩

end Stays

end Smith.PublicApi
