import Mathlib

set_option autoImplicit false

/-!
# Hosts and ports

`net.SplitHostPort`, and the host that a server is asked for: what it splits off, or the whole
text where it does not split. A numeric port comes off a text without colons and brackets and
off a bracketed one, and stays on every other.
-/
namespace Smith.HostPort

def cut (c : Char) : List Char → Option (List Char × List Char)
  | [] => none
  | a :: l => if a = c then some ([], l) else (cut c l).map fun p => (a :: p.1, p.2)

def cutLast (c : Char) : List Char → Option (List Char × List Char)
  | [] => none
  | a :: l =>
    match cutLast c l with
    | some (before, after) => some (a :: before, after)
    | none => if a = c then some ([], l) else none

/-- The host of a text that opens with a bracket, whose last colon stands before `port`: the
    first closing bracket has to stand just before that colon. -/
def splitBracketed (inner port : List Char) : Except String (List Char × List Char) :=
  match cut ']' inner with
  | none => .error "missing ']' in address"
  | some (host, rest) =>
    if rest = [] then .error "missing port in address"
    else if rest.length = port.length + 1 then
      if '[' ∈ inner then .error "unexpected '[' in address"
      else if ']' ∈ rest then .error "unexpected ']' in address"
      else .ok (host, port)
    else if rest.head? = some ':' then .error "too many colons in address"
    else .error "missing port in address"

def splitHostPort (hostport : List Char) : Except String (List Char × List Char) :=
  match cutLast ':' hostport with
  | none => .error "missing port in address"
  | some (before, port) =>
    if hostport.head? = some '[' then splitBracketed hostport.tail port
    else if ':' ∈ before then .error "too many colons in address"
    else if '[' ∈ hostport then .error "unexpected '[' in address"
    else if ']' ∈ hostport then .error "unexpected ']' in address"
    else .ok (before, port)

def hostOf (hostport : List Char) : List Char :=
  match splitHostPort hostport with
  | .ok (host, _) => host
  | .error _ => hostport

def Plain (l : List Char) : Prop := ':' ∉ l ∧ '[' ∉ l ∧ ']' ∉ l

def Bracketed (inner l : List Char) : Prop := l = '[' :: (inner ++ [']']) ∧ '[' ∉ inner ∧ ']' ∉ inner

theorem plain_of_digits {l : List Char} (h : ∀ c ∈ l, c.isDigit = true) : Plain l := by
  refine ⟨fun hc => ?_, fun hc => ?_, fun hc => ?_⟩
  all_goals exact absurd (h _ hc) (by decide)

theorem cut_append {c : Char} {l : List Char} (h : c ∉ l) (r : List Char) :
    cut c (l ++ c :: r) = some (l, r) := by
  induction l with
  | nil => simp [cut]
  | cons a l ih =>
    rw [List.mem_cons, not_or] at h
    rw [List.cons_append, cut, if_neg (Ne.symm h.1), ih h.2]
    rfl

theorem eq_of_cut {c : Char} {l before after : List Char} (h : cut c l = some (before, after)) :
    l = before ++ c :: after ∧ c ∉ before := by
  induction l generalizing before with
  | nil => simp [cut] at h
  | cons a l ih =>
    unfold cut at h
    split_ifs at h with hc
    · obtain ⟨rfl, rfl⟩ := Prod.mk.inj (Option.some.inj h)
      exact ⟨by rw [hc, List.nil_append], List.not_mem_nil⟩
    · obtain ⟨⟨p, q⟩, hp, hpq⟩ := Option.map_eq_some_iff.mp h
      obtain ⟨rfl, rfl⟩ := Prod.mk.inj hpq
      obtain ⟨hl, hnot⟩ := ih hp
      exact ⟨by rw [hl, List.cons_append], by simp [Ne.symm hc, hnot]⟩

theorem cutLast_eq_none {c : Char} {l : List Char} (h : c ∉ l) : cutLast c l = none := by
  induction l with
  | nil => rfl
  | cons a l ih =>
    rw [List.mem_cons, not_or] at h
    rw [cutLast, ih h.2]
    exact if_neg (Ne.symm h.1)

theorem cutLast_append {c : Char} {r : List Char} (h : c ∉ r) (l : List Char) :
    cutLast c (l ++ c :: r) = some (l, r) := by
  induction l with
  | nil =>
    rw [List.nil_append, cutLast, cutLast_eq_none h]
    exact if_pos rfl
  | cons a l ih => rw [List.cons_append, cutLast, ih]

theorem hostOf_no_colon {l : List Char} (h : ':' ∉ l) : hostOf l = l := by
  rw [hostOf, splitHostPort, cutLast_eq_none h]

theorem hostOf_bracketed {inner l : List Char} (h : Bracketed inner l) : hostOf l = l := by
  obtain ⟨rfl, -, hclose⟩ := h
  rw [hostOf, splitHostPort]
  cases cutLast ':' ('[' :: (inner ++ [']'])) with
  | none => rfl
  | some p =>
    -- the bracket that closes ends the text
    simp [splitBracketed, cut_append hclose]

/-- Only a bracketed text splits where a bracket opens it. -/
theorem splitBracketed_error {l : List Char} (port : List Char)
    (h : ∀ inner, ¬ Bracketed inner ('[' :: l)) :
    ∃ e, splitBracketed (l ++ ':' :: port) port = .error e := by
  unfold splitBracketed
  cases hcut : cut ']' (l ++ ':' :: port) with
  | none => exact ⟨_, rfl⟩
  | some p =>
    obtain ⟨host, rest⟩ := p
    obtain ⟨heq, hclose⟩ := eq_of_cut hcut
    simp only
    split_ifs with hempty hlength hopen
    · exact ⟨_, rfl⟩
    · exact ⟨_, rfl⟩
    · exact ⟨_, rfl⟩
    · -- the closing bracket stands just before the colon
      have hsplit : l ++ ':' :: port = (host ++ [']']) ++ rest := by simpa using heq
      obtain ⟨rfl, -⟩ := List.append_inj' hsplit (by simpa using hlength.symm)
      simp only [List.mem_append, not_or] at hopen
      exact absurd ⟨rfl, hopen.1.1, hclose⟩ (h host)
    · exact ⟨_, rfl⟩
    · exact ⟨_, rfl⟩

section Port
variable {l port : List Char} (hport : Plain port)
include hport

theorem hostOf_plain_port (h : Plain l) : hostOf (l ++ ':' :: port) = l := by
  have hopen : '[' ∉ l ++ ':' :: port := by simp [h.2.1, hport.2.1]
  have hclose : ']' ∉ l ++ ':' :: port := by simp [h.2.2, hport.2.2]
  have hhead : (l ++ ':' :: port).head? ≠ some '[' := fun hh => hopen (List.mem_of_mem_head? hh)
  rw [hostOf, splitHostPort, cutLast_append hport.1]
  simp only
  rw [if_neg hhead, if_neg h.1, if_neg hopen, if_neg hclose]

theorem hostOf_bracketed_port {inner : List Char} (h : Bracketed inner l) :
    hostOf (l ++ ':' :: port) = inner := by
  obtain ⟨rfl, hopen, hclose⟩ := h
  have hinner : inner ++ [']'] ++ ':' :: port = inner ++ ']' :: ':' :: port := by simp
  have hsplit : splitBracketed (inner ++ ']' :: ':' :: port) port = .ok (inner, port) := by
    simp [splitBracketed, cut_append hclose, hopen, hport.2.1, hport.2.2]
  rw [hostOf, splitHostPort, cutLast_append hport.1, List.cons_append, hinner]
  simp only [List.head?_cons, if_true, List.tail_cons, hsplit]

theorem hostOf_other_port (hplain : ¬ Plain l) (hbracket : ∀ inner, ¬ Bracketed inner l) :
    hostOf (l ++ ':' :: port) = l ++ ':' :: port := by
  have herror : ∃ e, splitHostPort (l ++ ':' :: port) = .error e := by
    rw [splitHostPort, cutLast_append hport.1]
    simp only
    split_ifs with hhead hcolon hopen hclose
    · cases l with
      | nil => simp at hhead
      | cons a l =>
        obtain rfl : a = '[' := by simpa using hhead
        exact splitBracketed_error port hbracket
    · exact ⟨_, rfl⟩
    · exact ⟨_, rfl⟩
    · exact ⟨_, rfl⟩
    · simp only [List.mem_append, not_or] at hopen hclose
      exact absurd ⟨hcolon, hopen.1, hclose.1⟩ hplain
  obtain ⟨e, he⟩ := herror
  rw [hostOf, he]

end Port
end Smith.HostPort
