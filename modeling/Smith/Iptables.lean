import Smith.FiniteMaps

set_option autoImplicit false

/-!
# Chains of packet rules

A table of named chains and the commands that change it, with the conditions under which the
kernel takes a command. A packet walks a chain rule by rule: a jump goes through another chain
and comes back where that one ends without a verdict, a mark goes on, and the first other
target decides. Addresses are compared as texts, one for each address.
-/
namespace Smith.Iptables
open FiniteMaps Std

inductive Target where
  | jump (chain : String)
  | dnat (ip : String) (port : ℤ)
  | setXmark (mark : String)
  | masquerade
  | accept
  deriving DecidableEq, Repr

/-- A random match: the chance it is meant to have, and the digits that say so on the command
    line, in hundred-thousandths. -/
structure Random where
  chance : ℚ
  digits : ℤ
  deriving DecidableEq, Repr

/-- The matches of a rule, absent where it has none, and its target. -/
structure Rule where
  dst : Option String := none
  proto : Option String := none
  dstLocal : Bool := false
  dport : Option ℤ := none
  mark : Option String := none
  probability : Option Random := none
  target : Target
  deriving DecidableEq, Repr

def PortInRange (port : ℤ) : Prop := 1 ≤ port ∧ port ≤ 65535

def KnownProtocol (proto : String) : Prop := proto = "tcp" ∨ proto = "udp"

def Target.Accepted : Target → Prop
  | .dnat _ port => PortInRange port
  | _ => True

/-- The rules that are not rejected for what they say. -/
def Rule.Accepted (r : Rule) : Prop :=
  (∀ proto ∈ r.proto, KnownProtocol proto) ∧ (∀ port ∈ r.dport, PortInRange port) ∧
    r.target.Accepted

instance (port : ℤ) : Decidable (PortInRange port) := inferInstanceAs (Decidable (_ ∧ _))

instance (proto : String) : Decidable (KnownProtocol proto) := inferInstanceAs (Decidable (_ ∨ _))

instance (t : Target) : Decidable t.Accepted :=
  match t with
  | .dnat _ port => inferInstanceAs (Decidable (PortInRange port))
  | .jump _ | .setXmark _ | .masquerade | .accept => isTrue trivial

instance (r : Rule) : Decidable r.Accepted := inferInstanceAs (Decidable (_ ∧ _ ∧ _))

abbrev Chains := ExtTreeMap String (List Rule)

namespace Chains

/-- Some rule jumps to the chain. -/
def Refers (t : Chains) (chain : String) : Prop :=
  ∃ e ∈ t.toList, ∃ r ∈ e.2, r.target = .jump chain

instance (t : Chains) (chain : String) : Decidable (t.Refers chain) :=
  inferInstanceAs (Decidable (∃ e ∈ t.toList, ∃ r ∈ e.2, r.target = .jump chain))

def Resolves (t : Chains) : Target → Prop
  | .jump chain => chain ∈ t
  | _ => True

instance (t : Chains) (target : Target) : Decidable (t.Resolves target) :=
  match target with
  | .jump chain => inferInstanceAs (Decidable (chain ∈ t))
  | .dnat _ _ | .setXmark _ | .masquerade | .accept => isTrue trivial

def newChain (t : Chains) (chain : String) : Except String Chains :=
  if chain ∈ t then .error "iptables: Chain already exists." else .ok (t.insert chain [])

def clearChain (t : Chains) (chain : String) : Except String Chains := .ok (t.insert chain [])

/-- The rules of the chain, if it can be given the rule. -/
def slot (t : Chains) (chain : String) (r : Rule) : Except String (List Rule) :=
  if r.Accepted then
    match t[chain]? with
    | none => .error "iptables: No chain/target/match by that name."
    | some rules =>
      if t.Resolves r.target then .ok rules
      else .error "iptables: No chain/target/match by that name."
  else .error "iptables: invalid port/service or unknown protocol specified"

def append (t : Chains) (chain : String) (r : Rule) : Except String Chains :=
  return t.insert chain ((← t.slot chain r) ++ [r])

def appendUnique (t : Chains) (chain : String) (r : Rule) : Except String Chains := do
  let rules ← t.slot chain r
  if r ∈ rules then return t else return t.insert chain (rules ++ [r])

def deleteIfExists (t : Chains) (chain : String) (r : Rule) : Except String Chains := do
  let rules ← t.slot chain r
  if r ∈ rules then return t.insert chain (rules.erase r) else return t

def deleteChain (t : Chains) (chain : String) : Except String Chains :=
  match t[chain]? with
  | none => .error "iptables: No chain/target/match by that name."
  | some (_ :: _) => .error "iptables: Directory not empty."
  | some [] => if t.Refers chain then .error "iptables: Too many links." else .ok (t.erase chain)

theorem slot_eq {t : Chains} {chain : String} {r : Rule} {rules : List Rule}
    (hchain : t[chain]? = some rules) (htarget : t.Resolves r.target) (hr : r.Accepted) :
    t.slot chain r = .ok rules := by
  simp only [slot, hr, hchain, htarget, if_true]

theorem slot_rejected {t : Chains} {chain : String} {r : Rule} (hr : ¬r.Accepted) :
    ∃ e, t.slot chain r = .error e :=
  ⟨_, if_neg hr⟩

theorem refers_iff {t : Chains} {chain : String} :
    t.Refers chain ↔ ∃ (c : String) (rules : List Rule) (r : Rule),
      t[c]? = some rules ∧ r ∈ rules ∧ r.target = .jump chain := by
  simp only [Refers, Prod.exists, ExtTreeMap.mem_toList_iff_getElem?_eq_some]
  constructor
  · rintro ⟨c, rules, hc, r, hr, ht⟩
    exact ⟨c, rules, r, hc, hr, ht⟩
  · rintro ⟨c, rules, r, hc, hr, ht⟩
    exact ⟨c, rules, hc, r, hr, ht⟩

end Chains

structure Packet where
  dst : String
  proto : String
  dport : ℤ
  marks : List String := []
  deriving DecidableEq, Repr

inductive Verdict where
  | pass
  | dnat (ip : String) (port : ℤ)
  | masquerade
  | accept
  deriving DecidableEq, Repr

/-- Where a walk is: its verdict, none if it ran out of depth or chains, the packet as marked so
    far, and the number of draws made. -/
structure Walk where
  verdict : Option Verdict
  packet : Packet
  drawn : ℕ

section Walks
variable (isLocal : String → Bool) (draws : ℕ → Bool)

/-- The matches that do not depend on chance. -/
def Rule.Selects (r : Rule) (pkt : Packet) : Prop :=
  (∀ dst ∈ r.dst, dst = pkt.dst) ∧ (∀ proto ∈ r.proto, proto = pkt.proto) ∧
    (r.dstLocal = true → isLocal pkt.dst = true) ∧ (∀ port ∈ r.dport, port = pkt.dport) ∧
    (∀ mark ∈ r.mark, mark ∈ pkt.marks)

instance (r : Rule) (pkt : Packet) : Decidable (r.Selects isLocal pkt) :=
  inferInstanceAs (Decidable (_ ∧ _ ∧ _ ∧ _ ∧ _))

/-- Whether the rule is applied, and the number of draws made by then. -/
def Rule.fires (r : Rule) (pkt : Packet) (drawn : ℕ) : Bool × ℕ :=
  if r.Selects isLocal pkt then
    match r.probability with
    | none => (true, drawn)
    | some _ => (draws drawn, drawn + 1)
  else (false, drawn)

def walkRules (call : String → Packet → ℕ → Walk) : List Rule → Packet → ℕ → Walk
  | [], pkt, drawn => ⟨some .pass, pkt, drawn⟩
  | r :: rules, pkt, drawn =>
    let (fires, drawn) := r.fires isLocal draws pkt drawn
    if fires then
      match r.target with
      | .jump chain =>
        let walk := call chain pkt drawn
        if walk.verdict = some .pass then walkRules call rules walk.packet walk.drawn else walk
      | .dnat ip port => ⟨some (.dnat ip port), pkt, drawn⟩
      | .setXmark mark => walkRules call rules { pkt with marks := mark :: pkt.marks } drawn
      | .masquerade => ⟨some .masquerade, pkt, drawn⟩
      | .accept => ⟨some .accept, pkt, drawn⟩
    else walkRules call rules pkt drawn

/-- The walk through a chain, with jumps at most `depth` deep. -/
def Chains.walk (t : Chains) : ℕ → String → Packet → ℕ → Walk
  | 0, _, pkt, drawn => ⟨none, pkt, drawn⟩
  | depth + 1, chain, pkt, drawn =>
    match t[chain]? with
    | none => ⟨none, pkt, drawn⟩
    | some rules => walkRules isLocal draws (t.walk depth) rules pkt drawn

variable {isLocal} {draws} {call : String → Packet → ℕ → Walk} {pkt : Packet} {drawn : ℕ}

theorem walkRules_skip {r : Rule} (h : ¬r.Selects isLocal pkt) (rules : List Rule) :
    walkRules isLocal draws call (r :: rules) pkt drawn =
      walkRules isLocal draws call rules pkt drawn := by
  simp only [walkRules, Rule.fires, if_neg h, Bool.false_eq_true, if_false]

theorem walkRules_append_of_skip {rules : List Rule} (h : ∀ r ∈ rules, ¬r.Selects isLocal pkt)
    (rest : List Rule) : walkRules isLocal draws call (rules ++ rest) pkt drawn =
      walkRules isLocal draws call rest pkt drawn := by
  induction rules with
  | nil => rfl
  | cons r rules ih =>
    rw [List.forall_mem_cons] at h
    rw [List.cons_append, walkRules_skip h.1, ih h.2]

theorem walkRules_pass {rules : List Rule} (h : ∀ r ∈ rules, ¬r.Selects isLocal pkt) :
    walkRules isLocal draws call rules pkt drawn = ⟨some .pass, pkt, drawn⟩ := by
  have happend : walkRules isLocal draws call (rules ++ []) pkt drawn = _ :=
    walkRules_append_of_skip h []
  rw [List.append_nil] at happend
  exact happend

theorem walkRules_jump {r : Rule} {chain : String} (h : r.Selects isLocal pkt)
    (hp : r.probability = none) (ht : r.target = .jump chain) (rules : List Rule) :
    walkRules isLocal draws call (r :: rules) pkt drawn =
      if (call chain pkt drawn).verdict = some .pass then
        walkRules isLocal draws call rules (call chain pkt drawn).packet
          (call chain pkt drawn).drawn
      else call chain pkt drawn := by
  simp only [walkRules, Rule.fires, if_pos h, hp, ht, if_true]

end Walks
end Smith.Iptables
