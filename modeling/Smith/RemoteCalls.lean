import Mathlib

set_option autoImplicit false

/-!
# Calls between processes

A caller sends a request and waits for the answer to this one call. The callee may take up
a request long after the caller has given up on it, and may do other work before it
answers. A message that is lost is one that nobody takes up.
-/
namespace Smith.RemoteCalls

inductive Flight (α β : Type) where
  | request (ask : α)
  | handling (ask : α)
  | answer (ask : α) (reply : β)
  | returned (ask : α)
  deriving DecidableEq

variable {α β : Type}

def Flight.ask : Flight α β → α
  | .request a | .handling a | .answer a _ | .returned a => a

/-- Every call of the first list is still a call of the second, for the same request. -/
def Extends (cs cs' : List (Flight α β)) : Prop :=
  ∀ (k : ℕ) (x : Flight α β), cs[k]? = some x → ∃ y, cs'[k]? = some y ∧ y.ask = x.ask

variable {cs cs' : List (Flight α β)} {k : ℕ} {x y : Flight α β}

theorem Extends.refl (cs : List (Flight α β)) : Extends cs cs := fun _ x hx => ⟨x, hx, rfl⟩

theorem Extends.trans {cs'' : List (Flight α β)} (h : Extends cs cs') (h' : Extends cs' cs'') :
    Extends cs cs'' := by
  intro k x hx
  obtain ⟨y, hy, hask⟩ := h k x hx
  obtain ⟨z, hz, hask'⟩ := h' k y hy
  exact ⟨z, hz, hask'.trans hask⟩

theorem getElem?_send (h : cs[k]? = some x) (a : α) : (cs ++ [.request a])[k]? = some x := by
  obtain ⟨hk, -⟩ := List.getElem?_eq_some_iff.mp h
  rw [List.getElem?_append_left hk, h]

theorem Extends.send (cs : List (Flight α β)) (a : α) : Extends cs (cs ++ [.request a]) :=
  fun _ x hx => ⟨x, getElem?_send hx a, rfl⟩

theorem getElem?_sent (cs : List (Flight α β)) (x : Flight α β) :
    (cs ++ [x])[cs.length]? = some x := by
  rw [List.getElem?_append_right le_rfl, Nat.sub_self]
  rfl

theorem set_sent (cs : List (Flight α β)) (x y : Flight α β) :
    (cs ++ [x]).set cs.length y = cs ++ [y] := by
  rw [List.set_append_right _ _ le_rfl, Nat.sub_self]
  rfl

theorem getElem?_advance (h : cs[k]? = some x) : (cs.set k y)[k]? = some y := by
  obtain ⟨hk, -⟩ := List.getElem?_eq_some_iff.mp h
  exact List.getElem?_set_self hk

theorem Extends.advance (h : cs[k]? = some x) (hask : y.ask = x.ask) : Extends cs (cs.set k y) := by
  intro j z hz
  by_cases hj : k = j
  · subst hj
    rw [h] at hz
    obtain rfl := Option.some.inj hz
    exact ⟨y, getElem?_advance h, hask⟩
  · exact ⟨z, (List.getElem?_set_ne hj).trans hz, rfl⟩

end Smith.RemoteCalls
