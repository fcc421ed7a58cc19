import Mathlib

set_option autoImplicit false

/-!
# Programs of commands that may fail

A program stops at the first command that fails and keeps what was done so far. A command
fails where its own conditions are not met, and may fail for a reason outside the state: the
environment's verdicts are a list, used up from the left, and no verdict is no fault.

An effect says all of a program at once: what it does when it succeeds, what its success
shows, what is enough for it to succeed when there is no fault, and what its failures leave.
A triple is about successful runs only, and what a program keeps holds after all of them.
-/
namespace Smith.Commands

abbrev World (ε σ : Type) := σ × List (Option ε)

abbrev Prog (ε σ α : Type) := EStateM ε (World ε σ) α

variable {ε σ α β : Type}

def command (act : σ → Except ε (α × σ)) : Prog ε σ α := fun w =>
  match w.2.head?.join with
  | some e => .error e (w.1, w.2.tail)
  | none =>
    match act w.1 with
    | .error e => .error e (w.1, w.2.tail)
    | .ok (a, t) => .ok a (t, w.2.tail)

def asks (read : σ → α) : Prog ε σ α := fun w => .ok (read w.1) w

def update (g : σ → σ) : Prog ε σ Unit := fun w => .ok () (g w.1, w.2)

/-- The outcomes of a program that leads to `t`, with no fault pending if `quiet`. -/
def Settles (E Q : σ → Prop) (need enough quiet : Prop) (t : σ) :
    EStateM.Result ε (World ε σ) Unit → Prop
  | .ok _ w => need ∧ w.1 = t ∧ Q w.1 ∧ (quiet → w.2 = [])
  | .error _ w => E w.1 ∧ (quiet → ¬enough)

theorem Settles.mono {E Q Q' : σ → Prop} {need need' enough enough' quiet quiet' : Prop}
    {t t' : σ} {r : EStateM.Result ε (World ε σ) Unit} (h : Settles E Q need enough quiet t r)
    (hQ : ∀ s, Q s → Q' s) (hneed : need → need') (henough : enough' → enough)
    (hquiet : quiet' → quiet) (ht : need → t = t') : Settles E Q' need' enough' quiet' t' r := by
  cases r with
  | ok u w =>
    obtain ⟨hn, hw, hq, hfaults⟩ := h
    exact ⟨hneed hn, hw.trans (ht hn), hQ _ hq, fun h => hfaults (hquiet h)⟩
  | error e w => exact ⟨h.1, fun hq he => h.2 (hquiet hq) (henough he)⟩

/-- From `P` to `Q` by `f`, failing into `E`. -/
def Effect (E P Q : σ → Prop) (p : Prog ε σ Unit) (need enough : Prop) (f : σ → σ) : Prop :=
  ∀ s fs, P s → Settles E Q need enough (fs = []) (f s) (p (s, fs))

theorem bind_of_ok {p : Prog ε σ α} {k : α → Prog ε σ β} {w w' : World ε σ} {a : α}
    (h : p w = .ok a w') : (p >>= k) w = k a w' := by
  change EStateM.bind p k w = k a w'
  rw [EStateM.bind, h]

theorem bind_of_error {p : Prog ε σ α} {k : α → Prog ε σ β} {w w' : World ε σ} {e : ε}
    (h : p w = .error e w') : (p >>= k) w = .error e w' := by
  change EStateM.bind p k w = .error e w'
  rw [EStateM.bind, h]

section Rules
variable {E P Q R : σ → Prop} {p q : Prog ε σ Unit} {need need' enough enough' : Prop}
  {f g : σ → σ}

theorem Effect.done (h : Effect E P Q p need enough f) {s t : σ} {fs gs : List (Option ε)}
    (hs : P s) (hp : p (s, fs) = .ok () (t, gs)) : need ∧ t = f s ∧ Q t := by
  have hsettles := h s fs hs
  rw [hp] at hsettles
  exact ⟨hsettles.1, hsettles.2.1, hsettles.2.2.1⟩

theorem Effect.leaves (h : Effect E P Q p need enough f) {s t : σ} {fs gs : List (Option ε)}
    {e : ε} (hs : P s) (hp : p (s, fs) = .error e (t, gs)) : E t := by
  have hsettles := h s fs hs
  rw [hp] at hsettles
  exact hsettles.1

theorem Effect.succeeds (h : Effect E P Q p need enough f) {s : σ} (hs : P s) (he : enough) :
    p (s, []) = .ok () (f s, []) := by
  have hsettles := h s [] hs
  cases hp : p (s, []) with
  | ok u w =>
    rw [hp] at hsettles
    exact congrArg (EStateM.Result.ok ()) (Prod.ext hsettles.2.1 (hsettles.2.2.2 rfl))
  | error e w =>
    rw [hp] at hsettles
    exact absurd he (hsettles.2 rfl)

theorem Effect.mono (h : Effect E P Q p need enough f) {P' Q' : σ → Prop} {need' enough' : Prop}
    {f' : σ → σ} (hP : ∀ s, P' s → P s) (hQ : ∀ s, Q s → Q' s) (hneed : need → need')
    (henough : enough' → enough) (hf : ∀ s, P' s → need → f s = f' s) :
    Effect E P' Q' p need' enough' f' :=
  fun s fs hs => (h s fs (hP s hs)).mono hQ hneed henough id (hf s hs)

theorem Effect.post (h : Effect E P Q p need enough f)
    (hR : ∀ s, P s → need → Q (f s) → R (f s)) : Effect E P R p need enough f := by
  intro s fs hs
  have hsettles := h s fs hs
  cases hp : p (s, fs) with
  | ok u w =>
    obtain ⟨t, gs⟩ := w
    rw [hp] at hsettles
    obtain ⟨hneed, rfl, hq, hgs⟩ := hsettles
    exact ⟨hneed, rfl, hR s hs hneed hq, hgs⟩
  | error e w =>
    rw [hp] at hsettles
    exact hsettles

theorem Effect.command {act : σ → Except ε (Unit × σ)} {taken : Prop} (hE : ∀ s, P s → E s)
    (hok : ∀ s, P s → taken → act s = .ok ((), f s))
    (herror : ∀ s, P s → ¬taken → ∃ e, act s = .error e) (hQ : ∀ s, P s → taken → Q (f s)) :
    Effect E P Q (command act) taken taken f := by
  intro s fs hs
  unfold Commands.command
  cases hhead : fs.head?.join with
  | some e =>
    refine ⟨hE s hs, fun hfs => ?_⟩
    rw [hfs] at hhead
    exact absurd hhead (by simp)
  | none =>
    by_cases ht : taken
    · simp only [hok s hs ht]
      exact ⟨ht, rfl, hQ s hs ht, fun hfs => by simp [hfs]⟩
    · obtain ⟨e, he⟩ := herror s hs ht
      simp only [he]
      exact ⟨hE s hs, fun _ => ht⟩

theorem Effect.skip : Effect E P P (pure () : Prog ε σ Unit) True enough id :=
  fun _ _ hs => ⟨trivial, rfl, hs, id⟩

theorem Effect.update {g : σ → σ} (h : ∀ s, P s → Q (g s)) :
    Effect E P Q (update g : Prog ε σ Unit) True enough g :=
  fun s _ hs => ⟨trivial, rfl, h s hs, id⟩

theorem Effect.seq (hp : Effect E P Q p need enough f) (hq : Effect E Q R q need' enough' g) :
    Effect E P R (p >>= fun _ => q) (need ∧ need') (enough ∧ enough') (g ∘ f) := by
  intro s fs hs
  have hfirst := hp s fs hs
  cases hrun : p (s, fs) with
  | error e w =>
    rw [hrun] at hfirst
    rw [bind_of_error hrun]
    exact ⟨hfirst.1, fun hquiet he => hfirst.2 hquiet he.1⟩
  | ok u w =>
    obtain ⟨t, gs⟩ := w
    rw [hrun] at hfirst
    obtain ⟨hneed, rfl, ht, hgs⟩ := hfirst
    rw [bind_of_ok hrun]
    exact (hq (f s) gs ht).mono (fun _ h => h) (⟨hneed, ·⟩) And.right hgs fun _ => rfl

theorem Effect.label (h : Effect E P Q p need enough f) (mark : ε → ε) :
    Effect E P Q (EStateM.adaptExcept mark p) need enough f := by
  intro s fs hs
  have hsettles := h s fs hs
  unfold EStateM.adaptExcept
  cases hp : p (s, fs) with
  | ok u w =>
    rw [hp] at hsettles
    exact hsettles
  | error e w =>
    rw [hp] at hsettles
    exact hsettles

/-- A command that reads, and a program that goes on with what was read. -/
theorem Effect.query {read : σ → α} {k : α → Prog ε σ Unit} (hE : ∀ s, P s → E s)
    (h : ∀ a, Effect E (fun s => P s ∧ read s = a) Q (k a) need enough f) :
    Effect E P Q (Commands.command (fun s => .ok (read s, s)) >>= k) need enough f := by
  intro s fs hs
  cases hhead : fs.head?.join with
  | some e =>
    have hread : Commands.command (fun s => .ok (read s, s)) (s, fs) = .error e (s, fs.tail) := by
      simp only [Commands.command, hhead]
    rw [bind_of_error hread]
    refine ⟨hE s hs, fun hfs => ?_⟩
    rw [hfs] at hhead
    exact absurd hhead (by simp)
  | none =>
    have hread : (Commands.command (fun s => .ok (read s, s)) : Prog ε σ α) (s, fs) =
        .ok (read s) (s, fs.tail) := by
      simp only [Commands.command, hhead]
    rw [bind_of_ok hread]
    exact (h (read s) s fs.tail ⟨hs, rfl⟩).mono (fun _ h => h) id id
      (fun hfs => by rw [hfs]; rfl) fun _ => rfl

theorem Effect.asks {read : σ → α} {k : α → Prog ε σ Unit}
    (h : ∀ a, Effect E (fun s => P s ∧ read s = a) Q (k a) need enough f) :
    Effect E P Q (Commands.asks read >>= k) need enough f :=
  fun s fs hs => h (read s) s fs ⟨hs, rfl⟩

/-- A loop. What is known before an element may depend on the elements still to come. -/
theorem Effect.forM {P : List α → σ → Prop} {body : α → Prog ε σ Unit} {need enough : α → Prop}
    {f : α → σ → σ} {l : List α}
    (h : ∀ x ∈ l, ∀ l', Effect E (P (x :: l')) (P l') (body x) (need x) (enough x) (f x)) :
    Effect E (P l) (P []) (l.forM body) (∀ x ∈ l, need x) (∀ x ∈ l, enough x)
      fun s => l.foldl (fun s x => f x s) s := by
  induction l with
  | nil =>
    exact Effect.skip.mono (fun _ h => h) (fun _ h => h) (by simp) (fun h => h) fun _ _ _ => rfl
  | cons x l ih =>
    rw [List.forall_mem_cons] at h
    exact ((h.1 l).seq (ih h.2)).mono (fun _ h => h) (fun _ h => h) List.forall_mem_cons.mpr
      List.forall_mem_cons.mp fun _ _ _ => rfl

end Rules

/-- Successful runs from `P` end in `Q`. -/
def Triple (P : σ → Prop) (p : Prog ε σ α) (Q : α → σ → Prop) : Prop :=
  ∀ s fs a t gs, P s → p (s, fs) = .ok a (t, gs) → Q a t

section Triples
variable {P P' : σ → Prop} {p : Prog ε σ α}

theorem Triple.mono {Q Q' : α → σ → Prop} (h : Triple P p Q) (hP : ∀ s, P' s → P s)
    (hQ : ∀ a s, Q a s → Q' a s) : Triple P' p Q' :=
  fun s fs a t gs hs hp => hQ a t (h s fs a t gs (hP s hs) hp)

theorem Triple.pure {Q : α → σ → Prop} {a : α} (h : ∀ s, P s → Q a s) :
    Triple P (pure a : Prog ε σ α) Q := by
  rintro s fs _ t gs hs ⟨⟩
  exact h s hs

theorem Triple.bind {Q : α → σ → Prop} {R : β → σ → Prop} {k : α → Prog ε σ β}
    (hp : Triple P p Q) (hk : ∀ a, Triple (Q a) (k a) R) : Triple P (p >>= k) R := by
  intro s fs b u hs' hs hrun
  cases hfirst : p (s, fs) with
  | error e w =>
    rw [bind_of_error hfirst] at hrun
    exact absurd hrun (by simp)
  | ok a w =>
    obtain ⟨t, gs⟩ := w
    rw [bind_of_ok hfirst] at hrun
    exact hk a t gs b u hs' (hp s fs a t gs hs hfirst) hrun

theorem Triple.command {Q : α → σ → Prop} {act : σ → Except ε (α × σ)}
    (h : ∀ s a t, P s → act s = .ok (a, t) → Q a t) : Triple P (command act) Q := by
  intro s fs a t gs hs hrun
  unfold Commands.command at hrun
  split at hrun
  · exact absurd hrun (by simp)
  · split at hrun
    · exact absurd hrun (by simp)
    · rename_i hact
      cases hrun
      exact h _ _ _ hs hact

theorem Triple.commandMap {Q : α → σ → Prop} {act : σ → Except ε β} {f : σ → β → α × σ}
    (h : ∀ s b, P s → act s = .ok b → Q (f s b).1 (f s b).2) :
    Triple P (Commands.command fun s => (act s).map (f s)) Q := by
  refine Triple.command fun s a t hs hact => ?_
  cases hb : act s with
  | error e =>
    rw [hb] at hact
    exact absurd hact (by simp [Except.map])
  | ok b =>
    have hq := h s b hs hb
    rw [hb] at hact
    rwa [show f s b = (a, t) from Except.ok.inj hact] at hq

theorem Triple.asks {Q : α → σ → Prop} {read : σ → α} (h : ∀ s, P s → Q (read s) s) :
    Triple P (asks read : Prog ε σ α) Q := by
  rintro s fs _ t gs hs ⟨⟩
  exact h s hs

theorem Triple.update {Q : Unit → σ → Prop} {g : σ → σ} (h : ∀ s, P s → Q () (g s)) :
    Triple P (update g : Prog ε σ Unit) Q := by
  rintro s fs _ t gs hs ⟨⟩
  exact h s hs

theorem Triple.label {Q : α → σ → Prop} (h : Triple P p Q) (mark : ε → ε) :
    Triple P (EStateM.adaptExcept mark p) Q := by
  intro s fs a t gs hs hrun
  unfold EStateM.adaptExcept at hrun
  split at hrun
  · exact absurd hrun (by simp)
  · rename_i hp
    cases hrun
    exact h s fs _ _ _ hs hp

/-- A loop whose invariant may depend on the elements still to come. -/
theorem Triple.forM {P : List α → σ → Prop} {body : α → Prog ε σ Unit} {l : List α}
    (h : ∀ x ∈ l, ∀ l', Triple (P (x :: l')) (body x) fun _ => P l') :
    Triple (P l) (l.forM body) fun _ => P [] := by
  induction l with
  | nil => exact Triple.pure fun _ hs => hs
  | cons x l ih =>
    rw [List.forall_mem_cons] at h
    exact (h.1 l).bind fun _ => ih h.2

end Triples

/-- From `s` the program succeeds if there is no fault, and whenever it succeeds it returns `a`
    and ends in `t`. -/
structure Yields (s : σ) (p : Prog ε σ α) (a : α) (t : σ) : Prop where
  result : Triple (· = s) p fun b u => b = a ∧ u = t
  quiet : p (s, []) = .ok a (t, [])

section Results
variable {s t u : σ} {p : Prog ε σ α} {a : α} {b : β}

theorem Yields.pure (a : α) : Yields s (pure a : Prog ε σ α) a s :=
  ⟨Triple.pure fun _ hs => ⟨rfl, hs⟩, rfl⟩

theorem Yields.asks (read : σ → α) : Yields s (asks read : Prog ε σ α) (read s) s :=
  ⟨Triple.asks fun _ hs => ⟨congrArg read hs, hs⟩, rfl⟩

theorem Yields.command {act : σ → Except ε (α × σ)} (h : act s = .ok (a, t)) :
    Yields s (command act) a t := by
  constructor
  · refine Triple.command ?_
    rintro _ b u rfl hact
    exact Prod.mk.inj (Except.ok.inj (hact.symm.trans h))
  · simp only [Commands.command, List.head?_nil, Option.join_none, h, List.tail_nil]

theorem Yields.bind {k : α → Prog ε σ β} (hp : Yields s p a t) (hk : Yields t (k a) b u) :
    Yields s (p >>= k) b u := by
  constructor
  · refine Triple.bind hp.result fun a' => ?_
    rintro t' fs c w gs ⟨rfl, rfl⟩ hrun
    exact hk.result _ fs c w gs rfl hrun
  · rw [bind_of_ok hp.quiet, hk.quiet]

theorem Yields.label (h : Yields s p a t) (mark : ε → ε) :
    Yields s (EStateM.adaptExcept mark p) a t :=
  ⟨h.result.label mark, by simp only [EStateM.adaptExcept, h.quiet]⟩

theorem Yields.forM {body : α → Prog ε σ Unit} {f : σ → α → σ}
    (h : ∀ s x, Yields s (body x) () (f s x)) (l : List α) :
    Yields s (l.forM body) () (l.foldl f s) := by
  induction l generalizing s with
  | nil => exact Yields.pure ()
  | cons x l ih => exact (h s x).bind ih

end Results

def left : EStateM.Result ε (World ε σ) α → σ
  | .ok _ w => w.1
  | .error _ w => w.1

def Keeps (I : σ → Prop) (p : Prog ε σ α) : Prop := ∀ s fs, I s → I (left (p (s, fs)))

section Invariants
variable {I : σ → Prop} {p : Prog ε σ α}

theorem Keeps.pure (a : α) : Keeps I (pure a : Prog ε σ α) := fun _ _ hs => hs

/-- What is read from the state decides how the program goes on. -/
theorem Keeps.asks {read : σ → α} {k : α → Prog ε σ β} (h : ∀ s, I s → Keeps I (k (read s))) :
    Keeps I (asks read >>= k) :=
  fun s fs hs => h s hs s fs hs

theorem Keeps.command {act : σ → Except ε (α × σ)}
    (h : ∀ s a t, I s → act s = .ok (a, t) → I t) : Keeps I (command act) := by
  intro s fs hs
  unfold Commands.command
  split
  · exact hs
  · split
    · exact hs
    · rename_i hact
      exact h s _ _ hs hact

theorem Keeps.bind {k : α → Prog ε σ β} (hp : Keeps I p) (hk : ∀ a, Keeps I (k a)) :
    Keeps I (p >>= k) := by
  intro s fs hs
  have hfirst := hp s fs hs
  cases hrun : p (s, fs) with
  | error e w =>
    rw [hrun] at hfirst
    rw [bind_of_error hrun]
    exact hfirst
  | ok a w =>
    rw [hrun] at hfirst
    rw [bind_of_ok hrun]
    exact hk a w.1 w.2 hfirst

theorem Keeps.label (h : Keeps I p) (mark : ε → ε) : Keeps I (EStateM.adaptExcept mark p) := by
  intro s fs hs
  have hkept := h s fs hs
  unfold EStateM.adaptExcept
  cases hrun : p (s, fs) with
  | ok a w =>
    rw [hrun] at hkept
    exact hkept
  | error e w =>
    rw [hrun] at hkept
    exact hkept

theorem Keeps.forM {body : α → Prog ε σ Unit} {l : List α} (h : ∀ x ∈ l, Keeps I (body x)) :
    Keeps I (l.forM body) := by
  induction l with
  | nil => exact Keeps.pure ()
  | cons x l ih =>
    rw [List.forall_mem_cons] at h
    exact h.1.bind fun _ => ih h.2

end Invariants
end Smith.Commands
