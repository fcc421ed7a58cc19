import Smith.Overwrites

set_option autoImplicit false

/-!
# JSON values and how a typed variable is filled from them

The decoders follow `encoding/json`: `null` leaves a variable at its zero value, an absent
field does too, and a value of another kind is an error. Field names are matched exactly. A
text is anything that values are written to and read back from.
-/
namespace Smith.Json
open FiniteMaps Overwrites Std

inductive Value where
  | null
  | num (n : ℤ)
  | str (s : String)
  | arr (l : List Value)
  | obj (fields : List (String × Value))

/-- Texts of values, among them one for `null`, and the empty text, which is none. -/
structure Encoding (Text : Type) where
  empty : Text
  null : Text
  marshal : Value → Text
  unmarshal : Text → Except String Value
  unmarshal_marshal : ∀ v, unmarshal (marshal v) = .ok v
  marshal_null : marshal .null = null
  marshal_ne_empty : ∀ v, marshal v ≠ empty

theorem Encoding.marshal_injective {Text : Type} (enc : Encoding Text) :
    Function.Injective enc.marshal := by
  intro v v' h
  have hv := enc.unmarshal_marshal v
  rw [h, enc.unmarshal_marshal] at hv
  exact (Except.ok.inj hv).symm

theorem Encoding.marshal_eq_null_iff {Text : Type} (enc : Encoding Text) (v : Value) :
    enc.marshal v = enc.null ↔ v = .null := by
  rw [← enc.marshal_null]
  exact enc.marshal_injective.eq_iff

def string : Value → Except String String
  | .null => .ok ""
  | .str s => .ok s
  | _ => .error "json: cannot unmarshal value into Go value of type string"

def int : Value → Except String ℤ
  | .null => .ok 0
  | .num n => .ok n
  | _ => .error "json: cannot unmarshal value into Go value of type int"

def slice {α : Type} (elem : Value → Except String α) : Value → Except String (Option (List α))
  | .null => .ok none
  | .arr l => (l.mapM elem).map some
  | _ => .error "json: cannot unmarshal value into Go slice"

def map {α : Type} (elem : Value → Except String α) :
    Value → Except String (Option (ExtTreeMap String α))
  | .null => .ok none
  | .obj fields => (fields.mapM fun f => (elem f.2).map fun a => (f.1, a)).map fun l =>
      some (overwrite ∅ l)
  | _ => .error "json: cannot unmarshal value into Go map"

/-- The field of an object: its last occurrence, or the zero value. -/
def field {α : Type} (elem : Value → Except String α) (zero : α) (name : String)
    (fields : List (String × Value)) : Except String α :=
  match fields.reverse.lookup name with
  | none => .ok zero
  | some v => elem v

/-- A struct: `null` leaves it at its zero value. -/
def object {α : Type} (zero : α) (ofFields : List (String × Value) → Except String α) :
    Value → Except String α
  | .null => .ok zero
  | .obj fields => ofFields fields
  | _ => .error "json: cannot unmarshal value into Go struct"

/-- A pointer, which `null` leaves at nil. -/
def pointer {α : Type} (elem : Value → Except String α) : Value → Except String (Option α)
  | .null => .ok none
  | v => (elem v).map some

/-- A slice, a map or a pointer, which is written as `null` where it is nil. -/
def nilable {α : Type} (enc : α → Value) : Option α → Value
  | none => .null
  | some a => enc a

/-- A field that `omitempty` may leave out. -/
def omitEmpty (omitted : Bool) (name : String) (v : Value) : List (String × Value) :=
  if omitted then [] else [(name, v)]

section RoundTrip
variable {α β : Type} {enc : α → Value} {dec : Value → Except String α}

theorem mapM_ok {f : α → Except String β} {g : α → β} {l : List α} (h : ∀ a ∈ l, f a = .ok (g a)) :
    l.mapM f = .ok (l.map g) := by
  induction l with
  | nil => rfl
  | cons a l ih =>
    rw [List.mapM_cons, h a List.mem_cons_self,
      ih fun b hb => h b (List.mem_cons_of_mem a hb)]
    rfl

/-- A slice of values that come back comes back. -/
theorem slice_arr (h : ∀ a, dec (enc a) = .ok a) (l : List α) :
    slice dec (.arr (l.map enc)) = .ok (some l) := by
  have hl : (l.map enc).mapM dec = .ok l := by
    rw [List.mapM_map]
    exact (mapM_ok fun a _ => h a).trans (congrArg Except.ok (List.map_id l))
  rw [slice, hl]
  rfl

theorem map_obj (h : ∀ a, dec (enc a) = .ok a) (m : ExtTreeMap String α) :
    map dec (.obj (m.toList.map fun e => (e.1, enc e.2))) = .ok (some m) := by
  have hl : (m.toList.map fun e => (e.1, enc e.2)).mapM
      (fun f => (dec f.2).map fun a => (f.1, a)) = .ok m.toList := by
    rw [List.mapM_map]
    refine (mapM_ok (g := id) fun e _ => ?_).trans (congrArg Except.ok (List.map_id _))
    rw [Function.comp, h]
    rfl
  rw [map, hl]
  exact congrArg (fun t => Except.ok (some t)) (overwrite_perm (.refl _))

/-- A field that was added last, if it was not left out. -/
theorem field_omitEmpty_self (zero : α) (name : String) (fields : List (String × Value))
    (omitted : Bool) (v : Value) :
    field dec zero name (fields ++ omitEmpty omitted name v) =
      if omitted then field dec zero name fields else dec v := by
  cases omitted <;> simp [field, omitEmpty]

theorem field_omitEmpty_ne {name key : String} (h : key ≠ name) (zero : α)
    (fields : List (String × Value)) (omitted : Bool) (v : Value) :
    field dec zero name (fields ++ omitEmpty omitted key v) = field dec zero name fields := by
  have hne : (name == key) = false := beq_eq_false_iff_ne.mpr (Ne.symm h)
  cases omitted <;> simp [field, omitEmpty, List.lookup_cons, hne]

theorem injective_of_decode (h : ∀ a, dec (enc a) = .ok a) : Function.Injective enc := by
  intro a b hab
  have ha := h a
  rw [hab, h b] at ha
  exact (Except.ok.inj ha).symm

theorem nilable_injective (h : Function.Injective enc) (hnull : ∀ a, enc a ≠ .null) :
    Function.Injective (nilable enc) := by
  intro a b hab
  cases a <;> cases b
  · rfl
  · exact absurd hab.symm (hnull _)
  · exact absurd hab (hnull _)
  · exact congrArg some (h hab)

end RoundTrip
end Smith.Json
