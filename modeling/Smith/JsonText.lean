import Smith.Json

set_option autoImplicit false

/-!
# JSON texts

The text that `json.Marshal` writes for a value, without blanks and with the characters that
matter to HTML escaped, and a reader for such texts. The reader is given a text with anything
behind it that does not go on with a digit, and stops where the value ends.
-/
namespace Smith.Json

def hex (n : ℕ) : List Char :=
  [n / 4096 % 16, n / 256 % 16, n / 16 % 16, n % 16].map Nat.digitChar

/-- The characters that are written as `\u` with their code. -/
def CodeEscaped (c : Char) : Prop :=
  c.toNat < 0x20 ∨ c ∈ ['<', '>', '&', '\u2028', '\u2029']

instance (c : Char) : Decidable (CodeEscaped c) := inferInstanceAs (Decidable (_ ∨ _))

def shortEscapes : List (Char × Char) :=
  [('"', '"'), ('\\', '\\'), ('\x08', 'b'), ('\x0c', 'f'), ('\n', 'n'), ('\r', 'r'), ('\t', 't')]

def escape (c : Char) : List Char :=
  match shortEscapes.lookup c with
  | some e => ['\\', e]
  | none => if CodeEscaped c then '\\' :: 'u' :: hex c.toNat else [c]

def quoted (s : String) : List Char := '"' :: s.toList.flatMap escape ++ ['"']

def intText (n : ℤ) : List Char :=
  if n < 0 then '-' :: Nat.toDigits 10 n.natAbs else Nat.toDigits 10 n.natAbs

def separated (texts : List (List Char)) : List Char := [','].intercalate texts

mutual

def text : Value → List Char
  | .null => "null".toList
  | .num n => intText n
  | .str s => quoted s
  | .arr l => '[' :: separated (texts l) ++ [']']
  | .obj fields => '{' :: separated (memberTexts fields) ++ ['}']

def texts : List Value → List (List Char)
  | [] => []
  | v :: l => text v :: texts l

def memberTexts : List (String × Value) → List (List Char)
  | [] => []
  | (name, v) :: l => (quoted name ++ ':' :: text v) :: memberTexts l

end

def hexValue (c : Char) : ℕ := if c.isDigit then c.toNat - 48 else c.toNat - 87

def readString : List Char → Option (List Char × List Char)
  | [] => none
  | c :: s =>
    if c = '"' then some ([], s)
    else if c = '\\' then
      match s with
      | [] => none
      | e :: s =>
        if e = 'u' then
          match s with
          | a :: b :: c :: d :: s =>
            let code := [a, b, c, d].foldl (fun n x => 16 * n + hexValue x) 0
            (readString s).map fun r => (Char.ofNat code :: r.1, r.2)
          | _ => none
        else
          match (shortEscapes.map Prod.swap).lookup e with
          | none => none
          | some c => (readString s).map fun r => (c :: r.1, r.2)
    else (readString s).map fun r => (c :: r.1, r.2)

def readQuoted : List Char → Option (String × List Char)
  | [] => none
  | c :: s =>
    if c = '"' then (readString s).map fun r => (String.ofList r.1, r.2) else none

def readNat (s : List Char) : Option (ℕ × List Char) :=
  match s.takeWhile Char.isDigit with
  | [] => none
  | digits => some (Nat.ofDigitChars 10 digits 0, s.dropWhile Char.isDigit)

def readInt : List Char → Option (ℤ × List Char)
  | [] => none
  | c :: s =>
    if c = '-' then (readNat s).map fun r => (-(r.1 : ℤ), r.2)
    else (readNat (c :: s)).map fun r => ((r.1 : ℤ), r.2)

def readList {α : Type} (elem : List Char → Option (α × List Char)) (close : Char) :
    ℕ → List Char → Option (List α × List Char)
  | 0, _ => none
  | n + 1, s =>
    match elem s with
    | none => none
    | some (_, []) => none
    | some (a, c :: s) =>
      if c = close then some ([a], s)
      else if c = ',' then (readList elem close n s).map fun r => (a :: r.1, r.2)
      else none

def readMember (read : List Char → Option (Value × List Char)) (s : List Char) :
    Option ((String × Value) × List Char) :=
  match readQuoted s with
  | some (name, ':' :: s) => (read s).map fun r => ((name, r.1), r.2)
  | _ => none

def read : ℕ → List Char → Option (Value × List Char)
  | 0, _ => none
  | _ + 1, [] => none
  | n + 1, c :: s =>
    if c = 'n' then if s.take 3 = "ull".toList then some (.null, s.drop 3) else none
    else if c = '"' then (readString s).map fun r => (.str (String.ofList r.1), r.2)
    else if c = '[' then
      if s.head? = some ']' then some (.arr [], s.tail)
      else (readList (read n) ']' n s).map fun r => (.arr r.1, r.2)
    else if c = '{' then
      if s.head? = some '}' then some (.obj [], s.tail)
      else (readList (readMember (read n)) '}' n s).map fun r => (.obj r.1, r.2)
    else (readInt (c :: s)).map fun r => (.num r.1, r.2)

section Strings

theorem hexValue_digitChar {d : ℕ} (h : d < 16) : hexValue (Nat.digitChar d) = d := by
  revert d
  decide

theorem foldl_hex {n : ℕ} (h : n < 65536) :
    (hex n).foldl (fun m x => 16 * m + hexValue x) 0 = n := by
  have hdigit (m : ℕ) : hexValue (Nat.digitChar (m % 16)) = m % 16 :=
    hexValue_digitChar (Nat.mod_lt m (by decide))
  simp only [hex, List.map_cons, List.map_nil, List.foldl_cons, List.foldl_nil, hdigit]
  omega

theorem CodeEscaped.toNat_lt {c : Char} (h : CodeEscaped c) : c.toNat < 65536 := by
  rcases h with h | h
  · omega
  · simp only [List.mem_cons, List.not_mem_nil, or_false] at h
    rcases h with rfl | rfl | rfl | rfl | rfl <;> decide

theorem readString_quote (s : List Char) : readString ('"' :: s) = some ([], s) := by
  rw [readString.eq_def]
  exact if_pos rfl

theorem readString_short {c e : Char} (hu : e ≠ 'u')
    (h : (shortEscapes.map Prod.swap).lookup e = some c) (s : List Char) :
    readString ('\\' :: e :: s) = (readString s).map fun r => (c :: r.1, r.2) := by
  rw [readString.eq_def]
  simp only [if_neg (by decide : '\\' ≠ '"'), if_true, if_neg hu, h]

theorem readString_code {n : ℕ} (h : n < 65536) (s : List Char) :
    readString ('\\' :: 'u' :: hex n ++ s) =
      (readString s).map fun r => (Char.ofNat n :: r.1, r.2) := by
  have hvalue := foldl_hex h
  simp only [hex, List.map_cons, List.map_nil] at hvalue
  simp only [hex, List.map_cons, List.map_nil, List.cons_append, List.nil_append]
  rw [readString.eq_def]
  simp only [if_neg (by decide : '\\' ≠ '"'), if_true, hvalue]

theorem readString_plain {c : Char} (hquote : c ≠ '"') (hslash : c ≠ '\\') (s : List Char) :
    readString (c :: s) = (readString s).map fun r => (c :: r.1, r.2) := by
  rw [readString.eq_def]
  simp only [if_neg hquote, if_neg hslash]

/-- A character is read back whatever it is written as. -/
theorem readString_escape (c : Char) (s : List Char) :
    readString (escape c ++ s) = (readString s).map fun r => (c :: r.1, r.2) := by
  unfold escape
  cases he : shortEscapes.lookup c with
  | some e =>
    obtain ⟨l, l', hsplit, -⟩ := List.lookup_eq_some_iff.mp he
    have hmem : (c, e) ∈ shortEscapes := by simp [hsplit]
    have hback : e ≠ 'u' ∧ (shortEscapes.map Prod.swap).lookup e = some c := by
      simp only [shortEscapes, List.mem_cons, Prod.mk.injEq, List.not_mem_nil, or_false] at hmem
      rcases hmem with ⟨rfl, rfl⟩ | ⟨rfl, rfl⟩ | ⟨rfl, rfl⟩ | ⟨rfl, rfl⟩ | ⟨rfl, rfl⟩ |
        ⟨rfl, rfl⟩ | ⟨rfl, rfl⟩ <;> decide
    exact readString_short hback.1 hback.2 s
  | none =>
    rw [List.lookup_eq_none_iff] at he
    have hquote : c ≠ '"' := by simpa using he ('"', '"') (by decide)
    have hslash : c ≠ '\\' := by simpa using he ('\\', '\\') (by decide)
    by_cases hcode : CodeEscaped c
    · simp only [if_pos hcode]
      rw [readString_code hcode.toNat_lt, Char.ofNat_toNat]
    · simp only [if_neg hcode]
      exact readString_plain hquote hslash s

theorem readString_flatMap_escape (cs s : List Char) :
    readString (cs.flatMap escape ++ '"' :: s) = some (cs, s) := by
  induction cs with
  | nil => exact readString_quote s
  | cons c cs ih =>
    rw [List.flatMap_cons, List.append_assoc, readString_escape, ih, Option.map_some]

theorem readQuoted_quoted (a : String) (s : List Char) :
    readQuoted (quoted a ++ s) = some (a, s) := by
  simp only [quoted, List.cons_append, List.append_assoc, List.nil_append]
  rw [readQuoted, if_pos rfl, readString_flatMap_escape]
  simp

end Strings

def Ends (s : List Char) : Prop := ∀ c ∈ s.head?, c.isDigit = false

section Numbers
variable {s : List Char}

theorem readNat_toDigits (n : ℕ) (hs : Ends s) :
    readNat (Nat.toDigits 10 n ++ s) = some (n, s) := by
  have hdigits : ∀ c ∈ Nat.toDigits 10 n, c.isDigit = true := fun c hc =>
    Nat.isDigit_of_mem_toDigits (by decide) (by decide) hc
  have htake : s.takeWhile Char.isDigit = [] := by
    cases s with
    | nil => rfl
    | cons c s => rw [List.takeWhile_cons_of_neg (by simp [hs c rfl])]
  have hdrop : s.dropWhile Char.isDigit = s := by
    cases s with
    | nil => rfl
    | cons c s => rw [List.dropWhile_cons_of_neg (by simp [hs c rfl])]
  rw [readNat, List.takeWhile_append_of_pos hdigits, List.dropWhile_append_of_pos hdigits, htake,
    hdrop, List.append_nil]
  split
  · rename_i hnil
    exact absurd hnil (by simp)
  · rw [Nat.ofDigitChars_ten_toDigits]

theorem exists_toDigits (n : ℕ) :
    ∃ c l, Nat.toDigits 10 n = c :: l ∧ c.isDigit = true := by
  cases h : Nat.toDigits 10 n with
  | nil => exact absurd h (by simp)
  | cons c l =>
    refine ⟨c, l, rfl, Nat.isDigit_of_mem_toDigits (b := 10) (n := n) (by decide) (by decide) ?_⟩
    rw [h]
    exact List.mem_cons_self

theorem exists_intText (n : ℤ) :
    ∃ c l, intText n = c :: l ∧ c ∉ ['n', '"', '[', '{', ']'] := by
  unfold intText
  split_ifs
  · exact ⟨_, _, rfl, by decide⟩
  · obtain ⟨c, l, hdigits, hc⟩ := exists_toDigits n.natAbs
    refine ⟨c, l, hdigits, fun hmem => ?_⟩
    simp only [List.mem_cons, List.not_mem_nil, or_false] at hmem
    rcases hmem with rfl | rfl | rfl | rfl | rfl <;> exact absurd hc (by decide)

theorem readInt_intText (n : ℤ) (hs : Ends s) : readInt (intText n ++ s) = some (n, s) := by
  unfold intText
  split_ifs with hn
  · rw [List.cons_append, readInt, if_pos rfl, readNat_toDigits _ hs, Option.map_some]
    have hvalue : -(n.natAbs : ℤ) = n := by omega
    rw [hvalue]
  · obtain ⟨c, l, hdigits, hc⟩ := exists_toDigits n.natAbs
    have hdash : c ≠ '-' := by
      rintro rfl
      exact absurd hc (by decide)
    rw [hdigits, List.cons_append, readInt, if_neg hdash, ← List.cons_append, ← hdigits,
      readNat_toDigits _ hs, Option.map_some]
    have hvalue : (n.natAbs : ℤ) = n := by omega
    rw [hvalue]

end Numbers

section Lists
variable {α : Type} {elem : List Char → Option (α × List Char)} {close : Char}
  {write : α → List Char}

theorem separated_cons (t : List Char) {ts : List (List Char)} (h : ts ≠ []) :
    separated (t :: ts) = t ++ ',' :: separated ts := by
  obtain ⟨t', ts, rfl⟩ := List.exists_cons_of_ne_nil h
  rw [separated, List.intercalate_cons_cons, List.append_assoc]
  rfl

theorem length_le_separated {ts : List (List Char)} {t : List Char} (h : t ∈ ts) :
    t.length ≤ (separated ts).length := by
  induction ts with
  | nil => exact absurd h List.not_mem_nil
  | cons t' ts ih =>
    by_cases hts : ts = []
    · subst hts
      rw [List.mem_singleton.mp h]
      simp [separated]
    · rw [separated_cons t' hts]
      rcases List.mem_cons.mp h with rfl | h
      · simp
      · have := ih h
        simp
        omega

theorem card_le_separated {ts : List (List Char)} (h : ∀ t ∈ ts, t ≠ []) :
    ts.length ≤ (separated ts).length := by
  induction ts with
  | nil => simp
  | cons t ts ih =>
    rw [List.forall_mem_cons] at h
    have ht := List.length_pos_iff.mpr h.1
    by_cases hts : ts = []
    · subst hts
      simp [separated]
      omega
    · have := ih h.2
      rw [separated_cons t hts]
      simp
      omega

theorem readList_separated (hclose : close ≠ ',') (hend : close.isDigit = false) {l : List α}
    (hl : l ≠ []) (helem : ∀ a ∈ l, ∀ s, Ends s → elem (write a ++ s) = some (a, s)) {n : ℕ}
    (hn : l.length ≤ n) (s : List Char) :
    readList elem close n (separated (l.map write) ++ close :: s) = some (l, s) := by
  induction l generalizing n with
  | nil => exact absurd rfl hl
  | cons a l ih =>
    obtain ⟨n, rfl⟩ := Nat.exists_eq_add_one_of_ne_zero (Nat.ne_zero_of_lt hn)
    rw [List.forall_mem_cons] at helem
    by_cases hne : l = []
    · subst hne
      have ha := helem.1 (close :: s) (by simpa [Ends] using hend)
      simp only [readList, List.map_cons, List.map_nil, separated, List.intercalate_singleton, ha,
        if_true]
    · have hrest := ih hne helem.2 (Nat.le_of_succ_le_succ hn)
      have ha := helem.1 (',' :: (separated (l.map write) ++ close :: s))
        (by simp only [Ends, List.head?_cons, Option.mem_some_iff, forall_eq']; decide)
      rw [List.map_cons, separated_cons _ (by simpa using hne), List.append_assoc, List.cons_append]
      simp only [readList, ha, if_neg hclose.symm, if_true, hrest, Option.map_some]

theorem readList_texts (hclose : close ≠ ',') (hend : close.isDigit = false)
    (hstart : ∀ a, ∃ c s, write a = c :: s ∧ c ≠ close) {l : List α} (hl : l ≠ []) {n : ℕ}
    (hn : (separated (l.map write)).length ≤ n)
    (helem : ∀ a ∈ l, (write a).length ≤ n → ∀ s, Ends s → elem (write a ++ s) = some (a, s))
    (s : List Char) :
    (separated (l.map write) ++ close :: s).head? ≠ some close ∧
      readList elem close n (separated (l.map write) ++ close :: s) = some (l, s) := by
  have hcard : (l.map write).length ≤ _ := card_le_separated fun t ht => by
    obtain ⟨a, -, rfl⟩ := List.mem_map.mp ht
    obtain ⟨c, s, ha, -⟩ := hstart a
    simp [ha]
  rw [List.length_map] at hcard
  refine ⟨?_, readList_separated hclose hend hl (fun a ha s hs => ?_) (hcard.trans hn) s⟩
  · obtain ⟨a, l, rfl⟩ := List.exists_cons_of_ne_nil hl
    obtain ⟨c, t, ha, hc⟩ := hstart a
    by_cases hne : l.map write = []
    · simpa [hne, separated, ha] using hc
    · rw [List.map_cons, separated_cons _ hne, ha]
      simpa using hc
  · exact helem a ha ((length_le_separated (List.mem_map_of_mem ha)).trans hn) s hs

end Lists

/-- Induction over a value with a hypothesis for each element and each field. -/
theorem Value.induct {motive : Value → Prop} (null : motive .null) (num : ∀ n, motive (.num n))
    (str : ∀ s, motive (.str s)) (arr : ∀ l, (∀ v ∈ l, motive v) → motive (.arr l))
    (obj : ∀ fields, (∀ f ∈ fields, motive f.2) → motive (.obj fields)) (v : Value) : motive v :=
  @Value.rec motive (fun l => ∀ v ∈ l, motive v) (fun fields => ∀ f ∈ fields, motive f.2)
    (fun f => motive f.2) null num str arr obj (by simp)
    (fun v l hv hl => List.forall_mem_cons.mpr ⟨hv, hl⟩) (by simp)
    (fun f l hf hl => List.forall_mem_cons.mpr ⟨hf, hl⟩) (fun _ _ hv => hv) v

theorem texts_eq (l : List Value) : texts l = l.map text := by
  induction l with
  | nil => rfl
  | cons v l ih => rw [texts, ih, List.map_cons]

def memberText (f : String × Value) : List Char := quoted f.1 ++ ':' :: text f.2

theorem memberTexts_eq (fields : List (String × Value)) :
    memberTexts fields = fields.map memberText := by
  induction fields with
  | nil => rfl
  | cons f l ih => rw [memberTexts, ih, List.map_cons, memberText]

theorem exists_text (v : Value) : ∃ c s, text v = c :: s ∧ c ≠ ']' := by
  cases v with
  | null => exact ⟨_, _, rfl, by decide⟩
  | str s => exact ⟨_, _, by rw [text, quoted, List.cons_append], by decide⟩
  | arr l => exact ⟨_, _, by rw [text, List.cons_append], by decide⟩
  | obj l => exact ⟨_, _, by rw [text, List.cons_append], by decide⟩
  | num n =>
    obtain ⟨c, l, htext, hc⟩ := exists_intText n
    refine ⟨c, l, by rw [text, htext], ?_⟩
    rintro rfl
    exact hc (by decide)

theorem exists_memberText (f : String × Value) : ∃ c s, memberText f = c :: s ∧ c ≠ '}' :=
  ⟨_, _, by rw [memberText, quoted, List.cons_append, List.cons_append], by decide⟩

/-- A value is read back from its text. -/
theorem read_text (v : Value) {n : ℕ} (hn : (text v).length ≤ n) {s : List Char} (hs : Ends s) :
    read n (text v ++ s) = some (v, s) := by
  induction v using Value.induct generalizing n s with
  | null =>
    obtain ⟨n, rfl⟩ := Nat.exists_eq_add_one_of_ne_zero (Nat.ne_zero_of_lt hn)
    rfl
  | num m =>
    obtain ⟨c, l, htext, hc⟩ := exists_intText m
    rw [text] at hn ⊢
    have hread := readInt_intText m hs
    rw [htext] at hn hread ⊢
    obtain ⟨n, rfl⟩ := Nat.exists_eq_add_one_of_ne_zero (Nat.ne_zero_of_lt hn)
    simp only [List.mem_cons, not_or] at hc
    rw [List.cons_append] at hread ⊢
    rw [read, if_neg hc.1, if_neg hc.2.1, if_neg hc.2.2.1, if_neg hc.2.2.2.1, hread,
      Option.map_some]
  | str a =>
    rw [text, quoted] at hn ⊢
    obtain ⟨n, rfl⟩ := Nat.exists_eq_add_one_of_ne_zero (Nat.ne_zero_of_lt hn)
    simp only [List.cons_append, List.append_assoc, List.nil_append]
    rw [read, if_neg (by decide), if_pos rfl, readString_flatMap_escape]
    simp
  | arr l ih =>
    rw [text, texts_eq] at hn ⊢
    obtain ⟨n, rfl⟩ := Nat.exists_eq_add_one_of_ne_zero (Nat.ne_zero_of_lt hn)
    simp only [List.cons_append, List.append_assoc, List.nil_append, List.length_cons,
      List.length_append, List.length_nil] at hn ⊢
    rw [read, if_neg (by decide), if_neg (by decide), if_pos rfl]
    by_cases hl : l = []
    · subst hl
      rfl
    · obtain ⟨hhead, hread⟩ := readList_texts (by decide) (by decide) exists_text
        hl (n := n) (by omega) (fun v hv hlen s hs => ih v hv hlen hs) s
      rw [if_neg hhead, hread, Option.map_some]
  | obj fields ih =>
    rw [text, memberTexts_eq] at hn ⊢
    obtain ⟨n, rfl⟩ := Nat.exists_eq_add_one_of_ne_zero (Nat.ne_zero_of_lt hn)
    simp only [List.cons_append, List.append_assoc, List.nil_append, List.length_cons,
      List.length_append, List.length_nil] at hn ⊢
    rw [read, if_neg (by decide), if_neg (by decide), if_neg (by decide), if_pos rfl]
    by_cases hl : fields = []
    · subst hl
      rfl
    · have hmember : ∀ f ∈ fields, (memberText f).length ≤ n → ∀ s, Ends s →
          readMember (read n) (memberText f ++ s) = some (f, s) := by
        intro f hf hlen s hs
        simp only [memberText, List.length_append, List.length_cons] at hlen
        have hvalue : read n (text f.2 ++ s) = some (f.2, s) := ih f hf (by omega) hs
        rw [readMember, memberText, List.append_assoc, readQuoted_quoted, List.cons_append]
        simp only [hvalue, Option.map_some]
      obtain ⟨hhead, hread⟩ := readList_texts (by decide) (by decide) exists_memberText hl
        (by omega) hmember s
      rw [if_neg hhead, hread, Option.map_some]

/-- The texts of `json.Marshal` as an encoding. -/
def encoding : Encoding String where
  empty := ""
  null := "null"
  marshal v := String.ofList (text v)
  unmarshal t :=
    match read t.toList.length t.toList with
    | some (v, []) => .ok v
    | _ => .error "invalid character in JSON text"
  unmarshal_marshal v := by
    have hread := read_text v le_rfl (s := []) (by simp [Ends])
    rw [List.append_nil] at hread
    simp only [String.toList_ofList, hread]
  marshal_null := rfl
  marshal_ne_empty v h := by
    obtain ⟨c, s, hv, -⟩ := exists_text v
    rw [← String.toList_inj, String.toList_ofList, hv] at h
    simp at h

end Smith.Json
