import Mathlib
import Smith.Paths

set_option autoImplicit false

/-!
# Paths of requests

Texts are sequences of bytes. A client cuts the fragment and the query off the text of a URL,
reads the escapes in the path and writes the path of its request, which is the text as it was
where that is an encoding and the escaped path elsewhere. A server takes a path apart at the
slashes and reads the escapes of a name that its pattern leaves open. It answers a path that is
not clean, one with an empty name before the last or with a name of one or two dots, with the
clean path, and the client repeats its request there.
-/
namespace Smith.UrlPaths

abbrev Bytes := List UInt8

def ascii (s : String) : Bytes := s.toList.map Char.toUInt8

def percent : UInt8 := 37

def slash : UInt8 := 47

def isAlnum (b : UInt8) : Bool :=
  (97 ≤ b && b ≤ 122) || (65 ≤ b && b ≤ 90) || (48 ≤ b && b ≤ 57)

inductive Mode where
  | path
  | segment
  deriving DecidableEq

def shouldEscape (m : Mode) (b : UInt8) : Bool :=
  if isAlnum b then false
  else if b ∈ ascii "-_.~" then false
  else if b ∈ ascii "$&+,/:;=?@" then
    match m with
    | .path => b ∈ ascii "?"
    | .segment => b ∈ ascii "/;,?"
  else true

def hexDigit (n : UInt8) : UInt8 := if n < 10 then 48 + n else 55 + n

def escapeByte (m : Mode) (b : UInt8) : Bytes :=
  if shouldEscape m b then [percent, hexDigit (b / 16), hexDigit (b % 16)] else [b]

def escape (m : Mode) (s : Bytes) : Bytes := s.flatMap (escapeByte m)

def unhex (c : UInt8) : Option UInt8 :=
  if 48 ≤ c ∧ c ≤ 57 then some (c - 48)
  else if 97 ≤ c ∧ c ≤ 102 then some (c - 87)
  else if 65 ≤ c ∧ c ≤ 70 then some (c - 55)
  else none

def unescape : Bytes → Option Bytes
  | [] => some []
  | b :: s =>
    if b = percent then
      match s with
      | h :: l :: s =>
        match unhex h, unhex l with
        | some h, some l => (unescape s).map fun s => (h * 16 + l) :: s
        | _, _ => none
      | _ => none
    else (unescape s).map (b :: ·)

def validEncoded (s : Bytes) : Bool :=
  s.all fun b => b ∈ ascii "!$&'()*+,;=:@[]%" || !shouldEscape .path b

/-- What is written for a path that was read from a text. -/
def escapedPath (text : Bytes) : Option Bytes :=
  match unescape text with
  | none => none
  | some path =>
    let escaped := escape .path path
    if text ≠ escaped ∧ validEncoded text then some text else some escaped

/-! ### Requests -/

inductive Outcome where
  | refused
  | badRequest
  | redirected (location : Bytes)
  | unmatched
  | handled (value : Bytes)
  deriving DecidableEq

def dots : List Bytes := [ascii ".", ascii ".."]

/-- The names of a path that leads to the same place and is clean. -/
def resolved (names : List Bytes) : List Bytes :=
  names.foldl (fun kept name =>
    if name = [] ∨ name = ascii "." then kept
    else if name = ascii ".." then kept.dropLast
    else kept ++ [name]) []

/-- A slash at the end stays. -/
def cleaned (names : List Bytes) : List Bytes :=
  if resolved names = [] ∨ names.getLast? = some [] then resolved names ++ [[]] else resolved names

def rooted (names : List Bytes) : Bytes := [slash].intercalate ([] :: names)

/-- A path at a server with the pattern `/dir/{name}`. The clean path is escaped where it is
    written into the answer, though it holds the escapes of the request. -/
def serve (dir path : Bytes) : Outcome :=
  match path.splitOn slash with
  | [] :: names =>
    if cleaned names = names then
      match names with
      | [d, value] => if d = dir ∧ value ≠ [] then .handled ((unescape value).getD value) else .unmatched
      | _ => .unmatched
    else .redirected (escape .path (rooted (cleaned names)))
  | _ => .unmatched

def isControl (b : UInt8) : Bool := b < 32 || b = 127

/-- The text before the first `b` and what follows it, if it is there. -/
def cut (b : UInt8) (s : Bytes) : Bytes × Option Bytes :=
  (s.takeWhile (· ≠ b), if b ∈ s then some (s.dropWhile (· ≠ b)).tail else none)

def hash : UInt8 := 35

def question : UInt8 := 63

def space : UInt8 := 32

/-- One exchange for the text of a URL that follows its host. The request line ends the target
    at a space. The query, which no handler reads, is left out of a redirection. -/
def exchange (dir text : Bytes) : Outcome :=
  let (text, fragment) := cut hash text
  if text.any isControl || fragment.any fun f => (unescape f).isNone then .refused
  else
    let (path, query) := cut question text
    match escapedPath path with
    | none => .refused
    | some target =>
      if space ∈ query.getD [] then .badRequest
      else
        match escapedPath target with
        | none => .badRequest
        | some path => serve dir path

/-- A client gives up after so many exchanges. -/
def follow (dir : Bytes) : ℕ → Bytes → Outcome
  | 0, _ => .refused
  | n + 1, text =>
    match exchange dir text with
    | .redirected location => follow dir n location
    | outcome => outcome

def request (dir text : Bytes) : Outcome := follow dir 10 text

section Bytewise
variable {m : Mode}

theorem forall_byte {p : UInt8 → Prop} (h : ∀ n : Fin 256, p (UInt8.ofNat n)) (b : UInt8) : p b := by
  have hb := h ⟨b.toNat, b.toNat_lt⟩
  rwa [UInt8.ofNat_toNat] at hb

/-- The bytes that an encoded path may hold. -/
def Encodes (b : UInt8) : Prop :=
  b ≠ question ∧ b ≠ hash ∧ b ≠ space ∧ isControl b = false

/-- What is not escaped stands for itself. -/
theorem kept (m : Mode) (b : UInt8) (h : shouldEscape m b = false) :
    b ≠ percent ∧ shouldEscape .path b = false := by
  revert h
  refine forall_byte (p := fun b => shouldEscape m b = false →
    b ≠ percent ∧ shouldEscape .path b = false) ?_ b
  cases m <;> decide +kernel

theorem hexDigits (b : UInt8) : unhex (hexDigit (b / 16)) = some (b / 16) ∧
    unhex (hexDigit (b % 16)) = some (b % 16) ∧ b / 16 * 16 + b % 16 = b ∧
    isAlnum (hexDigit (b / 16)) = true ∧ isAlnum (hexDigit (b % 16)) = true :=
  forall_byte (p := fun b => unhex (hexDigit (b / 16)) = some (b / 16) ∧
    unhex (hexDigit (b % 16)) = some (b % 16) ∧ b / 16 * 16 + b % 16 = b ∧
    isAlnum (hexDigit (b / 16)) = true ∧ isAlnum (hexDigit (b % 16)) = true) (by decide +kernel) b

end Bytewise

section Escapes
variable {m : Mode} {s u : Bytes}

theorem unescape_cons {b : UInt8} (h : b ≠ percent) (s : Bytes) :
    unescape (b :: s) = (unescape s).map (b :: ·) := by
  conv_lhs => unfold unescape
  rw [if_neg h]

theorem unescape_escapeByte (m : Mode) (b : UInt8) (s : Bytes) :
    unescape (escapeByte m b ++ s) = (unescape s).map (b :: ·) := by
  unfold escapeByte
  split_ifs with h
  · obtain ⟨hhigh, hlow, hvalue, -⟩ := hexDigits b
    simp only [List.cons_append, List.nil_append, unescape, if_true, hhigh, hlow, hvalue]
  · exact unescape_cons (kept m b (by simpa using h)).1 s

theorem unescape_escape_append (m : Mode) (s t : Bytes) :
    unescape (escape m s ++ t) = (unescape t).map (s ++ ·) := by
  induction s with
  | nil => simp [escape]
  | cons b s ih =>
    rw [escape, List.flatMap_cons, List.append_assoc, unescape_escapeByte]
    rw [escape] at ih
    rw [ih, Option.map_map]
    rfl

theorem unescape_escape (m : Mode) (s : Bytes) : unescape (escape m s) = some s := by
  have happend := unescape_escape_append m s []
  rw [List.append_nil] at happend
  simpa [unescape] using happend

theorem unescape_of_notMem (h : percent ∉ s) : unescape s = some s := by
  induction s with
  | nil => rfl
  | cons b s ih =>
    rw [List.mem_cons, not_or] at h
    rw [unescape_cons (Ne.symm h.1), ih h.2]
    rfl

theorem unescape_append (h : percent ∉ s) (t : Bytes) :
    unescape (s ++ t) = (unescape t).map (s ++ ·) := by
  induction s with
  | nil => simp
  | cons b s ih =>
    rw [List.mem_cons, not_or] at h
    rw [List.cons_append, unescape_cons (Ne.symm h.1), ih h.2, Option.map_map]
    rfl

theorem length_unescape (h : unescape s = some u) :
    u.length ≤ s.length ∧ (percent ∈ s → u.length < s.length) := by
  fun_induction unescape s generalizing u with
  | case1 =>
    obtain rfl := Option.some.inj h
    simp
  | case2 high low s hi lo hlo hhi ih =>
    obtain ⟨v, hv, rfl⟩ := Option.map_eq_some_iff.mp h
    have hle := (ih hv).1
    simp only [List.length_cons]
    omega
  | case3 | case4 => exact absurd h (by simp)
  | case5 b s hb ih =>
    obtain ⟨v, hv, rfl⟩ := Option.map_eq_some_iff.mp h
    obtain ⟨hle, hlt⟩ := ih hv
    refine ⟨by simpa using hle, fun hmem => ?_⟩
    obtain hhead | hmem := List.mem_cons.mp hmem
    · exact absurd hhead.symm hb
    · simpa using hlt hmem

/-! ### Encoded paths -/

theorem validEncoded_iff : validEncoded s = true ↔
    ∀ b ∈ s, b ∈ ascii "!$&'()*+,;=:@[]%" ∨ shouldEscape .path b = false := by
  simp [validEncoded]

theorem encodes_of_valid (b : UInt8)
    (h : b ∈ ascii "!$&'()*+,;=:@[]%" ∨ shouldEscape .path b = false) : Encodes b := by
  revert h
  exact forall_byte (p := fun b => b ∈ ascii "!$&'()*+,;=:@[]%" ∨ shouldEscape .path b = false →
    b ≠ question ∧ b ≠ hash ∧ b ≠ space ∧ isControl b = false) (by decide +kernel) b

theorem not_shouldEscape_alnum {b : UInt8} (h : isAlnum b = true) : shouldEscape m b = false := by
  unfold shouldEscape
  rw [if_pos h]

theorem valid_escape (m : Mode) (s : Bytes) : validEncoded (escape m s) = true := by
  rw [validEncoded_iff]
  intro c hc
  obtain ⟨b, -, hb⟩ := List.mem_flatMap.mp hc
  unfold escapeByte at hb
  obtain ⟨-, -, -, hhigh, hlow⟩ := hexDigits b
  split_ifs at hb with h
  · simp only [List.mem_cons, List.not_mem_nil, or_false] at hb
    obtain rfl | rfl | rfl := hb
    · exact .inl (by decide)
    · exact .inr (not_shouldEscape_alnum hhigh)
    · exact .inr (not_shouldEscape_alnum hlow)
  · rw [List.mem_singleton] at hb
    rw [hb]
    exact .inr (kept m b (by simpa using h)).2

/-- An encoded path is written as it is, and other texts are escaped. -/
theorem escapedPath_eq (s : Bytes) : escapedPath s =
    (unescape s).map fun path => if validEncoded s then s else escape .path path := by
  unfold escapedPath
  cases hu : unescape s with
  | none => rfl
  | some path =>
    dsimp only [Option.map_some]
    by_cases hs : s = escape .path path
    · have hv : validEncoded s = true := hs ▸ valid_escape .path path
      rw [if_neg (fun h => h.1 hs), if_pos hv, ← hs]
    · by_cases hv : validEncoded s = true
      · rw [if_pos ⟨hs, hv⟩, if_pos hv]
      · rw [if_neg (fun h => hv h.2), if_neg hv]

/-- The path that is written reads as the text does and is written as itself. -/
theorem escapedPath_spec {e : Bytes} (h : escapedPath s = some e) :
    unescape e = unescape s ∧ validEncoded e = true ∧ escapedPath e = some e := by
  rw [escapedPath_eq] at h
  obtain ⟨path, hpath, he⟩ := Option.map_eq_some_iff.mp h
  have hread : unescape e = some path ∧ validEncoded e = true := by
    split_ifs at he with hv
    · exact ⟨he ▸ hpath, he ▸ hv⟩
    · exact ⟨he ▸ unescape_escape .path path, he ▸ valid_escape .path path⟩
  refine ⟨hread.1.trans hpath.symm, hread.2, ?_⟩
  rw [escapedPath_eq, hread.1, Option.map_some, if_pos hread.2]

theorem escape_of_kept (h : ∀ b ∈ s, shouldEscape m b = false) : escape m s = s := by
  induction s with
  | nil => rfl
  | cons b s ih =>
    rw [List.forall_mem_cons] at h
    have hs := ih h.2
    rw [escape] at hs
    rw [escape, List.flatMap_cons, hs, escapeByte, h.1]
    rfl

theorem escape_append (m : Mode) (s t : Bytes) : escape m (s ++ t) = escape m s ++ escape m t :=
  List.flatMap_append

theorem slash_mem_escape : slash ∈ escape .path s ↔ slash ∈ s := by
  constructor
  · intro h
    obtain ⟨b, hb, hslash⟩ := List.mem_flatMap.mp h
    have hbyte := forall_byte (p := fun b => slash ∈ escapeByte .path b → b = slash)
      (by decide +kernel) b hslash
    exact hbyte ▸ hb
  · exact fun h => List.mem_flatMap.mpr ⟨slash, h, by decide⟩

end Escapes

/-! ### One open name -/

/-- A name that a pattern spells out. -/
structure Literal (dir : Bytes) : Prop where
  kept : ∀ b ∈ dir, shouldEscape .segment b = false
  nonempty : dir ≠ []
  plain : dir ∉ dots

section Names
variable {dir : Bytes}

def pathOf (dir name : Bytes) : Bytes := slash :: dir ++ slash :: name

theorem Literal.head (h : Literal dir) : ∀ b ∈ slash :: dir ++ [slash],
    b ≠ percent ∧ shouldEscape .path b = false ∧ b ≠ hash ∧ b ≠ question ∧ isControl b = false := by
  have hkept : ∀ b, shouldEscape .path b = false →
      b ≠ percent ∧ shouldEscape .path b = false ∧ b ≠ hash ∧ b ≠ question ∧ isControl b = false := by
    intro b hb
    obtain ⟨hquestion, hhash, -, hcontrol⟩ := encodes_of_valid b (.inr hb)
    exact ⟨(UrlPaths.kept .path b hb).1, hb, hhash, hquestion, hcontrol⟩
  intro b hb
  refine hkept b ?_
  rw [List.mem_append, List.mem_cons, List.mem_singleton] at hb
  obtain (rfl | hb) | rfl := hb
  · decide
  · exact (UrlPaths.kept .segment b (h.kept b hb)).2
  · decide

theorem pathOf_eq (dir name : Bytes) : pathOf dir name = (slash :: dir ++ [slash]) ++ name := by
  simp [pathOf]

theorem Literal.unescape_pathOf (h : Literal dir) (name : Bytes) :
    unescape (pathOf dir name) = (unescape name).map (pathOf dir) := by
  have hpercent : percent ∉ slash :: dir ++ [slash] := fun hmem => (h.head _ hmem).1 rfl
  rw [pathOf_eq, unescape_append hpercent]
  exact congrArg (Option.map · _) (funext fun name => (pathOf_eq dir name).symm)

theorem Literal.valid_pathOf (h : Literal dir) (name : Bytes) :
    validEncoded (pathOf dir name) = validEncoded name := by
  rw [Bool.eq_iff_iff, validEncoded_iff, validEncoded_iff, pathOf_eq, List.forall_mem_append]
  exact and_iff_right fun b hb => .inr (h.head b hb).2.1

theorem Literal.escape_pathOf (h : Literal dir) (name : Bytes) :
    escape .path (pathOf dir name) = pathOf dir (escape .path name) := by
  rw [pathOf_eq, escape_append, escape_of_kept fun b hb => (h.head b hb).2.1, pathOf_eq]

/-- The part that the pattern spells out goes through unchanged. -/
theorem Literal.escapedPath_pathOf (h : Literal dir) (name : Bytes) :
    escapedPath (pathOf dir name) = (escapedPath name).map (pathOf dir) := by
  rw [escapedPath_eq, escapedPath_eq, h.unescape_pathOf, h.valid_pathOf, Option.map_map,
    Option.map_map]
  refine congrArg (Option.map · _) (funext fun name' => ?_)
  simp only [Function.comp_apply, h.escape_pathOf]
  split_ifs <;> rfl

theorem Literal.cut_pathOf (h : Literal dir) (name : Bytes) {b : UInt8}
    (hb : b = hash ∨ b = question) :
    cut b (pathOf dir name) = (pathOf dir (cut b name).1, (cut b name).2) := by
  have hhead : ∀ c ∈ slash :: dir ++ [slash], c ≠ b := by
    intro c hc
    obtain ⟨-, -, hhash, hquestion, -⟩ := h.head c hc
    obtain rfl | rfl := hb
    · exact hhash
    · exact hquestion
  have hdecide : ∀ c ∈ slash :: dir ++ [slash], decide (c ≠ b) = true :=
    fun c hc => decide_eq_true (hhead c hc)
  have hmem : b ∈ pathOf dir name ↔ b ∈ name := by
    rw [pathOf_eq, List.mem_append]
    exact or_iff_right fun hmem => hhead b hmem rfl
  simp only [cut, hmem]
  rw [pathOf_eq, List.takeWhile_append_of_pos hdecide, List.dropWhile_append_of_pos hdecide,
    pathOf_eq]

theorem Literal.any_control (h : Literal dir) (name : Bytes) :
    (pathOf dir name).any isControl = name.any isControl := by
  rw [pathOf_eq, List.any_append, Bool.or_eq_right_iff_imp, List.any_eq_true]
  rintro ⟨b, hb, hcontrol⟩
  rw [(h.head b hb).2.2.2.2] at hcontrol
  exact absurd hcontrol (by simp)

theorem Literal.splitOn_pathOf (h : Literal dir) (name : Bytes) :
    (pathOf dir name).splitOn slash = [] :: dir :: name.splitOn slash := by
  have hslash : slash ∉ dir := fun hmem => absurd (h.kept slash hmem) (by decide)
  have hfirst : pathOf dir name = [] ++ slash :: (dir ++ slash :: name) := by simp [pathOf]
  rw [hfirst, List.splitOn_append_cons_self, List.splitOn_append_cons_self,
    List.splitOn_eq_singleton hslash]
  rfl

theorem Literal.cleaned_pair (h : Literal dir) (name : Bytes) : cleaned [dir, name] =
    if name = ascii "." then [dir] else if name = ascii ".." then [[]] else [dir, name] := by
  obtain ⟨hdot, hdotdot⟩ : dir ≠ ascii "." ∧ dir ≠ ascii ".." := by
    simpa [dots] using h.plain
  have hdots : ascii ".." ≠ ascii "." := by decide
  have hempty : ascii "." ≠ [] ∧ ascii ".." ≠ [] := by decide
  unfold cleaned resolved
  simp only [List.foldl_cons, List.foldl_nil, h.nonempty, hdot, hdotdot, or_self, if_false,
    List.nil_append]
  by_cases hname : name = ascii "."
  · simp [hname, hempty]
  · by_cases hname' : name = ascii ".."
    · simp [hname', hdots, hempty]
    · by_cases hnil : name = []
      · simp [hnil, hempty.1.symm, hempty.2.symm]
      · simp [hname, hname', hnil]

theorem Literal.clean_pair_iff (h : Literal dir) {name : Bytes} :
    cleaned [dir, name] = [dir, name] ↔ name ∉ dots := by
  rw [h.cleaned_pair]
  by_cases hname : name = ascii "."
  · simp [hname, dots]
  · by_cases hname' : name = ascii ".."
    · have hdots : ascii ".." ≠ ascii "." := by decide
      simp [hname', hdots, dots]
    · simp [hname, hname', dots]

/-- A server hands the name on if it is one, and neither empty nor dots. -/
theorem Literal.serve_iff (h : Literal dir) {name value : Bytes} :
    serve dir (pathOf dir name) = .handled value ↔
      slash ∉ name ∧ name ≠ [] ∧ name ∉ dots ∧ (unescape name).getD name = value := by
  by_cases hname : slash ∈ name
  · obtain ⟨before, after, rfl⟩ := List.append_of_mem hname
    obtain ⟨x, xs, hx⟩ := List.exists_cons_of_ne_nil (List.splitOn_ne_nil slash before)
    obtain ⟨y, ys, hy⟩ := List.exists_cons_of_ne_nil (List.splitOn_ne_nil slash after)
    obtain ⟨z, zs, hz⟩ : ∃ z zs, xs ++ y :: ys = z :: zs := by
      cases xs with
      | nil => exact ⟨y, ys, rfl⟩
      | cons x' xs => exact ⟨x', xs ++ y :: ys, rfl⟩
    refine iff_of_false ?_ fun hiff => hiff.1 hname
    rw [serve, h.splitOn_pathOf, List.splitOn_append_cons_self, hx, hy, List.cons_append, hz]
    dsimp only
    split_ifs <;> simp
  · rw [serve, h.splitOn_pathOf, List.splitOn_eq_singleton hname]
    dsimp only
    by_cases hdots : name ∈ dots
    · rw [if_neg fun hc => h.clean_pair_iff.mp hc hdots]
      simp [hdots]
    · rw [if_pos (h.clean_pair_iff.mpr hdots)]
      by_cases hempty : name = []
      · simp [hempty]
      · simp [hname, hempty, hdots]

theorem Literal.exchange_eq (h : Literal dir) (name : Bytes) : exchange dir (pathOf dir name) =
    let text := (cut hash name).1
    if text.any isControl || (cut hash name).2.any fun f => (unescape f).isNone then .refused
    else
      match escapedPath (cut question text).1 with
      | none => .refused
      | some target =>
        if space ∈ (cut question text).2.getD [] then .badRequest else serve dir (pathOf dir target) := by
  unfold exchange
  rw [h.cut_pathOf name (.inl rfl)]
  dsimp only
  rw [h.any_control, h.cut_pathOf _ (.inr rfl)]
  dsimp only
  rw [h.escapedPath_pathOf]
  cases htarget : escapedPath (cut question (cut hash name).1).1 with
  | none => rfl
  | some target =>
    have hagain := (escapedPath_spec htarget).2.2
    simp only [Option.map_some, h.escapedPath_pathOf, hagain]

theorem Literal.exchange_iff (h : Literal dir) {name value : Bytes} :
    exchange dir (pathOf dir name) = .handled value ↔
      let text := (cut hash name).1
      text.any isControl = false ∧ (∀ f ∈ (cut hash name).2, unescape f ≠ none) ∧
        space ∉ (cut question text).2.getD [] ∧
        ∃ target, escapedPath (cut question text).1 = some target ∧
          serve dir (pathOf dir target) = .handled value := by
  have hfragment : (cut hash name).2.any (fun f => (unescape f).isNone) = false ↔
      ∀ f ∈ (cut hash name).2, unescape f ≠ none := by
    cases (cut hash name).2 with
    | none => simp
    | some f => simp [Option.isSome_iff_ne_none]
  rw [h.exchange_eq, ← hfragment]
  dsimp only
  cases (cut hash name).1.any isControl with
  | true => simp
  | false =>
    cases (cut hash name).2.any (fun f => (unescape f).isNone) with
    | true => simp
    | false =>
      cases escapedPath (cut question (cut hash name).1).1 with
      | none => simp
      | some target =>
        by_cases hspace : space ∈ (cut question (cut hash name).1).2.getD []
        · simp [hspace]
        · simp [hspace]

/-! ### Redirections -/

theorem mem_resolved {names : List Bytes} {name : Bytes} (h : name ∈ resolved names) : name ∈ names := by
  have hfold : ∀ (names acc : List Bytes), name ∈ names.foldl (fun kept name =>
      if name = [] ∨ name = ascii "." then kept
      else if name = ascii ".." then kept.dropLast
      else kept ++ [name]) acc → name ∈ acc ∨ name ∈ names := by
    intro names
    induction names with
    | nil => exact fun acc h => .inl h
    | cons n names ih =>
      intro acc h
      rw [List.foldl_cons] at h
      obtain hacc | hmem := ih _ h
      · split_ifs at hacc
        · exact .inl hacc
        · exact .inl (List.dropLast_subset acc hacc)
        · obtain hacc | hn := List.mem_append.mp hacc
          · exact .inl hacc
          · exact .inr (List.mem_singleton.mp hn ▸ List.mem_cons_self)
      · exact .inr (List.mem_cons_of_mem n hmem)
  exact (hfold names [] h).resolve_left List.not_mem_nil

theorem mem_cleaned {names : List Bytes} {name : Bytes} (h : name ∈ cleaned names) :
    name = [] ∨ name ∈ names := by
  unfold cleaned at h
  split_ifs at h
  · obtain h | h := List.mem_append.mp h
    · exact .inr (mem_resolved h)
    · exact .inl (List.mem_singleton.mp h)
  · exact .inr (mem_resolved h)

theorem escape_rooted (names : List Bytes) :
    escape .path (rooted names) = rooted (names.map (escape .path)) := by
  have hslash : escape .path [slash] = [slash] := by decide
  have hcons : ∀ (n : Bytes) (names : List Bytes), escape .path ([slash].intercalate (n :: names)) =
      [slash].intercalate (escape .path n :: names.map (escape .path)) := by
    intro n names
    induction names generalizing n with
    | nil => simp
    | cons n' names ih =>
      rw [List.map_cons, List.intercalate_cons_cons, List.intercalate_cons_cons, escape_append,
        escape_append, hslash, ih]
  exact hcons [] names

theorem cut_of_notMem {b : UInt8} {s : Bytes} (h : b ∉ s) : cut b s = (s, none) := by
  rw [cut, if_neg h, List.takeWhile_eq_self_iff.mpr]
  intro c hc
  exact decide_eq_true fun heq => h (heq ▸ hc)

theorem cut_append {b : UInt8} {s : Bytes} (h : b ∉ s) (t : Bytes) :
    cut b (s ++ b :: t) = (s, some t) := by
  have hs : ∀ c ∈ s, decide (c ≠ b) = true := fun c hc => decide_eq_true fun heq => h (heq ▸ hc)
  rw [cut, if_pos (by simp), List.takeWhile_append_of_pos hs, List.dropWhile_append_of_pos hs]
  simp

/-- An encoded path goes through as it is, if its escapes can be read. -/
theorem exchange_of_valid {path : Bytes} (dir : Bytes) (hvalid : validEncoded path = true) :
    exchange dir path = if unescape path = none then .refused else serve dir path := by
  have hencodes : ∀ b ∈ path, Encodes b := fun b hb =>
    encodes_of_valid b (validEncoded_iff.mp hvalid b hb)
  have hcontrol : path.any isControl = false := by
    rw [List.any_eq_false]
    exact fun b hb => by simp [(hencodes b hb).2.2.2]
  unfold exchange
  rw [cut_of_notMem fun hmem => (hencodes _ hmem).2.1 rfl]
  dsimp only
  rw [cut_of_notMem fun hmem => (hencodes _ hmem).1 rfl]
  cases hread : unescape path with
  | none => simp [escapedPath_eq, hread, hcontrol]
  | some u => simp [escapedPath_eq, hread, hvalid, hcontrol]

theorem exchange_escape (dir path : Bytes) :
    exchange dir (escape .path path) = serve dir (escape .path path) := by
  rw [exchange_of_valid dir (valid_escape .path path), unescape_escape, if_neg (by simp)]

theorem serve_eq_redirected {path location : Bytes} (h : serve dir path = .redirected location) :
    ∃ names, path.splitOn slash = [] :: names ∧ cleaned names ≠ names ∧
      location = escape .path (rooted (cleaned names)) := by
  unfold serve at h
  split at h
  · rename_i names hsplit
    split_ifs at h with hclean
    · split at h
      · split_ifs at h
      · exact absurd h (by simp)
    · exact ⟨names, hsplit, hclean, (Outcome.redirected.inj h).symm⟩
  · exact absurd h (by simp)

/-- A redirection is to a clean path without the escapes that were written for it. -/
theorem exchange_eq_redirected {text location : Bytes}
    (h : exchange dir text = .redirected location) :
    ∃ path names, validEncoded path = true ∧ path.splitOn slash = [] :: names ∧
      location = escape .path (rooted (cleaned names)) := by
  have hserve : ∃ path, validEncoded path = true ∧ serve dir path = .redirected location := by
    unfold exchange at h
    dsimp only at h
    split at h
    · exact absurd h (by simp)
    · split at h
      · exact absurd h (by simp)
      · split at h
        · exact absurd h (by simp)
        · split at h
          · exact absurd h (by simp)
          · rename_i path hpath
            exact ⟨path, (escapedPath_spec hpath).2.1, h⟩
  obtain ⟨path, hvalid, hpath⟩ := hserve
  obtain ⟨names, hsplit, -, hlocation⟩ := serve_eq_redirected hpath
  exact ⟨path, names, hvalid, hsplit, hlocation⟩

theorem serve_eq_handled {path value : Bytes} (h : serve dir path = .handled value) :
    ∃ name, path.splitOn slash = [[], dir, name] ∧ (unescape name).getD name = value := by
  unfold serve at h
  split at h
  · rename_i names hsplit
    split_ifs at h
    split at h
    · rename_i d name hclean
      split_ifs at h with hname
      exact ⟨name, hname.1 ▸ hsplit, Outcome.handled.inj h⟩
    · exact absurd h (by simp)
  · exact absurd h (by simp)

/-- The names of a cleaned path are those of an encoded path, or empty. -/
theorem of_mem_cleaned {path name : Bytes} {names : List Bytes} (hvalid : validEncoded path = true)
    (hsplit : path.splitOn slash = [] :: names) (hname : name ∈ cleaned names) :
    slash ∉ name ∧ validEncoded name = true := by
  obtain rfl | hname := mem_cleaned hname
  · exact ⟨List.not_mem_nil, rfl⟩
  · obtain ⟨hslash, hsub⟩ := of_mem_splitOn (hsplit ▸ List.mem_cons_of_mem [] hname)
    exact ⟨hslash, validEncoded_iff.mpr fun b hb => validEncoded_iff.mp hvalid b (hsub hb)⟩

theorem splitOn_escape_rooted {names : List Bytes} (h : ∀ name ∈ names, slash ∉ name) :
    (escape .path (rooted names)).splitOn slash = [] :: names.map (escape .path) := by
  rw [escape_rooted]
  refine List.splitOn_intercalate slash ?_ (List.cons_ne_nil _ _)
  simp only [List.mem_cons, List.mem_map, forall_eq_or_imp, List.not_mem_nil,
    not_false_eq_true, true_and, forall_exists_index, and_imp, forall_apply_eq_imp_iff₂]
  exact fun name hname hmem => h name hname (slash_mem_escape.mp hmem)

/-- What a redirection leads to is a name of the path before it. -/
theorem followed_name {n : ℕ} {text location value : Bytes}
    (h : exchange dir text = .redirected location) (hvalue : follow dir n location = .handled value) :
    slash ∉ value ∧ validEncoded value = true := by
  induction n generalizing text location with
  | zero => exact absurd hvalue (by simp [follow])
  | succ n ih =>
    unfold follow at hvalue
    split at hvalue
    · rename_i location' hagain
      exact ih hagain hvalue
    · obtain ⟨path, names, hvalid, hsplit, rfl⟩ := exchange_eq_redirected h
      rw [exchange_escape] at hvalue
      obtain ⟨name, hname, hread⟩ := serve_eq_handled hvalue
      have hmem : name ∈ (cleaned names).map (escape .path) := by
        rw [splitOn_escape_rooted fun name hname => (of_mem_cleaned hvalid hsplit hname).1] at hname
        rw [(List.cons.inj hname).2]
        simp
      obtain ⟨name', hname', rfl⟩ := List.mem_map.mp hmem
      rw [unescape_escape, Option.getD_some] at hread
      exact hread ▸ of_mem_cleaned hvalid hsplit hname'

theorem request_of_handled {text value : Bytes} (h : exchange dir text = .handled value) :
    request dir text = .handled value := by
  simp only [request, follow, h]

/-- No name is open at the top of a path. -/
theorem Literal.exchange_single (h : Literal dir) {name : Bytes} (hname : name = dir ∨ name = []) :
    exchange dir (escape .path (rooted [name])) = .unmatched := by
  obtain ⟨hdot, hdotdot⟩ : dir ≠ ascii "." ∧ dir ≠ ascii ".." := by
    simpa [dots] using h.plain
  have hkept : escape .path name = name ∧ slash ∉ name ∧ cleaned [name] = [name] := by
    obtain rfl | rfl := hname
    · refine ⟨escape_of_kept fun b hb => (UrlPaths.kept .segment b (h.kept b hb)).2,
        fun hmem => absurd (h.kept slash hmem) (by decide), ?_⟩
      simp [cleaned, resolved, h.nonempty, hdot, hdotdot]
    · exact ⟨rfl, List.not_mem_nil, rfl⟩
  obtain ⟨hescape, hslash, hclean⟩ := hkept
  have hsplit : (rooted [name]).splitOn slash = [[], name] :=
    List.splitOn_intercalate slash (by simp [hslash]) (by simp)
  rw [exchange_escape, escape_rooted, List.map_singleton, hescape, serve, hsplit]
  simp only [hclean, if_true]

/-- Dots lead to a place where no name is open. -/
theorem Literal.request_iff_exchange (h : Literal dir) {name value : Bytes} (hslash : slash ∉ name)
    (hvalid : validEncoded name = true) : request dir (pathOf dir name) = .handled value ↔
      exchange dir (pathOf dir name) = .handled value := by
  refine ⟨fun hrequest => ?_, request_of_handled⟩
  unfold request follow at hrequest
  split at hrequest
  · rename_i location hredirected
    rw [exchange_of_valid dir ((h.valid_pathOf name).trans hvalid)] at hredirected
    split_ifs at hredirected
    obtain ⟨names, hsplit, hclean, rfl⟩ := serve_eq_redirected hredirected
    rw [h.splitOn_pathOf, List.splitOn_eq_singleton hslash] at hsplit
    obtain rfl := (List.cons.inj hsplit).2
    have hunmatched : exchange dir (escape .path (rooted (cleaned [dir, name]))) = .unmatched := by
      rw [h.cleaned_pair] at hclean ⊢
      split_ifs at hclean ⊢
      · exact h.exchange_single (.inl rfl)
      · exact h.exchange_single (.inr rfl)
      · exact absurd rfl hclean
    rw [follow, hunmatched] at hrequest
    exact absurd hrequest (by simp)
  · exact hrequest

/-- A name that stands for itself in the text of a URL. -/
structure Plain (name : Bytes) : Prop where
  nonempty : name ≠ []
  undotted : name ∉ dots
  slash : slash ∉ name
  percent : percent ∉ name
  hash : hash ∉ name
  question : question ∉ name
  control : name.any isControl = false

theorem dots_eq {s : Bytes} (h : s ∈ dots) :
    unescape s = some s ∧ validEncoded s = true ∧ escape .segment s = s := by
  have hall : ∀ s ∈ dots, unescape s = some s ∧ validEncoded s = true ∧ escape .segment s = s := by
    decide +kernel
  exact hall s h

theorem Plain.cut_eq {name : Bytes} (h : Plain name) :
    cut UrlPaths.hash name = (name, none) ∧ cut UrlPaths.question name = (name, none) :=
  ⟨cut_of_notMem h.hash, cut_of_notMem h.question⟩

theorem Literal.serve_plain (h : Literal dir) {name : Bytes} (hname : Plain name) :
    ∃ target, escapedPath name = some target ∧ serve dir (pathOf dir target) = .handled name := by
  have hread := unescape_of_notMem hname.percent
  obtain ⟨target, htarget⟩ : ∃ target, escapedPath name = some target := by
    rw [escapedPath_eq, hread]
    exact ⟨_, rfl⟩
  have hback : unescape target = some name := (escapedPath_spec htarget).1.trans hread
  refine ⟨target, htarget, h.serve_iff.mpr ⟨?_, ?_, ?_, by rw [hback]; rfl⟩⟩
  · rw [escapedPath_eq, hread] at htarget
    rw [← Option.some.inj htarget]
    split_ifs
    · exact hname.slash
    · exact fun hmem => hname.slash (slash_mem_escape.mp hmem)
  · rintro rfl
    exact hname.nonempty (Option.some.inj hback).symm
  · intro hdots
    rw [(dots_eq hdots).1] at hback
    exact hname.undotted (Option.some.inj hback ▸ hdots)

theorem takeWhile_eq_of_le {b : UInt8} {s : Bytes} (h : s.length ≤ (cut b s).1.length) :
    (cut b s).1 = s ∧ b ∉ s := by
  have hself : s.takeWhile (· ≠ b) = s :=
    (List.takeWhile_prefix _).eq_of_length (le_antisymm (List.takeWhile_prefix _).length_le h)
  refine ⟨hself, fun hmem => ?_⟩
  have hall := List.takeWhile_eq_self_iff.mp hself b hmem
  simp at hall

theorem Literal.request_self_iff_exchange (h : Literal dir) (name : Bytes) :
    request dir (pathOf dir name) = .handled name ↔
      exchange dir (pathOf dir name) = .handled name := by
  refine ⟨fun hrequest => ?_, request_of_handled⟩
  have hfollow := hrequest
  unfold request follow at hfollow
  split at hfollow
  · rename_i location hredirected
    obtain ⟨hslash, hvalid⟩ := followed_name hredirected hfollow
    exact (h.request_iff_exchange hslash hvalid).mp hrequest
  · exact hfollow

/-- Reading escapes and cutting shorten, so a name that is read back was neither escaped nor cut. -/
theorem Literal.plain_of_exchange (h : Literal dir) {name : Bytes}
    (hexchange : exchange dir (pathOf dir name) = .handled name) : Plain name := by
  obtain ⟨hcontrol, -, -, target, htarget, hserve⟩ := h.exchange_iff.mp hexchange
  obtain ⟨hslash, hempty, hdots, hvalue⟩ := h.serve_iff.mp hserve
  obtain ⟨hread, -, -⟩ := escapedPath_spec htarget
  obtain ⟨u, hu⟩ : ∃ u, unescape (cut UrlPaths.question (cut UrlPaths.hash name).1).1 = some u := by
    rw [escapedPath_eq] at htarget
    obtain ⟨u, hu, -⟩ := Option.map_eq_some_iff.mp htarget
    exact ⟨u, hu⟩
  rw [hread, hu] at hvalue
  obtain rfl : u = name := hvalue
  obtain ⟨hle, hlt⟩ := length_unescape hu
  have hq : (cut UrlPaths.question (cut UrlPaths.hash u).1).1.length ≤ (cut UrlPaths.hash u).1.length :=
    (List.takeWhile_prefix _).length_le
  obtain ⟨hcut, hhash⟩ := takeWhile_eq_of_le (hle.trans hq)
  rw [hcut] at hle hlt htarget hcontrol hu
  obtain ⟨hcut', hquestion⟩ := takeWhile_eq_of_le hle
  rw [hcut'] at hlt htarget hu
  rw [escapedPath_eq, hu, Option.map_some, Option.some.injEq] at htarget
  refine ⟨?_, fun hmem => ?_, fun hmem => ?_, fun hmem => absurd (hlt hmem) (lt_irrefl _), hhash,
    hquestion, hcontrol⟩
  · rintro rfl
    exact hempty htarget.symm
  · rw [if_pos (dots_eq hmem).2.1] at htarget
    exact hdots (htarget ▸ hmem)
  · rw [← htarget] at hslash
    split_ifs at hslash
    · exact hslash hmem
    · exact hslash (slash_mem_escape.mpr hmem)

/-- A name that is put into the text as it is arrives as itself if it is plain and only then. -/
theorem Literal.request_raw_iff (h : Literal dir) (name : Bytes) :
    request dir (pathOf dir name) = .handled name ↔ Plain name := by
  rw [h.request_self_iff_exchange]
  refine ⟨h.plain_of_exchange, fun hname => h.exchange_iff.mpr ?_⟩
  obtain ⟨hcut, hcut'⟩ := hname.cut_eq
  dsimp only
  rw [hcut, hcut']
  exact ⟨hname.control, by simp, by simp, h.serve_plain hname⟩

theorem slash_notMem_escape_segment (name : Bytes) : slash ∉ escape .segment name := by
  intro hmem
  obtain ⟨b, -, hb⟩ := List.mem_flatMap.mp hmem
  exact forall_byte (p := fun b => slash ∉ escapeByte .segment b) (by decide +kernel) b hb

theorem escape_segment_eq_nil_iff {name : Bytes} : escape .segment name = [] ↔ name = [] := by
  refine ⟨fun he => ?_, fun he => by rw [he]; rfl⟩
  have hread := unescape_escape .segment name
  rw [he] at hread
  exact (Option.some.inj hread).symm

theorem escape_segment_mem_dots_iff {name : Bytes} : escape .segment name ∈ dots ↔ name ∈ dots := by
  constructor
  · intro he
    have hread := (dots_eq he).1
    rw [unescape_escape] at hread
    exact Option.some.inj hread ▸ he
  · intro hn
    rw [(dots_eq hn).2.2]
    exact hn

/-- The escaped name arrives, unless it is empty or dots. -/
theorem Literal.request_escape_iff (h : Literal dir) (name value : Bytes) :
    request dir (pathOf dir (escape .segment name)) = .handled value ↔
      name ≠ [] ∧ name ∉ dots ∧ value = name := by
  have hslash := slash_notMem_escape_segment name
  have hvalid := valid_escape .segment name
  rw [h.request_iff_exchange hslash hvalid,
    exchange_of_valid dir ((h.valid_pathOf _).trans hvalid), h.unescape_pathOf, unescape_escape,
    Option.map_some, if_neg (Option.some_ne_none _), h.serve_iff, unescape_escape, Option.getD_some]
  simp only [hslash, ne_eq, escape_segment_eq_nil_iff, escape_segment_mem_dots_iff,
    not_false_eq_true, true_and, @eq_comm _ name value]

theorem Literal.request_query (h : Literal dir) {name query : Bytes} (hname : Plain name)
    (hhash : hash ∉ query) (hcontrol : query.any isControl = false) (hspace : space ∉ query) :
    request dir (pathOf dir (name ++ question :: query)) = .handled name := by
  have hcut : cut hash (name ++ question :: query) = (name ++ question :: query, none) := by
    refine cut_of_notMem fun hmem => ?_
    rw [List.mem_append, List.mem_cons] at hmem
    obtain hmem | heq | hmem := hmem
    · exact hname.hash hmem
    · exact absurd heq (by decide)
    · exact hhash hmem
  refine request_of_handled (h.exchange_iff.mpr ?_)
  dsimp only
  rw [hcut, cut_append hname.question]
  refine ⟨?_, by simp, hspace, h.serve_plain hname⟩
  rw [List.any_append, List.any_cons, hname.control, hcontrol]
  decide

end Names

/-! ### Texts as bytes -/

def utf8 (s : String) : Bytes := s.toByteArray.data.toList

def decoded (b : Bytes) : Option String := String.fromUTF8? ⟨b.toArray⟩

theorem decoded_utf8 (s : String) : decoded (utf8 s) = some s := by
  have harray : (⟨(utf8 s).toArray⟩ : ByteArray) = s.toByteArray := by simp [utf8]
  rw [decoded, harray, String.fromUTF8?, dif_pos s.isValidUTF8]
  rfl

theorem utf8_of_decoded {b : Bytes} {s : String} (h : decoded b = some s) : b = utf8 s := by
  unfold decoded String.fromUTF8? at h
  split_ifs at h with hvalid
  rw [← Option.some.inj h]
  rfl

theorem utf8_injective : Function.Injective utf8 := by
  intro s t h
  have hdecoded := decoded_utf8 s
  rw [h, decoded_utf8] at hdecoded
  exact (Option.some.inj hdecoded).symm

theorem utf8_append (s t : String) : utf8 (s ++ t) = utf8 s ++ utf8 t := by
  rw [utf8, String.toByteArray_append, ByteArray.data_append, Array.toList_append]
  rfl

/-! ### Texts that a URL leaves alone -/

def unmarked (b : UInt8) : Bool :=
  b ≠ slash && b ≠ percent && b ≠ hash && b ≠ question && !isControl b

theorem plain_iff {name : Bytes} :
    Plain name ↔ name ≠ [] ∧ name ∉ dots ∧ name.all unmarked = true := by
  have hall : name.all unmarked = true ↔ slash ∉ name ∧ percent ∉ name ∧ hash ∉ name ∧
      question ∉ name ∧ name.any isControl = false := by
    simp only [List.all_eq_true, unmarked, Bool.and_eq_true, decide_eq_true_eq, Bool.not_eq_true',
      List.any_eq_false, Bool.not_eq_true]
    constructor
    · intro h
      exact ⟨fun hm => (h _ hm).1.1.1.1 rfl, fun hm => (h _ hm).1.1.1.2 rfl,
        fun hm => (h _ hm).1.1.2 rfl, fun hm => (h _ hm).1.2 rfl, fun b hb => (h b hb).2⟩
    · rintro ⟨hslash, hpercent, hhash, hquestion, hcontrol⟩ b hb
      exact ⟨⟨⟨⟨fun he => hslash (he ▸ hb), fun he => hpercent (he ▸ hb)⟩,
        fun he => hhash (he ▸ hb)⟩, fun he => hquestion (he ▸ hb)⟩, hcontrol b hb⟩
  constructor
  · rintro ⟨hempty, hdots, h⟩
    exact ⟨hempty, hdots, hall.mpr ⟨h, ‹_›, ‹_›, ‹_›, ‹_›⟩⟩
  · rintro ⟨hempty, hdots, h⟩
    obtain ⟨hslash, hpercent, hhash, hquestion, hcontrol⟩ := hall.mp h
    exact ⟨hempty, hdots, hslash, hpercent, hhash, hquestion, hcontrol⟩

instance (name : Bytes) : Decidable (Plain name) := decidable_of_iff _ plain_iff.symm

theorem unmarked_toString (n : ℕ) : (utf8 (toString n)).all unmarked = true := by
  have hdigit : ∀ c : Char, c.isDigit = true → (String.utf8EncodeChar c).all unmarked = true := by
    intro c hc
    have hmem : c ∈ "0123456789".toList := by
      have hval : 48 ≤ c.toNat ∧ c.toNat ≤ 57 := by
        simpa [Char.isDigit, UInt32.le_iff_toNat_le] using hc
      have hc' : c = Char.ofNat c.toNat := (Char.ofNat_toNat c).symm
      generalize c.toNat = m at hval hc'
      obtain ⟨hlow, hhigh⟩ := hval
      rw [hc']
      interval_cases m <;> decide
    exact List.all_eq_true.mp (show ("0123456789".toList.all fun c =>
      (String.utf8EncodeChar c).all unmarked) = true by decide +kernel) c hmem
  have hencode : utf8 (toString n) = (Nat.toDigits 10 n).flatMap String.utf8EncodeChar := by
    have hlist : toString n = String.ofList (Nat.toDigits 10 n) := by
      rw [Nat.toString_eq_repr, ← Nat.toList_repr, String.ofList_toList]
    rw [utf8, hlist, String.toByteArray_ofList, List.utf8Encode, List.data_toByteArray]
  rw [hencode, List.all_flatMap, List.all_eq_true]
  exact fun c hc => hdigit c (Nat.isDigit_of_mem_toDigits (by decide) (by decide) hc)

end Smith.UrlPaths
