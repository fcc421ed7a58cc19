import Mathlib

set_option autoImplicit false

/-!
# Lexical paths

`filepath.Clean` and `filepath.Join` on slash-separated texts, and the names that a path
consists of. Cleaning pushes the names of a path on a stack and lets `..` take the last one
off again, so what stands behind a plain name depends on the stack before it only.
-/
namespace Smith

/-- The segments that `filepath.Clean` keeps, last first. -/
def cleanSegments (rooted : Bool) : List String → List String → List String
  | out, [] => out
  | out, seg :: segs =>
    if seg = "" ∨ seg = "." then cleanSegments rooted out segs
    else if seg = ".." then
      match out with
      | [] => cleanSegments rooted (if rooted then [] else [seg]) segs
      | top :: rest =>
        cleanSegments rooted (if top = ".." then seg :: out else rest) segs
    else cleanSegments rooted (seg :: out) segs

def cleanPath (path : String) : String :=
  let rooted := path.toList.head? = some '/'
  let segs := (cleanSegments rooted [] ((path.toList.splitOn '/').map String.ofList)).reverse
  if rooted then "/" ++ "/".intercalate segs
  else if segs = [] then "."
  else "/".intercalate segs

/-- `filepath.Join`. -/
def joinPath (dir name : String) : String :=
  if dir ≠ "" then cleanPath (dir ++ "/" ++ name)
  else if name ≠ "" then cleanPath name
  else ""

/-- `filepath.Join` of any number of elements. -/
def joinPaths (elems : List String) : String :=
  match elems.dropWhile (· = "") with
  | [] => ""
  | elems => cleanPath ("/".intercalate elems)

def segments (path : String) : List String := (path.toList.splitOn '/').map String.ofList

def pathNames (path : String) : List String := (segments path).filter (· ≠ "")

/-- One path lies strictly below another. -/
def Below (dir path : String) : Prop :=
  pathNames dir <+: pathNames path ∧ pathNames path ≠ pathNames dir

def Overlap (p q : String) : Prop := pathNames p <+: pathNames q ∨ pathNames q <+: pathNames p

structure PlainName (name : String) : Prop where
  nonempty : name ≠ ""
  dot : name ≠ "."
  dotdot : name ≠ ".."
  slash : '/' ∉ name.toList

theorem segments_plain {name : String} (h : PlainName name) : segments name = [name] := by
  rw [segments, List.splitOn_eq_singleton h.slash]
  simp

theorem segments_join (p q : String) : segments (p ++ "/" ++ q) = segments p ++ segments q := by
  have hlist : (p ++ "/" ++ q).toList = p.toList ++ '/' :: q.toList := by simp
  rw [segments, hlist, List.splitOn_append_cons_self, List.map_append]
  rfl

theorem of_mem_splitOn {α : Type} [DecidableEq α] {a : α} {e l : List α} (h : e ∈ l.splitOn a) :
    a ∉ e ∧ e ⊆ l := by
  induction l generalizing e with
  | nil => simp_all
  | cons c l ih =>
    rw [List.splitOn_cons_eq_if_modifyHead] at h
    split_ifs at h with hc
    · obtain rfl | h := List.mem_cons.mp h
      · exact ⟨List.not_mem_nil, List.nil_subset _⟩
      · exact (ih h).imp_right (List.subset_cons_of_subset c)
    · cases hs : l.splitOn a with
      | nil => exact absurd hs (List.splitOn_ne_nil _ _)
      | cons first rest =>
        rw [hs, List.modifyHead_cons] at h
        obtain rfl | h := List.mem_cons.mp h
        · obtain ⟨hfirst, hsub⟩ := ih (hs ▸ List.mem_cons_self)
          refine ⟨?_, List.cons_subset_cons c hsub⟩
          simp only [List.mem_cons, not_or]
          exact ⟨fun he => hc (by simp [← he]), hfirst⟩
        · exact (ih (hs ▸ List.mem_cons_of_mem _ h)).imp_right (List.subset_cons_of_subset c)

theorem slash_notMem_of_mem_segments {path seg : String} (h : seg ∈ segments path) :
    '/' ∉ seg.toList := by
  obtain ⟨e, he, rfl⟩ := List.mem_map.mp h
  rw [String.toList_ofList]
  exact (of_mem_splitOn he).1

theorem segments_intercalate {segs : List String} (hne : segs ≠ [])
    (h : ∀ seg ∈ segs, '/' ∉ seg.toList) : segments ("/".intercalate segs) = segs := by
  have hlist : ("/".intercalate segs).toList = ['/'].intercalate (segs.map String.toList) :=
    String.toList_intercalate
  have hslash : ∀ l ∈ segs.map String.toList, '/' ∉ l := by
    intro l hl
    obtain ⟨seg, hseg, rfl⟩ := List.mem_map.mp hl
    exact h seg hseg
  rw [segments, hlist, List.splitOn_intercalate '/' hslash (by simpa using hne), List.map_map]
  simp [Function.comp_def]

theorem pathNames_rooted {names : List String}
    (h : ∀ name ∈ names, name ≠ "" ∧ '/' ∉ name.toList) :
    pathNames ("/" ++ "/".intercalate names) = names := by
  have hroot : segments ("/" ++ "/".intercalate names) = "" :: segments ("/".intercalate names) :=
    segments_join "" ("/".intercalate names)
  rw [pathNames, hroot, List.filter_cons_of_neg (by simp)]
  by_cases hne : names = []
  · subst hne
    decide
  · rw [segments_intercalate hne fun name hname => (h name hname).2]
    exact List.filter_eq_self.mpr fun name hname => by simpa using (h name hname).1

/-- What one segment makes of the stack. -/
def cleanStep (rooted : Bool) (out : List String) (seg : String) : List String :=
  if seg = "" ∨ seg = "." then out
  else if seg = ".." then
    match out with
    | [] => if rooted then [] else [seg]
    | top :: rest => if top = ".." then seg :: out else rest
  else seg :: out

theorem cleanSegments_eq_foldl (rooted : Bool) (out segs : List String) :
    cleanSegments rooted out segs = segs.foldl (cleanStep rooted) out := by
  induction segs generalizing out with
  | nil => cases out <;> rfl
  | cons seg segs ih =>
    rw [List.foldl_cons, cleanSegments.eq_def]
    simp only [cleanStep, ih]
    cases out <;> split_ifs <;> rfl

theorem cleanStep_plain {rooted : Bool} {out : List String} {name : String} (h : PlainName name) :
    cleanStep rooted out name = name :: out := by
  unfold cleanStep
  rw [if_neg (not_or.mpr ⟨h.nonempty, h.dot⟩), if_neg h.dotdot]

theorem mem_cleanStep {rooted : Bool} {out : List String} {seg e : String}
    (h : e ∈ cleanStep rooted out seg) : e ∈ out ∨ e = seg ∧ e ≠ "" := by
  have hpush : ∀ l, e ∈ seg :: l → (∀ x ∈ l, x ∈ out) → ¬ (seg = "" ∨ seg = ".") →
      e ∈ out ∨ e = seg ∧ e ≠ "" := by
    intro l hl hsub hempty
    obtain rfl | hl := List.mem_cons.mp hl
    · exact .inr ⟨rfl, fun he => hempty (.inl he)⟩
    · exact .inl (hsub e hl)
  cases out with
  | nil =>
    simp only [cleanStep] at h
    split_ifs at h with hempty
    · exact .inl h
    · exact .inl h
    · exact hpush [] h (fun _ hx => hx) hempty
    · exact hpush [] h (fun _ hx => hx) hempty
  | cons top rest =>
    simp only [cleanStep] at h
    split_ifs at h with hempty
    · exact .inl h
    · exact hpush _ h (fun _ hx => hx) hempty
    · exact .inl (List.mem_cons_of_mem _ h)
    · exact hpush _ h (fun _ hx => hx) hempty

theorem mem_clean {rooted : Bool} {out segs : List String} {e : String}
    (h : e ∈ segs.foldl (cleanStep rooted) out) : e ∈ out ∨ e ∈ segs ∧ e ≠ "" := by
  induction segs generalizing out with
  | nil => exact .inl h
  | cons seg segs ih =>
    obtain hout | ⟨hseg, hne⟩ := ih h
    · obtain hout | ⟨rfl, hne⟩ := mem_cleanStep hout
      · exact .inl hout
      · exact .inr ⟨List.mem_cons_self, hne⟩
    · exact .inr ⟨List.mem_cons_of_mem _ hseg, hne⟩

/-- The names of a cleaned absolute path are what its segments leave on the stack. -/
theorem pathNames_cleanPath {path : String} (h : path.toList.head? = some '/') :
    pathNames (cleanPath path) = ((segments path).foldl (cleanStep true) []).reverse := by
  have hclean : cleanPath path =
      "/" ++ "/".intercalate ((segments path).foldl (cleanStep true) []).reverse := by
    simp only [cleanPath, h, if_true, decide_true, cleanSegments_eq_foldl]
    rfl
  rw [hclean, pathNames_rooted]
  intro name hname
  obtain hnil | ⟨hseg, hne⟩ := mem_clean (List.mem_reverse.mp hname)
  · exact absurd hnil List.not_mem_nil
  · exact ⟨hne, slash_notMem_of_mem_segments hseg⟩

/-- A plain name behind an absolute path is the last name of the cleaned path. -/
theorem pathNames_cleanPath_plain {path name : String} (h : path.toList.head? = some '/')
    (hname : PlainName name) :
    pathNames (cleanPath (path ++ "/" ++ name)) = pathNames (cleanPath path) ++ [name] := by
  have hhead : (path ++ "/" ++ name).toList.head? = some '/' := by
    simp [String.toList_append, List.head?_append, h]
  rw [pathNames_cleanPath hhead, pathNames_cleanPath h, segments_join, segments_plain hname,
    List.foldl_append, List.foldl_cons, List.foldl_nil, cleanStep_plain hname, List.reverse_cons]

section Extensions

theorem splitOn_append (l : List Char) : ∃ init last, ∀ e, '/' ∉ e →
    (l ++ e).splitOn '/' = init ++ [last ++ e] := by
  induction l with
  | nil => exact ⟨[], [], fun e he => List.splitOn_eq_singleton he⟩
  | cons c l ih =>
    obtain ⟨init, last, ih⟩ := ih
    by_cases hc : c = '/'
    · refine ⟨[] :: init, last, fun e he => ?_⟩
      rw [List.cons_append, List.splitOn_cons_eq_if_modifyHead, if_pos (by simp [hc]), ih e he]
      rfl
    · cases init with
      | nil =>
        refine ⟨[], c :: last, fun e he => ?_⟩
        rw [List.cons_append, List.splitOn_cons_eq_if_modifyHead, if_neg (by simp [hc]), ih e he]
        rfl
      | cons first init =>
        refine ⟨(c :: first) :: init, last, fun e he => ?_⟩
        rw [List.cons_append, List.splitOn_cons_eq_if_modifyHead, if_neg (by simp [hc]), ih e he]
        rfl

theorem intercalate_snoc_append (segs : List String) (seg ext : String) :
    "/".intercalate (segs ++ [seg ++ ext]) = "/".intercalate (segs ++ [seg]) ++ ext := by
  induction segs with
  | nil => simp only [List.nil_append, String.intercalate_singleton]
  | cons a segs ih =>
    cases segs with
    | nil => simp [String.intercalate_cons_cons, String.append_assoc]
    | cons b segs =>
      simp only [List.cons_append, String.intercalate_cons_cons] at ih ⊢
      rw [ih, ← String.append_assoc]

theorem cleanPath_extension (path : String) : ∃ stem, ∀ ext : String, '/' ∉ ext.toList →
    3 ≤ ext.length → cleanPath (path ++ ext) = stem ++ ext := by
  obtain ⟨init, last, hsplit⟩ := splitOn_append path.toList
  let rooted : Bool := path.toList.head? = some '/'
  let out := (init.map String.ofList).foldl (cleanStep rooted) []
  let text := "/".intercalate (out.reverse ++ [String.ofList last])
  refine ⟨if rooted then "/" ++ text else text, fun ext hslash hlen => ?_⟩
  have hrooted : ((path ++ ext).toList.head? = some '/') ↔ rooted = true := by
    rw [String.toList_append]
    cases hpath : path.toList with
    | nil =>
      have hhead : ext.toList.head? ≠ some '/' := fun h => hslash (List.mem_of_mem_head? h)
      simp [rooted, hpath, hhead]
    | cons c l => simp [rooted, hpath]
  have hlast : ((path ++ ext).toList.splitOn '/').map String.ofList =
      init.map String.ofList ++ [String.ofList last ++ ext] := by
    rw [String.toList_append, hsplit _ hslash, List.map_append, List.map_singleton,
      String.ofList_append, String.ofList_toList]
  have hshort (s : String) (hs : s.length < 3) : String.ofList last ++ ext ≠ s := by
    rintro rfl
    rw [String.length_append] at hs
    omega
  have hmem : String.ofList last ++ ext ∈ segments (path ++ ext) := by
    rw [segments, hlast]
    exact List.mem_append_right _ List.mem_cons_self
  have hname : PlainName (String.ofList last ++ ext) :=
    ⟨hshort _ (by decide), hshort _ (by decide), hshort _ (by decide),
      slash_notMem_of_mem_segments hmem⟩
  have hsegs : (cleanSegments rooted [] (init.map String.ofList ++
      [String.ofList last ++ ext])).reverse = out.reverse ++ [String.ofList last ++ ext] := by
    rw [cleanSegments_eq_foldl, List.foldl_append, List.foldl_cons, List.foldl_nil,
      cleanStep_plain hname, List.reverse_cons]
  unfold cleanPath
  simp only [hrooted, hlast, Bool.decide_eq_true, hsegs, intercalate_snoc_append]
  by_cases hr : rooted = true
  · rw [if_pos hr, if_pos hr, ← String.append_assoc]
  · rw [if_neg hr, if_neg hr, if_neg (by simp)]

/-- An extension stays at the end of a cleaned path, behind a text that does not depend on it. -/
theorem joinPath_extension (dir name : String) : ∃ stem, ∀ ext : String, '/' ∉ ext.toList →
    3 ≤ ext.length → joinPath dir (name ++ ext) = stem ++ ext := by
  unfold joinPath
  by_cases hdir : dir = ""
  · obtain ⟨stem, hstem⟩ := cleanPath_extension name
    refine ⟨stem, fun ext hslash hlen => ?_⟩
    have hne : name ++ ext ≠ "" := by
      intro h
      have hempty := congrArg String.length h
      rw [String.length_append, String.length_empty] at hempty
      omega
    rw [if_neg (by simpa using hdir), if_pos hne, hstem ext hslash hlen]
  · obtain ⟨stem, hstem⟩ := cleanPath_extension (dir ++ "/" ++ name)
    refine ⟨stem, fun ext hslash hlen => ?_⟩
    rw [if_pos hdir, ← String.append_assoc, hstem ext hslash hlen]

end Extensions

theorem not_append_prefix_self {α : Type} (l : List α) (a : α) : ¬ l ++ [a] <+: l := by
  intro h
  have hlen := h.length_le
  rw [List.length_append, List.length_singleton] at hlen
  omega

/-- A directory and a name behind it overlap with another such pair where the pairs agree or
    one of the directories lies within the other's named one. -/
theorem append_prefix_append_iff {α : Type} {p q : List α} {a b : α} :
    p ++ [a] <+: q ++ [b] ↔ p = q ∧ a = b ∨ p ++ [a] <+: q := by
  rw [List.prefix_concat_iff]
  exact or_congr_left (by simp)

end Smith
