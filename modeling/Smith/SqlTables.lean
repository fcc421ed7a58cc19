import Smith.FiniteMaps

set_option autoImplicit false

/-!
# Tables with named columns

A table has a primary key and columns in an order of their own; a row has a cell for each of
them, which may be NULL. Statements name the columns they are about, so a table means no more
than the cells of its rows by name: a column that is added at the end, with NULL in every row,
leaves that meaning as it was.
-/
namespace Smith.SqlTables
open FiniteMaps Std

variable {V : Type}

def cell (columns : List String) (r : List (Option V)) (c : String) : Option V :=
  r[columns.idxOf c]?.join

structure Table (V : Type) where
  columns : List String
  rows : ExtTreeMap String (List (Option V))
  nodup : columns.Nodup
  aligned : ∀ (k : String) (r : List (Option V)), rows[k]? = some r → r.length = columns.length

section Cells
variable {columns : List String}

theorem cell_map {c : String} (hc : c ∈ columns) (f : String → Option V) :
    cell columns (columns.map f) c = f c := by
  have hlt : columns.idxOf c < columns.length := List.idxOf_lt_length_iff.mpr hc
  rw [cell, List.getElem?_map, List.getElem?_eq_getElem hlt, List.getElem_idxOf]
  rfl

theorem cell_eq_none {c : String} (hc : c ∉ columns) {r : List (Option V)}
    (hr : r.length = columns.length) : cell columns r c = none := by
  rw [cell, List.idxOf_eq_length_iff.mpr hc, ← hr, List.getElem?_eq_none le_rfl]
  rfl

theorem cell_snoc {r : List (Option V)} (hr : r.length = columns.length) (d : String) :
    cell (columns ++ [d]) (r ++ [none]) = cell columns r := by
  funext c
  by_cases hc : c ∈ columns
  · have hlt : columns.idxOf c < r.length := hr ▸ List.idxOf_lt_length_iff.mpr hc
    rw [cell, List.idxOf_append_of_mem hc, List.getElem?_append_left hlt, cell]
  · rw [cell_eq_none hc hr, cell, List.idxOf_append_of_notMem hc, ← hr,
      List.getElem?_append_right (Nat.le_add_right _ _), Nat.add_sub_cancel_left]
    cases hd : List.idxOf c [d] with
    | zero => rfl
    | succ n => rfl

end Cells

namespace Table

def get (t : Table V) (k : String) : Option (String → Option V) := t.rows[k]?.map (cell t.columns)

def create (columns : List String) (h : columns.Nodup) : Table V := ⟨columns, ∅, h, by simp⟩

def addColumn (t : Table V) (c : String) : Except String (Table V) :=
  if h : c ∈ t.columns then .error s!"duplicate column name: {c}"
  else .ok {
    columns := t.columns ++ [c]
    rows := t.rows.map fun _ r => r ++ [none]
    nodup := List.nodup_append.mpr ⟨t.nodup, List.nodup_singleton c, by
      rintro a ha b hb rfl
      exact h (List.mem_singleton.mp hb ▸ ha)⟩
    aligned k r hr := by
      rw [ExtTreeMap.getElem?_map] at hr
      obtain ⟨r', hr', rfl⟩ := Option.map_eq_some_iff.mp hr
      rw [List.length_append, List.length_append, t.aligned k r' hr']
      rfl }

def put (t : Table V) (k : String) (cells : String → Option V) : Table V where
  columns := t.columns
  rows := t.rows.insert k (t.columns.map cells)
  nodup := t.nodup
  aligned k' r hr := by
    rw [lookup_insert] at hr
    split_ifs at hr
    · rw [← Option.some.inj hr, List.length_map]
    · exact t.aligned k' r hr

/-- `INSERT … ON CONFLICT DO UPDATE`: the cells of the inserted columns, or, where the key is
    there already, those of the updated ones. -/
def upsert (t : Table V) (k : String) (inserted updated : List String)
    (values : String → Option V) : Except String (Table V) :=
  match (inserted ++ updated).find? (· ∉ t.columns) with
  | some c => .error s!"no such column: {c}"
  | none =>
    .ok (match t.get k with
      | none => t.put k fun c => if c ∈ inserted then values c else none
      | some old => t.put k fun c => if c ∈ updated then values c else old c)

def delete (t : Table V) (k : String) : Table V where
  columns := t.columns
  rows := t.rows.erase k
  nodup := t.nodup
  aligned k' r hr := by
    rw [lookup_erase] at hr
    split_ifs at hr
    exact t.aligned k' r hr

/-- `SELECT` without a condition. The rows may come in any order. -/
def select (t : Table V) (names : List String) : Except String (List (String → Option V)) :=
  match names.find? (· ∉ t.columns) with
  | some c => .error s!"no such column: {c}"
  | none => .ok (t.rows.toList.map fun e => cell t.columns e.2)

variable {t t' : Table V}

theorem get_create (columns : List String) (h : columns.Nodup) (k : String) :
    (create columns h : Table V).get k = none := by
  simp [get, create]

theorem columns_addColumn {c : String} (h : t.addColumn c = .ok t') :
    t'.columns = t.columns ++ [c] := by
  unfold addColumn at h
  split_ifs at h
  rw [← Except.ok.inj h]

theorem get_addColumn {c : String} (h : t.addColumn c = .ok t') (k : String) :
    t'.get k = t.get k := by
  unfold addColumn at h
  split_ifs at h
  rw [← Except.ok.inj h, get, get, ExtTreeMap.getElem?_map, Option.map_map]
  cases hr : t.rows[k]? with
  | none => rfl
  | some r => exact congrArg some (cell_snoc (t.aligned k r hr) c)

theorem get_put (k k' : String) (cells : String → Option V) :
    (t.put k cells).get k' =
      if k = k' then some (cell t.columns (t.columns.map cells)) else t.get k' := by
  unfold get put
  rw [lookup_insert]
  split_ifs
  · rfl
  · rfl

theorem get_delete (k k' : String) :
    (t.delete k).get k' = if k = k' then none else t.get k' := by
  unfold get delete
  rw [lookup_erase]
  split_ifs
  · rfl
  · rfl

theorem find?_notMem_eq_none {names : List String} (h : ∀ c ∈ names, c ∈ t.columns) :
    names.find? (· ∉ t.columns) = none := by
  rw [List.find?_eq_none]
  intro c hc
  simpa using h c hc

theorem upsert_ok {inserted updated : List String} (h : ∀ c ∈ inserted ++ updated, c ∈ t.columns)
    (k : String) (values : String → Option V)
    (hkey : ∀ old, t.get k = some old → ∀ c ∈ inserted, c ∉ updated → old c = values c) :
    ∃ t', t.upsert k inserted updated values = .ok t' ∧ t'.columns = t.columns ∧
      (∃ cells, t'.get k = some cells ∧ ∀ c ∈ inserted, cells c = values c) ∧
      ∀ k', k ≠ k' → t'.get k' = t.get k' := by
  have hput (cells : String → Option V) (hcells : ∀ c ∈ inserted, cells c = values c) :
      (∃ cells', (t.put k cells).get k = some cells' ∧ ∀ c ∈ inserted, cells' c = values c) ∧
        ∀ k', k ≠ k' → (t.put k cells).get k' = t.get k' := by
    refine ⟨⟨_, by rw [get_put, if_pos rfl], fun c hc => ?_⟩, fun k' hk => ?_⟩
    · rw [cell_map (h c (List.mem_append_left _ hc)), hcells c hc]
    · rw [get_put, if_neg hk]
  unfold upsert
  rw [find?_notMem_eq_none h]
  refine ⟨_, rfl, ?_⟩
  cases hold : t.get k with
  | none => exact ⟨rfl, hput _ fun c hc => if_pos hc⟩
  | some old =>
    refine ⟨rfl, hput _ fun c hc => ?_⟩
    split_ifs with hupdated
    · rfl
    · exact hkey old hold c hc hupdated

theorem select_ok {names : List String} (h : ∀ c ∈ names, c ∈ t.columns) :
    t.select names = .ok (t.rows.toList.map fun e => cell t.columns e.2) := by
  rw [select, find?_notMem_eq_none h]

end Table
end Smith.SqlTables
