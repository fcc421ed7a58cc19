import Smith.JsonText
import Smith.SqlTables
import Smith.SqliteStore

set_option autoImplicit false

/-!
# Migrating the table of workloads

A database keeps the columns of the version that created it, in the order in which they came.
`migrate` adds those that are missing at the end, and rows that are older than a column have
NULL in it, which `List` reads as the empty text or as zero. So every row is read as the
workload it was written for, and the store goes on as one that was new.
-/
namespace Smith.Migration
open FiniteMaps Json Overwrites Runs SqlTables Std
open SqliteStore (readRow row Op)

inductive Cell where
  | text (s : String)
  | int (n : ℤ)
  deriving DecidableEq, Repr

def baseColumns : List String := ["id", "image", "args"]

/-- The columns that were added one after the other. -/
def laterColumns : List String :=
  ["health_check", "ports", "env", "resources", "replicas", "max_unavailable", "volumes"]

def allColumns : List String := baseColumns ++ laterColumns

def columnExists (t : Table Cell) (column : String) : Bool := t.columns.any (· == column)

/-- One turn of the loop over the later columns. -/
def ensureColumn (t : Table Cell) (c : String) : Except String (Table Cell) :=
  if columnExists t c then .ok t
  else (t.addColumn c).mapError fun e => s!"add column {c}: {e}"

/-- `CREATE TABLE IF NOT EXISTS`, then the columns that are missing. -/
def migrate (workloads : Option (Table Cell)) : Except String (Table Cell) :=
  laterColumns.foldlM ensureColumn
    (workloads.getD (Table.create allColumns (by decide)))

section Statements
variable (dur : Durations)

def cells (r : WorkloadRow String) : String → Option Cell
  | "id" => some (.text r.id)
  | "image" => some (.text r.image)
  | "args" => some (.text r.args)
  | "health_check" => r.healthCheck.map .text
  | "ports" => r.ports.map .text
  | "env" => r.env.map .text
  | "resources" => r.resources.map .text
  | "replicas" => r.replicas.map .int
  | "max_unavailable" => r.maxUnavailable.map .int
  | "volumes" => r.volumes.map .text
  | _ => none

def insert (t : Table Cell) (w : Workload) : Except String (Table Cell) :=
  t.upsert w.id allColumns allColumns.tail (cells (row encoding dur w))

def add (t : Table Cell) (w : Workload) : Except String (Table Cell) :=
  if w.id = "" then .error "workload ID cannot be empty"
  else if w.image = "" then .error s!"workload {w.id}: image cannot be empty"
  else (insert dur t w).mapError fun e => s!"upsert workload {w.id}: {e}"

def step (t : Table Cell) : Op → Table Cell × Except String Unit
  | .add w =>
    match add dur t w with
    | .error e => (t, .error e)
    | .ok t' => (t', .ok ())
  | .remove id => (t.delete id, .ok ())

def scanError (i : ℕ) (name what : String) : String :=
  s!"scan workload: sql: Scan error on column index {i}, name \"{name}\": {what}"

def scanString (i : ℕ) (name : String) : Option Cell → Except String String
  | some (.text s) => .ok s
  | some (.int n) => .ok (toString n)
  | none => .error (scanError i name "converting NULL to string is unsupported")

def scanInt (i : ℕ) (name : String) : Option Cell → Except String ℤ
  | some (.int n) => .ok n
  | some (.text s) =>
    match s.toInt? with
    | some n => .ok n
    | none =>
      .error (scanError i name
        s!"converting driver.Value type string (\"{s}\") to a int: invalid syntax")
  | none => .error (scanError i name "converting NULL to int is unsupported")

/-- A row of the query of `List`, with `COALESCE` on the later columns. -/
def scan (get : String → Option Cell) : Except String (WorkloadRow String) := do
  let text (i : ℕ) (c : String) := scanString i c (get c)
  let json (i : ℕ) (c : String) :=
    scanString i s!"COALESCE({c}, '')" (some ((get c).getD (.text "")))
  let count (i : ℕ) (c : String) := scanInt i s!"COALESCE({c}, 0)" (some ((get c).getD (.int 0)))
  return {
    id := ← text 0 "id"
    image := ← text 1 "image"
    args := ← text 2 "args"
    healthCheck := some (← json 3 "health_check")
    ports := some (← json 4 "ports")
    env := some (← json 5 "env")
    resources := some (← json 6 "resources")
    replicas := some (← count 7 "replicas")
    maxUnavailable := some (← count 8 "max_unavailable")
    volumes := some (← json 9 "volumes") }

def readCells (get : String → Option Cell) : Except String Workload := do
  readRow encoding dur (← scan get)

def listRows (rows : List (String → Option Cell)) : Except String (GoMap Workload) :=
  (rows.mapM (readCells dur)).map fun ws => overwrite ∅ (ws.map fun w => (w.id, w))

/-- `List` returns these workloads, in whatever order the rows come. -/
def Lists (t : Table Cell) (m : GoMap Workload) : Prop :=
  ∃ rows, t.select allColumns = .ok rows ∧ ∀ rows', rows'.Perm rows → listRows dur rows' = .ok m

end Statements

section Schema

theorem columnExists_iff {t : Table Cell} {c : String} :
    columnExists t c = true ↔ c ∈ t.columns := by
  simp [columnExists]

theorem ensureColumn_of_mem {t : Table Cell} {c : String} (h : c ∈ t.columns) :
    ensureColumn t c = .ok t :=
  if_pos (columnExists_iff.mpr h)

theorem ensureColumn_of_notMem {t : Table Cell} {c : String} (h : c ∉ t.columns) :
    ∃ t', ensureColumn t c = .ok t' ∧ t'.columns = t.columns ++ [c] ∧ ∀ k, t'.get k = t.get k := by
  have hadd : ∃ t', t.addColumn c = .ok t' := ⟨_, dif_neg h⟩
  obtain ⟨t', ht'⟩ := hadd
  refine ⟨t', ?_, Table.columns_addColumn ht', Table.get_addColumn ht'⟩
  rw [ensureColumn, if_neg (mt columnExists_iff.mp h), ht']
  rfl

/-- The loop ends with every column there and every cell as it was. -/
theorem ensureColumns (cs : List String) (hcs : cs.Nodup) (t : Table Cell) :
    ∃ t', cs.foldlM ensureColumn t = .ok t' ∧
      t'.columns = t.columns ++ cs.filter (· ∉ t.columns) ∧ ∀ k, t'.get k = t.get k := by
  induction cs generalizing t with
  | nil => exact ⟨t, rfl, by simp, fun _ => rfl⟩
  | cons c cs ih =>
    obtain ⟨hc, hcs⟩ := List.nodup_cons.mp hcs
    by_cases hmem : c ∈ t.columns
    · obtain ⟨t', hrun, hcolumns, hget⟩ := ih hcs t
      refine ⟨t', ?_, by simpa [hmem] using hcolumns, hget⟩
      rw [List.foldlM_cons, ensureColumn_of_mem hmem]
      exact hrun
    · obtain ⟨u, hu, hucolumns, huget⟩ := ensureColumn_of_notMem hmem
      obtain ⟨t', hrun, hcolumns, hget⟩ := ih hcs u
      refine ⟨t', ?_, ?_, fun k => (hget k).trans (huget k)⟩
      · rw [List.foldlM_cons, hu]
        exact hrun
      · have hfilter : cs.filter (· ∉ u.columns) = cs.filter (· ∉ t.columns) := by
          refine List.filter_congr fun d hd => ?_
          have hne : d ≠ c := fun h => hc (h ▸ hd)
          simp [hucolumns, hne]
        rw [hcolumns, hfilter, hucolumns, List.filter_cons_of_pos (by simpa using hmem),
          List.append_assoc]
        rfl

theorem migrate_eq_self {t : Table Cell} (h : ∀ c ∈ laterColumns, c ∈ t.columns) :
    migrate (some t) = .ok t := by
  have hloop (cs : List String) (hcs : ∀ c ∈ cs, c ∈ t.columns) :
      cs.foldlM ensureColumn t = .ok t := by
    induction cs with
    | nil => rfl
    | cons c cs ih =>
      rw [List.forall_mem_cons] at hcs
      rw [List.foldlM_cons, ensureColumn_of_mem hcs.1]
      exact ih hcs.2
  exact hloop laterColumns h

end Schema

section Rows
variable (dur : Durations)

theorem scanString_coalesce (i : ℕ) (name : String) (v : Option String) :
    scanString i name (some ((v.map Cell.text).getD (.text ""))) = .ok (v.getD "") := by
  cases v <;> rfl

theorem scanInt_coalesce (i : ℕ) (name : String) (v : Option ℤ) :
    scanInt i name (some ((v.map Cell.int).getD (.int 0))) = .ok (v.getD 0) := by
  cases v <;> rfl

theorem scan_cells (r : WorkloadRow String) : scan (cells r) = .ok { r with
    healthCheck := some (r.healthCheck.getD "")
    ports := some (r.ports.getD "")
    env := some (r.env.getD "")
    resources := some (r.resources.getD "")
    replicas := some (r.replicas.getD 0)
    maxUnavailable := some (r.maxUnavailable.getD 0)
    volumes := some (r.volumes.getD "") } := by
  simp only [scan, cells, scanString_coalesce, scanInt_coalesce]
  rfl

theorem readCells_cells (r : WorkloadRow String) :
    readCells dur (cells r) = readRow encoding dur r := by
  rw [readCells, scan_cells]
  rfl

theorem readCells_congr {get get' : String → Option Cell} (h : ∀ c ∈ allColumns, get c = get' c) :
    readCells dur get = readCells dur get' := by
  have hscan : scan get = scan get' := by
    simp only [allColumns, baseColumns, laterColumns, List.cons_append, List.nil_append,
      List.forall_mem_cons] at h
    obtain ⟨h0, h1, h2, h3, h4, h5, h6, h7, h8, h9, -⟩ := h
    simp only [scan, h0, h1, h2, h3, h4, h5, h6, h7, h8, h9]
  rw [readCells, hscan, readCells]

end Rows

/-- What a table means: it has the columns of the query, and its rows are read as these
    workloads. -/
structure Reads (dur : Durations) (t : Table Cell) (m : GoMap Workload) : Prop where
  columns : ∀ c ∈ allColumns, c ∈ t.columns
  rows : ∀ k, (t.get k).map (readCells dur) = m[k]?.map Except.ok
  ids : ∀ (k : String) (get : String → Option Cell), t.get k = some get →
    get "id" = some (.text k)
  keyed : ∀ (k : String) (w : Workload), m[k]? = some w → w.id = k

section Store
variable {dur : Durations} {t : Table Cell} {m : GoMap Workload}

theorem Reads.lists (h : Reads dur t m) : Lists dur t m := by
  -- what a row of the table is read as
  let read (get : String → Option Cell) : Workload :=
    (readCells dur get).toOption.getD { id := "", image := "" }
  have hread (k : String) (r : List (Option Cell)) (hr : t.rows[k]? = some r) :
      ∃ w, m[k]? = some w ∧ readCells dur (cell t.columns r) = .ok w := by
    have hrow := h.rows k
    rw [Table.get, hr] at hrow
    obtain ⟨w, hw, hok⟩ := Option.map_eq_some_iff.mp hrow.symm
    exact ⟨w, hw, hok.symm⟩
  have hm : (t.rows.map fun _ r => read (cell t.columns r)) = m := by
    refine ExtTreeMap.ext_getElem? fun k => ?_
    rw [ExtTreeMap.getElem?_map]
    cases hr : t.rows[k]? with
    | none =>
      have hrow := h.rows k
      rw [Table.get, hr] at hrow
      exact (Option.map_eq_none_iff.mp hrow.symm).symm
    | some r =>
      obtain ⟨w, hw, hok⟩ := hread k r hr
      rw [hw]
      simp only [Option.map_some, read, hok]
      rfl
  refine ⟨_, Table.select_ok h.columns, fun rows hperm => ?_⟩
  have hrows : ∀ get ∈ rows, readCells dur get = .ok (read get) := by
    intro get hget
    rw [hperm.mem_iff] at hget
    obtain ⟨⟨k, r⟩, he, rfl⟩ := List.mem_map.mp hget
    obtain ⟨w, -, hok⟩ := hread k r (ExtTreeMap.mem_toList_iff_getElem?_eq_some.mp he)
    simp only [read, hok]
    rfl
  have hentries : ((t.rows.toList.map fun e => cell t.columns e.2).map read).map
      (fun w => (w.id, w)) = m.toList := by
    rw [← hm, ExtTreeMap.toList_map, List.map_map, List.map_map]
    refine List.map_congr_left fun e he => ?_
    obtain ⟨w, hw, hok⟩ := hread e.1 e.2 (ExtTreeMap.mem_toList_iff_getElem?_eq_some.mp he)
    have hid : w.id = e.1 := h.keyed e.1 w hw
    simp only [Function.comp, read, hok]
    exact congrArg (·, w) hid
  rw [listRows, mapM_ok hrows]
  exact congrArg Except.ok (overwrite_perm (hentries ▸ (hperm.map read).map _))

theorem Reads.delete (h : Reads dur t m) (id : String) : Reads dur (t.delete id) (m.erase id) where
  columns := h.columns
  rows k := by
    rw [Table.get_delete, lookup_erase]
    split_ifs
    · rfl
    · exact h.rows k
  ids k get hget := by
    rw [Table.get_delete] at hget
    split_ifs at hget
    exact h.ids k get hget
  keyed k w hw := by
    rw [lookup_erase] at hw
    split_ifs at hw
    exact h.keyed k w hw

theorem Reads.insert (h : Reads dur t m) (w : Workload) :
    ∃ t', Migration.insert dur t w = .ok t' ∧ Reads dur t' (m.insert w.id w.normalize) := by
  have hcolumns : ∀ c ∈ allColumns ++ allColumns.tail, c ∈ t.columns := by
    intro c hc
    rcases List.mem_append.mp hc with hc | hc
    · exact h.columns c hc
    · exact h.columns c (List.mem_of_mem_tail hc)
  have hid (old : String → Option Cell) (hold : t.get w.id = some old) (c : String)
      (hc : c ∈ allColumns) (hupdated : c ∉ allColumns.tail) :
      old c = cells (row encoding dur w) c := by
    obtain rfl : c = "id" := (List.mem_cons.mp hc).resolve_right hupdated
    exact h.ids w.id old hold
  obtain ⟨t', ht', hsame, ⟨get, hget, hcells⟩, hother⟩ :=
    Table.upsert_ok hcolumns w.id (cells (row encoding dur w)) hid
  refine ⟨t', ht', fun c hc => hsame ▸ h.columns c hc, fun k => ?_, fun k get' hget' => ?_,
    fun k w' hw' => ?_⟩
  · rw [lookup_insert]
    split_ifs with hk
    · subst hk
      rw [hget, Option.map_some, readCells_congr dur hcells, readCells_cells,
        SqliteStore.readRow_row]
      rfl
    · rw [hother k hk]
      exact h.rows k
  · by_cases hk : w.id = k
    · subst hk
      rw [hget] at hget'
      rw [← Option.some.inj hget', hcells "id" List.mem_cons_self]
      rfl
    · rw [hother k hk] at hget'
      exact h.ids k get' hget'
  · rw [lookup_insert] at hw'
    split_ifs at hw' with hk
    · rw [← Option.some.inj hw']
      exact hk
    · exact h.keyed k w' hw'

theorem Reads.create : Reads dur (Table.create allColumns (by decide)) ∅ where
  columns _ hc := hc
  rows k := by
    rw [Table.get_create]
    simp
  ids k get hget := by simp [Table.get_create] at hget
  keyed k w hw := by simp at hw

/-- The calls on the map that `List` returns. -/
def listedStep (m : GoMap Workload) : Op → GoMap Workload × Except String Unit
  | .add w =>
    if w.id = "" then (m, .error "workload ID cannot be empty")
    else if w.image = "" then (m, .error s!"workload {w.id}: image cannot be empty")
    else (m.insert w.id w.normalize, .ok ())
  | .remove id => (m.erase id, .ok ())

theorem Reads.step (h : Reads dur t m) (op : Op) :
    (Migration.step dur t op).2 = (listedStep m op).2 ∧
      Reads dur (Migration.step dur t op).1 (listedStep m op).1 := by
  cases op with
  | remove id => exact ⟨rfl, h.delete id⟩
  | add w =>
    simp only [Migration.step, add, listedStep]
    by_cases hid : w.id = ""
    · simp only [if_pos hid]
      exact ⟨trivial, h⟩
    by_cases himage : w.image = ""
    · simp only [if_neg hid, if_pos himage]
      exact ⟨trivial, h⟩
    obtain ⟨t', ht', hreads⟩ := h.insert w
    simp only [if_neg hid, if_neg himage, ht', Except.mapError]
    exact ⟨trivial, hreads⟩

theorem Reads.run (h : Reads dur t m) (ops : List Op) :
    answers (Migration.step dur) t ops = answers listedStep m ops ∧
      Reads dur (Runs.run (fun t op => (Migration.step dur t op).1) t ops)
        (Runs.run (fun m op => (listedStep m op).1) m ops) :=
  simulates (fun _ _ op h => h.step op) h ops

theorem listedStep_store (s : Store) (op : Op) :
    listedStep (s.list.map fun _ w => w.normalize) op =
      ((s.step op).1.list.map fun _ w => w.normalize, (s.step op).2) := by
  cases op with
  | remove id =>
    refine congrArg (·, Except.ok ()) (ExtTreeMap.ext_getElem? fun k => ?_)
    simp only [Store.step, Store.remove, Store.list]
    rw [lookup_erase, ExtTreeMap.getElem?_map, ExtTreeMap.getElem?_map, lookup_erase]
    split_ifs <;> rfl
  | add w =>
    simp only [listedStep, Store.step, Store.add]
    by_cases hid : w.id = ""
    · simp only [hid, if_true, dif_pos]
    by_cases himage : w.image = ""
    · simp only [hid, himage, if_true, if_false, dif_pos, dif_neg, not_false_eq_true]
    simp only [hid, himage, if_false, dif_neg, not_false_eq_true]
    refine congrArg (·, Except.ok ()) (ExtTreeMap.ext_getElem? fun k => ?_)
    simp only [Store.list]
    rw [lookup_insert, ExtTreeMap.getElem?_map, ExtTreeMap.getElem?_map, lookup_insert]
    split_ifs <;> rfl

/-- A new database answers and lists as the in-memory store. -/
theorem fresh_refines_store (dur : Durations) (ops : List Op) :
    let mem := Runs.run (fun s op => (Store.step s op).1) Store.new ops
    ∃ fresh, migrate none = .ok fresh ∧
      answers (Migration.step dur) fresh ops = answers Store.step Store.new ops ∧
      Lists dur (Runs.run (fun t op => (Migration.step dur t op).1) fresh ops)
        (mem.list.map fun _ w => w.normalize) := by
  intro mem
  obtain ⟨hanswers, hreads⟩ := (Reads.create : Reads dur _ ∅).run ops
  have hempty : (∅ : GoMap Workload) = Store.new.list.map fun _ w => w.normalize := by
    refine ExtTreeMap.ext_getElem? fun k => ?_
    simp [Store.new, Store.list]
  have hstep (m : GoMap Workload) (s : Store) (op : Op)
      (hm : m = s.list.map fun _ w => w.normalize) : (listedStep m op).2 = (s.step op).2 ∧
        (listedStep m op).1 = (s.step op).1.list.map fun _ w => w.normalize := by
    rw [hm, listedStep_store]
    exact ⟨rfl, rfl⟩
  obtain ⟨hstore, hmem⟩ := simulates hstep hempty ops
  refine ⟨_, migrate_eq_self fun c hc => List.mem_append_right _ hc, hanswers.trans hstore, ?_⟩
  rw [← hmem]
  exact hreads.lists

theorem Reads.fill (h : Reads dur t m) (ws : List Workload) :
    ∃ t', ws.foldlM (Migration.insert dur) t = .ok t' ∧
      Reads dur t' (overwrite m (ws.map fun w => (w.id, w.normalize))) := by
  induction ws generalizing t m with
  | nil => exact ⟨t, rfl, h⟩
  | cons w ws ih =>
    obtain ⟨u, hu, hureads⟩ := h.insert w
    obtain ⟨t', ht', htreads⟩ := ih hureads
    refine ⟨t', ?_, htreads⟩
    rw [List.foldlM_cons, hu]
    exact ht'

theorem overwrite_normalized {ws : GoMap Workload}
    (h : ∀ (k : String) (w : Workload), ws[k]? = some w → w.id = k) :
    overwrite ∅ ((ws.toList.map Prod.snd).map fun w => (w.id, w.normalize)) =
      ws.map fun _ w => w.normalize := by
  refine overwrite_perm (.of_eq ?_)
  rw [ExtTreeMap.toList_map, List.map_map]
  refine List.map_congr_left fun e he => ?_
  rw [ExtTreeMap.mem_toList_iff_getElem?_eq_some] at he
  exact congrArg (·, e.2.normalize) (h e.1 e.2 he)

end Store

section Columns

def Blank (v : Option String) : Prop := v.getD "" = "" ∨ v.getD "" = "null"

def Alike (v v' : Option String) : Prop := v = v' ∨ Blank v ∧ Blank v'

theorem column_alike {α : Type} {decode : Value → Except String α} {zero : α} {what id : String}
    {v v' : Option String} (h : Alike v v') :
    SqliteStore.column encoding decode zero what id v =
      SqliteStore.column encoding decode zero what id v' := by
  have hblank {u : Option String} (hu : Blank u) :
      SqliteStore.column encoding decode zero what id u = .ok zero :=
    if_neg fun hne => hu.elim hne.1 hne.2
  rcases h with rfl | ⟨hv, hv'⟩
  · rfl
  · rw [hblank hv, hblank hv']

theorem readRow_congr (dur : Durations) {r r' : WorkloadRow String} (hid : r.id = r'.id)
    (himage : r.image = r'.image) (hargs : r.args = r'.args)
    (hcheck : Alike r.healthCheck r'.healthCheck) (hports : Alike r.ports r'.ports)
    (henv : Alike r.env r'.env) (hresources : Alike r.resources r'.resources)
    (hreplicas : r.replicas.getD 0 = r'.replicas.getD 0)
    (hmax : r.maxUnavailable.getD 0 = r'.maxUnavailable.getD 0)
    (hvolumes : Alike r.volumes r'.volumes) :
    readRow encoding dur r = readRow encoding dur r' := by
  unfold readRow SqliteStore.readArgs
  rw [hid, himage, hargs, column_alike hcheck, column_alike hports, column_alike henv,
    column_alike hresources, hreplicas, hmax, column_alike hvolumes]

end Columns

section Legacy

/-- A row by the workload it was written for, the columns that its version knew, and those in
    which it had `null` for what is now the empty text. -/
structure LegacyRow (columns : List String) where
  workload : Workload
  written : List String
  nulls : List String
  written_sub : ∀ c ∈ written, c ∈ columns

/-- The workload with zero values in the fields of other columns. -/
def keep (w : Workload) (written : List String) : Workload :=
  { w with
    healthCheck := if "health_check" ∈ written then w.healthCheck else none
    ports := if "ports" ∈ written then w.ports else none
    env := if "env" ∈ written then w.env else none
    resources := if "resources" ∈ written then w.resources else none
    replicas := if "replicas" ∈ written then w.replicas else 0
    maxUnavailable := if "max_unavailable" ∈ written then w.maxUnavailable else 0
    volumes := if "volumes" ∈ written then w.volumes else none }

variable {columns : List String}

namespace LegacyRow
variable (dur : Durations) (l : LegacyRow columns)

def recorded (c : String) (v : Option String) : Option String :=
  if c ∈ l.written then v.map fun s => if c ∈ l.nulls ∧ s = "" then "null" else s else none

def toRow : WorkloadRow String :=
  let r := row encoding dur l.workload
  { r with
    healthCheck := l.recorded "health_check" r.healthCheck
    ports := l.recorded "ports" r.ports
    env := l.recorded "env" r.env
    resources := l.recorded "resources" r.resources
    replicas := if "replicas" ∈ l.written then r.replicas else none
    maxUnavailable := if "max_unavailable" ∈ l.written then r.maxUnavailable else none
    volumes := l.recorded "volumes" r.volumes }

theorem recorded_alike {c : String} {v v' : Option String} (hin : c ∈ l.written → v' = v)
    (hout : c ∉ l.written → v' = some "") : Alike (l.recorded c v) v' := by
  unfold recorded
  by_cases hc : c ∈ l.written
  · rw [if_pos hc, hin hc]
    cases v with
    | none => exact .inl rfl
    | some s =>
      rw [Option.map_some]
      split_ifs with hs
      · exact .inr ⟨.inr rfl, .inl hs.2⟩
      · exact .inl rfl
  · rw [if_neg hc, hout hc]
    exact .inr ⟨.inl rfl, .inl rfl⟩

theorem readRow_toRow :
    readRow encoding dur (l.toRow dur) = .ok (keep l.workload l.written).normalize := by
  have hkept : readRow encoding dur (row encoding dur (keep l.workload l.written)) =
      .ok (keep l.workload l.written).normalize := SqliteStore.readRow_row _
  rw [← hkept]
  refine readRow_congr dur rfl rfl rfl (l.recorded_alike ?_ ?_) (l.recorded_alike ?_ ?_)
    (l.recorded_alike ?_ ?_) (l.recorded_alike ?_ ?_) ?_ ?_ (l.recorded_alike ?_ ?_)
  -- the counts, where a column that was not written reads as zero
  case refine_9 | refine_10 => simp only [toRow, row, keep]; split_ifs <;> rfl
  all_goals
    intro h
    simp [row, keep, h, encoding]

theorem cells_toRow {c : String} (hc : c ∈ laterColumns) (hwritten : c ∉ l.written) :
    cells (l.toRow dur) c = none := by
  simp only [laterColumns, List.mem_cons, List.not_mem_nil, or_false] at hc
  rcases hc with rfl | rfl | rfl | rfl | rfl | rfl | rfl
  all_goals simp [cells, toRow, recorded, hwritten]

end LegacyRow

/-- A table of an older version. -/
def legacyTable (dur : Durations) (hcolumns : columns.Nodup) (stored : GoMap (LegacyRow columns)) :
    Table Cell where
  columns := columns
  rows := stored.map fun _ l => columns.map (cells (l.toRow dur))
  nodup := hcolumns
  aligned k r hr := by
    rw [ExtTreeMap.getElem?_map] at hr
    obtain ⟨l, -, rfl⟩ := Option.map_eq_some_iff.mp hr
    exact List.length_map _

theorem reads_legacyTable (dur : Durations) (hcolumns : columns.Nodup)
    {stored : GoMap (LegacyRow columns)} (hbase : ∀ c ∈ baseColumns, c ∈ columns)
    (hkeyed : ∀ (k : String) (l : LegacyRow columns), stored[k]? = some l → l.workload.id = k)
    {t : Table Cell} (hall : ∀ c ∈ allColumns, c ∈ t.columns)
    (hget : ∀ k, t.get k = (legacyTable dur hcolumns stored).get k) :
    Reads dur t (stored.map fun _ l => (keep l.workload l.written).normalize) := by
  have hrow (k : String) : t.get k =
      stored[k]?.map fun l => cell columns (columns.map (cells (l.toRow dur))) := by
    rw [hget, Table.get, legacyTable, ExtTreeMap.getElem?_map, Option.map_map]
    rfl
  have hcells (l : LegacyRow columns) (c : String) (hc : c ∈ allColumns) :
      cell columns (columns.map (cells (l.toRow dur))) c = cells (l.toRow dur) c := by
    by_cases hmem : c ∈ columns
    · exact cell_map hmem _
    · -- a column that the table does not have was not written either
      have hlater : c ∈ laterColumns :=
        (List.mem_append.mp hc).resolve_left fun h => hmem (hbase c h)
      rw [cell_eq_none hmem (List.length_map _),
        l.cells_toRow dur hlater fun h => hmem (l.written_sub c h)]
  refine ⟨hall, fun k => ?_, fun k get hk => ?_, fun k w hk => ?_⟩
  · rw [hrow, ExtTreeMap.getElem?_map, Option.map_map, Option.map_map]
    refine congrArg (Option.map · stored[k]?) (funext fun l => ?_)
    simp only [Function.comp]
    rw [readCells_congr dur (hcells l), readCells_cells, l.readRow_toRow]
  · rw [hrow] at hk
    obtain ⟨l, hl, rfl⟩ := Option.map_eq_some_iff.mp hk
    rw [hcells l "id" List.mem_cons_self]
    exact congrArg (fun id => some (Cell.text id)) (hkeyed k l hl)
  · rw [ExtTreeMap.getElem?_map] at hk
    obtain ⟨l, hl, rfl⟩ := Option.map_eq_some_iff.mp hk
    exact hkeyed k l hl

end Legacy

/-- A table with the columns of an older version, in any order, and with rows of that version or
    of others before it, keeps its workloads: they are listed with zero values in the fields
    that had no column. From there on the store answers and lists as a new one that was given
    the same workloads. -/
theorem migrate_preserves_workloads (dur : Durations) {columns : List String}
    (hcolumns : columns.Nodup) (hbase : ∀ c ∈ baseColumns, c ∈ columns)
    (hsub : ∀ c ∈ columns, c ∈ allColumns) {stored : GoMap (LegacyRow columns)}
    (hkeyed : ∀ (k : String) (l : LegacyRow columns), stored[k]? = some l → l.workload.id = k) :
    let workloads := stored.map fun _ l => keep l.workload l.written
    ∃ t fresh filled, migrate (some (legacyTable dur hcolumns stored)) = .ok t ∧
      t.columns.Perm allColumns ∧
      Lists dur t (workloads.map fun _ w => w.normalize) ∧
      migrate (some t) = .ok t ∧
      migrate none = .ok fresh ∧
      (workloads.toList.map Prod.snd).foldlM (insert dur) fresh = .ok filled ∧
      ∀ ops, answers (step dur) t ops = answers (step dur) filled ops ∧
        ∃ m, Lists dur (run (fun t op => (step dur t op).1) t ops) m ∧
          Lists dur (run (fun t op => (step dur t op).1) filled ops) m := by
  intro workloads
  obtain ⟨t, hmigrate, htcolumns, hget⟩ :=
    ensureColumns laterColumns (by decide) (legacyTable dur hcolumns stored)
  have hmem (c : String) : c ∈ t.columns ↔ c ∈ allColumns := by
    rw [htcolumns, List.mem_append, List.mem_filter, allColumns, List.mem_append]
    constructor
    · rintro (hc | ⟨hc, -⟩)
      · exact List.mem_append.mp (hsub c hc)
      · exact .inr hc
    · rintro (hc | hc)
      · exact .inl (hbase c hc)
      · by_cases hold : c ∈ columns
        · exact .inl hold
        · exact .inr ⟨hc, decide_eq_true hold⟩
  have hkept : ∀ (k : String) (w : Workload), workloads[k]? = some w → w.id = k := by
    intro k w hw
    rw [ExtTreeMap.getElem?_map] at hw
    obtain ⟨l, hl, rfl⟩ := Option.map_eq_some_iff.mp hw
    exact hkeyed k l hl
  have hnormal : (stored.map fun _ l => (keep l.workload l.written).normalize) =
      workloads.map fun _ w => w.normalize := by
    refine ExtTreeMap.ext_getElem? fun k => ?_
    rw [ExtTreeMap.getElem?_map, ExtTreeMap.getElem?_map, ExtTreeMap.getElem?_map, Option.map_map]
    rfl
  have hreads : Reads dur t (workloads.map fun _ w => w.normalize) :=
    hnormal ▸ reads_legacyTable dur hcolumns hbase hkeyed (fun c hc => (hmem c).mpr hc) hget
  have hcreate : Reads dur (Table.create allColumns (by decide)) ∅ := Reads.create
  obtain ⟨filled, hfilled, hfill⟩ := hcreate.fill (workloads.toList.map Prod.snd)
  rw [overwrite_normalized hkept] at hfill
  refine ⟨t, _, filled, hmigrate, ?_, hreads.lists, ?_, ?_, hfilled, fun ops => ?_⟩
  · exact (List.perm_ext_iff_of_nodup t.nodup (by decide)).mpr hmem
  · exact migrate_eq_self fun c hc => (hmem c).mpr (List.mem_append_right _ hc)
  · exact migrate_eq_self fun c hc => List.mem_append_right _ hc
  · obtain ⟨htanswers, ht⟩ := hreads.run ops
    obtain ⟨hfanswers, hf⟩ := hfill.run ops
    exact ⟨htanswers.trans hfanswers.symm, _, ht.lists, hf.lists⟩

section Samples

private def tallied : Durations where
  text d := String.ofList (List.replicate (Encodable.encode d) '|')
  parse s :=
    match Encodable.decode s.length with
    | some d => .ok d
    | none => .error "time: invalid duration"
  parse_text d := by
    simp only [String.length_ofList, List.length_replicate, Encodable.encodek]

private def jumbled : List String := ["volumes", "image", "ports", "id", "args"]

private def shop : Workload :=
  { id := "shop", image := "shop:3", args := some [], ports := some [⟨80, 8080, ""⟩], replicas := 3
    resources := some ⟨500, 256⟩, volumes := some [⟨"data", "/data"⟩] }

/-- A row of a version that knew no volumes, and wrote `null` for ports that were not there. -/
private def early (id : String) : LegacyRow jumbled where
  workload := { id := id, image := "old:1", volumes := some [⟨"data", "/data"⟩] }
  written := ["id", "image", "args", "ports"]
  nulls := ["ports"]
  written_sub := by decide

private def oldRows : GoMap (LegacyRow jumbled) :=
  (ExtTreeMap.empty.insert "shop" ⟨shop, jumbled, [], fun _ h => h⟩).insert "old" (early "old")

theorem migrate_preserves_workloads_jumbled :
    ∃ t m, migrate (some (legacyTable tallied (by decide : jumbled.Nodup) oldRows)) = .ok t ∧
      Lists tallied t m ∧
      m["shop"]? = some { shop with replicas := 0, resources := none } ∧
      m["old"]? = some { id := "old", image := "old:1" } := by
  have hkeyed : ∀ (k : String) (l : LegacyRow jumbled), oldRows[k]? = some l →
      l.workload.id = k := by
    intro k l hl
    rw [oldRows, lookup_insert, lookup_insert] at hl
    split_ifs at hl with hold hshop
    · rw [← Option.some.inj hl, ← hold]
      rfl
    · rw [← Option.some.inj hl, ← hshop]
      rfl
    · simp at hl
  obtain ⟨t, -, -, hmigrate, -, hlists, -⟩ :=
    migrate_preserves_workloads tallied (by decide) (by decide) (by decide) hkeyed
  refine ⟨t, _, hmigrate, hlists, ?_, ?_⟩
  · rw [ExtTreeMap.getElem?_map, ExtTreeMap.getElem?_map, oldRows,
      lookup_insert_ne _ _ (by decide), lookup_insert_self]
    rfl
  · rw [ExtTreeMap.getElem?_map, ExtTreeMap.getElem?_map, oldRows, lookup_insert_self]
    rfl

end Samples

end Smith.Migration
