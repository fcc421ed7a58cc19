import Smith.DesiredState
import Smith.Json
import Smith.Runs

set_option autoImplicit false

/-!
# The SQLite workload store

A workload is kept as a row of ten columns, five of them JSON texts that are empty where the
workload has nothing to say. SQLite is a table keyed by id, and durations are written as texts
that read back. The store answers as the in-memory one does and lists the same workloads, with
empty ports, environments, volumes and probe commands come back as nil.
-/
namespace Smith
open FiniteMaps Json Overwrites Runs Std

/-- `Duration.String` and `time.ParseDuration`. -/
structure Durations where
  text : ℤ → String
  parse : String → Except String ℤ
  parse_text : ∀ d, parse (text d) = .ok d

/-- A row of `workloads`. The columns that a migration added may be NULL. -/
structure WorkloadRow (Text : Type) where
  id : String
  image : String
  args : Text
  healthCheck : Option Text
  ports : Option Text
  env : Option Text
  resources : Option Text
  replicas : Option ℤ
  maxUnavailable : Option ℤ
  volumes : Option Text

/-- The columns that `ON CONFLICT(id) DO UPDATE` sets. -/
def WorkloadRow.update {Text : Type} (old excluded : WorkloadRow Text) : WorkloadRow Text :=
  { old with
    image := excluded.image
    args := excluded.args
    healthCheck := excluded.healthCheck
    ports := excluded.ports
    env := excluded.env
    resources := excluded.resources
    replicas := excluded.replicas
    maxUnavailable := excluded.maxUnavailable
    volumes := excluded.volumes }

structure SqliteStore (Text : Type) where
  rows : GoMap (WorkloadRow Text)
  keyed : ∀ (id : String) (r : WorkloadRow Text), rows[id]? = some r → r.id = id

section Marshal
variable (dur : Durations)

def Volume.marshal (v : Volume) : Value := .obj [("name", .str v.name), ("path", .str v.path)]

def Volume.unmarshal : Value → Except String Volume :=
  object ⟨"", ""⟩ fun fields =>
    return ⟨← field string "" "name" fields, ← field string "" "path" fields⟩

def PortMapping.marshal (p : PortMapping) : Value :=
  .obj ([("host_port", .num p.hostPort), ("container_port", .num p.containerPort)] ++
    omitEmpty (p.protocol = "") "protocol" (.str p.protocol))

def PortMapping.unmarshal : Value → Except String PortMapping :=
  object ⟨0, 0, ""⟩ fun fields =>
    return ⟨← field int 0 "host_port" fields, ← field int 0 "container_port" fields,
      ← field string "" "protocol" fields⟩

def Resources.marshal (r : Resources) : Value :=
  .obj (omitEmpty (r.cpuMillicores = 0) "cpu_millicores" (.num r.cpuMillicores) ++
    omitEmpty (r.memoryMB = 0) "memory_mb" (.num r.memoryMB))

def Resources.unmarshal : Value → Except String Resources :=
  object ⟨0, 0⟩ fun fields =>
    return ⟨← field int 0 "cpu_millicores" fields, ← field int 0 "memory_mb" fields⟩

def Durations.unmarshal : Value → Except String ℤ := fun v => do dur.parse (← string v)

def HealthCheck.marshal (hc : HealthCheck) : Value :=
  let command := hc.command.getD []
  .obj ([("type", .str hc.type)] ++
    omitEmpty command.isEmpty "command" (.arr (command.map .str)) ++
    omitEmpty (hc.url = "") "url" (.str hc.url) ++
    [("initial_delay", .str (dur.text hc.initialDelay)), ("interval", .str (dur.text hc.interval)),
      ("threshold", .num hc.threshold)])

def HealthCheck.unmarshal : Value → Except String HealthCheck :=
  object ⟨"", none, "", 0, 0, 0⟩ fun fields =>
    return {
      type := ← field string "" "type" fields
      command := ← field (slice string) none "command" fields
      url := ← field string "" "url" fields
      initialDelay := ← field dur.unmarshal 0 "initial_delay" fields
      interval := ← field dur.unmarshal 0 "interval" fields
      threshold := ← field int 0 "threshold" fields }

def marshalArgs : Option (List String) → Value
  | none => .null
  | some args => .arr (args.map .str)

def marshalEnv (env : GoMap String) : Value := .obj (env.toList.map fun e => (e.1, .str e.2))

theorem Volume.unmarshal_marshal (v : Volume) : Volume.unmarshal v.marshal = .ok v := rfl

theorem PortMapping.unmarshal_marshal (p : PortMapping) :
    PortMapping.unmarshal p.marshal = .ok p := by
  obtain ⟨hostPort, containerPort, protocol⟩ := p
  by_cases h : protocol = ""
  · subst h
    rfl
  · simp only [marshal, omitEmpty, h, decide_false, Bool.false_eq_true, if_false]
    rfl

theorem Resources.unmarshal_marshal (r : Resources) : Resources.unmarshal r.marshal = .ok r := by
  obtain ⟨cpu, memory⟩ := r
  by_cases hc : cpu = 0 <;> by_cases hm : memory = 0 <;>
    simp only [marshal, omitEmpty, hc, hm, decide_true, decide_false, Bool.false_eq_true, if_true,
      if_false] <;> rfl

/-- The probe with an empty command as none. -/
def HealthCheck.normalize (hc : HealthCheck) : HealthCheck :=
  { hc with command := hc.command.filter fun l => !l.isEmpty }

theorem HealthCheck.unmarshal_marshal (hc : HealthCheck) :
    HealthCheck.unmarshal dur (hc.marshal dur) = .ok hc.normalize := by
  obtain ⟨type, command, url, delay, interval, threshold⟩ := hc
  have hdur (d : ℤ) : dur.unmarshal (.str (dur.text d)) = .ok d := dur.parse_text d
  have hcommand (l : List String) : slice string (.arr (l.map .str)) = .ok (some l) :=
    @slice_arr String .str string (fun _ => rfl) l
  have hcons (a : String) (l : List String) :
      slice string (.arr (.str a :: l.map .str)) = .ok (some (a :: l)) := hcommand (a :: l)
  -- the two fields that may be left out
  by_cases hu : url = "" <;> rcases command with - | (- | ⟨a, l⟩)
  all_goals
    simp [marshal, unmarshal, normalize, omitEmpty, hu, object, field, List.lookup, hdur, hcons,
      string, int, bind, Except.bind, pure, Except.pure, Option.filter_some]

end Marshal

/-- Nil where the source does not tell nil from empty. -/
def Workload.normalize (w : Workload) : Workload :=
  { w with
    healthCheck := w.healthCheck.map HealthCheck.normalize
    ports := w.ports.filter fun l => 0 < l.length
    env := w.env.filter fun m => 0 < m.size
    volumes := w.volumes.filter fun l => 0 < l.length }

namespace SqliteStore
variable {Text : Type} (enc : Encoding Text) (dur : Durations)

def new : SqliteStore Text := ⟨∅, by simp⟩

/-- The values of the insert. -/
def row (w : Workload) : WorkloadRow Text where
  id := w.id
  image := w.image
  args := enc.marshal (marshalArgs w.args)
  healthCheck := some (match w.healthCheck with
    | some hc => enc.marshal (hc.marshal dur)
    | none => enc.empty)
  ports := some (if 0 < (w.ports.getD []).length then
    enc.marshal (.arr ((w.ports.getD []).map PortMapping.marshal)) else enc.empty)
  env := some (if 0 < (w.env.getD ∅).size then enc.marshal (marshalEnv (w.env.getD ∅))
    else enc.empty)
  resources := some (match w.resources with
    | some r => enc.marshal r.marshal
    | none => enc.empty)
  replicas := some w.replicas
  maxUnavailable := some w.maxUnavailable
  volumes := some (if 0 < (w.volumes.getD []).length then
    enc.marshal (.arr ((w.volumes.getD []).map Volume.marshal)) else enc.empty)

theorem keyed_insert {rows : GoMap (WorkloadRow Text)}
    (h : ∀ (id : String) (r : WorkloadRow Text), rows[id]? = some r → r.id = id) {k : String}
    {r : WorkloadRow Text} (hk : r.id = k) (id : String) (x : WorkloadRow Text)
    (hx : (rows.insert k r)[id]? = some x) : x.id = id := by
  rw [lookup_insert] at hx
  split_ifs at hx with hid
  · rw [← Option.some.inj hx]
    exact hk.trans hid
  · exact h id x hx

def upsert (s : SqliteStore Text) (r : WorkloadRow Text) : SqliteStore Text :=
  match hrow : s.rows[r.id]? with
  | none => ⟨s.rows.insert r.id r, keyed_insert s.keyed rfl⟩
  | some old => ⟨s.rows.insert r.id (old.update r), keyed_insert s.keyed (s.keyed r.id old hrow)⟩

def add (s : SqliteStore Text) (w : Workload) : Except String (SqliteStore Text) :=
  if w.id = "" then .error "workload ID cannot be empty"
  else if w.image = "" then .error s!"workload {w.id}: image cannot be empty"
  else .ok (s.upsert (row enc dur w))

def remove (s : SqliteStore Text) (id : String) : SqliteStore Text where
  rows := s.rows.erase id
  keyed k r h := by
    rw [lookup_erase] at h
    split_ifs at h
    exact s.keyed k r h

section Read
variable [DecidableEq Text]

/-- A JSON column, left at its zero value where the text is empty or `null`. -/
def column {α : Type} (decode : Value → Except String α) (zero : α) (what id : String)
    (col : Option Text) : Except String α :=
  let text := col.getD enc.empty
  if text ≠ enc.empty ∧ text ≠ enc.null then
    match enc.unmarshal text >>= decode with
    | .error e => .error s!"unmarshal {what} for {id}: {e}"
    | .ok a => .ok a
  else .ok zero

def readArgs (r : WorkloadRow Text) : Except String (Option (List String)) :=
  match enc.unmarshal r.args >>= slice string with
  | .error e => .error s!"unmarshal args for {r.id}: {e}"
  | .ok args => .ok args

def readRow (r : WorkloadRow Text) : Except String Workload :=
  return {
    id := r.id
    image := r.image
    args := ← readArgs enc r
    healthCheck := ← column enc (fun v => (HealthCheck.unmarshal dur v).map some) none
      "health check" r.id r.healthCheck
    ports := ← column enc (slice PortMapping.unmarshal) none "ports" r.id r.ports
    env := ← column enc (Json.map string) none "env" r.id r.env
    resources := ← column enc (fun v => (Resources.unmarshal v).map some) none
      "resources" r.id r.resources
    replicas := r.replicas.getD 0
    maxUnavailable := r.maxUnavailable.getD 0
    volumes := ← column enc (slice Volume.unmarshal) none "volumes" r.id r.volumes }

def readRows (rows : List (WorkloadRow Text)) : Except String (GoMap Workload) :=
  (rows.mapM (readRow enc dur)).map fun ws => overwrite ∅ (ws.map fun w => (w.id, w))

def select (s : SqliteStore Text) : List (WorkloadRow Text) := s.rows.toList.map Prod.snd

variable {enc} {dur} {α : Type} {decode : Value → Except String α} {zero : α} {what id : String}

theorem column_empty : column enc decode zero what id (some enc.empty) = .ok zero := by
  simp [column]

theorem column_marshal {v : Value} (hv : v ≠ .null) {a : α} (h : decode v = .ok a) :
    column enc decode zero what id (some (enc.marshal v)) = .ok a := by
  have hbind : enc.unmarshal (enc.marshal v) >>= decode = .ok a := by
    rw [enc.unmarshal_marshal]
    exact h
  have htext : enc.marshal v ≠ enc.empty ∧ enc.marshal v ≠ enc.null :=
    ⟨enc.marshal_ne_empty v, fun hn => hv ((enc.marshal_eq_null_iff v).mp hn)⟩
  simp only [column, Option.getD_some, if_pos htext, hbind]

/-- A list column that is written where the list has elements. -/
theorem column_list {β : Type} {marshal : β → Value} {unmarshal : Value → Except String β}
    (h : ∀ b, unmarshal (marshal b) = .ok b) (l : Option (List β)) :
    column enc (slice unmarshal) none what id (some (if 0 < (l.getD []).length then
      enc.marshal (.arr ((l.getD []).map marshal)) else enc.empty)) =
        .ok (l.filter fun l => 0 < l.length) := by
  rcases l with - | (- | ⟨b, l⟩)
  · exact column_empty
  · exact column_empty
  · rw [Option.getD_some, if_pos (by simp), column_marshal (by simp) (slice_arr h (b :: l))]
    rfl

theorem column_env (m : Option (GoMap String)) :
    column enc (Json.map string) none what id (some (if 0 < (m.getD ∅).size then
      enc.marshal (marshalEnv (m.getD ∅)) else enc.empty)) =
        .ok (m.filter fun m => 0 < m.size) := by
  cases m with
  | none => exact column_empty
  | some m =>
    rw [Option.getD_some, Option.filter_some]
    by_cases hm : 0 < m.size
    · rw [if_pos hm, if_pos (by simpa using hm), marshalEnv,
        column_marshal (by simp) (@map_obj String .str string (fun _ => rfl) m)]
    · rw [if_neg hm, if_neg (by simpa using hm), column_empty]

theorem readRow_row (w : Workload) : readRow enc dur (row enc dur w) = .ok w.normalize := by
  have hargs : readArgs enc (row enc dur w) = .ok w.args := by
    have harr (l : List String) : slice string (.arr (l.map .str)) = .ok (some l) :=
      @slice_arr String .str string (fun _ => rfl) l
    simp only [readArgs, row, enc.unmarshal_marshal]
    cases w.args with
    | none => rfl
    | some l => simp only [marshalArgs, bind, Except.bind, harr]
  have hcheck : column enc (fun v => (HealthCheck.unmarshal dur v).map some) none "health check"
      w.id (row enc dur w).healthCheck = .ok (w.healthCheck.map HealthCheck.normalize) := by
    simp only [row]
    cases w.healthCheck with
    | none => exact column_empty
    | some hc =>
      refine column_marshal (by simp [HealthCheck.marshal]) ?_
      rw [HealthCheck.unmarshal_marshal]
      rfl
  have hresources : column enc (fun v => (Resources.unmarshal v).map some) none "resources"
      w.id (row enc dur w).resources = .ok w.resources := by
    simp only [row]
    cases w.resources with
    | none => exact column_empty
    | some r =>
      refine column_marshal (by simp [Resources.marshal]) ?_
      rw [Resources.unmarshal_marshal]
      rfl
  have hid : (row enc dur w).id = w.id := rfl
  have hports : column enc (slice PortMapping.unmarshal) none "ports" w.id (row enc dur w).ports =
      .ok (w.ports.filter fun l => 0 < l.length) :=
    column_list PortMapping.unmarshal_marshal w.ports
  have hvolumes : column enc (slice Volume.unmarshal) none "volumes" w.id (row enc dur w).volumes =
      .ok (w.volumes.filter fun l => 0 < l.length) :=
    column_list Volume.unmarshal_marshal w.volumes
  have henv : column enc (Json.map string) none "env" w.id (row enc dur w).env =
      .ok (w.env.filter fun m => 0 < m.size) := column_env w.env
  unfold readRow
  rw [hargs, hid, hcheck, hports, henv, hresources, hvolumes]
  rfl

end Read

inductive Op where
  | add (w : Workload)
  | remove (id : String)

/-- A call with its answer. A rejected `Add` changes nothing. -/
def step (s : SqliteStore Text) : Op → SqliteStore Text × Except String Unit
  | .add w =>
    match s.add enc dur w with
    | .error e => (s, .error e)
    | .ok s' => (s', .ok ())
  | .remove id => (s.remove id, .ok ())

end SqliteStore

/-- The same calls on the in-memory store. -/
def Store.step (s : Store) : SqliteStore.Op → Store × Except String Unit
  | .add w =>
    match s.add w with
    | .error e => (s, .error e)
    | .ok s' => (s', .ok ())
  | .remove id => (s.remove id, .ok ())

namespace SqliteStore
variable {Text : Type} {enc : Encoding Text} {dur : Durations}

theorem rows_upsert (s : SqliteStore Text) (w : Workload) :
    (s.upsert (row enc dur w)).rows = s.rows.insert w.id (row enc dur w) := by
  unfold upsert
  split
  · rfl
  · rename_i old hold
    have hid : old.id = w.id := s.keyed _ old hold
    have hrow : old.update (row enc dur w) = row enc dur w := by
      simp only [WorkloadRow.update, hid]
      rfl
    exact congrArg (s.rows.insert w.id) hrow

/-- The table holds the rows of the workloads in memory. -/
def Refines (enc : Encoding Text) (dur : Durations) (db : SqliteStore Text) (s : Store) : Prop :=
  db.rows = s.list.map fun _ w => row enc dur w

theorem Refines.step {db : SqliteStore Text} {s : Store} (h : Refines enc dur db s) (op : Op) :
    (db.step enc dur op).2 = (s.step op).2 ∧
      Refines enc dur (db.step enc dur op).1 (s.step op).1 := by
  cases op with
  | remove id =>
    refine ⟨rfl, ExtTreeMap.ext_getElem? fun k => ?_⟩
    have hk := congrArg (fun m : GoMap (WorkloadRow Text) => m[k]?) h
    simp only [ExtTreeMap.getElem?_map, SqliteStore.step, SqliteStore.remove, Store.step,
      Store.list, Store.remove] at hk ⊢
    rw [lookup_erase, lookup_erase, hk]
    split_ifs
    · rfl
    · rfl
  | add w =>
    simp only [SqliteStore.step, Store.step, SqliteStore.add, Store.add]
    by_cases hid : w.id = ""
    · simp only [hid, if_true, dif_pos, true_and]
      exact h
    by_cases himage : w.image = ""
    · simp only [hid, himage, if_true, if_false, dif_pos, dif_neg, not_false_eq_true, true_and]
      exact h
    · simp only [hid, himage, if_false, dif_neg, not_false_eq_true, true_and]
      refine ExtTreeMap.ext_getElem? fun k => ?_
      have hk := congrArg (fun m : GoMap (WorkloadRow Text) => m[k]?) h
      simp only [ExtTreeMap.getElem?_map, Store.list] at hk
      rw [rows_upsert, ExtTreeMap.getElem?_map, Store.list, lookup_insert, lookup_insert, hk]
      split_ifs
      · rfl
      · rfl

/-- In whatever order the query gives the rows, they are read back as the workloads in memory. -/
theorem Refines.readRows [DecidableEq Text] {db : SqliteStore Text} {s : Store}
    (h : Refines enc dur db s) {rows : List (WorkloadRow Text)} (hperm : rows.Perm db.select) :
    readRows enc dur rows = .ok (s.list.map fun _ w => w.normalize) := by
  -- what a row of the table is read as
  let read (r : WorkloadRow Text) : Workload :=
    (readRow enc dur r).toOption.getD { id := "", image := "" }
  have hread (w : Workload) : read (row enc dur w) = w.normalize := by
    simp only [read, readRow_row]
    rfl
  have hselect : db.select = s.list.toList.map fun e => row enc dur e.2 := by
    rw [select, h, ExtTreeMap.toList_map, List.map_map]
    rfl
  have hrows : ∀ r ∈ rows, readRow enc dur r = .ok (read r) := by
    intro r hr
    rw [hperm.mem_iff, hselect] at hr
    obtain ⟨e, -, rfl⟩ := List.mem_map.mp hr
    rw [hread, readRow_row]
  have hentries : (db.select.map read).map (fun w => (w.id, w)) =
      (s.list.map fun _ w => w.normalize).toList := by
    rw [hselect, ExtTreeMap.toList_map, List.map_map, List.map_map]
    refine List.map_congr_left fun e he => ?_
    rw [ExtTreeMap.mem_toList_iff_getElem?_eq_some] at he
    simp only [Function.comp, hread]
    exact congrArg (·, e.2.normalize) (s.valid e.1 e.2 he).1
  rw [SqliteStore.readRows, mapM_ok hrows]
  exact congrArg Except.ok (overwrite_perm (hentries ▸ (hperm.map read).map _))

/-- The SQLite store answers every call as the in-memory store does, and lists the same
    workloads up to nil and empty. -/
theorem sqlite_refines_store [DecidableEq Text] (enc : Encoding Text) (dur : Durations)
    (ops : List Op) :
    let db := run (fun s op => (step enc dur s op).1) new ops
    let mem := run (fun s op => (Store.step s op).1) Store.new ops
    answers (step enc dur) new ops = answers Store.step Store.new ops ∧
      ∀ rows, rows.Perm db.select →
        SqliteStore.readRows enc dur rows = .ok (mem.list.map fun _ w => w.normalize) := by
  intro db mem
  have hnew : Refines enc dur (new : SqliteStore Text) Store.new := by
    apply ExtTreeMap.ext_getElem?
    intro k
    simp [new, Store.new, Store.list]
  obtain ⟨hanswers, hrun⟩ := simulates (R := Refines enc dur) (f := step enc dur)
    (g := Store.step) (fun db s op h => h.step op) hnew ops
  exact ⟨hanswers, fun rows hperm => hrun.readRows hperm⟩

section Samples

private def plain : Encoding (Option Value) where
  empty := none
  null := some .null
  marshal := some
  unmarshal
    | none => .error "unexpected end of JSON input"
    | some v => .ok v
  unmarshal_marshal _ := rfl
  marshal_null := rfl
  marshal_ne_empty _ := Option.some_ne_none _

private def decimal : Durations where
  text d := String.ofList ((if d < 0 then '-' else '+') :: Nat.toDigits 10 d.natAbs)
  parse s :=
    let n : ℤ := Nat.ofDigitChars 10 s.toList.tail 0
    .ok (if s.toList.head? = some '-' then -n else n)
  parse_text d := by
    simp only [String.toList_ofList, List.tail_cons, List.head?_cons, Option.some.injEq,
      Nat.ofDigitChars_ten_toDigits, Except.ok.injEq]
    split_ifs with h hs
    · omega
    · exact absurd rfl hs
    · rename_i hs
      exact absurd hs (by decide)
    · omega

/-- An update that drops every optional field. -/
theorem sqlite_refines_store_dropped_fields :
    let web : Workload := {
      id := "web", image := "nginx:1", args := some ["-g"], ports := some [⟨80, 8080, "tcp"⟩]
      resources := some ⟨500, 256⟩, replicas := 3, volumes := some [⟨"data", "/data"⟩]
      healthCheck := some ⟨"exec", some ["true"], "", 1000, 5000, 3⟩ }
    let bare : Workload := { id := "web", image := "nginx:2", ports := some [] }
    let ops : List Op := [.add web, .add { web with image := "" }, .add bare]
    ∃ listed : GoMap Workload,
      @readRows _ plain decimal (Classical.decEq _)
        (run (fun s op => (step plain decimal s op).1) new ops).select = .ok listed ∧
      listed["web"]? = some { bare with ports := none } := by
  intro web bare ops
  obtain ⟨-, hread⟩ := @sqlite_refines_store _ (Classical.decEq _) plain decimal ops
  refine ⟨_, hread _ (.refl _), ?_⟩
  have hadd : ∀ s : Store, (s.step (.add bare)).1.list["web"]? = some bare := by
    intro s
    exact lookup_insert_self _ _ _
  rw [ExtTreeMap.getElem?_map]
  exact congrArg (Option.map Workload.normalize) (hadd _)

end Samples

end SqliteStore
end Smith
