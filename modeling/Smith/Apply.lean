import Smith.Manifest
import Smith.Overwrites
import Smith.Paths

set_option autoImplicit false

/-!
# Applying a directory of bundles

`Apply` loads every bundle of a directory before the first request, then writes workloads,
services and ingresses, and with `prune` deletes what no bundle declares. It reaches the
cluster through an interface, and an error ends the run. Behind the interface stands the
control plane, where a request may be refused, lost on the way or carried out without an
answer.
-/
namespace Smith
open FiniteMaps Overwrites Std

inductive FileStat where
  | found
  | missing
  | failed (e : String)

/-- The file system as it is read, with the decoder of manifest files. -/
structure Files where
  /-- The entries of a directory, with whether they are directories themselves. -/
  readDir : String → Except String (List (String × Bool))
  readFile : String → Except String String
  stat : String → FileStat
  unmarshal : String → Except String App

def hasSuffix (s suffix : String) : Bool := suffix.toList.isSuffixOf s.toList

def trimSuffix (s suffix : String) : String :=
  if hasSuffix s suffix then String.ofList (s.toList.take (s.length - suffix.length)) else s

def sortStrings (l : List String) : List String := sortSlice (fun a b => a < b) l

def manifestFiles (fs : Files) (dir : String) : Except String (List String) :=
  match fs.readDir dir with
  | .error e => .error s!"read dir {dir}: {e}"
  | .ok entries =>
    let names := (entries.filter fun e =>
      !e.2 && hasSuffix e.1 ".yaml" && !hasSuffix e.1 ".sops.yaml").map Prod.fst
    .ok (sortStrings (names.map (joinPath dir)))

structure Bundle where
  file : String
  res : Resolved
  /-- The env keys that came from the secret overlay. -/
  overlayKeys : List String := []

def loadBundle (fs : Files) (file : String) : Except String Bundle :=
  match fs.readFile file with
  | .error e => .error s!"{file}: {e}"
  | .ok data =>
    match fs.unmarshal data with
    | .error e => .error s!"{file}: parse manifest: {e}"
    | .ok app =>
      match app.resolve with
      | .error e => .error s!"{file}: {e}"
      | .ok res => .ok ⟨file, res, []⟩

def loadBundles (fs : Files) (dir : String) : Except String (List Bundle) :=
  match manifestFiles fs dir with
  | .error e => .error e
  | .ok files =>
    if files.length = 0 then .error s!"no manifests found in {dir}"
    else files.mapM (loadBundle fs)

def mergeOverlay (fs : Files) (dec : String → Except String (GoMap String)) (b : Bundle) :
    Except String Bundle :=
  let w := b.res.workload
  let overlayPath := trimSuffix b.file ".yaml" ++ ".sops.yaml"
  match fs.stat overlayPath with
  | .missing => .ok b
  | .failed e => .error s!"{w.id}: stat overlay: {e}"
  | .found =>
    match dec overlayPath with
    | .error e => .error s!"{w.id}: decrypt {overlayPath}: {e}"
    | .ok env =>
      -- an overlay value wins over the manifest's
      let merged := overwrite (w.env.getD ∅) env.toList
      .ok { b with
        res := { b.res with workload := { w with env := some merged } }
        overlayKeys := env.keys }

def resolvedBundles (fs : Files) (dec : String → Except String (GoMap String)) (dir : String) :
    Except String (List Bundle) :=
  match loadBundles fs dir with
  | .error e => .error e
  | .ok bundles => bundles.mapM (mergeOverlay fs dec)

def Request.label : Request → String
  | .applyWorkload w => s!"workload {w.id}"
  | .applyService s => s!"service {s.name}"
  | .applyIngress ing => s!"ingress {ing.host}"
  | .deleteIngress host => s!"prune ingress {host}"
  | .deleteService name => s!"prune service {name}"
  | .deleteWorkload id => s!"prune workload {id}"

def Request.done : Request → String
  | .applyWorkload w => s!"applied workload {w.id}"
  | .applyService s => s!"applied service {s.name}"
  | .applyIngress ing => s!"applied ingress {ing.host}"
  | .deleteIngress host => s!"pruned ingress {host}"
  | .deleteService name => s!"pruned service {name}"
  | .deleteWorkload id => s!"pruned workload {id}"

/-- An implementation of the interface `Cluster`. -/
structure Remote (σ : Type) where
  call : σ → Request → σ × Except String Unit
  listWorkloads : σ → Except String (List Workload)
  listServices : σ → Except String (List Service)
  listIngresses : σ → Except String (List Ingress)

/-- The state of the cluster and the lines printed so far. -/
structure Client (σ : Type) where
  state : σ
  out : List String := []

def Client.print {σ : Type} (w : Client σ) (lines : List String) : Client σ :=
  { w with out := w.out ++ lines }

structure Keys where
  workloads : List String
  services : List String
  ingresses : List String
  deriving DecidableEq, Repr

def declaredWorkloads (bundles : List Bundle) : List Workload :=
  bundles.map fun b => b.res.workload

def declaredServices (bundles : List Bundle) : List Service :=
  bundles.flatMap fun b => b.res.services

def declaredIngresses (bundles : List Bundle) : List Ingress :=
  bundles.flatMap fun b => b.res.ingresses

def desiredKeys (bundles : List Bundle) : Keys where
  workloads := (declaredWorkloads bundles).map Workload.id
  services := (declaredServices bundles).map Service.name
  ingresses := (declaredIngresses bundles).map Ingress.host

structure Delta where
  create : List String
  del : List String
  inSync : List String
  deriving DecidableEq, Repr

def delta (desired live : List String) : Delta where
  create := sortStrings (desired.filter (· ∉ live))
  del := sortStrings (live.filter (· ∉ desired))
  inSync := sortStrings (desired.filter (· ∈ live))

def planLines (bundles : List Bundle) : List String :=
  ["plan (dry run, nothing applied):"] ++
  bundles.flatMap (fun b =>
    let w := b.res.workload
    s!"  workload {w.id}  image={w.image} replicas={w.replicas}" ::
      (sortStrings (w.env.getD ∅).keys).map fun k =>
        if k ∈ b.overlayKeys then s!"    env {k}=(set from overlay)"
        else "    env " ++ k ++ "=" ++ (w.env.getD ∅).getD k "") ++
  (declaredServices bundles).map (fun s =>
    s!"  service {s.name}  port={s.port} nodePort={s.nodePort}") ++
  (declaredIngresses bundles).map fun ing =>
    s!"  ingress {ing.host} -> service {ing.service}"

def diffLines (kind : String) (d : Delta) : List String :=
  [s!"{kind}:"] ++ d.create.map (fun k => s!"  + create   {k}") ++
  d.del.map (fun k => s!"  - delete   {k}") ++
  if d.inSync.length > 0 then ["  = in sync  " ++ ", ".intercalate d.inSync] else []

namespace Remote
variable {σ : Type} (c : Remote σ)

/-- A loop of requests, left at the first error. -/
def issueAll : Client σ → List Request → Client σ × Except String Unit
  | w, [] => (w, .ok ())
  | w, r :: rs =>
    match c.call w.state r with
    | (s, .error e) => ({ w with state := s }, .error s!"{r.label}: {e}")
    | (s, .ok ()) => issueAll { state := s, out := w.out ++ [r.done] } rs

def andThen (r : Client σ × Except String Unit) (k : Client σ → Client σ × Except String Unit) :
    Client σ × Except String Unit :=
  match r with
  | (w, .ok ()) => k w
  | (w, .error e) => (w, .error e)

def liveKeys (s : σ) : Except String Keys :=
  match c.listWorkloads s, c.listServices s, c.listIngresses s with
  | .error e, _, _ => .error s!"list workloads: {e}"
  | .ok _, .error e, _ => .error s!"list services: {e}"
  | .ok _, .ok _, .error e => .error s!"list ingresses: {e}"
  | .ok ws, .ok ss, .ok is => .ok {
      workloads := ws.map Workload.id
      services := ss.map Service.name
      ingresses := is.map Ingress.host }

def prunePlan (bundles : List Bundle) (s : σ) : Except String Keys :=
  let d := desiredKeys bundles
  match c.liveKeys s with
  | .error e => .error e
  | .ok l => .ok {
      workloads := (delta d.workloads l.workloads).del
      services := (delta d.services l.services).del
      ingresses := (delta d.ingresses l.ingresses).del }

def pruneDrift (bundles : List Bundle) (w : Client σ) : Client σ × Except String Unit :=
  match c.prunePlan bundles w.state with
  | .error e => (w, .error e)
  | .ok plan =>
    -- what refers goes before what it refers to
    andThen (c.issueAll w (plan.ingresses.map .deleteIngress)) fun w =>
    andThen (c.issueAll w (plan.services.map .deleteService)) fun w =>
    c.issueAll w (plan.workloads.map .deleteWorkload)

def printPrunePlan (bundles : List Bundle) (w : Client σ) : Client σ × Except String Unit :=
  match c.prunePlan bundles w.state with
  | .error e => (w, .error e)
  | .ok plan =>
    (w.print (["prune (dry run, nothing deleted):"] ++
      plan.ingresses.map (fun h => s!"  - delete ingress {h}") ++
      plan.services.map (fun n => s!"  - delete service {n}") ++
      plan.workloads.map (fun id => s!"  - delete workload {id}")), .ok ())

def applyAll (bundles : List Bundle) (w : Client σ) : Client σ × Except String Unit :=
  andThen (c.issueAll w ((declaredWorkloads bundles).map .applyWorkload)) fun w =>
  andThen (c.issueAll w ((declaredServices bundles).map .applyService)) fun w =>
  c.issueAll w ((declaredIngresses bundles).map .applyIngress)

def apply (fs : Files) (dec : String → Except String (GoMap String)) (dir : String)
    (dryRun prune : Bool) (w : Client σ) : Client σ × Except String Unit :=
  match resolvedBundles fs dec dir with
  | .error e => (w, .error e)
  | .ok bundles =>
    if dryRun then
      let w := w.print (planLines bundles)
      if prune then c.printPrunePlan bundles w else (w, .ok ())
    else
      andThen (c.applyAll bundles w) fun w =>
      if prune then c.pruneDrift bundles w else (w, .ok ())

/-- The deltas that `Diff` prints, by kind. -/
def diffReport (fs : Files) (dir : String) (s : σ) : Except String (List (String × Delta)) :=
  match loadBundles fs dir with
  | .error e => .error e
  | .ok bundles =>
    let d := desiredKeys bundles
    match c.liveKeys s with
    | .error e => .error e
    | .ok l => .ok [("workloads", delta d.workloads l.workloads),
        ("services", delta d.services l.services), ("ingresses", delta d.ingresses l.ingresses)]

def diff (fs : Files) (dir : String) (w : Client σ) : Client σ × Except String Unit :=
  match c.diffReport fs dir w.state with
  | .error e => (w, .error e)
  | .ok report => (w.print (report.flatMap fun e => diffLines e.1 e.2), .ok ())

end Remote

/-! ### The control plane -/

/-- What becomes of a request on its way to the control plane and back. -/
inductive Fate where
  | served
  | lost (e : String)
  | unanswered (e : String)

structure Net where
  /-- The fate of the request after `n` earlier ones. -/
  call : ℕ → Fate
  listWorkloads : Option String := none
  listServices : Option String := none
  listIngresses : Option String := none

/-- The stores, and the requests so far with the stores each left. -/
structure Recorded where
  stores : Stores
  history : List (Request × Stores) := []

namespace Recorded

def record (s : Recorded) (r : Request) (st : Stores) : Recorded where
  stores := st
  history := s.history ++ [(r, st)]

def call (net : Net) (s : Recorded) (r : Request) : Recorded × Except String Unit :=
  match net.call s.history.length, r.exec s.stores with
  | .served, .ok st => (s.record r st, .ok ())
  | .served, .error e => (s.record r s.stores, .error e)
  | .lost e, _ => (s.record r s.stores, .error e)
  -- executed, but the client sees an error
  | .unanswered e, .ok st => (s.record r st, .error e)
  | .unanswered e, .error _ => (s.record r s.stores, .error e)

end Recorded

/-- The control plane behind a network. -/
def Remote.controlPlane (net : Net) : Remote Recorded where
  call := Recorded.call net
  listWorkloads s := match net.listWorkloads with
    | some e => .error e
    | none => .ok (s.stores.workloads.list.toList.map Prod.snd)
  listServices s := match net.listServices with
    | some e => .error e
    | none => .ok s.stores.services.list
  listIngresses s := match net.listIngresses with
    | some e => .error e
    | none => .ok s.stores.ingresses.list

/-- A run of the client against the control plane. -/
abbrev Session := Client Recorded

def Session.start (st : Stores) : Session := { state := { stores := st } }

abbrev Client.stores (w : Session) : Stores := w.state.stores

abbrev Client.history (w : Session) : List (Request × Stores) := w.state.history

@[simp] theorem Session.history_start (st : Stores) : (Session.start st).history = [] := rfl

def apply (net : Net) (fs : Files) (dec : String → Except String (GoMap String)) (dir : String)
    (dryRun prune : Bool) (w : Session) : Session × Except String Unit :=
  (Remote.controlPlane net).apply fs dec dir dryRun prune w

def diffReport (net : Net) (fs : Files) (dir : String) (st : Stores) :
    Except String (List (String × Delta)) :=
  (Remote.controlPlane net).diffReport fs dir { stores := st }

section Samples

/-- A directory that holds the given bundles and no overlay. -/
def Files.ofBundles (apps : List (String × App)) : Files where
  readDir _ := .ok (apps.map fun a => (a.1, false))
  readFile path := .ok path
  stat _ := .missing
  unmarshal data :=
    match apps.find? fun a => hasSuffix data a.1 with
    | some a => .ok a.2
    | none => .error "no such bundle"

def Net.healthy : Net where
  call _ := .served

def Stores.empty : Stores := ⟨.new, .new, ⟨∅⟩⟩

end Samples
end Smith
