import Smith.Commands
import Smith.FiniteMaps
import Smith.Paths
import Smith.Types

set_option autoImplicit false

/-!
# Issuing certificates

`gencerts` keeps the authority it finds in its directory and issues a pair of files for the
server and for each agent host, named after the host's first label. The pairs are those of the
hosts they were issued for exactly if no label is shared, with another host or with the files of
the authority and the server; what is written last stays.
-/
namespace Smith.GenCerts
open Commands FiniteMaps
open Std (ExtTreeMap)

/-- A certificate by the hosts it names, the key that signed it and the key it is for. Keys are
    numbered as they are generated. -/
structure Certificate where
  hosts : List String
  issuer : ℕ
  key : ℕ
  deriving DecidableEq, Repr

/-- The contents of a file. A write that fails on its way leaves a torn one. -/
inductive File where
  | cert (c : Certificate)
  | key (k : ℕ)
  | text (bytes : String)
  | torn
  deriving DecidableEq, Repr

/-- The files by their cleaned paths, the paths that cannot be examined although there may be a
    file, and the number of the next key. -/
structure Disk where
  files : GoMap File
  unseen : List String
  nextKey : ℕ

namespace Disk

def put (d : Disk) (path : String) (f : File) : Disk := { d with files := d.files.insert path f }

def fileExists (d : Disk) (path : String) : Bool :=
  decide (path ∈ d.files) && decide (path ∉ d.unseen)

end Disk

abbrev Program (α : Type) := Prog String Disk α

section Programs
variable {α : Type}

def labelled (what : String) (p : Program α) : Program α :=
  EStateM.adaptExcept (fun e => s!"{what}: {e}") p

def call (a : α) : Program α := command fun d => .ok (a, d)

def readFile (path : String) : Program File :=
  command fun d =>
    match d.files[path]? with
    | none => .error s!"open {path}: no such file or directory"
    | some f => .ok (f, d)

/-- The file is truncated before it is written. -/
def writeFile (path : String) (data : File) : Program Unit := do
  command fun d => .ok ((), d.put path .torn)
  command fun d => .ok ((), d.put path data)

def generateKey : Program ℕ :=
  command fun d => .ok (d.nextKey, { d with nextKey := d.nextKey + 1 })

def parseCertificate (path : String) : File → Except String Certificate
  | .cert c => .ok c
  | .key _ => .error s!"parse {path}: not a certificate"
  | _ => .error s!"decode {path}: not PEM"

def parseECPrivateKey (path : String) : File → Except String ℕ
  | .key k => .ok k
  | .cert _ => .error s!"parse {path}: not an EC private key"
  | _ => .error s!"decode {path}: not PEM"

def loadCA (certPath keyPath : String) : Program (Certificate × ℕ) := do
  let certPEM ← labelled s!"read {certPath}" (readFile certPath)
  let cert ← command fun d => (parseCertificate certPath certPEM).map fun cert => (cert, d)
  let keyPEM ← labelled s!"read {keyPath}" (readFile keyPath)
  let key ← command fun d => (parseECPrivateKey keyPath keyPEM).map fun key => (key, d)
  pure (cert, key)

/-- A new authority signs its own certificate, which names no host. -/
def createCA (caCrtPath caKeyPath : String) : Program (Certificate × ℕ) := do
  let caKey ← labelled "gencerts: generate CA key" generateKey
  let caCert ← labelled "gencerts: create CA cert" (call ⟨[], caKey, caKey⟩)
  labelled s!"gencerts: write {caCrtPath}" (writeFile caCrtPath (.cert caCert))
  labelled "gencerts: marshal key" (call ())
  labelled s!"gencerts: write {caKeyPath}" (writeFile caKeyPath (.key caKey))
  labelled "gencerts: parse CA cert" (call ())
  pure (caCert, caKey)

def loadOrCreateCA (dir : String) (forceNew : Bool) : Program (Certificate × ℕ) := do
  let caCrtPath := joinPath dir "ca.crt"
  let caKeyPath := joinPath dir "ca.key"
  let found ← asks fun d => !forceNew && d.fileExists caCrtPath && d.fileExists caKeyPath
  if found then labelled "gencerts: load existing CA" (loadCA caCrtPath caKeyPath)
  else createCA caCrtPath caKeyPath

def createCertificate (hosts : List String) (parent : Certificate) (key parentKey : ℕ) :
    Program Certificate :=
  command fun d =>
    if parent.key = parentKey then .ok (⟨hosts, parentKey, key⟩, d)
    else .error "x509: provided PrivateKey doesn't match parent's PublicKey"

def issueCert (ca : Certificate) (caKey : ℕ) (hosts : List String) :
    Program (Certificate × ℕ) := do
  let host := hosts.headD ""
  let key ← labelled s!"gencerts: generate key for {host}" generateKey
  let cert ← labelled s!"gencerts: create cert for {host}" (createCertificate hosts ca key caKey)
  labelled s!"gencerts: marshal key for {host}" (call ())
  pure (cert, key)

def certPath (out name : String) : String := joinPath out (name ++ ".crt")

def keyPath (out name : String) : String := joinPath out (name ++ ".key")

def generateCert (out name : String) (ca : Certificate) (caKey : ℕ) (hosts : List String) :
    Program Unit := do
  let (cert, key) ← issueCert ca caKey hosts
  labelled s!"gencerts: write {name}.crt" (writeFile (certPath out name) (.cert cert))
  labelled s!"gencerts: write {name}.key" (writeFile (keyPath out name) (.key key))

end Programs

section Hosts

def isSpace (c : Char) : Bool :=
  let n := c.toNat
  decide (9 ≤ n ∧ n ≤ 13 ∨ n = 0x20 ∨ n = 0x85 ∨ n = 0xA0 ∨ n = 0x1680 ∨
    0x2000 ≤ n ∧ n ≤ 0x200A ∨ n = 0x2028 ∨ n = 0x2029 ∨ n = 0x202F ∨ n = 0x205F ∨ n = 0x3000)

def trimSpace (s : String) : String :=
  String.ofList ((s.toList.dropWhile isSpace).reverse.dropWhile isSpace).reverse

def splitHosts (s : String) : List String :=
  ((s.toList.splitOn ',').map fun h => trimSpace (String.ofList h)).filter (· ≠ "")

def sanitizeName (host : String) : String := String.ofList (host.toList.takeWhile (· ≠ '.'))

def defaultPublicDomain : String := "smith-server-01.kkjorsvik.com"

def publicDomain (env : String) : String :=
  if trimSpace env ≠ "" then trimSpace env else defaultPublicDomain

end Hosts

structure Flags where
  out : String := "/etc/smith/certs"
  hosts : String := ""
  domain : String
  forceCA : Bool := false

def Flags.defaults (env : String) : Flags := { domain := publicDomain env }

def runGenCerts (flags : Flags) : Program Unit := do
  labelled s!"gencerts: mkdir {flags.out}" (call ())
  let (caCert, caKey) ← loadOrCreateCA flags.out flags.forceCA
  generateCert flags.out "server" caCert caKey [flags.domain]
  (splitHosts flags.hosts).forM fun host =>
    generateCert flags.out (sanitizeName host) caCert caKey [host]

section Paths
variable (out : String)

theorem pair_stem (name : String) :
    ∃ stem, certPath out name = stem ++ ".crt" ∧ keyPath out name = stem ++ ".key" := by
  obtain ⟨stem, hstem⟩ := joinPath_extension out name
  exact ⟨stem, hstem ".crt" (by decide) (by decide), hstem ".key" (by decide) (by decide)⟩

theorem joinPath_ca_crt : joinPath out "ca.crt" = certPath out "ca" :=
  congrArg (joinPath out) (by decide)

theorem joinPath_ca_key : joinPath out "ca.key" = keyPath out "ca" :=
  congrArg (joinPath out) (by decide)

theorem keyPath_eq_iff (a b : String) :
    keyPath out a = keyPath out b ↔ certPath out a = certPath out b := by
  obtain ⟨s, hs, hs'⟩ := pair_stem out a
  obtain ⟨t, ht, ht'⟩ := pair_stem out b
  rw [hs, hs', ht, ht', String.append_left_inj, String.append_left_inj]

theorem certPath_ne_keyPath (a b : String) : certPath out a ≠ keyPath out b := by
  obtain ⟨s, hs, -⟩ := pair_stem out a
  obtain ⟨t, -, ht⟩ := pair_stem out b
  rw [hs, ht]
  intro h
  have hlast := congrArg (fun s : String => s.toList.getLast?) h
  simp [String.toList_append] at hlast

/-- Names that are no paths are told apart by their files. -/
theorem certPath_inj {a b : String} (ha : '/' ∉ a.toList) (hb : '/' ∉ b.toList) :
    certPath out a = certPath out b ↔ a = b := by
  obtain ⟨stem, hstem⟩ := joinPath_extension out ""
  have hpath (name : String) (h : '/' ∉ name.toList) :
      certPath out name = stem ++ (name ++ ".crt") := by
    refine (congrArg (joinPath out) String.empty_append.symm).trans (hstem _ ?_ ?_)
    · simpa using h
    · rw [String.length_append]
      exact le_add_left (by decide)
  rw [hpath a ha, hpath b hb, String.append_right_inj, String.append_left_inj]

end Paths

/-- What a finished issue leaves. -/
def Disk.issue (d : Disk) (out name : String) (issuer : ℕ) (hosts : List String) : Disk where
  files := (d.files.insert (certPath out name) (.cert ⟨hosts, issuer, d.nextKey⟩)).insert
    (keyPath out name) (.key d.nextKey)
  unseen := d.unseen
  nextKey := d.nextKey + 1

/-- The names of the pairs, each with the host it is issued for. -/
def identities (flags : Flags) : List (String × String) :=
  ("server", flags.domain) :: (splitHosts flags.hosts).map fun host => (sanitizeName host, host)

def Disk.issueAll (d : Disk) (out : String) (issuer : ℕ) (ids : List (String × String)) : Disk :=
  ids.foldl (fun d e => d.issue out e.1 issuer [e.2]) d

/-- The directory holds an authority: a certificate and its key, both of them there to be
    found. Keys that are generated later are others. -/
structure HoldsCA (d : Disk) (out : String) (ca : Certificate) : Prop where
  cert : d.files[certPath out "ca"]? = some (.cert ca)
  key : d.files[keyPath out "ca"]? = some (.key ca.key)
  seen : certPath out "ca" ∉ d.unseen ∧ keyPath out "ca" ∉ d.unseen
  old : ca.key < d.nextKey

section Runs
variable {d : Disk}

theorem writeFile_yields (path : String) (f : File) :
    Yields d (writeFile path f) () (d.put path f) := by
  have htorn : (d.put path .torn).put path f = d.put path f := by
    simp only [Disk.put, insert_insert]
  exact htorn ▸ (Yields.command rfl).bind (Yields.command rfl)

theorem call_yields {α : Type} (a : α) : Yields d (call a) a d := Yields.command rfl

theorem issueCert_yields (ca : Certificate) (hosts : List String) :
    Yields d (issueCert ca ca.key hosts) (⟨hosts, ca.key, d.nextKey⟩, d.nextKey)
      { d with nextKey := d.nextKey + 1 } := by
  have hkey : Yields d generateKey d.nextKey { d with nextKey := d.nextKey + 1 } := .command rfl
  have hcert (s : Disk) (k : ℕ) :
      Yields s (createCertificate hosts ca k ca.key) ⟨hosts, ca.key, k⟩ s :=
    Yields.command (if_pos rfl)
  refine (hkey.label _).bind (((hcert _ _).label _).bind ?_)
  exact ((call_yields _).label _).bind (Yields.pure _)

theorem generateCert_yields (out name : String) (ca : Certificate) (hosts : List String) :
    Yields d (generateCert out name ca ca.key hosts) () (d.issue out name ca.key hosts) :=
  (issueCert_yields ca hosts).bind
    (((writeFile_yields _ _).label _).bind ((writeFile_yields _ _).label _))

theorem readFile_yields {path : String} {f : File} (h : d.files[path]? = some f) :
    Yields d (readFile path) f d :=
  Yields.command (by rw [h])

theorem loadCA_yields {certPath keyPath : String} {c : Certificate} {k : ℕ}
    (hcert : d.files[certPath]? = some (.cert c)) (hkey : d.files[keyPath]? = some (.key k)) :
    Yields d (loadCA certPath keyPath) (c, k) d := by
  refine ((readFile_yields hcert).label _).bind ((Yields.command rfl).bind ?_)
  exact ((readFile_yields hkey).label _).bind ((Yields.command rfl).bind (Yields.pure _))

theorem HoldsCA.found {out : String} {ca : Certificate} (h : HoldsCA d out ca) :
    (!false && d.fileExists (joinPath out "ca.crt") && d.fileExists (joinPath out "ca.key")) =
      true := by
  have hcert := ExtTreeMap.isSome_getElem?_iff_mem.mp (Option.isSome_of_eq_some h.cert)
  have hkey := ExtTreeMap.isSome_getElem?_iff_mem.mp (Option.isSome_of_eq_some h.key)
  rw [joinPath_ca_crt, joinPath_ca_key]
  simp [Disk.fileExists, hcert, hkey, h.seen]

theorem loadOrCreateCA_yields {out : String} {ca : Certificate} (h : HoldsCA d out ca) :
    Yields d (loadOrCreateCA out false) (ca, ca.key) d := by
  refine (Yields.asks _).bind ?_
  rw [if_pos h.found, joinPath_ca_crt, joinPath_ca_key]
  exact (loadCA_yields h.cert h.key).label _

theorem runGenCerts_yields {flags : Flags} {ca : Certificate} (h : HoldsCA d flags.out ca)
    (hforce : flags.forceCA = false) :
    Yields d (runGenCerts flags) () (d.issueAll flags.out ca.key (identities flags)) := by
  unfold runGenCerts
  rw [hforce]
  refine ((call_yields _).label _).bind ((loadOrCreateCA_yields h).bind ?_)
  refine (generateCert_yields _ _ _ _).bind ?_
  rw [Disk.issueAll, identities, List.foldl_cons, List.foldl_map]
  exact Yields.forM (fun s host => generateCert_yields _ _ _ _) _

end Runs

/-- The pair of this name was issued for the host, and its files belong together. -/
def Issued (d : Disk) (out : String) (issuer : ℕ) (e : String × String) : Prop :=
  ∃ k, d.files[certPath out e.1]? = some (.cert ⟨[e.2], issuer, k⟩) ∧
    d.files[keyPath out e.1]? = some (.key k)

def CAKept (out : String) (before after : Disk) : Prop :=
  after.files[certPath out "ca"]? = before.files[certPath out "ca"]? ∧
    after.files[keyPath out "ca"]? = before.files[keyPath out "ca"]?

section Issues
variable {d : Disk} {out name : String} {issuer : ℕ} {host : String}

theorem certPath_issue (e : String) : (d.issue out name issuer [host]).files[certPath out e]? =
    if certPath out name = certPath out e then some (.cert ⟨[host], issuer, d.nextKey⟩)
    else d.files[certPath out e]? := by
  rw [Disk.issue, lookup_insert_ne _ _ (certPath_ne_keyPath out e name).symm, lookup_insert]

theorem keyPath_issue (e : String) : (d.issue out name issuer [host]).files[keyPath out e]? =
    if certPath out name = certPath out e then some (.key d.nextKey)
    else d.files[keyPath out e]? := by
  simp only [Disk.issue, lookup_insert, keyPath_eq_iff, if_neg (certPath_ne_keyPath out name e)]

theorem Issued.issue_self : Issued (d.issue out name issuer [host]) out issuer (name, host) :=
  ⟨d.nextKey, by rw [certPath_issue, if_pos rfl], by rw [keyPath_issue, if_pos rfl]⟩

/-- An issue takes away no pair but those of its own files, and none of its own host. -/
theorem Issued.issue {e : String × String} (h : Issued d out issuer e)
    (hsame : certPath out name = certPath out e.1 → host = e.2) :
    Issued (d.issue out name issuer [host]) out issuer e := by
  by_cases hpath : certPath out name = certPath out e.1
  · refine ⟨d.nextKey, ?_, ?_⟩
    · rw [certPath_issue, if_pos hpath, hsame hpath]
    · rw [keyPath_issue, if_pos hpath]
  · obtain ⟨k, hcert, hkey⟩ := h
    refine ⟨k, ?_, ?_⟩
    · rw [certPath_issue, if_neg hpath, hcert]
    · rw [keyPath_issue, if_neg hpath, hkey]

end Issues

section Progress
variable (d : Disk) {out : String} (issuer : ℕ)

/-- Pairs in the same files are for the same host. -/
def Consistent (out : String) (ids : List (String × String)) : Prop :=
  ∀ e ∈ ids, ∀ e' ∈ ids, certPath out e.1 = certPath out e'.1 → e.2 = e'.2

theorem issueAll_snoc (ids : List (String × String)) (e : String × String) :
    d.issueAll out issuer (ids ++ [e]) =
      (d.issueAll out issuer ids).issue out e.1 issuer [e.2] := by
  rw [Disk.issueAll, List.foldl_append]
  rfl

theorem issued_issueAll {ids : List (String × String)} (h : Consistent out ids) :
    ∀ e ∈ ids, Issued (d.issueAll out issuer ids) out issuer e := by
  induction ids using List.reverseRecOn with
  | nil => simp
  | append_singleton ids e ih =>
    intro e' he'
    rw [issueAll_snoc]
    have hlast : e ∈ ids ++ [e] := List.mem_append_right _ List.mem_cons_self
    rcases List.mem_append.mp he' with hold | hnew
    · have hids : Consistent out ids := fun a ha b hb =>
        h a (List.mem_append_left _ ha) b (List.mem_append_left _ hb)
      exact (ih hids e' hold).issue (h e hlast e' he')
    · rw [List.mem_singleton.mp hnew]
      exact Issued.issue_self

theorem nextKey_issueAll (ids : List (String × String)) :
    d.nextKey ≤ (d.issueAll out issuer ids).nextKey := by
  induction ids using List.reverseRecOn with
  | nil => exact le_rfl
  | append_singleton ids e ih =>
    rw [issueAll_snoc]
    exact ih.trans (Nat.le_succ _)

/-- A pair in the files of the authority leaves a certificate with a new key there. -/
theorem clobbered_issueAll {ids : List (String × String)} {e : String × String} (he : e ∈ ids)
    (hca : certPath out e.1 = certPath out "ca") :
    ∃ c, (d.issueAll out issuer ids).files[certPath out "ca"]? = some (.cert c) ∧
      d.nextKey ≤ c.key := by
  induction ids using List.reverseRecOn with
  | nil => exact absurd he List.not_mem_nil
  | append_singleton ids e' ih =>
    rw [issueAll_snoc, certPath_issue]
    split_ifs with hlast
    · exact ⟨_, rfl, nextKey_issueAll d issuer ids⟩
    · rcases List.mem_append.mp he with hold | hnew
      · exact ih hold
      · rw [List.mem_singleton.mp hnew] at hca
        exact absurd hca hlast

end Progress

/-- The first labels of the hosts, as names of files, are those of one host each, and none of
    them is a name of the authority or, but for the domain itself, of the server. -/
structure Separate (out domain : String) (hosts : List String) : Prop where
  ca : ∀ h ∈ hosts, certPath out (sanitizeName h) ≠ certPath out "ca"
  server : ∀ h ∈ hosts, certPath out (sanitizeName h) = certPath out "server" → h = domain
  hosts : ∀ h ∈ hosts, ∀ h' ∈ hosts,
    certPath out (sanitizeName h) = certPath out (sanitizeName h') → h = h'

/-- Where no label is a path, the labels themselves are compared. -/
theorem separate_iff_labels {out domain : String} {hosts : List String}
    (hslash : ∀ h ∈ hosts, '/' ∉ (sanitizeName h).toList) :
    Separate out domain hosts ↔ (∀ h ∈ hosts, sanitizeName h ≠ "ca") ∧
      (∀ h ∈ hosts, sanitizeName h = "server" → h = domain) ∧
      ∀ h ∈ hosts, ∀ h' ∈ hosts, sanitizeName h = sanitizeName h' → h = h' := by
  have hname (h : String) (hh : h ∈ hosts) {name : String} (hname : '/' ∉ name.toList) :
      certPath out (sanitizeName h) = certPath out name ↔ sanitizeName h = name :=
    certPath_inj out (hslash h hh) hname
  constructor
  · intro hsep
    refine ⟨fun h hh hca => ?_, fun h hh hserver => ?_, fun h hh h' hh' hsame => ?_⟩
    · exact hsep.ca h hh (by rw [hca])
    · exact hsep.server h hh (by rw [hserver])
    · exact hsep.hosts h hh h' hh' (by rw [hsame])
  · rintro ⟨hca, hserver, hhosts⟩
    refine ⟨fun h hh hpath => ?_, fun h hh hpath => ?_, fun h hh h' hh' hpath => ?_⟩
    · exact hca h hh ((hname h hh (by decide)).mp hpath)
    · exact hserver h hh ((hname h hh (by decide)).mp hpath)
    · exact hhosts h hh h' hh' ((hname h hh (hslash h' hh')).mp hpath)

/-- What `gencerts` is for: the authority is kept, and the server and every host have a pair of
    files that was issued for them by it and that no other host has. -/
structure IdentitiesKept (before after : Disk) (flags : Flags) (issuer : ℕ) : Prop where
  ca : CAKept flags.out before after
  server : Issued after flags.out issuer ("server", flags.domain)
  hosts : ∀ h ∈ splitHosts flags.hosts, Issued after flags.out issuer (sanitizeName h, h)
  own : ∀ h ∈ splitHosts flags.hosts, ∀ h' ∈ splitHosts flags.hosts, h ≠ h' →
    certPath flags.out (sanitizeName h) ≠ certPath flags.out (sanitizeName h') ∧
      keyPath flags.out (sanitizeName h) ≠ keyPath flags.out (sanitizeName h')

section Frame
variable {d : Disk} {out : String} {ca : Certificate}

theorem keeps_call (I : Disk → Prop) {α : Type} (a : α) : Keeps I (call a) := by
  refine Keeps.command ?_
  rintro s b t hs ⟨⟩
  exact hs

theorem keeps_readFile (I : Disk → Prop) (path : String) : Keeps I (readFile path) := by
  refine Keeps.command fun s f t hs hact => ?_
  split at hact
  · exact absurd hact (by simp)
  · cases hact
    exact hs

theorem keeps_parse (I : Disk → Prop) {α : Type} (r : Except String α) :
    Keeps I (command fun d => r.map fun a => (a, d)) := by
  refine Keeps.command fun s a t hs hact => ?_
  cases r with
  | error e => exact absurd hact (by simp [Except.map])
  | ok b =>
    cases hact
    exact hs

theorem HoldsCA.put {path : String} {f : File} (h : HoldsCA d out ca)
    (hcert : path ≠ certPath out "ca") (hkey : path ≠ keyPath out "ca") :
    HoldsCA (d.put path f) out ca where
  cert := (lookup_insert_ne _ _ hcert).trans h.cert
  key := (lookup_insert_ne _ _ hkey).trans h.key
  seen := h.seen
  old := h.old

theorem keeps_writeFile {path : String} {f : File} (hcert : path ≠ certPath out "ca")
    (hkey : path ≠ keyPath out "ca") : Keeps (HoldsCA · out ca) (writeFile path f) := by
  refine Keeps.bind (Keeps.command ?_) fun _ => Keeps.command ?_
  all_goals
    rintro s a t hs ⟨⟩
    exact hs.put hcert hkey

theorem keeps_issueCert (c : Certificate) (k : ℕ) (hosts : List String) :
    Keeps (HoldsCA · out ca) (issueCert c k hosts) := by
  have hkey : Keeps (HoldsCA · out ca) generateKey := by
    refine Keeps.command ?_
    rintro s a t hs ⟨⟩
    exact ⟨hs.cert, hs.key, hs.seen, hs.old.trans (Nat.lt_succ_self _)⟩
  have hcert (l : ℕ) : Keeps (HoldsCA · out ca) (createCertificate hosts c l k) := by
    refine Keeps.command fun s a t hs hact => ?_
    split_ifs at hact
    cases hact
    exact hs
  refine (hkey.label _).bind fun l => ((hcert l).label _).bind fun _ => ?_
  exact ((keeps_call _ ()).label _).bind fun _ => Keeps.pure _

theorem keeps_generateCert {name : String} (hname : certPath out name ≠ certPath out "ca")
    (c : Certificate) (k : ℕ) (hosts : List String) :
    Keeps (HoldsCA · out ca) (generateCert out name c k hosts) := by
  have hkey : keyPath out name ≠ keyPath out "ca" := fun h => hname ((keyPath_eq_iff out _ _).mp h)
  refine (keeps_issueCert c k hosts).bind fun r => ?_
  refine ((keeps_writeFile hname (certPath_ne_keyPath out _ _)).label _).bind fun _ => ?_
  exact (keeps_writeFile (certPath_ne_keyPath out _ _).symm hkey).label _

theorem keeps_loadOrCreateCA : Keeps (HoldsCA · out ca) (loadOrCreateCA out false) := by
  refine Keeps.asks fun s hs => ?_
  rw [if_pos hs.found]
  refine Keeps.label ?_ _
  refine ((keeps_readFile _ _).label _).bind fun _ => (keeps_parse _ _).bind fun _ => ?_
  exact ((keeps_readFile _ _).label _).bind fun _ => (keeps_parse _ _).bind fun _ => Keeps.pure _

theorem server_ne_ca : certPath out "server" ≠ certPath out "ca" := by
  rw [Ne, certPath_inj out (by decide) (by decide)]
  decide

theorem keeps_runGenCerts {flags : Flags} (hforce : flags.forceCA = false)
    (h : ∀ host ∈ splitHosts flags.hosts,
      certPath flags.out (sanitizeName host) ≠ certPath flags.out "ca") :
    Keeps (HoldsCA · flags.out ca) (runGenCerts flags) := by
  unfold runGenCerts
  rw [hforce]
  refine ((keeps_call _ ()).label _).bind fun _ => keeps_loadOrCreateCA.bind fun r => ?_
  refine (keeps_generateCert server_ne_ca _ _ _).bind fun _ => ?_
  exact Keeps.forM fun host hhost => keeps_generateCert (h host hhost) _ _ _

end Frame

section Main
variable {d : Disk} {flags : Flags} {ca : Certificate}

theorem HoldsCA.caKept {out : String} {t : Disk} (h : HoldsCA d out ca) (ht : HoldsCA t out ca) :
    CAKept out d t :=
  ⟨ht.cert.trans h.cert.symm, ht.key.trans h.key.symm⟩

theorem Separate.consistent
    (h : Separate flags.out flags.domain (splitHosts flags.hosts)) :
    Consistent flags.out (identities flags) := by
  intro e he e' he' hpath
  simp only [identities, List.mem_cons, List.mem_map] at he he'
  rcases he with rfl | ⟨host, hhost, rfl⟩ <;> rcases he' with rfl | ⟨host', hhost', rfl⟩
  · rfl
  · exact (h.server host' hhost' hpath.symm).symm
  · exact h.server host hhost hpath
  · exact h.hosts host hhost host' hhost' hpath

theorem Issued.host_eq {out : String} {issuer : ℕ} {e e' : String × String}
    (h : Issued d out issuer e) (h' : Issued d out issuer e')
    (hpath : certPath out e.1 = certPath out e'.1) : e.2 = e'.2 := by
  obtain ⟨k, hcert, -⟩ := h
  obtain ⟨k', hcert', -⟩ := h'
  rw [hpath, hcert'] at hcert
  have heq : e.2 = e'.2 ∧ k = k' := by simpa using hcert.symm
  exact heq.1

end Main

/-- With an authority in place, a run that fails leaves it there if the names are separate, and
    a run that finishes has kept all identities exactly if they are. -/
theorem gencerts_keeps_identities_iff {d : Disk} {flags : Flags} {ca : Certificate}
    (hca : HoldsCA d flags.out ca) (hforce : flags.forceCA = false)
    (faults : List (Option String)) :
    let separate := Separate flags.out flags.domain (splitHosts flags.hosts)
    (separate → CAKept flags.out d (left (runGenCerts flags (d, faults)))) ∧
      ∀ t rest, runGenCerts flags (d, faults) = .ok () (t, rest) →
        (IdentitiesKept d t flags ca.key ↔ separate) := by
  intro separate
  have hkept (h : separate) : CAKept flags.out d (left (runGenCerts flags (d, faults))) :=
    hca.caKept (keeps_runGenCerts hforce h.ca d faults hca)
  refine ⟨hkept, fun t rest hrun => ?_⟩
  obtain rfl : t = d.issueAll flags.out ca.key (identities flags) :=
    ((runGenCerts_yields hca hforce).result d faults () t rest rfl hrun).2
  constructor
  · intro h
    refine ⟨fun host hhost hpath => ?_, fun host hhost hpath => ?_,
      fun host hhost host' hhost' hpath => ?_⟩
    · have hmem : (sanitizeName host, host) ∈ identities flags :=
        List.mem_cons_of_mem _ (List.mem_map_of_mem hhost)
      obtain ⟨c, hc, hnew⟩ := clobbered_issueAll d ca.key hmem hpath
      rw [h.ca.1, hca.cert] at hc
      cases hc
      exact absurd hca.old hnew.not_gt
    · exact (h.hosts host hhost).host_eq h.server hpath
    · exact (h.hosts host hhost).host_eq (h.hosts host' hhost') hpath
  · intro h
    have hissued := issued_issueAll d ca.key h.consistent
    have hleft := hkept h
    simp only [hrun, left] at hleft
    refine ⟨hleft, ?_, fun host hhost => ?_, fun host hhost host' hhost' hne => ?_⟩
    · exact hissued _ List.mem_cons_self
    · exact hissued _ (List.mem_cons_of_mem _ (List.mem_map_of_mem hhost))
    · have hpath := mt (h.hosts host hhost host' hhost') hne
      exact ⟨hpath, fun hkey => hpath ((keyPath_eq_iff _ _ _).mp hkey)⟩

section Samples

private def authority : Certificate := ⟨[], 0, 0⟩

private def cluster : Disk where
  files := (ExtTreeMap.empty.insert "/etc/smith/certs/ca.crt" (.cert authority)).insert
    "/etc/smith/certs/ca.key" (.key 0)
  unseen := []
  nextKey := 1

private def flagsFor (hosts : String) : Flags := { Flags.defaults "" with hosts := hosts }

private theorem cluster_holdsCA (hosts : String) :
    HoldsCA cluster (flagsFor hosts).out authority :=
  show HoldsCA cluster "/etc/smith/certs" authority from
    ⟨by decide +kernel, by decide +kernel, by decide +kernel, by decide⟩

private theorem flagsFor_finishes (hosts : String) :
    runGenCerts (flagsFor hosts) (cluster, []) = .ok () (cluster.issueAll (flagsFor hosts).out
      authority.key (identities (flagsFor hosts)), []) :=
  (runGenCerts_yields (cluster_holdsCA hosts) rfl).quiet

theorem gencerts_keeps_identities_iff_two_agents :
    let flags := flagsFor "smith-agent-01.kkjorsvik.com, smith-agent-02.kkjorsvik.com"
    ∃ t, runGenCerts flags (cluster, []) = .ok () (t, []) ∧ IdentitiesKept cluster t flags 0 := by
  intro flags
  have hrun := flagsFor_finishes "smith-agent-01.kkjorsvik.com, smith-agent-02.kkjorsvik.com"
  refine ⟨_, hrun, ?_⟩
  refine ((gencerts_keeps_identities_iff (cluster_holdsCA _) rfl []).2 _ _ hrun).mpr ?_
  exact (separate_iff_labels (by decide +kernel)).mpr (by decide +kernel)

/-- A host with the first label `ca` takes the place of the authority, and of two addresses in
    one network only the last has a pair. -/
theorem gencerts_overwrites_authority :
    let named := flagsFor "ca.kkjorsvik.com"
    let addressed := flagsFor "10.0.0.1,10.0.0.2"
    (∃ t, runGenCerts named (cluster, []) = .ok () (t, []) ∧ ¬ IdentitiesKept cluster t named 0 ∧
      t.files["/etc/smith/certs/ca.crt"]? = some (.cert ⟨["ca.kkjorsvik.com"], 0, 2⟩)) ∧
    ∃ t, runGenCerts addressed (cluster, []) = .ok () (t, []) ∧
      ¬ IdentitiesKept cluster t addressed 0 ∧
      t.files["/etc/smith/certs/10.crt"]? = some (.cert ⟨["10.0.0.2"], 0, 3⟩) := by
  intro named addressed
  refine ⟨⟨_, flagsFor_finishes _, fun h => ?_, by decide +kernel⟩,
    ⟨_, flagsFor_finishes _, fun h => ?_, by decide +kernel⟩⟩
  · exact absurd h.ca.1 (by decide +kernel)
  · have hshared := (h.hosts "10.0.0.1" (by decide +kernel)).host_eq
      (h.hosts "10.0.0.2" (by decide +kernel)) (by decide +kernel)
    exact absurd hshared (by decide)

end Samples

end Smith.GenCerts
