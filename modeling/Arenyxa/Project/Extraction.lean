import Arenyxa.Registry.Json
import Mathlib.Algebra.GroupWithZero.Nat
import Mathlib.Data.List.DropRight
import Mathlib.Data.List.Infix

/-! Project archives: the names of their entries, their manifest, and what `validate` accepts. -/

namespace Arenyxa.Project

open Registry (Text text Json Row)

abbrev Bytes := List UInt8

/-- The components of a path. -/
abbrev Path := List Text

/-- Functions of the standard library. -/
structure Library where
  casefold : Text → Text
  upper : Text → Text
  lower : Text → Text
  strip : Text → Text
  /-- The hexadecimal digest. -/
  sha256 : Bytes → Text
  loads : Bytes → Option Json
  dumps : Json → Bytes

def slash : Nat := 0x2f

def backslash : Nat := 0x5c

def dot : Nat := 0x2e

/-- An entry of a ZIP archive; its file size is the size of its content. -/
structure Entry where
  name : Text
  content : Bytes
  encrypted : Bool := false
  symlink : Bool := false
  deriving DecidableEq

abbrev Archive := List Entry

def maxArchiveEntries : Nat := 20000

def maxUncompressedBytes : Nat := 2 * 1024 * 1024 * 1024

def maxManifestBytes : Nat := 8 * 1024 * 1024

def allowedRoots : List Text :=
  [text "workflows", text "selectors", text "schemas", text "scripts", text "tests", text "schedules",
   text "visualizations", text "snapshots"]

def manifestName : Text := text "manifest.json"

section Names

variable (lib : Library)

/-- `name.replace("\\", "/")` -/
def normalized (name : Text) : Text := name.map fun c => if c = backslash then slash else c

/-- The parts of a relative path. -/
def parts (t : Text) : Path := (t.splitOn slash).filter fun part => part ≠ [] ∧ part ≠ [dot]

/-- `part.rstrip(" .")` -/
def portable (part : Text) : Text := part.rdropWhile fun c => c = 0x20 ∨ c = dot

def reservedWindows : List Text :=
  [text "CON", text "PRN", text "AUX", text "NUL"] ++
    (List.range 9).flatMap fun i => [text "COM" ++ [0x31 + i], text "LPT" ++ [0x31 + i]]

/-- A name that a drive or a parent directory leads out of. -/
def Outside (name : Text) : Prop :=
  (normalized name).head? = some slash ∨ [dot, dot] ∈ parts (normalized name) ∨ 0x3a ∈ name

instance (name : Text) : Decidable (Outside name) := inferInstanceAs (Decidable (_ ∨ _ ∨ _))

/-- A part that Windows does not take. -/
def Unportable (part : Text) : Prop :=
  portable part = [] ∨ lib.upper ((portable part).takeWhile (· ≠ dot)) ∈ reservedWindows

instance (part : Text) : Decidable (Unportable lib part) := inferInstanceAs (Decidable (_ ∨ _))

def portableKey (name : Text) : Text :=
  [slash].intercalate ((parts (normalized name)).map fun part => lib.casefold (portable part))

/-- `_validate_names`, with the keys that were seen. -/
def validateNames : List Text → List Text → Except String Unit
  | _, [] => .ok ()
  | seen, name :: names =>
    if Outside name then .error "PROJECT_PATH_TRAVERSAL"
    else if ∃ part ∈ parts (normalized name), Unportable lib part then .error "PROJECT_PATH_COLLISION"
    else if portableKey lib name ∈ seen then .error "PROJECT_PATH_COLLISION"
    else validateNames (portableKey lib name :: seen) names

end Names

structure Manifest where
  name : Text
  version : Text
  format : Text
  createdAt : Text
  appVersion : Text
  pluginDependencies : List (List (Text × Text))
  files : List (Text × Text)
  containsSecrets : Bool
  deriving DecidableEq

def projectFormat : Text := text "arenyxa.project/1"

def manifestFields : List Text :=
  [text "name", text "version", text "format", text "created_at", text "app_version", text "plugin_dependencies",
   text "files", text "contains_secrets"]

/-- The texts of an object whose values are all texts. -/
def textFields : Json → Option (List (Text × Text))
  | .obj fields => fields.mapM fun field =>
    match field.2 with
    | .str t => some (field.1, t)
    | _ => none
  | _ => none

/-- A field of the manifest, read if it is there. -/
def fieldOr {α : Type} (row : Row) (key : String) (read : Json → Option α) (default : α) : Option α :=
  match Registry.get row key with
  | none => some default
  | some value => read value

def asText : Json → Option Text
  | .str t => some t
  | _ => none

def asBool : Json → Option Bool
  | .bool b => some b
  | _ => none

def asDependencies : Json → Option (List (List (Text × Text)))
  | .arr items => items.mapM textFields
  | _ => none

/-- What a new manifest has by default. -/
structure Defaults where
  createdAt : Text
  appVersion : Text

section Validation

variable (lib : Library) (defaults : Defaults)

def invalidManifest : String := "PROJECT_MANIFEST_INVALID"

/-- The manifest of a document. -/
def readManifest : Json → Except String Manifest
  | .obj row =>
    if ∃ field ∈ row, field.1 ∉ manifestFields then .error invalidManifest
    else
      let read : Option Manifest := do
        let value ← Registry.get row "name"
        let name ← asText value
        let version ← fieldOr row "version" asText (text "1.0.0")
        let format ← fieldOr row "format" asText projectFormat
        let createdAt ← fieldOr row "created_at" asText defaults.createdAt
        let appVersion ← fieldOr row "app_version" asText defaults.appVersion
        let pluginDependencies ← fieldOr row "plugin_dependencies" asDependencies []
        let files ← fieldOr row "files" textFields []
        let containsSecrets ← fieldOr row "contains_secrets" asBool false
        some { name, version, format, createdAt, appVersion, pluginDependencies, files, containsSecrets }
      match read with
      | none => .error invalidManifest
      | some manifest =>
        if lib.strip manifest.name = [] then .error invalidManifest
        else if manifest.format ≠ projectFormat then .error "PROJECT_FORMAT_UNSUPPORTED"
        else if manifest.containsSecrets then .error "PROJECT_CONTAINS_SECRETS"
        else .ok manifest
  | _ => .error invalidManifest

/-- Whether extraction leaves an entry out, as a directory. -/
def isDirectory (name : Text) : Bool := (normalized name).getLast? = some slash

/-- The checks of one entry. -/
def checkEntry (e : Entry) : Except String Unit :=
  if e.encrypted then .error "PROJECT_ENCRYPTED_ENTRY"
  else if e.symlink then .error "PROJECT_SYMLINK_ENTRY"
  else if isDirectory e.name ∨ normalized e.name = manifestName then .ok ()
  else if (normalized e.name).takeWhile (· ≠ slash) ∈ allowedRoots then .ok ()
  else .error "PROJECT_ROOT_UNSUPPORTED"

/-- The entries that the manifest has to declare. -/
def actual (archive : Archive) : List Text :=
  (archive.map Entry.name).filter fun name => name ≠ manifestName ∧ name.getLast? ≠ some slash

def hexDigit (c : Nat) : Prop := 0x30 ≤ c ∧ c ≤ 0x39 ∨ 0x61 ≤ c ∧ c ≤ 0x66 ∨ 0x41 ≤ c ∧ c ≤ 0x46

instance (c : Nat) : Decidable (hexDigit c) := inferInstanceAs (Decidable (_ ∧ _ ∨ _ ∧ _ ∨ _ ∧ _))

/-- The check of one declared file. -/
def checkFile (archive : Archive) (file : Text × Text) : Except String Unit :=
  if file.2.length ≠ 64 ∨ ∃ c ∈ file.2, ¬ hexDigit c then .error invalidManifest
  else
    match archive.find? fun e => e.name = file.1 with
    | none => .error "PROJECT_CHECKSUM_MISMATCH"
    | some e => if lib.sha256 e.content = lib.casefold file.2 then .ok () else .error "PROJECT_CHECKSUM_MISMATCH"

def validate (archive : Archive) : Except String Manifest :=
  let names := archive.map Entry.name
  if ¬ names.Nodup then .error "PROJECT_DUPLICATE_ENTRY"
  else do
    validateNames lib [] names
    if maxArchiveEntries < names.length then .error "PROJECT_ARCHIVE_LIMIT"
    if maxUncompressedBytes < (archive.map fun e => e.content.length).sum then .error "PROJECT_ARCHIVE_LIMIT"
    archive.forM checkEntry
    match archive.find? fun e => e.name = manifestName with
    | none => .error "PROJECT_MANIFEST_MISSING"
    | some e =>
      if maxManifestBytes < e.content.length then .error invalidManifest
      else
        match lib.loads e.content with
        | none => .error invalidManifest
        | some json => do
          let manifest ← readManifest lib defaults json
          if ∃ name ∈ actual archive, name ∉ manifest.files.map Prod.fst then .error "PROJECT_UNDECLARED_FILE"
          if ∃ name ∈ manifest.files.map Prod.fst, name ∉ actual archive then .error "PROJECT_CHECKSUM_MISMATCH"
          manifest.files.forM (checkFile lib archive)
          return manifest

end Validation

end Arenyxa.Project

/-! The extraction of a project archive into a directory, and the archive of a source tree. -/

namespace Arenyxa.Project

open Registry (Text text Json Row)

inductive Node
  | directory
  | file (content : Bytes)

/-- The nodes of a directory, by their paths from it. -/
abbrev Tree := List (Path × Node)

def look (tree : Tree) (path : Path) : Option Node := if path = [] then some .directory else tree.lookup path

/-- What stands at the destination. -/
inductive Place
  | missing
  | other
  | directory (tree : Tree)

def mkdir (tree : Tree) (path : Path) : Except String Tree :=
  match look tree path with
  | none => .ok ((path, .directory) :: tree)
  | some .directory => .ok tree
  | some (.file _) => .error "FileExistsError"

/-- `mkdir(parents=True, exist_ok=True)`, for the directories above a path. -/
def mkdirs (tree : Tree) : List Path → Except String Tree
  | [] => .ok tree
  | path :: paths => do mkdirs (← mkdir tree path) paths

/-- The directories above a path, the outermost first. -/
def above (path : Path) : List Path := path.inits.filter (· ≠ path)

/-- The writing of a new file, on a file system that takes some paths. -/
def writeFile (takes : Path → Bool) (tree : Tree) (path : Path) (content : Bytes) : Except String Tree := do
  let tree ← mkdirs tree (above path)
  if ¬ takes path then .error "OSError"
  match look tree path with
  | none => return (path, .file content) :: tree
  | some _ => .error "FileExistsError"

section Service

variable (lib : Library) (defaults : Defaults) (takes : Path → Bool)

/-- `_extract_validated`, of the entries that are left. -/
def extractEntries (tree : Tree) : List Entry → Except String Tree
  | [] => .ok tree
  | e :: entries =>
    if isDirectory e.name then extractEntries tree entries
    else if e.symlink then .error "PROJECT_SYMLINK_ENTRY"
    else do extractEntries (← writeFile takes tree (parts (normalized e.name)) e.content) entries

def extractValidated (archive : Archive) : Except String Tree := do
  validateNames lib [] (archive.map Entry.name)
  extractEntries takes [] archive

/-- `unpack`, with what then stands at the destination; the last step replaces it by the stage, or fails. -/
def unpack (replaces : Bool) (archive : Archive) (destination : Place) : Except String Manifest × Place :=
  match validate lib defaults archive with
  | .error e => (.error e, destination)
  | .ok manifest =>
    match destination with
    | .other => (.error "PROJECT_DESTINATION_INVALID", destination)
    | .directory (_ :: _) => (.error "PROJECT_DESTINATION_NOT_EMPTY", destination)
    | .missing | .directory [] =>
      match extractValidated lib takes archive with
      | .error e => (.error e, destination)
      | .ok stage => if replaces then (.ok manifest, .directory stage) else (.error "OSError", .missing)

/-- A file of a source tree that is neither a link nor the package, by its path. -/
structure Source where
  path : Path
  content : Bytes

/-- `relative_to(source).as_posix()` -/
def Source.relative (s : Source) : Text := [slash].intercalate s.path

/-- `path.suffix` -/
def suffix (name : Text) : Text :=
  let last := name.reverse.takeWhile (· ≠ dot)
  if last.length + 1 < name.length ∧ last ≠ [] then dot :: last.reverse else []

/-- Whether `pack` takes a file. -/
def Eligible (s : Source) : Prop :=
  s.relative ≠ manifestName ∧ s.relative.takeWhile (· ≠ slash) ∈ allowedRoots ∧
    ¬ text "secret" <:+: lib.lower s.relative ∧
    lib.lower (suffix (s.path.getLast?.getD [])) ∉ [text ".pem", text ".key", text ".pfx"]

instance (s : Source) : Decidable (Eligible lib s) := inferInstanceAs (Decidable (_ ∧ _ ∧ _ ∧ _))

def Manifest.json (m : Manifest) : Json :=
  .obj [(text "name", .str m.name), (text "version", .str m.version), (text "format", .str m.format),
    (text "created_at", .str m.createdAt), (text "app_version", .str m.appVersion),
    (text "plugin_dependencies", .arr (m.pluginDependencies.map fun row => .obj (row.map fun field =>
      (field.1, .str field.2)))),
    (text "files", .obj (m.files.map fun field => (field.1, .str field.2))),
    (text "contains_secrets", .bool m.containsSecrets)]

/-- The entry of the manifest, which lists the files. -/
def packedManifest (manifest : Manifest) (files : List Source) : Entry :=
  let manifest := { manifest with
    files := files.map fun s : Source => (s.relative, lib.sha256 s.content)
    containsSecrets := false }
  ⟨manifestName, lib.dumps manifest.json, false, false⟩

def Source.entry (s : Source) : Entry := ⟨s.relative, s.content, false, false⟩

/-- The archive that `pack` makes of the files it takes. -/
def packed (manifest : Manifest) (files : List Source) : Archive :=
  packedManifest lib manifest files :: (files.mergeSort fun a b => a.relative ≤ b.relative).map Source.entry

def pack (manifest : Manifest) (source : List Source) : Except String Archive := do
  let files : List Source := source.filter fun s => Eligible lib s
  if maxArchiveEntries - 1 < files.length then .error "PROJECT_ARCHIVE_LIMIT"
  if maxUncompressedBytes < (files.map fun s => s.content.length).sum then .error "PROJECT_ARCHIVE_LIMIT"
  let archive := packed lib manifest files
  let _ ← validate lib defaults archive
  return archive

end Service

end Arenyxa.Project

/-! What the extraction of an archive leaves. -/

namespace Arenyxa.Project

open Registry (Text text Json Row)

variable {lib : Library} {takes : Path → Bool} {tree : Tree} {path : Path} {content : Bytes}

section Trees

theorem look_cons (node : Node) (q : Path) (below : path ≠ []) :
    look ((path, node) :: tree) q = if q = path then some node else look tree q := by
  by_cases root : q = []
  · rw [look, look, if_pos root, if_pos root, if_neg (by rw [root]; exact below.symm)]
  · rw [look, look, if_neg root, if_neg root, List.lookup_cons]
    by_cases same : q = path
    · rw [if_pos same, beq_iff_eq.mpr same]
    · rw [if_neg same, beq_eq_false_iff_ne.mpr same]

theorem mem_above {q : Path} : q ∈ above path ↔ q <+: path ∧ q ≠ path := by
  rw [above, List.mem_filter, List.mem_inits, decide_eq_true_iff]

theorem mkdir_ok (free : ∀ content, look tree path ≠ some (.file content)) :
    ∃ tree', mkdir tree path = .ok tree' ∧
      ∀ q, look tree' q = if q = path then some .directory else look tree q := by
  rw [mkdir]
  cases there : look tree path with
  | none =>
    have below : path ≠ [] := by
      rintro rfl
      cases there
    exact ⟨_, rfl, fun q => look_cons .directory q below⟩
  | some node =>
    cases node with
    | file content => exact absurd there (free content)
    | directory =>
      refine ⟨tree, rfl, fun q => ?_⟩
      split
      next same => rw [same, there]
      next => rfl

theorem mkdirs_ok {paths : List Path} (free : ∀ q ∈ paths, ∀ content, look tree q ≠ some (.file content)) :
    ∃ tree', mkdirs tree paths = .ok tree' ∧
      ∀ q, look tree' q = if q ∈ paths then some .directory else look tree q := by
  induction paths generalizing tree with
  | nil => exact ⟨tree, rfl, fun q => (if_neg List.not_mem_nil).symm⟩
  | cons path paths ih =>
    obtain ⟨tree', made, looks⟩ := mkdir_ok (free path List.mem_cons_self)
    have later : ∀ q ∈ paths, ∀ content, look tree' q ≠ some (.file content) := by
      intro q mem content
      rw [looks]
      split
      · exact nofun
      · exact free q (List.mem_cons_of_mem _ mem) content
    obtain ⟨tree'', mades, looks'⟩ := ih later
    refine ⟨tree'', by rw [mkdirs, made]; exact mades, fun q => ?_⟩
    rw [looks', looks]
    by_cases first : q = path
    · simp [first]
    · simp [first]

theorem writeFile_ok (taken : takes path = true) (new : look tree path = none)
    (free : ∀ q ∈ above path, ∀ content, look tree q ≠ some (.file content)) :
    ∃ tree', writeFile takes tree path content = .ok tree' ∧
      ∀ q, look tree' q = if q = path then some (.file content) else if q ∈ above path then some .directory
        else look tree q := by
  obtain ⟨tree', made, looks⟩ := mkdirs_ok free
  have below : path ≠ [] := by
    rintro rfl
    cases new
  have own : look tree' path = none := by
    rw [looks, if_neg fun mem => (mem_above.1 mem).2 rfl, new]
  refine ⟨(path, .file content) :: tree', ?_, fun q => ?_⟩
  · rw [writeFile, made]
    change (if ¬ takes path = true then _ else _) = _
    rw [if_neg (not_not.mpr taken)]
    simp only [pure, Except.pure, own]
  · rw [look_cons _ _ below, looks]

end Trees

section Entries

def Entry.target (e : Entry) : Path := parts (normalized e.name)

def Entry.isFile (e : Entry) : Prop := isDirectory e.name = false

/-- What a tree holds after the extraction of entries. -/
structure Holds (entries : List Entry) (tree : Tree) : Prop where
  files : ∀ path content, look tree path = some (.file content) ↔
    ∃ e ∈ entries, e.isFile ∧ e.target = path ∧ e.content = content
  directories : ∀ path, look tree path = some .directory → path = [] ∨ ∃ e ∈ entries, e.isFile ∧ path ∈ above e.target

/-- No file of one entry stands on the path to the other's. -/
def Apart (a b : Entry) : Prop := a.isFile → b.isFile → ¬ a.target <+: b.target ∧ ¬ b.target <+: a.target

/-- An entry that can be extracted. -/
structure Extractable (takes : Path → Bool) (e : Entry) : Prop where
  plain : e.symlink = false
  below : e.isFile → e.target ≠ []
  taken : e.isFile → takes e.target = true

theorem Holds.skip {e : Entry} {entries : List Entry} (holds : Holds entries tree)
    (directory : isDirectory e.name = true) : Holds (entries ++ [e]) tree := by
  have other : ¬ e.isFile := by
    rw [Entry.isFile, directory]
    exact nofun
  refine ⟨fun path content => ?_, fun path there => ?_⟩
  · rw [holds.files]
    simp [other]
  · simpa [other] using holds.directories path there

theorem Holds.write {e : Entry} {entries : List Entry} (holds : Holds entries tree) (file : e.isFile)
    (extractable : Extractable takes e) (apart : ∀ d ∈ entries, Apart d e) :
    ∃ tree', writeFile takes tree e.target e.content = .ok tree' ∧ Holds (entries ++ [e]) tree' := by
  have new : look tree e.target = none := by
    cases there : look tree e.target with
    | none => rfl
    | some node =>
      exfalso
      cases node with
      | file content =>
        obtain ⟨d, mem, is_file, same, -⟩ := (holds.files _ _).mp there
        exact (apart d mem is_file file).1 (same ▸ List.prefix_rfl)
      | directory =>
        rcases holds.directories _ there with root | ⟨d, mem, is_file, on⟩
        · exact extractable.below file root
        · exact (apart d mem is_file file).2 (mem_above.1 on).1
  have free : ∀ q ∈ above e.target, ∀ content, look tree q ≠ some (.file content) := by
    intro q mem content there
    obtain ⟨d, mem_d, is_file, rfl, -⟩ := (holds.files _ _).mp there
    exact (apart d mem_d is_file file).1 (mem_above.1 mem).1
  obtain ⟨tree', written, looks⟩ := @writeFile_ok takes tree e.target e.content (extractable.taken file) new free
  refine ⟨tree', written, fun path content => ?_, fun path there => ?_⟩
  · rw [looks]
    by_cases own : path = e.target
    · have before : ∀ d ∈ entries, d.isFile → d.target ≠ path := fun d mem is_file same =>
        (apart d mem is_file file).1 (by rw [same, own])
      rw [if_pos own, Option.some.injEq, Node.file.injEq]
      constructor
      · rintro rfl
        exact ⟨e, by simp, file, own.symm, rfl⟩
      · rintro ⟨d, mem, is_file, same, its⟩
        rcases List.mem_append.mp mem with old | new
        · exact absurd same (before d old is_file)
        · cases List.mem_singleton.mp new
          exact its
    · have others : (∃ d ∈ entries ++ [e], d.isFile ∧ d.target = path ∧ d.content = content) ↔
          ∃ d ∈ entries, d.isFile ∧ d.target = path ∧ d.content = content := by
        constructor
        · rintro ⟨d, mem, is_file, same, its⟩
          rcases List.mem_append.mp mem with old | new
          · exact ⟨d, old, is_file, same, its⟩
          · cases List.mem_singleton.mp new
            exact absurd same.symm own
        · rintro ⟨d, mem, rest⟩
          exact ⟨d, List.mem_append_left _ mem, rest⟩
      rw [if_neg own, others, ← holds.files]
      split
      next on =>
        constructor
        · exact nofun
        · intro there
          exact absurd there (free path on content)
      next => rfl
  · rw [looks] at there
    split at there
    · cases there
    · split at there
      next on => exact .inr ⟨e, by simp, file, on⟩
      next =>
        rcases holds.directories path there with root | ⟨d, mem, is_file, on⟩
        · exact .inl root
        · exact .inr ⟨d, List.mem_append_left _ mem, is_file, on⟩

theorem extractEntries_ok {todo entries : List Entry} (holds : Holds entries tree)
    (extractable : ∀ e ∈ todo, Extractable takes e) (apart : (entries ++ todo).Pairwise Apart) :
    ∃ tree', extractEntries takes tree todo = .ok tree' ∧ Holds (entries ++ todo) tree' := by
  induction todo generalizing tree entries with
  | nil => exact ⟨tree, rfl, by rwa [List.append_nil]⟩
  | cons e todo ih =>
    have before : ∀ d ∈ entries, Apart d e := fun d mem =>
      (List.pairwise_append.mp apart).2.2 d mem e List.mem_cons_self
    have shape : entries ++ e :: todo = (entries ++ [e]) ++ todo := by rw [List.append_assoc]; rfl
    have later : ∀ e ∈ todo, Extractable takes e := fun e mem => extractable e (List.mem_cons_of_mem _ mem)
    have this := extractable e List.mem_cons_self
    rw [shape] at apart ⊢
    rw [extractEntries]
    cases directory : isDirectory e.name with
    | true =>
      rw [if_pos rfl]
      exact ih (holds.skip directory) later apart
    | false =>
      obtain ⟨tree', written, holds'⟩ := holds.write directory this before
      obtain ⟨tree'', extracted, holds''⟩ := ih holds' later apart
      refine ⟨tree'', ?_, holds''⟩
      rw [if_neg Bool.false_ne_true, this.plain, if_neg Bool.false_ne_true]
      change (writeFile takes tree e.target e.content >>= fun tree => extractEntries takes tree todo) = _
      rw [written]
      exact extracted

theorem holds_nil : Holds [] [] where
  files path content := by
    constructor
    · intro there
      rw [look] at there
      split at there <;> cases there
    · rintro ⟨e, mem, -⟩
      exact absurd mem List.not_mem_nil
  directories path there := by
    rw [look] at there
    split at there
    next root => exact .inl root
    next => cases there

end Entries

end Arenyxa.Project
