import Arenyxa.Project.Extraction
import Mathlib.Data.List.Pairwise

/-! An archive that is accepted is unpacked exactly. -/

namespace Arenyxa.Project

open Registry (Text text text_injective Json Row)

variable {lib : Library} {defaults : Defaults} {takes : Path → Bool} {archive : Archive} {manifest : Manifest}

section Validated

theorem forM_ok {α : Type} {f : α → Except String Unit} {xs : List α} (h : xs.forM f = .ok ()) :
    ∀ x ∈ xs, f x = .ok () := by
  induction xs with
  | nil => exact fun x mem => absurd mem List.not_mem_nil
  | cons x xs ih =>
    rw [List.forM] at h
    cases first : f x with
    | error e => rw [first] at h; cases h
    | ok =>
      rw [first] at h
      exact List.forall_mem_cons.mpr ⟨first, ih h⟩

theorem validateNames_ok {seen names : List Text} (h : validateNames lib seen names = .ok ()) :
    (∀ name ∈ names, ¬ Outside name ∧ portableKey lib name ∉ seen) ∧
      names.Pairwise fun a b => portableKey lib a ≠ portableKey lib b := by
  induction names generalizing seen with
  | nil => exact ⟨fun x mem => absurd mem List.not_mem_nil, .nil⟩
  | cons name names ih =>
    rw [validateNames] at h
    split at h
    · cases h
    next inside =>
      split at h
      · cases h
      · split at h
        · cases h
        next new =>
          obtain ⟨each, distinct⟩ := ih h
          refine ⟨List.forall_mem_cons.mpr ⟨⟨inside, new⟩, fun other mem => ?_⟩, .cons (fun other mem => ?_) distinct⟩
          · exact ⟨(each other mem).1, fun old => (each other mem).2 (List.mem_cons_of_mem _ old)⟩
          · exact fun same => (each other mem).2 (same ▸ List.mem_cons_self)

/-- What `validate` makes sure of. -/
structure Accepted (lib : Library) (archive : Archive) (manifest : Manifest) : Prop where
  names : validateNames lib [] (archive.map Entry.name) = .ok ()
  entries : ∀ e ∈ archive, checkEntry e = .ok ()
  has_manifest : ∃ e ∈ archive, e.name = manifestName
  declared : ∀ name, name ∈ manifest.files.map Prod.fst ↔ name ∈ actual archive
  files : ∀ file ∈ manifest.files, checkFile lib archive file = .ok ()

theorem validate_ok (h : validate lib defaults archive = .ok manifest) : Accepted lib archive manifest := by
  rw [validate] at h
  dsimp only at h
  split at h
  · cases h
  cases names : validateNames lib [] (archive.map Entry.name) with
  | error e => rw [names] at h; cases h
  | ok =>
    rw [names] at h
    change (if _ then _ else _) = _ at h
    split at h
    · cases h
    split at h
    · cases h
    cases entries : archive.forM checkEntry with
    | error e => rw [entries] at h; cases h
    | ok =>
      rw [entries] at h
      cases found : archive.find? fun e => e.name = manifestName with
      | none => rw [found] at h; cases h
      | some e =>
        rw [found] at h
        change (if _ then _ else _) = _ at h
        split at h
        · cases h
        cases loaded : lib.loads e.content with
        | none => rw [loaded] at h; cases h
        | some json =>
          rw [loaded] at h
          cases read : readManifest lib defaults json with
          | error e => simp only [read] at h; cases h
          | ok manifest' =>
            simp only [read] at h
            change (if _ then _ else _) = _ at h
            split at h
            · cases h
            next declared =>
              split at h
              · cases h
              next here =>
                cases files : manifest'.files.forM (checkFile lib archive) with
                | error e => rw [files] at h; cases h
                | ok =>
                  rw [files] at h
                  cases h
                  have mem := List.mem_of_find?_eq_some found
                  have its := List.find?_some found
                  refine ⟨names, forM_ok entries, ⟨e, mem, of_decide_eq_true its⟩, fun name => ⟨?_, ?_⟩,
                    forM_ok files⟩
                  · exact fun mem => by_contra fun other => here ⟨name, mem, other⟩
                  · exact fun mem => by_contra fun other => declared ⟨name, mem, other⟩

end Validated

section Targets

theorem normalized_of_clean {t : Text} (clean : backslash ∉ t) : normalized t = t := by
  have same : t.map (fun c => if c = backslash then slash else c) = t.map id :=
    List.map_congr_left fun c mem => if_neg fun its : c = backslash => clean (its ▸ mem)
  rw [normalized, same, List.map_id]

theorem root_mem_parts {t : Text} (below : t.takeWhile (· ≠ slash) ≠ []) (own : t.takeWhile (· ≠ slash) ≠ [dot]) :
    t.takeWhile (· ≠ slash) ∈ parts t := by
  have split := List.takeWhile_append_dropWhile (p := fun c => decide (c ≠ slash)) (l := t)
  have clean : slash ∉ t.takeWhile (· ≠ slash) := by
    intro mem
    have passed := List.mem_takeWhile_imp mem
    simp at passed
  rw [parts, List.mem_filter]
  refine ⟨?_, decide_eq_true ⟨below, own⟩⟩
  generalize t.takeWhile (· ≠ slash) = root at split clean ⊢
  cases rest : t.dropWhile (· ≠ slash) with
  | nil =>
    rw [rest, List.append_nil] at split
    rw [← split, List.splitOn_eq_singleton clean]
    exact List.mem_singleton_self _
  | cons c cs =>
    have first := List.head?_dropWhile_not (fun c => decide (c ≠ slash)) t
    rw [rest] at first
    have its : c = slash := not_not.mp (of_decide_eq_false first)
    rw [rest, its] at split
    rw [← split, List.splitOn_append_cons_self_of_not_mem clean]
    exact List.mem_cons_self

theorem allowedRoots_below : ∀ root ∈ allowedRoots, root ≠ [] ∧ root ≠ [dot] := by
  simp [allowedRoots, text, dot]

theorem normalized_manifest : normalized manifestName = manifestName :=
  normalized_of_clean (by simp [manifestName, text, backslash])

theorem parts_manifest : parts manifestName = [manifestName] := by
  rw [parts, List.splitOn_eq_singleton (by simp [manifestName, text, slash])]
  simp [manifestName, text, dot]

theorem manifest_isFile : isDirectory manifestName = false := by
  rw [isDirectory, normalized_manifest]
  simp [manifestName, text, slash]

/-- An archive whose files can stand beside each other, and whose names do not end in a backslash. -/
structure Clear (takes : Path → Bool) (archive : Archive) : Prop where
  apart : ∀ a ∈ archive, ∀ b ∈ archive, a.isFile → b.isFile → a.target <+: b.target → a.target = b.target
  slashes : ∀ e ∈ archive, e.name.getLast? ≠ some backslash
  taken : ∀ e ∈ archive, e.isFile → takes e.target = true

theorem Accepted.extractable (accepted : Accepted lib archive manifest) (clear : Clear takes archive) :
    ∀ e ∈ archive, Extractable takes e := by
  intro e mem
  have checked := accepted.entries e mem
  rw [checkEntry] at checked
  split at checked
  · cases checked
  split at checked
  · cases checked
  next plain =>
    refine ⟨by simpa using plain, fun file => ?_, clear.taken e mem⟩
    rw [Entry.isFile] at file
    rw [file] at checked
    split at checked
    next its =>
      rw [Entry.target, its.resolve_left Bool.false_ne_true, parts_manifest]
      exact List.cons_ne_nil _ _
    next =>
      split at checked
      next root =>
        obtain ⟨below, own⟩ := allowedRoots_below _ root
        exact List.ne_nil_of_mem (root_mem_parts below own)
      next => cases checked

theorem Accepted.apart (accepted : Accepted lib archive manifest) (clear : Clear takes archive) :
    archive.Pairwise Apart := by
  have keys := (validateNames_ok accepted.names).2
  rw [List.pairwise_map] at keys
  refine keys.imp_of_mem fun {a b} mem mem' different file file' => ?_
  have targets : a.target ≠ b.target := by
    intro same
    apply different
    rw [portableKey, portableKey]
    exact congrArg _ (congrArg _ same)
  exact ⟨fun below => targets (clear.apart a mem b mem' file file' below),
    fun below => targets (clear.apart b mem' a mem file' file below).symm⟩

theorem Accepted.extracted (accepted : Accepted lib archive manifest) (clear : Clear takes archive) :
    ∃ stage, extractValidated lib takes archive = .ok stage ∧ Holds archive stage := by
  obtain ⟨stage, extracted, holds⟩ :=
    extractEntries_ok holds_nil (accepted.extractable clear) (by simpa using accepted.apart clear)
  refine ⟨stage, ?_, holds⟩
  rw [extractValidated, accepted.names]
  exact extracted

end Targets

section Exactness

/-- A directory holds exactly the manifest and the declared files, each inside at its own portable path. -/
structure Exact (lib : Library) (manifest : Manifest) (stage : Tree) : Prop where
  declared : ∀ name hash, (name, hash) ∈ manifest.files → ∃ content,
    look stage (parts (normalized name)) = some (.file content) ∧ lib.sha256 content = lib.casefold hash
  only : ∀ path content, look stage path = some (.file content) →
    path = [manifestName] ∨ ∃ name ∈ manifest.files.map Prod.fst, path = parts (normalized name)
  distinct : ∀ name ∈ manifest.files.map Prod.fst, ∀ name' ∈ manifest.files.map Prod.fst,
    portableKey lib name = portableKey lib name' → name = name'
  inside : ∀ name ∈ manifest.files.map Prod.fst, ¬ Outside name

theorem mem_actual {name : Text} : name ∈ actual archive ↔
    (∃ e ∈ archive, e.name = name) ∧ name ≠ manifestName ∧ name.getLast? ≠ some slash := by
  rw [actual, List.mem_filter, List.mem_map, decide_eq_true_iff]

theorem isDirectory_iff {name : Text} :
    isDirectory name = true ↔ name.getLast? = some slash ∨ name.getLast? = some backslash := by
  rw [isDirectory, normalized, decide_eq_true_iff, List.getLast?_map]
  cases name.getLast? with
  | none => simp
  | some c =>
    rw [Option.map_some, Option.some.injEq, Option.some.injEq, Option.some.injEq]
    by_cases its : c = backslash
    · simp [its]
    · simp [its]

theorem Accepted.exact (accepted : Accepted lib archive manifest) (clear : Clear takes archive) {stage : Tree}
    (holds : Holds archive stage) : Exact lib manifest stage := by
  obtain ⟨each, keys⟩ := validateNames_ok accepted.names
  refine ⟨fun name hash mem => ?_, fun path content there => ?_, fun name mem name' mem' same => ?_,
    fun name mem => ?_⟩
  · have checked := accepted.files _ mem
    obtain ⟨⟨e, here, rfl⟩, -, no_slash⟩ :=
      mem_actual.1 ((accepted.declared name).mp (List.mem_map.mpr ⟨_, mem, rfl⟩))
    rw [checkFile] at checked
    split at checked
    · cases checked
    · cases found : archive.find? fun d => d.name = e.name with
      | none => rw [found] at checked; cases checked
      | some d =>
        rw [found] at checked
        have named : d.name = e.name := by simpa using List.find?_some found
        have d_mem := List.mem_of_find?_eq_some found
        have file : d.isFile := by
          rw [Entry.isFile, ← Bool.not_eq_true, isDirectory_iff, not_or, named]
          exact ⟨no_slash, named ▸ clear.slashes d d_mem⟩
        change (if _ then _ else _) = _ at checked
        split at checked
        next hash =>
          exact ⟨d.content, (holds.files _ _).mpr ⟨d, d_mem, file, by rw [Entry.target, named], rfl⟩, hash⟩
        next => cases checked
  · obtain ⟨e, mem, file, rfl, -⟩ := (holds.files _ _).mp there
    by_cases its : e.name = manifestName
    · left
      rw [Entry.target, its, normalized_manifest, parts_manifest]
    · refine .inr ⟨e.name, (accepted.declared _).mpr (mem_actual.2 ⟨⟨e, mem, rfl⟩, its, fun last => ?_⟩), rfl⟩
      rw [Entry.isFile, ← Bool.not_eq_true, isDirectory_iff, not_or] at file
      exact file.1 last
  · obtain ⟨⟨e, e_mem, rfl⟩, -⟩ := mem_actual.1 ((accepted.declared _).mp mem)
    obtain ⟨⟨d, d_mem, rfl⟩, -⟩ := mem_actual.1 ((accepted.declared _).mp mem')
    have symm : Std.Symm fun a b => portableKey lib a ≠ portableKey lib b := ⟨fun _ _ => Ne.symm⟩
    by_contra different
    exact keys.forall (List.mem_map.mpr ⟨e, e_mem, rfl⟩) (List.mem_map.mpr ⟨d, d_mem, rfl⟩) different same
  · obtain ⟨⟨e, e_mem, rfl⟩, -⟩ := mem_actual.1 ((accepted.declared _).mp mem)
    exact (each _ (List.mem_map.mpr ⟨e, e_mem, rfl⟩)).1

theorem unpack_exact {destination : Place} (valid : validate lib defaults archive = .ok manifest)
    (clear : Clear takes archive) (empty : destination = .missing ∨ destination = .directory []) :
    ∃ stage, unpack lib defaults takes true archive destination = (.ok manifest, .directory stage) ∧
      Holds archive stage ∧ Exact lib manifest stage := by
  have accepted := validate_ok valid
  obtain ⟨stage, extracted, holds⟩ := accepted.extracted clear
  refine ⟨stage, ?_, holds, accepted.exact clear holds⟩
  rw [unpack, valid]
  rcases empty with rfl | rfl <;> simp only [extracted] <;> rfl

theorem unpack_error {replaces : Bool} {destination : Place} {e : String}
    (safe : replaces = true ∨ destination = .missing)
    (failed : (unpack lib defaults takes replaces archive destination).1 = .error e) :
    (unpack lib defaults takes replaces archive destination).2 = destination := by
  rw [unpack] at failed ⊢
  cases valid : validate lib defaults archive with
  | error => rfl
  | ok manifest =>
    rw [valid] at failed
    match destination with
    | .other => rfl
    | .directory (_ :: _) => rfl
    | .missing | .directory [] =>
      cases extracted : extractValidated lib takes archive with
      | error => simp only
      | ok stage =>
        simp only [extracted] at failed ⊢
        cases replaces with
        | true => cases failed
        | false => first | rfl | exact absurd safe (by simp)

end Exactness

section Packing

/-- The regular files of a source tree. -/
structure SourceTree where
  files : List Source
  proper : ∀ s ∈ files, s.path ≠ [] ∧ ∀ part ∈ s.path, part ≠ [] ∧ part ≠ [dot] ∧ slash ∉ part
  apart : ∀ s ∈ files, ∀ s' ∈ files, s.path <+: s'.path → s.path = s'.path

variable {source : SourceTree} {s : Source}

theorem SourceTree.splitOn (mem : s ∈ source.files) : s.relative.splitOn slash = s.path :=
  List.splitOn_intercalate slash (fun part h => ((source.proper s mem).2 part h).2.2) (source.proper s mem).1

theorem SourceTree.parts (mem : s ∈ source.files) : Project.parts s.relative = s.path := by
  rw [Project.parts, source.splitOn mem, List.filter_eq_self]
  exact fun part h => decide_eq_true ⟨((source.proper s mem).2 part h).1, ((source.proper s mem).2 part h).2.1⟩

theorem SourceTree.no_slash (mem : s ∈ source.files) : s.relative.getLast? ≠ some slash := by
  intro last
  obtain ⟨before, split⟩ := List.getLast?_eq_some_iff.mp last
  have own := source.splitOn mem
  rw [split, List.splitOn_append_cons_self, List.splitOn_nil] at own
  exact ((source.proper s mem).2 [] (own ▸ List.mem_append_right _ List.mem_cons_self)).1 rfl

theorem mem_packed {e : Entry} {files : List Source} :
    e ∈ packed lib manifest files ↔ e = packedManifest lib manifest files ∨ ∃ s ∈ files, e = s.entry := by
  rw [packed, List.mem_cons, List.mem_map]
  simp only [List.mem_mergeSort, eq_comm]

theorem packedManifest_target (files : List Source) : (packedManifest lib manifest files).target = [manifestName] := by
  rw [Entry.target]
  change Project.parts (normalized manifestName) = _
  rw [normalized_manifest, parts_manifest]

theorem pack_ok (packs : pack lib defaults manifest source.files = .ok archive) :
    archive = packed lib manifest (source.files.filter fun s => Eligible lib s) ∧
      ∃ manifest', validate lib defaults archive = .ok manifest' := by
  rw [pack] at packs
  dsimp only at packs
  split at packs
  · cases packs
  split at packs
  · cases packs
  cases valid : validate lib defaults (packed lib manifest (source.files.filter fun s => Eligible lib s)) with
  | error e => rw [valid] at packs; cases packs
  | ok manifest' =>
    rw [valid] at packs
    cases packs
    exact ⟨rfl, manifest', valid⟩

theorem entry_target (mem : s ∈ source.files) (clean : backslash ∉ s.relative) : s.entry.target = s.path := by
  rw [Entry.target]
  change Project.parts (normalized s.relative) = s.path
  rw [normalized_of_clean clean, source.parts mem]

theorem entry_isFile (mem : s ∈ source.files) (clean : backslash ∉ s.relative) : s.entry.isFile := by
  rw [Entry.isFile, ← Bool.not_eq_true, isDirectory_iff, not_or]
  exact ⟨source.no_slash mem, fun last => clean (List.mem_of_getLast? last)⟩

theorem eligible_root (mem : s ∈ source.files) (eligible : Eligible lib s) : ∃ root rest, s.path = root :: rest ∧
    root ≠ manifestName := by
  obtain ⟨some, each⟩ := source.proper s mem
  cases shape : s.path with
  | nil => exact absurd shape some
  | cons root rest =>
    refine ⟨root, rest, rfl, fun its => ?_⟩
    have allowed := eligible.2.1
    have clean : slash ∉ root := (each root (shape ▸ List.mem_cons_self)).2.2
    have taken : s.relative.takeWhile (· ≠ slash) = root := by
      have all : ∀ c ∈ root, decide (c ≠ slash) = true := fun c h => decide_eq_true fun same => clean (same ▸ h)
      rw [Source.relative, shape]
      cases rest with
      | nil => simpa using List.takeWhile_eq_self_iff.mpr all
      | cons next rest =>
        rw [List.intercalate_cons_cons, List.append_assoc, List.takeWhile_append_of_pos all]
        simp
    rw [taken, its] at allowed
    revert allowed
    simp [allowedRoots, manifestName, text_injective.eq_iff]

theorem packed_clear (clean : ∀ s ∈ source.files, Eligible lib s → backslash ∉ s.relative)
    (taken : ∀ s ∈ source.files, Eligible lib s → takes s.path = true)
    (taken_manifest : takes [manifestName] = true) :
    Clear takes (packed lib manifest (source.files.filter fun s => Eligible lib s)) := by
  have packed_cases : ∀ e ∈ packed lib manifest (source.files.filter fun s => Eligible lib s),
      e = packedManifest lib manifest (source.files.filter fun s => Eligible lib s) ∨
        ∃ s ∈ source.files, Eligible lib s ∧ e = s.entry := by
    intro e mem
    refine (mem_packed.1 mem).imp_right fun ⟨s, s_mem, its⟩ => ?_
    obtain ⟨here, eligible⟩ := List.mem_filter.mp s_mem
    exact ⟨s, here, of_decide_eq_true eligible, its⟩
  constructor
  · intro a a_mem b b_mem _ _ below
    rcases packed_cases a a_mem with rfl | ⟨s, mem, eligible, rfl⟩ <;>
      rcases packed_cases b b_mem with rfl | ⟨s', mem', eligible', rfl⟩
    · rfl
    · rw [packedManifest_target, entry_target mem' (clean s' mem' eligible')] at below
      obtain ⟨root, rest, shape, other⟩ := eligible_root mem' eligible'
      rw [shape] at below
      exact absurd (List.cons_prefix_cons.mp below).1.symm other
    · rw [packedManifest_target, entry_target mem (clean s mem eligible)] at below
      obtain ⟨root, rest, shape, other⟩ := eligible_root mem eligible
      rw [shape] at below
      exact absurd (List.cons_prefix_cons.mp below).1 other
    · rw [entry_target mem (clean s mem eligible), entry_target mem' (clean s' mem' eligible')] at below ⊢
      exact source.apart s mem s' mem' below
  · intro e e_mem
    rcases packed_cases e e_mem with rfl | ⟨s, mem, eligible, rfl⟩
    · change manifestName.getLast? ≠ _
      simp [manifestName, text, backslash]
    · exact fun last => clean s mem eligible (List.mem_of_getLast? last)
  · intro e e_mem _
    rcases packed_cases e e_mem with rfl | ⟨s, mem, eligible, rfl⟩
    · rwa [packedManifest_target]
    · rw [entry_target mem (clean s mem eligible)]
      exact taken s mem eligible

theorem pack_unpack (packs : pack lib defaults manifest source.files = .ok archive)
    (clean : ∀ s ∈ source.files, Eligible lib s → backslash ∉ s.relative)
    (taken : ∀ s ∈ source.files, Eligible lib s → takes s.path = true)
    (taken_manifest : takes [manifestName] = true) :
    ∃ manifest' stage, unpack lib defaults takes true archive .missing = (.ok manifest', .directory stage) ∧
      (∃ content, look stage [manifestName] = some (.file content)) ∧
      ∀ path content, path ≠ [manifestName] → (look stage path = some (.file content) ↔
        ∃ s ∈ source.files, Eligible lib s ∧ s.path = path ∧ s.content = content) := by
  obtain ⟨rfl, manifest', valid⟩ := pack_ok packs
  obtain ⟨stage, unpacked, holds, -⟩ := unpack_exact valid (packed_clear clean taken taken_manifest) (.inl rfl)
  refine ⟨manifest', stage, unpacked, ?_, fun path content other => ?_⟩
  · exact ⟨_, (holds.files _ _).mpr ⟨_, List.mem_cons_self, manifest_isFile, packedManifest_target _, rfl⟩⟩
  · rw [holds.files]
    constructor
    · rintro ⟨e, mem, file, rfl, rfl⟩
      rcases mem_packed.1 mem with rfl | ⟨s, s_mem, rfl⟩
      · exact absurd (packedManifest_target _) other
      · obtain ⟨here, eligible⟩ := List.mem_filter.mp s_mem
        have eligible := of_decide_eq_true eligible
        exact ⟨s, here, eligible, (entry_target here (clean s here eligible)).symm, rfl⟩
    · rintro ⟨s, mem, eligible, rfl, rfl⟩
      have kept : s ∈ source.files.filter fun s => Eligible lib s :=
        List.mem_filter.mpr ⟨mem, decide_eq_true eligible⟩
      have plain := clean s mem eligible
      exact ⟨s.entry, mem_packed.2 (.inr ⟨s, kept, rfl⟩), entry_isFile mem plain, entry_target mem plain, rfl⟩

end Packing

end Arenyxa.Project

/-! What `validate` accepts and `pack` makes is unpacked exactly, as far as files can stand beside each other. -/

namespace Arenyxa.Project

open Registry (Text text Json Row)

section Samples

def zeros : Text := List.replicate 64 0x30

/-- A library that reads any manifest as one that declares these files. -/
def sampleLibrary (names : List Text) : Library where
  casefold t := t
  upper t := t
  lower t := t
  strip t := t
  sha256 _ := zeros
  loads _ := some (.obj [(text "name", .str [0x61]), (text "files", .obj (names.map fun name => (name, .str zeros)))])
  dumps _ := []

def sampleDefaults : Defaults := ⟨[0x30], [0x31]⟩

def manifestEntry : Entry := ⟨manifestName, [], false, false⟩

/-- A file and a file below it, as if it were a directory. -/
def clashing : Archive := [manifestEntry, ⟨text "tests/a", [], false, false⟩, ⟨text "tests/a/b", [], false, false⟩]

def clashingLibrary : Library := sampleLibrary [text "tests/a", text "tests/a/b"]

/-- An archive of one file, which is also what its source tree is packed to. -/
def single : Archive := [manifestEntry, ⟨text "tests/a", [], false, false⟩]

def singleLibrary : Library := sampleLibrary [text "tests/a"]

def singleManifest : Manifest where
  name := [0x61]
  version := text "1.0.0"
  format := projectFormat
  createdAt := [0x30]
  appVersion := [0x31]
  pluginDependencies := []
  files := [(text "tests/a", zeros)]
  containsSecrets := false

def singleFile : Source := ⟨[text "tests", text "a"], []⟩

def singleSource : SourceTree where
  files := [singleFile]
  proper s mem := by
    cases List.mem_singleton.mp mem
    decide
  apart s mem s' mem' _ := by
    cases List.mem_singleton.mp mem
    cases List.mem_singleton.mp mem'
    rfl

theorem single_accepted : validate singleLibrary sampleDefaults single = .ok singleManifest := by decide +kernel

theorem single_packed : pack singleLibrary sampleDefaults singleManifest singleSource.files = .ok single := by
  have files : (singleSource.files.filter fun s => Eligible singleLibrary s) = [singleFile] := by
    have eligible : decide (Eligible singleLibrary singleFile) = true := by decide +kernel
    exact List.filter_cons_of_pos eligible
  have archive : packed singleLibrary singleManifest [singleFile] = single := by
    rw [packed, List.mergeSort_singleton]
    decide +kernel
  rw [pack, files, archive]
  dsimp only
  rw [if_neg (by decide), if_neg (by decide +kernel), single_accepted]
  rfl

theorem single_clean : ∀ s ∈ singleSource.files, backslash ∉ s.relative := by decide

end Samples

end Arenyxa.Project
