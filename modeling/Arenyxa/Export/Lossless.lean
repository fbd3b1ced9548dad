import Arenyxa.Lib.Cursor
import Arenyxa.Lib.Dict
import Arenyxa.Registry.Json

/-! The export of the records of a run to a file. -/

universe u v

namespace Arenyxa.Export

open Lib (Ascending above)

open Registry (Text text)

/-- The columns of a stored record besides its id; the data is an object of JSON. -/
structure Stored (V : Type u) where
  sourceUrl : Text
  fetchedAt : Text
  data : List (Text × V)
  nodup : (Dict.keys data).Nodup
  qualityFlags : V

/-- The records of a run in the order of their ids, which are a primary key. -/
abbrev Run (V : Type) := { records : List (Text × Stored V) // Ascending records }

abbrev Row (V : Type u) := List (Text × V)

inductive Format
  | csv | jsonl | json | xlsx
  deriving DecidableEq

/-- The format fixes its columns with the first row. -/
def Format.Tabular (format : Format) : Prop := format = .csv ∨ format = .xlsx

instance (format : Format) : Decidable format.Tabular := inferInstanceAs (Decidable (_ ∨ _))

/-- What the writers make of values: a cell has a textual form, and one for a missing value. -/
structure Library (V : Type) (C : Type) where
  lower : Text → Text
  str : Text → V
  cell : Format → Option V → C
  /-- The text of the cell is longer than a cell of a workbook can be. -/
  tooLong : C → Bool
  str_injective : Function.Injective str
  cell_str_injective : ∀ format, Function.Injective fun t => cell format (some (str t))

/-- A point at which the export may raise. -/
inductive Point
  | directory | temporary | query | row (n : Nat) | save | sync | replace | unlink
  deriving DecidableEq

/-- What happens around an export: when it is cancelled, for each look at the event, and where something raises. -/
structure Env where
  cancelled : Nat → Bool
  stays : ∀ i j, i ≤ j → cancelled i = true → cancelled j = true
  raises : Point → Option String

/-- The content of a written file: tables with their header, or objects. -/
inductive Content (V : Type) (C : Type)
  | tables (fields : List Text) (sheets : List (List (List C)))
  | objects (rows : List (Row V))

structure Files (V : Type) (C : Type) where
  destination : Option (Content V C)
  temporary : Option (Content V C)

section Reading

variable {V : Type}

/-- One page after the other, each with the ids above the last one. -/
def pages (records : List (Text × Stored V)) (pageSize : Nat) : Nat → Text → List (Text × Stored V)
  | 0, _ => []
  | fuel + 1, lastId =>
    let rows := (above records lastId).take pageSize
    match rows.getLast? with
    | none => []
    | some last => rows ++ pages records pageSize fuel last.1

/-- The rows that `iter_results` reads from the table. -/
def selected (run : Run V) : List (Text × Stored V) := pages run.1 1000 (run.1.length + 1) []

def systemKeys : List Text := [text "id", text "source_url", text "fetched_at", text "_quality_flags"]

variable {C : Type} (lib : Library V C)

/-- The dictionary that `iter_results` yields. -/
def rowOf (record : Text × Stored V) : Row V :=
  let columns := [(text "id", lib.str record.1), (text "source_url", lib.str record.2.sourceUrl),
    (text "fetched_at", lib.str record.2.fetchedAt)]
  Dict.put (Dict.merge columns record.2.data) (text "_quality_flags") record.2.qualityFlags

def iterResults (run : Run V) : List (Row V) := (selected run).map (rowOf lib)

end Reading

section Writing

variable {V C : Type} (lib : Library V C) (env : Env)

/-- `_rows`: it ends where the event is found set. -/
def uncancelled : Nat → List (Row V) → List (Row V)
  | _, [] => []
  | n, row :: rows => if env.cancelled n then [] else row :: uncancelled (n + 1) rows

/-- Writes the rows one after the other. -/
def writeRows {β : Type} (write : Row V → Except String β) : Nat → List (Row V) → Except String (List β)
  | _, [] => .ok []
  | n, row :: rows =>
    match env.raises (.row n) with
    | some e => .error e
    | none => do
      let first ← write row
      let rest ← writeRows write (n + 1) rows
      return first :: rest

def cells (format : Format) (fields : List Text) (row : Row V) : List C :=
  fields.map fun field => lib.cell format (row.lookup field)

def csv (rows : List (Row V)) : Except String (Content V C × Nat) := do
  match rows with
  | [] => return (.tables [] [], 0)
  | first :: _ =>
    let fields := Dict.keys first
    let written ← writeRows env (fun row => .ok (cells lib .csv fields row)) 0 rows
    return (.tables fields [written], written.length)

def objects (rows : List (Row V)) : Except String (Content V C × Nat) := do
  let written ← writeRows env (fun row => .ok row) 0 rows
  return (.objects written, written.length)

def maxSheetRows : Nat := 1048576

/-- The rows laid out on sheets, `used` rows of the first one being taken; every sheet begins with a header. -/
def layOut {β : Type} (used : Nat) : List β → List (List β)
  | [] => [[]]
  | row :: rows =>
    if maxSheetRows ≤ used then
      match layOut 2 rows with
      | sheet :: sheets => [] :: (row :: sheet) :: sheets
      | [] => [[], [row]]
    else
      match layOut (used + 1) rows with
      | sheet :: sheets => (row :: sheet) :: sheets
      | [] => [[row]]

def xlsxRow (fields : List Text) (row : Row V) : Except String (List C) :=
  if (cells lib .xlsx fields row).any lib.tooLong then .error "EXPORT_XLSX_CELL_TOO_LARGE"
  else .ok (cells lib .xlsx fields row)

def xlsx (rows : List (Row V)) : Except String (Content V C × Nat) := do
  let fields := Dict.keys (rows.headD [])
  if 16384 < fields.length then .error "EXPORT_XLSX_TOO_MANY_COLUMNS"
  else
    let written ← writeRows env (xlsxRow lib fields) 0 rows
    match env.raises .save with
    | some e => .error e
    | none => return (.tables fields (layOut 1 written), written.length)

def writer : Format → List (Row V) → Except String (Content V C × Nat)
  | .csv => csv lib env
  | .jsonl => objects env
  | .json => objects env
  | .xlsx => xlsx lib env

def formatOf (name : Text) : Option Format :=
  let normalized := lib.lower name
  if normalized = text "csv" then some .csv
  else if normalized = text "jsonl" ∨ normalized = text "ndjson" then some .jsonl
  else if normalized = text "json" then some .json
  else if normalized = text "xlsx" ∨ normalized = text "excel" then some .xlsx
  else none

/-- What raises at a point. -/
def at? (env : Env) (point : Point) : Except String Unit :=
  match env.raises point with
  | some e => .error e
  | none => .ok ()

/-- The content that is ready to replace the destination, and the number of its rows. -/
def prepare (format : Format) (run : Run V) : Except String (Content V C × Nat) := do
  at? env .query
  let rows := iterResults lib run
  let (content, count) ← writer lib env format (uncancelled env 0 rows)
  if env.cancelled rows.length then .error "EXPORT_CANCELLED"
  else
    at? env .sync
    at? env .replace
    return (content, count)

/-- The temporary file takes the place of the destination only at the end, and is removed in any case. -/
def exportRun (name : Text) (run : Run V) (files : Files V C) : Except String Nat × Files V C :=
  match at? env .directory, formatOf lib name, at? env .temporary with
  | .error e, _, _ => (.error e, files)
  | .ok _, none, _ => (.error "unsupported export format", files)
  | .ok _, some _, .error e => (.error e, files)
  | .ok _, some format, .ok _ =>
    match prepare lib env format run with
    | .error e =>
      let left := if (env.raises .unlink).isSome then some (.objects []) else none
      (.error e, { files with temporary := left })
    | .ok (content, count) => (.ok count, { destination := some content, temporary := none })

end Writing

end Arenyxa.Export

/-! What the rows of an export keep of the records. -/

namespace Arenyxa.Export

open Lib (Ascending above mem_above above_above above_eq_self above_last)

open Registry (Text text text_injective text_ne)

section Pages

variable {V : Type} {records : List (Text × Stored V)}

theorem pages_eq (sorted : Ascending records) {pageSize : Nat} (some : 0 < pageSize) (fuel : Nat) (lastId : Text)
    (enough : (above records lastId).length < fuel) : pages records pageSize fuel lastId = above records lastId := by
  induction fuel generalizing lastId with
  | zero => exact absurd enough (Nat.not_lt_zero _)
  | succ fuel ih =>
    unfold pages
    dsimp only
    split
    next nothing =>
      rw [List.getLast?_eq_none_iff, List.take_eq_nil_iff] at nothing
      exact (nothing.resolve_left some.ne').symm
    next last its =>
      have mem : last ∈ above records lastId := List.mem_of_mem_take (List.mem_of_getLast? its)
      have rest : above records last.1 = (above records lastId).drop pageSize := by
        rw [← above_above (mem_above.mp mem).2.le]
        exact above_last (sorted.above lastId) its
      have nonempty := List.length_pos_of_mem mem
      have fewer : (above records last.1).length < fuel := by
        rw [rest, List.length_drop]
        omega
      rw [ih last.1 fewer, rest]
      exact List.take_append_drop pageSize _

theorem selected_eq (run : Run V) : selected run = above run.1 [] :=
  pages_eq run.2 (Nat.succ_pos 999) _ [] (Nat.lt_succ_of_le (List.length_filter_le _ _))

theorem selected_eq_self {run : Run V} (ids : ∀ record ∈ run.1, record.1 ≠ []) : selected run = run.1 := by
  refine (selected_eq run).trans (above_eq_self fun record mem => ?_)
  obtain ⟨c, id, its⟩ := List.exists_cons_of_ne_nil (ids record mem)
  exact its ▸ List.nil_lt_cons c id

end Pages

section Rows

variable {V C : Type} (lib : Library V C) {record record' : Text × Stored V} {k : Text}

def columns (record : Text × Stored V) : Row V :=
  [(text "id", lib.str record.1), (text "source_url", lib.str record.2.sourceUrl),
    (text "fetched_at", lib.str record.2.fetchedAt)]

theorem lookup_rowOf : (rowOf lib record).lookup k =
    if k = text "_quality_flags" then some record.2.qualityFlags
    else (record.2.data.lookup k).or ((columns lib record).lookup k) :=
  Dict.lookup_put.trans (if_congr Iff.rfl rfl (Dict.lookup_merge record.2.nodup))

theorem mem_keys_rowOf : k ∈ Dict.keys (rowOf lib record) ↔ k ∈ systemKeys ∨ k ∈ Dict.keys record.2.data := by
  have system : k ∈ systemKeys ↔ k ∈ Dict.keys (columns lib record) ∨ k = text "_quality_flags" := by
    rw [show systemKeys = Dict.keys (columns lib record) ++ [text "_quality_flags"] from rfl, List.mem_append,
      List.mem_singleton]
  have row : k ∈ Dict.keys (rowOf lib record) ↔
      k = text "_quality_flags" ∨ k ∈ Dict.keys record.2.data ∨ k ∈ Dict.keys (columns lib record) :=
    Dict.mem_keys_put.trans (or_congr_right (Dict.mem_keys_merge record.2.nodup))
  rw [row, system, or_left_comm, or_comm, or_comm (b := k = text "_quality_flags")]

/-- The names of the data are apart from those of the columns. -/
def Apart (record : Text × Stored V) : Prop := ∀ key ∈ Dict.keys record.2.data, key ∉ systemKeys

theorem Apart.lookup_data (apart : Apart record) (own : k ∈ systemKeys) : record.2.data.lookup k = none :=
  Dict.lookup_eq_none_iff.mpr fun mem => apart k mem own

theorem Apart.lookup_id (apart : Apart record) : (rowOf lib record).lookup (text "id") = some (lib.str record.1) := by
  rw [lookup_rowOf, apart.lookup_data (by decide)]
  rfl

theorem Apart.lookup_sourceUrl (apart : Apart record) :
    (rowOf lib record).lookup (text "source_url") = some (lib.str record.2.sourceUrl) := by
  rw [lookup_rowOf, apart.lookup_data (by decide)]
  rfl

theorem Apart.lookup_fetchedAt (apart : Apart record) :
    (rowOf lib record).lookup (text "fetched_at") = some (lib.str record.2.fetchedAt) := by
  rw [lookup_rowOf, apart.lookup_data (by decide)]
  rfl

theorem lookup_flags : (rowOf lib record).lookup (text "_quality_flags") = some record.2.qualityFlags :=
  (lookup_rowOf lib).trans (if_pos rfl)

theorem lookup_other (other : k ∉ systemKeys) : (rowOf lib record).lookup k = record.2.data.lookup k := by
  have flags : k ≠ text "_quality_flags" := fun its => other (its ▸ by decide)
  have nowhere : (columns lib record).lookup k = none := by
    refine Dict.lookup_eq_none_iff.mpr fun mem => other ?_
    exact List.mem_append_left [text "_quality_flags"] mem
  rw [lookup_rowOf, if_neg flags, nowhere, Option.or_none]

end Rows

section Written

variable {V C : Type} {lib : Library V C} {env : Env}

theorem uncancelled_eq {n : Nat} {rows : List (Row V)} (never : env.cancelled (n + rows.length) = false) :
    uncancelled env n rows = rows := by
  induction rows generalizing n with
  | nil => rfl
  | cons row rows ih =>
    have quiet : env.cancelled n = false := by
      by_contra set
      have still := env.stays n _ (Nat.le_add_right n (row :: rows).length) (Bool.eq_true_of_not_eq_false set)
      rw [never] at still
      cases still
    have later : env.cancelled (n + 1 + rows.length) = false := by
      rw [List.length_cons] at never
      rwa [Nat.add_assoc, Nat.add_comm 1]
    rw [uncancelled, quiet, ih later]
    rfl

theorem writeRows_ok {β : Type} {write : Row V → Except String β} {n : Nat} {rows : List (Row V)}
    {written : List β} (done : writeRows env write n rows = .ok written) :
    List.Forall₂ (fun row item => write row = .ok item) rows written := by
  induction rows generalizing n written with
  | nil =>
    cases done
    exact .nil
  | cons row rows ih =>
    unfold writeRows at done
    split at done
    next => cases done
    next =>
      rcases here : write row with e | item
      · rw [here] at done
        cases done
      rcases later : writeRows env write (n + 1) rows with e | items
      · rw [here, later] at done
        cases done
      rw [here, later] at done
      cases done
      exact .cons here (ih later)

theorem writeRows_map {β : Type} {write : Row V → Except String β} {f : Row V → β} {n : Nat} {rows : List (Row V)}
    {written : List β} (same : ∀ row item, write row = .ok item → item = f row)
    (done : writeRows env write n rows = .ok written) : written = rows.map f := by
  have all : List.Forall₂ (· = ·) written (rows.map f) :=
    List.forall₂_map_right_iff.mpr ((writeRows_ok done).imp same).flip
  rwa [List.forall₂_eq_eq_eq] at all

theorem layOut_flatten {β : Type} (used : Nat) (rows : List β) : (layOut used rows).flatten = rows := by
  induction rows generalizing used with
  | nil => rfl
  | cons row rows ih =>
    unfold layOut
    split
    · have rest := ih 2
      split
      next sheet sheets eq =>
        rw [eq] at rest
        exact congrArg (row :: ·) rest
      next eq =>
        rw [eq] at rest
        exact congrArg (row :: ·) rest
    · have rest := ih (used + 1)
      split
      next sheet sheets eq =>
        rw [eq] at rest
        exact congrArg (row :: ·) rest
      next eq =>
        rw [eq] at rest
        exact congrArg (row :: ·) rest

/-- What a finished file holds of the rows. -/
def Holds (lib : Library V C) (format : Format) (rows : List (Row V)) : Content V C → Prop
  | .tables fields sheets => format.Tabular ∧ fields = Dict.keys (rows.headD []) ∧
      sheets.flatten = rows.map (cells lib format fields)
  | .objects written => ¬format.Tabular ∧ written = rows

theorem writer_ok {format : Format} {rows : List (Row V)} {content : Content V C} {count : Nat}
    (done : writer lib env format rows = .ok (content, count)) :
    count = rows.length ∧ Holds lib format rows content := by
  have wrote : ∀ {β : Type} {write : Row V → Except String β} {f : Row V → β},
      (∀ row item, write row = .ok item → item = f row) → ∀ {next : List β → Except String (Content V C × Nat)},
      (writeRows env write 0 rows >>= next) = .ok (content, count) → next (rows.map f) = .ok (content, count) := by
    intro β write f same next run
    rcases written : writeRows env write 0 rows with e | items
    · rw [written] at run
      cases run
    · rw [written] at run
      rwa [← writeRows_map same written]
  cases format with
  | csv =>
    rcases rows with _ | ⟨first, rest⟩
    · cases done
      exact ⟨rfl, .inl rfl, rfl, rfl⟩
    · have eq := wrote (f := cells lib .csv (Dict.keys first)) (fun _ _ its => (Except.ok.inj its).symm) done
      cases eq
      exact ⟨List.length_map _, .inl rfl, rfl, List.append_nil _⟩
  | jsonl =>
    have eq := wrote (f := id) (fun _ _ its => (Except.ok.inj its).symm) done
    cases eq
    exact ⟨List.length_map _, by decide, List.map_id rows⟩
  | json =>
    have eq := wrote (f := id) (fun _ _ its => (Except.ok.inj its).symm) done
    cases eq
    exact ⟨List.length_map _, by decide, List.map_id rows⟩
  | xlsx =>
    have shown : ∀ row item, xlsxRow lib (Dict.keys (rows.headD [])) row = .ok item →
        item = cells lib .xlsx (Dict.keys (rows.headD [])) row := by
      intro row item its
      unfold xlsxRow at its
      split at its
      next => cases its
      next => exact (Except.ok.inj its).symm
    unfold writer xlsx at done
    dsimp only at done
    split at done
    next => cases done
    next =>
      have eq := wrote shown done
      split at eq
      next => cases eq
      next =>
        cases eq
        exact ⟨List.length_map _, .inr rfl, rfl, layOut_flatten 1 _⟩

theorem prepare_ok {format : Format} {run : Run V} {content : Content V C} {count : Nat}
    (done : prepare lib env format run = .ok (content, count)) :
    env.cancelled (selected run).length = false ∧ count = (selected run).length ∧
      Holds lib format (iterResults lib run) content := by
  have length : (iterResults lib run).length = (selected run).length := List.length_map _
  unfold prepare at done
  dsimp only [bind, Except.bind] at done
  split at done
  next => cases done
  next =>
    rcases wrote : writer lib env format (uncancelled env 0 (iterResults lib run)) with e | ⟨content', count'⟩
    · rw [wrote] at done
      cases done
    rw [wrote] at done
    dsimp only at done
    split at done
    next => cases done
    next never =>
      rw [Bool.not_eq_true] at never
      split at done
      next => cases done
      next =>
        split at done
        next => cases done
        next =>
          cases done
          rw [uncancelled_eq (by rwa [Nat.zero_add])] at wrote
          obtain ⟨all, holds⟩ := writer_ok wrote
          exact ⟨length ▸ never, all.trans length, holds⟩

theorem exportRun_ok {name : Text} {run : Run V} {files files' : Files V C} {count : Nat}
    (done : exportRun lib env name run files = (.ok count, files')) :
    ∃ format content, formatOf lib name = some format ∧ files'.destination = some content ∧
      prepare lib env format run = .ok (content, count) := by
  unfold exportRun at done
  split at done
  next => cases done
  next => cases done
  next => cases done
  next _ format _ _ its _ =>
    split at done
    next => cases done
    next content count' prepared =>
      cases done
      exact ⟨format, content, its, rfl, prepared⟩

theorem exportRun_error {name : Text} {run : Run V} {files files' : Files V C} {e : String}
    (failed : exportRun lib env name run files = (.error e, files')) : files'.destination = files.destination := by
  unfold exportRun at failed
  split at failed
  next => cases failed; rfl
  next => cases failed; rfl
  next => cases failed; rfl
  next =>
    split at failed
    next => cases failed; rfl
    next => cases failed

end Written

section Records

variable {V C : Type} (lib : Library V C) (format : Format)

/-- The same value, or in a table the same cell. -/
def Seen (value value' : Option V) : Prop :=
  if format.Tabular then lib.cell format value = lib.cell format value' else value = value'

/-- The records are the same, in a table up to the cells of their values. -/
structure Agree (record record' : Text × Stored V) : Prop where
  id : record.1 = record'.1
  sourceUrl : record.2.sourceUrl = record'.2.sourceUrl
  fetchedAt : record.2.fetchedAt = record'.2.fetchedAt
  data : ∀ key, Seen lib format (record.2.data.lookup key) (record'.2.data.lookup key)
  qualityFlags : Seen lib format (some record.2.qualityFlags) (some record'.2.qualityFlags)

/-- The names in the data are no columns, and in a table they are names that the first record has. -/
structure Clear (run : Run V) : Prop where
  ids : ∀ record ∈ run.1, record.1 ≠ []
  apart : ∀ record ∈ run.1, Apart record
  columns : format.Tabular → ∀ first, run.1.head? = some first → ∀ record ∈ run.1,
    ∀ key ∈ Dict.keys record.2.data, key ∈ Dict.keys first.2.data

variable {lib format} {record record' : Text × Stored V} {k : Text}

theorem Seen.refl (value : Option V) : Seen lib format value value := by
  unfold Seen
  split <;> rfl

theorem Seen.str {t t' : Text} (seen : Seen lib format (some (lib.str t)) (some (lib.str t'))) : t = t' := by
  unfold Seen at seen
  split at seen
  next => exact lib.cell_str_injective format seen
  next => exact lib.str_injective (Option.some.inj seen)

theorem agree_of_seen (apart : Apart record) (apart' : Apart record')
    (seen : ∀ key, Seen lib format ((rowOf lib record).lookup key) ((rowOf lib record').lookup key)) :
    Agree lib format record record' where
  id := Seen.str (apart.lookup_id lib ▸ apart'.lookup_id lib ▸ seen (text "id"))
  sourceUrl := Seen.str (apart.lookup_sourceUrl lib ▸ apart'.lookup_sourceUrl lib ▸ seen (text "source_url"))
  fetchedAt := Seen.str (apart.lookup_fetchedAt lib ▸ apart'.lookup_fetchedAt lib ▸ seen (text "fetched_at"))
  data key := by
    by_cases system : key ∈ systemKeys
    · rw [apart.lookup_data system, apart'.lookup_data system]
      exact Seen.refl none
    · have row := seen key
      rwa [lookup_other lib system, lookup_other lib system] at row
  qualityFlags := by
    have row := seen (text "_quality_flags")
    rwa [lookup_flags, lookup_flags] at row

theorem Clear.lookup_eq_none {run : Run V} (clear : Clear format run) (tabular : format.Tabular)
    (mem : record ∈ run.1) (outside : k ∉ Dict.keys ((run.1.map (rowOf lib)).headD [])) :
    (rowOf lib record).lookup k = none := by
  refine Dict.lookup_eq_none_iff.mpr fun inside => outside ?_
  rcases whole : run.1 with _ | ⟨first, rest⟩
  · rw [whole] at mem
    cases mem
  · have head : run.1.head? = some first := whole ▸ rfl
    refine (mem_keys_rowOf lib).mpr (((mem_keys_rowOf lib).mp inside).imp_right fun named => ?_)
    exact clear.columns tabular first head record mem k named

theorem forall₂_of_map_eq {α β : Type} {f : α → β} {l l' : List α} (same : l.map f = l'.map f) :
    List.Forall₂ (fun a b => f a = f b) l l' := by
  have all : List.Forall₂ (· = ·) (l.map f) (l'.map f) := by
    rw [List.forall₂_eq_eq_eq]
    exact same
  exact List.forall₂_map_right_iff.mp (List.forall₂_map_left_iff.mp all)

theorem agree_of_holds {run run' : Run V} {content : Content V C} (clear : Clear format run)
    (clear' : Clear format run') (holds : Holds lib format (run.1.map (rowOf lib)) content)
    (holds' : Holds lib format (run'.1.map (rowOf lib)) content) :
    List.Forall₂ (Agree lib format) run.1 run'.1 := by
  have agree : ∀ {record record'}, (record, record') ∈ run.1.zip run'.1 →
      (∀ key, Seen lib format ((rowOf lib record).lookup key) ((rowOf lib record').lookup key)) →
      Agree lib format record record' := by
    intro record record' pair
    obtain ⟨mem, mem'⟩ := List.of_mem_zip pair
    exact agree_of_seen (clear.apart record mem) (clear'.apart record' mem')
  rcases content with ⟨fields, sheets⟩ | written
  · obtain ⟨tabular, own, flat⟩ := holds
    obtain ⟨_, own', flat'⟩ := holds'
    have same : run.1.map (cells lib format fields ∘ rowOf lib) =
        run'.1.map (cells lib format fields ∘ rowOf lib) := by
      rw [← List.map_map, ← List.map_map, ← flat, ← flat']
    obtain ⟨length, pairs⟩ := List.forall₂_iff_zip.mp (forall₂_of_map_eq same)
    refine List.forall₂_iff_zip.mpr ⟨length, fun {record record'} pair => agree pair fun key => ?_⟩
    obtain ⟨mem, mem'⟩ := List.of_mem_zip pair
    by_cases column : key ∈ fields
    · exact (if_pos tabular).mpr (List.map_inj_left.mp (pairs pair) key column)
    · rw [clear.lookup_eq_none tabular mem (own ▸ column), clear'.lookup_eq_none tabular mem' (own' ▸ column)]
      exact Seen.refl none
  · obtain ⟨_, own⟩ := holds
    obtain ⟨_, own'⟩ := holds'
    obtain ⟨length, pairs⟩ := List.forall₂_iff_zip.mp (forall₂_of_map_eq (own.symm.trans own'))
    refine List.forall₂_iff_zip.mpr ⟨length, fun {record record'} pair => agree pair fun key => ?_⟩
    rw [pairs pair]
    exact Seen.refl _

end Records

section Main

variable {V C : Type}

/-- An export that fails or is cancelled leaves the destination. Where the names are clear, one that succeeds writes
the row of every record in the order of their ids, and the rows determine the records. -/
theorem export_keeps (lib : Library V C) (env : Env) (name : Text) (run : Run V) (files : Files V C) :
    (∀ e files', exportRun lib env name run files = (.error e, files') → files'.destination = files.destination) ∧
    ((∃ n ≤ (selected run).length, env.cancelled n = true) →
      (exportRun lib env name run files).2.destination = files.destination) ∧
    ∀ format count files', formatOf lib name = some format → Clear format run →
      exportRun lib env name run files = (.ok count, files') →
      ∃ content, files'.destination = some content ∧ count = run.1.length ∧
        Holds lib format (run.1.map (rowOf lib)) content ∧
        ∀ env₁ name₁ run₁ files₁ count₁ files₂, formatOf lib name₁ = some format → Clear format run₁ →
          exportRun lib env₁ name₁ run₁ files₁ = (.ok count₁, files₂) → files₂.destination = some content →
          List.Forall₂ (Agree lib format) run.1 run₁.1 := by
  refine ⟨fun e files' => exportRun_error, ?_, ?_⟩
  · rintro ⟨n, within, set⟩
    rcases ran : exportRun lib env name run files with ⟨e | count, files'⟩
    · exact exportRun_error ran
    · obtain ⟨format, content, _, _, prepared⟩ := exportRun_ok ran
      have still := env.stays n _ within set
      rw [(prepare_ok prepared).1] at still
      cases still
  · intro format count files' its clear ran
    obtain ⟨_, content, named, placed, prepared⟩ := exportRun_ok ran
    cases its.symm.trans named
    obtain ⟨_, all, holds⟩ := prepare_ok prepared
    rw [iterResults, selected_eq_self clear.ids] at holds
    rw [selected_eq_self clear.ids] at all
    refine ⟨content, placed, all, holds, ?_⟩
    intro env₁ name₁ run₁ files₁ count₁ files₂ its₁ clear₁ ran₁ same
    obtain ⟨_, content₁, named₁, placed₁, prepared₁⟩ := exportRun_ok ran₁
    cases its₁.symm.trans named₁
    cases placed₁.symm.trans same
    obtain ⟨_, _, holds₁⟩ := prepare_ok prepared₁
    rw [iterResults, selected_eq_self clear₁.ids] at holds₁
    exact agree_of_holds clear clear₁ holds holds₁

/-- Values are texts, and a table shows them as they are. -/
def sampleLibrary : Library Text Text where
  lower := id
  str := id
  cell _ value := value.getD []
  tooLong t := 32767 < t.length
  str_injective _ _ same := same
  cell_str_injective _ _ _ same := same

def quiet : Env := ⟨fun _ => false, fun _ _ _ set => set, fun _ => none⟩

/-- A record of a page with the names and values of its data. -/
def sampleRecord (id : String) (data : List (Text × Text)) (nodup : (Dict.keys data).Nodup) : Text × Stored Text :=
  (text id, ⟨text "https://a.example/", text "2026", data, nodup, text "[]"⟩)

/-- The second record has a value for a name that the first one lacks. -/
def sampleRun (value : String) : Run Text :=
  ⟨[sampleRecord "1" [(text "x", text "a")] (List.nodup_singleton _),
    sampleRecord "2" [(text "x", text "b"), (text "y", text value)] (by simp [Dict.keys, text_injective.eq_iff])],
    List.pairwise_pair.mpr (show text "1" < text "2" by decide)⟩

def fullDisk : Env := { quiet with raises := fun point => if point = .sync then some "disk" else none }

/-- The event is set after the first row. -/
def cancelledLate : Env :=
  ⟨fun n => decide (1 ≤ n), fun _ _ le set => decide_eq_true ((of_decide_eq_true set).trans le), fun _ => none⟩

def untouched : Files Text Text := ⟨some (.objects []), none⟩

theorem sampleRun_clear (value : String) : Clear .jsonl (sampleRun value) where
  ids := List.forall_mem_cons.mpr ⟨text_ne (by decide), List.forall_mem_singleton.mpr (text_ne (by decide))⟩
  apart := List.forall_mem_cons.mpr ⟨show ∀ key ∈ [text "x"], key ∉ systemKeys by decide,
    List.forall_mem_singleton.mpr (show ∀ key ∈ [text "x", text "y"], key ∉ systemKeys by decide)⟩
  columns tabular := absurd tabular (by decide)

/-- A full disk and an event set after the first row leave the destination, and the lines of two runs are compared. -/
theorem export_keeps_sample :
    (exportRun sampleLibrary fullDisk (text "json") (sampleRun "1") untouched).2.destination = untouched.destination ∧
    (exportRun sampleLibrary cancelledLate (text "json") (sampleRun "1") untouched).2.destination =
      untouched.destination ∧
    ∃ content,
      (exportRun sampleLibrary quiet (text "ndjson") (sampleRun "1") untouched).2.destination = some content ∧
      (2 = (sampleRun "1").1.length) ∧
      List.Forall₂ (Agree sampleLibrary .jsonl) (sampleRun "1").1 (sampleRun "1").1 := by
  refine ⟨(export_keeps sampleLibrary fullDisk (text "json") (sampleRun "1") untouched).1 "disk" untouched rfl,
    (export_keeps sampleLibrary cancelledLate (text "json") (sampleRun "1") untouched).2.1
      ⟨1, by decide, by decide⟩, ?_⟩
  obtain ⟨content, placed, all, _, same⟩ := (export_keeps sampleLibrary quiet (text "ndjson") (sampleRun "1")
    untouched).2.2 .jsonl 2 _ rfl (sampleRun_clear "1") rfl
  exact ⟨content, placed, all, same quiet (text "jsonl") (sampleRun "1") untouched 2 _ rfl (sampleRun_clear "1") rfl
    placed⟩

/-- A table has only the columns of its first row, and the value of another column is lost. -/
theorem table_drops_value :
    (exportRun sampleLibrary quiet (text "csv") (sampleRun "1") untouched).1.toOption = some 2 ∧
    (exportRun sampleLibrary quiet (text "csv") (sampleRun "1") untouched).2.destination =
      (exportRun sampleLibrary quiet (text "csv") (sampleRun "2") untouched).2.destination ∧
    ¬List.Forall₂ (Agree sampleLibrary .csv) (sampleRun "1").1 (sampleRun "2").1 := by
  refine ⟨rfl, rfl, fun agree => ?_⟩
  have last := (List.forall₂_cons.mp (List.forall₂_cons.mp agree).2).1
  have cell : text "1" = text "2" := last.data (text "y")
  exact absurd cell (by decide)

end Main

end Arenyxa.Export
