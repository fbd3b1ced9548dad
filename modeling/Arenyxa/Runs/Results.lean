import Arenyxa.Lib.Outcome
import Arenyxa.Lib.Table

/-! The records of runs and the hashes that keep a content from being stored twice in one run. -/

namespace Arenyxa.Results

open Outcome Table

inductive StoreError
  | value (text : String)
  | integrity
  | encoding
  /-- What the iterator, the database or the process raises. -/
  | raised (text : String)

/-- A record that is given to the store, with its data still to be encoded. -/
structure ResultRecord (ρ : Type) where
  id : String
  taskId : String
  runId : String
  sourceUrl : String
  fetchedAt : String
  data : ρ
  contentHash : String
  qualityFlags : List String

/-- A row of `result_records`. -/
structure Row where
  id : String
  taskId : String
  runId : String
  sourceUrl : String
  fetchedAt : String
  dataJson : String
  contentHash : String
  qualityFlagsJson : String

instance : Keyed Row String := ⟨Row.id⟩

structure Tables where
  tasks : List String
  runs : List String
  results : Table Row
  hashes : List (String × String)

/-- `json.dumps` of the data and of the flags, `none` where it raises. -/
structure Codec (ρ : Type) where
  dumps : ρ → Option String
  dumpsFlags : List String → Option String

/-- What goes wrong while a call runs: the iterator when it is asked for its `n`th record or for the end, a statement
for that record, and the statements around the loop. -/
structure Faults where
  start : Option StoreError
  pull : Nat → Option StoreError
  mark : Nat → Option StoreError
  write : Nat → Option StoreError
  commit : Option StoreError

def Faults.none : Faults := ⟨.none, fun _ => .none, fun _ => .none, fun _ => .none, .none⟩

section Calls

variable {ρ : Type} (codec : Codec ρ) (faults : Faults)

def may (fault : Option StoreError) : Except StoreError Unit :=
  match fault with
  | none => .ok ()
  | some e => .error e

def encoded (text : Option String) : Except StoreError String :=
  match text with
  | none => .error .encoding
  | some text => .ok text

/-- What is marked for a record: no other of the run has its content. -/
def ResultRecord.key (r : ResultRecord ρ) : String × String := (r.runId, r.contentHash)

/-- `INSERT OR IGNORE INTO run_result_hashes`, and whether a row was inserted. A key that is there is passed over before
the reference to the run is checked. -/
def insertHash (key : String × String) (t : Tables) : Except StoreError (Bool × Tables) :=
  if key ∈ t.hashes then .ok (false, t)
  else if key.1 ∈ t.runs then .ok (true, { t with hashes := t.hashes ++ [key] })
  else .error .integrity

/-- `INSERT INTO result_records`. -/
def insertRow (t : Tables) (row : Row) : Except StoreError Tables := do
  require (t.results.get? row.id = none ∧ row.taskId ∈ t.tasks ∧ row.runId ∈ t.runs) .integrity
  return { t with results := t.results.insert row }

def encodeRow (r : ResultRecord ρ) : Except StoreError Row := do
  let dataJson ← encoded (codec.dumps r.data)
  let qualityFlagsJson ← encoded (codec.dumpsFlags r.qualityFlags)
  return ⟨r.id, r.taskId, r.runId, r.sourceUrl, r.fetchedAt, dataJson, r.contentHash, qualityFlagsJson⟩

/-- The loop over the records, from the `n`th on. -/
def storeRecords (targetBatchSize : Nat) : Nat → List (ResultRecord ρ) → List Row → Nat → Tables →
    Except StoreError (Nat × Tables)
  | n, [], batch, total, t => do
    may (faults.pull n)
    if batch = [] then return (total, t)
    may (faults.write n)
    let t ← batch.foldlM insertRow t
    return (total + batch.length, t)
  | n, record :: records, batch, total, t => do
    may (faults.pull n)
    may (faults.mark n)
    let (marked, t) ← insertHash record.key t
    if marked = false then storeRecords targetBatchSize (n + 1) records batch total t
    else
      let row ← encodeRow codec record
      if targetBatchSize ≤ batch.length + 1 then do
        may (faults.write n)
        let t ← (batch ++ [row]).foldlM insertRow t
        storeRecords targetBatchSize (n + 1) records [] (total + (batch.length + 1)) t
      else storeRecords targetBatchSize (n + 1) records (batch ++ [row]) total t

/-- The body of the transaction and its commit. -/
def transact (records : List (ResultRecord ρ)) (batchSize : Int) (t : Tables) : Except StoreError (Nat × Tables) := do
  require (0 < batchSize) (.value "batch_size must be a positive integer")
  may faults.start
  let (total, t) ← storeRecords codec faults (min 5000 batchSize).toNat 0 records [] 0 t
  may faults.commit
  return (total, t)

/-- `append_results`: what it returns or raises and the tables it leaves. A transaction that raises is rolled back. -/
def appendResults (records : List (ResultRecord ρ)) (batchSize : Int) (t : Tables) : Except StoreError Nat × Tables :=
  match transact codec faults records batchSize t with
  | .ok (total, t') => (.ok total, t')
  | .error e => (.error e, t)

end Calls

section Stored

variable {ρ : Type}

/-- The records that the store keeps: the first of each key that is not marked yet. -/
def firsts : List (String × String) → List (ResultRecord ρ) → List (ResultRecord ρ)
  | _, [] => []
  | seen, record :: records =>
    if record.key ∈ seen then firsts seen records else record :: firsts (seen ++ [record.key]) records

theorem firsts_append (seen : List (String × String)) (records later : List (ResultRecord ρ)) :
    firsts seen (records ++ later) =
      firsts seen records ++ firsts (seen ++ (firsts seen records).map ResultRecord.key) later := by
  induction records generalizing seen with
  | nil => simp [firsts]
  | cons record records ih =>
    rw [List.cons_append, firsts, firsts]
    split
    · exact ih seen
    · rw [ih, List.cons_append, List.map_cons, List.append_assoc, List.singleton_append]

theorem mem_firsts {seen : List (String × String)} {records : List (ResultRecord ρ)} {r : ResultRecord ρ} :
    r ∈ firsts seen records ↔ r.key ∉ seen ∧ records.find? (fun x => x.key = r.key) = some r := by
  induction records generalizing seen with
  | nil => simp [firsts]
  | cons record records ih =>
    rw [firsts, List.find?_cons]
    by_cases same : record.key = r.key
    · simp only [same, decide_true, Option.some.injEq]
      split
      next marked => rw [ih]; exact iff_of_false (fun its => its.1 marked) fun its => its.1 marked
      next unmarked =>
        rw [List.mem_cons, ih]
        constructor
        · rintro (rfl | ⟨away, -⟩)
          · exact ⟨unmarked, rfl⟩
          · exact absurd (List.mem_append_right _ (List.mem_singleton.mpr rfl)) away
        · rintro ⟨-, rfl⟩
          exact .inl rfl
    · simp only [same, decide_false]
      split
      next marked => exact ih
      next unmarked =>
        have other : r ≠ record := fun its => same (its ▸ rfl)
        rw [List.mem_cons, or_iff_right other, ih, List.mem_append, List.mem_singleton, not_or]
        exact ⟨fun its => ⟨its.1.1, its.2⟩, fun its => ⟨⟨its.1, fun its' => same its'.symm⟩, its.2⟩⟩

theorem nodup_firsts (seen : List (String × String)) (records : List (ResultRecord ρ)) :
    ((firsts seen records).map ResultRecord.key).Nodup := by
  induction records generalizing seen with
  | nil => exact List.nodup_nil
  | cons record records ih =>
    rw [firsts]
    split
    · exact ih seen
    · refine List.nodup_cons.mpr ⟨fun mem => ?_, ih _⟩
      obtain ⟨r, kept, same⟩ := List.mem_map.mp mem
      exact (mem_firsts.1 kept).1 (same ▸ List.mem_append_right _ (List.mem_singleton.mpr rfl))

end Stored

section Spec

variable {ρ : Type} {codec : Codec ρ} {faults : Faults} {t t' t₁ : Tables} {records later : List (ResultRecord ρ)}

/-- The tables after a waiting batch and some records were stored in order, and how many rows that made. -/
structure Stores (codec : Codec ρ) (batch : List Row) (t : Tables) (records : List (ResultRecord ρ)) (total : Nat)
    (t' : Tables) : Prop where
  rows : ∃ rows, (firsts t.hashes records).mapM (encodeRow codec) = .ok rows ∧
    t'.results.rows = t.results.rows ++ (batch ++ rows) ∧ total = batch.length + rows.length
  hashes : t'.hashes = t.hashes ++ (firsts t.hashes records).map ResultRecord.key
  tasks : t'.tasks = t.tasks
  runs : t'.runs = t.runs

theorem Stores.append {n m : Nat} (first : Stores codec [] t records n t₁) (rest : Stores codec [] t₁ later m t') :
    Stores codec [] t (records ++ later) (n + m) t' := by
  obtain ⟨rows, encoded, written, rfl⟩ := first.rows
  obtain ⟨rows', encoded', written', rfl⟩ := rest.rows
  have parts := firsts_append t.hashes records later
  rw [← first.hashes] at parts
  refine ⟨⟨rows ++ rows', ?_, ?_, ?_⟩, ?_, rest.tasks.trans first.tasks, rest.runs.trans first.runs⟩
  · rw [parts, List.mapM_append, encoded, encoded']
    rfl
  · rw [written', written, List.nil_append, List.nil_append, List.nil_append, List.append_assoc]
  · simp
  · rw [rest.hashes, parts, List.map_append, ← List.append_assoc, ← first.hashes]

theorem insertRow_ok {row : Row} (h : insertRow t row = .ok t') :
    t'.results.rows = t.results.rows ++ [row] ∧ t'.hashes = t.hashes ∧ t'.tasks = t.tasks ∧ t'.runs = t.runs := by
  obtain ⟨_, fits, h⟩ := bind_eq_ok.mp h
  cases h
  exact ⟨rows_insert (require_eq_ok.mp fits).1, rfl, rfl, rfl⟩

theorem foldlM_insertRow {rows : List Row} (h : rows.foldlM insertRow t = .ok t') :
    t'.results.rows = t.results.rows ++ rows ∧ t'.hashes = t.hashes ∧ t'.tasks = t.tasks ∧ t'.runs = t.runs := by
  induction rows generalizing t with
  | nil =>
    cases h
    exact ⟨(List.append_nil _).symm, rfl, rfl, rfl⟩
  | cons row rows ih =>
    rw [List.foldlM_cons] at h
    obtain ⟨t₁, first, h⟩ := bind_eq_ok.mp h
    obtain ⟨results, hashes, tasks, runs⟩ := insertRow_ok first
    obtain ⟨results', hashes', tasks', runs'⟩ := ih h
    exact ⟨by rw [results', results, List.append_assoc, List.singleton_append], hashes'.trans hashes, tasks'.trans tasks,
      runs'.trans runs⟩

theorem insertHash_ok {key : String × String} {marked : Bool} (h : insertHash key t = .ok (marked, t')) :
    (key ∈ t.hashes ∧ marked = false ∧ t' = t) ∨
      (key ∉ t.hashes ∧ key.1 ∈ t.runs ∧ marked = true ∧ t' = { t with hashes := t.hashes ++ [key] }) := by
  rw [insertHash] at h
  split at h
  next there =>
    cases h
    exact .inl ⟨there, rfl, rfl⟩
  next absent =>
    split at h
    next run =>
      cases h
      exact .inr ⟨absent, run, rfl, rfl⟩
    next => cases h

/-- The loop stores what waits in the batch, and behind it what it still finds. -/
theorem storeRecords_spec {size n total total' : Nat} {batch : List Row}
    (h : storeRecords codec faults size n records batch total t = .ok (total', t')) :
    ∃ m, total' = total + m ∧ Stores codec batch t records m t' := by
  induction records generalizing n batch total t with
  | nil =>
    obtain ⟨_, -, h⟩ := bind_eq_ok.mp h
    split at h
    next empty =>
      cases h
      subst empty
      exact ⟨0, rfl, ⟨[], rfl, (List.append_nil _).symm, rfl⟩, (List.append_nil _).symm, rfl, rfl⟩
    next =>
      obtain ⟨_, -, h⟩ := bind_eq_ok.mp h
      obtain ⟨t₁, flushed, h⟩ := bind_eq_ok.mp h
      cases h
      obtain ⟨results, hashes, tasks, runs⟩ := foldlM_insertRow flushed
      exact ⟨batch.length, rfl, ⟨[], rfl, by rw [results, List.append_nil], rfl⟩,
        hashes.trans (List.append_nil _).symm, tasks, runs⟩
  | cons record records ih =>
    obtain ⟨_, -, h⟩ := bind_eq_ok.mp h
    obtain ⟨_, -, h⟩ := bind_eq_ok.mp h
    obtain ⟨⟨marked, t₁⟩, mark, looped⟩ := bind_eq_ok.mp h
    clear h
    obtain ⟨there, rfl, rfl⟩ | ⟨absent, -, rfl, rfl⟩ := insertHash_ok mark
    · obtain ⟨m, sum, stores⟩ := ih looped
      have passed : firsts t₁.hashes (record :: records) = firsts t₁.hashes records := if_pos there
      obtain ⟨rows, encoded, written, count⟩ := stores.rows
      exact ⟨m, sum, ⟨rows, by rw [passed, encoded], written, count⟩, by rw [passed, stores.hashes], stores.tasks, stores.runs⟩
    · have kept : firsts t.hashes (record :: records) = record :: firsts (t.hashes ++ [record.key]) records := if_neg absent
      obtain ⟨row, encoded, h⟩ := bind_eq_ok.mp looped
      have all {rows : List Row} (rest : (firsts (t.hashes ++ [record.key]) records).mapM (encodeRow codec) = .ok rows) :
          (firsts t.hashes (record :: records)).mapM (encodeRow codec) = .ok (row :: rows) := by
        rw [kept, List.mapM_cons, encoded, rest]
        rfl
      have marks : t.hashes ++ (firsts t.hashes (record :: records)).map ResultRecord.key =
          t.hashes ++ [record.key] ++ (firsts (t.hashes ++ [record.key]) records).map ResultRecord.key := by
        rw [kept, List.map_cons, List.append_cons]
      split at h
      · obtain ⟨_, -, h⟩ := bind_eq_ok.mp h
        obtain ⟨t₂, flushed, h⟩ := bind_eq_ok.mp h
        obtain ⟨results, hashes, tasks, runs⟩ := foldlM_insertRow flushed
        obtain ⟨m, sum, stores⟩ := ih h
        obtain ⟨rows, rest, written, count⟩ := stores.rows
        have same := stores.hashes
        rw [hashes] at rest same
        refine ⟨batch.length + 1 + m, by omega, ⟨row :: rows, all rest, ?_, ?_⟩, by rw [marks, same],
          stores.tasks.trans tasks, stores.runs.trans runs⟩
        · rw [written, results]
          simp
        · rw [count, List.length_cons, List.length_nil]
          omega
      · obtain ⟨m, sum, stores⟩ := ih h
        obtain ⟨rows, rest, written, count⟩ := stores.rows
        refine ⟨m, sum, ⟨row :: rows, all rest, ?_, ?_⟩, by rw [marks, stores.hashes], stores.tasks, stores.runs⟩
        · rw [written]
          simp
        · rw [count, List.length_append, List.length_cons, List.length_cons, List.length_nil]
          omega

end Spec

section Runs

variable {ρ : Type} {codec : Codec ρ} {t t' t₁ t₂ : Tables} {chunks chunks' : List (List (ResultRecord ρ))} {counts counts' : List Nat}

/-- The calls for the chunks in turn, each made until it returns. -/
inductive Calls (codec : Codec ρ) : Tables → List (List (ResultRecord ρ)) → List Nat → Tables → Prop
  | done {t : Tables} : Calls codec t [] [] t
  | raised {t t₁ t' : Tables} {chunk : List (ResultRecord ρ)} {chunks : List (List (ResultRecord ρ))} {counts : List Nat}
      {faults : Faults} {batchSize : Int} {e : StoreError} : appendResults codec faults chunk batchSize t = (.error e, t₁) →
      Calls codec t₁ (chunk :: chunks) counts t' → Calls codec t (chunk :: chunks) counts t'
  | returned {t t₁ t' : Tables} {chunk : List (ResultRecord ρ)} {chunks : List (List (ResultRecord ρ))} {counts : List Nat}
      {faults : Faults} {batchSize : Int} {n : Nat} : appendResults codec faults chunk batchSize t = (.ok n, t₁) →
      Calls codec t₁ chunks counts t' → Calls codec t (chunk :: chunks) (n :: counts) t'

theorem appendResults_raised {faults : Faults} {records : List (ResultRecord ρ)} {batchSize : Int} {e : StoreError}
    (h : appendResults codec faults records batchSize t = (.error e, t')) : t' = t := by
  rw [appendResults] at h
  split at h <;> cases h
  rfl

theorem appendResults_returned {faults : Faults} {records : List (ResultRecord ρ)} {batchSize : Int} {n : Nat}
    (h : appendResults codec faults records batchSize t = (.ok n, t')) : Stores codec [] t records n t' := by
  rw [appendResults] at h
  split at h <;> cases h
  next transacted =>
  obtain ⟨_, -, transacted⟩ := bind_eq_ok.mp transacted
  obtain ⟨_, -, transacted⟩ := bind_eq_ok.mp transacted
  obtain ⟨⟨total, t₁⟩, stored, transacted⟩ := bind_eq_ok.mp transacted
  obtain ⟨_, -, transacted⟩ := bind_eq_ok.mp transacted
  cases transacted
  obtain ⟨m, rfl, stores⟩ := storeRecords_spec stored
  rwa [Nat.zero_add]

theorem Calls.stores (calls : Calls codec t chunks counts t') : Stores codec [] t chunks.flatten counts.sum t' := by
  induction calls with
  | done => exact ⟨⟨[], rfl, (List.append_nil _).symm, rfl⟩, (List.append_nil _).symm, rfl, rfl⟩
  | raised h _ ih => exact appendResults_raised h ▸ ih
  | returned h _ ih => exact (appendResults_returned h).append ih

theorem Tables.ext_rows (rows : t₁.results.rows = t₂.results.rows) (hashes : t₁.hashes = t₂.hashes)
    (tasks : t₁.tasks = t₂.tasks) (runs : t₁.runs = t₂.runs) : t₁ = t₂ := by
  obtain ⟨_, _, ⟨_, _⟩, _⟩ := t₁
  obtain ⟨_, _, ⟨_, _⟩, _⟩ := t₂
  cases rows
  cases hashes
  cases tasks
  cases runs
  rfl

/-- Records that fit the tables: new ids, known tasks and runs, and data that can be encoded. -/
structure Storable (codec : Codec ρ) (t : Tables) (records : List (ResultRecord ρ)) : Prop where
  fresh : (t.results.rows.map Row.id ++ records.map ResultRecord.id).Nodup
  known : ∀ r ∈ records, r.taskId ∈ t.tasks ∧ r.runId ∈ t.runs
  encodes : ∀ r ∈ records, ∃ row, encodeRow codec r = .ok row

theorem encodeRow_ok {r : ResultRecord ρ} {row : Row} (h : encodeRow codec r = .ok row) :
    row.id = r.id ∧ row.taskId = r.taskId ∧ row.runId = r.runId ∧ (row.runId, row.contentHash) = r.key := by
  obtain ⟨_, -, h⟩ := bind_eq_ok.mp h
  obtain ⟨_, -, h⟩ := bind_eq_ok.mp h
  cases h
  exact ⟨rfl, rfl, rfl, rfl⟩

theorem foldlM_insertRow_succeeds {rows : List Row} (fresh : (t.results.rows.map Row.id ++ rows.map Row.id).Nodup)
    (known : ∀ row ∈ rows, row.taskId ∈ t.tasks ∧ row.runId ∈ t.runs) : ∃ t', rows.foldlM insertRow t = .ok t' := by
  induction rows generalizing t with
  | nil => exact ⟨t, rfl⟩
  | cons row rows ih =>
    have absent : t.results.get? row.id = none := get?_none_iff.mpr fun old mem same =>
      (List.nodup_append.mp fresh).2.2 old.id (List.mem_map_of_mem mem) row.id List.mem_cons_self same
    obtain ⟨t₁, first⟩ : ∃ t₁, insertRow t row = .ok t₁ :=
      ⟨_, bind_eq_ok.mpr ⟨(), require_eq_ok.mpr ⟨absent, known row List.mem_cons_self⟩, rfl⟩⟩
    obtain ⟨results, -, tasks, runs⟩ := insertRow_ok first
    obtain ⟨t', rest⟩ := ih (t := t₁) (by rw [results]; simpa using fresh) fun row mem => by
      rw [tasks, runs]
      exact known row (List.mem_cons_of_mem _ mem)
    exact ⟨t', by rw [List.foldlM_cons]; exact bind_eq_ok.mpr ⟨t₁, first, rest⟩⟩

theorem storeRecords_succeeds (size : Nat) {records : List (ResultRecord ρ)} (n total : Nat) (batch : List Row)
    (fresh : (t.results.rows.map Row.id ++ (batch.map Row.id ++ records.map ResultRecord.id)).Nodup)
    (waiting : ∀ row ∈ batch, row.taskId ∈ t.tasks ∧ row.runId ∈ t.runs)
    (known : ∀ r ∈ records, r.taskId ∈ t.tasks ∧ r.runId ∈ t.runs)
    (encodes : ∀ r ∈ records, ∃ row, encodeRow codec r = .ok row) :
    ∃ result, storeRecords codec .none size n records batch total t = .ok result := by
  induction records generalizing n batch total t with
  | nil =>
    rw [storeRecords]
    by_cases empty : batch = []
    · exact ⟨(total, t), by rw [if_pos empty]; rfl⟩
    · obtain ⟨t', flushed⟩ := foldlM_insertRow_succeeds (by simpa using fresh) waiting
      exact ⟨(total + batch.length, t'), by rw [if_neg empty, flushed]; rfl⟩
  | cons record records ih =>
    obtain ⟨task, run⟩ := known record List.mem_cons_self
    obtain ⟨row, encoded⟩ := encodes record List.mem_cons_self
    obtain ⟨id, taskId, runId, -⟩ := encodeRow_ok encoded
    have known' := fun r mem => known r (List.mem_cons_of_mem _ mem)
    have encodes' := fun r mem => encodes r (List.mem_cons_of_mem _ mem)
    rw [storeRecords]
    by_cases there : record.key ∈ t.hashes
    · have mark : insertHash record.key t = .ok (false, t) := if_pos there
      obtain ⟨result, looped⟩ := ih (n + 1) total batch (fresh.sublist (by simp)) waiting known' encodes'
      exact ⟨result, by rw [mark]; exact looped⟩
    · have mark : insertHash record.key t = .ok (true, { t with hashes := t.hashes ++ [record.key] }) :=
        (if_neg there).trans (if_pos run)
      have full : ∀ row' ∈ batch ++ [row], row'.taskId ∈ t.tasks ∧ row'.runId ∈ t.runs := by
        intro row' mem
        rcases List.mem_append.mp mem with mem | mem
        · exact waiting row' mem
        · rw [List.mem_singleton.mp mem, taskId, runId]
          exact ⟨task, run⟩
      by_cases due : size ≤ batch.length + 1
      · obtain ⟨t₂, flushed⟩ := foldlM_insertRow_succeeds (t := { t with hashes := t.hashes ++ [record.key] })
          (fresh.sublist (by simp [id])) full
        obtain ⟨results, -, tasks, runs⟩ := foldlM_insertRow flushed
        obtain ⟨result, looped⟩ := ih (n + 1) (total + (batch.length + 1)) [] (t := t₂)
          (by rw [results]; simpa [id] using fresh) nofun (by rw [tasks, runs]; exact known') encodes'
        exact ⟨result, bind_eq_ok.mpr ⟨(), rfl, bind_eq_ok.mpr ⟨(), rfl, bind_eq_ok.mpr ⟨_, mark, (if_neg (by decide)).trans
          (bind_eq_ok.mpr ⟨row, encoded, (if_pos due).trans
            (bind_eq_ok.mpr ⟨(), rfl, bind_eq_ok.mpr ⟨t₂, flushed, looped⟩⟩)⟩)⟩⟩⟩⟩
      · obtain ⟨result, looped⟩ := ih (n + 1) total (batch ++ [row]) (t := { t with hashes := t.hashes ++ [record.key] })
          (by simpa [id] using fresh) full known' encodes'
        exact ⟨result, bind_eq_ok.mpr ⟨(), rfl, bind_eq_ok.mpr ⟨(), rfl, bind_eq_ok.mpr ⟨_, mark, (if_neg (by decide)).trans
          (bind_eq_ok.mpr ⟨row, encoded, (if_neg due).trans looped⟩)⟩⟩⟩⟩

theorem appendResults_succeeds {records : List (ResultRecord ρ)} {batchSize : Int} (positive : 0 < batchSize)
    (storable : Storable codec t records) : ∃ n t', appendResults codec .none records batchSize t = (.ok n, t') := by
  obtain ⟨⟨total, t'⟩, stored⟩ := storeRecords_succeeds (min 5000 batchSize).toNat 0 0 []
    storable.fresh nofun storable.known storable.encodes
  refine ⟨total, t', ?_⟩
  rw [appendResults, transact, require, if_pos positive, stored]
  rfl

theorem mapM_encodeRow {records : List (ResultRecord ρ)} {rows : List Row} (h : records.mapM (encodeRow codec) = .ok rows) :
    (∀ row, row ∈ rows ↔ ∃ r ∈ records, encodeRow codec r = .ok row) ∧
      (rows.map fun row => (row.runId, row.contentHash)) = records.map ResultRecord.key := by
  induction records generalizing rows with
  | nil =>
    cases h
    exact ⟨fun row => ⟨nofun, fun its => nomatch its.choose_spec.1⟩, rfl⟩
  | cons r records ih =>
    rw [List.mapM_cons] at h
    obtain ⟨row, first, h⟩ := bind_eq_ok.mp h
    obtain ⟨rest, others, h⟩ := bind_eq_ok.mp h
    cases h
    obtain ⟨mem, keys⟩ := ih others
    refine ⟨fun row' => ?_, by rw [List.map_cons, List.map_cons, keys, (encodeRow_ok first).2.2.2]⟩
    rw [List.mem_cons, mem]
    constructor
    · rintro (rfl | ⟨r', mem, its⟩)
      · exact ⟨r, List.mem_cons_self, first⟩
      · exact ⟨r', List.mem_cons_of_mem _ mem, its⟩
    · rintro ⟨r', _ | ⟨_, mem⟩, its⟩
      · exact .inl (Except.ok.inj (its.symm.trans first))
      · exact .inr ⟨r', mem, its⟩

/-- However the records are cut into calls and whatever these raise before they return, the tables end with the first
record of each content and run, and with its mark. -/
theorem results_independent_of_batching (results : t.results.rows = []) (hashes : t.hashes = [])
    (calls : Calls codec t chunks counts t') :
    (∀ row, row ∈ t'.results.rows ↔ ∃ r ∈ chunks.flatten,
      chunks.flatten.find? (fun x => x.key = r.key) = some r ∧ encodeRow codec r = .ok row) ∧
    (t'.results.rows.map fun row => (row.runId, row.contentHash)).Nodup ∧
    (∀ key, key ∈ t'.hashes ↔ ∃ r ∈ chunks.flatten, r.key = key) ∧ t'.hashes.Nodup ∧
    counts.sum = t'.results.rows.length ∧
    (∀ chunks' counts' t₂, chunks'.flatten = chunks.flatten → Calls codec t chunks' counts' t₂ → t₂ = t') ∧
    (∀ t₀ t₁ faults records batchSize e, appendResults codec faults records batchSize t₀ = (.error e, t₁) → t₁ = t₀) ∧
    ∀ t₀ records batchSize, 0 < batchSize → Storable codec t₀ records →
      ∃ n t₁, appendResults codec .none records batchSize t₀ = (.ok n, t₁) := by
  have stores := calls.stores
  obtain ⟨rows, encoded, written, count⟩ := stores.rows
  have marks := stores.hashes
  rw [hashes] at encoded marks
  rw [results, List.nil_append, List.nil_append] at written
  rw [List.nil_append] at marks
  have mapped := mapM_encodeRow encoded
  refine ⟨fun row => ?_, ?_, fun key => ?_, ?_, by rw [count, written, List.length_nil, Nat.zero_add], ?_,
    fun _ _ _ _ _ _ h => appendResults_raised h, fun _ _ _ positive storable => appendResults_succeeds positive storable⟩
  · rw [written, mapped.1]
    constructor
    · rintro ⟨r, kept, its⟩
      have first := (mem_firsts.1 kept).2
      exact ⟨r, List.mem_of_find?_eq_some first, first, its⟩
    · rintro ⟨r, -, first, its⟩
      exact ⟨r, mem_firsts.2 ⟨List.not_mem_nil, first⟩, its⟩
  · rw [written, mapped.2]
    exact nodup_firsts [] _
  · rw [marks, List.mem_map]
    constructor
    · rintro ⟨r, kept, same⟩
      exact ⟨r, List.mem_of_find?_eq_some (mem_firsts.1 kept).2, same⟩
    · rintro ⟨r, mem, rfl⟩
      obtain ⟨first, found⟩ : ∃ first, chunks.flatten.find? (fun x => x.key = r.key) = some first :=
        Option.isSome_iff_exists.mp (List.find?_isSome.mpr ⟨r, mem, by simp⟩)
      have same : first.key = r.key := by simpa using List.find?_some found
      exact ⟨first, mem_firsts.2 ⟨List.not_mem_nil, by rw [same]; exact found⟩, same⟩
  · rw [marks]
    exact nodup_firsts [] _
  · intro chunks' counts' t₂ same calls'
    have stores' := calls'.stores
    rw [same] at stores'
    obtain ⟨rows', encoded', written', -⟩ := stores'.rows
    have marks' := stores'.hashes
    rw [hashes] at encoded' marks'
    rw [results, List.nil_append, List.nil_append] at written'
    refine Tables.ext_rows ?_ ?_ (stores'.tasks.trans stores.tasks.symm) (stores'.runs.trans stores.runs.symm)
    · rw [written, written', Except.ok.inj (encoded'.symm.trans encoded)]
    · rw [marks, marks', List.nil_append]

def plain : Codec Unit := ⟨fun _ => some "null", fun _ => some "[]"⟩

def sample (id contentHash : String) : ResultRecord Unit := ⟨id, "task", "run", "url", "now", (), contentHash, []⟩

def opened : Tables := ⟨["task"], ["run"], .empty, []⟩

/-- The iterator raises after its first record, the call is made again, and another follows. -/
theorem results_interrupted : let t' := (appendResults plain .none [sample "3" "b"] 2
      (appendResults plain .none [sample "1" "a", sample "2" "a"] 1 opened).2).2
    [1, 1].sum = t'.results.rows.length :=
  (results_independent_of_batching rfl rfl (.raised
    (show appendResults plain { Faults.none with pull := fun n => if n = 1 then some (.raised "ConnectionError") else none }
      [sample "1" "a", sample "2" "a"] 1 opened = (.error (.raised "ConnectionError"), opened) from rfl)
    (.returned (show appendResults plain .none [sample "1" "a", sample "2" "a"] 1 opened = (.ok 1, _) from rfl)
      (.returned (show appendResults plain .none [sample "3" "b"] 2 _ = (.ok 1, _) from rfl) .done)))).2.2.2.2.1

end Runs

end Arenyxa.Results
