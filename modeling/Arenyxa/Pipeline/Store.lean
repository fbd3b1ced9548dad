import Arenyxa.Lib.Machine
import Arenyxa.Lib.Outcome
import Arenyxa.Lib.Table

/-! The pipeline tables of the store: dataset revisions with their records, datasets and
workflow executions. Every operation is one transaction. -/

namespace Arenyxa.Pipeline

open Outcome

inductive BuildState
  | building | interrupted | failed | cancelled | ready
  deriving DecidableEq

inductive ExecutionState
  | queued | running | interrupted | completed | completedWithErrors | failed | cancelled
  deriving DecidableEq

/-- The state of an execution that has finished its output. -/
def ExecutionState.Completed (s : ExecutionState) : Prop := s = .completed ∨ s = .completedWithErrors

instance : DecidablePred ExecutionState.Completed := fun _ => inferInstanceAs (Decidable (_ ∨ _))

inductive StoreError
  | arenyxa (code : String)
  | value (text : String)
  | integrity
  | encoding

/-- A row of `revision_records`. -/
structure RevisionRecord where
  identity : String
  dataJson : String
  dataHash : String

instance : Keyed RevisionRecord String := ⟨RevisionRecord.identity⟩

/-- A row of `dataset_revisions` with the rows of `revision_records` that refer to it. -/
structure Revision where
  id : String
  datasetId : String
  schemaJson : String
  buildState : BuildState
  records : Table RevisionRecord

instance : Keyed Revision String := ⟨Revision.id⟩

structure Dataset where
  id : String
  name : String
  projectId : Option String
  currentRevisionId : Option String

instance : Keyed Dataset String := ⟨Dataset.id⟩

/-- A row of `workflow_executions`, as far as its state depends on the output revision. -/
structure Execution where
  id : String
  outputRevisionId : String
  state : ExecutionState
  errorCount : Nat

instance : Keyed Execution String := ⟨Execution.id⟩

structure Store where
  revisions : Table Revision
  datasets : Table Dataset
  executions : Table Execution

def Store.empty : Store := ⟨.empty, .empty, .empty⟩

/-- `json.dumps` with its options, `none` where it or the encoding of the text raises, and the
digest of a text. -/
structure Codec (ρ : Type u) where
  dumps : ρ → Option String
  dumpsSorted : ρ → Option String
  dumpsCompact : ρ → Option String
  isObject : ρ → Bool
  sha256 : String → String

/-- The domain object that `save_revision` and `begin_revision_build` take. -/
structure DatasetRevision (ρ : Type u) where
  id : String
  datasetId : String
  schema : ρ
  records : List (String × ρ)

section Rows

abbrev RecordTable := Table RevisionRecord

def insertRow (t : RecordTable) (r : RevisionRecord) : Except StoreError RecordTable :=
  if t.get? r.identity = none then .ok (t.insert r) else .error .integrity

/-- `INSERT ... ON CONFLICT DO UPDATE`. -/
def upsertRow (t : RecordTable) (r : RevisionRecord) : Except StoreError RecordTable :=
  if t.get? r.identity = none then .ok (t.insert r)
  else .ok (t.modify r.identity (fun old => ⟨old.identity, r.dataJson, r.dataHash⟩) fun _ => rfl)

/-- Encode the records one by one and write a batch whenever it is full. -/
def writeBatches {α : Type u} (write : RecordTable → RevisionRecord → Except StoreError RecordTable)
    (size : Nat) (encode : α → Except StoreError RevisionRecord) :
    List α → List RevisionRecord → RecordTable → Except StoreError (RecordTable × Nat)
  | [], batch, t => do
    let t ← batch.foldlM write t
    return (t, batch.length)
  | a :: rest, batch, t => do
    let row ← encode a
    if size ≤ batch.length + 1 then
      let t ← (batch ++ [row]).foldlM write t
      let (t, total) ← writeBatches write size encode rest [] t
      return (t, batch.length + 1 + total)
    else writeBatches write size encode rest (batch ++ [row]) t

end Rows

section Operations

variable {ρ : Type u} (codec : Codec ρ)

def encoded (text : Option String) : Except StoreError String :=
  match text with
  | none => .error .encoding
  | some text => .ok text

def revisionNotFound : StoreError := .arenyxa "DATASET_REVISION_NOT_FOUND"

def stateConflict : StoreError := .arenyxa "DATASET_REVISION_STATE_CONFLICT"

def revision (s : Store) (id : String) : Except StoreError Revision :=
  match s.revisions.get? id with
  | none => .error revisionNotFound
  | some r => .ok r

def insertRevision (s : Store) (r : Revision) : Except StoreError Store := do
  require (s.revisions.get? r.id = none) .integrity
  return { s with revisions := s.revisions.insert r }

def Revision.setState (state : BuildState) (r : Revision) : Revision :=
  { r with buildState := state }

def Revision.withRecords (rows : RecordTable) (r : Revision) : Revision :=
  { r with records := rows }

def Revision.finalized (schema : String) (r : Revision) : Revision :=
  { r with schemaJson := schema, buildState := .ready }

theorem Revision.key_setState (state : BuildState) (r : Revision) :
    Keyed.key (r.setState state) = Keyed.key r := rfl

theorem Revision.key_withRecords (rows : RecordTable) (r : Revision) :
    Keyed.key (r.withRecords rows) = Keyed.key r := rfl

theorem Revision.key_finalized (schema : String) (r : Revision) :
    Keyed.key (r.finalized schema) = Keyed.key r := rfl

def updateRevision (s : Store) (id : String) (f : Revision → Revision)
    (hf : ∀ r, Keyed.key (f r) = Keyed.key r) : Store :=
  { s with revisions := s.revisions.modify id f hf }

def saveRevision (new : DatasetRevision ρ) (s : Store) : Except StoreError Store := do
  let schema ← encoded (codec.dumps new.schema)
  let (records, _) ← writeBatches insertRow 500
    (fun (identity, data) => do
      let raw ← encoded (codec.dumpsSorted data)
      return ⟨identity, raw, codec.sha256 raw⟩) new.records [] .empty
  insertRevision s ⟨new.id, new.datasetId, schema, .ready, records⟩

def beginRevisionBuild (new : DatasetRevision ρ) (s : Store) : Except StoreError Store := do
  let schema ← encoded (codec.dumps new.schema)
  insertRevision s ⟨new.id, new.datasetId, schema, .building, .empty⟩

def encodeRecord (record : String × ρ) : Except StoreError RevisionRecord := do
  let (identity, data) := record
  require (identity ≠ "" ∧ identity.length ≤ 256 ∧ codec.isObject data = true)
    (.arenyxa "DATASET_RECORD_INVALID")
  let raw ← encoded (codec.dumpsCompact data)
  return ⟨identity, raw, codec.sha256 raw⟩

def appendRevisionRecords (id : String) (records : List (String × ρ)) (replace : Bool)
    (batchSize : Int) (s : Store) : Except StoreError (Nat × Store) := do
  require (0 < batchSize) (.value "batch_size must be a positive integer")
  let r ← revision s id
  require (r.buildState = .building ∨ r.buildState = .interrupted)
    (.arenyxa "DATASET_REVISION_IMMUTABLE")
  let (rows, total) ← writeBatches (if replace then upsertRow else insertRow)
    (min batchSize 5000).toNat (encodeRecord codec) records [] r.records
  return (total, updateRevision s id (Revision.withRecords rows) (Revision.key_withRecords rows))

def setRevisionBuildState (id : String) (state : BuildState) (s : Store) :
    Except StoreError Store := do
  require (state ≠ .ready) (.value "unsupported revision build state")
  match s.revisions.get? id with
  | none => .error stateConflict
  | some r =>
    require (r.buildState ≠ .ready) stateConflict
    return updateRevision s id (Revision.setState state) (Revision.key_setState state)

/-- `INSERT ... ON CONFLICT DO UPDATE` of the dataset that now shows a revision. -/
def upsertCurrent (t : Table Dataset) (id name : String) (projectId : Option String)
    (revisionId : String) : Table Dataset :=
  if t.get? id = none then t.insert ⟨id, name, projectId, some revisionId⟩
  else t.modify id (fun d => ⟨d.id, name, projectId <|> d.projectId, some revisionId⟩) fun _ => rfl

def finalizeRevisionBuild (id : String) (schema : ρ) (name : String) (projectId : Option String)
    (s : Store) : Except StoreError (Nat × Store) := do
  let r ← revision s id
  require (r.buildState = .building ∨ r.buildState = .interrupted) stateConflict
  let text ← encoded (codec.dumpsSorted schema)
  let s' := updateRevision s id (Revision.finalized text) (Revision.key_finalized text)
  return (r.records.rows.length,
    { s' with datasets := upsertCurrent s.datasets r.datasetId name projectId id })

def beginWorkflowExecution (e : Execution) (s : Store) : Except StoreError Store := do
  require (s.executions.get? e.id = none) .integrity
  return { s with executions := s.executions.insert { e with state := .running, errorCount := 0 } }

def finishWorkflowExecution (id : String) (state : ExecutionState) (s : Store) :
    Except StoreError Store := do
  require (state ≠ .queued ∧ state ≠ .running) (.value "unsupported workflow execution state")
  require (s.executions.get? id ≠ none) (.arenyxa "WORKFLOW_EXECUTION_NOT_FOUND")
  return { s with executions :=
    s.executions.modify id (fun e => { e with state := state }) fun _ => rfl }

def claimWorkflowExecutionForResume (id : String) (s : Store) : Except StoreError (Bool × Store) := do
  match s.executions.get? id with
  | none => .error (.arenyxa "WORKFLOW_EXECUTION_NOT_FOUND")
  | some e =>
    if e.state = .interrupted ∨ e.state = .cancelled then
      match s.revisions.get? e.outputRevisionId with
      | none => .error (.arenyxa "WORKFLOW_RESUME_OUTPUT_INVALID")
      | some r =>
        require (r.buildState ≠ .ready) (.arenyxa "WORKFLOW_RESUME_OUTPUT_INVALID")
        let s' := updateRevision s e.outputRevisionId (Revision.setState .building)
          (Revision.key_setState .building)
        return (true, { s' with
          executions := s.executions.modify id (fun e => { e with state := .running }) fun _ => rfl })
    else return (false, s)

def outputReady (s : Store) (e : Execution) : Bool :=
  match s.revisions.get? e.outputRevisionId with
  | none => false
  | some r => r.buildState = .ready

/-- What the recovery makes of an execution whose output is ready or not. -/
def Execution.recover (ready : Bool) (e : Execution) : Execution :=
  if (e.state = .queued ∨ e.state = .running ∨ e.state = .interrupted) ∧ ready = true then
    { e with state := if 0 < e.errorCount then .completedWithErrors else .completed }
  else if e.state = .queued ∨ e.state = .running then { e with state := .interrupted }
  else e

theorem Execution.recover_id (ready : Bool) (e : Execution) : (e.recover ready).id = e.id := by
  rw [Execution.recover]
  split
  next => rfl
  next =>
    split
    next => rfl
    next => rfl

def recoverInterruptedPipelineState (s : Store) : Store where
  revisions := s.revisions.updateWhere (fun r => r.buildState = .building)
    (Revision.setState .interrupted) (Revision.key_setState .interrupted)
  datasets := s.datasets
  executions := s.executions.updateWhere (fun _ => true)
    (fun e => e.recover (outputReady s e)) fun e => e.recover_id _

inductive Op (ρ : Type u)
  | saveRevision (new : DatasetRevision ρ)
  | beginRevisionBuild (new : DatasetRevision ρ)
  | appendRevisionRecords (id : String) (records : List (String × ρ)) (replace : Bool)
      (batchSize : Int)
  | setRevisionBuildState (id : String) (state : BuildState)
  | finalizeRevisionBuild (id : String) (schema : ρ) (name : String) (projectId : Option String)
  | beginWorkflowExecution (e : Execution)
  | finishWorkflowExecution (id : String) (state : ExecutionState)
  | claimWorkflowExecutionForResume (id : String)
  | recoverInterruptedPipelineState

/-- What an operation returns. -/
inductive Reply
  | done
  | count (n : Nat)
  | claimed (won : Bool)

def Op.exec : Op ρ → Store → Except StoreError (Reply × Store)
  | .saveRevision new, s => return (.done, ← Pipeline.saveRevision codec new s)
  | .beginRevisionBuild new, s => return (.done, ← Pipeline.beginRevisionBuild codec new s)
  | .appendRevisionRecords id records replace batchSize, s => do
    let (n, s) ← Pipeline.appendRevisionRecords codec id records replace batchSize s
    return (.count n, s)
  | .setRevisionBuildState id state, s =>
    return (.done, ← Pipeline.setRevisionBuildState id state s)
  | .finalizeRevisionBuild id schema name projectId, s => do
    let (n, s) ← Pipeline.finalizeRevisionBuild codec id schema name projectId s
    return (.count n, s)
  | .beginWorkflowExecution e, s => return (.done, ← Pipeline.beginWorkflowExecution e s)
  | .finishWorkflowExecution id state, s =>
    return (.done, ← Pipeline.finishWorkflowExecution id state s)
  | .claimWorkflowExecutionForResume id, s => do
    let (won, s) ← Pipeline.claimWorkflowExecutionForResume id s
    return (.claimed won, s)
  | .recoverInterruptedPipelineState, s =>
    return (.done, Pipeline.recoverInterruptedPipelineState s)

/-- The store under arbitrary calls; a call that raises leaves it alone. -/
def store : Machine Store (Op ρ) Reply StoreError := ⟨Op.exec codec⟩

end Operations

end Arenyxa.Pipeline
