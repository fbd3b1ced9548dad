import Arenyxa.Pipeline.Store
import Mathlib.Data.List.Sort
import Mathlib.Data.String.Basic

/-! The runtime that executes a workflow over the records of a source revision: the record loop
with its pending buffers, the checkpoint flush, the error handlers, and what a restart makes of
the durable rows. A run is cut at any step by a crash, so its steps are the store calls. -/

namespace Arenyxa.Pipeline

inductive Json
  | null
  | boolean (b : Bool)
  | integer (n : Int)
  | number (text : String)
  | string (s : String)
  | array (items : List Json)
  | object (members : List (String × Json))

abbrev Record := List (String × Json)

section Schema

inductive Kind
  | null | boolean | integer | number | string | object | array | mixed
  deriving DecidableEq

def typeOf : Json → Kind
  | .null => .null
  | .boolean _ => .boolean
  | .integer _ => .integer
  | .number _ => .number
  | .string _ => .string
  | .object _ => .object
  | .array _ => .array

def Kind.numeric : Kind → Bool
  | .integer | .number => true
  | _ => false

def merge (before : Option Kind) (after : Kind) : Kind :=
  match before with
  | none => after
  | some before =>
    if before = after then before
    else if before = .null then after
    else if after = .null then before
    else if before.numeric && after.numeric then .number
    else .mixed

/-- The types observed so far, as the dictionary of the accumulator. -/
abbrev Schema := String → Option Kind

def Schema.observeField (s : Schema) (field : String × Json) : Schema :=
  Function.update s field.1 (some (merge (s field.1) (typeOf field.2)))

def Schema.observe (s : Schema) (record : Record) : Schema := record.foldl Schema.observeField s

def Schema.observeAll (s : Schema) (records : List Record) : Schema := records.foldl Schema.observe s

end Schema

/-- `input_count`, `output_count` and `error_count` of a node. -/
abbrev NodeCounts := Nat × Nat × Nat

inductive NodeState
  | pending | completed | partly
  deriving DecidableEq

structure NodeMetrics where
  counts : NodeCounts
  state : NodeState

structure WorkflowResult where
  outputs : List Record
  errors : Nat
  nodes : String → Option NodeMetrics

/-- The payload of a checkpoint, without the constants of the execution. -/
structure Checkpoint where
  generation : Nat
  previous : String
  lastInput : String
  schema : Schema

/-- The runtime with one workflow. `execute` is the engine on one record, `encodedSize` the size
of the JSON text of an output and `none` where encoding raises. -/
structure Runtime where
  execute : Record → WorkflowResult
  encodedSize : Record → Option Nat
  sha256 : String → String
  digest : Checkpoint → String
  workflowId : String
  outputCap : Nat
  checkpointEvery : Nat
  writeBatchSize : Nat
  maxPendingOutputBytes : Nat

/-- The durable rows of an execution: its own, those of its nodes, its output revision with the
records, and whether the dataset shows that revision. `lastInput` is empty for `NULL`. -/
structure Rows where
  state : ExecutionState
  lastInput : String
  processed : Nat
  staged : Nat
  errors : Nat
  nodes : String → NodeCounts × NodeState
  checkpoint : Option Checkpoint
  output : BuildState
  schema : Schema
  records : List (String × Record)
  shown : Bool

/-- The rows that `start_execution` inserts. -/
def Rows.fresh : Rows where
  state := .running
  lastInput := ""
  processed := 0
  staged := 0
  errors := 0
  nodes := fun _ => (0, .pending)
  checkpoint := none
  output := .building
  schema := fun _ => none
  records := []
  shown := false

abbrev NodeDeltas := String → Option (NodeCounts × NodeState)

/-- The local variables of `_run_inner`, with the records that the iteration still gives. -/
structure Memory where
  rest : List (String × Record)
  outputs : List (String × Record)
  processed : Nat
  errors : Nat
  deltas : NodeDeltas
  bytes : Nat
  last : String
  observed : Nat
  generation : Nat
  previous : String
  schema : Schema
  writeFailed : Bool

/-- How a run that is not completed ends. -/
inductive Cause
  | cancelled | failed
  deriving DecidableEq

/-- Where a flush goes on. -/
inductive After
  | loop
  | completion
  | handler (cause : Cause)
  deriving DecidableEq

inductive Stage
  | records
  | appending (after : After)
  | committing (after : After) (retried : Bool)
  | probing (after : After) (retried operational : Bool)
  | finalizing
  | reading
  | finishing (state : ExecutionState)
  | reporting
  | marking (cause : Cause)
  | failing (cause : Cause)
  | ended
  deriving DecidableEq

structure Run where
  rows : Rows
  memory : Memory
  stage : Stage

/-- What a store call raises: an `OperationalError`, another error that the flush catches, or one
that it does not. -/
inductive Fault
  | operational | caught | uncaught

inductive Call
  | fine
  | raised (commits : Bool) (fault : Fault)

/-- What the environment decides at a step. A restart ends the process wherever it is, recovers
the store and resumes the execution. -/
inductive Action
  | work (elapsed : Bool)
  | cancel
  | raise
  | call (outcome : Call)
  | restart

/-- One transaction. It may raise by itself, before its commit or after it. -/
def Call.perform (call : Call) (rows : Rows) (transaction : Rows → Option Rows) : Rows × Option Fault :=
  match transaction rows, call with
  | none, _ => (rows, some .caught)
  | some rows', .fine => (rows', none)
  | some rows', .raised commits fault => (if commits then rows' else rows, some fault)

section Transactions

def BuildState.isOpen (b : BuildState) : Bool := b = .building || b = .interrupted

def upsertRecord (records : List (String × Record)) (record : String × Record) :
    List (String × Record) :=
  if record.1 ∈ records.map Prod.fst then
    records.map fun old => if old.1 = record.1 then record else old
  else records ++ [record]

def Rows.append (outputs : List (String × Record)) (rows : Rows) : Option Rows :=
  if rows.output.isOpen then some { rows with records := outputs.foldl upsertRecord rows.records }
  else none

/-- `INSERT ... ON CONFLICT DO UPDATE` of the rows of the nodes. -/
def upsertNodes (nodes : String → NodeCounts × NodeState) (deltas : NodeDeltas) :
    String → NodeCounts × NodeState :=
  fun node => match deltas node with
    | none => nodes node
    | some delta => ((nodes node).1 + delta.1, delta.2)

def Rows.checkpointed (m : Memory) (checkpoint : Checkpoint) (rows : Rows) : Option Rows :=
  if rows.state = .running then
    some { rows with
      lastInput := m.last
      processed := rows.processed + m.processed
      staged := rows.staged + m.outputs.length
      errors := rows.errors + m.errors
      nodes := upsertNodes rows.nodes m.deltas
      checkpoint := some checkpoint }
  else none

def Rows.finalized (schema : Schema) (rows : Rows) : Option Rows :=
  if rows.output.isOpen then some { rows with schema := schema, output := .ready, shown := true }
  else none

def Rows.finished (state : ExecutionState) (rows : Rows) : Option Rows :=
  some { rows with state := state }

def Rows.marked (state : BuildState) (rows : Rows) : Option Rows :=
  if rows.output = .ready then none else some { rows with output := state }

/-- `recover_interrupted_pipeline_state` on the rows of one execution. -/
def Rows.recover (rows : Rows) : Rows :=
  let state :=
    if (rows.state = .queued ∨ rows.state = .running ∨ rows.state = .interrupted) ∧
        rows.output = .ready then
      if 0 < rows.errors then .completedWithErrors else .completed
    else if rows.state = .queued ∨ rows.state = .running then .interrupted
    else rows.state
  { rows with
    state := state
    output := if rows.output = .building then .interrupted else rows.output }

/-- `claim_workflow_execution_for_resume`, `none` where nothing is claimed. -/
def Rows.claim (rows : Rows) : Option Rows :=
  if (rows.state = .interrupted ∨ rows.state = .cancelled) ∧ rows.output ≠ .ready then
    some { rows with state := .running, output := .building }
  else none

def Cause.buildState : Cause → BuildState
  | .cancelled => .cancelled
  | .failed => .failed

def Cause.executionState : Cause → ExecutionState
  | .cancelled => .cancelled
  | .failed => .failed

end Transactions

section Steps

variable (rt : Runtime) (source : List (String × Record))

def byIdentity (records : List (String × Record)) : List (String × Record) :=
  records.insertionSort fun a b => a.1 ≤ b.1

/-- The entry of `_run_inner`. The source is given in the order of its identities. -/
def start (resumed : Bool) (rows : Rows) : Run where
  rows := rows
  memory := {
    rest := source.filter fun record => rows.lastInput < record.1
    outputs := []
    processed := 0
    errors := 0
    deltas := fun _ => none
    bytes := 0
    last := rows.lastInput
    observed := rows.staged
    generation := (rows.checkpoint.map Checkpoint.generation).getD 0
    previous := (rows.checkpoint.map rt.digest).getD ""
    schema := if resumed then
        Schema.observeAll (fun _ => none) ((byIdentity rows.records).map Prod.snd)
      else fun _ => none
    writeFailed := false }
  stage := .records

def outputIdentity (identity : String) (ordinal : Nat) : String :=
  "wf_" ++ rt.sha256 (identity ++ "\x00" ++ rt.workflowId ++ "\x00" ++ toString ordinal)

def mergeNodeMetrics (deltas : NodeDeltas) (nodes : String → Option NodeMetrics) : NodeDeltas :=
  fun node => match nodes node with
    | none => deltas node
    | some metrics =>
      let old := (deltas node).getD (0, .completed)
      let counts := old.1 + metrics.counts
      some (counts, if metrics.state = .partly ∨ 0 < counts.2.2 then .partly else old.2)

/-- The outputs of one record go to the buffer one by one; `false` where one of them raises. -/
def stageOutputs (identity : String) : List Record → Nat → Memory → Memory × Bool
  | [], _, m => (m, true)
  | output :: rest, ordinal, m =>
    let m := { m with observed := m.observed + 1 }
    if rt.outputCap < m.observed then (m, false)
    else match rt.encodedSize output with
      | none => (m, false)
      | some size =>
        if rt.maxPendingOutputBytes < size then (m, false)
        else
          let m := { m with
            schema := m.schema.observe output
            outputs := m.outputs ++ [(outputIdentity rt identity ordinal, output)]
            bytes := m.bytes + size }
          stageOutputs identity rest (ordinal + 1) m

/-- The body of the record loop on one record that the engine has executed. -/
def takeRecord (identity : String) (result : WorkflowResult) (m : Memory) : Memory × Bool :=
  let m := { m with
    deltas := mergeNodeMetrics m.deltas result.nodes
    errors := m.errors + result.errors }
  match stageOutputs rt identity result.outputs 0 m with
  | (m, false) => (m, false)
  | (m, true) => ({ m with processed := m.processed + 1, last := identity }, true)

def flushDue (elapsed : Bool) (m : Memory) : Bool :=
  rt.checkpointEvery ≤ m.processed || rt.writeBatchSize ≤ m.outputs.length ||
    rt.maxPendingOutputBytes ≤ m.bytes || elapsed

def Memory.checkpoint (m : Memory) : Checkpoint := ⟨m.generation, m.previous, m.last, m.schema⟩

/-- The end of a flush. -/
def Memory.cleared (m : Memory) : Memory :=
  { m with
    previous := rt.digest m.checkpoint
    processed := 0
    errors := 0
    outputs := []
    deltas := fun _ => none
    bytes := 0 }

def After.stage : After → Stage
  | .loop => .records
  | .completion => .finalizing
  | .handler cause => .marking cause

/-- `flush_checkpoint` up to its first store call. -/
def Run.flush (run : Run) (after : After) : Run :=
  if run.memory.processed = 0 then { run with stage := after.stage }
  else if run.memory.outputs = [] then
    { run with
      memory := { run.memory with generation := run.memory.generation + 1 }
      stage := .committing after false }
  else { run with stage := .appending after }

/-- An exception in the body of `_run_inner` reaches its handler. -/
def Run.handle (run : Run) (cause : Cause) : Run :=
  if run.memory.writeFailed then { run with stage := .marking cause } else run.flush (.handler cause)

/-- An exception leaves the flush. The handlers log that of their own flush. -/
def Run.abandonFlush (run : Run) : After → Run
  | .handler cause => { run with stage := .marking cause }
  | _ => run.handle .failed

def Run.completeFlush (run : Run) (after : After) : Run :=
  { run with memory := run.memory.cleared rt, stage := after.stage }

/-- `checkpoint_is_durable` -/
def Run.durable (run : Run) : Bool :=
  run.rows.checkpoint.map rt.digest = some (rt.digest run.memory.checkpoint)

def stepRecords (elapsed : Bool) (run : Run) : Run :=
  match run.memory.rest with
  | [] => run.flush .completion
  | (identity, record) :: rest =>
    match takeRecord rt identity (rt.execute record) { run.memory with rest := rest } with
    | (m, false) => { run with memory := m }.handle .failed
    | (m, true) =>
      if flushDue rt elapsed m then { run with memory := m }.flush .loop
      else { run with memory := m }

def stepCall (call : Call) (run : Run) : Run :=
  match run.stage with
  | .records => run
  | .appending after =>
    match call.perform run.rows (Rows.append run.memory.outputs) with
    | (rows, none) =>
      { rows := rows
        memory := { run.memory with generation := run.memory.generation + 1 }
        stage := .committing after false }
    | (rows, some _) => { run with rows := rows }.abandonFlush after
  | .committing after retried =>
    match call.perform run.rows (Rows.checkpointed run.memory run.memory.checkpoint) with
    | (rows, none) => { run with rows := rows }.completeFlush rt after
    | (rows, some .operational) => { run with rows := rows, stage := .probing after retried true }
    | (rows, some .caught) => { run with rows := rows, stage := .probing after retried false }
    | (rows, some .uncaught) => { run with rows := rows }.abandonFlush after
  | .probing after retried operational =>
    let answer := match call with
      | .fine => some (run.durable rt)
      | .raised _ .uncaught => none
      | .raised _ _ => some false
    match answer with
    | none => run.abandonFlush after
    | some true => run.completeFlush rt after
    | some false =>
      if operational && !retried then { run with stage := .committing after true }
      else { run with memory := { run.memory with writeFailed := true } }.abandonFlush after
  | .finalizing =>
    match call.perform run.rows (Rows.finalized run.memory.schema) with
    | (rows, none) => { run with rows := rows, stage := .reading }
    | (rows, some _) => { run with rows := rows }.handle .failed
  | .reading =>
    match call with
    | .fine =>
      let state := if 0 < run.rows.errors then .completedWithErrors else .completed
      { run with stage := .finishing state }
    | .raised _ _ => run.handle .failed
  | .finishing state =>
    match call.perform run.rows (Rows.finished state) with
    | (rows, none) => { run with rows := rows, stage := .reporting }
    | (rows, some _) => { run with rows := rows }.handle .failed
  | .reporting =>
    match call with
    | .fine => { run with stage := .ended }
    | .raised _ _ => run.handle .failed
  | .marking cause =>
    { run with
      rows := (call.perform run.rows (Rows.marked cause.buildState)).1
      stage := .failing cause }
  | .failing cause =>
    { run with
      rows := (call.perform run.rows (Rows.finished cause.executionState)).1
      stage := .ended }
  | .ended => run

def restart (run : Run) : Run :=
  match run.rows.recover.claim with
  | none => { run with rows := run.rows.recover, stage := .ended }
  | some rows => start rt source true rows

def step (run : Run) : Action → Run
  | .restart => restart rt source run
  | .call outcome => stepCall rt outcome run
  | .work elapsed => if run.stage = .records then stepRecords rt elapsed run else run
  | .cancel =>
    if run.stage = .records ∧ run.memory.rest ≠ [] then run.handle .cancelled else run
  | .raise => if run.stage = .records then run.handle .failed else run

/-- A whole history of an execution, through any number of restarts. -/
def history (actions : List Action) : Run :=
  actions.foldl (step rt source) (start rt source false .fresh)

/-- Every step of a history meets the condition in the state before it. -/
def Every (condition : Run → Action → Prop) : Run → List Action → Prop
  | _, [] => True
  | run, action :: rest => condition run action ∧ Every condition (step rt source run action) rest

end Steps

end Arenyxa.Pipeline
