import Arenyxa.Lib.Table
import Arenyxa.Runs.Row

/-! The loop of a run: where its requests wait, what their outcomes count, and the batches in which
their records are written. -/

namespace Arenyxa.Runs

/-- A request of the task, by its index and the key of its host. -/
structure Item where
  index : Nat
  host : String
  deriving DecidableEq

structure ResultRecord where
  id : String
  contentHash : String
  deriving DecidableEq

structure Outcome where
  record : Option ResultRecord
  retries : Nat
  errorCode : Option String
  deriving DecidableEq

/-- What a finished request future holds. -/
inductive Completion
  | returned (outcome : Outcome)
  /-- An `ArenyxaError`, by its code. -/
  | raised (code : String)
  /-- Any other exception. -/
  | escaped

/-- The answer to a request for a slot; `closed` raises, since the service is shut down. -/
inductive Answer
  | granted | hostBusy | gateFull | closed

/-- What a store call comes to; the message of a failure tells a locked database apart. -/
inductive StoreCall
  | stored | locked | failed
  deriving DecidableEq

structure Bucket where
  host : String
  items : List Item

instance : Keyed Bucket String := ⟨Bucket.host⟩

@[simp] theorem bucket_key (b : Bucket) : Keyed.key b = b.host := rfl

def Bucket.push (b : Bucket) (item : Item) : Bucket := { b with items := b.items ++ [item] }

def Bucket.pop (b : Bucket) : Bucket := { b with items := b.items.tail }

structure Counters where
  requestCount : Nat := 0
  retryCount : Nat := 0
  completedUnits : Nat := 0
  successCount : Nat := 0
  failureCount : Nat := 0
  resultCount : Nat := 0
  deriving DecidableEq

/-- How the loop was left: by the counters, or by an exception. -/
inductive Ending
  | running | counted | interrupted
  deriving DecidableEq

/-- The state of `_execute`, the run in memory and the rows that are stored for it. -/
structure Execution where
  pending : List Item
  deferredHosts : List String
  deferredByHost : Table Bucket
  inFlight : List Item
  writeBatch : List ResultRecord
  previewSeen : List String
  firstError : Option String
  counters : Counters
  status : RunStatus
  errorCode : Option String
  stage : String
  rows : List ResultRecord
  ending : Ending
  /-- The requests that were admitted, in order, and the outcomes that were recorded. -/
  admitted : List Item
  recorded : List (Item × Outcome)

/-- The settings of a run: the size of a batch, and whether it is a preview. -/
structure Settings where
  batchSize : Nat
  positive : 0 < batchSize
  preview : Bool

def Execution.started (requests : List Item) : Execution where
  pending := requests
  deferredHosts := []
  deferredByHost := .empty
  inFlight := []
  writeBatch := []
  previewSeen := []
  firstError := none
  counters := {}
  status := .running
  errorCode := none
  stage := "fetch"
  rows := []
  ending := .running
  admitted := []
  recorded := []

/-- Whether `_record_execution_outcome` comes to its flush. -/
def Outcome.buffered (s : Settings) (o : Outcome) : Bool :=
  o.errorCode.isNone && o.record.isSome && !s.preview

/-- `_future_outcome`; a cancelled request raises. -/
def Completion.outcome : Completion → Option Outcome
  | .returned o => some o
  | .raised code => if code = "RUN_CANCELLED" then none else some ⟨none, 0, some code⟩
  | .escaped => some ⟨none, 0, some "RUN_REQUEST_UNEXPECTED"⟩

namespace Execution

/-- The handlers of `_execute`. -/
def interrupt (e : Execution) (code : String) : Execution :=
  if code = "RUN_CANCELLED" then
    { e with status := .cancelled, errorCode := none, stage := "cancelled", ending := .interrupted }
  else
    { e with
      counters := { e.counters with failureCount := e.counters.failureCount + 1 }
      status := .failed
      errorCode := some code
      stage := "failed"
      ending := .interrupted }

/-- `_persist_progress`, which fails with one code whatever the store says. -/
def progress (e : Execution) : StoreCall → Execution
  | .stored => e
  | _ => e.interrupt "RUN_STORAGE_FAILED"

section Admission

variable (e : Execution)

def admitRequest (item : Item) : Execution :=
  { e with
    inFlight := e.inFlight ++ [item]
    counters := { e.counters with requestCount := e.counters.requestCount + 1 }
    admitted := e.admitted ++ [item] }

/-- `_defer_execution_request`. -/
def defer (item : Item) : Execution :=
  match e.deferredByHost.get? item.host with
  | none => { e with
      deferredByHost := e.deferredByHost.insert ⟨item.host, [item]⟩
      deferredHosts := e.deferredHosts ++ [item.host] }
  | some _ => { e with
      deferredByHost := e.deferredByHost.modify item.host (·.push item) (fun _ => rfl) }

/-- The first request of a bucket is admitted, and the host takes its next turn last. -/
def admitDeferred (host : String) (rest : List String) (item : Item) (items : List Item) : Execution :=
  if items = [] then
    { e.admitRequest item with deferredHosts := rest, deferredByHost := e.deferredByHost.erase host }
  else
    { e.admitRequest item with
      deferredHosts := rest ++ [host]
      deferredByHost := e.deferredByHost.modify host Bucket.pop (fun _ => rfl) }

/-- What an answer to the first request of a bucket does. -/
def askBucket (host : String) (rest : List String) (item : Item) (items : List Item) :
    Answer → Execution
  | .gateFull => e
  | .hostBusy => { e with deferredHosts := rest ++ [host] }
  | .closed => { e with deferredHosts := rest }.interrupt "RUN_CANCELLED"
  | .granted => e.admitDeferred host rest item items

/-- A host without requests leaves its line. -/
def askHost (host : String) (rest : List String) (answer : Answer) : Execution :=
  match e.deferredByHost.get? host with
  | none => { e with deferredHosts := rest }
  | some ⟨_, []⟩ => { e with deferredHosts := rest, deferredByHost := e.deferredByHost.erase host }
  | some ⟨_, item :: items⟩ => e.askBucket host rest item items answer

/-- The body of the first loop of `_fill_execution_workers`. -/
def askDeferred (answer : Answer) : Execution :=
  match e.deferredHosts with
  | [] => e
  | host :: rest => e.askHost host rest answer

/-- A request behind others of its host waits with them; else it is asked for. -/
def askItem (item : Item) (rest : List Item) (answer : Answer) : Execution :=
  let popped := { e with pending := rest }
  match e.deferredByHost.get? item.host, answer with
  | some _, _ => popped.defer item
  | none, .gateFull => e
  | none, .hostBusy => popped.defer item
  | none, .closed => popped.interrupt "RUN_CANCELLED"
  | none, .granted => popped.admitRequest item

/-- The body of its second loop. -/
def askPending (answer : Answer) : Execution :=
  match e.pending with
  | [] => e
  | item :: rest => e.askItem item rest answer

end Admission

/-- The rows after `append_results`: a content hash that is stored already is passed over. -/
def appendResults (rows batch : List ResultRecord) : List ResultRecord :=
  batch.foldl (fun rows r =>
    if (rows.map ResultRecord.contentHash).contains r.contentHash then rows else rows ++ [r]) rows

/-- `_flush_result_batch`. -/
def flushBatch (e : Execution) (s : Settings) (w : StoreCall) : Except String Execution :=
  if s.preview || e.writeBatch.isEmpty then .ok e
  else match w with
    | .locked => .error "RUN_STORAGE_BACKPRESSURE"
    | .failed => .error "RUN_STORAGE_FAILED"
    | .stored =>
      let rows := appendResults e.rows e.writeBatch
      .ok { e with
        rows := rows
        writeBatch := []
        counters := { e.counters with
          resultCount := e.counters.resultCount + (rows.length - e.rows.length) } }

/-- A flush between two stages. -/
def flush (e : Execution) (s : Settings) (w : StoreCall) : Execution :=
  match { e with stage := "write" }.flushBatch s w with
  | .ok e => { e with stage := "fetch" }
  | .error code => e.interrupt code

/-- `_flush_execution_results_if_due`, of a batch that is due where it is not empty. -/
def flushDue (e : Execution) (s : Settings) (w : StoreCall) : Execution :=
  if e.writeBatch.isEmpty then e else e.flush s w

/-- `_record_execution_outcome` up to its flush. -/
def record (e : Execution) (s : Settings) (item : Item) (o : Outcome) : Execution :=
  let c := { e.counters with
    retryCount := e.counters.retryCount + o.retries
    completedUnits := e.counters.completedUnits + 1 }
  let e := { e with recorded := e.recorded ++ [(item, o)] }
  match o.errorCode with
  | some code => { e with
      counters := { c with failureCount := c.failureCount + 1 }
      firstError := e.firstError.or (some code) }
  | none =>
    let c := { c with successCount := c.successCount + 1 }
    match o.record with
    | none => { e with counters := c }
    | some r =>
      if s.preview then
        if e.previewSeen.contains r.contentHash then { e with counters := c }
        else { e with
          counters := { c with resultCount := c.resultCount + 1 }
          previewSeen := e.previewSeen ++ [r.contentHash] }
      else { e with counters := c, writeBatch := e.writeBatch ++ [r] }

/-- `_complete_execution_status`. -/
def complete (e : Execution) : Execution :=
  if e.counters.failureCount = 0 then
    { e with status := .completed, errorCode := none, stage := "completed", ending := .counted }
  else if 0 < e.counters.successCount then
    { e with
      status := .partially, errorCode := some "RUN_PARTIAL_FAILURE", stage := "partial"
      ending := .counted }
  else
    { e with
      status := .failed, errorCode := some (e.firstError.getD "RUN_REQUEST_FAILED"), stage := "failed"
      ending := .counted }

/-- The loop is left, and the last batch is written. -/
def close (e : Execution) (s : Settings) (w : StoreCall) : Execution :=
  if e.pending.isEmpty && e.deferredHosts.isEmpty && e.inFlight.isEmpty then
    if e.writeBatch.isEmpty then e.complete
    else match { e with stage := "write" }.flushBatch s w with
      | .ok e => e.complete
      | .error code => e.interrupt code
  else e

/-- A finished future is taken out of the requests in flight. -/
def take (e : Execution) (item : Item) : Execution := { e with inFlight := e.inFlight.erase item }

end Execution

/-- A step of the loop, with everything that it does not decide itself. -/
inductive Turn
  | progress (w : StoreCall)
  /-- A checkpoint finds the token cancelled. -/
  | cancel
  /-- The resource governance refuses new work. -/
  | pressure
  | askDeferred (answer : Answer)
  | askPending (answer : Answer)
  | collect (item : Item) (completion : Completion) (w : StoreCall)
  | flushDue (w : StoreCall)
  | close (w : StoreCall)

/-- The loop body of an engine for one finished future. -/
abbrev Collector := Execution → Settings → Item → Completion → StoreCall → Execution

/-- `_record_execution_outcome` of the thread engine flushes a full batch itself. -/
def collectThread : Collector := fun e s item completion w =>
  match completion.outcome with
  | none => (e.take item).interrupt "RUN_CANCELLED"
  | some o =>
    let e := (e.take item).record s item o
    if o.buffered s && s.batchSize ≤ e.writeBatch.length then e.flush s w else e

/-- The asyncio engine records without a flush, and then looks at the batch. -/
def collectAsync : Collector := fun e s item completion w =>
  match completion.outcome with
  | none => (e.take item).interrupt "RUN_CANCELLED"
  | some o =>
    let e := (e.take item).record s item o
    if !s.preview && s.batchSize ≤ e.writeBatch.length then e.flush s w else e

/-- One step of `_execute` or of `_execute_async`. -/
def Execution.step (s : Settings) (collector : Collector) (e : Execution) (turn : Turn) : Execution :=
  if e.ending ≠ .running then e
  else match turn with
    | .progress w => e.progress w
    | .cancel => e.interrupt "RUN_CANCELLED"
    | .pressure => e.interrupt "RUN_RESOURCE_PRESSURE"
    | .askDeferred answer => e.askDeferred answer
    | .askPending answer => e.askPending answer
    | .collect item completion w => if item ∈ e.inFlight then collector e s item completion w else e
    | .flushDue w => e.flushDue s w
    | .close w => e.close s w

/-- `_finalize_execution`: a failed last write leaves the outcome as it is. -/
def finalizeThread (e : Execution) (_ : StoreCall) : Execution := e

/-- `_finalize_execution_async`, after the tasks in flight have been cancelled and dropped. -/
def finalizeAsync (e : Execution) (w : StoreCall) : Execution :=
  let e := { e with inFlight := [] }
  match w with
  | .stored => e
  | _ => { e with status := .failed, errorCode := some "RUN_STORAGE_FAILED", stage := "failed" }

end Arenyxa.Runs
