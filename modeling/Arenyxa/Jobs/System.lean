import Arenyxa.Lib.Table

/-! The platform job system: slots, futures, cancellation, retirement and shutdown as steps that
threads take in any order, and the durable rows they write. -/

universe u

namespace Arenyxa.Jobs

inductive JobState
  | queued
  | running
  | succeeded
  | failed
  | cancelled
  | timedOut
  | interrupted
  deriving DecidableEq

def JobState.Terminal (state : JobState) : Prop := state ≠ .queued ∧ state ≠ .running

/-- A row of `platform_jobs`. -/
structure JobRow (ν : Type u) where
  state : JobState
  message : String
  result : Option ν
  errorCode : String
  errorMessage : String

/-- The keyword arguments of `update_platform_job`. -/
structure Update (ν : Type u) where
  state : Option JobState
  message : String
  result : Option ν
  errorCode : Option String
  errorMessage : Option String
  expected : List JobState

inductive StoreError
  | unencodable
  | overBudget

def maxResultBytes : Nat := 1024 * 1024

section Store

variable {ν : Type u}

-- The length of the JSON text of a value, if it has one.
variable (encode : ν → Option Nat)

/-- `text[:limit]` -/
def clip (limit : Nat) (text : String) : String := String.ofList (text.toList.take limit)

def checkResult (result : Option ν) : Except StoreError Unit :=
  match result with
  | none => .ok ()
  | some value =>
    match encode value with
    | none => .error .unencodable
    | some bytes => if maxResultBytes < bytes then .error .overBudget else .ok ()

def assignRow (row : JobRow ν) (update : Update ν) : JobRow ν where
  state := update.state.getD row.state
  message := clip 1024 update.message
  result := if update.result.isSome then update.result else row.result
  errorCode := (update.errorCode.map (clip 128)).getD row.errorCode
  errorMessage := (update.errorMessage.map (clip 4096)).getD row.errorMessage

/-- `update_platform_job`: whether a row was updated, and the row. -/
def updatePlatformJob (row : Option (JobRow ν)) (update : Update ν) :
    Except StoreError (Bool × Option (JobRow ν)) :=
  match checkResult encode update.result with
  | .error error => .error error
  | .ok _ =>
    match row with
    | none => .ok (false, none)
    | some row =>
      if update.expected = [] ∨ row.state ∈ update.expected then
        .ok (true, some (assignRow row update))
      else .ok (false, some row)

/-- The row after an update whose outcome the caller does not look at. -/
def updatedRow (row : Option (JobRow ν)) (update : Update ν) : Option (JobRow ν) :=
  match updatePlatformJob encode row update with
  | .ok (_, row') => row'
  | .error _ => row

end Store

/-- The state of a `Future`; a finished one keeps the name and the text of its exception. -/
inductive FutureState
  | unset
  | pending
  | running
  | cancelled
  | finished (error : Option (String × String))

def FutureState.done : FutureState → Bool
  | .cancelled => true
  | .finished _ => true
  | _ => false

/-- Who runs `_retire`. -/
inductive Caller
  | callback
  | shutdown

inductive CallbackState
  | unset
  | added
  | called
  | ran
  deriving DecidableEq

/-- All that the system and its store hold for one job identifier. -/
structure Job (ν : Type u) where
  id : String
  /-- `submit` has not returned yet. -/
  inSubmit : Bool
  /-- The slot is acquired and the executor does not have the job yet. -/
  submitting : Bool
  /-- The identifier is in `_futures`, `_cancellation` and `_state_locks`. -/
  owned : Bool
  future : FutureState
  callback : CallbackState
  cancelled : Bool
  retiring : Option Caller
  failedRetirement : Bool
  terminalUpdate : Option (Update ν)
  terminalPersisted : Bool
  row : Option (JobRow ν)
  /-- How often the slot acquired for the job was released. -/
  releases : Nat

variable {ν : Type u}

instance : Keyed (Job ν) String := ⟨Job.id⟩

def Job.withId (job : Job ν) (id : String) : Job ν := { job with id := id }

def Job.acquired (id : String) : Job ν where
  id := id
  inSubmit := true
  submitting := true
  owned := false
  future := .unset
  callback := .unset
  cancelled := false
  retiring := none
  failedRetirement := false
  terminalUpdate := none
  terminalPersisted := false
  row := none
  releases := 0

/-- How an operation ends; an interruption is no `Exception`. -/
inductive Outcome (ν : Type u)
  | returned (value : ν)
  | cancelled (message : String)
  | timedOut (message : String)
  | raised (name message : String)
  | interrupted (name message : String)

section Steps

variable (encode : ν → Option Nat)

/-- A job after a step, and whether the step released its slot. -/
abbrev Stepped (ν : Type u) := Job ν × Bool

def Job.same (job : Job ν) : Stepped ν := (job, false)

def Job.release (job : Job ν) : Stepped ν := ({ job with releases := job.releases + 1 }, true)

/-- `create_platform_job` -/
def Job.persist (job : Job ν) : Stepped ν :=
  if job.submitting ∧ job.row.isNone then
    { job with row := some ⟨.queued, "Queued", none, "", ""⟩ }.same
  else job.same

/-- The way out of `_submit` before the hand-off. -/
def Job.reject (job : Job ν) (stopping : Bool) (text : String) : Stepped ν :=
  { job with
    inSubmit := false
    submitting := false
    row := updatedRow encode job.row
      { state := some (if stopping then .cancelled else .failed)
        message := "Rejected before execution"
        result := none
        errorCode := some (if stopping then "JOB_SYSTEM_STOPPING" else "JOB_SUBMIT_FAILED")
        errorMessage := some text
        expected := [.queued] } }.release

def stoppingText : String := "the platform Job System is not accepting new work"

/-- The hand-off to the executor, of a job that is persisted. -/
def Job.handOff (job : Job ν) (accepting : Bool) : Stepped ν :=
  if job.submitting ∧ job.row.isSome then
    if accepting then { job with submitting := false, owned := true, future := .pending }.same
    else job.reject encode true stoppingText
  else job.same

/-- An exception in `submit` that is none of its own. -/
def Job.interrupt (job : Job ν) (text : String) : Stepped ν :=
  if job.submitting then job.reject encode false text
  else { job with inSubmit := false }.same

/-- `add_done_callback`, after which `submit` returns. -/
def Job.register (job : Job ν) : Stepped ν :=
  if job.inSubmit ∧ ¬job.submitting ∧ job.callback = .unset then
    { job with inSubmit := false, callback := .added }.same
  else job.same

def FutureState.isPending : FutureState → Bool
  | .pending => true
  | _ => false

def FutureState.isRunning : FutureState → Bool
  | .running => true
  | _ => false

/-- The beginning of `_run`. -/
def Job.start (job : Job ν) : Stepped ν :=
  if job.future.isPending then
    { job with
      future := .running
      row := updatedRow encode job.row
        { state := some .running
          message := if job.cancelled then "Cancellation requested" else "Running"
          result := none
          errorCode := none
          errorMessage := none
          expected := [.queued] } }.same
  else job.same

/-- An update of the message alone. -/
def note (message : String) (expected : List JobState) : Update ν :=
  { state := none, message, result := none, errorCode := none, errorMessage := none, expected }

def Job.progress (job : Job ν) (message : String) : Stepped ν :=
  if job.future.isRunning ∧ ¬job.cancelled then
    { job with row := updatedRow encode job.row (note message [.running]) }.same
  else job.same

/-- `_persist_terminal`, with the exception it raises. -/
def Job.persistTerminal (job : Job ν) : Except (String × String) (Job ν) :=
  match job.terminalUpdate with
  | none => .error ("KeyError", job.id)
  | some update =>
    match updatePlatformJob encode job.row update with
    | .error .unencodable => .error ("ValueError", "platform job result has no JSON text")
    | .error .overBudget =>
      .error ("ValueError", "platform job result exceeds the 1 MiB persistence budget")
    | .ok (false, _) => .error ("RuntimeError", "terminal platform job update rejected: " ++ job.id)
    | .ok (true, row) => .ok { job with row, terminalPersisted := true }

def Job.withUpdate (job : Job ν) (update : Update ν) : Job ν :=
  { job with terminalUpdate := some update }

def successUpdate (value : ν) : Update ν :=
  { state := some .succeeded, message := "Completed", result := some value, errorCode := some ""
    errorMessage := some "", expected := [.running, .succeeded] }

def failureUpdate (state : JobState) (code message : String) : Update ν :=
  { state := some state, message, result := none, errorCode := some code
    errorMessage := some message, expected := [.queued, .running, state] }

/-- The operation's outcome after the second `check_cancelled`. -/
def Outcome.checked (outcome : Outcome ν) (job : Job ν) (late : Bool) : Outcome ν :=
  match outcome with
  | .returned value =>
    if job.cancelled then .cancelled ("platform job cancelled: " ++ job.id)
    else if late then .timedOut ("platform job timed out: " ++ job.id)
    else .returned value
  | other => other

/-- The terminal update that an outcome leads to, and whether an audit failure ends the run. -/
def Outcome.terminal (outcome : Outcome ν) (auditError : Option (String × String)) :
    Option (Update ν) :=
  match outcome, auditError with
  | .returned value, none => some (successUpdate value)
  | .returned _, some (name, text) =>
    some (failureUpdate .failed (clip 128 name.toUpper) text)
  | .cancelled message, _ => some (failureUpdate .cancelled "JOB_CANCELLED" message)
  | .timedOut message, _ => some (failureUpdate .timedOut "JOB_TIMEOUT" message)
  | .raised name message, _ => some (failureUpdate .failed (clip 128 name.toUpper) message)
  | .interrupted _ _, _ => none

/-- What is left of an outcome when its terminal update is persisted. -/
def Outcome.exception (outcome : Outcome ν) (auditError : Option (String × String)) :
    Option (String × String) :=
  match outcome with
  | .interrupted name message => some (name, message)
  | _ => auditError

/-- The end of `_run`. -/
def Job.finish (job : Job ν) (outcome : Outcome ν) (late : Bool)
    (auditError : Option (String × String)) : Stepped ν :=
  if job.future.isRunning then
    let checked := outcome.checked job late
    match checked.terminal auditError with
    | none => { job with future := .finished (checked.exception auditError) }.same
    | some update =>
      match (job.withUpdate update).persistTerminal encode with
      | .ok job' => { job' with future := .finished (checked.exception auditError) }.same
      | .error error => { job.withUpdate update with future := .finished (some error) }.same
  else job.same

/-- `future.cancel()` -/
def FutureState.cancel : FutureState → FutureState
  | .pending => .cancelled
  | other => other

/-- `cancel`, up to `future.cancel()`. -/
def Job.cancel (job : Job ν) : Stepped ν :=
  if job.owned ∧ (job.row.any fun row => row.state = .queued ∨ row.state = .running) then
    { job with cancelled := true, future := job.future.cancel }.same
  else job.same

/-- The rest of `cancel`. -/
def Job.noteCancellation (job : Job ν) : Stepped ν :=
  { job with
    row := updatedRow encode job.row (note "Cancellation requested" [.queued, .running]) }.same

def Job.cancelFuture (job : Job ν) : Stepped ν := { job with future := job.future.cancel }.same

def calledBy (callback reached : CallbackState) : Caller → CallbackState
  | .callback => reached
  | .shutdown => callback

/-- `_retire` is called by the callback of a finished future, or by a shutdown that tries again. -/
def Job.callable (job : Job ν) : Caller → Bool
  | .callback => job.future.done && job.callback = .added
  | .shutdown => job.future.done

/-- The beginning of `_retire`; it returns at once where another call is at work. -/
def Job.enterRetire (caller : Caller) (job : Job ν) : Stepped ν :=
  if job.callable caller then
    if ¬job.owned ∨ job.retiring.isSome then
      { job with callback := calledBy job.callback .ran caller }.same
    else
      { job with
        retiring := some caller
        failedRetirement := false
        callback := calledBy job.callback .called caller }.same
  else job.same

/-- The terminal update of a future that left none. -/
def FutureState.retirement : FutureState → Update ν
  | .cancelled => failureUpdate .cancelled "JOB_CANCELLED" "Cancelled before execution"
  | .finished (some (name, message)) => failureUpdate .failed name.toUpper message
  | _ => failureUpdate .failed "NONETYPE" "Missing terminal job outcome"

/-- What `_retire` writes before it frees the slot. -/
def Job.settle (job : Job ν) : Except (Job ν) (Job ν) :=
  match job.terminalUpdate with
  | none =>
    match (job.withUpdate job.future.retirement).persistTerminal encode with
    | .ok job' => .ok job'
    | .error _ => .error (job.withUpdate job.future.retirement)
  | some _ =>
    if job.terminalPersisted then .ok job
    else
      match job.persistTerminal encode with
      | .ok job' => .ok job'
      | .error _ => .error job

def afterCall (callback : CallbackState) : Option Caller → CallbackState
  | some caller => calledBy callback .ran caller
  | none => callback

/-- The rest of `_retire`. -/
def Job.leaveRetire (job : Job ν) : Stepped ν :=
  if job.retiring.isSome then
    match job.settle encode with
    | .ok settled =>
      { settled with
        owned := false
        retiring := none
        callback := afterCall job.callback job.retiring
        cancelled := false
        terminalUpdate := none
        terminalPersisted := false }.release
    | .error unsettled =>
      { unsettled with
        retiring := none
        callback := afterCall job.callback job.retiring
        failedRetirement := true }.same
  else job.same

structure JobSystem (ν : Type u) where
  /-- `max_workers + queue_capacity` -/
  capacity : Nat
  acquired : Nat
  /-- Submissions that have not acquired a slot yet. -/
  entered : Nat
  accepting : Bool
  shutdownStarted : Bool
  shutdownCancelling : Bool
  shutdownFailed : Bool
  retries : List String
  jobs : Table (Job ν)

def JobSystem.init (capacity : Nat) : JobSystem ν where
  capacity := capacity
  acquired := 0
  entered := 0
  accepting := true
  shutdownStarted := false
  shutdownCancelling := false
  shutdownFailed := false
  retries := []
  jobs := Table.empty

inductive Action (ν : Type u)
  | submit
  | refuse
  | acquire (id : String)
  | persist (id : String)
  | handOff (id : String)
  | interrupt (id text : String)
  | register (id : String)
  | start (id : String)
  | progress (id message : String)
  | finish (id : String) (outcome : Outcome ν) (late : Bool) (auditError : Option (String × String))
  | cancel (id : String)
  | noteCancellation (id : String)
  | callback (id : String)
  | retry (id : String)
  | leaveRetire (id : String)
  | beginShutdown
  | cancelFuture (id : String)
  | endShutdown (raised : Bool)
  | drain

/-- A step on one job, which may release its slot. -/
def JobSystem.onJob (s : JobSystem ν) (id : String) (step : Job ν → Stepped ν) : JobSystem ν :=
  match s.jobs.get? id with
  | none => s
  | some job =>
    { s with
      acquired := if (step job).2 then s.acquired - 1 else s.acquired
      jobs := s.jobs.modify id (fun old => (step job).1.withId old.id) fun _ => rfl }

/-- `slots.acquire(blocking=False)`, with the identifier drawn for the job. -/
def JobSystem.acquire (s : JobSystem ν) (id : String) : JobSystem ν :=
  if 0 < s.entered ∧ s.accepting ∧ s.acquired < s.capacity ∧ s.jobs.get? id = none then
    { s with
      entered := s.entered - 1
      acquired := s.acquired + 1
      jobs := s.jobs.insert (.acquired id) }
  else s

def JobSystem.failedRetirements (s : JobSystem ν) : List String :=
  (s.jobs.rows.filter Job.failedRetirement).map Job.id

/-- `begin_shutdown`, up to the thread that cancels. -/
def JobSystem.beginShutdown (s : JobSystem ν) : JobSystem ν :=
  if s.shutdownCancelling ∨ (s.shutdownStarted ∧ s.failedRetirements = []) then
    { s with accepting := false }
  else
    { s with
      accepting := false
      shutdownStarted := true
      shutdownFailed := false
      shutdownCancelling := true
      retries := s.failedRetirements
      jobs := s.jobs.updateWhere Job.owned (fun job => { job with cancelled := true }) fun _ => rfl }

/-- The end of `cancel_owned`. -/
def JobSystem.endShutdown (s : JobSystem ν) (raised : Bool) : JobSystem ν :=
  if s.shutdownCancelling then
    let failed := raised || !s.failedRetirements.isEmpty
    { s with shutdownFailed := failed, shutdownStarted := !failed, shutdownCancelling := false }
  else s

/-- The end of `_retire` for the system: a failure lets the shutdown be retried. -/
def JobSystem.leaveRetire (s : JobSystem ν) (id : String) : JobSystem ν :=
  match s.jobs.get? id with
  | none => s
  | some job =>
    let after := s.onJob id (Job.leaveRetire encode)
    if job.retiring.isSome ∧ ¬(job.leaveRetire encode).2 then
      { after with shutdownStarted := false, shutdownFailed := true }
    else after

/-- One look of `drain`: nothing while it waits, else what it returns. -/
def JobSystem.drain (s : JobSystem ν) (includeSubmissions : Bool) : Option Bool :=
  if s.jobs.rows.any Job.owned ∨ s.shutdownCancelling ∨
      (includeSubmissions ∧ (0 < s.entered ∨ s.jobs.rows.any Job.inSubmit)) then
    if s.failedRetirements ≠ [] ∧ ¬s.shutdownCancelling then some false else none
  else some !s.shutdownFailed

def perform (s : JobSystem ν) : Action ν → JobSystem ν
  | .submit => if s.accepting then { s with entered := s.entered + 1 } else s
  | .refuse => { s with entered := s.entered - 1 }
  | .acquire id => s.acquire id
  | .persist id => s.onJob id Job.persist
  | .handOff id => s.onJob id fun job => job.handOff encode s.accepting
  | .interrupt id text => s.onJob id fun job => job.interrupt encode text
  | .register id => s.onJob id Job.register
  | .start id => s.onJob id (Job.start encode)
  | .progress id message => s.onJob id fun job => job.progress encode message
  | .finish id outcome late auditError =>
    s.onJob id fun job => job.finish encode outcome late auditError
  | .cancel id => s.onJob id Job.cancel
  | .noteCancellation id => s.onJob id (Job.noteCancellation encode)
  | .callback id => s.onJob id (Job.enterRetire .callback)
  | .retry id =>
    if id ∈ s.retries then
      { s.onJob id (Job.enterRetire .shutdown) with retries := s.retries.erase id }
    else s
  | .leaveRetire id => s.leaveRetire encode id
  | .beginShutdown => s.beginShutdown
  | .cancelFuture id => if s.shutdownCancelling then s.onJob id Job.cancelFuture else s
  | .endShutdown raised => s.endShutdown raised
  | .drain => s

/-- The states that a system goes through. -/
def performAll (s : JobSystem ν) (actions : List (Action ν)) : JobSystem ν :=
  actions.foldl (perform encode) s

end Steps

end Arenyxa.Jobs
