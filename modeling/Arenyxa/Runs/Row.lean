/-! The durable row of a run: progress snapshots and control writes. -/

namespace Arenyxa.Runs

inductive RunStatus
  | queued | running | paused | completed | partially | failed | cancelled
  deriving DecidableEq

def RunStatus.terminal : RunStatus → Bool
  | .completed | .partially | .failed | .cancelled => true
  | _ => false

/-- Whether pause and resume move the run between the two. -/
def RunStatus.controlled : RunStatus → Bool
  | .running | .paused => true
  | _ => false

/-- The columns that a snapshot overwrites, besides the status. -/
structure Columns where
  stage : String
  completedUnits : Nat
  totalUnits : Nat
  requestCount : Nat
  successCount : Nat
  failureCount : Nat
  resultCount : Nat
  retryCount : Nat
  errorCode : Option String
  startedAt : Option String
  finishedAt : Option String
  deriving DecidableEq

/-- A run in memory, and its row. -/
structure Run where
  status : RunStatus
  columns : Columns
  deriving DecidableEq

/-- The `CASE` of `save_run`. -/
def keptStatus (old new : RunStatus) : RunStatus :=
  if old.controlled && new.controlled then old
  else if old.terminal && !new.terminal then old
  else new

/-- `save_run`: an update, or an insert where there is no row yet. -/
def saveRun (row : Option Run) (snapshot : Run) : Option Run :=
  match row with
  | none => some snapshot
  | some row => some ⟨keptStatus row.status snapshot.status, snapshot.columns⟩

/-- The statuses from which `update_run_control_status` goes to the given one, `none` where it
raises. -/
def controlFrom : RunStatus → Option (List RunStatus)
  | .paused => some [.queued, .running, .paused]
  | .running => some [.paused, .running]
  | _ => none

/-- `update_run_control_status`: whether a row was updated, and the row. -/
def updateRunControlStatus (row : Option Run) (status : RunStatus) : Bool × Option Run :=
  match controlFrom status, row with
  | some allowed, some row =>
    if allowed.contains row.status then (true, some { row with status := status })
    else (false, some row)
  | _, row => (false, row)

end Arenyxa.Runs
