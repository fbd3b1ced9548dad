import Arenyxa.Lib.Table
import Arenyxa.Distributed.Protocol

/-! The tables of the queue and the row updates its statements make. -/

namespace Arenyxa.Distributed

structure Job where
  jobId : String
  kind : String
  state : JobState
  payloadJson : String
  payloadSha256 : String
  traceparent : String
  tracestate : String
  resourceId : String
  permission : String
  idempotencyKey : String
  sideEffectMode : SideEffectMode
  sideEffectState : SideEffectState
  attempt : Int
  maxAttempts : Int
  protocolVersion : Int
  priority : Int
  leaseWorkerId : String := ""
  leaseTokenSha256 : String := ""
  leaseExpiresAt : ℚ := 0
  checkpointJson : String := "{}"
  checkpointSeq : Int := 0
  resultJson : String := "{}"
  resultSha256 : String := ""
  terminalWorkerId : String := ""
  terminalLeaseTokenSha256 : String := ""
  terminalAt : String := ""
  errorCode : String := ""
  createdAt : String
  updatedAt : String

structure Worker where
  workerId : String
  displayName : String
  publicKey : String
  identityAlgorithm : String
  identityMetadataJson : String
  protocolMin : Int
  protocolMax : Int
  negotiatedProtocol : Int
  appCompatVersion : String
  resourcesJson : String
  maxSlots : Int
  activeLeases : Int
  state : WorkerState
  createdAt : String
  updatedAt : String
  heartbeatAt : ℚ
  revokedAt : String

/-- The text of a JSON array of strings: what it decodes to, and whether every character that
`json.dumps` escapes is escaped in it. -/
structure JsonArrayText where
  items : List String
  escaped : Bool

/-- `json.dumps`, which escapes DEL and every character outside ASCII. -/
def jsonDumps (items : List String) : JsonArrayText := ⟨items, true⟩

/-- `json_build_array(...)::text`, which keeps them. -/
def jsonBuildArray (items : List String) : JsonArrayText := ⟨items, items.all isPlain⟩

structure Fence where
  idempotencyKey : String
  jobId : String
  kind : String
  payloadSha256 : String
  resourceId : String
  permission : String
  sideEffectMode : SideEffectMode
  terminalState : JobState
  terminalReceipt : JsonArrayText
  createdAt : String
  terminalAt : String
  updatedAt : String

inductive EventType
  | enqueued | leased | started | sideEffectStarted | completed | executionFailed
  | leaseHandover | leaseExpired | leaseReconciled | workerLeaseRecovered
  | workerHeartbeatLost | operatorRetry
  deriving DecidableEq

def EventType.name : EventType → String
  | .enqueued => "enqueued"
  | .leased => "leased"
  | .started => "started"
  | .sideEffectStarted => "side_effect_started"
  | .completed => "completed"
  | .executionFailed => "execution_failed"
  | .leaseHandover => "lease_handover"
  | .leaseExpired => "lease_expired"
  | .leaseReconciled => "lease_reconciled"
  | .workerLeaseRecovered => "worker_lease_recovered"
  | .workerHeartbeatLost => "worker_heartbeat_lost"
  | .operatorRetry => "operator_retry"

/-- The columns of an event that its writer supplies. -/
structure EventValues where
  jobId : String
  eventType : EventType
  fromState : Option JobState
  toState : JobState
  workerId : String := ""
  code : String := ""
  details : Details := []
  createdAt : String
  deriving DecidableEq

structure JobEvent extends EventValues where
  eventId : Nat
  deriving DecidableEq

structure ClockAnchor where
  domain : String
  monotonic : ℚ
  epoch : ℚ
  deriving DecidableEq

instance : Keyed Job String := ⟨Job.jobId⟩
instance : Keyed Worker String := ⟨Worker.workerId⟩
instance : Keyed Fence String := ⟨Fence.idempotencyKey⟩

/-- The durable tables, and the flag of the open handle that guards pruning. Events are in
`event_id` order. -/
structure Queue where
  jobs : Table Job
  workers : Table Worker
  fences : Table Fence
  events : List JobEvent
  nextEventId : Nat
  leaseClockAnchor : Option ClockAnchor
  idempotencyBackfillComplete : Bool

def Queue.empty : Queue :=
  ⟨.empty, .empty, .empty, [], 1, none, false⟩

/-- What an idempotency key stands for. -/
structure JobIdentity where
  jobId : String
  kind : String
  payloadSha256 : String
  resourceId : String
  permission : String
  sideEffectMode : SideEffectMode
  deriving DecidableEq

def Job.identity (row : Job) : JobIdentity :=
  ⟨row.jobId, row.kind, row.payloadSha256, row.resourceId, row.permission, row.sideEffectMode⟩

def Fence.identity (row : Fence) : JobIdentity :=
  ⟨row.jobId, row.kind, row.payloadSha256, row.resourceId, row.permission, row.sideEffectMode⟩

namespace Job

def lease (worker digest : String) (expires : ℚ) (utc : String) (row : Job) : Job :=
  { row with
    state := .leased, attempt := row.attempt + 1, leaseWorkerId := worker,
    leaseTokenSha256 := digest, leaseExpiresAt := expires, errorCode := "", updatedAt := utc }

def start (utc : String) (row : Job) : Job :=
  { row with state := .running, updatedAt := utc }

def renew (expires : ℚ) (utc : String) (row : Job) : Job :=
  { row with leaseExpiresAt := expires, updatedAt := utc }

def saveCheckpoint (json : String) (sequence : Int) (utc : String) (row : Job) : Job :=
  { row with checkpointJson := json, checkpointSeq := sequence, updatedAt := utc }

def startSideEffect (utc : String) (row : Job) : Job :=
  { row with sideEffectState := .started, updatedAt := utc }

/-- The statement every path uses to give a lease back. -/
def release (target : JobState) (code utc : String) (row : Job) : Job :=
  { row with
    state := target, leaseWorkerId := "", leaseTokenSha256 := "", leaseExpiresAt := 0,
    errorCode := code, updatedAt := utc }

def complete (resultJson resultSha worker tokenSha utc : String) (row : Job) : Job :=
  { row with
    state := .completed, resultJson := resultJson, resultSha256 := resultSha,
    sideEffectState :=
      if row.sideEffectState = .started then .completed else row.sideEffectState,
    terminalWorkerId := worker, terminalLeaseTokenSha256 := tokenSha, terminalAt := utc,
    leaseWorkerId := "", leaseTokenSha256 := "", leaseExpiresAt := 0, errorCode := "",
    updatedAt := utc }

def approveRetry (utc : String) (row : Job) : Job :=
  { row with
    state := .queued, sideEffectState := .none, errorCode := "OPERATOR_RETRY_APPROVED",
    updatedAt := utc }

def distrustLease (row : Job) : Job := { row with leaseExpiresAt := 1 }

theorem distrustLease_jobId (row : Job) : row.distrustLease.jobId = row.jobId := rfl

/-- A non-idempotent effect that may have happened already. -/
def mayHaveRun (row : Job) : Bool :=
  row.sideEffectMode = .nonIdempotent ∧ row.sideEffectState = .started

end Job

namespace Worker

def claimSlot (heartbeat : ℚ) (utc : String) (row : Worker) : Worker :=
  { row with activeLeases := row.activeLeases + 1, heartbeatAt := heartbeat, updatedAt := utc }

/-- `active_leases=max(0,active_leases-n)` -/
def releaseSlots (n : Int) (utc : String) (row : Worker) : Worker :=
  { row with activeLeases := max 0 (row.activeLeases - n), updatedAt := utc }

def beat (heartbeat : ℚ) (utc : String) (row : Worker) : Worker :=
  { row with heartbeatAt := heartbeat, updatedAt := utc }

/-- The worker half of giving a lease back. -/
def returnSlot (heartbeat : ℚ) (utc : String) (row : Worker) : Worker :=
  (row.releaseSlots 1 utc).beat heartbeat utc

def declare (resourcesJson : String) (row : Worker) : Worker :=
  { row with resourcesJson := resourcesJson }

def drain (target : WorkerState) (utc : String) (row : Worker) : Worker :=
  { row with state := target, updatedAt := utc }

def revoke (utc : String) (row : Worker) : Worker :=
  { row with state := .revoked, revokedAt := utc, updatedAt := utc, activeLeases := 0 }

def recount (n : Int) (utc : String) (row : Worker) : Worker :=
  { row with activeLeases := n, updatedAt := utc }

end Worker

namespace Queue

def job? (q : Queue) (id : String) : Option Job := q.jobs.get? id

def worker? (q : Queue) (id : String) : Option Worker := q.workers.get? id

def fence? (q : Queue) (key : String) : Option Fence := q.fences.get? key

/-- The job that holds an idempotency key; the column is UNIQUE. -/
def jobForKey? (q : Queue) (key : String) : Option Job :=
  q.jobs.rows.find? fun row => row.idempotencyKey = key

/-- `SELECT ... FROM distributed_job_idempotency WHERE job_id=?` -/
def fenceForJob? (q : Queue) (jobId : String) : Option Fence :=
  q.fences.rows.find? fun row => row.jobId = jobId

/-- The retained events of one job in `event_id` order. -/
def journal (q : Queue) (jobId : String) : List JobEvent :=
  q.events.filter fun e => e.jobId = jobId

def updateJob (q : Queue) (id : String) (f : Job → Job)
    (hf : ∀ r, (f r).jobId = r.jobId := by rintro ⟨⟩; rfl) : Queue :=
  { q with jobs := q.jobs.modify id f hf }

def updateWorker (q : Queue) (id : String) (f : Worker → Worker)
    (hf : ∀ r, (f r).workerId = r.workerId := by rintro ⟨⟩; rfl) : Queue :=
  { q with workers := q.workers.modify id f hf }

end Queue

/-- The row is one of the leases `active_leases` is meant to count. -/
def Job.heldBy (workerId : String) (row : Job) : Bool :=
  row.state.active && row.leaseWorkerId = workerId

namespace Queue

def activeCount (q : Queue) (workerId : String) : Int := q.jobs.rows.countP (Job.heldBy workerId)

section Updates

variable {q : Queue} {id id' : String} {f : Job → Job} {hf : ∀ r, (f r).jobId = r.jobId}
  {g : Worker → Worker} {hg : ∀ r, (g r).workerId = r.workerId}

@[simp] theorem workers_updateJob : (q.updateJob id f hf).workers = q.workers := rfl

@[simp] theorem fences_updateJob : (q.updateJob id f hf).fences = q.fences := rfl

@[simp] theorem events_updateJob : (q.updateJob id f hf).events = q.events := rfl

@[simp] theorem nextEventId_updateJob : (q.updateJob id f hf).nextEventId = q.nextEventId := rfl

@[simp] theorem jobs_updateWorker : (q.updateWorker id g hg).jobs = q.jobs := rfl

@[simp] theorem fences_updateWorker : (q.updateWorker id g hg).fences = q.fences := rfl

@[simp] theorem events_updateWorker : (q.updateWorker id g hg).events = q.events := rfl

@[simp] theorem nextEventId_updateWorker :
    (q.updateWorker id g hg).nextEventId = q.nextEventId := rfl

theorem job?_updateJob :
    (q.updateJob id f hf).job? id' = if id' = id then (q.job? id').map f else q.job? id' := by
  simp only [job?, updateJob, Table.get?_modify]

theorem worker?_updateWorker :
    (q.updateWorker id g hg).worker? id' =
      if id' = id then (q.worker? id').map g else q.worker? id' := by
  simp only [worker?, updateWorker, Table.get?_modify]

@[simp] theorem job?_updateWorker : (q.updateWorker id g hg).job? id' = q.job? id' := rfl

@[simp] theorem worker?_updateJob : (q.updateJob id f hf).worker? id' = q.worker? id' := rfl

@[simp] theorem fence?_updateJob : (q.updateJob id f hf).fence? id' = q.fence? id' := rfl

@[simp] theorem fence?_updateWorker : (q.updateWorker id g hg).fence? id' = q.fence? id' := rfl

theorem activeCount_updateJob {row : Job} (h : q.job? id = some row) (w : String) :
    (q.updateJob id f hf).activeCount w + (if row.heldBy w then 1 else 0) =
      q.activeCount w + (if (f row).heldBy w then 1 else 0) := by
  have count := @Table.countP_modify _ _ _ _ _ _ f hf _ h (Job.heldBy w)
  simp only [activeCount, updateJob]
  split_ifs at count ⊢ <;> omega

end Updates

theorem activeCount_congr {q q' : Queue} (h : q'.jobs = q.jobs) (w : String) :
    q'.activeCount w = q.activeCount w := by
  simp only [activeCount, h]

theorem job?_jobId {q : Queue} {id : String} {row : Job} (h : q.job? id = some row) :
    row.jobId = id :=
  Table.get?_key h

theorem worker?_workerId {q : Queue} {id : String} {w : Worker} (h : q.worker? id = some w) :
    w.workerId = id :=
  Table.get?_key h

theorem mem_jobs_iff {q : Queue} {row : Job} :
    row ∈ q.jobs.rows ↔ q.job? row.jobId = some row :=
  Table.mem_rows_iff

end Queue

end Arenyxa.Distributed
