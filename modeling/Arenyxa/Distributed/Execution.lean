import Arenyxa.Distributed.Leases
import Arenyxa.Distributed.Workers

/-! The life of a lease in multi-statement transactions: granting it, working under it and
giving it back. -/

namespace Arenyxa.Distributed

open Outcome QueueError

structure DistributedLease where
  jobId : String
  workerId : String
  leaseToken : String
  leaseExpiresAt : ℚ
  kind : String
  payloadJson : String
  resourceId : String
  permission : String
  attempt : Int
  maxAttempts : Int
  sideEffectMode : SideEffectMode
  checkpointJson : String
  checkpointSeq : Int
  protocolVersion : Int
  traceparent : String
  tracestate : String

def leaseFromRow (row : Job) (worker token : String) (expires : ℚ) (attempt : Int) :
    DistributedLease where
  jobId := row.jobId
  workerId := worker
  leaseToken := token
  leaseExpiresAt := expires
  kind := row.kind
  payloadJson := row.payloadJson
  resourceId := row.resourceId
  permission := row.permission
  attempt := attempt
  maxAttempts := row.maxAttempts
  sideEffectMode := row.sideEffectMode
  checkpointJson := row.checkpointJson
  checkpointSeq := row.checkpointSeq
  protocolVersion := row.protocolVersion
  traceparent := row.traceparent
  tracestate := row.tracestate

/-- What one grant takes from outside: the token it draws, the readings its expiry and its
heartbeat stamp use, and the choice among candidates that tie. -/
structure Draw where
  token : String
  now : Instant
  heartbeat : Instant
  tie : Nat := 0
  utc : String

/-- `max(15, min(MAX_LEASE_SECONDS, lease_seconds))` -/
def leaseDuration (leaseSeconds : Int) : Int := max 15 (min maxLeaseSeconds leaseSeconds)

/-- A granting worker and the digest, expiry and text a grant writes. -/
def Draw.lease (env : Env) (worker : String) (duration : Int) (d : Draw) (row : Job) : Job :=
  row.lease worker (env.sha.hexdigest d.token) (d.now + duration) d.utc

def Draw.leased (worker : String) (duration : Int) (d : Draw) (row : Job) : DistributedLease :=
  leaseFromRow row worker d.token (d.now + duration) (row.attempt + 1)

def leasedDetails (row : Job) (duration : Int) (batch : Bool) : Details :=
  [("attempt", .int (row.attempt + 1)), ("lease_seconds", .int duration)] ++
    (if batch then [("batch", .flag true)] else []) ++ [("clock", .text "stable-monotonic-epoch")]

def leasedEvent (worker : String) (d : Draw) (row : Job) (details : Details) : EventValues where
  jobId := row.jobId
  eventType := .leased
  fromState := some .queued
  toState := .leased
  workerId := worker
  details := details
  createdAt := d.utc

/-- `max(0, min(limit, max_slots - active_leases))` -/
def availableSlots (maxItems : Int) (w : Worker) : Int :=
  max 0 (min (max 1 (min maxWorkerSlots maxItems)) (w.maxSlots - w.activeLeases))

def sideEffectAlreadyStarted (c : LeaseCall) : QueueError :=
  fail "DISTRIBUTED_SIDE_EFFECT_ALREADY_STARTED"
    "Non-idempotent side effect is already fenced; automatic re-execution is forbidden"
    [("job_id", .text c.jobId), ("worker_id", .text c.workerId)]

def sideEffectFenceConflict (c : LeaseCall) : QueueError :=
  fail "DISTRIBUTED_SIDE_EFFECT_FENCE_CONFLICT"
    "Non-idempotent side-effect fence changed concurrently" [("job_id", .text c.jobId)]

def receiptMismatch : QueueError :=
  fail "DISTRIBUTED_TERMINAL_CONFLICT"
    "Retained terminal receipt does not match Worker/lease/result"

def terminalMismatch : QueueError :=
  fail "DISTRIBUTED_TERMINAL_CONFLICT"
    "Completed job terminal receipt does not match the presented Worker/lease/result"

def completionLost : QueueError :=
  fail "DISTRIBUTED_TERMINAL_CONFLICT" "Distributed job completion lost its fenced lease"

/-- `worker == ... and compare_digest(...) and compare_digest(...)` on the row. -/
def rowReceiptMatches (row : Job) (worker tokenSha resultSha : String) :
    Except QueueError Bool :=
  if row.terminalWorkerId = worker then
    allCompareDigest [(row.terminalLeaseTokenSha256, tokenSha), (row.resultSha256, resultSha)]
  else .ok false

/-- `len(receipt) == 3 and all(compare_digest(a, b) for a, b in zip(receipt, presented))` -/
def fenceReceiptMatches (f : Fence) (worker tokenSha resultSha : String) :
    Except QueueError Bool :=
  if f.terminalReceipt.items.length = 3 then
    allCompareDigest (f.terminalReceipt.items.zip [worker, tokenSha, resultSha])
  else .ok false

def completedEvent (c : LeaseCall) (resultSha : String) (previous : JobState) : EventValues where
  jobId := c.jobId
  eventType := .completed
  fromState := previous
  toState := .completed
  workerId := c.workerId
  details := [("result_sha256", .text resultSha)]
  createdAt := c.utc

def jobNotInReview : QueueError :=
  fail "DISTRIBUTED_JOB_STATE" "Only review-required jobs can be explicitly retried"

namespace Queue

/-- `UPDATE distributed_jobs SET state='leased',...`. The candidate was read as queued in this
transaction, so the statement matches it. -/
def grantRow (env : Env) (worker : String) (duration : Int) (d : Draw) (row : Job) (q : Queue) :
    Queue :=
  q.updateJob row.jobId (d.lease env worker duration)

/-- SQLite: read the worker, then claim the slot it was seen to have. A claim that matches no
row rolls the transaction back. -/
def leaseNextChecked (env : Env) (b : Backend) (worker : String) (duration : Int) (d : Draw)
    (q : Queue) : Except QueueError (Option DistributedLease × Queue) :=
  match q.worker? worker with
  | none => .error workerUnknown
  | some w => do
    require (w.state ≠ .revoked) workerRevoked
    if w.state = .active ∧ w.activeLeases < w.maxSlots then
      match q.leaseCandidate w.protocolMin w.protocolMax d.tie with
      | none => return (none, q)
      | some row =>
        match (q.grantRow env worker duration d row).claimWorkerSlot worker d.heartbeat d.utc with
        | none => return (none, q)
        | some claimed => do
          let recorded ← claimed.recordEventLocked b
            (leasedEvent worker d row (leasedDetails row duration false))
          return (some (d.leased worker duration row), recorded)
    else return (none, q)

/-- PostgreSQL: claim the slot, then look for a candidate; without one the claim is rolled
back. -/
def leaseNextClaimed (env : Env) (b : Backend) (worker : String) (duration : Int) (d : Draw)
    (q : Queue) : Except QueueError (Option DistributedLease × Queue) :=
  match q.claimWorkerSlot worker d.heartbeat d.utc with
  | none =>
    match q.worker? worker with
    | none => .error workerUnknown
    | some w => do
      require (w.state ≠ .revoked) workerRevoked
      return (none, q)
  | some claimed =>
    match claimed.worker? worker with
    | none => .error workerUnknown
    | some w =>
      match claimed.leaseCandidate w.protocolMin w.protocolMax d.tie with
      | none => .ok (none, q)
      | some row => do
        let recorded ← (claimed.grantRow env worker duration d row).recordEventLocked b
          (leasedEvent worker d row (leasedDetails row duration false))
        return (some (d.leased worker duration row), recorded)

def leaseNextPortable (env : Env) (b : Backend) (worker : String) (leaseSeconds : Int) (d : Draw)
    (q : Queue) : Except QueueError (Option DistributedLease × Queue) :=
  match b with
  | .sqlite => q.leaseNextChecked env b worker (leaseDuration leaseSeconds) d
  | .postgresql => q.leaseNextClaimed env b worker (leaseDuration leaseSeconds) d

/-- The loop of `lease_many`, `available` rounds at most. `none` is a lost slot claim, which
rolls the whole batch back. -/
def leaseBatch (env : Env) (b : Backend) (worker : String) (duration protocolMin protocolMax : Int)
    (draws : Nat → Draw) : Nat → List DistributedLease → Queue →
    Except QueueError (Option (List DistributedLease × Queue))
  | 0, leases, q => .ok (some (leases, q))
  | available + 1, leases, q =>
    let d := draws leases.length
    match q.leaseCandidate protocolMin protocolMax d.tie with
    | none => .ok (some (leases, q))
    | some row =>
      match (q.grantRow env worker duration d row).claimWorkerSlot worker d.heartbeat d.utc with
      | none => .ok none
      | some claimed => do
        let recorded ← claimed.recordEventLocked b
          (leasedEvent worker d row (leasedDetails row duration true))
        leaseBatch env b worker duration protocolMin protocolMax draws available
          (leases ++ [d.leased worker duration row]) recorded

def leaseMany (env : Env) (b : Backend) (worker : String) (maxItems leaseSeconds : Int)
    (draws : Nat → Draw) (q : Queue) : Except QueueError (List DistributedLease × Queue) :=
  match q.worker? worker with
  | none => .error workerUnknown
  | some w => do
    require (w.state ≠ .revoked) workerRevoked
    if w.state = .active then do
      let batch ← q.leaseBatch env b worker (leaseDuration leaseSeconds) w.protocolMin
        w.protocolMax draws (availableSlots maxItems w).toNat []
      return batch.getD ([], q)
    else return ([], q)

def startJobPortable (env : Env) (b : Backend) (c : LeaseCall) (q : Queue) :
    Except QueueError Queue := do
  let row ← q.requireLeaseLocked env c
  if row.state = .running then return q
  else do
    (q.updateJob c.jobId (·.start c.utc)).recordEventLocked b
      { jobId := c.jobId, eventType := .started, fromState := row.state, toState := .running,
        workerId := c.workerId, createdAt := c.utc }

/-- `reading` is the clock reading that dates the new expiry. -/
def renewLease (env : Env) (c : LeaseCall) (leaseSeconds : Int) (reading : Instant) (q : Queue) :
    Except QueueError (ℚ × Queue) := do
  let _ ← q.requireLeaseLocked env c
  let expires : ℚ := reading + leaseDuration leaseSeconds
  return (expires, (q.updateJob c.jobId (·.renew expires c.utc)).updateWorker c.workerId
    (·.beat c.later c.utc))

def checkpoint (env : Env) (c : LeaseCall) (value : JsonObject) (q : Queue) :
    Except QueueError (Int × Queue) := do
  let json ← boundedJson env.sha value maxCheckpointBytes "job checkpoint"
  let row ← q.requireLeaseLocked env c
  return (row.checkpointSeq + 1,
    q.updateJob c.jobId (·.saveCheckpoint json.1 (row.checkpointSeq + 1) c.utc))

def handoverLease (env : Env) (b : Backend) (c : LeaseCall) (reason : String) (q : Queue) :
    Except QueueError (JobState × Queue) := do
  let code ← cleanToken (if reason = "" then "WORKER_HANDOVER" else reason) "handover reason" 128
  let row ← q.requireLeaseLocked env c
  let target := row.releaseTarget
  let code := releaseCode "HANDOVER_AFTER_SIDE_EFFECT_START" code "HANDOVER_MAX_ATTEMPTS" target
  let released := q.updateJob c.jobId (·.release target code c.utc)
  let recorded ← (released.updateWorker c.workerId (·.returnSlot c.later c.utc)).recordEventLocked b
    { jobId := c.jobId, eventType := .leaseHandover, fromState := row.state, toState := target,
      workerId := c.workerId, code := code,
      details := [("review_required", .flag (target = .reviewRequired))], createdAt := c.utc }
  return (target, recorded)

def markSideEffectStarted (env : Env) (b : Backend) (c : LeaseCall) (q : Queue) :
    Except QueueError Queue := do
  let row ← q.requireLeaseLocked env c
  if row.sideEffectMode = .nonIdempotent then do
    require (row.sideEffectState ≠ .started) (sideEffectAlreadyStarted c)
    require (row.leaseWorkerId = c.workerId ∧
      row.leaseTokenSha256 = env.sha.hexdigest c.leaseToken) (sideEffectFenceConflict c)
    (q.updateJob c.jobId (·.startSideEffect c.utc)).recordEventLocked b
      { jobId := c.jobId, eventType := .sideEffectStarted, fromState := row.state,
        toState := row.state, workerId := c.workerId, code := "NON_IDEMPOTENT_FENCE",
        createdAt := c.utc }
  else return q

/-- The answer to a completion of a job whose row was pruned. -/
def replayPruned (c : LeaseCall) (tokenSha resultSha : String) (q : Queue) :
    Except QueueError Queue :=
  match q.fenceForJob? c.jobId with
  | none => .error jobUnknown
  | some f =>
    if f.terminalState = .completed then do
      let same ← fenceReceiptMatches f c.workerId tokenSha resultSha
      require same receiptMismatch
      return q
    else .error jobUnknown

def replayCompleted (c : LeaseCall) (tokenSha resultSha : String) (existing : Job) (q : Queue) :
    Except QueueError Queue := do
  let same ← rowReceiptMatches existing c.workerId tokenSha resultSha
  require same terminalMismatch
  return q

def completePortable (env : Env) (b : Backend) (c : LeaseCall) (resultJson resultSha : String)
    (q : Queue) : Except QueueError Queue :=
  let tokenSha := env.sha.hexdigest c.leaseToken
  match q.job? c.jobId with
  | none => q.replayPruned c tokenSha resultSha
  | some existing =>
    if existing.state = .completed then q.replayCompleted c tokenSha resultSha existing
    else do
      let row ← q.requireLeaseLocked env c
      require (row.leaseWorkerId = c.workerId ∧ row.leaseTokenSha256 = tokenSha) completionLost
      let completed := q.updateJob c.jobId
        (·.complete resultJson resultSha c.workerId tokenSha c.utc)
      (completed.updateWorker c.workerId (·.returnSlot c.later c.utc)).recordEventLocked b
        (completedEvent c resultSha row.state)

def failJob (env : Env) (b : Backend) (c : LeaseCall) (errorCode : String) (retryable : Bool)
    (q : Queue) : Except QueueError (JobState × Queue) := do
  let code ← cleanToken (if errorCode = "" then "WORKER_EXECUTION_FAILED" else errorCode)
    "error code" 128
  let row ← q.requireLeaseLocked env c
  let target := row.releaseTarget retryable
  let recorded ← (q.updateJob c.jobId (·.release target code c.utc)).recordEventLocked b
    { jobId := c.jobId, eventType := .executionFailed, fromState := row.state, toState := target,
      workerId := c.workerId, code := code,
      details := [("retryable", .flag retryable), ("attempt", .int row.attempt),
        ("max_attempts", .int row.maxAttempts)], createdAt := c.utc }
  return (target, recorded.updateWorker c.workerId (·.returnSlot c.later c.utc))

def retryReviewRequired (b : Backend) (jobId utc : String) (q : Queue) :
    Except QueueError Queue :=
  match q.job? jobId with
  | none => .error jobUnknown
  | some row => do
    require (row.state = .reviewRequired) jobNotInReview
    (q.updateJob jobId (·.approveRetry utc)).recordEventLocked b
      { jobId := jobId, eventType := .operatorRetry, fromState := some .reviewRequired,
        toState := .queued, code := "OPERATOR_RETRY_APPROVED", createdAt := utc }

end Queue

end Arenyxa.Distributed

/-! The single statements PostgreSQL tries first. Each is one `WITH` query: every part reads
the tables as they were before it, and `none` is the empty result that sends the caller to
the multi-statement path. None of them trims the journal. -/

namespace Arenyxa.Distributed

open Outcome QueueError

namespace Queue

/-- `lease_next_fast_sql` -/
def leaseNextFast (env : Env) (worker : String) (duration : Int) (d : Draw) (q : Queue) :
    Option (DistributedLease × Queue) :=
  match q.worker? worker with
  | none => none
  | some w =>
    if w.state = .active ∧ w.activeLeases < w.maxSlots then
      match q.leaseCandidate w.protocolMin w.protocolMax d.tie with
      | none => none
      | some row =>
        let granted := (q.grantRow env worker duration d row).updateWorker worker
          (·.claimSlot d.heartbeat d.utc)
        some (d.leased worker duration row, granted.insertEvent (leasedEvent worker d row
          [("attempt", .int (row.attempt + 1)), ("lease_seconds", .int duration)]))
    else none

/-- The guard both statements on a leased job share: there is none on an expiry that lies
implausibly far ahead. -/
def fastLeaseGuard (env : Env) (c : LeaseCall) (row : Job) (q : Queue) : Bool :=
  q.workerMayAct c.workerId && row.leaseWorkerId = c.workerId &&
    row.leaseTokenSha256 = env.sha.hexdigest c.leaseToken && decide ((c.now : ℚ) < row.leaseExpiresAt)

/-- `start_job_fast_sql` -/
def startJobFast (env : Env) (c : LeaseCall) (q : Queue) : Option Queue :=
  match q.job? c.jobId with
  | none => none
  | some row =>
    if row.state = .leased ∧ q.fastLeaseGuard env c row then
      some ((q.updateJob c.jobId (·.start c.utc)).insertEvent
        { jobId := c.jobId, eventType := .started, fromState := some .leased, toState := .running,
          workerId := c.workerId, createdAt := c.utc })
    else none

/-- `complete_fast_sql` -/
def completeFast (env : Env) (c : LeaseCall) (resultJson resultSha : String) (q : Queue) :
    Option Queue :=
  match q.job? c.jobId with
  | none => none
  | some row =>
    if row.state.active ∧ q.fastLeaseGuard env c row ∧ q.fenceAgrees row then
      let completed :=
        row.complete resultJson resultSha c.workerId (env.sha.hexdigest c.leaseToken) c.utc
      let fenced := (q.updateJob c.jobId
          (·.complete resultJson resultSha c.workerId (env.sha.hexdigest c.leaseToken) c.utc)).upsertFence
        (completed.fence jsonBuildArray)
      some ((fenced.updateWorker c.workerId (·.returnSlot c.later c.utc)).insertEvent
        (completedEvent c resultSha row.state))
    else none

def leaseNext (env : Env) (b : Backend) (fallback : Bool) (worker : String) (leaseSeconds : Int)
    (d : Draw) (q : Queue) : Except QueueError (Option DistributedLease × Queue) :=
  match if b = .postgresql ∧ !fallback then
      q.leaseNextFast env worker (leaseDuration leaseSeconds) d else none with
  | some granted => .ok (some granted.1, granted.2)
  | none => q.leaseNextPortable env b worker leaseSeconds d

def startJob (env : Env) (b : Backend) (fallback : Bool) (c : LeaseCall) (q : Queue) :
    Except QueueError Queue :=
  match if b = .postgresql ∧ !fallback then q.startJobFast env c else none with
  | some started => .ok started
  | none => q.startJobPortable env b c

def complete (env : Env) (b : Backend) (fallback : Bool) (c : LeaseCall) (result : JsonObject)
    (q : Queue) : Except QueueError Queue := do
  let json ← boundedJson env.sha result maxResultBytes "job result"
  match if b = .postgresql ∧ !fallback then q.completeFast env c json.1 json.2 else none with
  | some completed => return completed
  | none => q.completePortable env b c json.1 json.2

end Queue

end Arenyxa.Distributed
