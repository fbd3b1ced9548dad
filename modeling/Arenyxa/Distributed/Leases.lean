import Arenyxa.Distributed.Maintenance

/-! Steps shared by every operation on a leased job: the journal entry, the lease check and
the choice of where a job goes when its lease is given back. -/

namespace Arenyxa.Distributed

open Outcome QueueError

/-- The ways the identity library refuses a public key. -/
inductive KeyProblem
  | encodingInvalid (message : String)
  | keyInvalid (message : String)

def KeyProblem.error : KeyProblem → QueueError
  | .encodingInvalid message => fail "WORKER_IDENTITY_ENCODING_INVALID" message
  | .keyInvalid message => fail "WORKER_IDENTITY_PUBLIC_KEY_INVALID" message

/-- What the queue takes from outside: the hash, the key check of the identity library (by
algorithm and key), and the grace the handle was opened with. -/
structure Env where
  sha : Sha256
  keyProblem : String → String → Option KeyProblem
  leaseGraceSeconds : ℚ := 5

def Env.validatePublicKey (env : Env) (algorithm publicKey : String) : Except QueueError Unit :=
  match env.keyProblem algorithm publicKey with
  | none => .ok ()
  | some problem => .error problem.error

/-- `max(0.0, min(120.0, lease_grace_seconds))` -/
def Env.grace (env : Env) : ℚ := max 0 (min 120 env.leaseGraceSeconds)

def transitionInvalid (v : EventValues) : QueueError :=
  fail "DISTRIBUTED_STATE_TRANSITION_INVALID" "Distributed job state transition is not permitted"
    [("from_state", .text ((v.fromState.map JobState.name).getD "")),
      ("to_state", .text v.toState.name), ("event_type", .text v.eventType.name)]

/-- `SELECT * ... WHERE job_id=?` of a row that is about to be fenced; no row is a Python
`TypeError`. -/
def Queue.fenceJob (q : Queue) (jobId : String) : Except QueueError Queue :=
  match q.job? jobId with
  | none => .error (.typeError "'NoneType' object is not subscriptable")
  | some row => q.storeTerminalFence row

def Queue.fenceTerminal (q : Queue) (target : JobState) (jobId : String) :
    Except QueueError Queue :=
  if target.terminal then q.fenceJob jobId else .ok q

/-- The columns as they are stored. -/
def EventValues.stored (v : EventValues) : EventValues := { v with code := truncate 128 v.code }

def Queue.recordEventLocked (b : Backend) (q : Queue) (v : EventValues) :
    Except QueueError Queue := do
  require ((v.fromState, v.toState) ∈ allowedJobTransitions) (transitionInvalid v)
  let q ← q.fenceTerminal v.toState v.jobId
  return q.recordEvent b v.stored maxJobEventsPerJob

/-- The order of preference every recovery path follows. -/
def Job.releaseTarget (row : Job) (retryable : Bool := true) : JobState :=
  if row.mayHaveRun then .reviewRequired
  else if retryable ∧ row.attempt < row.maxAttempts then .queued
  else .failed

/-- One code for each of the three targets. -/
def releaseCode (review requeued exhausted : String) : JobState → String
  | .reviewRequired => review
  | .queued => requeued
  | _ => exhausted

def recoveryTarget (row : Job) (exhaustedCode : String) : JobState × String :=
  let target := row.releaseTarget
  (target, releaseCode "LEASE_STATE_LOST_AFTER_SIDE_EFFECT_START" "LEASE_STATE_RECONCILED"
    exhaustedCode target)

/-- A call that presents a lease. `now` is the clock reading of the lease check and `later`
the next one; `utc` is the wall-clock text of the statements. -/
structure LeaseCall where
  jobId : String
  workerId : String
  leaseToken : String
  now : Instant
  later : Instant
  utc : String

def jobUnknown : QueueError := fail "DISTRIBUTED_JOB_UNKNOWN" "Distributed job does not exist"

def leaseNotOwned : QueueError :=
  fail "DISTRIBUTED_LEASE_STALE" "Distributed job lease is no longer owned by this worker"

def leaseTokenInvalid : QueueError :=
  fail "DISTRIBUTED_LEASE_STALE" "Distributed job lease token is invalid"

def leaseExpired (c : LeaseCall) (expires : ℚ) : QueueError :=
  fail "DISTRIBUTED_LEASE_EXPIRED" "Distributed job lease has expired"
    [("job_id", .text c.jobId), ("worker_id", .text c.workerId),
      ("lease_expires_at", .seconds expires), ("clock_stable_epoch", .seconds c.now),
      ("lease_remaining_seconds", .seconds (expires - c.now))]

def leaseTimeInvalid (c : LeaseCall) (expires : ℚ) : QueueError :=
  fail "DISTRIBUTED_LEASE_TIME_INVALID"
    "Distributed job lease expiry is implausibly far in the future"
    [("lease_expires_at", .seconds expires), ("now", .seconds c.now),
      ("max_lease_seconds", .int maxLeaseSeconds)]

/-- `now + MAX_LEASE_SECONDS + 60.0` -/
def leaseHorizon (now : ℚ) : ℚ := now + maxLeaseSeconds + 60

namespace Queue

/-- The worker check of the lease guard. -/
def workerMayAct (q : Queue) (workerId : String) : Bool :=
  match q.worker? workerId with
  | none => false
  | some w => w.state ≠ .revoked

def requireLeaseLocked (env : Env) (q : Queue) (c : LeaseCall) : Except QueueError Job :=
  match q.job? c.jobId with
  | none => .error jobUnknown
  | some row => do
    require (q.workerMayAct c.workerId ∧ row.state.active ∧ row.leaseWorkerId = c.workerId)
      leaseNotOwned
    require (row.leaseTokenSha256 ≠ "") leaseTokenInvalid
    let same ← compareDigest row.leaseTokenSha256 (env.sha.hexdigest c.leaseToken)
    require same leaseTokenInvalid
    require (c.now < row.leaseExpiresAt) (leaseExpired c row.leaseExpiresAt)
    require (row.leaseExpiresAt ≤ leaseHorizon c.now) (leaseTimeInvalid c row.leaseExpiresAt)
    return row

end Queue

end Arenyxa.Distributed

/-! Admission of a new job. -/

namespace Arenyxa.Distributed

open Outcome QueueError

/-- `str.casefold` as far as the texts compared here can tell: the ASCII letters, and the one
character outside ASCII that folds to hexadecimal digits. -/
def casefold (s : String) : String :=
  String.ofList (s.toList.flatMap fun c => if c.toNat = 0xFB00 then ['f', 'f'] else [c.toLower])

structure TraceContext where
  traceId : String
  spanId : String
  sampled : Bool

def TraceContext.traceparent (t : TraceContext) : String :=
  "00-" ++ t.traceId ++ "-" ++ t.spanId ++ "-" ++ if t.sampled then "01" else "00"

def hexDigits : List Char := "0123456789abcdef".toList

def validHex (value : List Char) (length : Nat) : Bool :=
  value.length == length && value.any (· ≠ '0') && value.all hexDigits.contains

def TraceContext.parse (value : String) : Option TraceContext :=
  match (casefold (strip value)).toList.splitOn '-' with
  | [version, traceId, spanId, [high, low]] =>
    if version = ['0', '0'] ∧ validHex traceId 32 ∧ validHex spanId 16 ∧
        hexDigits.contains high ∧ hexDigits.contains low then
      some ⟨String.ofList traceId, String.ofList spanId, "13579bdf".toList.contains low⟩
    else none
  | _ => none

def maxTracestateBytes : Nat := 512

def sanitizeTracestate (value : String) : String :=
  let kept := ((strip value).toList.filter fun c => c.toNat < 128).take maxTracestateBytes
  if kept.contains '\r' || kept.contains '\n' then "" else String.ofList kept

/-- `persisted_trace_fields` sanitizes, and so does the context it builds; the second pass
can strip what stood behind a dropped character. -/
def persistedTracestate (value : String) : String := sanitizeTracestate (sanitizeTracestate value)

/-- A call of `enqueue`. `root` is the trace context it opens when it is given none, `jobId`
the name `new_id` draws. -/
structure EnqueueArgs where
  kind : String
  payload : JsonObject
  resourceId : String
  permission : String
  idempotencyKey : String
  sideEffectMode : String := "idempotent"
  maxAttempts : Int := 3
  priority : Int := 0
  protocolVersion : Int := currentProtocol
  traceparent : String := ""
  tracestate : String := ""
  idempotencyPrefix : String := ""
  idempotencyPrefixLimit : Option Int := none
  root : TraceContext
  jobId : String
  utc : String

def EnqueueArgs.trace (a : EnqueueArgs) : TraceContext :=
  (TraceContext.parse a.traceparent).getD a.root

def sideEffectModeInvalid : QueueError :=
  fail "DISTRIBUTED_SIDE_EFFECT_MODE_INVALID"
    "side_effect_mode must be idempotent or non_idempotent"

def parseSideEffectMode (value : String) : Except QueueError SideEffectMode :=
  let mode := casefold (strip value)
  if mode = SideEffectMode.idempotent.name then .ok .idempotent
  else if mode = SideEffectMode.nonIdempotent.name then .ok .nonIdempotent
  else .error sideEffectModeInvalid

/-- The row of a job whose arguments passed their checks. -/
def EnqueueArgs.accept (env : Env) (a : EnqueueArgs) : Except QueueError Job := do
  let kind ← cleanToken a.kind "job kind"
  let resource ← cleanToken a.resourceId "resource id" 256
  let capability ← cleanToken a.permission "permission" 128
  let idem ← cleanToken a.idempotencyKey "idempotency key" 192
  let mode ← parseSideEffectMode a.sideEffectMode
  require (minCompatibleProtocol ≤ a.protocolVersion ∧ a.protocolVersion ≤ currentProtocol)
    (fail "PROTOCOL_INCOMPATIBLE" "Job protocol version is outside the supported window")
  let payload ← boundedJson env.sha a.payload maxJobPayloadBytes "job payload"
  return {
    jobId := a.jobId
    kind := kind
    state := .queued
    payloadJson := payload.1
    payloadSha256 := payload.2
    traceparent := a.trace.traceparent
    tracestate := persistedTracestate a.tracestate
    resourceId := resource
    permission := capability
    idempotencyKey := idem
    sideEffectMode := mode
    sideEffectState := .none
    attempt := 0
    maxAttempts := max 1 (min 20 a.maxAttempts)
    protocolVersion := a.protocolVersion
    priority := max (-1000) (min 1000 a.priority)
    createdAt := a.utc
    updatedAt := a.utc }

/-- The columns an enqueue compares with those of the job that holds its key. -/
def JobIdentity.sameRequest (held asked : JobIdentity) : Bool :=
  held = { asked with jobId := held.jobId }

def idempotencyCollision : QueueError :=
  fail "DISTRIBUTED_IDEMPOTENCY_COLLISION" "Idempotency key was already used for a different job"

def queueFull : QueueError :=
  fail "DISTRIBUTED_QUEUE_FULL" "Distributed job queue reached its configured safety bound"

namespace Queue

/-- What a key stands for: its live row, else its tombstone. -/
def heldIdentity? (q : Queue) (key : String) : Option JobIdentity :=
  match q.jobForKey? key with
  | some row => some row.identity
  | none => (q.fence? key).map Fence.identity

def prefixCount (q : Queue) (namePrefix : String) : Nat :=
  q.jobs.rows.countP fun row =>
    row.idempotencyKey.toList.take namePrefix.toList.length = namePrefix.toList

def prefixGuard (q : Queue) (a : EnqueueArgs) : Except QueueError Unit :=
  match a.idempotencyPrefixLimit with
  | none => .ok ()
  | some requested => do
    let namePrefix ← cleanToken a.idempotencyPrefix "idempotency prefix" 192
    let limit := max 1 (min (maxJobs : Int) requested)
    require (q.prefixCount namePrefix < limit)
      (fail "DISTRIBUTED_PREFIX_LIMIT"
        "Distributed job namespace reached its configured safety bound"
        [("idempotency_prefix", .text namePrefix), ("limit", .int limit)])

/-- A full table is pruned to half its bound before it refuses the job. -/
def jobCountGuard (q : Queue) : Except QueueError Queue :=
  if q.jobs.rows.length < maxJobs then .ok q
  else do
    let pruned ← q.retainTerminalLocked (max 0 (maxJobs / 2 - 1)) maxJobs
    require (pruned.2.jobs.rows.length < maxJobs) queueFull
    return pruned.2

/-- `INSERT INTO distributed_jobs`, with its PRIMARY KEY and its UNIQUE key. -/
def insertJob (q : Queue) (row : Job) : Except QueueError Queue := do
  require (q.job? row.jobId = none ∧ q.jobForKey? row.idempotencyKey = none)
    (.integrityError "UNIQUE constraint failed: distributed_jobs")
  return { q with jobs := q.jobs.insert row }

def enqueue (env : Env) (b : Backend) (a : EnqueueArgs) (q : Queue) :
    Except QueueError (String × Queue) := do
  let row ← a.accept env
  match q.heldIdentity? row.idempotencyKey with
  | some held => do
    require (held.sameRequest row.identity) idempotencyCollision
    return (held.jobId, q)
  | none => do
    q.prefixGuard a
    let q ← q.jobCountGuard
    let q ← q.insertJob row
    let q ← q.recordEventLocked b
      { jobId := row.jobId, eventType := .enqueued, fromState := none, toState := .queued,
        details := [("kind", .text row.kind), ("side_effect_mode", .text row.sideEffectMode.name),
          ("protocol_version", .int row.protocolVersion), ("trace_id", .text a.trace.traceId)],
        createdAt := a.utc }
    return (row.jobId, q)

end Queue

end Arenyxa.Distributed
