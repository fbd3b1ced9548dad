import Arenyxa.Distributed.Leases

/-! Worker registry, revocation and lease recovery. -/

namespace Arenyxa.Distributed

open Outcome QueueError

def ed25519 : String := "ED25519"
def ecdsaP256Sha256 : String := "ECDSA_P256_SHA256"

/-- `str.upper`; the long s is the one character outside ASCII that upper-cases into an
algorithm name. -/
def upper (s : String) : String :=
  String.ofList (s.toList.map fun c => if c = 'ſ' then 'S' else c.toUpper)

def algorithmAliases : List (String × String) :=
  [("ED_25519", ed25519), ("ECDSA_P256", ecdsaP256Sha256),
    ("ECDSA_P_256_SHA256", ecdsaP256Sha256), ("P256", ecdsaP256Sha256)]

def normalizeAlgorithm (value : String) : Except QueueError String := do
  let spelled := upper (strip (if value = "" then ed25519 else value))
  let text := String.ofList (spelled.toList.map fun c => if c = '-' then '_' else c)
  let text := (algorithmAliases.lookup text).getD text
  require (text = ed25519 ∨ text = ecdsaP256Sha256)
    (fail "WORKER_IDENTITY_ALGORITHM_UNSUPPORTED" "Worker identity algorithm is not supported."
      [("algorithm", .text text)])
  return text

structure RegisterArgs where
  workerId : String
  publicKey : String
  resources : JsonObject
  displayName : String := ""
  protocolMin : Int := minCompatibleProtocol
  protocolMax : Int := currentProtocol
  appCompatVersion : String
  maxSlots : Int := 1
  identityAlgorithm : String := ed25519
  identityMetadata : JsonObject := ⟨"{}"⟩
  enforceCapacity : Bool := false
  now : Instant
  utc : String

/-- `max(1, min(MAX_WORKER_SLOTS, max_slots))` -/
def RegisterArgs.slots (a : RegisterArgs) : Int := max 1 (min maxWorkerSlots a.maxSlots)

/-- A registration whose arguments passed their checks, as the row of a new worker. -/
def RegisterArgs.accept (env : Env) (a : RegisterArgs) : Except QueueError Worker := do
  let worker ← cleanToken a.workerId "worker id"
  let algorithm ← normalizeAlgorithm a.identityAlgorithm
  env.validatePublicKey algorithm a.publicKey
  let negotiated ← negotiateProtocol a.protocolMin a.protocolMax
  let resources ← boundedJson env.sha a.resources maxResourceDeclarationBytes
    "worker resource declaration"
  let metadata ← boundedJson env.sha a.identityMetadata maxWorkerIdentityMetadataBytes
    "worker identity metadata"
  let display := truncate 160 (strip a.displayName)
  return {
    workerId := worker
    displayName := if display = "" then worker else display
    publicKey := a.publicKey
    identityAlgorithm := algorithm
    identityMetadataJson := metadata.1
    protocolMin := a.protocolMin
    protocolMax := a.protocolMax
    negotiatedProtocol := negotiated
    appCompatVersion := truncate 64 a.appCompatVersion
    resourcesJson := resources.1
    maxSlots := a.slots
    activeLeases := 0
    state := .active
    createdAt := a.utc
    updatedAt := a.utc
    heartbeatAt := a.now
    revokedAt := "" }

/-- The columns a known worker may declare anew. -/
def Worker.redeclare (new old : Worker) : Worker :=
  { old with
    displayName := new.displayName, identityMetadataJson := new.identityMetadataJson,
    protocolMin := new.protocolMin, protocolMax := new.protocolMax,
    negotiatedProtocol := new.negotiatedProtocol, appCompatVersion := new.appCompatVersion,
    resourcesJson := new.resourcesJson, maxSlots := new.maxSlots, updatedAt := new.updatedAt,
    heartbeatAt := new.heartbeatAt }

/-- `high_concurrency_cutover_slots` of the SQLite backend. -/
def sqliteCutoverSlots : Int := 16

def workerUnknown : QueueError := fail "WORKER_UNKNOWN" "Worker is not registered"
def workerRevoked : QueueError := fail "WORKER_REVOKED" "Worker is revoked"

def identityMismatch : QueueError :=
  fail "WORKER_IDENTITY_MISMATCH"
    "Worker ID is already bound to another public key or identity algorithm"

namespace Queue

def configuredSlots (q : Queue) (workerId : String) : Int :=
  ((q.workers.rows.filter fun w => w.state ≠ .revoked ∧ w.workerId ≠ workerId).map
    Worker.maxSlots).sum

def requireCapacity (b : Backend) (q : Queue) (a : RegisterArgs) (worker : String) :
    Except QueueError Unit :=
  let configured := q.configuredSlots worker
  require (¬(a.enforceCapacity ∧ b = .sqlite ∧ sqliteCutoverSlots ≤ configured + a.slots))
    (fail "SQLITE_DISTRIBUTED_CAPACITY_EXCEEDED"
      "SQLite Enterprise Worker capacity reached the fail-closed concurrency boundary; use PostgreSQL"
      [("configured_slots", .int configured), ("requested_slots", .int a.slots),
        ("cutover_slots", .int sqliteCutoverSlots)])

def requireSameIdentity (existing new : Worker) : Except QueueError Unit := do
  let sameKey ← compareDigest existing.publicKey new.publicKey
  require sameKey identityMismatch
  let existingAlgorithm ← normalizeAlgorithm existing.identityAlgorithm
  let sameAlgorithm ← compareDigest existingAlgorithm new.identityAlgorithm
  require sameAlgorithm identityMismatch

def registerWorker (env : Env) (b : Backend) (a : RegisterArgs) (q : Queue) :
    Except QueueError (Worker × Queue) := do
  let new ← a.accept env
  q.requireCapacity b a new.workerId
  match q.worker? new.workerId with
  | none => do
    require (q.workers.rows.length < maxWorkers)
      (fail "DISTRIBUTED_WORKER_LIMIT" "Worker registry reached its safety bound")
    return (new, { q with workers := q.workers.insert new })
  | some existing => do
    require (existing.state ≠ .revoked)
      (fail "WORKER_REVOKED"
        "Revoked worker identity cannot re-register without administrator recovery")
    requireSameIdentity existing new
    return (new.redeclare existing, q.updateWorker new.workerId new.redeclare)

/-- The text of the resources a heartbeat declares, where it declares any. -/
def declaredResources (env : Env) : Option JsonObject → Except QueueError (Option String)
  | none => .ok none
  | some resources => do
    let json ← boundedJson env.sha resources maxResourceDeclarationBytes
      "worker resource declaration"
    return some json.1

def heartbeat (env : Env) (workerId : String) (resources : Option JsonObject) (now : Instant)
    (utc : String) (q : Queue) : Except QueueError Queue := do
  let declared ← declaredResources env resources
  match q.worker? workerId with
  | none => .error workerUnknown
  | some w => do
    require (w.state ≠ .revoked) workerRevoked
    match declared with
    | none => return q.updateWorker workerId (·.beat now utc)
    | some json => return q.updateWorker workerId fun w => (w.beat now utc).declare json

def setWorkerDrain (workerId : String) (drain : Bool) (utc : String) (q : Queue) :
    Except QueueError Queue :=
  match q.worker? workerId with
  | none => .error workerUnknown
  | some w => do
    require (w.state ≠ .revoked) (fail "WORKER_REVOKED" "Revoked worker cannot be undrained")
    return q.updateWorker workerId (·.drain (if drain then .draining else .active) utc)

/-- One iteration of `_recover_worker_jobs_locked`, which reads the candidate row again. -/
def recoverWorkerJob (b : Backend) (workerId errorCode : String) (stamp : String → String)
    (acc : Int × Queue) (candidate : Job) : Except QueueError (Int × Queue) :=
  match acc.2.job? candidate.jobId with
  | none => .ok acc
  | some row =>
    if row.leaseWorkerId = workerId ∧ row.state.active then do
      let target := row.releaseTarget
      let q := acc.2.updateJob row.jobId (·.release target errorCode (stamp row.jobId))
      let q ← q.recordEventLocked b
        { jobId := row.jobId, eventType := .workerLeaseRecovered, fromState := row.state,
          toState := target, workerId := workerId, code := errorCode,
          createdAt := stamp row.jobId }
      return (acc.1 + 1, q)
    else .ok acc

def recoverWorkerJobsLocked (b : Backend) (workerId errorCode : String) (stamp : String → String)
    (q : Queue) : Except QueueError (Int × Queue) :=
  (q.jobs.rows.filter fun row => row.state.active && row.leaseWorkerId = workerId).foldlM
    (recoverWorkerJob b workerId errorCode stamp) (0, q)

def revokeWorker (b : Backend) (workerId utc : String) (stamp : String → String) (q : Queue) :
    Except QueueError (Int × Queue) :=
  match q.worker? workerId with
  | none => .error workerUnknown
  | some _ =>
    (q.updateWorker workerId (·.revoke utc)).recoverWorkerJobsLocked b workerId "WORKER_REVOKED"
      stamp

end Queue

/-- A recovery sweep: the clock reading it takes, the `now` its caller may force instead, and
the wall-clock texts of its statements. -/
structure SweepArgs where
  reading : Instant
  now : Option ℚ := none
  utc : String
  stamp : String → String

structure ReconcileSummary where
  workerCountersRepaired : Nat
  leasesRecovered : Nat

def SweepArgs.current (a : SweepArgs) : ℚ := a.now.getD a.reading

/-- `current - (lease_grace_seconds if now is None else 0.0)` -/
def recoveryCutoff (env : Env) (a : SweepArgs) : ℚ :=
  a.current - if a.now.isNone then env.grace else 0

namespace Queue

def settleWorker (utc : String) (recovered : List String) (q : Queue) (w : String) : Queue :=
  q.updateWorker w (·.releaseSlots (recovered.count w) utc)

/-- The final loop of both sweeps: `recovered` has one entry for each lease taken back, so a
worker's share of `recovered_by_worker` is its count. -/
def settleRecovered (utc : String) (recovered : List String) (q : Queue) : Queue :=
  recovered.dedup.foldl (settleWorker utc recovered) q

def heartbeatUnchanged (q : Queue) (workerId : String) (heartbeat cutoff : ℚ) : Bool :=
  match q.worker? workerId with
  | none => false
  | some w => w.heartbeatAt = heartbeat ∧ 0 < w.heartbeatAt ∧ w.heartbeatAt ≤ cutoff

def recoverStaleLease (b : Backend) (a : SweepArgs) (acc : List String × Queue)
    (candidate : Job × ℚ) : Except QueueError (List String × Queue) :=
  let row := candidate.1
  let worker := row.leaseWorkerId
  match acc.2.job? row.jobId with
  | none => .ok acc
  | some fresh =>
    if fresh.state = row.state ∧ fresh.leaseWorkerId = worker ∧
        fresh.leaseTokenSha256 = row.leaseTokenSha256 ∧ a.current < fresh.leaseExpiresAt ∧
        acc.2.heartbeatUnchanged worker candidate.2
          (a.current - workerHeartbeatTimeoutSeconds) then do
      let target := fresh.releaseTarget
      let code := releaseCode "WORKER_HEARTBEAT_LOST_AFTER_SIDE_EFFECT_START"
        "WORKER_HEARTBEAT_LOST_REQUEUED" "WORKER_HEARTBEAT_LOST_MAX_ATTEMPTS" target
      let q := acc.2.updateJob row.jobId (·.release target code (a.stamp row.jobId))
      let q ← q.recordEventLocked b
        { jobId := row.jobId, eventType := .workerHeartbeatLost, fromState := row.state,
          toState := target, workerId := worker, code := code,
          details := [("heartbeat_timeout_seconds", .seconds workerHeartbeatTimeoutSeconds)],
          createdAt := a.stamp row.jobId }
      return (worker :: acc.1, q)
    else .ok acc

def recoverStaleWorkerLeases (b : Backend) (a : SweepArgs) (q : Queue) :
    Except QueueError (Int × Queue) := do
  let rows := q.staleWorkerLeases (a.current - workerHeartbeatTimeoutSeconds) a.current
  let done ← rows.foldlM (recoverStaleLease b a) ([], q)
  return (done.1.length, done.2.settleRecovered a.utc done.1)

def recoverExpiredLease (b : Backend) (cutoff : ℚ) (a : SweepArgs) (acc : List String × Queue)
    (row : Job) : Except QueueError (List String × Queue) :=
  let worker := row.leaseWorkerId
  match acc.2.job? row.jobId with
  | none => .ok acc
  | some fresh =>
    if fresh.state = row.state ∧ fresh.leaseWorkerId = worker ∧
        fresh.leaseTokenSha256 = row.leaseTokenSha256 ∧ 0 < fresh.leaseExpiresAt ∧
        fresh.leaseExpiresAt ≤ cutoff then do
      let target := row.releaseTarget
      let code := releaseCode "LEASE_LOST_AFTER_SIDE_EFFECT_START" "LEASE_EXPIRED_REQUEUED"
        "LEASE_EXPIRED_MAX_ATTEMPTS" target
      let q := acc.2.updateJob row.jobId (·.release target code (a.stamp row.jobId))
      let q ← q.recordEventLocked b
        { jobId := row.jobId, eventType := .leaseExpired, fromState := row.state,
          toState := target, workerId := worker, code := code, createdAt := a.stamp row.jobId }
      return (worker :: acc.1, q)
    else .ok acc

def recoverExpiredLeases (env : Env) (b : Backend) (a : SweepArgs) (q : Queue) :
    Except QueueError (Int × Queue) := do
  let cutoff := recoveryCutoff env a
  let done ← (q.expiredLeaseCandidates cutoff).foldlM (recoverExpiredLease b cutoff a) ([], q)
  return (done.1.length, done.2.settleRecovered a.utc done.1)

def reconcileLease (b : Backend) (stamp : String → String) (q : Queue) (row : Job) :
    Except QueueError Queue :=
  let (target, code) := recoveryTarget row "LEASE_STATE_INVALID_MAX_ATTEMPTS"
  (q.updateJob row.jobId (·.release target code (stamp row.jobId))).recordEventLocked b
    { jobId := row.jobId, eventType := .leaseReconciled, fromState := row.state,
      toState := target, workerId := row.leaseWorkerId, code := code,
      createdAt := stamp row.jobId }

/-- `active_by_worker.get(worker_id, 0)`, which leaves out leases without an owner. -/
def heldLeases (q : Queue) (workerId : String) : Int :=
  if workerId = "" then 0 else q.activeCount workerId

def repairCounter (utc : String) (acc : Nat × Queue) (w : Worker) : Nat × Queue :=
  if acc.2.heldLeases w.workerId = w.activeLeases then acc
  else (acc.1 + 1, acc.2.updateWorker w.workerId (·.recount (acc.2.heldLeases w.workerId) utc))

def reconcileDurableState (b : Backend) (a : SweepArgs) (q : Queue) :
    Except QueueError (ReconcileSummary × Queue) := do
  let invalid := q.invalidLeaseCandidates (leaseHorizon a.reading)
  let recovered ← invalid.foldlM (reconcileLease b a.stamp) q
  let repaired := recovered.workers.rows.foldl (repairCounter a.utc) (0, recovered)
  return (⟨repaired.1, invalid.length⟩, repaired.2)

end Queue

end Arenyxa.Distributed
