import Arenyxa.Distributed.Schema
import Arenyxa.Lib.Retention
import Mathlib.Data.List.Sort

/-! The statements a storage backend supplies. -/

namespace Arenyxa.Distributed

open Outcome Retention QueueError

inductive Backend
  | sqlite | postgresql
  deriving DecidableEq

/-- `ORDER BY priority DESC, created_at ASC`, strictly. -/
def Job.servedBefore (a b : Job) : Bool :=
  b.priority < a.priority ∨ (a.priority = b.priority ∧ a.createdAt < b.createdAt)

namespace Queue

def insertEvent (q : Queue) (v : EventValues) : Queue :=
  { q with events := q.events ++ [⟨v, q.nextEventId⟩], nextEventId := q.nextEventId + 1 }

/-- `DELETE ... WHERE job_id=? AND event_id NOT IN (SELECT ... ORDER BY event_id DESC LIMIT n)` -/
def trimEvents (q : Queue) (jobId : String) (n : Nat) : Queue :=
  { q with events := keepNewest (fun e => e.jobId = jobId) n q.events }

/-- On PostgreSQL one statement inserts and trims, and its `DELETE` reads the snapshot from
before the `INSERT`; that is why it keeps one event less. -/
def recordEvent (b : Backend) (q : Queue) (v : EventValues) (maxEvents : Nat) : Queue :=
  match b with
  | .sqlite => (q.insertEvent v).trimEvents v.jobId (max 1 maxEvents)
  | .postgresql => (q.trimEvents v.jobId (max 1 (maxEvents - 1))).insertEvent v

section Events

variable {q : Queue} {b : Backend} {v : EventValues} {n : Nat}

@[simp] theorem jobs_recordEvent : (q.recordEvent b v n).jobs = q.jobs := by cases b <;> rfl

@[simp] theorem workers_recordEvent : (q.recordEvent b v n).workers = q.workers := by
  cases b <;> rfl

@[simp] theorem fences_recordEvent : (q.recordEvent b v n).fences = q.fences := by
  cases b <;> rfl

@[simp] theorem nextEventId_recordEvent :
    (q.recordEvent b v n).nextEventId = q.nextEventId + 1 := by
  cases b <;> rfl

theorem recordEvent_updateWorker {id : String} {g : Worker → Worker}
    {hg : ∀ r, (g r).workerId = r.workerId} :
    (q.updateWorker id g hg).recordEvent b v n = (q.recordEvent b v n).updateWorker id g hg := by
  cases b <;> rfl

theorem journal_insertEvent (id : String) :
    (q.insertEvent v).journal id =
      q.journal id ++ if v.jobId = id then [⟨v, q.nextEventId⟩] else [] := by
  by_cases h : v.jobId = id <;> simp [journal, insertEvent, h]

theorem journal_trimEvents_self (id : String) :
    (q.trimEvents id n).journal id = (q.journal id).rtake n :=
  filter_keepNewest _ _ _

theorem journal_trimEvents_ne {id id' : String} (h : id' ≠ id) :
    (q.trimEvents id n).journal id' = q.journal id' := by
  apply filter_keepNewest_of_disjoint
  intro e he
  simp only [decide_eq_true_eq] at he
  simp [he, h]

theorem journal_recordEvent (hn : 2 ≤ n) :
    (q.recordEvent b v n).journal v.jobId =
      (q.journal v.jobId ++ [(⟨v, q.nextEventId⟩ : JobEvent)]).rtake n := by
  cases b with
  | sqlite =>
    change ((q.insertEvent v).trimEvents v.jobId (max 1 n)).journal v.jobId = _
    rw [journal_trimEvents_self, journal_insertEvent, if_pos rfl, Nat.max_eq_right (by omega)]
  | postgresql =>
    change ((q.trimEvents v.jobId (max 1 (n - 1))).insertEvent v).journal v.jobId = _
    rw [journal_insertEvent, if_pos rfl, journal_trimEvents_self, Nat.max_eq_right (by omega)]
    have h := rtake_append_singleton (n - 1) (q.journal v.jobId) (⟨v, q.nextEventId⟩ : JobEvent)
    rw [Nat.sub_add_cancel (by omega)] at h
    exact h

theorem journal_recordEvent_ne {id : String} (h : v.jobId ≠ id) :
    (q.recordEvent b v n).journal id = q.journal id := by
  cases b with
  | sqlite =>
    change ((q.insertEvent v).trimEvents v.jobId (max 1 n)).journal id = _
    rw [journal_trimEvents_ne (Ne.symm h), journal_insertEvent, if_neg h, List.append_nil]
  | postgresql =>
    change ((q.trimEvents v.jobId (max 1 (n - 1))).insertEvent v).journal id = _
    rw [journal_insertEvent, if_neg h, List.append_nil, journal_trimEvents_ne (Ne.symm h)]

end Events

def leaseCandidates (q : Queue) (protocolMin protocolMax : Int) : List Job :=
  q.jobs.rows.filter fun row =>
    row.state = .queued ∧ protocolMin ≤ row.protocolVersion ∧ row.protocolVersion ≤ protocolMax

/-- `... LIMIT 1`. Rows that tie on both sort columns may come in any order; `tie` picks one. -/
def leaseCandidate (q : Queue) (protocolMin protocolMax : Int) (tie : Nat) : Option Job :=
  let rows := q.leaseCandidates protocolMin protocolMax
  let first := rows.filter fun row => !rows.any fun other => other.servedBefore row
  first[tie % first.length]?

/-- `UPDATE ... WHERE worker_id=? AND state='active' AND active_leases<max_slots`; `none` when
it matches no row. -/
def claimWorkerSlot (q : Queue) (workerId : String) (heartbeat : ℚ) (utc : String) :
    Option Queue :=
  match q.worker? workerId with
  | none => none
  | some w =>
    if w.state = .active ∧ w.activeLeases < w.maxSlots then
      some (q.updateWorker workerId (·.claimSlot heartbeat utc))
    else none

def expiredLeaseCandidates (q : Queue) (cutoff : ℚ) : List Job :=
  (q.jobs.rows.filter fun row =>
    row.state.active && decide (0 < row.leaseExpiresAt ∧ row.leaseExpiresAt ≤ cutoff)).insertionSort
    fun a b => a.leaseWorkerId < b.leaseWorkerId ∨
      (a.leaseWorkerId = b.leaseWorkerId ∧ a.jobId ≤ b.jobId)

def invalidLeaseCandidates (q : Queue) (horizon : ℚ) : List Job :=
  q.jobs.rows.filter fun row =>
    row.state.active &&
      (row.leaseWorkerId = "" || row.leaseTokenSha256 = "" || decide (row.leaseExpiresAt ≤ 0) ||
        decide (horizon < row.leaseExpiresAt) ||
        match q.worker? row.leaseWorkerId with
        | none => true
        | some w => w.state = .revoked)

/-- The job rows a live lease query joins with the heartbeat of the worker that holds them. -/
def staleWorkerLeases (q : Queue) (cutoff current : ℚ) : List (Job × ℚ) :=
  q.jobs.rows.filterMap fun row =>
    match q.worker? row.leaseWorkerId with
    | none => none
    | some w =>
      if row.state.active ∧ row.leaseWorkerId ≠ "" ∧ 0 < w.heartbeatAt ∧
          w.heartbeatAt ≤ cutoff ∧ current < row.leaseExpiresAt then
        some (row, w.heartbeatAt)
      else none

end Queue

end Arenyxa.Distributed

/-! Lease-clock anchoring, terminal fences and bounded history. -/

namespace Arenyxa.Distributed

open Outcome QueueError

def Job.terminalReceipt (row : Job) : List String :=
  [row.terminalWorkerId, row.terminalLeaseTokenSha256, row.resultSha256]

/-- The fence that records the outcome of a terminal job. -/
def Job.fence (row : Job) (encode : List String → JsonArrayText) : Fence where
  idempotencyKey := row.idempotencyKey
  jobId := row.jobId
  kind := row.kind
  payloadSha256 := row.payloadSha256
  resourceId := row.resourceId
  permission := row.permission
  sideEffectMode := row.sideEffectMode
  terminalState := row.state
  terminalReceipt := encode row.terminalReceipt
  createdAt := row.createdAt
  terminalAt := if row.terminalAt = "" then row.updatedAt else row.terminalAt
  updatedAt := row.updatedAt

/-- `DO UPDATE SET terminal_state, terminal_at, updated_at, terminal_receipt` -/
def Fence.refresh (new old : Fence) : Fence :=
  { old with
    terminalState := new.terminalState, terminalAt := new.terminalAt,
    updatedAt := new.updatedAt, terminalReceipt := new.terminalReceipt }

theorem Fence.refresh_idempotencyKey (new old : Fence) :
    (new.refresh old).idempotencyKey = old.idempotencyKey := rfl

def sameJobIdentity (fence : Fence) (row : Job) : Bool := fence.identity = row.identity

/-- `INSERT ... ON CONFLICT(idempotency_key) DO UPDATE` -/
def Queue.upsertFence (q : Queue) (f : Fence) : Queue :=
  match q.fence? f.idempotencyKey with
  | some _ =>
    { q with fences := q.fences.modify f.idempotencyKey f.refresh f.refresh_idempotencyKey }
  | none => { q with fences := q.fences.insert f }

def fenceCollision : QueueError :=
  fail "DISTRIBUTED_IDEMPOTENCY_COLLISION"
    "Terminal idempotency fence conflicts with its original job"

def Queue.fenceAgrees (q : Queue) (row : Job) : Bool :=
  match q.fence? row.idempotencyKey with
  | some existing => sameJobIdentity existing row
  | none => true

def Queue.storeTerminalFence (q : Queue) (row : Job) : Except QueueError Queue := do
  require (q.fenceAgrees row) fenceCollision
  return q.upsertFence (row.fence jsonDumps)

/-- The row goes, and its events with it (`ON DELETE CASCADE`). -/
def Queue.deleteJob (q : Queue) (id : String) : Queue :=
  { q with
    jobs := q.jobs.filter fun row => !(row.jobId = id && row.state.terminal),
    events := match q.job? id with
      | some row => if row.state.terminal then q.events.filter fun e => e.jobId ≠ id else q.events
      | none => q.events }

def Queue.deleteIdempotentFence (q : Queue) (key : String) : Queue :=
  { q with fences := q.fences.filter fun f =>
      !(f.idempotencyKey = key && f.sideEffectMode = .idempotent && (q.jobForKey? key).isNone) }

namespace Queue

section Fences

variable {q : Queue} {f : Fence}

@[simp] theorem jobs_upsertFence : (q.upsertFence f).jobs = q.jobs := by
  unfold upsertFence
  split <;> rfl

@[simp] theorem workers_upsertFence : (q.upsertFence f).workers = q.workers := by
  unfold upsertFence
  split <;> rfl

@[simp] theorem events_upsertFence : (q.upsertFence f).events = q.events := by
  unfold upsertFence
  split <;> rfl

@[simp] theorem nextEventId_upsertFence : (q.upsertFence f).nextEventId = q.nextEventId := by
  unfold upsertFence
  split <;> rfl

theorem fence?_upsertFence (key : String) :
    (q.upsertFence f).fence? key =
      if key = f.idempotencyKey then some (((q.fence? key).map f.refresh).getD f)
      else q.fence? key := by
  unfold upsertFence
  split
  next old h =>
    simp only [fence?] at h ⊢
    by_cases hk : key = f.idempotencyKey
    · subst hk
      simp [h]
    · rw [if_neg hk, Table.get?_modify_ne hk]
  next h =>
    simp only [fence?] at h ⊢
    rw [Table.get?_insert h]
    by_cases hk : key = f.idempotencyKey
    · subst hk
      simp [Keyed.key, h]
    · simp [Keyed.key, hk]

end Fences

section Deletion

variable {q : Queue} {id : String} {row : Job}

@[simp] theorem nextEventId_deleteJob : (q.deleteJob id).nextEventId = q.nextEventId := rfl

theorem job?_deleteJob (found : q.job? id = some row) (terminal : row.state.terminal)
    (id' : String) : (q.deleteJob id).job? id' = if id' = id then none else q.job? id' := by
  simp only [job?, deleteJob, Table.get?_filter]
  by_cases h : id' = id
  · subst h
    rw [show q.jobs.get? id' = some row from found]
    simp [terminal, job?_jobId found]
  · rw [if_neg h]
    cases hr : q.jobs.get? id' with
    | none => rfl
    | some r =>
      have hk : r.jobId = id' := Table.get?_key hr
      simp [hk, h]

theorem mem_jobs_deleteJob {r : Job} (h : r ∈ (q.deleteJob id).jobs.rows) : r ∈ q.jobs.rows :=
  List.mem_of_mem_filter h

theorem activeCount_deleteJob (w : String) : (q.deleteJob id).activeCount w = q.activeCount w := by
  simp only [activeCount, deleteJob]
  congr 1
  apply Table.countP_filter_of_imp
  intro r _ held
  simp only [Job.heldBy, Bool.and_eq_true] at held
  simp [JobState.not_terminal_of_active held.1]

theorem journal_deleteJob (found : q.job? id = some row) (terminal : row.state.terminal)
    (id' : String) : (q.deleteJob id).journal id' = if id' = id then [] else q.journal id' := by
  simp only [journal, deleteJob, found, terminal, if_true, List.filter_filter]
  split_ifs with h
  · simp [h]
  · apply List.filter_congr
    intro e _
    by_cases he : e.jobId = id' <;> simp [he, h]

@[simp] theorem events_deleteIdempotentFence (key : String) :
    (q.deleteIdempotentFence key).events = q.events := rfl

@[simp] theorem nextEventId_deleteIdempotentFence (key : String) :
    (q.deleteIdempotentFence key).nextEventId = q.nextEventId := rfl

theorem fence?_deleteIdempotentFence (key key' : String) :
    (q.deleteIdempotentFence key).fence? key' =
      (q.fence? key').filter fun f =>
        !(key' = key && f.sideEffectMode = .idempotent && (q.jobForKey? key).isNone) := by
  simp only [fence?, deleteIdempotentFence, Table.get?_filter]
  cases h : q.fences.get? key' with
  | none => rfl
  | some f =>
    have hk : f.idempotencyKey = key' := Table.get?_key h
    simp [Option.filter, hk]

end Deletion

end Queue

structure RetentionReport where
  jobsPruned : Nat
  idempotentTombstonesPruned : Nat
  pruningDisabled : Bool
  jobsRemaining : Nat
  idempotentTombstonesRemaining : Nat
  nonIdempotentTombstonesRemaining : Nat

namespace Queue

/-- `ORDER BY updated_at DESC, job_id DESC` -/
def terminalHistory (q : Queue) : List Job :=
  (q.jobs.rows.filter fun row => row.state.terminal).insertionSort fun a b =>
    b.updatedAt < a.updatedAt ∨ (a.updatedAt = b.updatedAt ∧ b.jobId ≤ a.jobId)

/-- `ORDER BY terminal_at DESC, idempotency_key DESC` -/
def idempotentTombstones (q : Queue) : List Fence :=
  (q.fences.rows.filter fun f => f.sideEffectMode = .idempotent).insertionSort fun a b =>
    b.terminalAt < a.terminalAt ∨
      (a.terminalAt = b.terminalAt ∧ b.idempotencyKey ≤ a.idempotencyKey)

def pruneJob (q : Queue) (row : Job) : Except QueueError Queue := do
  let q ← q.storeTerminalFence row
  return q.deleteJob row.jobId

def pruneHistory (q : Queue) (maxTerminal : Int) : Except QueueError Queue :=
  if q.idempotencyBackfillComplete then
    (q.terminalHistory.drop maxTerminal.toNat).foldlM pruneJob q
  else .ok q

def pruneTombstones (q : Queue) (maxIdempotentTombstones : Int) : Queue :=
  if q.idempotencyBackfillComplete then
    (q.idempotentTombstones.drop maxIdempotentTombstones.toNat).foldl
      (fun q f => q.deleteIdempotentFence f.idempotencyKey) q
  else q

def retainTerminalLocked (q : Queue) (maxTerminal maxIdempotentTombstones : Int) :
    Except QueueError (RetentionReport × Queue) := do
  let pruned ← q.pruneHistory maxTerminal
  let final := pruned.pruneTombstones maxIdempotentTombstones
  return (
    { jobsPruned := q.jobs.rows.length - final.jobs.rows.length
      idempotentTombstonesPruned := pruned.fences.rows.length - final.fences.rows.length
      pruningDisabled := !q.idempotencyBackfillComplete
      jobsRemaining := final.jobs.rows.length
      idempotentTombstonesRemaining :=
        final.fences.rows.countP fun f => f.sideEffectMode = .idempotent
      nonIdempotentTombstonesRemaining :=
        final.fences.rows.countP fun f => f.sideEffectMode = .nonIdempotent }, final)

def retainTerminalJobs (q : Queue) (maxTerminal : Int := 10000)
    (maxIdempotentTombstones : Int := 100000) : Except QueueError (RetentionReport × Queue) :=
  q.retainTerminalLocked maxTerminal maxIdempotentTombstones

/-- `UPDATE distributed_jobs SET lease_expires_at=1 WHERE state IN ('leased','running')` -/
def distrustLeases (q : Queue) : Queue :=
  { q with
    jobs := q.jobs.updateWhere (fun row => row.state.active) Job.distrustLease
      Job.distrustLease_jobId }

theorem job?_distrustLeases (q : Queue) (id : String) :
    q.distrustLeases.job? id =
      (q.job? id).map fun r => if r.state.active then r.distrustLease else r := by
  simp only [job?, distrustLeases, Table.get?_updateWhere]

/-- Whether the durable anchor vouches for the clock of this boot. -/
def anchored (q : Queue) (domain : String) (mono : ℚ) : Bool :=
  match q.leaseClockAnchor with
  | none => false
  | some anchor => anchor.domain = domain ∧ anchor.monotonic ≤ mono

/-- The first transaction of `initialize`. Without a trusted anchor every lease is dated to
second 1, so that expiry recovery takes it back. PostgreSQL keeps time on the server and
skips the transaction. In either case pruning stays off until the fences are backfilled. -/
def initializeLeaseClock (b : Backend) (q : Queue) (domain : String) (mono epoch : ℚ) : Queue :=
  let q := { q with idempotencyBackfillComplete := false }
  match b with
  | .postgresql => q
  | .sqlite =>
    if q.anchored domain mono then q
    else
      let distrusted :=
        if q.leaseClockAnchor.isSome ∨ q.jobs.rows.any (fun row => row.state.active) then
          q.distrustLeases
        else q
      { distrusted with leaseClockAnchor := some ⟨domain, mono, epoch⟩ }

/-- The second transaction of `initialize`. -/
def backfillTerminalFences (q : Queue) : Except QueueError Queue := do
  let q ← (q.jobs.rows.filter fun row => row.state.terminal).foldlM storeTerminalFence q
  return { q with idempotencyBackfillComplete := true }

end Queue

end Arenyxa.Distributed
