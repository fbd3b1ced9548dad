import Arenyxa.Distributed.Execution
import Arenyxa.Lib.Machine
import Arenyxa.Lib.Trace

/-! The queue as a machine. A step is one transaction; `initialize` and the sweep in front of
a lease are the lists of transactions they commit one after the other. -/

namespace Arenyxa.Distributed

/-- A transaction with everything it takes from outside. `fallback` marks the multi-statement
half of a PostgreSQL call whose single statement found nothing earlier. -/
inductive Op
  | enqueue (a : EnqueueArgs)
  | registerWorker (a : RegisterArgs)
  | heartbeat (workerId : String) (resources : Option JsonObject) (now : Instant) (utc : String)
  | setWorkerDrain (workerId : String) (drain : Bool) (utc : String)
  | revokeWorker (workerId utc : String) (stamp : String → String)
  | leaseNext (fallback : Bool) (workerId : String) (leaseSeconds : Int) (d : Draw)
  | leaseMany (workerId : String) (maxItems leaseSeconds : Int) (draws : Nat → Draw)
  | startJob (fallback : Bool) (c : LeaseCall)
  | renewLease (c : LeaseCall) (leaseSeconds : Int) (reading : Instant)
  | handoverLease (c : LeaseCall) (reason : String)
  | checkpoint (c : LeaseCall) (value : JsonObject)
  | markSideEffectStarted (c : LeaseCall)
  | complete (fallback : Bool) (c : LeaseCall) (result : JsonObject)
  | fail (c : LeaseCall) (errorCode : String) (retryable : Bool)
  | retryReviewRequired (jobId utc : String)
  | recoverStaleWorkerLeases (a : SweepArgs)
  | recoverExpiredLeases (a : SweepArgs)
  | reconcileDurableState (a : SweepArgs)
  | retainTerminalJobs (maxTerminal maxIdempotentTombstones : Int)
  | initializeLeaseClock (domain : String) (monotonic : ℚ) (epoch : ℚ)
  | backfillTerminalFences

inductive Result
  | unit
  | job (id : String)
  | worker (row : Worker)
  | leases (granted : List DistributedLease)
  | state (target : JobState)
  | number (n : Int)
  | expires (epoch : ℚ)
  | reconciled (summary : ReconcileSummary)
  | retained (report : RetentionReport)

def Result.granted : Result → List DistributedLease
  | .leases granted => granted
  | _ => []

/-- Run `x` and wrap what it returns. -/
def returning {α : Type} (wrap : α → Result) (x : Except QueueError (α × Queue)) :
    Except QueueError (Result × Queue) := do
  let r ← x
  return (wrap r.1, r.2)

def silently (x : Except QueueError Queue) : Except QueueError (Result × Queue) := do
  let q ← x
  return (.unit, q)

def Op.exec (env : Env) (b : Backend) : Op → Queue → Except QueueError (Result × Queue)
  | .enqueue a, q => returning .job (q.enqueue env b a)
  | .registerWorker a, q => returning .worker (q.registerWorker env b a)
  | .heartbeat w resources now utc, q => silently (q.heartbeat env w resources now utc)
  | .setWorkerDrain w drain utc, q => silently (q.setWorkerDrain w drain utc)
  | .revokeWorker w utc stamp, q => returning .number (q.revokeWorker b w utc stamp)
  | .leaseNext fallback w seconds d, q =>
    returning (fun l => .leases l.toList) (q.leaseNext env b fallback w seconds d)
  | .leaseMany w maxItems seconds draws, q =>
    returning .leases (q.leaseMany env b w maxItems seconds draws)
  | .startJob fallback c, q => silently (q.startJob env b fallback c)
  | .renewLease c seconds reading, q => returning .expires (q.renewLease env c seconds reading)
  | .handoverLease c reason, q => returning .state (q.handoverLease env b c reason)
  | .checkpoint c value, q => returning .number (q.checkpoint env c value)
  | .markSideEffectStarted c, q => silently (q.markSideEffectStarted env b c)
  | .complete fallback c result, q => silently (q.complete env b fallback c result)
  | .fail c errorCode retryable, q => returning .state (q.failJob env b c errorCode retryable)
  | .retryReviewRequired id utc, q => silently (q.retryReviewRequired b id utc)
  | .recoverStaleWorkerLeases a, q => returning .number (q.recoverStaleWorkerLeases b a)
  | .recoverExpiredLeases a, q => returning .number (q.recoverExpiredLeases env b a)
  | .reconcileDurableState a, q => returning .reconciled (q.reconcileDurableState b a)
  | .retainTerminalJobs maxTerminal maxTombstones, q =>
    returning .retained (q.retainTerminalJobs maxTerminal maxTombstones)
  | .initializeLeaseClock domain monotonic epoch, q =>
    .ok (.unit, q.initializeLeaseClock b domain monotonic epoch)
  | .backfillTerminalFences, q => silently q.backfillTerminalFences

def queueMachine (env : Env) (b : Backend) : Machine Queue Op Result QueueError :=
  ⟨Op.exec env b⟩

/-- `initialize`, with the clock and wall readings its transactions take. -/
def initializeQueue (domain : String) (monotonic epoch : ℚ) (reconcile stale expired : SweepArgs) :
    List Op :=
  [.initializeLeaseClock domain monotonic epoch, .backfillTerminalFences,
    .reconcileDurableState reconcile, .recoverStaleWorkerLeases stale,
    .recoverExpiredLeases expired]

end Arenyxa.Distributed

/-! The statements of the queue's transactions, one labelled step each. A transaction changes
the row of a job and the counter of its worker in separate statements; `owed` is what the
counters of the workers are still behind by. -/

namespace Arenyxa.Distributed

open Outcome

/-- How a statement writes the journal and encodes receipts: through `record_event`, or inside
one of the single statements. -/
inductive Recording
  | kept (b : Backend)
  | appended

def Recording.encode : Recording → List String → JsonArrayText
  | .kept _ => jsonDumps
  | .appended => jsonBuildArray

def Queue.journalize (q : Queue) (m : Recording) (v : EventValues) : Queue :=
  match m with
  | .kept b => q.recordEvent b v maxJobEventsPerJob
  | .appended => q.insertEvent v

/-- What the journal of one job becomes. -/
def Recording.append (m : Recording) (log : List JobEvent) (e : JobEvent) : List JobEvent :=
  match m with
  | .kept _ => (log ++ [e]).rtake maxJobEventsPerJob
  | .appended => log ++ [e]

namespace Queue

section Journal

variable {q : Queue} {m : Recording} {v : EventValues}

@[simp] theorem jobs_journalize : (q.journalize m v).jobs = q.jobs := by
  cases m with
  | kept b => exact jobs_recordEvent
  | appended => rfl

@[simp] theorem workers_journalize : (q.journalize m v).workers = q.workers := by
  cases m with
  | kept b => exact workers_recordEvent
  | appended => rfl

@[simp] theorem fences_journalize : (q.journalize m v).fences = q.fences := by
  cases m with
  | kept b => exact fences_recordEvent
  | appended => rfl

theorem job?_journalize (id : String) : (q.journalize m v).job? id = q.job? id := by
  simp only [job?, jobs_journalize]

@[simp] theorem nextEventId_journalize :
    (q.journalize m v).nextEventId = q.nextEventId + 1 := by
  cases m with
  | kept b => exact nextEventId_recordEvent
  | appended => rfl

theorem journal_journalize (id : String) :
    (q.journalize m v).journal id =
      if v.jobId = id then m.append (q.journal id) ⟨v, q.nextEventId⟩ else q.journal id := by
  split_ifs with h
  · subst h
    cases m with
    | kept b => exact journal_recordEvent (by decide)
    | appended => exact (journal_insertEvent v.jobId).trans (by rw [if_pos rfl]; rfl)
  · cases m with
    | kept b => exact journal_recordEvent_ne h
    | appended => exact (journal_insertEvent id).trans (by rw [if_neg h, List.append_nil])

end Journal

end Queue

/-- The verbs of a job's life after it was created. -/
inductive Move
  | lease (worker token : String) (expires : ℚ) (utc : String)
  | start (utc : String)
  | renew (expires : ℚ) (utc : String)
  | saveCheckpoint (json : String) (sequence : Int) (utc : String)
  | startSideEffect (utc : String)
  | release (target : JobState) (code utc : String)
  | complete (resultJson resultSha worker tokenSha utc : String)
  | approveRetry (utc : String)

namespace Move

def apply (sha : Sha256) : Move → Job → Job
  | .lease worker token expires utc => Job.lease worker (sha.hexdigest token) expires utc
  | .start utc => Job.start utc
  | .renew expires utc => Job.renew expires utc
  | .saveCheckpoint json sequence utc => Job.saveCheckpoint json sequence utc
  | .startSideEffect utc => Job.startSideEffect utc
  | .release target code utc => Job.release target code utc
  | .complete json resultSha worker tokenSha utc => Job.complete json resultSha worker tokenSha utc
  | .approveRetry utc => Job.approveRetry utc

/-- What the row must look like for the verb. -/
def Permitted : Move → Job → Prop
  | .lease worker _ expires _, row => row.state = .queued ∧ worker ≠ "" ∧ 0 < expires
  | .start _, row => row.state = .leased
  | .renew expires _, row => row.state.active ∧ 0 < expires
  | .saveCheckpoint _ _ _, row => row.state.active
  | .startSideEffect _, row =>
    row.state.active ∧ row.sideEffectMode = .nonIdempotent ∧ row.sideEffectState ≠ .started
  | .release target _ _, row => row.state.active ∧ ∃ retryable, target = row.releaseTarget retryable
  | .complete _ _ _ _ _, row => row.state.active
  | .approveRetry _, row => row.state = .reviewRequired

/-- The verbs that leave the journal alone. -/
def silent : Move → Bool
  | .renew _ _ | .saveCheckpoint _ _ _ => true
  | _ => false

/-- The debts after the verb: a grant is owed to the counter, a release is owed from it. -/
def owes (row : Job) (owed : String → Int) : Move → String → Int
  | .lease worker _ _ _ => Function.update owed worker (owed worker - 1)
  | .release _ _ _ | .complete _ _ _ _ _ =>
    Function.update owed row.leaseWorkerId (owed row.leaseWorkerId + 1)
  | _ => owed

@[simp] theorem apply_jobId (sha : Sha256) (mv : Move) (row : Job) :
    (mv.apply sha row).jobId = row.jobId := by
  cases mv <;> rfl

@[simp] theorem apply_idempotencyKey (sha : Sha256) (mv : Move) (row : Job) :
    (mv.apply sha row).idempotencyKey = row.idempotencyKey := by
  cases mv <;> rfl

@[simp] theorem apply_identity (sha : Sha256) (mv : Move) (row : Job) :
    (mv.apply sha row).identity = row.identity := by
  cases mv <;> rfl

end Move

/-- One entry of the journal and the way it was written. -/
structure Entry where
  recording : Recording
  values : EventValues

/-- A row as `enqueue` writes it. -/
structure Job.Fresh (row : Job) : Prop where
  queued : row.state = .queued
  worker : row.leaseWorkerId = ""
  token : row.leaseTokenSha256 = ""
  expires : row.leaseExpiresAt = 0
  attempt : row.attempt = 0
  maxAttempts : 1 ≤ row.maxAttempts
  effect : row.sideEffectState = .none

inductive Label
  | entered (row : Job) (entry : Entry)
  | moved (id : String) (mv : Move) (entry : Option Entry)
  | distrusted
  | enrolled (row : Worker)
  | redeclared (new : Worker)
  | reckoned (workerId : String)
  | fenced (id : String)
  | erased (id : String)
  | dropped (key : String)
  | flagged

/-- The job whose row a step inserts, changes or deletes. -/
def Label.jobId? : Label → Option String
  | .entered row _ => some row.jobId
  | .moved id _ _ | .erased id => some id
  | _ => none

/-- What the step makes of the journal of its job, `n` being the next event number. -/
def Label.record (log : List JobEvent) (n : Nat) : Label → List JobEvent
  | .entered _ e | .moved _ _ (some e) => e.recording.append log ⟨e.values, n⟩
  | .erased _ => []
  | _ => log

def Label.journalAfter (l : Label) (id : String) (log : List JobEvent) (n : Nat) : List JobEvent :=
  if l.jobId? = some id then l.record log n else log

structure Ledger where
  queue : Queue
  owed : String → Int

def Queue.opened (q : Queue) : Ledger := ⟨q, fun _ => 0⟩

/-- Every counter of a registered worker is up to date again. -/
def Ledger.Closed (L : Ledger) : Prop := ∀ w, (L.queue.worker? w).isSome → L.owed w = 0

/-- A worker row whose counter is behind by `owed`. -/
structure Worker.Fair (q : Queue) (owed : Int) (w : Worker) : Prop where
  balance : w.activeLeases = q.activeCount w.workerId + owed
  revoked : w.state = .revoked → w.activeLeases = 0

def Worker.Bounded (w : Worker) : Prop := 0 ≤ w.activeLeases ∧ w.activeLeases ≤ w.maxSlots

namespace Queue

def insertRow (q : Queue) (row : Job) : Queue := { q with jobs := q.jobs.insert row }

def insertWorker (q : Queue) (w : Worker) : Queue := { q with workers := q.workers.insert w }

/-- Fence the row where it is terminal. -/
def sealRow (q : Queue) (row : Job) (m : Recording) : Queue :=
  if row.state.terminal then q.upsertFence (row.fence m.encode) else q

/-- What follows a change of `row`: its fence, then its entry in the journal. -/
def settle (q : Queue) (row : Job) : Option Entry → Queue
  | none => q
  | some e => (q.sealRow row e.recording).journalize e.recording e.values

def enact (q : Queue) (sha : Sha256) (mv : Move) (row : Job) (entry : Option Entry) : Queue :=
  (q.updateJob row.jobId (mv.apply sha) (mv.apply_jobId sha)).settle (mv.apply sha row) entry

section Enactment

variable {q : Queue} {row : Job} {m : Recording} {entry : Option Entry}

@[simp] theorem jobs_sealRow : (q.sealRow row m).jobs = q.jobs := by
  unfold sealRow
  split <;> simp

@[simp] theorem workers_sealRow : (q.sealRow row m).workers = q.workers := by
  unfold sealRow
  split <;> simp

@[simp] theorem events_sealRow : (q.sealRow row m).events = q.events := by
  unfold sealRow
  split <;> simp

@[simp] theorem nextEventId_sealRow : (q.sealRow row m).nextEventId = q.nextEventId := by
  unfold sealRow
  split <;> simp

theorem fence?_sealRow (key : String) :
    (q.sealRow row m).fence? key =
      if row.state.terminal ∧ key = row.idempotencyKey then
        some (((q.fence? key).map (row.fence m.encode).refresh).getD (row.fence m.encode))
      else q.fence? key := by
  unfold sealRow
  by_cases ht : row.state.terminal
  · simp [ht, fence?_upsertFence, Job.fence]
  · simp [ht]

@[simp] theorem journal_sealRow (id : String) :
    (q.sealRow row m).journal id = q.journal id := by
  simp only [journal, events_sealRow]

@[simp] theorem jobs_settle : (q.settle row entry).jobs = q.jobs := by
  cases entry with
  | none => rfl
  | some e => simp [settle]

@[simp] theorem workers_settle : (q.settle row entry).workers = q.workers := by
  cases entry with
  | none => rfl
  | some e => simp [settle]

theorem journal_settle (id : String) :
    (q.settle row entry).journal id =
      match entry with
      | none => q.journal id
      | some e =>
        if e.values.jobId = id then e.recording.append (q.journal id) ⟨e.values, q.nextEventId⟩
        else q.journal id := by
  cases entry with
  | none => rfl
  | some e => simp [settle, journal_journalize]

@[simp] theorem fence?_settle_some (e : Entry) (key : String) :
    (q.settle row (some e)).fence? key = (q.sealRow row e.recording).fence? key := by
  simp only [settle, fence?, fences_journalize]

theorem job?_insertRow (absent : q.job? row.jobId = none) (id : String) :
    (q.insertRow row).job? id = if id = row.jobId then some row else q.job? id :=
  Table.get?_insert absent

theorem worker?_insertWorker {w : Worker} (absent : q.worker? w.workerId = none) (id : String) :
    (q.insertWorker w).worker? id = if id = w.workerId then some w else q.worker? id :=
  Table.get?_insert absent

theorem job?_enact (sha : Sha256) (mv : Move) (id : String) :
    (q.enact sha mv row entry).job? id =
      if id = row.jobId then (q.job? id).map (mv.apply sha) else q.job? id := by
  simp only [enact, job?, jobs_settle]
  exact job?_updateJob

@[simp] theorem workers_enact (sha : Sha256) (mv : Move) :
    (q.enact sha mv row entry).workers = q.workers := by
  simp [enact]

end Enactment

end Queue

/-- What an entry must say about the verb it records. -/
def Entry.Records (e : Entry) (row new : Job) : Prop :=
  e.values.jobId = row.jobId ∧ e.values.fromState = some row.state ∧ e.values.toState = new.state

def Entry.Opens (e : Entry) (row : Job) : Prop :=
  e.values.jobId = row.jobId ∧ e.values.fromState = none ∧ e.values.toState = .queued

/-- The terminal outcome of a row, as its fence keeps it. -/
def Fence.Seals (f : Fence) (row : Job) : Prop :=
  f.identity = row.identity ∧ f.terminalState = row.state ∧
    f.terminalReceipt.items = row.terminalReceipt

inductive Step (sha : Sha256) : Ledger → Label → Ledger → Prop
  | entered {q : Queue} {o : String → Int} {row : Job} {e : Entry}
    (absent : q.job? row.jobId = none) (free : q.heldIdentity? row.idempotencyKey = none)
    (fresh : row.Fresh) (opens : e.Opens row) :
    Step sha ⟨q, o⟩ (.entered row e) ⟨(q.insertRow row).journalize e.recording e.values, o⟩
  | moved {q : Queue} {o : String → Int} {row : Job} {mv : Move} {entry : Option Entry}
    (found : q.job? row.jobId = some row) (permitted : mv.Permitted row)
    (known : ∀ w token expires utc, mv = .lease w token expires utc →
      (q.worker? w).isSome)
    (silent : mv.silent = entry.isNone)
    (records : ∀ e ∈ entry, e.Records row (mv.apply sha row))
    (agrees : (mv.apply sha row).state.terminal → q.fenceAgrees row) :
    Step sha ⟨q, o⟩ (.moved row.jobId mv entry) ⟨q.enact sha mv row entry, mv.owes row o⟩
  | distrusted {q : Queue} {o : String → Int} :
    Step sha ⟨q, o⟩ .distrusted ⟨q.distrustLeases, o⟩
  | enrolled {q : Queue} {o : String → Int} {w : Worker} (absent : q.worker? w.workerId = none)
    (named : w.workerId ≠ "") (idle : w.activeLeases = 0) (active : w.state = .active) :
    Step sha ⟨q, o⟩ (.enrolled w) ⟨q.insertWorker w, Function.update o w.workerId 0⟩
  | redeclared {q : Queue} {o : String → Int} {new : Worker} :
    Step sha ⟨q, o⟩ (.redeclared new) ⟨q.updateWorker new.workerId new.redeclare, o⟩
  | reckoned {q : Queue} {o : String → Int} {id : String} {f : Worker → Worker}
    {hf : ∀ r, (f r).workerId = r.workerId} {k : Int}
    (fair : ∀ w, q.worker? id = some w → w.Fair q (o id) → (f w).Fair q k)
    (bounded : ∀ w, q.worker? id = some w → w.Fair q (o id) → w.Bounded → (f w).Bounded) :
    Step sha ⟨q, o⟩ (.reckoned id) ⟨q.updateWorker id f hf, Function.update o id k⟩
  | fenced {q : Queue} {o : String → Int} {row : Job} (found : q.job? row.jobId = some row)
    (terminal : row.state.terminal) (agrees : q.fenceAgrees row) :
    Step sha ⟨q, o⟩ (.fenced row.jobId) ⟨q.upsertFence (row.fence jsonDumps), o⟩
  | erased {q : Queue} {o : String → Int} {row : Job} {f : Fence}
    (found : q.job? row.jobId = some row) (terminal : row.state.terminal)
    (fence : q.fence? row.idempotencyKey = some f) (seals : f.Seals row) :
    Step sha ⟨q, o⟩ (.erased row.jobId) ⟨q.deleteJob row.jobId, o⟩
  | dropped {q : Queue} {o : String → Int} {key : String} :
    Step sha ⟨q, o⟩ (.dropped key) ⟨q.deleteIdempotentFence key, o⟩
  | flagged {q : Queue} {o : String → Int} {anchor : Option ClockAnchor} {complete : Bool} :
    Step sha ⟨q, o⟩ .flagged
      ⟨{ q with leaseClockAnchor := anchor, idempotencyBackfillComplete := complete }, o⟩

/-- What a step does to the row of job `id`. -/
inductive RowStep (sha : Sha256) (id : String) : Label → Option Job → Option Job → Prop
  | entered {row : Job} {e : Entry} (named : row.jobId = id) (fresh : row.Fresh)
    (opens : e.Opens row) : RowStep sha id (.entered row e) none (some row)
  | moved {row : Job} {mv : Move} {entry : Option Entry} (named : row.jobId = id)
    (permitted : mv.Permitted row) (silent : mv.silent = entry.isNone)
    (records : ∀ e ∈ entry, e.Records row (mv.apply sha row)) :
    RowStep sha id (.moved id mv entry) (some row) (some (mv.apply sha row))
  | distrusted {row : Job} (active : row.state.active) :
    RowStep sha id .distrusted (some row) (some row.distrustLease)
  | erased {row : Job} (terminal : row.state.terminal) :
    RowStep sha id (.erased id) (some row) none
  | other {l : Label} {row : Option Job} (untouched : l.jobId? ≠ some id) :
    RowStep sha id l row row

theorem Step.row {sha : Sha256} {L L' : Ledger} {l : Label} (h : Step sha L l L') (id : String) :
    RowStep sha id l (L.queue.job? id) (L'.queue.job? id) := by
  cases h with
  | entered absent free fresh opens =>
    rename_i q o row e
    rw [Queue.job?_journalize, Queue.job?_insertRow absent]
    by_cases hid : id = row.jobId
    · subst hid
      rw [absent, if_pos rfl]
      exact .entered rfl fresh opens
    · rw [if_neg hid]
      exact .other (by simpa [Label.jobId?] using Ne.symm hid)
  | moved found permitted known silent records agrees =>
    rename_i q o row mv entry
    rw [Queue.job?_enact]
    by_cases hid : id = row.jobId
    · subst hid
      rw [if_pos rfl, found]
      exact .moved rfl permitted silent records
    · rw [if_neg hid]
      exact .other (by simpa [Label.jobId?] using Ne.symm hid)
  | distrusted =>
    rename_i q o
    rw [Queue.job?_distrustLeases]
    cases hr : q.job? id with
    | none => exact .other (by simp [Label.jobId?])
    | some row =>
      by_cases ha : row.state.active
      · simpa [ha] using RowStep.distrusted ha
      · simpa [ha] using RowStep.other (by simp [Label.jobId?])
  | erased found terminal fence seals =>
    rename_i q o row f
    rw [Queue.job?_deleteJob found terminal]
    by_cases hid : id = row.jobId
    · subst hid
      rw [if_pos rfl, found]
      exact .erased terminal
    · rw [if_neg hid]
      exact .other (by simpa [Label.jobId?] using Ne.symm hid)
  | fenced found terminal agrees =>
    simp only [Queue.job?, Queue.jobs_upsertFence]
    exact .other (by simp [Label.jobId?])
  | enrolled | redeclared | reckoned | dropped | flagged =>
    exact .other (by simp [Label.jobId?])

theorem Step.journal {sha : Sha256} {L L' : Ledger} {l : Label} (h : Step sha L l L')
    (id : String) :
    L'.queue.journal id = l.journalAfter id (L.queue.journal id) L.queue.nextEventId := by
  cases h with
  | entered absent free fresh opens =>
    rename_i q o row e
    rw [Queue.journal_journalize, opens.1]
    by_cases hid : row.jobId = id <;>
      simp [Label.journalAfter, Label.jobId?, Label.record, hid, Queue.insertRow, Queue.journal]
  | moved found permitted known silent records agrees =>
    rename_i q o row mv entry
    rw [Queue.enact, Queue.journal_settle]
    cases entry with
    | none => by_cases hid : row.jobId = id <;>
        simp [Label.journalAfter, Label.jobId?, Label.record, hid, Queue.journal]
    | some e =>
      have named := (records e rfl).1
      by_cases hid : row.jobId = id <;>
        simp [Label.journalAfter, Label.jobId?, Label.record, named, hid, Queue.journal]
  | erased found terminal fence seals =>
    rename_i q o row f
    rw [Queue.journal_deleteJob found terminal]
    by_cases hid : id = row.jobId
    · simp [Label.journalAfter, Label.jobId?, Label.record, hid]
    · simp [Label.journalAfter, Label.jobId?, hid, Ne.symm hid]
  | fenced found terminal agrees =>
    simp [Label.journalAfter, Label.jobId?, Queue.journal]
  | distrusted | enrolled | redeclared | reckoned | dropped | flagged =>
    simp [Label.journalAfter, Label.jobId?, Queue.journal, Queue.distrustLeases,
      Queue.insertWorker]

end Arenyxa.Distributed
