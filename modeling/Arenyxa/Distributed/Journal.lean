import Arenyxa.Distributed.Runs

/-! The journal of a job in reachable states: a path through the permitted transitions, and the
newest events of the job as far as every insertion trims. -/

namespace Arenyxa.Distributed

open Outcome Retention

/-- Event numbers grow along a journal and stay below the next one. -/
structure Numbered (log : List JobEvent) (n : Nat) : Prop where
  increasing : log.Pairwise fun e e' => e.eventId < e'.eventId
  below : ∀ e ∈ log, e.eventId < n

section Numbers

variable {sha : Sha256} {L L' : Ledger} {l : Label} {ls : List Label} {id : String}
  {log : List JobEvent} {n : Nat}

theorem Numbered.append (h : Numbered log n) (m : Recording) (v : EventValues) :
    Numbered (m.append log ⟨v, n⟩) (n + 1) := by
  obtain ⟨k, -, hd⟩ := m.append_eq_drop log ⟨v, n⟩
  rw [hd]
  constructor
  · apply List.Pairwise.drop
    apply List.pairwise_append.mpr
    refine ⟨h.increasing, List.pairwise_singleton _ _, fun e he e' he' => ?_⟩
    rw [List.mem_singleton.mp he']
    exact h.below e he
  · intro e he
    obtain he | he := List.mem_append.mp (List.mem_of_mem_drop he)
    · exact Nat.lt_succ_of_lt (h.below e he)
    · rw [List.mem_singleton.mp he]
      exact Nat.lt_succ_self n

theorem Numbered.mono {m : Nat} (h : Numbered log n) (le : n ≤ m) : Numbered log m :=
  ⟨h.increasing, fun e he => (h.below e he).trans_le le⟩

theorem Step.nextEventId (h : Step sha L l L') :
    L'.queue.nextEventId = L.queue.nextEventId + if l.entry?.isSome then 1 else 0 := by
  cases h with
  | moved found permitted known silent records agrees =>
    rename_i q o row mv entry
    cases entry <;> simp [Label.entry?, Queue.enact, Queue.settle]
  | entered | distrusted | enrolled | redeclared | reckoned | fenced | erased | dropped | flagged =>
    simp [Label.entry?, Queue.insertRow, Queue.insertWorker, Queue.distrustLeases]

theorem Step.numbered (h : Step sha L l L')
    (numbered : Numbered (L.queue.journal id) L.queue.nextEventId) :
    Numbered (L'.queue.journal id) L'.queue.nextEventId := by
  rw [h.journal, h.nextEventId, Label.journalAfter]
  split
  next =>
    cases l with
    | entered row e => exact numbered.append e.recording e.values
    | moved id mv entry =>
      cases entry with
      | none => exact numbered
      | some e => exact numbered.append e.recording e.values
    | erased => exact ⟨List.Pairwise.nil, fun _ he => (List.not_mem_nil he).elim⟩
    | distrusted | enrolled | redeclared | reckoned | fenced | dropped | flagged => exact numbered
  next => exact numbered.mono (Nat.le_add_right _ _)

theorem Label.journalAfter_of_logs (log : List JobEvent) (n : Nat) (h : l.logs id) :
    ∃ entry, l.entry? = some (id, entry) ∧
      l.journalAfter id log n = entry.recording.append log ⟨entry.values, n⟩ := by
  rw [journalAfter, if_pos (jobId?_of_logs h)]
  cases l with
  | entered row e => exact ⟨e, by simpa [logs, entry?] using h, rfl⟩
  | moved id' mv entry =>
    cases entry with
    | none => cases h
    | some e => exact ⟨e, by simpa [logs, entry?] using h, rfl⟩
  | distrusted | enrolled | redeclared | reckoned | fenced | erased | dropped | flagged => cases h

theorem Label.journalAfter_of_quiet (log : List JobEvent) (n : Nat) (h : l.logs id = false)
    (kept : l ≠ .erased id) : l.journalAfter id log n = log := by
  rw [journalAfter]
  split
  next named =>
    cases l with
    | entered row e => simp [logs, entry?, jobId?] at h named; exact absurd named h
    | moved id' mv entry =>
      cases entry with
      | none => rfl
      | some e => simp [logs, entry?, jobId?] at h named; exact absurd named h
    | erased => exact absurd (congrArg Label.erased (Option.some.inj named)) kept
    | distrusted | enrolled | redeclared | reckoned | fenced | dropped | flagged => rfl
  next => rfl

theorem Path.journal (h : Path (Step sha) L ls L') (kept : .erased id ∉ ls) :
    L.queue.nextEventId ≤ L'.queue.nextEventId ∧
    (ls.countP (Label.logs id) = 0 → L'.queue.journal id = L.queue.journal id) ∧
    (ls.countP (Label.logs id) = 1 → ∃ l ∈ ls, ∃ entry n, l.entry? = some (id, entry) ∧
      L.queue.nextEventId ≤ n ∧
      L'.queue.journal id = entry.recording.append (L.queue.journal id) ⟨entry.values, n⟩) := by
  induction h with
  | nil => simp
  | cons step _ ih =>
    rename_i L M L' l ls _
    obtain ⟨le, quiet, one⟩ := ih fun hl => kept (List.mem_cons_of_mem _ hl)
    have number := step.nextEventId
    have journal := step.journal id
    by_cases logs : l.logs id
    · obtain ⟨entry, hentry, after⟩ := Label.journalAfter_of_logs (L.queue.journal id)
        L.queue.nextEventId logs
      rw [List.countP_cons_of_pos logs]
      refine ⟨by omega, fun none => by omega, fun once => ?_⟩
      refine ⟨l, List.mem_cons_self, entry, _, hentry, le_rfl, ?_⟩
      rw [quiet (by omega), journal, after]
    · have quietly : l.logs id = false := by simpa using logs
      rw [Label.journalAfter_of_quiet _ _ quietly fun he => kept (he ▸ List.mem_cons_self)]
        at journal
      rw [List.countP_cons_of_neg logs]
      refine ⟨by omega, fun none => (quiet none).trans journal, fun once => ?_⟩
      obtain ⟨l', hl', entry, n, hentry, below, after⟩ := one once
      exact ⟨l', List.mem_cons_of_mem _ hl', entry, n, hentry, by omega, journal ▸ after⟩

end Numbers

section Paths

variable {env : Env} {b : Backend} {q : Queue}

theorem Sound.numbered {op : Op} {r : Result × Queue} {id : String} (hs : Sound q.opened)
    (h : op.exec env b q = .ok r) (numbered : Numbered (q.journal id) q.nextEventId) :
    Numbered (r.2.journal id) r.2.nextEventId := by
  obtain ⟨ls, ⟨o, path, -⟩, -⟩ := hs.accounted h
  exact path.invariant (P := fun L => Numbered (L.queue.journal id) L.queue.nextEventId)
    (fun _ _ _ _ step => step.numbered) numbered

theorem numbered_reached (env : Env) (b : Backend) (ops : List Op) (id : String) :
    Numbered ((Queue.reached env b ops).journal id) (Queue.reached env b ops).nextEventId := by
  let P (ops : List Op) (q : Queue) : Prop := Numbered (q.journal id) q.nextEventId
  refine Machine.run_induct (M := queueMachine env b) (P := P) ?_ ?_ ?_ ops
  · exact ⟨List.Pairwise.nil, fun _ he => (List.not_mem_nil he).elim⟩
  · exact fun ops op o q' numbered h => (sound_reached env b ops).numbered h numbered
  · exact fun _ _ _ numbered _ => numbered

/-- The retained events of a job, in the order of their numbers, lead from one to the next and
end in its state, along permitted transitions only; and no operation ever asks for another one. -/
theorem journal_is_path (ops : List Op) :
    (∀ row ∈ (Queue.reached env b ops).jobs.rows,
      ((Queue.reached env b ops).journal row.jobId).Pairwise
        (fun e e' => e.eventId < e'.eventId) ∧
      ((Queue.reached env b ops).journal row.jobId).IsChain
        (fun e e' => e'.fromState = some e.toState) ∧
      (∃ e, ((Queue.reached env b ops).journal row.jobId).getLast? = some e ∧
        e.toState = row.state) ∧
      ∀ e ∈ (Queue.reached env b ops).journal row.jobId,
        (e.fromState, e.toState) ∈ allowedJobTransitions) ∧
    ∀ (op : Op) (e : QueueError), op.exec env b (Queue.reached env b ops) = .error e →
      e.code ≠ "DISTRIBUTED_STATE_TRANSITION_INVALID" := by
  have sound := sound_reached env b ops
  refine ⟨fun row hrow => ?_, fun op e raised => (sound.benign raised).1⟩
  have chained := sound.chained row.jobId
  rw [show (Queue.reached env b ops).opened.queue.job? row.jobId = some row from
    Queue.mem_jobs_iff.mp hrow] at chained
  obtain ⟨e, last, state⟩ := Option.map_eq_some_iff.mp chained.last
  exact ⟨(numbered_reached env b ops row.jobId).increasing, chained.path, ⟨e, last, state⟩,
    chained.allowed⟩

end Paths

section Bounds

variable {env : Env} {b : Backend} {q q' : Queue} {op : Op} {r : Result × Queue} {id : String}

/-- The events a step adds to the journal of a job. -/
def newEvents (q q' : Queue) (id : String) : List JobEvent :=
  (q'.journal id).filter fun e => q.nextEventId ≤ e.eventId

/-- Every event of a job that a run has recorded, retained or not. -/
def eventLog (env : Env) (b : Backend) (id : String) : Queue → List Op → List JobEvent
  | _, [] => []
  | q, op :: ops =>
    newEvents q ((queueMachine env b).next q op) id ++
      eventLog env b id ((queueMachine env b).next q op) ops

theorem eventLog_append (q : Queue) (ops ops' : List Op) :
    eventLog env b id q (ops ++ ops') =
      eventLog env b id q ops ++ eventLog env b id ((queueMachine env b).run q ops) ops' := by
  induction ops generalizing q with
  | nil => rfl
  | cons op ops ih =>
    rw [List.cons_append, eventLog, ih, ← List.append_assoc]
    rfl

theorem Numbered.newEvents_eq_nil (h : Numbered (q.journal id) q.nextEventId)
    (same : q'.journal id = q.journal id) : newEvents q q' id = [] := by
  rw [newEvents, same, List.filter_eq_nil_iff]
  intro e he
  have below := h.below e he
  simp only [decide_eq_true_eq]
  omega

theorem Recording.mem_append (m : Recording) (log : List JobEvent) (e : JobEvent) :
    ∃ kept, m.append log e = kept ++ [e] ∧ ∀ x ∈ kept, x ∈ log := by
  obtain ⟨k, hk, hd⟩ := m.append_eq_drop log e
  exact ⟨log.drop k, by rw [hd, List.drop_append_of_le_length hk],
    fun _ hx => List.mem_of_mem_drop hx⟩

theorem Numbered.newEvents_eq_singleton (h : Numbered (q.journal id) q.nextEventId)
    {m : Recording} {e : JobEvent} (new : q.nextEventId ≤ e.eventId)
    (after : q'.journal id = m.append (q.journal id) e) : newEvents q q' id = [e] := by
  obtain ⟨kept, shape, old⟩ := m.mem_append (q.journal id) e
  rw [newEvents, after, shape, List.filter_append, List.filter_eq_nil_iff.mpr]
  · simp [new]
  · intro x hx
    have below := h.below x (old x hx)
    simp only [decide_eq_true_eq]
    omega

theorem Recording.append_newest {m : Recording} {log : List JobEvent} {e : JobEvent}
    (room : m = .appended → (log.rtake maxJobEventsPerJob).length < maxJobEventsPerJob) :
    m.append (log.rtake maxJobEventsPerJob) e = (log ++ [e]).rtake maxJobEventsPerJob := by
  cases m with
  | kept b => exact rtake_rtake_append (Nat.le_add_right _ _)
  | appended =>
    have short := room rfl
    rw [length_rtake] at short
    have all : log.rtake maxJobEventsPerJob = log := rtake_of_length_le (by omega)
    rw [all, rtake_of_length_le]
    · rfl
    · rw [List.length_append, List.length_singleton]
      omega

theorem Account.not_erased {ls : List Label} {result : Result}
    (account : Account env b q op ls result) (transaction : Transaction env.sha q ls q')
    (present : (q'.job? id).isSome)
    (drawn : op.created? = some id → q.job? id = none) : .erased id ∉ ls := by
  intro erased
  obtain ⟨ls₁, ls₂, o, o', rfl, before, step, after⟩ := (transaction.row id).split erased
  cases step with
  | other untouched => exact untouched rfl
  | erased terminal =>
    have created : op.created? = some id := by
      refine after.invariant (P := fun o => o.isSome → op.created? = some id) ?_ (by simp) present
      intro o l o' hl step hold some
      have emits := account.emits l (by simp [hl])
      cases step with
      | entered named => exact named ▸ emits.entered
      | moved | distrusted => exact hold rfl
      | erased => cases some
      | other => exact hold some
    cases op with
    | enqueue a =>
      have queued := before.invariant (P := fun o => ∀ row, o = some row → row.Fresh)
        (fun o l o' hl step => (account.emits l (by simp [hl])).fresh step)
        (by simp [drawn created]) _ rfl
      rw [queued.queued] at terminal
      cases terminal
    | _ => cases created

theorem Sound.recorded_newest (hs : Sound q.opened) (h : op.exec env b q = .ok r)
    (numbered : Numbered (q.journal id) q.nextEventId) (present : (r.2.job? id).isSome)
    (drawn : op.created? = some id → q.job? id = none)
    (room : op.fastJob? env b q = some id → (q.journal id).length < maxJobEventsPerJob)
    {log : List JobEvent} (newest : q.journal id = log.rtake maxJobEventsPerJob) :
    r.2.journal id = (log ++ newEvents q r.2 id).rtake maxJobEventsPerJob := by
  obtain ⟨ls, transaction, account⟩ := hs.accounted h
  have kept := account.not_erased transaction present drawn
  obtain ⟨o, path, -⟩ := transaction
  obtain ⟨-, quiet, one⟩ := Path.journal path kept
  dsimp only [Queue.opened] at quiet one
  obtain none | once : ls.countP (Label.logs id) = 0 ∨ ls.countP (Label.logs id) = 1 := by
    have := account.once id
    omega
  · rw [numbered.newEvents_eq_nil (quiet none), List.append_nil, quiet none, newest]
  · obtain ⟨l, hl, entry, n, hentry, below, after⟩ := one once
    rw [numbered.newEvents_eq_singleton below after, after, newest]
    apply Recording.append_newest
    intro appended
    have fast := (account.recorded l hl _ hentry).resolve_left (by simp [appended])
    rw [← newest]
    exact room fast


theorem Sound.journal_eq_nil (hs : Sound q.opened) (absent : q.job? id = none) :
    q.journal id = [] := by
  have last := (hs.chained id).last
  rw [show q.opened.queue.job? id = none from absent] at last
  simpa [Queue.opened] using last

theorem journal_inserted (before : Queue) (v : EventValues) (events : before.events = q.events)
    (present : (before.job? v.jobId).isSome) :
    ∃ e, (before.insertEvent v).journal v.jobId = q.journal v.jobId ++ [e] ∧
      ((before.insertEvent v).job? v.jobId).isSome := by
  refine ⟨⟨v, before.nextEventId⟩, ?_, present⟩
  rw [Queue.journal_insertEvent, if_pos rfl, Queue.journal, Queue.journal, events]

theorem job?_updateJob_isSome {row : Job} {f : Job → Job} {hf : ∀ r, (f r).jobId = r.jobId}
    (found : q.job? id = some row) : ((q.updateJob id f hf).job? id).isSome := by
  rw [Queue.job?_updateJob, if_pos rfl, found]
  rfl

theorem leaseNextFast_journal {worker : String} {duration : Int} {d : Draw}
    {granted : DistributedLease × Queue} (h : q.leaseNextFast env worker duration d = some granted) :
    ∃ e, granted.2.journal granted.1.jobId = q.journal granted.1.jobId ++ [e] ∧
      (granted.2.job? granted.1.jobId).isSome := by
  unfold Queue.leaseNextFast at h
  split at h
  · cases h
  split at h
  · split at h
    · cases h
    next row candidate =>
      obtain ⟨found, -⟩ := leaseCandidate_queued candidate
      obtain rfl := Option.some.inj h
      have there : ((q.grantRow env worker duration d row).job? row.jobId).isSome := by
        rw [Queue.grantRow]
        exact job?_updateJob_isSome found
      exact journal_inserted _ _ rfl there
  · cases h

theorem startJobFast_journal {c : LeaseCall} (h : q.startJobFast env c = some q') :
    ∃ e, q'.journal c.jobId = q.journal c.jobId ++ [e] ∧ (q'.job? c.jobId).isSome := by
  unfold Queue.startJobFast at h
  split at h
  · cases h
  next row found =>
    split at h
    · obtain rfl := Option.some.inj h
      exact journal_inserted _ _ rfl (job?_updateJob_isSome found)
    · cases h

theorem completeFast_journal {c : LeaseCall} {json resultSha : String}
    (h : q.completeFast env c json resultSha = some q') :
    ∃ e, q'.journal c.jobId = q.journal c.jobId ++ [e] ∧ (q'.job? c.jobId).isSome := by
  unfold Queue.completeFast at h
  split at h
  · cases h
  next row found =>
    dsimp only at h
    split at h
    · obtain rfl := Option.some.inj h
      refine journal_inserted _ (completedEvent c resultSha row.state) (by simp) ?_
      rw [Queue.job?_updateWorker, Queue.job?, Queue.jobs_upsertFence]
      exact job?_updateJob_isSome found
    · cases h

theorem journal_of_fastJob? (fast : op.fastJob? env b q = some id) (h : op.exec env b q = .ok r) :
    ∃ e, r.2.journal id = q.journal id ++ [e] ∧ (r.2.job? id).isSome := by
  cases op with
  | leaseNext fallback worker seconds d =>
    cases fallback <;> simp [Op.fastJob?] at fast
    obtain ⟨rfl, lease, ⟨q', hfast⟩, rfl⟩ := fast
    simp only [Op.exec, returning, Queue.leaseNext, bind_eq_ok] at h
    rw [if_pos (by simp), hfast] at h
    obtain ⟨_, h, hr⟩ := h
    cases h
    cases hr
    exact leaseNextFast_journal hfast
  | startJob fallback c =>
    cases fallback <;> simp [Op.fastJob?] at fast
    obtain ⟨⟨rfl, found⟩, rfl⟩ := fast
    obtain ⟨q', hfast⟩ := Option.isSome_iff_exists.mp found
    simp only [Op.exec, silently, Queue.startJob, bind_eq_ok] at h
    rw [if_pos (by simp), hfast] at h
    obtain ⟨_, h, hr⟩ := h
    cases h
    cases hr
    exact startJobFast_journal hfast
  | complete fallback c result =>
    cases fallback <;> simp [Op.fastJob?] at fast
    obtain ⟨⟨rfl, found⟩, rfl⟩ := fast
    obtain ⟨q', hfast⟩ := Option.isSome_iff_exists.mp found
    simp only [Op.exec, silently, Queue.complete, bind_eq_ok] at h
    obtain ⟨_, ⟨json, bounded, h⟩, hr⟩ := h
    obtain ⟨rfl, hsha⟩ : json = (result.canonical, env.sha.hexdigest result.canonical) ∧ True :=
      ⟨Prod.ext (boundedJson_sat.of_ok bounded).1 (boundedJson_sat.of_ok bounded).2, trivial⟩
    rw [if_pos (by simp), hfast] at h
    cases h
    cases hr
    exact completeFast_journal hfast
  | _ => cases fast

end Bounds

/-! A run with each held digest read from its text once: the kernel would decode the text again at
every comparison. -/

section Decoding

def decoded {α : Type} (s : String) (k : String → α) : α :=
  match s with
  | ⟨bytes, valid⟩ => k ⟨bytes, valid⟩

namespace Queue

def requireLeaseDecoded (env : Env) (q : Queue) (c : LeaseCall) : Except QueueError Job :=
  match q.job? c.jobId with
  | none => .error jobUnknown
  | some row => do
    require (q.workerMayAct c.workerId ∧ row.state.active ∧ row.leaseWorkerId = c.workerId)
      leaseNotOwned
    decoded row.leaseTokenSha256 fun held => do
      require (held ≠ "") leaseTokenInvalid
      let same ← compareDigest held (env.sha.hexdigest c.leaseToken)
      require same leaseTokenInvalid
      require (c.now < row.leaseExpiresAt) (leaseExpired c row.leaseExpiresAt)
      require (row.leaseExpiresAt ≤ leaseHorizon c.now) (leaseTimeInvalid c row.leaseExpiresAt)
      return row

theorem startSideEffect_jobId (c : LeaseCall) : ∀ r : Job, (r.startSideEffect c.utc).jobId = r.jobId :=
  fun _ => rfl

theorem release_jobId (target : JobState) (code : String) (c : LeaseCall) :
    ∀ r : Job, (r.release target code c.utc).jobId = r.jobId :=
  fun _ => rfl

theorem returnSlot_workerId (c : LeaseCall) : ∀ w : Worker, (w.returnSlot c.later c.utc).workerId = w.workerId :=
  fun _ => rfl

def markDecoded (env : Env) (b : Backend) (c : LeaseCall) (q : Queue) : Except QueueError Queue := do
  let row ← q.requireLeaseDecoded env c
  if row.sideEffectMode = .nonIdempotent then do
    require (row.sideEffectState ≠ .started) (sideEffectAlreadyStarted c)
    decoded row.leaseTokenSha256 fun held => do
      require (row.leaseWorkerId = c.workerId ∧ held = env.sha.hexdigest c.leaseToken)
        (sideEffectFenceConflict c)
      (q.updateJob c.jobId (·.startSideEffect c.utc) (startSideEffect_jobId c)).recordEventLocked b
        { jobId := c.jobId, eventType := .sideEffectStarted, fromState := row.state,
          toState := row.state, workerId := c.workerId, code := "NON_IDEMPOTENT_FENCE",
          createdAt := c.utc }
  else return q

def failDecoded (env : Env) (b : Backend) (c : LeaseCall) (errorCode : String) (retryable : Bool)
    (q : Queue) : Except QueueError (JobState × Queue) := do
  let code ← cleanToken (if errorCode = "" then "WORKER_EXECUTION_FAILED" else errorCode)
    "error code" 128
  let row ← q.requireLeaseDecoded env c
  let target := row.releaseTarget retryable
  let recorded ← (q.updateJob c.jobId (·.release target code c.utc) (release_jobId target code c)).recordEventLocked b
    { jobId := c.jobId, eventType := .executionFailed, fromState := row.state, toState := target,
      workerId := c.workerId, code := code,
      details := [("retryable", .flag retryable), ("attempt", .int row.attempt),
        ("max_attempts", .int row.maxAttempts)], createdAt := c.utc }
  return (target, recorded.updateWorker c.workerId (·.returnSlot c.later c.utc) (returnSlot_workerId c))

end Queue

def Op.execDecoded (env : Env) (b : Backend) (op : Op) (q : Queue) :
    Except QueueError (Result × Queue) :=
  match op with
  | .markSideEffectStarted c => silently (q.markDecoded env b c)
  | .fail c errorCode retryable => returning .state (q.failDecoded env b c errorCode retryable)
  | op => op.exec env b q

theorem queueMachine_decoded (env : Env) (b : Backend) :
    queueMachine env b = ⟨Op.execDecoded env b⟩ :=
  congrArg Machine.mk (funext fun op => funext fun q => by cases op <;> rfl)

end Decoding

section Runs

variable {env : Env} {b : Backend}

/-- The journal of a job is the end of its log. A name that was not drawn yet has neither. -/
def Newest (env : Env) (b : Backend) (id : String) (ops : List Op) (q : Queue) : Prop :=
  (q.job? id).isSome ∨ id ∉ ops.filterMap Op.created? →
    q.journal id = (eventLog env b id .empty ops).rtake maxJobEventsPerJob

theorem newest_commit {id : String} {ops : List Op} {op : Op} {r : Result × Queue}
    (fresh : FreshIds (ops ++ [op])) (h : op.exec env b (Queue.reached env b ops) = .ok r)
    (room : op.fastJob? env b (Queue.reached env b ops) = some id →
      ((Queue.reached env b ops).journal id).length < maxJobEventsPerJob)
    (newest : Newest env b id ops (Queue.reached env b ops)) :
    Newest env b id (ops ++ [op]) r.2 := by
  intro there
  have sound := sound_reached env b ops
  have numbered := numbered_reached env b ops id
  have log : eventLog env b id .empty (ops ++ [op]) =
      eventLog env b id .empty ops ++ newEvents (Queue.reached env b ops) r.2 id := by
    rw [eventLog_append, eventLog, eventLog, Machine.next_ok h, List.append_nil]
    rfl
  have undrawn (unborn : id ∉ ops.filterMap Op.created?) :
      (Queue.reached env b ops).job? id = none :=
    Option.not_isSome_iff_eq_none.mp fun found => unborn (mem_created_of_job? found)
  have unborn (created : op.created? = some id) : id ∉ ops.filterMap Op.created? := fun drawn =>
    fresh.not_created drawn (List.mem_singleton_self op) created
  rw [log]
  by_cases present : (r.2.job? id).isSome
  · refine sound.recorded_newest h numbered present (fun created => undrawn (unborn created)) room
      (newest ?_)
    exact ((sound.accounted h).job?_isSome present).imp_right unborn
  · have notDrawn := there.resolve_left present
    have unborn : id ∉ ops.filterMap Op.created? := fun drawn =>
      notDrawn (mem_created_snoc.mpr (.inl drawn))
    have before := sound.journal_eq_nil (undrawn unborn)
    have after := (sound.exec h).journal_eq_nil (Option.not_isSome_iff_eq_none.mp present)
    rw [numbered.newEvents_eq_nil (after.trans before.symm), List.append_nil,
      ← newest (.inr unborn), before, after]

theorem newest_reached (env : Env) (b : Backend) {ops : List Op} (fresh : FreshIds ops)
    (room : ∀ x ∈ Queue.history env b ops, ∀ id ∈ x.2.1.fastJob? env b x.1,
      (x.1.journal id).length < maxJobEventsPerJob) (id : String) :
    Newest env b id ops (Queue.reached env b ops) := by
  revert fresh room
  let P (ops : List Op) (q : Queue) : Prop := FreshIds ops →
    (∀ x ∈ Queue.history env b ops, ∀ id ∈ x.2.1.fastJob? env b x.1,
      (x.1.journal id).length < maxJobEventsPerJob) → Newest env b id ops q
  refine Machine.run_induct (M := queueMachine env b) (P := P) ?_ ?_ ?_ ops
  · exact fun _ _ _ => (rtake_of_length_le (Nat.zero_le _)).symm
  · intro ops op o q' ih h fresh room
    have history : Queue.history env b (ops ++ [op]) = _ := Machine.commits_snoc_ok h
    rw [history] at room
    refine newest_commit fresh h ?_ (ih fresh.left fun x hx => room x (List.mem_append_left _ hx))
    exact fun fast => room _ (List.mem_append_right _ (List.mem_singleton_self _)) id fast
  · intro ops op e ih h fresh room there
    have history : Queue.history env b (ops ++ [op]) = _ := Machine.commits_snoc_error h
    rw [history] at room
    have numbered := numbered_reached env b ops id
    rw [eventLog_append, eventLog, eventLog, Machine.next_error h,
      show newEvents ((queueMachine env b).run .empty ops) ((queueMachine env b).run .empty ops) id =
        [] from numbered.newEvents_eq_nil rfl, List.append_nil, List.append_nil]
    exact ih fresh.left room
      (there.imp_right fun notDrawn drawn => notDrawn (mem_created_snoc.mpr (.inl drawn)))

/-- All along a run the retained events of every job are its newest, up to the bound, exactly if
every single statement finds room for its event. -/
theorem journal_bounded_iff (ops : List Op) (fresh : FreshIds ops) :
    (∀ before after, ops = before ++ after → ∀ row ∈ (Queue.reached env b before).jobs.rows,
      ((Queue.reached env b before).journal row.jobId).length ≤ maxJobEventsPerJob ∧
      (Queue.reached env b before).journal row.jobId =
        (eventLog env b row.jobId .empty before).rtake maxJobEventsPerJob) ↔
    ∀ x ∈ Queue.history env b ops, ∀ id ∈ x.2.1.fastJob? env b x.1,
      (x.1.journal id).length < maxJobEventsPerJob := by
  constructor
  · rintro bounded ⟨q, op, result⟩ hx id fast
    obtain ⟨pre, post, split⟩ := List.append_of_mem hx
    obtain ⟨before, after, q', rfl, rfl, -, h, -⟩ := Machine.commits_split split
    obtain ⟨e, journal, present⟩ := journal_of_fastJob? fast h
    obtain ⟨row, found⟩ := Option.isSome_iff_exists.mp present
    have next : Queue.reached env b (before ++ [op]) = q' := Machine.run_snoc_ok h
    have named := Queue.job?_jobId found
    have short := (bounded (before ++ [op]) after (by simp) row
      (next ▸ (Table.get?_some_iff.mp found).1)).1
    rw [next, named] at short
    dsimp only at journal short ⊢
    rw [journal, List.length_append, List.length_singleton] at short
    exact short
  · rintro room before after rfl row hrow
    have found : (Queue.reached env b before).job? row.jobId = some row := Queue.mem_jobs_iff.mp hrow
    have newest := newest_reached env b fresh.left (fun x hx => room x (by
      rw [Queue.history, Machine.commits_append]
      exact List.mem_append_left _ hx)) row.jobId (.inl (by simp [found]))
    refine ⟨?_, newest⟩
    rw [newest, length_rtake]
    exact Nat.min_le_left _ _

/-- One lease of a job, its mark, its failure and the operator's approval. -/
def markedRound : List Op :=
  [sampleLease "w" "token-a", .markSideEffectStarted (sampleCall "job" "w" "token-a"),
    .fail (sampleCall "job" "w" "token-a") "" true, .retryReviewRequired "job" "2030-01-01"]

def markedRounds (n : Nat) : List Op :=
  [sampleWorker "w" 1, sampleJob "job" "key" "non_idempotent"] ++
    (List.replicate n markedRound).flatten

def markedRow : Job :=
  ((Queue.reached sampleEnv .postgresql (markedRounds 1)).job? "job").get (by decide +kernel)

theorem journal_bounded_iff_sample :
    ((Queue.reached sampleEnv .postgresql (markedRounds 1)).journal markedRow.jobId).length ≤
        maxJobEventsPerJob ∧
      (Queue.reached sampleEnv .postgresql (markedRounds 1)).journal markedRow.jobId =
        (eventLog sampleEnv .postgresql markedRow.jobId .empty (markedRounds 1)).rtake
          maxJobEventsPerJob :=
  (journal_bounded_iff (markedRounds 1) (by decide)).mpr (by decide +kernel) _ [] (by simp)
    markedRow (Table.get?_some_iff.mp (Option.some_get _).symm).1

/-- The last grant is a single statement that finds a full journal. -/
theorem journal_overflow :
    ((Queue.reached sampleEnv .postgresql
      (markedRounds 32 ++ [sampleLease "w" "token-a"])).journal "job").length = 129 := by
  rw [Queue.reached, queueMachine_decoded]
  decide +kernel

end Runs

end Arenyxa.Distributed
