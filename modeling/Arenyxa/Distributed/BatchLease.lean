import Arenyxa.Distributed.Runs

/-! A batch of leases against one lease after the other, on SQLite and between two recovery sweeps. -/

namespace Arenyxa.Distributed

open Outcome QueueError

/-- A row without the token of its lease and without the readings of the clocks. -/
def Job.plain (worker : String) (row : Job) : Job :=
  if row.state = .leased ∧ row.leaseWorkerId = worker then
    { row with leaseTokenSha256 := "", leaseExpiresAt := 0, updatedAt := "" }
  else row

def Worker.plain (worker : String) (w : Worker) : Worker :=
  if w.workerId = worker then { w with heartbeatAt := 0, updatedAt := "" } else w

def DistributedLease.plain (lease : DistributedLease) : DistributedLease :=
  { lease with leaseToken := "", leaseExpiresAt := 0 }

namespace Queue

/-- `lease_next` until it returns nothing, and so many times at most. -/
def leaseRepeatedly (env : Env) (worker : String) (leaseSeconds : Int) (draws : Nat → Draw) :
    Nat → List DistributedLease → Queue → Except QueueError (List DistributedLease × Queue)
  | 0, leases, q => .ok (leases, q)
  | calls + 1, leases, q => do
    let r ← q.leaseNext env .sqlite false worker leaseSeconds (draws leases.length)
    match r.1 with
    | none => return (leases, r.2)
    | some lease =>
      leaseRepeatedly env worker leaseSeconds draws calls (leases ++ [lease]) r.2

/-- The same rows, up to what a grant to the worker draws. -/
structure Alike (worker : String) (q q' : Queue) : Prop where
  jobs : q.jobs.rows.map (Job.plain worker) = q'.jobs.rows.map (Job.plain worker)
  workers : q.workers.rows.map (Worker.plain worker) = q'.workers.rows.map (Worker.plain worker)

end Queue

/-- The same leases in the same order, over the same rows. -/
def SameLeases (worker : String) :
    Except QueueError (List DistributedLease × Queue) →
      Except QueueError (List DistributedLease × Queue) → Prop
  | .ok (leases, q), .ok (leases', q') =>
    leases.map DistributedLease.plain = leases'.map DistributedLease.plain ∧ q.Alike worker q'
  | .error e, .error e' => e = e'
  | _, _ => False

section Alike

variable {env : Env} {q q' : Queue} {worker : String} {row : Job} {d d' : Draw}

theorem Queue.Alike.refl (q : Queue) (worker : String) : q.Alike worker q := ⟨rfl, rfl⟩

theorem Job.plain_of_queued (queued : row.state = .queued) : row.plain worker = row := by
  rw [Job.plain, if_neg]
  rintro ⟨leased, -⟩
  rw [queued] at leased
  cases leased

@[simp] theorem Job.plain_jobId : (row.plain worker).jobId = row.jobId := by
  rw [Job.plain]
  split <;> rfl

@[simp] theorem Job.plain_state : (row.plain worker).state = row.state := by
  rw [Job.plain]
  split <;> rfl

@[simp] theorem Job.plain_protocolVersion : (row.plain worker).protocolVersion = row.protocolVersion := by
  rw [Job.plain]
  split <;> rfl

@[simp] theorem Worker.plain_workerId {w : Worker} : (w.plain worker).workerId = w.workerId := by
  rw [Worker.plain]
  split <;> rfl

theorem Job.plain_lease {duration : Int} :
    (d.lease env worker duration row).plain worker =
      (d'.lease env worker duration (row.plain worker)).plain worker := by
  rw [Job.plain, if_pos ⟨rfl, rfl⟩, Job.plain.eq_def worker (d'.lease env worker duration _),
    if_pos ⟨rfl, rfl⟩, Job.plain]
  split <;> rfl

theorem Worker.plain_claimSlot {w : Worker} {heartbeat heartbeat' : ℚ} {utc utc' : String}
    (named : w.workerId = worker) :
    (w.claimSlot heartbeat utc).plain worker =
      ((w.plain worker).claimSlot heartbeat' utc').plain worker := by
  have named' : ((w.plain worker).claimSlot heartbeat' utc').workerId = worker :=
    Worker.plain_workerId.trans named
  rw [Worker.plain, if_pos (show (w.claimSlot heartbeat utc).workerId = worker from named),
    Worker.plain.eq_def worker (Worker.claimSlot heartbeat' utc' _), if_pos named', Worker.plain,
    if_pos named]
  rfl

theorem Queue.Alike.leaseCandidate (h : q.Alike worker q') (lo hi : Int) (tie : Nat) :
    q.leaseCandidate lo hi tie = q'.leaseCandidate lo hi tie := by
  let waits (row : Job) : Bool :=
    decide (row.state = .queued ∧ lo ≤ row.protocolVersion ∧ row.protocolVersion ≤ hi)
  have plain (rows : List Job) : rows.filter waits = (rows.map (Job.plain worker)).filter waits := by
    have kept : waits ∘ Job.plain worker = waits := by
      funext row
      simp [waits]
    rw [List.filter_map, kept]
    refine Eq.symm ((List.map_congr_left fun row mem => ?_).trans (List.map_id _))
    exact Job.plain_of_queued (of_decide_eq_true (List.mem_filter.mp mem).2).1
  have same : q.leaseCandidates lo hi = q'.leaseCandidates lo hi := by
    show q.jobs.rows.filter waits = q'.jobs.rows.filter waits
    rw [plain, h.jobs, ← plain]
  rw [Queue.leaseCandidate, Queue.leaseCandidate, same]

theorem Queue.Alike.worker? (h : q.Alike worker q') :
    (q.worker? worker).map (Worker.plain worker) = (q'.worker? worker).map (Worker.plain worker) := by
  have plain (t : Table Worker) : (t.get? worker).map (Worker.plain worker) =
      (t.rows.map (Worker.plain worker)).find? fun w => w.workerId = worker := by
    have kept : (fun w : Worker => decide (w.workerId = worker)) ∘ Worker.plain worker =
        fun w => decide (Keyed.key w = worker) := by
      funext w
      simp [Keyed.key]
    rw [List.find?_map, kept]
    rfl
  rw [Queue.worker?, plain, h.workers, ← plain, Queue.worker?]

theorem Queue.Alike.grant (h : q.Alike worker q') {duration : Int} {v v' : EventValues} {n n' : Nat} :
    Queue.Alike worker
      (((q.grantRow env worker duration d row).updateWorker worker
        (·.claimSlot d.heartbeat d.utc)).recordEvent .sqlite v n)
      (((q'.grantRow env worker duration d' row).updateWorker worker
        (·.claimSlot d'.heartbeat d'.utc)).recordEvent .sqlite v' n') := by
  constructor
  · have moved (q : Queue) (d : Draw) : ((q.grantRow env worker duration d row).jobs.rows.map
        (Job.plain worker)) = (q.jobs.rows.map (Job.plain worker)).map fun r =>
          if r.jobId = row.jobId then (d'.lease env worker duration r).plain worker else r := by
      show (q.jobs.rows.map _).map _ = _
      rw [List.map_map, List.map_map]
      refine List.map_congr_left fun r _ => ?_
      by_cases own : r.jobId = row.jobId
      · simp only [Function.comp, Keyed.key, own, decide_true, if_true, Job.plain_jobId]
        exact Job.plain_lease
      · simp only [Function.comp, Keyed.key, own, decide_false, Bool.false_eq_true, if_false,
          Job.plain_jobId]
    simp only [Queue.jobs_recordEvent, Queue.jobs_updateWorker]
    rw [moved, moved, h.jobs]
  · have claimed (q : Queue) (d : Draw) (grown : Queue) (same : grown.workers = q.workers) :
        ((grown.updateWorker worker (·.claimSlot d.heartbeat d.utc)).workers.rows.map
        (Worker.plain worker)) = (q.workers.rows.map (Worker.plain worker)).map fun w =>
          if w.workerId = worker then (w.claimSlot d'.heartbeat d'.utc).plain worker else w := by
      show (grown.workers.rows.map _).map _ = _
      rw [same, List.map_map, List.map_map]
      refine List.map_congr_left fun w _ => ?_
      by_cases own : w.workerId = worker
      · simp only [Function.comp, Keyed.key, own, decide_true, if_true, Worker.plain_workerId]
        exact Worker.plain_claimSlot own
      · simp only [Function.comp, Keyed.key, own, decide_false, Bool.false_eq_true, if_false,
          Worker.plain_workerId]
    simp only [Queue.workers_recordEvent]
    have left := claimed q d (q.grantRow env worker duration d row) rfl
    have right := claimed q' d' (q'.grantRow env worker duration d' row) rfl
    rw [← h.workers] at right
    exact left.trans right.symm

theorem recordEventLocked_leased (q : Queue) (row : Job) (details : Details) :
    q.recordEventLocked .sqlite (leasedEvent worker d row details) =
      .ok (q.recordEvent .sqlite (leasedEvent worker d row details).stored maxJobEventsPerJob) := by
  have allowed : (some JobState.queued, JobState.leased) ∈ allowedJobTransitions := by decide
  simp only [Queue.recordEventLocked, leasedEvent, require, allowed, if_true, bind, Except.bind,
    Queue.fenceTerminal]
  rfl

end Alike

section Grant

variable {env : Env} {q : Queue} {worker : String} {seconds duration : Int} {d : Draw} {w : Worker} {row : Job}

theorem claimSlot_workerId (d : Draw) : ∀ w : Worker, (w.claimSlot d.heartbeat d.utc).workerId = w.workerId :=
  fun _ => rfl

/-- The tables after a grant on SQLite. -/
def Queue.granted (env : Env) (worker : String) (duration : Int) (d : Draw) (row : Job) (batch : Bool)
    (q : Queue) : Queue :=
  ((q.grantRow env worker duration d row).updateWorker worker
    (·.claimSlot d.heartbeat d.utc) (claimSlot_workerId d)).recordEvent .sqlite
      (leasedEvent worker d row (leasedDetails row duration batch)).stored maxJobEventsPerJob

theorem Queue.worker?_granted {batch : Bool} (found : q.worker? worker = some w) :
    (q.granted env worker duration d row batch).worker? worker =
      some (w.claimSlot d.heartbeat d.utc) := by
  have claimed : ((q.grantRow env worker duration d row).updateWorker worker
      (·.claimSlot d.heartbeat d.utc)).worker? worker = some (w.claimSlot d.heartbeat d.utc) := by
    rw [Queue.worker?_updateWorker, if_pos rfl, Queue.grantRow, Queue.worker?_updateJob, found]
    rfl
  rw [← claimed, Queue.granted, Queue.worker?, Queue.workers_recordEvent]
  rfl

theorem claimWorkerSlot_grantRow (found : q.worker? worker = some w) (active : w.state = .active)
    (free : w.activeLeases < w.maxSlots) :
    (q.grantRow env worker duration d row).claimWorkerSlot worker d.heartbeat d.utc =
      some ((q.grantRow env worker duration d row).updateWorker worker
        (·.claimSlot d.heartbeat d.utc)) := by
  rw [Queue.claimWorkerSlot, Queue.grantRow, Queue.worker?_updateJob, found]
  exact if_pos ⟨active, free⟩

theorem leaseNext_none (found : q.worker? worker = some w) (unrevoked : w.state ≠ .revoked)
    (refused : ¬(w.state = .active ∧ w.activeLeases < w.maxSlots) ∨
      q.leaseCandidate w.protocolMin w.protocolMax d.tie = none) :
    q.leaseNext env .sqlite false worker seconds d = .ok (none, q) := by
  show q.leaseNextChecked env .sqlite worker (leaseDuration seconds) d = _
  rw [Queue.leaseNextChecked, found]
  simp only [require, unrevoked, ne_eq, not_false_eq_true, if_true, bind, Except.bind]
  split
  next able =>
    rcases refused with refused | absent
    · exact absurd able refused
    · rw [absent]
      rfl
  next => rfl

theorem leaseNext_some (found : q.worker? worker = some w) (active : w.state = .active)
    (free : w.activeLeases < w.maxSlots)
    (candidate : q.leaseCandidate w.protocolMin w.protocolMax d.tie = some row) :
    q.leaseNext env .sqlite false worker seconds d =
      .ok (some (d.leased worker (leaseDuration seconds) row),
        q.granted env worker (leaseDuration seconds) d row false) := by
  show q.leaseNextChecked env .sqlite worker (leaseDuration seconds) d = _
  rw [Queue.leaseNextChecked, found]
  simp only [require, ne_eq, reduceCtorEq, not_false_eq_true, bind, Except.bind, active, free, and_self,
    if_true, candidate, claimWorkerSlot_grantRow found active free, recordEventLocked_leased]
  rfl

theorem leaseBatch_some {lo hi : Int} {draws : Nat → Draw} {leases : List DistributedLease}
    (available : Nat) (found : q.worker? worker = some w) (active : w.state = .active)
    (free : w.activeLeases < w.maxSlots)
    (candidate : q.leaseCandidate lo hi (draws leases.length).tie = some row) :
    q.leaseBatch env .sqlite worker duration lo hi draws (available + 1) leases =
      (q.granted env worker duration (draws leases.length) row true).leaseBatch env .sqlite worker duration
        lo hi draws available (leases ++ [(draws leases.length).leased worker duration row]) := by
  rw [Queue.leaseBatch]
  simp only [candidate, claimWorkerSlot_grantRow found active free, recordEventLocked_leased, bind,
    Except.bind]
  rfl

end Grant

section Batch

variable {env : Env} {q q' : Queue} {worker : String} {seconds : Int} {draws draws' : Nat → Draw}

theorem Queue.Alike.counterpart (h : q.Alike worker q') {w : Worker} (found : q.worker? worker = some w) :
    ∃ w', q'.worker? worker = some w' ∧ w'.state = w.state ∧ w'.activeLeases = w.activeLeases ∧
      w'.maxSlots = w.maxSlots ∧ w'.protocolMin = w.protocolMin ∧ w'.protocolMax = w.protocolMax := by
  have counterpart := h.worker?
  rw [found] at counterpart
  obtain ⟨w', found', plain⟩ := Option.map_eq_some_iff.mp counterpart.symm
  refine ⟨w', found', ?_⟩
  rw [Worker.plain, Worker.plain, if_pos (Queue.worker?_workerId found'),
    if_pos (Queue.worker?_workerId found), Worker.mk.injEq] at plain
  tauto

theorem leaseBatch_same (ties : ∀ i, (draws i).tie = (draws' i).tie) {lo hi : Int} (calls : Nat)
    {leases leases' : List DistributedLease} {w : Worker}
    (same : leases.map DistributedLease.plain = leases'.map DistributedLease.plain)
    (alike : q.Alike worker q') (found : q.worker? worker = some w) (active : w.state = .active)
    (window : w.protocolMin = lo ∧ w.protocolMax = hi) :
    ∃ r, q.leaseBatch env .sqlite worker (leaseDuration seconds) lo hi draws
        (max 0 (min (calls : Int) (w.maxSlots - w.activeLeases))).toNat leases = .ok (some r) ∧
      SameLeases worker (.ok r) (q'.leaseRepeatedly env worker seconds draws' calls leases') := by
  induction calls generalizing leases leases' q q' w with
  | zero =>
    refine ⟨(leases, q), ?_, same, alike⟩
    have none : (max 0 (min ((0 : Nat) : Int) (w.maxSlots - w.activeLeases))).toNat = 0 := by omega
    rw [none]
    rfl
  | succ calls ih =>
    obtain ⟨w', found', state', active', slots', min', max'⟩ := alike.counterpart found
    have lengths : leases.length = leases'.length := by simpa using congrArg List.length same
    have unrevoked : w'.state ≠ .revoked := by
      rw [state', active]
      decide
    have ended (refused : ¬(w'.state = .active ∧ w'.activeLeases < w'.maxSlots) ∨
        q'.leaseCandidate w'.protocolMin w'.protocolMax (draws' leases'.length).tie = none) :
        SameLeases worker (.ok (leases, q))
          (q'.leaseRepeatedly env worker seconds draws' (calls + 1) leases') := by
      rw [Queue.leaseRepeatedly, leaseNext_none found' unrevoked refused]
      exact ⟨same, alike⟩
    by_cases free : w.activeLeases < w.maxSlots
    swap
    · have none : (max 0 (min ((calls + 1 : Nat) : Int) (w.maxSlots - w.activeLeases))).toNat = 0 := by
        omega
      refine ⟨(leases, q), ?_, ended (.inl ?_)⟩
      · rw [none]
        rfl
      · rw [active', slots']
        exact fun able => free able.2
    have rounds : (max 0 (min ((calls + 1 : Nat) : Int) (w.maxSlots - w.activeLeases))).toNat =
        (max 0 (min (calls : Int) (w.maxSlots - (w.activeLeases + 1)))).toNat + 1 := by omega
    have counterpart : q'.leaseCandidate w'.protocolMin w'.protocolMax (draws' leases'.length).tie =
        q.leaseCandidate lo hi (draws leases.length).tie := by
      rw [min', max', window.1, window.2, ← lengths, ← ties, alike.leaseCandidate]
    rw [rounds]
    cases candidate : q.leaseCandidate lo hi (draws leases.length).tie with
    | none =>
      refine ⟨(leases, q), ?_, ended (.inr (counterpart.trans candidate))⟩
      rw [Queue.leaseBatch]
      simp only [candidate]
    | some row =>
      rw [leaseBatch_some _ found active free candidate, Queue.leaseRepeatedly,
        leaseNext_some found' (state'.trans active) (by rw [active', slots']; exact free)
          (counterpart.trans candidate)]
      have granted : (leases ++ [(draws leases.length).leased worker (leaseDuration seconds) row]).map
            DistributedLease.plain =
          (leases' ++ [(draws' leases'.length).leased worker (leaseDuration seconds) row]).map
            DistributedLease.plain := by
        rw [List.map_append, List.map_append, same]
        rfl
      let d := draws leases.length
      exact ih (w := w.claimSlot d.heartbeat d.utc) granted alike.grant (Queue.worker?_granted found) active window

/-- On SQLite, and while no recovery sweep is due, a batch grants what as many single calls grant:
the same jobs in the same order, with the same rows left, and the same refusals. SQLite may choose
among jobs that tie, but chooses alike. -/
theorem leaseMany_same (env : Env) (q : Queue) (worker : String) (n seconds : Int)
    (draws draws' : Nat → Draw) (pos : 1 ≤ n) (ties : ∀ i, (draws i).tie = (draws' i).tie) :
    SameLeases worker (q.leaseMany env .sqlite worker n seconds draws)
      (q.leaseRepeatedly env worker seconds draws' (min n maxWorkerSlots).toNat []) := by
  have slots : 1 ≤ maxWorkerSlots := by decide
  obtain ⟨calls, some_call⟩ : ∃ calls, (min n maxWorkerSlots).toNat = calls + 1 :=
    ⟨(min n maxWorkerSlots).toNat - 1, by omega⟩
  cases found : q.worker? worker with
  | none =>
    have refused : q.leaseNext env .sqlite false worker seconds (draws' 0) = .error workerUnknown := by
      show q.leaseNextChecked env .sqlite worker (leaseDuration seconds) (draws' 0) = _
      rw [Queue.leaseNextChecked, found]
    rw [some_call, Queue.leaseMany, found, Queue.leaseRepeatedly]
    simp only [List.length_nil, refused]
    rfl
  | some w =>
    by_cases revoked : w.state = .revoked
    · have refused : q.leaseNext env .sqlite false worker seconds (draws' 0) = .error workerRevoked := by
        show q.leaseNextChecked env .sqlite worker (leaseDuration seconds) (draws' 0) = _
        rw [Queue.leaseNextChecked, found]
        simp only [require, revoked, ne_eq, not_true_eq_false, if_false]
        rfl
      rw [some_call, Queue.leaseMany, found, Queue.leaseRepeatedly]
      simp only [List.length_nil, refused, require, revoked, ne_eq, not_true_eq_false, if_false]
      rfl
    by_cases active : w.state = .active
    · have counted : availableSlots n w =
          max 0 (min (((min n maxWorkerSlots).toNat : Nat) : Int) (w.maxSlots - w.activeLeases)) := by
        rw [availableSlots]
        omega
      obtain ⟨r, batch, same⟩ : ∃ r, q.leaseBatch env .sqlite worker (leaseDuration seconds) w.protocolMin
          w.protocolMax draws _ [] = .ok (some r) ∧ SameLeases worker (.ok r)
            (q.leaseRepeatedly env worker seconds draws' (min n maxWorkerSlots).toNat []) :=
        leaseBatch_same ties _ rfl (.refl q worker) found active ⟨rfl, rfl⟩
      rw [Queue.leaseMany, found]
      simp only [require, ne_eq, reduceCtorEq, not_false_eq_true, if_true, bind, Except.bind, active, counted, batch]
      exact same
    · rw [some_call, Queue.leaseMany, found, Queue.leaseRepeatedly,
        leaseNext_none found revoked (.inl fun able => active able.1)]
      simp only [require, revoked, ne_eq, not_false_eq_true, if_true, bind, Except.bind, active, if_false]
      exact ⟨rfl, .refl q worker⟩

/-- Two of three jobs for a worker with two slots. -/
def sampleBacklog : Queue :=
  (queueMachine sampleEnv .sqlite).run Queue.empty
    [sampleWorker "w" 2, sampleJob "a" "k" "idempotent", sampleJob "b" "l" "idempotent",
      sampleJob "c" "m" "idempotent"]

def sampleDraw (token : String) : Draw :=
  { token := token, now := (100 : Nat), heartbeat := (100 : Nat), utc := "2030-01-01" }

theorem leaseMany_same_backlog :
    SameLeases "w" (sampleBacklog.leaseMany sampleEnv .sqlite "w" 3 60 fun _ => sampleDraw "token-a")
      (sampleBacklog.leaseRepeatedly sampleEnv "w" 60 (fun _ => sampleDraw "token-b") 3 []) :=
  have calls : (min 3 maxWorkerSlots).toNat = 3 := by decide
  calls ▸ leaseMany_same sampleEnv sampleBacklog "w" 3 60 (fun _ => sampleDraw "token-a") (fun _ => sampleDraw "token-b")
    (by decide) fun _ => rfl

end Batch

end Arenyxa.Distributed
