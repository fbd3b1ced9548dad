import Arenyxa.Distributed.Transactions.Grant
import Arenyxa.Distributed.Runs

/-! The single statements of PostgreSQL against the transactions they stand for, on any tables
at all. -/

namespace Arenyxa.Distributed

open Outcome QueueError

/-- A worker row without its timestamps. -/
def Worker.undated (w : Worker) : Worker := { w with updatedAt := "", heartbeatAt := 0 }

/-- The same jobs, workers up to timestamps, and fences. -/
structure SameTables (q q' : Queue) : Prop where
  jobs : q.jobs = q'.jobs
  workers : q.workers.rows.map Worker.undated = q'.workers.rows.map Worker.undated
  fences : q.fences = q'.fences

/-- Both succeed with the same tables, or both raise. -/
def SameOutcome : Except QueueError Queue → Except QueueError Queue → Prop
  | .ok q, .ok q' => SameTables q q'
  | .error _, .error _ => True
  | _, _ => False

theorem SameTables.refl (q : Queue) : SameTables q q := ⟨rfl, rfl, rfl⟩

theorem SameOutcome.refl (x : Except QueueError Queue) : SameOutcome x x := by
  cases x with
  | ok q => exact SameTables.refl q
  | error e => trivial

section Guards

variable {env : Env} {q : Queue} {c : LeaseCall} {row : Job}

theorem requireLeaseLocked_of_guard (found : q.job? c.jobId = some row)
    (active : row.state.active) (guard : q.fastLeaseGuard env c row) :
    q.requireLeaseLocked env c =
      if row.leaseExpiresAt ≤ leaseHorizon c.now then .ok row
      else .error (leaseTimeInvalid c row.leaseExpiresAt) := by
  obtain ⟨-, worker, -, owner, token, unexpired⟩ := LeaseLive.of_guard found active guard
  have digest : row.leaseTokenSha256 ≠ "" := token ▸ env.sha.hexdigest_ne_empty _
  have ascii := env.sha.isAscii_hexdigest c.leaseToken
  simp only [Queue.requireLeaseLocked, found, require]
  rw [if_pos ⟨worker, active, owner⟩, if_pos digest, token, compareDigest_of_ascii ascii ascii]
  simp only [bind, Except.bind, beq_self_eq_true, if_pos unexpired, pure, Except.pure, if_true]
  split_ifs <;> rfl

theorem recordEventLocked_ok {b : Backend} {v : EventValues} (found : q.job? v.jobId = some row)
    (allowed : (v.fromState, v.toState) ∈ allowedJobTransitions) (enters : v.toState = row.state)
    (agrees : row.state.terminal → q.fenceAgrees row) :
    ∃ q', q.recordEventLocked b v = .ok q' ∧ q'.jobs = q.jobs ∧ q'.workers = q.workers ∧
      q'.fences = if row.state.terminal then (q.upsertFence (row.fence jsonDumps)).fences
        else q.fences := by
  refine ⟨_, Queue.recordEventLocked_eq found allowed enters agrees, ?_, ?_, ?_⟩
  · exact Queue.jobs_settle
  · exact Queue.workers_settle
  · simp only [Queue.settle, Queue.fences_journalize, Queue.sealRow]
    split_ifs <;> rfl

end Guards

section Start

variable {env : Env} {q : Queue} {c : LeaseCall}

/-- The lease a call presents to the statements that start and complete a job runs further
ahead than the guard of the transactions accepts. -/
def Overlong (env : Env) (q : Queue) (c : LeaseCall) (row : Job) : Prop :=
  q.job? c.jobId = some row ∧ q.fastLeaseGuard env c row ∧ leaseHorizon c.now < row.leaseExpiresAt

theorem startJob_same_iff (env : Env) (q : Queue) (c : LeaseCall) :
    SameOutcome (q.startJob env .postgresql false c) (q.startJob env .postgresql true c) ↔
      ¬∃ row, Overlong env q c row ∧ row.state = .leased := by
  cases fast : q.startJobFast env c with
  | none =>
    have same : q.startJob env .postgresql false c = q.startJob env .postgresql true c := by
      simp [Queue.startJob, fast]
    rw [same]
    refine ⟨fun _ => ?_, fun _ => .refl _⟩
    rintro ⟨row, ⟨found, guard, -⟩, leased⟩
    simp [Queue.startJobFast, found, leased, guard] at fast
  | some started =>
    have taken : q.startJob env .postgresql false c = .ok started := by
      simp [Queue.startJob, fast]
    have portable : q.startJob env .postgresql true c = q.startJobPortable env .postgresql c := by
      simp [Queue.startJob]
    rw [taken, portable]
    unfold Queue.startJobFast at fast
    split at fast
    next => cases fast
    next row found =>
      split at fast
      next able =>
        obtain ⟨leased, guard⟩ := able
        obtain rfl := Option.some.inj fast
        have active : row.state.active := by rw [leased]; rfl
        have lock := requireLeaseLocked_of_guard found active guard
        have still : row.state ≠ .running := by rw [leased]; decide
        unfold Queue.startJobPortable
        rw [lock]
        by_cases near : row.leaseExpiresAt ≤ leaseHorizon c.now
        · have found' : (q.updateJob c.jobId (·.start c.utc)).job? c.jobId =
              some (row.start c.utc) := by
            rw [Queue.job?_updateJob, if_pos rfl, found]
            rfl
          let v : EventValues :=
            { jobId := c.jobId, eventType := .started, fromState := row.state,
              toState := .running, workerId := c.workerId, createdAt := c.utc }
          have allowed : (v.fromState, v.toState) ∈ allowedJobTransitions := by
            simp only [v, leased]
            decide
          obtain ⟨q', recorded, jobs, workers, fences⟩ :=
            @recordEventLocked_ok _ _ .postgresql v found' allowed rfl fun terminal => by cases terminal
          rw [if_pos near]
          simp only [bind, Except.bind, if_neg still]
          rw [recorded]
          refine ⟨fun _ => ?_, fun _ => ⟨jobs.symm, by rw [workers]; rfl, fences.symm⟩⟩
          rintro ⟨row', ⟨found', -, far⟩, -⟩
          obtain rfl := Option.some.inj (found.symm.trans found')
          exact absurd near (not_le.mpr far)
        · rw [if_neg near]
          refine ⟨fun same => same.elim, fun none => (none ⟨row, ⟨found, guard, ?_⟩, leased⟩).elim⟩
          exact not_le.mp near
      next => cases fast

end Start

section Completion

variable {env : Env} {q : Queue} {c : LeaseCall}

theorem fence_build_eq_dumps_iff {row : Job} {worker token result : String}
    (receipt : row.terminalReceipt = [worker, env.sha.hexdigest token, env.sha.hexdigest result]) :
    row.fence jsonBuildArray = row.fence jsonDumps ↔ isPlain worker := by
  have token := env.sha.hexdigest_plain token
  have result := env.sha.hexdigest_plain result
  simp [Job.fence, jsonBuildArray, jsonDumps, receipt, token, result]

theorem fences_upsertFence_inj {f g : Fence} (key : f.idempotencyKey = g.idempotencyKey)
    (same : (q.upsertFence f).fences = (q.upsertFence g).fences) :
    f.terminalReceipt = g.terminalReceipt := by
  have at_key : (q.upsertFence f).fence? f.idempotencyKey =
      (q.upsertFence g).fence? f.idempotencyKey := by
    simp only [Queue.fence?, same]
  rw [Queue.fence?_upsertFence, Queue.fence?_upsertFence, if_pos rfl, if_pos key] at at_key
  cases hq : q.fence? f.idempotencyKey with
  | none =>
    rw [hq] at at_key
    exact congrArg Fence.terminalReceipt (Option.some.inj at_key)
  | some old =>
    rw [hq] at at_key
    have refreshed : f.refresh old = g.refresh old := Option.some.inj at_key
    have receipt : (f.refresh old).terminalReceipt = (g.refresh old).terminalReceipt :=
      congrArg Fence.terminalReceipt refreshed
    exact receipt

theorem Queue.fences_upsertFence_congr {q q' : Queue} (same : q.fences = q'.fences) (f : Fence) :
    (q.upsertFence f).fences = (q'.upsertFence f).fences := by
  unfold upsertFence
  have find : q.fence? f.idempotencyKey = q'.fence? f.idempotencyKey := by simp only [fence?, same]
  rw [find]
  split <;> simp only [same]

/-- What the statement finds where it completes the job. -/
def CompletedFast (env : Env) (q : Queue) (c : LeaseCall) (row : Job) : Prop :=
  q.job? c.jobId = some row ∧ row.state.active ∧ q.fastLeaseGuard env c row ∧ q.fenceAgrees row

theorem CompletedFast.of_eq_some {json resultSha : String} {completed : Queue}
    (fast : q.completeFast env c json resultSha = some completed) :
    ∃ row, CompletedFast env q c row := by
  unfold Queue.completeFast at fast
  split at fast
  next => cases fast
  next row found =>
    split at fast
    next able => exact ⟨row, found, able⟩
    next => cases fast

theorem completeFast_same_iff {json : String} {row : Job} {completed : Queue}
    (taken : CompletedFast env q c row)
    (fast : q.completeFast env c json (env.sha.hexdigest json) = some completed) :
    SameOutcome (.ok completed)
      (q.completePortable env .postgresql c json (env.sha.hexdigest json)) ↔
        row.leaseExpiresAt ≤ leaseHorizon c.now ∧ isPlain c.workerId := by
  obtain ⟨found, active, guard, agrees⟩ := taken
  have live := LeaseLive.of_guard found active guard
  have named := live.jobId
  have lock := requireLeaseLocked_of_guard found active guard
  have unfinished : row.state ≠ .completed := by
    intro done
    rw [done] at active
    cases active
  simp only [Queue.completeFast, found] at fast
  rw [if_pos ⟨active, guard, agrees⟩] at fast
  obtain rfl := Option.some.inj fast
  simp only [Queue.completePortable, found, if_neg unfinished]
  rw [lock]
  by_cases near : row.leaseExpiresAt ≤ leaseHorizon c.now
  · let new := row.complete json (env.sha.hexdigest json) c.workerId
      (env.sha.hexdigest c.leaseToken) c.utc
    let q₀ := q.updateJob c.jobId (·.complete json (env.sha.hexdigest json) c.workerId
      (env.sha.hexdigest c.leaseToken) c.utc)
    let q₁ := q₀.updateWorker c.workerId (·.returnSlot c.later c.utc)
    have found' : q₁.job? c.jobId = some new := by
      rw [Queue.job?_updateWorker, Queue.job?_updateJob, if_pos rfl, found]
      rfl
    have allowed : ((some row.state : Option JobState), JobState.completed) ∈
        allowedJobTransitions := by
      revert active
      cases row.state <;> decide
    obtain ⟨q', recorded, jobs, workers, fences⟩ := @recordEventLocked_ok q₁ new .postgresql
      (completedEvent c (env.sha.hexdigest json) row.state) found' allowed rfl fun _ => agrees
    rw [if_pos near]
    simp only [bind, Except.bind, require, if_pos (And.intro live.owner live.token)]
    rw [recorded, and_iff_right near,
      ← @fence_build_eq_dumps_iff env new c.workerId c.leaseToken json rfl]
    have terminal : new.state.terminal := rfl
    rw [if_pos terminal] at fences
    -- the two paths write the worker and the fence in different orders
    have fenced : (q₀.upsertFence (new.fence jsonBuildArray)).fences =
        (q₁.upsertFence (new.fence jsonBuildArray)).fences :=
      @Queue.fences_upsertFence_congr q₀ q₁ rfl _
    constructor
    · rintro ⟨-, -, same⟩
      rw [fences] at same
      have receipt : (new.fence jsonBuildArray).terminalReceipt =
          (new.fence jsonDumps).terminalReceipt :=
        @fences_upsertFence_inj q₁ _ _ rfl (fenced.symm.trans same)
      simp only [Job.fence] at receipt ⊢
      rw [receipt]
    · intro same
      refine ⟨?_, ?_, ?_⟩
      · rw [jobs]
        exact Queue.jobs_upsertFence
      · rw [workers]
        simp only [Queue.insertEvent, Queue.updateWorker, Queue.workers_upsertFence, q₁, q₀]
      · rw [fences, ← same]
        exact fenced
  · rw [if_neg near]
    exact ⟨fun same => same.elim, fun h => absurd h.1 near⟩

theorem complete_same_iff (env : Env) (q : Queue) (c : LeaseCall) (result : JsonObject) :
    SameOutcome (q.complete env .postgresql false c result)
        (q.complete env .postgresql true c result) ↔
      ¬(result.canonical.utf8ByteSize ≤ maxResultBytes ∧ ∃ row, CompletedFast env q c row ∧
        (leaseHorizon c.now < row.leaseExpiresAt ∨ ¬isPlain c.workerId)) := by
  unfold Queue.complete boundedJson
  by_cases bounded : result.canonical.utf8ByteSize ≤ maxResultBytes
  · simp only [require, if_pos bounded, bind, Except.bind, pure, Except.pure]
    rw [and_iff_right bounded]
    cases fast : q.completeFast env c result.canonical (env.sha.hexdigest result.canonical) with
    | none =>
      refine ⟨fun _ => ?_, fun _ => by simpa [fast] using SameOutcome.refl _⟩
      rintro ⟨row, ⟨found, active, guard, agrees⟩, -⟩
      simp [Queue.completeFast, found, active, guard, agrees] at fast
    | some completed =>
      obtain ⟨row, taken⟩ := CompletedFast.of_eq_some fast
      simp only [Bool.not_false, and_self, if_true, Bool.not_true, Bool.false_eq_true, and_false, if_false]
      rw [completeFast_same_iff taken fast]
      constructor
      · rintro ⟨near, plain⟩ ⟨row', taken', far⟩
        obtain rfl := Option.some.inj (taken.1.symm.trans taken'.1)
        exact far.elim (fun far => absurd near (not_le.mpr far)) fun odd => odd plain
      · intro none
        by_contra both
        refine none ⟨row, taken, ?_⟩
        by_cases near : row.leaseExpiresAt ≤ leaseHorizon c.now
        · exact .inr fun plain => both ⟨near, plain⟩
        · exact .inl (not_le.mp near)
  · simp [require, bounded, bind, Except.bind, SameOutcome]

end Completion

section Granting

variable {env : Env} {q : Queue} {worker : String} {d d' : Draw}

theorem leaseCandidate_ties {lo hi : Int} {m n : Nat} {row row' : Job}
    (h : q.leaseCandidate lo hi m = some row) (h' : q.leaseCandidate lo hi n = some row') :
    row.priority = row'.priority ∧ row.createdAt = row'.createdAt := by
  have first := List.mem_of_getElem? h
  have first' := List.mem_of_getElem? h'
  rw [List.mem_filter] at first first'
  have unbeaten : ¬row'.servedBefore row := fun before => by
    simpa [List.any_eq_true] using absurd (List.any_eq_true.mpr ⟨row', first'.1, before⟩)
      (by simpa using first.2)
  have unbeaten' : ¬row.servedBefore row' := fun before => by
    simpa [List.any_eq_true] using absurd (List.any_eq_true.mpr ⟨row, first.1, before⟩)
      (by simpa using first'.2)
  simp only [Job.servedBefore, decide_eq_true_eq, not_or, not_and, not_lt] at unbeaten unbeaten'
  have priority := le_antisymm unbeaten'.1 unbeaten.1
  exact ⟨priority, String.le_antisymm (String.not_lt.mp (unbeaten.2 priority.symm))
    (String.not_lt.mp (unbeaten'.2 priority))⟩

theorem leaseCandidate_isSome {lo hi : Int} {m : Nat} {row : Job}
    (h : q.leaseCandidate lo hi m = some row) (n : Nat) : (q.leaseCandidate lo hi n).isSome := by
  have pos := List.length_pos_of_mem (List.mem_of_getElem? h)
  simp [Queue.leaseCandidate, Nat.mod_lt _ pos]

/-- The lease a call returned. -/
def grantOf : Except QueueError (Option DistributedLease × Queue) → Option DistributedLease
  | .ok (lease, _) => lease
  | .error _ => none

/-- What a grant of the row needs, by either path. -/
def Grantable (q : Queue) (worker : String) (row : Job) : Prop :=
  ∃ w n, q.worker? worker = some w ∧ w.state = .active ∧ w.activeLeases < w.maxSlots ∧
    q.leaseCandidate w.protocolMin w.protocolMax n = some row

theorem Grantable.ties {row row' : Job} (h : Grantable q worker row)
    (h' : Grantable q worker row') :
    row.priority = row'.priority ∧ row.createdAt = row'.createdAt := by
  obtain ⟨w, m, found, -, -, candidate⟩ := h
  obtain ⟨w', n, found', -, -, candidate'⟩ := h'
  obtain rfl := Option.some.inj (found.symm.trans found')
  exact leaseCandidate_ties candidate candidate'

theorem Grantable.found {row : Job} (h : Grantable q worker row) : q.job? row.jobId = some row := by
  obtain ⟨w, n, -, -, -, candidate⟩ := h
  exact (leaseCandidate_queued candidate).1

theorem leaseNextFast_eq_some {lease : DistributedLease} {q' : Queue} {duration : Int}
    (h : q.leaseNextFast env worker duration d = some (lease, q')) :
    ∃ row, Grantable q worker row ∧ lease.jobId = row.jobId := by
  unfold Queue.leaseNextFast at h
  split at h
  next => cases h
  next w found =>
    split at h
    next able =>
      split at h
      next => cases h
      next row candidate =>
        obtain ⟨rfl, -⟩ := Prod.mk.inj (Option.some.inj h)
        exact ⟨row, ⟨w, d.tie, found, able.1, able.2, candidate⟩, rfl⟩
    next => cases h

theorem Grantable.leaseNextFast {row : Job} (h : Grantable q worker row) (env : Env) (duration : Int)
    (d : Draw) : (q.leaseNextFast env worker duration d).isSome := by
  obtain ⟨w, n, found, active, free, candidate⟩ := h
  obtain ⟨row', candidate'⟩ := Option.isSome_iff_exists.mp (leaseCandidate_isSome candidate d.tie)
  simp [Queue.leaseNextFast, found, active, free, candidate']

theorem grantOf_leaseNextClaimed {lease : DistributedLease} {b : Backend} {duration : Int}
    (h : grantOf (q.leaseNextClaimed env b worker duration d) = some lease) :
    ∃ row, Grantable q worker row ∧ lease.jobId = row.jobId := by
  unfold Queue.leaseNextClaimed at h
  split at h
  next =>
    split at h
    next => cases h
    next w _ =>
      by_cases unrevoked : w.state ≠ .revoked <;>
        simp [require, unrevoked, bind, Except.bind, pure, Except.pure, grantOf] at h
  next claimed claim =>
    obtain ⟨w, found, active, free, rfl⟩ := claimWorkerSlot_eq_some claim
    rw [Queue.worker?_updateWorker, if_pos rfl, found] at h
    dsimp only [Option.map_some] at h
    split at h
    next => cases h
    next row candidate =>
      cases recorded : Queue.recordEventLocked b
          (Queue.grantRow env worker duration d row
            (q.updateWorker worker (·.claimSlot d.heartbeat d.utc)))
          (leasedEvent worker d row (leasedDetails row duration false)) with
      | error e =>
        rw [recorded] at h
        cases h
      | ok q' =>
        rw [recorded] at h
        obtain rfl := Option.some.inj h
        exact ⟨row, ⟨w, d.tie, found, active, free, candidate⟩, rfl⟩

theorem Grantable.leaseNextClaimed {row : Job} (h : Grantable q worker row) (env : Env)
    (b : Backend) (duration : Int) (d : Draw) :
    (grantOf (q.leaseNextClaimed env b worker duration d)).isSome := by
  obtain ⟨w, n, found, active, free, candidate⟩ := h
  obtain ⟨row', candidate'⟩ := Option.isSome_iff_exists.mp (leaseCandidate_isSome candidate d.tie)
  have claim : q.claimWorkerSlot worker d.heartbeat d.utc =
      some (q.updateWorker worker (·.claimSlot d.heartbeat d.utc)) := by
    simp [Queue.claimWorkerSlot, found, active, free]
  have registered : (q.updateWorker worker (·.claimSlot d.heartbeat d.utc)).worker? worker =
      some (w.claimSlot d.heartbeat d.utc) := by
    rw [Queue.worker?_updateWorker, if_pos rfl, found]
    rfl
  have candidate'' : (q.updateWorker worker (·.claimSlot d.heartbeat d.utc)).leaseCandidate
      (w.claimSlot d.heartbeat d.utc).protocolMin (w.claimSlot d.heartbeat d.utc).protocolMax
      d.tie = some row' := candidate'
  have granted : (Queue.grantRow env worker duration d row'
      (q.updateWorker worker (·.claimSlot d.heartbeat d.utc))).job? row'.jobId =
        some (d.lease env worker duration row') := by
    rw [Queue.grantRow, Queue.job?_updateJob, if_pos rfl, Queue.job?_updateWorker,
      (leaseCandidate_queued candidate').1]
    rfl
  have allowed : ((some JobState.queued : Option JobState), JobState.leased) ∈
      allowedJobTransitions := by decide
  obtain ⟨q', recorded, -⟩ := @recordEventLocked_ok _ _ b
    (leasedEvent worker d row' (leasedDetails row' duration false)) granted allowed rfl
    fun terminal => by cases terminal
  rw [Queue.leaseNextClaimed, claim]
  dsimp only
  rw [registered]
  dsimp only
  rw [candidate'']
  dsimp only
  rw [recorded]
  rfl

theorem leaseNext_same (env : Env) (q : Queue) (worker : String) (seconds : Int) (d d' : Draw) :
    (grantOf (q.leaseNext env .postgresql false worker seconds d)).isSome =
        (grantOf (q.leaseNext env .postgresql true worker seconds d')).isSome ∧
      ∀ lease ∈ grantOf (q.leaseNext env .postgresql false worker seconds d),
      ∀ lease' ∈ grantOf (q.leaseNext env .postgresql true worker seconds d'),
        ∃ row row', q.job? lease.jobId = some row ∧ q.job? lease'.jobId = some row' ∧
          row.priority = row'.priority ∧ row.createdAt = row'.createdAt := by
  have portable : ∀ d, q.leaseNext env .postgresql true worker seconds d =
      q.leaseNextClaimed env .postgresql worker (leaseDuration seconds) d := fun d => by
    simp [Queue.leaseNext, Queue.leaseNextPortable]
  have either : ∀ lease ∈ grantOf (q.leaseNext env .postgresql false worker seconds d),
      ∃ row, Grantable q worker row ∧ lease.jobId = row.jobId := by
    intro lease h
    cases fast : q.leaseNextFast env worker (leaseDuration seconds) d with
    | none =>
      simp only [Queue.leaseNext, fast, Queue.leaseNextPortable, Bool.not_false, and_self,
        if_true] at h
      exact grantOf_leaseNextClaimed h
    | some granted =>
      simp only [Queue.leaseNext, fast, Bool.not_false, and_self, if_true] at h
      obtain rfl := Option.some.inj h
      exact leaseNextFast_eq_some fast
  have offered : ∀ {row}, Grantable q worker row →
      (grantOf (q.leaseNext env .postgresql false worker seconds d)).isSome := by
    intro row h
    obtain ⟨granted, fast⟩ := Option.isSome_iff_exists.mp
      (h.leaseNextFast env (leaseDuration seconds) d)
    simp [Queue.leaseNext, fast, grantOf]
  rw [portable]
  refine ⟨?_, ?_⟩
  · rw [Bool.eq_iff_iff, Option.isSome_iff_exists, Option.isSome_iff_exists]
    constructor
    · rintro ⟨lease, h⟩
      obtain ⟨row, able, -⟩ := either lease h
      exact Option.isSome_iff_exists.mp (able.leaseNextClaimed env _ _ d')
    · rintro ⟨lease, h⟩
      obtain ⟨row, able, -⟩ := grantOf_leaseNextClaimed h
      exact Option.isSome_iff_exists.mp (offered able)
  · intro lease h lease' h'
    obtain ⟨row, able, named⟩ := either lease h
    obtain ⟨row', able', named'⟩ := grantOf_leaseNextClaimed h'
    exact ⟨row, row', named ▸ able.found, named' ▸ able'.found, able.ties able'⟩

end Granting

/-- The statements of PostgreSQL and the transactions behind them do the same, except that the
statements have no guard on an expiry far ahead and write a worker id that needs escapes
differently into the receipt. -/
theorem fast_path_same_iff (env : Env) (q : Queue) :
    (∀ c, SameOutcome (q.startJob env .postgresql false c) (q.startJob env .postgresql true c) ↔
      ¬∃ row, Overlong env q c row ∧ row.state = .leased) ∧
    (∀ c result, SameOutcome (q.complete env .postgresql false c result)
        (q.complete env .postgresql true c result) ↔
      ¬(result.canonical.utf8ByteSize ≤ maxResultBytes ∧ ∃ row, CompletedFast env q c row ∧
        (leaseHorizon c.now < row.leaseExpiresAt ∨ ¬isPlain c.workerId))) ∧
    ∀ worker seconds d d',
      (grantOf (q.leaseNext env .postgresql false worker seconds d)).isSome =
          (grantOf (q.leaseNext env .postgresql true worker seconds d')).isSome ∧
        ∀ lease ∈ grantOf (q.leaseNext env .postgresql false worker seconds d),
        ∀ lease' ∈ grantOf (q.leaseNext env .postgresql true worker seconds d'),
          ∃ row row', q.job? lease.jobId = some row ∧ q.job? lease'.jobId = some row' ∧
            row.priority = row'.priority ∧ row.createdAt = row'.createdAt :=
  ⟨startJob_same_iff env q, complete_same_iff env q, fun worker seconds d d' =>
    leaseNext_same env q worker seconds d d'⟩

/-- A lease that runs two hours, as a clock set back leaves it. -/
def overlongLease : Queue :=
  (Queue.reached sampleEnv .postgresql [sampleWorker "worker" 1, sampleJob "job" "key" "idempotent",
    sampleLease "worker" "token-a"]).updateJob "job" fun row => { row with leaseExpiresAt := 7300 }

theorem fast_path_differs :
    ¬SameOutcome
      (overlongLease.startJob sampleEnv .postgresql false (sampleCall "job" "worker" "token-a"))
      (overlongLease.startJob sampleEnv .postgresql true (sampleCall "job" "worker" "token-a")) := by
  have started : (overlongLease.startJob sampleEnv .postgresql false
      (sampleCall "job" "worker" "token-a")).toBool = true := by decide +kernel
  have refused : (overlongLease.startJob sampleEnv .postgresql true
      (sampleCall "job" "worker" "token-a")).toBool = false := by decide +kernel
  intro same
  unfold SameOutcome at same
  split at same
  next h => simp [h, Except.toBool] at refused
  next h _ => simp [h, Except.toBool] at started
  next => exact same

end Arenyxa.Distributed
