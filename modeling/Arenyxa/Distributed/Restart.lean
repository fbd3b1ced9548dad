import Arenyxa.Distributed.Runs
import Mathlib.Tactic.Linarith

/-! A queue that is opened again in another boot domain: the four passes of `initialize` take
every lease of the old boot back. -/

namespace Arenyxa.Distributed

open Outcome

/-- What recovery makes of a row: nothing, or it takes its lease back. -/
def Job.TakenBack (row row' : Job) : Prop :=
  row' = row ∨ (row.state.active ∧ ∃ code utc, row' = row.release row.releaseTarget code utc)

namespace Queue

/-- `DurableDistributedQueue.initialize`: the first transaction that raises ends it. -/
def initializeFrom (env : Env) (b : Backend) (domain : String) (monotonic epoch : ℚ)
    (reconcile stale expired : SweepArgs) (q : Queue) : Except QueueError Queue :=
  (initializeQueue domain monotonic epoch reconcile stale expired).foldlM
    (fun q op => do
      let r ← op.exec env b q
      return r.2) q

/-- No row comes or goes, and leases are at most taken back. -/
structure TakesBack (q q' : Queue) : Prop where
  absent : ∀ id, q.job? id = none → q'.job? id = none
  found : ∀ id row, q.job? id = some row → ∃ row', q'.job? id = some row' ∧ row.TakenBack row'

end Queue

section Statements

variable {q q' q'' : Queue} {b : Backend} {row : Job}

theorem Queue.TakesBack.refl (q : Queue) : q.TakesBack q := ⟨fun _ h => h, fun _ row h => ⟨row, h, .inl rfl⟩⟩

theorem Queue.TakesBack.congr (h : q.TakesBack q') (same : q''.jobs = q'.jobs) : q.TakesBack q'' := by
  have lookup (id : String) : q''.job? id = q'.job? id := by rw [Queue.job?, same, Queue.job?]
  refine ⟨fun id none => ?_, fun id row some => ?_⟩
  · rw [lookup]
    exact h.absent id none
  · rw [lookup]
    exact h.found id row some

theorem Queue.TakesBack.release (h : q.TakesBack q') {code utc : String} (first : q.job? row.jobId = some row)
    (active : row.state.active)
    (jobs : ∀ id, q''.job? id =
      if id = row.jobId then some (row.release row.releaseTarget code utc) else q'.job? id) :
    q.TakesBack q'' := by
  refine ⟨fun id none => ?_, fun id row' some => ?_⟩
  · rw [jobs, if_neg]
    · exact h.absent id none
    · rintro rfl
      rw [first] at none
      cases none
  · rw [jobs]
    split
    next here =>
      rw [here, first] at some
      cases some
      exact ⟨_, rfl, .inr ⟨active, code, utc, rfl⟩⟩
    next => exact h.found id row' some

theorem storeTerminalFence_keeps : Sat (q.storeTerminalFence row)
    (fun q' => q'.jobs = q.jobs ∧ q'.workers = q.workers) (· = fenceCollision) := by
  simp [Queue.storeTerminalFence]

theorem fenceTerminal_keeps {target : JobState} {id : String} (found : q.job? id = some row) :
    Sat (q.fenceTerminal target id) (fun q' => q'.jobs = q.jobs ∧ q'.workers = q.workers)
      (· = fenceCollision) := by
  rw [Queue.fenceTerminal]
  split
  · rw [Queue.fenceJob, found]
    exact storeTerminalFence_keeps
  · exact ⟨rfl, rfl⟩

theorem takeBack_sat (env : Env) {code utc : String} {v : EventValues} (found : q.job? row.jobId = some row)
    (active : row.state.active) (named : v.jobId = row.jobId) (leaves : v.fromState = some row.state)
    (enters : v.toState = row.releaseTarget) :
    Sat ((q.updateJob row.jobId (·.release row.releaseTarget code utc)).recordEventLocked b v)
      (fun q' => q'.workers = q.workers ∧ ∀ id, q'.job? id =
        if id = row.jobId then some (row.release row.releaseTarget code utc) else q.job? id)
      (· = fenceCollision) := by
  have permitted : (Move.release row.releaseTarget code utc).Permitted row := ⟨active, true, rfl⟩
  have allowed : (v.fromState, v.toState) ∈ allowedJobTransitions := by
    rw [leaves, enters]
    exact (permitted.allowed rfl : (some row.state, (Move.apply env.sha _ row).state) ∈ _)
  have changed (id : String) :
      (q.updateJob row.jobId (·.release row.releaseTarget code utc)).job? id =
        if id = row.jobId then some (row.release row.releaseTarget code utc) else q.job? id := by
    rw [Queue.job?_updateJob]
    split
    next here =>
      rw [here, found]
      rfl
    next => rfl
  have here := (changed v.jobId).trans (if_pos named)
  simp only [Queue.recordEventLocked, sat_bind, sat_require, sat_pure]
  refine ⟨fun _ => (fenceTerminal_keeps here).mono ?_ fun _ he => he, fun refused => absurd allowed refused⟩
  rintro fenced ⟨jobs, workers⟩
  refine ⟨by simp [workers], fun id => ?_⟩
  rw [← changed id, Queue.job?, Queue.jobs_recordEvent, jobs]
  rfl

theorem backfillTerminalFences_keeps : Sat q.backfillTerminalFences
    (fun q' => q'.jobs = q.jobs ∧ q'.workers = q.workers) (· = fenceCollision) := by
  simp only [Queue.backfillTerminalFences, sat_bind, sat_pure]
  let inv (_ : List Job) (q' : Queue) : Prop := q'.jobs = q.jobs ∧ q'.workers = q.workers
  have round : ∀ row rest q', inv (row :: rest) q' →
      Sat (Queue.storeTerminalFence q' row) (inv rest) (· = fenceCollision) := by
    rintro row rest q' ⟨jobs, workers⟩
    exact storeTerminalFence_keeps.mono (fun _ h => ⟨h.1.trans jobs, h.2.trans workers⟩) fun _ he => he
  exact (Sat.foldlM round _ _ ⟨rfl, rfl⟩).mono (fun _ h => h) fun _ he => he

end Statements

section Reconciliation

variable {q q' : Queue} {b : Backend} {a : SweepArgs}

theorem reconcileLeases_takeBack (env : Env) {stamp : String → String} {horizon : ℚ} :
    Sat ((q.invalidLeaseCandidates horizon).foldlM (Queue.reconcileLease b stamp) q)
      (fun q' => q.TakesBack q' ∧ q'.workers = q.workers) (· = fenceCollision) := by
  let inv (rest : List Job) (q' : Queue) : Prop :=
    q'.jobs.Current rest ∧ (∀ row ∈ rest, row.state.active ∧ q.job? row.jobId = some row) ∧
      q.TakesBack q' ∧ q'.workers = q.workers
  have start : ∀ row ∈ q.invalidLeaseCandidates horizon,
      row.state.active ∧ q.job? row.jobId = some row := by
    intro row mem
    simp only [Queue.invalidLeaseCandidates, List.mem_filter, Bool.and_eq_true] at mem
    exact ⟨mem.2.1, Queue.mem_jobs_iff.mp mem.1⟩
  suffices round : ∀ row rest q', inv (row :: rest) q' →
      Sat (Queue.reconcileLease b stamp q' row) (inv rest) (· = fenceCollision) from
    (Sat.foldlM round _ _ ⟨q.jobs.current_filter _, start, .refl q, rfl⟩).mono
      (fun _ h => h.2.2) fun _ he => he
  rintro row rest q' ⟨current, each, back, workers⟩
  obtain ⟨⟨active, first⟩, each⟩ := List.forall_mem_cons.mp each
  refine (takeBack_sat env current.head active rfl rfl rfl).mono ?_ fun _ he => he
  rintro q'' ⟨same, jobs⟩
  refine ⟨current.tail fun id other => (jobs id).trans (if_neg other), each,
    back.release first active jobs, same.trans workers⟩

theorem repairCounter_all (utc : String) (q : Queue) :
    let repaired := (q.workers.rows.foldl (Queue.repairCounter utc) (0, q)).2
    repaired.jobs = q.jobs ∧
      ∀ id w, repaired.worker? id = some w → w.activeLeases = repaired.heldLeases id := by
  let inv (rest : List Worker) (acc : Nat × Queue) : Prop :=
    acc.2.jobs = q.jobs ∧ acc.2.workers.Current rest ∧
      ∀ id w, acc.2.worker? id = some w → id ∉ rest.map Worker.workerId →
        w.activeLeases = acc.2.heldLeases id
  suffices round : ∀ w rest acc, inv (w :: rest) acc → inv rest (Queue.repairCounter utc acc w) by
    obtain ⟨jobs, -, counted⟩ := foldl_induct round q.workers.rows (0, q)
      ⟨rfl, ⟨q.workers.nodup, fun w mem => Table.mem_rows_iff.mp mem⟩, fun id w found fresh =>
        absurd (Queue.worker?_workerId found ▸ List.mem_map_of_mem (Table.get?_some_iff.mp found).1)
          fresh⟩
    exact ⟨jobs, fun id w found => counted id w found (List.not_mem_nil)⟩
  rintro w rest ⟨n, acc⟩ ⟨jobs, current, counted⟩
  have here : acc.worker? w.workerId = some w := current.head
  unfold Queue.repairCounter
  dsimp only
  split
  next same =>
    refine ⟨jobs, current.tail fun _ _ => rfl, fun id w' found fresh => ?_⟩
    by_cases self : id = w.workerId
    · subst self
      obtain rfl := Option.some.inj (here.symm.trans found)
      exact same.symm
    · exact counted id w' found (by simpa [self] using fresh)
  next =>
    refine ⟨jobs, current.tail fun id other => (Queue.worker?_updateWorker).trans (if_neg other),
      fun id w' found fresh => ?_⟩
    dsimp only at found ⊢
    rw [Queue.worker?_updateWorker] at found
    split at found
    next self =>
      rw [self, here] at found
      cases found
      rw [self]
      rfl
    next self => exact counted id w' found (by simpa [self] using fresh)

theorem reconcileDurableState_takesBack (env : Env) : Sat (q.reconcileDurableState b a)
    (fun r => q.TakesBack r.2 ∧
      ∀ id w, r.2.worker? id = some w → w.activeLeases = r.2.heldLeases id) (· = fenceCollision) := by
  simp only [Queue.reconcileDurableState, sat_bind, sat_pure]
  refine (reconcileLeases_takeBack env).mono ?_ fun _ he => he
  rintro recovered ⟨back, -⟩
  obtain ⟨jobs, counted⟩ := repairCounter_all a.utc recovered
  exact ⟨back.congr jobs, counted⟩

end Reconciliation

section Sweeps

variable {env : Env} {q q' : Queue} {b : Backend} {a : SweepArgs} {utc : String}

theorem recoverStaleWorkerLeases_idle
    (past : ∀ id row, q.job? id = some row → row.state.active → row.leaseExpiresAt ≤ a.current) :
    q.recoverStaleWorkerLeases b a = .ok (0, q) := by
  have none : q.staleWorkerLeases (a.current - workerHeartbeatTimeoutSeconds) a.current = [] := by
    refine List.filterMap_eq_nil_iff.mpr fun row mem => ?_
    split
    next => rfl
    next =>
      refine if_neg fun live => ?_
      exact absurd live.2.2.2.2 (not_lt.mpr (past _ row (Queue.mem_jobs_iff.mp mem) live.1))
  rw [Queue.recoverStaleWorkerLeases, none]
  rfl

theorem settleRecovered_jobs (recovered : List String) :
    (q.settleRecovered utc recovered).jobs = q.jobs := by
  rw [Queue.settleRecovered]
  generalize recovered.dedup = workers
  induction workers generalizing q with
  | nil => rfl
  | cons w workers ih => exact ih

theorem worker?_settleRecovered (recovered : List String) (id : String) :
    (q.settleRecovered utc recovered).worker? id =
      if id ∈ recovered then (q.worker? id).map (·.releaseSlots (recovered.count id) utc)
      else q.worker? id := by
  have loop : ∀ (workers : List String) (q : Queue), workers.Nodup →
      (workers.foldl (Queue.settleWorker utc recovered) q).worker? id =
        if id ∈ workers then (q.worker? id).map (·.releaseSlots (recovered.count id) utc)
        else q.worker? id := by
    intro workers
    induction workers with
    | nil => exact fun _ _ => rfl
    | cons w workers ih =>
      intro q nodup
      obtain ⟨fresh, nodup⟩ := List.nodup_cons.mp nodup
      rw [List.foldl_cons, ih _ nodup, Queue.settleWorker, Queue.worker?_updateWorker]
      by_cases here : id = w
      · subst here
        rw [if_neg fresh, if_pos rfl, if_pos List.mem_cons_self]
      · simp only [List.mem_cons, here, false_or, if_false]
  rw [Queue.settleRecovered, loop _ _ (List.nodup_dedup _)]
  simp only [List.mem_dedup]

theorem recoverExpiredLeases_all
    (past : ∀ id row, q.job? id = some row → row.state.active →
      0 < row.leaseExpiresAt ∧ row.leaseExpiresAt ≤ recoveryCutoff env a)
    (counted : ∀ id w, q.worker? id = some w → w.activeLeases = q.heldLeases id) :
    Sat (q.recoverExpiredLeases env b a)
      (fun r => q.TakesBack r.2 ∧ (∀ id row, r.2.job? id = some row → row.state.active = false) ∧
        ∀ id w, r.2.worker? id = some w → w.activeLeases = 0) (· = fenceCollision) := by
  simp only [Queue.recoverExpiredLeases, sat_bind, sat_pure]
  generalize cutoff_eq : recoveryCutoff env a = cutoff at past ⊢
  have perm := List.perm_insertionSort (fun a b : Job => a.leaseWorkerId < b.leaseWorkerId ∨
    (a.leaseWorkerId = b.leaseWorkerId ∧ a.jobId ≤ b.jobId)) (q.jobs.rows.filter fun row =>
    row.state.active && decide (0 < row.leaseExpiresAt ∧ row.leaseExpiresAt ≤ cutoff))
  have all : (q.jobs.rows.filter fun row =>
      row.state.active && decide (0 < row.leaseExpiresAt ∧ row.leaseExpiresAt ≤ cutoff)) =
      q.jobs.rows.filter fun row => row.state.active := by
    refine List.filter_congr fun row mem => ?_
    cases active : row.state.active with
    | false => rfl
    | true => exact decide_eq_true (past _ row (Queue.mem_jobs_iff.mp mem) active)
  rw [all] at perm
  have held (w : String) :
      (q.expiredLeaseCandidates cutoff).countP (fun row => row.leaseWorkerId = w) = q.activeCount w := by
    rw [Queue.activeCount, Queue.expiredLeaseCandidates, all, perm.countP_eq, List.countP_filter]
    congr 1
    refine List.countP_congr fun row _ => ?_
    simp [Job.heldBy, and_comm]
  let inv (rest : List Job) (acc : List String × Queue) : Prop :=
    acc.2.jobs.Current rest ∧ (∀ row ∈ rest, row.state.active ∧ q.job? row.jobId = some row) ∧
      q.TakesBack acc.2 ∧ acc.2.workers = q.workers ∧
      (∀ id row, acc.2.job? id = some row → row.state.active → row ∈ rest) ∧
      ∀ w, (acc.1.count w : Int) + rest.countP (fun row => row.leaseWorkerId = w) = q.activeCount w
  have mem_candidates {row : Job} : row ∈ q.expiredLeaseCandidates cutoff ↔
      q.job? row.jobId = some row ∧ row.state.active := by
    rw [Queue.expiredLeaseCandidates, all, perm.mem_iff, List.mem_filter, Queue.mem_jobs_iff]
  have start : inv (q.expiredLeaseCandidates cutoff) ([], q) := by
    refine ⟨?_, fun row mem => (mem_candidates.mp mem).symm, .refl q, rfl, fun id row found active => ?_,
      fun w => ?_⟩
    · rw [Queue.expiredLeaseCandidates, all]
      exact (q.jobs.current_filter _).perm perm
    · rw [← Queue.job?_jobId found] at found
      exact mem_candidates.mpr ⟨found, active⟩
    · rw [held]
      exact Int.zero_add _
  suffices round : ∀ row rest acc, inv (row :: rest) acc →
      Sat (Queue.recoverExpiredLease b cutoff a acc row) (inv rest) (· = fenceCollision) by
    refine (Sat.foldlM round _ _ start).mono ?_ fun _ he => he
    rintro ⟨recovered, q'⟩ ⟨-, -, back, workers, idle, count⟩
    refine ⟨back.congr (settleRecovered_jobs recovered), fun id row found => ?_, fun id w found => ?_⟩
    · rw [Queue.job?, settleRecovered_jobs] at found
      by_contra active
      exact List.not_mem_nil (idle id row found (by simpa using active))
    · have settled : (recovered.count id : Int) = q.activeCount id := by simpa using count id
      rw [worker?_settleRecovered, show q'.worker? id = q.worker? id by
        rw [Queue.worker?, show q'.workers = q.workers from workers, Queue.worker?]] at found
      have below : q.heldLeases id ≤ recovered.count id := by
        rw [Queue.heldLeases]
        split
        · exact Int.natCast_nonneg _
        · exact settled.ge
      have some_held : 0 ≤ q.heldLeases id := by
        rw [Queue.heldLeases]
        split
        · exact le_refl _
        · exact q.activeCount_nonneg id
      split at found
      next =>
        obtain ⟨w', found', rfl⟩ := Option.map_eq_some_iff.mp found
        have := counted id w' found'
        show max 0 (w'.activeLeases - recovered.count id) = 0
        omega
      next fresh =>
        have := counted id w found
        rw [List.count_eq_zero.mpr fresh] at below
        omega
  rintro row rest ⟨recovered, q'⟩ ⟨current, each, back, workers, idle, count⟩
  obtain ⟨⟨active, first⟩, each⟩ := List.forall_mem_cons.mp each
  have found : q'.job? row.jobId = some row := current.head
  unfold Queue.recoverExpiredLease
  dsimp only
  rw [found]
  dsimp only
  rw [if_pos ⟨rfl, rfl, rfl, past _ row first active⟩]
  simp only [sat_bind, sat_pure]
  refine (takeBack_sat env found active rfl rfl rfl).mono ?_ fun _ he => he
  rintro q'' ⟨same, jobs⟩
  refine ⟨current.tail fun id other => (jobs id).trans (if_neg other), each,
    back.release first active jobs, same.trans workers, fun id row' found' active' => ?_, fun w => ?_⟩
  · have looked := jobs id
    rw [show q''.job? id = some row' from found'] at looked
    split at looked
    next =>
      cases looked
      rw [show (row.release row.releaseTarget _ _).state = row.releaseTarget from rfl,
        row.not_active_releaseTarget] at active'
      cases active'
    next other =>
      rcases List.mem_cons.mp (idle id row' looked.symm active') with rfl | mem
      · exact absurd (Queue.job?_jobId looked.symm).symm other
      · exact mem
  · have before := count w
    dsimp only at before ⊢
    rw [List.count_cons, List.countP_cons] at *
    by_cases own : row.leaseWorkerId = w <;> simp [own] at before ⊢ <;> omega

end Sweeps

namespace Queue

variable {env : Env} {q : Queue} {domain : String} {mono epoch : ℚ} {reconcile stale expired : SweepArgs}

/-- Where the work of the old boot goes. -/
structure Restarted (q q' : Queue) : Prop where
  idle : ∀ id row, q'.job? id = some row → row.state ≠ .leased ∧ row.state ≠ .running
  absent : ∀ id, q.job? id = none → q'.job? id = none
  lost : ∀ id row, q.job? id = some row → row.state = .leased ∨ row.state = .running →
    ∃ row', q'.job? id = some row' ∧ row'.state =
      if row.sideEffectMode = .nonIdempotent ∧ row.sideEffectState = .started then .reviewRequired
      else if row.attempt < row.maxAttempts then .queued
      else .failed
  others : ∀ id row, q.job? id = some row → row.state ≠ .leased → row.state ≠ .running →
    q'.job? id = some row
  released : ∀ id w, q'.worker? id = some w → w.activeLeases = 0

theorem job?_initializeLeaseClock (set : q.leaseClockAnchor.isSome) (distrusted : q.anchored domain mono = false)
    (id : String) : (q.initializeLeaseClock .sqlite domain mono epoch).job? id =
      (q.job? id).map fun row => if row.state.active then row.distrustLease else row := by
  have same : Queue.anchored { q with idempotencyBackfillComplete := false } domain mono = false :=
    distrusted
  rw [← q.job?_distrustLeases, initializeLeaseClock]
  simp only [same, set, true_or, if_true, Bool.false_eq_true, if_false]
  rfl

/-- In another boot domain, or behind the anchor, `initialize` leaves no lease over. -/
theorem initializeFrom_restarted (env : Env) (q : Queue) (anchor : ClockAnchor) (domain : String)
    (mono epoch : ℚ) (reconcile stale expired : SweepArgs) (set : q.leaseClockAnchor = some anchor)
    (other : domain ≠ anchor.domain ∨ mono < anchor.monotonic)
    (unforced : stale.now = none ∧ expired.now = none)
    (late : 1 + env.grace < stale.reading ∧ 1 + env.grace < expired.reading) :
    Sat (q.initializeFrom env .sqlite domain mono epoch reconcile stale expired) q.Restarted
      (· = fenceCollision) := by
  have distrusted : q.anchored domain mono = false := by
    rw [anchored, set]
    refine decide_eq_false fun trusted => ?_
    rcases other with moved | behind
    · exact moved trusted.1.symm
    · exact absurd trusted.2 (not_le.mpr behind)
  have graced : 0 ≤ env.grace := le_max_left _ _
  have dated (id : String) : (q.initializeLeaseClock .sqlite domain mono epoch).job? id = _ :=
    job?_initializeLeaseClock (by rw [set]; rfl) distrusted id
  simp only [initializeFrom, initializeQueue, List.foldlM_cons, List.foldlM_nil, Op.exec, returning, silently,
    sat_bind, sat_pure, sat_ok]
  refine backfillTerminalFences_keeps.mono ?_ fun _ he => he
  rintro filled ⟨same, -⟩
  have start (id : String) : filled.job? id =
      (q.job? id).map fun row => if row.state.active then row.distrustLease else row := by
    rw [← dated id, job?, same, job?]
  refine (reconcileDurableState_takesBack env).mono ?_ fun _ he => he
  rintro ⟨summary, reconciled⟩ ⟨back, counted⟩
  have second : ∀ id row, reconciled.job? id = some row → row.state.active → row.leaseExpiresAt = 1 := by
    intro id row found active
    cases first : filled.job? id with
    | none =>
      rw [back.absent id first] at found
      cases found
    | some row₁ =>
      obtain ⟨row', found', taken⟩ := back.found id row₁ first
      obtain rfl := Option.some.inj (found.symm.trans found')
      rcases taken with rfl | ⟨-, code, utc, rfl⟩
      · obtain ⟨row₀, -, rfl⟩ := Option.map_eq_some_iff.mp ((start id).symm.trans first)
        split at active
        next was => rw [if_pos was]; rfl
        next was => exact absurd active was
      · rw [show (row₁.release row₁.releaseTarget code utc).state = row₁.releaseTarget from rfl,
          row₁.not_active_releaseTarget] at active
        cases active
  have current (a : SweepArgs) (plain : a.now = none) : a.current = a.reading := by
    rw [SweepArgs.current, plain]
    rfl
  have idle : reconciled.recoverStaleWorkerLeases .sqlite stale = .ok (0, reconciled) := by
    refine recoverStaleWorkerLeases_idle fun id row found active => ?_
    rw [second id row found active, current stale unforced.1]
    linarith [late.1]
  simp only [idle, sat_ok]
  refine (recoverExpiredLeases_all (fun id row found active => ?_) counted).mono ?_ fun _ he => he
  · rw [second id row found active, recoveryCutoff, current expired unforced.2, unforced.2]
    refine ⟨one_pos, ?_⟩
    show (1 : ℚ) ≤ expired.reading - env.grace
    linarith [late.2]
  rintro ⟨n, final⟩ ⟨back', done, free⟩
  have not_active {row : Job} : row.state.active = false ↔ row.state ≠ .leased ∧ row.state ≠ .running := by
    cases row.state <;> simp [JobState.active]
  refine ⟨fun id row found => not_active.mp (done id row found), fun id none => ?_, fun id row found held => ?_,
    fun id row found unleased unstarted => ?_, free⟩
  · exact back'.absent id (back.absent id (by rw [start, none]; rfl))
  · have active : row.state.active = true := by rcases held with h | h <;> rw [h] <;> rfl
    have first : filled.job? id = some row.distrustLease := by
      rw [start, found, Option.map_some, if_pos active]
    obtain ⟨row₁, found₁, taken₁⟩ := back.found id _ first
    obtain ⟨row₂, found₂, taken₂⟩ := back'.found id _ found₁
    refine ⟨row₂, found₂, ?_⟩
    have target : row₂.state = row.releaseTarget := by
      rcases taken₁ with rfl | ⟨-, code, utc, rfl⟩
      · rcases taken₂ with rfl | ⟨-, code, utc, rfl⟩
        · have ended := done id _ found₂
          rw [show row.distrustLease.state = row.state from rfl, active] at ended
          cases ended
        · rfl
      · rcases taken₂ with rfl | ⟨again, -⟩
        · rfl
        · have ended : row.distrustLease.releaseTarget.active = true := again
          rw [Job.not_active_releaseTarget] at ended
          cases ended
    rw [target, Job.releaseTarget, Job.mayHaveRun]
    simp
  · have inactive := not_active.mpr ⟨unleased, unstarted⟩
    have first : filled.job? id = some row := by
      rw [start, found, Option.map_some, if_neg (by simp [inactive])]
    obtain ⟨row₁, found₁, taken₁⟩ := back.found id _ first
    obtain ⟨row₂, found₂, taken₂⟩ := back'.found id _ found₁
    rcases taken₁ with rfl | ⟨active, -⟩
    · rcases taken₂ with rfl | ⟨active, -⟩
      · exact found₂
      · rw [inactive] at active
        cases active
    · rw [inactive] at active
      cases active

/-- A started call that must not be repeated, on a machine that was booted again. -/
def sampleBoot : Queue :=
  (queueMachine sampleEnv .sqlite).run { Queue.empty with leaseClockAnchor := some ⟨"boot-a", 50, 100⟩ }
    [sampleWorker "w" 1, sampleJob "j" "k" "non_idempotent", sampleLease "w" "token-a",
      .markSideEffectStarted (sampleCall "j" "w" "token-a")]

theorem sampleBoot_restarted : sampleBoot.leaseClockAnchor = some ⟨"boot-a", 50, 100⟩ ∧
    Sat (sampleBoot.initializeFrom sampleEnv .sqlite "boot-b" 7 200 ⟨200, none, "", fun _ => ""⟩
      ⟨201, none, "", fun _ => ""⟩ ⟨202, none, "", fun _ => ""⟩) sampleBoot.Restarted
      (· = fenceCollision) :=
  have set : sampleBoot.leaseClockAnchor = some ⟨"boot-a", 50, 100⟩ := by decide +kernel
  ⟨set, initializeFrom_restarted sampleEnv sampleBoot _ "boot-b" 7 200 _ _ _ set (.inl (by decide))
    ⟨rfl, rfl⟩ ⟨by decide +kernel, by decide +kernel⟩⟩

end Queue

end Arenyxa.Distributed
