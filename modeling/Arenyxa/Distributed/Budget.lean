import Arenyxa.Distributed.Runs

/-! The attempt budget. Nothing compares attempts when a lease is granted; a requeued job always
has an attempt left because the paths that requeue it compare first. -/

namespace Arenyxa.Distributed

open Outcome

/-- `granted` leases of a job with budget `maxAttempts` after `retries` approvals. -/
structure Budget (maxAttempts granted retries : Int) (o : Option Job) : Prop where
  retried : 0 ≤ retries
  bound : granted ≤ maxAttempts + retries
  row : ∀ row, o = some row → row.maxAttempts = maxAttempts ∧ row.attempt = granted ∧
    (row.state = .queued → granted < maxAttempts + retries)

/-- The leases of one job among those granted. -/
def leaseCount (id : String) (leases : List DistributedLease) : Nat :=
  leases.countP fun lease => lease.jobId = id

/-- The leases ever granted for a job in a history. -/
def grantCount (id : String) (history : List (Queue × Op × Result)) : Nat :=
  (history.map fun x => leaseCount id x.2.2.granted).sum

/-- The operator's successful retries of a job in a history. -/
def retryCount (id : String) (history : List (Queue × Op × Result)) : Nat :=
  history.countP fun x => x.2.1.retries id

def Label.grantsJob (id : String) (l : Label) : Bool := l.grant?.any (·.jobId = id)

def Label.retriesJob (id : String) : Label → Bool
  | .moved id' (.approveRetry _) _ => id' = id
  | _ => false

section Steps

variable {sha : Sha256} {id : String} {l : Label} {ls : List Label} {o o' : Option Job} {row : Job}
  {maxAttempts granted retries : Int}

theorem Job.attempt_lt_of_requeued {retryable : Bool} (h : row.releaseTarget retryable = .queued) :
    row.attempt < row.maxAttempts := by
  unfold Job.releaseTarget at h
  split_ifs at h with _ again
  exact again.2

theorem Budget.unqueued (h : Budget maxAttempts granted retries (some row)) {new : Job}
    (budget : new.maxAttempts = row.maxAttempts) (count : new.attempt = row.attempt)
    (unqueued : new.state ≠ .queued) : Budget maxAttempts granted retries (some new) := by
  obtain ⟨same, attempts, -⟩ := h.row row rfl
  refine ⟨h.retried, h.bound, ?_⟩
  rintro _ ⟨⟩
  exact ⟨budget.trans same, count.trans attempts, fun queued => absurd queued unqueued⟩

theorem Budget.lease (h : Budget maxAttempts granted retries (some row)) (queued : row.state = .queued)
    (worker digest utc : String) (expires : ℚ) :
    Budget maxAttempts (granted + 1) retries (some (row.lease worker digest expires utc)) := by
  obtain ⟨same, attempts, left⟩ := h.row row rfl
  have free := left queued
  refine ⟨h.retried, by omega, ?_⟩
  rintro _ ⟨⟩
  exact ⟨same, congrArg (· + 1) attempts, fun queued => by cases queued⟩

theorem Budget.approveRetry (h : Budget maxAttempts granted retries (some row)) (utc : String) :
    Budget maxAttempts granted (retries + 1) (some (row.approveRetry utc)) := by
  obtain ⟨same, attempts, -⟩ := h.row row rfl
  have bound := h.bound
  have retried := h.retried
  refine ⟨by omega, by omega, ?_⟩
  rintro _ ⟨⟩
  exact ⟨same, attempts, fun _ => by omega⟩

theorem Budget.release (h : Budget maxAttempts granted retries (some row)) (retryable : Bool)
    (code utc : String) :
    Budget maxAttempts granted retries (some (row.release (row.releaseTarget retryable) code utc)) := by
  obtain ⟨same, attempts, -⟩ := h.row row rfl
  have retried := h.retried
  refine ⟨retried, h.bound, ?_⟩
  rintro _ ⟨⟩
  refine ⟨same, attempts, fun queued => ?_⟩
  have again := Job.attempt_lt_of_requeued queued
  omega

theorem Budget.gone {o : Option Job} (h : Budget maxAttempts granted retries o) :
    Budget maxAttempts granted retries none :=
  ⟨h.retried, h.bound, fun _ hrow => by cases hrow⟩

theorem JobState.ne_queued_of_active {s : JobState} (h : s.active) : s ≠ .queued := by
  rintro rfl
  cases h

theorem Label.jobId?_of_grantsJob (h : l.grantsJob id) : l.jobId? = some id := by
  obtain ⟨g, grant, named⟩ := (Option.any_eq_true _ _).mp h
  obtain ⟨expires, utc, entry, rfl⟩ := Label.eq_of_grant? grant
  exact congrArg some (of_decide_eq_true named)

theorem Label.jobId?_of_retriesJob (h : l.retriesJob id) : l.jobId? = some id := by
  cases l with
  | moved id' mv entry =>
    cases mv with
    | approveRetry => exact congrArg some (of_decide_eq_true h)
    | lease | start | renew | saveCheckpoint | startSideEffect | release | complete => cases h
  | entered | distrusted | enrolled | redeclared | reckoned | fenced | erased | dropped | flagged =>
    cases h

theorem RowStep.budget (h : RowStep sha id l o o')
    (uncreated : ∀ row e, l = .entered row e → row.jobId ≠ id)
    (budget : Budget maxAttempts granted retries o) :
    Budget maxAttempts (granted + if l.grantsJob id then 1 else 0)
      (retries + if l.retriesJob id then 1 else 0) o' := by
  cases h with
  | entered named => exact absurd named (uncreated _ _ rfl)
  | moved named permitted =>
    rename_i row mv entry _ _
    cases mv with
    | lease worker token expires utc =>
      simpa [Label.grantsJob, Label.retriesJob, Label.grant?, Move.apply] using
        budget.lease permitted.1 worker (sha.hexdigest token) utc expires
    | approveRetry utc =>
      simpa [Label.grantsJob, Label.retriesJob, Label.grant?, Move.apply] using
        budget.approveRetry utc
    | release target code utc =>
      obtain ⟨-, retryable, rfl⟩ := permitted
      simpa [Label.grantsJob, Label.retriesJob, Label.grant?, Move.apply] using
        budget.release retryable code utc
    | start utc =>
      have next : Budget maxAttempts granted retries (some (row.start utc)) :=
        budget.unqueued rfl rfl (by simp [Job.start])
      simpa [Label.grantsJob, Label.retriesJob, Label.grant?, Move.apply] using next
    | complete json resultSha worker tokenSha utc =>
      have next : Budget maxAttempts granted retries
          (some (row.complete json resultSha worker tokenSha utc)) :=
        budget.unqueued rfl rfl (by simp [Job.complete])
      simpa [Label.grantsJob, Label.retriesJob, Label.grant?, Move.apply] using next
    | renew expires utc =>
      have next : Budget maxAttempts granted retries (some (row.renew expires utc)) :=
        budget.unqueued rfl rfl (JobState.ne_queued_of_active permitted.1)
      simpa [Label.grantsJob, Label.retriesJob, Label.grant?, Move.apply] using next
    | saveCheckpoint json sequence utc =>
      have next : Budget maxAttempts granted retries (some (row.saveCheckpoint json sequence utc)) :=
        budget.unqueued rfl rfl (JobState.ne_queued_of_active permitted)
      simpa [Label.grantsJob, Label.retriesJob, Label.grant?, Move.apply] using next
    | startSideEffect utc =>
      have next : Budget maxAttempts granted retries (some (row.startSideEffect utc)) :=
        budget.unqueued rfl rfl (JobState.ne_queued_of_active permitted.1)
      simpa [Label.grantsJob, Label.retriesJob, Label.grant?, Move.apply] using next
  | distrusted active =>
    rename_i row
    have same : Budget maxAttempts granted retries (some row.distrustLease) :=
      budget.unqueued rfl rfl (JobState.ne_queued_of_active active)
    simpa [Label.grantsJob, Label.retriesJob, Label.grant?] using same
  | erased => simpa [Label.grantsJob, Label.retriesJob, Label.grant?] using budget.gone
  | other untouched =>
    rw [if_neg fun h => untouched (Label.jobId?_of_grantsJob h),
      if_neg fun h => untouched (Label.jobId?_of_retriesJob h)]
    simpa using budget

theorem Path.budget {o o' : Option Job} (h : Path (fun o l o' => RowStep sha id l o o') o ls o')
    (uncreated : ∀ row e, .entered row e ∈ ls → row.jobId ≠ id)
    (budget : Budget maxAttempts granted retries o) :
    Budget maxAttempts (granted + ls.countP (Label.grantsJob id))
      (retries + ls.countP (Label.retriesJob id)) o' := by
  induction h generalizing granted retries with
  | nil => simpa using budget
  | cons step _ ih =>
    rename_i l ls
    have next := ih (fun row e h => uncreated row e (List.mem_cons_of_mem _ h))
      (step.budget (fun row e h => uncreated row e (h ▸ List.mem_cons_self)) budget)
    rw [List.countP_cons, List.countP_cons]
    convert next using 1 <;> push_cast <;> split_ifs <;> omega

end Steps

section Operations

variable {env : Env} {b : Backend} {q q' : Queue} {op : Op} {ls : List Label} {id : String}
  {maxAttempts granted retries : Int}

theorem Budget.mono {retries' : Int} {o : Option Job} (h : Budget maxAttempts granted retries o)
    (more : retries ≤ retries') : Budget maxAttempts granted retries' o := by
  obtain ⟨retried, bound, row⟩ := h
  refine ⟨by omega, by omega, fun r hr => ?_⟩
  obtain ⟨same, attempts, left⟩ := row r hr
  exact ⟨same, attempts, fun queued => by have := left queued; omega⟩

theorem Account.countP_grantsJob {r : Result} (account : Account env b q op ls r) :
    ls.countP (Label.grantsJob id) = leaseCount id r.granted := by
  have grants := congrArg (List.countP fun g : Grant => g.jobId = id) account.grants
  rw [List.countP_filterMap, List.countP_map] at grants
  have same : Label.grantsJob id =
      fun l => (l.grant?.map fun g => decide (g.jobId = id)).getD false := by
    funext l
    cases h : l.grant? <;> simp [Label.grantsJob, h]
  rw [same, grants]
  rfl

theorem Account.countP_retriesJob {r : Result} (account : Account env b q op ls r) :
    ls.countP (Label.retriesJob id) ≤ if op.retries id then 1 else 0 := by
  have shape : ∀ l ∈ ls, l.retriesJob id → op.retries id ∧ l.logs id := by
    intro l hl h
    cases l with
    | moved id' mv entry =>
      cases mv with
      | approveRetry utc =>
        obtain rfl : id' = id := of_decide_eq_true h
        obtain ⟨retries, e, rfl⟩ := (account.emits _ hl).approveRetry
        exact ⟨retries, by simp [Label.logs, Label.entry?]⟩
      | lease | start | renew | saveCheckpoint | startSideEffect | release | complete => cases h
    | entered | distrusted | enrolled | redeclared | reckoned | fenced | erased | dropped | flagged =>
      cases h
  split_ifs with retried
  · exact (List.countP_mono_left fun l hl h => (shape l hl h).2).trans (account.once id)
  · exact (List.countP_eq_zero.mpr fun l hl h => retried (shape l hl h).1).le

theorem Accounted.budget {r : Result × Queue} (h : Accounted env b q op r)
    (uncreated : op.created? ≠ some id) (budget : Budget maxAttempts granted retries (q.job? id)) :
    Budget maxAttempts (granted + leaseCount id r.1.granted)
      (retries + if op.retries id then 1 else 0) (r.2.job? id) := by
  obtain ⟨ls, transaction, account⟩ := h
  have next := Path.budget (transaction.row id)
    (fun row e hl named => uncreated (named ▸ (account.emits _ hl).entered)) budget
  rw [account.countP_grantsJob] at next
  apply next.mono
  have once : ls.countP _ ≤ if op.retries id then 1 else 0 := account.countP_retriesJob
  split_ifs at once ⊢ <;> omega

theorem Accounted.leaseCount_absent {r : Result × Queue} (h : Accounted env b q op r)
    (uncreated : op.created? ≠ some id) (absent : q.job? id = none) :
    leaseCount id r.1.granted = 0 := by
  refine List.countP_eq_zero.mpr fun lease granted named => ?_
  obtain rfl : lease.jobId = id := of_decide_eq_true named
  obtain ⟨ls, transaction, account⟩ := h
  obtain ⟨ls₁, l, ls₂, row, expires, utc, rfl, -, before, -⟩ := account.granted transaction granted
  have still : some row = none := before.invariant (P := fun o => o = none) ?_ absent
  · cases still
  rintro o l o' hl step rfl
  cases step with
  | entered named =>
    exact absurd (named ▸ (account.emits _ (List.mem_append_left _ hl)).entered) uncreated
  | other => rfl

theorem Budget.of_fresh {row : Job} (fresh : row.Fresh) (retried : 0 ≤ retries) :
    Budget row.maxAttempts 0 retries (some row) := by
  have one := fresh.maxAttempts
  refine ⟨retried, by omega, ?_⟩
  rintro _ ⟨⟩
  exact ⟨rfl, fresh.attempt, fun _ => by omega⟩

end Operations

section Runs

variable {env : Env} {b : Backend} {q : Queue} {id : String}

theorem grantCount_append (h h' : List (Queue × Op × Result)) :
    grantCount id (h ++ h') = grantCount id h + grantCount id h' := by
  simp [grantCount]

theorem retryCount_append (h h' : List (Queue × Op × Result)) :
    retryCount id (h ++ h') = retryCount id h + retryCount id h' := by
  simp [retryCount]

theorem Sound.budget_run (env : Env) (b : Backend) (hs : Sound q.opened) {maxAttempts granted retries : Int} {ops : List Op}
    (uncreated : ∀ op ∈ ops, op.created? ≠ some id)
    (budget : Budget maxAttempts granted retries (q.job? id)) :
    Budget maxAttempts (granted + grantCount id ((queueMachine env b).commits q ops))
      (retries + retryCount id ((queueMachine env b).commits q ops))
      (((queueMachine env b).run q ops).job? id) := by
  induction ops generalizing q granted retries with
  | nil => simpa [grantCount, retryCount] using budget
  | cons op ops ih =>
    obtain ⟨first, rest⟩ := List.forall_mem_cons.mp uncreated
    cases h : (queueMachine env b).exec op q with
    | ok r =>
      have committed : op.exec env b q = .ok r := h
      have next := ih (hs.exec committed) rest ((hs.accounted committed).budget first budget)
      rw [Machine.commits_cons_ok ops h, Machine.run_cons, Machine.next_ok h]
      simp only [grantCount, retryCount, List.map_cons, List.sum_cons, List.countP_cons] at next ⊢
      convert next using 1
      · push_cast
        omega
      · push_cast
        split_ifs <;> omega
    | error e =>
      rw [Machine.commits_cons_error ops h, Machine.run_cons, Machine.next_error h]
      exact ih hs rest budget

/-- Up to its creation a job has no leases, and from then on it keeps to its budget. -/
structure Budgeted (id : String) (ops : List Op) (history : List (Queue × Op × Result))
    (o : Option Job) : Prop where
  unborn : id ∉ ops.filterMap Op.created? → o = none ∧ grantCount id history = 0
  kept : ∀ row, o = some row →
    Budget row.maxAttempts (grantCount id history) (retryCount id history) (some row)

theorem budgeted_commit {ops : List Op} {op : Op} {r : Result × Queue}
    (fresh : FreshIds (ops ++ [op])) (hs : Sound q.opened) (h : op.exec env b q = .ok r)
    {past : List (Queue × Op × Result)} (budgeted : Budgeted id ops past (q.job? id)) :
    Budgeted id (ops ++ [op]) (past ++ [(q, op, r.1)]) (r.2.job? id) := by
  have account := hs.accounted h
  have granted : grantCount id (past ++ [(q, op, r.1)]) =
      grantCount id past + leaseCount id r.1.granted := by
    simp [grantCount]
  have retried : retryCount id (past ++ [(q, op, r.1)]) =
      retryCount id past + if op.retries id then 1 else 0 := by
    simp [retryCount, List.countP_singleton]
  by_cases created : op.created? = some id
  · have unborn : id ∉ ops.filterMap Op.created? := fun drawn =>
      fresh.not_created drawn (List.mem_singleton_self op) created
    obtain ⟨absent, none⟩ := budgeted.unborn unborn
    cases op with
    | enqueue a =>
      have ungranted : r.1.granted = [] := by
        simp only [Op.exec, returning, bind_eq_ok] at h
        obtain ⟨s, -, hr⟩ := h
        cases hr
        rfl
      rw [ungranted, none] at granted
      refine ⟨fun unborn => absurd ?_ unborn, fun row found => ?_⟩
      · exact mem_created_snoc.mpr (.inr created)
      · rw [show grantCount id _ = 0 from granted]
        exact Budget.of_fresh (account.fresh absent row found) (Int.natCast_nonneg _)
    | _ => cases created
  · constructor
    · intro unborn
      obtain ⟨absent, none⟩ := budgeted.unborn fun drawn =>
        unborn (mem_created_snoc.mpr (.inl drawn))
      refine ⟨?_, by rw [granted, none, account.leaseCount_absent created absent]⟩
      cases found : r.2.job? id with
      | none => rfl
      | some row =>
        have old := (account.job?_isSome (Option.isSome_iff_exists.mpr ⟨row, found⟩)).resolve_right
          created
        rw [absent] at old
        cases old
    · intro row found
      have old := (account.job?_isSome (Option.isSome_iff_exists.mpr ⟨row, found⟩)).resolve_right
        created
      obtain ⟨row₀, found₀⟩ := Option.isSome_iff_exists.mp old
      have start := budgeted.kept row₀ found₀
      rw [← found₀] at start
      have next := account.budget created start
      rw [found] at next
      obtain ⟨same, -⟩ := next.row row rfl
      rw [same, granted, retried]
      exact_mod_cast next

theorem budgeted_reached (env : Env) (b : Backend) {ops : List Op} (fresh : FreshIds ops) (id : String) :
    Budgeted id ops (Queue.history env b ops) ((Queue.reached env b ops).job? id) := by
  revert fresh
  let P (ops : List Op) (q : Queue) : Prop :=
    FreshIds ops → Budgeted id ops (Queue.history env b ops) (q.job? id)
  refine Machine.run_induct (M := queueMachine env b) (P := P) ?_ ?_ ?_ ops
  · exact fun _ => ⟨fun _ => ⟨rfl, rfl⟩, fun _ found => by cases found⟩
  · intro ops op o q' ih h fresh
    rw [Queue.history, Machine.commits_snoc_ok h]
    exact budgeted_commit fresh (sound_reached env b ops) h (ih (fresh.left))
  · intro ops op e ih h fresh
    obtain ⟨unborn, kept⟩ := ih fresh.left
    rw [Queue.history, Machine.commits_snoc_error h]
    exact ⟨fun notDrawn => unborn fun drawn => notDrawn (mem_created_snoc.mpr (.inl drawn)), kept⟩

/-- The attempts of a job are the leases granted for it, and it is never granted more than its
budget and one for each approved retry. -/
theorem attempt_budget (before after : List Op) (fresh : FreshIds (before ++ after)) (id : String)
    (row : Job) (found : (Queue.reached env b before).job? id = some row) :
    row.attempt = grantCount id (Queue.history env b before) ∧
      grantCount id (Queue.history env b (before ++ after)) ≤
        row.maxAttempts + retryCount id (Queue.history env b (before ++ after)) := by
  have now := (budgeted_reached env b fresh.left id).kept row found
  refine ⟨(now.row row rfl).2.1, ?_⟩
  have drawn : id ∈ before.filterMap Op.created? :=
    mem_created_of_job? (Option.isSome_iff_exists.mpr ⟨row, found⟩)
  rw [← found] at now
  have later := (sound_reached env b before).budget_run env b
    (fun op hop => fresh.not_created drawn hop) now
  have bound := later.bound
  rw [Queue.history, Machine.commits_append, grantCount_append, retryCount_append]
  push_cast
  exact bound

/-- A lease, a retryable failure and a second lease. -/
def leasedTwice : List Op :=
  [sampleWorker "w" 1, sampleJob "job" "key" "idempotent", sampleLease "w" "token-a",
    .fail (sampleCall "job" "w" "token-a") "" true, sampleLease "w" "token-b"]

def leasedTwiceRow : Job :=
  ((Queue.reached sampleEnv .sqlite leasedTwice).job? "job").get (by decide +kernel)

theorem attempt_budget_sample :
    leasedTwiceRow.attempt = grantCount "job" (Queue.history sampleEnv .sqlite leasedTwice) ∧
      (grantCount "job" (Queue.history sampleEnv .sqlite (leasedTwice ++ [])) : Int) ≤
        leasedTwiceRow.maxAttempts +
          retryCount "job" (Queue.history sampleEnv .sqlite (leasedTwice ++ [])) :=
  attempt_budget leasedTwice [] (by decide) "job" leasedTwiceRow (Option.some_get _).symm

end Runs

end Arenyxa.Distributed
