import Arenyxa.Distributed.Runs

/-! A non-idempotent side effect is started at most once between two decisions of an operator. -/

namespace Arenyxa.Distributed

open Outcome

/-- The operation marks the side effect of the job. -/
def Op.marks (id : String) : Op → Bool
  | .markSideEffectStarted c => c.jobId = id
  | _ => false

/-- A committed mark of a non-idempotent job. -/
def marksEffect (id : String) (x : Queue × Op × Result) : Bool :=
  x.2.1.marks id && (x.1.job? id).any fun row => row.sideEffectMode = .nonIdempotent

/-- The effect of the job may have happened, so no path of recovery puts it back in the queue. -/
def EffectFenced : Option Job → Prop
  | none => True
  | some row => row.sideEffectMode = .nonIdempotent ∧ row.state ≠ .queued ∧
    (row.sideEffectState = .started ∨ row.state.terminal)

section Steps

variable {sha : Sha256} {id : String} {l : Label} {o o' : Option Job} {row : Job}

theorem EffectFenced.started (h : EffectFenced (some row)) (active : row.state.active) :
    row.sideEffectState = .started :=
  h.2.2.resolve_right (by simp [JobState.not_terminal_of_active active])

theorem EffectFenced.releaseTarget (h : EffectFenced (some row)) (active : row.state.active)
    (retryable : Bool) : row.releaseTarget retryable = .reviewRequired := by
  rw [Job.releaseTarget, if_pos]
  simp [Job.mayHaveRun, h.1, h.started active]

theorem EffectFenced.move {mv : Move} (h : EffectFenced (some row)) (permitted : mv.Permitted row)
    (unretried : ∀ utc, mv ≠ .approveRetry utc) : EffectFenced (some (mv.apply sha row)) := by
  cases mv with
  | lease => exact absurd permitted.1 h.2.1
  | start utc =>
    have active : row.state.active := by rw [show row.state = .leased from permitted]; rfl
    exact ⟨h.1, by simp [Move.apply, Job.start], .inl (h.started active)⟩
  | renew | saveCheckpoint => exact h
  | startSideEffect => exact absurd (h.started permitted.1) permitted.2.2
  | release target code utc =>
    obtain ⟨active, retryable, rfl⟩ := permitted
    refine ⟨h.1, ?_, .inl (h.started active)⟩
    simp [Move.apply, Job.release, h.releaseTarget active]
  | complete => exact ⟨h.1, by simp [Move.apply, Job.complete], .inr rfl⟩
  | approveRetry utc => exact absurd rfl (unretried utc)

theorem RowStep.effectFenced (h : RowStep sha id l o o')
    (uncreated : ∀ row e, l = .entered row e → row.jobId ≠ id)
    (unretried : ∀ utc e, l ≠ .moved id (.approveRetry utc) e) (fenced : EffectFenced o) :
    EffectFenced o' := by
  cases h with
  | entered named => exact absurd named (uncreated _ _ rfl)
  | moved _ permitted =>
    refine fenced.move permitted ?_
    rintro utc rfl
    exact unretried utc _ rfl
  | distrusted => exact fenced
  | erased => trivial
  | other => exact fenced

end Steps

section Operations

variable {env : Env} {b : Backend} {q : Queue} {op : Op} {r : Result × Queue} {id : String}

theorem Op.Emits.effectFenced {l : Label} {o o' : Option Job} (emits : op.Emits env b q l)
    (uncreated : op.created? ≠ some id) (unretried : op.retries id = false)
    (step : RowStep env.sha id l o o') (fenced : EffectFenced o) : EffectFenced o' := by
  refine step.effectFenced ?_ ?_ fenced
  · rintro row e rfl named
    exact uncreated (named ▸ emits.entered)
  · rintro utc e rfl
    simp [emits.approveRetry.1] at unretried

theorem Accounted.effectFenced (h : Accounted env b q op r) (uncreated : op.created? ≠ some id)
    (unretried : op.retries id = false) (fenced : EffectFenced (q.job? id)) :
    EffectFenced (r.2.job? id) :=
  h.keep (fun _ _ _ emits step => emits.effectFenced uncreated unretried step) fenced

theorem Accounted.not_granted (h : Accounted env b q op r) (uncreated : op.created? ≠ some id)
    (unretried : op.retries id = false) (fenced : EffectFenced (q.job? id)) :
    ∀ lease ∈ r.1.granted, lease.jobId ≠ id := by
  rintro lease granted rfl
  obtain ⟨ls, transaction, account⟩ := h
  obtain ⟨ls₁, l, ls₂, row, expires, utc, rfl, queued, before, -⟩ :=
    account.granted transaction granted
  have still : EffectFenced (some row) := before.invariant (fun _ l _ hl step =>
    (account.emits l (List.mem_append_left _ hl)).effectFenced uncreated unretried step) fenced
  exact still.2.1 queued

theorem Sound.marked (hs : Sound q.opened) {c : LeaseCall}
    (h : (Op.markSideEffectStarted c).exec env b q = .ok r) :
    ∃ row, q.job? c.jobId = some row ∧ row.state.active ∧
      (row.sideEffectMode = .nonIdempotent → row.sideEffectState ≠ .started ∧
        EffectFenced (r.2.job? c.jobId)) := by
  simp only [Op.exec, silently, bind_eq_ok] at h
  obtain ⟨q', h, hr⟩ := h
  cases hr
  obtain ⟨row, held, marked⟩ := (markSideEffectStarted_sat hs).of_ok h
  refine ⟨row, held.found, held.active, fun mode => ?_⟩
  rw [if_pos mode] at marked
  obtain ⟨fresh, v, transaction⟩ := marked
  rw [(transaction.job?_worked [] held.found).2]
  refine ⟨fresh, mode, ?_, .inl rfl⟩
  have active := held.active
  rintro (queued : row.state = .queued)
  rw [queued] at active
  cases active

theorem Sound.not_marked (hs : Sound q.opened) (h : op.exec env b q = .ok r)
    (fenced : EffectFenced (q.job? id)) : op.marks id = false := by
  cases op with
  | markSideEffectStarted c =>
    refine decide_eq_false ?_
    rintro rfl
    obtain ⟨row, found, active, marked⟩ := hs.marked h
    rw [found] at fenced
    exact (marked fenced.1).1 (fenced.started active)
  | _ => rfl

theorem Op.retries_inert (retries : op.retries id) (h : op.exec env b q = .ok r) :
    op.marks id = false ∧ r.1.granted = [] := by
  cases op with
  | retryReviewRequired id' utc =>
    simp only [Op.exec, silently, bind_eq_ok] at h
    obtain ⟨q', -, hr⟩ := h
    cases hr
    exact ⟨rfl, rfl⟩
  | _ => cases retries

theorem marksEffect_eq_true {x : Queue × Op × Result} (h : marksEffect id x) :
    ∃ c row, x.2.1 = .markSideEffectStarted c ∧ c.jobId = id ∧ x.1.job? id = some row ∧
      row.sideEffectMode = .nonIdempotent := by
  obtain ⟨q, op, r⟩ := x
  simp only [marksEffect, Bool.and_eq_true, Option.any_eq_true, decide_eq_true_eq] at h
  obtain ⟨marks, row, found, mode⟩ := h
  cases op with
  | markSideEffectStarted c => exact ⟨c, row, rfl, of_decide_eq_true marks, found, mode⟩
  | _ => cases marks

end Operations

section Runs

variable {env : Env} {b : Backend}

theorem Sound.effectFenced_run {q : Queue} (hs : Sound q.opened) {id : String}
    (fenced : EffectFenced (q.job? id)) {ops : List Op}
    (uncreated : ∀ op ∈ ops, op.created? ≠ some id)
    (unretried : ∀ z ∈ (queueMachine env b).commits q ops, z.2.1.retries id = false) :
    EffectFenced (((queueMachine env b).run q ops).job? id) := by
  suffices both : Sound ((queueMachine env b).run q ops).opened ∧
      EffectFenced (((queueMachine env b).run q ops).job? id) from both.2
  let inv (q : Queue) : Prop := Sound q.opened ∧ EffectFenced (q.job? id)
  refine Machine.run_keep (P := inv) ⟨hs, fenced⟩ ?_
  rintro q op o q' hm h ⟨hs, fenced⟩
  exact ⟨hs.exec h, (hs.accounted h).effectFenced
    (uncreated op (Machine.mem_of_mem_commits hm)) (unretried _ hm) fenced⟩

/-- After a mark of a non-idempotent job it is neither leased nor marked until an operator
approves a retry; so there is at most one mark more than there are retries. -/
theorem side_effect_at_most_once (ops : List Op) (fresh : FreshIds ops) (id : String) :
    (∀ pre x mid y post, Queue.history env b ops = pre ++ x :: (mid ++ y :: post) →
      marksEffect id x → (∀ z ∈ mid, z.2.1.retries id = false) →
      y.2.1.marks id = false ∧ ∀ lease ∈ y.2.2.granted, lease.jobId ≠ id) ∧
    (Queue.history env b ops).countP (marksEffect id) ≤
      1 + (Queue.history env b ops).countP fun z => z.2.1.retries id := by
  have first : ∀ pre x mid y post, Queue.history env b ops = pre ++ x :: (mid ++ y :: post) →
      marksEffect id x → (∀ z ∈ mid, z.2.1.retries id = false) →
      y.2.1.marks id = false ∧ ∀ lease ∈ y.2.2.granted, lease.jobId ≠ id := by
    rintro pre ⟨_, op, result⟩ mid ⟨_, op', result'⟩ post split marks unretried
    obtain ⟨before, after, q, rfl, rfl, -, marked, rest⟩ := Machine.commits_split split
    obtain ⟨between, later, q', rfl, rfl, rfl, h, -⟩ := Machine.commits_split rest
    obtain ⟨c, row, rfl, rfl, found, mode⟩ := marksEffect_eq_true marks
    replace marked : (Op.markSideEffectStarted c).exec env b (Queue.reached env b before) =
      .ok (result, q) := marked
    replace h : op'.exec env b ((queueMachine env b).run q between) = .ok (result', q') := h
    dsimp only at found unretried ⊢
    by_cases retries : op'.retries c.jobId
    · obtain ⟨unmarked, ungranted⟩ := Op.retries_inert retries h
      exact ⟨unmarked, by simp [ungranted]⟩
    have sound := sound_reached env b before
    have drawn : c.jobId ∈ before.filterMap Op.created? :=
      mem_created_of_job? (Option.isSome_iff_exists.mpr ⟨row, found⟩)
    have uncreated : ∀ op : Op, _ → op.created? ≠ some c.jobId := fun op => fresh.not_created drawn
    have effect : EffectFenced (q.job? c.jobId) := by
      obtain ⟨row', found', -, effect⟩ := sound.marked marked
      obtain rfl : row = row' := Option.some.inj (found.symm.trans found')
      exact (effect mode).2
    have fenced := (sound.exec marked).effectFenced_run effect
      (fun op hop => uncreated op (List.mem_cons_of_mem _ (List.mem_append_left _ hop))) unretried
    have later := (sound.exec marked).run env b between
    exact ⟨later.not_marked h fenced, (later.accounted h).not_granted
      (uncreated op' (by simp)) (by simpa using retries) fenced⟩
  refine ⟨first, Separated.countP_le ?_⟩
  intro pre x mid y post split hx hy
  by_contra none
  obtain ⟨c, row, hop, rfl, -⟩ := marksEffect_eq_true hy
  have unretried : ∀ z ∈ mid, z.2.1.retries c.jobId = false := by simpa using none
  have unmarked := (first pre x mid y post split hx unretried).1
  simp [hop, Op.marks] at unmarked

/-- A mark, a failure, the operator's approval and a second mark. -/
def markedTwice : List Op :=
  [sampleWorker "w" 1, sampleJob "job" "key" "non_idempotent", sampleLease "w" "token-a",
    .markSideEffectStarted (sampleCall "job" "w" "token-a"),
    .fail (sampleCall "job" "w" "token-a") "" true, .retryReviewRequired "job" "2030-01-01",
    sampleLease "w" "token-b", .markSideEffectStarted (sampleCall "job" "w" "token-b")]

theorem side_effect_at_most_once_sample :
    (Queue.history sampleEnv .sqlite markedTwice).countP (marksEffect "job") = 2 ∧
      (Queue.history sampleEnv .sqlite markedTwice).countP (marksEffect "job") ≤
        1 + (Queue.history sampleEnv .sqlite markedTwice).countP fun z => z.2.1.retries "job" :=
  ⟨by decide +kernel, (side_effect_at_most_once markedTwice (by decide) "job").2⟩

end Runs

end Arenyxa.Distributed
