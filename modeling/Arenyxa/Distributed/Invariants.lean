import Arenyxa.Distributed.Ledger
import Mathlib.Data.List.Chain

/-! The invariants of the durable tables. Each is kept by every statement, so it holds inside
transactions as well as between them. -/

namespace Arenyxa.Distributed

open Retention

/-- A row holds a lease exactly while it is leased or running. -/
def Job.LeaseShape (row : Job) : Prop :=
  if row.state.active then
    row.leaseWorkerId ≠ "" ∧ row.leaseTokenSha256 ≠ "" ∧ 0 < row.leaseExpiresAt
  else row.leaseWorkerId = "" ∧ row.leaseTokenSha256 = "" ∧ row.leaseExpiresAt = 0

/-- The journal of one job leads to the state of its row; a job without a row has none. -/
structure Chained (row : Option Job) (log : List JobEvent) : Prop where
  path : log.IsChain fun a b => b.fromState = some a.toState
  allowed : ∀ e ∈ log, (e.fromState, e.toState) ∈ allowedJobTransitions
  last : log.getLast?.map (·.toState) = row.map (·.state)

/-- A fence records a terminal row and no other. -/
def Queue.Sealed (q : Queue) (row : Job) : Prop :=
  if row.state.terminal then ∃ f, q.fence? row.idempotencyKey = some f ∧ f.Seals row
  else q.fence? row.idempotencyKey = none

structure Sound (L : Ledger) : Prop where
  shape : ∀ id row, L.queue.job? id = some row → row.LeaseShape
  known : ∀ id row, L.queue.job? id = some row → row.state.active →
    (L.queue.worker? row.leaseWorkerId).isSome
  named : L.queue.worker? "" = none
  fair : ∀ id w, L.queue.worker? id = some w → w.Fair L.queue (L.owed id)
  keys : (L.queue.jobs.rows.map Job.idempotencyKey).Nodup
  fences : ∀ id row, L.queue.job? id = some row → L.queue.Sealed row
  chained : ∀ id, Chained (L.queue.job? id) (L.queue.journal id)

section Moves

variable {sha : Sha256} {mv : Move} {row : Job}

theorem Job.releaseTarget_mem (row : Job) (retryable : Bool) :
    row.releaseTarget retryable ∈ [JobState.reviewRequired, .queued, .failed] := by
  unfold releaseTarget
  split_ifs <;> simp

theorem Job.not_active_releaseTarget (row : Job) (retryable : Bool) :
    (row.releaseTarget retryable).active = false := by
  unfold releaseTarget
  split_ifs <;> rfl

theorem Move.Permitted.not_terminal (h : mv.Permitted row) : row.state.terminal = false := by
  cases mv with
  | lease | start | approveRetry => simp_all [Permitted, JobState.terminal]
  | renew | saveCheckpoint | startSideEffect | release | complete =>
    simp_all [Permitted]

theorem Move.Permitted.shape (h : mv.Permitted row) (hs : row.LeaseShape) :
    (mv.apply sha row).LeaseShape := by
  cases mv with
  | lease worker token expires utc =>
    obtain ⟨-, hw, he⟩ := h
    exact ⟨hw, sha.hexdigest_ne_empty token, he⟩
  | start utc =>
    have ha : row.state.active := by rw [show row.state = .leased from h]; rfl
    rw [Job.LeaseShape, if_pos ha] at hs
    exact hs
  | renew expires utc =>
    obtain ⟨ha, he⟩ := h
    rw [Job.LeaseShape, if_pos ha] at hs
    rw [Job.LeaseShape, if_pos (show (Move.apply sha (.renew expires utc) row).state.active from ha)]
    exact ⟨hs.1, hs.2.1, he⟩
  | saveCheckpoint json sequence utc => exact hs
  | startSideEffect utc => exact hs
  | release target code utc =>
    obtain ⟨-, retryable, rfl⟩ := h
    rw [Job.LeaseShape, if_neg]
    · exact ⟨rfl, rfl, rfl⟩
    · simp [apply, Job.release, Job.not_active_releaseTarget]
  | complete => exact ⟨rfl, rfl, rfl⟩
  | approveRetry utc =>
    have ha : row.state.active = false := by rw [show row.state = .reviewRequired from h]; rfl
    rw [Job.LeaseShape, if_neg (by simp [ha])] at hs
    exact hs

theorem Move.Permitted.allowed (h : mv.Permitted row) (loud : mv.silent = false) :
    (some row.state, (mv.apply sha row).state) ∈ allowedJobTransitions := by
  cases mv with
  | lease worker token expires utc =>
    rw [h.1]
    exact (by decide : (some JobState.queued, JobState.leased) ∈ allowedJobTransitions)
  | start utc =>
    rw [show row.state = .leased from h]
    exact (by decide : (some JobState.leased, JobState.running) ∈ allowedJobTransitions)
  | renew | saveCheckpoint => simp [silent] at loud
  | startSideEffect utc =>
    have ha := h.1
    simp only [apply, Job.startSideEffect]
    revert ha
    cases row.state <;> decide
  | release target code utc =>
    obtain ⟨ha, retryable, rfl⟩ := h
    have ht := row.releaseTarget_mem retryable
    simp only [apply, Job.release]
    revert ha ht
    generalize row.releaseTarget retryable = target
    cases row.state <;> cases target <;> decide
  | complete =>
    have ha : row.state.active := h
    simp only [apply, Job.complete]
    revert ha
    cases row.state <;> decide
  | approveRetry utc =>
    rw [show row.state = .reviewRequired from h]
    exact (by decide : (some JobState.reviewRequired, JobState.queued) ∈ allowedJobTransitions)

theorem Move.state_of_silent (quiet : mv.silent = true) : (mv.apply sha row).state = row.state := by
  cases mv <;> simp_all [silent] <;> rfl

theorem Job.heldBy_of_active (h : row.state.active) (w : String) :
    row.heldBy w = decide (row.leaseWorkerId = w) := by
  rw [Job.heldBy, h, Bool.true_and]

theorem Job.heldBy_of_not_active (h : row.state.active = false) (w : String) :
    row.heldBy w = false := by
  rw [Job.heldBy, h, Bool.false_and]

theorem Move.Permitted.owes_balance (h : mv.Permitted row) (sha : Sha256) (owed : String → Int) (w : String) :
    (if (mv.apply sha row).heldBy w then 1 else 0) + mv.owes row owed w =
      (if row.heldBy w then 1 else 0) + owed w := by
  cases mv with
  | lease worker token expires utc =>
    rw [Job.heldBy_of_active (by rfl), Job.heldBy_of_not_active (by rw [h.1]; rfl)]
    by_cases hw : worker = w
    · simp [owes, apply, Job.lease, hw]
    · simp [owes, apply, Job.lease, hw, Ne.symm hw]
  | start utc =>
    rw [Job.heldBy_of_active (by rfl),
      Job.heldBy_of_active (by rw [show row.state = .leased from h]; rfl)]
    rfl
  | renew => rfl
  | saveCheckpoint => rfl
  | startSideEffect => rfl
  | release target code utc =>
    obtain ⟨ha, retryable, rfl⟩ := h
    rw [Job.heldBy_of_not_active (row.not_active_releaseTarget retryable), Job.heldBy_of_active ha]
    by_cases hw : row.leaseWorkerId = w
    · subst hw
      simp [owes, Int.add_comm]
    · simp [owes, hw, Ne.symm hw]
  | complete json resultSha worker tokenSha utc =>
    rw [Job.heldBy_of_not_active (by rfl), Job.heldBy_of_active h]
    by_cases hw : row.leaseWorkerId = w
    · subst hw
      simp [owes, Int.add_comm]
    · simp [owes, hw, Ne.symm hw]
  | approveRetry utc =>
    rw [Job.heldBy_of_not_active (by rfl),
      Job.heldBy_of_not_active (by rw [show row.state = .reviewRequired from h]; rfl)]
    rfl

end Moves

theorem Queue.jobForKey?_eq_none {q : Queue} {key : String} :
    q.jobForKey? key = none ↔ key ∉ q.jobs.rows.map Job.idempotencyKey := by
  simp [jobForKey?, List.find?_eq_none]

theorem Queue.heldIdentity?_eq_none {q : Queue} {key : String} (h : q.heldIdentity? key = none) :
    q.jobForKey? key = none ∧ q.fence? key = none := by
  unfold heldIdentity? at h
  split at h
  · cases h
  · exact ⟨‹_›, by simpa using h⟩

theorem Queue.jobForKey?_eq_some {q : Queue} (keys : (q.jobs.rows.map Job.idempotencyKey).Nodup)
    {key : String} {row : Job} :
    q.jobForKey? key = some row ↔ q.job? row.jobId = some row ∧ row.idempotencyKey = key := by
  rw [← mem_jobs_iff]
  constructor
  · intro h
    exact ⟨List.mem_of_find?_eq_some h, by simpa using List.find?_some h⟩
  · rintro ⟨hm, rfl⟩
    cases h : q.jobForKey? row.idempotencyKey with
    | none => exact absurd (List.mem_map_of_mem hm) (jobForKey?_eq_none.mp h)
    | some r =>
      have hr : r.idempotencyKey = row.idempotencyKey := by simpa using List.find?_some h
      rw [List.inj_on_of_nodup_map keys (List.mem_of_find?_eq_some h) hm hr]

section Steps

variable {sha : Sha256} {L L' : Ledger} {l : Label}

theorem Step.worker_isSome (h : Step sha L l L') {w : String}
    (hw : (L.queue.worker? w).isSome) : (L'.queue.worker? w).isSome := by
  cases h with
  | entered | moved | fenced => simpa [Queue.worker?, Queue.insertRow] using hw
  | distrusted | erased | dropped | flagged => exact hw
  | enrolled absent =>
    rw [Queue.worker?_insertWorker absent]
    split
    · rfl
    · exact hw
  | redeclared | reckoned =>
    rw [Queue.worker?_updateWorker]
    split
    · simpa using hw
    · exact hw

theorem RowStep.shape {id : String} {o o' : Option Job} (h : RowStep sha id l o o')
    (hs : ∀ row, o = some row → row.LeaseShape) : ∀ row, o' = some row → row.LeaseShape := by
  intro row hrow
  cases h with
  | entered named fresh opens =>
    cases hrow
    rw [Job.LeaseShape, if_neg (by rw [fresh.queued]; decide)]
    exact ⟨fresh.worker, fresh.token, fresh.expires⟩
  | moved named permitted silent records =>
    cases hrow
    exact permitted.shape (hs _ rfl)
  | distrusted active =>
    cases hrow
    have h := hs _ rfl
    rw [Job.LeaseShape, if_pos active] at h
    rw [Job.LeaseShape, if_pos (show (Job.distrustLease _).state.active from active)]
    exact ⟨h.1, h.2.1, by simp [Job.distrustLease]⟩
  | erased => cases hrow
  | other => exact hs row hrow

theorem Move.Permitted.holder {mv : Move} {row : Job} (h : mv.Permitted row)
    (ha : (mv.apply sha row).state.active) :
    (∃ w token expires utc, mv = .lease w token expires utc ∧
      (mv.apply sha row).leaseWorkerId = w) ∨
    (row.state.active ∧ (mv.apply sha row).leaseWorkerId = row.leaseWorkerId) := by
  cases mv with
  | lease worker token expires utc => exact .inl ⟨worker, token, expires, utc, rfl, rfl⟩
  | start utc => exact .inr ⟨by rw [show row.state = .leased from h]; rfl, rfl⟩
  | renew | saveCheckpoint | startSideEffect => exact .inr ⟨ha, rfl⟩
  | release target code utc =>
    obtain ⟨-, retryable, rfl⟩ := h
    simp [apply, Job.release, Job.not_active_releaseTarget] at ha
  | complete | approveRetry => simp [apply, Job.complete, Job.approveRetry, JobState.active] at ha

theorem Step.known (h : Step sha L l L')
    (hk : ∀ id row, L.queue.job? id = some row → row.state.active →
      (L.queue.worker? row.leaseWorkerId).isSome) :
    ∀ id row, L'.queue.job? id = some row → row.state.active →
      (L'.queue.worker? row.leaseWorkerId).isSome := by
  intro id row found active
  apply h.worker_isSome
  have hr := h.row id
  rw [found] at hr
  generalize hold : L.queue.job? id = old at hr
  cases hr with
  | entered named fresh opens => rw [fresh.queued] at active; cases active
  | moved named permitted silent records =>
    obtain ⟨w, token, expires, utc, rfl, hw⟩ | ⟨ha, hw⟩ := permitted.holder active
    · rw [hw]
      cases h with
      | moved found permitted known => exact known w token expires utc rfl
    · rw [hw]
      exact hk id _ hold ha
  | distrusted ha =>
    have held := hk id _ hold ha
    exact held
  | other => exact hk id row hold active

theorem Step.named (h : Step sha L l L') (hn : L.queue.worker? "" = none) :
    L'.queue.worker? "" = none := by
  cases h with
  | entered | moved | fenced => simpa [Queue.worker?, Queue.insertRow] using hn
  | distrusted | erased | dropped | flagged => exact hn
  | enrolled absent named =>
    rw [Queue.worker?_insertWorker absent, if_neg (Ne.symm named)]
    exact hn
  | redeclared | reckoned =>
    rw [Queue.worker?_updateWorker, hn]
    split <;> rfl

theorem Worker.Fair.congr {q q' : Queue} {o o' : Int} {w : Worker} (h : w.Fair q o)
    (e : q'.activeCount w.workerId + o' = q.activeCount w.workerId + o) : w.Fair q' o' :=
  ⟨h.balance.trans e.symm, h.revoked⟩

theorem Queue.activeCount_eq_zero {q : Queue} {w : String}
    (h : ∀ id row, q.job? id = some row → row.heldBy w = false) : q.activeCount w = 0 := by
  rw [activeCount, List.countP_eq_zero.mpr]
  · rfl
  · intro row hrow
    simp [h _ row (mem_jobs_iff.mp hrow)]

theorem Queue.activeCount_nonneg (q : Queue) (w : String) : 0 ≤ q.activeCount w :=
  Int.natCast_nonneg _

theorem Queue.activeCount_distrustLeases (q : Queue) (w : String) :
    q.distrustLeases.activeCount w = q.activeCount w := by
  simp only [activeCount, distrustLeases]
  rw [Table.countP_updateWhere_of_iff]
  intro r _ _
  rfl

theorem Queue.activeCount_insertRow {q : Queue} {row : Job} (absent : q.job? row.jobId = none)
    (fresh : row.Fresh) (w : String) : (q.insertRow row).activeCount w = q.activeCount w := by
  have count := Table.countP_insert absent (Job.heldBy w)
  rw [Job.heldBy_of_not_active (by rw [fresh.queued]; rfl)] at count
  simp only [activeCount, insertRow]
  rw [count]
  simp

theorem Step.fair (h : Step sha L l L') (hs : Sound L) :
    ∀ id w, L'.queue.worker? id = some w → w.Fair L'.queue (L'.owed id) := by
  intro id w found
  cases h with
  | entered absent free fresh opens =>
    rename_i q o row e
    have old : q.worker? id = some w := by simpa [Queue.worker?, Queue.insertRow] using found
    apply (hs.fair id w old).congr
    rw [Queue.activeCount_congr Queue.jobs_journalize, Queue.activeCount_insertRow absent fresh]
  | moved foundRow permitted known silent records agrees =>
    rename_i q o row mv entry
    have old : q.worker? id = some w := by simpa [Queue.worker?] using found
    apply (hs.fair id w old).congr
    have count := @Queue.activeCount_updateJob q row.jobId _ (mv.apply_jobId sha) row foundRow
      w.workerId
    have debt := permitted.owes_balance sha o w.workerId
    have named := Queue.worker?_workerId old
    have jobs : (q.enact sha mv row entry).activeCount w.workerId = _ :=
      Queue.activeCount_congr Queue.jobs_settle _
    rw [named] at count debt jobs ⊢
    dsimp only
    omega
  | distrusted =>
    exact (hs.fair id w found).congr (by rw [Queue.activeCount_distrustLeases])
  | enrolled absent named idle active =>
    rename_i q o new
    dsimp only at found ⊢
    rw [Queue.worker?_insertWorker absent] at found
    by_cases hid : id = new.workerId
    · rw [if_pos hid] at found
      obtain rfl : new = w := by simpa using found
      refine ⟨?_, fun hr => by rw [active] at hr; cases hr⟩
      have none_held : q.activeCount new.workerId = 0 := by
        apply Queue.activeCount_eq_zero
        intro i row hrow
        by_contra held
        have held : row.state.active ∧ row.leaseWorkerId = new.workerId := by
          simpa [Job.heldBy] using held
        have reg := hs.known i row hrow held.1
        rw [held.2, absent] at reg
        cases reg
      change new.activeLeases = q.activeCount new.workerId + _
      rw [idle, none_held, hid]
      simp
    · rw [if_neg hid] at found
      rw [Function.update_of_ne hid]
      exact (hs.fair id w found).congr rfl
  | redeclared =>
    rename_i q o new
    rw [Queue.worker?_updateWorker] at found
    split at found
    · obtain ⟨old, hold, rfl⟩ := Option.map_eq_some_iff.mp found
      have hf := hs.fair id old hold
      exact ⟨hf.balance, hf.revoked⟩
    · have hf := hs.fair id w found
      exact ⟨hf.balance, hf.revoked⟩
  | reckoned fair bounded =>
    rename_i q o i f hf k
    dsimp only at found ⊢
    rw [Queue.worker?_updateWorker] at found
    split at found
    next hid =>
      subst hid
      obtain ⟨old, hold, rfl⟩ := Option.map_eq_some_iff.mp found
      rw [Function.update_self]
      exact (fair old hold (hs.fair id old hold)).congr rfl
    next hid =>
      rw [Function.update_of_ne hid]
      exact (hs.fair id w found).congr rfl
  | fenced =>
    have old := found
    simp only [Queue.worker?, Queue.workers_upsertFence] at old
    exact (hs.fair id w old).congr (by rw [Queue.activeCount_congr Queue.jobs_upsertFence])
  | erased =>
    exact (hs.fair id w found).congr (by rw [Queue.activeCount_deleteJob])
  | dropped => exact (hs.fair id w found).congr rfl
  | flagged => exact (hs.fair id w found).congr rfl

theorem Step.keys (h : Step sha L l L')
    (hk : (L.queue.jobs.rows.map Job.idempotencyKey).Nodup) :
    (L'.queue.jobs.rows.map Job.idempotencyKey).Nodup := by
  cases h with
  | entered absent free fresh opens =>
    rename_i q o row e
    rw [Queue.jobs_journalize]
    change ((q.jobs.insert row).rows.map Job.idempotencyKey).Nodup
    rw [Table.rows_insert absent, List.map_append, List.nodup_append]
    refine ⟨hk, List.nodup_singleton _, ?_⟩
    intro a ha b hb hab
    have hnone := Queue.jobForKey?_eq_none.1 (Queue.heldIdentity?_eq_none free).1
    rw [List.map_singleton, List.mem_singleton] at hb
    exact hnone (hb ▸ hab ▸ ha)
  | moved =>
    rename_i q o row mv entry found permitted known silent records agrees
    have rows : (q.enact sha mv row entry).jobs.rows.map Job.idempotencyKey =
        q.jobs.rows.map Job.idempotencyKey := by
      rw [show (q.enact sha mv row entry).jobs = _ from Queue.jobs_settle]
      simp only [Queue.updateJob]
      rw [Table.map_modify (mv.apply_idempotencyKey sha)]
    rw [rows]
    exact hk
  | distrusted =>
    rename_i q o
    have rows : q.distrustLeases.jobs.rows.map Job.idempotencyKey =
        q.jobs.rows.map Job.idempotencyKey := by
      simp only [Queue.distrustLeases]
      rw [Table.map_updateWhere]
      exact fun _ => rfl
    rw [rows]
    exact hk
  | erased =>
    exact (List.filter_sublist.map _).nodup hk
  | fenced => simpa using hk
  | enrolled | redeclared | reckoned | dropped | flagged => exact hk

theorem Fence.seals_fence (row : Job) (m : Recording) : (row.fence m.encode).Seals row :=
  ⟨rfl, rfl, by cases m <;> rfl⟩

theorem Fence.seals_refresh {f : Fence} {row : Job} (same : f.identity = row.identity)
    (m : Recording) : ((row.fence m.encode).refresh f).Seals row :=
  ⟨same, rfl, by cases m <;> rfl⟩

theorem Queue.Sealed.congr {q q' : Queue} {row : Job} (h : q.Sealed row)
    (e : q'.fence? row.idempotencyKey = q.fence? row.idempotencyKey) : q'.Sealed row := by
  unfold Sealed at h ⊢
  rwa [e]

theorem Queue.Sealed.fence_eq_none {q : Queue} {row : Job} (h : q.Sealed row)
    (live : row.state.terminal = false) : q.fence? row.idempotencyKey = none := by
  rwa [Sealed, if_neg (by simp [live])] at h

theorem Sound.eq_of_key (hs : Sound L) {id id' : String} {row row' : Job}
    (h : L.queue.job? id = some row) (h' : L.queue.job? id' = some row')
    (key : row.idempotencyKey = row'.idempotencyKey) : row = row' :=
  List.inj_on_of_nodup_map hs.keys (Table.get?_some_iff.mp h).1 (Table.get?_some_iff.mp h').1 key

theorem Queue.fenceAgrees_iff {q : Queue} {row : Job} :
    q.fenceAgrees row ↔ ∀ f, q.fence? row.idempotencyKey = some f → f.identity = row.identity := by
  unfold fenceAgrees sameJobIdentity
  split
  next f h => simp [h]
  next h => simp [h]

theorem Queue.fence?_sealRow_ne {q : Queue} {row : Job} {m : Recording} {key : String}
    (h : key ≠ row.idempotencyKey) : (q.sealRow row m).fence? key = q.fence? key := by
  rw [fence?_sealRow, if_neg fun ⟨_, e⟩ => h e]

theorem Queue.sealed_sealRow {q : Queue} {row : Job} {m : Recording} (agrees : q.fenceAgrees row)
    (live : row.state.terminal = false → q.fence? row.idempotencyKey = none) :
    (q.sealRow row m).Sealed row := by
  unfold Sealed
  rw [fence?_sealRow]
  by_cases ht : row.state.terminal
  · rw [if_pos ht, if_pos ⟨ht, rfl⟩]
    refine ⟨_, rfl, ?_⟩
    cases hf : q.fence? row.idempotencyKey with
    | none => exact Fence.seals_fence row m
    | some f => exact Fence.seals_refresh (Queue.fenceAgrees_iff.1 agrees f hf) m
  · rw [if_neg ht, if_neg fun h => ht h.1]
    exact live (by simpa using ht)

theorem Step.sealed (h : Step sha L l L') (hs : Sound L) :
    ∀ id row, L'.queue.job? id = some row → L'.queue.Sealed row := by
  intro id row found
  cases h with
  | entered absent free fresh opens =>
    rename_i q o new e
    rw [Queue.job?_journalize, Queue.job?_insertRow absent] at found
    have fences : ∀ key, ((q.insertRow new).journalize e.recording e.values).fence? key =
        q.fence? key := fun key => by simp [Queue.fence?, Queue.insertRow]
    by_cases hid : id = new.jobId
    · rw [if_pos hid] at found
      cases found
      rw [Queue.Sealed, if_neg (by rw [fresh.queued]; decide), fences]
      exact (Queue.heldIdentity?_eq_none free).2
    · rw [if_neg hid] at found
      exact (hs.fences id row found).congr (fences _)
  | moved foundRow permitted known silent records agrees =>
    rename_i q o old mv entry
    rw [Queue.job?_enact] at found
    have live := permitted.not_terminal
    have bare : q.fence? old.idempotencyKey = none := (hs.fences _ _ foundRow).fence_eq_none live
    by_cases hid : id = old.jobId
    · rw [if_pos hid, hid, foundRow] at found
      obtain rfl : mv.apply sha old = row := by simpa using found
      cases entry with
      | none =>
        have state : (mv.apply sha old).state = old.state := Move.state_of_silent (by simpa using silent)
        rw [Queue.Sealed, if_neg (by simp [state, live]), Move.apply_idempotencyKey]
        exact bare
      | some e =>
        have sealed := @Queue.sealed_sealRow (q.updateJob old.jobId (mv.apply sha)
          (mv.apply_jobId sha)) (mv.apply sha old) e.recording
          (Queue.fenceAgrees_iff.2 (by simp [bare])) (by simp [bare])
        exact sealed.congr (Queue.fence?_settle_some e _)
    · rw [if_neg hid] at found
      have other : row.idempotencyKey ≠ old.idempotencyKey := fun key => by
        have := hs.eq_of_key found foundRow key
        exact hid (this ▸ (Queue.job?_jobId found).symm)
      apply (hs.fences id row found).congr
      cases entry with
      | none => rfl
      | some e =>
        rw [Queue.enact, Queue.fence?_settle_some, Queue.fence?_sealRow_ne (by simpa using other)]
        rfl
  | distrusted =>
    rename_i q o
    rw [Queue.job?_distrustLeases] at found
    obtain ⟨old, hold, rfl⟩ := Option.map_eq_some_iff.mp found
    have sealed := hs.fences id old hold
    split
    next active =>
      have live := JobState.not_terminal_of_active active
      rw [Queue.Sealed, if_neg (by simp [Job.distrustLease, live])]
      exact sealed.fence_eq_none live
    next => exact sealed.congr rfl
  | fenced foundRow terminal agrees =>
    rename_i q o old
    have same : q.sealRow old (.kept .sqlite) = q.upsertFence (old.fence jsonDumps) := by
      rw [Queue.sealRow, if_pos terminal]
      rfl
    simp only [Queue.job?, Queue.jobs_upsertFence] at found
    rw [← same]
    by_cases key : row.idempotencyKey = old.idempotencyKey
    · obtain rfl : row = old := hs.eq_of_key found foundRow key
      exact Queue.sealed_sealRow agrees (by simp [terminal])
    · exact (hs.fences id row found).congr (Queue.fence?_sealRow_ne key)
  | erased foundRow terminal fence seals =>
    rw [Queue.job?_deleteJob foundRow terminal] at found
    split at found
    · cases found
    · exact (hs.fences id row found).congr rfl
  | dropped =>
    rename_i q o key
    have sealed := hs.fences id row found
    apply sealed.congr
    have held : q.jobForKey? row.idempotencyKey = some row :=
      (Queue.jobForKey?_eq_some hs.keys).mpr
        ⟨Queue.mem_jobs_iff.mp (Table.get?_some_iff.mp found).1, rfl⟩
    dsimp only
    rw [Queue.fence?_deleteIdempotentFence]
    cases hf : q.fence? row.idempotencyKey with
    | none => rfl
    | some f =>
      rw [Option.filter_some_pos]
      by_cases hk : row.idempotencyKey = key
      · subst hk
        simp [held]
      · simp [hk]
  | enrolled | redeclared | reckoned | flagged => exact (hs.fences id row found).congr rfl

theorem Recording.append_eq_drop (m : Recording) (log : List JobEvent) (e : JobEvent) :
    ∃ k ≤ log.length, m.append log e = (log ++ [e]).drop k := by
  cases m with
  | kept b =>
    refine ⟨(log ++ [e]).length - maxJobEventsPerJob, ?_, rfl⟩
    simp only [List.length_append, List.length_singleton, maxJobEventsPerJob]
    omega
  | appended => exact ⟨0, Nat.zero_le _, rfl⟩

theorem Chained.append {row row' : Job} {log : List JobEvent} {e : JobEvent}
    (h : Chained (some row) log) (m : Recording) (leaves : e.fromState = some row.state)
    (enters : e.toState = row'.state)
    (allowed : (e.fromState, e.toState) ∈ allowedJobTransitions) :
    Chained (some row') (m.append log e) := by
  obtain ⟨k, hk, hd⟩ := m.append_eq_drop log e
  rw [hd]
  refine ⟨?_, ?_, ?_⟩
  · apply List.IsChain.drop
    apply h.path.append (List.isChain_singleton e)
    intro x hx y hy
    have last := h.last
    rw [Option.mem_def.mp hx] at last
    obtain rfl : e = y := by simpa using hy
    rw [leaves]
    simpa using last.symm
  · intro x hx
    obtain hm | hm := List.mem_append.mp (List.mem_of_mem_drop hx)
    · exact h.allowed x hm
    · rw [List.mem_singleton.mp hm]
      exact allowed
  · rw [List.getLast?_drop, if_neg (by simp; omega)]
    simp [enters]

theorem Chained.congr {row row' : Job} {log : List JobEvent} (h : Chained (some row) log)
    (state : row'.state = row.state) : Chained (some row') log :=
  ⟨h.path, h.allowed, by rw [h.last]; simp [state]⟩

theorem RowStep.chained {id : String} {o o' : Option Job} {log : List JobEvent} (n : Nat)
    (h : RowStep sha id l o o') (hc : Chained o log) : Chained o' (l.journalAfter id log n) := by
  cases h with
  | entered named fresh opens =>
    rename_i row e
    obtain rfl : log = [] := by simpa using hc.last
    obtain ⟨-, source, target⟩ := opens
    have one : e.recording.append [] ⟨e.values, n⟩ = [⟨e.values, n⟩] := by
      cases e.recording with
      | kept b => exact rtake_of_length_le (by simp [maxJobEventsPerJob])
      | appended => rfl
    rw [Label.journalAfter, if_pos (by simp [Label.jobId?, named])]
    change Chained _ (e.recording.append [] ⟨e.values, n⟩)
    rw [one]
    refine ⟨List.isChain_singleton _, ?_, by simp [target, fresh.queued]⟩
    intro x hx
    rw [List.mem_singleton.mp hx]
    change (e.values.fromState, e.values.toState) ∈ _
    rw [source, target]
    decide
  | moved named permitted silent records =>
    rename_i row mv entry
    rw [Label.journalAfter, if_pos (by rfl)]
    cases entry with
    | none => exact hc.congr (Move.state_of_silent (by simpa using silent))
    | some e =>
      obtain ⟨-, source, target⟩ := records e rfl
      apply hc.append e.recording source target
      change (e.values.fromState, e.values.toState) ∈ _
      rw [source, target]
      exact permitted.allowed (by simpa using silent)
  | distrusted active =>
    rw [Label.journalAfter, if_neg (by simp [Label.jobId?])]
    exact hc.congr rfl
  | erased terminal =>
    rw [Label.journalAfter, if_pos (by rfl)]
    exact ⟨List.isChain_nil, fun _ he => (List.not_mem_nil he).elim, rfl⟩
  | other untouched =>
    rw [Label.journalAfter, if_neg untouched]
    exact hc

theorem Step.sound (h : Step sha L l L') (hs : Sound L) : Sound L' where
  shape := fun id => (h.row id).shape (hs.shape id)
  known := h.known hs.known
  named := h.named hs.named
  fair := h.fair hs
  keys := h.keys hs.keys
  fences := h.sealed hs
  chained := fun id => by
    rw [h.journal]
    exact (h.row id).chained _ (hs.chained id)

theorem Sound.path {ls : List Label} (hs : Sound L) (h : Path (Step sha) L ls L') : Sound L' :=
  h.invariant (fun _ _ _ _ step => step.sound) hs

theorem Sound.reopen (hs : Sound L) (closed : L.Closed) : Sound L.queue.opened where
  shape := hs.shape
  known := hs.known
  named := hs.named
  fair := fun id w found => by
    have fair := hs.fair id w found
    rwa [closed id (Option.isSome_iff_exists.mpr ⟨w, found⟩)] at fair
  keys := hs.keys
  fences := hs.fences
  chained := hs.chained

end Steps

theorem sound_empty : Sound Queue.empty.opened where
  shape := fun _ _ h => by cases h
  known := fun _ _ h => by cases h
  named := rfl
  fair := fun _ _ h => by cases h
  keys := List.nodup_nil
  fences := fun _ _ h => by cases h
  chained := fun _ => ⟨List.isChain_nil, by simp [Queue.opened, Queue.journal, Queue.empty], rfl⟩

end Arenyxa.Distributed
