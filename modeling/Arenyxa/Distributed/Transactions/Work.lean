import Arenyxa.Distributed.Transactions.Basic

/-! Transactions under a presented lease, and the operator's retry. -/

namespace Arenyxa.Distributed

open Outcome QueueError

/-- A presented lease that is the current one and has not run out. -/
structure LeaseLive (env : Env) (q : Queue) (c : LeaseCall) (row : Job) : Prop where
  found : q.job? c.jobId = some row
  worker : q.workerMayAct c.workerId
  active : row.state.active
  owner : row.leaseWorkerId = c.workerId
  token : row.leaseTokenSha256 = env.sha.hexdigest c.leaseToken
  unexpired : c.now < row.leaseExpiresAt

/-- A presented lease the guard accepts. -/
structure LeaseHeld (env : Env) (q : Queue) (c : LeaseCall) (row : Job) : Prop
    extends LeaseLive env q c row where
  inHorizon : row.leaseExpiresAt ≤ leaseHorizon c.now

section Leased

variable {env : Env} {q : Queue} {c : LeaseCall} {b : Backend}

theorem workerUnknown_benign : Benign workerUnknown :=
  benign_of_code (by simp [workerUnknown]) (by simp [workerUnknown])

theorem workerRevoked_benign : Benign workerRevoked :=
  benign_of_code (by simp [workerRevoked]) (by simp [workerRevoked])

theorem compareDigest_sat {x y : String} :
    Sat (compareDigest x y) (fun r => r = (x == y)) Benign := by
  simp [compareDigest, Benign, QueueError.code, fenceCollision, fail]

theorem requireLeaseLocked_sat : Sat (q.requireLeaseLocked env c) (LeaseHeld env q c) Benign := by
  unfold Queue.requireLeaseLocked
  cases found : q.job? c.jobId with
  | none => exact benign_of_code (by simp [jobUnknown]) (by simp [jobUnknown])
  | some row =>
    simp only [sat_bind, sat_require, sat_pure]
    refine ⟨?_, fun _ => benign_of_code (by simp [leaseNotOwned]) (by simp [leaseNotOwned])⟩
    rintro ⟨worker, active, owner⟩
    refine ⟨?_, fun _ => benign_of_code (by simp [leaseTokenInvalid]) (by simp [leaseTokenInvalid])⟩
    intro _
    apply compareDigest_sat.mono _ fun _ he => he
    intro same hsame
    refine ⟨?_, fun _ => benign_of_code (by simp [leaseTokenInvalid]) (by simp [leaseTokenInvalid])⟩
    intro token
    refine ⟨?_, fun _ => benign_of_code (by simp [leaseExpired]) (by simp [leaseExpired])⟩
    intro unexpired
    refine ⟨?_, fun _ => benign_of_code (by simp [leaseTimeInvalid]) (by simp [leaseTimeInvalid])⟩
    intro inHorizon
    exact ⟨⟨found, worker, active, owner, by simpa [hsame] using token, unexpired⟩, inHorizon⟩

theorem cleanToken_sat {value label : String} {n : Nat} :
    Sat (cleanToken value label n) (fun text => text = strip value ∧ text ≠ "") Benign := by
  simp only [cleanToken, sat_bind, sat_require, sat_pure]
  exact ⟨fun clean => ⟨by simp, fun empty => clean (.inl empty)⟩,
    fun _ => benign_of_code (by simp) (by simp)⟩

theorem boundedJson_sat {sha : Sha256} {value : JsonObject} {n : Nat} {label : String} :
    Sat (boundedJson sha value n label)
      (fun r => r.1 = value.canonical ∧ r.2 = sha.hexdigest value.canonical) Benign := by
  simp only [boundedJson, sat_bind, sat_require, sat_pure]
  exact ⟨fun _ => by simp, fun _ => benign_of_code (by simp) (by simp)⟩

theorem LeaseLive.jobId {row : Job} (h : LeaseLive env q c row) : row.jobId = c.jobId :=
  Queue.job?_jobId h.found

theorem LeaseLive.self {row : Job} (h : LeaseLive env q c row) :
    q.opened.queue.job? row.jobId = some row := by
  rw [h.jobId]
  exact h.found

theorem Sound.surrendered (hs : Sound q.opened) (sha : Sha256) {row : Job} {mv : Move} {e : Entry}
    (found : q.job? row.jobId = some row) (permitted : mv.Permitted row)
    (loud : mv.silent = false) (records : e.Records row (mv.apply sha row))
    (owes : ∀ o, mv.owes row o = Function.update o row.leaseWorkerId (o row.leaseWorkerId + 1))
    (heartbeat : ℚ) (utc : String) :
    Transaction sha q [.moved row.jobId mv (some e), .reckoned row.leaseWorkerId]
      ((q.enact sha mv row (some e)).updateWorker row.leaseWorkerId
        (·.returnSlot heartbeat utc)) := by
  have move := hs.moved sha mv found permitted (by simpa using loud)
    (fun e' (he' : e' ∈ some e) => by cases he'; exact records) (fun w token expires utc hmv => by
      subst hmv
      have := congrFun (owes fun _ => 0) w
      by_cases hw : w = row.leaseWorkerId <;> simp [Move.owes, hw] at this)
  have owed : mv.owes row q.opened.owed row.leaseWorkerId = 1 := by
    rw [owes, Function.update_self]
    rfl
  refine ⟨_, .cons move (.single (Step.returned owed heartbeat utc)), ?_⟩
  intro w _
  simp only [owes, Queue.opened, Function.update_idem]
  by_cases hw : w = row.leaseWorkerId
  · simp [hw]
  · simp [hw]

theorem Sound.worked (hs : Sound q.opened) (sha : Sha256) {row : Job} {mv : Move}
    {entry : Option Entry} (found : q.job? row.jobId = some row) (permitted : mv.Permitted row)
    (silent : mv.silent = entry.isNone) (records : ∀ e ∈ entry, e.Records row (mv.apply sha row))
    (owes : ∀ o, mv.owes row o = o) :
    Transaction sha q [.moved row.jobId mv entry] (q.enact sha mv row entry) := by
  have move := hs.moved sha mv found permitted silent records
    (fun w token expires utc hmv => by
      subst hmv
      have := congrFun (owes fun _ => 0) w
      simp [Move.owes] at this)
  rw [owes] at move
  exact .single move

theorem EventValues.records {v : EventValues} {row new : Job} (m : Recording)
    (named : v.jobId = row.jobId) (leaves : v.fromState = some row.state)
    (enters : v.toState = new.state) : (⟨m, v.stored⟩ : Entry).Records row new :=
  ⟨named, leaves, enters⟩

theorem Sound.logged (hs : Sound q.opened) (sha : Sha256) (mv : Move) {row : Job} {v : EventValues}
    {E : QueueError → Prop} (found : q.job? row.jobId = some row) (permitted : mv.Permitted row)
    (loud : mv.silent = false) (owes : ∀ o, mv.owes row o = o) (named : v.jobId = row.jobId)
    (leaves : v.fromState = some row.state) (enters : v.toState = (mv.apply sha row).state) :
    Sat ((q.updateJob row.jobId (mv.apply sha) (mv.apply_jobId sha)).recordEventLocked b v)
      (Transaction sha q [.moved row.jobId mv (some ⟨.kept b, v.stored⟩)]) E := by
  apply sat_of_eq (hs.recorded sha mv found permitted loud named leaves enters)
  apply hs.worked sha found permitted (by simpa using loud) _ owes
  intro e he
  cases he
  exact v.records _ named leaves enters

/-- What a successful start commits. -/
def Started (env : Env) (m : Recording) (c : LeaseCall) (q q' : Queue) : Prop :=
  ∃ row, LeaseLive env q c row ∧ ((row.state = .running ∧ q' = q) ∨
    ∃ v, Transaction env.sha q [.moved c.jobId (.start c.utc) (some ⟨m, v⟩)] q')

theorem startJobPortable_sat (hs : Sound q.opened) :
    Sat (q.startJobPortable env b c) (Started env (.kept b) c q) Benign := by
  simp only [Queue.startJobPortable, sat_bind]
  apply requireLeaseLocked_sat.mono _ fun _ he => he
  intro row held
  split
  next running => exact ⟨row, held.toLeaseLive, .inl ⟨running, rfl⟩⟩
  next still =>
    have leased : row.state = .leased := by
      have active := held.active
      revert active still
      cases row.state <;> simp [JobState.active]
    rw [← held.jobId]
    apply (hs.logged env.sha (.start c.utc) held.self leased rfl (fun _ => rfl) rfl rfl rfl).mono
    · intro q' transaction
      refine ⟨row, held.toLeaseLive, .inr ?_⟩
      rw [← held.jobId]
      exact ⟨_, transaction⟩
    · exact fun _ he => he

theorem leaseDuration_pos (seconds : Int) : 0 < leaseDuration seconds := by
  unfold leaseDuration
  omega

theorem expiry_pos (now : Instant) (seconds : Int) : (0 : ℚ) < now + leaseDuration seconds := by
  have pos : (0 : ℚ) < leaseDuration seconds := by exact_mod_cast leaseDuration_pos seconds
  have start : (0 : ℚ) ≤ now := now.2
  exact add_pos_of_nonneg_of_pos start pos

theorem renewLease_sat (hs : Sound q.opened) {seconds : Int} {reading : Instant} :
    Sat (q.renewLease env c seconds reading)
      (fun r => ∃ row, LeaseHeld env q c row ∧
        Transaction env.sha q
          [.moved c.jobId (.renew r.1 c.utc) none, .reckoned c.workerId] r.2)
      Benign := by
  simp only [Queue.renewLease, sat_bind, sat_pure]
  apply requireLeaseLocked_sat.mono _ fun _ he => he
  intro row held
  refine ⟨row, held, ?_⟩
  rw [← held.jobId]
  have permitted : (Move.renew (reading + leaseDuration seconds) c.utc).Permitted row :=
    ⟨held.active, expiry_pos reading seconds⟩
  have move := @Sound.moved _ row hs env.sha _ held.self permitted none rfl (by simp) (by simp)
  exact ⟨_, .cons move (.single (Step.touched (fun _ => rfl) (fun _ => rfl) fun _ _ h => h)),
    fun _ _ => rfl⟩

theorem checkpoint_sat (hs : Sound q.opened) {value : JsonObject} :
    Sat (q.checkpoint env c value)
      (fun r => ∃ row, LeaseHeld env q c row ∧ ∃ json,
        Transaction env.sha q [.moved c.jobId (.saveCheckpoint json r.1 c.utc) none] r.2)
      Benign := by
  simp only [Queue.checkpoint, sat_bind, sat_pure]
  apply boundedJson_sat.mono _ fun _ he => he
  intro json _
  apply requireLeaseLocked_sat.mono _ fun _ he => he
  intro row held
  refine ⟨row, held, json.1, ?_⟩
  rw [← held.jobId]
  exact hs.worked env.sha held.self held.active rfl (by simp) fun _ => rfl

theorem handoverLease_sat (hs : Sound q.opened) {reason : String} :
    Sat (q.handoverLease env b c reason)
      (fun r => ∃ row, LeaseHeld env q c row ∧ ∃ code v, Transaction env.sha q
        [.moved c.jobId (.release r.1 code c.utc) (some ⟨.kept b, v⟩), .reckoned c.workerId] r.2)
      Benign := by
  simp only [Queue.handoverLease, sat_bind, sat_pure]
  apply cleanToken_sat.mono _ fun _ he => he
  intro code _
  apply requireLeaseLocked_sat.mono _ fun _ he => he
  intro row held
  have permitted : (Move.release row.releaseTarget (releaseCode "HANDOVER_AFTER_SIDE_EFFECT_START"
      code "HANDOVER_MAX_ATTEMPTS" row.releaseTarget) c.utc).Permitted row :=
    ⟨held.active, true, rfl⟩
  rw [← held.jobId, ← held.owner]
  apply sat_of_eq (hs.recorded_updateWorker env.sha _ held.self permitted rfl rfl rfl rfl _ _ _)
  exact ⟨row, held, _, _, hs.surrendered env.sha held.self permitted rfl
    (EventValues.records _ rfl rfl rfl) (fun _ => rfl) _ _⟩

theorem markSideEffectStarted_sat (hs : Sound q.opened) :
    Sat (q.markSideEffectStarted env b c)
      (fun q' => ∃ row, LeaseHeld env q c row ∧
        if row.sideEffectMode = .nonIdempotent then row.sideEffectState ≠ .started ∧ ∃ v,
          Transaction env.sha q [.moved c.jobId (.startSideEffect c.utc) (some ⟨.kept b, v⟩)] q'
        else q' = q)
      Benign := by
  simp only [Queue.markSideEffectStarted, sat_bind]
  apply requireLeaseLocked_sat.mono _ fun _ he => he
  intro row held
  split
  next mode =>
    simp only [sat_bind, sat_require]
    refine ⟨?_, fun _ => benign_of_code (by simp [sideEffectAlreadyStarted])
      (by simp [sideEffectAlreadyStarted])⟩
    intro fresh
    refine ⟨?_, fun _ => benign_of_code (by simp [sideEffectFenceConflict])
      (by simp [sideEffectFenceConflict])⟩
    intro _
    rw [← held.jobId]
    apply (hs.logged env.sha (.startSideEffect c.utc) held.self ⟨held.active, mode, fresh⟩ rfl
      (fun _ => rfl) rfl rfl rfl).mono
    · intro q' transaction
      refine ⟨row, held, ?_⟩
      rw [if_pos mode]
      exact ⟨fresh, _, transaction⟩
    · exact fun _ he => he
  next mode =>
    refine ⟨row, held, ?_⟩
    rw [if_neg mode]

theorem failJob_sat (hs : Sound q.opened) {errorCode : String} {retryable : Bool} :
    Sat (q.failJob env b c errorCode retryable)
      (fun r => ∃ row, LeaseHeld env q c row ∧ ∃ code v, Transaction env.sha q
        [.moved c.jobId (.release r.1 code c.utc) (some ⟨.kept b, v⟩), .reckoned c.workerId] r.2)
      Benign := by
  simp only [Queue.failJob, sat_bind, sat_pure]
  apply cleanToken_sat.mono _ fun _ he => he
  intro code _
  apply requireLeaseLocked_sat.mono _ fun _ he => he
  intro row held
  have permitted : (Move.release (row.releaseTarget retryable) code c.utc).Permitted row :=
    ⟨held.active, retryable, rfl⟩
  rw [← held.jobId, ← held.owner]
  apply sat_of_eq (hs.recorded env.sha _ held.self permitted rfl rfl rfl rfl)
  exact ⟨row, held, _, _, hs.surrendered env.sha held.self permitted rfl
    (EventValues.records _ rfl rfl rfl) (fun _ => rfl) _ _⟩

theorem retryReviewRequired_sat (sha : Sha256) (hs : Sound q.opened) {id utc : String} :
    Sat (q.retryReviewRequired b id utc)
      (fun q' => ∃ row, q.job? id = some row ∧ row.state = .reviewRequired ∧ ∃ v,
        Transaction sha q [.moved id (.approveRetry utc) (some ⟨.kept b, v⟩)] q')
      Benign := by
  unfold Queue.retryReviewRequired
  cases found : q.job? id with
  | none => exact benign_of_code (by simp [jobUnknown]) (by simp [jobUnknown])
  | some row =>
    simp only [sat_bind, sat_require]
    refine ⟨?_, fun _ => benign_of_code (by simp [jobNotInReview]) (by simp [jobNotInReview])⟩
    intro review
    obtain rfl := Queue.job?_jobId found
    apply (hs.logged sha (.approveRetry utc) found review rfl (fun _ => rfl) rfl
      (by rw [review]) rfl).mono
    · exact fun q' transaction => ⟨row, rfl, review, _, transaction⟩
    · exact fun _ he => he

/-- A completion that finds its own receipt. -/
def Replays (env : Env) (q : Queue) (c : LeaseCall) (resultSha : String) : Prop :=
  match q.job? c.jobId with
  | some row => row.state = .completed ∧
      row.terminalReceipt = [c.workerId, env.sha.hexdigest c.leaseToken, resultSha]
  | none => ∃ f, q.fenceForJob? c.jobId = some f ∧ f.terminalState = .completed ∧
      f.terminalReceipt.items = [c.workerId, env.sha.hexdigest c.leaseToken, resultSha]

/-- What a successful completion commits. -/
def Completed (env : Env) (m : Recording) (c : LeaseCall) (json resultSha : String)
    (q q' : Queue) : Prop :=
  ∃ row, LeaseLive env q c row ∧ ∃ v, Transaction env.sha q
    [.moved c.jobId (.complete json resultSha c.workerId (env.sha.hexdigest c.leaseToken) c.utc)
      (some ⟨m, v⟩), .reckoned c.workerId] q'

theorem allCompareDigest_sat (pairs : List (String × String)) :
    Sat (allCompareDigest pairs) (fun r => r → ∀ p ∈ pairs, p.1 = p.2) Benign := by
  induction pairs with
  | nil => exact fun _ _ hp => (List.not_mem_nil hp).elim
  | cons p rest ih =>
    obtain ⟨x, y⟩ := p
    simp only [allCompareDigest, sat_bind]
    apply compareDigest_sat.mono _ fun _ he => he
    rintro same rfl
    split
    next hxy =>
      apply ih.mono _ fun _ he => he
      intro r hr hrt p hp
      obtain rfl | hp := List.mem_cons.mp hp
      · simpa using hxy
      · exact hr hrt p hp
    next => exact fun h => by cases h

theorem rowReceiptMatches_sat {row : Job} {worker tokenSha resultSha : String} :
    Sat (rowReceiptMatches row worker tokenSha resultSha)
      (fun r => r → row.terminalReceipt = [worker, tokenSha, resultSha]) Benign := by
  unfold rowReceiptMatches
  split
  next owner =>
    apply (allCompareDigest_sat _).mono _ fun _ he => he
    intro r hr hrt
    have same := hr hrt
    simp only [List.mem_cons, List.not_mem_nil, or_false, forall_eq_or_imp, forall_eq] at same
    simp [Job.terminalReceipt, owner, same]
  next => exact fun h => by cases h

theorem fenceReceiptMatches_sat {f : Fence} {worker tokenSha resultSha : String} :
    Sat (fenceReceiptMatches f worker tokenSha resultSha)
      (fun r => r → f.terminalReceipt.items = [worker, tokenSha, resultSha]) Benign := by
  unfold fenceReceiptMatches
  split
  next three =>
    obtain ⟨x, y, z, items⟩ := List.length_eq_three.mp three
    apply (allCompareDigest_sat _).mono _ fun _ he => he
    intro r hr hrt
    have same := hr hrt
    simp only [items, List.zip_cons_cons, List.zip_nil_right, List.mem_cons, List.not_mem_nil,
      or_false, forall_eq_or_imp, forall_eq] at same
    simp [items, same]
  next => exact fun h => by cases h

theorem completePortable_sat (hs : Sound q.opened) {json resultSha : String} :
    Sat (q.completePortable env b c json resultSha)
      (fun q' => (q' = q ∧ Replays env q c resultSha) ∨
        Completed env (.kept b) c json resultSha q q') Benign := by
  unfold Queue.completePortable
  cases found : q.job? c.jobId with
  | none =>
    unfold Queue.replayPruned
    cases fence : q.fenceForJob? c.jobId with
    | none => exact benign_of_code (by simp [jobUnknown]) (by simp [jobUnknown])
    | some f =>
      dsimp only
      split
      next completed =>
        simp only [sat_bind, sat_require, sat_pure]
        apply fenceReceiptMatches_sat.mono _ fun _ he => he
        intro same items
        refine ⟨fun hsame => .inl ⟨by simp, ?_⟩, fun _ =>
          benign_of_code (by simp [receiptMismatch]) (by simp [receiptMismatch])⟩
        rw [Replays, found]
        exact ⟨f, fence, completed, items hsame⟩
      next => exact benign_of_code (by simp [jobUnknown]) (by simp [jobUnknown])
  | some existing =>
    dsimp only
    split
    next completed =>
      simp only [Queue.replayCompleted, sat_bind, sat_require, sat_pure]
      apply rowReceiptMatches_sat.mono _ fun _ he => he
      intro same receipt
      refine ⟨fun hsame => .inl ⟨by simp, ?_⟩, fun _ =>
        benign_of_code (by simp [terminalMismatch]) (by simp [terminalMismatch])⟩
      rw [Replays, found]
      exact ⟨completed, receipt hsame⟩
    next =>
      simp only [sat_bind, sat_require]
      apply requireLeaseLocked_sat.mono _ fun _ he => he
      intro row held
      refine ⟨fun _ => ?_, fun _ =>
        benign_of_code (by simp [completionLost]) (by simp [completionLost])⟩
      rw [← held.jobId, ← held.owner]
      have permitted : (Move.complete json resultSha row.leaseWorkerId
        (env.sha.hexdigest c.leaseToken) c.utc).Permitted row := held.active
      apply sat_of_eq (hs.recorded_updateWorker env.sha _ held.self permitted rfl held.jobId.symm
        rfl rfl _ _ _)
      refine .inr ⟨row, held.toLeaseLive, ?_⟩
      rw [← held.jobId, ← held.owner]
      exact ⟨_, hs.surrendered env.sha held.self permitted rfl
        (EventValues.records _ held.jobId.symm rfl rfl) (fun _ => rfl) _ _⟩

end Leased

end Arenyxa.Distributed
