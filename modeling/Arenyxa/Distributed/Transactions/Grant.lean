import Arenyxa.Distributed.Transactions.Work

/-! Transactions that grant leases, and the single statements of PostgreSQL. -/

namespace Arenyxa.Distributed

open Outcome QueueError

/-- The statements behind the leases a call returns. -/
inductive Granted (m : Recording) : List DistributedLease → List Label → Prop
  | nil : Granted m [] []
  | snoc {leases : List DistributedLease} {ls : List Label} {lease : DistributedLease}
    {utc : String} {v : EventValues} :
    Granted m leases ls → Granted m (leases ++ [lease]) (ls ++
      [.moved lease.jobId (.lease lease.workerId lease.leaseToken lease.leaseExpiresAt utc)
        (some ⟨m, v⟩), .reckoned lease.workerId])

section Grants

variable {env : Env} {q : Queue} {b : Backend} {worker : String} {duration : Int} {d : Draw}

theorem mem_leaseCandidates {lo hi : Int} {tie : Nat} {row : Job}
    (h : q.leaseCandidate lo hi tie = some row) : row ∈ q.leaseCandidates lo hi := by
  unfold Queue.leaseCandidate at h
  exact List.mem_of_mem_filter (List.mem_of_getElem? h)

theorem leaseCandidate_queued {lo hi : Int} {tie : Nat} {row : Job}
    (h : q.leaseCandidate lo hi tie = some row) :
    q.job? row.jobId = some row ∧ row.state = .queued := by
  have hm := mem_leaseCandidates h
  simp only [Queue.leaseCandidates, List.mem_filter, decide_eq_true_eq] at hm
  exact ⟨Queue.mem_jobs_iff.mp hm.1, hm.2.1⟩

theorem claimWorkerSlot_eq_some {q' : Queue} {heartbeat : ℚ} {utc : String}
    (h : q.claimWorkerSlot worker heartbeat utc = some q') :
    ∃ w, q.worker? worker = some w ∧ w.state = .active ∧ w.activeLeases < w.maxSlots ∧
      q' = q.updateWorker worker (·.claimSlot heartbeat utc) := by
  unfold Queue.claimWorkerSlot at h
  split at h
  · cases h
  next w found =>
    split at h
    next free => exact ⟨w, found, free.1, free.2, (Option.some.inj h).symm⟩
    next => cases h

theorem Step.claimed {sha : Sha256} {o : String → Int} {w : Worker} {heartbeat : ℚ} {utc : String}
    (found : q.worker? worker = some w) (active : w.state = .active)
    (free : w.activeLeases < w.maxSlots) (owes : o worker = -1) :
    Step sha ⟨q, o⟩ (.reckoned worker)
      ⟨q.updateWorker worker (·.claimSlot heartbeat utc), Function.update o worker 0⟩ := by
  apply Step.reckoned
  · intro w' found' fair
    obtain rfl : w = w' := Option.some.inj (found.symm.trans found')
    have balance := fair.balance
    refine ⟨?_, fun revoked => ?_⟩
    · change w.activeLeases + 1 = q.activeCount w.workerId + 0
      omega
    · change w.state = .revoked at revoked
      rw [active] at revoked
      cases revoked
  · intro w' found' _ bounded
    obtain rfl : w = w' := Option.some.inj (found.symm.trans found')
    obtain ⟨h₀, h₁⟩ := bounded
    constructor <;> simp only [Worker.claimSlot] <;> omega

theorem Sound.worker_ne_empty (hs : Sound q.opened) {w : Worker}
    (registered : q.worker? worker = some w) : worker ≠ "" := by
  rintro rfl
  have none := hs.named
  change q.worker? "" = _ at none
  rw [registered] at none
  cases none

theorem Sound.grants (hs : Sound q.opened) {row : Job} {w : Worker} {m : Recording}
    {v : EventValues} (found : q.job? row.jobId = some row) (queued : row.state = .queued)
    (registered : q.worker? worker = some w) (active : w.state = .active)
    (free : w.activeLeases < w.maxSlots) (positive : (0 : ℚ) < d.now + duration)
    (records : (⟨m, v⟩ : Entry).Records row
      ((Move.lease worker d.token (d.now + duration) d.utc).apply env.sha row)) :
    Path (Step env.sha) q.opened
      [.moved row.jobId (.lease worker d.token (d.now + duration) d.utc) (some ⟨m, v⟩),
        .reckoned worker]
      ((q.enact env.sha (.lease worker d.token (d.now + duration) d.utc) row
        (some ⟨m, v⟩)).updateWorker worker (·.claimSlot d.heartbeat d.utc)).opened := by
  have named := hs.worker_ne_empty registered
  let granted := q.enact env.sha (.lease worker d.token (d.now + duration) d.utc) row (some ⟨m, v⟩)
  have move : Step env.sha q.opened _ ⟨granted, _⟩ := hs.moved env.sha
    (.lease worker d.token (d.now + duration) d.utc) found ⟨queued, named, positive⟩ rfl
    (fun e he => by cases he; exact records)
    (fun w' token expires utc hmv => by
      cases hmv
      exact Option.isSome_iff_exists.mpr ⟨w, registered⟩)
  have claim : Step env.sha ⟨granted, Function.update (fun _ => 0) worker (0 - 1)⟩ _
      ⟨granted.updateWorker worker (·.claimSlot d.heartbeat d.utc), _⟩ :=
    Step.claimed (by simpa [granted, Queue.worker?] using registered) active free (by simp)
  have path := Path.cons move (.single claim)
  simpa [Queue.opened] using path

theorem Sound.grantRow (hs : Sound q.opened) {row : Job} {w : Worker} {details : Details}
    (found : q.job? row.jobId = some row) (queued : row.state = .queued)
    (registered : q.worker? worker = some w) (active : w.state = .active)
    (free : w.activeLeases < w.maxSlots) (positive : (0 : ℚ) < d.now + duration) :
    Sat (((q.grantRow env worker duration d row).updateWorker worker
        (·.claimSlot d.heartbeat d.utc)).recordEventLocked b (leasedEvent worker d row details))
      (fun q' => ∃ v, Path (Step env.sha) q.opened
        [.moved row.jobId (.lease worker d.token (d.now + duration) d.utc) (some ⟨.kept b, v⟩),
          .reckoned worker] q'.opened) Benign := by
  have named := hs.worker_ne_empty registered
  have leaves : (leasedEvent worker d row details).fromState = some row.state := by
    rw [queued]
    rfl
  apply sat_of_eq (hs.recorded_updateWorker env.sha
    (.lease worker d.token (d.now + duration) d.utc) found ⟨queued, named, positive⟩ rfl rfl leaves
    rfl worker _ _)
  exact ⟨_, hs.grants found queued registered active free positive
    (EventValues.records _ rfl leaves rfl)⟩

theorem Granted.path {m : Recording} {q' q'' : Queue} {leases : List DistributedLease}
    {ls : List Label} {row : Job} {v : EventValues} (granted : Granted m leases ls)
    (path : Path (Step env.sha) q.opened ls q'.opened)
    (grant : Path (Step env.sha) q'.opened
      [.moved row.jobId (.lease worker d.token (d.now + duration) d.utc) (some ⟨m, v⟩),
        .reckoned worker] q''.opened) :
    ∃ ls', Path (Step env.sha) q.opened ls' q''.opened ∧
      Granted m (leases ++ [d.leased worker duration row]) ls' :=
  ⟨_, path.append grant, @Granted.snoc m leases ls (d.leased worker duration row) d.utc v granted⟩

/-- What a granting call may commit. -/
def Grants (sha : Sha256) (q : Queue) (m : Recording) (leases : List DistributedLease)
    (q' : Queue) : Prop :=
  ∃ ls, Path (Step sha) q.opened ls q'.opened ∧ Granted m leases ls

theorem Grants.nil {sha : Sha256} {m : Recording} : Grants sha q m [] q := ⟨[], .nil _, .nil⟩

theorem Draw.expiry_pos (d : Draw) (seconds : Int) : (0 : ℚ) < d.now + leaseDuration seconds :=
  Distributed.expiry_pos d.now seconds

theorem leaseNextChecked_sat (hs : Sound q.opened) {seconds : Int} :
    Sat (q.leaseNextChecked env b worker (leaseDuration seconds) d)
      (fun r => Grants env.sha q (.kept b) r.1.toList r.2) Benign := by
  unfold Queue.leaseNextChecked
  cases registered : q.worker? worker with
  | none => exact workerUnknown_benign
  | some w =>
    simp only [sat_bind, sat_require]
    refine ⟨fun _ => ?_, fun _ => workerRevoked_benign⟩
    split
    next able =>
      split
      next => exact Grants.nil
      next row candidate =>
        obtain ⟨found, queued⟩ := leaseCandidate_queued candidate
        split
        next => exact Grants.nil
        next claimed claim =>
          obtain ⟨w', registered', active, free, rfl⟩ := claimWorkerSlot_eq_some claim
          simp only [sat_bind, sat_pure]
          apply (hs.grantRow found queued registered' active free (d.expiry_pos seconds)).mono
          · rintro q' ⟨v, path⟩
            exact Granted.nil.path (.nil _) path
          · exact fun _ he => he
    next => exact Grants.nil

theorem leaseNextClaimed_sat (hs : Sound q.opened) {seconds : Int} :
    Sat (q.leaseNextClaimed env b worker (leaseDuration seconds) d)
      (fun r => Grants env.sha q (.kept b) r.1.toList r.2) Benign := by
  unfold Queue.leaseNextClaimed
  split
  next =>
    split
    next => exact workerUnknown_benign
    next =>
      simp only [sat_bind, sat_require, sat_pure]
      exact ⟨fun _ => Grants.nil, fun _ => workerRevoked_benign⟩
  next claimed claim =>
    obtain ⟨w, registered, active, free, rfl⟩ := claimWorkerSlot_eq_some claim
    split
    next => exact workerUnknown_benign
    next =>
      split
      next => exact Grants.nil
      next row candidate =>
        obtain ⟨found, queued⟩ := leaseCandidate_queued candidate
        simp only [sat_bind, sat_pure]
        apply (hs.grantRow found queued registered active free (d.expiry_pos seconds)).mono
        · rintro q' ⟨v, path⟩
          exact Granted.nil.path (.nil _) path
        · exact fun _ he => he

theorem leaseNextPortable_sat (hs : Sound q.opened) {seconds : Int} :
    Sat (q.leaseNextPortable env b worker seconds d)
      (fun r => Grants env.sha q (.kept b) r.1.toList r.2) Benign := by
  cases b with
  | sqlite => exact leaseNextChecked_sat hs
  | postgresql => exact leaseNextClaimed_sat hs

theorem leaseNextFast_grants (hs : Sound q.opened) {seconds : Int} {r : DistributedLease × Queue}
    (h : q.leaseNextFast env worker (leaseDuration seconds) d = some r) :
    Grants env.sha q .appended [r.1] r.2 := by
  unfold Queue.leaseNextFast at h
  split at h
  · cases h
  next w registered =>
    split at h
    next able =>
      split at h
      · cases h
      next row candidate =>
        obtain ⟨found, queued⟩ := leaseCandidate_queued candidate
        obtain rfl := Option.some.inj h
        exact Granted.nil.path (.nil _) (hs.grants found queued registered able.1 able.2
          (d.expiry_pos seconds) ⟨rfl, by rw [queued], rfl⟩)
    next => cases h

theorem leaseNext_sat (hs : Sound q.opened) {fallback : Bool} {seconds : Int} :
    Sat (q.leaseNext env b fallback worker seconds d)
      (fun r => Grants env.sha q (.kept b) r.1.toList r.2 ∨
        (b = .postgresql ∧ fallback = false ∧ Grants env.sha q .appended r.1.toList r.2 ∧
          q.leaseNextFast env worker (leaseDuration seconds) d = r.1.map (·, r.2)))
      Benign := by
  unfold Queue.leaseNext
  by_cases fast : b = .postgresql ∧ !fallback
  · rw [if_pos fast]
    cases h : q.leaseNextFast env worker (leaseDuration seconds) d with
    | some r => exact .inr ⟨fast.1, by simpa using fast.2, leaseNextFast_grants hs h, rfl⟩
    | none => exact (leaseNextPortable_sat hs).mono (fun _ h => .inl h) fun _ he => he
  · rw [if_neg fast]
    exact (leaseNextPortable_sat hs).mono (fun _ h => .inl h) fun _ he => he

theorem leaseBatch_sat {seconds lo hi : Int} {draws : Nat → Draw}
    (hs : Sound q.opened) : ∀ (available : Nat) (leases : List DistributedLease) (q' : Queue),
    Grants env.sha q (.kept b) leases q' →
    Sat (q'.leaseBatch env b worker (leaseDuration seconds) lo hi draws available leases)
      (fun r => ∀ r' ∈ r, Grants env.sha q (.kept b) r'.1 r'.2) Benign := by
  intro available
  induction available with
  | zero =>
    intro leases q' grants r' hr'
    cases hr'
    exact grants
  | succ available ih =>
    rintro leases q' ⟨ls, path, granted⟩
    unfold Queue.leaseBatch
    dsimp only
    split
    next =>
      intro r' hr'
      cases hr'
      exact ⟨ls, path, granted⟩
    next row candidate =>
      obtain ⟨found, queued⟩ := leaseCandidate_queued candidate
      split
      next => exact fun _ hr => by cases hr
      next claimed claim =>
        obtain ⟨w', registered', active, free, rfl⟩ := claimWorkerSlot_eq_some claim
        simp only [sat_bind]
        have sound : Sound q'.opened := hs.path path
        apply (sound.grantRow found queued registered' active free
          ((draws leases.length).expiry_pos seconds)).mono _ fun _ he => he
        rintro q'' ⟨v, grant⟩
        exact ih _ _ (granted.path path grant)

theorem leaseMany_sat (hs : Sound q.opened) {maxItems seconds : Int} {draws : Nat → Draw} :
    Sat (q.leaseMany env b worker maxItems seconds draws)
      (fun r => Grants env.sha q (.kept b) r.1 r.2) Benign := by
  unfold Queue.leaseMany
  split
  next => exact workerUnknown_benign
  next w registered =>
    simp only [sat_bind, sat_require]
    refine ⟨fun _ => ?_, fun _ => workerRevoked_benign⟩
    split
    next =>
      simp only [sat_bind, sat_pure]
      apply (leaseBatch_sat hs _ _ _ Grants.nil).mono _ fun _ he => he
      intro batch hbatch
      cases batch with
      | none => exact Grants.nil
      | some r => exact hbatch r rfl
    next => exact Grants.nil

theorem LeaseLive.of_guard {c : LeaseCall} {row : Job} (found : q.job? c.jobId = some row)
    (active : row.state.active) (guard : q.fastLeaseGuard env c row) : LeaseLive env q c row := by
  simp only [Queue.fastLeaseGuard, Bool.and_eq_true, decide_eq_true_eq] at guard
  obtain ⟨⟨⟨worker, owner⟩, token⟩, unexpired⟩ := guard
  exact ⟨found, worker, active, owner, token, unexpired⟩

theorem startJobFast_transaction (hs : Sound q.opened) {c : LeaseCall} {q' : Queue}
    (h : q.startJobFast env c = some q') : Started env .appended c q q' := by
  unfold Queue.startJobFast at h
  split at h
  · cases h
  next row found =>
    split at h
    next able =>
      obtain rfl := Option.some.inj h
      have live := LeaseLive.of_guard found (by rw [able.1]; rfl) able.2
      refine ⟨row, live, .inr ?_⟩
      rw [← live.jobId]
      exact ⟨_, hs.worked env.sha live.self able.1 rfl
        (fun e he => by cases he; exact ⟨rfl, by rw [able.1], rfl⟩) fun _ => rfl⟩
    next => cases h

theorem completeFast_transaction (hs : Sound q.opened) {c : LeaseCall} {json resultSha : String}
    {q' : Queue} (h : q.completeFast env c json resultSha = some q') :
    Completed env .appended c json resultSha q q' := by
  unfold Queue.completeFast at h
  split at h
  · cases h
  next row found =>
    split at h
    next able =>
      obtain rfl := Option.some.inj h
      obtain ⟨active, guard, agrees⟩ := able
      have live := LeaseLive.of_guard found active guard
      refine ⟨row, live, completedEvent c resultSha row.state, ?_⟩
      have named := live.jobId
      rw [← named, ← live.owner]
      have permitted : (Move.complete json resultSha row.leaseWorkerId
        (env.sha.hexdigest c.leaseToken) c.utc).Permitted row := active
      exact hs.surrendered env.sha live.self permitted rfl ⟨named.symm, rfl, rfl⟩ (fun _ => rfl) _ _
    next => cases h

theorem startJob_sat (hs : Sound q.opened) {fallback : Bool} {c : LeaseCall} :
    Sat (q.startJob env b fallback c)
      (fun q' => Started env (.kept b) c q q' ∨
        (b = .postgresql ∧ fallback = false ∧ Started env .appended c q q' ∧
          q.startJobFast env c = some q'))
      Benign := by
  unfold Queue.startJob
  by_cases fast : b = .postgresql ∧ !fallback
  · rw [if_pos fast]
    cases h : q.startJobFast env c with
    | some q' => exact .inr ⟨fast.1, by simpa using fast.2, startJobFast_transaction hs h, rfl⟩
    | none => exact (startJobPortable_sat hs).mono (fun _ h => .inl h) fun _ he => he
  · rw [if_neg fast]
    exact (startJobPortable_sat hs).mono (fun _ h => .inl h) fun _ he => he

theorem complete_sat (hs : Sound q.opened) {fallback : Bool} {c : LeaseCall}
    {result : JsonObject} :
    Sat (q.complete env b fallback c result)
      (fun q' => (q' = q ∧ Replays env q c (env.sha.hexdigest result.canonical)) ∨
        Completed env (.kept b) c result.canonical (env.sha.hexdigest result.canonical) q q' ∨
        (b = .postgresql ∧ fallback = false ∧
          Completed env .appended c result.canonical (env.sha.hexdigest result.canonical) q q' ∧
          q.completeFast env c result.canonical (env.sha.hexdigest result.canonical) = some q'))
      Benign := by
  simp only [Queue.complete, sat_bind]
  apply boundedJson_sat.mono _ fun _ he => he
  rintro ⟨json, resultSha⟩ ⟨rfl, rfl⟩
  by_cases fast : b = .postgresql ∧ !fallback
  · rw [if_pos fast]
    cases h : q.completeFast env c result.canonical (env.sha.hexdigest result.canonical) with
    | some q' =>
      exact .inr (.inr ⟨fast.1, by simpa using fast.2, completeFast_transaction hs h, rfl⟩)
    | none => exact (completePortable_sat hs).mono (fun _ h => h.imp_right .inl) fun _ he => he
  · rw [if_neg fast]
    exact (completePortable_sat hs).mono (fun _ h => h.imp_right .inl) fun _ he => he

end Grants

end Arenyxa.Distributed
