import Arenyxa.Distributed.Transactions.Work
import Mathlib.Data.List.Dedup

/-! Transactions that take leases back: the sweeps, revocation and reconciliation. Their loops
release rows first and settle the counters of the workers afterwards. -/

namespace Arenyxa.Distributed

open Outcome QueueError

/-- The statements of a recovery. -/
def Label.Recovers (b : Backend) : Label → Prop
  | .moved _ (.release _ _ _) (some e) => e.recording = .kept b
  | .reckoned _ => True
  | _ => False

/-- `q` was reached from `L` by releasing one lease of each worker listed. -/
def Recovered (sha : Sha256) (b : Backend) (L : Ledger) (workers : List String) (q : Queue) :
    Prop :=
  ∃ ls, Path (Step sha) L ls ⟨q, fun w => L.owed w + workers.count w⟩ ∧
    ∀ l ∈ ls, l.Recovers b

section Recovery

variable {env : Env} {sha : Sha256} {b : Backend} {L : Ledger} {workers : List String}
  {q q' : Queue}

theorem Recovered.nil : Recovered sha b L [] L.queue :=
  ⟨[], by simpa using Path.nil L, by simp⟩

theorem Recovered.release (h : Recovered sha b L workers q) (hs : Sound L) {row : Job}
    {code utc : String} {v : EventValues} (found : q.job? row.jobId = some row)
    (active : row.state.active) (named : v.jobId = row.jobId)
    (leaves : v.fromState = some row.state) (enters : v.toState = row.releaseTarget) :
    Sat ((q.updateJob row.jobId (·.release row.releaseTarget code utc)).recordEventLocked b v)
      (fun q' => Recovered sha b L (row.leaseWorkerId :: workers) q' ∧
        q'.workers = q.workers ∧
        ∀ id, q'.job? id =
          if id = row.jobId then (q.job? id).map (·.release row.releaseTarget code utc)
          else q.job? id) Benign := by
  obtain ⟨ls, path, recovers⟩ := h
  have sound := hs.path path
  have permitted : (Move.release row.releaseTarget code utc).Permitted row := ⟨active, true, rfl⟩
  apply sat_of_eq (sound.recorded sha (.release row.releaseTarget code utc) found permitted rfl
    named leaves enters)
  have move := sound.moved sha (.release row.releaseTarget code utc) found permitted rfl
    (fun e (he : e ∈ some _) => by
      cases he
      exact v.records (.kept b) named leaves enters)
    (by simp)
  have owed : (Move.release row.releaseTarget code utc).owes row
      (fun w => L.owed w + workers.count w) =
      fun w => L.owed w + (row.leaseWorkerId :: workers).count w := by
    funext w
    by_cases hw : w = row.leaseWorkerId
    · subst hw
      simp [Move.owes]
      omega
    · simp [Move.owes, hw, List.count_cons_of_ne (Ne.symm hw)]
  rw [owed] at move
  refine ⟨⟨_, path.snoc move, ?_⟩, Queue.workers_enact _ _, fun id => Queue.job?_enact _ _ id⟩
  intro l hl
  obtain hl | hl := List.mem_append.mp hl
  · exact recovers l hl
  · rw [List.mem_singleton.mp hl]
    rfl

theorem current_after {q q' : Queue} {row : Job} {rest : List Job} {f : Job → Job}
    (h : q.jobs.Current (row :: rest))
    (jobs : ∀ id, q'.job? id = if id = row.jobId then (q.job? id).map f else q.job? id) :
    q'.jobs.Current rest :=
  h.tail fun id hid => (jobs id).trans (if_neg hid)

theorem settleRecovered_path (sha : Sha256) (b : Backend) (q : Queue) (utc : String)
    (recovered : List String) :
    ∃ ls, Path (Step sha) ⟨q, fun w => (recovered.count w : Int)⟩ ls
      (q.settleRecovered utc recovered).opened ∧ ∀ l ∈ ls, l.Recovers b := by
  let owed (rest : List String) (w : String) : Int := if w ∈ rest then recovered.count w else 0
  have start : (fun w => (recovered.count w : Int)) = owed recovered.dedup := by
    funext w
    by_cases hw : w ∈ recovered
    · simp [owed, List.mem_dedup.mpr hw]
    · simp [owed, List.count_eq_zero.mpr hw]
  suffices done : ∃ ls, Path (Step sha) ⟨q, owed recovered.dedup⟩ ls
      ⟨q.settleRecovered utc recovered, owed []⟩ ∧ ∀ l ∈ ls, l.Recovers b by
    rw [start]
    simpa [owed, Queue.opened] using done
  let inv (rest : List String) (q' : Queue) : Prop := rest.Nodup ∧ ∃ ls,
    Path (Step sha) ⟨q, owed recovered.dedup⟩ ls ⟨q', owed rest⟩ ∧ ∀ l ∈ ls, l.Recovers b
  suffices round : ∀ w rest q', inv (w :: rest) q' → inv rest (q'.settleWorker utc recovered w) from
    (foldl_induct round recovered.dedup q ⟨List.nodup_dedup _, [], .nil _, by simp⟩).2
  rintro w rest q' ⟨nodup, ls, path, recovers⟩
  obtain ⟨fresh, nodup⟩ := List.nodup_cons.mp nodup
  have step : Step sha ⟨q', owed (w :: rest)⟩ (.reckoned w)
      ⟨q'.settleWorker utc recovered w, Function.update (owed (w :: rest)) w 0⟩ := by
    apply Step.reckoned
    · intro row _ fair
      have owes : owed (w :: rest) w = recovered.count w := if_pos List.mem_cons_self
      rw [owes] at fair
      exact fair.returned (Int.natCast_nonneg _) rfl rfl fun hr => hr
    · intro row _ _ bounded
      obtain ⟨h₀, h₁⟩ := bounded
      constructor <;> simp only [Worker.releaseSlots] <;> omega
  have owes : Function.update (owed (w :: rest)) w 0 = owed rest := by
    funext x
    by_cases hx : x = w
    · subst hx
      simp [owed, fresh]
    · simp [owed, hx]
  rw [owes] at step
  refine ⟨nodup, _, path.snoc step, ?_⟩
  intro l hl
  obtain hl | hl := List.mem_append.mp hl
  · exact recovers l hl
  · rw [List.mem_singleton.mp hl]
    trivial

/-- A committed recovery. -/
def Recovery (sha : Sha256) (b : Backend) (q q' : Queue) : Prop :=
  ∃ ls, Transaction sha q ls q' ∧ ∀ l ∈ ls, l.Recovers b

theorem Recovered.settle (h : Recovered sha b q.opened workers q') (utc : String) :
    Recovery sha b q (q'.settleRecovered utc workers) := by
  obtain ⟨ls, path, recovers⟩ := h
  obtain ⟨ms, settles, recovers'⟩ := settleRecovered_path sha b q' utc workers
  have owed : (fun w => q.opened.owed w + (workers.count w : Int)) =
      fun w => (workers.count w : Int) := by
    funext w
    simp [Queue.opened]
  rw [owed] at path
  refine ⟨_, ⟨_, path.append settles, fun _ _ => rfl⟩, ?_⟩
  intro l hl
  obtain hl | hl := List.mem_append.mp hl
  · exact recovers l hl
  · exact recovers' l hl

theorem Queue.staleWorkerLeases_active (q : Queue) {cutoff current : ℚ} :
    ∀ c ∈ q.staleWorkerLeases cutoff current, c.1.state.active := by
  intro c hc
  simp only [staleWorkerLeases, List.mem_filterMap] at hc
  obtain ⟨row, -, hrow⟩ := hc
  split at hrow
  · cases hrow
  · split at hrow
    next live =>
      cases hrow
      exact live.1
    next => cases hrow

theorem recoverStaleWorkerLeases_sat (hs : Sound q.opened) {a : SweepArgs} :
    Sat (q.recoverStaleWorkerLeases b a) (fun r => Recovery sha b q r.2) Benign := by
  simp only [Queue.recoverStaleWorkerLeases, sat_bind, sat_pure]
  let inv (rest : List (Job × ℚ)) (acc : List String × Queue) : Prop :=
    (∀ c ∈ rest, c.1.state.active) ∧ Recovered sha b q.opened acc.1 acc.2
  suffices round : ∀ c rest acc, inv (c :: rest) acc →
      Sat (Queue.recoverStaleLease b a acc c) (inv rest) Benign from
    (Sat.foldlM round _ _ ⟨q.staleWorkerLeases_active, .nil⟩).mono
      (fun acc h => h.2.settle a.utc) fun _ he => he
  rintro ⟨row, heartbeat⟩ rest ⟨workers, q'⟩ ⟨active, h⟩
  obtain ⟨rowActive, active⟩ := List.forall_mem_cons.mp active
  unfold Queue.recoverStaleLease
  dsimp only
  split
  next => exact ⟨active, h⟩
  next fresh found =>
    split
    next same =>
      obtain ⟨state, owner, -⟩ := same
      have named := Queue.job?_jobId found
      rw [← named] at found
      rw [← named, ← state, ← owner]
      simp only [sat_bind, sat_pure]
      exact (h.release hs found (state ▸ rowActive) rfl rfl rfl).mono
        (fun _ h => ⟨active, h.1⟩) fun _ he => he
    next => exact ⟨active, h⟩

theorem Queue.expiredLeaseCandidates_current (q : Queue) (cutoff : ℚ) :
    q.jobs.Current (q.expiredLeaseCandidates cutoff) ∧
      ∀ row ∈ q.expiredLeaseCandidates cutoff, row.state.active := by
  have perm := List.perm_insertionSort (fun a b : Job => a.leaseWorkerId < b.leaseWorkerId ∨
    (a.leaseWorkerId = b.leaseWorkerId ∧ a.jobId ≤ b.jobId)) (q.jobs.rows.filter fun row =>
    row.state.active && decide (0 < row.leaseExpiresAt ∧ row.leaseExpiresAt ≤ cutoff))
  refine ⟨(q.jobs.current_filter _).perm perm, fun row hrow => ?_⟩
  have hm := perm.mem_iff.mp hrow
  simp only [List.mem_filter, Bool.and_eq_true] at hm
  exact hm.2.1

theorem recoverExpiredLeases_sat (hs : Sound q.opened) {a : SweepArgs} :
    Sat (q.recoverExpiredLeases env b a) (fun r => Recovery sha b q r.2) Benign := by
  simp only [Queue.recoverExpiredLeases, sat_bind, sat_pure]
  let inv (rest : List Job) (acc : List String × Queue) : Prop :=
    acc.2.jobs.Current rest ∧ (∀ row ∈ rest, row.state.active) ∧
      Recovered sha b q.opened acc.1 acc.2
  suffices round : ∀ row rest acc, inv (row :: rest) acc →
      Sat (Queue.recoverExpiredLease b (recoveryCutoff env a) a acc row) (inv rest) Benign from
    (Sat.foldlM round _ _ ⟨(q.expiredLeaseCandidates_current _).1,
      (q.expiredLeaseCandidates_current _).2, .nil⟩).mono (fun acc h => h.2.2.settle a.utc)
      fun _ he => he
  rintro row rest ⟨workers, q'⟩ ⟨current, active, h⟩
  obtain ⟨rowActive, active⟩ := List.forall_mem_cons.mp active
  have found : q'.job? row.jobId = some row := current.head
  have skip : inv rest (workers, q') := ⟨current.tail fun _ _ => rfl, active, h⟩
  unfold Queue.recoverExpiredLease
  dsimp only
  rw [found]
  dsimp only
  split
  next =>
    simp only [sat_bind, sat_pure]
    exact (h.release hs found rowActive rfl rfl rfl).mono
      (fun _ h => ⟨current_after current h.2.2, active, h.1⟩) fun _ he => he
  next => exact skip

theorem recoverWorkerJobsLocked_sat (sha : Sha256) (hs : Sound L) {worker code : String}
    {stamp : String → String} :
    Sat (L.queue.recoverWorkerJobsLocked b worker code stamp)
      (fun r => ∃ workers, Recovered sha b L workers r.2 ∧ (∀ w ∈ workers, w = worker) ∧
        r.2.workers = L.queue.workers ∧ r.2.activeCount worker = 0) Benign := by
  let inv (rest : List Job) (acc : Int × Queue) : Prop :=
    (∃ workers, Recovered sha b L workers acc.2 ∧ ∀ w ∈ workers, w = worker) ∧
      acc.2.workers = L.queue.workers ∧ ∀ id row, acc.2.job? id = some row → row.heldBy worker → id ∈ rest.map Job.jobId
  suffices round : ∀ row rest acc, inv (row :: rest) acc →
      Sat (Queue.recoverWorkerJob b worker code stamp acc row) (inv rest) Benign by
    refine (Sat.foldlM round _ _ ⟨⟨[], .nil, by simp⟩, rfl, ?_⟩).mono ?_ fun _ he => he
    · intro id row found held
      have named := Queue.job?_jobId found
      rw [← named]
      exact List.mem_map_of_mem (List.mem_filter.mpr
        ⟨(Table.get?_some_iff.mp found).1, held⟩)
    · rintro acc ⟨⟨workers, recovered, mine⟩, registry, none⟩
      refine ⟨workers, recovered, mine, registry, Queue.activeCount_eq_zero fun id row found => ?_⟩
      by_contra held
      exact List.not_mem_nil (none id row found (by simpa using held))
  rintro candidate rest ⟨count, q'⟩ ⟨⟨workers, recovered, mine⟩, registry, pending⟩
  dsimp only at recovered registry pending
  unfold Queue.recoverWorkerJob
  dsimp only
  split
  next absent =>
    refine ⟨⟨workers, recovered, mine⟩, registry, fun id row found held => ?_⟩
    obtain rfl | hid := List.mem_cons.mp (pending id row found held)
    · rw [absent] at found
      cases found
    · exact hid
  next row found =>
    have named := Queue.job?_jobId found
    rw [← named] at found
    split
    next mineNow =>
      simp only [sat_bind, sat_pure]
      refine (recovered.release hs found mineNow.2 rfl rfl rfl).mono ?_ fun _ he => he
      rintro q'' ⟨released, same, jobs⟩
      refine ⟨⟨_, released, fun w hw => ?_⟩, same.trans registry, fun id row' found' held => ?_⟩
      · obtain rfl | hw := List.mem_cons.mp hw
        · exact mineNow.1
        · exact mine w hw
      · dsimp only at found'
        rw [jobs] at found'
        split at found'
        next hid =>
          subst hid
          rw [found] at found'
          obtain rfl := Option.some.inj found'
          simp [Job.heldBy, Job.release, Job.not_active_releaseTarget] at held
        next hid =>
          obtain rfl | hmem := List.mem_cons.mp (pending id row' found' held)
          · exact absurd named.symm hid
          · exact hmem
    next other =>
      refine ⟨⟨workers, recovered, mine⟩, registry, fun id row' found' held => ?_⟩
      obtain rfl | hmem := List.mem_cons.mp (pending id row' found' held)
      · rw [← named, found] at found'
        obtain rfl := Option.some.inj found'
        simp only [Job.heldBy, Bool.and_eq_true, decide_eq_true_eq] at held
        exact absurd ⟨held.2, held.1⟩ other
      · exact hmem

theorem revokeWorker_sat (hs : Sound q.opened) {worker utc : String}
    {stamp : String → String} :
    Sat (q.revokeWorker b worker utc stamp)
      (fun r => Recovery sha b q r.2 ∧ r.2.activeCount worker = 0) Benign := by
  unfold Queue.revokeWorker
  split
  next => exact workerUnknown_benign
  next w registered =>
    have step : Step sha q.opened (.reckoned worker)
        ⟨q.updateWorker worker (·.revoke utc),
          Function.update (fun _ => 0) worker (-q.activeCount worker)⟩ := by
      apply Step.reckoned
      · intro row found fair
        have named := Queue.worker?_workerId found
        refine ⟨?_, fun _ => rfl⟩
        change 0 = q.activeCount row.workerId + _
        rw [named]
        omega
      · intro row _ _ bounded
        obtain ⟨h₀, h₁⟩ := bounded
        constructor <;> simp only [Worker.revoke] <;> omega
    refine (recoverWorkerJobsLocked_sat sha (step.sound hs)).mono ?_ fun _ he => he
    rintro ⟨count, q'⟩ ⟨workers, ⟨ls, path, recovers⟩, mine, registry, none⟩
    refine ⟨⟨_, ⟨_, .cons step path, ?_⟩, ?_⟩, none⟩
    · intro id found
      dsimp only at none found ⊢
      by_cases hid : id = worker
      · subst hid
        have revoked : q'.worker? id = some (w.revoke utc) := by
          have after : (q.updateWorker id (·.revoke utc)).worker? id = some (w.revoke utc) := by
            rw [Queue.worker?_updateWorker, if_pos rfl, registered]
            rfl
          dsimp only at registry
          rw [← after, Queue.worker?, registry]
          rfl
        have balance := (((step.sound hs).path path).fair id _ revoked).balance
        dsimp only at balance
        rw [Queue.worker?_workerId revoked, none] at balance
        simpa [Worker.revoke] using balance.symm
      · have : workers.count id = 0 :=
          List.count_eq_zero.mpr fun hm => hid (mine id hm)
        simp [hid, this]
    · intro l hl
      obtain rfl | hl := List.mem_cons.mp hl
      · trivial
      · exact recovers l hl

theorem reconcileLeases_sat (sha : Sha256) (hs : Sound q.opened) {stamp : String → String} {horizon : ℚ} :
    Sat ((q.invalidLeaseCandidates horizon).foldlM (Queue.reconcileLease b stamp) q)
      (fun q' => ∃ workers, Recovered sha b q.opened workers q') Benign := by
  let inv (rest : List Job) (q' : Queue) : Prop :=
    q'.jobs.Current rest ∧ (∀ row ∈ rest, row.state.active) ∧
      ∃ workers, Recovered sha b q.opened workers q'
  have start : ∀ row ∈ q.invalidLeaseCandidates horizon, row.state.active := by
    intro row hrow
    simp only [Queue.invalidLeaseCandidates, List.mem_filter, Bool.and_eq_true] at hrow
    exact hrow.2.1
  suffices round : ∀ row rest q', inv (row :: rest) q' →
      Sat (Queue.reconcileLease b stamp q' row) (inv rest) Benign from
    (Sat.foldlM round _ _ ⟨q.jobs.current_filter _, start, [], .nil⟩).mono
      (fun _ h => h.2.2) fun _ he => he
  rintro row rest q' ⟨current, active, workers, h⟩
  obtain ⟨rowActive, active⟩ := List.forall_mem_cons.mp active
  exact (h.release hs current.head rowActive rfl rfl rfl).mono
    (fun _ h => ⟨current_after current h.2.2, active, _, h.1⟩) fun _ he => he

/-- The counters that repair has passed are right; nobody is owed to. -/
structure Repaired (sha : Sha256) (b : Backend) (q : Queue) (rest : List Worker) (q' : Queue) :
    Prop where
  current : q'.workers.Current rest
  path : ∃ o ls, Path (Step sha) q.opened ls ⟨q', o⟩ ∧ (∀ l ∈ ls, l.Recovers b) ∧
    (∀ id, 0 ≤ o id) ∧
    ∀ id, (q'.worker? id).isSome → id ∉ rest.map Worker.workerId → o id = 0

theorem Repaired.round (hs : Sound q.opened) {w : Worker} {rest : List Worker} {n : Nat}
    {utc : String} (h : Repaired sha b q (w :: rest) q') :
    Repaired sha b q rest (Queue.repairCounter utc (n, q') w).2 := by
  obtain ⟨current, o, ls, path, recovers, nonneg, settled⟩ := h
  have found : q'.worker? w.workerId = some w := current.head
  have sound := hs.path path
  have fair : w.Fair q' (o w.workerId) := sound.fair _ w found
  have balance := fair.balance
  have held : q'.heldLeases w.workerId = q'.activeCount w.workerId := by
    refine if_neg fun unnamed => ?_
    have none : q'.worker? "" = none := sound.named
    rw [unnamed, none] at found
    cases found
  unfold Queue.repairCounter
  dsimp only
  rw [held]
  split
  next same =>
    refine ⟨current.tail fun _ _ => rfl, o, ls, path, recovers, nonneg, fun id reg fresh => ?_⟩
    by_cases hid : id = w.workerId
    · subst hid
      omega
    · exact settled id reg (by simpa [hid] using fresh)
  next =>
    have step : Step sha ⟨q', o⟩ (.reckoned w.workerId)
        ⟨q'.updateWorker w.workerId (·.recount (q'.activeCount w.workerId) utc),
          Function.update o w.workerId 0⟩ := by
      have lower := q'.activeCount_nonneg w.workerId
      have owed := nonneg w.workerId
      apply Step.reckoned
      · intro row found' fair
        obtain rfl := Option.some.inj (found.symm.trans found')
        refine ⟨(Int.add_zero _).symm, fun revoked => ?_⟩
        have zero := fair.revoked revoked
        change q'.activeCount w.workerId = 0
        omega
      · intro row found' _ bounded
        obtain rfl := Option.some.inj (found.symm.trans found')
        obtain ⟨h₀, h₁⟩ := bounded
        constructor <;> simp only [Worker.recount] <;> omega
    refine ⟨current.tail fun id hid => ?_, _, _, path.snoc step, ?_, ?_, ?_⟩
    · exact (Queue.worker?_updateWorker).trans (if_neg hid)
    · intro l hl
      obtain hl | hl := List.mem_append.mp hl
      · exact recovers l hl
      · rw [List.mem_singleton.mp hl]
        trivial
    · intro id
      by_cases hid : id = w.workerId
      · simp [hid]
      · simpa [hid] using nonneg id
    · intro id reg fresh
      by_cases hid : id = w.workerId
      · simp [hid]
      · change ((q'.updateWorker w.workerId
          (·.recount (q'.activeCount w.workerId) utc)).worker? id).isSome at reg
        rw [Queue.worker?_updateWorker, if_neg hid] at reg
        simpa [hid] using settled id reg (by simpa [hid] using fresh)

theorem reconcileDurableState_sat (hs : Sound q.opened) {a : SweepArgs} :
    Sat (q.reconcileDurableState b a) (fun r => Recovery sha b q r.2) Benign := by
  simp only [Queue.reconcileDurableState, sat_bind, sat_pure]
  refine (reconcileLeases_sat sha hs).mono ?_ fun _ he => he
  rintro recovered ⟨workers, ls, path, recovers⟩
  have start : Repaired sha b q recovered.workers.rows recovered := by
    refine ⟨?_, _, ls, path, recovers, fun id => by simp [Queue.opened], fun id reg fresh => ?_⟩
    · exact ⟨recovered.workers.nodup, fun w hw => Table.mem_rows_iff.mp hw⟩
    · obtain ⟨w, hw⟩ := Option.isSome_iff_exists.mp reg
      exact absurd (Queue.worker?_workerId hw ▸ List.mem_map_of_mem
        (Table.get?_some_iff.mp hw).1) fresh
  let inv (rest : List Worker) (acc : Nat × Queue) : Prop := Repaired sha b q rest acc.2
  have round : ∀ w rest acc, inv (w :: rest) acc → inv rest (Queue.repairCounter a.utc acc w) :=
    fun w rest acc h => Repaired.round hs h
  have done := foldl_induct round recovered.workers.rows (0, recovered) start
  obtain ⟨-, o, ls, path, recovers, -, settled⟩ := done
  exact ⟨ls, ⟨o, path, fun id reg => settled id reg (by simp)⟩, recovers⟩

end Recovery

end Arenyxa.Distributed
