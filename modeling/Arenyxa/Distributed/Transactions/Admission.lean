import Arenyxa.Distributed.Transactions.Work

/-! Transactions that admit jobs and workers, and the maintenance that makes room. -/

namespace Arenyxa.Distributed

open Outcome QueueError

/-- The statements of history pruning. -/
def Label.Prunes : Label → Prop
  | .fenced _ | .erased _ | .dropped _ => True
  | _ => False

/-- `q'` was reached by pruning; nothing is owed on the way. -/
def Pruned (sha : Sha256) (q q' : Queue) : Prop :=
  ∃ ls, Path (Step sha) q.opened ls q'.opened ∧ ∀ l ∈ ls, l.Prunes

section Pruning

variable {sha : Sha256} {q q' q'' : Queue}

theorem Pruned.refl : Pruned sha q q := ⟨[], .nil _, by simp⟩

theorem Pruned.step {l : Label} (h : Pruned sha q q') (step : Step sha q'.opened l q''.opened)
    (prunes : l.Prunes) : Pruned sha q q'' := by
  obtain ⟨ls, path, all⟩ := h
  refine ⟨_, path.snoc step, fun l' hl => ?_⟩
  obtain hl | hl := List.mem_append.mp hl
  · exact all l' hl
  · rwa [List.mem_singleton.mp hl]

theorem Pruned.sound (h : Pruned sha q q') (hs : Sound q.opened) : Sound q'.opened := by
  obtain ⟨ls, path, -⟩ := h
  exact hs.path path

theorem Sound.storeTerminalFence (sha : Sha256) (hs : Sound q.opened) {row : Job}
    (found : q.job? row.jobId = some row) (terminal : row.state.terminal) :
    q.storeTerminalFence row = .ok (q.upsertFence (row.fence jsonDumps)) ∧
      Step sha q.opened (.fenced row.jobId) (q.upsertFence (row.fence jsonDumps)).opened := by
  have sealed := hs.fences _ _ found
  rw [Queue.Sealed, if_pos terminal] at sealed
  obtain ⟨f, fence, same, -⟩ := sealed
  have agrees : q.fenceAgrees row := Queue.fenceAgrees_iff.mpr fun f' hf' => by
    obtain rfl := Option.some.inj (fence.symm.trans hf')
    exact same
  refine ⟨?_, .fenced found terminal agrees⟩
  simp [Queue.storeTerminalFence, require, agrees, bind, Except.bind, pure, Except.pure]

theorem Pruned.pruneJob (h : Pruned sha q q') (hs : Sound q.opened) {row : Job}
    (found : q'.job? row.jobId = some row) (terminal : row.state.terminal) :
    Sat (q'.pruneJob row) (fun q'' => Pruned sha q q'' ∧
      ∀ id, id ≠ row.jobId → q''.job? id = q'.job? id) Benign := by
  obtain ⟨stored, fenced⟩ := Sound.storeTerminalFence sha (h.sound hs) found terminal
  have kept : (q'.upsertFence (row.fence jsonDumps)).job? row.jobId = some row := by
    simpa [Queue.job?] using found
  have sealed := (fenced.sound (h.sound hs)).fences _ _ kept
  rw [Queue.Sealed, if_pos terminal] at sealed
  obtain ⟨f, fence, seals⟩ := sealed
  unfold Queue.pruneJob
  rw [stored]
  refine ⟨(h.step fenced trivial).step (.erased kept terminal fence seals) trivial, ?_⟩
  intro id hid
  rw [Queue.job?_deleteJob kept terminal, if_neg hid]
  simp [Queue.job?]

theorem Queue.terminalHistory_current (q : Queue) :
    q.jobs.Current q.terminalHistory ∧ ∀ row ∈ q.terminalHistory, row.state.terminal := by
  have perm := List.perm_insertionSort (fun a b : Job => b.updatedAt < a.updatedAt ∨
    (a.updatedAt = b.updatedAt ∧ b.jobId ≤ a.jobId)) (q.jobs.rows.filter fun row =>
      row.state.terminal)
  refine ⟨(q.jobs.current_filter _).perm perm, fun row hrow => ?_⟩
  have hm := perm.mem_iff.mp hrow
  exact (List.mem_filter.mp hm).2

theorem pruneHistory_sat (hs : Sound q.opened) {maxTerminal : Int} :
    Sat (q.pruneHistory maxTerminal) (Pruned sha q) Benign := by
  unfold Queue.pruneHistory
  split
  next =>
    obtain ⟨current, terminal⟩ := q.terminalHistory_current
    let inv (rest : List Job) (q' : Queue) : Prop :=
      q'.jobs.Current rest ∧ (∀ row ∈ rest, row.state.terminal) ∧ Pruned sha q q'
    suffices round : ∀ row rest q', inv (row :: rest) q' →
        Sat (q'.pruneJob row) (inv rest) Benign from
      (Sat.foldlM round _ _ ⟨current.sublist (List.drop_sublist _ _),
        fun row hrow => terminal row (List.mem_of_mem_drop hrow), .refl⟩).mono
        (fun _ h => h.2.2) fun _ he => he
    rintro row rest q' ⟨current, terminal, pruned⟩
    obtain ⟨rowTerminal, terminal⟩ := List.forall_mem_cons.mp terminal
    exact (pruned.pruneJob hs current.head rowTerminal).mono
      (fun _ h => ⟨current.tail h.2, terminal, h.1⟩) fun _ he => he
  next => exact .refl

theorem Pruned.tombstones (h : Pruned sha q q') {maxTombstones : Int} :
    Pruned sha q (q'.pruneTombstones maxTombstones) := by
  unfold Queue.pruneTombstones
  split
  next =>
    exact foldl_induct (I := fun _ q' => Pruned sha q q')
      (fun f _ q' h => h.step (l := .dropped f.idempotencyKey) .dropped trivial) _ _ h
  next => exact h

theorem retainTerminalLocked_sat (sha : Sha256) (hs : Sound q.opened) {maxTerminal maxTombstones : Int} :
    Sat (q.retainTerminalLocked maxTerminal maxTombstones) (fun r => Pruned sha q r.2) Benign := by
  simp only [Queue.retainTerminalLocked, sat_bind, sat_pure]
  exact (pruneHistory_sat hs).mono (fun _ h => h.tombstones) fun _ he => he

theorem backfillTerminalFences_sat (sha : Sha256) (hs : Sound q.opened) :
    Sat q.backfillTerminalFences (fun q' => ∃ q₁, Pruned sha q q₁ ∧
      Step sha q₁.opened .flagged q'.opened) Benign := by
  simp only [Queue.backfillTerminalFences, sat_bind, sat_pure]
  let inv (rest : List Job) (q' : Queue) : Prop :=
    q'.jobs.Current rest ∧ (∀ row ∈ rest, row.state.terminal) ∧ Pruned sha q q'
  suffices round : ∀ row rest q', inv (row :: rest) q' →
      Sat (q'.storeTerminalFence row) (inv rest) Benign from
    (Sat.foldlM round _ _ ⟨q.jobs.current_filter _,
      fun row hrow => (List.mem_filter.mp hrow).2, .refl⟩).mono
      (fun q₁ h => ⟨q₁, h.2.2, .flagged⟩) fun _ he => he
  rintro row rest q' ⟨current, terminal, pruned⟩
  obtain ⟨rowTerminal, terminal⟩ := List.forall_mem_cons.mp terminal
  obtain ⟨stored, fenced⟩ := Sound.storeTerminalFence sha (pruned.sound hs) current.head
    rowTerminal
  apply sat_of_eq stored
  exact ⟨current.tail fun id _ => by simp, terminal, pruned.step fenced trivial⟩

end Pruning

section Submission

variable {env : Env} {b : Backend} {q q' : Queue}

theorem parseSideEffectMode_benign {value : String} {e : QueueError}
    (raised : parseSideEffectMode value = .error e) : Benign e := by
  unfold parseSideEffectMode at raised
  generalize casefold (strip value) = mode at raised
  by_cases idempotent : mode = SideEffectMode.idempotent.name
  · rw [if_pos idempotent] at raised
    cases raised
  rw [if_neg idempotent] at raised
  by_cases other : mode = SideEffectMode.nonIdempotent.name
  · rw [if_pos other] at raised
    cases raised
  rw [if_neg other] at raised
  cases raised
  exact benign_of_code (by simp [sideEffectModeInvalid]) (by simp [sideEffectModeInvalid])

theorem admit_sat {a : EnqueueArgs} :
    Sat (a.accept env) (fun row => row.Fresh ∧ row.jobId = a.jobId ∧
      row.idempotencyKey = strip a.idempotencyKey) Benign := by
  simp only [EnqueueArgs.accept, sat_bind, sat_pure, sat_require]
  with_reducible apply cleanToken_sat.mono _ fun _ he => he
  intro kind _
  with_reducible apply cleanToken_sat.mono _ fun _ he => he
  intro resource _
  with_reducible apply cleanToken_sat.mono _ fun _ he => he
  intro capability _
  with_reducible apply cleanToken_sat.mono _ fun _ he => he
  intro idem keyed
  cases parsed : parseSideEffectMode a.sideEffectMode with
  | error => exact parseSideEffectMode_benign parsed
  | ok mode =>
  refine ⟨fun _ => ?_, fun _ => benign_of_code (by simp) (by simp)⟩
  with_reducible apply boundedJson_sat.mono _ fun _ he => he
  intro payload _
  exact ⟨{
    queued := rfl
    worker := rfl
    token := rfl
    expires := rfl
    attempt := rfl
    maxAttempts := le_max_left _ _
    effect := rfl }, trivial, keyed.1⟩

theorem prefixGuard_sat {a : EnqueueArgs} :
    Sat (q.prefixGuard a) (fun _ => True) Benign := by
  unfold Queue.prefixGuard
  split
  next => trivial
  next =>
    simp only [sat_bind, sat_require]
    with_reducible apply cleanToken_sat.mono _ fun _ he => he
    intro namePrefix _
    exact ⟨fun _ => trivial, fun _ => benign_of_code (by simp) (by simp)⟩

theorem jobCountGuard_sat (sha : Sha256) (hs : Sound q.opened) :
    Sat q.jobCountGuard (Pruned sha q) Benign := by
  unfold Queue.jobCountGuard
  split
  next => exact .refl
  next =>
    simp only [sat_bind, sat_require, sat_pure]
    refine (retainTerminalLocked_sat sha hs).mono ?_ fun _ he => he
    exact fun r pruned => ⟨fun _ => pruned,
      fun _ => benign_of_code (by simp [queueFull]) (by simp [queueFull])⟩

theorem Step.heldIdentity?_eq_none {sha : Sha256} {L L' : Ledger} {l : Label}
    (h : Step sha L l L') (prunes : l.Prunes) {key : String}
    (free : L.queue.heldIdentity? key = none) : L'.queue.heldIdentity? key = none := by
  obtain ⟨noRow, noFence⟩ := Queue.heldIdentity?_eq_none free
  have fresh := Queue.jobForKey?_eq_none.mp noRow
  suffices gone : L'.queue.jobForKey? key = none ∧ L'.queue.fence? key = none by
    simp [Queue.heldIdentity?, gone]
  cases h with
  | fenced found terminal agrees =>
    rename_i q o row
    refine ⟨by simpa [Queue.jobForKey?] using noRow, ?_⟩
    have other : key ≠ row.idempotencyKey := fun hk =>
      fresh (hk ▸ List.mem_map_of_mem (Table.get?_some_iff.mp found).1)
    change (q.upsertFence (row.fence jsonDumps)).fence? key = none
    rw [Queue.fence?_upsertFence, if_neg (show key ≠ (row.fence jsonDumps).idempotencyKey from other)]
    exact noFence
  | erased found terminal fence seals =>
    refine ⟨Queue.jobForKey?_eq_none.mpr fun hm => ?_, noFence⟩
    obtain ⟨r, hr, rfl⟩ := List.mem_map.mp hm
    exact fresh (List.mem_map_of_mem (Queue.mem_jobs_deleteJob hr))
  | dropped =>
    refine ⟨noRow, ?_⟩
    rw [Queue.fence?_deleteIdempotentFence, noFence]
    rfl
  | entered | moved | distrusted | enrolled | redeclared | reckoned | flagged => cases prunes

theorem Pruned.heldIdentity?_eq_none {sha : Sha256} (h : Pruned sha q q') {key : String}
    (free : q.heldIdentity? key = none) : q'.heldIdentity? key = none := by
  obtain ⟨ls, path, all⟩ := h
  exact path.invariant (P := fun L => L.queue.heldIdentity? key = none)
    (fun _ _ _ hl step => step.heldIdentity?_eq_none (all _ hl)) free

/-- An enqueue that creates a job. -/
def Enqueued (env : Env) (b : Backend) (a : EnqueueArgs) (q q' : Queue) : Prop :=
  ∃ row v q₁, a.accept env = .ok row ∧ row.jobId = a.jobId ∧
    row.idempotencyKey = strip a.idempotencyKey ∧
    q.heldIdentity? row.idempotencyKey = none ∧ Pruned env.sha q q₁ ∧
    Step env.sha q₁.opened (.entered row ⟨.kept b, v⟩) q'.opened

theorem Queue.settle_queued (q : Queue) {row : Job} (queued : row.state = .queued) (e : Entry) :
    q.settle row (some e) = q.journalize e.recording e.values := by
  rw [settle, sealRow, if_neg (by simp [queued, JobState.terminal])]

theorem Queue.entered (sha : Sha256) {row : Job} {v : EventValues}
    (absent : q.job? row.jobId = none) (free : q.heldIdentity? row.idempotencyKey = none)
    (fresh : row.Fresh) (named : v.jobId = row.jobId) (leaves : v.fromState = none)
    (enters : v.toState = .queued) :
    Sat ((q.insertRow row).recordEventLocked b v)
      (fun q' => Step sha q.opened (.entered row ⟨.kept b, v.stored⟩) q'.opened) Benign := by
  have agrees : (q.insertRow row).fenceAgrees row := by
    apply Queue.fenceAgrees_iff.mpr
    intro f hf
    rw [show (q.insertRow row).fence? row.idempotencyKey = none from
      (Queue.heldIdentity?_eq_none free).2] at hf
    cases hf
  apply sat_of_eq (Queue.recordEventLocked_eq _ _ (enters.trans fresh.queued.symm) fun _ => agrees)
  · rw [Queue.settle_queued _ fresh.queued]
    exact .entered absent free fresh ⟨named, leaves, enters⟩
  · rw [named, Queue.job?_insertRow absent, if_pos rfl]
  · rw [leaves, enters]
    exact (by decide : (none, JobState.queued) ∈ allowedJobTransitions)

theorem enqueue_sat (hs : Sound q.opened) {a : EnqueueArgs} :
    Sat (q.enqueue env b a) (fun r =>
      (r.2 = q ∧ ∃ held, q.heldIdentity? (strip a.idempotencyKey) = some held ∧
        r.1 = held.jobId) ∨
      (r.1 = a.jobId ∧ Enqueued env b a q r.2)) Benign := by
  simp only [Queue.enqueue, sat_bind]
  cases accepted : a.accept env with
  | error e => exact admit_sat.of_error accepted
  | ok row =>
  obtain ⟨fresh, named, keyed⟩ := admit_sat.of_ok accepted
  rw [sat_ok]
  split
  next held hheld =>
    simp only [sat_bind, sat_require, sat_pure]
    rw [keyed] at hheld
    refine ⟨fun _ => .inl ⟨by simp, held, hheld, rfl⟩, fun _ => ⟨?_, ?_⟩⟩
    · simp [idempotencyCollision]
    · simp [idempotencyCollision, fenceCollision, fail]
  next free =>
    simp only [sat_bind, sat_pure, Queue.insertJob, sat_require]
    with_reducible apply prefixGuard_sat.mono _ fun _ he => he
    intro _ _
    with_reducible apply (jobCountGuard_sat env.sha hs).mono _ fun _ he => he
    intro q₁ pruned
    refine ⟨?_, fun _ => ⟨by simp [QueueError.code], by simp [fenceCollision, fail]⟩⟩
    rintro ⟨absent, -⟩
    apply (Queue.entered env.sha absent (pruned.heldIdentity?_eq_none free) fresh rfl rfl
      rfl).mono _ fun _ he => he
    intro q' step
    exact .inr ⟨named, row, _, q₁, accepted, named, keyed, free, pruned, step⟩

end Submission

section Registry

variable {env : Env} {b : Backend} {q : Queue}

theorem normalizeAlgorithm_benign {value : String} {e : QueueError}
    (raised : normalizeAlgorithm value = .error e) : Benign e := by
  unfold normalizeAlgorithm require at raised
  dsimp only at raised
  generalize (algorithmAliases.lookup _).getD _ = text at raised
  by_cases known : text = ed25519 ∨ text = ecdsaP256Sha256
  · rw [if_pos known] at raised
    cases raised
  · rw [if_neg known] at raised
    cases raised
    exact benign_of_code (by simp) (by simp)

theorem negotiateProtocol_sat {lo hi : Int} :
    Sat (negotiateProtocol lo hi) (fun _ => True) Benign := by
  simp only [negotiateProtocol, sat_bind, sat_require, sat_pure]
  exact ⟨fun _ => trivial, fun _ => benign_of_code (by simp) (by simp)⟩

theorem validatePublicKey_sat {algorithm publicKey : String} :
    Sat (env.validatePublicKey algorithm publicKey) (fun _ => True) Benign := by
  unfold Env.validatePublicKey
  split
  next => trivial
  next problem _ =>
    cases problem with
    | encodingInvalid => exact benign_of_code (by simp [KeyProblem.error]) (by simp [KeyProblem.error])
    | keyInvalid => exact benign_of_code (by simp [KeyProblem.error]) (by simp [KeyProblem.error])

/-- What every admitted registration looks like. -/
structure RegisterArgs.Admitted (a : RegisterArgs) (new : Worker) : Prop where
  workerId : new.workerId = strip a.workerId
  named : new.workerId ≠ ""
  idle : new.activeLeases = 0
  active : new.state = .active
  slots : new.maxSlots = a.slots

theorem RegisterArgs.admit_sat {a : RegisterArgs} : Sat (a.accept env) a.Admitted Benign := by
  simp only [RegisterArgs.accept, sat_bind, sat_pure]
  with_reducible apply cleanToken_sat.mono _ fun _ he => he
  intro worker named
  cases known : normalizeAlgorithm a.identityAlgorithm with
  | error => exact normalizeAlgorithm_benign known
  | ok algorithm =>
  apply validatePublicKey_sat.mono _ fun _ he => he
  intro _ _
  with_reducible apply negotiateProtocol_sat.mono _ fun _ he => he
  intro negotiated _
  with_reducible apply boundedJson_sat.mono _ fun _ he => he
  intro resources _
  with_reducible apply boundedJson_sat.mono _ fun _ he => he
  intro metadata _
  exact ⟨named.1, named.2, rfl, rfl, rfl⟩

theorem identityMismatch_benign : Benign identityMismatch :=
  benign_of_code (by simp [identityMismatch]) (by simp [identityMismatch])

theorem requireSameIdentity_sat {existing new : Worker} :
    Sat (Queue.requireSameIdentity existing new) (fun _ => True) Benign := by
  simp only [Queue.requireSameIdentity, sat_bind, sat_require]
  with_reducible apply compareDigest_sat.mono _ fun _ he => he
  intro sameKey _
  refine ⟨fun _ => ?_, fun _ => identityMismatch_benign⟩
  cases known : normalizeAlgorithm existing.identityAlgorithm with
  | error => exact normalizeAlgorithm_benign known
  | ok algorithm =>
  apply compareDigest_sat.mono _ fun _ he => he
  intro sameAlgorithm _
  exact ⟨fun _ => trivial, fun _ => identityMismatch_benign⟩

/-- What a successful registration commits. -/
def Registered (sha : Sha256) (a : RegisterArgs) (q q' : Queue) : Prop :=
  ∃ new, a.Admitted new ∧
    ((q.worker? new.workerId = none ∧ Transaction sha q [.enrolled new] q') ∨
      ((q.worker? new.workerId).isSome ∧ Transaction sha q [.redeclared new] q'))

theorem registerWorker_sat {a : RegisterArgs} :
    Sat (q.registerWorker env b a) (fun r => Registered env.sha a q r.2) Benign := by
  simp only [Queue.registerWorker, Queue.requireCapacity, sat_bind, sat_require]
  with_reducible apply RegisterArgs.admit_sat.mono _ fun _ he => he
  intro new admitted
  refine ⟨fun _ => ?_, fun _ => benign_of_code (by simp) (by simp)⟩
  cases known : q.worker? new.workerId with
  | none =>
    simp only [sat_bind, sat_require, sat_pure]
    refine ⟨fun _ => ?_, fun _ => benign_of_code (by simp) (by simp)⟩
    refine ⟨new, admitted, .inl ⟨known, ?_⟩⟩
    have step : Step env.sha q.opened (.enrolled new) _ :=
      .enrolled known admitted.named admitted.idle admitted.active
    exact ⟨_, .single step, fun w _ => by simp [Function.update_apply]⟩
  | some existing =>
    simp only [sat_bind, sat_require, sat_pure]
    refine ⟨fun _ => ?_, fun _ => benign_of_code (by simp) (by simp)⟩
    with_reducible apply requireSameIdentity_sat.mono _ fun _ he => he
    intro _ _
    exact ⟨new, admitted, .inr ⟨by simp [known], .single .redeclared⟩⟩

theorem Transaction.touched {sha : Sha256} {id : String} {f : Worker → Worker}
    {hf : ∀ r, (f r).workerId = r.workerId}
    (count : ∀ w, (f w).activeLeases = w.activeLeases) (slots : ∀ w, (f w).maxSlots = w.maxSlots)
    (state : ∀ w, q.worker? id = some w → (f w).state = .revoked → w.state = .revoked) :
    Transaction sha q [.reckoned id] (q.updateWorker id f hf) :=
  .single (.touched count slots state)

theorem declaredResources_sat {resources : Option JsonObject} :
    Sat (Queue.declaredResources env resources) (fun _ => True) Benign := by
  unfold Queue.declaredResources
  split
  next => trivial
  next =>
    simp only [sat_bind, sat_pure]
    exact boundedJson_sat.mono (fun _ _ => trivial) fun _ he => he

theorem heartbeat_sat (sha : Sha256) {worker : String} {resources : Option JsonObject}
    {now : Instant} {utc : String} :
    Sat (q.heartbeat env worker resources now utc)
      (Transaction sha q [.reckoned worker]) Benign := by
  simp only [Queue.heartbeat, sat_bind]
  with_reducible apply declaredResources_sat.mono _ fun _ he => he
  intro declared _
  split
  next => exact workerUnknown_benign
  next =>
    simp only [sat_bind, sat_require]
    refine ⟨fun _ => ?_, fun _ => workerRevoked_benign⟩
    split
    next => exact .touched (fun _ => rfl) (fun _ => rfl) fun _ _ h => h
    next => exact .touched (fun _ => rfl) (fun _ => rfl) fun _ _ h => h

theorem setWorkerDrain_sat (sha : Sha256) {worker : String} {drain : Bool} {utc : String} :
    Sat (q.setWorkerDrain worker drain utc) (Transaction sha q [.reckoned worker]) Benign := by
  unfold Queue.setWorkerDrain
  split
  next => exact workerUnknown_benign
  next =>
    simp only [sat_bind, sat_require, sat_pure]
    refine ⟨fun _ => ?_, fun _ => benign_of_code (by simp) (by simp)⟩
    refine .touched (fun _ => rfl) (fun _ => rfl) fun _ _ h => ?_
    cases drain <;> cases h

theorem initializeLeaseClock_transaction (sha : Sha256) {domain : String} {mono epoch : ℚ} :
    ∃ ls, Transaction sha q ls (q.initializeLeaseClock b domain mono epoch) ∧ ∀ l ∈ ls,
      l = .flagged ∨ (l = .distrusted ∧ b = .sqlite ∧ q.anchored domain mono = false) := by
  unfold Queue.initializeLeaseClock
  dsimp only
  split
  next => exact ⟨_, .single .flagged, by simp⟩
  next =>
    split
    next => exact ⟨_, .single .flagged, by simp⟩
    next unanchored =>
      have unanchored : q.anchored domain mono = false := by simpa [Queue.anchored] using unanchored
      split
      next =>
        exact ⟨_, ⟨_, .cons .distrusted (.single .flagged), fun _ _ => rfl⟩, by simp [unanchored]⟩
      next => exact ⟨_, .single .flagged, by simp⟩

end Registry

end Arenyxa.Distributed
