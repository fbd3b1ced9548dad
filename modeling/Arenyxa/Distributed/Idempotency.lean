import Arenyxa.Distributed.Runs

/-! What an idempotency key stands for, through execution, history pruning and restarts. -/

namespace Arenyxa.Distributed

open Outcome QueueError

/-- The row an enqueue inserts where it commits. -/
def Op.inserted? (env : Env) (q : Queue) : Op → Option Job
  | .enqueue a =>
    match a.accept env with
    | .ok row => if q.heldIdentity? row.idempotencyKey = none then some row else none
    | .error _ => none
  | _ => none

/-- The rows inserted in the course of a run. -/
def insertedRows (env : Env) (b : Backend) (ops : List Op) : List Job :=
  (Queue.history env b ops).filterMap fun x => x.2.1.inserted? env x.1

/-- No operation removes the tombstone of the key. -/
def TombstoneKept (env : Env) (b : Backend) (key : String) : Queue → List Op → Prop
  | _, [] => True
  | q, op :: ops =>
    let q' := (queueMachine env b).next q op
    ((q.fence? key).isSome → (q'.fence? key).isSome) ∧ TombstoneKept env b key q' ops

/-- A row or a tombstone of the key has the identity. -/
def Queue.Holds (q : Queue) (key : String) (held : JobIdentity) : Prop :=
  (∃ id row, q.job? id = some row ∧ row.idempotencyKey = key ∧ row.identity = held) ∨
    ∃ f, q.fence? key = some f ∧ f.identity = held

section Identity

variable {sha : Sha256} {env : Env} {b : Backend} {q : Queue} {L L' : Ledger} {l : Label}
  {key : String} {held : JobIdentity} {op : Op} {r : Result × Queue}

theorem Sound.same_identity (hs : Sound q.opened) {id : String} {row : Job} {f : Fence}
    (found : q.job? id = some row) (fence : q.fence? row.idempotencyKey = some f) :
    f.identity = row.identity := by
  have sealed := hs.fences id row found
  unfold Queue.Sealed at sealed
  split at sealed
  next =>
    obtain ⟨f', fence', same, -⟩ := sealed
    obtain rfl := Option.some.inj (fence.symm.trans fence')
    exact same
  next =>
    rw [show q.fence? row.idempotencyKey = none from sealed] at fence
    cases fence

theorem Sound.heldIdentity?_iff (hs : Sound q.opened) :
    q.heldIdentity? key = some held ↔ q.Holds key held := by
  unfold Queue.heldIdentity?
  cases row : q.jobForKey? key with
  | some row' =>
    obtain ⟨found, keyed⟩ := (Queue.jobForKey?_eq_some hs.keys).mp row
    dsimp only
    constructor
    · intro h
      exact .inl ⟨_, row', found, keyed, Option.some.inj h⟩
    · rintro (⟨id, row'', found', keyed', rfl⟩ | ⟨f, fence, rfl⟩)
      · rw [hs.eq_of_key found found' (keyed.trans keyed'.symm)]
      · rw [hs.same_identity found (keyed ▸ fence)]
  | none =>
    have free := Queue.jobForKey?_eq_none.mp row
    dsimp only
    rw [Option.map_eq_some_iff]
    constructor
    · exact .inr
    · rintro (⟨id, row', found, rfl, -⟩ | h)
      · exact absurd (List.mem_map_of_mem (Table.get?_some_iff.mp found).1) free
      · exact h

theorem Queue.fence?_sealRow_identity {q : Queue} {row : Job} {m : Recording} {f : Fence}
    (fence : q.fence? key = some f) :
    ∃ f', (q.sealRow row m).fence? key = some f' ∧ f'.identity = f.identity := by
  rw [fence?_sealRow, fence]
  split
  · exact ⟨_, rfl, rfl⟩
  · exact ⟨f, rfl, rfl⟩

theorem Step.fence_identity (h : Step sha L l L') {f : Fence}
    (fence : L.queue.fence? key = some f) :
    (∃ f', L'.queue.fence? key = some f' ∧ f'.identity = f.identity) ∨
      (l = .dropped key ∧ f.sideEffectMode = .idempotent ∧ L'.queue.fence? key = none) := by
  cases h with
  | entered =>
    refine .inl ⟨f, ?_, rfl⟩
    simpa [Queue.fence?, Queue.insertRow] using fence
  | moved =>
    rename_i q o row mv entry _ _ _ _ _ _
    cases entry with
    | none => exact .inl ⟨f, fence, rfl⟩
    | some e =>
      refine .inl ?_
      rw [Queue.enact, Queue.fence?_settle_some]
      exact Queue.fence?_sealRow_identity fence
  | fenced found terminal agrees =>
    rename_i q o row
    refine .inl ?_
    dsimp only
    rw [Queue.fence?_upsertFence, fence]
    split
    · exact ⟨_, rfl, rfl⟩
    · exact ⟨f, rfl, rfl⟩
  | dropped =>
    rename_i q o key'
    dsimp only
    rw [Queue.fence?_deleteIdempotentFence, fence, Option.filter_some]
    split
    next => exact .inl ⟨f, rfl, rfl⟩
    next gone =>
      have gone : (key = key' ∧ f.sideEffectMode = .idempotent) ∧ (q.jobForKey? key').isNone := by
        simpa using gone
      obtain ⟨⟨rfl, mode⟩, -⟩ := gone
      exact .inr ⟨rfl, mode, rfl⟩
  | distrusted | enrolled | redeclared | reckoned | erased | flagged => exact .inl ⟨f, fence, rfl⟩

theorem Step.holds (h : Step sha L l L') (held_ : L.queue.Holds key held) :
    L'.queue.Holds key held ∨
      (l = .dropped key ∧ held.sideEffectMode = .idempotent ∧ (L.queue.fence? key).isSome ∧
        L'.queue.fence? key = none) := by
  obtain ⟨id, row, found, keyed, rfl⟩ | ⟨f, fence, rfl⟩ := held_
  · refine .inl ?_
    have step := h.row id
    rw [found] at step
    generalize after : L'.queue.job? id = new at step
    cases step with
    | moved => exact .inl ⟨id, _, after, by simpa using keyed, by simp⟩
    | distrusted => exact .inl ⟨id, _, after, keyed, rfl⟩
    | other => exact .inl ⟨id, row, after, keyed, rfl⟩
    | erased =>
      cases h with
      | erased found' _ fence seals =>
        obtain rfl := Option.some.inj (found.symm.trans found')
        exact .inr ⟨_, keyed ▸ fence, seals.1⟩
  · obtain ⟨f', fence', same⟩ | ⟨rfl, mode, gone⟩ := h.fence_identity fence
    · exact .inl (.inr ⟨f', fence', same⟩)
    · exact .inr ⟨rfl, mode, by rw [fence]; rfl, gone⟩

theorem Step.fence_of_fence (h : Step sha L l L') (hs : Sound L)
    (quiet : l.Prunes ∨ l = .flagged ∨ ∃ row e, l = .entered row e)
    (fence : (L'.queue.fence? key).isSome) : (L.queue.fence? key).isSome := by
  cases h with
  | entered => simpa [Queue.fence?, Queue.insertRow] using fence
  | fenced found terminal agrees =>
    rename_i q o row
    have sealed := hs.fences _ row found
    rw [Queue.Sealed, if_pos terminal] at sealed
    obtain ⟨f, sealing, -⟩ := sealed
    dsimp only at fence sealing ⊢
    rw [Queue.fence?_upsertFence] at fence
    split at fence
    next keyed =>
      rw [keyed]
      exact Option.isSome_iff_exists.mpr ⟨f, sealing⟩
    next => exact fence
  | dropped =>
    dsimp only at fence
    rw [Queue.fence?_deleteIdempotentFence] at fence
    obtain ⟨f, hf⟩ := Option.isSome_iff_exists.mp fence
    exact Option.isSome_iff_exists.mpr ⟨f, (Option.filter_eq_some_iff.mp hf).1⟩
  | erased | flagged => exact fence
  | moved | distrusted | enrolled | redeclared | reckoned => simp [Label.Prunes] at quiet

theorem Op.Emits.quiet (emits : op.Emits env b q (.dropped key)) {l' : Label}
    (emits' : op.Emits env b q l') :
    l'.Prunes ∨ l' = .flagged ∨ ∃ row e, l' = .entered row e := by
  cases op with
  | enqueue a =>
    obtain prunes | ⟨row, e, rfl, -⟩ := emits'
    · exact .inl prunes
    · exact .inr (.inr ⟨row, e, rfl⟩)
  | retainTerminalJobs => exact .inl emits'
  | backfillTerminalFences => exact emits'.imp_right .inl
  | _ => simp [Emits, Label.Leases, Label.Recovers, Label.Surrenders] at emits

/-- Statements of history pruning, and the insertion of a row. -/
def Label.Quiet (l : Label) : Prop := l.Prunes ∨ l = .flagged ∨ ∃ row e, l = .entered row e

theorem Path.fence_eq_none {ls : List Label} (path : Path (Step sha) L ls L') (hs : Sound L)
    (quiet : ∀ l ∈ ls, l.Quiet) (gone : L.queue.fence? key = none) :
    L'.queue.fence? key = none := by
  refine (path.invariant (P := fun L => Sound L ∧ L.queue.fence? key = none) ?_ ⟨hs, gone⟩).2
  rintro L l L' hl step ⟨hs, gone⟩
  refine ⟨step.sound hs, Option.not_isSome_iff_eq_none.mp fun back => ?_⟩
  have before := step.fence_of_fence hs (quiet l hl) back
  rw [gone] at before
  cases before

theorem Path.holds {ls : List Label} (path : Path (Step sha) L ls L') (hs : Sound L)
    (quiet : ∀ l ∈ ls, l.Quiet) (holds : L.queue.Holds key held) :
    L'.queue.Holds key held ∨
      (held.sideEffectMode = .idempotent ∧ (L.queue.fence? key).isSome ∧
        L'.queue.fence? key = none) := by
  induction path with
  | nil => exact .inl holds
  | cons step rest ih =>
    have here := quiet _ List.mem_cons_self
    have later := fun l hl => quiet l (List.mem_cons_of_mem _ hl)
    obtain holds | ⟨-, mode, present, gone⟩ := step.holds holds
    · exact (ih (step.sound hs) later holds).imp_right fun ⟨mode, present, gone⟩ =>
        ⟨mode, step.fence_of_fence hs here present, gone⟩
    · exact .inr ⟨mode, present, Path.fence_eq_none rest (step.sound hs) later gone⟩

theorem Accounted.holds (h : Accounted env b q op r) (hs : Sound q.opened)
    (holds : q.Holds key held) :
    r.2.Holds key held ∨
      (held.sideEffectMode = .idempotent ∧ (q.fence? key).isSome ∧ r.2.fence? key = none) := by
  obtain ⟨ls, ⟨o, path, -⟩, account⟩ := h
  by_cases drops : .dropped key ∈ ls
  · exact Path.holds path hs (fun l hl => (account.emits _ drops).quiet (account.emits l hl)) holds
  · refine .inl (path.invariant (P := fun L => L.queue.Holds key held) ?_ holds)
    intro L l L' hl step holds
    exact (step.holds holds).resolve_right fun ⟨dropped, _⟩ => drops (dropped ▸ hl)

theorem Sound.holds_run {ops : List Op} (hs : Sound q.opened) (holds : q.Holds key held)
    (kept : held.sideEffectMode = .idempotent → TombstoneKept env b key q ops) :
    ((queueMachine env b).run q ops).Holds key held := by
  induction ops generalizing q with
  | nil => exact holds
  | cons op ops ih =>
    rw [Machine.run_cons]
    cases h : (queueMachine env b).exec op q with
    | error e =>
      rw [TombstoneKept, Machine.next_error h] at kept
      rw [Machine.next_error h]
      exact ih hs holds fun mode => (kept mode).2
    | ok r =>
      rw [TombstoneKept, Machine.next_ok h] at kept
      rw [Machine.next_ok h]
      refine ih (hs.exec h) ?_ fun mode => (kept mode).2
      obtain holds | ⟨mode, present, gone⟩ := (hs.accounted h).holds hs holds
      · exact holds
      · have still := (kept mode).1 present
        rw [gone] at still
        cases still

theorem Sound.enqueue_held (hs : Sound q.opened) {a : EnqueueArgs}
    (holds : q.Holds (strip a.idempotencyKey) held)
    (h : (Op.enqueue a).exec env b q = .ok r) : r = (.job held.jobId, q) := by
  obtain ⟨⟨id, q'⟩, enqueued, hr⟩ := bind_eq_ok.mp h
  cases hr
  have key := hs.heldIdentity?_iff.mpr holds
  obtain ⟨same, held', hheld, name⟩ | ⟨-, row, v, q₁, -, -, keyed, free, -⟩ :=
    (enqueue_sat hs).of_ok enqueued
  · obtain rfl := Option.some.inj (key.symm.trans hheld)
    dsimp only at same name
    rw [same, name]
  · rw [keyed, key] at free
    cases free

theorem Queue.enqueue_conflict (b : Backend) {a : EnqueueArgs} {row : Job}
    (accepted : a.accept env = .ok row) (key : q.heldIdentity? row.idempotencyKey = some held)
    (differs : held.sameRequest row.identity = false) :
    (Op.enqueue a).exec env b q = .error idempotencyCollision := by
  simp [Op.exec, returning, enqueue, accepted, key, require, differs, bind, Except.bind]

theorem Sound.inserted (hs : Sound q.opened) {row : Job} (h : op.exec env b q = .ok r)
    (inserted : op.inserted? env q = some row) :
    q.heldIdentity? row.idempotencyKey = none ∧ r.2.Holds row.idempotencyKey row.identity := by
  cases op with
  | enqueue a =>
    cases accepted : a.accept env with
    | error e => simp [Op.inserted?, accepted] at inserted
    | ok row' =>
      simp only [Op.inserted?, accepted, Option.ite_none_right_eq_some] at inserted
      obtain ⟨free, hrow⟩ := inserted
      obtain rfl := Option.some.inj hrow
      refine ⟨free, ?_⟩
      obtain ⟨⟨id, q'⟩, enqueued, hr⟩ := bind_eq_ok.mp h
      cases hr
      obtain ⟨-, held', hheld, -⟩ | ⟨-, row, v, q₁, accepted', -, -, -, -, step⟩ :=
        (enqueue_sat hs).of_ok enqueued
      · rw [← (admit_sat.of_ok accepted).2.2, free] at hheld
        cases hheld
      · obtain rfl := Except.ok.inj (accepted.symm.trans accepted')
        refine .inl ⟨row'.jobId, row', ?_, rfl, rfl⟩
        have entered := step.row row'.jobId
        generalize q₁.opened.queue.job? row'.jobId = old at entered
        generalize after : q'.opened.queue.job? row'.jobId = new at entered
        cases entered with
        | entered => exact after
        | other untouched => exact absurd rfl untouched
  | _ => cases inserted

end Identity

section Runs

variable (env : Env) (b : Backend)

theorem insertedRows_snoc_ok {ops : List Op} {op : Op} {r : Result × Queue}
    (h : op.exec env b (Queue.reached env b ops) = .ok r) :
    insertedRows env b (ops ++ [op]) =
      insertedRows env b ops ++ (op.inserted? env (Queue.reached env b ops)).toList := by
  have commits : Queue.history env b (ops ++ [op]) =
      Queue.history env b ops ++ [(Queue.reached env b ops, op, r.1)] := Machine.commits_snoc_ok h
  rw [insertedRows, commits, List.filterMap_append]
  congr 1

theorem insertedRows_snoc_error {ops : List Op} {op : Op} {e : QueueError}
    (h : op.exec env b (Queue.reached env b ops) = .error e) :
    insertedRows env b (ops ++ [op]) = insertedRows env b ops := by
  have commits : Queue.history env b (ops ++ [op]) = Queue.history env b ops :=
    Machine.commits_snoc_error h
  rw [insertedRows, commits]
  rfl

theorem inserted_reached (ops : List Op) :
    (∀ row ∈ insertedRows env b ops, row.sideEffectMode = .nonIdempotent →
      (Queue.reached env b ops).Holds row.idempotencyKey row.identity) ∧
    (insertedRows env b ops).Pairwise fun row row' =>
      row.idempotencyKey = row'.idempotencyKey → row.sideEffectMode = .idempotent := by
  let P (ops : List Op) (q : Queue) : Prop :=
    (∀ row ∈ insertedRows env b ops, row.sideEffectMode = .nonIdempotent →
      q.Holds row.idempotencyKey row.identity) ∧
    (insertedRows env b ops).Pairwise fun row row' =>
      row.idempotencyKey = row'.idempotencyKey → row.sideEffectMode = .idempotent
  refine Machine.run_induct (M := queueMachine env b) (s := .empty) (P := P) ?_ ?_ ?_ ops
  · exact ⟨by rintro row ⟨⟩, List.Pairwise.nil⟩
  · rintro ops op result q' ⟨holds, apart⟩ h
    have hs := sound_reached env b ops
    have rows := insertedRows_snoc_ok env b h
    have kept : ∀ row ∈ insertedRows env b ops, row.sideEffectMode = .nonIdempotent →
        q'.Holds row.idempotencyKey row.identity := fun row hrow mode => by
      obtain still | ⟨idempotent, -⟩ := (hs.accounted h).holds hs (holds row hrow mode)
      · exact still
      · rw [show row.identity.sideEffectMode = row.sideEffectMode from rfl, mode] at idempotent
        cases idempotent
    refine ⟨fun row hrow mode => ?_, ?_⟩
    · rw [rows] at hrow
      obtain hrow | hrow := List.mem_append.mp hrow
      · exact kept row hrow mode
      · exact (hs.inserted h (Option.mem_toList.mp hrow)).2
    · rw [rows, List.pairwise_append]
      refine ⟨apart, by cases op.inserted? env (Queue.reached env b ops) <;> simp, ?_⟩
      intro row hrow row' hrow' same
      by_contra other
      have mode : row.sideEffectMode = .nonIdempotent := by
        revert other
        cases row.sideEffectMode <;> simp
      have free := (hs.inserted h (Option.mem_toList.mp hrow')).1
      rw [← same, hs.heldIdentity?_iff.mpr (holds row hrow mode)] at free
      cases free
  · rintro ops op e ⟨holds, apart⟩ h
    have rows := insertedRows_snoc_error env b h
    exact ⟨rows ▸ holds, rows ▸ apart⟩

end Runs

/-- Idempotent submission. A key that a non-idempotent job holds finds that job for ever, and at
most one row is inserted for it; an idempotent key finds its job until its tombstone is
removed; a different request for a held key is refused; and rows and fences never disagree. -/
theorem idempotent_submission (env : Env) (b : Backend) (before after : List Op) :
    (∀ key held, (Queue.reached env b before).heldIdentity? key = some held →
      (held.sideEffectMode = .idempotent →
        TombstoneKept env b key (Queue.reached env b before) after) →
      ∀ a r, strip a.idempotencyKey = key →
        (Op.enqueue a).exec env b (Queue.reached env b (before ++ after)) = .ok r →
        r = (.job held.jobId, Queue.reached env b (before ++ after))) ∧
    ((insertedRows env b before).Pairwise fun row row' =>
      row.idempotencyKey = row'.idempotencyKey → row.sideEffectMode = .idempotent) ∧
    (∀ a row held, a.accept env = .ok row →
      (Queue.reached env b before).heldIdentity? row.idempotencyKey = some held →
      held.sameRequest row.identity = false →
      (Op.enqueue a).exec env b (Queue.reached env b before) = .error idempotencyCollision ∧
        (queueMachine env b).next (Queue.reached env b before) (.enqueue a) =
          Queue.reached env b before) ∧
    (∀ id row f, (Queue.reached env b before).job? id = some row →
      (Queue.reached env b before).fence? row.idempotencyKey = some f →
      f.identity = row.identity) ∧
    ∀ op : Op, op.exec env b (Queue.reached env b before) ≠ .error fenceCollision := by
  have hs := sound_reached env b before
  refine ⟨?_, (inserted_reached env b before).2, ?_, ?_, ?_⟩
  · rintro key held hheld kept a r rfl h
    have holds := hs.holds_run (hs.heldIdentity?_iff.mp hheld) kept
    have reach : (queueMachine env b).run (Queue.reached env b before) after =
        Queue.reached env b (before ++ after) := (Machine.run_append _ _ _).symm
    rw [reach] at holds
    exact (sound_reached env b (before ++ after)).enqueue_held holds h
  · intro a row held accepted key differs
    have raised := Queue.enqueue_conflict b accepted key differs
    exact ⟨raised, Machine.next_error raised⟩
  · exact fun id row f found fence => hs.same_identity found fence
  · exact fun op raised => (hs.benign raised).2 rfl

/-- No two jobs share a key; a job has a fence exactly once it has ended, and the fence says how; and a job is leased to a
registered worker. -/
theorem jobs_sealed (env : Env) (b : Backend) (ops : List Op) :
    ((Queue.reached env b ops).jobs.rows.map Job.idempotencyKey).Nodup ∧
      ∀ row ∈ (Queue.reached env b ops).jobs.rows, (Queue.reached env b ops).Sealed row ∧
        (row.state.active → ((Queue.reached env b ops).worker? row.leaseWorkerId).isSome) := by
  have hs := sound_reached env b ops
  exact ⟨hs.keys, fun row hrow => ⟨hs.fences _ _ (Queue.mem_jobs_iff.mp hrow), hs.known _ _ (Queue.mem_jobs_iff.mp hrow)⟩⟩

theorem idempotent_submission_sample :
    (sampleJob "again" "key" "non_idempotent").exec sampleEnv .sqlite
        (Queue.reached sampleEnv .sqlite
          ([sampleJob "job" "key" "non_idempotent"] ++ [.retainTerminalJobs 0 0])) =
      .ok (.job "job", Queue.reached sampleEnv .sqlite
        ([sampleJob "job" "key" "non_idempotent"] ++ [.retainTerminalJobs 0 0])) := by
  have law := (idempotent_submission sampleEnv .sqlite [sampleJob "job" "key" "non_idempotent"]
    [.retainTerminalJobs 0 0]).1
  cases hheld : (Queue.reached sampleEnv .sqlite
      [sampleJob "job" "key" "non_idempotent"]).heldIdentity? "key" with
  | none => exact absurd hheld (by decide +kernel)
  | some held =>
    have facts := congrArg (Option.map fun h : JobIdentity => (h.jobId, h.sideEffectMode)) hheld
    have sample : ((Queue.reached sampleEnv .sqlite [sampleJob "job" "key" "non_idempotent"]
        ).heldIdentity? "key").map (fun h : JobIdentity => (h.jobId, h.sideEffectMode)) =
          some ("job", .nonIdempotent) := by
      decide +kernel
    obtain ⟨name, mode⟩ := Prod.mk.inj (Option.some.inj (facts.symm.trans sample))
    have committed : ((sampleJob "again" "key" "non_idempotent").exec sampleEnv .sqlite
        (Queue.reached sampleEnv .sqlite
          ([sampleJob "job" "key" "non_idempotent"] ++ [.retainTerminalJobs 0 0]))).toBool := by
      decide +kernel
    cases h : (sampleJob "again" "key" "non_idempotent").exec sampleEnv .sqlite
        (Queue.reached sampleEnv .sqlite
          ([sampleJob "job" "key" "non_idempotent"] ++ [.retainTerminalJobs 0 0])) with
    | error e =>
      rw [h] at committed
      cases committed
    | ok r =>
      rw [law "key" held hheld (fun idempotent => nomatch mode.symm.trans idempotent) _ r
        (by decide +kernel) h, name]

end Arenyxa.Distributed
