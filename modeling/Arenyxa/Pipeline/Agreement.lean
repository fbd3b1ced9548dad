import Arenyxa.Pipeline.Runtime

/-! The outcome of an execution agrees with its output revision, except where a handler writes
its failure over a revision that is ready. -/

namespace Arenyxa.Pipeline

variable {rt : Runtime} {source : List (String × Record)} {run : Run} {rows rows' : Rows}

/-- The execution is completed exactly when its output revision is ready. -/
def Rows.Agree (rows : Rows) : Prop := rows.state.Completed ↔ rows.output = .ready

def Call.Commits : Call → Prop
  | .fine => True
  | .raised commits _ => commits = true

/-- The step in which a handler commits the failure of an execution whose output is ready. -/
def Overwrites (run : Run) (action : Action) : Prop :=
  run.rows.output = .ready ∧ (∃ cause, run.stage = .failing cause) ∧
    ∃ call, action = .call call ∧ call.Commits

/-- The stages of the body of the run up to the finalization of the output. -/
def Stage.Working : Stage → Prop
  | .records | .finalizing => True
  | .appending after | .committing after _ | .probing after _ _ => ∀ cause, after ≠ .handler cause
  | _ => False

/-- While nothing was overwritten, a ready output belongs to an execution that is running or
completed, and no other execution is completed. -/
structure Run.Agreeing (run : Run) : Prop where
  ready : run.rows.output = .ready → run.rows.state = .running ∨ run.rows.state.Completed
  completed : run.rows.state.Completed → run.rows.output = .ready
  late : run.stage = .reading ∨ run.stage = .reporting ∨ (∃ s, run.stage = .finishing s) →
    run.rows.output = .ready
  finishing : ∀ s, run.stage = .finishing s → s.Completed
  working : run.stage.Working → run.rows.state = .running

/-- The failure of an execution stands beside its ready output, and no step changes that. -/
structure Run.Overwritten (run : Run) : Prop where
  ready : run.rows.output = .ready
  failed : run.rows.state = .failed ∨ run.rows.state = .cancelled
  ended : run.stage = .ended

theorem not_completed_running : ¬ExecutionState.Completed .running := by decide

section Stages

/-- The stages that an exception or the end of a flush leads to. -/
def Stage.Early (stage : Stage) : Prop :=
  stage ≠ .reading ∧ stage ≠ .reporting ∧ ∀ s, stage ≠ .finishing s

theorem After.stage_early (after : After) : after.stage.Early := by
  cases after with
  | loop => exact ⟨nofun, nofun, nofun⟩
  | completion => exact ⟨nofun, nofun, nofun⟩
  | handler cause => exact ⟨nofun, nofun, nofun⟩

theorem After.working_of_stage {after : After} (h : after.stage.Working) (cause : Cause) :
    after ≠ .handler cause := by
  rintro rfl
  exact h

theorem flush_early (run : Run) (after : After) :
    (run.flush after).rows = run.rows ∧ (run.flush after).stage.Early ∧
      ((run.flush after).stage.Working → ∀ cause, after ≠ .handler cause) := by
  rw [Run.flush]
  split
  next => exact ⟨rfl, after.stage_early, After.working_of_stage⟩
  next =>
    split
    next => exact ⟨rfl, ⟨nofun, nofun, nofun⟩, id⟩
    next => exact ⟨rfl, ⟨nofun, nofun, nofun⟩, id⟩

theorem handle_early (run : Run) (cause : Cause) :
    (run.handle cause).rows = run.rows ∧ (run.handle cause).stage.Early ∧
      ¬(run.handle cause).stage.Working := by
  rw [Run.handle]
  split
  next => exact ⟨rfl, ⟨nofun, nofun, nofun⟩, id⟩
  next =>
    obtain ⟨rows, early, working⟩ := flush_early run (.handler cause)
    exact ⟨rows, early, fun h => working h cause rfl⟩

theorem abandonFlush_early (run : Run) (after : After) :
    (run.abandonFlush after).rows = run.rows ∧ (run.abandonFlush after).stage.Early ∧
      ¬(run.abandonFlush after).stage.Working := by
  cases after with
  | loop => exact handle_early run _
  | completion => exact handle_early run _
  | handler cause => exact ⟨rfl, ⟨nofun, nofun, nofun⟩, id⟩

theorem stepRecords_early (elapsed : Bool) (at_records : run.stage = .records) :
    (stepRecords rt elapsed run).rows = run.rows ∧ (stepRecords rt elapsed run).stage.Early := by
  rw [stepRecords]
  split
  next => exact ⟨(flush_early run _).1, (flush_early run _).2.1⟩
  next =>
    split
    next => exact ⟨(handle_early _ _).1, (handle_early _ _).2.1⟩
    next =>
      split
      next => exact ⟨(flush_early _ _).1, (flush_early _ _).2.1⟩
      next => exact ⟨rfl, by rw [at_records]; exact ⟨nofun, nofun, nofun⟩⟩

theorem Run.Agreeing.early (h : run.Agreeing) {run' : Run} (state : run'.rows.state = run.rows.state)
    (output : run'.rows.output = run.rows.output) (early : run'.stage.Early)
    (working : run'.stage.Working → run.stage.Working) : run'.Agreeing where
  ready := by
    rw [state, output]
    exact h.ready
  completed := by
    rw [state, output]
    exact h.completed
  late := by
    rintro (reading | reporting | ⟨s, finishing⟩)
    · exact absurd reading early.1
    · exact absurd reporting early.2.1
    · exact absurd finishing (early.2.2 s)
  finishing := fun s finishing => absurd finishing (early.2.2 s)
  working := fun there => state.trans (h.working (working there))

theorem perform_cases (call : Call) (rows : Rows) (transaction : Rows → Option Rows) :
    (call.perform rows transaction).1 = rows ∨
      ∃ rows', transaction rows = some rows' ∧ (call.perform rows transaction).1 = rows' ∧
        call.Commits := by
  rw [Call.perform.eq_def]
  cases result : transaction rows with
  | none => exact .inl rfl
  | some rows' =>
    cases call with
    | fine => exact .inr ⟨rows', rfl, rfl, trivial⟩
    | raised commits fault =>
      cases commits with
      | true => exact .inr ⟨rows', rfl, rfl, rfl⟩
      | false => exact .inl rfl

theorem perform_none {call : Call} {transaction : Rows → Option Rows}
    (h : call.perform rows transaction = (rows', none)) : transaction rows = some rows' := by
  rw [Call.perform.eq_def] at h
  cases result : transaction rows with
  | none =>
    rw [result] at h
    cases h
  | some after =>
    rw [result] at h
    cases call with
    | fine =>
      cases h
      rfl
    | raised commits fault => cases h

/-- The rows keep the state of the execution and of its output. -/
def SameStates (rows rows' : Rows) : Prop := rows'.state = rows.state ∧ rows'.output = rows.output

theorem append_sameStates {outputs : List (String × Record)}
    (h : rows.append outputs = some rows') : SameStates rows rows' := by
  rw [Rows.append] at h
  split at h
  next =>
    cases h
    exact ⟨rfl, rfl⟩
  next => cases h

theorem checkpointed_sameStates {m : Memory} {checkpoint : Checkpoint}
    (h : rows.checkpointed m checkpoint = some rows') : SameStates rows rows' := by
  rw [Rows.checkpointed] at h
  split at h
  next =>
    cases h
    exact ⟨rfl, rfl⟩
  next => cases h

theorem perform_sameStates {call : Call} {transaction : Rows → Option Rows}
    (keeps : ∀ {rows'}, transaction rows = some rows' → SameStates rows rows') :
    SameStates rows (call.perform rows transaction).1 := by
  rcases perform_cases call rows transaction with same | ⟨rows', done, after, -⟩
  · rw [same]
    exact ⟨rfl, rfl⟩
  · rw [after]
    exact keeps done

end Stages

section Steps

theorem Run.Agreeing.handle (h : run.Agreeing) (cause : Cause) : (run.handle cause).Agreeing := by
  obtain ⟨kept, early, idle⟩ := handle_early run cause
  exact h.early (kept ▸ rfl) (kept ▸ rfl) early fun there => absurd there idle

theorem Run.Agreeing.abandonFlush (h : run.Agreeing) (after : After) :
    (run.abandonFlush after).Agreeing := by
  obtain ⟨kept, early, idle⟩ := abandonFlush_early run after
  exact h.early (kept ▸ rfl) (kept ▸ rfl) early fun there => absurd there idle

theorem Run.Agreeing.same (h : run.Agreeing) (same : SameStates run.rows rows) (m : Memory) :
    Run.Agreeing ⟨rows, m, run.stage⟩ where
  ready := by
    rw [same.1, same.2]
    exact h.ready
  completed := by
    rw [same.1, same.2]
    exact h.completed
  late := by
    rw [same.2]
    exact h.late
  finishing := h.finishing
  working := by
    rw [same.1]
    exact h.working

theorem Run.Agreeing.appending (h : run.Agreeing) (call : Call) {after : After}
    (stage : run.stage = .appending after) : (stepCall rt call run).Agreeing := by
  have same := @perform_sameStates run.rows call (Rows.append run.memory.outputs) append_sameStates
  have working : run.stage.Working ↔ ∀ cause, after ≠ .handler cause := by
    rw [stage]
    rfl
  rw [stepCall.eq_def, stage]
  simp only
  split
  next rows result =>
    rw [result] at same
    exact h.early same.1 same.2 ⟨nofun, nofun, nofun⟩ working.mpr
  next rows _ result =>
    rw [result] at same
    exact (h.same same run.memory).abandonFlush after

theorem Run.Agreeing.committing (h : run.Agreeing) (call : Call) {after : After} {retried : Bool}
    (stage : run.stage = .committing after retried) : (stepCall rt call run).Agreeing := by
  have same := @perform_sameStates run.rows call
    (Rows.checkpointed run.memory run.memory.checkpoint) checkpointed_sameStates
  have working : run.stage.Working ↔ ∀ cause, after ≠ .handler cause := by
    rw [stage]
    rfl
  rw [stepCall.eq_def, stage]
  simp only
  split
  next rows result =>
    rw [result] at same
    exact h.early same.1 same.2 after.stage_early fun there =>
      working.mpr (After.working_of_stage there)
  next rows result =>
    rw [result] at same
    exact h.early same.1 same.2 ⟨nofun, nofun, nofun⟩ working.mpr
  next rows result =>
    rw [result] at same
    exact h.early same.1 same.2 ⟨nofun, nofun, nofun⟩ working.mpr
  next rows result =>
    rw [result] at same
    exact (h.same same run.memory).abandonFlush after

theorem Run.Agreeing.probing (h : run.Agreeing) (call : Call) {after : After}
    {retried operational : Bool} (stage : run.stage = .probing after retried operational) :
    (stepCall rt call run).Agreeing := by
  have working : run.stage.Working ↔ ∀ cause, after ≠ .handler cause := by
    rw [stage]
    rfl
  rw [stepCall.eq_def, stage]
  simp only
  split
  next => exact h.abandonFlush after
  next =>
    exact h.early rfl rfl after.stage_early fun there => working.mpr (After.working_of_stage there)
  next =>
    split
    next => exact h.early rfl rfl ⟨nofun, nofun, nofun⟩ working.mpr
    next => exact (h.same ⟨rfl, rfl⟩ { run.memory with writeFailed := true }).abandonFlush after

theorem Run.Agreeing.finalizing (h : run.Agreeing) (call : Call) (stage : run.stage = .finalizing) :
    (stepCall rt call run).Agreeing := by
  have running : run.rows.state = .running := h.working (by rw [stage]; trivial)
  have ready : ∀ {rows}, run.rows.finalized run.memory.schema = some rows →
      rows.state = .running ∧ rows.output = .ready := by
    intro rows done
    rw [Rows.finalized] at done
    split at done
    next =>
      cases done
      exact ⟨running, rfl⟩
    next => cases done
  rw [stepCall.eq_def, stage]
  simp only
  have cases := perform_cases call run.rows (Rows.finalized run.memory.schema)
  split
  next rows result =>
    obtain ⟨state, output⟩ := ready (perform_none result)
    exact ⟨fun _ => .inl state, fun _ => output, fun _ => output, nofun, nofun⟩
  next rows _ result =>
    rw [result] at cases
    refine Run.Agreeing.handle ?_ _
    rcases cases with same | ⟨rows', done, rfl, -⟩
    · cases same
      have kept := h.same ⟨rfl, rfl⟩ run.memory
      rw [stage] at kept
      exact kept
    · obtain ⟨state, output⟩ := ready done
      exact ⟨fun _ => .inl state, fun _ => output, fun _ => output, nofun, fun _ => state⟩

theorem Run.Agreeing.finishing_step (h : run.Agreeing) (call : Call) {state : ExecutionState}
    (stage : run.stage = .finishing state) : (stepCall rt call run).Agreeing := by
  have output := h.late (.inr (.inr ⟨state, stage⟩))
  have completed := h.finishing state stage
  rw [stepCall.eq_def, stage]
  simp only
  have cases := perform_cases call run.rows (Rows.finished state)
  split
  next rows result =>
    cases perform_none result
    exact ⟨fun _ => .inr completed, fun _ => output, fun _ => output, nofun, nofun⟩
  next rows _ result =>
    rw [result] at cases
    refine Run.Agreeing.handle ?_ _
    rcases cases with same | ⟨rows', done, rfl, -⟩
    · cases same
      have kept := h.same ⟨rfl, rfl⟩ run.memory
      rw [stage] at kept
      exact kept
    · cases done
      refine ⟨fun _ => .inr completed, fun _ => output, fun _ => output, ?_, nofun⟩
      rintro s there
      cases there
      exact completed

theorem Run.Agreeing.marking (h : run.Agreeing) (call : Call) {cause : Cause}
    (stage : run.stage = .marking cause) : (stepCall rt call run).Agreeing := by
  rw [stepCall.eq_def, stage]
  simp only
  rcases perform_cases call run.rows (Rows.marked cause.buildState) with same | ⟨rows', done, after, -⟩
  · rw [same]
    exact h.early rfl rfl ⟨nofun, nofun, nofun⟩ nofun
  · rw [after]
    rw [Rows.marked] at done
    split at done
    next => cases done
    next unready =>
      cases done
      have open_state := mt h.completed unready
      refine ⟨fun ready => ?_, fun done => absurd done open_state, nofun, nofun, nofun⟩
      cases cause with
      | cancelled => cases ready
      | failed => cases ready

theorem Run.Agreeing.failing (h : run.Agreeing) (call : Call) {cause : Cause}
    (stage : run.stage = .failing cause) :
    ((stepCall rt call run).Agreeing ∧ ¬Overwrites run (.call call)) ∨
      ((stepCall rt call run).Overwritten ∧ Overwrites run (.call call)) := by
  have failed : cause.executionState = .failed ∨ cause.executionState = .cancelled := by
    cases cause with
    | cancelled => exact .inr rfl
    | failed => exact .inl rfl
  have unfinished : ¬cause.executionState.Completed := by
    cases cause with
    | cancelled => decide
    | failed => decide
  rw [stepCall.eq_def, stage]
  simp only
  by_cases commits : call.Commits
  · have after : (call.perform run.rows (Rows.finished cause.executionState)).1 =
        { run.rows with state := cause.executionState } := by
      cases call with
      | fine => rfl
      | raised committed fault =>
        cases commits
        rfl
    rw [after]
    by_cases ready : run.rows.output = .ready
    · exact .inr ⟨⟨ready, failed, rfl⟩, ready, ⟨cause, stage⟩, call, rfl, commits⟩
    · refine .inl ⟨⟨fun done => absurd done ready, fun done => absurd done unfinished, nofun, nofun,
        nofun⟩, fun overwrites => ready overwrites.1⟩
  · refine .inl ⟨?_, fun ⟨_, _, _, same, committed⟩ => ?_⟩
    · rcases perform_cases call run.rows (Rows.finished cause.executionState) with
        same | ⟨_, -, -, committed⟩
      · rw [same]
        exact h.early rfl rfl ⟨nofun, nofun, nofun⟩ nofun
      · exact absurd committed commits
    · cases same
      exact commits committed

theorem Run.Agreeing.call (h : run.Agreeing) (outcome : Call) :
    ((stepCall rt outcome run).Agreeing ∧ ¬Overwrites run (.call outcome)) ∨
      ((stepCall rt outcome run).Overwritten ∧ Overwrites run (.call outcome)) := by
  have quiet : (∀ cause, run.stage ≠ .failing cause) → ¬Overwrites run (.call outcome) :=
    fun other overwrites => overwrites.2.1.elim other
  cases stage : run.stage with
  | records => exact .inl ⟨by rw [stepCall.eq_def, stage]; exact h, quiet (by simp [stage])⟩
  | appending after => exact .inl ⟨h.appending outcome stage, quiet (by simp [stage])⟩
  | committing after retried => exact .inl ⟨h.committing outcome stage, quiet (by simp [stage])⟩
  | probing after retried operational => exact .inl ⟨h.probing outcome stage, quiet (by simp [stage])⟩
  | finalizing => exact .inl ⟨h.finalizing outcome stage, quiet (by simp [stage])⟩
  | reading =>
    refine .inl ⟨?_, quiet (by simp [stage])⟩
    rw [stepCall.eq_def, stage]
    cases outcome with
    | fine =>
      have output := h.late (.inl stage)
      refine ⟨h.ready, h.completed, fun _ => output, fun s there => ?_, nofun⟩
      cases there
      split
      next => exact .inr rfl
      next => exact .inl rfl
    | raised _ _ => exact h.handle _
  | finishing state => exact .inl ⟨h.finishing_step outcome stage, quiet (by simp [stage])⟩
  | reporting =>
    refine .inl ⟨?_, quiet (by simp [stage])⟩
    rw [stepCall.eq_def, stage]
    cases outcome with
    | fine => exact h.early rfl rfl ⟨nofun, nofun, nofun⟩ nofun
    | raised _ _ => exact h.handle _
  | marking cause => exact .inl ⟨h.marking outcome stage, quiet (by simp [stage])⟩
  | failing cause => exact h.failing outcome stage
  | ended => exact .inl ⟨by rw [stepCall.eq_def, stage]; exact h, quiet (by simp [stage])⟩

theorem Run.Agreeing.recover (h : run.Agreeing) : run.rows.recover.Agree := by
  have unfinished : ¬ExecutionState.Completed .interrupted := by decide
  by_cases ready : run.rows.output = .ready
  · have output : run.rows.recover.output = .ready := by simp [Rows.recover, ready]
    refine iff_of_true ?_ output
    rcases h.ready ready with running | completed
    · simp only [Rows.recover, running, ready, reduceCtorEq, or_false, or_true, and_self, ↓reduceIte]
      split
      next => exact .inr rfl
      next => exact .inl rfl
    · rcases completed with same | same
      · simp [Rows.recover, same, ExecutionState.Completed]
      · simp [Rows.recover, same, ExecutionState.Completed]
  · have output : run.rows.recover.output ≠ .ready := by
      rw [Rows.recover]
      simp only
      split
      next => exact nofun
      next => exact ready
    refine iff_of_false ?_ output
    simp only [Rows.recover, ready, and_false, ↓reduceIte]
    split
    next => exact unfinished
    next => exact mt h.completed ready

theorem Run.Overwritten.recover (h : run.Overwritten) : run.rows.recover = run.rows := by
  obtain ⟨ready, failed, -⟩ := h
  rw [Rows.recover]
  rcases failed with same | same
  · simp only [same, ready, reduceCtorEq, or_self, false_and, ↓reduceIte]
    rw [← same, ← ready]
  · simp only [same, ready, reduceCtorEq, or_self, false_and, ↓reduceIte]
    rw [← same, ← ready]

theorem Run.Agreeing.restart (h : run.Agreeing) : (restart rt source run).Agreeing := by
  rw [Pipeline.restart]
  have agrees := h.recover
  split
  next =>
    exact ⟨fun ready => .inr (agrees.mpr ready), agrees.mp, nofun, nofun, nofun⟩
  next rows claimed =>
    rw [Rows.claim] at claimed
    split at claimed
    next =>
      cases claimed
      exact ⟨nofun, fun done => absurd done not_completed_running, nofun, nofun,
        fun _ => rfl⟩
    next => cases claimed

theorem Run.Overwritten.not_agree (h : run.Overwritten) : ¬run.rows.recover.Agree := by
  rw [h.recover]
  intro agrees
  have done := agrees.mpr h.ready
  rcases h.failed with same | same
  · exact absurd (same ▸ done) (by decide)
  · exact absurd (same ▸ done) (by decide)

theorem Run.Overwritten.step (h : run.Overwritten) (action : Action) :
    (step rt source run action).Overwritten ∧ ¬Overwrites run action := by
  have stage := h.ended
  refine ⟨?_, fun ⟨_, ⟨cause, there⟩, _⟩ => nomatch stage.symm.trans there⟩
  cases action with
  | restart =>
    have unclaimed : run.rows.recover.claim = none := by
      rw [h.recover, Rows.claim, if_neg fun claimable => claimable.2 h.ready]
    rw [Pipeline.step, Pipeline.restart, unclaimed, h.recover]
    exact ⟨h.ready, h.failed, rfl⟩
  | call outcome =>
    rw [Pipeline.step, stepCall.eq_def, stage]
    exact h
  | work elapsed => simpa [Pipeline.step, stage] using h
  | cancel => simpa [Pipeline.step, stage] using h
  | raise => simpa [Pipeline.step, stage] using h

theorem Run.Agreeing.step (h : run.Agreeing) (action : Action) :
    ((step rt source run action).Agreeing ∧ ¬Overwrites run action) ∨
      ((step rt source run action).Overwritten ∧ Overwrites run action) := by
  have calls : ∀ {action}, (∀ call, action ≠ .call call) → ¬Overwrites run action :=
    fun other overwrites => overwrites.2.2.elim fun call same => other call same.1
  cases action with
  | restart => exact .inl ⟨h.restart, calls nofun⟩
  | call outcome => exact h.call outcome
  | work elapsed =>
    refine .inl ⟨?_, calls nofun⟩
    rw [Pipeline.step]
    split
    next stage =>
      obtain ⟨kept, early⟩ := stepRecords_early elapsed stage
      exact h.early (kept ▸ rfl) (kept ▸ rfl) early fun _ => by rw [stage]; trivial
    next => exact h
  | cancel =>
    refine .inl ⟨?_, calls nofun⟩
    rw [Pipeline.step]
    split
    next => exact h.handle _
    next => exact h
  | raise =>
    refine .inl ⟨?_, calls nofun⟩
    rw [Pipeline.step]
    split
    next => exact h.handle _
    next => exact h

end Steps

section Histories

variable (rt source)

theorem overwritten_foldl (h : run.Overwritten) (actions : List Action) :
    (actions.foldl (step rt source) run).Overwritten := by
  induction actions generalizing run with
  | nil => exact h
  | cons action rest ih => exact ih (h.step action).1

theorem agreeing_foldl (h : run.Agreeing) (actions : List Action) :
    (actions.foldl (step rt source) run).Agreeing ∧
        Every rt source (fun run action => ¬Overwrites run action) run actions ∨
      (actions.foldl (step rt source) run).Overwritten ∧
        ¬Every rt source (fun run action => ¬Overwrites run action) run actions := by
  induction actions generalizing run with
  | nil => exact .inl ⟨h, trivial⟩
  | cons action rest ih =>
    rcases h.step action with ⟨agreeing, clean⟩ | ⟨overwritten, overwrites⟩
    · rcases ih agreeing with ⟨kept, every⟩ | ⟨lost, some_step⟩
      · exact .inl ⟨kept, clean, every⟩
      · exact .inr ⟨lost, fun every => some_step every.2⟩
    · exact .inr ⟨overwritten_foldl rt source overwritten rest, fun every => every.1 overwrites⟩

/-- After any history, with store calls that raise before or after their commit and crashes at
any step, the recovery leaves the execution completed exactly when its output is ready, if and
only if no handler committed a failure over a ready output. -/
theorem outcome_agrees_iff (actions : List Action) :
    (history rt source actions).rows.recover.Agree ↔
      Every rt source (fun run action => ¬Overwrites run action) (start rt source false .fresh)
        actions := by
  have fresh : (start rt source false .fresh).Agreeing :=
    ⟨nofun, fun done => absurd done not_completed_running, nofun, nofun, fun _ => rfl⟩
  rcases agreeing_foldl rt source fresh actions with ⟨agreeing, every⟩ | ⟨overwritten, some_step⟩
  · exact iff_of_true agreeing.recover every
  · exact iff_of_false overwritten.not_agree some_step

end Histories

/-- A runtime whose workflow passes every record on. -/
def passing : Runtime where
  execute record := ⟨[record], 0, fun _ => none⟩
  encodedSize record := some record.length
  sha256 := id
  digest checkpoint := checkpoint.lastInput
  workflowId := "w"
  outputCap := 1000
  checkpointEvery := 100
  writeBatchSize := 500
  maxPendingOutputBytes := 1000

/-- The finalization of an empty output commits and raises. The handler writes the failure of the
execution over the revision that the dataset now shows. -/
theorem finalize_overwritten :
    ¬(history passing [] [.work false, .call (.raised true .operational), .call .fine,
      .call .fine]).rows.recover.Agree ∧
    (history passing [] [.work false, .call (.raised true .operational), .call .fine,
      .call .fine]).rows.recover.state = .failed ∧
    (history passing [] [.work false, .call (.raised true .operational), .call .fine,
      .call .fine]).rows.recover.shown = true := by
  refine ⟨fun agrees => ?_, rfl, rfl⟩
  exact absurd (agrees.mpr rfl) (by rintro (done | done) <;> cases done)

end Arenyxa.Pipeline
