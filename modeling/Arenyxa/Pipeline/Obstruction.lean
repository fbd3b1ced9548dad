import Arenyxa.Pipeline.Checkpoints

/-! A record whose outputs cannot be buffered keeps the execution from its end. -/

namespace Arenyxa.Pipeline

open Lib

variable {rt : Runtime} {source : List (String × Record)} {run : Run}

/-- The outputs of a record can be buffered: each has a JSON text that is not too large. -/
def Storable (rt : Runtime) (record : Record) : Prop :=
  ∀ output ∈ (rt.execute record).outputs,
    ∃ size, rt.encodedSize output = some size ∧ size ≤ rt.maxPendingOutputBytes

section Blocked

variable {bad : String × Record}

/-- The stages of an execution that has not passed a record. -/
def Stage.Short (source : List (String × Record)) (bad : String × Record) (m : Memory) :
    Stage → Prop
  | .records => m.rest = above source m.last ∧ m.last < bad.1
  | .appending after | .committing after _ | .probing after _ _ =>
    m.last < bad.1 ∧ after ≠ .completion ∧ (after = .loop → m.rest = above source m.last)
  | .marking _ | .failing _ | .ended => True
  | _ => False

/-- A record that cannot be buffered stands in the way of the execution. -/
structure Run.Blocked (source : List (String × Record)) (bad : String × Record) (run : Run) :
    Prop where
  before : run.rows.lastInput < bad.1
  unready : run.rows.output ≠ .ready
  short : run.stage.Short source bad run.memory

theorem flush_blocked {after : After} (before : run.rows.lastInput < bad.1)
    (unready : run.rows.output ≠ .ready) (last : run.memory.last < bad.1)
    (later : after ≠ .completion) (rest : after = .loop → run.memory.rest = above source run.memory.last) :
    (run.flush after).Blocked source bad := by
  rw [Run.flush]
  split
  next =>
    refine ⟨before, unready, ?_⟩
    cases after with
    | loop => exact ⟨rest rfl, last⟩
    | completion => exact absurd rfl later
    | handler cause => trivial
  next =>
    split
    next => exact ⟨before, unready, last, later, rest⟩
    next => exact ⟨before, unready, last, later, rest⟩

theorem handle_blocked (before : run.rows.lastInput < bad.1) (unready : run.rows.output ≠ .ready)
    (last : run.memory.last < bad.1) (cause : Cause) : (run.handle cause).Blocked source bad := by
  rw [Run.handle]
  split
  next => exact ⟨before, unready, trivial⟩
  next => exact flush_blocked before unready last (by rintro ⟨⟩) (by rintro ⟨⟩)

theorem abandonFlush_blocked (before : run.rows.lastInput < bad.1)
    (unready : run.rows.output ≠ .ready) (last : run.memory.last < bad.1) (after : After) :
    (run.abandonFlush after).Blocked source bad := by
  cases after with
  | loop => exact handle_blocked before unready last _
  | completion => exact handle_blocked before unready last _
  | handler cause => exact ⟨before, unready, trivial⟩

theorem completeFlush_blocked (before : run.rows.lastInput < bad.1)
    (unready : run.rows.output ≠ .ready) (last : run.memory.last < bad.1) {after : After}
    (later : after ≠ .completion) (rest : after = .loop → run.memory.rest = above source run.memory.last) :
    (run.completeFlush rt after).Blocked source bad := by
  refine ⟨before, unready, ?_⟩
  cases after with
  | loop => exact ⟨rest rfl, last⟩
  | completion => exact absurd rfl later
  | handler cause => trivial

theorem stepRecords_blocked (sorted : Ascending source) (mem : bad ∈ source)
    (unfit : ¬Storable rt bad.2) (h : run.Blocked source bad) (stage : run.stage = .records)
    (elapsed : Bool) : (stepRecords rt elapsed run).Blocked source bad := by
  have short := h.short
  rw [stage] at short
  obtain ⟨cursor, last⟩ := short
  have waiting : bad ∈ run.memory.rest := cursor ▸ mem_above.mpr ⟨mem, last⟩
  rw [stepRecords]
  split
  next none => exact absurd (none ▸ waiting) List.not_mem_nil
  next identity record rest next =>
    obtain ⟨-, later, -⟩ := above_step sorted (cursor.symm.trans next)
    split
    next m failed =>
      have kept : m.last = run.memory.last := (takeRecord_fails failed).2
      exact @handle_blocked source { run with memory := m } bad h.before h.unready
        (kept.symm ▸ last) _
    next m taken =>
      have fits : Fits rt run.memory.observed (rt.execute record).outputs :=
        (@takeRecord_complete_iff rt identity (rt.execute record)
          { run.memory with rest := rest }).mp (congrArg Prod.snd taken)
      obtain ⟨bytes, rfl⟩ := takeRecord_done taken
      have passed : identity < bad.1 := by
        rcases List.mem_cons.mp (next ▸ waiting) with rfl | ahead
        · exact absurd fits.2 unfit
        · exact (mem_above.mp (later.symm ▸ ahead)).2
      split
      next => exact flush_blocked h.before h.unready passed (by rintro ⟨⟩) fun _ => later.symm
      next => exact ⟨h.before, h.unready, by rw [stage]; exact ⟨later.symm, passed⟩⟩

theorem appending_blocked (h : run.Blocked source bad) (outcome : Call) {after : After}
    (stage : run.stage = .appending after) : (stepCall rt outcome run).Blocked source bad := by
  have short := h.short
  rw [stage] at short
  have same := @perform_sameProgress run.rows outcome (Rows.append run.memory.outputs)
    append_sameProgress
  have states := @perform_sameStates run.rows outcome (Rows.append run.memory.outputs)
    append_sameStates
  rw [stepCall.eq_def, stage]
  simp only
  split
  next rows result =>
    rw [result] at same states
    exact ⟨same.2.1 ▸ h.before, states.2 ▸ h.unready, short⟩
  next rows _ result =>
    rw [result] at same states
    exact @abandonFlush_blocked source { run with rows := rows } bad (same.2.1 ▸ h.before)
      (states.2 ▸ h.unready) short.1 after

theorem committing_blocked (h : run.Blocked source bad) (outcome : Call) {after : After}
    {retried : Bool} (stage : run.stage = .committing after retried) :
    (stepCall rt outcome run).Blocked source bad := by
  have short := h.short
  rw [stage] at short
  have states := @perform_sameStates run.rows outcome
    (Rows.checkpointed run.memory run.memory.checkpoint) checkpointed_sameStates
  have before : (outcome.perform run.rows
      (Rows.checkpointed run.memory run.memory.checkpoint)).1.lastInput < bad.1 := by
    rcases perform_cases outcome run.rows (Rows.checkpointed run.memory run.memory.checkpoint) with
      same | ⟨rows', done, after, -⟩
    · rw [same]
      exact h.before
    · rw [after, (checkpointed_tally done).2.1]
      exact short.1
  rw [stepCall.eq_def, stage]
  simp only
  split
  next rows result =>
    rw [result] at states before
    exact @completeFlush_blocked rt source { run with rows := rows } bad before
      (states.2 ▸ h.unready) short.1 _ short.2.1 short.2.2
  next rows result =>
    rw [result] at states before
    exact ⟨before, states.2 ▸ h.unready, short⟩
  next rows result =>
    rw [result] at states before
    exact ⟨before, states.2 ▸ h.unready, short⟩
  next rows result =>
    rw [result] at states before
    exact @abandonFlush_blocked source { run with rows := rows } bad before
      (states.2 ▸ h.unready) short.1 after

theorem probing_blocked (h : run.Blocked source bad) (outcome : Call) {after : After}
    {retried operational : Bool} (stage : run.stage = .probing after retried operational) :
    (stepCall rt outcome run).Blocked source bad := by
  have short := h.short
  rw [stage] at short
  rw [stepCall.eq_def, stage]
  simp only
  split
  next => exact abandonFlush_blocked h.before h.unready short.1 after
  next => exact completeFlush_blocked h.before h.unready short.1 short.2.1 short.2.2
  next =>
    split
    next => exact ⟨h.before, h.unready, short⟩
    next =>
      exact @abandonFlush_blocked source
        { run with memory := { run.memory with writeFailed := true } } bad h.before h.unready
        short.1 after

theorem marking_blocked (h : run.Blocked source bad) (outcome : Call) {cause : Cause}
    (stage : run.stage = .marking cause) : (stepCall rt outcome run).Blocked source bad := by
  rw [stepCall.eq_def, stage]
  simp only
  rcases perform_cases outcome run.rows (Rows.marked cause.buildState) with
    same | ⟨rows', done, after, -⟩
  · rw [same]
    exact ⟨h.before, h.unready, trivial⟩
  · rw [after]
    rw [Rows.marked, if_neg h.unready] at done
    cases done
    refine ⟨h.before, ?_, trivial⟩
    cases cause with
    | cancelled => rintro ⟨⟩
    | failed => rintro ⟨⟩

theorem failing_blocked (h : run.Blocked source bad) (outcome : Call) {cause : Cause}
    (stage : run.stage = .failing cause) : (stepCall rt outcome run).Blocked source bad := by
  rw [stepCall.eq_def, stage]
  simp only
  rcases perform_cases outcome run.rows (Rows.finished cause.executionState) with
    same | ⟨rows', done, after, -⟩
  · rw [same]
    exact ⟨h.before, h.unready, trivial⟩
  · rw [after]
    cases done
    exact ⟨h.before, h.unready, trivial⟩

theorem call_blocked (h : run.Blocked source bad) (outcome : Call) :
    (stepCall rt outcome run).Blocked source bad := by
  have short := h.short
  cases stage : run.stage with
  | records => rwa [stepCall.eq_def, stage]
  | appending after => exact appending_blocked h outcome stage
  | committing after retried => exact committing_blocked h outcome stage
  | probing after retried operational => exact probing_blocked h outcome stage
  | finalizing => exact (stage ▸ short).elim
  | reading => exact (stage ▸ short).elim
  | finishing state => exact (stage ▸ short).elim
  | reporting => exact (stage ▸ short).elim
  | marking cause => exact marking_blocked h outcome stage
  | failing cause => exact failing_blocked h outcome stage
  | ended => rwa [stepCall.eq_def, stage]

theorem step_blocked (sorted : Ascending source) (mem : bad ∈ source) (unfit : ¬Storable rt bad.2)
    (h : run.Blocked source bad) (action : Action) :
    (step rt source run action).Blocked source bad := by
  have last : run.stage = .records → run.memory.last < bad.1 := by
    intro stage
    have short := h.short
    rw [stage] at short
    exact short.2
  cases action with
  | restart =>
    have unready : run.rows.recover.output ≠ .ready := by
      rw [Rows.recover]
      simp only
      split
      next => rintro ⟨⟩
      next => exact h.unready
    rw [step, restart]
    split
    next => exact ⟨h.before, unready, trivial⟩
    next rows claimed =>
      rw [Rows.claim] at claimed
      split at claimed
      next =>
        cases claimed
        exact ⟨h.before, by rintro ⟨⟩, rfl, h.before⟩
      next => cases claimed
  | call outcome => exact call_blocked h outcome
  | work elapsed =>
    rw [step]
    split
    next stage => exact stepRecords_blocked sorted mem unfit h stage elapsed
    next => exact h
  | cancel =>
    rw [step]
    split
    next stage => exact handle_blocked h.before h.unready (last stage.1) _
    next => exact h
  | raise =>
    rw [step]
    split
    next stage => exact handle_blocked h.before h.unready (last stage) _
    next => exact h

theorem history_blocked (sorted : Ascending source) (named : ∀ record ∈ source, record.1 ≠ "")
    (mem : bad ∈ source) (unfit : ¬Storable rt bad.2) (actions : List Action) :
    (history rt source actions).rows.output ≠ .ready := by
  have kept : ∀ {run : Run}, run.Blocked source bad →
      (actions.foldl (step rt source) run).Blocked source bad := by
    induction actions with
    | nil => exact id
    | cons action rest ih => exact fun h => ih (step_blocked sorted mem unfit h action)
  have low := empty_lt (named bad mem)
  have fresh : (start rt source false .fresh).Blocked source bad := ⟨low, nofun, rfl, low⟩
  exact (kept fresh).unready

end Blocked

end Arenyxa.Pipeline
