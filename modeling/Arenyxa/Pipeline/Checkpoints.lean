import Arenyxa.Pipeline.Agreement
import Arenyxa.Pipeline.Progress

/-! A durable checkpoint counts exactly the records up to its identity, as long as no record is
left half way with others pending, and no checkpoint is committed over itself. -/

namespace Arenyxa.Pipeline

open Lib

variable {rt : Runtime} {source : List (String × Record)} {rows rows' : Rows} {m m' : Memory}

/-- The durable counts are those of the records up to the durable identity. -/
structure Rows.Exact (rt : Runtime) (source : List (String × Record)) (rows : Rows) : Prop where
  counts : rows.tally = total rt (upTo source rows.lastInput)
  stored : ∀ checkpoint, rows.checkpoint = some checkpoint → checkpoint.lastInput = rows.lastInput

/-- The condition on a step. A record that the loop leaves half way has none pending before it,
and a checkpoint that is committed is not the durable one. -/
def Meets (rt : Runtime) (run : Run) : Action → Prop
  | .work _ => ∀ identity record rest, run.stage = .records →
      run.memory.rest = (identity, record) :: rest →
      run.memory.processed = 0 ∨ Fits rt run.memory.observed (rt.execute record).outputs
  | .call _ => ∀ after retried, run.stage = .committing after retried →
      run.rows.lastInput ≠ run.memory.last
  | _ => True

/-- What the digest is relied on for: it tells checkpoints of different identities apart. -/
def Runtime.Separates (rt : Runtime) : Prop :=
  ∀ a b, rt.digest a = rt.digest b → a.lastInput = b.lastInput

section Invariant

/-- The iteration stands at the last identity, and the outputs up to it were observed. -/
structure Placed (rt : Runtime) (source : List (String × Record)) (m : Memory) : Prop where
  rest : m.rest = above source m.last
  observed : m.observed = (total rt (upTo source m.last)).2.1

/-- The buffers hold what stands between the durable identity and the last one. -/
structure Fresh (rt : Runtime) (source : List (String × Record)) (rows : Rows) (m : Memory) :
    Prop extends Placed rt source m where
  ahead : rows.lastInput ≤ m.last
  pending : m.tally = total rt (window source rows.lastInput m.last)

/-- What the buffers hold is durable already. -/
structure Settled (rt : Runtime) (source : List (String × Record)) (rows : Rows) (m : Memory) :
    Prop extends Placed rt source m where
  level : rows.lastInput = m.last

/-- What the local variables are worth at a stage. -/
def Stage.Holds (rt : Runtime) (source : List (String × Record)) (rows : Rows) (m : Memory) :
    Stage → Prop
  | .records | .finalizing | .reading | .finishing _ | .reporting => Fresh rt source rows m
  | .appending _ | .committing _ _ | .probing _ _ _ => Fresh rt source rows m ∨ Settled rt source rows m
  | .marking _ | .failing _ | .ended => True

structure Run.Tracked (rt : Runtime) (source : List (String × Record)) (run : Run) : Prop where
  exact : run.rows.Exact rt source
  memory : run.stage.Holds rt source run.rows run.memory

/-- What a transaction keeps that does not touch the progress of the execution. -/
def SameProgress (rows rows' : Rows) : Prop :=
  rows'.tally = rows.tally ∧ rows'.lastInput = rows.lastInput ∧ rows'.checkpoint = rows.checkpoint

theorem Rows.Exact.same (h : rows.Exact rt source) (same : SameProgress rows rows') :
    rows'.Exact rt source := by
  obtain ⟨tally, last, checkpoint⟩ := same
  refine ⟨?_, ?_⟩
  · rw [tally, last]
    exact h.counts
  · rw [checkpoint, last]
    exact h.stored

theorem Fresh.same (h : Fresh rt source rows m) (same : SameProgress rows rows') :
    Fresh rt source rows' m := by
  obtain ⟨-, last, -⟩ := same
  refine ⟨h.toPlaced, ?_, ?_⟩
  · rw [last]
    exact h.ahead
  · rw [last]
    exact h.pending

theorem Settled.same (h : Settled rt source rows m) (same : SameProgress rows rows') :
    Settled rt source rows' m :=
  ⟨h.toPlaced, same.2.1.trans h.level⟩

theorem perform_sameProgress {call : Call} {transaction : Rows → Option Rows}
    (keeps : ∀ {rows'}, transaction rows = some rows' → SameProgress rows rows') :
    SameProgress rows (call.perform rows transaction).1 := by
  rcases perform_cases call rows transaction with same | ⟨rows', done, after, -⟩
  · rw [same]
    exact ⟨rfl, rfl, rfl⟩
  · rw [after]
    exact keeps done

theorem append_sameProgress {outputs : List (String × Record)}
    (h : rows.append outputs = some rows') : SameProgress rows rows' := by
  rw [Rows.append] at h
  split at h
  next =>
    cases h
    exact ⟨rfl, rfl, rfl⟩
  next => cases h

theorem finalized_sameProgress {schema : Schema} (h : rows.finalized schema = some rows') :
    SameProgress rows rows' := by
  rw [Rows.finalized] at h
  split at h
  next =>
    cases h
    exact ⟨rfl, rfl, rfl⟩
  next => cases h

theorem marked_sameProgress {state : BuildState} (h : rows.marked state = some rows') :
    SameProgress rows rows' := by
  rw [Rows.marked] at h
  split at h
  next => cases h
  next =>
    cases h
    exact ⟨rfl, rfl, rfl⟩

theorem finished_sameProgress {state : ExecutionState} (h : rows.finished state = some rows') :
    SameProgress rows rows' := by
  cases h
  exact ⟨rfl, rfl, rfl⟩

theorem recover_sameProgress (rows : Rows) : SameProgress rows rows.recover := ⟨rfl, rfl, rfl⟩

theorem claim_sameProgress (h : rows.claim = some rows') : SameProgress rows rows' := by
  rw [Rows.claim] at h
  split at h
  next =>
    cases h
    exact ⟨rfl, rfl, rfl⟩
  next => cases h

end Invariant

section Steps

variable {run : Run}

theorem start_tracked (resumed : Bool) (h : rows.Exact rt source) :
    (start rt source resumed rows).Tracked rt source := by
  refine ⟨h, ⟨⟨rfl, ?_⟩, le_rfl, ?_⟩⟩
  · exact congrArg (fun tally : Tally => tally.2.1) h.counts
  · rw [show window source (start rt source resumed rows).rows.lastInput
      (start rt source resumed rows).memory.last = [] from window_self]
    rfl

theorem flush_tracked {after : After} (exact : run.rows.Exact rt source)
    (memory : Fresh rt source run.rows run.memory ∨
      Settled rt source run.rows run.memory ∧ ∃ cause, after = .handler cause) :
    (run.flush after).Tracked rt source := by
  have either : Fresh rt source run.rows run.memory ∨ Settled rt source run.rows run.memory :=
    memory.imp_right And.left
  rw [Run.flush]
  split
  next =>
    refine ⟨exact, ?_⟩
    rcases memory with fresh | ⟨-, cause, rfl⟩
    · cases after with
      | loop => exact fresh
      | completion => exact fresh
      | handler cause => trivial
    · trivial
  next =>
    split
    next =>
      refine ⟨exact, either.imp ?_ ?_⟩
      · exact fun fresh => ⟨⟨fresh.rest, fresh.observed⟩, fresh.ahead, fresh.pending⟩
      · exact fun settled => ⟨⟨settled.rest, settled.observed⟩, settled.level⟩
    next => exact ⟨exact, either⟩

theorem handle_tracked (exact : run.rows.Exact rt source)
    (memory : Fresh rt source run.rows run.memory ∨ Settled rt source run.rows run.memory)
    (cause : Cause) : (run.handle cause).Tracked rt source := by
  rw [Run.handle]
  split
  next => exact ⟨exact, trivial⟩
  next => exact flush_tracked exact (memory.imp_right fun settled => ⟨settled, cause, rfl⟩)

theorem handle_idle (exact : run.rows.Exact rt source) (idle : run.memory.processed = 0)
    (cause : Cause) : (run.handle cause).Tracked rt source := by
  rw [Run.handle, Run.flush, if_pos idle]
  split
  next => exact ⟨exact, trivial⟩
  next => exact ⟨exact, trivial⟩

theorem abandonFlush_tracked (exact : run.rows.Exact rt source)
    (memory : Fresh rt source run.rows run.memory ∨ Settled rt source run.rows run.memory)
    (after : After) : (run.abandonFlush after).Tracked rt source := by
  cases after with
  | loop => exact handle_tracked exact memory _
  | completion => exact handle_tracked exact memory _
  | handler cause => exact ⟨exact, trivial⟩

theorem completeFlush_tracked (exact : run.rows.Exact rt source)
    (settled : Settled rt source run.rows run.memory) (after : After) :
    (run.completeFlush rt after).Tracked rt source := by
  have fresh : Fresh rt source run.rows (run.memory.cleared rt) := by
    refine ⟨⟨settled.rest, settled.observed⟩, settled.level.le, ?_⟩
    rw [show (run.memory.cleared rt).last = run.rows.lastInput from settled.level.symm, window_self]
    rfl
  refine ⟨exact, ?_⟩
  cases after with
  | loop => exact fresh
  | completion => exact fresh
  | handler cause => trivial

theorem Fresh.take (sorted : Ascending source) (h : Fresh rt source rows m) {identity : String}
    {record : Record} {rest : List (String × Record)} (next : m.rest = (identity, record) :: rest)
    (taken : takeRecord rt identity (rt.execute record) { m with rest := rest } = (m', true)) :
    Fresh rt source rows m' := by
  obtain ⟨ahead, later, passed⟩ := above_step sorted (h.rest.symm.trans next)
  have tally : m'.tally = m.tally + contribution rt record :=
    @takeRecord_tally rt { m with rest := rest } identity record m' taken
  obtain ⟨bytes, rfl⟩ := takeRecord_done taken
  refine ⟨⟨later.symm, ?_⟩, h.ahead.trans ahead.le, ?_⟩
  · simp only
    rw [← upTo_append_window sorted ahead.le, passed, total_append, h.observed]
    rfl
  · rw [tally, ← window_append sorted h.ahead ahead.le, passed, total_append, ← h.pending]
    rfl

theorem stepRecords_tracked (sorted : Ascending source) (h : run.Tracked rt source)
    (stage : run.stage = .records) {elapsed : Bool} (meets : Meets rt run (.work elapsed)) :
    (stepRecords rt elapsed run).Tracked rt source := by
  have fresh : Fresh rt source run.rows run.memory := by
    have memory := h.memory
    rwa [stage] at memory
  rw [stepRecords]
  split
  next => exact flush_tracked h.exact (.inl fresh)
  next identity record rest next =>
    split
    next m failed =>
      have idle : run.memory.processed = 0 := by
        refine (meets identity record rest stage next).resolve_right fun fits => ?_
        have complete := (@takeRecord_complete_iff rt identity (rt.execute record)
          { run.memory with rest := rest }).mpr fits
        rw [failed] at complete
        cases complete
      have kept : m.processed = run.memory.processed := (takeRecord_fails failed).1
      exact @handle_idle rt source { run with memory := m } h.exact (kept.trans idle) _
    next m taken =>
      have moved : Fresh rt source run.rows m := fresh.take sorted next taken
      split
      next => exact flush_tracked h.exact (.inl moved)
      next => exact ⟨h.exact, by rw [stage]; exact moved⟩

theorem Fresh.commit (sorted : Ascending source) (exact : rows.Exact rt source)
    (h : Fresh rt source rows m) (done : rows.checkpointed m m.checkpoint = some rows') :
    rows'.Exact rt source ∧ Settled rt source rows' m := by
  obtain ⟨tally, last, checkpoint⟩ := checkpointed_tally done
  refine ⟨⟨?_, ?_⟩, h.toPlaced, last⟩
  · rw [tally, last, exact.counts, h.pending, ← total_append, upTo_append_window sorted h.ahead]
  · rintro _ stored
    cases checkpoint.symm.trans stored
    exact last.symm

theorem appending_tracked (h : run.Tracked rt source) (call : Call) {after : After}
    (stage : run.stage = .appending after) : (stepCall rt call run).Tracked rt source := by
  have same := @perform_sameProgress run.rows call (Rows.append run.memory.outputs)
    append_sameProgress
  have memory : Fresh rt source run.rows run.memory ∨ Settled rt source run.rows run.memory := by
    have memory := h.memory
    rwa [stage] at memory
  rw [stepCall.eq_def, stage]
  simp only
  split
  next rows result =>
    rw [result] at same
    refine ⟨h.exact.same same, memory.imp ?_ ?_⟩
    · intro fresh
      have fresh := fresh.same same
      exact ⟨⟨fresh.rest, fresh.observed⟩, fresh.ahead, fresh.pending⟩
    · intro settled
      exact ⟨⟨settled.rest, settled.observed⟩, (settled.same same).level⟩
  next rows _ result =>
    rw [result] at same
    exact abandonFlush_tracked (h.exact.same same)
      (memory.imp (fun fresh => fresh.same same) fun settled => settled.same same) after

theorem committing_tracked (sorted : Ascending source) (h : run.Tracked rt source) (call : Call)
    {after : After} {retried : Bool} (stage : run.stage = .committing after retried)
    (meets : Meets rt run (.call call)) : (stepCall rt call run).Tracked rt source := by
  have fresh : Fresh rt source run.rows run.memory := by
    have memory := h.memory
    rw [stage] at memory
    exact memory.resolve_right fun settled => meets after retried stage settled.level
  have cases : (call.perform run.rows
        (Rows.checkpointed run.memory run.memory.checkpoint)).1.Exact rt source ∧
      (Fresh rt source (call.perform run.rows
          (Rows.checkpointed run.memory run.memory.checkpoint)).1 run.memory ∨
        Settled rt source (call.perform run.rows
          (Rows.checkpointed run.memory run.memory.checkpoint)).1 run.memory) := by
    rcases perform_cases call run.rows (Rows.checkpointed run.memory run.memory.checkpoint) with
      same | ⟨rows', done, after, -⟩
    · rw [same]
      exact ⟨h.exact, .inl fresh⟩
    · rw [after]
      exact (fresh.commit sorted h.exact done).imp_right .inr
  rw [stepCall.eq_def, stage]
  simp only
  split
  next rows result =>
    have committed := fresh.commit sorted h.exact (perform_none result)
    exact completeFlush_tracked committed.1 committed.2 after
  next rows result =>
    rw [result] at cases
    exact ⟨cases.1, cases.2⟩
  next rows result =>
    rw [result] at cases
    exact ⟨cases.1, cases.2⟩
  next rows result =>
    rw [result] at cases
    exact abandonFlush_tracked cases.1 cases.2 after

theorem durable_level (separates : rt.Separates) (exact : run.rows.Exact rt source)
    (found : run.durable rt = true) : run.rows.lastInput = run.memory.last := by
  obtain ⟨checkpoint, stored, same⟩ := Option.map_eq_some_iff.mp (of_decide_eq_true found)
  exact (exact.stored checkpoint stored).symm.trans (separates _ _ same)

theorem probing_tracked (separates : rt.Separates) (h : run.Tracked rt source) (call : Call)
    {after : After} {retried operational : Bool}
    (stage : run.stage = .probing after retried operational) :
    (stepCall rt call run).Tracked rt source := by
  have memory : Fresh rt source run.rows run.memory ∨ Settled rt source run.rows run.memory := by
    have memory := h.memory
    rwa [stage] at memory
  have durable : run.durable rt = true → Settled rt source run.rows run.memory := fun found =>
    ⟨memory.elim Fresh.toPlaced Settled.toPlaced, durable_level separates h.exact found⟩
  rw [stepCall.eq_def, stage]
  simp only
  split
  next => exact abandonFlush_tracked h.exact memory after
  next answer =>
    refine completeFlush_tracked h.exact (durable ?_) after
    cases call with
    | fine => exact Option.some.inj answer
    | raised commits fault =>
      cases fault with
      | operational => cases answer
      | caught => cases answer
      | uncaught => cases answer
  next =>
    split
    next => exact ⟨h.exact, memory⟩
    next =>
      refine @abandonFlush_tracked rt source
        { run with memory := { run.memory with writeFailed := true } } h.exact (memory.imp ?_ ?_) after
      · exact fun fresh => ⟨⟨fresh.rest, fresh.observed⟩, fresh.ahead, fresh.pending⟩
      · exact fun settled => ⟨⟨settled.rest, settled.observed⟩, settled.level⟩

theorem call_tracked (sorted : Ascending source) (separates : rt.Separates)
    (h : run.Tracked rt source) (outcome : Call) (meets : Meets rt run (.call outcome)) :
    (stepCall rt outcome run).Tracked rt source := by
  cases stage : run.stage with
  | records => rwa [stepCall.eq_def, stage]
  | appending after => exact appending_tracked h outcome stage
  | committing after retried => exact committing_tracked sorted h outcome stage meets
  | probing after retried operational => exact probing_tracked separates h outcome stage
  | finalizing =>
    have same := @perform_sameProgress run.rows outcome (Rows.finalized run.memory.schema) finalized_sameProgress
    have fresh : Fresh rt source run.rows run.memory := by
      have memory := h.memory
      rwa [stage] at memory
    rw [stepCall.eq_def, stage]
    simp only
    split
    next rows result =>
      rw [result] at same
      exact ⟨h.exact.same same, fresh.same same⟩
    next rows _ result =>
      rw [result] at same
      exact @handle_tracked rt source { run with rows := rows } (h.exact.same same)
        (.inl (fresh.same same)) _
  | reading =>
    have fresh : Fresh rt source run.rows run.memory := by
      have memory := h.memory
      rwa [stage] at memory
    rw [stepCall.eq_def, stage]
    cases outcome with
    | fine => exact ⟨h.exact, fresh⟩
    | raised _ _ => exact handle_tracked h.exact (.inl fresh) _
  | finishing state =>
    have same := @perform_sameProgress run.rows outcome (Rows.finished state) finished_sameProgress
    have fresh : Fresh rt source run.rows run.memory := by
      have memory := h.memory
      rwa [stage] at memory
    rw [stepCall.eq_def, stage]
    simp only
    split
    next rows result =>
      rw [result] at same
      exact ⟨h.exact.same same, fresh.same same⟩
    next rows _ result =>
      rw [result] at same
      exact @handle_tracked rt source { run with rows := rows } (h.exact.same same)
        (.inl (fresh.same same)) _
  | reporting =>
    have fresh : Fresh rt source run.rows run.memory := by
      have memory := h.memory
      rwa [stage] at memory
    rw [stepCall.eq_def, stage]
    cases outcome with
    | fine => exact ⟨h.exact, trivial⟩
    | raised _ _ => exact handle_tracked h.exact (.inl fresh) _
  | marking cause =>
    rw [stepCall.eq_def, stage]
    exact ⟨h.exact.same (perform_sameProgress marked_sameProgress), trivial⟩
  | failing cause =>
    rw [stepCall.eq_def, stage]
    exact ⟨h.exact.same (perform_sameProgress finished_sameProgress), trivial⟩
  | ended => rwa [stepCall.eq_def, stage]

theorem restart_tracked (h : run.Tracked rt source) : (restart rt source run).Tracked rt source := by
  have recovered := h.exact.same (recover_sameProgress run.rows)
  rw [restart]
  split
  next => exact ⟨recovered, trivial⟩
  next rows claimed => exact start_tracked true (recovered.same (claim_sameProgress claimed))

theorem step_tracked (sorted : Ascending source) (separates : rt.Separates)
    (h : run.Tracked rt source) (action : Action) (meets : Meets rt run action) :
    (step rt source run action).Tracked rt source := by
  have fresh : run.stage = .records → Fresh rt source run.rows run.memory := by
    intro stage
    have memory := h.memory
    rwa [stage] at memory
  cases action with
  | restart => exact restart_tracked h
  | call outcome => exact call_tracked sorted separates h outcome meets
  | work elapsed =>
    rw [step]
    split
    next stage => exact stepRecords_tracked sorted h stage meets
    next => exact h
  | cancel =>
    rw [step]
    split
    next stage => exact handle_tracked h.exact (.inl (fresh stage.1)) _
    next => exact h
  | raise =>
    rw [step]
    split
    next stage => exact handle_tracked h.exact (.inl (fresh stage)) _
    next => exact h

theorem foldl_tracked (sorted : Ascending source) (separates : rt.Separates)
    (h : run.Tracked rt source) (actions : List Action)
    (meets : Every rt source (Meets rt) run actions) :
    (actions.foldl (step rt source) run).Tracked rt source := by
  induction actions generalizing run with
  | nil => exact h
  | cons action rest ih =>
    obtain ⟨here, later⟩ := meets
    exact ih (step_tracked sorted separates h action here) later

theorem fresh_exact (named : ∀ record ∈ source, record.1 ≠ "") : Rows.fresh.Exact rt source := by
  refine ⟨?_, nofun⟩
  have none : upTo source Rows.fresh.lastInput = [] :=
    upTo_eq_nil fun record mem => empty_lt (named record mem)
  rw [none]
  rfl

end Steps

/-- In a history whose steps all meet the condition, the durable counts are exact after every
step, whatever the store calls raise and wherever the process dies. -/
theorem checkpoint_exact (rt : Runtime) (source : List (String × Record)) (sorted : Ascending source)
    (named : ∀ record ∈ source, record.1 ≠ "") (separates : rt.Separates) (actions : List Action)
    (meets : Every rt source (Meets rt) (start rt source false .fresh) actions) :
    (history rt source actions).rows.Exact rt source ∧
      (history rt source actions).rows.processed =
        (upTo source (history rt source actions).rows.lastInput).length := by
  have tracked := foldl_tracked sorted separates (start_tracked false (fresh_exact named)) actions meets
  refine ⟨tracked.exact, ?_⟩
  rw [← @total_processed rt]
  exact congrArg Prod.fst tracked.exact.counts

/-- A workflow that gives each record twice, with room for three outputs. -/
def doubling : Runtime where
  execute record := ⟨[record, record], 0, fun _ => some ⟨(1, 2, 0), .completed⟩⟩
  encodedSize record := some record.length
  sha256 := id
  digest checkpoint := checkpoint.lastInput
  workflowId := "w"
  outputCap := 3
  checkpointEvery := 100
  writeBatchSize := 500
  maxPendingOutputBytes := 1000

theorem checkpoint_exact_doubling :
    (history doubling [("a", []), ("b", [])] [.work true, .call .fine, .call .fine, .restart,
      .work true]).rows.Exact doubling [("a", []), ("b", [])] := by
  refine (checkpoint_exact doubling [("a", []), ("b", [])] (by decide) (by decide)
    (fun _ _ same => same) [.work true, .call .fine, .call .fine, .restart, .work true]
    ⟨?_, ?_, ?_, trivial, ?_, trivial⟩).1
  · exact fun _ _ _ _ _ => .inl rfl
  · exact fun _ _ stage => absurd stage nofun
  · exact fun _ _ _ => by decide
  · exact fun _ _ _ _ _ => .inl (by decide)

/-- The second record goes over the cap with its second output. The handler commits its first
output and its node counts under the identity of the first record. -/
theorem partial_committed :
    (history doubling [("a", []), ("b", [])] [.work false, .work false, .call .fine,
      .call .fine]).rows.lastInput = "a" ∧
    (history doubling [("a", []), ("b", [])] [.work false, .work false, .call .fine,
      .call .fine]).rows.staged = 3 ∧
    ¬(history doubling [("a", []), ("b", [])] [.work false, .work false, .call .fine,
      .call .fine]).rows.Exact doubling [("a", []), ("b", [])] := by
  refine ⟨by decide, by decide, fun exact => ?_⟩
  have staged : (total doubling (upTo [("a", []), ("b", [])] (history doubling [("a", []), ("b", [])]
      [.work false, .work false, .call .fine, .call .fine]).rows.lastInput)).2.1 = 2 := by
    decide
  have counted := congrArg (fun tally : Tally => tally.2.1) exact.counts
  exact absurd (counted.trans staged) (by decide)

end Arenyxa.Pipeline
