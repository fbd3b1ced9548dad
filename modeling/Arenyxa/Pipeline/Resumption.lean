import Arenyxa.Pipeline.Obstruction
import Arenyxa.Pipeline.Progress
import Arenyxa.Pipeline.Schema

/-! An execution that is interrupted and resumed any number of times completes with the result
of one that is never interrupted. -/

namespace Arenyxa.Pipeline

open Lib

variable {rt : Runtime} {source : List (String × Record)} {rows rows' : Rows} {m m' : Memory}
  {run : Run}

/-- The steps of a history with interruptions. A checkpoint commit that becomes durable raises
nothing that the flush does not catch, and the durable checkpoint can be read. -/
def Interrupts (run : Run) : Action → Prop
  | .call outcome =>
    (∀ after retried, run.stage = .committing after retried → outcome ≠ .raised true .uncaught) ∧
      ∀ after retried operational, run.stage = .probing after retried operational → outcome = .fine
  | _ => True

section Invariant

/-- The output values, without their identities. -/
def valuesOf (rt : Runtime) (records : List (String × Record)) : List Record :=
  (outputsOf rt records).map Prod.snd

/-- The durable outputs are those of the source, at least up to the durable identity, and a ready
output is complete. -/
structure Rows.Stored (rt : Runtime) (source : List (String × Record)) (rows : Rows) : Prop where
  known : rows.records ⊆ outputsOf rt source
  kept : outputsOf rt (upTo source rows.lastInput) ⊆ rows.records
  keys : (rows.records.map Prod.fst).Nodup
  ready : rows.output = .ready → above source rows.lastInput = [] ∧
    rows.schema = Schema.observeAll (fun _ => none) (valuesOf rt source)

/-- The schema has observed every output up to the cursor, and perhaps later ones. -/
def Seen (rt : Runtime) (source : List (String × Record)) (m : Memory) : Prop :=
  ∃ values, m.schema = Schema.observeAll (fun _ => none) values ∧
    values ⊆ valuesOf rt source ∧ valuesOf rt (upTo source m.last) ⊆ values

/-- Every output up to the cursor is durable or in the buffer. -/
structure Carried (rt : Runtime) (source : List (String × Record)) (rows : Rows) (m : Memory) :
    Prop where
  seen : Seen rt source m
  unready : rows.output ≠ .ready
  known : m.outputs ⊆ outputsOf rt source
  held : ∀ x ∈ outputsOf rt (upTo source m.last), x ∈ rows.records ∨ x ∈ m.outputs

/-- The outputs of the records to be committed are durable. -/
structure Written (rt : Runtime) (source : List (String × Record)) (rows : Rows) (m : Memory) :
    Prop extends Carried rt source rows m where
  written : outputsOf rt (upTo source m.last) ⊆ rows.records

def Stage.Keeps (rt : Runtime) (source : List (String × Record)) (rows : Rows) (m : Memory) :
    Stage → Prop
  | .records => Carried rt source rows m
  | .appending after => Carried rt source rows m ∧ rows.lastInput ≠ m.last ∧
      (after = .completion → above source m.last = [])
  | .committing after _ => Written rt source rows m ∧ rows.lastInput ≠ m.last ∧
      (after = .completion → above source m.last = [])
  | .probing after _ _ => Written rt source rows m ∧
      (rows.lastInput = m.last → rows.checkpoint = some m.checkpoint) ∧
      (after = .completion → above source m.last = [])
  | .finalizing => Seen rt source m ∧ m.processed = 0 ∧ above source rows.lastInput = [] ∧
      above source m.last = []
  | .reading | .finishing _ | .reporting => m.processed = 0
  | .marking _ | .failing _ | .ended => True

structure Run.Resumable (rt : Runtime) (source : List (String × Record)) (run : Run) : Prop
    extends run.Tracked rt source where
  stored : run.rows.Stored rt source
  keeps : run.stage.Keeps rt source run.rows run.memory

theorem Rows.Stored.same (h : rows.Stored rt source) (records : rows'.records = rows.records)
    (last : rows'.lastInput = rows.lastInput)
    (output : rows'.output = .ready → rows.output = .ready ∧ rows'.schema = rows.schema) :
    rows'.Stored rt source := by
  refine ⟨?_, ?_, ?_, fun ready => ?_⟩
  · rw [records]
    exact h.known
  · rw [records, last]
    exact h.kept
  · rw [records]
    exact h.keys
  · obtain ⟨was, schema⟩ := output ready
    rw [last, schema]
    exact h.ready was

theorem Fresh.ne_of_processed (h : Fresh rt source rows m) (some_pending : m.processed ≠ 0) :
    rows.lastInput ≠ m.last := by
  intro level
  have pending := congrArg Prod.fst h.pending
  rw [level, window_self] at pending
  exact some_pending pending

theorem Fresh.window_of_idle (h : Fresh rt source rows m) (idle : m.processed = 0) :
    window source rows.lastInput m.last = [] := by
  have pending := congrArg Prod.fst h.pending
  rw [total_processed] at pending
  exact List.length_eq_zero_iff.mp (pending.symm.trans idle)

theorem Fresh.above_of_idle (sorted : Ascending source) (h : Fresh rt source rows m)
    (idle : m.processed = 0) (done : above source m.last = []) :
    above source rows.lastInput = [] := by
  rw [← upTo_append_above (sorted.above rows.lastInput) m.last, above_above h.ahead, done,
    List.append_nil]
  exact h.window_of_idle idle

end Invariant

section Flushes

theorem flush_keeps (sorted : Ascending source) {after : After}
    (fresh : Fresh rt source run.rows run.memory) (carried : Carried rt source run.rows run.memory)
    (done : after = .completion → above source run.memory.last = []) :
    (run.flush after).stage.Keeps rt source (run.flush after).rows (run.flush after).memory := by
  rw [Run.flush]
  split
  next idle =>
    cases after with
    | loop => exact carried
    | completion =>
      exact ⟨carried.seen, idle, fresh.above_of_idle sorted idle (done rfl), done rfl⟩
    | handler cause => trivial
  next pending =>
    have ahead := fresh.ne_of_processed pending
    split
    next empty =>
      have carried' : Carried rt source run.rows
          { run.memory with generation := run.memory.generation + 1 } :=
        ⟨carried.seen, carried.unready, carried.known, carried.held⟩
      refine ⟨⟨carried', fun x mem => ?_⟩, ahead, done⟩
      exact (carried.held x mem).resolve_right fun buffered => by simp [empty] at buffered
    next => exact ⟨carried, ahead, done⟩

theorem handle_keeps (sorted : Ascending source) (fresh : Fresh rt source run.rows run.memory)
    (carried : Carried rt source run.rows run.memory) (cause : Cause) :
    (run.handle cause).stage.Keeps rt source (run.handle cause).rows (run.handle cause).memory := by
  rw [Run.handle]
  split
  next => trivial
  next => exact flush_keeps sorted fresh carried (by rintro ⟨⟩)

theorem handle_idle_keeps (idle : run.memory.processed = 0) (cause : Cause) :
    (run.handle cause).stage.Keeps rt source (run.handle cause).rows (run.handle cause).memory := by
  rw [Run.handle, Run.flush, if_pos idle]
  split
  next => trivial
  next => trivial

theorem abandonFlush_keeps (sorted : Ascending source) (fresh : Fresh rt source run.rows run.memory)
    (carried : Carried rt source run.rows run.memory) (after : After) :
    (run.abandonFlush after).stage.Keeps rt source (run.abandonFlush after).rows
      (run.abandonFlush after).memory := by
  cases after with
  | loop => exact handle_keeps sorted fresh carried _
  | completion => exact handle_keeps sorted fresh carried _
  | handler cause => trivial

theorem abandonFlush_marks (after : After) (run : Run) (failed : run.memory.writeFailed = true) :
    ∃ cause, (run.abandonFlush after).stage = .marking cause := by
  have marks : (run.handle .failed).stage = .marking .failed := by rw [Run.handle, if_pos failed]
  cases after with
  | loop => exact ⟨.failed, marks⟩
  | completion => exact ⟨.failed, marks⟩
  | handler cause => exact ⟨cause, rfl⟩

theorem completeFlush_keeps {after : After} (written : Written rt source run.rows run.memory)
    (level : run.rows.lastInput = run.memory.last)
    (done : after = .completion → above source run.memory.last = []) :
    (run.completeFlush rt after).stage.Keeps rt source (run.completeFlush rt after).rows
      (run.completeFlush rt after).memory := by
  cases after with
  | loop =>
    exact ⟨written.seen, written.unready, List.nil_subset _, fun x mem => .inl (written.written mem)⟩
  | completion => exact ⟨written.seen, rfl, level ▸ done rfl, done rfl⟩
  | handler cause => trivial

end Flushes

section Records

theorem stagedOutputs_values (identity : String) (outputs : List Record) (ordinal : Nat) :
    (stagedOutputs rt identity outputs ordinal).map Prod.snd = outputs := by
  induction outputs generalizing ordinal with
  | nil => rfl
  | cons output rest ih => exact congrArg (output :: ·) (ih (ordinal + 1))

theorem outputsOf_singleton (record : String × Record) :
    outputsOf rt [record] = stagedOutputs rt record.1 (rt.execute record.2).outputs 0 := by
  simp [outputsOf]

theorem Fresh.fits (sorted : Ascending source) (cap : (total rt source).2.1 ≤ rt.outputCap)
    (h : Fresh rt source rows m) {identity : String} {record : Record}
    {rest : List (String × Record)} (next : m.rest = (identity, record) :: rest)
    (storable : Storable rt record) : Fits rt m.observed (rt.execute record).outputs := by
  refine ⟨.inr (le_trans ?_ cap), storable⟩
  have whole : total rt source = total rt (upTo source m.last) + (contribution rt record + total rt rest) := by
    rw [← upTo_append_above sorted m.last, total_append, upTo_append_above sorted, ← h.rest, next]
    rfl
  rw [h.observed, whole]
  exact Nat.add_le_add_left (Nat.le_add_right _ _) _

theorem Carried.take (sorted : Ascending source) (fresh : Fresh rt source rows m)
    (h : Carried rt source rows m) {identity : String} {record : Record}
    {rest : List (String × Record)} (next : m.rest = (identity, record) :: rest)
    (taken : takeRecord rt identity (rt.execute record) { m with rest := rest } = (m', true)) :
    Carried rt source rows m' := by
  obtain ⟨ahead, -, passed⟩ := above_step sorted (fresh.rest.symm.trans next)
  have mem : (identity, record) ∈ source := by
    have there : (identity, record) ∈ m.rest := next ▸ List.mem_cons_self
    rw [fresh.rest] at there
    exact (mem_above.mp there).1
  have grown : upTo source identity = upTo source m.last ++ [(identity, record)] := by
    rw [← upTo_append_window sorted ahead.le, passed]
  have staged : outputsOf rt (upTo source identity) = outputsOf rt (upTo source m.last) ++
      stagedOutputs rt identity (rt.execute record).outputs 0 := by
    rw [grown, outputsOf_append, outputsOf_singleton]
  have of_source : stagedOutputs rt identity (rt.execute record).outputs 0 ⊆ outputsOf rt source :=
    fun x new => List.mem_flatMap.mpr ⟨(identity, record), mem, new⟩
  have values : valuesOf rt (upTo source identity) =
      valuesOf rt (upTo source m.last) ++ (rt.execute record).outputs := by
    rw [valuesOf, staged, List.map_append, stagedOutputs_values, valuesOf]
  obtain ⟨bytes, rfl⟩ := takeRecord_done taken
  obtain ⟨seen, schema, known, covers⟩ := h.seen
  refine ⟨⟨seen ++ (rt.execute record).outputs, ?_, ?_, ?_⟩, h.unready, ?_, ?_⟩
  · simp only
    rw [observeAll_append, ← schema]
  · refine List.append_subset.mpr ⟨known, fun x new => ?_⟩
    rw [← stagedOutputs_values identity (rt.execute record).outputs 0] at new
    exact List.map_subset _ of_source new
  · simp only
    rw [values]
    exact List.append_subset.mpr ⟨List.Subset.trans covers (List.subset_append_left _ _),
      List.subset_append_right _ _⟩
  · exact List.append_subset.mpr ⟨h.known, of_source⟩
  · intro x there
    simp only at there ⊢
    rw [staged] at there
    rcases List.mem_append.mp there with old | new
    · exact (h.held x old).imp_right (List.mem_append_left _)
    · exact .inr (List.mem_append_right _ new)

theorem stepRecords_keeps (sorted : Ascending source) (cap : (total rt source).2.1 ≤ rt.outputCap)
    (storable : ∀ record ∈ source, Storable rt record.2)
    (fresh : Fresh rt source run.rows run.memory) (carried : Carried rt source run.rows run.memory)
    (stage : run.stage = .records) (elapsed : Bool) :
    (stepRecords rt elapsed run).stage.Keeps rt source (stepRecords rt elapsed run).rows
      (stepRecords rt elapsed run).memory := by
  rw [stepRecords]
  split
  next none => exact flush_keeps sorted fresh carried fun _ => fresh.rest.symm.trans none
  next identity record rest next =>
    have mem : (identity, record) ∈ source := by
      have there : (identity, record) ∈ run.memory.rest := next ▸ List.mem_cons_self
      rw [fresh.rest] at there
      exact (mem_above.mp there).1
    have fits := fresh.fits sorted cap next (storable _ mem)
    split
    next m failed =>
      have complete := (@takeRecord_complete_iff rt identity (rt.execute record)
        { run.memory with rest := rest }).mpr fits
      rw [failed] at complete
      cases complete
    next m taken =>
      have moved : Fresh rt source run.rows m := fresh.take sorted next taken
      have held : Carried rt source run.rows m := carried.take sorted fresh next taken
      split
      next => exact flush_keeps sorted moved held (by rintro ⟨⟩)
      next =>
        rw [stage]
        exact held

end Records

section Calls

variable (collisions : Function.Injective rt.sha256) (sorted : Ascending source)

include collisions sorted

theorem append_stored (h : rows.Stored rt source) (carried : Carried rt source rows m)
    (done : rows.append m.outputs = some rows') :
    rows'.Stored rt source ∧ Written rt source rows' m := by
  have unique : ∀ x ∈ outputsOf rt source, ∀ y ∈ outputsOf rt source, x.1 = y.1 → x = y :=
    fun x mem y mem' same => outputsOf_unique collisions sorted mem mem' same
  rw [Rows.append] at done
  split at done
  next =>
    cases done
    have members := mem_foldl_upsertRecord unique h.known carried.known
    have grown : rows.records ⊆ m.outputs.foldl upsertRecord rows.records :=
      fun x mem => (members x).mpr (.inl mem)
    refine ⟨⟨?_, List.Subset.trans h.kept grown, ?_, fun ready => absurd ready carried.unready⟩, ?_⟩
    · exact fun x mem => ((members x).mp mem).elim (h.known ·) (carried.known ·)
    · exact nodup_foldl_upsertRecord unique h.known carried.known h.keys
    · refine ⟨⟨carried.seen, carried.unready, carried.known, ?_⟩, ?_⟩
      · exact fun x mem => (carried.held x mem).imp_left (grown ·)
      · exact fun x mem => (members x).mpr (carried.held x mem)
  next => cases done

theorem appending_keeps (h : run.Resumable rt source) (outcome : Call) {after : After}
    (stage : run.stage = .appending after) :
    (stepCall rt outcome run).rows.Stored rt source ∧
      (stepCall rt outcome run).stage.Keeps rt source (stepCall rt outcome run).rows
        (stepCall rt outcome run).memory := by
  have keeps := h.keeps
  have memory := h.memory
  rw [stage] at keeps memory
  obtain ⟨carried, ahead, done⟩ := keeps
  have fresh := memory.resolve_right fun settled => ahead settled.level
  have same := @perform_sameProgress run.rows outcome (Rows.append run.memory.outputs)
    append_sameProgress
  have kept : (outcome.perform run.rows (Rows.append run.memory.outputs)).1.Stored rt source ∧
      Carried rt source (outcome.perform run.rows (Rows.append run.memory.outputs)).1 run.memory := by
    rcases perform_cases outcome run.rows (Rows.append run.memory.outputs) with
      same | ⟨rows', appended, after, -⟩
    · rw [same]
      exact ⟨h.stored, carried⟩
    · rw [after]
      exact (append_stored collisions sorted h.stored carried appended).imp_right Written.toCarried
  rw [stepCall.eq_def, stage]
  simp only
  split
  next rows result =>
    obtain ⟨stored, written⟩ := append_stored collisions sorted h.stored carried (perform_none result)
    rw [result] at same
    refine ⟨stored, ⟨⟨written.seen, written.unready, written.known, written.held⟩, written.written⟩,
      ?_, done⟩
    exact same.2.1.symm ▸ ahead
  next rows _ result =>
    rw [result] at same kept
    refine ⟨?_, @abandonFlush_keeps rt source { run with rows := rows } sorted (fresh.same same)
      kept.2 after⟩
    rw [(abandonFlush_early _ after).1]
    exact kept.1

omit collisions sorted in
theorem checkpointed_stored {checkpoint : Checkpoint} (h : rows.Stored rt source)
    (written : Written rt source rows m) (done : rows.checkpointed m checkpoint = some rows') :
    rows'.Stored rt source ∧ Written rt source rows' m ∧ rows'.lastInput = m.last ∧
      rows'.checkpoint = some checkpoint := by
  rw [Rows.checkpointed] at done
  split at done
  next =>
    cases done
    refine ⟨⟨h.known, written.written, h.keys, fun ready => absurd ready written.unready⟩, ?_, rfl, rfl⟩
    exact ⟨⟨written.seen, written.unready, written.known, written.held⟩, written.written⟩
  next => cases done

omit collisions in
theorem committing_keeps (h : run.Resumable rt source) (outcome : Call) {after : After}
    {retried : Bool} (stage : run.stage = .committing after retried)
    (caught : outcome ≠ .raised true .uncaught) :
    (stepCall rt outcome run).rows.Stored rt source ∧
      (stepCall rt outcome run).stage.Keeps rt source (stepCall rt outcome run).rows
        (stepCall rt outcome run).memory := by
  have keeps := h.keeps
  have memory := h.memory
  rw [stage] at keeps memory
  obtain ⟨written, ahead, done⟩ := keeps
  have fresh := memory.resolve_right fun settled => ahead settled.level
  -- The commit either did not happen, or it is the durable checkpoint now.
  have cases : (outcome.perform run.rows
        (Rows.checkpointed run.memory run.memory.checkpoint)).1 = run.rows ∨
      outcome.Commits ∧ ∃ rows', run.rows.checkpointed run.memory run.memory.checkpoint = some rows' ∧
        (outcome.perform run.rows
          (Rows.checkpointed run.memory run.memory.checkpoint)).1 = rows' := by
    refine (perform_cases outcome run.rows _).imp_right ?_
    rintro ⟨rows', committed, after, commits⟩
    exact ⟨commits, rows', committed, after⟩
  have probing : ∀ {rows operational}, (rows = run.rows ∨
        ∃ rows', run.rows.checkpointed run.memory run.memory.checkpoint = some rows' ∧ rows = rows') →
      rows.Stored rt source ∧
        (Stage.probing after retried operational).Keeps rt source rows run.memory := by
    rintro rows operational (rfl | ⟨rows', committed, rfl⟩)
    · exact ⟨h.stored, written, fun level => absurd level ahead, done⟩
    · obtain ⟨stored, written, -, checkpoint⟩ := checkpointed_stored h.stored written committed
      exact ⟨stored, written, fun _ => checkpoint, done⟩
  rw [stepCall.eq_def, stage]
  simp only
  split
  next rows result =>
    obtain ⟨stored, written, level, -⟩ :=
      checkpointed_stored h.stored written (perform_none result)
    exact ⟨stored, @completeFlush_keeps rt source { run with rows := rows } _ written level done⟩
  next rows result =>
    rw [result] at cases
    exact probing (cases.imp_right And.right)
  next rows result =>
    rw [result] at cases
    exact probing (cases.imp_right And.right)
  next rows result =>
    have same : rows = run.rows := by
      rw [result] at cases
      refine cases.resolve_right ?_
      rintro ⟨commits, rows', committed, -⟩
      rw [Call.perform.eq_def, committed] at result
      cases outcome with
      | fine => cases result
      | raised commit fault =>
        cases result
        cases commits
        exact caught rfl
    subst same
    refine ⟨?_, abandonFlush_keeps sorted fresh written.toCarried after⟩
    rw [(abandonFlush_early _ after).1]
    exact h.stored

omit collisions sorted in
theorem probing_keeps (separates : rt.Separates) (h : run.Resumable rt source) {after : After}
    {retried operational : Bool} (stage : run.stage = .probing after retried operational) :
    (stepCall rt .fine run).rows.Stored rt source ∧
      (stepCall rt .fine run).stage.Keeps rt source (stepCall rt .fine run).rows
        (stepCall rt .fine run).memory := by
  have keeps := h.keeps
  rw [stage] at keeps
  obtain ⟨written, durable, done⟩ := keeps
  rw [stepCall.eq_def, stage]
  cases answer : run.durable rt with
  | true =>
    have level := durable_level separates h.exact answer
    simp only
    exact ⟨h.stored, completeFlush_keeps written level done⟩
  | false =>
    -- A commit that is durable would have been found.
    have ahead : run.rows.lastInput ≠ run.memory.last := by
      intro level
      rw [Run.durable, durable level] at answer
      simp at answer
    simp only
    split
    next => exact ⟨h.stored, written, ahead, done⟩
    next =>
      refine ⟨by rw [(abandonFlush_early _ after).1]; exact h.stored, ?_⟩
      obtain ⟨cause, marking⟩ := abandonFlush_marks after
        ⟨run.rows, { run.memory with writeFailed := true }, .probing after retried operational⟩ rfl
      rw [marking]
      trivial

end Calls

section Ends

theorem Seen.complete (sorted : Ascending source) (h : Seen rt source m)
    (done : above source m.last = []) :
    m.schema = Schema.observeAll (fun _ => none) (valuesOf rt source) := by
  obtain ⟨values, schema, known, covers⟩ := h
  rw [upTo_eq_self_of_above sorted done] at covers
  rw [schema]
  exact observeAll_congr _ fun record => ⟨(known ·), (covers ·)⟩

theorem finalizing_keeps (sorted : Ascending source) (h : run.Resumable rt source) (outcome : Call)
    (stage : run.stage = .finalizing) :
    (stepCall rt outcome run).rows.Stored rt source ∧
      (stepCall rt outcome run).stage.Keeps rt source (stepCall rt outcome run).rows
        (stepCall rt outcome run).memory := by
  have keeps := h.keeps
  rw [stage] at keeps
  obtain ⟨seen, idle, covered, done⟩ := keeps
  have stored : (outcome.perform run.rows (Rows.finalized run.memory.schema)).1.Stored rt source := by
    rcases perform_cases outcome run.rows (Rows.finalized run.memory.schema) with
      same | ⟨rows', finalized, after, -⟩
    · rw [same]
      exact h.stored
    · rw [after]
      rw [Rows.finalized] at finalized
      split at finalized
      next =>
        cases finalized
        exact ⟨h.stored.known, h.stored.kept, h.stored.keys,
          fun _ => ⟨covered, seen.complete sorted done⟩⟩
      next => cases finalized
  rw [stepCall.eq_def, stage]
  simp only
  split
  next rows result =>
    rw [result] at stored
    exact ⟨stored, idle⟩
  next rows _ result =>
    rw [result] at stored
    refine ⟨?_, @handle_idle_keeps rt source { run with rows := rows } idle _⟩
    rw [(handle_early _ _).1]
    exact stored

theorem finished_stored (outcome : Call) (state : ExecutionState) (h : rows.Stored rt source) :
    (outcome.perform rows (Rows.finished state)).1.Stored rt source := by
  rcases perform_cases outcome rows (Rows.finished state) with same | ⟨rows', finished, after, -⟩
  · rw [same]
    exact h
  · rw [after]
    cases finished
    exact ⟨h.known, h.kept, h.keys, h.ready⟩

theorem marked_stored (outcome : Call) (cause : Cause) (h : rows.Stored rt source) :
    (outcome.perform rows (Rows.marked cause.buildState)).1.Stored rt source := by
  rcases perform_cases outcome rows (Rows.marked cause.buildState) with
    same | ⟨rows', marked, after, -⟩
  · rw [same]
    exact h
  · rw [after]
    rw [Rows.marked] at marked
    split at marked
    next => cases marked
    next =>
      cases marked
      refine ⟨h.known, h.kept, h.keys, fun ready => ?_⟩
      cases cause with
      | cancelled => cases ready
      | failed => cases ready

theorem late_keeps (h : run.Resumable rt source) (idle : run.memory.processed = 0) (outcome : Call)
    (late : run.stage = .reading ∨ run.stage = .reporting ∨ ∃ state, run.stage = .finishing state) :
    (stepCall rt outcome run).rows.Stored rt source ∧
      (stepCall rt outcome run).stage.Keeps rt source (stepCall rt outcome run).rows
        (stepCall rt outcome run).memory := by
  have failing : ∀ {rows : Rows} {stage : Stage}, rows.Stored rt source →
      ((Run.mk rows run.memory stage).handle .failed).rows.Stored rt source ∧
        ((Run.mk rows run.memory stage).handle .failed).stage.Keeps rt source
          ((Run.mk rows run.memory stage).handle .failed).rows
          ((Run.mk rows run.memory stage).handle .failed).memory := by
    intro rows stage stored
    refine ⟨?_, @handle_idle_keeps rt source ⟨rows, run.memory, stage⟩ idle _⟩
    rw [(handle_early _ _).1]
    exact stored
  rcases late with reading | reporting | ⟨state, finishing⟩
  · rw [stepCall.eq_def, reading]
    cases outcome with
    | fine => exact ⟨h.stored, idle⟩
    | raised _ _ => exact failing h.stored
  · rw [stepCall.eq_def, reporting]
    cases outcome with
    | fine => exact ⟨h.stored, trivial⟩
    | raised _ _ => exact failing h.stored
  · have stored := finished_stored outcome state h.stored
    rw [stepCall.eq_def, finishing]
    simp only
    split
    next rows result =>
      rw [result] at stored
      exact ⟨stored, idle⟩
    next rows _ result =>
      rw [result] at stored
      exact failing stored

theorem mem_byIdentity {records : List (String × Record)} {x : String × Record} :
    x ∈ byIdentity records ↔ x ∈ records :=
  (List.perm_insertionSort _ records).mem_iff

theorem start_keeps (h : rows.Stored rt source) (unready : rows.output ≠ .ready) :
    Carried rt source rows (start rt source true rows).memory := by
  refine ⟨⟨(byIdentity rows.records).map Prod.snd, rfl, ?_, ?_⟩, unready, List.nil_subset _,
    fun x mem => .inl (h.kept mem)⟩
  · exact List.map_subset _ fun x mem => h.known (mem_byIdentity.1 mem)
  · exact List.map_subset _ fun x mem => mem_byIdentity.2 (h.kept mem)

theorem restart_keeps (h : run.Resumable rt source) :
    (restart rt source run).rows.Stored rt source ∧
      (restart rt source run).stage.Keeps rt source (restart rt source run).rows
        (restart rt source run).memory := by
  have recovered : run.rows.recover.Stored rt source := by
    refine h.stored.same rfl rfl fun ready => ⟨?_, rfl⟩
    rw [Rows.recover] at ready
    simp only at ready
    split at ready
    next => cases ready
    next => exact ready
  rw [restart]
  split
  next => exact ⟨recovered, trivial⟩
  next rows claimed =>
    rw [Rows.claim] at claimed
    split at claimed
    next =>
      cases claimed
      have stored : Rows.Stored rt source
          { run.rows.recover with state := .running, output := .building } :=
        recovered.same rfl rfl (by rintro ⟨⟩)
      exact ⟨stored, start_keeps stored (by rintro ⟨⟩)⟩
    next => cases claimed

end Ends

section Histories

variable (collisions : Function.Injective rt.sha256) (sorted : Ascending source)
  (separates : rt.Separates) (cap : (total rt source).2.1 ≤ rt.outputCap)
  (storable : ∀ record ∈ source, Storable rt record.2)

include sorted cap storable in
theorem Run.Resumable.meets (h : run.Resumable rt source) (action : Action) : Meets rt run action := by
  have keeps := h.keeps
  have memory := h.memory
  cases action with
  | work elapsed =>
    intro identity record rest stage next
    rw [stage] at memory
    have mem : (identity, record) ∈ run.memory.rest := next ▸ List.mem_cons_self
    rw [memory.rest] at mem
    exact .inr (memory.fits sorted cap next (storable _ (mem_above.mp mem).1))
  | call outcome =>
    intro after retried stage
    rw [stage] at keeps
    exact keeps.2.1
  | cancel => trivial
  | raise => trivial
  | restart => trivial

include collisions sorted separates cap storable

theorem step_resumable (h : run.Resumable rt source) (action : Action)
    (interrupts : Interrupts run action) : (step rt source run action).Resumable rt source := by
  have tracked := step_tracked sorted separates h.toTracked action (h.meets sorted cap storable action)
  have keeps := h.keeps
  have memory := h.memory
  suffices kept : (step rt source run action).rows.Stored rt source ∧
      (step rt source run action).stage.Keeps rt source (step rt source run action).rows
        (step rt source run action).memory from ⟨tracked, kept.1, kept.2⟩
  cases action with
  | restart => exact restart_keeps h
  | call outcome =>
    cases stage : run.stage with
    | records =>
      rw [step, stepCall.eq_def, stage]
      exact ⟨h.stored, h.keeps⟩
    | appending after => exact appending_keeps collisions sorted h outcome stage
    | committing after retried =>
      exact committing_keeps sorted h outcome stage (interrupts.1 after retried stage)
    | probing after retried operational =>
      cases interrupts.2 after retried operational stage
      exact probing_keeps separates h stage
    | finalizing => exact finalizing_keeps sorted h outcome stage
    | reading =>
      rw [stage] at keeps
      exact late_keeps h keeps outcome (.inl stage)
    | finishing state =>
      rw [stage] at keeps
      exact late_keeps h keeps outcome (.inr (.inr ⟨state, stage⟩))
    | reporting =>
      rw [stage] at keeps
      exact late_keeps h keeps outcome (.inr (.inl stage))
    | marking cause =>
      rw [step, stepCall.eq_def, stage]
      exact ⟨marked_stored outcome cause h.stored, trivial⟩
    | failing cause =>
      rw [step, stepCall.eq_def, stage]
      exact ⟨finished_stored outcome _ h.stored, trivial⟩
    | ended =>
      rw [step, stepCall.eq_def, stage]
      exact ⟨h.stored, h.keeps⟩
  | work elapsed =>
    rw [step]
    split
    next stage =>
      rw [stage] at keeps memory
      refine ⟨?_, stepRecords_keeps sorted cap storable memory keeps stage elapsed⟩
      rw [(stepRecords_early elapsed stage).1]
      exact h.stored
    next => exact ⟨h.stored, h.keeps⟩
  | cancel =>
    rw [step]
    split
    next stage =>
      rw [stage.1] at keeps memory
      refine ⟨?_, handle_keeps sorted memory keeps _⟩
      rw [(handle_early _ _).1]
      exact h.stored
    next => exact ⟨h.stored, h.keeps⟩
  | raise =>
    rw [step]
    split
    next stage =>
      rw [stage] at keeps memory
      refine ⟨?_, handle_keeps sorted memory keeps _⟩
      rw [(handle_early _ _).1]
      exact h.stored
    next => exact ⟨h.stored, h.keeps⟩

theorem foldl_resumable (h : run.Resumable rt source) (actions : List Action)
    (interrupted : Every rt source Interrupts run actions) :
    (actions.foldl (step rt source) run).Resumable rt source := by
  induction actions generalizing run with
  | nil => exact h
  | cons action rest ih =>
    obtain ⟨here, later⟩ := interrupted
    exact ih (step_resumable collisions sorted separates cap storable h action here) later

omit collisions separates cap storable sorted in
theorem start_resumable (named : ∀ record ∈ source, record.1 ≠ "") :
    (start rt source false .fresh).Resumable rt source := by
  have none : upTo source Rows.fresh.lastInput = [] :=
    upTo_eq_nil fun record mem => empty_lt (named record mem)
  have nothing : outputsOf rt (upTo source Rows.fresh.lastInput) = [] := by
    rw [none]
    rfl
  refine ⟨start_tracked false (fresh_exact named),
    ⟨List.nil_subset _, nothing ▸ List.nil_subset _, List.nodup_nil, nofun⟩,
    ⟨⟨[], rfl, List.nil_subset _, ?_⟩, nofun, List.nil_subset _, fun x mem => ?_⟩⟩
  · rw [valuesOf, show (start rt source false .fresh).memory.last = Rows.fresh.lastInput from rfl,
      nothing]
    exact List.nil_subset _
  · rw [show (start rt source false .fresh).memory.last = Rows.fresh.lastInput from rfl, nothing] at mem
    cases mem

end Histories

section Straight

/-- The steps of a run that is never interrupted. -/
def Action.Straight : Action → Prop
  | .work _ | .call .fine => True
  | _ => False

theorem straight_interrupts (actions : List Action) (straight : ∀ action ∈ actions, action.Straight)
    (run : Run) : Every rt source Interrupts run actions := by
  induction actions generalizing run with
  | nil => trivial
  | cons action rest ih =>
    obtain ⟨here, later⟩ := List.forall_mem_cons.mp straight
    refine ⟨?_, ih later _⟩
    cases action with
    | call outcome =>
      cases outcome with
      | fine => exact ⟨fun _ _ _ => nofun, fun _ _ _ _ => rfl⟩
      | raised _ _ => exact here.elim
    | work elapsed => trivial
    | cancel => trivial
    | raise => trivial
    | restart => trivial

/-- One run goes on to another without an interruption. -/
def Leads (rt : Runtime) (source : List (String × Record)) (run run' : Run) : Prop :=
  ∃ actions : List Action, (∀ action ∈ actions, action.Straight) ∧
    actions.foldl (step rt source) run = run'

theorem Leads.refl (run : Run) : Leads rt source run run := ⟨[], nofun, rfl⟩

theorem Leads.trans {run run' run'' : Run} (h : Leads rt source run run')
    (h' : Leads rt source run' run'') : Leads rt source run run'' := by
  obtain ⟨actions, straight, rfl⟩ := h
  obtain ⟨actions', straight', rfl⟩ := h'
  refine ⟨actions ++ actions', fun action mem => ?_, List.foldl_append⟩
  exact (List.mem_append.mp mem).elim (straight action) (straight' action)

theorem Leads.work (elapsed : Bool) (run : Run) :
    Leads rt source run (step rt source run (.work elapsed)) :=
  ⟨[.work elapsed], by simp [Action.Straight], rfl⟩

theorem Leads.call (run : Run) : Leads rt source run (stepCall rt .fine run) :=
  ⟨[.call .fine], by simp [Action.Straight], rfl⟩

/-- The rows of an execution that goes on. -/
structure Rows.Open (rows : Rows) : Prop where
  running : rows.state = .running
  building : rows.output.isOpen = true

theorem append_open (h : rows.Open) (outputs : List (String × Record)) :
    ∃ rows', rows.append outputs = some rows' ∧ rows'.Open := by
  rw [Rows.append, if_pos h.building]
  exact ⟨_, rfl, h.running, h.building⟩

theorem checkpointed_open (h : rows.Open) (m : Memory) (checkpoint : Checkpoint) :
    ∃ rows', rows.checkpointed m checkpoint = some rows' ∧ rows'.Open := by
  rw [Rows.checkpointed, if_pos h.running]
  exact ⟨_, rfl, h.running, h.building⟩

theorem committing_leads (h : run.rows.Open) {after : After} {retried : Bool}
    (stage : run.stage = .committing after retried) :
    ∃ run', Leads rt source run run' ∧ run'.stage = after.stage ∧ run'.rows.Open ∧
      run'.memory.rest = run.memory.rest := by
  obtain ⟨rows, done, opened⟩ := checkpointed_open h run.memory run.memory.checkpoint
  refine ⟨_, .call run, ?_⟩
  rw [stepCall.eq_def, stage]
  simp only [Call.perform.eq_def, done]
  exact ⟨rfl, opened, rfl⟩

theorem flush_leads (h : run.rows.Open) (after : After) :
    ∃ run', Leads rt source (run.flush after) run' ∧ run'.stage = after.stage ∧ run'.rows.Open ∧
      run'.memory.rest = run.memory.rest := by
  rw [Run.flush]
  split
  next => exact ⟨_, .refl _, rfl, h, rfl⟩
  next =>
    split
    next =>
      exact @committing_leads rt source ⟨run.rows, { run.memory with
        generation := run.memory.generation + 1 }, .committing after false⟩ h after false rfl
    next =>
      obtain ⟨rows, done, opened⟩ := append_open h run.memory.outputs
      have first : Leads rt source ⟨run.rows, run.memory, .appending after⟩
          ⟨rows, { run.memory with generation := run.memory.generation + 1 },
            .committing after false⟩ := by
        refine ⟨[.call .fine], by simp [Action.Straight], ?_⟩
        simp only [List.foldl_cons, List.foldl_nil, step, stepCall.eq_def, Call.perform.eq_def, done]
      obtain ⟨run', leads, there⟩ := @committing_leads rt source ⟨rows, { run.memory with
        generation := run.memory.generation + 1 }, .committing after false⟩ opened after false rfl
      exact ⟨run', first.trans leads, there⟩

theorem finalizing_leads (h : run.rows.Open) (stage : run.stage = .finalizing) :
    ∃ run', Leads rt source run run' ∧ run'.rows.state.Completed := by
  refine ⟨_, ((Leads.call run).trans (.call _)).trans (.call _), ?_⟩
  have finalized : stepCall rt .fine run =
      ⟨{ run.rows with schema := run.memory.schema, output := .ready, shown := true }, run.memory,
        .reading⟩ := by
    rw [stepCall.eq_def, stage]
    simp only [Call.perform.eq_def, Rows.finalized, if_pos h.building]
  rw [finalized]
  simp only [stepCall.eq_def, Call.perform.eq_def, Rows.finished]
  split
  next => exact .inr rfl
  next => exact .inl rfl

theorem records_lead (collisions : Function.Injective rt.sha256) (sorted : Ascending source)
    (separates : rt.Separates) (cap : (total rt source).2.1 ≤ rt.outputCap)
    (storable : ∀ record ∈ source, Storable rt record.2) (h : run.Resumable rt source)
    (opened : run.rows.Open) (stage : run.stage = .records) :
    ∃ run', Leads rt source run run' ∧ run'.rows.state.Completed := by
  have resumable : ∀ {run run'}, run.Resumable rt source → Leads rt source run run' →
      run'.Resumable rt source := by
    rintro run run' h ⟨actions, straight, rfl⟩
    exact foldl_resumable collisions sorted separates cap storable h actions
      (straight_interrupts actions straight run)
  induction remaining : run.memory.rest generalizing run with
  | nil =>
    have flushed : step rt source run (.work false) = run.flush .completion := by
      rw [step, if_pos stage, stepRecords, remaining]
    obtain ⟨run', leads, at_end, opened', -⟩ := @flush_leads rt source run opened .completion
    obtain ⟨done, leads', completed⟩ := @finalizing_leads rt source run' opened' at_end
    exact ⟨done, ((flushed ▸ Leads.work false run).trans leads).trans leads', completed⟩
  | cons first rest ih =>
    obtain ⟨identity, record⟩ := first
    have memory := h.memory
    rw [stage] at memory
    have mem : (identity, record) ∈ run.memory.rest := remaining ▸ List.mem_cons_self
    rw [memory.rest] at mem
    have fits := memory.fits sorted cap remaining (storable _ (mem_above.mp mem).1)
    cases result : takeRecord rt identity (rt.execute record) { run.memory with rest := rest } with
    | mk m complete =>
      have whole := (@takeRecord_complete_iff rt identity (rt.execute record)
        { run.memory with rest := rest }).mpr fits
      rw [result] at whole
      cases whole
      have kept : m.rest = rest := by
        obtain ⟨bytes, rfl⟩ := takeRecord_done result
        rfl
      -- One step takes the record, and a flush may follow.
      have next : ∃ run', Leads rt source run run' ∧ run'.stage = .records ∧ run'.rows.Open ∧
          run'.memory.rest = rest := by
        have taken : step rt source run (.work false) =
            if flushDue rt false m then { run with memory := m }.flush .loop
            else { run with memory := m } := by
          rw [step, if_pos stage, stepRecords, remaining]
          simp only [result]
        by_cases due : flushDue rt false m = true
        · rw [if_pos due] at taken
          obtain ⟨run', leads, there⟩ := @flush_leads rt source { run with memory := m } opened .loop
          exact ⟨run', (taken ▸ Leads.work false run).trans leads, there.1, there.2.1,
            there.2.2.trans kept⟩
        · rw [if_neg due] at taken
          exact ⟨{ run with memory := m }, taken ▸ Leads.work false run, stage, opened, kept⟩
      obtain ⟨run', leads, at_records, opened', rest'⟩ := next
      obtain ⟨done, leads', completed⟩ := ih (resumable h leads) opened' at_records rest'
      exact ⟨done, leads.trans leads', completed⟩

end Straight

section Results

/-- The result of a completed execution: its output records by their identities, the schema of
its output revision, and its counts. -/
structure Rows.SameResult (rows rows' : Rows) : Prop where
  records : rows.records.Perm rows'.records
  schema : rows.schema = rows'.schema
  processed : rows.processed = rows'.processed
  staged : rows.staged = rows'.staged
  errors : rows.errors = rows'.errors

theorem Rows.Stored.sameResult (sorted : Ascending source) (exact : rows.Exact rt source)
    (h : rows.Stored rt source) (exact' : rows'.Exact rt source) (h' : rows'.Stored rt source)
    (ready : rows.output = .ready) (ready' : rows'.output = .ready) : rows.SameResult rows' := by
  have members : ∀ {rows : Rows}, rows.Stored rt source → rows.output = .ready →
      ∀ x, x ∈ rows.records ↔ x ∈ outputsOf rt source := by
    intro rows stored ready x
    have kept := stored.kept
    rw [upTo_eq_self_of_above sorted (stored.ready ready).1] at kept
    exact ⟨(stored.known ·), (kept ·)⟩
  have counts : rows.tally = rows'.tally := by
    rw [exact.counts, exact'.counts, upTo_eq_self_of_above sorted (h.ready ready).1,
      upTo_eq_self_of_above sorted (h'.ready ready').1]
  refine ⟨?_, (h.ready ready).2.trans (h'.ready ready').2.symm, congrArg Prod.fst counts,
    congrArg (fun tally : Tally => tally.2.1) counts,
    congrArg (fun tally : Tally => tally.2.2.1) counts⟩
  refine (List.perm_ext_iff_of_nodup h.keys.of_map h'.keys.of_map).mpr fun x => ?_
  rw [members h ready, members h' ready']

theorem ready_of_completed (actions : List Action)
    (completed : (history rt source actions).rows.state.Completed) :
    (history rt source actions).rows.output = .ready := by
  have fresh : (start rt source false .fresh).Agreeing :=
    ⟨nofun, fun done => absurd done not_completed_running, nofun, nofun, fun _ => rfl⟩
  rcases agreeing_foldl rt source fresh actions with ⟨agreeing, -⟩ | ⟨overwritten, -⟩
  · exact agreeing.completed completed
  · exact overwritten.ready

section Unnamed

variable (rt source)

theorem start_above (resumed : Bool) (rows : Rows) :
    start rt (above source "") resumed rows = start rt source resumed rows := by
  have low : "" ≤ rows.lastInput := by
    by_cases empty : rows.lastInput = ""
    · exact empty.ge
    · exact (empty_lt empty).le
  have rest : above (above source "") rows.lastInput = above source rows.lastInput := above_above low
  rw [start, start]
  congr 2

theorem step_above : step rt (above source "") = step rt source := by
  funext run action
  cases action with
  | restart =>
    rw [step, step, restart, restart]
    split
    next => rfl
    next => exact start_above rt source _ _
  | call outcome => rfl
  | work elapsed => rfl
  | cancel => rfl
  | raise => rfl

theorem history_above (actions : List Action) :
    history rt (above source "") actions = history rt source actions := by
  rw [history, step_above, start_above]
  rfl

theorem every_above {condition : Run → Action → Prop} (run : Run) (actions : List Action)
    (h : Every rt source condition run actions) : Every rt (above source "") condition run actions := by
  induction actions generalizing run with
  | nil => trivial
  | cons action rest ih =>
    refine ⟨h.1, ?_⟩
    rw [step_above]
    exact ih _ h.2

end Unnamed

/-- However often an execution was interrupted and resumed, once it is completed there is an
uninterrupted run that completes too, and every one that does has the same result. -/
theorem resumed_sameResult (rt : Runtime) (source : List (String × Record))
    (sorted : Ascending source) (collisions : Function.Injective rt.sha256)
    (separates : rt.Separates) (cap : (total rt source).2.1 ≤ rt.outputCap) (actions : List Action)
    (interrupted : Every rt source Interrupts (start rt source false .fresh) actions)
    (completed : (history rt source actions).rows.state.Completed) :
    (∃ direct : List Action, (∀ action ∈ direct, action.Straight) ∧
      (history rt source direct).rows.state.Completed) ∧
    ∀ direct : List Action, (∀ action ∈ direct, action.Straight) →
      (history rt source direct).rows.state.Completed →
      (history rt source actions).rows.SameResult (history rt source direct).rows := by
  have named : ∀ record ∈ above source "", record.1 ≠ "" := fun record mem =>
    (mem_above.mp mem).2.ne'
  have sorted' := sorted.above ""
  have cap' : (total rt (above source "")).2.1 ≤ rt.outputCap := by
    rw [← upTo_append_above sorted "", total_append] at cap
    exact (Nat.le_add_left _ _).trans cap
  have interrupted := every_above rt source _ _ interrupted
  simp only [← history_above rt source, ← start_above rt source] at *
  have ready := ready_of_completed actions completed
  have storable : ∀ record ∈ above source "", Storable rt record.2 := by
    intro record mem
    by_contra unfit
    exact history_blocked sorted' named mem unfit actions ready
  have fresh := @start_resumable rt (above source "") named
  have resumed := foldl_resumable collisions sorted' separates cap' storable fresh actions interrupted
  refine ⟨?_, fun direct straight completed' => ?_⟩
  · obtain ⟨run, ⟨direct, straight, rfl⟩, completed'⟩ :=
      records_lead collisions sorted' separates cap' storable fresh ⟨rfl, rfl⟩ rfl
    exact ⟨direct, straight, completed'⟩
  · have resumed' := foldl_resumable collisions sorted' separates cap' storable fresh direct
      (straight_interrupts direct straight _)
    exact resumed.stored.sameResult sorted' resumed.exact resumed'.exact resumed'.stored ready
      (ready_of_completed direct completed')

/-- A durable commit that raised, a cancellation and a crash between two records change nothing. -/
theorem resumed_sameResult_passing :
    (history passing [("a", []), ("b", [])] [.work true, .call .fine,
      .call (.raised true .operational), .call .fine, .cancel, .call .fine, .call .fine, .restart,
      .work false, .restart, .work false, .work false, .call .fine, .call .fine, .call .fine,
      .call .fine, .call .fine]).rows.SameResult
    (history passing [("a", []), ("b", [])] [.work false, .work false, .work false, .call .fine,
      .call .fine, .call .fine, .call .fine, .call .fine]).rows := by
  have fine : ∀ run, Interrupts run (.call .fine) :=
    fun _ => ⟨fun _ _ _ => nofun, fun _ _ _ _ => rfl⟩
  refine (resumed_sameResult passing [("a", []), ("b", [])] (by decide)
    Function.injective_id (fun _ _ same => same) (by decide) [.work true, .call .fine,
      .call (.raised true .operational), .call .fine, .cancel, .call .fine, .call .fine, .restart,
      .work false, .restart, .work false, .work false, .call .fine, .call .fine, .call .fine,
      .call .fine, .call .fine] ⟨trivial, fine _, ⟨fun _ _ _ => nofun, ?_⟩, fine _, trivial,
      fine _, fine _, trivial, trivial, trivial, trivial, trivial, fine _, fine _, fine _, fine _,
      fine _, trivial⟩ (.inl (by decide))).2 [.work false, .work false, .work false,
      .call .fine, .call .fine, .call .fine, .call .fine, .call .fine] (by simp [Action.Straight])
      (.inl (by decide))
  exact fun _ _ _ stage => absurd stage nofun

end Results

end Arenyxa.Pipeline
