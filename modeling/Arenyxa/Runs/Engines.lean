import Arenyxa.Lib.History
import Arenyxa.Runs.Execution

/-! The thread engine and the asyncio engine, driven by the same choices. -/

namespace Arenyxa.Runs

open History

/-- What a run leaves in memory and in the store. -/
structure Result where
  status : RunStatus
  errorCode : Option String
  stage : String
  counters : Counters
  rows : List ResultRecord
  deriving DecidableEq

def Execution.result (e : Execution) : Result :=
  ⟨e.status, e.errorCode, e.stage, e.counters, e.rows⟩

/-- `RunExecutionMixin._execute`, and the last progress write. -/
def executeThread (s : Settings) (requests : List Item) (turns : List Turn) (last : StoreCall) :
    Execution :=
  finalizeThread (run (Execution.step s collectThread) (.started requests) turns) last

/-- `AsyncRunOrchestrator._execute_async`, and the last progress write. -/
def executeAsync (s : Settings) (requests : List Item) (turns : List Turn) (last : StoreCall) : Execution :=
  finalizeAsync (run (Execution.step s collectAsync) (.started requests) turns) last

/-- While the loop runs, no batch is full. -/
def Execution.Spare (s : Settings) (e : Execution) : Prop :=
  e.ending = .running → e.writeBatch.length < s.batchSize

section Steps

variable {s : Settings} {e : Execution}

theorem interrupt_ending (code : String) : (e.interrupt code).ending = .interrupted := by
  rw [Execution.interrupt]
  split <;> rfl

theorem complete_ending : e.complete.ending = .counted := by
  rw [Execution.complete]
  split
  next => rfl
  next => split <;> rfl

theorem Execution.spare_of_ended (h : e.ending ≠ .running) : e.Spare s :=
  fun running => absurd running h

theorem interrupt_spare (code : String) : (e.interrupt code).Spare s :=
  Execution.spare_of_ended (by simp [interrupt_ending])

theorem admitDeferred_batch (host : String) (rest : List String) (item : Item) (items : List Item) :
    (e.admitDeferred host rest item items).writeBatch = e.writeBatch := by
  rw [Execution.admitDeferred]
  split <;> rfl

theorem interrupt_batch (code : String) : (e.interrupt code).writeBatch = e.writeBatch := by
  rw [Execution.interrupt]
  split <;> rfl

theorem askDeferred_batch (answer : Answer) : (e.askDeferred answer).writeBatch = e.writeBatch := by
  rw [Execution.askDeferred]
  split
  next => rfl
  next host rest _ =>
    rw [Execution.askHost]
    split
    next => rfl
    next => rfl
    next item items _ =>
      cases answer with
      | gateFull => rfl
      | hostBusy => rfl
      | closed => exact interrupt_batch _
      | granted => exact admitDeferred_batch host rest item items

theorem defer_batch (item : Item) : (e.defer item).writeBatch = e.writeBatch := by
  rw [Execution.defer]
  split <;> rfl

theorem askPending_batch (answer : Answer) : (e.askPending answer).writeBatch = e.writeBatch := by
  rw [Execution.askPending]
  split
  next => rfl
  next item rest _ =>
    rw [Execution.askItem.eq_def]
    split
    next => exact defer_batch item
    next => rfl
    next => exact defer_batch item
    next => exact interrupt_batch _
    next => rfl

theorem flush_spare (spare : s.preview = true → e.writeBatch.length < s.batchSize) (w : StoreCall) :
    (e.flush s w).Spare s := by
  rw [Execution.flush, Execution.flushBatch.eq_def]
  cases preview : s.preview with
  | true => exact fun _ => spare preview
  | false =>
    cases empty : e.writeBatch.isEmpty with
    | true =>
      rw [List.isEmpty_iff] at empty
      exact fun _ => by simpa [empty] using s.positive
    | false =>
      cases w with
      | stored => exact fun _ => s.positive
      | locked => exact interrupt_spare _
      | failed => exact interrupt_spare _

theorem flushDue_spare (h : e.Spare s) (running : e.ending = .running) (w : StoreCall) :
    (e.flushDue s w).Spare s := by
  rw [Execution.flushDue]
  split
  next => exact h
  next => exact flush_spare (fun _ => h running) w

theorem record_ending (item : Item) (o : Outcome) : (e.record s item o).ending = e.ending := by
  unfold Execution.record
  rcases o with ⟨_ | r, retries, _ | code⟩
  · rfl
  · rfl
  · simp only
    repeat' split
    · rfl
    · rfl
    · rfl
  · rfl

theorem record_batch (item : Item) (o : Outcome) : (e.record s item o).writeBatch =
    if o.buffered s then e.writeBatch ++ o.record.toList else e.writeBatch := by
  unfold Execution.record Outcome.buffered
  rcases o with ⟨_ | r, retries, _ | code⟩
  · rfl
  · rfl
  · cases preview : s.preview with
    | true =>
      simp only [if_true]
      split <;> rfl
    | false => rfl
  · rfl

theorem collect_agree (h : e.Spare s) (running : e.ending = .running) (item : Item)
    (completion : Completion) (w : StoreCall) :
    collectThread e s item completion w = collectAsync e s item completion w := by
  rw [collectThread, collectAsync]
  cases completion.outcome with
  | none => rfl
  | some o =>
    cases buffered : o.buffered s with
    | true =>
      have shown : s.preview = false := by
        simp only [Outcome.buffered, Bool.and_eq_true, Bool.not_eq_true'] at buffered
        exact buffered.2
      simp only [buffered, shown, Bool.not_false]
    | false =>
      have same : ((e.take item).record s item o).writeBatch = e.writeBatch := by
        rw [record_batch, buffered]
        rfl
      have spare : ¬ s.batchSize ≤ ((e.take item).record s item o).writeBatch.length := by
        rw [same]
        exact Nat.not_le.mpr (h running)
      simp [buffered, spare]

theorem collectThread_spare (h : e.Spare s) (running : e.ending = .running) (item : Item)
    (completion : Completion) (w : StoreCall) : (collectThread e s item completion w).Spare s := by
  rw [collectThread]
  cases completion.outcome with
  | none => exact interrupt_spare _
  | some o =>
    simp only
    split
    next full =>
      have shown : s.preview = false := by
        simp only [Outcome.buffered, Bool.and_eq_true, Bool.not_eq_true'] at full
        exact full.1.2
      exact flush_spare (fun preview => by cases shown.symm.trans preview) w
    next spare =>
      intro _
      rw [record_batch] at spare ⊢
      cases buffered : o.buffered s with
      | true => simpa [buffered] using spare
      | false => exact h running

theorem close_spare (h : e.Spare s) (w : StoreCall) : (e.close s w).Spare s := by
  rw [Execution.close]
  split
  next =>
    split
    next => exact Execution.spare_of_ended (by simp [complete_ending])
    next =>
      split
      next => exact Execution.spare_of_ended (by simp [complete_ending])
      next => exact interrupt_spare _
  next => exact h

theorem step_spare (h : e.Spare s) (turn : Turn) : (e.step s collectThread turn).Spare s := by
  rw [Execution.step.eq_def]
  split
  next => exact h
  next active =>
    have running := not_not.mp active
    cases turn with
    | progress w =>
      cases w with
      | stored => exact h
      | locked => exact interrupt_spare _
      | failed => exact interrupt_spare _
    | cancel => exact interrupt_spare _
    | pressure => exact interrupt_spare _
    | askDeferred answer =>
      intro _
      show (e.askDeferred answer).writeBatch.length < _
      rw [askDeferred_batch]
      exact h running
    | askPending answer =>
      intro _
      show (e.askPending answer).writeBatch.length < _
      rw [askPending_batch]
      exact h running
    | collect item completion w =>
      show (if item ∈ e.inFlight then _ else e).Spare s
      split
      next => exact collectThread_spare h running item completion w
      next => exact h
    | flushDue w => exact flushDue_spare h running w
    | close w => exact close_spare h w

theorem step_agree (h : e.Spare s) (turn : Turn) :
    e.step s collectThread turn = e.step s collectAsync turn := by
  rw [Execution.step.eq_def, Execution.step.eq_def]
  split
  next => rfl
  next active =>
    cases turn with
    | collect item completion w =>
      show (if item ∈ e.inFlight then _ else e) = (if item ∈ e.inFlight then _ else e)
      rw [collect_agree h (not_not.mp active)]
    | _ => rfl

end Steps

theorem loops_agree (s : Settings) (requests : List Item) (turns : List Turn) :
    run (Execution.step s collectAsync) (.started requests) turns =
      run (Execution.step s collectThread) (.started requests) turns ∧
    (run (Execution.step s collectThread) (.started requests) turns).Spare s := by
  induction turns using List.reverseRecOn with
  | nil => exact ⟨rfl, fun _ => s.positive⟩
  | append_singleton turns turn ih =>
    rw [run_snoc, run_snoc, ih.1]
    exact ⟨(step_agree ih.2 turn).symm, step_spare ih.2 turn⟩

end Arenyxa.Runs
