import Arenyxa.Lib.History
import Arenyxa.Runs.Row

/-! Snapshots that arrive late: what they can do to the row of a run. -/

namespace Arenyxa.Runs

open History

/-- A write to the row. A snapshot may be from any earlier moment of the run. -/
inductive Write
  | save (snapshot : Run)
  | control (status : RunStatus)

def write (row : Option Run) : Write → Option Run
  | .save snapshot => saveRun row snapshot
  | .control status => (updateRunControlStatus row status).2

def Write.isSave : Write → Bool
  | .save _ => true
  | .control _ => false

/-- What one write may do to a row. -/
structure Monotone (row : Option Run) (action : Write) : Prop where
  final : ∀ r ∈ row, r.status.terminal → ∃ r' ∈ write row action, r'.status.terminal
  late : ∀ r ∈ row, r.status.terminal → ∀ snapshot, action = .save snapshot →
    snapshot.status.terminal = false → write row action = row
  started : ∀ r ∈ row, r.status.controlled → ∀ r' ∈ write row action, r'.status ≠ .queued
  steady : ∀ r ∈ row, r.status.controlled → action.isSave → ∀ r' ∈ write row action,
    r'.status.controlled → r'.status = r.status

/-- The snapshots alone never change running to paused or back. -/
def Steady (row : Option Run) (writes : List Write) : Prop :=
  ∀ before saves after, writes = before ++ (saves ++ after) → (∀ action ∈ saves, action.isSave) →
    ∀ r ∈ run write row before, r.status.controlled → ∀ r' ∈ run write row (before ++ saves),
      r'.status.controlled → r'.status = r.status

/-- The snapshot does not come too late: no queued one after the start, and after the end no active
one with other columns than the row has. -/
def InOrder (row : Option Run) : Write → Prop
  | .save snapshot => ∀ r ∈ row,
      (r.status.controlled → snapshot.status ≠ .queued) ∧
        (r.status.terminal → snapshot.status.terminal = false → snapshot.columns = r.columns)
  | .control _ => True

section Step

variable {row : Option Run} {r : Run} {action : Write} {snapshot : Run} {status : RunStatus}

theorem keptStatus_terminal (h : r.status.terminal) : (keptStatus r.status snapshot.status).terminal := by
  rw [keptStatus]
  split
  next => exact h
  next =>
    split
    next => exact h
    next active => simpa [h] using active

theorem keptStatus_late (h : r.status.terminal) (late : snapshot.status.terminal = false) :
    keptStatus r.status snapshot.status = r.status := by
  rw [keptStatus]
  split
  next => rfl
  next => rw [if_pos (by simp [h, late])]

theorem keptStatus_controlled (h : r.status.controlled) :
    keptStatus r.status snapshot.status =
      if snapshot.status.controlled then r.status else snapshot.status := by
  have active : r.status.terminal = false := by
    cases s : r.status <;> simp_all [RunStatus.controlled, RunStatus.terminal]
  simp [keptStatus, h, active]

theorem not_terminal_of_controlled (h : status.controlled) : status.terminal = false := by
  cases status <;> simp_all [RunStatus.controlled, RunStatus.terminal]

theorem controlFrom_some {allowed : List RunStatus} (h : controlFrom status = some allowed) :
    status.controlled ∧ ∀ old ∈ allowed, old.terminal = false := by
  cases status with
  | running =>
    cases h
    exact ⟨rfl, by decide⟩
  | paused =>
    cases h
    exact ⟨rfl, by decide⟩
  | _ => cases h

theorem updateRunControlStatus_cases (row : Option Run) (status : RunStatus) :
    (updateRunControlStatus row status).2 = row ∨
      ∃ r, row = some r ∧ r.status.terminal = false ∧ status.controlled ∧
        (updateRunControlStatus row status).2 = some { r with status := status } := by
  cases row with
  | none => exact .inl (by cases h : controlFrom status <;> simp [updateRunControlStatus, h])
  | some r =>
    cases h : controlFrom status with
    | none => exact .inl (by simp [updateRunControlStatus, h])
    | some allowed =>
      by_cases mem : r.status ∈ allowed
      · obtain ⟨target, active⟩ := controlFrom_some h
        exact .inr ⟨r, rfl, active _ mem, target, by simp [updateRunControlStatus, h, mem]⟩
      · exact .inl (by simp [updateRunControlStatus, h, mem])

theorem monotone_control (row : Option Run) (status : RunStatus) : Monotone row (.control status) := by
  have done := updateRunControlStatus_cases row status
  constructor
  · intro r mem terminal
    rcases done with same | ⟨r', rfl, active, -, -⟩
    · exact ⟨r, by rw [write, same]; exact mem, terminal⟩
    · cases mem
      rw [active] at terminal
      cases terminal
  · intro _ _ _ _ equal
    cases equal
  · intro r mem controlled r' mem'
    rcases done with same | ⟨r₀, rfl, -, target, same⟩
    · rw [write, same] at mem'
      cases mem.symm.trans mem'
      rintro queued
      rw [queued] at controlled
      cases controlled
    · rw [write, same] at mem'
      cases mem'
      rintro rfl
      cases target
  · intro _ _ _ save
    cases save

theorem monotone_save_iff : Monotone row (.save snapshot) ↔ InOrder row (.save snapshot) := by
  cases row with
  | none =>
    have absent (r : Run) : r ∉ (none : Option Run) := Option.not_mem_none r
    exact ⟨fun _ r mem => absurd mem (absent r), fun _ => ⟨fun r mem => absurd mem (absent r),
      fun r mem => absurd mem (absent r), fun r mem => absurd mem (absent r), fun r mem => absurd mem (absent r)⟩⟩
  | some r =>
    constructor
    · rintro h r' mem
      cases mem
      refine ⟨fun controlled queued => ?_, fun terminal active => ?_⟩
      · refine h.started r rfl controlled _ rfl ?_
        rw [keptStatus_controlled controlled, queued]
        rfl
      · have kept := h.late r rfl terminal snapshot rfl active
        have equal : (⟨keptStatus r.status snapshot.status, snapshot.columns⟩ : Run) = r :=
          Option.some.inj kept
        have columns := congrArg Run.columns equal
        exact columns
    · intro h
      obtain ⟨notQueued, sameColumns⟩ := h r rfl
      constructor
      · rintro _ mem terminal
        cases mem
        exact ⟨_, rfl, keptStatus_terminal terminal⟩
      · rintro _ mem terminal late equal active
        cases mem
        cases equal
        rw [write, saveRun, keptStatus_late terminal active, sameColumns terminal active]
      · rintro _ mem controlled r' mem'
        cases mem
        cases mem'
        rw [keptStatus_controlled controlled]
        split
        next =>
          rintro queued
          rw [queued] at controlled
          cases controlled
        next => exact notQueued controlled
      · rintro _ mem controlled _ r' mem' controlled'
        cases mem
        cases mem'
        rw [keptStatus_controlled controlled] at controlled' ⊢
        split at controlled'
        next other => rw [if_pos other]
        next other => exact absurd controlled' other

theorem monotone_iff : Monotone row action ↔ InOrder row action := by
  cases action with
  | save snapshot => exact monotone_save_iff
  | control status => exact ⟨fun _ => trivial, fun _ => monotone_control row status⟩

end Step

section Runs

variable {row : Option Run} {writes : List Write}

theorem kept_of_saves {saves : List Write} {status : RunStatus} (controlled : status.controlled)
    (all : ∀ action ∈ saves, action.isSave) :
    ∀ current : Run, (current.status = status ∨ current.status.terminal) →
      Each write InOrder (some current) saves →
      ∀ r ∈ run write (some current) saves, r.status = status ∨ r.status.terminal := by
  induction saves with
  | nil =>
    rintro current kept - r mem
    cases mem
    exact kept
  | cons action rest ih =>
    intro current kept ordered
    have rest' := ih fun a mem => all a (.tail _ mem)
    cases action with
    | control status => cases all _ (.head _)
    | save snapshot =>
      refine rest' ⟨keptStatus current.status snapshot.status, snapshot.columns⟩ ?_ ordered.2
      rcases kept with rfl | terminal
      · rw [keptStatus_controlled controlled]
        split
        next => exact .inl rfl
        next other =>
          have notQueued := (ordered.1 current rfl).1 controlled
          cases s : snapshot.status <;> simp_all [RunStatus.controlled, RunStatus.terminal]
      · exact .inr (keptStatus_terminal terminal)

theorem steady_of_inOrder (h : Each write InOrder row writes) : Steady row writes := by
  rintro before saves after rfl all r mem controlled r' mem' controlled'
  have ordered := (each_append.mp (each_append.mp h).2).1
  rw [run, List.foldl_append] at mem'
  rw [Option.mem_def.mp mem] at ordered
  rw [show List.foldl write row before = some r from mem] at mem'
  rcases kept_of_saves controlled all r (.inl rfl) ordered r' mem' with same | terminal
  · exact same
  · rw [not_terminal_of_controlled controlled'] at terminal
    cases terminal

/-- The row is monotone along a history of writes, exactly when no snapshot comes too late. -/
theorem row_monotone_iff (row : Option Run) (writes : List Write) :
    (Each write Monotone row writes ∧ Steady row writes) ↔ Each write InOrder row writes :=
  ⟨fun h => (each_iff fun _ _ => monotone_iff).mp h.1,
    fun h => ⟨(each_iff fun _ _ => monotone_iff).mpr h, steady_of_inOrder h⟩⟩

end Runs

def queuedRun : Run := ⟨.queued, ⟨"queued", 0, 3, 0, 0, 0, 0, 0, none, none, none⟩⟩

def halfRun : Run := ⟨.running, ⟨"fetch", 1, 3, 2, 1, 0, 1, 0, none, some "t1", none⟩⟩

def wholeRun : Run := ⟨.completed, ⟨"completed", 3, 3, 3, 3, 0, 3, 0, none, some "t1", some "t2"⟩⟩

/-- A snapshot of the run at half time arrives after its end, and a queued one after its start. -/
theorem late_snapshots_written :
    run write none [.save queuedRun, .save wholeRun, .save halfRun] =
        some ⟨.completed, halfRun.columns⟩ ∧
      run write none [.save queuedRun, .save halfRun, .save queuedRun] = some queuedRun ∧
      ¬ Each write Monotone none [.save queuedRun, .save wholeRun, .save halfRun] := by
  refine ⟨by decide, by decide, fun h => ?_⟩
  have kept := h.2.2.1.late wholeRun rfl rfl halfRun rfl rfl
  exact absurd kept (by decide)

end Arenyxa.Runs
