import Arenyxa.Lib.History
import Arenyxa.Runs.Retirement

/-! The orchestrator's shutdown: it closes the intake, cancels what is left, retries failed retirements, and
reports through `drain` when every accepted run has retired. -/

namespace Arenyxa.Runs.Shutdown

open History Indexed

/-- A `cancel_owned` thread: the retirements that it still retries, then the handles that it still
cancels. -/
inductive CancelStage
  | retrying (waits : Option (Nat × Nat)) (retries : List Nat)
  | cancelling (handles : List Nat)
  | finishing (failed : Bool)
  | returned

structure Canceller where
  handles : List Nat
  stage : CancelStage

structure Runner where
  jobs : List Job
  closed : Bool
  shutdownStarted : Bool
  shutdownCancelling : Bool
  shutdownFailed : Bool
  pendingSubmissions : Nat
  requestFutures : Nat
  cancellers : List Canceller

def Runner.start : Runner where
  jobs := []
  closed := false
  shutdownStarted := false
  shutdownCancelling := false
  shutdownFailed := false
  pendingSubmissions := 0
  requestFutures := 0
  cancellers := []

inductive Move
  | submit (memory : Run)
  | job (i : Nat) (move : JobMove)
  | admitRequest
  | forgetRequest
  | beginShutdown (spawned : Bool)
  | cancelOwned (c : Nat) (failed : Bool)

namespace Runner

def handles (s : Runner) : List Nat :=
  (List.range s.jobs.length).filter fun i => (s.jobs[i]?.map Job.handled) = some true

def failedRetirements (s : Runner) : List Nat :=
  (List.range s.jobs.length).filter fun i => (s.jobs[i]?.map Job.failedRetirement) = some true

def moveJob (s : Runner) (i : Nat) (move : JobMove) : Runner :=
  match s.jobs[i]? with
  | some job => { s with jobs := s.jobs.set i (job.step s.closed move) }
  | none => s

/-- A failed retirement makes the shutdown retryable. -/
def noteFailure (s : Runner) (failed : Bool) : Runner :=
  if failed then { s with shutdownStarted := false, shutdownFailed := true } else s

/-- A step of one run, with what it changes of the orchestrator. -/
def stepJob (s : Runner) (i : Nat) (move : JobMove) : Runner :=
  match s.jobs[i]? with
  | none => s
  | some job => match move with
    | .leave =>
      if job.submission = .leaving then
        { s.moveJob i .leave with pendingSubmissions := s.pendingSubmissions - 1 }
      else s
    | .settle r =>
      (s.moveJob i (.settle r)).noteFailure (job.retirements[r]? = some (.finishing false))
    | .retry => s
    | move => s.moveJob i move

def beginShutdown (s : Runner) (spawned : Bool) : Runner :=
  let s := { s with closed := true }
  if s.shutdownCancelling || (s.shutdownStarted && s.failedRetirements.isEmpty) then s
  else if s.handles.isEmpty || spawned then
    { s with
      shutdownStarted := true
      shutdownCancelling := true
      shutdownFailed := false
      cancellers := s.cancellers ++ [⟨s.handles, .retrying none s.failedRetirements⟩] }
  else { s with shutdownStarted := false, shutdownCancelling := false, shutdownFailed := true }

def setCanceller (s : Runner) (c : Nat) (canceller : Canceller) (stage : CancelStage) : Runner :=
  { s with cancellers := s.cancellers.set c { canceller with stage := stage } }

/-- A turn of `cancel_owned`; `failed` where the cleanup raises in it. -/
def cancelOwned (s : Runner) (c : Nat) (canceller : Canceller) (failed : Bool) : Runner :=
  match canceller.stage with
  | .retrying none [] => s.setCanceller c canceller (.cancelling canceller.handles)
  | .retrying none (i :: retries) =>
    let called := ((s.jobs[i]?.map Job.retirements).getD []).length
    (s.moveJob i .retry).setCanceller c canceller (.retrying (some (i, called)) retries)
  | .retrying (some (i, r)) retries =>
    if (s.jobs[i]?.bind fun job => job.retirements[r]?) = some .returned then
      s.setCanceller c canceller (.retrying none retries)
    else s
  | .cancelling [] => s.setCanceller c canceller (.finishing failed)
  | .cancelling (i :: rest) =>
    if failed then s.setCanceller c canceller (.finishing true)
    else (s.moveJob i .cancel).setCanceller c canceller (.cancelling rest)
  | .finishing failed =>
    let failed := failed || !s.failedRetirements.isEmpty
    { s.setCanceller c canceller .returned with
      shutdownStarted := !failed
      shutdownFailed := failed
      shutdownCancelling := false }
  | .returned => s

def step (s : Runner) : Move → Runner
  | .submit memory =>
    if s.closed then s
    else { s with jobs := s.jobs ++ [.submitted memory], pendingSubmissions := s.pendingSubmissions + 1 }
  | .job i move => s.stepJob i move
  | .admitRequest => if s.closed then s else { s with requestFutures := s.requestFutures + 1 }
  | .forgetRequest => { s with requestFutures := s.requestFutures - 1 }
  | .beginShutdown spawned => s.beginShutdown spawned
  | .cancelOwned c failed => match s.cancellers[c]? with
    | some canceller => s.cancelOwned c canceller failed
    | none => s

/-- `_drain`: what it returns in this state, `none` where it waits on. -/
def drain (s : Runner) (expired : Bool) : Option Bool :=
  if s.handles.isEmpty && s.requestFutures = 0 && s.pendingSubmissions = 0 && !s.shutdownCancelling then
    some (!s.shutdownFailed)
  else if !s.failedRetirements.isEmpty && !s.shutdownCancelling then some false
  else if expired then some false
  else none

def accepted (s : Runner) : List Nat :=
  (List.range s.jobs.length).filter fun i => (s.jobs[i]?.map Job.accepted) = some true

/-! ## What every step keeps -/

structure Sound (s : Runner) : Prop where
  jobs : ∀ job ∈ s.jobs, job.Sound
  pending : s.pendingSubmissions = s.jobs.countP (·.submission.pending)

section Steps

variable {s s' : Runner} {i c : Nat} {move : JobMove}

theorem mem_handles : i ∈ s.handles ↔ ∃ job, s.jobs[i]? = some job ∧ job.handled = true := by
  rw [handles, List.mem_filter, List.mem_range, decide_eq_true_eq, Option.map_eq_some_iff]
  exact ⟨And.right, fun here => ⟨here.elim fun _ found => lt_of_get found.1, here⟩⟩

theorem Sound.congr (h : s.Sound) (jobs : s'.jobs = s.jobs)
    (pending : s'.pendingSubmissions = s.pendingSubmissions) : s'.Sound :=
  ⟨jobs ▸ h.jobs, by rw [pending, jobs, h.pending]⟩

theorem Sound.moveJob (h : s.Sound) (i : Nat) (move : JobMove) (goesOn : move ≠ .leave) :
    (s.moveJob i move).Sound := by
  rw [Runner.moveJob]
  split
  next job found =>
    constructor
    · intro job' here
      rcases List.mem_or_eq_of_mem_set here with before | rfl
      · exact h.jobs job' before
      · exact (h.jobs job (List.mem_of_getElem? found)).step s.closed move
    · have counted := countP_set (·.submission.pending) (job.step s.closed move) found
      rw [Job.pending_step s.closed move goesOn] at counted
      exact h.pending.trans (Nat.add_right_cancel counted).symm
  next => exact h

theorem Sound.noteFailure (h : s.Sound) (failed : Bool) : (s.noteFailure failed).Sound := by
  rw [Runner.noteFailure]
  split
  next => exact h.congr rfl rfl
  next => exact h

theorem Sound.leave {job : Job} (h : s.Sound) (found : s.jobs[i]? = some job)
    (leaving : job.submission = .leaving) :
    ({ s.moveJob i .leave with pendingSubmissions := s.pendingSubmissions - 1 } : Runner).Sound := by
  have gone : (job.step s.closed .leave).submission = .left := by
    simp only [Job.step]
    rw [leaving]
  rw [Runner.moveJob, found]
  constructor
  · intro job' here
    rcases List.mem_or_eq_of_mem_set here with before | rfl
    · exact h.jobs job' before
    · exact (h.jobs job (List.mem_of_getElem? found)).step s.closed .leave
  · have counted := countP_set (·.submission.pending) (job.step s.closed .leave) found
    have under := h.pending
    have was : job.submission.pending = true := by rw [leaving]; rfl
    have is : (job.step s.closed .leave).submission.pending = false := by rw [gone]; rfl
    rw [was, is, ← under] at counted
    exact Nat.sub_eq_of_eq_add counted.symm

theorem Sound.stepJob (h : s.Sound) (i : Nat) (move : JobMove) : (s.stepJob i move).Sound := by
  rw [Runner.stepJob]
  split
  next => exact h
  next job found =>
    split
    next =>
      split
      next leaving => exact h.leave found leaving
      next => exact h
    next r => exact (h.moveJob i (.settle r) nofun).noteFailure _
    next => exact h
    next goesOn _ _ => exact h.moveJob i move goesOn

theorem Sound.beginShutdown (h : s.Sound) (spawned : Bool) : (s.beginShutdown spawned).Sound := by
  rw [Runner.beginShutdown]
  simp only
  split
  next => exact h.congr rfl rfl
  next => split <;> exact h.congr rfl rfl

theorem Sound.cancelOwned {canceller : Canceller} (h : s.Sound) (c : Nat) (failed : Bool) :
    (s.cancelOwned c canceller failed).Sound := by
  rw [Runner.cancelOwned]
  split
  next => exact h.congr rfl rfl
  next i retries _ => exact (h.moveJob i .retry nofun).congr rfl rfl
  next =>
    split
    next => exact h.congr rfl rfl
    next => exact h
  next => exact h.congr rfl rfl
  next i rest _ =>
    split
    next => exact h.congr rfl rfl
    next => exact (h.moveJob i .cancel nofun).congr rfl rfl
  next => exact h.congr rfl rfl
  next => exact h

theorem Sound.step (h : s.Sound) (move : Move) : (s.step move).Sound := by
  cases move with
  | submit memory =>
    simp only [Runner.step]
    split
    next => exact h
    next =>
      constructor
      · intro job here
        rcases List.mem_append.mp here with before | last
        · exact h.jobs job before
        · rw [List.mem_singleton.mp last]
          exact Job.sound_submitted memory
      · simp only [List.countP_append, h.pending]
        rfl
  | job i move => exact h.stepJob i move
  | admitRequest =>
    simp only [Runner.step]
    split
    next => exact h
    next => exact h.congr rfl rfl
  | forgetRequest => exact h.congr rfl rfl
  | beginShutdown spawned => exact h.beginShutdown spawned
  | cancelOwned c failed =>
    simp only [Runner.step]
    split
    next => exact h.cancelOwned c failed
    next => exact h

theorem sound_run (moves : List Move) : (run step start moves).Sound :=
  induct (P := fun _ _ => True) (I := fun _ (s : Runner) => s.Sound)
    ⟨fun _ here => absurd here List.not_mem_nil, rfl⟩ (fun _ move _ h => h.step move) moves
    fun _ _ _ _ => trivial

/-! ## A closed intake -/

/-- Nothing is admitted: the intake stays closed, and the accepted runs are those it had. -/
def Shut (s s' : Runner) : Prop :=
  s'.closed = true ∧ s'.jobs.map Job.accepted = s.jobs.map Job.accepted

theorem shut_moveJob (closed : s.closed = true) (i : Nat) (move : JobMove) : s.Shut (s.moveJob i move) := by
  rw [Runner.moveJob]
  split
  next job found =>
    refine ⟨closed, map_set found ?_⟩
    exact (Job.accepted_step s.closed move).resolve_right fun opened => by
      rw [closed] at opened
      cases opened.1
  next => exact ⟨closed, rfl⟩

theorem shut_noteFailure (closed : s.closed = true) (failed : Bool) : s.Shut (s.noteFailure failed) := by
  rw [Runner.noteFailure]
  split <;> exact ⟨closed, rfl⟩

theorem Shut.trans {s'' : Runner} (h : s.Shut s') (h' : s'.Shut s'') : s.Shut s'' := ⟨h'.1, h'.2.trans h.2⟩

theorem shut_step (closed : s.closed = true) (move : Move) : s.Shut (s.step move) := by
  cases move with
  | submit memory =>
    simp only [Runner.step]
    rw [if_pos closed]
    exact ⟨closed, rfl⟩
  | job i move =>
    simp only [Runner.step, Runner.stepJob]
    split
    next => exact ⟨closed, rfl⟩
    next job found =>
      split
      next =>
        split
        next => exact shut_moveJob closed _ _
        next => exact ⟨closed, rfl⟩
      next r =>
        have moved := shut_moveJob closed i (.settle r)
        exact moved.trans (shut_noteFailure moved.1 _)
      next => exact ⟨closed, rfl⟩
      next => exact shut_moveJob closed _ _
  | admitRequest =>
    simp only [Runner.step]
    rw [if_pos closed]
    exact ⟨closed, rfl⟩
  | forgetRequest => exact ⟨closed, rfl⟩
  | beginShutdown spawned =>
    simp only [Runner.step, Runner.beginShutdown]
    split
    next => exact ⟨rfl, rfl⟩
    next => split <;> exact ⟨rfl, rfl⟩
  | cancelOwned c failed =>
    simp only [Runner.step]
    split
    next canceller _ =>
      rw [Runner.cancelOwned]
      split
      next => exact ⟨closed, rfl⟩
      next => exact shut_moveJob closed _ _
      next => split <;> exact ⟨closed, rfl⟩
      next => exact ⟨closed, rfl⟩
      next =>
        split
        next => exact ⟨closed, rfl⟩
        next => exact shut_moveJob closed _ _
      next => exact ⟨closed, rfl⟩
      next => exact ⟨closed, rfl⟩
    next => exact ⟨closed, rfl⟩

theorem shut_run (closed : s.closed = true) (moves : List Move) : s.Shut (run Runner.step s moves) := by
  induction moves generalizing s with
  | nil => exact ⟨closed, rfl⟩
  | cons move moves ih =>
    have first := shut_step closed move
    exact first.trans (ih first.1)

/-! ## What a drain shows -/

structure Retires (s : Runner) : Prop where
  durable : ∀ job ∈ s.jobs, job.accepted = true → job.handled = false →
    0 < job.terminalSaves ∧ job.Durable
  once : ∀ job ∈ s.jobs, job.retired ≤ 1
  owned : ∀ job ∈ s.jobs, job.failedRetirement = true → job.handled = true
  drained : ∀ expired, s.closed = true → s.drain expired = some true →
    (∀ job ∈ s.jobs, job.handled = false ∧ job.failedRetirement = false ∧
      job.submission.pending = false ∧ (job.accepted = true → job.Durable)) ∧
    s.requestFutures = 0 ∧ s.pendingSubmissions = 0 ∧
    ∀ later, (run step s later).jobs.map Job.accepted = s.jobs.map Job.accepted

theorem Sound.durable (h : s.Sound) : ∀ job ∈ s.jobs, job.accepted = true → job.handled = false →
    0 < job.terminalSaves ∧ job.Durable := by
  intro job here accepted unhandled
  have sound := h.jobs job here
  have owned := sound.owned accepted
  rw [unhandled] at owned
  exact sound.released (by simp at owned; omega)

theorem Sound.retires (h : s.Sound) : s.Retires where
  durable := h.durable
  once job here := by
    have sound := h.jobs job here
    cases future : job.future with
    | none => exact (sound.unowned future).2 ▸ Nat.zero_le 1
    | some now =>
      have owned := sound.owned (by rw [future]; rfl)
      omega
  owned job here failed := ((h.jobs job here).failed failed).1
  drained expired closed drained := by
    rw [drain] at drained
    split at drained
    next empty =>
      simp only [Bool.and_eq_true, decide_eq_true_eq, List.isEmpty_iff] at empty
      obtain ⟨⟨⟨handles, requests⟩, pending⟩, -⟩ := empty
      have unhandled : ∀ job ∈ s.jobs, job.handled = false := by
        intro job here
        obtain ⟨i, inside, rfl⟩ := List.mem_iff_getElem.mp here
        by_contra handled
        have kept : i ∈ s.handles :=
          mem_handles.2 ⟨_, List.getElem?_eq_getElem inside, by simpa using handled⟩
        rw [handles] at kept
        cases kept
      refine ⟨fun job here => ⟨unhandled job here, ?_, ?_, fun accepted => ?_⟩, requests, pending,
        fun later => (shut_run closed later).2⟩
      · by_contra failed
        have handled := ((h.jobs job here).failed (by simpa using failed)).1
        rw [unhandled job here] at handled
        cases handled
      · have none_left := h.pending.symm.trans pending
        simpa using List.countP_eq_zero.mp none_left job here
      · exact (h.durable job here accepted (unhandled job here)).2
    next =>
      split at drained
      next => cases drained
      next => split at drained <;> cases drained

def untouched : Run := ⟨.queued, ⟨"queued", 0, 1, 0, 0, 0, 0, 0, none, none, none⟩⟩

end Steps

end Runner

end Arenyxa.Runs.Shutdown
