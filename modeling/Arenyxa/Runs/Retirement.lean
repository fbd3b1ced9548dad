import Arenyxa.Lib.Indexed
import Arenyxa.Runs.Snapshots

/-! The life of one submitted run: its submission, its future, and the retirement that writes its terminal
state before its handle goes. -/

namespace Arenyxa.Runs.Shutdown

open Indexed

/-- Where a `submit` is. -/
inductive Submission
  | checking | creating | registering | rejecting | attaching | leaving | left
  deriving DecidableEq

def Submission.pending : Submission → Bool
  | .left => false
  | _ => true

inductive FutureState
  | queued | running | done | cancelled
  deriving DecidableEq

def FutureState.ended : FutureState → Bool
  | .done => true
  | .cancelled => true
  | _ => false

/-- Where a call of `_on_run_done` is; the last but one carries whether its write succeeded. -/
inductive Retirement
  | entering | saving | finishing (retired : Bool) | returned
  deriving DecidableEq

/-- A call that has put the run into `_retiring_runs`. -/
def Retirement.active : Retirement → Bool
  | .saving => true
  | .finishing _ => true
  | _ => false

/-- How a `save_run` ends; one that raises may have been committed. -/
inductive Saved
  | done | failed (written : Bool)

def Saved.written : Saved → Bool
  | .done => true
  | .failed written => written

def Saved.succeeded : Saved → Bool
  | .done => true
  | .failed _ => false

/-- A submitted run with its row, its future, and where it stands in `_handles`, `_retiring_runs` and
`_failed_run_retirements`. -/
structure Job where
  memory : Run
  row : Option Run
  submission : Submission
  future : Option FutureState
  attached : Bool
  handled : Bool
  retiring : Bool
  failedRetirement : Bool
  retirements : List Retirement
  /-- How often `_on_run_done` has written the terminal state, and how often it has retired the run. -/
  terminalSaves : Nat
  retired : Nat

inductive JobMove
  | check (refused : Bool)
  | create (saved : Saved)
  | register (refused : Bool)
  | reject (saved : Saved)
  | attach
  | leave
  | start
  | change (memory : Run)
  | write (action : Write)
  | finish
  | cancel
  | retry
  | enter (r : Nat)
  | persist (r : Nat) (saved : Saved) (now : String)
  | settle (r : Nat)

namespace Job

def submitted (memory : Run) : Job where
  memory := memory
  row := none
  submission := .checking
  future := none
  attached := false
  handled := false
  retiring := false
  failedRetirement := false
  retirements := []
  terminalSaves := 0
  retired := 0

def saveRun (job : Job) (saved : Saved) : Job :=
  if saved.written then { job with row := Runs.saveRun job.row job.memory } else job

/-- A future that ends calls back what is attached to it. -/
def endFuture (job : Job) (future : FutureState) : Job :=
  { job with
    future := some future
    retirements := if job.attached then job.retirements ++ [.entering] else job.retirements }

/-- The state that `_on_run_done` writes. -/
def terminalState (job : Job) (now : String) : Run :=
  if job.memory.status.terminal then job.memory
  else if job.future = some .cancelled then
    ⟨.cancelled, { job.memory.columns with
      stage := "cancelled"
      errorCode := none
      finishedAt := some now }⟩
  else
    ⟨.failed, { job.memory.columns with
      stage := "failed"
      errorCode := some "RUN_UNEXPECTED"
      finishedAt := some now }⟩

def setRetirement (job : Job) (r : Nat) (retirement : Retirement) : Job :=
  { job with retirements := job.retirements.set r retirement }

def enter (job : Job) (r : Nat) : Job :=
  if !job.handled || job.retiring then job.setRetirement r .returned
  else { job.setRetirement r .saving with retiring := true, failedRetirement := false }

def persist (job : Job) (r : Nat) (saved : Saved) (now : String) : Job :=
  let job := { job with memory := job.terminalState now }
  { (job.saveRun saved).setRetirement r (.finishing saved.succeeded) with
    terminalSaves := if saved.succeeded then job.terminalSaves + 1 else job.terminalSaves }

def settle (job : Job) (r : Nat) (retired : Bool) : Job :=
  if retired then
    { job.setRetirement r .returned with retiring := false, handled := false, retired := job.retired + 1 }
  else { job.setRetirement r .returned with retiring := false, failedRetirement := true }

/-- A step of one run; `closed` is what the orchestrator's lock shows it. -/
def step (closed : Bool) (job : Job) : JobMove → Job
  | .check refused => match job.submission with
    | .checking => { job with submission := if refused || closed then .leaving else .creating }
    | _ => job
  | .create saved => match job.submission with
    | .creating =>
      { job.saveRun saved with submission := if saved.succeeded then .registering else .leaving }
    | _ => job
  | .register refused => match job.submission with
    | .registering =>
      if closed || refused then
        { job with submission := .rejecting, memory := { job.memory with status := .failed } }
      else { job with submission := .attaching, future := some .queued, handled := true }
    | _ => job
  | .reject saved => match job.submission with
    | .rejecting => { job.saveRun saved with submission := .leaving }
    | _ => job
  | .attach => match job.submission, job.future with
    | .attaching, some future =>
      { job with
        submission := .leaving
        attached := true
        retirements := if future.ended then job.retirements ++ [.entering] else job.retirements }
    | _, _ => job
  | .leave => match job.submission with
    | .leaving => { job with submission := .left }
    | _ => job
  | .start => match job.future with
    | some .queued => { job with future := some .running }
    | _ => job
  | .change memory => match job.future with
    | some .queued => { job with memory := memory }
    | some .running => { job with memory := memory }
    | _ => job
  | .write action => match job.future with
    | some _ => { job with row := write job.row action }
    | none => job
  | .finish => match job.future with
    | some .running => job.endFuture .done
    | _ => job
  | .cancel => match job.future with
    | some .queued => job.endFuture .cancelled
    | _ => job
  | .retry => { job with retirements := job.retirements ++ [.entering] }
  | .enter r => match job.retirements[r]? with
    | some .entering => job.enter r
    | _ => job
  | .persist r saved now => match job.retirements[r]? with
    | some .saving => job.persist r saved now
    | _ => job
  | .settle r => match job.retirements[r]? with
    | some (.finishing retired) => job.settle r retired
    | _ => job

def accepted (job : Job) : Bool := job.future.isSome

/-- The row of the run is terminal. -/
def Durable (job : Job) : Prop := ∃ row, job.row = some row ∧ row.status.terminal

structure Sound (job : Job) : Prop where
  active : job.retirements.countP Retirement.active = job.retiring.toNat
  retiring : job.retiring → job.handled
  failed : job.failedRetirement → job.handled ∧ job.retiring = false
  owned : job.future.isSome → job.retired + job.handled.toNat = 1
  unowned : job.future = none → job.handled = false ∧ job.retired = 0
  early : job.submission = .checking ∨ job.submission = .creating ∨ job.submission = .registering →
    job.future = none
  saved : .finishing true ∈ job.retirements → 0 < job.terminalSaves ∧ job.Durable
  released : 0 < job.retired → 0 < job.terminalSaves ∧ job.Durable

section Steps

variable {job job' : Job} {r : Nat} {saved : Saved}

theorem saveRun_terminal {row : Option Run} {snapshot : Run} (terminal : snapshot.status.terminal) :
    ∃ r, Runs.saveRun row snapshot = some r ∧ r.status.terminal := by
  cases row with
  | none => exact ⟨snapshot, rfl, terminal⟩
  | some row =>
    refine ⟨_, rfl, ?_⟩
    simp only [keptStatus]
    split
    next both =>
      rw [Bool.and_eq_true] at both
      rw [not_terminal_of_controlled both.2] at terminal
      cases terminal
    next =>
      split
      next late => simp [terminal] at late
      next => exact terminal

theorem write_terminal {row : Run} (terminal : row.status.terminal) (action : Write) :
    ∃ r, write (some row) action = some r ∧ r.status.terminal := by
  cases action with
  | save snapshot => exact ⟨_, rfl, keptStatus_terminal terminal⟩
  | control status =>
    rcases updateRunControlStatus_cases (some row) status with same | ⟨_, here, active, -⟩
    · exact ⟨row, same, terminal⟩
    · cases here
      rw [active] at terminal
      cases terminal

theorem terminal_terminalState (now : String) : (job.terminalState now).status.terminal := by
  rw [terminalState]
  split
  next terminal => exact terminal
  next => split <;> rfl

theorem Durable.saveRun (h : job.Durable) (saved : Saved) : (job.saveRun saved).Durable := by
  rw [Job.saveRun]
  split
  next =>
    obtain ⟨row, here, terminal⟩ := h
    obtain ⟨row', here', terminal'⟩ := write_terminal terminal (.save job.memory)
    exact ⟨row', by rw [here]; exact here', terminal'⟩
  next => exact h

theorem Durable.write (h : job.Durable) (action : Write) :
    ({ job with row := Runs.write job.row action } : Job).Durable := by
  obtain ⟨row, here, terminal⟩ := h
  obtain ⟨row', here', terminal'⟩ := write_terminal terminal action
  exact ⟨row', by rw [here]; exact here', terminal'⟩

theorem Sound.still (h : job.Sound) (retirements : job'.retirements = job.retirements ∨
      job'.retirements = job.retirements ++ [.entering])
    (retiring : job'.retiring = job.retiring) (handled : job'.handled = job.handled)
    (failed : job'.failedRetirement = job.failedRetirement) (retired : job'.retired = job.retired)
    (saves : job'.terminalSaves = job.terminalSaves) (future : job'.future.isSome = job.future.isSome)
    (early : job'.submission = .checking ∨ job'.submission = .creating ∨ job'.submission = .registering →
      job.submission = .checking ∨ job.submission = .creating ∨ job.submission = .registering)
    (durable : job.Durable → job'.Durable) : job'.Sound where
  active := by
    rw [retiring, ← h.active]
    rcases retirements with same | called
    · rw [same]
    · rw [called, List.countP_append]
      rfl
  retiring now := handled ▸ h.retiring (retiring ▸ now)
  failed now := by
    rw [handled, retiring]
    exact h.failed (failed ▸ now)
  owned now := by
    rw [retired, handled]
    exact h.owned (future ▸ now)
  unowned now := by
    rw [retired, handled]
    exact h.unowned (by simpa [now] using future.symm)
  early now := by simpa [h.early (early now)] using future
  saved now := by
    rw [saves]
    refine (h.saved ?_).imp_right durable
    rcases retirements with same | called
    · exact same ▸ now
    · rw [called] at now
      simpa using now
  released now := by
    rw [saves]
    exact (h.released (retired ▸ now)).imp_right durable

theorem Sound.endFuture (h : job.Sound) {now : FutureState} (future : job.future.isSome) :
    (job.endFuture now).Sound := by
  refine h.still ?_ rfl rfl rfl rfl rfl future.symm id id
  simp only [Job.endFuture]
  split
  next => exact .inr rfl
  next => exact .inl rfl

/-- What a write of the row, and every step of a retirement, leaves alone. -/
def Kept (job job' : Job) : Prop := job'.future = job.future ∧ job'.submission = job.submission

theorem kept_saveRun : job.Kept (job.saveRun saved) := by
  rw [Job.saveRun]
  split <;> exact ⟨rfl, rfl⟩

theorem kept_enter : job.Kept (job.enter r) := by
  rw [Job.enter]
  split <;> exact ⟨rfl, rfl⟩

theorem kept_persist (now : String) : job.Kept (job.persist r saved now) :=
  show Kept { job with memory := job.terminalState now } _ from kept_saveRun

theorem kept_settle (retired : Bool) : job.Kept (job.settle r retired) := by
  rw [Job.settle]
  split <;> exact ⟨rfl, rfl⟩

theorem Sound.saveRun (h : job.Sound) (saved : Saved) : (job.saveRun saved).Sound := by
  have durable : job.Durable → (job.saveRun saved).Durable := fun h => h.saveRun saved
  rw [Job.saveRun] at durable ⊢
  split
  next written =>
    rw [if_pos written] at durable
    exact h.still (.inl rfl) rfl rfl rfl rfl rfl rfl id durable
  next => exact h

theorem Sound.enter (h : job.Sound) (called : job.retirements[r]? = some .entering) : (job.enter r).Sound := by
  have mem : ∀ {now}, .finishing true ∈ job.retirements.set r now → now = .finishing true ∨
      .finishing true ∈ job.retirements :=
    fun here => (List.mem_or_eq_of_mem_set here).symm.imp_left Eq.symm
  have counted : ∀ now : Retirement, (job.retirements.set r now).countP Retirement.active =
      job.retirements.countP Retirement.active + now.active.toNat :=
    fun now => countP_set Retirement.active now called
  rw [Job.enter]
  split
  next =>
    refine ⟨(counted _).trans h.active, h.retiring, h.failed, h.owned, h.unowned, h.early, fun here => ?_,
      h.released⟩
    rcases mem here with same | before
    · cases same
    · exact h.saved before
  next free =>
    rw [Bool.or_eq_true, not_or] at free
    have idle : job.retiring = false := Bool.eq_false_iff.mpr free.2
    have handled : job.handled := by simpa using free.1
    refine ⟨?_, fun _ => handled, nofun, h.owned, h.unowned, h.early, fun here => ?_, h.released⟩
    · refine (counted _).trans ?_
      rw [h.active, idle]
      rfl
    · rcases mem here with same | before
      · cases same
      · exact h.saved before

theorem Sound.persist (h : job.Sound) (saving : job.retirements[r]? = some .saving) (saved : Saved)
    (now : String) : (job.persist r saved now).Sound := by
  have counted : (job.retirements.set r (.finishing saved.succeeded)).countP Retirement.active =
      job.retirements.countP Retirement.active := by
    have := countP_set Retirement.active (.finishing saved.succeeded) saving
    simpa [Retirement.active] using this
  have mem : .finishing true ∈ job.retirements.set r (.finishing saved.succeeded) →
      saved.succeeded = true ∨ .finishing true ∈ job.retirements :=
    fun here => (List.mem_or_eq_of_mem_set here).symm.imp_left fun same => by
      injection same with same
      exact same.symm
  simp only [Job.persist]
  cases saved with
  | done =>
    have durable : ({ job with memory := job.terminalState now }.saveRun .done : Job).Durable :=
      saveRun_terminal (terminal_terminalState now)
    exact ⟨counted.trans h.active, h.retiring, h.failed, h.owned, h.unowned, h.early,
      fun _ => ⟨Nat.succ_pos _, durable⟩, fun _ => ⟨Nat.succ_pos _, durable⟩⟩
  | failed written =>
    have still : ∀ {n : Nat}, 0 < n ∧ job.Durable →
        0 < n ∧ ({ job with memory := job.terminalState now }.saveRun (.failed written) : Job).Durable :=
      And.imp_right fun durable =>
        Durable.saveRun (show Durable { job with memory := job.terminalState now } from durable) _
    have before : .finishing true ∈ job.retirements.set r (.finishing false) →
        .finishing true ∈ job.retirements :=
      fun here => (mem here).resolve_left Bool.false_ne_true
    cases written with
    | false =>
      exact ⟨counted.trans h.active, h.retiring, h.failed, h.owned, h.unowned, h.early,
        fun here => still (h.saved (before here)), fun here => still (h.released here)⟩
    | true =>
      exact ⟨counted.trans h.active, h.retiring, h.failed, h.owned, h.unowned, h.early,
        fun here => still (h.saved (before here)), fun here => still (h.released here)⟩

theorem Sound.settle (h : job.Sound) {retired : Bool}
    (finishing : job.retirements[r]? = some (.finishing retired)) :
    (job.settle r retired).Sound := by
  have mem : .finishing true ∈ job.retirements.set r .returned → .finishing true ∈ job.retirements :=
    fun here => (List.mem_or_eq_of_mem_set here).resolve_right (by simp)
  have counted := countP_set Retirement.active .returned finishing
  have busy : job.retiring = true := by
    have some_active : 0 < job.retirements.countP Retirement.active :=
      List.countP_pos_iff.mpr ⟨_, List.mem_of_getElem? finishing, rfl⟩
    rw [h.active] at some_active
    cases retiring : job.retiring with
    | true => rfl
    | false =>
      rw [retiring] at some_active
      cases some_active
  have none_left : (job.retirements.set r .returned).countP Retirement.active = 0 := by
    rw [h.active, busy] at counted
    simpa [Retirement.active] using counted
  have handled := h.retiring busy
  have accepted : job.future.isSome := by
    cases future : job.future with
    | some => rfl
    | none =>
      rw [(h.unowned future).1] at handled
      cases handled
  have owned := h.owned accepted
  rw [handled] at owned
  rw [Job.settle]
  split
  next done =>
    subst done
    have durable := h.saved (List.mem_of_getElem? finishing)
    refine ⟨none_left, nofun, fun now => ?_, fun _ => ?_, fun now => ?_, h.early,
      fun _ => durable, fun _ => durable⟩
    · rw [(h.failed now).2] at busy
      cases busy
    · simpa using owned
    · rw [show job.future = none from now] at accepted
      cases accepted
  next =>
    exact ⟨none_left, nofun, fun _ => ⟨handled, rfl⟩, h.owned, h.unowned, h.early, fun here => h.saved (mem here),
      h.released⟩

theorem Sound.step (h : job.Sound) (closed : Bool) (move : JobMove) : (job.step closed move).Sound := by
  cases move with
  | check refused =>
    simp only [Job.step]
    split
    next checking =>
      exact h.still (.inl rfl) rfl rfl rfl rfl rfl rfl (fun _ => .inl checking) id
    next => exact h
  | create saved =>
    simp only [Job.step]
    split
    next creating =>
      exact (h.saveRun saved).still (.inl rfl) rfl rfl rfl rfl rfl rfl
        (fun _ => .inr (.inl (kept_saveRun.2.trans creating))) id
    next => exact h
  | register refused =>
    simp only [Job.step]
    split
    next registering =>
      have fresh := h.early (.inr (.inr registering))
      split
      next => exact h.still (.inl rfl) rfl rfl rfl rfl rfl rfl (by simp) id
      next =>
        obtain ⟨unhandled, unretired⟩ := h.unowned fresh
        have idle : job.retiring = false := by
          by_contra busy
          have := h.retiring (Bool.not_eq_false _ ▸ busy)
          rw [unhandled] at this
          cases this
        refine ⟨h.active, fun _ => rfl, fun _ => ⟨rfl, idle⟩, fun _ => ?_, nofun, by simp, h.saved, h.released⟩
        rw [unretired]
        rfl
    next => exact h
  | reject saved =>
    simp only [Job.step]
    split
    next rejecting =>
      exact (h.saveRun saved).still (.inl rfl) rfl rfl rfl rfl rfl rfl (by simp) id
    next => exact h
  | attach =>
    simp only [Job.step]
    split
    next future attaching accepted =>
      refine h.still ?_ rfl rfl rfl rfl rfl rfl (by simp) id
      split
      next => exact .inr rfl
      next => exact .inl rfl
    next => exact h
  | leave =>
    simp only [Job.step]
    split
    next => exact h.still (.inl rfl) rfl rfl rfl rfl rfl rfl (by simp) id
    next => exact h
  | start =>
    simp only [Job.step]
    split
    next queued => exact h.still (.inl rfl) rfl rfl rfl rfl rfl (by rw [queued]; rfl) id id
    next => exact h
  | change memory =>
    simp only [Job.step]
    split
    next => exact h.still (.inl rfl) rfl rfl rfl rfl rfl rfl id id
    next => exact h.still (.inl rfl) rfl rfl rfl rfl rfl rfl id id
    next => exact h
  | write action =>
    simp only [Job.step]
    split
    next => exact h.still (.inl rfl) rfl rfl rfl rfl rfl rfl id fun durable => durable.write action
    next => exact h
  | finish =>
    simp only [Job.step]
    split
    next running => exact h.endFuture (by rw [running]; rfl)
    next => exact h
  | cancel =>
    simp only [Job.step]
    split
    next queued => exact h.endFuture (by rw [queued]; rfl)
    next => exact h
  | retry => exact h.still (.inr rfl) rfl rfl rfl rfl rfl rfl id id
  | enter r =>
    simp only [Job.step]
    split
    next called => exact h.enter called
    next => exact h
  | persist r saved now =>
    simp only [Job.step]
    split
    next saving => exact h.persist saving saved now
    next => exact h
  | settle r =>
    simp only [Job.step]
    split
    next finishing => exact h.settle finishing
    next => exact h

theorem sound_submitted (memory : Run) : (Job.submitted memory).Sound :=
  ⟨rfl, nofun, nofun, nofun, fun _ => ⟨rfl, rfl⟩, fun _ => rfl, fun here => absurd here List.not_mem_nil,
    nofun⟩

theorem Kept.accepted (h : job.Kept job') : job'.accepted = job.accepted := congrArg Option.isSome h.1

theorem accepted_step (closed : Bool) (move : JobMove) : (job.step closed move).accepted = job.accepted ∨
    closed = false ∧ (job.step closed move).accepted = true := by
  cases move with
  | check refused =>
    simp only [Job.step]
    split <;> exact .inl rfl
  | create saved =>
    simp only [Job.step]
    split
    next => exact .inl kept_saveRun.accepted
    next => exact .inl rfl
  | register refused =>
    simp only [Job.step]
    split
    next =>
      split
      next => exact .inl rfl
      next taken =>
        rw [Bool.or_eq_true, not_or] at taken
        exact .inr ⟨Bool.eq_false_iff.mpr taken.1, rfl⟩
    next => exact .inl rfl
  | reject saved =>
    simp only [Job.step]
    split
    next => exact .inl kept_saveRun.accepted
    next => exact .inl rfl
  | attach =>
    simp only [Job.step]
    split <;> exact .inl rfl
  | leave =>
    simp only [Job.step]
    split <;> exact .inl rfl
  | start =>
    simp only [Job.step]
    split
    next queued => exact .inl (by rw [Job.accepted, Job.accepted, queued]; rfl)
    next => exact .inl rfl
  | change memory =>
    simp only [Job.step]
    split <;> exact .inl rfl
  | write action =>
    simp only [Job.step]
    split <;> exact .inl rfl
  | finish =>
    simp only [Job.step]
    split
    next running => exact .inl (by rw [Job.accepted, Job.accepted, running]; rfl)
    next => exact .inl rfl
  | cancel =>
    simp only [Job.step]
    split
    next queued => exact .inl (by rw [Job.accepted, Job.accepted, queued]; rfl)
    next => exact .inl rfl
  | retry => exact .inl rfl
  | enter r =>
    simp only [Job.step]
    split
    next => exact .inl kept_enter.accepted
    next => exact .inl rfl
  | persist r saved now =>
    simp only [Job.step]
    split
    next => exact .inl (kept_persist now).accepted
    next => exact .inl rfl
  | settle r =>
    simp only [Job.step]
    split
    next => exact .inl (kept_settle _).accepted
    next => exact .inl rfl

theorem pending_step (closed : Bool) (move : JobMove) (goesOn : move ≠ .leave) :
    (job.step closed move).submission.pending = job.submission.pending := by
  cases move with
  | check refused =>
    simp only [Job.step]
    split
    next checking =>
      rw [checking]
      split <;> rfl
    next => rfl
  | create saved =>
    simp only [Job.step]
    split
    next creating =>
      rw [creating]
      split <;> rfl
    next => rfl
  | register refused =>
    simp only [Job.step]
    split
    next registering =>
      rw [registering]
      split <;> rfl
    next => rfl
  | reject saved =>
    simp only [Job.step]
    split
    next rejecting => rw [rejecting]; rfl
    next => rfl
  | attach =>
    simp only [Job.step]
    split
    next attaching _ => rw [attaching]; rfl
    next => rfl
  | leave => exact absurd rfl goesOn
  | start =>
    simp only [Job.step]
    split <;> rfl
  | change memory =>
    simp only [Job.step]
    split <;> rfl
  | write action =>
    simp only [Job.step]
    split <;> rfl
  | finish =>
    simp only [Job.step]
    split <;> rfl
  | cancel =>
    simp only [Job.step]
    split <;> rfl
  | retry => rfl
  | enter r =>
    simp only [Job.step]
    split
    next => rw [kept_enter.2]
    next => rfl
  | persist r saved now =>
    simp only [Job.step]
    split
    next => rw [(kept_persist now).2]
    next => rfl
  | settle r =>
    simp only [Job.step]
    split
    next => rw [(kept_settle _).2]
    next => rfl

end Steps

end Job

end Arenyxa.Runs.Shutdown
