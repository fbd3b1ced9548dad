import Arenyxa.Lib.History
import Arenyxa.Runs.Row

/-! Pause and resume: the handle of a run, its token, and the durable status. -/

namespace Arenyxa.Runs

open History

/-- Where the control call is that holds `control_io_lock`. -/
inductive ControlCall
  | idle | pausing | resuming | pauseFailed | resumeFailed
  deriving DecidableEq

structure Control where
  status : RunStatus
  tokenPaused : Bool
  tokenCancelled : Bool
  futureDone : Bool
  started : Bool
  call : ControlCall
  /-- The status of the snapshot that a progress write has read and not yet delivered. -/
  snapshot : Option RunStatus
  /-- The status of the row. -/
  durable : RunStatus
  /-- A progress write of the started run has reached the row. -/
  announced : Bool
  deriving DecidableEq

def Control.submitted : Control :=
  ⟨.queued, false, false, false, false, .idle, none, .queued, false⟩

inductive ControlStep
  | pause
  | resume
  /-- The control write, which commits or fails without having committed. -/
  | persist (committed : Bool)
  | rollBack
  | cancel
  | start
  | readSnapshot
  | deliver
  | finish (status : RunStatus)

/-- The guard of `_pause_control_transaction` and `_resume_control_transaction`. -/
def Control.over (c : Control) : Bool := c.futureDone || c.tokenCancelled || c.status.terminal

def Control.pause (c : Control) : Control :=
  if c.over then c
  else { c with tokenPaused := true, status := .paused, call := .pausing }

def Control.resume (c : Control) : Control :=
  if c.over then c
  else if c.status = .paused then
    { c with tokenPaused := false, status := .running, call := .resuming }
  else { c with tokenPaused := false }

/-- `_persist_status` by way of `update_run_control_status`. -/
def Control.persist (c : Control) (status : RunStatus) (failed : ControlCall) (committed : Bool) :
    Control :=
  if committed && ((controlFrom status).getD []).contains c.durable then
    { c with durable := status, call := .idle }
  else { c with call := failed }

/-- A failed control write undoes the change in memory, where it still stands. -/
def Control.undoPause (c : Control) : Control :=
  if !c.futureDone && !c.tokenCancelled && c.status = .paused then
    { c with tokenPaused := false, status := .running, call := .idle }
  else { c with call := .idle }

def Control.undoResume (c : Control) : Control :=
  if !c.futureDone && !c.tokenCancelled && c.status = .running then
    { c with tokenPaused := true, status := .paused, call := .idle }
  else { c with call := .idle }

/-- A future that has not started is cancelled with the token. -/
def Control.cancel (c : Control) : Control :=
  if c.futureDone || c.status.terminal then c
  else if c.started then { c with tokenCancelled := true }
  else { c with tokenCancelled := true, futureDone := true, status := .cancelled }

/-- `CancellationToken.paused` is false once the token is cancelled. -/
def Control.paused (c : Control) : Bool := c.tokenPaused && !c.tokenCancelled

/-- The first statement of `_execute`. -/
def Control.start (c : Control) : Control :=
  if c.started || c.futureDone then c
  else { c with started := true, status := if c.paused then .paused else .running }

def Control.deliver (c : Control) : Control :=
  match c.snapshot with
  | none => c
  | some status => { c with
      snapshot := none
      announced := true
      durable := keptStatus c.durable status }

def Control.step (c : Control) : ControlStep → Control
  | .pause => if c.call = .idle then c.pause else c
  | .resume => if c.call = .idle then c.resume else c
  | .persist committed => match c.call with
    | .pausing => c.persist .paused .pauseFailed committed
    | .resuming => c.persist .running .resumeFailed committed
    | _ => c
  | .rollBack => match c.call with
    | .pauseFailed => c.undoPause
    | .resumeFailed => c.undoResume
    | _ => c
  | .cancel => c.cancel
  | .start => c.start
  | .readSnapshot =>
    if c.started && c.snapshot.isNone then { c with snapshot := some c.status } else c
  | .deliver => c.deliver
  | .finish status =>
    if c.started && !c.status.terminal && status.terminal then { c with status := status } else c

/-- Where no control call is in progress, the status in memory, the token and the row agree. The row
of a run that has started is still queued until its first progress write. -/
def Control.Agrees (c : Control) : Prop :=
  c.call = .idle → c.announced → c.tokenCancelled = false → c.status.terminal = false →
    (c.status = .paused ↔ c.tokenPaused) ∧ c.durable = c.status

/-- The condition on a step: a control write to paused fails only where the row is not paused, and
a snapshot that reaches a queued row carries the status of the run, which is not being rolled
back. -/
def Control.Ordered (c : Control) : ControlStep → Prop
  | .persist committed => c.call = .pausing → committed = false → c.durable ≠ .paused
  | .deliver => c.durable = .queued → c.call ≠ .pauseFailed ∧
      ∀ status ∈ c.snapshot, status = c.status
  | _ => True

/-- How the row stands to the status in memory. -/
inductive Control.Standing (c : Control) : Prop
  | level (call : c.call = .idle) (row : c.durable = c.status)
      (token : c.tokenPaused = true ↔ c.status = .paused)
  | unwritten (call : c.call = .idle) (row : c.durable = .queued) (status : c.status = .running)
      (token : c.tokenPaused = false) (unannounced : c.announced = false)
  | pausing (call : c.call = .pausing) (status : c.status = .paused)
      (token : c.tokenPaused = true)
      (row : c.durable = .paused ∨ c.durable = .running ∨ c.durable = .queued ∧ c.announced = false)
  | unpausing (call : c.call = .pauseFailed) (status : c.status = .paused)
      (token : c.tokenPaused = true)
      (row : c.durable = .running ∨ c.durable = .queued ∧ c.announced = false)
  | resuming (call : c.call = .resuming ∨ c.call = .resumeFailed)
      (status : c.status = .running) (token : c.tokenPaused = false) (row : c.durable = .paused)

structure Control.Sound (c : Control) : Prop where
  standing : c.Standing
  pending : c.futureDone = false
  snapshot : ∀ status ∈ c.snapshot, status.controlled
  running : c.started = true → c.status ≠ .queued
  waiting : c.started = false → c.announced = false ∧ c.snapshot = none

/-- The run is neither cancelled nor terminal. -/
def Control.live (c : Control) : Bool := !c.tokenCancelled && !c.status.terminal

section Steps

variable {c : Control}

theorem Control.live_iff : c.live = true ↔ c.tokenCancelled = false ∧ c.status.terminal = false := by
  simp [Control.live]

theorem Control.not_over (h : c.Sound) (live : c.live = true) : c.over = false := by
  obtain ⟨uncancelled, active⟩ := Control.live_iff.1 live
  simp [Control.over, h.pending, uncancelled, active]

/-- Only a run that has started, or whose future was cancelled, is terminal. -/
def Control.Closed (c : Control) : Prop :=
  c.status.terminal = true → c.started = true ∨ c.futureDone = true

theorem Control.Closed.step (h : c.Closed) (a : ControlStep) : (c.step a).Closed := by
  cases a with
  | pause =>
    rw [Control.step, Control.pause]
    repeat' split
    · exact h
    · exact fun terminal => by cases terminal
    · exact h
  | resume =>
    rw [Control.step, Control.resume]
    repeat' split
    · exact h
    · exact fun terminal => by cases terminal
    · exact h
    · exact h
  | persist committed =>
    rw [Control.step]
    split <;> first | exact h | (rw [Control.persist]; split <;> exact h)
  | rollBack =>
    rw [Control.step, Control.undoPause, Control.undoResume]
    repeat' split
    · exact fun terminal => by cases terminal
    · exact h
    · exact fun terminal => by cases terminal
    · exact h
    · exact h
  | cancel =>
    rw [Control.step, Control.cancel]
    repeat' split
    · exact h
    · exact h
    · exact fun _ => .inr rfl
  | start =>
    rw [Control.step, Control.start]
    split
    · exact h
    · exact fun _ => .inl rfl
  | readSnapshot =>
    rw [Control.step]
    split <;> exact h
  | deliver =>
    rw [Control.step, Control.deliver]
    split <;> exact h
  | finish status =>
    rw [Control.step]
    split
    next ends =>
      simp only [Bool.and_eq_true] at ends
      exact fun _ => .inl ends.1.1
    next => exact h

theorem Control.live_of_step (closed : c.Closed) (a : ControlStep) (h : (c.step a).live = true) :
    c.live = true := by
  by_contra dead
  have ended : c.tokenCancelled = true ∨ c.status.terminal = true := by
    simpa [Control.live_iff, or_iff_not_imp_left] using dead
  have settled : c.over = true := by
    rcases ended with ended | ended <;> simp [Control.over, ended]
  have notLive : c.live = false := eq_false_of_ne_true dead
  refine absurd h (ne_true_of_eq_false ?_)
  cases a with
  | pause =>
    rw [Control.step]
    split
    next => rw [Control.pause, if_pos settled, notLive]
    next => exact notLive
  | resume =>
    rw [Control.step]
    split
    next => rw [Control.resume, if_pos settled, notLive]
    next => exact notLive
  | persist committed =>
    have same : ∀ status failed, (c.persist status failed committed).live = c.live := by
      intro status failed
      rw [Control.persist]
      split <;> rfl
    rw [Control.step]
    split
    next => rw [same, notLive]
    next => rw [same, notLive]
    next => exact notLive
  | rollBack =>
    have undone : c.undoPause.live = false ∧ c.undoResume.live = false := by
      rw [Control.undoPause, Control.undoResume]
      constructor
      · split
        next still => rcases ended with ended | ended <;> simp_all [RunStatus.terminal]
        next => exact notLive
      · split
        next still => rcases ended with ended | ended <;> simp_all [RunStatus.terminal]
        next => exact notLive
    rw [Control.step]
    split
    next => exact undone.1
    next => exact undone.2
    next => exact notLive
  | cancel =>
    rw [Control.step, Control.cancel]
    split
    next => exact notLive
    next =>
      split
      next => rfl
      next => rfl
  | start =>
    rw [Control.step, Control.start]
    split
    next => exact notLive
    next first =>
      rcases ended with cancelled | terminal
      · simp [Control.live, cancelled]
      · exact absurd (closed terminal) (by simpa using first)
  | readSnapshot =>
    rw [Control.step]
    split
    next => exact notLive
    next => exact notLive
  | deliver =>
    rw [Control.step, Control.deliver]
    split
    next => exact notLive
    next => exact notLive
  | finish status =>
    rw [Control.step]
    split
    next ends =>
      simp only [Bool.and_eq_true] at ends
      simp [Control.live, ends.2]
    next => exact notLive

theorem Control.Sound.pause (h : c.Sound) (live : c.live = true) (idle : c.call = .idle) :
    c.pause.Sound := by
  rw [Control.pause, if_neg (by simp [Control.not_over h live])]
  refine ⟨.pausing rfl rfl rfl ?_, h.pending, h.snapshot, fun _ => nofun, h.waiting⟩
  cases h.standing with
  | level call row token =>
    obtain ⟨-, active⟩ := Control.live_iff.1 live
    cases status : c.status with
    | queued =>
      refine .inr (.inr ⟨row.trans status, (h.waiting ?_).1⟩)
      exact eq_false_of_ne_true fun started => h.running started status
    | running => exact .inr (.inl (row.trans status))
    | paused => exact .inl (row.trans status)
    | _ =>
      rw [status] at active
      cases active
  | unwritten call row status token unannounced => exact .inr (.inr ⟨row, unannounced⟩)
  | pausing call => cases call.symm.trans idle
  | unpausing call => cases call.symm.trans idle
  | resuming call => rcases call with call | call <;> cases call.symm.trans idle

theorem Control.Sound.resume (h : c.Sound) (live : c.live = true) (idle : c.call = .idle) :
    c.resume.Sound := by
  rw [Control.resume, if_neg (by simp [Control.not_over h live])]
  split
  next paused =>
    refine ⟨.resuming (.inl rfl) rfl rfl ?_, h.pending, h.snapshot, fun _ => nofun, h.waiting⟩
    cases h.standing with
    | level call row token => exact row.trans paused
    | unwritten call row status => cases status.symm.trans paused
    | pausing call => cases call.symm.trans idle
    | unpausing call => cases call.symm.trans idle
    | resuming call => rcases call with call | call <;> cases call.symm.trans idle
  next other =>
    refine ⟨?_, h.pending, h.snapshot, h.running, h.waiting⟩
    cases h.standing with
    | level call row token => exact .level call row ⟨nofun, fun paused => absurd paused other⟩
    | unwritten call row status token unannounced => exact .unwritten call row status rfl unannounced
    | pausing call => cases call.symm.trans idle
    | unpausing call => cases call.symm.trans idle
    | resuming call => rcases call with call | call <;> cases call.symm.trans idle

theorem Control.Sound.persistPause (h : c.Sound) (call : c.call = .pausing) {committed : Bool}
    (ordered : committed = false → c.durable ≠ .paused) :
    (c.persist .paused .pauseFailed committed).Sound := by
  cases h.standing with
  | level idle => cases idle.symm.trans call
  | unwritten idle => cases idle.symm.trans call
  | unpausing other => cases other.symm.trans call
  | resuming other => rcases other with other | other <;> cases other.symm.trans call
  | pausing _ memory token row =>
    cases committed with
    | true =>
      have allowed : ((controlFrom .paused).getD []).contains c.durable = true := by
        rcases row with row | row | ⟨row, -⟩ <;> rw [row] <;> decide
      rw [Control.persist, if_pos (by rw [allowed]; rfl)]
      exact ⟨.level rfl memory.symm ⟨fun _ => memory, fun _ => token⟩, h.pending, h.snapshot,
        h.running, h.waiting⟩
    | false =>
      rw [Control.persist, if_neg (by simp)]
      exact ⟨.unpausing rfl memory token (row.resolve_left (ordered rfl)), h.pending, h.snapshot,
        h.running, h.waiting⟩

theorem Control.Sound.persistResume (h : c.Sound) (call : c.call = .resuming) {committed : Bool} :
    (c.persist .running .resumeFailed committed).Sound := by
  cases h.standing with
  | level idle => cases idle.symm.trans call
  | unwritten idle => cases idle.symm.trans call
  | unpausing other => cases other.symm.trans call
  | pausing other => cases other.symm.trans call
  | resuming _ memory token row =>
    cases committed with
    | true =>
      rw [Control.persist, if_pos (by rw [row]; decide)]
      refine ⟨.level rfl memory.symm ⟨fun paused => ?_, fun paused => ?_⟩, h.pending, h.snapshot,
        h.running, h.waiting⟩
      · cases token.symm.trans paused
      · cases memory.symm.trans paused
    | false =>
      rw [Control.persist, if_neg (by simp)]
      exact ⟨.resuming (.inr rfl) memory token row, h.pending, h.snapshot, h.running, h.waiting⟩

theorem Control.Sound.undoPause (h : c.Sound) (live : c.live = true) (call : c.call = .pauseFailed) :
    c.undoPause.Sound := by
  obtain ⟨uncancelled, -⟩ := Control.live_iff.1 live
  cases h.standing with
  | level idle => cases idle.symm.trans call
  | unwritten idle => cases idle.symm.trans call
  | pausing other => cases other.symm.trans call
  | resuming other => rcases other with other | other <;> cases other.symm.trans call
  | unpausing _ memory token row =>
    rw [Control.undoPause, if_pos (by simp [h.pending, uncancelled, memory])]
    refine ⟨?_, h.pending, h.snapshot, fun _ => nofun, h.waiting⟩
    rcases row with row | ⟨row, unannounced⟩
    · exact .level rfl row ⟨nofun, nofun⟩
    · exact .unwritten rfl row rfl rfl unannounced

theorem Control.Sound.undoResume (h : c.Sound) (live : c.live = true) (call : c.call = .resumeFailed) :
    c.undoResume.Sound := by
  obtain ⟨uncancelled, -⟩ := Control.live_iff.1 live
  cases h.standing with
  | level idle => cases idle.symm.trans call
  | unwritten idle => cases idle.symm.trans call
  | pausing other => cases other.symm.trans call
  | unpausing other => cases other.symm.trans call
  | resuming _ memory token row =>
    rw [Control.undoResume, if_pos (by simp [h.pending, uncancelled, memory])]
    exact ⟨.level rfl row ⟨fun _ => rfl, fun _ => rfl⟩, h.pending, h.snapshot, fun _ => nofun,
      h.waiting⟩

theorem Control.Sound.start (h : c.Sound) (live : c.live = true) : c.start.Sound := by
  obtain ⟨uncancelled, active⟩ := Control.live_iff.1 live
  rw [Control.start]
  split
  next => exact h
  next first =>
    have unstarted : c.started = false := by
      simp only [Bool.or_eq_true, not_or, Bool.not_eq_true] at first
      exact first.1
    obtain ⟨unannounced, none⟩ := h.waiting unstarted
    have paused : c.paused = c.tokenPaused := by simp [Control.paused, uncancelled]
    rw [paused]
    refine ⟨?_, h.pending, h.snapshot, fun _ => ?_, by rintro ⟨⟩⟩
    · cases h.standing with
      | level call row token =>
        by_cases flag : c.tokenPaused = true
        · have status := token.mp flag
          refine .level call ?_ ⟨fun _ => ?_, fun _ => flag⟩
          · simpa [flag, status] using row
          · simp [flag]
        · have memory : c.status = .queued ∨ c.status = .running := by
            cases s : c.status <;> simp_all [RunStatus.terminal]
          have off := eq_false_of_ne_true flag
          rcases memory with memory | memory
          · exact .unwritten call (row.trans memory) (by simp [off]) off unannounced
          · exact .level call (by simp [off, row, memory]) (by simp [off])
      | unwritten call row memory token unannounced =>
        exact .unwritten call row (by simp [token]) token unannounced
      | pausing call memory token row => exact .pausing call (by simp [token]) token row
      | unpausing call memory token row => exact .unpausing call (by simp [token]) token row
      | resuming call memory token row => exact .resuming call (by simp [token]) token row
    · show (if c.tokenPaused = true then RunStatus.paused else .running) ≠ .queued
      split <;> decide

theorem Control.Sound.readSnapshot (h : c.Sound) (live : c.live = true) (started : c.started = true) :
    ({ c with snapshot := some c.status } : Control).Sound := by
  obtain ⟨-, active⟩ := Control.live_iff.1 live
  refine ⟨?_, h.pending, ?_, h.running, fun unstarted => by cases started.symm.trans unstarted⟩
  · cases h.standing with
    | level call row token => exact .level call row token
    | unwritten call row status token unannounced => exact .unwritten call row status token unannounced
    | pausing call status token row => exact .pausing call status token row
    | unpausing call status token row => exact .unpausing call status token row
    | resuming call status token row => exact .resuming call status token row
  · rintro status mem
    cases mem
    have notQueued := h.running started
    cases s : c.status <;> simp_all [RunStatus.terminal, RunStatus.controlled]

theorem keptStatus_of_controlled {old new : RunStatus} (oldControlled : old.controlled)
    (newControlled : new.controlled) : keptStatus old new = old := by
  simp [keptStatus, oldControlled, newControlled]

theorem keptStatus_queued (status : RunStatus) : keptStatus .queued status = status := by
  simp [keptStatus, RunStatus.controlled, RunStatus.terminal]

theorem Control.Sound.deliver (h : c.Sound) (live : c.live = true)
    (ordered : c.durable = .queued → c.call ≠ .pauseFailed ∧
      ∀ status ∈ c.snapshot, status = c.status) : c.deliver.Sound := by
  rw [Control.deliver]
  split
  next => exact h
  next status found =>
    have controlled := h.snapshot status found
    have started : c.started = true := by
      by_contra unstarted
      cases ((h.waiting (eq_false_of_ne_true unstarted)).2).symm.trans found
    refine ⟨?_, h.pending, nofun, h.running, fun unstarted => by cases started.symm.trans unstarted⟩
    have same : c.durable = .queued → status = c.status := fun queued => (ordered queued).2 status found
    cases h.standing with
    | level call row token =>
      refine .level call ?_ token
      have notQueued := h.running started
      have active : c.status.controlled := by
        obtain ⟨-, active⟩ := Control.live_iff.1 live
        cases s : c.status <;> simp_all [RunStatus.terminal, RunStatus.controlled]
      show keptStatus c.durable status = c.status
      rw [row, keptStatus_of_controlled active controlled]
    | unwritten call row memory token unannounced =>
      refine .level call ?_ (by simp [token, memory])
      show keptStatus c.durable status = c.status
      rw [row, keptStatus_queued, same row]
    | pausing call memory token row =>
      refine .pausing call memory token ?_
      show keptStatus c.durable status = .paused ∨ keptStatus c.durable status = .running ∨ _
      rcases row with row | row | ⟨row, -⟩
      · exact .inl (by rw [row, keptStatus_of_controlled rfl controlled])
      · exact .inr (.inl (by rw [row, keptStatus_of_controlled rfl controlled]))
      · exact .inl (by rw [row, keptStatus_queued, same row, memory])
    | unpausing call memory token row =>
      refine .unpausing call memory token ?_
      rcases row with row | ⟨row, -⟩
      · exact .inl (show keptStatus c.durable status = .running by
          rw [row, keptStatus_of_controlled rfl controlled])
      · exact absurd call (ordered row).1
    | resuming call memory token row =>
      exact .resuming call memory token (show keptStatus c.durable status = .paused by
        rw [row, keptStatus_of_controlled rfl controlled])

theorem Control.Sound.step (h : c.Sound) (live : c.live = true) (a : ControlStep) (ordered : c.Ordered a)
    (after : (c.step a).live = true) : (c.step a).Sound := by
  obtain ⟨uncancelled, active⟩ := Control.live_iff.1 live
  cases a with
  | pause =>
    rw [Control.step]
    split
    next idle => exact h.pause live idle
    next => exact h
  | resume =>
    rw [Control.step]
    split
    next idle => exact h.resume live idle
    next => exact h
  | persist committed =>
    rw [Control.step]
    split
    next call => exact h.persistPause call (ordered call)
    next call => exact h.persistResume call
    next => exact h
  | rollBack =>
    rw [Control.step]
    split
    next call => exact h.undoPause live call
    next call => exact h.undoResume live call
    next => exact h
  | cancel =>
    have dead : c.cancel.live = false := by
      rw [Control.cancel, if_neg (by simp [h.pending, active])]
      split
      next => rfl
      next => rfl
    exact absurd after (ne_true_of_eq_false dead)
  | start => exact h.start live
  | readSnapshot =>
    rw [Control.step]
    split
    next reads =>
      simp only [Bool.and_eq_true] at reads
      exact h.readSnapshot live reads.1
    next => exact h
  | deliver => exact h.deliver live ordered
  | finish status =>
    rw [Control.step] at after ⊢
    split
    next ends =>
      rw [if_pos ends] at after
      simp only [Bool.and_eq_true] at ends
      exact absurd (Control.live_iff.1 after).2 (by simp [ends.2])
    next => exact h

theorem Control.Sound.agrees (h : c.Sound) (idle : c.call = .idle) (announced : c.announced = true) :
    (c.status = .paused ↔ c.tokenPaused = true) ∧ c.durable = c.status := by
  cases h.standing with
  | level call row token => exact ⟨token.symm, row⟩
  | unwritten call row status token unannounced => cases unannounced.symm.trans announced
  | pausing call => cases call.symm.trans idle
  | unpausing call => cases call.symm.trans idle
  | resuming call => rcases call with call | call <;> cases call.symm.trans idle

end Steps

theorem submitted_sound : Control.submitted.Sound :=
  ⟨.level rfl rfl ⟨nofun, nofun⟩, rfl, nofun, nofun, fun _ => ⟨rfl, rfl⟩⟩

end Arenyxa.Runs
