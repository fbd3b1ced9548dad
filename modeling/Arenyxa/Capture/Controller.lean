import Arenyxa.Lib.History
import Arenyxa.Lib.Indexed
import Mathlib.Algebra.GroupWithZero.Nat

/-! The capture controller: lifecycle calls under the lifecycle lock, `emit` in any number of threads, and the
writer thread. Every call to the store or the adapter may fail, and a save is one transaction, which reads
the session that it writes. -/

namespace Arenyxa.Capture.Recording

open History Indexed

inductive CaptureState
  | idle | preparing | capturing | paused | finalizing | completed | failed | cancelled
  deriving DecidableEq

/-- The states in which `prepare` refuses another session. -/
def CaptureState.active : CaptureState → Bool
  | .preparing => true
  | .capturing => true
  | .paused => true
  | .finalizing => true
  | _ => false

/-- The states in which `stop` stops the adapter. -/
def CaptureState.adapted : CaptureState → Bool
  | .preparing => true
  | .capturing => true
  | .paused => true
  | .failed => true
  | _ => false

/-- A capture session with the state of its row, and whether it has ever been `FAILED`. -/
structure Session where
  state : CaptureState
  stored : Option CaptureState
  eventCount : Nat
  bytesCaptured : Nat
  droppedEvents : Nat
  hasFailed : Bool

def Session.created : Session := ⟨.idle, none, 0, 0, 0, false⟩

def Session.set (session : Session) (state : CaptureState) : Session :=
  { session with
    state := state
    hasFailed := session.hasFailed || state = .failed }

def Session.save (session : Session) : Session := { session with stored := some session.state }

/-- An event names the session that it is for. -/
structure Event where
  session : Nat
  size : Nat

/-- Where an `emit` is. -/
inductive EmitStage
  | checking | filtering | failing | locking | putting | accepted | dropped | ignored

structure Emit where
  event : Event
  session : Nat
  stage : EmitStage

/-- Where the writer thread is. -/
inductive Writer
  | absent
  | looping
  | losing
  | lost
  | getting
  | gathered
  | ending
  | appending (last : Bool) (count bytes : Nat)
  | closing
  | handling
  | stopping
  | marking
  | saving
  | finished

def Writer.alive : Writer → Bool
  | .absent => false
  | .finished => false
  | _ => true

/-- The lifecycle call in progress, and what it does next. -/
inductive Op
  | idle
  | preparing (i : Nat) (previous : CaptureState)
  | draining (i : Nat)
  | installing (i : Nat)
  | starting
  | launching
  | opening
  | aborting
  | settling
  | recording
  | pausing
  | pauseSaving
  | pauseUndoing
  | resuming
  | resumeSaving
  | resumeUndoing
  | stopping (cancelled : Bool)
  | stoppingAdapter (cancelled : Bool)
  | finalizing (cancelled failed : Bool)
  | joining (cancelled failed : Bool)
  | chunking (cancelled failed : Bool)
  | deciding (cancelled failed : Bool)
  | concluding (failed : Bool)

structure Controller where
  queueCapacity : Nat
  flushSize : Nat
  sessions : List Session
  session : Option Nat
  queue : List Nat
  batch : List Nat
  durable : List Nat
  emits : List Emit
  writer : Writer
  op : Op
  stopEvent : Bool
  acceptingStopTail : Bool
  writerError : Bool
  sourceError : Bool
  stopInProgress : Bool
  /-- The `emit` that holds the state lock. -/
  lockHolder : Option Nat

def Controller.start (queueCapacity flushSize : Int) : Controller where
  queueCapacity := (max 1 queueCapacity).toNat
  flushSize := (min (max 1 queueCapacity) (max 1 flushSize)).toNat
  sessions := []
  session := none
  queue := []
  batch := []
  durable := []
  emits := []
  writer := .absent
  op := .idle
  stopEvent := false
  acceptingStopTail := false
  writerError := false
  sourceError := false
  stopInProgress := false
  lockHolder := none

/-- A lifecycle call, with whether its first fallible call passes. -/
inductive Call
  | prepare (i : Nat) (compiled : Bool)
  | start (authorized : Bool)
  | pause (adapter : Bool)
  | resume (adapter : Bool)
  | stop (cancelled : Bool)

inductive Filtered
  | accepted | rejected | raised

inductive Move
  | create
  | begin (call : Call)
  | proceed (ok : Bool)
  | emit (event : Event)
  | check (k : Nat)
  | filter (k : Nat) (filtered : Filtered)
  | fail (k : Nat)
  | lock (k : Nat)
  | put (k : Nat)
  | poll (failure : Bool)
  | write (ok : Bool)

namespace Controller

def state (s : Controller) (i : Nat) : Option CaptureState := s.sessions[i]?.map Session.state

def current (s : Controller) : Option Session := s.session.bind fun i => s.sessions[i]?

def modify (s : Controller) (i : Nat) (f : Session → Session) : Controller :=
  match s.sessions[i]? with
  | some session => { s with sessions := s.sessions.set i (f session) }
  | none => s

def modifyCurrent (s : Controller) (f : Session → Session) : Controller :=
  match s.session with
  | some i => s.modify i f
  | none => s

/-- A session becomes `FAILED` in memory. -/
def markFailed (s : Controller) : Controller := s.modifyCurrent (·.set .failed)

/-- The failed rollback of a pause or a resume. -/
def loseSource (s : Controller) : Controller :=
  { s.markFailed with
    sourceError := true
    stopEvent := true }

def begin (s : Controller) : Call → Controller
  | .prepare i compiled => match s.sessions[i]? with
    | some session =>
      if (s.current.any (·.state.active)) || s.writer.alive || !compiled then s
      else { s.modify i (·.set .preparing) with op := .preparing i session.state }
    | none => s
  | .start authorized =>
    if (s.current.any (·.state = .preparing)) && authorized then
      { s.modifyCurrent (·.set .capturing) with
        stopEvent := false
        writerError := false
        sourceError := false
        acceptingStopTail := false
        op := .starting }
    else s
  | .pause adapter =>
    if (s.current.any (·.state = .capturing)) && adapter then { s with op := .pausing } else s
  | .resume adapter =>
    if (s.current.any (·.state = .paused)) && adapter then { s with op := .resuming } else s
  | .stop cancelled =>
    if s.lockHolder.isSome then s
    else match s.current with
      | some session =>
        if session.state = .completed ∨ session.state = .cancelled then s
        else { s with
          stopInProgress := true
          op := .stopping cancelled }
      | none => s

/-- The state that `stop` gives a session, with its failure. -/
def finalState (cancelled failed : Bool) : CaptureState :=
  if failed then .failed else if cancelled then .cancelled else .completed

/-- The next step of the lifecycle call; `ok` is how a store, adapter or thread call in it ends. -/
def proceed (s : Controller) (ok : Bool) : Controller :=
  match s.op with
  | .idle => s
  | .preparing i previous =>
    if ok then { s.modify i Session.save with op := .draining i }
    else { s.modify i (·.set previous) with op := .idle }
  | .draining i => { s with
      queue := []
      writerError := false
      sourceError := false
      stopEvent := false
      stopInProgress := false
      acceptingStopTail := false
      op := .installing i }
  | .installing i =>
    if s.lockHolder.isSome then s
    else { s with
      session := some i
      op := .idle }
  | .starting =>
    if ok then { s.modifyCurrent Session.save with op := .launching }
    else { s.modifyCurrent (·.set .preparing) with op := .idle }
  | .launching =>
    if ok then { s with
      writer := .looping
      batch := []
      op := .opening }
    else { s with
      writer := .absent
      op := .aborting }
  | .opening => { s with op := if ok then .idle else .aborting }
  | .aborting => { s with
      stopEvent := true
      op := .settling }
  -- The join of the writer may time out, so the failure is recorded while it still runs.
  | .settling => { s.markFailed with op := .recording }
  | .recording => { (if ok then s.modifyCurrent Session.save else s) with op := .idle }
  | .pausing => { s.modifyCurrent (·.set .paused) with op := .pauseSaving }
  | .pauseSaving =>
    if ok then { s.modifyCurrent Session.save with op := .idle } else { s with op := .pauseUndoing }
  | .pauseUndoing =>
    if ok then { s.modifyCurrent (·.set .capturing) with op := .idle }
    else { s.loseSource with op := .idle }
  | .resuming => { s.modifyCurrent (·.set .capturing) with op := .resumeSaving }
  | .resumeSaving =>
    if ok then { s.modifyCurrent Session.save with op := .idle } else { s with op := .resumeUndoing }
  | .resumeUndoing =>
    if ok then { s.modifyCurrent (·.set .paused) with op := .idle }
    else { s.loseSource with op := .idle }
  | .stopping cancelled =>
    if s.lockHolder.isSome then s
    else if s.current.any (·.state.adapted) then
      { s with
        acceptingStopTail := s.current.any fun session => session.state = .capturing ∨ session.state = .paused
        op := .stoppingAdapter cancelled }
    else { s with
      acceptingStopTail := false
      op := .finalizing cancelled false }
  | .stoppingAdapter cancelled => { s with op := .finalizing cancelled (!ok) }
  | .finalizing cancelled failed =>
    if s.lockHolder.isSome then s
    else { s.modifyCurrent (·.set .finalizing) with
      acceptingStopTail := false
      stopEvent := true
      op := .joining cancelled failed }
  | .joining cancelled failed =>
    if !s.writer.alive then { s with op := .chunking cancelled failed }
    else if ok then s
    else { s with op := .chunking cancelled true }
  | .chunking cancelled failed => { s with op := .deciding cancelled (failed || !ok) }
  | .deciding cancelled failed =>
    let failed := s.writerError || s.sourceError || failed
    { s.modifyCurrent (·.set (finalState cancelled failed)) with op := .concluding failed }
  | .concluding _ =>
    if ok then { s.modifyCurrent Session.save with
      stopInProgress := false
      op := .idle }
    else { s.markFailed with
      stopInProgress := false
      op := .idle }

def setEmit (s : Controller) (k : Nat) (emit : Emit) (stage : EmitStage) : Controller :=
  { s with emits := s.emits.set k { emit with stage := stage } }

/-- The session of the emit has ended for it: what both its checks and its failure handler look at. -/
def ended (s : Controller) (emit : Emit) : Bool :=
  (s.state emit.session ≠ some .capturing && !s.acceptingStopTail) || (s.stopEvent && !s.acceptingStopTail)

def refuses (s : Controller) (emit : Emit) : Bool := s.ended emit || s.writerError || s.sourceError

def emit (s : Controller) (event : Event) : Controller :=
  match s.session with
  | some i => { s with emits := s.emits ++ [⟨event, i, if event.session = i then .checking else .ignored⟩] }
  | none => s

def fail (s : Controller) (k : Nat) (emit : Emit) : Controller :=
  if s.lockHolder.isSome then s
  else if s.session ≠ some emit.session || s.ended emit then s.setEmit k emit .ignored
  else { (s.modify emit.session (·.set .failed)).setEmit k emit .ignored with
    sourceError := true
    stopEvent := true }

def lock (s : Controller) (k : Nat) (emit : Emit) : Controller :=
  if s.lockHolder.isSome then s
  else if s.session ≠ some emit.session || s.refuses emit then s.setEmit k emit .ignored
  else { s.setEmit k emit .putting with lockHolder := some k }

def put (s : Controller) (k : Nat) (emit : Emit) : Controller :=
  if s.queue.length < s.queueCapacity then
    { s.setEmit k emit .accepted with
      queue := s.queue ++ [k]
      lockHolder := none }
  else
    { (s.modify emit.session fun session => { session with
        droppedEvents := session.droppedEvents + 1 }).setEmit k emit .dropped with lockHolder := none }

/-- The head of the writer's loop, with what `_adapter_failure` reports. -/
def poll (s : Controller) (failure : Bool) : Controller :=
  if s.stopEvent && s.queue.isEmpty then
    if s.batch.isEmpty then { s with writer := .closing }
    else { s with writer := .ending }
  else if failure && !s.stopEvent then { s with
    sourceError := true
    writer := .losing }
  else { s with writer := .getting }

def sizes (s : Controller) (batch : List Nat) : Nat :=
  (batch.filterMap fun k => s.emits[k]?.map fun emit => emit.event.size).sum

/-- `_commit_batch` up to its append: the counts run ahead of the rows. -/
def count (s : Controller) (last : Bool) : Controller :=
  match s.current with
  | some session =>
    { s.modifyCurrent fun session => { session with
        eventCount := session.eventCount + s.batch.length
        bytesCaptured := session.bytesCaptured + s.sizes s.batch } with
      writer := .appending last session.eventCount session.bytesCaptured }
  | none => { s with writer := .appending last 0 0 }

def append (s : Controller) (last : Bool) (eventCount bytesCaptured : Nat) (ok : Bool) : Controller :=
  if ok then { s.modifyCurrent Session.save with
    durable := s.durable ++ s.batch
    batch := []
    writer := if last then .closing else .looping }
  else { s.modifyCurrent fun session => { session with
      eventCount := eventCount
      bytesCaptured := bytesCaptured } with writer := .handling }

/-- The writer's next step; `ok` is how a store call in it ends, and whether a flush is due. -/
def write (s : Controller) (ok : Bool) : Controller :=
  match s.writer with
  | .losing => { s with
      stopEvent := true
      writer := .lost }
  | .lost => { s.markFailed with writer := .getting }
  | .getting => match s.queue with
    | item :: rest => { s with
        queue := rest
        batch := s.batch ++ [item]
        writer := .gathered }
    | [] => { s with writer := .gathered }
  | .gathered =>
    if !s.batch.isEmpty && (s.flushSize ≤ s.batch.length || ok) then s.count false
    else { s with writer := .looping }
  | .ending => s.count true
  | .appending last eventCount bytesCaptured => s.append last eventCount bytesCaptured ok
  | .closing =>
    if s.sourceError && s.session.isSome then
      if ok then { s.modifyCurrent Session.save with writer := .finished } else { s with writer := .handling }
    else { s with writer := .finished }
  | .handling => { s with
      writerError := s.writerError || !s.sourceError
      writer := .stopping }
  | .stopping => { s with
      stopEvent := true
      writer := .marking }
  | .marking => { s.markFailed with writer := .saving }
  | .saving => { (if ok then s.modifyCurrent Session.save else s) with writer := .finished }
  | _ => s

def step (s : Controller) : Move → Controller
  | .create => { s with sessions := s.sessions ++ [.created] }
  | .begin call => match s.op with
    | .idle => s.begin call
    | _ => s
  | .proceed ok => s.proceed ok
  | .emit event => s.emit event
  | .check k => match s.emits[k]? with
    | some ⟨event, session, .checking⟩ =>
      s.setEmit k ⟨event, session, .checking⟩
        (if s.refuses ⟨event, session, .checking⟩ then .ignored else .filtering)
    | _ => s
  | .filter k filtered => match s.emits[k]? with
    | some ⟨event, session, .filtering⟩ =>
      s.setEmit k ⟨event, session, .filtering⟩ (match filtered with
        | .accepted => .locking
        | .rejected => .ignored
        | .raised => .failing)
    | _ => s
  | .fail k => match s.emits[k]? with
    | some ⟨event, session, .failing⟩ => s.fail k ⟨event, session, .failing⟩
    | _ => s
  | .lock k => match s.emits[k]? with
    | some ⟨event, session, .locking⟩ => s.lock k ⟨event, session, .locking⟩
    | _ => s
  | .put k => match s.emits[k]? with
    | some ⟨event, session, .putting⟩ => s.put k ⟨event, session, .putting⟩
    | _ => s
  | .poll failure => match s.writer with
    | .looping => s.poll failure
    | _ => s
  | .write ok => s.write ok

end Controller

end Arenyxa.Capture.Recording
