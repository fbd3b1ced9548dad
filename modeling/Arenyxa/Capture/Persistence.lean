import Arenyxa.Lib.History
import Arenyxa.Lib.Indexed

/-! The proxy's persistence pipeline: flows are queued for one writer, or handed to the sinks by their
own thread when the queue is full, and `close` drains the queue before it stops the writer. -/

namespace Arenyxa.Capture.Persistence

open History Indexed

/-- Where an `enqueue` call is. -/
inductive Stage
  | admitted | overflowing | leaving | returned | refused
  deriving DecidableEq

def Stage.active : Stage → Bool
  | .admitted => true
  | .overflowing => true
  | .leaving => true
  | _ => false

/-- Whether the flow of the call has been given away: to the queue, or to the sinks. -/
def Stage.given : Stage → Bool
  | .leaving => true
  | .returned => true
  | _ => false

/-- An `enqueue` call, with the calls that had returned when it began. -/
structure Call (φ : Type) where
  flow : φ
  stage : Stage
  earlier : List Nat

/-- An item of the queue: the flow of a call, or `_STOP`. -/
inductive Item
  | flow (call : Nat)
  | stop

def Item.call? : Item → Option Nat
  | .flow call => some call
  | .stop => none

inductive Writer
  | waiting
  | holding (call : Nat)
  | handed (call : Nat)
  | stopping
  | leaving
  | finished
  deriving DecidableEq

/-- The flow that the writer holds. -/
def Writer.held : Writer → Option Nat
  | .holding call => some call
  | _ => none

/-- Whether the writer owes a `task_done`. -/
def Writer.busy : Writer → Bool
  | .holding _ => true
  | .handed _ => true
  | .stopping => true
  | _ => false

/-- Whether the writer has taken `_STOP`. -/
def Writer.stopped : Writer → Bool
  | .stopping => true
  | .leaving => true
  | .finished => true
  | _ => false

/-- Where a `close` call is. -/
inductive Closer
  | locking | admitting | flushing | stopping | joining
  | returned (closed : Bool)

inductive Lifecycle
  | opened | closing | closed
  deriving DecidableEq

structure Pipeline (φ : Type) where
  capacity : Nat
  state : Lifecycle
  queue : List Item
  writer : Writer
  calls : List (Call φ)
  closers : List Closer
  activeAdmissions : Nat
  stopEnqueued : Bool
  closeLocked : Bool
  /-- The calls whose flows the sinks were given, in this order. -/
  sinks : List Nat
  persisted : Nat
  historyFailures : Nat
  archiveFailures : Nat
  syncFallbacks : Nat

variable {φ : Type}

def Pipeline.start (capacity : Int) : Pipeline φ where
  capacity := (max 16 (min 10000 capacity)).toNat
  state := .opened
  queue := []
  writer := .waiting
  calls := []
  closers := []
  activeAdmissions := 0
  stopEnqueued := false
  closeLocked := false
  sinks := []
  persisted := 0
  historyFailures := 0
  archiveFailures := 0
  syncFallbacks := 0

inductive Move (φ : Type)
  | enqueue (flow : φ)
  | put (i : Nat)
  | fallBack (i : Nat) (history archive : Bool)
  | leave (i : Nat)
  | get
  | persist (history archive : Bool)
  | taskDone
  | retire
  | close
  | lock (k : Nat)
  | lockTimeout (k : Nat)
  | awaitAdmissions (k : Nat)
  | flush (k : Nat)
  | stop (k : Nat)
  | join (k : Nat)
  | giveUp (k : Nat)

namespace Pipeline

/-- `unfinished_tasks` -/
def unfinished (p : Pipeline φ) : Nat := p.queue.length + if p.writer.busy then 1 else 0

def returnedCalls (p : Pipeline φ) : List Nat :=
  (List.range p.calls.length).filter fun i => (p.calls[i]?.map Call.stage) = some .returned

def setStage (p : Pipeline φ) (i : Nat) (call : Call φ) (stage : Stage) : Pipeline φ :=
  { p with calls := p.calls.set i { call with stage := stage } }

def setCloser (p : Pipeline φ) (k : Nat) (closer : Closer) : Pipeline φ :=
  { p with closers := p.closers.set k closer }

/-- `_persist` hands the flow to both sinks under the sink lock; one that raises is counted. -/
def handOver (p : Pipeline φ) (call : Nat) (history archive : Bool) : Pipeline φ :=
  { p with
    sinks := p.sinks ++ [call]
    persisted := if history && archive then p.persisted + 1 else p.persisted
    historyFailures := if history then p.historyFailures else p.historyFailures + 1
    archiveFailures := if archive then p.archiveFailures else p.archiveFailures + 1 }

def enqueue (p : Pipeline φ) (flow : φ) : Pipeline φ :=
  if p.state = .opened then
    { p with
      calls := p.calls ++ [⟨flow, .admitted, p.returnedCalls⟩]
      activeAdmissions := p.activeAdmissions + 1 }
  else { p with calls := p.calls ++ [⟨flow, .refused, p.returnedCalls⟩] }

def put (p : Pipeline φ) (i : Nat) (call : Call φ) : Pipeline φ :=
  if p.queue.length < p.capacity then { p.setStage i call .leaving with queue := p.queue ++ [.flow i] }
  else { p.setStage i call .overflowing with syncFallbacks := p.syncFallbacks + 1 }

def get (p : Pipeline φ) : Pipeline φ :=
  match p.writer, p.queue with
  | .waiting, .flow call :: rest => { p with queue := rest, writer := .holding call }
  | .waiting, .stop :: rest => { p with queue := rest, writer := .stopping }
  | _, _ => p

def taskDone (p : Pipeline φ) : Pipeline φ :=
  match p.writer with
  | .handed _ => { p with writer := .waiting }
  | .stopping => { p with writer := .leaving }
  | _ => p

/-- What `close` does once it holds the close lock. -/
def lock (p : Pipeline φ) (k : Nat) : Pipeline φ :=
  if p.closeLocked then p
  else if p.state = .closed then p.setCloser k (.returned true)
  else { p.setCloser k .admitting with state := .closing, closeLocked := true }

/-- A writer that is not alive is started again. -/
def awaitAdmissions (p : Pipeline φ) (k : Nat) : Pipeline φ :=
  if p.activeAdmissions = 0 then
    { p.setCloser k .flushing with writer := if p.writer = .finished then .waiting else p.writer }
  else p

def stop (p : Pipeline φ) (k : Nat) : Pipeline φ :=
  if p.stopEnqueued then p.setCloser k .joining
  else if p.queue.length < p.capacity then
    { p.setCloser k .joining with queue := p.queue ++ [.stop], stopEnqueued := true }
  else { p.setCloser k (.returned false) with closeLocked := false }

def step (p : Pipeline φ) : Move φ → Pipeline φ
  | .enqueue flow => p.enqueue flow
  | .put i => match p.calls[i]? with
    | some ⟨flow, .admitted, earlier⟩ => p.put i ⟨flow, .admitted, earlier⟩
    | _ => p
  | .fallBack i history archive => match p.calls[i]? with
    | some ⟨flow, .overflowing, earlier⟩ =>
      (p.handOver i history archive).setStage i ⟨flow, .overflowing, earlier⟩ .leaving
    | _ => p
  | .leave i => match p.calls[i]? with
    | some ⟨flow, .leaving, earlier⟩ =>
      { p.setStage i ⟨flow, .leaving, earlier⟩ .returned with activeAdmissions := p.activeAdmissions - 1 }
    | _ => p
  | .get => p.get
  | .persist history archive => match p.writer with
    | .holding call => { p.handOver call history archive with writer := .handed call }
    | _ => p
  | .taskDone => p.taskDone
  | .retire => match p.writer with
    | .leaving => { p with writer := .finished, state := .closed }
    | _ => p
  | .close => { p with closers := p.closers ++ [.locking] }
  | .lock k => match p.closers[k]? with
    | some .locking => p.lock k
    | _ => p
  | .lockTimeout k => match p.closers[k]? with
    | some .locking => p.setCloser k (.returned (p.state = .closed))
    | _ => p
  | .awaitAdmissions k => match p.closers[k]? with
    | some .admitting => p.awaitAdmissions k
    | _ => p
  | .flush k => match p.closers[k]? with
    | some .flushing => if p.unfinished = 0 then p.setCloser k .stopping else p
    | _ => p
  | .stop k => match p.closers[k]? with
    | some .stopping => p.stop k
    | _ => p
  | .join k => match p.closers[k]? with
    | some .joining => { p.setCloser k (.returned (p.state = .closed)) with closeLocked := false }
    | _ => p
  | .giveUp k => match p.closers[k]? with
    | some .admitting => { p.setCloser k (.returned false) with closeLocked := false }
    | some .flushing => { p.setCloser k (.returned false) with closeLocked := false }
    | _ => p

/-! ## What every step keeps -/

def stage (p : Pipeline φ) (i : Nat) : Option Stage := p.calls[i]?.map Call.stage

def earlier (p : Pipeline φ) (i : Nat) : List Nat := (p.calls[i]?.map Call.earlier).getD []

/-- The flows that the writer still has to hand over, in the order of its turns. -/
def waiting (p : Pipeline φ) : List Nat := p.writer.held.toList ++ p.queue.filterMap Item.call?

def line (p : Pipeline φ) : List Nat := p.sinks ++ p.waiting

/-- No call is admitted any more, and none is under way. -/
def Quiet (p : Pipeline φ) : Prop := p.state ≠ .opened ∧ p.activeAdmissions = 0

/-- The pipeline is about to stop its writer, or it has. -/
def Ending (p : Pipeline φ) : Prop :=
  p.stopEnqueued ∨ .stop ∈ p.queue ∨ p.writer.stopped ∨ p.state = .closed ∨
    .stopping ∈ p.closers ∨ .joining ∈ p.closers ∨ .returned true ∈ p.closers

structure Sound (p : Pipeline φ) : Prop where
  once : ∀ i, p.line.count i = ((p.stage i).any Stage.given).toNat
  earlier : ∀ i, ∀ j ∈ p.earlier i, j < i ∧ p.stage j = some .returned
  active : p.activeAdmissions = p.calls.countP (·.stage.active)
  admitting : .admitting ∈ p.closers → p.state ≠ .opened
  flushing : .flushing ∈ p.closers → p.Quiet
  ending : p.Ending → p.Quiet ∧ p.waiting = []

section Steps

variable {p p' : Pipeline φ} {i j : Nat} {call : Call φ} {now : Stage}

theorem stage_congr (same : p'.calls = p.calls) : p'.stage i = p.stage i := by
  rw [stage, same, stage]

theorem earlier_congr (same : p'.calls = p.calls) : p'.earlier i = p.earlier i := by
  rw [earlier, same, earlier]

theorem stage_of (found : p.calls[i]? = some call) : p.stage i = some call.stage := by
  rw [stage, found]
  rfl

theorem stage_set (now : Stage) (found : p.calls[i]? = some call) :
    (p.setStage i call now).stage j = if j = i then some now else p.stage j := by
  split
  next same =>
    subst same
    rw [stage, setStage, get_set_self found]
    rfl
  next other => rw [stage, setStage, List.getElem?_set_ne (Ne.symm other), stage]

theorem earlier_set (now : Stage) (found : p.calls[i]? = some call) :
    (p.setStage i call now).earlier j = p.earlier j := by
  by_cases same : j = i
  · subst same
    rw [earlier, setStage, get_set_self found, earlier, found]
    rfl
  · rw [earlier, setStage, List.getElem?_set_ne (Ne.symm same), earlier]

theorem Sound.busy (h : p.Sound) (found : p.calls[i]? = some call) (active : call.stage.active) :
    ¬p.Quiet := by
  rintro ⟨-, none⟩
  have : 0 < p.calls.countP (·.stage.active) :=
    List.countP_pos_iff.mpr ⟨call, List.mem_of_getElem? found, active⟩
  rw [← h.active, none] at this
  exact Nat.lt_irrefl 0 this

theorem Sound.move (h : p.Sound) (calls : p'.calls = p.calls) (line : p'.line = p.line)
    (waiting : p.waiting = [] → p'.waiting = []) (active : p'.activeAdmissions = p.activeAdmissions)
    (state : p.state ≠ .opened → p'.state ≠ .opened)
    (admitting : .admitting ∈ p'.closers → .admitting ∈ p.closers ∨ p'.state ≠ .opened)
    (flushing : .flushing ∈ p'.closers → .flushing ∈ p.closers ∨ p'.Quiet)
    (ending : p'.Ending → p.Ending ∨ p'.Quiet ∧ p'.waiting = []) : p'.Sound where
  once i := by rw [line, stage_congr calls, h.once]
  earlier i j early := by
    rw [stage_congr calls]
    exact h.earlier i j (earlier_congr calls ▸ early)
  active := by rw [active, calls, h.active]
  admitting now := (admitting now).elim (fun before => state (h.admitting before)) id
  flushing now := (flushing now).elim
    (fun before => ⟨state (h.flushing before).1, active.trans (h.flushing before).2⟩) id
  ending now := (ending now).elim
    (fun before =>
      ⟨⟨state (h.ending before).1.1, active.trans (h.ending before).1.2⟩, waiting (h.ending before).2⟩) id

theorem Sound.advance (now : Stage) (h : p.Sound) (found : p.calls[i]? = some call) 
    (underWay : call.stage.active) (calls : p'.calls = (p.setStage i call now).calls)
    (others : ∀ k, k ≠ i → p'.line.count k = p.line.count k)
    (once : p'.line.count i + call.stage.given.toNat = p.line.count i + now.given.toNat)
    (admissions : p'.activeAdmissions + 1 = p.activeAdmissions + now.active.toNat)
    (state : p'.state = p.state) (closers : p'.closers = p.closers) (ending : p'.Ending → p.Ending) :
    p'.Sound where
  once k := by
    rw [stage_congr calls, stage_set now found]
    split
    next here =>
      have before := h.once i
      rw [stage_of found] at before
      subst here
      cases was : call.stage.given <;> cases is : now.given <;> simp_all
    next other => rw [others k other, h.once]
  earlier k j early := by
    obtain ⟨lt, returned⟩ := h.earlier k j ((earlier_congr calls).trans (earlier_set now found) ▸ early)
    refine ⟨lt, ?_⟩
    rw [stage_congr calls, stage_set now found, if_neg]
    · exact returned
    · rintro rfl
      rw [stage_of found] at returned
      rw [Option.some.inj returned] at underWay
      cases underWay
  active := by
    have counted := countP_set (·.stage.active) { call with stage := now } found
    rw [underWay, ← h.active, Bool.toNat_true, ← admissions] at counted
    rw [calls]
    exact (Nat.add_right_cancel counted).symm
  admitting now := state ▸ h.admitting (closers ▸ now)
  flushing now := absurd (h.flushing (closers ▸ now)) (h.busy found underWay)
  ending now := absurd (h.ending (ending now)).1 (h.busy found underWay)

theorem line_snoc (item : Item) (same : p'.queue = p.queue ++ [item])
    (writer : p'.writer = p.writer) (sinks : p'.sinks = p.sinks) :
    p'.line = p.line ++ item.call?.toList := by
  simp only [line, waiting, same, writer, sinks, List.filterMap_append, List.append_assoc]
  cases item <;> rfl

theorem mem_returnedCalls : j ∈ p.returnedCalls ↔ j < p.calls.length ∧ p.stage j = some .returned := by
  simp [returnedCalls, stage]

theorem stage_some {now : Stage} (h : p.stage j = some now) : j < p.calls.length := by
  obtain ⟨call, found, -⟩ := Option.map_eq_some_iff.mp h
  exact lt_of_get found

theorem Sound.append {flow : φ} (h : p.Sound)
    (calls : p'.calls = p.calls ++ [⟨flow, now, p.returnedCalls⟩]) (fresh : now.given = false)
    (waiting : p'.waiting = p.waiting) (sinks : p'.sinks = p.sinks)
    (admissions : p'.activeAdmissions = p.activeAdmissions + now.active.toNat)
    (quiet : p.Quiet → p'.Quiet) (state : p'.state = p.state) (closers : p'.closers = p.closers)
    (ending : p'.Ending → p.Ending) : p'.Sound := by
  have stages : ∀ i, i < p.calls.length → p'.stage i = p.stage i := by
    intro i inside
    rw [stage, calls, List.getElem?_append_left inside, stage]
  have last : p'.stage p.calls.length = some now := by
    rw [stage, calls, List.getElem?_append_right (Nat.le_refl _), Nat.sub_self]
    rfl
  have beyond : ∀ q : Pipeline φ, ∀ i, q.calls.length ≤ i → q.stage i = none := by
    intro q i outside
    rw [stage, List.getElem?_eq_none outside]
    rfl
  have longer : p'.calls.length = p.calls.length + 1 := by rw [calls, List.length_append]; rfl
  constructor
  case once =>
    intro i
    rw [line, sinks, waiting]
    refine (h.once i).trans ?_
    rcases Nat.lt_trichotomy i p.calls.length with inside | rfl | outside
    · rw [stages i inside]
    · rw [last, beyond p _ (Nat.le_refl _)]
      simp [fresh]
    · rw [beyond p i (Nat.le_of_lt outside), beyond p' i (longer ▸ outside)]
  case earlier =>
    intro i j early
    have before : j < i ∧ p.stage j = some .returned := by
      rcases Nat.lt_trichotomy i p.calls.length with inside | rfl | outside
      · rw [Pipeline.earlier, calls, List.getElem?_append_left inside] at early
        exact h.earlier i j early
      · rw [Pipeline.earlier, calls, List.getElem?_append_right (Nat.le_refl _), Nat.sub_self] at early
        exact mem_returnedCalls.1 early
      · rw [Pipeline.earlier, List.getElem?_eq_none (longer ▸ outside)] at early
        cases early
    exact ⟨before.1, (stages j (stage_some before.2)).trans before.2⟩
  case active =>
    rw [calls, List.countP_append, admissions, h.active]
    cases is : now.active <;> simp [is]
  case admitting => exact fun now => state ▸ h.admitting (closers ▸ now)
  case flushing => exact fun now => quiet (h.flushing (closers ▸ now))
  case ending => exact fun now => ⟨quiet (h.ending (ending now)).1, waiting ▸ (h.ending (ending now)).2⟩

theorem Sound.enqueue (h : p.Sound) (flow : φ) : (p.enqueue flow).Sound := by
  rw [Pipeline.enqueue]
  split
  next opened => exact h.append rfl rfl rfl rfl rfl (fun quiet => absurd opened quiet.1) rfl rfl id
  next => exact h.append rfl rfl rfl rfl rfl id rfl rfl id

theorem Sound.put (h : p.Sound) (found : p.calls[i]? = some call) (admitted : call.stage = .admitted) :
    (p.put i call).Sound := by
  have underWay : call.stage.active := by rw [admitted]; rfl
  rw [Pipeline.put]
  split
  next =>
    have line : ({ p.setStage i call .leaving with queue := p.queue ++ [Item.flow i] }).line =
        p.line ++ [i] :=
      line_snoc (.flow i) rfl rfl rfl
    refine h.advance .leaving found underWay rfl (fun k other => ?_) ?_ rfl rfl rfl ?_
    · rw [line, List.count_append]
      simp [Ne.symm other]
    · rw [line, List.count_append, admitted]
      simp [Stage.given]
    · simp [Ending, setStage]
  next => exact h.advance .overflowing found underWay rfl (fun _ _ => rfl) (by rw [admitted]; rfl) rfl rfl rfl id

theorem Sound.fallBack (h : p.Sound) (found : p.calls[i]? = some call)
    (overflowing : call.stage = .overflowing) (history archive : Bool) :
    ((p.handOver i history archive).setStage i call .leaving).Sound := by
  have line : ((p.handOver i history archive).setStage i call .leaving).line =
      p.sinks ++ [i] ++ p.waiting := rfl
  refine h.advance .leaving found (by rw [overflowing]; rfl) rfl (fun k other => ?_) ?_ rfl rfl rfl id
  · rw [line, Pipeline.line, List.count_append, List.count_append, List.count_append]
    simp [Ne.symm other]
  · rw [line, Pipeline.line, overflowing, List.count_append, List.count_append, List.count_append]
    simp [Stage.given]
    omega

theorem Sound.leave (h : p.Sound) (found : p.calls[i]? = some call) (leaving : call.stage = .leaving) :
    ({ p.setStage i call .returned with activeAdmissions := p.activeAdmissions - 1 }).Sound := by
  have underWay : call.stage.active := by rw [leaving]; rfl
  have some_active : 0 < p.activeAdmissions :=
    h.active ▸ List.countP_pos_iff.mpr ⟨call, List.mem_of_getElem? found, underWay⟩
  exact h.advance .returned found underWay rfl (fun _ _ => rfl) (by rw [leaving]; rfl)
    (Nat.sub_add_cancel some_active) rfl rfl id

theorem waiting_take {item : Item} {rest : List Item} (writer : Writer) (waits : p.writer = .waiting)
    (queued : p.queue = item :: rest) (held : writer.held = item.call?) :
    ({ p with queue := rest, writer := writer } : Pipeline φ).waiting = p.waiting := by
  rw [waiting, waiting, waits, queued, held]
  cases item <;> rfl

theorem waiting_writer (writer : Writer) (was : p.writer.held = none) (is : writer.held = none) :
    ({ p with writer := writer } : Pipeline φ).waiting = p.waiting := by
  rw [waiting, waiting, was, is]

theorem waiting_stop : ({ p with queue := p.queue ++ [.stop], stopEnqueued := true } : Pipeline φ).waiting =
    p.waiting := by
  rw [waiting, List.filterMap_append, ← List.append_assoc]
  exact List.append_nil _

theorem line_persist (holds : p.writer = .holding i) (history archive : Bool) :
    ({ p.handOver i history archive with writer := .handed i }).line = p.line := by
  simp [line, waiting, holds, handOver, Writer.held]

theorem Sound.get (h : p.Sound) : p.get.Sound := by
  rw [Pipeline.get]
  split
  next call rest waits queued =>
    have line := waiting_take (.holding call) waits queued rfl
    refine h.move rfl (congrArg (p.sinks ++ ·) line) line.trans rfl id .inl .inl fun ending => .inl ?_
    simpa [Ending, waits, queued, Writer.stopped] using ending
  next rest waits queued =>
    have line := waiting_take .stopping waits queued rfl
    refine h.move rfl (congrArg (p.sinks ++ ·) line) line.trans rfl id .inl .inl fun _ => .inl ?_
    exact .inr (.inl (queued ▸ List.mem_cons_self))
  next => exact h

theorem Sound.persist (h : p.Sound) (holds : p.writer = .holding i) (history archive : Bool) :
    ({ p.handOver i history archive with writer := .handed i }).Sound := by
  refine h.move rfl (line_persist holds history archive) (fun none => ?_) rfl id .inl .inl fun ending => .inl ?_
  · rw [waiting, holds] at none
    cases none
  · simpa [Ending, holds, handOver, Writer.stopped] using ending

theorem Sound.taskDone (h : p.Sound) : p.taskDone.Sound := by
  rw [Pipeline.taskDone]
  split
  next call handed =>
    have line := waiting_writer (p := p) .waiting (by rw [handed]; rfl) rfl
    refine h.move rfl (congrArg (p.sinks ++ ·) line) line.trans rfl id .inl .inl fun ending => .inl ?_
    simpa [Ending, handed, Writer.stopped] using ending
  next stopping =>
    have line := waiting_writer (p := p) .leaving (by rw [stopping]; rfl) rfl
    refine h.move rfl (congrArg (p.sinks ++ ·) line) line.trans rfl id .inl .inl fun _ => .inl ?_
    exact .inr (.inr (.inl (stopping ▸ rfl)))
  next => exact h

theorem Sound.retire (h : p.Sound) (leaving : p.writer = .leaving) :
    ({ p with writer := .finished, state := .closed }).Sound := by
  have line : ({ p with writer := .finished, state := .closed } : Pipeline φ).waiting = p.waiting :=
    waiting_writer _ (by rw [leaving]; rfl) rfl
  refine h.move rfl (congrArg (p.sinks ++ ·) line) line.trans rfl (fun _ same => by cases same) .inl .inl
    fun _ => .inl ?_
  exact .inr (.inr (.inl (leaving ▸ rfl)))

theorem Sound.closing (h : p.Sound) (k : Nat) (closer : Closer) (locked : Bool)
    (admitting : closer = .admitting → p.state ≠ .opened) (flushing : closer = .flushing → p.Quiet)
    (ending : closer = .stopping ∨ closer = .joining ∨ closer = .returned true → p.Quiet ∧ p.waiting = []) :
    ({ p.setCloser k closer with closeLocked := locked }).Sound := by
  have mem : ∀ {c}, c ∈ p.closers.set k closer → c ∈ p.closers ∨ c = closer := List.mem_or_eq_of_mem_set
  refine h.move rfl rfl id rfl id (fun now => (mem now).imp id fun same => admitting same.symm)
    (fun now => (mem now).imp id fun same => flushing same.symm) ?_
  simp only [Ending, setCloser]
  rintro (before | before | before | before | now | now | now)
  · exact .inl (.inl before)
  · exact .inl (.inr (.inl before))
  · exact .inl (.inr (.inr (.inl before)))
  · exact .inl (.inr (.inr (.inr (.inl before))))
  · exact (mem now).imp (fun before => .inr (.inr (.inr (.inr (.inl before))))) fun same =>
      ending (.inl same.symm)
  · exact (mem now).imp (fun before => .inr (.inr (.inr (.inr (.inr (.inl before)))))) fun same =>
      ending (.inr (.inl same.symm))
  · exact (mem now).imp (fun before => .inr (.inr (.inr (.inr (.inr (.inr before)))))) fun same =>
      ending (.inr (.inr same.symm))

theorem Sound.lock {k : Nat} (h : p.Sound) : (p.lock k).Sound := by
  rw [Pipeline.lock]
  split
  next => exact h
  next =>
    split
    next closed =>
      refine h.closing k _ p.closeLocked (by simp) (by simp) fun _ => ?_
      exact h.ending (.inr (.inr (.inr (.inl closed))))
    next live =>
      have admits : ({ p with state := .closing } : Pipeline φ).Sound :=
        h.move rfl rfl id rfl (by simp) .inl .inl (by simpa [Ending, live] using .inl)
      exact admits.closing k .admitting true (by simp) (by simp) (by simp)

theorem Sound.awaitAdmissions {k : Nat} (h : p.Sound) (admitting : p.closers[k]? = some .admitting) :
    (p.awaitAdmissions k).Sound := by
  have closing := h.admitting (List.mem_of_getElem? admitting)
  rw [Pipeline.awaitAdmissions]
  split
  next none =>
    have revived : ({ p with writer := if p.writer = .finished then .waiting else p.writer } : Pipeline φ).Sound := by
      split
      next finished =>
        have line := waiting_writer (p := p) .waiting (by rw [finished]; rfl) rfl
        refine h.move rfl (congrArg (p.sinks ++ ·) line) line.trans rfl id .inl .inl fun ending => .inl ?_
        exact ending.imp_right (Or.imp_right fun rest => .inr (rest.resolve_left (by simp [Writer.stopped])))
      next => exact h
    exact revived.closing k .flushing p.closeLocked (by simp) (fun _ => ⟨closing, none⟩) (by simp)
  next => exact h

theorem Sound.flush {k : Nat} (h : p.Sound) (flushing : p.closers[k]? = some .flushing)
    (finished : p.unfinished = 0) : (p.setCloser k .stopping).Sound := by
  have quiet := h.flushing (List.mem_of_getElem? flushing)
  refine h.closing k _ p.closeLocked (by simp) (by simp) fun _ => ⟨quiet, ?_⟩
  obtain ⟨empty, idle⟩ := Nat.add_eq_zero_iff.mp finished
  rw [waiting, List.eq_nil_of_length_eq_zero empty]
  cases writer : p.writer <;> simp_all [Writer.busy, Writer.held]

theorem Sound.stop {k : Nat} (h : p.Sound) (stopping : p.closers[k]? = some .stopping) :
    (p.stop k).Sound := by
  have ending := h.ending (.inr (.inr (.inr (.inr (.inl (List.mem_of_getElem? stopping))))))
  rw [Pipeline.stop]
  split
  next => exact h.closing k _ p.closeLocked (by simp) (by simp) fun _ => ending
  next =>
    split
    next =>
      have stopped : ({ p with queue := p.queue ++ [.stop], stopEnqueued := true } : Pipeline φ).Sound :=
        h.move rfl (congrArg (p.sinks ++ ·) waiting_stop) waiting_stop.trans rfl id .inl .inl fun _ =>
          .inr ⟨ending.1, waiting_stop.trans ending.2⟩
      exact stopped.closing k .joining p.closeLocked (by simp) (by simp) fun _ =>
        ⟨ending.1, waiting_stop.trans ending.2⟩
    next => exact h.closing k _ false (by simp) (by simp) (by simp)

theorem Sound.join {k : Nat} (h : p.Sound) (joining : p.closers[k]? = some .joining) :
    ({ p.setCloser k (.returned (p.state = .closed)) with closeLocked := false } : Pipeline φ).Sound :=
  h.closing k _ false (by simp) (by simp) fun _ =>
    h.ending (.inr (.inr (.inr (.inr (.inr (.inl (List.mem_of_getElem? joining)))))))

theorem Sound.close (h : p.Sound) : ({ p with closers := p.closers ++ [.locking] } : Pipeline φ).Sound :=
  h.move rfl rfl id rfl id (by simpa using .inl) (by simpa using .inl) (by simpa [Ending] using .inl)

theorem Sound.step (h : p.Sound) (move : Move φ) : (p.step move).Sound := by
  cases move with
  | enqueue flow => exact h.enqueue flow
  | put i =>
    simp only [Pipeline.step]
    split
    next found => exact h.put found rfl
    next => exact h
  | fallBack i history archive =>
    simp only [Pipeline.step]
    split
    next found => exact h.fallBack found rfl history archive
    next => exact h
  | leave i =>
    simp only [Pipeline.step]
    split
    next found => exact h.leave found rfl
    next => exact h
  | get => exact h.get
  | persist history archive =>
    simp only [Pipeline.step]
    split
    next holds => exact h.persist holds history archive
    next => exact h
  | taskDone => exact h.taskDone
  | retire =>
    simp only [Pipeline.step]
    split
    next leaving => exact h.retire leaving
    next => exact h
  | close => exact h.close
  | lock k =>
    simp only [Pipeline.step]
    split
    next => exact h.lock
    next => exact h
  | lockTimeout k =>
    simp only [Pipeline.step]
    split
    next =>
      refine h.closing k _ p.closeLocked (by simp) (by simp) fun closed => ?_
      exact h.ending (.inr (.inr (.inr (.inl (by simpa using closed)))))
    next => exact h
  | awaitAdmissions k =>
    simp only [Pipeline.step]
    split
    next admitting => exact h.awaitAdmissions admitting
    next => exact h
  | flush k =>
    simp only [Pipeline.step]
    split
    next flushing =>
      split
      next finished => exact h.flush flushing finished
      next => exact h
    next => exact h
  | stop k =>
    simp only [Pipeline.step]
    split
    next stopping => exact h.stop stopping
    next => exact h
  | join k =>
    simp only [Pipeline.step]
    split
    next joining => exact h.join joining
    next => exact h
  | giveUp k =>
    simp only [Pipeline.step]
    split
    next => exact h.closing k _ false (by simp) (by simp) (by simp)
    next => exact h.closing k _ false (by simp) (by simp) (by simp)
    next => exact h

theorem sound_start (capacity : Int) : (Pipeline.start capacity : Pipeline φ).Sound where
  once _ := rfl
  earlier _ _ early := by cases early
  active := rfl
  admitting now := by cases now
  flushing now := by cases now
  ending now := by simp [Ending, start, Writer.stopped] at now

theorem sound_run (capacity : Int) (moves : List (Move φ)) :
    (run step (Pipeline.start capacity : Pipeline φ) moves).Sound :=
  induct (P := fun _ _ => True) (I := fun _ (p : Pipeline φ) => p.Sound) (sound_start capacity)
    (fun _ move _ h => h.step move) moves fun _ _ _ _ => trivial

end Steps

end Pipeline

end Arenyxa.Capture.Persistence
