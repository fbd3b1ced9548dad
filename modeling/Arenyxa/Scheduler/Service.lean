import Arenyxa.Lib.Table
import Arenyxa.Lib.Trace
import Mathlib.Data.Finset.Erase
import Mathlib.Data.Finset.Insert
import Mathlib.Data.List.Range
import Mathlib.Tactic.Linarith

/-! The rules of the scheduler: their validation, and the next moment that one names. -/

namespace Arenyxa.Scheduler

inductive RuleKind
  | interval | daily | weekly
  | other (text : String)
  deriving DecidableEq

structure ScheduleRule where
  kind : RuleKind
  intervalMinutes : Int
  hour : Int
  minute : Int
  weekdays : List Int
  timezone : String

/-- An entry of the time zone database. Instants are microseconds since the first of UTC that is
representable, dates are their ordinals, and `none` is an `OverflowError`. -/
structure Zone where
  date : Int → Option Int
  /-- The instant of an hour and a minute on a date, with `fold=0`. -/
  instant : Int → Int → Int → Option Int
  /-- The clock does not go back from one date into the one before. -/
  later : ∀ {moment today day hour minute candidate : Int}, date moment = some today → today < day →
    instant day hour minute = some candidate → moment < candidate

inductive RuleFault
  | value (message : String)
  | overflow
  | runtime (message : String)

/-- `astimezone(UTC)`. -/
def utc? (moment : Int) : Option Int :=
  if 0 ≤ moment ∧ moment < 315537897600000000 then some moment else none

def lastDay : Int := 3652059

def weekday (day : Int) : Int := (day + 6) % 7

variable (zones : String → Option Zone)

/-- The message of the `ValueError`, where one is raised. -/
def ScheduleRule.validate (r : ScheduleRule) : Option String :=
  match r.kind with
  | .other text => some ("不支持的计划类型：" ++ text)
  | kind =>
    if ¬(1 ≤ r.intervalMinutes ∧ r.intervalMinutes ≤ 525600) then
      some "计划间隔必须位于 1 到 525600 分钟。"
    else if ¬(0 ≤ r.hour ∧ r.hour ≤ 23) then some "计划小时必须位于 0 到 23。"
    else if ¬(0 ≤ r.minute ∧ r.minute ≤ 59) then some "计划分钟必须位于 0 到 59。"
    else if r.weekdays.any fun day => day < 0 || day > 6 then some "weekdays 只能包含 0 到 6。"
    else if kind = .weekly ∧ r.weekdays = [] then some "每周计划至少需要选择一天。"
    else if (zones r.timezone).isNone then
      some ("未知时区：" ++ r.timezone ++ "。Windows 源码环境必须安装 tzdata。")
    else none

/-- The days that `next_after` tries, from their offsets. -/
def ScheduleRule.search (r : ScheduleRule) (zone : Zone) (moment today : Int) :
    List Nat → Except RuleFault Int
  | [] => .error (.runtime "无法计算下一次计划运行时间。")
  | offset :: rest =>
    let day := today + offset
    if lastDay < day then .error .overflow
    else if r.kind = .weekly ∧ weekday day ∉ r.weekdays then r.search zone moment today rest
    else match zone.instant day r.hour r.minute with
      | none => .error .overflow
      | some candidate => if moment < candidate then .ok candidate else r.search zone moment today rest

def ScheduleRule.nextAfter (r : ScheduleRule) (moment : Int) : Except RuleFault Int :=
  match r.validate zones, zones r.timezone with
  | some message, _ => .error (.value message)
  | none, none => .error (.value r.timezone)
  | none, some zone =>
    if r.kind = .interval then
      match utc? (moment + r.intervalMinutes * 60000000) with
      | none => .error .overflow
      | some next => if (zone.date next).isNone then .error .overflow else .ok next
    else match zone.date moment with
      | none => .error .overflow
      | some today => r.search zone moment today (List.range 8)

variable {zones} {r : ScheduleRule} {zone : Zone} {moment today : Int}

theorem search_found {offsets : List Nat} (here : zone.date moment = some today)
    (some' : ∃ offset ∈ offsets, 0 < offset ∧
      (r.kind = .weekly → weekday (today + (offset : Int)) ∈ r.weekdays)) (message : String) :
    r.search zone moment today offsets ≠ .error (.runtime message) := by
  induction offsets with
  | nil =>
    obtain ⟨_, mem, _⟩ := some'
    cases mem
  | cons offset rest ih =>
    obtain ⟨o, mem, positive, selected⟩ := some'
    have further (other : ¬(o = offset)) :
        r.search zone moment today rest ≠ .error (.runtime message) := by
      refine ih ⟨o, ?_, positive, selected⟩
      exact (List.mem_cons.mp mem).resolve_left other
    rw [ScheduleRule.search]
    split
    · nofun
    split
    next skipped => exact further fun same => skipped.2 (same ▸ selected skipped.1)
    split
    next => nofun
    next candidate found =>
      split
      next => nofun
      next early =>
        refine further fun same => early (zone.later here ?_ found)
        subst same
        exact lt_add_of_pos_right today (Int.natCast_pos.mpr positive)

theorem validate_none (h : r.validate zones = none) :
    (∀ day ∈ r.weekdays, 0 ≤ day ∧ day ≤ 6) ∧ (r.kind = .weekly → r.weekdays ≠ []) ∧
      (1 ≤ r.intervalMinutes) ∧ (zones r.timezone).isSome := by
  rw [ScheduleRule.validate] at h
  split at h
  · cases h
  next kind =>
    split_ifs at h with interval hour minute days weekly zone
    refine ⟨fun day mem => ?_, fun same empty => weekly ⟨same, empty⟩, interval.1, ?_⟩
    · by_contra outside
      refine days (List.any_eq_true.mpr ⟨day, mem, ?_⟩)
      simp only [Bool.or_eq_true, decide_eq_true_eq]
      omega
    · cases found : zones r.timezone with
      | none => simp [found] at zone
      | some _ => rfl

theorem nextAfter_found (message : String) :
    r.nextAfter zones moment ≠ .error (.runtime message) := by
  rw [ScheduleRule.nextAfter]
  split
  · nofun
  · nofun
  next zone valid found =>
    obtain ⟨days, weekly, -⟩ := validate_none valid
    split
    · split
      · nofun
      · split
        · nofun
        · nofun
    · split
      · nofun
      next today here =>
        refine search_found here ?_ message
        by_cases same : r.kind = .weekly
        · obtain ⟨day, rest, all⟩ := List.exists_cons_of_ne_nil (weekly same)
          obtain ⟨least, most⟩ := days day (all ▸ List.mem_cons_self)
          -- The offset of the first such weekday after today.
          refine ⟨((day - today - 7) % 7).toNat + 1, by simp only [List.mem_range]; omega,
            Nat.succ_pos _, fun _ => ?_⟩
          have that : weekday (today + ((((day - today - 7) % 7).toNat + 1 : Nat) : Int)) = day := by
            rw [weekday]
            omega
          rw [that, all]
          exact List.mem_cons_self
        · exact ⟨1, by decide, Nat.one_pos, fun weekly => absurd weekly same⟩

end Arenyxa.Scheduler

/-! The scheduler service, between its threads. A step is what one thread does under `_condition`.
What it does under `_definition_io_lock` after that is `writing` until the persistence callbacks
have returned. Nothing here begins a shutdown, so the executor accepts every submission. -/

universe u

namespace Arenyxa.Scheduler

/-- An entry of `_jobs`. Callbacks are compared by identity. -/
structure Job (κ : Type u) where
  id : String
  rule : ScheduleRule
  nextRun : Int
  callback : κ
  enabled : Bool

instance {κ : Type u} : Keyed (Job κ) String := ⟨Job.id⟩

/-- An entry of the `callbacks` of a pass. The tickets number the selections. -/
structure Invocation (κ : Type u) where
  schedule : String
  callback : κ
  following : Int
  generation : Nat
  ticket : Nat

/-- An entry of the `rescheduled` of a pass. -/
structure Reschedule where
  schedule : String
  nextRun : Int
  generation : Nat

/-- How far the future of an invocation is. -/
inductive Stage
  | queued
  /-- A worker runs it, and has not made the start check. -/
  | claimed
  | executing (attemptedAt : Int)
  /-- In the persistence callbacks after the callback. -/
  | reporting
  /-- It is done or cancelled, and `_callback_done` is still to come. -/
  | returned

/-- Past the start check and not finished. -/
def Stage.started : Stage → Bool
  | .executing _ | .reporting => true
  | .queued | .claimed | .returned => false

/-- The callback has not been tried, or what it leaves is not yet persisted. -/
def Stage.awaited : Stage → Bool
  | .queued | .claimed | .executing _ => true
  | .reporting | .returned => false

structure Work (κ : Type u) where
  invocation : Invocation κ
  stage : Stage

inductive Holder
  | caller | scheduler
  | worker (future : Nat)
  deriving DecidableEq

/-- What the holder of `_definition_io_lock` is about to persist. -/
structure Writing where
  holder : Holder
  executed : Option Int
  schedule : String
  nextRun : Int

structure Service (κ : Type u) where
  jobs : Table (Job κ)
  generations : String → Option Nat
  counter : Nat
  running : Finset String
  futures : String → Option Nat
  rescheduled : List Reschedule
  callbacks : List (Invocation κ)
  works : Nat → Option (Work κ)
  submitted : Nat
  /-- The futures that a change of a definition has read, to cancel them outside of its locks. -/
  cancelling : List Nat
  writing : Option Writing
  /-- What `on_executed` and `on_reschedule` were called with last, the latter since the schedule
  was defined or enabled. -/
  executed : String → Option Int
  persisted : String → Option Int
  /-- The next run with which the schedule was defined or enabled. -/
  defined : String → Int
  selections : Nat

inductive Action (κ : Type u)
  | add (id : String) (rule : ScheduleRule) (callback : κ) (enabled : Bool) (nextRun : Option Int)
    (now : Int)
  | setEnabled (id : String) (enabled : Bool) (now : Int)
  | remove (id : String)
  | collect (now : Int)
  | reschedule
  | submit
  | claim (future : Nat)
  | start (future : Nat) (now : Int)
  | finish (future : Nat)
  | persist
  | cancel (future : Nat)
  | callbackDone (future : Nat)

variable {κ : Type u}

namespace Service

def created : Service κ :=
  ⟨.empty, fun _ => none, 0, ∅, fun _ => none, [], [], fun _ => none, 0, [], none, fun _ => none,
    fun _ => none, fun _ => 0, 0⟩

/-- The entry and a fresh generation for it. -/
def define (s : Service κ) (job : Job κ) : Service κ :=
  { s with
    jobs := s.jobs.assign job
    generations := Function.update s.generations job.id (some (s.counter + 1))
    counter := s.counter + 1 }

def forget (s : Service κ) (id : String) : Service κ :=
  { s with jobs := s.jobs.erase id, generations := Function.update s.generations id none }

/-- From here on it counts what is persisted for the schedule. -/
def basedOn (s : Service κ) (id : String) (nextRun : Int) : Service κ :=
  { s with
    persisted := Function.update s.persisted id none
    defined := Function.update s.defined id nextRun }

/-- The future of the schedule is read, to be cancelled. -/
def cancelFuture (s : Service κ) (id : String) : Service κ :=
  { s with cancelling := (s.futures id).toList ++ s.cancelling }

/-- The persistence callback is called under the lock that the step keeps. -/
def write (s : Service κ) (holder : Holder) (executed : Option Int) (id : String) (nextRun : Int) :
    Service κ :=
  { s with writing := some ⟨holder, executed, id, nextRun⟩ }

variable (zones : String → Option Zone)

def add (s : Service κ) (id : String) (rule : ScheduleRule) (callback : κ) (enabled : Bool)
    (nextRun : Option Int) (now : Int) : Option (Service κ) :=
  if id = "" ∨ (rule.validate zones).isSome ∨ s.writing.isSome then none
  else match nextRun.elim (rule.nextAfter zones now) .ok with
    | .error _ => none
    | .ok dueAt =>
      let defined := (s.define ⟨id, rule, dueAt, callback, enabled⟩).basedOn id dueAt
      if (s.jobs.get? id).isSome then some ((defined.cancelFuture id).write .caller none id dueAt)
      else some defined

def setEnabled (s : Service κ) (id : String) (enabled : Bool) (now : Int) : Option (Service κ) :=
  if s.writing.isSome then none
  else match s.jobs.get? id with
    | none => none
    | some job =>
      match job.enabled, enabled with
      | true, true | false, false => some s
      | true, false => some ((s.define { job with enabled := false }).cancelFuture id)
      | false, true =>
        match job.rule.nextAfter zones now with
        | .error _ => none
        | .ok nextRun =>
          some (((s.define { job with nextRun := nextRun, enabled := true }).basedOn id nextRun).write
            .caller none id nextRun)

def remove (s : Service κ) (id : String) : Option (Service κ) :=
  if s.writing.isSome then none else some ((s.forget id).cancelFuture id)

/-- The thread of `_run` is inside the persistence callback. -/
def rescheduling (s : Service κ) : Bool := s.writing.any fun w => w.holder = .scheduler

def postpone (s : Service κ) (job : Job κ) (following : Int) : Service κ :=
  { s with jobs := s.jobs.assign { job with nextRun := following } }

def select (s : Service κ) (job : Job κ) (following : Int) (generation : Nat) : Service κ :=
  { s with
    running := insert job.id s.running
    callbacks := s.callbacks ++ [⟨job.id, job.callback, following, generation, s.selections⟩]
    selections := s.selections + 1 }

/-- A due schedule goes on to its next run, and is selected where it is not running. -/
def advance (s : Service κ) (job : Job κ) (following : Int) (generation : Nat) : Service κ :=
  let s := s.postpone job following
  if job.id ∈ s.running then
    { s with rescheduled := s.rescheduled ++ [⟨job.id, following, generation⟩] }
  else s.select job following generation

def collectOne (now : Int) (s : Service κ) (job : Job κ) : Service κ :=
  match job.enabled, s.generations job.id with
  | false, _ | true, none => s
  | true, some generation =>
    match utc? job.nextRun with
    | none => s.define { job with enabled := false }
    | some nextRun =>
      if nextRun ≤ now then
        match job.rule.nextAfter zones now with
        -- The one error that the code does not catch here is never raised: `nextAfter_found`.
        | .error _ => s.define { job with enabled := false }
        | .ok following => s.advance job following generation
      else s

def collect (s : Service κ) (now : Int) : Option (Service κ) :=
  match s.rescheduled, s.callbacks with
  | [], [] => if s.rescheduling then none else some (s.jobs.rows.foldl (collectOne zones now) s)
  | _, _ => none

/-- `_persist_reschedule_if_current`, for the next entry. -/
def reschedule (s : Service κ) : Option (Service κ) :=
  match s.rescheduled with
  | [] => none
  | entry :: rest =>
    if s.writing.isSome then none
    else if (s.jobs.get? entry.schedule).isSome ∧
        s.generations entry.schedule = some entry.generation then
      some ({ s with rescheduled := rest }.write .scheduler none entry.schedule entry.nextRun)
    else some { s with rescheduled := rest }

/-- The executor has accepted the first of the callbacks. -/
def accept (s : Service κ) (invocation : Invocation κ) (rest : List (Invocation κ)) : Service κ :=
  { s with
    callbacks := rest
    works := Function.update s.works s.submitted (some ⟨invocation, .queued⟩)
    submitted := s.submitted + 1
    futures := Function.update s.futures invocation.schedule (some s.submitted) }

def submit (s : Service κ) : Option (Service κ) :=
  match s.rescheduled, s.callbacks with
  | [], invocation :: rest => if s.rescheduling then none else some (s.accept invocation rest)
  | _, _ => none

variable [DecidableEq κ]

/-- What the start check and the completion of `_execute_callback` ask. -/
def current? (s : Service κ) (i : Invocation κ) : Option (Job κ) :=
  (s.jobs.get? i.schedule).filter fun job =>
    job.enabled && job.callback = i.callback && s.generations i.schedule = some i.generation

def moveTo (s : Service κ) (future : Nat) (i : Invocation κ) (stage : Stage) : Service κ :=
  { s with works := Function.update s.works future (some ⟨i, stage⟩) }

def claim (s : Service κ) (future : Nat) : Option (Service κ) :=
  match s.works future with
  | some ⟨i, .queued⟩ => some (s.moveTo future i .claimed)
  | _ => none

def start (s : Service κ) (future : Nat) (now : Int) : Option (Service κ) :=
  match s.works future with
  | some ⟨i, .claimed⟩ =>
    some (s.moveTo future i (if (s.current? i).isSome then .executing now else .returned))
  | _ => none

/-- The callback has returned or raised, and the block of its `finally` takes both locks. -/
def finish (s : Service κ) (future : Nat) : Option (Service κ) :=
  match s.works future, s.writing with
  | some ⟨i, .executing attemptedAt⟩, none =>
    match s.current? i with
    | some job =>
      some ((s.moveTo future i .reporting).write (.worker future) (some attemptedAt) i.schedule
        job.nextRun)
    | none => some (s.moveTo future i .returned)
  | _, _ => none

/-- The persistence callbacks succeed, and the lock is free again. -/
def release (s : Service κ) (w : Writing) : Service κ :=
  { s with
    writing := none
    executed := if w.executed.isSome then Function.update s.executed w.schedule w.executed
      else s.executed
    persisted := Function.update s.persisted w.schedule (some w.nextRun) }

def persist (s : Service κ) : Option (Service κ) :=
  match s.writing with
  | none => none
  | some w =>
    match w.holder with
    | .caller | .scheduler => some (s.release w)
    | .worker future =>
      match s.works future with
      | some ⟨i, .reporting⟩ => some ((s.release w).moveTo future i .returned)
      | _ => some (s.release w)

/-- `Future.cancel`: only a pending future is cancelled. -/
def cancel (s : Service κ) (future : Nat) : Option (Service κ) :=
  if future ∈ s.cancelling then
    let left := { s with cancelling := s.cancelling.erase future }
    match s.works future with
    | some ⟨i, .queued⟩ => some (left.moveTo future i .returned)
    | _ => some left
  else none

/-- The future is retired, with the mark of its schedule. -/
def retire (s : Service κ) (future : Nat) (i : Invocation κ) : Service κ :=
  { s with
    works := Function.update s.works future none
    futures := Function.update s.futures i.schedule none
    running := s.running.erase i.schedule }

def callbackDone (s : Service κ) (future : Nat) : Option (Service κ) :=
  match s.works future with
  | some ⟨i, .returned⟩ =>
    if s.futures i.schedule = some future then some (s.retire future i)
    else some { s with works := Function.update s.works future none }
  | _ => none

/-- `none` where the action has to wait, or raises before it changes anything. -/
def step (s : Service κ) : Action κ → Option (Service κ)
  | .add id rule callback enabled nextRun now => s.add zones id rule callback enabled nextRun now
  | .setEnabled id enabled now => s.setEnabled zones id enabled now
  | .remove id => s.remove id
  | .collect now => s.collect zones now
  | .reschedule => s.reschedule
  | .submit => s.submit
  | .claim future => s.claim future
  | .start future now => s.start future now
  | .finish future => s.finish future
  | .persist => s.persist
  | .cancel future => s.cancel future
  | .callbackDone future => s.callbackDone future

def Step (s : Service κ) (a : Action κ) (t : Service κ) : Prop := s.step zones a = some t

end Service

end Arenyxa.Scheduler
