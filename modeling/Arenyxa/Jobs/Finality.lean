import Mathlib.Tactic.NormNum
import Arenyxa.Lib.History
import Arenyxa.Jobs.System

/-! One job under failing writes, restarts and recovery: its terminal row is final. -/

universe u

namespace Arenyxa.Jobs

open History

/-- A progress that an operation reports; a float need not be a number. -/
inductive Reported
  | finite (value : ℚ)
  | infinite (negative : Bool)
  | nan

/-- `max(0.0, min(1.0, progress))`, where `min` keeps its first argument against no number. -/
def Reported.clamp : Reported → ℚ
  | .finite value => max 0 (min 1 value)
  | .infinite true => 0
  | .infinite false => 1
  | .nan => 1

/-- A row of `platform_jobs` with its progress. -/
structure Entry (ν : Type u) where
  row : JobRow ν
  progress : ℚ

/-- What a store call comes to: it commits, it raises without having committed, or it commits and
raises all the same. -/
inductive Attempt
  | committed | refused | lost

/-- Where the job is in the process that owns it. -/
inductive Stage
  | fresh | created | owned | closed
  deriving DecidableEq

structure Life (ν : Type u) where
  id : String
  entry : Option (Entry ν)
  stage : Stage
  future : FutureState
  cancelled : Bool
  /-- `_terminal_updates`, and whether the identifier is in `_terminal_persisted`. -/
  terminalUpdate : Option (Update ν)
  terminalPersisted : Bool

variable {ν : Type u}

def Life.fresh (id : String) : Life ν := ⟨id, none, .fresh, .unset, false, none, false⟩

inductive LifeStep (ν : Type u)
  | create (attempt : Attempt)
  | handOff
  | reject (stopping : Bool) (text : String) (attempt : Attempt)
  | start (attempt : Attempt)
  | progress (value : Reported) (message : String) (attempt : Attempt)
  | finish (outcome : Outcome ν) (late : Bool) (auditError : Option (String × String))
      (attempt : Attempt)
  | cancel
  | cancelFuture
  | noteCancellation (attempt : Attempt)
  | retire (attempt : Attempt)
  /-- `recover_platform_jobs`, by this process or another one. -/
  | recover (attempt : Attempt)
  /-- The owning process is gone. -/
  | exit

section Steps

variable (encode : ν → Option Nat)

/-- `update_platform_job` with its progress. -/
def updateEntry (entry : Option (Entry ν)) (update : Update ν) (progress : Option Reported) :
    Except StoreError (Bool × Option (Entry ν)) :=
  match checkResult encode update.result, entry with
  | .error error, _ => .error error
  | .ok _, none => .ok (false, none)
  | .ok _, some e =>
    if update.expected = [] ∨ e.row.state ∈ update.expected then
      .ok (true, some ⟨assignRow e.row update, (progress.map Reported.clamp).getD e.progress⟩)
    else .ok (false, some e)

/-- The answer of a store call, `none` where it raises, and the row after it. -/
def attemptUpdate (attempt : Attempt) (entry : Option (Entry ν)) (update : Update ν)
    (progress : Option Reported) : Option Bool × Option (Entry ν) :=
  match attempt, updateEntry encode entry update progress with
  | .refused, _ => (none, entry)
  | _, .error _ => (none, entry)
  | .committed, .ok (matched, entry) => (some matched, entry)
  | .lost, .ok (_, entry) => (none, entry)

def Life.write (l : Life ν) (attempt : Attempt) (update : Update ν) (progress : Option Reported) :
    Life ν :=
  { l with entry := (attemptUpdate encode attempt l.entry update progress).2 }

def Life.create (l : Life ν) (attempt : Attempt) : Life ν :=
  if l.stage = .fresh then
    match attempt with
    | .committed => { l with stage := .created, entry := some ⟨⟨.queued, "Queued", none, "", ""⟩, 0⟩ }
    | .refused => { l with stage := .closed }
    | .lost => { l with stage := .closed, entry := some ⟨⟨.queued, "Queued", none, "", ""⟩, 0⟩ }
  else l

def Life.handOff (l : Life ν) : Life ν :=
  if l.stage = .created then { l with stage := .owned, future := .pending } else l

/-- `_persist_rejected_submission`, whose failure is only logged. -/
def rejection (stopping : Bool) (text : String) : Update ν where
  state := some (if stopping then .cancelled else .failed)
  message := "Rejected before execution"
  result := none
  errorCode := some (if stopping then "JOB_SYSTEM_STOPPING" else "JOB_SUBMIT_FAILED")
  errorMessage := some text
  expected := [.queued]

def Life.reject (l : Life ν) (stopping : Bool) (text : String) (attempt : Attempt) : Life ν :=
  if l.stage = .created then
    { l.write encode attempt (rejection stopping text) (some (.finite 1)) with stage := .closed }
  else l

/-- The write of `_run` before the operation. -/
def starting (cancelled : Bool) : Update ν where
  state := some .running
  message := if cancelled then "Cancellation requested" else "Running"
  result := none
  errorCode := none
  errorMessage := none
  expected := [.queued]

def Life.start (l : Life ν) (attempt : Attempt) : Life ν :=
  if l.stage = .owned ∧ l.future.isPending then
    let written := l.write encode attempt (starting l.cancelled) (some (.finite 0))
    match (attemptUpdate encode attempt l.entry (starting l.cancelled) (some (.finite 0))).1 with
    | some _ => { written with future := .running }
    | none => { written with future := .finished (some ("StoreError", "")) }
  else l

def Life.progress (l : Life ν) (value : Reported) (message : String) (attempt : Attempt) : Life ν :=
  if l.stage = .owned ∧ l.future.isRunning ∧ ¬l.cancelled then
    l.write encode attempt (note message [.running]) (some value)
  else l

/-- `_write_terminal`: the update is kept until its write and the retirement succeed. -/
def Life.writeTerminal (l : Life ν) (update : Update ν) (attempt : Attempt) : Life ν :=
  { l.write encode attempt update (some (.finite 1)) with
    terminalUpdate := some update
    terminalPersisted :=
      (attemptUpdate encode attempt l.entry update (some (.finite 1))).1 == some true }

/-- The part of `Outcome.checked` that looks at the job. -/
def Life.checked (l : Life ν) (outcome : Outcome ν) (late : Bool) : Outcome ν :=
  match outcome with
  | .returned value =>
    if l.cancelled then .cancelled ("platform job cancelled: " ++ l.id)
    else if late then .timedOut ("platform job timed out: " ++ l.id)
    else .returned value
  | other => other

def Life.finish (l : Life ν) (outcome : Outcome ν) (late : Bool) (auditError : Option (String × String))
    (attempt : Attempt) : Life ν :=
  if l.stage = .owned ∧ l.future.isRunning then
    let checked := l.checked outcome late
    match checked.terminal auditError with
    | none => { l with future := .finished (checked.exception auditError) }
    | some update =>
      let written := l.writeTerminal encode update attempt
      { written with
        future := .finished (if written.terminalPersisted then checked.exception auditError
          else some ("StoreError", "")) }
  else l

/-- What `_retire` writes: a first terminal update, or again the one that is kept. -/
def Life.settle (l : Life ν) (attempt : Attempt) : Life ν :=
  match l.terminalUpdate with
  | none => l.writeTerminal encode l.future.retirement attempt
  | some update => if l.terminalPersisted then l else l.writeTerminal encode update attempt

/-- `_retire`; where the write fails, a shutdown calls it again. -/
def Life.retire (l : Life ν) (attempt : Attempt) : Life ν :=
  if l.stage = .owned ∧ l.future.done then
    if (l.settle encode attempt).terminalPersisted then
      { l.settle encode attempt with stage := .closed }
    else l.settle encode attempt
  else l

/-- `recover_platform_jobs` of one row. -/
def recovered (e : Entry ν) : Entry ν :=
  if e.row.state = .queued ∨ e.row.state = .running then
    ⟨{ e.row with
        state := .interrupted
        errorCode := "JOB_PROCESS_INTERRUPTED"
        errorMessage :=
          "The owning Arenyxa process stopped before this job reached a terminal state." },
      min e.progress (99 / 100)⟩
  else e

def Life.recover (l : Life ν) : Attempt → Life ν
  | .refused => l
  | _ => { l with entry := l.entry.map recovered }

def Life.step (l : Life ν) : LifeStep ν → Life ν
  | .create attempt => l.create attempt
  | .handOff => l.handOff
  | .reject stopping text attempt => l.reject encode stopping text attempt
  | .start attempt => l.start encode attempt
  | .progress value message attempt => l.progress encode value message attempt
  | .finish outcome late auditError attempt => l.finish encode outcome late auditError attempt
  | .cancel => { l with cancelled := true }
  | .cancelFuture => { l with future := l.future.cancel }
  | .noteCancellation attempt =>
    l.write encode attempt (note "Cancellation requested" [.queued, .running]) none
  | .retire attempt => l.retire encode attempt
  | .recover attempt => l.recover attempt
  | .exit => { l with stage := if l.stage = .fresh then .fresh else .closed }

end Steps

/-- The columns that a terminal state makes final. -/
structure Verdict (ν : Type u) where
  state : JobState
  result : Option ν
  errorCode : String
  errorMessage : String

def JobRow.verdict (row : JobRow ν) : Verdict ν :=
  ⟨row.state, row.result, row.errorCode, row.errorMessage⟩

/-- A terminal update that may be written again without changing anything. -/
structure Update.Final (u : Update ν) (row : JobRow ν) : Prop where
  same : row.state.Terminal → row.state ≠ .interrupted → (assignRow row u).verdict = row.verdict

/-- The updates that `_write_terminal` is given. -/
structure Update.Closing (u : Update ν) : Prop where
  expected : u.expected ≠ []
  uninterrupted : JobState.interrupted ∉ u.expected

structure Life.Kept (l : Life ν) : Prop where
  progress : ∀ e ∈ l.entry, 0 ≤ e.progress ∧ e.progress ≤ 1
  fresh : l.stage = .fresh → l.entry = none
  early : l.stage = .fresh ∨ l.stage = .created → l.terminalUpdate = none
  unset : l.stage ≠ .closed → l.terminalUpdate = none → ∀ e ∈ l.entry, e.row.state.Terminal →
    e.row.state = .interrupted
  kept : ∀ u ∈ l.terminalUpdate, u.Closing ∧ ∀ e ∈ l.entry, u.Final e.row

section Proofs

variable {encode : ν → Option Nat} {l : Life ν} {u : Update ν} {attempt : Attempt}
  {progress : Option Reported}

theorem Reported.clamp_mem (value : Reported) : 0 ≤ value.clamp ∧ value.clamp ≤ 1 := by
  cases value with
  | finite value => exact ⟨le_max_left _ _, max_le zero_le_one (min_le_left _ _)⟩
  | infinite negative => cases negative <;> exact ⟨by norm_num [clamp], by norm_num [clamp]⟩
  | nan => exact ⟨zero_le_one, le_refl _⟩

theorem attemptUpdate_cases (encode : ν → Option Nat) (attempt : Attempt) (entry : Option (Entry ν))
    (u : Update ν) (progress : Option Reported) :
    (attemptUpdate encode attempt entry u progress).2 = entry ∨
    ∃ e, entry = some e ∧ (u.expected = [] ∨ e.row.state ∈ u.expected) ∧
      (attemptUpdate encode attempt entry u progress).2 =
        some ⟨assignRow e.row u, (progress.map Reported.clamp).getD e.progress⟩ := by
  have updated : updateEntry encode entry u progress = .ok (false, entry) ∨
      (∃ error, updateEntry encode entry u progress = .error error) ∨
      ∃ e, entry = some e ∧ (u.expected = [] ∨ e.row.state ∈ u.expected) ∧
        updateEntry encode entry u progress =
          .ok (true, some ⟨assignRow e.row u, (progress.map Reported.clamp).getD e.progress⟩) := by
    rw [updateEntry.eq_def]
    cases checkResult encode u.result with
    | error error => exact .inr (.inl ⟨error, rfl⟩)
    | ok _ =>
      cases entry with
      | none => exact .inl rfl
      | some e =>
        by_cases expected : u.expected = [] ∨ e.row.state ∈ u.expected
        · exact .inr (.inr ⟨e, rfl, expected, if_pos expected⟩)
        · exact .inl (if_neg expected)
  rw [attemptUpdate.eq_def]
  rcases updated with same | ⟨error, same⟩ | ⟨e, found, expected, same⟩
  · rw [same]
    cases attempt <;> exact .inl rfl
  · rw [same]
    cases attempt <;> exact .inl rfl
  · rw [same]
    cases attempt with
    | refused => exact .inl rfl
    | committed => exact .inr ⟨e, found, expected, rfl⟩
    | lost => exact .inr ⟨e, found, expected, rfl⟩

/-- The rows of two moments, of which a terminal one keeps its verdict. -/
def Frozen (entry entry' : Option (Entry ν)) : Prop :=
  ∀ e, entry = some e → e.row.state.Terminal →
    ∃ e', entry' = some e' ∧ e'.row.verdict = e.row.verdict

theorem Frozen.refl (entry : Option (Entry ν)) : Frozen entry entry := fun e found _ => ⟨e, found, rfl⟩

theorem Frozen.trans {a b c : Option (Entry ν)} (first : Frozen a b) (second : Frozen b c) :
    Frozen a c := by
  intro e found terminal
  obtain ⟨e', found', same⟩ := first e found terminal
  have state : e'.row.state = e.row.state := congrArg Verdict.state same
  obtain ⟨e'', found'', same'⟩ := second e' found' (state.symm ▸ terminal)
  exact ⟨e'', found'', same'.trans same⟩

theorem attemptUpdate_frozen {entry : Option (Entry ν)} (guarded : u.expected ≠ [])
    (final : ∀ e, entry = some e → e.row.state.Terminal → e.row.state ∈ u.expected →
      (assignRow e.row u).verdict = e.row.verdict) :
    Frozen entry (attemptUpdate encode attempt entry u progress).2 := by
  intro e found terminal
  rcases attemptUpdate_cases encode attempt entry u progress with same | ⟨e', found', expected, same⟩
  · exact ⟨e, same.trans found, rfl⟩
  · obtain rfl := Option.some_inj.mp (found.symm.trans found')
    exact ⟨_, same, final e found terminal (expected.resolve_left guarded)⟩

theorem attemptUpdate_progress {entry : Option (Entry ν)}
    (h : ∀ e ∈ entry, 0 ≤ e.progress ∧ e.progress ≤ 1) :
    ∀ e ∈ (attemptUpdate encode attempt entry u progress).2, 0 ≤ e.progress ∧ e.progress ≤ 1 := by
  rcases attemptUpdate_cases encode attempt entry u progress with same | ⟨e, found, -, same⟩
  · rw [same]
    exact h
  · rw [same]
    rintro _ ⟨⟩
    cases progress with
    | none => exact h e found
    | some value => exact value.clamp_mem

theorem assignRow_final (u : Update ν) (row : JobRow ν) : u.Final (assignRow row u) := by
  refine ⟨fun _ _ => ?_⟩
  rcases u with ⟨state, message, result, code, text, expected⟩
  simp only [assignRow, JobRow.verdict]
  congr 1
  · cases state <;> rfl
  · cases result <;> rfl
  · cases code <;> rfl
  · cases text <;> rfl

theorem successUpdate_closing (value : ν) : (successUpdate value).Closing :=
  ⟨by simp [successUpdate], by simp [successUpdate]⟩

theorem failureUpdate_closing {state : JobState} (h : state ≠ .interrupted) (code text : String) :
    (failureUpdate state code text : Update ν).Closing :=
  ⟨by simp [failureUpdate], by simpa [failureUpdate] using fun same => h same.symm⟩

theorem terminal_closing {outcome : Outcome ν} {auditError : Option (String × String)}
    (h : outcome.terminal auditError = some u) : u.Closing := by
  cases outcome with
  | returned value =>
    rcases auditError with _ | ⟨name, text⟩
    · cases h
      exact successUpdate_closing value
    · cases h
      exact failureUpdate_closing (by decide) _ _
  | cancelled message =>
    cases h
    exact failureUpdate_closing (by decide) _ _
  | timedOut message =>
    cases h
    exact failureUpdate_closing (by decide) _ _
  | raised name message =>
    cases h
    exact failureUpdate_closing (by decide) _ _
  | interrupted name message => cases h

theorem retirement_closing (future : FutureState) : (future.retirement : Update ν).Closing := by
  rcases future with _ | _ | _ | _ | _ | ⟨name, text⟩
  · exact failureUpdate_closing (by decide) _ _
  · exact failureUpdate_closing (by decide) _ _
  · exact failureUpdate_closing (by decide) _ _
  · exact failureUpdate_closing (by decide) _ _
  · exact failureUpdate_closing (by decide) _ _
  · exact failureUpdate_closing (by decide) _ _

/-- A write that is guarded by states that are not terminal. -/
def Update.Guarded (u : Update ν) : Prop :=
  u.expected ≠ [] ∧ ∀ state ∈ u.expected, ¬state.Terminal

theorem Update.Guarded.frozen (guarded : u.Guarded) {entry : Option (Entry ν)} :
    Frozen entry (attemptUpdate encode attempt entry u progress).2 :=
  attemptUpdate_frozen guarded.1 fun _ _ terminal mem => absurd terminal (guarded.2 _ mem)

theorem Life.Kept.write (h : l.Kept) (guarded : u.Guarded) (going : ∀ state ∈ u.state, ¬state.Terminal) :
    (l.write encode attempt u progress).Kept := by
  have written := attemptUpdate_cases encode attempt l.entry u progress
  have live (e : Entry ν) (expected : u.expected = [] ∨ e.row.state ∈ u.expected) :
      ¬(assignRow e.row u).state.Terminal := by
    show ¬(u.state.getD e.row.state).Terminal
    cases state : u.state with
    | none => exact guarded.2 _ (expected.resolve_left guarded.1)
    | some state' => exact going state' state
  refine ⟨attemptUpdate_progress h.progress, fun fresh => ?_, h.early, fun stage none' e found => ?_,
    fun u' kept => ⟨(h.kept u' kept).1, fun e found => ?_⟩⟩
  · rcases written with same | ⟨e, found, -, -⟩
    · exact same.trans (h.fresh fresh)
    · cases (h.fresh fresh).symm.trans found
  · rcases written with same | ⟨e', -, expected, same⟩
    · exact h.unset stage none' e (same ▸ found)
    · obtain rfl := Option.some_inj.mp (same.symm.trans found)
      exact fun terminal => absurd terminal (live e' expected)
  · rcases written with same | ⟨e', -, expected, same⟩
    · exact (h.kept u' kept).2 e (same ▸ found)
    · obtain rfl := Option.some_inj.mp (same.symm.trans found)
      exact ⟨fun terminal => absurd terminal (live e' expected)⟩

theorem Life.Kept.writeTerminal (h : l.Kept) (owned : l.stage = .owned) (closing : u.Closing)
    (final : ∀ e ∈ l.entry, u.Final e.row) :
    (l.writeTerminal encode u attempt).Kept ∧
      Frozen l.entry (l.writeTerminal encode u attempt).entry := by
  have written := attemptUpdate_cases encode attempt l.entry u (some (.finite 1))
  constructor
  · refine ⟨attemptUpdate_progress h.progress, fun fresh => ?_, fun early => ?_, nofun,
      fun u' kept => ?_⟩
    · cases owned.symm.trans fresh
    · rcases early with early | early <;> cases owned.symm.trans early
    · obtain rfl := Option.some_inj.mp kept
      refine ⟨closing, fun e found => ?_⟩
      rcases written with same | ⟨e', -, -, same⟩
      · exact final e (same ▸ found)
      · obtain rfl := Option.some_inj.mp (same.symm.trans found)
        exact assignRow_final u e'.row
  · refine attemptUpdate_frozen closing.expected fun e found terminal mem => ?_
    refine (final e found).same terminal fun interrupted => ?_
    exact closing.uninterrupted (interrupted ▸ mem)

theorem Life.Kept.final_of_none (h : l.Kept) (owned : l.stage = .owned) (none' : l.terminalUpdate = none) :
    ∀ e ∈ l.entry, u.Final e.row := fun e found =>
  ⟨fun terminal other => absurd (h.unset (by simp [owned]) none' e found terminal) other⟩

theorem starting_guarded (cancelled : Bool) : (starting cancelled : Update ν).Guarded :=
  ⟨by simp [starting], by simp [starting, JobState.Terminal]⟩

theorem rejection_guarded (stopping : Bool) (text : String) : (rejection stopping text : Update ν).Guarded :=
  ⟨by simp [rejection], by simp [rejection, JobState.Terminal]⟩

theorem recovered_progress {e : Entry ν} (h : 0 ≤ e.progress ∧ e.progress ≤ 1) :
    0 ≤ (recovered e).progress ∧ (recovered e).progress ≤ 1 := by
  rw [recovered]
  split
  next => exact ⟨le_min h.1 (by norm_num), (min_le_left _ _).trans h.2⟩
  next => exact h

theorem recovered_cases (e : Entry ν) :
    (recovered e).row.state = .interrupted ∧ ¬e.row.state.Terminal ∨ recovered e = e := by
  rw [recovered]
  split
  next active =>
    refine .inl ⟨rfl, fun terminal => ?_⟩
    rcases active with active | active
    · exact terminal.1 active
    · exact terminal.2 active
  next => exact .inr rfl

theorem Life.Kept.recover (h : l.Kept) (attempt : Attempt) :
    (l.recover attempt).Kept ∧ Frozen l.entry (l.recover attempt).entry := by
  have mapped : ({ l with entry := l.entry.map recovered } : Life ν).Kept ∧
      Frozen l.entry (l.entry.map recovered) := by
    constructor
    · refine ⟨fun e found => ?_, fun fresh => ?_, h.early, fun stage none' e found => ?_,
        fun u kept => ⟨(h.kept u kept).1, fun e found => ?_⟩⟩
      · obtain ⟨old, before, rfl⟩ := Option.map_eq_some_iff.mp found
        exact recovered_progress (h.progress old before)
      · rw [h.fresh fresh]
        rfl
      · obtain ⟨old, before, rfl⟩ := Option.map_eq_some_iff.mp found
        rcases recovered_cases old with ⟨interrupted, -⟩ | same
        · exact fun _ => interrupted
        · rw [same]
          exact h.unset stage none' old before
      · obtain ⟨old, before, rfl⟩ := Option.map_eq_some_iff.mp found
        rcases recovered_cases old with ⟨interrupted, -⟩ | same
        · exact ⟨fun _ other => absurd interrupted other⟩
        · rw [same]
          exact (h.kept u kept).2 old before
    · intro e found terminal
      refine ⟨recovered e, by rw [found]; rfl, ?_⟩
      rcases recovered_cases e with ⟨-, active⟩ | same
      · exact absurd terminal active
      · rw [same]
  cases attempt with
  | refused => exact ⟨h, Frozen.refl _⟩
  | committed => exact mapped
  | lost => exact mapped

theorem Life.Kept.create (h : l.Kept) (attempt : Attempt) :
    (l.create attempt).Kept ∧ Frozen l.entry (l.create attempt).entry := by
  rw [Life.create.eq_def]
  split
  next fresh =>
    have none' := h.early (.inl fresh)
    have empty := h.fresh fresh
    have frozen (entry : Option (Entry ν)) : Frozen l.entry entry := fun e found => by
      cases empty.symm.trans found
    have queued : ∀ e ∈ some (⟨⟨.queued, "Queued", none, "", ""⟩, 0⟩ : Entry ν),
        (0 ≤ e.progress ∧ e.progress ≤ 1) ∧ ¬e.row.state.Terminal := by
      rintro _ ⟨⟩
      exact ⟨⟨le_refl _, zero_le_one⟩, fun terminal => terminal.1 rfl⟩
    have kept (u : Update ν) (found : u ∈ l.terminalUpdate) : False := by
      cases none'.symm.trans found
    cases attempt with
    | committed =>
      exact ⟨⟨fun e found => (queued e found).1, nofun, fun _ => none', fun _ _ e found terminal =>
        absurd terminal (queued e found).2, fun u found => (kept u found).elim⟩, frozen _⟩
    | refused =>
      exact ⟨⟨h.progress, nofun, fun _ => none', fun closed => absurd rfl closed,
        fun u found => (kept u found).elim⟩, frozen _⟩
    | lost =>
      exact ⟨⟨fun e found => (queued e found).1, nofun, fun _ => none', fun closed => absurd rfl closed,
        fun u found => (kept u found).elim⟩, frozen _⟩
  next => exact ⟨h, Frozen.refl _⟩

theorem Life.Kept.reject (h : l.Kept) (stopping : Bool) (text : String) (attempt : Attempt) :
    (l.reject encode stopping text attempt).Kept ∧
      Frozen l.entry (l.reject encode stopping text attempt).entry := by
  rw [Life.reject]
  split
  next created =>
    have none' := h.early (.inr created)
    refine ⟨⟨attemptUpdate_progress h.progress, nofun, fun _ => none', fun closed => absurd rfl closed,
      fun u found => ?_⟩, (rejection_guarded stopping text).frozen⟩
    cases none'.symm.trans found
  next => exact ⟨h, Frozen.refl _⟩

theorem Life.Kept.withFuture (h : l.Kept) (future : FutureState) : ({ l with future := future } : Life ν).Kept :=
  ⟨h.progress, h.fresh, h.early, h.unset, h.kept⟩

theorem Life.Kept.start (h : l.Kept) (attempt : Attempt) :
    (l.start encode attempt).Kept ∧ Frozen l.entry (l.start encode attempt).entry := by
  rw [Life.start]
  split
  next =>
    have written : (l.write encode attempt (starting l.cancelled) (some (.finite 0))).Kept :=
      h.write (starting_guarded l.cancelled) (by simp [starting, JobState.Terminal])
    have frozen : Frozen l.entry
        (l.write encode attempt (starting l.cancelled) (some (.finite 0))).entry :=
      (starting_guarded l.cancelled).frozen
    simp only
    split
    next => exact ⟨written.withFuture _, frozen⟩
    next => exact ⟨written.withFuture _, frozen⟩
  next => exact ⟨h, Frozen.refl _⟩

theorem Life.Kept.note (h : l.Kept) (message : String) {expected : List JobState}
    (some' : expected ≠ []) (active : ∀ state ∈ expected, ¬state.Terminal) :
    (l.write encode attempt (note message expected) progress).Kept ∧
      Frozen l.entry (l.write encode attempt (note message expected) progress).entry :=
  have guarded : (Jobs.note message expected : Update ν).Guarded := ⟨some', active⟩
  ⟨h.write guarded nofun, guarded.frozen⟩

theorem Life.Kept.finish (h : l.Kept) (outcome : Outcome ν) (late : Bool)
    (auditError : Option (String × String)) (attempt : Attempt) (unset : l.future.isRunning = true →
      l.terminalUpdate = none) :
    (l.finish encode outcome late auditError attempt).Kept ∧
      Frozen l.entry (l.finish encode outcome late auditError attempt).entry := by
  rw [Life.finish]
  split
  next active =>
    simp only
    split
    next => exact ⟨h.withFuture _, Frozen.refl _⟩
    next update terminal =>
      obtain ⟨kept, frozen⟩ : (l.writeTerminal encode update attempt).Kept ∧
          Frozen l.entry (l.writeTerminal encode update attempt).entry :=
        h.writeTerminal active.1 (terminal_closing terminal) (h.final_of_none active.1 (unset active.2))
      exact ⟨kept.withFuture _, frozen⟩
  next => exact ⟨h, Frozen.refl _⟩

theorem Life.Kept.close (h : l.Kept) : ({ l with stage := .closed } : Life ν).Kept where
  progress := h.progress
  fresh := nofun
  early early := by rcases early with early | early <;> cases early
  unset closed := absurd rfl closed
  kept := h.kept

theorem Life.Kept.settle (h : l.Kept) (owned : l.stage = .owned) (attempt : Attempt) :
    (l.settle encode attempt).Kept ∧ Frozen l.entry (l.settle encode attempt).entry := by
  rw [Life.settle]
  split
  next none' => exact h.writeTerminal owned (retirement_closing _) (h.final_of_none owned none')
  next update found =>
    split
    next => exact ⟨h, Frozen.refl _⟩
    next => exact h.writeTerminal owned (h.kept update found).1 (h.kept update found).2

theorem Life.Kept.retire (h : l.Kept) (attempt : Attempt) :
    (l.retire encode attempt).Kept ∧ Frozen l.entry (l.retire encode attempt).entry := by
  rw [Life.retire]
  split
  next done =>
    obtain ⟨kept, frozen⟩ : (l.settle encode attempt).Kept ∧
        Frozen l.entry (l.settle encode attempt).entry := h.settle done.1 attempt
    split
    next => exact ⟨kept.close, frozen⟩
    next => exact ⟨kept, frozen⟩
  next => exact ⟨h, Frozen.refl _⟩

/-- Only a finished future has a terminal update. -/
def Life.Undone (l : Life ν) : Prop := l.future.done = false → l.terminalUpdate = none

theorem Life.Undone.step (h : l.Undone) (kept : l.Kept) (a : LifeStep ν) : (l.step encode a).Undone := by
  cases a with
  | create attempt =>
    show (l.create attempt).Undone
    rw [Life.create.eq_def]
    split
    next => cases attempt <;> exact h
    next => exact h
  | handOff =>
    show (l.handOff).Undone
    rw [Life.handOff]
    split
    next created => exact fun _ => kept.early (.inr created)
    next => exact h
  | reject stopping text attempt =>
    show (l.reject encode stopping text attempt).Undone
    rw [Life.reject]
    split <;> exact h
  | start attempt =>
    show (l.start encode attempt).Undone
    rw [Life.start]
    split
    next pending =>
      have none' : l.terminalUpdate = none := h (by
        cases future : l.future <;> simp_all [FutureState.isPending, FutureState.done])
      simp only
      split
      next => exact fun _ => none'
      next => exact fun _ => none'
    next => exact h
  | progress value message attempt =>
    show (l.progress encode value message attempt).Undone
    rw [Life.progress]
    split <;> exact h
  | finish outcome late auditError attempt =>
    show (l.finish encode outcome late auditError attempt).Undone
    rw [Life.finish]
    split
    next =>
      simp only
      split
      next => exact nofun
      next => exact nofun
    next => exact h
  | cancel => exact h
  | cancelFuture =>
    intro undone
    refine h ?_
    have undone : l.future.cancel.done = false := undone
    cases future : l.future <;> simp_all [FutureState.cancel, FutureState.done]
  | noteCancellation attempt => exact h
  | retire attempt =>
    show (l.retire encode attempt).Undone
    rw [Life.retire]
    split
    next done =>
      have still : (l.settle encode attempt).future = l.future := by
        rw [Life.settle]
        split
        next => rfl
        next => split <;> rfl
      have settled : (l.settle encode attempt).future.done = true := by
        rw [still]
        exact done.2
      split
      next => exact fun undone => by cases settled.symm.trans undone
      next => exact fun undone => by cases settled.symm.trans undone
    next => exact h
  | recover attempt => cases attempt <;> exact h
  | exit => exact h

theorem Life.Kept.step (h : l.Kept) (undone : l.Undone) (a : LifeStep ν) :
    (l.step encode a).Kept ∧ Frozen l.entry (l.step encode a).entry := by
  cases a with
  | create attempt => exact h.create attempt
  | handOff =>
    show l.handOff.Kept ∧ Frozen l.entry l.handOff.entry
    rw [Life.handOff]
    split
    next created =>
      refine ⟨⟨h.progress, nofun, fun early => ?_, fun _ => h.unset (by simp [created]), h.kept⟩,
        Frozen.refl _⟩
      rcases early with early | early <;> cases early
    next => exact ⟨h, Frozen.refl _⟩
  | reject stopping text attempt => exact h.reject stopping text attempt
  | start attempt => exact h.start attempt
  | progress value message attempt =>
    show (l.progress encode value message attempt).Kept ∧
      Frozen l.entry (l.progress encode value message attempt).entry
    rw [Life.progress]
    split
    next => exact h.note message (List.cons_ne_nil _ _) (by simp [JobState.Terminal])
    next => exact ⟨h, Frozen.refl _⟩
  | finish outcome late auditError attempt =>
    refine h.finish outcome late auditError attempt fun running => undone ?_
    cases future : l.future <;> simp_all [FutureState.isRunning, FutureState.done]
  | cancel => exact ⟨⟨h.progress, h.fresh, h.early, h.unset, h.kept⟩, Frozen.refl _⟩
  | cancelFuture => exact ⟨h.withFuture _, Frozen.refl _⟩
  | noteCancellation attempt => exact h.note _ (List.cons_ne_nil _ _) (by simp [JobState.Terminal])
  | retire attempt => exact h.retire attempt
  | recover attempt => exact h.recover attempt
  | exit =>
    by_cases fresh : l.stage = .fresh
    · have same : l.step encode .exit = l := by
        show ({ l with stage := if l.stage = .fresh then .fresh else .closed } : Life ν) = l
        rw [if_pos fresh, ← fresh]
      rw [same]
      exact ⟨h, Frozen.refl _⟩
    · have same : l.step encode .exit = { l with stage := .closed } := by
        show ({ l with stage := if l.stage = .fresh then .fresh else .closed } : Life ν) = _
        rw [if_neg fresh]
      rw [same]
      exact ⟨h.close, Frozen.refl _⟩

theorem fresh_kept (id : String) : (Life.fresh id : Life ν).Kept :=
  ⟨nofun, fun _ => rfl, fun _ => rfl, fun _ _ => nofun, nofun⟩

theorem history_kept (encode : ν → Option Nat) (id : String) (steps : List (LifeStep ν)) :
    (run (Life.step encode) (.fresh id) steps).Kept ∧
      (run (Life.step encode) (.fresh id) steps).Undone := by
  induction steps using List.reverseRecOn with
  | nil => exact ⟨fresh_kept id, fun _ => rfl⟩
  | append_singleton steps a ih =>
    rw [run_snoc]
    exact ⟨(ih.1.step ih.2 a).1, ih.2.step ih.1 a⟩

theorem history_frozen (encode : ν → Option Nat) (id : String) (steps more : List (LifeStep ν)) :
    Frozen (run (Life.step encode) (.fresh id) steps).entry
      (run (Life.step encode) (.fresh id) (steps ++ more)).entry := by
  induction more using List.reverseRecOn with
  | nil =>
    rw [List.append_nil]
    exact Frozen.refl _
  | append_singleton more a ih =>
    obtain ⟨kept, undone⟩ := history_kept encode id (steps ++ more)
    rw [← List.append_assoc, run_snoc]
    exact ih.trans (kept.step undone a).2

end Proofs

/-- A terminal row keeps its state, result and error whatever happens next, so that a success is never
reported as anything else; and the progress of every row is within its bounds. -/
theorem terminal_final (encode : ν → Option Nat) (id : String) (steps more : List (LifeStep ν)) (e : Entry ν)
    (found : (run (Life.step encode) (.fresh id) steps).entry = some e) :
    (0 ≤ e.progress ∧ e.progress ≤ 1) ∧
      (e.row.state.Terminal → ∃ e', (run (Life.step encode) (.fresh id) (steps ++ more)).entry = some e' ∧
        e'.row.verdict = e.row.verdict) :=
  ⟨(history_kept encode id steps).1.progress e found, history_frozen encode id steps more e found⟩

def anyText : Unit → Option Nat := fun _ => some 4

/-- A success whose first write is lost, and which retirement and a recovery find again. -/
theorem terminal_final_success :
    let steps : List (LifeStep Unit) := [.create .committed, .handOff, .start .committed,
      .progress .nan "half" .committed, .finish (.returned ()) false none .lost]
    let e : Entry Unit := ⟨⟨.succeeded, clip 1024 "Completed", some (), clip 128 "", clip 4096 ""⟩, 1⟩
    (0 ≤ e.progress ∧ e.progress ≤ 1) ∧
      (e.row.state.Terminal → ∃ e', (run (Life.step anyText) (.fresh "job")
        (steps ++ [.recover .committed, .retire .refused, .retire .committed])).entry = some e' ∧
        e'.row.verdict = e.row.verdict) := by
  refine terminal_final anyText "job" _ _ _ ?_
  rfl

end Arenyxa.Jobs
