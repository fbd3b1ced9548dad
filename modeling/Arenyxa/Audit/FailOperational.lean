import Arenyxa.Audit.Evidence
import Mathlib.Algebra.GroupWithZero.Nat

/-! Records whose durable appends fail: the recovery chain takes over for the primary file, and the
emergency memory for both. -/

namespace Arenyxa.Audit

open Chain

/-- An event with the integrity metadata it carries. -/
structure Stamped where
  event : AuditEvent
  metadata : Object

structure Trail where
  log : Log
  emergencyMemory : List Stamped

def maxEmergencyEvents : Nat := 10000

inductive RecordError
  | log (error : AuditError)
  | appendFailed (reason : String)
  | emergencyBufferFull (primaryError recoveryError : String) (bufferedEvents : Nat)

/-- What an append raises; an `OSError` by its class and its text. -/
inductive Raised
  | audit (error : AuditError)
  | os (error : String)

/-- How the durable appends of a record end, where it comes to them. -/
structure Endings where
  primary : Ending String
  marker : Ending String
  event : Ending String

structure Call where
  stamped : Stamped
  drawn : Drawn
  endings : Endings

/-- `_durable_append` -/
def durableAppend (file : List Line) (row : Row) : Ending String → List Line × Except String Unit
  | .done => (file ++ [.row row], .ok ())
  | .unwritten error => (file, .error error)
  | .unsynced error => (file ++ [.row row], .error error)

def emergencyMetadata (metadata : Object) (error primaryError : String) : Object :=
  let changes : Object := [("channel", .str "emergency-memory"), ("durability_error", .str (bounded error)),
    ("primary_integrity_error", .str (bounded primaryError))]
  metadata.filter (fun member => (changes.lookup member.1).isNone) ++ changes

/-- `_append_emergency_locked` -/
def appendEmergency (trail : Trail) (stamped : Stamped) (error : String) : Except RecordError Unit × Trail :=
  if maxEmergencyEvents ≤ trail.emergencyMemory.length then
    (.error (.emergencyBufferFull (bounded trail.log.integrityError) (bounded trail.log.recoveryError)
      trail.emergencyMemory.length), trail)
  else
    let kept : Stamped :=
      { stamped with metadata := emergencyMetadata stamped.metadata error trail.log.integrityError }
    (.ok (), ⟨{ trail.log with mode := .degraded }, trail.emergencyMemory ++ [kept]⟩)

section Appends

variable (hash : Object → Object → String) (lineBytes : Row → Nat)

/-- The row that is written, if it is not too long. -/
def chainRow (event : AuditEvent) (previousHash channel primaryError : String) : Row :=
  let metadata := integrityMetadata previousHash channel primaryError
  ⟨event.members, metadata, hash event.members metadata⟩

/-- `event.integrity_metadata` once the row is made of it. -/
def stamp (stamped : Stamped) (row : Row) : Stamped :=
  { stamped with metadata := row.metadata ++ [("event_hash", .str row.eventHash)] }

/-- `_append_primary_locked` -/
def tryPrimary (log : Log) (stamped : Stamped) (ending : Ending String) : Except Raised Unit × Log × Stamped :=
  let stamped := stamp stamped (chainRow hash stamped.event log.lastHash "primary" "")
  match encodedRow hash lineBytes stamped.event log.lastHash "primary" "" with
  | .error error => (.error (.audit error), log, stamped)
  | .ok row =>
    match durableAppend log.primary row ending with
    | (primary, .error error) => (.error (.os error), { log with primary }, stamped)
    | (primary, .ok ()) => (.ok (), { log with primary, lastHash := row.eventHash, mode := .normal }, stamped)

/-- The marker, which is written once. -/
def tryMarker (log : Log) (drawn : Drawn) (ending : Ending String) : Except Raised Unit × Log :=
  if log.recoveryMarkerWritten then (.ok (), log)
  else
    match encodedRow hash lineBytes (degradedMarker drawn.id drawn.time drawn.path log) log.recoveryLastHash
        "recovery" log.integrityError with
    | .error error => (.error (.audit error), log)
    | .ok marker =>
      match durableAppend log.recovery marker ending with
      | (recovery, .error error) => (.error (.os error), { log with recovery })
      | (recovery, .ok ()) =>
        (.ok (), { log with recovery, recoveryLastHash := marker.eventHash, recoveryMarkerWritten := true })

def tryEvent (log : Log) (stamped : Stamped) (ending : Ending String) : Except Raised Unit × Log × Stamped :=
  let stamped := stamp stamped (chainRow hash stamped.event log.recoveryLastHash "recovery" log.integrityError)
  match encodedRow hash lineBytes stamped.event log.recoveryLastHash "recovery" log.integrityError with
  | .error error => (.error (.audit error), log, stamped)
  | .ok row =>
    match durableAppend log.recovery row ending with
    | (recovery, .error error) => (.error (.os error), { log with recovery }, stamped)
    | (recovery, .ok ()) =>
      (.ok (), { log with recovery, recoveryLastHash := row.eventHash, recoveryError := "", mode := .recovery }, stamped)

/-- `_append_recovery_locked` -/
def tryRecovery (log : Log) (stamped : Stamped) (drawn : Drawn) (endings : Endings) :
    Except Raised Unit × Log × Stamped :=
  match tryMarker hash lineBytes log drawn endings.marker with
  | (.error raised, log) => (.error raised, log, stamped)
  | (.ok (), log) => tryEvent hash lineBytes log stamped endings.event

/-- The recovery chain, or the emergency memory where it cannot be appended to. -/
def appendOperational (trail : Trail) (stamped : Stamped) (drawn : Drawn) (endings : Endings) :
    Except RecordError Unit × Trail :=
  match tryRecovery hash lineBytes trail.log stamped drawn endings with
  | (.ok (), log, _) => (.ok (), { trail with log })
  | (.error (.audit error), log, _) => (.error (.log error), { trail with log })
  | (.error (.os error), log, stamped) =>
    appendEmergency { trail with log := { log with recoveryError := error } } stamped error

/-- The log after a failed append to the primary file. -/
def Log.broken (log : Log) (error : String) : Log :=
  { log with integrityError := "primary audit append failed: " ++ error, mode := .degraded }

/-- What `record` does once the append to the primary file has failed. -/
def afterPrimary (trail : Trail) (stamped : Stamped) (call : Call) (error : String) : Except RecordError Unit × Trail :=
  let log := trail.log.broken error
  match trail.log.failurePolicy with
  | .failClosed => (.error (.appendFailed log.integrityError), { trail with log })
  | .failOperational => appendOperational hash lineBytes { trail with log } stamped call.drawn call.endings

/-- `record` -/
def tryRecord (trail : Trail) (call : Call) : Except RecordError Unit × Trail :=
  if trail.log.integrityError ≠ "" then
    match trail.log.failurePolicy with
    | .failClosed => (.error (.log (.integrityBroken trail.log.integrityError)), trail)
    | .failOperational => appendOperational hash lineBytes trail call.stamped call.drawn call.endings
  else
    match tryPrimary hash lineBytes trail.log call.stamped call.endings.primary with
    | (.ok (), log, _) => (.ok (), { trail with log })
    | (.error (.audit error), log, _) => (.error (.log error), { trail with log })
    | (.error (.os error), log, stamped) => afterPrimary hash lineBytes { trail with log } stamped call error

def tryRecords (trail : Trail) (calls : List Call) : Trail :=
  calls.foldl (fun trail call => (tryRecord hash lineBytes trail call).2) trail

/-- A recovery append: how its row follows from the head in memory, and how the append ends. -/
abbrev RecoveryAppend := (String → Row) × Ending String

def markerRow (log : Log) (drawn : Drawn) (head : String) : Row :=
  chainRow hash (degradedMarker drawn.id drawn.time drawn.path log) head "recovery" log.integrityError

/-- The append that is made unless its row is too long. -/
def fitting (row : String → Row) (head : String) (ending : Ending String) : List RecoveryAppend :=
  if maxLineBytes < lineBytes (row head) then [] else [(row, ending)]

/-- What a record on a broken primary file appends to the recovery file: the marker while there is
none, and the event unless the marker fails. -/
def recoveryAppends (log : Log) (event : AuditEvent) (drawn : Drawn) (endings : Endings) : List RecoveryAppend :=
  let eventRow head := chainRow hash event head "recovery" log.integrityError
  if log.recoveryMarkerWritten then fitting lineBytes eventRow log.recoveryLastHash endings.event
  else
    let head := log.recoveryLastHash
    fitting lineBytes (markerRow hash log drawn) head endings.marker ++
      if maxLineBytes < lineBytes (markerRow hash log drawn head) ∨ endings.marker ≠ .done then []
      else fitting lineBytes eventRow (markerRow hash log drawn head).eventHash endings.event

/-- What a record appends to the recovery file. -/
def callAppends (log : Log) (call : Call) : List RecoveryAppend :=
  let diverted (broken : Log) : List RecoveryAppend :=
    match log.failurePolicy with
    | .failClosed => []
    | .failOperational => recoveryAppends hash lineBytes broken call.stamped.event call.drawn call.endings
  if log.integrityError ≠ "" then diverted log
  else if maxLineBytes < lineBytes (chainRow hash call.stamped.event log.lastHash "primary" "") then []
  else
    match call.endings.primary.error with
    | none => []
    | some error => diverted (log.broken error)

def runAppends (trail : Trail) : List Call → List RecoveryAppend
  | [] => []
  | call :: calls =>
    callAppends hash lineBytes trail.log call ++ runAppends (tryRecord hash lineBytes trail call).2 calls

end Appends

section Files

variable {hash : Object → Object → String} {lineBytes : Row → Nat} {log : Log} {stamped : Stamped} {drawn : Drawn}
  {endings : Endings} {w : Chain.Writer Row String}

variable {event : AuditEvent} {previous channel primaryError : String}

theorem encodedRow_long (long : maxLineBytes < lineBytes (chainRow hash event previous channel primaryError)) :
    encodedRow hash lineBytes event previous channel primaryError = .error .eventTooLarge := if_pos long

theorem encodedRow_fits (fits : ¬maxLineBytes < lineBytes (chainRow hash event previous channel primaryError)) :
    encodedRow hash lineBytes event previous channel primaryError =
      .ok (chainRow hash event previous channel primaryError) := if_neg fits

/-- The recovery file and the head in memory, as a writer has them. -/
structure Log.WrittenBy (log : Log) (w : Chain.Writer Row String) : Prop where
  rows : log.recovery = w.rows.map Line.row
  head : log.recoveryLastHash = w.head

abbrev writeAll (w : Chain.Writer Row String) (appends : List RecoveryAppend) : Chain.Writer Row String :=
  appends.foldl (Writer.append Row.eventHash) w

theorem Log.WrittenBy.concat {rows : List Row} {head : String} (written : log.WrittenBy ⟨rows, head⟩) (row : Row) :
    log.recovery ++ [.row row] = (rows ++ [row]).map Line.row := by
  rw [written.rows, List.map_append, List.map_singleton]

theorem tryEvent_written (written : log.WrittenBy w) (ending : Ending String) :
    (tryEvent hash lineBytes log stamped ending).2.1.WrittenBy (writeAll w
      (fitting lineBytes (fun head => chainRow hash stamped.event head "recovery" log.integrityError)
        log.recoveryLastHash ending)) := by
  obtain ⟨rows, head⟩ := w
  obtain rfl : log.recoveryLastHash = head := written.head
  rw [tryEvent, fitting]
  by_cases long : maxLineBytes < lineBytes (chainRow hash stamped.event log.recoveryLastHash "recovery" log.integrityError)
  · have refused := encodedRow_long long
    simp only [stamp, refused, if_pos long]
    exact written
  · have encoded := encodedRow_fits long
    simp only [stamp, encoded, if_neg long]
    rcases ending with done | error | error
    · exact ⟨written.concat _, rfl⟩
    · exact ⟨written.rows, rfl⟩
    · exact ⟨written.concat _, rfl⟩

theorem tryRecovery_written (written : log.WrittenBy w) :
    (tryRecovery hash lineBytes log stamped drawn endings).2.1.WrittenBy
      (writeAll w (recoveryAppends hash lineBytes log stamped.event drawn endings)) := by
  rw [tryRecovery, tryMarker, recoveryAppends]
  by_cases marked : log.recoveryMarkerWritten = true
  · simp only [if_pos marked]
    exact tryEvent_written written endings.event
  · obtain ⟨rows, head⟩ := w
    obtain rfl : log.recoveryLastHash = head := written.head
    by_cases long : maxLineBytes < lineBytes (markerRow hash log drawn log.recoveryLastHash)
    · have refused := encodedRow_long long
      simp only [if_neg marked, refused, fitting, if_pos long, if_pos (Or.inl long)]
      exact written
    · have encoded := encodedRow_fits long
      simp only [if_neg marked, encoded, fitting, if_neg long]
      rcases endings with ⟨primary, done | error | error, event⟩
      · rw [if_neg (not_or.mpr ⟨long, not_not.mpr rfl⟩)]
        let marker := markerRow hash log drawn log.recoveryLastHash
        have after : Log.WrittenBy
            { log with
              recovery := log.recovery ++ [.row marker]
              recoveryLastHash := marker.eventHash
              recoveryMarkerWritten := true } ⟨rows ++ [marker], marker.eventHash⟩ :=
          ⟨written.concat marker, rfl⟩
        exact tryEvent_written after event
      · rw [if_pos (Or.inr nofun)]
        exact ⟨written.rows, rfl⟩
      · rw [if_pos (Or.inr nofun)]
        exact ⟨written.concat _, rfl⟩

theorem appendEmergency_log (trail : Trail) (stamped : Stamped) (error : String) :
    (appendEmergency trail stamped error).2.log.recovery = trail.log.recovery ∧
      (appendEmergency trail stamped error).2.log.recoveryLastHash = trail.log.recoveryLastHash := by
  rw [appendEmergency]
  split <;> exact ⟨rfl, rfl⟩

variable {trail : Trail} {call : Call}

theorem appendOperational_written (written : trail.log.WrittenBy w) :
    (appendOperational hash lineBytes trail stamped drawn endings).2.log.WrittenBy
      (writeAll w (recoveryAppends hash lineBytes trail.log stamped.event drawn endings)) := by
  have after := @tryRecovery_written hash lineBytes trail.log stamped drawn endings w written
  rw [appendOperational]
  generalize tryRecovery hash lineBytes trail.log stamped drawn endings = tried at after ⊢
  rcases tried with ⟨(error | error) | ok, log, stamped⟩
  · exact after
  · obtain ⟨recovery, head⟩ := appendEmergency_log { trail with log := { log with recoveryError := error } } stamped error
    exact ⟨recovery.trans after.rows, head.trans after.head⟩
  · exact after

theorem afterPrimary_written (trail : Trail) (written : trail.log.WrittenBy w) (same : stamped.event = call.stamped.event)
    (error : String) :
    (afterPrimary hash lineBytes trail stamped call error).2.log.WrittenBy (writeAll w
      (match trail.log.failurePolicy with
      | .failClosed => []
      | .failOperational =>
        recoveryAppends hash lineBytes (trail.log.broken error) call.stamped.event call.drawn call.endings)) := by
  have after : (trail.log.broken error).WrittenBy w := ⟨written.rows, written.head⟩
  rw [afterPrimary, ← same]
  cases trail.log.failurePolicy with
  | failClosed => exact after
  | failOperational => exact appendOperational_written after

theorem tryPrimary_cases (log : Log) (stamped : Stamped) (ending : Ending String) :
    ∃ after : Stamped, after.event = stamped.event ∧
      let row := chainRow hash stamped.event log.lastHash "primary" ""
      ((maxLineBytes < lineBytes row ∧
          tryPrimary hash lineBytes log stamped ending = (.error (.audit .eventTooLarge), log, after)) ∨
        (¬maxLineBytes < lineBytes row ∧ ending.error = none ∧
          tryPrimary hash lineBytes log stamped ending =
            (.ok (), { log with primary := log.primary ++ [.row row], lastHash := row.eventHash, mode := .normal }, after)) ∨
        (¬maxLineBytes < lineBytes row ∧ ∃ error primary, ending.error = some error ∧ log.primary <+: primary ∧
          tryPrimary hash lineBytes log stamped ending = (.error (.os error), { log with primary }, after))) := by
  refine ⟨stamp stamped (chainRow hash stamped.event log.lastHash "primary" ""), rfl, ?_⟩
  rw [tryPrimary]
  by_cases long : maxLineBytes < lineBytes (chainRow hash stamped.event log.lastHash "primary" "")
  · have refused := encodedRow_long long
    simp only [stamp, refused]
    exact .inl ⟨long, trivial⟩
  · have encoded := encodedRow_fits long
    simp only [stamp, encoded]
    rcases ending with done | error | error
    · exact .inr (.inl ⟨long, rfl, rfl⟩)
    · exact .inr (.inr ⟨long, error, _, rfl, List.prefix_rfl, rfl⟩)
    · exact .inr (.inr ⟨long, error, _, rfl, List.prefix_append _ _, rfl⟩)

theorem tryRecord_written (written : trail.log.WrittenBy w) :
    (tryRecord hash lineBytes trail call).2.log.WrittenBy (writeAll w (callAppends hash lineBytes trail.log call)) := by
  rw [tryRecord, callAppends]
  by_cases broken : trail.log.integrityError ≠ ""
  · simp only [if_pos broken]
    cases trail.log.failurePolicy with
    | failClosed => exact written
    | failOperational => exact appendOperational_written written
  · simp only [if_neg broken]
    obtain ⟨after, same, ⟨long, tried⟩ | ⟨fits, done, tried⟩ | ⟨fits, error, primary, failed, -, tried⟩⟩ :=
      @tryPrimary_cases hash lineBytes trail.log call.stamped call.endings.primary
    · rw [tried, if_pos long]
      exact written
    · rw [tried, if_neg fits, done]
      exact ⟨written.rows, written.head⟩
    · rw [tried, if_neg fits, failed]
      have lost : Log.WrittenBy { trail.log with primary } w := ⟨written.rows, written.head⟩
      exact afterPrimary_written ⟨{ trail.log with primary }, trail.emergencyMemory⟩ lost same error

theorem tryEvent_done (log : Log) (stamped : Stamped) :
    (tryEvent hash lineBytes log stamped .done).1 =
        ((encodedRow hash lineBytes stamped.event log.recoveryLastHash "recovery" log.integrityError).map fun _ => ()).mapError
          Raised.audit ∧
      (tryEvent hash lineBytes log stamped .done).2.1 =
        match encodedRow hash lineBytes stamped.event log.recoveryLastHash "recovery" log.integrityError with
        | .error _ => log
        | .ok row =>
          { log with
            recovery := log.recovery ++ [.row row]
            recoveryLastHash := row.eventHash
            recoveryError := ""
            mode := .recovery } := by
  rw [tryEvent]
  simp only [stamp]
  cases encodedRow hash lineBytes stamped.event log.recoveryLastHash "recovery" log.integrityError <;> exact ⟨rfl, rfl⟩

theorem tryRecovery_done (log : Log) (stamped : Stamped) (drawn : Drawn) (primary : Ending String) :
    (tryRecovery hash lineBytes log stamped drawn ⟨primary, .done, .done⟩).1 =
        (appendRecovery hash lineBytes log stamped.event drawn).1.mapError Raised.audit ∧
      (tryRecovery hash lineBytes log stamped drawn ⟨primary, .done, .done⟩).2.1 =
        (appendRecovery hash lineBytes log stamped.event drawn).2 := by
  have marked : (∀ error, markRecovery hash lineBytes log drawn = .error error →
      tryMarker hash lineBytes log drawn .done = (.error (.audit error), log)) ∧
      ∀ after, markRecovery hash lineBytes log drawn = .ok after →
        tryMarker hash lineBytes log drawn .done = (.ok (), after) := by
    rw [tryMarker, markRecovery]
    split
    · constructor <;> rintro _ ⟨⟩
      rfl
    · cases encodedRow hash lineBytes (degradedMarker drawn.id drawn.time drawn.path log) log.recoveryLastHash "recovery"
        log.integrityError <;> constructor <;> rintro _ ⟨⟩ <;> rfl
  rw [tryRecovery, appendRecovery]
  cases marks : markRecovery hash lineBytes log drawn with
  | error error =>
    rw [marked.1 error marks]
    exact ⟨rfl, rfl⟩
  | ok after =>
    rw [marked.2 after marks]
    obtain ⟨result, log'⟩ := @tryEvent_done hash lineBytes after stamped
    simp only
    rw [result, log']
    cases encodedRow hash lineBytes stamped.event after.recoveryLastHash "recovery" after.integrityError <;>
      exact ⟨rfl, rfl⟩

theorem tryRecord_done (done : call.endings = ⟨.done, .done, .done⟩) :
    (tryRecord hash lineBytes trail call).1 =
        (record hash lineBytes trail.log call.stamped.event call.drawn).1.mapError RecordError.log ∧
      (tryRecord hash lineBytes trail call).2 =
        { trail with log := (record hash lineBytes trail.log call.stamped.event call.drawn).2 } := by
  rw [tryRecord, record, done]
  by_cases broken : trail.log.integrityError ≠ ""
  · simp only [if_pos broken]
    cases trail.log.failurePolicy with
    | failClosed => exact ⟨rfl, rfl⟩
    | failOperational =>
      obtain ⟨result, log'⟩ := @tryRecovery_done hash lineBytes trail.log call.stamped call.drawn .done
      simp only [appendOperational]
      generalize tryRecovery hash lineBytes trail.log call.stamped call.drawn ⟨.done, .done, .done⟩ = tried at result log'
      obtain ⟨tried, log, after⟩ := tried
      obtain rfl : tried = _ := result
      obtain rfl : log = _ := log'
      cases (appendRecovery hash lineBytes trail.log call.stamped.event call.drawn).1 <;> exact ⟨rfl, rfl⟩
  · simp only [if_neg broken, appendPrimary, tryPrimary, stamp]
    cases encodedRow hash lineBytes call.stamped.event trail.log.lastHash "primary" "" <;> exact ⟨rfl, rfl⟩

end Files

section Keeping

variable {hash : Object → Object → String} {lineBytes : Row → Nat} {log : Log} {stamped : Stamped} {drawn : Drawn}
  {endings : Endings}

/-- A file has a row of the event. -/
def Log.Holds (log : Log) (event : AuditEvent) : Prop :=
  ∃ row : Row, row.members = event.members ∧ (.row row ∈ log.primary ∨ .row row ∈ log.recovery)

/-- The event is in one of the files or in the emergency memory. -/
def Trail.Holds (trail : Trail) (event : AuditEvent) : Prop :=
  trail.log.Holds event ∨ ∃ kept ∈ trail.emergencyMemory, kept.event = event

/-- Nothing is taken out of a file. -/
structure Log.Grows (log log' : Log) : Prop where
  primary : log.primary <+: log'.primary
  recovery : log.recovery <+: log'.recovery

structure Trail.Grows (trail trail' : Trail) : Prop where
  log : trail.log.Grows trail'.log
  emergencyMemory : trail.emergencyMemory <+: trail'.emergencyMemory

theorem Log.Grows.refl (log : Log) : log.Grows log := ⟨List.prefix_rfl, List.prefix_rfl⟩

theorem Log.Grows.trans {a b c : Log} (h : a.Grows b) (h' : b.Grows c) : a.Grows c :=
  ⟨h.primary.trans h'.primary, h.recovery.trans h'.recovery⟩

theorem Trail.Grows.refl (trail : Trail) : trail.Grows trail := ⟨.refl _, List.prefix_rfl⟩

theorem Trail.Grows.trans {a b c : Trail} (h : a.Grows b) (h' : b.Grows c) : a.Grows c :=
  ⟨h.log.trans h'.log, h.emergencyMemory.trans h'.emergencyMemory⟩

theorem Trail.Holds.grows {trail trail' : Trail} {event : AuditEvent} (holds : trail.Holds event)
    (grows : trail.Grows trail') : trail'.Holds event := by
  rcases holds with ⟨row, same, primary | recovery⟩ | ⟨kept, mem, same⟩
  · exact .inl ⟨row, same, .inl (grows.log.primary.subset primary)⟩
  · exact .inl ⟨row, same, .inr (grows.log.recovery.subset recovery)⟩
  · exact .inr ⟨kept, grows.emergencyMemory.subset mem, same⟩

theorem durableAppend_prefix (file : List Line) (row : Row) (ending : Ending String) :
    file <+: (durableAppend file row ending).1 := by
  rcases ending with done | error | error
  · exact List.prefix_append _ _
  · exact List.prefix_rfl
  · exact List.prefix_append _ _

theorem tryEvent_kept (log : Log) (stamped : Stamped) (ending : Ending String) :
    log.Grows (tryEvent hash lineBytes log stamped ending).2.1 ∧
      (tryEvent hash lineBytes log stamped ending).2.2.event = stamped.event ∧
      ((tryEvent hash lineBytes log stamped ending).1 = .ok () →
        (tryEvent hash lineBytes log stamped ending).2.1.Holds stamped.event) := by
  rw [tryEvent]
  by_cases long : maxLineBytes < lineBytes (chainRow hash stamped.event log.recoveryLastHash "recovery" log.integrityError)
  · have refused := encodedRow_long long
    simp only [stamp, refused]
    exact ⟨.refl log, trivial, fun h => nomatch h⟩
  · have encoded := encodedRow_fits long
    simp only [stamp, encoded]
    rcases ending with done | error | error
    · exact ⟨⟨List.prefix_rfl, List.prefix_append _ _⟩, rfl, fun _ => ⟨_, rfl, .inr (List.mem_concat_self)⟩⟩
    · exact ⟨.refl log, rfl, fun h => nomatch h⟩
    · exact ⟨⟨List.prefix_rfl, List.prefix_append _ _⟩, rfl, fun h => nomatch h⟩

theorem tryMarker_grows (log : Log) (drawn : Drawn) (ending : Ending String) :
    log.Grows (tryMarker hash lineBytes log drawn ending).2 := by
  rw [tryMarker]
  split
  · exact .refl log
  · split
    · exact .refl log
    next marker _ =>
      have longer := durableAppend_prefix log.recovery marker ending
      rcases ending with done | error | error
      · exact ⟨List.prefix_rfl, longer⟩
      · exact ⟨List.prefix_rfl, longer⟩
      · exact ⟨List.prefix_rfl, longer⟩

theorem tryRecovery_kept (log : Log) (stamped : Stamped) (drawn : Drawn) (endings : Endings) :
    log.Grows (tryRecovery hash lineBytes log stamped drawn endings).2.1 ∧
      (tryRecovery hash lineBytes log stamped drawn endings).2.2.event = stamped.event ∧
      ((tryRecovery hash lineBytes log stamped drawn endings).1 = .ok () →
        (tryRecovery hash lineBytes log stamped drawn endings).2.1.Holds stamped.event) := by
  have marked := @tryMarker_grows hash lineBytes log drawn endings.marker
  rw [tryRecovery]
  generalize tryMarker hash lineBytes log drawn endings.marker = tried at marked
  rcases tried with ⟨raised | ok, log'⟩
  · exact ⟨marked, rfl, fun h => nomatch h⟩
  · obtain ⟨grows, same, holds⟩ := @tryEvent_kept hash lineBytes log' stamped endings.event
    exact ⟨marked.trans grows, same, holds⟩

theorem appendEmergency_kept (trail : Trail) (stamped : Stamped) (error : String) :
    trail.Grows (appendEmergency trail stamped error).2 ∧
      ((appendEmergency trail stamped error).1 = .ok () → (appendEmergency trail stamped error).2.Holds stamped.event) := by
  rw [appendEmergency]
  split
  · exact ⟨.refl trail, fun h => nomatch h⟩
  · exact ⟨⟨⟨List.prefix_rfl, List.prefix_rfl⟩, List.prefix_append _ _⟩,
      fun _ => .inr ⟨_, List.mem_concat_self, rfl⟩⟩

theorem appendOperational_kept (trail : Trail) (stamped : Stamped) (drawn : Drawn) (endings : Endings) :
    trail.Grows (appendOperational hash lineBytes trail stamped drawn endings).2 ∧
      ((appendOperational hash lineBytes trail stamped drawn endings).1 = .ok () →
        (appendOperational hash lineBytes trail stamped drawn endings).2.Holds stamped.event) := by
  obtain ⟨grows, same, holds⟩ := @tryRecovery_kept hash lineBytes trail.log stamped drawn endings
  rw [appendOperational]
  generalize tryRecovery hash lineBytes trail.log stamped drawn endings = tried at grows same holds
  rcases tried with ⟨(error | error) | ok, log, after⟩
  · exact ⟨⟨grows, List.prefix_rfl⟩, fun h => nomatch h⟩
  · obtain ⟨grows', holds'⟩ := appendEmergency_kept { trail with log := { log with recoveryError := error } } after error
    have lost : trail.Grows { trail with log := { log with recoveryError := error } } :=
      ⟨⟨grows.primary, grows.recovery⟩, List.prefix_rfl⟩
    exact ⟨lost.trans grows', fun h => same ▸ holds' h⟩
  · exact ⟨⟨grows, List.prefix_rfl⟩, fun _ => .inl (holds rfl)⟩

theorem afterPrimary_kept (trail : Trail) (stamped : Stamped) (call : Call) (error : String) :
    trail.Grows (afterPrimary hash lineBytes trail stamped call error).2 ∧
      ((afterPrimary hash lineBytes trail stamped call error).1 = .ok () →
        (afterPrimary hash lineBytes trail stamped call error).2.Holds stamped.event) := by
  have broken : trail.Grows { trail with log := trail.log.broken error } :=
    ⟨⟨List.prefix_rfl, List.prefix_rfl⟩, List.prefix_rfl⟩
  rw [afterPrimary]
  cases trail.log.failurePolicy with
  | failClosed => exact ⟨broken, fun h => nomatch h⟩
  | failOperational =>
    obtain ⟨grows, holds⟩ := @appendOperational_kept hash lineBytes { trail with log := trail.log.broken error } stamped
      call.drawn call.endings
    exact ⟨broken.trans grows, holds⟩

theorem tryRecord_kept (trail : Trail) (call : Call) :
    trail.Grows (tryRecord hash lineBytes trail call).2 ∧
      ((tryRecord hash lineBytes trail call).1 = .ok () →
        (tryRecord hash lineBytes trail call).2.Holds call.stamped.event) := by
  rw [tryRecord]
  split
  · cases trail.log.failurePolicy with
    | failClosed => exact ⟨.refl trail, fun h => nomatch h⟩
    | failOperational => exact appendOperational_kept trail call.stamped call.drawn call.endings
  · obtain ⟨after, same, ⟨-, tried⟩ | ⟨-, -, tried⟩ | ⟨-, error, primary, -, longer, tried⟩⟩ :=
      @tryPrimary_cases hash lineBytes trail.log call.stamped call.endings.primary
    · rw [tried]
      exact ⟨.refl trail, fun h => nomatch h⟩
    · rw [tried]
      exact ⟨⟨⟨List.prefix_append _ _, List.prefix_rfl⟩, List.prefix_rfl⟩,
        fun _ => .inl ⟨_, rfl, .inl List.mem_concat_self⟩⟩
    · rw [tried]
      obtain ⟨grows, holds⟩ := @afterPrimary_kept hash lineBytes { trail with log := { trail.log with primary } } after
        call error
      have lost : trail.Grows { trail with log := { trail.log with primary } } := ⟨⟨longer, List.prefix_rfl⟩, List.prefix_rfl⟩
      exact ⟨lost.trans grows, fun h => same ▸ holds h⟩

theorem tryRecords_grows (trail : Trail) (calls : List Call) : trail.Grows (tryRecords hash lineBytes trail calls) := by
  induction calls generalizing trail with
  | nil => exact .refl trail
  | cons call calls ih => exact (tryRecord_kept trail call).1.trans (ih _)

end Keeping

section Runs

variable (hash : Object → Object → String) (lineBytes : Row → Nat)

/-- Every event whose record returned is in one of the sinks. -/
def Kept (trail : Trail) (calls : List Call) : Prop :=
  ∀ before call after, calls = before ++ call :: after →
    (tryRecord hash lineBytes (tryRecords hash lineBytes trail before) call).1 = .ok () →
      (tryRecords hash lineBytes trail calls).Holds call.stamped.event

/-- A fresh scan accepts the recovery file at all times; within a call the file is a piece of what the
call leaves. -/
def Chained (trail : Trail) (calls : List Call) : Prop :=
  ∀ reached file, reached <+: calls → file <+: (tryRecords hash lineBytes trail reached).log.recovery →
    (scanPath hash file).valid = true

variable {hash lineBytes} {trail : Trail} {calls : List Call}

theorem tryRecords_append (calls' : List Call) :
    tryRecords hash lineBytes trail (calls ++ calls') =
      tryRecords hash lineBytes (tryRecords hash lineBytes trail calls) calls' := List.foldl_append

theorem kept (trail : Trail) (calls : List Call) : Kept hash lineBytes trail calls := by
  rintro before call after rfl returned
  rw [tryRecords_append]
  exact ((tryRecord_kept _ call).2 returned).grows (tryRecords_grows _ after)

theorem runAppends_written {w : Chain.Writer Row String} (written : trail.log.WrittenBy w) (calls : List Call) :
    (tryRecords hash lineBytes trail calls).log.WrittenBy (writeAll w (runAppends hash lineBytes trail calls)) := by
  induction calls generalizing trail w with
  | nil => exact written
  | cons call calls ih =>
    rw [runAppends, writeAll, List.foldl_append]
    exact ih (tryRecord_written written)

/-- The rows are made by the log. -/
def Made (hash : Object → Object → String) (a : RecoveryAppend) : Prop :=
  ∃ event primaryError, a.1 = fun head => chainRow hash event head "recovery" primaryError

theorem fitting_made {row : String → Row} {head : String} {ending : Ending String} (made : Made hash (row, ending)) :
    ∀ a ∈ fitting lineBytes row head ending, Made hash a := by
  intro a mem
  rw [fitting] at mem
  split at mem
  · cases mem
  · rw [List.mem_singleton.mp mem]
    exact made

theorem recoveryAppends_made (log : Log) (event : AuditEvent) (drawn : Drawn) (endings : Endings) :
    ∀ a ∈ recoveryAppends hash lineBytes log event drawn endings, Made hash a := by
  have event_made : Made hash ((fun head => chainRow hash event head "recovery" log.integrityError), endings.event) :=
    ⟨event, log.integrityError, rfl⟩
  have marker_made : Made hash (markerRow hash log drawn, endings.marker) := ⟨_, log.integrityError, rfl⟩
  intro a mem
  rw [recoveryAppends] at mem
  split at mem
  · exact fitting_made event_made a mem
  · rcases List.mem_append.mp mem with first | second
    · exact fitting_made marker_made a first
    · split at second
      · cases second
      · exact fitting_made event_made a second

theorem callAppends_made (log : Log) (call : Call) : ∀ a ∈ callAppends hash lineBytes log call, Made hash a := by
  have diverted (broken : Log) : ∀ a ∈ (match log.failurePolicy with
      | .failClosed => []
      | .failOperational => recoveryAppends hash lineBytes broken call.stamped.event call.drawn call.endings),
      Made hash a := by
    cases log.failurePolicy with
    | failClosed => exact fun _ mem => nomatch mem
    | failOperational => exact recoveryAppends_made broken _ _ _
  rw [callAppends]
  split
  · exact diverted log
  · split
    · exact fun _ mem => nomatch mem
    · cases call.endings.primary.error with
      | none => exact fun _ mem => nomatch mem
      | some error => exact diverted _

theorem runAppends_made (trail : Trail) (calls : List Call) :
    ∀ a ∈ runAppends hash lineBytes trail calls, Made hash a := by
  induction calls generalizing trail with
  | nil => exact fun _ mem => nomatch mem
  | cons call calls ih =>
    intro a mem
    rcases List.mem_append.mp mem with now | later
    · exact callAppends_made _ call a now
    · exact ih _ a later

theorem intact_map {rows : List Row} :
    Intact hash (rows.map Line.row) ↔ (∀ row ∈ rows, Sealed hash row) ∧ Linked Row.previous Row.eventHash "" rows := by
  constructor
  · rintro ⟨rows', same, intact⟩
    rw [List.map_injective_iff.mpr (fun a b h => Line.row.inj h) same]
    exact intact
  · exact fun intact => ⟨rows, rfl, intact⟩

theorem opened_written (policy : AuditFailurePolicy) (primary : List Line) {recovery : List Line} {rows : List Row}
    (intact : IntactFrom hash "" recovery rows) :
    (Log.opened hash policy primary recovery).WrittenBy ⟨rows, head Row.eventHash "" rows⟩ := by
  have valid := scanPath_valid_iff.mpr ⟨rows, intact⟩
  exact ⟨intact.1, (if_pos valid).trans (scanPath_lastHash intact)⟩

theorem chained_iff_final :
    Chained hash lineBytes trail calls ↔ Intact hash (tryRecords hash lineBytes trail calls).log.recovery := by
  constructor
  · exact fun chained => scanPath_valid_iff.mp (chained calls _ List.prefix_rfl List.prefix_rfl)
  · rintro intact reached file ⟨rest, rfl⟩ piece
    rw [tryRecords_append] at intact
    have grows := (@tryRecords_grows hash lineBytes (tryRecords hash lineBytes trail reached) rest).log.recovery
    exact scanPath_valid_iff.mpr ( intact_of_prefix intact (piece.trans grows))

section Digests

variable (some_hash : ∀ members metadata, hash members metadata ≠ "")
  (unfixed : ∀ members metadata, hash members metadata ≠ textOf metadata "previous_hash")

include some_hash unfixed

theorem chained_iff (policy : AuditFailurePolicy) (primary recovery : List Line)
    (valid : (scanPath hash recovery).valid = true) (calls : List Call) :
    Chained hash lineBytes ⟨Log.opened hash policy primary recovery, []⟩ calls ↔
      Unforked ((runAppends hash lineBytes ⟨Log.opened hash policy primary recovery, []⟩ calls).map Prod.snd) := by
  obtain ⟨rows, intact⟩ := scanPath_valid_iff.mp valid
  have start := @opened_written hash policy primary recovery rows intact
  have made := @runAppends_made hash lineBytes ⟨Log.opened hash policy primary recovery, []⟩ calls
  have all_sealed : ∀ row ∈ (writeAll ⟨rows, head Row.eventHash "" rows⟩
      (runAppends hash lineBytes ⟨Log.opened hash policy primary recovery, []⟩ calls)).rows, Sealed hash row :=
    Writer.forall_rows_foldl intact.2.1 fun a mem d => by
      obtain ⟨event, primaryError, made⟩ := made a mem
      rw [made]
      exact ⟨rfl, some_hash _ _, rfl⟩
  have names : ∀ a ∈ runAppends hash lineBytes ⟨Log.opened hash policy primary recovery, []⟩ calls, ∀ d,
      (a.1 d).previous = d := fun a mem d => by
    obtain ⟨event, primaryError, made⟩ := made a mem
    rw [made]
    rfl
  have fresh : ∀ a ∈ runAppends hash lineBytes ⟨Log.opened hash policy primary recovery, []⟩ calls, ∀ d,
      (a.1 d).eventHash ≠ d := fun a mem d => by
    obtain ⟨event, primaryError, made⟩ := made a mem
    rw [made]
    exact unfixed event.members (integrityMetadata d "recovery" primaryError)
  rw [chained_iff_final, (runAppends_written start calls).rows, intact_map, and_iff_right all_sealed]
  exact Writer.linked_foldl_iff names fresh intact.2.2 rfl

/-- No event is lost, and the recovery file stays a chain exactly where no row is written to it behind
one whose sync failed: the log goes on from the head it had before. -/
theorem keeps_chain_iff (primary recovery : List Line) (valid : (scanPath hash recovery).valid = true)
    (calls : List Call) :
    (Kept hash lineBytes ⟨Log.opened hash .failOperational primary recovery, []⟩ calls ∧
        Chained hash lineBytes ⟨Log.opened hash .failOperational primary recovery, []⟩ calls) ↔
      Unforked ((runAppends hash lineBytes ⟨Log.opened hash .failOperational primary recovery, []⟩ calls).map
        Prod.snd) :=
  (and_iff_right (kept _ calls)).trans (chained_iff some_hash unfixed .failOperational primary recovery valid calls)

end Digests

end Runs

section Samples

theorem plain_length (text : String) (object : Object) :
    (object.foldl (fun text member => text ++ member.1 ++ ":" ++ member.2.text ++ ",") text).length =
      text.length + (object.map fun member => member.1.length + member.2.text.length + 2).sum := by
  induction object generalizing text with
  | nil => rfl
  | cons member object ih =>
    rw [List.foldl_cons, ih, List.map_cons, List.sum_cons]
    simp only [String.length_append]
    have one : ":".length = 1 ∧ ",".length = 1 := ⟨rfl, rfl⟩
    omega

theorem plainHash_some (members metadata : Object) : plainHash members metadata ≠ "" := by
  intro empty
  have length := congrArg String.length empty
  rw [plainHash, plain_length] at length
  have one : "#".length = 1 ∧ "".length = 0 := ⟨rfl, rfl⟩
  omega

theorem textOf_length (object : Object) (name : String) :
    (textOf object name).length ≤ (object.map fun member => member.1.length + member.2.text.length + 2).sum := by
  induction object with
  | nil => exact Nat.le_refl 0
  | cons member object ih =>
    rw [List.map_cons, List.sum_cons]
    by_cases named : name == member.1
    · rw [textOf, List.lookup_cons, named]
      change member.2.text.length ≤ _
      omega
    · rw [textOf, List.lookup_cons, Bool.not_eq_true _ |>.mp named]
      exact ih.trans (Nat.le_add_left _ _)

theorem plainHash_unfixed (members metadata : Object) :
    plainHash members metadata ≠ textOf metadata "previous_hash" := by
  intro fixed
  have length := congrArg String.length fixed
  have named := textOf_length metadata "previous_hash"
  rw [plainHash, plain_length, List.map_append, List.sum_append] at length
  have one : "#".length = 1 := rfl
  omega

def sampleCall (id : String) (primary marker event : Ending String) : Call :=
  ⟨⟨sampleEvent id, []⟩, sampleDrawn, primary, marker, event⟩

def noSpace : String := "OSError: [Errno 28] No space left on device"

/-- The disk is full for the primary file, and the event's row is written and not synced. -/
def unsyncedCall : Call := sampleCall "audit_a" (.unwritten noSpace) .done (.unsynced "OSError: [Errno 5] Input/output error")

def freshTrail : Trail := ⟨Log.opened plainHash .failOperational [] [], []⟩

/-- Nothing is written behind the row whose sync failed. -/
theorem keeps_chain_sample :
    Kept plainHash (fun _ => 512) freshTrail [unsyncedCall, sampleCall "audit_b" .done .done (.unwritten noSpace)] ∧
      Chained plainHash (fun _ => 512) freshTrail
        [unsyncedCall, sampleCall "audit_b" .done .done (.unwritten noSpace)] :=
  (keeps_chain_iff plainHash_some plainHash_unfixed [] [] rfl _).mpr (by decide)

/-- The row of the next record names the digest before the row whose sync failed. -/
theorem recovery_forks :
    ¬(Kept plainHash (fun _ => 512) freshTrail [unsyncedCall, sampleCall "audit_b" .done .done .done] ∧
      Chained plainHash (fun _ => 512) freshTrail [unsyncedCall, sampleCall "audit_b" .done .done .done]) := by
  rintro ⟨-, chained⟩
  have unforked := (chained_iff plainHash_some plainHash_unfixed .failOperational [] [] rfl _).mp chained
  exact absurd unforked (by decide)

end Samples

end Arenyxa.Audit
