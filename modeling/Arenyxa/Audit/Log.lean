import Arenyxa.Lib.Chain

/-! The audit log: a file of hash-linked rows, the chain head in memory, and the recovery chain
that takes over when the primary file is broken. -/

namespace Arenyxa.Audit

/-- A JSON value, as far as a verification looks into it. -/
inductive Value
  | str (value : String)
  /-- `null`, `false`, `0`, `[]` or `{}` -/
  | falsy (spelling : String)
  | other (rendering : String)
  deriving DecidableEq

/-- `str(value or "")` -/
def Value.text : Value → String
  | .str value => value
  | .falsy _ => ""
  | .other rendering => rendering

/-- The members of a JSON object, in the order of the canonical form. -/
abbrev Object := List (String × Value)

def textOf (object : Object) (name : String) : String := ((object.lookup name).map Value.text).getD ""

/-- A row as the verification reads it: `metadata` is `integrity_metadata` without the event hash,
and `eventHash` is that hash. -/
structure Row where
  members : Object
  metadata : Object
  eventHash : String

/-- What the next line of a chain file holds. -/
inductive Line
  | row (row : Row)
  | oversized
  | blank
  | invalid (error : String)
  | notObject
  /-- A row whose verification raises a `TypeError` or a `ValueError`. -/
  | raising (error : String)

structure AuditEvent where
  id : String
  actor : String
  action : String
  resource : String
  decision : String
  trustDomain : String
  device : String
  time : String
  correlationId : String
  reason : String

/-- `asdict(event)`, without the integrity metadata. -/
def AuditEvent.members (event : AuditEvent) : Object :=
  [("action", .str event.action), ("actor", .str event.actor),
    ("correlation_id", .str event.correlationId), ("decision", .str event.decision),
    ("device", .str event.device), ("id", .str event.id), ("reason", .str event.reason),
    ("resource", .str event.resource), ("time", .str event.time),
    ("trust_domain", .str event.trustDomain)]

inductive AuditFailurePolicy
  | failClosed
  | failOperational

inductive AuditMode
  | normal
  | degraded
  | recovery
  deriving DecidableEq

def algorithm : String := "sha256-chain-v1"

def maxLineBytes : Nat := 1024 * 1024

structure Scan where
  valid : Bool
  lastHash : String
  reason : String

section Chains

-- The digest of the canonical row without its event hash.
variable (hash : Object → Object → String)

def rowReason (index : Nat) (problem : String) : String :=
  "row " ++ toString index ++ " " ++ problem

def verifyRow (row : Row) (previous : String) (index : Nat) : Scan :=
  if row.metadata.lookup "algorithm" ≠ some (.str algorithm) then
    ⟨false, previous, rowReason index "algorithm mismatch"⟩
  else if textOf row.metadata "previous_hash" ≠ previous then
    ⟨false, previous, rowReason index "previous hash mismatch"⟩
  else if row.eventHash = "" ∨ row.eventHash ≠ hash row.members row.metadata then
    ⟨false, previous, rowReason index "event hash mismatch"⟩
  else ⟨true, row.eventHash, "ok"⟩

def scanFrom (previous : String) (index : Nat) : List Line → Scan
  | [] => ⟨true, previous, if index = 0 then "empty" else "ok"⟩
  | .oversized :: _ => ⟨false, previous, rowReason index "exceeds maximum audit line size"⟩
  | .blank :: _ => ⟨false, previous, rowReason index "is blank"⟩
  | .invalid error :: _ => ⟨false, previous, rowReason index ("is invalid: " ++ error)⟩
  | .notObject :: _ => ⟨false, previous, rowReason index "is not an object"⟩
  | .raising error :: _ => ⟨false, previous, "audit verification failed: " ++ error⟩
  | .row row :: rest =>
    let verified := verifyRow hash row previous index
    if verified.valid then scanFrom verified.lastHash (index + 1) rest else verified

/-- `_scan_path`; a file that does not exist holds no lines. -/
def scanPath (file : List Line) : Scan := scanFrom hash "" 0 file

structure Log where
  primary : List Line
  recovery : List Line
  failurePolicy : AuditFailurePolicy
  lastHash : String
  recoveryLastHash : String
  integrityError : String
  recoveryError : String
  mode : AuditMode
  recoveryMarkerWritten : Bool

/-- A log on the files at its two paths. -/
def Log.opened (policy : AuditFailurePolicy) (primary recovery : List Line) : Log :=
  let scan := scanPath hash primary
  let recoveryScan := scanPath hash recovery
  { primary, recovery
    failurePolicy := policy
    lastHash := if scan.valid then scan.lastHash else ""
    recoveryLastHash := if recoveryScan.valid then recoveryScan.lastHash else ""
    integrityError := if scan.valid then "" else scan.reason
    recoveryError := if recoveryScan.valid then "" else recoveryScan.reason
    mode := if scan.valid then .normal else .degraded
    recoveryMarkerWritten := recoveryScan.valid && recoveryScan.lastHash != "" }

inductive AuditError
  | integrityBroken (reason : String)
  | eventTooLarge

-- The length of the line a row is written as.
variable (lineBytes : Row → Nat)

/-- `text[:512]` -/
def bounded (text : String) : String := String.ofList (text.toList.take 512)

/-- The integrity metadata that is hashed. -/
def integrityMetadata (previousHash channel primaryError : String) : Object :=
  [("algorithm", .str algorithm), ("channel", .str channel),
    ("previous_hash", .str previousHash)] ++
  if primaryError ≠ "" then [("primary_integrity_error", .str (bounded primaryError))] else []

def encodedRow (event : AuditEvent) (previousHash channel primaryError : String) :
    Except AuditError Row :=
  let metadata := integrityMetadata previousHash channel primaryError
  let row : Row := ⟨event.members, metadata, hash event.members metadata⟩
  if maxLineBytes < lineBytes row then .error .eventTooLarge else .ok row

def appendPrimary (log : Log) (event : AuditEvent) : Except AuditError Log := do
  let row ← encodedRow hash lineBytes event log.lastHash "primary" ""
  return { log with primary := log.primary ++ [.row row], lastHash := row.eventHash, mode := .normal }

/-- `audit.degraded`; the identifier and the time are drawn, the resource is the path. -/
def degradedMarker (id time path : String) (log : Log) : AuditEvent where
  id := id
  actor := "arenyxa.audit"
  action := "audit.degraded"
  resource := path
  decision := "recovery"
  trustDomain := "enterprise"
  device := ""
  time := time
  correlationId := ""
  reason := if log.integrityError ≠ "" then log.integrityError else "primary audit sink unavailable"

/-- What `record` draws for itself. -/
structure Drawn where
  id : String
  time : String
  path : String

/-- The recovery chain with its marker, which is written once. -/
def markRecovery (log : Log) (drawn : Drawn) : Except AuditError Log :=
  if log.recoveryMarkerWritten then .ok log
  else do
    let marker ← encodedRow hash lineBytes (degradedMarker drawn.id drawn.time drawn.path log)
      log.recoveryLastHash "recovery" log.integrityError
    return { log with
      recovery := log.recovery ++ [.row marker]
      recoveryLastHash := marker.eventHash
      recoveryMarkerWritten := true }

def appendRecovery (log : Log) (event : AuditEvent) (drawn : Drawn) :
    Except AuditError Unit × Log :=
  match markRecovery hash lineBytes log drawn with
  | .error error => (.error error, log)
  | .ok marked =>
    match encodedRow hash lineBytes event marked.recoveryLastHash "recovery"
        marked.integrityError with
    | .error error => (.error error, marked)
    | .ok row =>
      (.ok (), { marked with
        recovery := marked.recovery ++ [.row row]
        recoveryLastHash := row.eventHash
        recoveryError := ""
        mode := .recovery })

/-- `record` where no write fails. -/
def record (log : Log) (event : AuditEvent) (drawn : Drawn) : Except AuditError Unit × Log :=
  if log.integrityError ≠ "" then
    match log.failurePolicy with
    | .failClosed => (.error (.integrityBroken log.integrityError), log)
    | .failOperational => appendRecovery hash lineBytes log event drawn
  else
    match appendPrimary hash lineBytes log event with
    | .error error => (.error error, log)
    | .ok after => (.ok (), after)

/-- The second half of `verify`, which takes the scan of the file over. -/
def adopt (log : Log) (scan : Scan) : Log :=
  if scan.valid then
    { log with
      lastHash := scan.lastHash
      integrityError := ""
      mode :=
        if log.mode = .degraded ∧ log.recoveryError = "" then
          if log.recoveryMarkerWritten then .recovery else .normal
        else log.mode }
  else
    { log with
      integrityError := scan.reason
      mode := if log.mode = .normal then .degraded else log.mode }

def verify (log : Log) : (Bool × String) × Log :=
  let scan := scanPath hash log.primary
  ((scan.valid, scan.reason), adopt log scan)

end Chains

end Arenyxa.Audit
