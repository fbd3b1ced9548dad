import Arenyxa.Lib.Outcome
import Mathlib.Data.NNRat.Defs

/-! Constants, states, errors and input checks of the distributed protocol. -/

namespace Arenyxa.Distributed

open Outcome

def currentProtocol : Int := 2
def minCompatibleProtocol : Int := 1
def maxJobPayloadBytes : Nat := 2 * 1024 * 1024
def maxResultBytes : Nat := 256 * 1024
def maxCheckpointBytes : Nat := 128 * 1024
def maxResourceDeclarationBytes : Nat := 64 * 1024
def maxWorkerIdentityMetadataBytes : Nat := 16 * 1024
def maxJobs : Nat := 100000
def maxWorkers : Nat := 4096
def maxWorkerSlots : Int := 64
def maxJobEventsPerJob : Nat := 128
def defaultLeaseSeconds : Int := 60
def maxLeaseSeconds : Int := 15 * 60

/-- `max(10.0, min(45.0, DEFAULT_LEASE_SECONDS * 0.75))` -/
def workerHeartbeatTimeoutSeconds : ℚ := max 10 (min 45 (defaultLeaseSeconds * (3 / 4)))

inductive JobState
  | queued | leased | running | completed | failed | reviewRequired | cancelled
  deriving DecidableEq

def JobState.name : JobState → String
  | .queued => "queued"
  | .leased => "leased"
  | .running => "running"
  | .completed => "completed"
  | .failed => "failed"
  | .reviewRequired => "review_required"
  | .cancelled => "cancelled"

/-- `state IN ('leased','running')` -/
def JobState.active : JobState → Bool
  | .leased | .running => true
  | _ => false

/-- `state IN ('completed','failed','cancelled')` -/
def JobState.terminal : JobState → Bool
  | .completed | .failed | .cancelled => true
  | _ => false

inductive SideEffectMode
  | idempotent | nonIdempotent
  deriving DecidableEq

def SideEffectMode.name : SideEffectMode → String
  | .idempotent => "idempotent"
  | .nonIdempotent => "non_idempotent"

inductive SideEffectState
  | none | started | completed
  deriving DecidableEq

inductive WorkerState
  | active | draining | revoked
  deriving DecidableEq

/-- The empty source state of the first event is `none`. -/
def allowedJobTransitions : List (Option JobState × JobState) :=
  [(none, .queued),
    (some .queued, .queued), (some .queued, .leased), (some .queued, .cancelled),
    (some .leased, .leased), (some .leased, .running), (some .leased, .queued),
    (some .leased, .completed), (some .leased, .failed), (some .leased, .reviewRequired),
    (some .leased, .cancelled),
    (some .running, .running), (some .running, .queued), (some .running, .completed),
    (some .running, .failed), (some .running, .reviewRequired), (some .running, .cancelled),
    (some .reviewRequired, .reviewRequired), (some .reviewRequired, .queued),
    (some .reviewRequired, .failed), (some .reviewRequired, .cancelled),
    (some .completed, .completed), (some .failed, .failed), (some .cancelled, .cancelled)]

/-- A value in the context of an error or the details of an event. -/
inductive Detail
  | text (s : String)
  | int (n : Int)
  | flag (b : Bool)
  | seconds (q : ℚ)
  deriving DecidableEq

abbrev Details := List (String × Detail)

inductive QueueError
  | arenyxa (code message : String) (context : Details)
  | typeError (message : String)
  | integrityError (message : String)
  deriving DecidableEq

def QueueError.fail (code message : String) (context : Details := []) : QueueError :=
  .arenyxa code message context

def QueueError.code : QueueError → String
  | .arenyxa code _ _ => code
  | .typeError _ => ""
  | .integrityError _ => ""

open QueueError

/-- A clock reading in epoch seconds. -/
abbrev Instant := ℚ≥0

/-- Python's `str.isspace` on one character. -/
def isSpace (c : Char) : Bool :=
  let n := c.toNat
  (9 ≤ n && n ≤ 13) || (28 ≤ n && n ≤ 32) || n == 0x85 || n == 0xA0 || n == 0x1680 ||
    (0x2000 ≤ n && n ≤ 0x200A) || n == 0x2028 || n == 0x2029 || n == 0x202F || n == 0x205F ||
    n == 0x3000

def strip (s : String) : String :=
  String.ofList ((s.toList.dropWhile isSpace).reverse.dropWhile isSpace).reverse

def truncate (n : Nat) (s : String) : String := String.ofList (s.toList.take n)

def cleanToken (value label : String) (maxLen : Nat := 160) : Except QueueError String := do
  let text := strip value
  require (¬(text = "" ∨ maxLen < text.toList.length ∨
    text.toList.any (fun ch => isSpace ch || ch.toNat < 32 || ch.toNat == 127)))
    (fail "DISTRIBUTED_IDENTIFIER_INVALID" (label ++ " is invalid"))
  return text

/-- A JSON object argument, given by its canonical text (sorted keys, compact separators). -/
structure JsonObject where
  canonical : String

/-- Text that needs no escape in either JSON encoder beyond the ones they share. -/
def isPlain (s : String) : Bool := s.toList.all fun c => c.toNat < 127

/-- SHA-256 up to what the queue relies on: a digest is a non-empty text of plain characters. -/
structure Sha256 where
  hexdigest : String → String
  hexdigest_ne_empty : ∀ s, hexdigest s ≠ ""
  hexdigest_plain : ∀ s, isPlain (hexdigest s)

def boundedJson (sha : Sha256) (value : JsonObject) (maxBytes : Nat) (label : String) :
    Except QueueError (String × String) := do
  let raw := value.canonical
  require (raw.utf8ByteSize ≤ maxBytes)
    (fail "DISTRIBUTED_PAYLOAD_TOO_LARGE" (label ++ " exceeds the safety limit")
      [("bytes", .int raw.utf8ByteSize), ("limit", .int maxBytes)])
  return (raw, sha.hexdigest raw)

def isAscii (s : String) : Bool := s.toList.all fun c => c.toNat < 128

/-- `hmac.compare_digest` on two strings: it refuses text that is not ASCII. -/
def compareDigest (a b : String) : Except QueueError Bool := do
  require (isAscii a ∧ isAscii b)
    (.typeError "comparing strings with non-ASCII characters is not supported")
  return a == b

/-- `all(hmac.compare_digest(a, b) for a, b in pairs)`, which stops at the first mismatch. -/
def allCompareDigest : List (String × String) → Except QueueError Bool
  | [] => .ok true
  | (a, b) :: rest => do
    let same ← compareDigest a b
    if same then allCompareDigest rest else .ok false

def negotiateProtocol (peerMin peerMax : Int) : Except QueueError Int := do
  let low := max minCompatibleProtocol peerMin
  let high := min currentProtocol peerMax
  require (low ≤ high)
    (fail "PROTOCOL_INCOMPATIBLE"
      "No compatible Arenyxa Enterprise protocol version is available"
      [("server_min", .int minCompatibleProtocol), ("server_max", .int currentProtocol),
        ("peer_min", .int peerMin), ("peer_max", .int peerMax)])
  return high

@[simp] theorem JobState.not_terminal_of_active {s : JobState} (h : s.active) :
    s.terminal = false := by
  cases s <;> simp_all [active, terminal]

/-- The characters of a literal, read off without decoding the text. -/
theorem all_toList_ofList {p : Char → Bool} {chars : List Char} (all : chars.all p = true) :
    (String.ofList chars).toList.all p = true := by
  rw [String.toList_ofList]
  exact all

theorem isAscii_of_isPlain {s : String} (h : isPlain s) : isAscii s := by
  simp only [isPlain, isAscii, List.all_eq_true, decide_eq_true_eq] at h ⊢
  intro c hc
  have := h c hc
  omega

theorem Sha256.isAscii_hexdigest (sha : Sha256) (s : String) : isAscii (sha.hexdigest s) :=
  isAscii_of_isPlain (sha.hexdigest_plain s)

theorem compareDigest_of_ascii {a b : String} (ha : isAscii a) (hb : isAscii b) :
    compareDigest a b = .ok (a == b) := by
  simp [compareDigest, require, ha, hb]

end Arenyxa.Distributed
