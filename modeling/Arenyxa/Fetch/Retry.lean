import Mathlib.Algebra.Order.Ring.Rat

/-! The blocking and the async fetcher over HTTPX: an attempt, the decoding of its body, and the attempts that follow
it. A spec is one that has been validated. -/

namespace Arenyxa.Fetch.Retrying

abbrev Bytes := List UInt8

structure ArenyxaError where
  code : String
  domain : String := "FETCH"
  retryable : Bool := false

def runCancelled : ArenyxaError := { code := "RUN_CANCELLED", domain := "RUN" }

def dlpEgressBlocked : ArenyxaError := { code := "DLP_EGRESS_BLOCKED", domain := "SECURITY" }

def fetchTimeout : ArenyxaError := { code := "FETCH_TIMEOUT", retryable := true }

def fetchNetworkError : ArenyxaError := { code := "FETCH_NETWORK_ERROR", retryable := true }

def fetchRedirectLimit : ArenyxaError := { code := "FETCH_REDIRECT_LIMIT" }

def fetchTooLarge : ArenyxaError := { code := "FETCH_TOO_LARGE" }

def fetchDecompressionFailed : ArenyxaError := { code := "FETCH_DECOMPRESSION_FAILED" }

def fetchContentEncodingUnsupported : ArenyxaError := { code := "FETCH_CONTENT_ENCODING_UNSUPPORTED" }

def fetchHttpRetryExhausted : ArenyxaError := { code := "FETCH_HTTP_RETRY_EXHAUSTED", retryable := true }

abbrev Headers := List (String × String)

structure RetryPolicy where
  attempts : Nat := 2
  initialBackoffSeconds : ℚ := 3 / 4
  maxBackoffSeconds : ℚ := 8
  retryStatuses : List Nat := [408, 425, 429, 500, 502, 503, 504]
  allowNonIdempotent : Bool := false

structure RequestSpec where
  url : String
  method : String := "GET"
  retry : RetryPolicy := {}

structure FetchResponse where
  url : String
  finalUrl : String
  status : Nat
  headers : Headers
  body : Bytes
  encoding : String
  contentType : String
  redirectChain : List String

/-- Functions of the standard library and of the decoders, where those are installed. -/
structure Library where
  upper : String → String
  casefold : String → String
  strip : String → String
  int : String → Option Int
  /-- `parse_retry_after` -/
  parseRetryAfter : Headers → Option ℚ
  /-- The content type and the character set that `email.message` reads. -/
  contentType : String → String × String
  /-- The chunks that gzip gives, and whether it comes to their end. -/
  gunzip : Bytes → List Bytes × Bool
  brotli : Option (Bytes → Option Bytes)
  zstandard : Option (Nat → Bytes → Option Bytes)

inductive StreamEnd
  | complete
  | timedOut
  | broken

/-- What becomes of a request once it is sent. -/
inductive Exchange
  | refused (error : ArenyxaError)
  | timedOut
  | tooManyRedirects
  | broken
  | response (status : Nat) (headers : Headers) (finalUrl : String) (history : List String) (chunks : List Bytes)
    (ends : StreamEnd)

/-- Where an attempt looks at its cancellation token. -/
inductive Checkpoint
  | start
  | preflight
  | chunk (index : Nat)
  | inflating (index : Nat)
  | decoded
  | waiting (index : Nat)

/-- All that an attempt meets. The refusal is the code of the network guard's. -/
structure Trial where
  cancelled : Checkpoint → Bool
  blocked : Bool
  refusal : Option String
  exchange : Exchange
  /-- The factor of the back-off, between 0.85 and 1.15. -/
  jitter : ℚ
  /-- How often a delay is looked at. -/
  polls : ℚ → Nat

def checkpoint (cancelled : Bool) : Except ArenyxaError Unit := if cancelled then .error runCancelled else .ok ()

variable (lib : Library) (maxResponseBytes : Nat)

def headerValue (headers : Headers) (name default : String) : String :=
  ((headers.find? fun header => lib.casefold header.1 = lib.casefold name).map Prod.snd).getD default

/-- `_guard_content_length` -/
def guardContentLength (headers : Headers) : Except ArenyxaError Unit :=
  let raw := lib.strip (headerValue lib headers "Content-Length" "")
  if raw = "" then .ok ()
  else match lib.int raw with
    | none => .ok ()
    | some size => if maxResponseBytes < size then .error fetchTooLarge else .ok ()

/-- The chunks of a body, from the one of that index on and after so many bytes. -/
def readChunks (t : Trial) (ends : StreamEnd) : Nat → Nat → List Bytes → Except ArenyxaError Bytes
  | _, _, [] => match ends with
    | .complete => .ok []
    | .timedOut => .error fetchTimeout
    | .broken => .error fetchNetworkError
  | index, total, chunk :: chunks => do
    checkpoint (t.cancelled (.chunk index))
    if maxResponseBytes < total + chunk.length then .error fetchTooLarge
    let rest ← readChunks t ends (index + 1) (total + chunk.length) chunks
    return chunk ++ rest

/-- `_decompress_gzip_limited`, of the chunks that gzip gives. -/
def inflate (t : Trial) (whole : Bool) : Nat → Nat → List Bytes → Except ArenyxaError Bytes
  | index, _, [] => do
    checkpoint (t.cancelled (.inflating index))
    if whole then return [] else .error fetchDecompressionFailed
  | index, total, chunk :: chunks => do
    checkpoint (t.cancelled (.inflating index))
    if maxResponseBytes < total + chunk.length then .error fetchTooLarge
    let rest ← inflate t whole (index + 1) (total + chunk.length) chunks
    return chunk ++ rest

def decompressGzipLimited (t : Trial) (payload : Bytes) : Except ArenyxaError Bytes :=
  inflate maxResponseBytes t (lib.gunzip payload).2 0 0 (lib.gunzip payload).1

/-- The end of `_decode_content`, for what a decoder gave. -/
def decodedLimited (t : Trial) : Option Bytes → Except ArenyxaError Bytes
  | none => .error fetchDecompressionFailed
  | some decoded => do
    checkpoint (t.cancelled .decoded)
    if maxResponseBytes < decoded.length then .error fetchTooLarge else return decoded

/-- `_decode_content` of the blocking fetcher. -/
def decodeContent (t : Trial) (encoding : String) (payload : Bytes) : Except ArenyxaError Bytes :=
  let normalized := lib.strip (lib.casefold encoding)
  if normalized = "" ∨ normalized = "identity" then .ok payload
  else if normalized = "gzip" then decompressGzipLimited lib maxResponseBytes t payload
  else if normalized = "br" then
    match lib.brotli with
    | none => .error fetchContentEncodingUnsupported
    | some decompress => decodedLimited maxResponseBytes t (decompress payload)
  else if normalized = "zstd" then
    match lib.zstandard with
    | none => .error fetchContentEncodingUnsupported
    | some decompress => decodedLimited maxResponseBytes t (decompress (maxResponseBytes + 1) payload)
  else .error fetchContentEncodingUnsupported

/-- The decoding of the async fetcher. -/
def decodeAsync (t : Trial) (encoding : String) (payload : Bytes) : Except ArenyxaError Bytes :=
  let normalized := lib.strip (lib.casefold encoding)
  if normalized = "gzip" then decompressGzipLimited lib maxResponseBytes t payload
  else if ¬ (normalized = "" ∨ normalized = "identity") then .error fetchContentEncodingUnsupported
  else .ok payload

/-- The exchange of a request, which both fetchers make alike; each decodes the body in its own way. -/
def exchanged (spec : RequestSpec) (t : Trial) (decode : String → Bytes → Except ArenyxaError Bytes) :
    Except ArenyxaError FetchResponse :=
  match t.exchange with
  | .refused error => .error error
  | .timedOut => .error fetchTimeout
  | .tooManyRedirects => .error fetchRedirectLimit
  | .broken => .error fetchNetworkError
  | .response status headers finalUrl history chunks ends => do
    guardContentLength lib maxResponseBytes headers
    let payload ← readChunks maxResponseBytes t ends 0 0 chunks
    let body ← decode (headerValue lib headers "Content-Encoding" "") payload
    let type := lib.contentType (headerValue lib headers "Content-Type" "application/octet-stream")
    return {
      url := spec.url
      finalUrl := finalUrl
      status := status
      headers := headers
      body := body
      encoding := type.2
      contentType := type.1
      redirectChain := if history = [] then [] else history ++ [finalUrl] }

/-- What is checked before a request is sent: the prevention of data loss, and the network guard. -/
def preflight (t : Trial) : Except ArenyxaError Unit :=
  if t.blocked then .error dlpEgressBlocked
  else match t.refusal with
    | some code => .error { code := code, domain := "NETWORK_GOVERNANCE" }
    | none => .ok ()

/-- `_fetch_once` and `_fetch_once_httpx` of the blocking fetcher, which looks at its token after the preflight. -/
def fetchOnce (spec : RequestSpec) (t : Trial) : Except ArenyxaError FetchResponse := do
  preflight t
  checkpoint (t.cancelled .preflight)
  exchanged lib maxResponseBytes spec t (decodeContent lib maxResponseBytes t)

/-- `_fetch_once_httpx_async`, which looks at its token before the preflight. -/
def fetchOnceAsync (spec : RequestSpec) (t : Trial) : Except ArenyxaError FetchResponse := do
  checkpoint (t.cancelled .preflight)
  preflight t
  exchanged lib maxResponseBytes spec t (decodeAsync lib maxResponseBytes t)

/-- `_retry_delay` -/
def retryDelay (retry : RetryPolicy) (attempt : Nat) (jitter : ℚ) (retryAfter : Option ℚ) : ℚ :=
  let base := min retry.maxBackoffSeconds (retry.initialBackoffSeconds * 2 ^ attempt)
  let base := if 0 < base then min retry.maxBackoffSeconds (base * jitter) else base
  max 0 (retryAfter.elim base fun after => max base (min after retry.maxBackoffSeconds))

/-- Whether what came of an attempt is tried again, and then what the server asks to wait. -/
def retried (retry : RetryPolicy) : Except ArenyxaError FetchResponse → Option (Option ℚ)
  | .ok response =>
    if response.status ∈ retry.retryStatuses then some (lib.parseRetryAfter response.headers) else none
  | .error error => if error.retryable then some none else none

/-- What the last attempt comes to. -/
def exhausted (retry : RetryPolicy) : Except ArenyxaError FetchResponse → Except ArenyxaError FetchResponse
  | .ok response => if response.status ∈ retry.retryStatuses then .error fetchHttpRetryExhausted else .ok response
  | .error error => .error error

/-- The checkpoints of a wait. -/
def wait (t : Trial) : Nat → Nat → Except ArenyxaError Unit
  | _, 0 => .ok ()
  | index, polls + 1 => do
    checkpoint (t.cancelled (.waiting index))
    wait t (index + 1) polls

/-- What came of each attempt, the delays between them and the result. -/
structure Fetched where
  tries : List (Except ArenyxaError FetchResponse)
  delays : List ℚ
  result : Except ArenyxaError FetchResponse

/-- The loop that both fetchers run, with so many attempts behind the first. -/
def fetchFrom (once : Trial → Except ArenyxaError FetchResponse) (retry : RetryPolicy) (trials : Nat → Trial) :
    Nat → Nat → Fetched
  | 0, attempt =>
    match checkpoint ((trials attempt).cancelled .start) with
    | .error error => ⟨[], [], .error error⟩
    | .ok () => ⟨[once (trials attempt)], [], exhausted retry (once (trials attempt))⟩
  | left + 1, attempt =>
    match checkpoint ((trials attempt).cancelled .start) with
    | .error error => ⟨[], [], .error error⟩
    | .ok () =>
      match retried lib retry (once (trials attempt)) with
      | none => ⟨[once (trials attempt)], [], once (trials attempt)⟩
      | some retryAfter =>
        let delay := retryDelay retry attempt (trials attempt).jitter retryAfter
        match wait (trials attempt) 0 ((trials attempt).polls delay) with
        | .error error => ⟨[once (trials attempt)], [delay], .error error⟩
        | .ok () =>
          let rest := fetchFrom once retry trials left (attempt + 1)
          ⟨once (trials attempt) :: rest.tries, delay :: rest.delays, rest.result⟩

def idempotentMethods : List String := ["GET", "HEAD", "OPTIONS", "PUT", "DELETE"]

/-- The method is one of those that may be repeated. -/
def RequestSpec.Idempotent (spec : RequestSpec) : Prop := lib.upper spec.method ∈ idempotentMethods

instance (spec : RequestSpec) : Decidable (spec.Idempotent lib) := inferInstanceAs (Decidable (_ ∈ _))

def RequestSpec.retryAttempts (spec : RequestSpec) : Nat :=
  if spec.Idempotent lib ∨ spec.retry.allowNonIdempotent then spec.retry.attempts else 0

/-- `HttpFetcher.fetch` -/
def fetch (spec : RequestSpec) (trials : Nat → Trial) : Fetched :=
  fetchFrom lib (fetchOnce lib maxResponseBytes spec) spec.retry trials (spec.retryAttempts lib) 0

/-- `AsyncHttpFetcher.fetch_async` -/
def fetchAsync (spec : RequestSpec) (trials : Nat → Trial) : Fetched :=
  fetchFrom lib (fetchOnceAsync lib maxResponseBytes spec) spec.retry trials (spec.retryAttempts lib) 0

end Arenyxa.Fetch.Retrying

/-! The blocking and the async fetcher agree, and their attempts are bounded. -/

namespace Arenyxa.Fetch.Retrying

variable {lib : Library} {maxResponseBytes : Nat} {spec : RequestSpec} {t : Trial} {trials : Nat → Trial}
  {retry : RetryPolicy} {once once' : Trial → Except ArenyxaError FetchResponse}

/-- The encoding is none that only the blocking fetcher decodes, where a decoder for it is installed. -/
def Library.Common (lib : Library) (encoding : String) : Prop :=
  (lib.strip (lib.casefold encoding) = "br" → lib.brotli = none) ∧
    (lib.strip (lib.casefold encoding) = "zstd" → lib.zstandard = none)

def Exchange.Common (lib : Library) : Exchange → Prop
  | .response _ headers .. => lib.Common (headerValue lib headers "Content-Encoding" "")
  | _ => True

/-- An attempt that is refused before it is sent is not cancelled there. -/
def Trial.Uncrossed (t : Trial) : Prop := preflight t = .ok () ∨ t.cancelled .preflight = false

/-- What is said of the attempts, whatever they come to. -/
structure Bounded (lib : Library) (spec : RequestSpec) (trials : Nat → Trial) (f : Fetched) : Prop where
  attempts : f.tries.length ≤ spec.retry.attempts + 1
  single : ¬ spec.Idempotent lib → spec.retry.allowNonIdempotent = false →
    f.tries.length = if (trials 0).cancelled .start then 0 else 1
  repeated : ∀ result ∈ f.tries.dropLast, (retried lib spec.retry result).isSome

section Attempts

theorem decode_agree {encoding : String} (common : lib.Common encoding) (payload : Bytes) :
    decodeContent lib maxResponseBytes t encoding payload = decodeAsync lib maxResponseBytes t encoding payload := by
  obtain ⟨br, zstd⟩ := common
  rw [decodeContent, decodeAsync]
  generalize lib.strip (lib.casefold encoding) = normalized at *
  by_cases plain : normalized = "" ∨ normalized = "identity"
  · have other : normalized ≠ "gzip" := by
      rintro rfl
      exact absurd plain (by decide)
    rw [if_pos plain, if_neg other, if_neg (not_not.mpr plain)]
  · rw [if_neg plain]
    by_cases gzip : normalized = "gzip"
    · rw [if_pos gzip, if_pos gzip]
    · rw [if_neg gzip, if_neg gzip, if_pos plain]
      split
      next its => rw [br its]
      next =>
        split
        next its => rw [zstd its]
        next => rfl

theorem exchanged_congr {decode decode' : String → Bytes → Except ArenyxaError Bytes}
    (same : ∀ status headers finalUrl history chunks ends,
      t.exchange = .response status headers finalUrl history chunks ends → ∀ payload,
        decode (headerValue lib headers "Content-Encoding" "") payload =
          decode' (headerValue lib headers "Content-Encoding" "") payload) :
    exchanged lib maxResponseBytes spec t decode = exchanged lib maxResponseBytes spec t decode' := by
  rw [exchanged, exchanged]
  split
  next => rfl
  next => rfl
  next => rfl
  next => rfl
  next status headers finalUrl history chunks ends its =>
    simp only [same status headers finalUrl history chunks ends its]

theorem fetchOnce_agree (common : t.exchange.Common lib) (uncrossed : t.Uncrossed) :
    fetchOnce lib maxResponseBytes spec t = fetchOnceAsync lib maxResponseBytes spec t := by
  have same : exchanged lib maxResponseBytes spec t (decodeContent lib maxResponseBytes t) =
      exchanged lib maxResponseBytes spec t (decodeAsync lib maxResponseBytes t) := by
    refine exchanged_congr fun status headers finalUrl history chunks ends its payload => ?_
    rw [its] at common
    exact decode_agree common payload
  rw [fetchOnce, fetchOnceAsync, same]
  rcases uncrossed with passed | goes_on
  · rw [passed]
    rfl
  · rw [goes_on]
    rfl

end Attempts

section Loops

theorem fetchFrom_congr {left attempt : Nat}
    (same : ∀ n, n ≤ attempt + left → once (trials n) = once' (trials n)) :
    fetchFrom lib once retry trials left attempt = fetchFrom lib once' retry trials left attempt := by
  induction left generalizing attempt with
  | zero =>
    rw [fetchFrom, fetchFrom, same attempt le_rfl]
  | succ left ih =>
    rw [fetchFrom, fetchFrom, same attempt (Nat.le_add_right _ _),
      ih fun n within => same n (by omega)]

theorem fetchFrom_cases (lib : Library) (once : Trial → Except ArenyxaError FetchResponse) (retry : RetryPolicy)
    (trials : Nat → Trial) (left attempt : Nat) :
    ((trials attempt).cancelled .start = true ∧ (fetchFrom lib once retry trials left attempt).tries = []) ∨
    ((trials attempt).cancelled .start = false ∧
      (fetchFrom lib once retry trials left attempt).tries = [once (trials attempt)]) ∨
    ∃ left', left = left' + 1 ∧ (retried lib retry (once (trials attempt))).isSome ∧
      (fetchFrom lib once retry trials left attempt).tries =
        once (trials attempt) :: (fetchFrom lib once retry trials left' (attempt + 1)).tries := by
  cases cancelled : (trials attempt).cancelled .start with
  | true =>
    refine .inl ⟨rfl, ?_⟩
    cases left <;> rw [fetchFrom, cancelled] <;> rfl
  | false =>
    refine .inr ?_
    cases left with
    | zero =>
      refine .inl ⟨rfl, ?_⟩
      rw [fetchFrom, cancelled]
      rfl
    | succ left =>
      rw [fetchFrom, cancelled]
      cases retried lib retry (once (trials attempt)) with
      | none => exact .inl ⟨rfl, rfl⟩
      | some retryAfter =>
        dsimp only [checkpoint]
        rw [if_neg Bool.false_ne_true]
        dsimp only
        cases wait (trials attempt) 0 _ with
        | error error => exact .inl ⟨rfl, rfl⟩
        | ok => exact .inr ⟨left, rfl, rfl, rfl⟩

theorem length_tries_le (left attempt : Nat) :
    (fetchFrom lib once retry trials left attempt).tries.length ≤ left + 1 := by
  induction left generalizing attempt with
  | zero =>
    rcases fetchFrom_cases lib once retry trials 0 attempt with ⟨-, none⟩ | ⟨-, one⟩ | ⟨left', more, -⟩
    · rw [none]
      exact Nat.zero_le _
    · rw [one]
      exact le_rfl
    · exact absurd more.symm (Nat.succ_ne_zero left')
  | succ left ih =>
    rcases fetchFrom_cases lib once retry trials (left + 1) attempt with
      ⟨-, none⟩ | ⟨-, one⟩ | ⟨left', more, -, rest⟩
    · rw [none]
      exact Nat.zero_le _
    · rw [one]
      exact Nat.le_add_left 1 _
    · obtain rfl := Nat.succ_inj.mp more
      rw [rest]
      exact Nat.succ_le_succ (ih (attempt + 1))

theorem repeated_tries (left attempt : Nat) :
    ∀ result ∈ (fetchFrom lib once retry trials left attempt).tries.dropLast,
      (retried lib retry result).isSome := by
  induction left generalizing attempt with
  | zero =>
    have short := @length_tries_le lib trials retry once 0 attempt
    have none : (fetchFrom lib once retry trials 0 attempt).tries.dropLast = [] :=
      List.eq_nil_of_length_eq_zero (by rw [List.length_dropLast]; omega)
    rw [none]
    exact fun _ mem => absurd mem List.not_mem_nil
  | succ left ih =>
    rcases fetchFrom_cases lib once retry trials (left + 1) attempt with
      ⟨-, none⟩ | ⟨-, one⟩ | ⟨left', more, again, rest⟩
    · rw [none]
      exact fun _ mem => absurd mem List.not_mem_nil
    · rw [one]
      exact fun _ mem => absurd mem List.not_mem_nil
    · obtain rfl := Nat.succ_inj.mp more
      rw [rest]
      cases later : (fetchFrom lib once retry trials left (attempt + 1)).tries with
      | nil => exact fun _ mem => absurd mem List.not_mem_nil
      | cons next tries =>
        rw [List.dropLast_cons_cons, List.forall_mem_cons, ← later]
        exact ⟨again, ih (attempt + 1)⟩

theorem retryAttempts_le : spec.retryAttempts lib ≤ spec.retry.attempts := by
  rw [RequestSpec.retryAttempts]
  split
  · exact le_rfl
  · exact Nat.zero_le _

theorem bounded_fetchFrom (once : Trial → Except ArenyxaError FetchResponse) :
    Bounded lib spec trials (fetchFrom lib once spec.retry trials (spec.retryAttempts lib) 0) where
  attempts := (length_tries_le _ 0).trans (Nat.succ_le_succ retryAttempts_le)
  single method disallowed := by
    have none : spec.retryAttempts lib = 0 := by
      rw [RequestSpec.retryAttempts, if_neg (not_or.mpr ⟨method, by rw [disallowed]; exact Bool.false_ne_true⟩)]
    rw [none]
    rcases fetchFrom_cases lib once spec.retry trials 0 0 with
      ⟨cancelled, none⟩ | ⟨cancelled, one⟩ | ⟨left, more, -⟩
    · rw [none, if_pos cancelled]
      rfl
    · rw [one, if_neg (by rw [cancelled]; exact Bool.false_ne_true)]
      rfl
    · exact absurd more.symm (Nat.succ_ne_zero left)
  repeated := repeated_tries _ 0

end Loops

/-- A library whose decoder for Brotli reads any text as itself. -/
def sampleLibrary : Library where
  upper text := text
  casefold text := text
  strip text := text
  int _ := none
  parseRetryAfter _ := none
  contentType type := (type, "utf-8")
  gunzip payload := ([payload], true)
  brotli := some some
  zstandard := none

def sampleTrial (encoding : String) : Trial where
  cancelled _ := false
  blocked := false
  refusal := none
  exchange := .response 200 [("Content-Encoding", encoding)] "https://h/" [] [[0x61]] .complete
  jitter := 1
  polls _ := 0

end Arenyxa.Fetch.Retrying
