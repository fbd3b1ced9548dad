import Arenyxa.Registry.Json
import Mathlib.Data.List.Infix

/-! The drafts of replays: what is made of the URL, the headers and the body of a captured request. -/

namespace Arenyxa.Replay

open Registry (Text text)

abbrev Bytes := List UInt8

/-- A dictionary, in the order of its keys. -/
abbrev Dict := List (Text × Text)

/-- What `urlsplit` gives. -/
structure Parts where
  scheme : Text
  netloc : Text
  path : Text
  query : Text
  fragment : Text

def questionMark : Nat := 0x3f

def hash : Nat := 0x23

def ampersand : Nat := 0x26

def equals : Nat := 0x3d

def underscore : Nat := 0x5f

/-- `urlsplit` removes tabs and line breaks. -/
def clean (t : Text) : Text := t.filter fun c => c ≠ 0x09 ∧ c ≠ 0x0a ∧ c ≠ 0x0d

/-- What `[a-z0-9_.-]` matches. -/
def allowed (c : Nat) : Bool :=
  (0x61 ≤ c && c ≤ 0x7a) || (0x30 ≤ c && c ≤ 0x39) || c == underscore || c == 0x2e || c == 0x2d

/-- `re.sub(r"[^a-z0-9_.-]+", "_", t)`, behind a character that was replaced or not. -/
def squash : Bool → Text → Text
  | _, [] => []
  | replaced, c :: cs =>
    if allowed c then c :: squash false cs
    else if replaced then squash true cs else underscore :: squash true cs

def secretPrefix : Text := text "$\x7bsecret."

def secretSuffix : Text := text "\x7d"

/-- Functions of the standard library, the redactor, and the patterns of the module. -/
structure Library where
  casefold : Text → Text
  upper : Text → Text
  strip : Text → Text
  /-- The value of a component, with its percent signs and plus signs. -/
  unquote : Text → Text
  /-- `_SENSITIVE_PARAMETER.search` -/
  sensitiveParameter : Text → Bool
  /-- `_SECRET_PATTERN.fullmatch` -/
  isSecret : Text → Bool
  urlsplit : Text → Option Parts
  urlunsplit : Parts → Text
  urlencode : Dict → Text
  /-- `payload.decode(encoding, errors="strict")` -/
  decode : Text → Bytes → Option Text
  redact : Dict → Dict
  sha256 : Bytes → Text
  encode : Text → Bytes
  /-- The parts of a URL around its query, where it can be split. -/
  around : Text → Text → Option Parts
  /-- The query stands between the first question mark and the fragment; what stands around it makes the rest. -/
  urlsplit_query : ∀ before query after, questionMark ∉ before → hash ∉ before → hash ∉ query →
    (after = [] ∨ after.head? = some hash) →
    urlsplit (before ++ questionMark :: (query ++ after)) =
      (around before after).map fun parts => { parts with query := clean query }
  isSecret_reference : ∀ key, key ≠ [] → (∀ c ∈ key, allowed c = true) →
    isSecret (secretPrefix ++ key ++ secretSuffix) = true

section Sanitizing

variable (lib : Library)

/-- `d[key] = value` -/
def put (d : Dict) (key value : Text) : Dict :=
  if key ∈ d.map Prod.fst then d.map fun item => if item.1 = key then (key, value) else item else d ++ [(key, value)]

def parsePiece (piece : Text) : Text × Text :=
  (lib.unquote (piece.takeWhile (· ≠ equals)), lib.unquote ((piece.dropWhile (· ≠ equals)).drop 1))

/-- `parse_qsl(query, keep_blank_values=True)` -/
def parseQsl (query : Text) : Dict := ((query.splitOn ampersand).filter (· ≠ [])).map (parsePiece lib)

def queryKey (name : Text) : Text :=
  let lowered := squash false (lib.casefold name)
  if lowered = [] then text "query" else lowered

def queryRef (name : Text) : Text := secretPrefix ++ (text "query." ++ queryKey lib name) ++ secretSuffix

structure Sanitized where
  safePairs : Dict := []
  secretQuery : Dict := []
  refs : Dict := []
  repeated : Bool := false

def sanitizePair (s : Sanitized) (pair : Text × Text) : Sanitized :=
  if lib.sensitiveParameter pair.1 then
    if pair.1 ∈ s.secretQuery.map Prod.fst then { s with repeated := true }
    else { s with
      secretQuery := s.secretQuery ++ [(pair.1, queryRef lib pair.1)]
      refs := put s.refs (queryRef lib pair.1) (text "query:" ++ pair.1) }
  else { s with safePairs := s.safePairs ++ [pair] }

inductive Warning
  | queryRemoved
  | queryRepeated
  | secrets
  | noResolver
  | bodyMissing
  | bodyTruncated
  | bodyBinary
  | bodyReferenced

structure SafeUrl where
  url : Text
  query : Dict
  refs : Dict
  warnings : List Warning

/-- `_sanitize_url_query` -/
def sanitizeUrlQuery (url : Text) : SafeUrl :=
  match lib.urlsplit url with
  | none => ⟨url, [], [], []⟩
  | some parts =>
    let s := (parseQsl lib parts.query).foldl (sanitizePair lib) {}
    let url := lib.urlunsplit { parts with query := lib.urlencode s.safePairs }
    ⟨url, s.secretQuery, s.refs,
      (if s.refs = [] then [] else [.queryRemoved]) ++ (if s.repeated then [.queryRepeated] else [])⟩

def hopByHopHeaders : List Text :=
  [text "connection", text "keep-alive", text "proxy-authenticate", text "proxy-authorization", text "te",
   text "trailer", text "transfer-encoding", text "upgrade", text "content-length", text "host"]

def sensitiveHeaders : List Text :=
  [text "authorization", text "proxy-authorization", text "cookie", text "set-cookie", text "x-api-key",
   text "x-auth-token"]

def lowered (name : Text) : Text := lib.strip (lib.casefold name)

def HopByHop (name : Text) : Prop := lowered lib name ∈ hopByHopHeaders

instance (name : Text) : Decidable (HopByHop lib name) := inferInstanceAs (Decidable (_ ∈ _))

/-- A header whose value becomes a reference. -/
def SensitiveHeader (name : Text) : Prop :=
  lowered lib name ∈ sensitiveHeaders ∨
    ∃ token ∈ [text "token", text "api-key", text "apikey", text "auth"], token <:+: lowered lib name

instance (name : Text) : Decidable (SensitiveHeader lib name) := inferInstanceAs (Decidable (_ ∨ _))

def headerKey (name : Text) : Text := squash false (lowered lib name)

def headerRef (name : Text) : Text := secretPrefix ++ (text "header." ++ headerKey lib name) ++ secretSuffix

def sanitizeHeader (header : Text × Text) : Option (Text × Text) :=
  if HopByHop lib header.1 then none
  else if SensitiveHeader lib header.1 then some (header.1, headerRef lib header.1) else some header

def referHeader (refs : Dict) (header : Text × Text) : Dict :=
  if HopByHop lib header.1 then refs
  else if SensitiveHeader lib header.1 then put refs (headerRef lib header.1) (text "header:" ++ header.1) else refs

/-- `_sanitize_headers` -/
def sanitizeHeaders (headers : Dict) : Dict × Dict :=
  (headers.filterMap (sanitizeHeader lib), headers.foldl (referHeader lib) [])

end Sanitizing

structure RequestSpec where
  url : Text
  method : Text
  query : Dict
  headers : Dict
  cookies : Dict
  body : Option Text
  contentType : Option Text

structure ResolvedBody where
  payload : Bytes
  contentType : Text
  encoding : Text
  truncated : Bool

/-- The fields of an exchange that a draft's request is made of. -/
structure Exchange where
  url : Text
  method : Text
  headers : Dict
  bodyRef : Text
  eventId : Text
  requestId : Text
  sessionId : Text

/-- The fields of an event. -/
structure Event where
  id : Text
  url : Text
  method : Text
  headers : Dict
  bodyRef : Text
  requestRef : Text
  sessionId : Text

/-- What a fingerprint is made of. -/
structure Fingerprint where
  method : Text
  url : Text
  query : Dict
  headers : Dict
  cookies : Dict
  bodySha256 : Text
  contentType : Option Text

structure ReplayDraft where
  sourceEventId : Text
  sourceRequestId : Text
  sessionId : Text
  request : RequestSpec
  secretRefs : Dict
  warnings : List Warning
  requestBodyRef : Text
  requestBodyTruncated : Bool
  fingerprint : Fingerprint

section Service

variable (lib : Library)

/-- `d.update(d')` -/
def update (d d' : Dict) : Dict := d'.foldl (fun d item => put d item.1 item.2) d

/-- `_header` -/
def header (headers : Dict) (name : Text) : Text :=
  match headers.find? fun item => lib.casefold item.1 = lib.casefold name with
  | some item => item.2
  | none => []

def quote (c : Nat) : Bool := c == 0x22 || c == 0x27

/-- `_charset` -/
def charset (contentType : Text) : Text :=
  let charsets := ((contentType.splitOn 0x3b).drop 1).filter fun part =>
    equals ∈ part ∧ lib.casefold (lib.strip (part.takeWhile (· ≠ equals))) = text "charset"
  match charsets with
  | [] => []
  | part :: _ =>
    let value := lib.strip ((part.dropWhile (· ≠ equals)).drop 1)
    ((value.dropWhile quote).reverse.dropWhile quote).reverse

def mask (lib : Library) (value : Text) : Text := if lib.isSecret value then text "<secret>" else value

/-- The content of `request_fingerprint`, before it is hashed. -/
def fingerprint (r : RequestSpec) : Fingerprint where
  method := lib.upper r.method
  url := r.url
  query := r.query
  headers := update [] ((r.headers.filter fun item => lib.casefold item.1 ∉ hopByHopHeaders).map fun item =>
    (lib.casefold item.1, mask lib item.2))
  cookies := r.cookies.map fun item => (item.1, mask lib item.2)
  bodySha256 := lib.sha256 (lib.encode (r.body.getD []))
  contentType := r.contentType

structure Body where
  text : Option Text := none
  truncated : Bool := false
  warnings : List Warning := []
  contentType : Text := []

/-- What `draft_from_exchange` makes of a body; a body whose integrity cannot be verified raises before that. -/
def bodyOf (resolver : Option (Text → Option ResolvedBody)) (bodyRef : Text) : Body :=
  if bodyRef = [] then {}
  else
    match resolver with
    | none => { warnings := [.noResolver] }
    | some resolve =>
      match resolve bodyRef with
      | none => { warnings := [.bodyMissing] }
      | some resolved =>
        if resolved.truncated then { truncated := true, warnings := [.bodyTruncated] }
        else
          let encoding := if resolved.encoding ≠ [] then resolved.encoding
            else if charset lib resolved.contentType ≠ [] then charset lib resolved.contentType else text "utf-8"
          match lib.decode encoding resolved.payload with
          | some t => { text := some t, contentType := resolved.contentType }
          | none =>
            match lib.decode (text "utf-8") resolved.payload with
            | some t => { text := some t, contentType := resolved.contentType }
            | none => { warnings := [.bodyBinary], contentType := resolved.contentType }

def nonempty (t : Text) : Option Text := if t = [] then none else some t

def draftFromExchange (resolver : Option (Text → Option ResolvedBody)) (x : Exchange) : Except String ReplayDraft :=
  if x.url = [] then .error "REPLAY_NO_URL"
  else
    let headers := sanitizeHeaders lib x.headers
    let safe := sanitizeUrlQuery lib x.url
    let refs := update headers.2 safe.refs
    let body := bodyOf lib resolver x.bodyRef
    let request : RequestSpec := {
      url := safe.url
      method := lib.upper (if x.method = [] then text "GET" else x.method)
      query := safe.query
      headers := headers.1
      cookies := []
      body := body.text
      contentType := (nonempty (header lib headers.1 (text "content-type"))).or (nonempty body.contentType) }
    .ok {
      sourceEventId := if x.eventId ≠ [] then x.eventId else if x.requestId ≠ [] then x.requestId else text "captured"
      sourceRequestId := x.requestId
      sessionId := x.sessionId
      request := request
      secretRefs := refs
      warnings := safe.warnings ++ (if refs = [] then [] else [.secrets]) ++ body.warnings
      requestBodyRef := x.bodyRef
      requestBodyTruncated := body.truncated
      fingerprint := fingerprint lib request }

def draftFromEvent (e : Event) : Except String ReplayDraft :=
  if e.url = [] then .error "REPLAY_NO_URL"
  else
    let headers := sanitizeHeaders lib e.headers
    let safe := sanitizeUrlQuery lib e.url
    let refs := update headers.2 safe.refs
    let request : RequestSpec := {
      url := safe.url
      method := if e.method = [] then text "GET" else e.method
      query := safe.query
      headers := headers.1
      cookies := []
      body := none
      contentType := none }
    .ok {
      sourceEventId := e.id
      sourceRequestId := e.requestRef
      sessionId := e.sessionId
      request := request
      secretRefs := refs
      warnings := safe.warnings ++ (if refs = [] then [] else [.secrets]) ++
        (if e.bodyRef = [] then [] else [.bodyReferenced])
      requestBodyRef := e.bodyRef
      requestBodyTruncated := false
      fingerprint := fingerprint lib request }

def bodyTokens : List Text := [text "token", text "password", text "secret", text "api_key", text "apikey"]

def redacted : Text := List.replicate 8 0x2022

/-- `redacted_request_snapshot`, with the fingerprint beside the request. -/
def redactedSnapshot (draft : ReplayDraft) : RequestSpec × Fingerprint :=
  ({ draft.request with
    query := lib.redact draft.request.query
    headers := lib.redact draft.request.headers
    cookies := lib.redact draft.request.cookies
    body := draft.request.body.map fun body =>
      if ∃ token ∈ bodyTokens, token <:+: lib.casefold body then redacted else body }, draft.fingerprint)

/-- The resolution of a value in `bind_secrets`. -/
def resolve (secrets : Text → Option Text) (value : Text) : Except String Text :=
  if lib.isSecret value then
    match secrets value with
    | none => .error "REPLAY_SECRET_REQUIRED"
    | some secret => .ok secret
  else .ok value

def resolveAll (secrets : Text → Option Text) : Dict → Except String Dict
  | [] => .ok []
  | item :: d => do
    let value ← resolve lib secrets item.2
    let d ← resolveAll secrets d
    return (item.1, value) :: d

def resolveBody (secrets : Text → Option Text) : Option Text → Except String (Option Text)
  | none => .ok none
  | some body => (resolve lib secrets body).map some

def bindSecrets (secrets : Text → Option Text) (draft : ReplayDraft) : Except String ReplayDraft := do
  let query ← resolveAll lib secrets draft.request.query
  let headers ← resolveAll lib secrets draft.request.headers
  let cookies ← resolveAll lib secrets draft.request.cookies
  let body ← resolveBody lib secrets draft.request.body
  let request := { draft.request with query := query, headers := headers, cookies := cookies, body := body }
  return { draft with request := request, fingerprint := fingerprint lib request }

end Service

end Arenyxa.Replay
