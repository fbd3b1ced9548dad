import Arenyxa.Capture.Message
import Arenyxa.Lib.Segments

/-! The HTTP/1 reader over a socket: heads, bodies of known length, chunked bodies and whole
upstream responses. -/

namespace Arenyxa.Capture

open Outcome Search Segments HttpError

/-- What a peer will send, as the chunks that successive `recv` calls draw from. -/
abbrev Socket := Feed UInt8

def recvSize : Nat := 65536

def headersTooLong : HttpError := valueError "HTTP headers exceeded configured limit"

def bodyTooLong : HttpError := valueError "HTTP message body exceeded configured limit"

def chunkedTooLong : HttpError := valueError "Chunked HTTP body exceeded configured limit"

def responseTooLong : HttpError := valueError "Upstream HTTP response exceeded configured limit"

def closedDuring (label : String) : HttpError :=
  connectionError s!"Connection closed during {label}"

/-- The head with its terminator, what of the body was received with it, and the socket. -/
def readHead (sock : Socket) (limit : Int) (initial : Bytes) :
    Except HttpError (Bytes × Bytes × Socket) := do
  require (4 ≤ limit) (valueError "HTTP header limit is too small")
  let (buffer, sock) ← receiveUpTo limit headersTooLong (fun b => (find? headEnd b).isSome)
    recvSize initial sock
  match find? headEnd buffer with
  | none => return (buffer, [], sock)
  | some index => do
    require (index + headEnd.length ≤ limit) headersTooLong
    return (buffer.take (index + headEnd.length), buffer.drop (index + headEnd.length), sock)

/-- `while len(buffer) < required` -/
def receiveTo (limit : Int) (eof excess : HttpError) (required : Nat) (buffer : Bytes)
    (sock : Socket) : Except HttpError (Unit × Bytes × Socket) :=
  receiveFor limit eof excess (fun b => if b.length < required then none else some ())
    (fun b => min recvSize (required - b.length)) buffer sock

def readExact (sock : Socket) (size : Nat) (initial : Bytes) (limit : Int) :
    Except HttpError Bytes := do
  require (size ≤ limit) bodyTooLong
  let (_, buffer, _) ← receiveTo limit
    (connectionError "Connection closed before HTTP body completed") bodyTooLong size
    (initial.take size) sock
  return buffer

/-- `receive_until(b"\r\n", position)` -/
def receiveUntil (label : String) (limit : Int) (position : Nat) (buffer : Bytes)
    (sock : Socket) : Except HttpError (Nat × Bytes × Socket) :=
  receiveFor limit (closedDuring label) chunkedTooLong (findFrom crlf position)
    (fun _ => recvSize) buffer sock

/-- `buffer[start:stop]` -/
def slice (buffer : Bytes) (start stop : Nat) : Bytes := (buffer.drop start).take (stop - start)

def hexDigits : Bytes := ascii "0123456789abcdefABCDEF"

/-- `int(text, 16)` on digits. -/
def ofHex (text : Bytes) : Nat :=
  text.foldl (fun n b => 16 * n +
    (if b ≤ 57 then b.toNat - 48 else if b ≤ 70 then b.toNat - 55 else b.toNat - 87)) 0

/-- `bytes.strip` removes less than `str.strip`. -/
def isAsciiSpace (b : UInt8) : Bool := (9 ≤ b && b ≤ 13) || b == 32

def chunkSize (rawLine : Bytes) : Except HttpError Nat := do
  require (rawLine.length ≤ 8192) (valueError "HTTP chunk-size line exceeded the safety limit")
  require (!rawLine.any isControl)
    (valueError "HTTP chunk-size line contains a control character")
  let line := stripBy isAsciiSpace (rawLine.takeWhile (· ≠ 59))
  require (line ≠ [] ∧ line.length ≤ 16 ∧ line.all hexDigits.contains)
    (valueError "Invalid HTTP chunk size")
  return ofHex line

def forbiddenTrailerFields : List Bytes :=
  ["authorization", "connection", "content-length", "host", "proxy-authenticate",
    "proxy-authorization", "te", "trailer", "transfer-encoding", "upgrade"].map ascii

/-- A text as it appears in a message. -/
def latin1 (text : Bytes) : String := String.ofList (text.map fun b => Char.ofNat b.toNat)

def trailerHead (trailer : Bytes) : Bytes :=
  ascii "TRAILER / HTTP/1.1\r\n" ++ trailer ++ headEnd

def checkTrailer (trailer : Bytes) : Except HttpError Unit := do
  let (_, parsed) ← parseHead (trailerHead trailer)
  match parsed with
  | [] => return
  | field :: _ =>
    require (casefold field.name ∉ forbiddenTrailerFields)
      (valueError ("Forbidden HTTP trailer field: " ++ latin1 (casefold field.name)))

def maxTrailers : Nat := 128

/-- The trailer loop, with the number of trailers that may still come. -/
def readTrailers (limit : Int) :
    (left : Nat) → (position : Nat) → Bytes → Socket → Except HttpError Bytes
  | left, position, buffer, sock => do
    let (trailerEnd, buffer, sock) ← receiveUntil "HTTP chunked trailer" limit position buffer sock
    let trailer := slice buffer position trailerEnd
    if trailer = [] then return buffer.take (trailerEnd + 2)
    match left with
    | 0 => .error (valueError "HTTP trailer count exceeded the safety limit")
    | left + 1 => do
      checkTrailer trailer
      readTrailers limit left (trailerEnd + 2) buffer sock

/-- The chunk loop from a position of the buffer. -/
def readChunks (limit : Int) (position decoded : Nat) (buffer : Bytes) (sock : Socket) :
    Except HttpError Bytes := do
  let (lineEnd, buffer, sock) ← receiveUntil "chunked body" limit position buffer sock
  let size ← chunkSize (slice buffer position lineEnd)
  if _ : limit < size ∨ limit < decoded + size then .error chunkedTooLong
  else if _ : size = 0 then readTrailers limit maxTrailers (lineEnd + 2) buffer sock
  else do
    let dataEnd := lineEnd + 2 + size
    let (_, buffer, sock) ← receiveTo limit (closedDuring "HTTP chunk") chunkedTooLong
      (dataEnd + 2) buffer sock
    require (slice buffer dataEnd (dataEnd + 2) = crlf)
      (valueError "Malformed HTTP chunk terminator")
    readChunks limit (dataEnd + 2) (decoded + size) buffer sock
termination_by (limit - decoded).toNat

def readChunked (sock : Socket) (initial : Bytes) (limit : Int) : Except HttpError Bytes := do
  require (0 ≤ limit) (valueError "HTTP message body limit is invalid")
  require (initial.length ≤ limit) chunkedTooLong
  readChunks limit 0 0 initial sock

/-- The superscripts that `str.isdigit` accepts in Latin-1 and `int` refuses. -/
def isSuperscript (b : UInt8) : Bool := b == 0xB2 || b == 0xB3 || b == 0xB9

def statusOf (statusLine : Bytes) : Except HttpError Nat := do
  let version := statusLine.takeWhile (· ≠ 32)
  let code := ((statusLine.dropWhile (· ≠ 32)).drop 1).takeWhile (· ≠ 32)
  require (statusLine.contains 32 ∧ (version = ascii "HTTP/1.0" ∨ version = ascii "HTTP/1.1") ∧
      code.length = 3 ∧ code.all fun b => isDecimal [b] || isSuperscript b)
    (valueError "Invalid upstream HTTP status line")
  require (isDecimal code) (valueError "invalid literal for int() with base 10")
  return ofDecimal code

def maxInformational : Nat := 8

def responseHead (head : Bytes) : Except HttpError (Nat × List Header) := do
  require (head ≠ []) (connectionError "Upstream server returned no HTTP response")
  let (statusLine, headers) ← parseHead head
  let status ← statusOf statusLine
  return (status, headers)

def isInformational (status : Nat) : Bool := 100 ≤ status && status < 200 && status ≠ 101

def checkInformational (headers : List Header) : Except HttpError Unit := do
  let codings ← transferCodings headers
  require (codings = []) (valueError "Informational response must not use Transfer-Encoding")

/-- The loop over informational responses. `next` takes one head off a state of type `σ`. -/
def finalHead {σ : Type} (next : σ → Except HttpError (Bytes × σ)) :
    (left : Nat) → σ → Except HttpError (Nat × Bytes × List Header × σ)
  | left, state => do
    let (head, state) ← next state
    let (status, headers) ← responseHead head
    if isInformational status then
      match left with
      | 0 => .error (valueError "Upstream returned too many informational responses")
      | left + 1 => do
        checkInformational headers
        finalHead next left state
    else return (status, head, headers, state)

/-- `_read_head` on the bytes received so far and the socket. -/
def nextHead (limit : Int) (state : Bytes × Socket) : Except HttpError (Bytes × Bytes × Socket) :=
  readHead state.2 limit state.1

def hasNoBody (method : Bytes) (status : Nat) : Bool :=
  method = ascii "HEAD" || (100 ≤ status && status < 200) || status = 204 || status = 304

def readToEnd (sock : Socket) (initial : Bytes) (limit : Int) : Except HttpError Bytes := do
  let (buffer, _) ← receiveUpTo limit responseTooLong (fun _ => false) recvSize initial sock
  return buffer

def readResponse (sock : Socket) (method : Bytes) (headerLimit messageLimit : Int) :
    Except HttpError Bytes := do
  let (status, head, headers, rest, sock) ←
    finalHead (nextHead headerLimit) maxInformational ([], sock)
  if hasNoBody method status then return head
  else do
    let (isChunked, length) ← messageFraming headers
    let body ←
      if isChunked then readChunked sock rest messageLimit
      else
        match length with
        | some size => readExact sock size rest messageLimit
        | none => readToEnd sock rest messageLimit
    return head ++ body

end Arenyxa.Capture

/-! The request that the proxy sends upstream in place of the one it received. -/

namespace Arenyxa.Capture

open Outcome Segments HttpError

/-- `text.rstrip(".")` -/
def stripDots (text : Bytes) : Bytes := (text.reverse.dropWhile (· = 46)).reverse

def validatedHostPort (host : Bytes) (port : Int) : Except HttpError (Bytes × Int) := do
  let normalized := stripDots (strip host)
  require (normalized ≠ [] ∧ !normalized.any fun b => b ≤ 32 || b == 127)
    (valueError "Destination host is malformed")
  require (1 ≤ port ∧ port ≤ 65535) (valueError "Destination port must be between 1 and 65535")
  return (normalized, port)

/-- `str(n)`, which the interpreter refuses to build for very long numbers. -/
def decimalText (n : Nat) : Except HttpError Bytes := do
  require ((decimal n).length ≤ maxIntDigits)
    (valueError "Exceeds the limit (4300 digits) for integer string conversion")
  return decimal n

section Forward

-- `ipaddress.ip_address(host).version` and `host.encode("idna")`
variable (ipVersion : Bytes → Option Nat) (idna : Bytes → Except HttpError Bytes)

def authorityHost (normalized : Bytes) : Except HttpError Bytes :=
  match ipVersion (normalized.takeWhile (· ≠ 37)) with
  | none => idna normalized
  | some version => .ok (if version = 6 then 91 :: normalized ++ [93] else normalized)

def formatAuthority (host : Bytes) (port defaultPort : Int) : Except HttpError Bytes := do
  let (normalized, port) ← validatedHostPort host port
  let host ← authorityHost ipVersion idna normalized
  return if port = defaultPort then host else host ++ 58 :: decimal port.toNat

def defaultPort (scheme : Bytes) : Int := if scheme = ascii "https" then 443 else 80

/-- The names in the `Connection` fields. -/
def connectionOptions (headers : List Header) : Except HttpError (List Bytes) := do
  let options := (fieldParts headers "Connection").map casefold
  require (options.all fun option => option ≠ [] && option.all isToken)
    (valueError "Invalid Connection header option")
  return options

def hopByHop : List Bytes :=
  ["connection", "expect", "keep-alive", "proxy-authenticate", "proxy-authorization",
    "proxy-connection", "te", "trailer", "upgrade"].map ascii

/-- The state of the loop that filters the headers. -/
structure Filtered where
  headers : List Header
  seenHost : Bool
  sawContentLength : Bool

def hostHeader (authority : Bytes) : Header := ⟨ascii "Host", authority⟩

def lengthHeader (digits : Bytes) : Header := ⟨ascii "Content-Length", digits⟩

def closeHeader : Header := ⟨ascii "Connection", ascii "close"⟩

def filterHeader (dropped : List Bytes) (authority length : Except HttpError Bytes)
    (isChunked : Bool) (filtered : Filtered) (h : Header) : Except HttpError Filtered :=
  if casefold h.name ∈ dropped then .ok filtered
  else if casefold h.name = ascii "host" then
    if filtered.seenHost then .ok filtered
    else do
      let authority ← authority
      return { filtered with
        headers := filtered.headers ++ [hostHeader authority], seenHost := true }
  else if casefold h.name = ascii "content-length" then
    if filtered.sawContentLength || isChunked then .ok filtered
    else do
      let digits ← length
      return { filtered with
        headers := filtered.headers ++ [lengthHeader digits], sawContentLength := true }
  else .ok { filtered with headers := filtered.headers ++ [h] }

def checkChunkedBody (isChunked : Bool) (body : Bytes) : Except HttpError Unit :=
  if isChunked then
    match readChunked Feed.exhausted body body.length with
    | .error (connectionError _) => .error (valueError "Chunked HTTP body is incomplete")
    | .error e => .error e
    | .ok encodedBody =>
      require (encodedBody = body) (valueError "Chunked HTTP body contains trailing bytes")
  else .ok ()

def checkRequestLine (method version : Bytes) : Except HttpError Unit := do
  require (method ≠ [] ∧ method = strip method ∧ method.all isToken)
    (valueError "Invalid HTTP method")
  require (version = ascii "HTTP/1.0" ∨ version = ascii "HTTP/1.1")
    (valueError "Only HTTP/1.0 and HTTP/1.1 forwarding are supported")

/-- `if not seen_host` -/
def withHost (authority : Except HttpError Bytes) (filtered : Filtered) :
    Except HttpError (List Header) :=
  if filtered.seenHost then .ok filtered.headers
  else do
    let authority ← authority
    return hostHeader authority :: filtered.headers

/-- The `Content-Length` of a body that came without one. -/
def withLength (missing : Bool) (body : Bytes) (headers : List Header) :
    Except HttpError (List Header) :=
  if missing then do
    let digits ← decimalText body.length
    return headers ++ [lengthHeader digits]
  else .ok headers

/-- The headers of the forwarded request. -/
def forwardHeaders (headers : List Header) (body : Bytes) (host : Bytes) (port : Int)
    (scheme : Bytes) : Except HttpError (List Header) := do
  let (isChunked, _) ← messageFraming headers
  checkChunkedBody isChunked body
  require ((headerValues headers "Host").length ≤ 1)
    (valueError "Multiple Host headers are not accepted")
  let options ← connectionOptions headers
  let authority := formatAuthority ipVersion idna host port (defaultPort scheme)
  let filtered ← headers.foldlM
    (filterHeader (hopByHop ++ options) authority (decimalText body.length) isChunked)
    ⟨[], false, false⟩
  let hosted ← withHost authority filtered
  withLength (!isChunked && body ≠ [] && !filtered.sawContentLength) body (hosted ++ [closeHeader])

def startLine (method target version : Bytes) : Bytes := method ++ 32 :: target ++ 32 :: version

def normalizeForwardRequest (method target version : Bytes) (headers : List Header)
    (body host : Bytes) (port : Int) (scheme : Bytes) : Except HttpError Bytes := do
  checkRequestLine method version
  let forwarded ← forwardHeaders ipVersion idna headers body host port scheme
  return assembleMessage (startLine method target version) forwarded body

end Forward

-- What `Connection` lists is dropped, and the rewritten `Host` comes first.

end Arenyxa.Capture
