import Arenyxa.Lib.Outcome
import Arenyxa.Lib.Search
import Mathlib.Data.List.DropRight

/-! HTTP/1 messages: head, header fields and body framing. A text is its Latin-1 bytes, as the
proxy decodes and encodes it. -/

namespace Arenyxa.Capture

open Outcome Search

abbrev Bytes := List UInt8

/-- The exception types a caller tells apart, with their messages. -/
inductive HttpError
  | valueError (message : String)
  | connectionError (message : String)
  deriving DecidableEq

open HttpError

def ascii (s : String) : Bytes := s.toList.map fun c => UInt8.ofNat c.toNat

def isDigit (b : UInt8) : Bool := 48 ≤ b && b ≤ 57

def isLetter (b : UInt8) : Bool := (65 ≤ b && b ≤ 90) || (97 ≤ b && b ≤ 122)

/-- `_HTTP_TOKEN_CHARS` -/
def isToken (b : UInt8) : Bool := isLetter b || isDigit b || (ascii "!#$%&'*+-.^_`|~").contains b

def isControl (b : UInt8) : Bool := b < 32 || b == 127

/-- `str.isspace` in Latin-1. -/
def isSpace (b : UInt8) : Bool :=
  (9 ≤ b && b ≤ 13) || (28 ≤ b && b ≤ 32) || b == 0x85 || b == 0xA0

def stripBy (p : UInt8 → Bool) (text : Bytes) : Bytes :=
  (text.dropWhile p).rdropWhile p

def strip : Bytes → Bytes := stripBy isSpace

/-- `str.casefold`, as far as a comparison with ASCII text can tell. -/
def casefold (text : Bytes) : Bytes :=
  text.flatMap fun b =>
    if 65 ≤ b && b ≤ 90 then [b + 32] else if b == 0xDF then [115, 115] else [b]

def crlf : Bytes := [13, 10]

def headEnd : Bytes := crlf ++ crlf

/-- `text.split("\r\n")` -/
def splitLines : Bytes → List Bytes
  | [] => [[]]
  | 13 :: 10 :: rest => [] :: splitLines rest
  | b :: rest =>
    match splitLines rest with
    | [] => [[b]]
    | line :: lines => (b :: line) :: lines

structure Header where
  name : Bytes
  value : Bytes
  deriving DecidableEq

def maxHeadLines : Nat := 1026

def parseHeaderLine (line : Bytes) : Except HttpError Header := do
  require (line.head? ≠ some 32 ∧ line.head? ≠ some 9)
    (valueError "Obsolete folded HTTP headers are not accepted")
  let name := line.takeWhile (· ≠ 58)
  let value := (line.dropWhile (· ≠ 58)).drop 1
  require (line.contains 58 ∧ name ≠ [] ∧ name.all isToken) (valueError "Malformed HTTP header")
  require (value.all fun b => !isControl b || b == 9)
    (valueError "HTTP header value contains a control character")
  return ⟨name, stripBy (fun b => b == 32 || b == 9) value⟩

def parseHead (head : Bytes) : Except HttpError (Bytes × List Header) := do
  require (headEnd <:+ head) (valueError "HTTP headers are not terminated")
  let lines := splitLines head
  let start := lines.headD []
  require (start ≠ []) (valueError "HTTP start line is missing")
  require (!start.any isControl) (valueError "HTTP start line contains a control character")
  require (lines.length ≤ maxHeadLines) (valueError "HTTP header count exceeded the safety limit")
  let headers ← (lines.tail.filter (· ≠ [])).mapM parseHeaderLine
  return (start, headers)

def headerValues (headers : List Header) (name : String) : List Bytes :=
  (headers.filter fun h => casefold h.name = casefold (ascii name)).map Header.value

/-- The comma-separated parts of every field of a name. -/
def fieldParts (headers : List Header) (name : String) : List Bytes :=
  (headerValues headers name).flatMap fun raw => (raw.splitOn 44).map strip

def isDecimal (text : Bytes) : Bool := text ≠ [] && text.all isDigit

/-- The interpreter's limit on conversions between integers and decimal text. -/
def maxIntDigits : Nat := 4300

/-- `int(text, 10)` on digits. -/
def ofDecimal (text : Bytes) : Nat := text.foldl (fun n b => 10 * n + (b.toNat - 48)) 0

def decimal (n : Nat) : Bytes :=
  if n < 10 then [UInt8.ofNat (48 + n)] else decimal (n / 10) ++ [UInt8.ofNat (48 + n % 10)]

def contentLength (headers : List Header) : Except HttpError (Option Nat) :=
  match fieldParts headers "Content-Length" with
  | [] => .ok none
  | first :: rest => do
    require ((first :: rest).all isDecimal) (valueError "Invalid Content-Length")
    require ((first :: rest).all fun v => v.length ≤ maxIntDigits)
      (valueError "Exceeds the limit (4300 digits) for integer string conversion")
    require (rest.all fun v => ofDecimal v = ofDecimal first)
      (valueError "Conflicting Content-Length headers")
    return some (ofDecimal first)

/-- A transfer coding without its parameters. -/
def codingName (value : Bytes) : Bytes := casefold (strip (value.takeWhile (· ≠ 59)))

def chunked : Bytes := ascii "chunked"

def transferCodings (headers : List Header) : Except HttpError (List Bytes) := do
  let codings := (fieldParts headers "Transfer-Encoding").map codingName
  require (codings.all fun coding => coding ≠ [] && coding.all isToken)
    (valueError "Invalid Transfer-Encoding")
  require (codings = [] ∨ (codings.getLast? = some chunked ∧ codings.count chunked = 1))
    (valueError "Unsupported or ambiguous Transfer-Encoding framing")
  return codings

def messageFraming (headers : List Header) : Except HttpError (Bool × Option Nat) := do
  let codings ← transferCodings headers
  let length ← contentLength headers
  require (codings = [] ∨ length = none)
    (valueError "Transfer-Encoding and Content-Length cannot be combined")
  return (codings ≠ [], length)

/-- `f"\x7bname\x7d: \x7bvalue\x7d"` -/
def Header.line (h : Header) : Bytes := h.name ++ ascii ": " ++ h.value

/-- A message from its start line, headers and body. -/
def assembleMessage (start : Bytes) (headers : List Header) (body : Bytes) : Bytes :=
  (start :: headers.map Header.line).flatMap (· ++ crlf) ++ crlf ++ body

def parseRawMessage (raw : Bytes) : Except HttpError (Bytes × List Header × Bytes) :=
  match find? headEnd raw with
  | none => .error (valueError "HTTP message is missing the header terminator")
  | some marker => do
    let parsed ← parseHead (raw.take (marker + 4))
    return (parsed.1, parsed.2, raw.drop (marker + 4))

end Arenyxa.Capture
