import Arenyxa.Lib.Outcome
import Arenyxa.Registry.Json
import Mathlib.Data.List.TakeWhile

/-! The filter language of captures: the tokens of an expression, the parser of the tokens, and the predicates
it builds. -/

namespace Arenyxa.Capture.Filter

open Outcome Registry

/-- `str.isspace`, and `\s` -/
def isSpace (c : Nat) : Bool :=
  (9 ≤ c && c ≤ 13) || (0x1C ≤ c && c ≤ 0x20) || (0x2000 ≤ c && c ≤ 0x200A) ||
    [0x85, 0xA0, 0x1680, 0x2028, 0x2029, 0x202F, 0x205F, 0x3000].contains c

/-- What the filter language takes from Python: the tables of characters, floats, and the texts of values. -/
structure Builtins where
  /-- The value of a character that is a decimal digit. -/
  decimal : Nat → Option Nat
  alnum : Nat → Bool
  /-- `float` of digits with a point, `none` where it is infinite. -/
  float : Text → Option ℚ
  /-- `str` of a value that is no text. -/
  repr : Json → Text
  decimal_ascii : ∀ c < 128, (decimal c).isSome = (48 ≤ c && c ≤ 57)
  decimal_space : ∀ c, isSpace c = true → decimal c = none

inductive Kind
  | number | string | op | word
  deriving DecidableEq

structure Token where
  kind : Kind
  value : Text

inductive FilterError
  | invalidToken (position : Nat)
  | expected (value : Option Text)
  | expectedComma
  | unsupportedOperator (value : Text)
  | trailingTokens
  /-- `int` or `json.loads` raises. -/
  | valueError
  /-- The parser calls itself too often. -/
  | recursion

section Tokens

variable (py : Builtins)

def isDigit (c : Nat) : Bool := (py.decimal c).isSome

/-- `[A-Za-z_]` -/
def isLetter (c : Nat) : Bool := (65 ≤ c && c ≤ 90) || (97 ≤ c && c ≤ 122) || c == 95

/-- `[\w.:-]` -/
def isWordChar (c : Nat) : Bool := py.alnum c || [95, 46, 58, 45].contains c

/-- `\d+(?:\.\d+)?` -/
def number (s : Text) : Option (Token × Text) :=
  let whole := s.takeWhile (isDigit py)
  let rest := s.dropWhile (isDigit py)
  let fraction := rest.tail.takeWhile (isDigit py)
  if whole = [] then none
  else if rest.head? = some 46 ∧ fraction ≠ [] then
    some (⟨.number, whole ++ 46 :: fraction⟩, rest.tail.dropWhile (isDigit py))
  else some (⟨.number, whole⟩, rest)

/-- `(?:\\.|[^"\\])*"` -/
def stringBody : Text → Option (Text × Text)
  | 34 :: rest => some ([34], rest)
  | 92 :: c :: rest =>
    if c = 10 then none else (stringBody rest).map fun body => (92 :: c :: body.1, body.2)
  | [92] => none
  | c :: rest => (stringBody rest).map fun body => (c :: body.1, body.2)
  | [] => none

def string (s : Text) : Option (Token × Text) :=
  match s with
  | 34 :: rest => (stringBody rest).map fun body => (⟨.string, 34 :: body.1⟩, body.2)
  | _ => none

/-- The first of some texts that a text starts with. -/
def oneOf (kind : Kind) (texts : List Text) (s : Text) : Option (Token × Text) :=
  (texts.find? fun t => t.isPrefixOf s).map fun t => (⟨kind, t⟩, s.drop t.length)

def operators : List Text := [text "==", text "!=", text ">=", text "<=", text ">", text "<"]

def punctuation : List Text := [text "&&", text "||", text "[", text "]", text ",", text "(", text ")"]

def word (s : Text) : Option (Token × Text) :=
  match s with
  | c :: rest =>
    if isLetter c then some (⟨.word, c :: rest.takeWhile (isWordChar py)⟩, rest.dropWhile (isWordChar py))
    else oneOf .word punctuation s
  | [] => none

/-- `TOKEN_RE.match`, with what is left behind the match. -/
def tokenMatch (s : Text) : Option (Token × Text) :=
  let s := s.dropWhile isSpace
  (number py s).or <| (string s).or <| (oneOf .op operators s).or <| word py s

/-- `tokenize`, of the end of an expression of some length; every token takes a character. -/
def tokenize (length : Nat) : Nat → Text → Except FilterError (List Token)
  | _, [] => .ok []
  | 0, _ => .error .recursion
  | fuel + 1, s =>
    match tokenMatch py s with
    | none => .error (.invalidToken (length - s.length))
    | some (token, rest) => do
      let tokens ← tokenize length fuel rest
      return token :: tokens

end Tokens

section Loads

def hexValue (c : Nat) : Option Nat :=
  if 48 ≤ c ∧ c ≤ 57 then some (c - 48)
  else if 97 ≤ c ∧ c ≤ 102 then some (c - 87)
  else if 65 ≤ c ∧ c ≤ 70 then some (c - 55)
  else none

def hexValues (digits : List Nat) : Option Nat :=
  digits.foldlM (fun n c => (hexValue c).map fun d => 16 * n + d) 0

/-- The characters of a JSON string behind its first quote; escaped code units are marked. -/
def scan : Text → Option (List (Nat × Bool))
  | [34] => some []
  | 92 :: 117 :: a :: b :: c :: d :: rest => do
    let unit ← hexValues [a, b, c, d]
    let units ← scan rest
    return (unit, true) :: units
  | 92 :: c :: rest => do
    let plain ← [(34, 34), (92, 92), (47, 47), (98, 8), (102, 12), (110, 10), (114, 13), (116, 9)].lookup c
    let units ← scan rest
    return (plain, false) :: units
  | c :: rest =>
    if c < 32 ∨ c = 34 ∨ c = 92 then none
    else do
      let units ← scan rest
      return (c, false) :: units
  | [] => none

/-- Two escaped surrogates that follow each other are one character. -/
def joinSurrogates : List (Nat × Bool) → Text
  | (high, true) :: (low, true) :: rest =>
    if 0xd800 ≤ high ∧ high ≤ 0xdbff ∧ 0xdc00 ≤ low ∧ low ≤ 0xdfff then
      (0x10000 + (high - 0xd800) * 0x400 + (low - 0xdc00)) :: joinSurrogates rest
    else high :: joinSurrogates ((low, true) :: rest)
  | (c, _) :: rest => c :: joinSurrogates rest
  | [] => []

/-- `json.loads` of a string token. -/
def loads (s : Text) : Option Text :=
  match s with
  | 34 :: rest => (scan rest).map joinSurrogates
  | _ => none

end Loads

section Values

/-- A number as Python compares it. -/
inductive Number
  | finite (value : ℚ)
  | infinite (negative : Bool)
  | nan

def Number.eq : Number → Number → Bool
  | .finite a, .finite b => a == b
  | .infinite a, .infinite b => a == b
  | _, _ => false

def Number.lt : Number → Number → Bool
  | .finite a, .finite b => a < b
  | .infinite negative, .finite _ => negative
  | .finite _, .infinite negative => !negative
  | .infinite a, .infinite b => a && !b
  | _, _ => false

def Number.le (a b : Number) : Bool := a.lt b || a.eq b

def numberOf : Json → Option Number
  | .bool value => some (.finite (if value then 1 else 0))
  | .int value => some (.finite value)
  | .float value => some (.finite value)
  | .special name =>
    some (if name = text "Infinity" then .infinite false else if name = text "-Infinity" then .infinite true else .nan)
  | _ => none

mutual

/-- `==` -/
def equals : Json → Json → Bool
  | .null, .null => true
  | .str a, .str b => a == b
  | .arr xs, .arr ys => equalItems xs ys
  | .obj xs, .obj ys => xs.length == ys.length && equalFields xs ys
  | a, b =>
    match numberOf a, numberOf b with
    | some x, some y => x.eq y
    | _, _ => false

def equalItems : List Json → List Json → Bool
  | [], [] => true
  | x :: xs, y :: ys => equals x y && equalItems xs ys
  | _, _ => false

def equalFields : List (Text × Json) → List (Text × Json) → Bool
  | [], _ => true
  | (key, value) :: fields, other =>
    (match other.lookup key with
      | none => false
      | some value' => equals value value') && equalFields fields other

end

inductive Operator
  | contains | startsWith | endsWith | isIn | eq | ne | gt | lt | ge | le

def supportedOperators : List (Text × Operator) :=
  [(text "contains", .contains), (text "startsWith", .startsWith), (text "endsWith", .endsWith), (text "in", .isIn),
    (text "==", .eq), (text "!=", .ne), (text ">", .gt), (text "<", .lt), (text ">=", .ge), (text "<=", .le)]

/-- The comparison of an operator, from those of the order. -/
def ordered {α : Type} (lt le : α → α → Bool) : Operator → α → α → Bool
  | .gt, a, b => lt b a
  | .lt, a, b => lt a b
  | .ge, a, b => le b a
  | .le, a, b => le a b
  | _, _, _ => false

inductive EvalError
  | typeError
  | valueError
  deriving DecidableEq

mutual

/-- `>`, `<`, `>=` and `<=`, which raise for values of unlike types. -/
def order (op : Operator) : Json → Json → Except EvalError Bool
  | .str a, .str b => .ok (ordered (fun a b => a < b) (fun a b => !decide (b < a)) op a b)
  | .arr xs, .arr ys => orderItems op xs ys
  | a, b =>
    match numberOf a, numberOf b with
    | some x, some y => .ok (ordered Number.lt Number.le op x y)
    | _, _ => .error .typeError

/-- Lists are compared at the first items that differ. -/
def orderItems (op : Operator) : List Json → List Json → Except EvalError Bool
  | x :: xs, y :: ys => if equals x y then orderItems op xs ys else order op x y
  | xs, ys => .ok (ordered (fun a b => a < b) (fun a b => a ≤ b) op xs.length ys.length)

end

/-- From so many digits on an integer has no text. -/
def maxDigits : Nat := 4300

mutual

/-- Whether `str` has a text of a value. -/
def printable : Json → Bool
  | .int value => value.natAbs < 10 ^ maxDigits
  | .arr items => printableItems items
  | .obj fields => printableFields fields
  | _ => true

def printableItems : List Json → Bool
  | [] => true
  | item :: items => printable item && printableItems items

def printableFields : List (Text × Json) → Bool
  | [] => true
  | (_, value) :: fields => printable value && printableFields fields

end

variable (py : Builtins)

def str (value : Json) : Except EvalError Text :=
  match value with
  | .str t => .ok t
  | value => if printable value then .ok (py.repr value) else .error .valueError

/-- `value or ""` -/
def orEmpty (value : Json) : Json := if value.truth then value else .str []

/-- `part in whole`, of texts -/
def isInfix (part whole : Text) : Bool := whole.tails.any part.isPrefixOf

def isIn (actual expected : Json) : Except EvalError Bool :=
  match expected, actual with
  | .arr items, actual => .ok (items.any (equals actual))
  | .str t, .str part => .ok (isInfix part t)
  | _, _ => .error .typeError

/-- The comparison of a field with a literal. -/
def evaluate (op : Operator) (actual expected : Json) : Except EvalError Bool :=
  match op with
  | .eq => .ok (equals actual expected)
  | .ne => .ok !(equals actual expected)
  | .contains => do
    let part ← str py expected
    let whole ← str py (orEmpty actual)
    return isInfix part whole
  | .startsWith => do
    let whole ← str py (orEmpty actual)
    let part ← str py expected
    return part.isPrefixOf whole
  | .endsWith => do
    let whole ← str py (orEmpty actual)
    let part ← str py expected
    return part.isSuffixOf whole
  | .isIn => isIn actual expected
  | op =>
    match actual with
    | .null => .ok false
    | actual => order op actual expected

structure NetworkEvent where
  protocol : Text
  direction : Text
  size : Int
  processRef : Option Text
  method : Option Text
  url : Option Text
  status : Option Int
  host : Option Text
  metadata : Row

def optional {α : Type} (make : α → Json) (value : Option α) : Json := (value.map make).getD .null

def NetworkEvent.get (event : NetworkEvent) (key : Text) : Json := (event.metadata.lookup key).getD .null

/-- `_field` -/
def NetworkEvent.field (event : NetworkEvent) (path : Text) : Json :=
  (List.lookup path
    [(text "protocol", .str event.protocol), (text "direction", .str event.direction), (text "bytes", .int event.size),
      (text "http.method", optional .str event.method), (text "http.url", optional .str event.url),
      (text "http.host", optional .str event.host), (text "http.status", optional .int event.status),
      (text "process.name", optional .str event.processRef), (text "remote.port", event.get (text "remote_port")),
      (text "local.port", event.get (text "local_port")), (text "dns.qname", event.get (text "dns_qname")),
      (text "tls.version", event.get (text "tls_version"))]).getD (event.get path)

end Values

section Parser

abbrev Predicate := NetworkEvent → Except EvalError Bool

/-- `all(function(event) for function in functions)` -/
def allOf : List Predicate → Predicate
  | [], _ => .ok true
  | f :: functions, event => do
    if ← f event then allOf functions event else return false

/-- `any(function(event) for function in functions)` -/
def anyOf : List Predicate → Predicate
  | [], _ => .ok false
  | f :: functions, event => do
    if ← f event then return true else anyOf functions event

variable (py : Builtins)

def peek (value : String) (tokens : List Token) : Bool := tokens.head?.any fun token => token.value == text value

def take (value : String) (tokens : List Token) : Except FilterError (List Token) :=
  match tokens with
  | token :: rest => if token.value = text value then .ok rest else .error (.expected (some (text value)))
  | [] => .error (.expected (some (text value)))

/-- The value of a literal that is no list. -/
def convert (token : Token) : Except FilterError Json :=
  match token.kind with
  | .number =>
    if 46 ∈ token.value then
      .ok (match py.float token.value with
        | some value => .float value
        | none => .special (text "Infinity"))
    else if maxDigits < token.value.length then .error .valueError
    else .ok (.int (token.value.foldl (fun n c => 10 * n + ((py.decimal c).getD 0 : Nat)) 0))
  | .string =>
    match loads token.value with
    | some t => .ok (.str t)
    | none => .error .valueError
  | _ => .ok (.str token.value)

mutual

def literal : Nat → List Token → Except FilterError (Json × List Token)
  | 0, _ => .error .recursion
  | _ + 1, [] => .error (.expected none)
  | fuel + 1, token :: rest =>
    if (token.kind = .op ∨ token.kind = .word) ∧ token.value = text "[" then items fuel [] rest
    else do
      let value ← convert py token
      return (value, rest)

/-- The loop over the items of a list. -/
def items : Nat → List Json → List Token → Except FilterError (Json × List Token)
  | 0, _, _ => .error .recursion
  | fuel + 1, values, tokens =>
    if peek "]" tokens then .ok (.arr values, tokens.tail)
    else do
      let (value, rest) ← literal fuel tokens
      if peek "," rest then items fuel (values ++ [value]) rest.tail
      else if peek "]" rest then items fuel (values ++ [value]) rest
      else .error .expectedComma

end

def predicate (fuel : Nat) (tokens : List Token) : Except FilterError (Predicate × List Token) :=
  match tokens with
  | [] => .error (.expected none)
  | [_] => .error (.expected none)
  | field :: operator :: rest =>
    match supportedOperators.lookup operator.value with
    | none => .error (.unsupportedOperator operator.value)
    | some op => do
      let (expected, rest) ← literal py fuel rest
      return (fun event => evaluate py op (event.field field.value) expected, rest)

mutual

def factor : Nat → List Token → Except FilterError (Predicate × List Token)
  | 0, _ => .error .recursion
  | fuel + 1, tokens =>
    if peek "(" tokens then do
      let (expression, rest) ← disjunction fuel tokens.tail
      let rest ← take ")" rest
      return (expression, rest)
    else predicate py fuel tokens

def conjunction : Nat → List Token → Except FilterError (Predicate × List Token)
  | 0, _ => .error .recursion
  | fuel + 1, tokens => do
    let (f, rest) ← factor fuel tokens
    conjuncts fuel [f] rest

/-- The loop of `conjunction`. -/
def conjuncts : Nat → List Predicate → List Token → Except FilterError (Predicate × List Token)
  | 0, _, _ => .error .recursion
  | fuel + 1, functions, tokens =>
    if peek "&&" tokens then do
      let (f, rest) ← factor fuel tokens.tail
      conjuncts fuel (functions ++ [f]) rest
    else .ok (allOf functions, tokens)

def disjunction : Nat → List Token → Except FilterError (Predicate × List Token)
  | 0, _ => .error .recursion
  | fuel + 1, tokens => do
    let (f, rest) ← conjunction fuel tokens
    disjuncts fuel [f] rest

/-- The loop of `disjunction`. -/
def disjuncts : Nat → List Predicate → List Token → Except FilterError (Predicate × List Token)
  | 0, _, _ => .error .recursion
  | fuel + 1, functions, tokens =>
    if peek "||" tokens then do
      let (f, rest) ← conjunction fuel tokens.tail
      disjuncts fuel (functions ++ [f]) rest
    else .ok (anyOf functions, tokens)

end

/-- `FilterEngine.compile`; four calls for each token are enough. -/
def compile (expression : Text) : Except FilterError Predicate :=
  if expression.all isSpace then .ok fun _ => .ok true
  else do
    let tokens ← tokenize py expression.length expression.length expression
    let (result, rest) ← disjunction py (4 * tokens.length) tokens
    require (rest = []) .trailingTokens
    return result

end Parser

end Arenyxa.Capture.Filter
