import Arenyxa.Capture.RuleFraming

/-! The match-and-replace rules: all rules that match a message are applied to it, one after the other. -/

namespace Arenyxa.Capture

open Outcome Replace HttpError

inductive RewriteScope
  | header | body
  deriving DecidableEq

inductive RewritePhase
  | request | response
  deriving DecidableEq

structure ProxyMatchReplaceRule where
  id : String
  enabled : Bool
  phase : RewritePhase
  scope : RewriteScope
  hostPattern : String
  pathPattern : String
  method : String
  headerName : String
  «match» : String
  replacement : String

structure RuleLibrary extends TextLibrary where
  isAlpha : String → Bool

/-- The code points of a text. -/
def codes (text : String) : List Nat := text.toList.map Char.toNat

/-- A header whose value is a text: what is put into it need not be Latin-1. -/
structure Field where
  name : Bytes
  value : List Nat
  deriving DecidableEq

def Header.field (h : Header) : Field := ⟨h.name, h.value.map UInt8.toNat⟩

namespace ProxyMatchReplaceRule

def validate (lib : RuleLibrary) (rule : ProxyMatchReplaceRule) : Except HttpError Unit := do
  require (rule.id ≠ "" ∧ rule.id.length ≤ 96) (valueError "Match/Replace rule id is invalid")
  require (rule.hostPattern ≠ "" ∧ rule.hostPattern.length ≤ 253) (valueError "Match/Replace host pattern is invalid")
  require (rule.pathPattern ≠ "" ∧ rule.pathPattern.length ≤ 2048)
    (valueError "Match/Replace path pattern is invalid")
  let method := lib.upper rule.method
  require (method = "*" ∨ (lib.isAlpha method ∧ method.length ≤ 16)) (valueError "Match/Replace method is invalid")
  require (rule.scope = .header → rule.headerName ≠ "" ∧ rule.headerName.length ≤ 128 ∧
      (codes rule.headerName).all fun c => c ≠ 13 ∧ c ≠ 10 ∧ c ≠ 58)
    (valueError "Match/Replace header name is invalid")
  require (rule.scope = .header → 13 ∉ codes rule.replacement ∧ 10 ∉ codes rule.replacement)
    (valueError "Match/Replace header replacement cannot contain line breaks")
  require (rule.match ≠ "" ∧ (utf8 rule.match).length ≤ 4096)
    (valueError "Match/Replace match value is empty or too large")
  require ((utf8 rule.replacement).length ≤ 16 * 1024)
    (valueError "Match/Replace replacement exceeds the 16 KiB safety limit")

def matchesMessage (lib : RuleLibrary) (rule : ProxyMatchReplaceRule) (phase : RewritePhase)
    (method host target : String) : Bool :=
  rule.enabled && rule.phase = phase && (rule.method = "*" || lib.upper rule.method = lib.upper method) &&
    lib.fnmatchcase (lib.casefold host) (lib.casefold rule.hostPattern) && lib.fnmatchcase target rule.pathPattern

/-- The rule is about the headers of this name. -/
def matchesHeader (lib : RuleLibrary) (rule : ProxyMatchReplaceRule) (name : Bytes) : Bool :=
  rule.headerName = "*" || lib.fnmatchcase (lib.casefold (latin1 name)) (lib.casefold rule.headerName)

/-- A value after the rule, where it is about headers of the name. -/
def editValue (lib : RuleLibrary) (rule : ProxyMatchReplaceRule) (name : Bytes) (value : List Nat) : List Nat :=
  if rule.scope = .header ∧ rule.matchesHeader lib name then
    replaceAll (codes rule.match) (codes rule.replacement) value else value

/-- A body after the rule. -/
def editBody (rule : ProxyMatchReplaceRule) (body : Bytes) : Bytes :=
  if rule.scope = .body then replaceAll (utf8 rule.match) (utf8 rule.replacement) body else body

end ProxyMatchReplaceRule

/-- What the rules have made of a message. -/
structure Rewriting where
  fields : List Field
  body : Bytes
  applied : List String

def applyRule (lib : RuleLibrary) (transferChunked : Bool) (s : Rewriting) (rule : ProxyMatchReplaceRule) :
    Rewriting :=
  match rule.scope with
  | .header =>
    let fields := s.fields.map fun f => ⟨f.name, rule.editValue lib f.name f.value⟩
    ⟨fields, s.body, if fields ≠ s.fields then s.applied ++ [rule.id] else s.applied⟩
  | .body =>
    if transferChunked then s
    else
      let body := rule.editBody s.body
      ⟨s.fields, body, if body ≠ s.body then s.applied ++ [rule.id] else s.applied⟩

def Field.isLength (f : Field) : Bool := casefold f.name = ascii "content-length"

/-- The first length field takes the length of the body, and the others are dropped. -/
def normalizeLength (n : Nat) : Bool → List Field → Except HttpError (List Field)
  | _, [] => .ok []
  | sawLength, f :: fields =>
    if f.isLength then
      if sawLength then normalizeLength n true fields
      else do
        let digits ← decimalText n
        let rest ← normalizeLength n true fields
        return (lengthHeader digits).field :: rest
    else do
      let rest ← normalizeLength n sawLength fields
      return f :: rest

def Field.encode (f : Field) : Except HttpError Header := do
  require (f.value.all fun c => c < 256) (valueError "ordinal not in range(256)")
  return ⟨f.name, f.value.map UInt8.ofNat⟩

/-- The first value of the name, or no text. -/
def firstValue (headers : List Header) (name : String) : Bytes := (headerValues headers name).headD []

def transferChunked (headers : List Header) : Bool := chunked <:+: casefold (firstValue headers "Transfer-Encoding")

/-- The fields that go out with a body. -/
def outgoingFields (isChunked : Bool) (fields : List Field) (body : Bytes) : Except HttpError (List Field) :=
  if isChunked then .ok fields
  else do
    let normalized ← normalizeLength body.length false fields
    if body ≠ [] ∧ fields.all (fun f => !f.isLength) then do
      let digits ← decimalText body.length
      return normalized ++ [(lengthHeader digits).field]
    else return normalized

/-- `_apply_match_replace` with the rules that match. -/
def applyRules (lib : RuleLibrary) (rules : List ProxyMatchReplaceRule) (maxMessageBytes : Nat) (raw : Bytes) :
    Except HttpError (Bytes × List String) :=
  if rules = [] then .ok (raw, [])
  else do
    let (start, headers, body) ← parseRawMessage raw
    let isChunked := transferChunked headers
    let s := rules.foldl (applyRule lib isChunked) ⟨headers.map Header.field, body, []⟩
    if s.applied = [] then return (raw, [])
    else
      require (s.body.length ≤ maxMessageBytes)
        (valueError "Match/Replace result exceeds the configured proxy message budget")
      let fields ← outgoingFields isChunked s.fields s.body
      let out ← fields.mapM Field.encode
      let result := assembleMessage start out s.body
      require (result.length ≤ maxMessageBytes)
        (valueError "Match/Replace result exceeds the configured proxy message budget")
      return (result, s.applied)

/-- `_apply_match_replace` -/
def applyMatchReplace (lib : RuleLibrary) (rules : List ProxyMatchReplaceRule) (maxMessageBytes : Nat) (raw : Bytes)
    (phase : RewritePhase) (method host target : String) : Except HttpError (Bytes × List String) :=
  applyRules lib (rules.filter fun rule => rule.matchesMessage lib phase method host target) maxMessageBytes raw

end Arenyxa.Capture
