import Arenyxa.Audit.Log
import Mathlib.Data.List.Sort
import Mathlib.Data.String.Basic

/-! Identities, devices and sessions, and when a session is valid. -/

namespace Arenyxa.Security

inductive TrustDomain
  | personal | developer | enterprise
  deriving DecidableEq

structure Principal where
  id : String
  trustDomain : TrustDomain

structure Identity where
  id : String
  principal : Principal
  enabled : Bool
  generation : Int

structure DeviceIdentity where
  id : String
  trustDomain : TrustDomain
  revoked : Bool
  generation : Int

structure Session (V : Type) where
  id : String
  principalId : String
  identityId : String
  trustDomain : TrustDomain
  issuedAt : String
  expiresAt : String
  identityGeneration : Int
  deviceId : String
  deviceGeneration : Int
  grantedCapabilities : List String
  metadata : List (String × V)

/-- Identities and devices are found under their own ids. -/
structure SecurityState where
  identities : String → Option Identity
  devices : String → Option DeviceIdentity
  revokedSessions : List String
  keyed : ∀ {id identity}, identities id = some identity → identity.id = id

inductive SecurityError
  | identityExists (id : String)
  | deviceExists (id : String)
  | identityInvalid
  | deviceInvalid

namespace SecurityState

/-- The state with an identity under its id. -/
def putIdentity (s : SecurityState) (identity : Identity) : SecurityState where
  identities := Function.update s.identities identity.id (some identity)
  devices := s.devices
  revokedSessions := s.revokedSessions
  keyed {id found} its := by
    by_cases own : id = identity.id
    · rw [own, Function.update_self] at its
      rw [← Option.some.inj its, own]
    · rw [Function.update_of_ne own] at its
      exact s.keyed its

def putDevice (s : SecurityState) (device : DeviceIdentity) : SecurityState :=
  { s with devices := Function.update s.devices device.id (some device) }

def registerIdentity (s : SecurityState) (identity : Identity) : Except SecurityError SecurityState :=
  if (s.identities identity.id).isSome then .error (.identityExists identity.id) else .ok (s.putIdentity identity)

def removeIdentity (s : SecurityState) (identityId : String) : SecurityState where
  identities := Function.update s.identities identityId none
  devices := s.devices
  revokedSessions := s.revokedSessions
  keyed {id found} its := by
    by_cases own : id = identityId
    · rw [own, Function.update_self] at its
      cases its
    · rw [Function.update_of_ne own] at its
      exact s.keyed its

def disableIdentity (s : SecurityState) (identityId : String) : Except SecurityError SecurityState :=
  match s.identities identityId with
  | none => .error .identityInvalid
  | some identity => .ok (s.putIdentity { identity with enabled := false, generation := identity.generation + 1 })

def bumpIdentityGeneration (s : SecurityState) (identityId : String) : Except SecurityError SecurityState :=
  match s.identities identityId with
  | none => .error .identityInvalid
  | some identity => .ok (s.putIdentity { identity with generation := identity.generation + 1 })

def registerDevice (s : SecurityState) (device : DeviceIdentity) : Except SecurityError SecurityState :=
  if (s.devices device.id).isSome then .error (.deviceExists device.id) else .ok (s.putDevice device)

def revokeDevice (s : SecurityState) (deviceId : String) : Except SecurityError SecurityState :=
  match s.devices deviceId with
  | none => .error .deviceInvalid
  | some device =>
    let revoked := { device with revoked := true, generation := device.generation + 1 }
    .ok { s with devices := Function.update s.devices deviceId (some revoked) }

def revokeSession (s : SecurityState) (sessionId : String) : SecurityState :=
  { s with revokedSessions := sessionId :: s.revokedSessions }

def forgetSessionRevocation (s : SecurityState) (sessionId : String) : SecurityState :=
  { s with revokedSessions := s.revokedSessions.filter (· ≠ sessionId) }

end SecurityState

/-- What the standard library makes of times and of values. -/
structure Library (V : Type) where
  /-- The text of a time in microseconds. -/
  isoformat : Int → String
  fromisoformat : String → Option Int
  /-- `==` -/
  equal : V → V → Bool
  hashable : V → Bool
  null : V
  /-- `is True` -/
  isTrue : V → Bool

structure SessionValidation where
  valid : Bool
  code : String
  reason : String

section Validation

variable {V : Type} (lib : Library V) (s : SecurityState) (session : Session V)

def minute : Int := 60 * 1000000

def validateDevice : SessionValidation :=
  if session.deviceId = "" then ⟨true, "OK", "session is valid"⟩
  else
    match s.devices session.deviceId with
    | none => ⟨false, "DEVICE_MISSING", "session device no longer exists"⟩
    | some device =>
      if device.trustDomain ≠ session.trustDomain then
        ⟨false, "DEVICE_TRUST_MISMATCH", "device/session trust domains differ"⟩
      else if device.revoked then ⟨false, "DEVICE_REVOKED", "device has been revoked"⟩
      else if device.generation ≠ session.deviceGeneration then
        ⟨false, "DEVICE_GENERATION_REVOKED", "device generation changed"⟩
      else ⟨true, "OK", "session is valid"⟩

def validateIdentity : SessionValidation :=
  match s.identities session.identityId with
  | none => ⟨false, "IDENTITY_MISSING", "session identity no longer exists"⟩
  | some identity =>
    if !identity.enabled then ⟨false, "IDENTITY_DISABLED", "identity is disabled"⟩
    else if identity.principal.id ≠ session.principalId then
      ⟨false, "SESSION_PRINCIPAL_MISMATCH", "session principal does not match identity"⟩
    else if identity.principal.trustDomain ≠ session.trustDomain then
      ⟨false, "SESSION_TRUST_MISMATCH", "identity/session trust domains differ"⟩
    else if identity.generation ≠ session.identityGeneration then
      ⟨false, "SESSION_GENERATION_REVOKED", "identity generation changed"⟩
    else validateDevice s session

def validate (now : Int) : SessionValidation :=
  match lib.fromisoformat session.issuedAt, lib.fromisoformat session.expiresAt with
  | some issued, some expires =>
    if expires ≤ issued then ⟨false, "SESSION_TIME_INVALID", "session timestamps are invalid"⟩
    else if expires ≤ now then ⟨false, "SESSION_EXPIRED", "session has expired"⟩
    else if 5 * minute < issued - now then
      ⟨false, "SESSION_NOT_YET_VALID", "session issue time is in the future"⟩
    else if session.id ∈ s.revokedSessions then ⟨false, "SESSION_REVOKED", "session has been revoked"⟩
    else validateIdentity s session
  | _, _ => ⟨false, "SESSION_TIME_INVALID", "session timestamps are invalid"⟩

end Validation

end Arenyxa.Security

/-! Capabilities and the policy rules about them. -/

namespace Arenyxa.Security

structure CapabilityDefinition where
  name : String
  trustDomain : TrustDomain
  description : String

/-- The definitions under their names. -/
abbrev CapabilityCatalog := String → Option CapabilityDefinition

inductive PolicyEffect
  | allow | deny
  deriving DecidableEq

/-- What a condition wants: a value, one of a tuple or a list, or one of a set. -/
inductive Wanted (V : Type)
  | value (v : V)
  | sequence (values : List V)
  | set (values : List V)

structure PolicyRule (V : Type) where
  id : String
  trustDomain : TrustDomain
  capabilities : List String
  resources : List String
  effect : PolicyEffect
  conditions : List (String × Wanted V)
  priority : Int

structure AuthorizationDecision where
  allowed : Bool
  code : String
  reason : String
  matchedRules : List String

/-- A part of a shell pattern. -/
inductive Piece
  | many
  | one
  | char (c : Char)
  | among (negated : Bool) (ranges : List (Char × Char))

def Piece.accepts (c : Char) : Piece → Bool
  | .char d => c = d
  | .among negated ranges => negated != ranges.any fun range => range.1 ≤ c && c ≤ range.2
  | _ => true

/-- The characters and ranges between brackets. -/
def rangesOf : List Char → List (Char × Char)
  | c :: '-' :: d :: rest => (c, d) :: rangesOf rest
  | c :: rest => (c, c) :: rangesOf rest
  | [] => []

/-- What stands behind the bracket that ends a set, which is not its first character. -/
def closing : List Char → Option (List Char × List Char)
  | [] => none
  | c :: rest =>
    match rest.span (· ≠ ']') with
    | (_, []) => none
    | (inner, _ :: behind) => some (c :: inner, behind)

def setOf (negated : Bool) (text : List Char) : Option (Piece × List Char) :=
  (closing text).map fun found => (.among negated (rangesOf found.1), found.2)

def piecesOf : Nat → List Char → List Piece
  | 0, _ => []
  | _, [] => []
  | fuel + 1, '*' :: rest => .many :: piecesOf fuel rest
  | fuel + 1, '?' :: rest => .one :: piecesOf fuel rest
  | fuel + 1, '[' :: rest =>
    let found := match rest with
      | '!' :: inner => setOf true inner
      | _ => setOf false rest
    match found with
    | none => .char '[' :: piecesOf fuel rest
    | some (piece, behind) => piece :: piecesOf fuel behind
  | fuel + 1, c :: rest => .char c :: piecesOf fuel rest

def fits : List Piece → List Char → Bool
  | [], text => text.isEmpty
  | .many :: pieces, text => text.tails.any (fits pieces)
  | _ :: _, [] => false
  | piece :: pieces, c :: text => piece.accepts c && fits pieces text

def fnmatchcase (name pat : String) : Bool := fits (piecesOf pat.length pat.toList) name.toList

section Evaluation

variable {V : Type} (lib : Library V)

/-- The order in which rules are kept. -/
def before (a b : PolicyRule V) : Prop := b.priority < a.priority ∨ a.priority = b.priority ∧ a.id ≤ b.id

instance : DecidableRel (before (V := V)) := fun _ _ => inferInstanceAs (Decidable (_ ∨ _))

def add (rules : List (PolicyRule V)) (rule : PolicyRule V) : Except String (List (PolicyRule V)) :=
  if rule.capabilities = [] ∨ rule.resources = [] then
    .error "policy must name at least one capability and resource pattern"
  else if rule.id ∈ rules.map PolicyRule.id then .error "duplicate policy id"
  else .ok ((rules ++ [rule]).insertionSort before)

def conditionHolds (actual : V) : Wanted V → Except String Bool
  | .value wanted => .ok (lib.equal actual wanted)
  | .sequence wanted => .ok (wanted.any (lib.equal actual))
  | .set wanted => if lib.hashable actual then .ok (wanted.any (lib.equal actual)) else .error "TypeError"

def conditionsMatch (actual : List (String × V)) : List (String × Wanted V) → Except String Bool
  | [] => .ok true
  | (key, wanted) :: expected =>
    match conditionHolds lib ((actual.lookup key).getD lib.null) wanted with
    | .error e => .error e
    | .ok false => .ok false
    | .ok true => conditionsMatch actual expected

/-- What is asked of the rules. -/
structure Question (V : Type) where
  trustDomain : TrustDomain
  capability : String
  resource : String
  context : List (String × V)

def ruleMatches (question : Question V) (rule : PolicyRule V) : Except String Bool :=
  if rule.trustDomain ≠ question.trustDomain then .ok false
  else if !rule.capabilities.any (fnmatchcase question.capability) then .ok false
  else if !rule.resources.any (fnmatchcase question.resource) then .ok false
  else conditionsMatch lib question.context rule.conditions

/-- The ids of the matching rules that allow, and of those that deny. -/
def matched (question : Question V) : List (PolicyRule V) → Except String (List String × List String)
  | [] => .ok ([], [])
  | rule :: rules =>
    match ruleMatches lib question rule, matched question rules with
    | .error e, _ => .error e
    | .ok _, .error e => .error e
    | .ok false, .ok found => .ok found
    | .ok true, .ok (allow, deny) =>
      if rule.effect = .deny then .ok (allow, rule.id :: deny) else .ok (rule.id :: allow, deny)

def evaluate (rules : List (PolicyRule V)) (granted : List String) (question : Question V) :
    Except String AuthorizationDecision :=
  if question.capability ∉ granted then
    .ok ⟨false, "CAPABILITY_NOT_GRANTED", "session does not carry the requested capability", []⟩
  else
    match matched lib question rules with
    | .error e => .error e
    | .ok (allow, deny) =>
      if deny ≠ [] then .ok ⟨false, "POLICY_DENY", "an explicit deny policy matched", deny ++ allow⟩
      else if allow ≠ [] then .ok ⟨true, "ALLOW", "capability and allow policy matched", allow⟩
      else .ok ⟨false, "POLICY_DEFAULT_DENY", "no allow policy matched", []⟩

end Evaluation

end Arenyxa.Security

/-! The security kernel: it issues sessions, and decides about protected operations. -/

universe v

namespace Arenyxa.Security

open Audit (AuditEvent)

structure SecurityKernel (V : Type) where
  state : SecurityState
  catalog : CapabilityCatalog
  policy : List (PolicyRule V)

/-- A request for a protected operation, at a time and with the ids drawn for it. -/
structure Request (V : Type) where
  session : Option (Session V)
  capability : String
  resource : String
  context : List (String × V)
  now : Int
  correlation : String
  eventId : String
  eventTime : String

section Deciding

variable {V : Type} (lib : Library V) (kernel : SecurityKernel V)

def grantAll (trustDomain : TrustDomain) : List String → Except String (List String)
  | [] => .ok []
  | capability :: capabilities =>
    match kernel.catalog capability with
    | none => .error "KeyError"
    | some definition =>
      if definition.trustDomain ≠ trustDomain then .error "TRUST_DOMAIN_VIOLATION"
      else (grantAll trustDomain capabilities).map (definition.name :: ·)

def deviceGeneration (trustDomain : TrustDomain) (deviceId : String) : Except String Int :=
  if deviceId = "" then .ok 0
  else
    match kernel.state.devices deviceId with
    | none => .error "DEVICE_INVALID"
    | some device =>
      if device.revoked then .error "DEVICE_INVALID"
      else if device.trustDomain ≠ trustDomain then .error "TRUST_DOMAIN_VIOLATION"
      else .ok device.generation

/-- A session for an identity, under an id that was drawn for it. -/
def issueSession (identityId sessionId : String) (capabilities : List String) (deviceId : String) (ttl now : Int)
    (metadata : List (String × V)) : Except String (Session V) :=
  match kernel.state.identities identityId with
  | none => .error "IDENTITY_INVALID"
  | some identity =>
    if !identity.enabled then .error "IDENTITY_INVALID"
    else if ttl < 1 ∨ 24 * 60 * 60 < ttl then .error "session TTL must be within 1 second and 24 hours"
    else do
      let granted ← grantAll kernel identity.principal.trustDomain capabilities
      let generation ← deviceGeneration kernel identity.principal.trustDomain deviceId
      return {
        id := sessionId
        principalId := identity.principal.id
        identityId := identity.id
        trustDomain := identity.principal.trustDomain
        issuedAt := lib.isoformat now
        expiresAt := lib.isoformat (now + ttl * 1000000)
        identityGeneration := identity.generation
        deviceId := deviceId
        deviceGeneration := generation
        grantedCapabilities := granted.dedup.insertionSort (· ≤ ·)
        metadata := metadata
      }

def rootClaimed (session : Session V) : Bool :=
  session.trustDomain = .developer && session.grantedCapabilities.contains "platform.root"

def rootIntegrity (session : Session V) : Bool :=
  ((session.metadata.lookup "root_integrity_verified").map lib.isTrue).getD false

/-- The decision about a valid session. -/
def decideFor (session : Session V) (request : Request V) : Except String AuthorizationDecision :=
  match kernel.catalog request.capability with
  | none => .ok ⟨false, "CAPABILITY_UNKNOWN", "capability is not registered", []⟩
  | some definition =>
    if rootClaimed session && !rootIntegrity lib session then
      .ok ⟨false, "ROOT_INTEGRITY_REQUIRED",
        "platform Root authority requires a verified Root integrity projection", []⟩
    else if rootClaimed session && rootIntegrity lib session && definition.trustDomain ∈ [.personal, .developer] then
      .ok ⟨true, "PLATFORM_ROOT_ALLOW", "verified Root Developer platform authority", []⟩
    else if definition.trustDomain ≠ session.trustDomain then
      let code :=
        if rootClaimed session && rootIntegrity lib session && definition.trustDomain = .enterprise then
          "ROOT_ENTERPRISE_BOUNDARY"
        else "TRUST_DOMAIN_VIOLATION"
      .ok ⟨false, code, "capability belongs to another trust domain", []⟩
    else
      evaluate lib kernel.policy session.grantedCapabilities
        ⟨session.trustDomain, request.capability, request.resource, request.context⟩

def decision (request : Request V) : Except String AuthorizationDecision :=
  match request.session with
  | none => .ok ⟨false, "SESSION_REQUIRED", "protected operation requires a session", []⟩
  | some session =>
    let validation := validate lib kernel.state session request.now
    if !validation.valid then .ok ⟨false, validation.code, validation.reason, []⟩
    else decideFor lib kernel session request

def TrustDomain.value : TrustDomain → String
  | .personal => "personal"
  | .developer => "developer"
  | .enterprise => "enterprise"

def clip (length : Nat) (t : String) : String := String.ofList (t.toList.take length)

def capabilityDomainOrPersonal (capability : String) : TrustDomain :=
  match kernel.catalog capability with
  | none => .personal
  | some definition => definition.trustDomain

/-- The record of a decision. -/
def auditEvent (request : Request V) (decision : AuthorizationDecision) : AuditEvent where
  id := request.eventId
  actor := clip 256 (match request.session with | none => "anonymous" | some session => session.principalId)
  action := clip 256 request.capability
  resource := clip 4096 request.resource
  decision := if decision.allowed then "allow" else "deny"
  trustDomain := match request.session with
    | none => (capabilityDomainOrPersonal kernel request.capability).value
    | some session => session.trustDomain.value
  device := clip 256 (match request.session with | none => "" | some session => session.deviceId)
  time := request.eventTime
  correlationId := clip 256 request.correlation
  reason := clip 512 decision.code

/-- What happens in the course of a protected operation. -/
inductive Happening
  | emitted (event : AuditEvent)
  | ran

variable (emit : AuditEvent → Except String Unit)

def authorize (request : Request V) : List Happening × Except String AuthorizationDecision :=
  match decision lib kernel request with
  | .error e => ([], .error e)
  | .ok decision =>
    match emit (auditEvent kernel request decision) with
    | .error e => ([], .error e)
    | .ok () => ([.emitted (auditEvent kernel request decision)], .ok decision)

def require (request : Request V) : List Happening × Except String AuthorizationDecision :=
  match authorize lib kernel emit request with
  | (trace, .error e) => (trace, .error e)
  | (trace, .ok decision) =>
    if !decision.allowed then (trace, .error "AUTHORIZATION_DENIED") else (trace, .ok decision)

def execute {T : Type v} (request : Request V) (operation : Except String T) : List Happening × Except String T :=
  match require lib kernel emit request with
  | (trace, .error e) => (trace, .error e)
  | (trace, .ok _) => (trace ++ [.ran], operation)

end Deciding

section Issuing

variable {V : Type} {lib : Library V} {kernel : SecurityKernel V} {identityId sessionId deviceId : String}
  {capabilities : List String} {ttl now : Int} {metadata : List (String × V)} {session : Session V}

theorem issueSession_ok
    (done : issueSession lib kernel identityId sessionId capabilities deviceId ttl now metadata = .ok session) :
    ∃ identity granted generation, kernel.state.identities identityId = some identity ∧
      identity.enabled = true ∧ grantAll kernel identity.principal.trustDomain capabilities = .ok granted ∧
      session = {
        id := sessionId
        principalId := identity.principal.id
        identityId := identity.id
        trustDomain := identity.principal.trustDomain
        issuedAt := lib.isoformat now
        expiresAt := lib.isoformat (now + ttl * 1000000)
        identityGeneration := identity.generation
        deviceId := deviceId
        deviceGeneration := generation
        grantedCapabilities := granted.dedup.insertionSort (· ≤ ·)
        metadata := metadata } := by
  unfold issueSession at done
  split at done
  next => cases done
  next identity found =>
    split at done
    next => cases done
    next enabled =>
      split at done
      next => cases done
      next =>
        dsimp only [bind, Except.bind] at done
        split at done
        next => cases done
        next granted its =>
          split at done
          next => cases done
          next generation _ =>
            cases done
            exact ⟨identity, granted, generation, found, by simpa using enabled, its, rfl⟩

end Issuing

end Arenyxa.Security
