import Arenyxa.Enterprise.Atomicity
import Arenyxa.Security.Authorization

/-! The session of the local enterprise: how it is entered and left, and what it is asked for. -/

namespace Arenyxa.Enterprise.Sessions

open Security (SecurityState Library Identity PolicyRule CapabilityCatalog validate issueSession)

/-- The values of session metadata and of policy contexts. -/
inductive Value
  | text (value : String)
  | int (value : Int)
  deriving DecidableEq

abbrev Session := Security.Session Value

/-- What stands around the service. The catalog keeps the definitions under their own names. -/
structure Setup (ν ε : Type) where
  lib : Library Value
  text : Text ν
  spaces : Spaces ε
  verifies : ν → String → Bool
  catalog : CapabilityCatalog
  policy : List (PolicyRule Value)
  named : ∀ {name definition}, catalog name = some definition → definition.name = name

/-- A step-up between its check and its time stamp. -/
structure Checked where
  session : Session
  accountId : String
  checkedAt : Int

structure Service (ν ε : Type) where
  vault : Vault (Payload ν ε)
  security : SecurityState
  session : Option Session
  identityId : String
  accountId : String
  stepUpAt : Int

def stepUpMaxAge : Int := 5 * 60 * 1000000

def sessionTtl : Int := 8 * 60 * 60

section Methods

variable {ν ε : Type} (setup : Setup ν ε) (s : Service ν ε)

def Setup.kernel (security : SecurityState) : Security.SecurityKernel Value :=
  ⟨security, setup.catalog, setup.policy⟩

def authGeneration (session : Session) : Int :=
  match session.metadata.lookup "auth_generation" with
  | some (.int n) => n
  | _ => 0

/-- `_session_is_current` -/
def sessionIsCurrent (security : SecurityState) (session : Session) (payload : Payload ν ε) (accountId : String)
    (now : Int) : Bool :=
  (validate setup.lib security session now).valid &&
    match payload.accounts.get? accountId with
    | none => false
    | some account => account.enabled && authGeneration session = account.authGeneration

/-- `_retire` -/
def retire (security : SecurityState) (session : Option Session) (identityId : String) : SecurityState :=
  let revoked := match session with | none => security | some session => security.revokeSession session.id
  let removed := if identityId = "" then revoked else revoked.removeIdentity identityId
  match session with | none => removed | some session => removed.forgetSessionRevocation session.id

def Service.clear : Service ν ε := { s with session := none, identityId := "", accountId := "", stepUpAt := 0 }

def Service.logout : Service ν ε :=
  match s.session with
  | none => s.clear
  | some session => { s.clear with security := retire s.security (some session) s.identityId }

def Service.lock : Service ν ε := { s.logout with vault := { s.vault with live := none } }

/-- `unlock`, where the vault opens. -/
def Service.unlock : Service ν ε := { s with vault := { s.vault with live := some s.vault.durable } }

def Service.status (now : Int) : Service ν ε :=
  match s.vault.live, s.session with
  | some payload, some session =>
    if sessionIsCurrent setup s.security session payload s.accountId now then s else s.logout
  | _, _ => s

def accountByUsername (payload : Payload ν ε) (username : String) : Option (Account ν) :=
  payload.accounts.rows.find? fun account =>
    setup.text.casefold account.username = setup.text.casefold (setup.text.strip username)

/-- `_permissions_for_account` -/
def permissionsForAccount (payload : Payload ν ε) (account : Account ν) : List String :=
  (account.roles.flatMap fun roleId => ((payload.roles.get? roleId).map Role.permissions).getD []).dedup

/-- What a login comes to. -/
inductive Entry (ν : Type)
  | refused
  /-- The session was issued, and taken back. -/
  | rolledBack (session : Session)
  | entered (session : Session) (account : Account ν) (permissions : List String)

/-- A login with the ids drawn for it, and what happens around it. -/
structure Login where
  username : String
  password : String
  identityId : String
  principalId : String
  sessionId : String
  now : Int
  throttled : Bool
  saves : Bool
  audits : Bool

def Service.login (login : Login) : Service ν ε × Entry ν :=
  match login.throttled, s.vault.live with
  | true, _ => (s, .refused)
  | false, none => (s, .refused)
  | false, some payload =>
    match accountByUsername setup payload login.username with
    | none => (s, .refused)
    | some account =>
      if !account.enabled || !setup.verifies account.verifier login.password then (s, .refused)
      else
        match s.security.registerIdentity ⟨login.identityId, ⟨login.principalId, .enterprise⟩, true, 1⟩ with
        | .error _ => (s, .refused)
        | .ok security =>
          let permissions := permissionsForAccount payload account
          match issueSession setup.lib (setup.kernel security) login.identityId login.sessionId permissions ""
              sessionTtl login.now [("surface", .text "local-enterprise"), ("account_id", .text account.id),
                ("auth_generation", .int account.authGeneration)] with
          | .error _ => ({ s with security := security }, .refused)
          | .ok session =>
            if !login.saves then
              ({ s with security := retire security (some session) login.identityId }, .rolledBack session)
            else if !login.audits then
              ({ s with
                  security := retire security (some session) login.identityId
                  vault := ⟨some payload, payload⟩ }, .rolledBack session)
            else
              ({ vault := ⟨some payload, payload⟩
                 security := retire security s.session s.identityId
                 session := some session
                 identityId := login.identityId
                 accountId := account.id
                 stepUpAt := 0 }, .entered session account permissions)

/-- `require`: whether it lets an operation pass. -/
def Service.require (capability resource : String) (now : Int) : Bool :=
  match s.vault.live, s.session with
  | some payload, some session =>
    sessionIsCurrent setup s.security session payload s.accountId now &&
      Security.flag (Security.decision setup.lib (setup.kernel s.security) ⟨some session, capability, resource,
        [("surface", .text "local-enterprise")], now, "", "", ""⟩) = some true
  | _, _ => false

/-- `_require_step_up` -/
def Service.requireStepUp (monotonic : Int) : Bool :=
  s.stepUpAt ≠ 0 && monotonic - s.stepUpAt ≤ stepUpMaxAge

/-- The first part of `step_up`, up to the check of the password. -/
def Service.checkStepUp (password : String) (now monotonic : Int) : Option Checked :=
  match s.vault.live, s.session with
  | some payload, some session =>
    if sessionIsCurrent setup s.security session payload s.accountId now then
      match payload.accounts.get? s.accountId with
      | none => none
      | some account =>
        if setup.verifies account.verifier password then some ⟨session, s.accountId, monotonic⟩ else none
    else none
  | _, _ => none

/-- The accounts whose session a mutation ends. -/
def affected (payload : Payload ν ε) : Mutation ν ε → List String
  | .setAccountEnabled accountId _ => [accountId]
  | .setAccountRoles accountId _ => [accountId]
  | .changePassword accountId _ => [accountId]
  | .deleteAccount accountId => [accountId]
  | .updateRole roleId _ _ =>
    (payload.accounts.rows.filter fun account => account.roles.contains roleId).map Account.id
  | _ => []

/-- The capability that a mutation requires, and the resource. An extension names its own. -/
def asked (own : String × String) : Mutation ν ε → String × String
  | .createRole .. => ("enterprise.policy.modify", "enterprise:roles")
  | .updateRole .. => ("enterprise.policy.modify", "enterprise:roles")
  | .deleteRole .. => ("enterprise.policy.modify", "enterprise:roles")
  | .mutateExtension .. => own
  | .serviceMutateExtension .. => own
  | _ => ("enterprise.account.manage", "enterprise:accounts")

/-- A mutation with what it asks for and what its clocks read. -/
structure Change (ν ε : Type) where
  mutation : Mutation ν ε
  own : String × String
  weather : Weather
  now : Int
  monotonic : Int

def Service.call (change : Change ν ε) : Call ν ε where
  session := ⟨s.accountId, s.require setup (asked change.own change.mutation).1 (asked change.own change.mutation).2
    change.now, s.requireStepUp change.monotonic⟩
  mutation := change.mutation
  weather := change.weather

/-- A commit asks for the status between its save and its audit record. -/
def Service.saved (change : Change ν ε) : Service ν ε :=
  match s.vault.live, (s.call setup change).admission with
  | some payload, .ok () =>
    match (s.call setup change).edit setup.text setup.spaces payload with
    | (_, .error _) => s
    | (edited, .ok _) =>
      let format := format setup.text setup.spaces.valid
      if format.valid edited && change.weather.saves then
        { s with vault := { s.vault with live := some (format.revise edited) } }.status setup change.now
      else s
  | _, _ => s

/-- A mutation of the identity service, its permission checks answered by the session. -/
def Service.mutate (change : Change ν ε) : Service ν ε :=
  match (s.call setup change).run setup.text setup.spaces s.vault with
  | (vault, .error refusal) =>
    let left := { s.saved setup change with vault := vault }
    if refusal = .rollbackFailed then left.logout else left
  | (vault, .ok _) =>
    let left := { s.saved setup change with vault := vault }
    if left.accountId ∈ (s.vault.live.map fun payload => affected payload change.mutation).getD [] then left.logout
    else left

end Methods

/-- A login that succeeded. -/
structure Entered where
  session : Session
  accountId : String
  authGeneration : Int
  permissions : List String

/-- The service with what has happened to it: the ids that were drawn, the last login that succeeded, the sessions
that were ended, the checks of passwords, and the step-ups that wait for their stamp. -/
structure World (ν ε : Type) where
  service : Service ν ε
  drawn : List String
  lastLogin : Option Entered
  ended : List Session
  verified : List Checked
  pending : List Checked

inductive Step (ν ε : Type)
  | login (login : Login)
  | logout
  | lock
  | unlock
  | status (now : Int)
  | mutate (change : Change ν ε)
  | checkStepUp (password : String) (now monotonic : Int)
  | stampStepUp (i : Nat) (monotonic : Int)

section Steps

variable {ν ε : Type} (setup : Setup ν ε) (w : World ν ε)

/-- A method that may end the session. -/
def World.leave (service : Service ν ε) : World ν ε :=
  { w with
    service := service
    ended := if service.session.isNone then w.service.session.toList ++ w.ended else w.ended }

/-- One step. An id is never drawn twice, and is not empty. -/
def World.step : Step ν ε → World ν ε
  | .login login =>
    if login.identityId = "" ∨ login.identityId ∈ w.drawn then w
    else
      let drawn := login.identityId :: w.drawn
      match w.service.login setup login with
      | (service, .refused) => { w with service := service, drawn := drawn }
      | (service, .rolledBack session) =>
        { w with service := service, drawn := drawn, ended := session :: w.ended }
      | (service, .entered session account permissions) =>
        { w with
          service := service
          drawn := drawn
          lastLogin := some ⟨session, account.id, account.authGeneration, permissions⟩
          ended := w.service.session.toList ++ w.ended }
  | .logout => w.leave w.service.logout
  | .lock => w.leave w.service.lock
  | .unlock => { w with service := w.service.unlock }
  | .status now => w.leave (w.service.status setup now)
  | .mutate change => w.leave (w.service.mutate setup change)
  | .checkStepUp password now monotonic =>
    match w.service.checkStepUp setup password now monotonic with
    | none => w
    | some checked => { w with verified := checked :: w.verified, pending := w.pending ++ [checked] }
  | .stampStepUp i monotonic =>
    match w.pending[i]? with
    | none => w
    | some _ => { w with service := { w.service with stepUpAt := monotonic }, pending := w.pending.eraseIdx i }

def World.run (steps : List (Step ν ε)) : World ν ε := steps.foldl (World.step setup) w

end Steps

end Arenyxa.Enterprise.Sessions
