import Arenyxa.Enterprise.Vault
import Arenyxa.Lib.SortedSet
import Arenyxa.Lib.Table
import Mathlib.Data.String.Basic

/-! The accounts and roles of the vault: what `validate_payload` accepts of them, and the
operations that edit them. -/

namespace Arenyxa.Enterprise

open SortedSet (sortedSet)

def superAdmin : String := "super_admin"

def maxRoles : Nat := 128

def maxRolePermissions : Nat := 32

def permissionCatalog : List String :=
  ["enterprise.account.manage", "enterprise.policy.modify", "enterprise.audit.read",
    "enterprise.enrollment.manage", "enterprise.device.manage", "enterprise.coordinator.manage",
    "enterprise.workspace.manage", "enterprise.approval.manage", "enterprise.quota.manage",
    "dataset.read", "dataset.write", "dataset.export",
    "workflow.execute", "workflow.publish", "enterprise.capture.run", "schedule.manage", "worker.use",
    "enterprise.worker.manage", "enterprise.server.manage", "enterprise.remote_ops",
    "enterprise.vault.manage", "enterprise.proxy.manage", "enterprise.mitm.manage",
    "enterprise.packet.analyze", "enterprise.network.observe"]

structure Role where
  id : String
  title : String
  builtin : Bool
  permissions : List String

instance : Keyed Role String := ⟨Role.id⟩

variable {ν ε : Type}

/-- The verifier of the password is a type of its own. -/
structure Account (ν : Type) where
  id : String
  username : String
  displayName : String
  verifier : ν
  roles : List String
  enabled : Bool
  authGeneration : Nat

instance : Keyed (Account ν) String := ⟨Account.id⟩

/-- The payload, with everything that is neither an account nor a role in `rest`. The times that
a save or a commit writes are left out. -/
structure Payload (ν ε : Type) where
  revision : Nat
  generation : Nat
  accounts : Table (Account ν)
  roles : Table Role
  rest : ε

/-- Python's text methods and the password functions. -/
structure Text (ν : Type) where
  strip : String → String
  casefold : String → String
  hasSpace : String → Bool
  passwordVerifier : String → Option ν
  verifierValid : ν → Bool
  strip_idem : ∀ s, strip (strip s) = strip s
  casefold_idem : ∀ s, casefold (casefold s) = casefold s
  verifier_valid : ∀ password verifier, passwordVerifier password = some verifier →
    verifierValid verifier = true

/-- The caller of an operation. `admitted` is what `require` answers, and `stepUp` whether the
step-up of the session is recent. -/
structure Caller where
  accountId : String
  admitted : Bool
  stepUp : Bool

section Validation

variable (text : Text ν)

def identifierChars (s : String) : Bool :=
  s.toList.all fun c => c.isAlphanum || c = '.' || c = '_' || c = '-'

def Role.valid (role : Role) : Bool :=
  role.id ≠ "" && role.id.length ≤ 64 && text.strip role.id = role.id && identifierChars role.id &&
    text.strip role.title ≠ "" && (text.strip role.title).length ≤ 160 &&
    role.permissions.length ≤ maxRolePermissions && role.permissions.Nodup &&
    role.permissions.all fun permission => permissionCatalog.contains permission

def rolesKnown (roles : List String) (catalog : Table Role) : Bool :=
  roles ≠ [] && roles.all fun role => (catalog.get? role).isSome

def Account.valid (catalog : Table Role) (account : Account ν) : Bool :=
  text.casefold account.username ≠ "" && rolesKnown account.roles catalog &&
    1 ≤ account.authGeneration && text.verifierValid account.verifier

/-- An enabled Super Administrator. -/
def Account.governs (account : Account ν) : Bool :=
  account.enabled && account.roles.contains superAdmin

/-- `validate_payload`, with the checks of the other parts as one. -/
def validatePayload (restValid : ε → Bool) (payload : Payload ν ε) : Bool :=
  restValid payload.rest &&
    payload.roles.rows ≠ [] && payload.roles.rows.length ≤ maxRoles &&
    payload.roles.rows.all (Role.valid text) &&
    (payload.accounts.rows.map fun account => text.casefold account.username).Nodup &&
    payload.accounts.rows.all (Account.valid text payload.roles) &&
    payload.accounts.rows.any Account.governs

def format (restValid : ε → Bool) : Format (Payload ν ε) where
  valid := validatePayload text restValid
  revise payload :=
    { payload with revision := payload.revision + 1, generation := payload.generation + 1 }

end Validation

section Guards

variable (session : Caller)

/-- `_current_account_is_super_admin` -/
def currentAccountIsSuperAdmin (payload : Payload ν ε) : Bool :=
  match payload.accounts.get? session.accountId with
  | none => false
  | some account => account.governs

/-- `_guard_super_admin_assignment` -/
def guardSuperAdminAssignment (before after : List String) (payload : Payload ν ε) : Option Refusal :=
  if before.contains superAdmin = after.contains superAdmin then none
  else if !session.stepUp then some .stepUpRequired
  else if !currentAccountIsSuperAdmin session payload then some .superAdminRequired
  else none

/-- `_guard_super_admin_target` -/
def guardSuperAdminTarget (account : Account ν) (payload : Payload ν ε) : Option Refusal :=
  if account.roles.contains superAdmin && !currentAccountIsSuperAdmin session payload then
    some .superAdminRequired
  else none

/-- `self.require`, and `_require_step_up` where the operation has it. -/
def admission (stepUp : Bool) : Except Refusal Unit :=
  if !session.admitted then .error .denied
  else if stepUp && !session.stepUp then .error .stepUpRequired
  else .ok ()

end Guards

section Operations

variable (text : Text ν) (session : Caller)

def Payload.setAccount (payload : Payload ν ε) (account : Account ν) : Payload ν ε :=
  { payload with accounts := payload.accounts.assign account }

def usernameInvalid (username : String) : Bool :=
  username = "" || 128 < username.length || text.hasSpace username

/-- The record of a new account. -/
def newAccount (accountId username displayName : String) (roles : List String) (verifier : ν) :
    Account ν where
  id := accountId
  username := username
  displayName := if text.strip displayName = "" then username else text.strip displayName
  verifier := verifier
  roles := sortedSet roles
  enabled := true
  authGeneration := 1

/-- The checks of `_create_account_locked`, with the identity that it draws. -/
def checkAccount (accountId username displayName password : String) (roles : List String)
    (payload : Payload ν ε) : Except Refusal (Account ν) :=
  let normalized := text.casefold (text.strip username)
  if usernameInvalid text normalized then .error .username
  else if payload.accounts.rows.any fun account => text.casefold account.username = normalized then
    .error .usernameExists
  else if !rolesKnown roles payload.roles then .error .role
  else match guardSuperAdminAssignment session [] roles payload, text.passwordVerifier password with
    | some refusal, _ => .error refusal
    | none, none => .error .password
    | none, some verifier => .ok (newAccount text accountId normalized displayName roles verifier)

def createAccount (accountId username displayName password : String) (roles : List String) :
    Edit (Payload ν ε) (List String) :=
  Edit.guarded (checkAccount text session accountId username displayName password roles)
    (fun account payload => payload.setAccount account) (fun account => [account.id])

/-- A row of a member batch, with the identity and the password that are drawn for it. -/
structure MemberRow where
  accountId : String
  username : String
  displayName : String
  roles : List String
  password : String
  generated : String

/-- The account of one batch row, given the usernames that are taken. -/
def batchAccount (row : MemberRow) (seen : List String) (payload : Payload ν ε) :
    Except Refusal (Account ν) :=
  let username := text.casefold (text.strip row.username)
  let roles := sortedSet (if row.roles = [] then ["member"] else row.roles)
  let password := if row.password = "" then row.generated else row.password
  if usernameInvalid text username || seen.contains username then .error .username
  else if !rolesKnown roles payload.roles then .error .role
  else match guardSuperAdminAssignment session [] roles payload, text.passwordVerifier password with
    | some refusal, _ => .error refusal
    | none, none => .error .password
    | none, some verifier => .ok (newAccount text row.accountId username row.displayName roles verifier)

/-- The rows of a batch are checked and written one after the other. -/
def bulkRows : List MemberRow → List String → List String → Edit (Payload ν ε) (List String)
  | [], _, created, payload => (payload, .ok created)
  | row :: rest, seen, created, payload =>
    match batchAccount text session row seen payload with
    | .error refusal => (payload, .error refusal)
    | .ok account =>
      bulkRows rest (account.username :: seen) (created ++ [account.id]) (payload.setAccount account)

def takenUsernames (payload : Payload ν ε) : List String :=
  payload.accounts.rows.map fun account => text.casefold account.username

def bulkCreateAccounts (rows : List MemberRow) : Edit (Payload ν ε) (List String) :=
  fun payload => bulkRows text session rows (takenUsernames text payload) [] payload

/-- The size of a batch is checked before everything else. -/
def batchAdmission (rows : List MemberRow) : Except Refusal Unit :=
  if rows = [] || 1000 < rows.length then .error .batch else admission session true

/-- Whether another enabled account is a Super Administrator. -/
def anotherGoverns (payload : Payload ν ε) (account : Account ν) : Bool :=
  payload.accounts.rows.any fun other => other.governs && other.id ≠ account.id

/-- The account that an operation names, once the target guard has passed. -/
def targetAccount (accountId : String) (payload : Payload ν ε) : Except Refusal (Account ν) :=
  match payload.accounts.get? accountId with
  | none => .error .account
  | some account =>
    match guardSuperAdminTarget session account payload with
    | some refusal => .error refusal
    | none => .ok account

def setAccountEnabled (accountId : String) (enabled : Bool) : Edit (Payload ν ε) (List String) :=
  Edit.guarded
    (fun payload => match targetAccount session accountId payload with
      | .error refusal => .error refusal
      | .ok account =>
        if !enabled && account.roles.contains superAdmin && !anotherGoverns payload account then
          .error .lastSuperAdmin
        else .ok account)
    (fun account payload => payload.setAccount
      { account with enabled := enabled, authGeneration := account.authGeneration + 1 })
    (fun _ => [])

def setAccountRoles (accountId : String) (roles : List String) : Edit (Payload ν ε) (List String) :=
  Edit.guarded
    (fun payload =>
      if !rolesKnown roles payload.roles then .error .role
      else match payload.accounts.get? accountId with
        | none => .error .account
        | some account =>
          match guardSuperAdminAssignment session account.roles roles payload with
          | some refusal => .error refusal
          | none =>
            if account.roles.contains superAdmin && !roles.contains superAdmin && account.enabled &&
                !anotherGoverns payload account then
              .error .lastSuperAdmin
            else .ok account)
    (fun account payload => payload.setAccount
      { account with roles := sortedSet roles, authGeneration := account.authGeneration + 1 })
    (fun _ => [])

def changePassword (accountId password : String) : Edit (Payload ν ε) (List String) :=
  Edit.guarded
    (fun payload => match targetAccount session accountId payload, text.passwordVerifier password with
      | .error refusal, _ => .error refusal
      | .ok _, none => .error .password
      | .ok account, some verifier => .ok { account with verifier := verifier })
    (fun account payload => payload.setAccount
      { account with authGeneration := account.authGeneration + 1 })
    (fun _ => [])

def deleteAccount (accountId : String) : Edit (Payload ν ε) (List String) :=
  Edit.guarded
    (fun payload => match targetAccount session accountId payload with
      | .error refusal => .error refusal
      | .ok account =>
        if account.governs && !anotherGoverns payload account then .error .lastSuperAdmin
        else .ok account)
    (fun account payload => { payload with accounts := payload.accounts.erase account.id })
    (fun _ => [])

/-- `_normalize_role` -/
def normalizeRole (roleId title : String) (permissions : List String) : Except Refusal Role :=
  let key := text.strip roleId
  let label := text.strip title
  let normalized := sortedSet ((permissions.map text.strip).filter (· ≠ ""))
  if key = "" || 64 < key.length || !identifierChars key then .error .role
  else if label = "" || 160 < label.length then .error .role
  else if maxRolePermissions < normalized.length ||
      !normalized.all fun permission => permissionCatalog.contains permission then .error .role
  else .ok ⟨key, label, false, normalized⟩

def createRole (roleId title : String) (permissions : List String) :
    Edit (Payload ν ε) (List String) :=
  Edit.guarded
    (fun payload => match normalizeRole text roleId title permissions with
      | .error refusal => .error refusal
      | .ok role => if (payload.roles.get? role.id).isSome then .error .roleExists else .ok role)
    (fun role payload => { payload with roles := payload.roles.assign role })
    (fun role => [role.id])

/-- The role that an update or a deletion may touch. -/
def customRole (roleId : String) (payload : Payload ν ε) : Except Refusal Role :=
  match payload.roles.get? roleId with
  | none => .error .roleMissing
  | some role => if role.builtin then .error .builtinRole else .ok role

/-- An update raises the generation of every account that has the role. -/
def Account.bump (roleId : String) (account : Account ν) : Account ν :=
  if account.roles.contains roleId then { account with authGeneration := account.authGeneration + 1 }
  else account

theorem Account.key_bump (roleId : String) (account : Account ν) :
    Keyed.key (account.bump roleId) = Keyed.key account := by
  rw [Account.bump]
  split
  next => rfl
  next => rfl

/-- The identity of a stored role is stripped, so that the update keeps it. -/
def updateRole (roleId title : String) (permissions : List String) :
    Edit (Payload ν ε) (List String) :=
  Edit.guarded
    (fun payload => match customRole roleId payload, normalizeRole text roleId title permissions with
      | .error refusal, _ => .error refusal
      | .ok _, .error refusal => .error refusal
      | .ok current, .ok role => .ok { role with id := current.id })
    (fun role payload =>
      { payload with
        roles := payload.roles.assign role
        accounts := payload.accounts.updateWhere (fun _ => true) (Account.bump role.id)
          (Account.key_bump role.id) })
    (fun _ => [])

def deleteRole (roleId : String) : Edit (Payload ν ε) (List String) :=
  Edit.guarded
    (fun payload => match customRole roleId payload with
      | .error refusal => .error refusal
      | .ok role =>
        if payload.accounts.rows.any fun account => account.roles.contains roleId then
          .error .roleInUse
        else .ok role)
    (fun role payload => { payload with roles := payload.roles.erase role.id })
    (fun _ => [])

end Operations

end Arenyxa.Enterprise

/-! What the vault holds besides accounts and roles: the registered devices, and the state of
governance and enrollment. A namespace that is absent is one with empty tables. -/

namespace Arenyxa.Enterprise

/-- An instant, in microseconds. -/
abbrev Instant := Nat

def seconds (n : Nat) : Instant := 1000000 * n

/-- `_future_iso`, with the bounds that its callers put on the time to live. -/
def expiry (now : Instant) (least most : Nat) (ttl : Int) : Instant :=
  now + seconds (max 60 (min (most : Int) (max least ttl))).toNat

section Governance

structure Workspace where
  id : String
  title : String
  ownerAccountId : String
  retentionDays : Nat

structure Team where
  id : String
  workspaceId : String
  title : String
  members : List String

/-- The limits of a metric and the permissions of a role are looked up in lists. -/
structure Resource where
  id : String
  kind : String
  externalId : String
  workspaceId : String
  ownerAccountId : String
  teamId : String
  scope : String
  retentionDays : Nat
  quota : List (String × Nat)
  grants : List (String × List String)

inductive ApprovalStatus
  | pending | approved | rejected | expired | consumed
  deriving DecidableEq

structure Approval where
  id : String
  action : String
  resourceId : String
  requesterAccountId : String
  approverAccountId : String
  status : ApprovalStatus
  reason : String
  expiresAt : Instant

instance : Keyed Workspace String := ⟨Workspace.id⟩
instance : Keyed Team String := ⟨Team.id⟩
instance : Keyed Resource String := ⟨Resource.id⟩
instance : Keyed Approval String := ⟨Approval.id⟩

/-- The usage of a metric that is not there is zero. -/
structure Governance where
  workspaces : Table Workspace
  teams : Table Team
  resources : Table Resource
  approvals : Table Approval
  quotaUsage : String → String → Nat

def Governance.empty : Governance := ⟨.empty, .empty, .empty, .empty, fun _ _ => 0⟩

def maxWorkspaces : Nat := 512

def maxTeams : Nat := 1024

def maxResources : Nat := 20000

def maxApprovals : Nat := 10000

/-- The `_state` of governance accepts. -/
def Governance.accepted (g : Governance) : Bool :=
  g.workspaces.rows.length ≤ maxWorkspaces && g.teams.rows.length ≤ maxTeams &&
    g.resources.rows.length ≤ maxResources && g.approvals.rows.length ≤ maxApprovals

end Governance

section Enrollment

inductive DeviceStatus
  | active | revoked

structure Device where
  id : String
  accountId : String
  username : String
  publicKey : String
  fingerprint : String
  status : DeviceStatus
  authGeneration : Nat

inductive CampaignStatus
  | active | revoked
  deriving DecidableEq

structure Campaign where
  id : String
  title : String
  expiresAt : Instant
  status : CampaignStatus
  credentialIds : List String

inductive CredentialState
  | unused | used | revoked | expired
  deriving DecidableEq

structure Credential where
  id : String
  campaignId : String
  accountId : String
  username : String
  roles : List String
  expiresAt : Instant
  secretSha256 : String
  tokenSha256 : String
  state : CredentialState
  deviceId : String

instance : Keyed Device String := ⟨Device.id⟩
instance : Keyed Campaign String := ⟨Campaign.id⟩
instance : Keyed Credential String := ⟨Credential.id⟩

structure Enrollment where
  campaigns : Table Campaign
  credentials : Table Credential
  devices : Table Device

def Enrollment.empty : Enrollment := ⟨.empty, .empty, .empty⟩

def maxCampaigns : Nat := 256

def maxCredentials : Nat := 10000

def maxDevices : Nat := 10000

/-- The `_state` of enrollment accepts. -/
def Enrollment.accepted (e : Enrollment) : Bool :=
  e.campaigns.rows.length ≤ maxCampaigns && e.credentials.rows.length ≤ maxCredentials &&
    e.devices.rows.length ≤ maxDevices

end Enrollment

structure Extensions where
  devices : Table Device
  governance : Governance
  enrollment : Enrollment

def Extensions.empty : Extensions := ⟨.empty, .empty, .empty⟩

variable {ν : Type}

def Payload.governance (payload : Payload ν Extensions) : Governance := payload.rest.governance

def Payload.enrollment (payload : Payload ν Extensions) : Enrollment := payload.rest.enrollment

def Payload.devices (payload : Payload ν Extensions) : Table Device := payload.rest.devices

def Payload.setGovernance (payload : Payload ν Extensions) (g : Governance) : Payload ν Extensions :=
  { payload with rest := { payload.rest with governance := g } }

def Payload.setEnrollment (payload : Payload ν Extensions) (e : Enrollment) : Payload ν Extensions :=
  { payload with rest := { payload.rest with enrollment := e } }

def Payload.setDevices (payload : Payload ν Extensions) (devices : Table Device) :
    Payload ν Extensions :=
  { payload with rest := { payload.rest with devices := devices } }

end Arenyxa.Enterprise
