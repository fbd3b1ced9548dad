import Arenyxa.Enterprise.Validity
import Arenyxa.Enterprise.Governance
import Arenyxa.Enterprise.Enrollment

/-! The operations on the vault: identity, governance and enrollment, each as one transaction.
Reissuing a campaign is two of them, a revocation and a creation. -/

namespace Arenyxa.Enterprise

variable {ν π ρ α : Type}

inductive Operation (ν : Type)
  | createAccount (accountId username displayName password : String) (roles : List String)
  | bulkCreateAccounts (rows : List MemberRow)
  | setAccountEnabled (accountId : String) (enabled : Bool)
  | setAccountRoles (accountId : String) (roles : List String)
  | changePassword (accountId password : String)
  | deleteAccount (accountId : String)
  | createRole (roleId title : String) (permissions : List String)
  | updateRole (roleId title : String) (permissions : List String)
  | deleteRole (roleId : String)
  | createWorkspace (workspaceId title owner : String) (retentionDays : Int)
  | createTeam (teamId workspaceId title : String) (memberAccountIds : List String)
  | registerResource (kind externalId workspaceId owner teamId scope : String) (retentionDays : Int)
      (quota : List (String × Int))
  | grantRole (resourceId roleId : String) (permissions : List String)
  | setZeroTrustPolicy (resourceId : String)
  | reserveQuota (resourceId metric : String) (amount : Int)
  | releaseQuota (resourceId metric : String) (amount : Int)
  | requestApproval (approvalId action resourceId reason : String) (ttl : Int)
  | decideApproval (approvalId : String) (approved : Bool)
  | authorizeOperation (permission resourceId approvalId metric : String) (amount : Int)
  | createCampaign (known : List (Account ν)) (campaignId title : String) (accountIds : List String)
      (draws : List Draw) (ttl : Int)
  | importMembersCsv (known : List (Account ν)) (catalog : List Role) (campaignId title : String)
      (rows : List CsvRow) (ttl : Int)
  | consume (token : Token) (device : DevicePublic) (enterpriseId accountId : String)
  | revokeCampaign (campaignId : String)
  | revokeDevice (deviceId : String)

/-- What the operations take from their surroundings. `decode` reads base64url, and `restValid` is
the bound on the size of the extensions. -/
structure Site (ν : Type) where
  text : Text ν
  sha256 : String → String
  decode : String → Option String
  root : String × String
  restValid : Extensions → Bool

structure Request (ν : Type) where
  session : Caller
  now : Instant
  operation : Operation ν
  weather : Weather

def Edit.discard (edit : Edit π ρ) : Edit π Unit :=
  fun payload => ((edit payload).1, (edit payload).2.map fun _ => ())

/-- What is asked before the mutator writes nothing. -/
def Edit.after (request : Except Refusal α) (edit : α → Edit π ρ) : Edit π ρ :=
  match request with
  | .error refusal => fun payload => (payload, .error refusal)
  | .ok a => edit a

/-- The record of the policy itself is left out. -/
def setZeroTrustPolicy (text : Text ν) (resourceId : String) : Edit (Payload ν Extensions) Unit :=
  let key := text.strip resourceId
  Edit.after (if key = "" || 256 < key.length then .error .idInvalid else .ok ()) fun _ =>
    governanceEdit
      (fun payload =>
        if (payload.governance.resources.get? key).isNone then .error .resourceMissing else .ok ())
      (fun _ g => g) fun _ => ()

/-- The metric and the amount of a quota call. -/
def quotaRequest (text : Text ν) (metric : String) (amount : Int) : Except Refusal (String × Nat) :=
  match cleanId text metric with
  | .error refusal => .error refusal
  | .ok metric => if amount < 0 then .error .quotaInvalid else .ok (metric, amount.toNat)

def Operation.stepUp : Operation ν → Bool
  | .createAccount .. => false
  | .createWorkspace .. => false
  | .createTeam .. => false
  | .registerResource .. => false
  | .reserveQuota .. => false
  | .releaseQuota .. => false
  | .requestApproval .. => false
  | .authorizeOperation .. => false
  | .consume .. => false
  | _ => true

def Request.admission (request : Request ν) : Except Refusal Unit :=
  match request.operation with
  | .bulkCreateAccounts rows => batchAdmission request.session rows
  | operation => Enterprise.admission request.session operation.stepUp

/-- An authorization that needs neither an approval nor quota writes nothing. -/
def Operation.readOnly : Operation ν → Bool
  | .authorizeOperation permission _ _ metric _ =>
    !highRiskActions.contains permission && metric = ""
  | _ => false

variable (site : Site ν)

def Request.edit (request : Request ν) : Edit (Payload ν Extensions) Unit :=
  match request.operation with
  | .createAccount accountId username displayName password roles =>
    (createAccount site.text request.session accountId username displayName password roles).discard
  | .bulkCreateAccounts rows => (bulkCreateAccounts site.text request.session rows).discard
  | .setAccountEnabled accountId enabled =>
    (setAccountEnabled request.session accountId enabled).discard
  | .setAccountRoles accountId roles => (setAccountRoles request.session accountId roles).discard
  | .changePassword accountId password =>
    (changePassword site.text request.session accountId password).discard
  | .deleteAccount accountId => (deleteAccount request.session accountId).discard
  | .createRole roleId title permissions => (createRole site.text roleId title permissions).discard
  | .updateRole roleId title permissions => (updateRole site.text roleId title permissions).discard
  | .deleteRole roleId => (deleteRole roleId).discard
  | .createWorkspace workspaceId title owner retentionDays =>
    (createWorkspace site.text workspaceId title owner retentionDays).discard
  | .createTeam teamId workspaceId title members =>
    (createTeam site.text teamId workspaceId title members).discard
  | .registerResource kind externalId workspaceId owner teamId scope retentionDays quota =>
    Edit.after (resourceRequest site.text kind externalId workspaceId owner teamId scope retentionDays
      quota) fun resource => (registerResource resource).discard
  | .grantRole resourceId roleId permissions => grantRole resourceId roleId permissions
  | .setZeroTrustPolicy resourceId => setZeroTrustPolicy site.text resourceId
  | .reserveQuota resourceId metric amount =>
    Edit.after (quotaRequest site.text metric amount) fun (metric, delta) =>
      reserveQuota resourceId metric delta
  | .releaseQuota resourceId metric amount =>
    Edit.after (cleanId site.text metric) fun metric => releaseQuota resourceId metric amount.toNat
  | .requestApproval approvalId action resourceId reason ttl =>
    Edit.after (if highRiskActions.contains action then .ok () else .error .approvalInvalid) fun _ =>
      (requestApproval request.session request.now approvalId action resourceId reason ttl).discard
  | .decideApproval approvalId approved =>
    decideApproval request.session request.now approvalId approved
  | .authorizeOperation permission resourceId approvalId metric amount =>
    Edit.after (authorizeRequest site.text permission approvalId metric amount) fun (metric, delta) =>
      authorizeOperation request.session request.now permission resourceId approvalId metric delta
  | .createCampaign known campaignId title accountIds draws ttl =>
    Edit.after (campaignIssue site.text site.root known campaignId title accountIds draws request.now
      ttl) fun issue => createCampaign site.sha256 issue
  | .importMembersCsv known catalog campaignId title rows ttl =>
    Edit.after (csvIssue site.text site.root known catalog campaignId title rows request.now ttl)
      fun (accounts, issue) => importMembers site.sha256 accounts issue
  | .consume token device enterpriseId accountId =>
    Edit.after (consumeRequest site.sha256 site.root site.decode token device enterpriseId accountId)
      fun _ => (consume site.sha256 request.now token device).discard
  | .revokeCampaign campaignId => revokeCampaign campaignId
  | .revokeDevice deviceId => revokeDevice deviceId

def Request.run (request : Request ν) (v : Vault (Payload ν Extensions)) :
    Vault (Payload ν Extensions) × Except Refusal Unit :=
  if request.operation.readOnly then
    (v, match v.live with
      | none => .error .locked
      | some payload => request.admission.bind fun _ => (request.edit site payload).2)
  else v.transact (format site.text site.restValid) request.admission (request.edit site)
    request.weather

def Site.step (v : Vault (Payload ν Extensions)) (request : Request ν) :
    Vault (Payload ν Extensions) :=
  (request.run site v).1

section Outcomes

variable {site} {request : Request ν} {v : Vault (Payload ν Extensions)}
  {payload : Payload ν Extensions}

theorem run_sealed (sealed : v.live = none) : request.run site v = (v, .error .locked) := by
  rw [Request.run]
  split
  next => simp only [sealed]
  next => rw [Vault.transact.eq_def, sealed]

theorem run_cases (live : v.live = some payload) :
    (∃ refusal, request.run site v = (v, .error refusal)) ∨
    (request.operation.readOnly = true ∧ request.run site v = (v, .ok ())) ∨
    (∃ refusal, (request.edit site payload).2 = .error refusal ∧
      request.run site v = ({ v with live := some (request.edit site payload).1 }, .error refusal)) ∨
    ((request.edit site payload).2 = .ok () ∧
      validatePayload site.text site.restValid (request.edit site payload).1 = false ∧
      request.run site v = ({ v with live := some (request.edit site payload).1 }, .error .payloadInvalid)) ∨
    ((request.edit site payload).2 = .ok () ∧
      validatePayload site.text site.restValid (request.edit site payload).1 = true ∧
      (request.run site v =
          (⟨some ((format site.text site.restValid).revise (request.edit site payload).1),
            (format site.text site.restValid).revise (request.edit site payload).1⟩, .ok ()) ∨
        (∃ durable refusal, (durable = v.durable ∨ durable = payload) ∧
          request.run site v = (⟨some payload, durable⟩, .error refusal)) ∨
        ((request.weather.audits || request.weather.restores) = false ∧
          request.run site v =
            (⟨none, (format site.text site.restValid).revise (request.edit site payload).1⟩,
              .error .rollbackFailed)))) := by
  rw [Request.run]
  split
  next readOnly =>
    rw [live]
    cases request.admission with
    | error refusal => exact .inl ⟨refusal, rfl⟩
    | ok u =>
      cases outcome : (request.edit site payload).2 with
      | error refusal => exact .inl ⟨refusal, Prod.ext rfl outcome⟩
      | ok result => exact .inr (.inl ⟨readOnly, Prod.ext rfl outcome⟩)
  next =>
    cases request.admission with
    | error refusal =>
      rw [Vault.transact.eq_def, live]
      exact .inl ⟨refusal, rfl⟩
    | ok u =>
      rcases transact_cases live (request.edit site) request.weather with
        ⟨refusal, refused, same⟩ | ⟨result, passed, invalid, same⟩ |
        ⟨result, passed, valid, same | ⟨durable, refusal, kept, same⟩ | same⟩
      · exact .inr (.inr (.inl ⟨refusal, refused, same⟩))
      · exact .inr (.inr (.inr (.inl ⟨passed, invalid, same⟩)))
      · exact .inr (.inr (.inr (.inr ⟨passed, valid, .inl same⟩)))
      · exact .inr (.inr (.inr (.inr ⟨passed, valid, .inr (.inl ⟨durable, refusal, kept, same⟩)⟩)))
      · have unfair : (request.weather.audits || request.weather.restores) = false :=
          eq_false_of_ne_true fun fair =>
            transact_unlocked live fair (congrArg (fun result => result.1.live) same)
        exact .inr (.inr (.inr (.inr ⟨passed, valid, .inr (.inr ⟨unfair, same⟩)⟩)))

theorem run_passed (writes : request.operation.readOnly = false) (passed : (request.run site v).2 = .ok ()) :
    ∃ payload, v.live = some payload ∧ (request.edit site payload).2 = .ok () ∧
      (request.run site v).1.live =
        some ((format site.text site.restValid).revise (request.edit site payload).1) := by
  have ran : request.run site v = v.transact (format site.text site.restValid) request.admission
      (request.edit site) request.weather := by
    rw [Request.run, if_neg (ne_true_of_eq_false writes)]
  have committed : v.transact (format site.text site.restValid) request.admission (request.edit site)
      request.weather = ((request.run site v).1, .ok ()) := ran ▸ Prod.ext rfl passed
  obtain ⟨payload, live, edited, -, outcome⟩ := transact_ok committed
  exact ⟨payload, live, edited, congrArg Vault.live outcome⟩

end Outcomes

end Arenyxa.Enterprise
