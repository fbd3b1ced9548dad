import Arenyxa.Enterprise.Approvals

/-! A credential, from its campaign to the one device that it enrolls. -/

namespace Arenyxa.Enterprise

open History

variable {ν α ρ : Type}

/-- What enrollment keeps: its own state, and the devices of the vault. -/
def Payload.register (payload : Payload ν Extensions) : Enrollment × Table Device :=
  (payload.enrollment, payload.devices)

/-- What a request issues once its preparation passes. -/
def Request.issue (site : Site ν) (request : Request ν) : Option Issue :=
  match request.operation with
  | .createCampaign known campaignId title accountIds draws ttl =>
    (campaignIssue site.text site.root known campaignId title accountIds draws request.now ttl).toOption
  | .importMembersCsv known catalog campaignId title rows ttl =>
    (csvIssue site.text site.root known catalog campaignId title rows request.now ttl).toOption.map
      Prod.snd
  | _ => none

theorem key_revokeRow (device : Device) : Keyed.key (revokeRow device) = Keyed.key device := rfl

/-- What a mutator leaves of the register. -/
inductive Registers (site : Site ν) (request : Request ν) (payload : Payload ν Extensions) :
    Enrollment × Table Device → Prop
  | same : Registers site request payload payload.register
  | issued (issue : Issue) (prepared : request.issue site = some issue) :
    Registers site request payload (payload.enrollment.issue site.sha256 issue, payload.devices)
  | expired (credential : Credential) (unused : credential.state = .unused)
    (found : payload.enrollment.credentials.get? credential.id = some credential) :
    Registers site request payload
      (payload.enrollment.setCredential { credential with state := .expired }, payload.devices)
  | used (token : Token) (device : DevicePublic) (credential : Credential) (account : Account ν) (row : Device)
    (uses : Uses site.sha256 payload request.now token device credential account) :
    Registers site request payload
      ({ payload.enrollment.setCredential { credential with
            state := .used
            deviceId := device.deviceId } with
          devices := payload.enrollment.devices.assign row },
        payload.devices.assign row)
  | campaignRevoked (campaign : Campaign)
    (found : payload.enrollment.campaigns.get? campaign.id = some campaign) :
    Registers site request payload
      ({ payload.enrollment with
          campaigns := payload.enrollment.campaigns.assign { campaign with status := .revoked }
          credentials := payload.enrollment.credentials.updateWhere
            (fun credential => campaign.credentialIds.contains credential.id) revokeUnused
            key_revokeUnused }, payload.devices)
  | deviceRevoked (deviceId : String) :
    Registers site request payload
      ({ payload.enrollment with
          devices := payload.enrollment.devices.modify deviceId revokeRow key_revokeRow },
        payload.devices.modify deviceId revokeRow key_revokeRow)

section Mutators

variable {site : Site ν} {request : Request ν} {payload : Payload ν Extensions}

theorem registers_of_register {edited : Payload ν Extensions} (same : edited.register = payload.register) :
    Registers site request payload edited.register := by
  rw [same]
  exact .same

theorem registers_of_rest {edited : Payload ν Extensions} (same : edited.rest = payload.rest) :
    Registers site request payload edited.register :=
  registers_of_register (congrArg (fun rest : Extensions => (rest.enrollment, rest.devices)) same)

theorem governanceEdit_register {check : Payload ν Extensions → Except Refusal α}
    {write : α → Governance → Governance} {f : α → ρ} :
    (governanceEdit check write f payload).1.register = payload.register := by
  rw [governanceEdit, Edit.guarded]
  split
  next => rfl
  next => rfl

theorem decideApproval_register {session : Caller} {now : Instant} {approvalId : String} {approved : Bool} :
    (decideApproval session now approvalId approved payload).1.register = payload.register := by
  rcases decideApproval_cases payload session now approvalId approved with ⟨refusal, same⟩ |
    ⟨item, -, -, same⟩ | ⟨item, -, -, -, -, same⟩
  · rw [same]
  · rw [same]
    rfl
  · rw [same]
    rfl

theorem authorizeOperation_register {session : Caller} {now : Instant}
    {permission resourceId approvalId metric : String} {delta : Nat} :
    (authorizeOperation session now permission resourceId approvalId metric delta payload).1.register =
      payload.register := by
  rcases authorizeOperation_cases payload session now permission resourceId approvalId metric delta with
    ⟨refusal, same⟩ | ⟨item, -, -, same⟩ | ⟨item, charged, -, -, -, -, -, -, -, -, same⟩ |
    ⟨charged, -, -, same⟩
  · rw [same]
  · rw [same]
    rfl
  · rw [same]
    rfl
  · rw [same]
    rfl

theorem after_registers {prepared : Except Refusal α} {edit : α → Edit (Payload ν Extensions) ρ}
    (h : ∀ a, prepared = .ok a → Registers site request payload (edit a payload).1.register) :
    Registers site request payload (Edit.after prepared edit payload).1.register := by
  cases prepared with
  | error => exact .same
  | ok a => exact h a rfl

theorem enrollmentEdit_registers {check : Payload ν Extensions → Except Refusal α}
    {write : α → Payload ν Extensions → Payload ν Extensions} {f : α → ρ}
    (h : ∀ a, check payload = .ok a → Registers site request payload (write a payload).register) :
    Registers site request payload (enrollmentEdit check write f payload).1.register := by
  rw [enrollmentEdit, Edit.guarded]
  split
  next => exact .same
  next a passed =>
    split at passed
    next => cases passed
    next => exact h a passed

theorem consume_registers {token : Token} {device : DevicePublic} :
    Registers site request payload (consume site.sha256 request.now token device payload).1.register := by
  rcases consume_cases site.sha256 payload request.now token device with ⟨refusal, same⟩ |
    ⟨credential, found, unused, same⟩ | ⟨credential, account, row, uses, -, same⟩
  · rw [same]
    exact .same
  · rw [same]
    exact .expired credential unused found
  · rw [same]
    exact .used token device credential account row uses

theorem edit_registers (site : Site ν) (request : Request ν) (payload : Payload ν Extensions) :
    Registers site request payload (request.edit site payload).1.register := by
  obtain ⟨session, now, operation, weather⟩ := request
  cases operation with
  | createAccount => exact registers_of_rest (guarded_rest fun _ => rfl)
  | bulkCreateAccounts => exact registers_of_rest (bulkRows_rest ..)
  | setAccountEnabled => exact registers_of_rest (guarded_rest fun _ => rfl)
  | setAccountRoles => exact registers_of_rest (guarded_rest fun _ => rfl)
  | changePassword => exact registers_of_rest (guarded_rest fun _ => rfl)
  | deleteAccount => exact registers_of_rest (guarded_rest fun _ => rfl)
  | createRole => exact registers_of_rest (guarded_rest fun _ => rfl)
  | updateRole => exact registers_of_rest (guarded_rest fun _ => rfl)
  | deleteRole => exact registers_of_rest (guarded_rest fun _ => rfl)
  | createWorkspace => exact registers_of_register governanceEdit_register
  | createTeam => exact registers_of_register governanceEdit_register
  | registerResource => exact after_registers fun _ _ => registers_of_register governanceEdit_register
  | grantRole => exact registers_of_register governanceEdit_register
  | setZeroTrustPolicy => exact after_registers fun _ _ => registers_of_register governanceEdit_register
  | reserveQuota => exact after_registers fun _ _ => registers_of_register governanceEdit_register
  | releaseQuota => exact after_registers fun _ _ => registers_of_register governanceEdit_register
  | requestApproval => exact after_registers fun _ _ => registers_of_register governanceEdit_register
  | decideApproval => exact registers_of_register decideApproval_register
  | authorizeOperation =>
    exact after_registers fun _ _ => registers_of_register authorizeOperation_register
  | createCampaign known campaignId title accountIds draws ttl =>
    refine after_registers fun issue prepared => enrollmentEdit_registers fun _ _ => .issued issue ?_
    simp only [Request.issue, prepared]
    rfl
  | importMembersCsv known catalog campaignId title rows ttl =>
    refine after_registers fun members prepared => enrollmentEdit_registers fun _ _ => ?_
    have rest : (members.1.foldl Payload.setAccount payload).rest = payload.rest := setAccounts_rest _
    have same : (members.1.foldl Payload.setAccount payload).devices = payload.devices :=
      congrArg Extensions.devices rest
    have register : ((members.1.foldl Payload.setAccount payload).setEnrollment
        (payload.enrollment.issue site.sha256 members.2)).register =
          (payload.enrollment.issue site.sha256 members.2, payload.devices) := Prod.ext rfl same
    rw [register]
    refine .issued members.2 ?_
    simp only [Request.issue, prepared]
    rfl
  | consume => exact after_registers fun _ _ => consume_registers
  | revokeCampaign campaignId =>
    refine enrollmentEdit_registers fun campaign passed => .campaignRevoked campaign ?_
    split at passed
    next => cases passed
    next _ found =>
      cases passed
      have same : campaign.id = campaignId := Table.get?_key found
      exact same.symm ▸ found
  | revokeDevice deviceId => exact enrollmentEdit_registers fun _ _ => .deviceRevoked deviceId

end Mutators

section Lookups

variable {site : Site ν} {request : Request ν} {payload : Payload ν Extensions} {register : Enrollment × Table Device}
  {id : String}

theorem credentials_issue (sha256 : String → String) (tokens : List Token) (table : Table Credential)
    (id : String) :
    (∃ token ∈ tokens, token.credentialId = id ∧
      (tokens.foldl (fun table token => table.assign (token.credential sha256)) table).get? id =
        some (token.credential sha256)) ∨
    (tokens.foldl (fun table token => table.assign (token.credential sha256)) table).get? id =
      table.get? id := by
  induction tokens generalizing table with
  | nil => exact .inr rfl
  | cons token rest ih =>
    rcases ih (table.assign (token.credential sha256)) with ⟨other, listed, named, found⟩ | same
    · exact .inl ⟨other, .tail _ listed, named, found⟩
    · rw [Table.get?_assign] at same
      split at same
      next named => exact .inl ⟨token, .head _, named.symm, same⟩
      next => exact .inr same

/-- How a credential changes: it is issued, or it is settled once. -/
inductive Turn (site : Site ν) (request : Request ν) (id : String) :
    Option Credential → Option Credential → Prop
  | same (before : Option Credential) : Turn site request id before before
  | issued (before : Option Credential) (issue : Issue) (token : Token)
    (prepared : request.issue site = some issue) (listed : token ∈ issue.tokens)
    (named : token.credentialId = id) :
    Turn site request id before (some (token.credential site.sha256))
  | settled (credential : Credential) (state : CredentialState) (deviceId : String)
    (unused : credential.state = .unused) (settled : state ≠ .unused) :
    Turn site request id (some credential)
      (some { credential with
        state := state
        deviceId := deviceId })

theorem get?_setCredential {e : Enrollment} {credential : Credential} :
    (e.setCredential credential).credentials.get? id =
      if id = credential.id then some credential else e.credentials.get? id := Table.get?_assign

theorem turn_setCredential {credential : Credential} {state : CredentialState} {deviceId : String}
    (found : payload.enrollment.credentials.get? credential.id = some credential)
    (unused : credential.state = .unused) (settled : state ≠ .unused) (id : String) :
    Turn site request id (payload.enrollment.credentials.get? id)
      ((payload.enrollment.setCredential { credential with
        state := state
        deviceId := deviceId }).credentials.get? id) := by
  rw [get?_setCredential]
  split
  next named =>
    have named : id = credential.id := named
    rw [named, found]
    exact .settled credential state deviceId unused settled
  next => exact .same _

theorem Registers.turn (h : Registers site request payload register) (id : String) :
    Turn site request id (payload.enrollment.credentials.get? id) (register.1.credentials.get? id) := by
  cases h with
  | same => exact .same _
  | issued issue prepared =>
    rcases credentials_issue site.sha256 issue.tokens payload.enrollment.credentials id with
      ⟨token, listed, named, found⟩ | same
    · rw [show (payload.enrollment.issue site.sha256 issue).credentials.get? id = _ from found]
      exact .issued _ issue token prepared listed named
    · rw [show (payload.enrollment.issue site.sha256 issue).credentials.get? id = _ from same]
      exact .same _
  | expired credential unused found => exact turn_setCredential found unused (by decide) id
  | used token device credential account row uses =>
    have same : credential.id = token.credentialId := Table.get?_key uses.found
    exact turn_setCredential (same.symm ▸ uses.found) uses.unused (by decide) id
  | campaignRevoked campaign found =>
    simp only [Table.get?_updateWhere]
    cases payload.enrollment.credentials.get? id with
    | none => exact .same _
    | some credential =>
      simp only [Option.map_some, revokeUnused]
      split
      next =>
        split
        next unused => exact .settled credential .revoked credential.deviceId unused (by decide)
        next => exact .same _
      next => exact .same _
  | deviceRevoked => exact .same _

theorem Registers.revoked (h : Registers site request payload register) {campaign : Campaign}
    (found : payload.enrollment.campaigns.get? id = some campaign) (revoked : campaign.status = .revoked)
    (drawn : ∀ issue, request.issue site = some issue → issue.campaignId ≠ id) :
    ∃ campaign', register.1.campaigns.get? id = some campaign' ∧ campaign'.status = .revoked := by
  cases h with
  | same => exact ⟨campaign, found, revoked⟩
  | issued issue prepared =>
    have lookup : (payload.enrollment.issue site.sha256 issue).campaigns.get? id =
        if id = issue.campaignId then some issue.campaign else payload.enrollment.campaigns.get? id :=
      Table.get?_assign
    rw [lookup, if_neg (drawn issue prepared).symm]
    exact ⟨campaign, found, revoked⟩
  | expired => exact ⟨campaign, found, revoked⟩
  | used => exact ⟨campaign, found, revoked⟩
  | campaignRevoked other =>
    rw [Table.get?_assign]
    split
    next => exact ⟨_, rfl, rfl⟩
    next => exact ⟨campaign, found, revoked⟩
  | deviceRevoked => exact ⟨campaign, found, revoked⟩

theorem Registers.enrolled (h : Registers site request payload register)
    (found : (payload.enrollment.devices.get? id).isSome = true) :
    (register.1.devices.get? id).isSome = true := by
  cases h with
  | same => exact found
  | issued => exact found
  | expired => exact found
  | used token device credential account row =>
    rw [Table.get?_assign]
    split
    next => rfl
    next => exact found
  | campaignRevoked => exact found
  | deviceRevoked deviceId =>
    rw [Table.get?_modify]
    split
    next => rw [Option.isSome_map, found]
    next => exact found

theorem Registers.twin (h : Registers site request payload register)
    (same : payload.enrollment.devices = payload.devices) : register.1.devices = register.2 := by
  cases h with
  | same => exact same
  | issued => exact same
  | expired => exact same
  | used token device credential account row =>
    exact congrArg (fun table : Table Device => table.assign row) same
  | campaignRevoked => exact same
  | deviceRevoked deviceId =>
    exact congrArg (fun table : Table Device => table.modify deviceId revokeRow key_revokeRow) same

end Lookups

section Steps

variable {site : Site ν} {request : Request ν} {v : Vault (Payload ν Extensions)}
  {payload payload' : Payload ν Extensions} {id : String}

theorem run_registers (live' : (request.run site v).1.live = some payload') :
    ∃ payload, v.live = some payload ∧ Registers site request payload payload'.register := by
  cases live : v.live with
  | none =>
    rw [run_sealed live, live] at live'
    cases live'
  | some payload =>
    refine ⟨payload, rfl, ?_⟩
    have edited := edit_registers site request payload
    rcases run_cases live with ⟨refusal, same⟩ | ⟨-, same⟩ | ⟨refusal, -, same⟩ | ⟨-, -, same⟩ |
      ⟨-, -, same | ⟨durable, refusal, -, same⟩ | ⟨-, same⟩⟩
    · rw [same] at live'
      cases live.symm.trans live'
      exact .same
    · rw [same] at live'
      cases live.symm.trans live'
      exact .same
    · rw [same] at live'
      cases live'
      exact edited
    · rw [same] at live'
      cases live'
      exact edited
    · rw [same] at live'
      cases live'
      exact edited
    · rw [same] at live'
      cases live'
      exact .same
    · rw [same] at live'
      cases live'

theorem edit_uses {token : Token} {device : DevicePublic} {enterpriseId accountId : String}
    (operation : request.operation = .consume token device enterpriseId accountId)
    (passed : (request.edit site payload).2 = .ok ()) :
    ∃ credential account, Uses site.sha256 payload request.now token device credential account ∧
      (request.edit site payload).1.enrollment.credentials.get? token.credentialId =
        some { credential with
          state := .used
          deviceId := device.deviceId } ∧
      ((request.edit site payload).1.enrollment.devices.get? device.deviceId).isSome = true := by
  obtain ⟨session, now, _, weather⟩ := request
  cases operation
  simp only [Request.edit] at passed ⊢
  obtain ⟨_, -, passed, written⟩ := after_passed passed
  rw [written]
  simp only [Edit.discard] at passed ⊢
  rcases consume_cases site.sha256 payload now token device with ⟨refusal, same⟩ |
    ⟨credential, -, -, same⟩ | ⟨credential, account, row, uses, named, same⟩
  · rw [same] at passed
    cases passed
  · rw [same] at passed
    cases passed
  · rw [same]
    have id : token.credentialId = credential.id := (Table.get?_key uses.found).symm
    have devices : (payload.enrollment.devices.assign row).get? device.deviceId = some row :=
      Table.get?_assign.trans (if_pos named.symm)
    exact ⟨credential, account, uses, get?_setCredential.trans (if_pos id), Option.isSome_of_eq_some devices⟩

/-- A device is enrolled with a credential that is used by it. -/
structure Enrolls (site : Site ν) (v v' : Vault (Payload ν Extensions)) (now : Instant) (token : Token)
    (device : DevicePublic) (payload : Payload ν Extensions) (credential : Credential)
    (account : Account ν) : Prop where
  live : v.live = some payload
  uses : Uses site.sha256 payload now token device credential account
  spent : ∀ payload', v'.live = some payload' →
    (∃ credential, payload'.enrollment.credentials.get? token.credentialId = some credential ∧
      credential.state ≠ .unused) ∧
    (payload'.enrollment.devices.get? device.deviceId).isSome = true

theorem run_enrolls {token : Token} {device : DevicePublic} {enterpriseId accountId : String}
    (operation : request.operation = .consume token device enterpriseId accountId)
    (passed : (request.run site v).2 = .ok ()) :
    ∃ payload credential account,
      Enrolls site v (request.run site v).1 request.now token device payload credential account := by
  have writes : request.operation.readOnly = false := by
    rw [operation]
    rfl
  obtain ⟨payload, live, edited, live'⟩ := run_passed writes passed
  obtain ⟨credential, account, uses, settled, enrolled⟩ := edit_uses operation edited
  refine ⟨payload, credential, account, live, uses, fun payload' left => ?_⟩
  cases live'.symm.trans left
  exact ⟨⟨_, settled, fun same => by cases same⟩, enrolled⟩

theorem run_revokes (operation : request.operation = .revokeCampaign id)
    (passed : (request.run site v).2 = .ok ()) (live' : (request.run site v).1.live = some payload') :
    ∃ campaign, payload'.enrollment.campaigns.get? id = some campaign ∧ campaign.status = .revoked := by
  have writes : request.operation.readOnly = false := by
    rw [operation]
    rfl
  obtain ⟨payload, -, edited, left⟩ := run_passed writes passed
  cases left.symm.trans live'
  obtain ⟨session, now, _, weather⟩ := request
  cases operation
  simp only [Request.edit] at edited ⊢
  obtain ⟨-, campaign, found, written⟩ := enrollmentEdit_passed edited
  split at found
  next => cases found
  next _ found' =>
    cases found
    have named : id = campaign.id := (Table.get?_key found').symm
    refine ⟨{ campaign with status := .revoked }, ?_, rfl⟩
    have same := congrArg (fun payload => payload.enrollment.campaigns.get? id) written
    exact same.trans (Table.get?_assign.trans (if_pos named))

end Steps

section Runs

variable {site : Site ν} {start v : Vault (Payload ν Extensions)} {requests : List (Request ν)} {id : String}

/-- The campaign and the credentials that a request issues are new. -/
def Site.Draws (site : Site ν) (v : Vault (Payload ν Extensions)) (request : Request ν) : Prop :=
  ∀ payload, v.live = some payload → ∀ issue, request.issue site = some issue →
    payload.enrollment.campaigns.get? issue.campaignId = none ∧
      ∀ token ∈ issue.tokens, payload.enrollment.credentials.get? token.credentialId = none

theorem kept {P : Payload ν Extensions → Prop} (next : ∀ {v request payload register},
      site.Draws v request → v.live = some payload → P payload →
        Registers site request payload (Payload.register register) → P register)
    (held : ∀ payload, v.live = some payload → P payload) (requests : List (Request ν))
    (draws : Each site.step site.Draws v requests) :
    ∀ payload, (run site.step v requests).live = some payload → P payload := by
  refine induct (I := fun _ v => ∀ payload, v.live = some payload → P payload) held ?_ requests
    (meets_of_each draws)
  intro requests request draws held payload' live'
  obtain ⟨payload, live, registers⟩ := run_registers live'
  exact next draws live (held payload live) registers

theorem spent_stays {requests : List (Request ν)}
    (spent : ∀ payload, v.live = some payload → ∃ credential,
      payload.enrollment.credentials.get? id = some credential ∧ credential.state ≠ .unused)
    (draws : Each site.step site.Draws v requests) :
    ∀ payload, (run site.step v requests).live = some payload → ∃ credential,
      payload.enrollment.credentials.get? id = some credential ∧ credential.state ≠ .unused := by
  refine kept ?_ spent requests draws
  rintro v request payload payload' draws live ⟨credential, found, spent⟩ registers
  have turn := registers.turn id
  rw [found] at turn
  generalize after : payload'.register.1.credentials.get? id = left at turn
  cases turn with
  | same => exact ⟨credential, after, spent⟩
  | issued _ issue token prepared listed named =>
    cases (named ▸ (draws payload live issue prepared).2 token listed).symm.trans found
  | settled _ state deviceId unused => exact absurd unused spent

theorem enrolled_stays {requests : List (Request ν)}
    (enrolled : ∀ payload, v.live = some payload →
      (payload.enrollment.devices.get? id).isSome = true)
    (draws : Each site.step site.Draws v requests) :
    ∀ payload, (run site.step v requests).live = some payload →
      (payload.enrollment.devices.get? id).isSome = true :=
  kept (fun _ _ found registers => registers.enrolled found) enrolled requests draws

theorem revoked_stays {requests : List (Request ν)}
    (revoked : ∀ payload, v.live = some payload → ∃ campaign,
      payload.enrollment.campaigns.get? id = some campaign ∧ campaign.status = .revoked)
    (draws : Each site.step site.Draws v requests) :
    ∀ payload, (run site.step v requests).live = some payload → ∃ campaign,
      payload.enrollment.campaigns.get? id = some campaign ∧ campaign.status = .revoked := by
  refine kept ?_ revoked requests draws
  rintro v request payload payload' draws live ⟨campaign, found, revoked⟩ registers
  refine registers.revoked found revoked fun issue prepared named => ?_
  cases (named ▸ (draws payload live issue prepared).1).symm.trans found

/-- The credential is one that a request of the history issued, apart from its state. -/
def Site.Issued (site : Site ν) (requests : List (Request ν)) (credential : Credential) (token : Token) :
    Prop :=
  ∃ request ∈ requests, ∃ issue, request.issue site = some issue ∧ token ∈ issue.tokens ∧
    { credential with
      state := .unused
      deviceId := "" } = token.credential site.sha256

theorem issued (new : ∀ payload, start.live = some payload → payload.enrollment.credentials.get? id = none)
    (requests : List (Request ν)) :
    ∀ payload, (run site.step start requests).live = some payload → ∀ credential,
      payload.enrollment.credentials.get? id = some credential →
        ∃ token, site.Issued requests credential token := by
  refine induct (P := fun _ _ => True) (I := fun requests (v : Vault (Payload ν Extensions)) =>
    ∀ payload : Payload ν Extensions, v.live = some payload → ∀ credential,
      payload.enrollment.credentials.get? id = some credential →
        ∃ token, site.Issued requests credential token) ?_ ?_ requests fun _ _ _ _ => trivial
  · intro payload live credential found
    cases (new payload live).symm.trans found
  · intro requests request _ held payload' live' credential found
    obtain ⟨payload, live, registers⟩ := run_registers live'
    have turn := registers.turn id
    rw [show payload'.register.1.credentials.get? id = some credential from found] at turn
    have earlier {before : Credential} (was : payload.enrollment.credentials.get? id = some before) :
        ∃ token, site.Issued (requests ++ [request]) before token := by
      obtain ⟨token, issuer, listed, rest⟩ := held payload live before was
      exact ⟨token, issuer, List.mem_append_left _ listed, rest⟩
    generalize was : payload.enrollment.credentials.get? id = before at turn
    cases turn with
    | same => exact earlier was
    | issued _ issue token prepared listed =>
      exact ⟨token, request, List.mem_append_right _ (.head _), issue, prepared, listed, rfl⟩
    | settled before state deviceId =>
      obtain ⟨token, known⟩ := earlier was
      exact ⟨token, known⟩

/-- The request after these enrolls the device with the token, and returns. -/
structure Site.Enrolled (site : Site ν) (start : Vault (Payload ν Extensions)) (before : List (Request ν))
    (request : Request ν) (token : Token) (device : DevicePublic) : Prop where
  consumes : ∃ enterpriseId accountId, request.operation = .consume token device enterpriseId accountId
  passed : (request.run site (run site.step start before)).2 = .ok ()

/-- The law of enrollment, over a history. -/
structure Site.EnrollsOnce (site : Site ν) (start : Vault (Payload ν Extensions))
    (requests : List (Request ν)) : Prop where
  used : ∀ before request after token device, requests = before ++ request :: after →
    site.Enrolled start before request token device →
      ∃ payload credential account, (run site.step start before).live = some payload ∧
        Uses site.sha256 payload request.now token device credential account ∧
        ((∀ payload, start.live = some payload →
            payload.enrollment.credentials.get? token.credentialId = none) →
          ∃ drawn, site.Issued before credential drawn ∧ token.secret = drawn.secret ∧
            token.canonical = drawn.canonical ∧ account.roles = drawn.roles)
  once : ∀ before request after token device before' request' after' token' device',
    requests = before ++ request :: after → requests = before' ++ request' :: after' →
      site.Enrolled start before request token device →
        site.Enrolled start before' request' token' device' →
          token.credentialId = token'.credentialId ∨ device.deviceId = device'.deviceId →
            before = before'
  revoked : ∀ before request middle request' after campaignId token device,
    requests = before ++ request :: middle ++ request' :: after →
      request.operation = .revokeCampaign campaignId →
        (request.run site (run site.step start before)).2 = .ok () →
          site.Enrolled start (before ++ request :: middle) request' token device →
            ∀ payload credential, (run site.step start (before ++ request :: middle)).live = some payload →
              payload.enrollment.credentials.get? token.credentialId = some credential →
                credential.campaignId ≠ campaignId
  tables : ∀ before after, requests = before ++ after →
    ∀ payload, (run site.step start before).live = some payload →
      payload.enrollment.devices = payload.devices

theorem Site.Enrolled.enrolls {before : List (Request ν)} {request : Request ν} {token : Token}
    {device : DevicePublic} (h : site.Enrolled start before request token device) :
    ∃ payload credential account, Enrolls site (run site.step start before)
      (site.step (run site.step start before) request) request.now token device payload credential account := by
  obtain ⟨enterpriseId, accountId, operation⟩ := h.consumes
  exact run_enrolls operation h.passed

theorem run_cons_middle {before middle : List (Request ν)} {request : Request ν} :
    run site.step start (before ++ request :: middle) =
      run site.step (site.step (run site.step start before) request) middle := by
  rw [run, run, run, List.foldl_append, List.foldl_cons]

theorem enrolled_once {before middle : List (Request ν)} {request request' : Request ν}
    {token token' : Token} {device device' : DevicePublic}
    (draws : Each site.step site.Draws (site.step (run site.step start before) request) middle)
    (first : site.Enrolled start before request token device)
    (again : token.credentialId = token'.credentialId ∨ device.deviceId = device'.deviceId) :
    ¬ site.Enrolled start (before ++ request :: middle) request' token' device' := by
  intro second
  obtain ⟨_, _, _, -, -, spent⟩ := first.enrolls
  obtain ⟨payload, credential, account, live, uses, -⟩ := second.enrolls
  rw [run_cons_middle] at live
  rcases again with same | same
  · obtain ⟨other, found, settled⟩ :=
      spent_stays (fun payload left => (spent payload left).1) draws payload live
    rw [same] at found
    cases found.symm.trans uses.found
    exact settled uses.unused
  · have enrolled := enrolled_stays (fun payload left => (spent payload left).2) draws payload live
    rw [same, uses.new] at enrolled
    cases enrolled

theorem revoked_never {before middle : List (Request ν)} {request request' : Request ν} {campaignId : String}
    {token : Token} {device : DevicePublic}
    (draws : Each site.step site.Draws (site.step (run site.step start before) request) middle)
    (operation : request.operation = .revokeCampaign campaignId)
    (returned : (request.run site (run site.step start before)).2 = .ok ())
    (enrolled : site.Enrolled start (before ++ request :: middle) request' token device)
    {payload : Payload ν Extensions} {credential : Credential}
    (live : (run site.step start (before ++ request :: middle)).live = some payload)
    (found : payload.enrollment.credentials.get? token.credentialId = some credential) :
    credential.campaignId ≠ campaignId := by
  rintro rfl
  obtain ⟨payload', credential', account, live', uses, -⟩ := enrolled.enrolls
  cases live.symm.trans live'
  cases found.symm.trans uses.found
  rw [run_cons_middle] at live
  obtain ⟨campaign, known, revoked⟩ :=
    revoked_stays (fun _ left => run_revokes operation returned left) draws payload live
  obtain ⟨campaign', known', active⟩ := uses.campaign
  cases known.symm.trans known'
  cases active.symm.trans revoked

theorem enrolls_once (injective : Function.Injective site.sha256)
    (twin : ∀ payload, start.live = some payload → payload.enrollment.devices = payload.devices)
    (requests : List (Request ν)) (draws : Each site.step site.Draws start requests) :
    site.EnrollsOnce start requests where
  used := by
    rintro before request after token device rfl enrolled
    obtain ⟨payload, credential, account, live, uses, -⟩ := enrolled.enrolls
    refine ⟨payload, credential, account, live, uses, fun new => ?_⟩
    obtain ⟨drawn, known⟩ := issued new before payload live credential uses.found
    obtain ⟨issuer, listed, issue, prepared, member, same⟩ := known
    refine ⟨drawn, ⟨issuer, listed, issue, prepared, member, same⟩, injective ?_, injective ?_, ?_⟩
    · exact uses.secret.symm.trans (congrArg Credential.secretSha256 same)
    · exact uses.artifact.symm.trans (congrArg Credential.tokenSha256 same)
    · exact uses.roles.trans (congrArg Credential.roles same)
  once := by
    rintro before request after token device before' request' after' token' device' rfl split first second
      again
    rcases List.append_eq_append_iff.mp split with ⟨middle, rfl, rest⟩ | ⟨middle, rfl, rest⟩
    · cases middle with
      | nil => simp
      | cons _ middle =>
        obtain ⟨rfl, rfl⟩ := List.cons.inj rest
        have draws := (each_append.mp (each_append.mp draws).2.2).1
        exact absurd second (enrolled_once draws first again)
    · cases middle with
      | nil => simp
      | cons _ middle =>
        obtain ⟨rfl, rfl⟩ := List.cons.inj rest
        rw [List.append_assoc] at draws
        have draws := (each_append.mp (each_append.mp draws).2.2).1
        exact absurd first (enrolled_once draws second (again.imp Eq.symm Eq.symm))
  revoked := by
    rintro before request middle request' after campaignId token device rfl operation returned enrolled
      payload credential live found
    rw [List.append_assoc] at draws
    have draws := (each_append.mp (each_append.mp draws).2.2).1
    exact revoked_never draws operation returned enrolled live found
  tables := by
    rintro before after rfl
    exact kept (fun _ _ same registers => registers.twin same) twin before (each_append.mp draws).1

end Runs

section Laptop

open History

def laptopToken : Token :=
  (⟨"credential", "secret", "token"⟩ : Draw).token plainSite.root "campaign" "account-admin" "admin"
    ["administrator"] (seconds 3600)

def laptop : DevicePublic := ⟨"laptop", "key", "key"⟩

def openCampaign : Request String :=
  ⟨rootSession, 0, .createCampaign governedPayload.accounts.rows "campaign" "Laptops" ["account-admin"]
    [⟨"credential", "secret", "token"⟩] 3600, fairWeather⟩

def enrollLaptop : Request String :=
  ⟨rootSession, 1, .consume laptopToken laptop "enterprise" "account-admin", fairWeather⟩

theorem enrolls_once_laptop :
    plainSite.Enrolled governed [openCampaign] enrollLaptop laptopToken laptop ∧
      plainSite.EnrollsOnce governed [openCampaign, enrollLaptop] := by
  refine ⟨⟨⟨_, _, rfl⟩, by decide +kernel⟩, enrolls_once (fun _ _ same => same) ?_ _ ⟨?_, ?_, trivial⟩⟩
  · intro payload live
    cases live
    rfl
  · intro payload live issue _
    cases live
    exact ⟨rfl, fun _ _ => rfl⟩
  · intro payload live issue prepared
    cases prepared

end Laptop

end Arenyxa.Enterprise
