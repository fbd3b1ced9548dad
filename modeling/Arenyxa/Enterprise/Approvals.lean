import Arenyxa.Enterprise.Bounds

/-! An approval, from its request to the one operation that it lets pass. -/

namespace Arenyxa.Enterprise

open History

variable {ν α ρ : Type}

def Payload.approval? (payload : Payload ν Extensions) (id : String) : Option Approval :=
  payload.governance.approvals.get? id

def Vault.approval? (v : Vault (Payload ν Extensions)) (id : String) : Option Approval :=
  v.live.bind fun payload => payload.approval? id

/-- The life time of an approval. -/
def approvalExpiry (now : Instant) (ttl : Int) : Instant := expiry now 300 (24 * 3600) ttl

/-- The operations that write an approval. -/
def Operation.onApproval : Operation ν → Bool
  | .requestApproval .. => true
  | .decideApproval .. => true
  | .authorizeOperation .. => true
  | _ => false

/-- What a request can do to an approval, with the answer of its mutator. -/
inductive Change (request : Request ν) (id : String) :
    Option Approval → Option Approval → Except Refusal Unit → Prop
  | same (before : Option Approval) (outcome : Except Refusal Unit) : Change request id before before outcome
  | requested {item : Approval} (before : Option Approval) (reason : String) (ttl : Int)
    (operation : request.operation = .requestApproval id item.action item.resourceId reason ttl)
    (requester : item.requesterAccountId = request.session.accountId) (status : item.status = .pending)
    (expires : item.expiresAt = approvalExpiry request.now ttl) :
    Change request id before (some item) (.ok ())
  | expired (item : Approval) (concerned : request.operation.onApproval = true)
    (going : item.status = .pending ∨ item.status = .approved) (refusal : Refusal) :
    Change request id (some item) (some { item with status := .expired }) (.error refusal)
  | decided (item : Approval) (approved : Bool) (operation : request.operation = .decideApproval id approved)
    (status : item.status = .pending) (live : request.now < item.expiresAt)
    (other : request.session.accountId ≠ item.requesterAccountId) :
    Change request id (some item)
      (some { item with
        status := if approved then .approved else .rejected
        approverAccountId := request.session.accountId }) (.ok ())
  | consumed (item : Approval) (metric : String) (amount : Int)
    (operation : request.operation = .authorizeOperation item.action item.resourceId id metric amount)
    (risky : highRiskActions.contains item.action = true)
    (status : item.status = .approved) (live : request.now < item.expiresAt)
    (own : item.requesterAccountId = request.session.accountId) :
    Change request id (some item) (some { item with status := .consumed }) (.ok ())

section Frames

variable {payload : Payload ν Extensions}

theorem governanceEdit_approvals {check : Payload ν Extensions → Except Refusal α}
    {write : α → Governance → Governance} {f : α → ρ}
    (kept : ∀ a, check payload = .ok a → (write a payload.governance).approvals = payload.governance.approvals) :
    (governanceEdit check write f payload).1.governance.approvals = payload.governance.approvals := by
  rw [governanceEdit, Edit.guarded]
  split
  next => rfl
  next a passed =>
    split at passed
    next => cases passed
    next => exact kept a passed

theorem enrollmentEdit_governance {check : Payload ν Extensions → Except Refusal α}
    {write : α → Payload ν Extensions → Payload ν Extensions} {f : α → ρ}
    (kept : ∀ a, (write a payload).governance = payload.governance) :
    (enrollmentEdit check write f payload).1.governance = payload.governance := by
  rw [enrollmentEdit, Edit.guarded]
  split
  next => rfl
  next a _ => exact kept a

theorem consume_governance (sha256 : String → String) (now : Instant) (token : Token)
    (device : DevicePublic) :
    (consume sha256 now token device payload).1.governance = payload.governance := by
  rcases consume_cases sha256 payload now token device with ⟨refusal, same⟩ | ⟨credential, -, -, same⟩ |
    ⟨credential, account, row, -, -, same⟩
  · rw [same]
  · rw [same]
    rfl
  · rw [same]
    rfl

theorem after_governance {request : Except Refusal α} {edit : α → Edit (Payload ν Extensions) ρ}
    {approvals : Table Approval} (unchanged : payload.governance.approvals = approvals)
    (h : ∀ a, request = .ok a → (edit a payload).1.governance.approvals = approvals) :
    (Edit.after request edit payload).1.governance.approvals = approvals := by
  cases request with
  | error => exact unchanged
  | ok a => exact h a rfl

theorem get?_setApproval {g : Governance} {item : Approval} {id : String} :
    (g.setApproval item).approvals.get? id = if id = item.id then some item else g.approvals.get? id :=
  Table.get?_assign

end Frames

section Mutators

variable {site : Site ν} {request : Request ν} {payload : Payload ν Extensions}

theorem change_setApproval {before item : Approval} {g : Governance} {outcome : Except Refusal Unit}
    {key : String} (found : payload.governance.approvals.get? key = some before)
    (change : Change request key (some before) (some item) outcome) (same : item.id = before.id)
    (kept : g.approvals = payload.governance.approvals) (id : String) :
    Change request id (payload.approval? id) ((payload.setGovernance (g.setApproval item)).approval? id)
      outcome := by
  have named : item.id = key := same.trans (Table.get?_key found)
  have lookup : (payload.setGovernance (g.setApproval item)).approval? id =
      if id = item.id then some item else payload.approval? id := by
    rw [Payload.approval?, Payload.approval?, ← kept]
    exact get?_setApproval
  rw [lookup]
  split
  next equal =>
    rw [equal, named, Payload.approval?, found]
    exact change
  next => exact .same ..

theorem decideApproval_change {approvalId : String} {approved : Bool}
    (operation : request.operation = .decideApproval approvalId approved) (id : String) :
    Change request id (payload.approval? id)
      ((decideApproval request.session request.now approvalId approved payload).1.approval? id)
      (decideApproval request.session request.now approvalId approved payload).2 := by
  rcases decideApproval_cases payload request.session request.now approvalId approved with
    ⟨refusal, same⟩ | ⟨item, found, pending, same⟩ | ⟨item, found, pending, live, other, same⟩
  · rw [same]
    exact .same ..
  · rw [same]
    exact change_setApproval found (.expired item (operation ▸ rfl) (.inl pending) _) rfl rfl id
  · rw [same]
    exact change_setApproval found (.decided item approved operation pending live other) rfl rfl id

theorem authorizeOperation_change {permission resourceId approvalId metric metric' : String} {amount : Int}
    {delta : Nat}
    (operation : request.operation = .authorizeOperation permission resourceId approvalId metric amount)
    (id : String) :
    Change request id (payload.approval? id)
      ((authorizeOperation request.session request.now permission resourceId approvalId metric' delta
        payload).1.approval? id)
      (authorizeOperation request.session request.now permission resourceId approvalId metric' delta
        payload).2 := by
  rcases authorizeOperation_cases payload request.session request.now permission resourceId
      approvalId metric' delta with ⟨refusal, same⟩ | ⟨item, found, approved, same⟩ |
      ⟨item, charged, risky, found, approved, rfl, rfl, own, live, ⟨resource, charges⟩, same⟩ |
      ⟨charged, -, ⟨resource, charges⟩, same⟩
  · rw [same]
    exact .same ..
  · rw [same]
    exact change_setApproval found (.expired item (operation ▸ rfl) (.inr approved) _) rfl rfl id
  · rw [same]
    have kept : charged.approvals = payload.governance.approvals := by rw [chargeOperation_ok charges]
    exact change_setApproval found (.consumed item metric amount operation risky approved live own) rfl
      kept id
  · rw [same]
    have kept : charged.approvals = payload.governance.approvals := by rw [chargeOperation_ok charges]
    have unchanged : (payload.setGovernance charged).approval? id = payload.approval? id :=
      congrArg (fun table => Table.get? table id) kept
    rw [unchanged]
    exact .same ..

theorem requestApproval_change {approvalId action resourceId reason : String} {ttl : Int}
    (operation : request.operation = .requestApproval approvalId action resourceId reason ttl) (id : String) :
    Change request id (payload.approval? id)
      (((requestApproval request.session request.now approvalId action resourceId reason ttl).discard
        payload).1.approval? id)
      ((requestApproval request.session request.now approvalId action resourceId reason ttl).discard
        payload).2 := by
  rw [Edit.discard, requestApproval, governanceEdit, Edit.guarded]
  simp only
  split
  next => exact .same ..
  next item passed =>
    split at passed
    next => cases passed
    next =>
      cases passed
      have lookup (item : Approval) : (payload.setGovernance { payload.governance with
          approvals := payload.governance.approvals.assign item }).approval? id =
            if id = item.id then some item else payload.approval? id := Table.get?_assign
      rw [lookup]
      split
      next named =>
        subst named
        exact .requested _ reason ttl operation rfl rfl rfl
      next => exact .same ..

theorem change_of_approvals {edited : Payload ν Extensions} {outcome : Except Refusal Unit}
    (same : edited.governance.approvals = payload.governance.approvals) (id : String) :
    Change request id (payload.approval? id) (edited.approval? id) outcome := by
  rw [Payload.approval?, Payload.approval?, same]
  exact .same ..

theorem change_of_rest {edited : Payload ν Extensions} {outcome : Except Refusal Unit}
    (same : edited.rest = payload.rest) (id : String) :
    Change request id (payload.approval? id) (edited.approval? id) outcome :=
  change_of_approvals (congrArg (fun rest => rest.governance.approvals) same) id

theorem edit_change (site : Site ν) (request : Request ν) (payload : Payload ν Extensions) (id : String) :
    Change request id (payload.approval? id) ((request.edit site payload).1.approval? id)
      (request.edit site payload).2 := by
  obtain ⟨session, now, operation, weather⟩ := request
  cases operation with
  | createAccount => exact change_of_rest (guarded_rest fun _ => rfl) id
  | bulkCreateAccounts => exact change_of_rest (bulkRows_rest ..) id
  | setAccountEnabled => exact change_of_rest (guarded_rest fun _ => rfl) id
  | setAccountRoles => exact change_of_rest (guarded_rest fun _ => rfl) id
  | changePassword => exact change_of_rest (guarded_rest fun _ => rfl) id
  | deleteAccount => exact change_of_rest (guarded_rest fun _ => rfl) id
  | createRole => exact change_of_rest (guarded_rest fun _ => rfl) id
  | updateRole => exact change_of_rest (guarded_rest fun _ => rfl) id
  | deleteRole => exact change_of_rest (guarded_rest fun _ => rfl) id
  | createWorkspace => exact change_of_approvals (governanceEdit_approvals fun _ _ => rfl) id
  | createTeam => exact change_of_approvals (governanceEdit_approvals fun _ _ => rfl) id
  | registerResource =>
    refine change_of_approvals (after_governance rfl fun _ _ => ?_) id
    exact governanceEdit_approvals fun _ _ => rfl
  | grantRole => exact change_of_approvals (governanceEdit_approvals fun _ _ => rfl) id
  | setZeroTrustPolicy =>
    refine change_of_approvals (after_governance rfl fun _ _ => ?_) id
    exact governanceEdit_approvals fun _ _ => rfl
  | reserveQuota =>
    refine change_of_approvals (after_governance rfl fun _ _ => governanceEdit_approvals
      fun g passed => ?_) id
    split at passed
    next => cases passed
    next =>
      rw [reserve] at passed
      split at passed
      next => cases passed
      next =>
        cases passed
        rfl
  | releaseQuota =>
    refine change_of_approvals (after_governance rfl fun _ _ => ?_) id
    exact governanceEdit_approvals fun _ _ => rfl
  | requestApproval approvalId action resourceId reason ttl =>
    simp only [Request.edit]
    split
    next =>
      exact requestApproval_change rfl id
    next => exact .same ..
  | decideApproval => exact decideApproval_change rfl id
  | authorizeOperation permission resourceId approvalId metric amount =>
    simp only [Request.edit]
    cases authorizeRequest site.text permission approvalId metric amount with
    | error => exact .same ..
    | ok prepared => exact authorizeOperation_change rfl id
  | createCampaign =>
    exact change_of_approvals (after_governance rfl fun _ _ =>
      congrArg Governance.approvals (enrollmentEdit_governance fun _ => rfl)) id
  | importMembersCsv =>
    refine change_of_approvals (after_governance rfl fun prepared _ =>
      congrArg Governance.approvals (enrollmentEdit_governance fun _ => ?_)) id
    have same : (prepared.1.foldl Payload.setAccount payload).rest = payload.rest := setAccounts_rest _
    have governance := congrArg Extensions.governance same
    exact governance
  | consume =>
    refine change_of_approvals (after_governance rfl fun _ _ => ?_) id
    exact congrArg Governance.approvals (consume_governance ..)
  | revokeCampaign =>
    exact change_of_approvals (congrArg Governance.approvals (enrollmentEdit_governance fun _ => rfl)) id
  | revokeDevice =>
    exact change_of_approvals (congrArg Governance.approvals (enrollmentEdit_governance fun _ => rfl)) id

theorem authorizeOperation_ok {session : Caller} {now : Instant} {permission resourceId approvalId metric : String}
    {delta : Nat} (risky : highRiskActions.contains permission = true)
    (passed : (authorizeOperation session now permission resourceId approvalId metric delta
      payload).2 = .ok ()) :
    ∃ item, payload.approval? approvalId = some item ∧ item.status = .approved ∧
      item.action = permission ∧ item.resourceId = resourceId ∧
      item.requesterAccountId = session.accountId ∧ now < item.expiresAt ∧
      (authorizeOperation session now permission resourceId approvalId metric delta
        payload).1.approval? approvalId = some { item with status := .consumed } := by
  rcases authorizeOperation_cases payload session now permission resourceId
      approvalId metric delta with ⟨refusal, same⟩ | ⟨item, found, approved, same⟩ |
      ⟨item, charged, -, found, approved, action, resource, own, live, kept, same⟩ | ⟨charged, other, -, -⟩
  · rw [same] at passed
    cases passed
  · rw [same] at passed
    cases passed
  · rw [same]
    have named : item.id = approvalId := Table.get?_key found
    exact ⟨item, found, approved, action, resource, own, live, get?_setApproval.trans (if_pos named.symm)⟩
  · cases other.symm.trans risky

theorem authorizeOperation_error {session : Caller} {now : Instant} {permission resourceId approvalId metric : String}
    {delta : Nat} {refusal : Refusal}
    (refused : (authorizeOperation session now permission resourceId approvalId metric delta
      payload).2 = .error refusal) :
    (authorizeOperation session now permission resourceId approvalId metric delta
      payload).1.governance.quotaUsage = payload.governance.quotaUsage := by
  rcases authorizeOperation_cases payload session now permission resourceId
      approvalId metric delta with ⟨refusal, same⟩ | ⟨item, -, -, same⟩ |
      ⟨item, charged, -, -, -, -, -, -, -, -, same⟩ | ⟨charged, -, -, same⟩
  · rw [same]
  · rw [same]
    rfl
  · rw [same] at refused
    cases refused
  · rw [same] at refused
    cases refused

end Mutators

section Steps

variable {site : Site ν} {request : Request ν} {v : Vault (Payload ν Extensions)}
  {payload payload' : Payload ν Extensions} {id : String}

/-- What the mutator of an operation on approvals writes is accepted by `validate_payload`. The commit
of an authorization that fails in its audit record can restore the earlier payload. -/
def Site.Settles (site : Site ν) (v : Vault (Payload ν Extensions)) (request : Request ν) : Prop :=
  request.operation.onApproval = true →
    (request.weather.audits || request.weather.restores) = true ∧
      ∀ payload, v.live = some payload → (request.edit site payload).2 = .ok () →
        validatePayload site.text site.restValid (request.edit site payload).1 = true

/-- An approval that is requested has a new identity. -/
def Drawn (v : Vault (Payload ν Extensions)) (request : Request ν) : Prop :=
  ∀ payload, v.live = some payload → ∀ approvalId action resourceId reason ttl,
    request.operation = .requestApproval approvalId action resourceId reason ttl →
      payload.approval? approvalId = none

theorem Change.unrelated {before after : Option Approval} {outcome : Except Refusal Unit}
    (change : Change request id before after outcome) (other : request.operation.onApproval = false) :
    after = before := by
  cases change with
  | same => rfl
  | requested before reason ttl operation =>
    rw [operation] at other
    cases other
  | expired item concerned => cases other.symm.trans concerned
  | decided item approved operation =>
    rw [operation] at other
    cases other
  | consumed item metric amount operation =>
    rw [operation] at other
    cases other

theorem run_change (settles : site.Settles v request)
    (live' : (request.run site v).1.live = some payload') :
    ∃ payload, v.live = some payload ∧
      ∀ id, Change request id (payload.approval? id) (payload'.approval? id) (request.run site v).2 := by
  cases live : v.live with
  | none =>
    rw [run_sealed live, live] at live'
    cases live'
  | some payload =>
    refine ⟨payload, rfl, fun id => ?_⟩
    have change := edit_change site request payload id
    rcases run_cases live with ⟨refusal, same⟩ | ⟨-, same⟩ | ⟨refusal, refused, same⟩ |
      ⟨passed, invalid, same⟩ | ⟨passed, -, same | ⟨durable, refusal, -, same⟩ | ⟨-, same⟩⟩
    · rw [same] at live' ⊢
      cases live.symm.trans live'
      exact .same ..
    · rw [same] at live' ⊢
      cases live.symm.trans live'
      exact .same ..
    · rw [same] at live' ⊢
      cases live'
      exact refused ▸ change
    · rw [same] at live' ⊢
      cases live'
      cases concerned : request.operation.onApproval with
      | false =>
        rw [change.unrelated concerned]
        exact .same ..
      | true => cases ((settles concerned).2 payload live passed).symm.trans invalid
    · rw [same] at live' ⊢
      cases live'
      exact passed ▸ change
    · rw [same] at live' ⊢
      cases live'
      exact .same ..
    · rw [same] at live'
      cases live'

/-- Neither an approval is consumed nor quota charged, live or durable. -/
structure Spared (v v' : Vault (Payload ν Extensions)) : Prop where
  quota : (v'.live.map fun payload => payload.governance.quotaUsage) =
    v.live.map fun payload => payload.governance.quotaUsage
  approvals : ∀ id item, v'.approval? id = some item → item.status = .consumed → v.approval? id = some item
  durable : v'.durable = v.durable ∨ some v'.durable = v.live

theorem Spared.refl (v : Vault (Payload ν Extensions)) : Spared v v := ⟨rfl, fun _ _ found _ => found, .inl rfl⟩

theorem Change.raised {before : Option Approval} {item : Approval} {refusal : Refusal}
    (change : Change request id before (some item) (.error refusal)) (consumed : item.status = .consumed) :
    before = some item := by
  cases change with
  | same => rfl
  | expired => cases consumed

theorem edit_authorization_error {permission resourceId approvalId metric : String} {amount : Int}
    {refusal : Refusal}
    (operation : request.operation = .authorizeOperation permission resourceId approvalId metric amount)
    (refused : (request.edit site payload).2 = .error refusal) :
    (request.edit site payload).1.governance.quotaUsage = payload.governance.quotaUsage := by
  obtain ⟨session, now, _, weather⟩ := request
  cases operation
  simp only [Request.edit] at refused ⊢
  cases prepared : authorizeRequest site.text permission approvalId metric amount with
  | error => rfl
  | ok prepared' =>
    rw [prepared] at refused
    exact authorizeOperation_error refused

theorem run_spared {permission resourceId approvalId metric : String} {amount : Int} {refusal : Refusal}
    (operation : request.operation = .authorizeOperation permission resourceId approvalId metric amount)
    (settles : site.Settles v request) (raised : (request.run site v).2 = .error refusal) :
    Spared v (request.run site v).1 := by
  have concerned : request.operation.onApproval = true := by
    rw [operation]
    rfl
  cases live : v.live with
  | none =>
    rw [run_sealed live]
    exact .refl v
  | some payload =>
    rcases run_cases live with ⟨refusal, same⟩ | ⟨-, same⟩ | ⟨refusal, refused, same⟩ |
      ⟨passed, invalid, same⟩ | ⟨passed, -, same | ⟨durable, refusal, kept, same⟩ | ⟨unfair, same⟩⟩
    · rw [same]
      exact .refl v
    · rw [same] at raised
      cases raised
    · rw [same]
      refine ⟨?_, fun id item found consumed => ?_, .inl rfl⟩
      · rw [live]
        exact congrArg some (edit_authorization_error operation refused)
      · have change := edit_change site request payload id
        rw [refused, show (request.edit site payload).1.approval? id = some item from found] at change
        rw [Vault.approval?, live]
        exact change.raised consumed
    · cases ((settles concerned).2 payload live passed).symm.trans invalid
    · rw [same] at raised
      cases raised
    · rw [same]
      refine ⟨congrArg _ live.symm, fun id item found _ => ?_, kept.imp_right ?_⟩
      · rw [Vault.approval?, live]
        exact found
      · rintro rfl
        exact live.symm
    · cases (settles concerned).1.symm.trans unfair

/-- A request that lets an operation pass on an approval, which it consumes. -/
structure Grants (v v' : Vault (Payload ν Extensions)) (request : Request ν)
    (permission resourceId id : String) (item : Approval) : Prop where
  found : v.approval? id = some item
  approved : item.status = .approved
  action : item.action = permission
  resource : item.resourceId = resourceId
  own : item.requesterAccountId = request.session.accountId
  live : request.now < item.expiresAt
  consumed : v'.approval? id = some { item with status := .consumed }

theorem run_grants {permission resourceId metric : String} {amount : Int}
    (operation : request.operation = .authorizeOperation permission resourceId id metric amount)
    (risky : highRiskActions.contains permission = true) (passed : (request.run site v).2 = .ok ()) :
    ∃ item, Grants v (request.run site v).1 request permission resourceId id item := by
  have writes : request.operation.readOnly = false := by
    rw [operation]
    simp only [Operation.readOnly, risky]
    rfl
  obtain ⟨payload, live, edited, live'⟩ := run_passed writes passed
  obtain ⟨session, now, _, weather⟩ := request
  cases operation
  obtain ⟨prepared, -, edited, same⟩ := after_passed edited
  obtain ⟨item, found, approved, action, resource, own, going, consumed⟩ :=
    authorizeOperation_ok risky edited
  refine ⟨item, ?_, approved, action, resource, own, going, ?_⟩
  · rw [Vault.approval?, live]
    exact found
  · rw [Vault.approval?, live']
    exact (congrArg (fun payload => Payload.approval? payload id) same).trans consumed

end Steps

section Runs

variable {site : Site ν} {start : Vault (Payload ν Extensions)} {requests : List (Request ν)} {id : String}

/-- A request of the history that returned. -/
def Site.Returned (site : Site ν) (start : Vault (Payload ν Extensions)) (requests : List (Request ν))
    (request : Request ν) : Prop :=
  ∃ before after, requests = before ++ request :: after ∧
    (request.run site (run site.step start before)).2 = .ok ()

theorem Site.Returned.snoc {request last : Request ν} (h : site.Returned start requests request) :
    site.Returned start (requests ++ [last]) request := by
  obtain ⟨before, after, rfl, passed⟩ := h
  exact ⟨before, after ++ [last], by simp, passed⟩

/-- The approval was requested. -/
def Site.Asked (site : Site ν) (start : Vault (Payload ν Extensions)) (requests : List (Request ν))
    (id : String) (item : Approval) : Prop :=
  ∃ request reason ttl, site.Returned start requests request ∧
    request.operation = .requestApproval id item.action item.resourceId reason ttl ∧
    request.session.accountId = item.requesterAccountId ∧ item.expiresAt = approvalExpiry request.now ttl

/-- Another account decided for it in time. -/
def Site.Decided (site : Site ν) (start : Vault (Payload ν Extensions)) (requests : List (Request ν))
    (id : String) (item : Approval) : Prop :=
  ∃ request, site.Returned start requests request ∧ request.operation = .decideApproval id true ∧
    request.now < item.expiresAt ∧ request.session.accountId ≠ item.requesterAccountId

/-- Where an approval comes from. -/
def Site.Known (site : Site ν) (start : Vault (Payload ν Extensions)) (id : String)
    (requests : List (Request ν)) (v : Vault (Payload ν Extensions)) : Prop :=
  ∀ item, v.approval? id = some item →
    site.Asked start requests id item ∧
      (item.status = .approved ∨ item.status = .consumed → site.Decided start requests id item)

theorem known (new : start.approval? id = none) (requests : List (Request ν))
    (settles : Each site.step (fun v request => site.Settles v request ∧ Drawn v request) start requests) :
    site.Known start id requests (run site.step start requests) := by
  refine induct (I := site.Known start id) (fun item found => ?_) ?_ requests (meets_of_each settles)
  · cases new.symm.trans found
  · intro requests request ⟨settles, _⟩ held item found
    cases unlocked : (site.step (run site.step start requests) request).live with
    | none =>
      rw [Vault.approval?, unlocked] at found
      cases found
    | some payload' =>
      rw [Vault.approval?, unlocked] at found
      have found : payload'.approval? id = some item := found
      obtain ⟨payload, live, change⟩ := run_change settles unlocked
      have change := change id
      have earlier {before : Approval} (was : payload.approval? id = some before) :
          site.Asked start (requests ++ [request]) id before ∧
            (before.status = .approved ∨ before.status = .consumed →
              site.Decided start (requests ++ [request]) id before) := by
        obtain ⟨⟨asked, reason, ttl, returned, rest⟩, decided⟩ := held before (by
          rw [Vault.approval?, live]
          exact was)
        refine ⟨⟨asked, reason, ttl, returned.snoc, rest⟩, fun status => ?_⟩
        obtain ⟨decider, returned, rest⟩ := decided status
        exact ⟨decider, returned.snoc, rest⟩
      rw [found] at change
      generalize was : payload.approval? id = before at change
      generalize answered : (request.run site (run site.step start requests)).2 = outcome at change
      cases change with
      | same => exact earlier was
      | requested before reason ttl operation requester status expires =>
        refine ⟨⟨request, reason, ttl, ⟨requests, [], rfl, answered⟩, operation, requester.symm, expires⟩,
          fun other => ?_⟩
        rw [status] at other
        rcases other with other | other <;> cases other
      | expired before concerned going refusal =>
        refine ⟨(earlier was).1, fun other => ?_⟩
        rcases other with other | other <;> cases other
      | decided before approved operation status live other =>
        refine ⟨(earlier was).1, fun positive => ?_⟩
        cases approved with
        | false => rcases positive with other | other <;> cases other
        | true => exact ⟨request, ⟨requests, [], rfl, answered⟩, operation, live, other⟩
      | consumed before metric amount operation risky status live own =>
        exact ⟨(earlier was).1, fun _ => (earlier was).2 (.inl status)⟩

/-- The statuses that an approval keeps. -/
def ApprovalStatus.final : ApprovalStatus → Bool
  | .rejected => true
  | .expired => true
  | .consumed => true
  | _ => false

theorem Change.keeps {request : Request ν} {item : Approval} {after : Option Approval}
    {outcome : Except Refusal Unit} (change : Change request id (some item) after outcome)
    (final : item.status.final = true)
    (drawn : ∀ action resourceId reason ttl,
      request.operation ≠ .requestApproval id action resourceId reason ttl) :
    after = some item := by
  cases change with
  | same => rfl
  | requested before reason ttl operation => exact (drawn _ _ _ _ operation).elim
  | expired item concerned going =>
    rcases going with going | going <;> rw [going] at final <;> cases final
  | decided item approved operation status =>
    rw [status] at final
    cases final
  | consumed item metric amount operation risky status =>
    rw [status] at final
    cases final

theorem final_stays {v : Vault (Payload ν Extensions)} {item : Approval} (found : v.approval? id = some item)
    (final : item.status.final = true) (requests : List (Request ν))
    (settles : Each site.step (fun v request => site.Settles v request ∧ Drawn v request) v requests) :
    ∀ payload', (run site.step v requests).live = some payload' → payload'.approval? id = some item := by
  refine induct (I := fun _ v => ∀ payload', v.live = some payload' → payload'.approval? id = some item)
    (fun payload' live => ?_) ?_ requests (meets_of_each settles)
  · rw [Vault.approval?, live] at found
    exact found
  · intro requests request ⟨settles, drawn⟩ held payload' live'
    obtain ⟨payload, live, change⟩ := run_change settles live'
    have change := held payload live ▸ change id
    refine change.keeps final fun action resourceId reason ttl operation => ?_
    cases (held payload live).symm.trans (drawn payload live id action resourceId reason ttl operation)

/-- The request returned after these, and let a high-risk operation pass on the approval. -/
structure Site.Consumes (site : Site ν) (start : Vault (Payload ν Extensions)) (before : List (Request ν))
    (request : Request ν) (permission resourceId id : String) : Prop where
  authorizes : ∃ metric amount,
    request.operation = .authorizeOperation permission resourceId id metric amount
  risky : highRiskActions.contains permission = true
  passed : (request.run site (run site.step start before)).2 = .ok ()

/-- What four eyes see of an approval, over a history. -/
structure Site.SingleUse (site : Site ν) (start : Vault (Payload ν Extensions))
    (requests : List (Request ν)) : Prop where
  granted : ∀ before request after permission resourceId id, requests = before ++ request :: after →
    site.Consumes start before request permission resourceId id →
      ∃ item, Grants (run site.step start before) (site.step (run site.step start before) request) request
          permission resourceId id item ∧
        (start.approval? id = none → site.Asked start before id item ∧ site.Decided start before id item)
  once : ∀ before request after before' request' after' id permission resourceId permission' resourceId',
    requests = before ++ request :: after → requests = before' ++ request' :: after' →
      site.Consumes start before request permission resourceId id →
        site.Consumes start before' request' permission' resourceId' id → before = before'
  final : ∀ before middle after id item, requests = before ++ middle ++ after →
    (run site.step start before).approval? id = some item → item.status.final = true →
      ∀ payload, (run site.step start (before ++ middle)).live = some payload →
        payload.approval? id = some item
  spared : ∀ before request after permission resourceId id metric amount refusal,
    requests = before ++ request :: after →
      request.operation = .authorizeOperation permission resourceId id metric amount →
        (request.run site (run site.step start before)).2 = .error refusal →
          Spared (run site.step start before) (site.step (run site.step start before) request)

theorem Site.Consumes.grants {before : List (Request ν)} {request : Request ν} {permission resourceId : String}
    (h : site.Consumes start before request permission resourceId id) :
    ∃ item, Grants (run site.step start before) (site.step (run site.step start before) request) request
      permission resourceId id item := by
  obtain ⟨metric, amount, operation⟩ := h.authorizes
  exact run_grants operation h.risky h.passed

theorem consumed_once {before middle : List (Request ν)} {request request' : Request ν}
    {permission resourceId permission' resourceId' : String}
    (settles : Each site.step (fun v request => site.Settles v request ∧ Drawn v request)
      (site.step (run site.step start before) request) middle)
    (first : site.Consumes start before request permission resourceId id) :
    ¬ site.Consumes start (before ++ request :: middle) request' permission' resourceId' id := by
  intro second
  obtain ⟨item, granted⟩ := first.grants
  obtain ⟨item', granted'⟩ := second.grants
  have reached : run site.step start (before ++ request :: middle) =
      run site.step (site.step (run site.step start before) request) middle := by
    rw [run, run, run, List.foldl_append, List.foldl_cons]
  have stays := final_stays granted.consumed rfl middle settles
  rw [← reached] at stays
  have found := granted'.found
  cases live : (run site.step start (before ++ request :: middle)).live with
  | none =>
    rw [Vault.approval?, live] at found
    cases found
  | some payload =>
    rw [Vault.approval?, live] at found
    have found : payload.approval? id = some item' := found
    cases (stays payload live).symm.trans found
    cases granted'.approved

theorem approval_single_use {start : Vault (Payload ν Extensions)} (requests : List (Request ν))
    (settles : Each site.step (fun v request => site.Settles v request ∧ Drawn v request) start requests) :
    site.SingleUse start requests where
  granted := by
    rintro before request after permission resourceId id rfl consumes
    obtain ⟨item, granted⟩ := consumes.grants
    refine ⟨item, granted, fun new => ?_⟩
    obtain ⟨asked, decided⟩ := known new before (each_append.mp settles).1 item granted.found
    exact ⟨asked, decided (.inl granted.approved)⟩
  once := by
    rintro before request after before' request' after' id permission resourceId permission' resourceId'
      rfl split consumes consumes'
    rcases List.append_eq_append_iff.mp split with ⟨middle, rfl, rest⟩ | ⟨middle, rfl, rest⟩
    · cases middle with
      | nil => simp
      | cons first middle =>
        obtain ⟨rfl, rfl⟩ := List.cons.inj rest
        have settles := (each_append.mp (each_append.mp settles).2.2).1
        exact absurd consumes' (consumed_once settles consumes)
    · cases middle with
      | nil => simp
      | cons first middle =>
        obtain ⟨rfl, rfl⟩ := List.cons.inj rest
        rw [List.append_assoc] at settles
        have settles := (each_append.mp (each_append.mp settles).2.2).1
        exact absurd consumes (consumed_once settles consumes')
  final := by
    rintro before middle after id item rfl found final
    rw [List.append_assoc] at settles
    have settles := (each_append.mp (each_append.mp settles).2).1
    rw [run, List.foldl_append]
    exact final_stays found final middle settles
  spared := by
    rintro before request after permission resourceId id metric amount refusal rfl operation raised
    exact run_spared operation (each_append.mp settles).2.1.1 raised

end Runs

section Exports

open History

/-- A dataset whose exports are counted. -/
def exportsPayload : Payload String Extensions :=
  governedPayload.setGovernance {
    workspaces := .empty
    teams := .empty
    resources := ⟨[⟨"dataset:sales", "dataset", "sales", "", "account-root", "", "workspace", 365, [], []⟩],
      by decide⟩
    approvals := .empty
    quotaUsage := fun resourceId metric =>
      if resourceId = "dataset:sales" ∧ metric = "exports" then 9 else 0 }

def exporting : Vault (Payload String Extensions) := ⟨some exportsPayload, exportsPayload⟩

def askExport : Request String :=
  ⟨rootSession, 0, .requestApproval "approval" "dataset.export" "dataset:sales" "" 600, fairWeather⟩

def approveExport : Request String :=
  ⟨⟨"account-admin", true, true⟩, 1, .decideApproval "approval" true, fairWeather⟩

def exportSales : Request String :=
  ⟨rootSession, 2, .authorizeOperation "dataset.export" "dataset:sales" "approval" "exports" 1, fairWeather⟩

theorem settles_of_all {site : Site ν} {v : Vault (Payload ν Extensions)} {request : Request ν}
    (weather : request.weather = fairWeather)
    (valid : (v.live.all fun payload =>
      validatePayload site.text site.restValid (request.edit site payload).1) = true) :
    site.Settles v request :=
  fun _ => ⟨by rw [weather]; rfl, fun payload live _ => (Option.all_eq_true ..).mp valid payload live⟩

theorem drawn_askExport : Drawn exporting askExport := by
  rintro payload live approvalId action resourceId reason ttl operation
  cases live
  rfl

theorem drawn_approveExport {v : Vault (Payload String Extensions)} : Drawn v approveExport := by
  rintro payload live approvalId action resourceId reason ttl operation
  cases operation

theorem drawn_exportSales {v : Vault (Payload String Extensions)} : Drawn v exportSales := by
  rintro payload live approvalId action resourceId reason ttl operation
  cases operation

theorem approval_single_use_export :
    plainSite.Consumes exporting [askExport, approveExport] exportSales "dataset.export" "dataset:sales"
      "approval" ∧
    plainSite.SingleUse exporting [askExport, approveExport, exportSales] := by
  have evaluated : (exportSales.run plainSite (run plainSite.step exporting [askExport, approveExport])).2 = .ok () ∧
      ∀ made ∈ [(exporting, askExport), (plainSite.step exporting askExport, approveExport),
        (plainSite.step (plainSite.step exporting askExport) approveExport, exportSales)],
        (made.1.live.all fun payload =>
          validatePayload plainSite.text plainSite.restValid (made.2.edit plainSite payload).1) = true := by
    decide +kernel
  obtain ⟨passed, valid⟩ := evaluated
  simp only [List.forall_mem_cons] at valid
  exact ⟨⟨⟨_, _, rfl⟩, by decide, passed⟩, approval_single_use _
    ⟨⟨settles_of_all rfl valid.1, drawn_askExport⟩, ⟨settles_of_all rfl valid.2.1, drawn_approveExport⟩,
      ⟨settles_of_all rfl valid.2.2.1, drawn_exportSales⟩, trivial⟩⟩

/-- The extensions are at the bound on their size: a count of two digits no longer fits. -/
def tightSite : Site String :=
  { plainSite with restValid := fun extensions =>
      (Nat.repr (extensions.governance.quotaUsage "dataset:sales" "exports")).length ≤ 1 }

/-- The authorization raises, with its approval consumed and its quota charged. -/
theorem refused_export_consumes :
    Each tightSite.step Drawn exporting [askExport, approveExport, exportSales] ∧
      (exportSales.run tightSite (run tightSite.step exporting [askExport, approveExport])).2 =
        .error .payloadInvalid ∧
      ¬ tightSite.SingleUse exporting [askExport, approveExport, exportSales] := by
  let before := run tightSite.step exporting [askExport, approveExport]
  have evaluated : (exportSales.run tightSite before).2 = .error .payloadInvalid ∧
      ((tightSite.step before exportSales).live.map fun payload =>
          payload.governance.quotaUsage "dataset:sales" "exports") ≠
        before.live.map fun payload => payload.governance.quotaUsage "dataset:sales" "exports" := by decide +kernel
  obtain ⟨raised, charged⟩ := evaluated
  refine ⟨⟨drawn_askExport, drawn_approveExport, drawn_exportSales, trivial⟩, raised, fun holds => ?_⟩
  have spared := (holds.spared [askExport, approveExport] exportSales [] _ _ _ _ _ _ rfl rfl raised).quota
  have usage := congrArg (Option.map fun quotaUsage => quotaUsage "dataset:sales" "exports") spared
  rw [Option.map_map, Option.map_map] at usage
  exact charged usage

end Exports

end Arenyxa.Enterprise
