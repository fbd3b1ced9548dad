import Arenyxa.Enterprise.Accounts

/-! The mutators of governance: workspaces, teams, resources, approvals and quota. -/

namespace Arenyxa.Enterprise

open SortedSet (sortedSet)

variable {ν : Type}

def resourceKinds : List String :=
  ["workspace", "project", "workflow", "dataset", "capture", "schedule", "worker"]

def resourceScopes : List String := ["private", "team", "workspace", "enterprise"]

/-- `RESOURCE_PERMISSION_MAP` -/
def resourcePermissions : String → List String
  | "dataset" => ["dataset.read", "dataset.write", "dataset.export"]
  | "workflow" => ["workflow.execute", "workflow.publish"]
  | "capture" => ["enterprise.capture.run"]
  | "schedule" => ["schedule.manage"]
  | "worker" => ["worker.use"]
  | "workspace" => ["enterprise.workspace.manage"]
  | "project" => ["enterprise.workspace.manage"]
  | _ => []

def highRiskActions : List String := ["workflow.publish", "dataset.export", "enterprise.policy.modify"]

section Registration

variable (text : Text ν)

/-- `str(title).strip()[:160] or default` -/
def clipped (default title : String) : String :=
  let clip := String.ofList ((text.strip title).toList.take 160)
  if clip = "" then default else clip

def retention (days : Int) : Nat := (min 3650 (max 1 days)).toNat

/-- `_clean_id` -/
def cleanId (value : String) : Except Refusal String :=
  let stripped := text.strip value
  if stripped = "" || 160 < stripped.length then .error .idInvalid else .ok stripped

/-- A mutator of governance that checks before it writes. `_state` comes first. -/
def governanceEdit {α ρ : Type} (check : Payload ν Extensions → Except Refusal α)
    (write : α → Governance → Governance) (result : α → ρ) : Edit (Payload ν Extensions) ρ :=
  Edit.guarded
    (fun payload => if !payload.governance.accepted then .error .stateInvalid else check payload)
    (fun a payload => payload.setGovernance (write a payload.governance)) result

def createWorkspace (workspaceId title owner : String) (retentionDays : Int) :
    Edit (Payload ν Extensions) String :=
  governanceEdit
    (fun payload =>
      if (payload.accounts.get? owner).isNone then .error .ownerInvalid
      else .ok (⟨workspaceId, clipped text "Workspace" title, owner, retention retentionDays⟩ : Workspace))
    (fun workspace g => { g with workspaces := g.workspaces.assign workspace }) Workspace.id

def createTeam (teamId workspaceId title : String) (memberAccountIds : List String) :
    Edit (Payload ν Extensions) String :=
  let members := sortedSet (memberAccountIds.filter (· ≠ ""))
  governanceEdit
    (fun payload =>
      if (payload.governance.workspaces.get? workspaceId).isNone then .error .workspaceMissing
      else if members.any fun accountId => (payload.accounts.get? accountId).isNone then
        .error .memberInvalid
      else .ok (⟨teamId, workspaceId, clipped text "Team" title, members⟩ : Team))
    (fun team g => { g with teams := g.teams.assign team }) Team.id

/-- The request of `register_resource`, checked and normalised. The binding in the local store is
left out. -/
def resourceRequest (kind externalId workspaceId owner teamId scope : String) (retentionDays : Int)
    (quota : List (String × Int)) : Except Refusal Resource :=
  let kind := text.casefold (text.strip kind)
  let scope := text.casefold (text.strip scope)
  let scope := if scope = "" then "workspace" else scope
  let quota := (quota.filter (·.1 ≠ "")).map fun entry => (entry.1, entry.2.toNat)
  if !resourceKinds.contains kind then .error .resourceKind
  else match cleanId text externalId with
    | .error refusal => .error refusal
    | .ok external =>
      if !resourceScopes.contains scope then .error .scopeInvalid
      else if scope = "team" && teamId = "" then .error .scopeInvalid
      else if 16 < quota.length then .error .quotaInvalid
      else .ok ⟨kind ++ ":" ++ external, kind, external, workspaceId, owner, teamId, scope,
        retention retentionDays, quota, []⟩

/-- Registering a resource again replaces the record and keeps its usage. -/
def registerResource (resource : Resource) : Edit (Payload ν Extensions) String :=
  governanceEdit
    (fun payload =>
      if (payload.governance.workspaces.get? resource.workspaceId).isNone then .error .workspaceMissing
      else if (payload.accounts.get? resource.ownerAccountId).isNone then .error .ownerInvalid
      else if resource.teamId ≠ "" && (payload.governance.teams.get? resource.teamId).isNone then
        .error .teamMissing
      else .ok resource)
    (fun resource g => { g with resources := g.resources.assign resource }) Resource.id

def grantRole (resourceId roleId : String) (permissions : List String) :
    Edit (Payload ν Extensions) Unit :=
  let requested := sortedSet (permissions.filter (· ≠ ""))
  governanceEdit
    (fun payload => match payload.governance.resources.get? resourceId with
      | none => .error .resourceMissing
      | some resource =>
        if (payload.roles.get? roleId).isNone then .error .role
        else if requested.any fun permission =>
            !(resourcePermissions resource.kind).contains permission then
          .error .permissionInvalid
        else .ok { resource with
          grants := (roleId, requested) :: resource.grants.filter (·.1 ≠ roleId) })
    (fun resource g => { g with resources := g.resources.assign resource }) fun _ => ()

end Registration

section Quota

def Governance.charge (g : Governance) (resourceId metric : String) (usage : Nat) : Governance :=
  { g with quotaUsage := fun r m => if r = resourceId ∧ m = metric then usage else g.quotaUsage r m }

/-- A reservation of quota on a resource. Without a limit the usage is counted all the same. -/
def reserve (g : Governance) (resource : Resource) (resourceId metric : String) (delta : Nat) :
    Except Refusal Governance :=
  let limit := (resource.quota.lookup metric).getD 0
  let usage := g.quotaUsage resourceId metric + delta
  if 0 < limit && limit < usage then .error .quotaExceeded
  else .ok (g.charge resourceId metric usage)

/-- `reserve_quota` and `reserve_for_operation` have the same mutator. -/
def reserveQuota (resourceId metric : String) (delta : Nat) : Edit (Payload ν Extensions) Unit :=
  governanceEdit
    (fun payload => match payload.governance.resources.get? resourceId with
      | none => .error .resourceMissing
      | some resource => reserve payload.governance resource resourceId metric delta)
    (fun g _ => g) fun _ => ()

/-- `release_quota` and `release_for_operation` have the same mutator. -/
def releaseQuota (resourceId metric : String) (delta : Nat) : Edit (Payload ν Extensions) Unit :=
  governanceEdit (fun _ => .ok ())
    (fun _ g => g.charge resourceId metric (g.quotaUsage resourceId metric - delta)) fun _ => ()

end Quota

section Approvals

variable (session : Caller) (now : Instant)

def requestApproval (approvalId action resourceId reason : String) (ttl : Int) :
    Edit (Payload ν Extensions) String :=
  governanceEdit
    (fun _ => .ok {
      id := approvalId
      action := action
      resourceId := resourceId
      requesterAccountId := session.accountId
      approverAccountId := ""
      status := .pending
      reason := String.ofList (reason.toList.take 512)
      expiresAt := expiry now 300 (24 * 3600) ttl })
    (fun approval g => { g with approvals := g.approvals.assign approval }) Approval.id

def Governance.setApproval (g : Governance) (approval : Approval) : Governance :=
  { g with approvals := g.approvals.assign approval }

/-- An approval whose time is over is marked before the mutator raises. -/
def decideApproval (approvalId : String) (approved : Bool) : Edit (Payload ν Extensions) Unit :=
  fun payload =>
    let g := payload.governance
    if !g.accepted then (payload, .error .stateInvalid)
    else match g.approvals.get? approvalId with
      | none => (payload, .error .approvalInvalid)
      | some item =>
        if item.status ≠ .pending then (payload, .error .approvalInvalid)
        else if item.expiresAt ≤ now then
          (payload.setGovernance (g.setApproval { item with status := .expired }),
            .error .approvalExpired)
        else if session.accountId = item.requesterAccountId then (payload, .error .selfReview)
        else
          (payload.setGovernance (g.setApproval { item with
            status := if approved then .approved else .rejected
            approverAccountId := session.accountId }), .ok ())

/-- What the mutator of `authorize_operation` charges. -/
def chargeOperation (g : Governance) (resource : Resource) (resourceId metric : String) (delta : Nat) :
    Except Refusal Governance :=
  if metric ≠ "" && 0 < delta then reserve g resource resourceId metric delta else .ok g

/-- The mutator of `authorize_operation`. The approval is checked first and consumed last. The
resource scope and the zero-trust policy are checked before it and only read, so they count as
permission checks. -/
def authorizeOperation (permission resourceId approvalId metric : String) (delta : Nat) :
    Edit (Payload ν Extensions) Unit :=
  fun payload =>
    let g := payload.governance
    if !g.accepted then (payload, .error .stateInvalid)
    else match g.resources.get? resourceId with
      | none => (payload, .error .resourceMissing)
      | some resource =>
        if highRiskActions.contains permission then
          match g.approvals.get? approvalId with
          | none => (payload, .error .approvalRequired)
          | some item =>
            if item.status ≠ .approved then (payload, .error .approvalRequired)
            else if item.action ≠ permission || item.resourceId ≠ resourceId then
              (payload, .error .approvalRequired)
            else if item.requesterAccountId ≠ session.accountId then
              (payload, .error .requesterMismatch)
            else if item.expiresAt ≤ now then
              (payload.setGovernance (g.setApproval { item with status := .expired }),
                .error .approvalExpired)
            else match chargeOperation g resource resourceId metric delta with
              | .error refusal => (payload, .error refusal)
              | .ok charged =>
                (payload.setGovernance (charged.setApproval { item with status := .consumed }), .ok ())
        else match chargeOperation g resource resourceId metric delta with
          | .error refusal => (payload, .error refusal)
          | .ok charged => (payload.setGovernance charged, .ok ())

/-- What `authorize_operation` asks before it enters the mutator. -/
def authorizeRequest (text : Text ν) (permission approvalId metric : String) (amount : Int) :
    Except Refusal (String × Nat) :=
  match if metric = "" then .ok "" else cleanId text metric with
  | .error refusal => .error refusal
  | .ok metric =>
    if amount < 0 then .error .quotaInvalid
    else if highRiskActions.contains permission && approvalId = "" then .error .approvalRequired
    else .ok (metric, amount.toNat)

end Approvals

section Outcomes

theorem chargeOperation_ok {g charged : Governance} {resource : Resource} {resourceId metric : String}
    {delta : Nat} (h : chargeOperation g resource resourceId metric delta = .ok charged) :
    charged = { g with quotaUsage := charged.quotaUsage } := by
  rw [chargeOperation] at h
  split at h
  next =>
    rw [reserve] at h
    split at h
    next => cases h
    next =>
      cases h
      rfl
  next =>
    cases h
    rfl

theorem decideApproval_cases (payload : Payload ν Extensions) (session : Caller) (now : Instant)
    (approvalId : String) (approved : Bool) :
    (∃ refusal, decideApproval session now approvalId approved payload = (payload, .error refusal)) ∨
    (∃ item, payload.governance.approvals.get? approvalId = some item ∧ item.status = .pending ∧
      decideApproval session now approvalId approved payload =
        (payload.setGovernance (payload.governance.setApproval { item with status := .expired }),
          .error .approvalExpired)) ∨
    ∃ item, payload.governance.approvals.get? approvalId = some item ∧ item.status = .pending ∧
      now < item.expiresAt ∧ session.accountId ≠ item.requesterAccountId ∧
      decideApproval session now approvalId approved payload =
        (payload.setGovernance (payload.governance.setApproval { item with
          status := if approved then .approved else .rejected
          approverAccountId := session.accountId }), .ok ()) := by
  rw [decideApproval]
  split
  next => exact .inl ⟨_, rfl⟩
  next =>
    split
    next => exact .inl ⟨_, rfl⟩
    next item found =>
      split
      next => exact .inl ⟨_, rfl⟩
      next pending =>
        have pending : item.status = .pending := not_not.mp pending
        split
        next => exact .inr (.inl ⟨item, found, pending, rfl⟩)
        next live =>
          split
          next => exact .inl ⟨_, rfl⟩
          next other => exact .inr (.inr ⟨item, found, pending, Nat.lt_of_not_le live, other, rfl⟩)

theorem authorizeOperation_cases (payload : Payload ν Extensions) (session : Caller) (now : Instant)
    (permission resourceId approvalId metric : String) (delta : Nat) :
    (∃ refusal, authorizeOperation session now permission resourceId approvalId metric delta payload =
      (payload, .error refusal)) ∨
    (∃ item, payload.governance.approvals.get? approvalId = some item ∧ item.status = .approved ∧
      authorizeOperation session now permission resourceId approvalId metric delta payload =
        (payload.setGovernance (payload.governance.setApproval { item with status := .expired }),
          .error .approvalExpired)) ∨
    (∃ item, ∃ charged : Governance, highRiskActions.contains permission = true ∧
      payload.governance.approvals.get? approvalId = some item ∧ item.status = .approved ∧
      item.action = permission ∧ item.resourceId = resourceId ∧
      item.requesterAccountId = session.accountId ∧ now < item.expiresAt ∧
      (∃ resource, chargeOperation payload.governance resource resourceId metric delta = .ok charged) ∧
      authorizeOperation session now permission resourceId approvalId metric delta payload =
        (payload.setGovernance (charged.setApproval { item with status := .consumed }), .ok ())) ∨
    ∃ charged : Governance, highRiskActions.contains permission = false ∧
      (∃ resource, chargeOperation payload.governance resource resourceId metric delta = .ok charged) ∧
      authorizeOperation session now permission resourceId approvalId metric delta payload =
        (payload.setGovernance charged, .ok ()) := by
  rw [authorizeOperation]
  split
  next => exact .inl ⟨_, rfl⟩
  next =>
    split
    next => exact .inl ⟨_, rfl⟩
    next resource _ =>
      split
      next risky =>
        split
        next => exact .inl ⟨_, rfl⟩
        next item found =>
          split
          next => exact .inl ⟨_, rfl⟩
          next approved =>
            split
            next => exact .inl ⟨_, rfl⟩
            next fits =>
              simp only [Bool.or_eq_true, decide_eq_true_eq, not_or, not_not] at fits
              split
              next => exact .inl ⟨_, rfl⟩
              next own =>
                split
                next => exact .inr (.inl ⟨item, found, not_not.mp approved, rfl⟩)
                next live =>
                  split
                  next => exact .inl ⟨_, rfl⟩
                  next charged passed =>
                    exact .inr (.inr (.inl ⟨item, charged, risky, found, not_not.mp approved, fits.1,
                      fits.2, not_not.mp own, Nat.lt_of_not_le live, ⟨resource, passed⟩, rfl⟩))
      next ordinary =>
        split
        next => exact .inl ⟨_, rfl⟩
        next charged passed =>
          exact .inr (.inr (.inr ⟨charged, eq_false_of_ne_true ordinary, ⟨resource, passed⟩, rfl⟩))

end Outcomes

end Arenyxa.Enterprise
