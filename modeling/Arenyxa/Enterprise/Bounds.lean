import Arenyxa.Enterprise.Escalation

/-! The limits of the tables of governance and enrollment, which `_state` tests before an operation
and which some operations do not test before they insert. -/

namespace Arenyxa.Enterprise

variable {ν ε ρ α : Type}

section Tables

variable {r : Type} {κ : Type} [Keyed r κ] [DecidableEq κ] {t : Table r} {row : r}

/-- The table has the row already, or room for one more. -/
def hasRoom (t : Table r) (key : κ) (limit : Nat) : Bool := (t.get? key).isSome || t.rows.length < limit

theorem length_assign_known (known : (t.get? (Keyed.key row)).isSome = true) :
    (t.assign row).rows.length = t.rows.length := by
  rw [Table.rows_assign_of_mem (by simpa [Option.isSome_iff_ne_none] using known), List.length_map]

theorem length_assign_room {limit : Nat} (bound : t.rows.length ≤ limit)
    (room : hasRoom t (Keyed.key row) limit = true) : (t.assign row).rows.length ≤ limit := by
  rw [hasRoom, Bool.or_eq_true] at room
  rcases room with known | room
  · exact (length_assign_known known).trans_le bound
  · exact (Table.length_assign_le t row).trans (of_decide_eq_true room)

theorem length_foldl_assign {β : Type} (make : β → r) (l : List β) :
    (l.foldl (fun table x => table.assign (make x)) t).rows.length ≤ t.rows.length + l.length := by
  induction l generalizing t with
  | nil => exact le_refl _
  | cons x rest ih =>
    calc _ ≤ (t.assign (make x)).rows.length + rest.length := ih
      _ ≤ t.rows.length + 1 + rest.length := Nat.add_le_add_right (Table.length_assign_le t (make x)) _
      _ = t.rows.length + (x :: rest).length := by rw [List.length_cons]; omega

omit [DecidableEq κ] in
theorem length_updateWhere {p : r → Bool} {f : r → r} {hf : ∀ x, Keyed.key (f x) = Keyed.key x} :
    (t.updateWhere p f hf).rows.length = t.rows.length := List.length_map _

end Tables

theorem Governance.accepted_iff {g : Governance} :
    g.accepted = true ↔ g.workspaces.rows.length ≤ maxWorkspaces ∧ g.teams.rows.length ≤ maxTeams ∧
      g.resources.rows.length ≤ maxResources ∧ g.approvals.rows.length ≤ maxApprovals := by
  simp only [Governance.accepted, Bool.and_eq_true, decide_eq_true_eq, and_assoc]

theorem Enrollment.accepted_iff {e : Enrollment} :
    e.accepted = true ↔ e.campaigns.rows.length ≤ maxCampaigns ∧
      e.credentials.rows.length ≤ maxCredentials ∧ e.devices.rows.length ≤ maxDevices := by
  simp only [Enrollment.accepted, Bool.and_eq_true, decide_eq_true_eq, and_assoc]

/-- `_state` accepts both namespaces. -/
def Payload.Bounded (payload : Payload ν Extensions) : Prop :=
  payload.governance.accepted = true ∧ payload.enrollment.accepted = true

/-- What the code does not test: the tables that it inserts into have room. -/
def Operation.findsRoom (text : Text ν) (payload : Payload ν Extensions) : Operation ν → Bool
  | .createWorkspace workspaceId .. => hasRoom payload.governance.workspaces workspaceId maxWorkspaces
  | .createTeam teamId .. => hasRoom payload.governance.teams teamId maxTeams
  | .registerResource kind externalId workspaceId owner teamId scope retentionDays quota =>
    match resourceRequest text kind externalId workspaceId owner teamId scope retentionDays quota with
    | .error _ => true
    | .ok resource => hasRoom payload.governance.resources resource.id maxResources
  | .requestApproval approvalId .. => hasRoom payload.governance.approvals approvalId maxApprovals
  | .consume _ device .. => hasRoom payload.enrollment.devices device.deviceId maxDevices
  | _ => true

section Mutators

variable {payload : Payload ν Extensions}

theorem Payload.Bounded.of_rest {edited : Payload ν Extensions} (h : payload.Bounded)
    (same : edited.rest = payload.rest) : edited.Bounded := by
  rw [Payload.Bounded, Payload.governance, Payload.enrollment, same]
  exact h

theorem Payload.Bounded.setGovernance (h : payload.Bounded) {g : Governance} (accepted : g.accepted = true) :
    (payload.setGovernance g).Bounded := ⟨accepted, h.2⟩

theorem guarded_rest {payload : Payload ν ε} {check : Payload ν ε → Except Refusal α}
    {write : α → Payload ν ε → Payload ν ε} {f : α → ρ} (h : ∀ a, (write a payload).rest = payload.rest) :
    (Edit.guarded check write f payload).1.rest = payload.rest := by
  rw [Edit.guarded]
  split
  next => rfl
  next a _ => exact h a

theorem bulkRows_rest {text : Text ν} {session : Caller} {payload : Payload ν ε} (rows : List MemberRow)
    (seen created : List String) :
    (bulkRows text session rows seen created payload).1.rest = payload.rest := by
  induction rows generalizing payload seen created with
  | nil => rfl
  | cons row rest ih =>
    rw [bulkRows]
    split
    next => rfl
    next account _ => exact ih (account.username :: seen) (created ++ [account.id])

theorem setAccounts_rest {payload : Payload ν ε} (accounts : List (Account ν)) :
    (accounts.foldl Payload.setAccount payload).rest = payload.rest := by
  induction accounts generalizing payload with
  | nil => rfl
  | cons account rest ih => exact ih

theorem governanceEdit_bounded (h : payload.Bounded) {check : Payload ν Extensions → Except Refusal α}
    {write : α → Governance → Governance} {f : α → ρ}
    (kept : ∀ a, check payload = .ok a → (write a payload.governance).accepted = true) :
    (governanceEdit check write f payload).1.Bounded := by
  rw [governanceEdit, Edit.guarded]
  split
  next => exact h
  next a passed =>
    split at passed
    next => cases passed
    next => exact h.setGovernance (kept a passed)

theorem enrollmentEdit_bounded (h : payload.Bounded) {check : Payload ν Extensions → Except Refusal α}
    {write : α → Payload ν Extensions → Payload ν Extensions} {f : α → ρ}
    (kept : ∀ a, check payload = .ok a → (write a payload).Bounded) :
    (enrollmentEdit check write f payload).1.Bounded := by
  rw [enrollmentEdit, Edit.guarded]
  split
  next => exact h
  next a passed =>
    split at passed
    next => cases passed
    next => exact kept a passed

theorem after_bounded (h : payload.Bounded) {request : Except Refusal α}
    {edit : α → Edit (Payload ν Extensions) ρ}
    (kept : ∀ a, request = .ok a → (edit a payload).1.Bounded) :
    (Edit.after request edit payload).1.Bounded := by
  cases request with
  | error => exact h
  | ok a => exact kept a rfl

theorem setApproval_accepted {g : Governance} (h : g.accepted = true) {approval : Approval}
    (known : (g.approvals.get? approval.id).isSome = true) : (g.setApproval approval).accepted = true := by
  obtain ⟨workspaces, teams, resources, approvals⟩ := Governance.accepted_iff.1 h
  exact Governance.accepted_iff.2
    ⟨workspaces, teams, resources, (length_assign_known known).trans_le approvals⟩

theorem setApproval_bounded (h : payload.Bounded) {g : Governance} {key : String} {before item : Approval}
    (found : payload.governance.approvals.get? key = some before) (same : item.id = before.id)
    (accepted : g.accepted = true) (kept : g.approvals = payload.governance.approvals) :
    (payload.setGovernance (g.setApproval item)).Bounded := by
  refine h.setGovernance (setApproval_accepted accepted ?_)
  rw [kept, same, show before.id = key from Table.get?_key found, found]
  rfl

theorem decideApproval_bounded (h : payload.Bounded) (session : Caller) (now : Instant)
    (approvalId : String) (approved : Bool) :
    (decideApproval session now approvalId approved payload).1.Bounded := by
  rcases decideApproval_cases payload session now approvalId approved with ⟨refusal, outcome⟩ |
    ⟨item, found, -, outcome⟩ | ⟨item, found, -, -, -, outcome⟩
  · rw [outcome]
    exact h
  · rw [outcome]
    exact setApproval_bounded h found rfl h.1 rfl
  · rw [outcome]
    exact setApproval_bounded h found rfl h.1 rfl

theorem authorizeOperation_bounded (h : payload.Bounded) (session : Caller) (now : Instant)
    (permission resourceId approvalId metric : String) (delta : Nat) :
    (authorizeOperation session now permission resourceId approvalId metric delta payload).1.Bounded := by
  have charges {resource : Resource} {charged : Governance}
      (passed : chargeOperation payload.governance resource resourceId metric delta = .ok charged) :
      charged.accepted = true ∧ charged.approvals = payload.governance.approvals := by
    rw [chargeOperation_ok passed]
    exact ⟨h.1, rfl⟩
  rcases authorizeOperation_cases payload session now permission resourceId approvalId metric delta with
    ⟨refusal, outcome⟩ | ⟨item, found, -, outcome⟩ |
    ⟨item, charged, -, found, -, -, -, -, -, ⟨resource, passed⟩, outcome⟩ |
    ⟨charged, -, ⟨resource, passed⟩, outcome⟩
  · rw [outcome]
    exact h
  · rw [outcome]
    exact setApproval_bounded h found rfl h.1 rfl
  · rw [outcome]
    exact setApproval_bounded h found rfl (charges passed).1 (charges passed).2
  · rw [outcome]
    exact h.setGovernance (charges passed).1

theorem consume_bounded (h : payload.Bounded) {sha256 : String → String} (now : Instant) (token : Token)
    (device : DevicePublic) (room : hasRoom payload.enrollment.devices device.deviceId maxDevices = true) :
    (consume sha256 now token device payload).1.Bounded := by
  obtain ⟨campaigns, credentials, devices⟩ := Enrollment.accepted_iff.1 h.2
  have kept {key : String} {credential : Credential}
      (found : payload.enrollment.credentials.get? key = some credential) (state : CredentialState)
      (deviceId : String) : (payload.enrollment.credentials.assign
        { credential with state := state, deviceId := deviceId }).rows.length ≤ maxCredentials := by
    have known : (payload.enrollment.credentials.get? credential.id).isSome = true := by
      rw [show credential.id = key from Table.get?_key found, found]
      rfl
    have same : (payload.enrollment.credentials.assign
        { credential with state := state, deviceId := deviceId }).rows.length =
          payload.enrollment.credentials.rows.length := length_assign_known known
    exact same.trans_le credentials
  rcases consume_cases sha256 payload now token device with ⟨refusal, outcome⟩ |
    ⟨credential, found, -, outcome⟩ | ⟨credential, account, row, uses, named, outcome⟩
  · rw [outcome]
    exact h
  · rw [outcome]
    exact ⟨h.1, Enrollment.accepted_iff.2 ⟨campaigns, kept found .expired credential.deviceId, devices⟩⟩
  · rw [outcome]
    have room : hasRoom payload.enrollment.devices row.id maxDevices = true := named.symm ▸ room
    exact ⟨h.1, Enrollment.accepted_iff.2
      ⟨campaigns, kept uses.found .used device.deviceId, length_assign_room devices room⟩⟩

theorem issue_accepted {e : Enrollment} (h : e.accepted = true) {issue : Issue} {sha256 : String → String}
    (room : e.full issue = false) : (e.issue sha256 issue).accepted = true := by
  obtain ⟨campaigns, credentials, devices⟩ := Enrollment.accepted_iff.1 h
  simp only [Enrollment.full, Bool.or_eq_false_iff, decide_eq_false_iff_not, not_le, not_lt] at room
  refine Enrollment.accepted_iff.2 ⟨?_, ?_, devices⟩
  · exact (Table.length_assign_le _ _).trans room.1
  · exact (length_foldl_assign _ _).trans room.2

end Mutators

section Requests

open History

variable {site : Site ν} {request : Request ν} {payload : Payload ν Extensions}

theorem edit_bounded (h : payload.Bounded) (room : request.operation.findsRoom site.text payload = true) :
    (request.edit site payload).1.Bounded := by
  obtain ⟨session, now, operation, weather⟩ := request
  obtain ⟨workspaces, teams, resources, approvals⟩ := Governance.accepted_iff.1 h.1
  cases operation with
  | createAccount => exact h.of_rest (guarded_rest fun _ => rfl)
  | bulkCreateAccounts => exact h.of_rest (bulkRows_rest ..)
  | setAccountEnabled => exact h.of_rest (guarded_rest fun _ => rfl)
  | setAccountRoles => exact h.of_rest (guarded_rest fun _ => rfl)
  | changePassword => exact h.of_rest (guarded_rest fun _ => rfl)
  | deleteAccount => exact h.of_rest (guarded_rest fun _ => rfl)
  | createRole => exact h.of_rest (guarded_rest fun _ => rfl)
  | updateRole => exact h.of_rest (guarded_rest fun _ => rfl)
  | deleteRole => exact h.of_rest (guarded_rest fun _ => rfl)
  | createWorkspace =>
    refine governanceEdit_bounded h fun workspace passed => Governance.accepted_iff.2
      ⟨length_assign_room workspaces ?_, teams, resources, approvals⟩
    split at passed
    next => cases passed
    next =>
      cases passed
      exact room
  | createTeam =>
    refine governanceEdit_bounded h fun team passed => Governance.accepted_iff.2
      ⟨workspaces, length_assign_room teams ?_, resources, approvals⟩
    split at passed
    next => cases passed
    next =>
      split at passed
      next => cases passed
      next =>
        cases passed
        exact room
  | registerResource kind externalId workspaceId owner teamId scope retentionDays quota =>
    refine after_bounded h fun resource prepared => governanceEdit_bounded h fun resource' passed =>
      Governance.accepted_iff.2 ⟨workspaces, teams, length_assign_room resources ?_, approvals⟩
    have room : hasRoom payload.governance.resources resource.id maxResources = true := by
      simpa only [Operation.findsRoom, prepared] using room
    split_ifs at passed
    cases passed
    exact room
  | grantRole resourceId roleId permissions =>
    refine governanceEdit_bounded h fun resource passed => Governance.accepted_iff.2
      ⟨workspaces, teams, ?_, approvals⟩
    split at passed
    next => cases passed
    next old found =>
      split_ifs at passed
      cases passed
      refine (length_assign_known ?_).trans_le resources
      have same : old.id = resourceId := Table.get?_key found
      change (payload.governance.resources.get? old.id).isSome = true
      rw [same, found]
      rfl
  | setZeroTrustPolicy =>
    exact after_bounded h fun _ _ => governanceEdit_bounded h fun _ _ => h.1
  | reserveQuota =>
    refine after_bounded h fun _ _ => governanceEdit_bounded h fun g passed => ?_
    split at passed
    next => cases passed
    next =>
      rw [reserve] at passed
      split at passed
      next => cases passed
      next =>
        cases passed
        exact h.1
  | releaseQuota => exact after_bounded h fun _ _ => governanceEdit_bounded h fun _ _ => h.1
  | requestApproval =>
    refine after_bounded h fun _ _ => governanceEdit_bounded h fun approval passed => ?_
    cases passed
    exact Governance.accepted_iff.2 ⟨workspaces, teams, resources, length_assign_room approvals room⟩
  | decideApproval => exact decideApproval_bounded h ..
  | authorizeOperation => exact after_bounded h fun _ _ => authorizeOperation_bounded h ..
  | createCampaign =>
    refine after_bounded h fun issue _ => enrollmentEdit_bounded h fun _ passed => ⟨h.1, ?_⟩
    split at passed
    next => cases passed
    next room => exact issue_accepted h.2 (eq_false_of_ne_true room)
  | importMembersCsv =>
    refine after_bounded h fun prepared _ => enrollmentEdit_bounded h fun _ passed => ?_
    split at passed
    next => cases passed
    next room =>
      have same : (prepared.1.foldl Payload.setAccount payload).rest = payload.rest := setAccounts_rest _
      refine ⟨(congrArg (fun rest => rest.governance.accepted) same).trans h.1, ?_⟩
      exact issue_accepted h.2 (eq_false_of_ne_true room)
  | consume => exact after_bounded h fun _ _ => consume_bounded h _ _ _ room
  | revokeCampaign campaignId =>
    obtain ⟨campaigns, credentials, devices⟩ := Enrollment.accepted_iff.1 h.2
    refine enrollmentEdit_bounded h fun campaign passed => ⟨h.1, Enrollment.accepted_iff.2 ⟨?_, ?_, devices⟩⟩
    · split at passed
      next => cases passed
      next found =>
        cases passed
        refine (length_assign_known ?_).trans_le campaigns
        have same : campaign.id = campaignId := Table.get?_key found
        change (payload.enrollment.campaigns.get? campaign.id).isSome = true
        rw [same, found]
        rfl
    · change (payload.enrollment.credentials.updateWhere _ revokeUnused key_revokeUnused).rows.length ≤ _
      rw [length_updateWhere]
      exact credentials
  | revokeDevice deviceId =>
    obtain ⟨campaigns, credentials, devices⟩ := Enrollment.accepted_iff.1 h.2
    refine enrollmentEdit_bounded h fun _ _ => ⟨h.1, Enrollment.accepted_iff.2
      ⟨campaigns, credentials, ?_⟩⟩
    exact (List.length_map _).trans_le devices

/-- The operation finds room in the vault as it is. -/
def Site.HasRoom (site : Site ν) (v : Vault (Payload ν Extensions)) (request : Request ν) : Prop :=
  ∀ payload, v.live = some payload → request.operation.findsRoom site.text payload = true

theorem step_bounded {v : Vault (Payload ν Extensions)}
    (h : ∀ payload, v.live = some payload → payload.Bounded) (room : site.HasRoom v request) :
    ∀ payload, (site.step v request).live = some payload → payload.Bounded := by
  rw [Site.step, Request.run]
  split
  next => exact h
  next =>
    exact transact_keeps (fun payload live => edit_bounded (h payload live) (room payload live))
      (fun _ bounded => bounded) h

/-- Governance and enrollment stay within what their own check accepts, in every run whose operations
find room for what they insert. -/
theorem stays_bounded {v : Vault (Payload ν Extensions)}
    (start : ∀ payload, v.live = some payload → payload.Bounded) (requests : List (Request ν))
    (room : Each site.step site.HasRoom v requests) :
    ∀ payload, (run site.step v requests).live = some payload →
      payload.governance.accepted = true ∧ payload.enrollment.accepted = true := by
  have kept : ∀ payload, (run site.step v requests).live = some payload → payload.Bounded :=
    induct (I := fun _ v => ∀ payload, v.live = some payload → payload.Bounded) start
      (fun _ _ room held => step_bounded held room) requests (meets_of_each room)
  exact kept

end Requests

section Crowded

open History

def openWorkspace (n : Nat) : Request String :=
  ⟨rootSession, 0, .createWorkspace (String.ofList (List.replicate n 'w')) "W" "account-root" 365,
    fairWeather⟩

theorem stays_bounded_workspace :
    Each plainSite.step plainSite.HasRoom governed [openWorkspace 0] ∧
      ∀ payload, (run plainSite.step governed [openWorkspace 0]).live = some payload →
        payload.governance.accepted = true ∧ payload.enrollment.accepted = true := by
  have room : Each plainSite.step plainSite.HasRoom governed [openWorkspace 0] := by
    refine ⟨fun payload live => ?_, trivial⟩
    cases live
    decide
  refine ⟨room, stays_bounded (fun payload live => ?_) _ room⟩
  cases live
  exact ⟨by decide, by decide⟩

/-- The vault after `n` workspaces. -/
structure Crowded (v : Vault (Payload String Extensions)) (n : Nat) (payload : Payload String Extensions) :
    Prop where
  live : v.live = some payload
  accounts : payload.accounts = governedPayload.accounts
  roles : payload.roles = governedPayload.roles
  others : payload.governance.teams = .empty ∧ payload.governance.resources = .empty ∧
    payload.governance.approvals = .empty
  counted : payload.governance.workspaces.rows.length = n
  unknown : ∀ m, n ≤ m → payload.governance.workspaces.get? (String.ofList (List.replicate m 'w')) = none

theorem replicate_injective {n m : Nat}
    (same : String.ofList (List.replicate n 'w') = String.ofList (List.replicate m 'w')) : n = m := by
  have lists := congrArg String.toList same
  simpa using congrArg List.length lists

theorem Crowded.next {v : Vault (Payload String Extensions)} {n : Nat} {payload : Payload String Extensions}
    (h : Crowded v n payload) (bound : n ≤ maxWorkspaces) :
    ((openWorkspace n).run plainSite v).2 = .ok () ∧
      ∃ payload', Crowded (plainSite.step v (openWorkspace n)) (n + 1) payload' := by
  have accepted : payload.governance.accepted = true := by
    refine Governance.accepted_iff.2 ⟨h.counted.trans_le bound, ?_⟩
    rw [h.others.1, h.others.2.1, h.others.2.2]
    decide
  have owner : (payload.accounts.get? "account-root").isNone = false := by
    rw [h.accounts]
    decide +kernel
  let row : Workspace := ⟨String.ofList (List.replicate n 'w'), "W", "account-root", 365⟩
  let written := payload.setGovernance
    { payload.governance with workspaces := payload.governance.workspaces.assign row }
  have edited : (openWorkspace n).edit plainSite payload = (written, .ok ()) := by
    change (Edit.discard (governanceEdit _ _ _)) payload = _
    simp only [Edit.discard, governanceEdit, Edit.guarded, accepted, owner]
    rfl
  have valid : (format plainText plainSite.restValid).valid written = true := by
    have same : (format plainText plainSite.restValid).valid written =
        (format plainText plainSite.restValid).valid governedPayload := by
      simp only [format, validatePayload, written, Payload.setGovernance, h.accounts, h.roles]
      rfl
    rw [same]
    decide +kernel
  have ran : (openWorkspace n).run plainSite v =
      (⟨some ((format plainText plainSite.restValid).revise written),
        (format plainText plainSite.restValid).revise written⟩, .ok ()) := by
    have admitted : (openWorkspace n).admission = .ok () := rfl
    change v.transact (format plainText plainSite.restValid) (openWorkspace n).admission
      ((openWorkspace n).edit plainSite) fairWeather = _
    rw [Vault.transact.eq_def, h.live, admitted]
    simp only [edited, Vault.commit, valid]
    rfl
  refine ⟨by rw [ran], (format plainText plainSite.restValid).revise written, ?_⟩
  rw [Site.step, ran]
  exact {
    live := rfl
    accounts := h.accounts
    roles := h.roles
    others := h.others
    counted := by
      change (payload.governance.workspaces.assign row).rows.length = n + 1
      have free : payload.governance.workspaces.get? (Keyed.key row) = none := h.unknown n (le_refl n)
      rw [Table.assign, if_pos free, Table.rows_insert free, List.length_append, h.counted]
      rfl
    unknown := fun m later => by
      change (payload.governance.workspaces.assign row).get? _ = none
      rw [Table.get?_assign, if_neg fun same => by have := replicate_injective same; omega]
      exact h.unknown m (by omega) }

theorem crowded (n : Nat) (bound : n ≤ maxWorkspaces + 1) :
    Each plainSite.step (fun v request => (request.run plainSite v).2 = .ok ()) governed
        ((List.range n).map openWorkspace) ∧
      ∃ payload, Crowded (run plainSite.step governed ((List.range n).map openWorkspace)) n payload := by
  induction n with
  | zero => exact ⟨trivial, governedPayload, rfl, rfl, rfl, ⟨rfl, rfl, rfl⟩, rfl, fun _ _ => rfl⟩
  | succ n ih =>
    obtain ⟨all, payload, before⟩ := ih (by omega)
    obtain ⟨passed, after⟩ := before.next (by omega)
    rw [List.range_succ, List.map_append, List.map_singleton, run_snoc]
    exact ⟨each_append.mpr ⟨all, passed, trivial⟩, after⟩

theorem Crowded.refused {v : Vault (Payload String Extensions)} {n : Nat}
    {payload : Payload String Extensions} (h : Crowded v n payload) (full : maxWorkspaces < n) :
    payload.governance.accepted = false ∧
      ((openWorkspace n).run plainSite v).2 = .error .stateInvalid := by
  have refused : payload.governance.accepted = false := by
    refine eq_false_of_ne_true fun accepted => ?_
    have bound := (Governance.accepted_iff.1 accepted).1
    rw [h.counted] at bound
    exact absurd bound (Nat.not_le_of_lt full)
  refine ⟨refused, ?_⟩
  have edited : (openWorkspace n).edit plainSite payload = (payload, .error .stateInvalid) := by
    change (Edit.discard (governanceEdit _ _ _)) payload = _
    simp only [Edit.discard, governanceEdit, Edit.guarded, refused]
    rfl
  have admitted : (openWorkspace n).admission = .ok () := rfl
  change (v.transact (format plainText plainSite.restValid) (openWorkspace n).admission
    ((openWorkspace n).edit plainSite) fairWeather).2 = _
  rw [Vault.transact.eq_def, h.live, admitted]
  simp only [edited]

/-- The 513th workspace is accepted, and every operation of governance after it is refused. -/
theorem workspaces_outgrow :
    ∃ requests : List (Request String),
      Each plainSite.step (fun v request => (request.run plainSite v).2 = .ok ()) governed requests ∧
      (∃ payload, (run plainSite.step governed requests).live = some payload ∧
        payload.governance.accepted = false) ∧
      ((openWorkspace (maxWorkspaces + 1)).run plainSite (run plainSite.step governed requests)).2 =
        .error .stateInvalid := by
  -- The number is kept closed, for it would be unfolded to a list.
  obtain ⟨n, same⟩ : ∃ n, n = maxWorkspaces + 1 := ⟨_, rfl⟩
  rw [← same]
  obtain ⟨all, payload, after⟩ := crowded n (by omega)
  obtain ⟨refused, next⟩ := after.refused (by omega)
  exact ⟨_, all, ⟨payload, after.live, refused⟩, next⟩

end Crowded

end Arenyxa.Enterprise
