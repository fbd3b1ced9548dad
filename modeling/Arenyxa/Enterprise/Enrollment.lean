import Arenyxa.Enterprise.Accounts

/-! Enrollment: campaigns issue credentials to accounts, and a credential enrolls one device. -/

namespace Arenyxa.Enterprise

open SortedSet (sortedSet)

variable {ν : Type}

/-- The payload of a signed token, with the canonical text of the token itself. -/
structure Token where
  enterpriseId : String
  rootFingerprint : String
  credentialId : String
  campaignId : String
  accountId : String
  username : String
  roles : List String
  expiresAt : Instant
  secret : String
  canonical : String

/-- What is drawn for a token: its identity and secret, and the text that it has once signed. -/
structure Draw where
  credentialId : String
  secret : String
  canonical : String

section Issue

variable (sha256 : String → String)

def Draw.token (draw : Draw) (root : String × String) (campaignId accountId username : String)
    (roles : List String) (expiresAt : Instant) : Token :=
  ⟨root.1, root.2, draw.credentialId, campaignId, accountId, username, roles, expiresAt, draw.secret,
    draw.canonical⟩

def Token.credential (token : Token) : Credential :=
  ⟨token.credentialId, token.campaignId, token.accountId, token.username, token.roles,
    token.expiresAt, sha256 token.secret, sha256 token.canonical, .unused, ""⟩

/-- What a campaign is created with. The tokens are signed before the mutator runs. -/
structure Issue where
  campaignId : String
  title : String
  expiresAt : Instant
  tokens : List Token

def Issue.campaign (issue : Issue) : Campaign :=
  ⟨issue.campaignId, issue.title, issue.expiresAt, .active, issue.tokens.map Token.credentialId⟩

/-- The capacity check that `create_campaign` and `import_members_csv` share. -/
def Enrollment.full (e : Enrollment) (issue : Issue) : Bool :=
  maxCampaigns ≤ e.campaigns.rows.length ||
    maxCredentials < e.credentials.rows.length + issue.tokens.length

def Enrollment.issue (e : Enrollment) (issue : Issue) : Enrollment :=
  { e with
    campaigns := e.campaigns.assign issue.campaign
    credentials := issue.tokens.foldl (fun table token => table.assign (token.credential sha256))
      e.credentials }

/-- A mutator of enrollment that checks before it writes. `_state` comes first. -/
def enrollmentEdit {α ρ : Type} (check : Payload ν Extensions → Except Refusal α)
    (write : α → Payload ν Extensions → Payload ν Extensions) (result : α → ρ) :
    Edit (Payload ν Extensions) ρ :=
  Edit.guarded
    (fun payload => if !payload.enrollment.accepted then .error .stateInvalid else check payload)
    write result

/-- The mutator of `create_campaign`. -/
def createCampaign (issue : Issue) : Edit (Payload ν Extensions) Unit :=
  enrollmentEdit
    (fun payload => if payload.enrollment.full issue then .error .capacity else .ok ())
    (fun _ payload => payload.setEnrollment (payload.enrollment.issue sha256 issue)) fun _ => ()

/-- The mutator of `import_members_csv` writes the prepared accounts as they are. -/
def importMembers (accounts : List (Account ν)) (issue : Issue) : Edit (Payload ν Extensions) Unit :=
  enrollmentEdit
    (fun payload => if payload.enrollment.full issue then .error .capacity else .ok ())
    (fun _ payload =>
      (accounts.foldl Payload.setAccount payload).setEnrollment
        (payload.enrollment.issue sha256 issue)) fun _ => ()

end Issue

section Preparation

variable (text : Text ν) (root : String × String)

/-- The token of each account of a campaign, from the accounts that were read before. -/
def campaignTokens (known : List (Account ν)) (campaignId : String) (expiresAt : Instant) :
    List (String × Draw) → Except Refusal (List Token)
  | [] => .ok []
  | (accountId, draw) :: rest =>
    match known.find? fun account => account.id = accountId with
    | none => .error .accountInvalid
    | some account =>
      if !account.enabled then .error .accountInvalid
      else match campaignTokens known campaignId expiresAt rest with
        | .error refusal => .error refusal
        | .ok tokens => .ok (draw.token root campaignId accountId account.username account.roles
            expiresAt :: tokens)

/-- `dict.fromkeys` of the account identities, each with what is drawn for it. -/
def campaignIssue (known : List (Account ν)) (campaignId title : String) (accountIds : List String)
    (draws : List Draw) (now : Instant) (ttl : Int) : Except Refusal Issue :=
  let ids := (accountIds.filter (· ≠ "")).reverse.dedup.reverse
  let expiresAt := expiry now 300 (7 * 24 * 3600) ttl
  let clip := String.ofList ((text.strip title).toList.take 160)
  if ids = [] || 1000 < ids.length then .error .campaignInvalid
  else match campaignTokens root known campaignId expiresAt (ids.zip draws) with
    | .error refusal => .error refusal
    | .ok tokens =>
      .ok ⟨campaignId, if clip = "" then "Enrollment Campaign" else clip, expiresAt, tokens⟩

/-- A row of the CSV file, its roles cell split at the semicolons, with what is drawn for it. -/
structure CsvRow where
  username : String
  displayName : String
  roles : List String
  temporaryPassword : String
  accountId : String
  generated : String
  draw : Draw

/-- The account of one CSV row. No guard asks who may assign its roles. -/
def csvAccount (catalog : List Role) (row : CsvRow) (seen : List String) :
    Except Refusal (Account ν) :=
  let username := text.casefold (text.strip row.username)
  let parts := (row.roles.map text.strip).filter (· ≠ "")
  let roles := if parts = [] then ["member"] else parts
  let password := text.strip row.temporaryPassword
  if usernameInvalid text username || seen.contains username then .error .csv
  else if roles.any fun role => !(catalog.map Role.id).contains role then .error .csv
  else match text.passwordVerifier (if password = "" then row.generated else password) with
    | none => .error .password
    | some verifier => .ok (newAccount text row.accountId username row.displayName roles verifier)

def csvMembers (catalog : List Role) (campaignId : String) (expiresAt : Instant) :
    List CsvRow → List String → Except Refusal (List (Account ν) × List Token)
  | [], _ => .ok ([], [])
  | row :: rest, seen =>
    match csvAccount text catalog row seen with
    | .error refusal => .error refusal
    | .ok account =>
      match csvMembers catalog campaignId expiresAt rest (account.username :: seen) with
      | .error refusal => .error refusal
      | .ok (accounts, tokens) => .ok (account :: accounts,
          row.draw.token root campaignId account.id account.username account.roles expiresAt :: tokens)

/-- What `import_members_csv` prepares from the accounts and roles that it has read. -/
def csvIssue (known : List (Account ν)) (catalog : List Role) (campaignId title : String)
    (rows : List CsvRow) (now : Instant) (ttl : Int) : Except Refusal (List (Account ν) × Issue) :=
  let expiresAt := expiry now 300 (7 * 24 * 3600) ttl
  let clip := String.ofList ((text.strip title).toList.take 160)
  if rows = [] || 1000 < rows.length then .error .csv
  else match csvMembers text root catalog campaignId expiresAt rows
      (known.map fun account => text.casefold account.username) with
    | .error refusal => .error refusal
    | .ok (accounts, tokens) =>
      .ok (accounts, ⟨campaignId, if clip = "" then "CSV Enrollment" else clip, expiresAt, tokens⟩)

end Preparation

section Use

variable (sha256 : String → String) (now : Instant)

def Enrollment.setCredential (e : Enrollment) (credential : Credential) : Enrollment :=
  { e with credentials := e.credentials.assign credential }

/-- The public part of the device that asks to be enrolled. -/
structure DevicePublic where
  deviceId : String
  publicKey : String
  fingerprint : String

/-- The mutator of `consume`. A credential whose time is over is marked before it raises. -/
def consume (token : Token) (device : DevicePublic) : Edit (Payload ν Extensions) Device :=
  fun payload =>
    let e := payload.enrollment
    if !e.accepted then (payload, .error .stateInvalid)
    else match e.credentials.get? token.credentialId with
      | none => (payload, .error .credentialMissing)
      | some credential =>
        if ((e.campaigns.get? credential.campaignId).filter (·.status = .active)).isNone then
          (payload, .error .campaignInactive)
        else if credential.state ≠ .unused then (payload, .error .replay)
        else if credential.expiresAt ≤ now then
          (payload.setEnrollment (e.setCredential { credential with state := .expired }),
            .error .expired)
        else if credential.secretSha256 ≠ sha256 token.secret ||
            credential.tokenSha256 ≠ sha256 token.canonical then
          (payload, .error .credentialInvalid)
        else match payload.accounts.get? credential.accountId with
          | none => (payload, .error .accountInvalid)
          | some account =>
            if !account.enabled then (payload, .error .accountInvalid)
            else if account.roles ≠ credential.roles then (payload, .error .rolesChanged)
            else if (e.devices.get? device.deviceId).isSome then (payload, .error .deviceExists)
            else
              let row : Device := ⟨device.deviceId, account.id, account.username, device.publicKey,
                device.fingerprint, .active, account.authGeneration⟩
              let used := { credential with state := .used, deviceId := device.deviceId }
              (((payload.setEnrollment
                  { e.setCredential used with devices := e.devices.assign row }).setDevices
                (payload.devices.assign row)), .ok row)

/-- What `consume` asks of the token and the device before the mutator. -/
def consumeRequest (root : String × String) (decode : String → Option String) (token : Token)
    (device : DevicePublic) (enterpriseId accountId : String) : Except Refusal Unit :=
  if token.enterpriseId ≠ root.1 || token.rootFingerprint ≠ root.2 then .error .enterpriseMismatch
  else match decode device.publicKey with
    | none => .error .deviceInvalid
    | some raw =>
      if sha256 raw ≠ device.fingerprint || device.deviceId = "" then .error .deviceInvalid
      else if enterpriseId ≠ token.enterpriseId || accountId ≠ token.accountId then
        .error .deviceBinding
      else .ok ()

def revokeUnused (credential : Credential) : Credential :=
  if credential.state = .unused then { credential with state := .revoked } else credential

theorem key_revokeUnused (credential : Credential) :
    Keyed.key (revokeUnused credential) = Keyed.key credential := by
  rw [revokeUnused]
  split
  next => rfl
  next => rfl

/-- The mutator of `revoke_campaign`. -/
def revokeCampaign (campaignId : String) : Edit (Payload ν Extensions) Unit :=
  enrollmentEdit
    (fun payload => match payload.enrollment.campaigns.get? campaignId with
      | none => .error .campaignMissing
      | some campaign => .ok campaign)
    (fun campaign payload => payload.setEnrollment { payload.enrollment with
      campaigns := payload.enrollment.campaigns.assign { campaign with status := .revoked }
      credentials := payload.enrollment.credentials.updateWhere
        (fun credential => campaign.credentialIds.contains credential.id) revokeUnused
        key_revokeUnused }) fun _ => ()

def revokeRow (device : Device) : Device := { device with status := .revoked }

/-- The mutator of `revoke_device` writes both tables. -/
def revokeDevice (deviceId : String) : Edit (Payload ν Extensions) Unit :=
  enrollmentEdit
    (fun payload => match payload.enrollment.devices.get? deviceId with
      | none => .error .deviceMissing
      | some _ => .ok ())
    (fun _ payload => (payload.setEnrollment { payload.enrollment with
        devices := payload.enrollment.devices.modify deviceId revokeRow (fun _ => rfl) }).setDevices
      (payload.devices.modify deviceId revokeRow (fun _ => rfl))) fun _ => ()

/-- The accounts of a campaign, which `reissue_campaign` reads before it revokes it. -/
def Enrollment.campaignAccounts (e : Enrollment) (campaign : Campaign) : List String :=
  campaign.credentialIds.filterMap fun credentialId =>
    (e.credentials.get? credentialId).map Credential.accountId

end Use

section Outcomes

/-- The use of a credential: what the mutator of `consume` finds when it passes. -/
structure Uses (sha256 : String → String) (payload : Payload ν Extensions) (now : Instant) (token : Token)
    (device : DevicePublic) (credential : Credential) (account : Account ν) : Prop where
  found : payload.enrollment.credentials.get? token.credentialId = some credential
  campaign : ∃ campaign, payload.enrollment.campaigns.get? credential.campaignId = some campaign ∧
    campaign.status = .active
  unused : credential.state = .unused
  live : now < credential.expiresAt
  known : payload.accounts.get? credential.accountId = some account
  enabled : account.enabled = true
  roles : account.roles = credential.roles
  new : payload.enrollment.devices.get? device.deviceId = none
  secret : credential.secretSha256 = sha256 token.secret
  artifact : credential.tokenSha256 = sha256 token.canonical

theorem consume_cases (sha256 : String → String) (payload : Payload ν Extensions) (now : Instant)
    (token : Token) (device : DevicePublic) :
    (∃ refusal, consume sha256 now token device payload = (payload, .error refusal)) ∨
    (∃ credential, payload.enrollment.credentials.get? credential.id = some credential ∧
      credential.state = .unused ∧
      consume sha256 now token device payload =
        (payload.setEnrollment (payload.enrollment.setCredential { credential with state := .expired }),
          .error .expired)) ∨
    ∃ credential account row, Uses sha256 payload now token device credential account ∧
      row.id = device.deviceId ∧
      consume sha256 now token device payload =
        ((payload.setEnrollment { payload.enrollment.setCredential { credential with
              state := .used
              deviceId := device.deviceId } with
            devices := payload.enrollment.devices.assign row }).setDevices (payload.devices.assign row),
          .ok row) := by
  generalize outcome : consume sha256 now token device payload = left
  rw [consume] at outcome
  split at outcome
  next => exact .inl ⟨_, outcome.symm⟩
  next =>
    split at outcome
    next => exact .inl ⟨_, outcome.symm⟩
    next credential found =>
      split at outcome
      next => exact .inl ⟨_, outcome.symm⟩
      next active =>
        split at outcome
        next => exact .inl ⟨_, outcome.symm⟩
        next unused =>
          have unused : credential.state = .unused := not_not.mp unused
          split at outcome
          next =>
            have same : credential.id = token.credentialId := Table.get?_key found
            exact .inr (.inl ⟨credential, same.symm ▸ found, unused, outcome.symm⟩)
          next live =>
            split at outcome
            next => exact .inl ⟨_, outcome.symm⟩
            next hashes =>
              simp only [Bool.or_eq_true, decide_eq_true_eq, not_or, not_not] at hashes
              split at outcome
              next => exact .inl ⟨_, outcome.symm⟩
              next account known =>
                split at outcome
                next => exact .inl ⟨_, outcome.symm⟩
                next enabled =>
                  split at outcome
                  next => exact .inl ⟨_, outcome.symm⟩
                  next roles =>
                    split at outcome
                    next => exact .inl ⟨_, outcome.symm⟩
                    next new =>
                      refine .inr (.inr ⟨credential, account, _, ⟨found, ?_, unused,
                        Nat.lt_of_not_le live, known, by simpa using enabled, not_not.mp roles,
                        by simpa using new, hashes.1, hashes.2⟩, rfl, outcome.symm⟩)
                      cases campaign : payload.enrollment.campaigns.get? credential.campaignId with
                      | none => simp [campaign] at active
                      | some campaign' => simpa [campaign] using active

end Outcomes

end Arenyxa.Enterprise
