import Arenyxa.Enterprise.Atomicity
import Arenyxa.Enterprise.Operations

/-! Who may make a Super Administrator: every operation but one asks for another. -/

namespace Arenyxa.Enterprise

open SortedSet (sortedSet mem_sortedSet)

variable {ν ε ρ α : Type}

/-- The account is there and has the role. -/
def Payload.Holds (payload : Payload ν ε) (accountId : String) : Prop :=
  ∃ account, payload.accounts.get? accountId = some account ∧ superAdmin ∈ account.roles

/-- The session of an enabled Super Administrator, with a recent step-up. -/
def Caller.commands (session : Caller) (payload : Payload ν ε) : Bool :=
  session.stepUp && currentAccountIsSuperAdmin session payload

/-- A member file that names `super_admin` among the roles of a row. -/
def Operation.importsSuperAdmin (text : Text ν) : Operation ν → Bool
  | .importMembersCsv _ _ _ _ rows _ => rows.any fun row => (row.roles.map text.strip).contains superAdmin
  | _ => false

/-- The identities that a member file draws are those of no account, and differ. -/
def Operation.Drawn (payload : Payload ν ε) : Operation ν → Prop
  | .importMembersCsv _ _ _ _ rows _ =>
    (rows.map CsvRow.accountId).Nodup ∧ ∀ row ∈ rows, payload.accounts.get? row.accountId = none
  | _ => True

/-- No account has got the role. -/
def Ungranted (before after : Payload ν ε) : Prop := ∀ accountId, after.Holds accountId → before.Holds accountId

section Accounts

variable {payload edited : Payload ν ε} {account : Account ν} {session : Caller} {text : Text ν}

theorem Ungranted.refl (payload : Payload ν ε) : Ungranted payload payload := fun _ => id

theorem Ungranted.trans {later : Payload ν ε} (h : Ungranted payload edited)
    (h' : Ungranted edited later) : Ungranted payload later :=
  fun id held => h id (h' id held)

theorem ungranted_of_accounts (same : edited.accounts = payload.accounts) : Ungranted payload edited := by
  intro id ⟨account, found, role⟩
  exact ⟨account, same ▸ found, role⟩

theorem holds_setAccount {id : String} :
    (payload.setAccount account).Holds id ↔
      (id = account.id ∧ superAdmin ∈ account.roles) ∨ (id ≠ account.id ∧ payload.Holds id) := by
  have lookup : (payload.setAccount account).accounts.get? id =
      if id = account.id then some account else payload.accounts.get? id := Table.get?_assign
  rw [Payload.Holds, lookup]
  split
  next same => simp [same]
  next other => simp [other, Payload.Holds]

theorem ungranted_setAccount (h : superAdmin ∈ account.roles → payload.Holds account.id) :
    Ungranted payload (payload.setAccount account) := by
  intro id held
  rcases holds_setAccount.1 held with ⟨rfl, role⟩ | ⟨-, held⟩
  · exact h role
  · exact held

theorem guard_passed {before after : List String}
    (h : guardSuperAdminAssignment session before after payload = none) :
    before.contains superAdmin = after.contains superAdmin ∨ session.commands payload = true := by
  rw [guardSuperAdminAssignment] at h
  split at h
  next same => exact .inl same
  next =>
    split at h
    next => cases h
    next stepUp =>
      split at h
      next => cases h
      next governs => exact .inr (by simp_all [Caller.commands])

theorem ungranted_guarded {check : Payload ν ε → Except Refusal α} {write : α → Payload ν ε → Payload ν ε}
    {f : α → ρ} (h : ∀ a, check payload = .ok a → Ungranted payload (write a payload)) :
    Ungranted payload (Edit.guarded check write f payload).1 := by
  rw [Edit.guarded]
  split
  next => exact .refl payload
  next a passed => exact h a passed

theorem newAccount_plain {accountId username displayName : String} {roles : List String} {verifier : ν}
    (guarded : guardSuperAdminAssignment session [] roles payload = none)
    (idle : session.commands payload = false) :
    superAdmin ∉ (newAccount text accountId username displayName roles verifier).roles := by
  rcases guard_passed guarded with same | commands
  · intro mem
    have mem : superAdmin ∈ roles := mem_sortedSet.mp mem
    simp [mem] at same
  · cases idle.symm.trans commands

theorem commands_setAccount (plain : superAdmin ∉ account.roles) (idle : session.commands payload = false) :
    session.commands (payload.setAccount account) = false := by
  have lookup : (payload.setAccount account).accounts.get? session.accountId =
      if session.accountId = account.id then some account
      else payload.accounts.get? session.accountId := Table.get?_assign
  rw [Caller.commands, currentAccountIsSuperAdmin, lookup]
  split
  next found =>
    split at found
    next => cases found
    next => simp
  next other found =>
    split at found
    next =>
      cases found
      simp [Account.governs, plain]
    next => simpa [Caller.commands, currentAccountIsSuperAdmin, found] using idle

theorem ungranted_rewrite {old : Account ν} (mem : old ∈ payload.accounts.rows)
    (sameId : account.id = old.id) (roles : superAdmin ∈ account.roles → superAdmin ∈ old.roles) :
    Ungranted payload (payload.setAccount account) :=
  ungranted_setAccount fun role => ⟨old, sameId ▸ Table.mem_rows_iff.mp mem, roles role⟩

end Accounts

section Identity

variable {payload : Payload ν ε} {text : Text ν} {session : Caller}

theorem createAccount_ungranted (idle : session.commands payload = false)
    (accountId username displayName password : String) (roles : List String) :
    Ungranted payload (createAccount text session accountId username displayName password roles payload).1 := by
  refine ungranted_guarded fun account passed => ?_
  obtain ⟨verifier, rfl, -, -, -, -, guarded⟩ := checkAccount_ok passed
  exact ungranted_setAccount fun role => absurd role (newAccount_plain guarded idle)

theorem bulkRows_ungranted (idle : session.commands payload = false) (rows : List MemberRow)
    (seen created : List String) :
    Ungranted payload (bulkRows text session rows seen created payload).1 := by
  induction rows generalizing payload seen created with
  | nil => exact .refl payload
  | cons row rest ih =>
    rw [bulkRows]
    split
    next => exact .refl payload
    next account passed =>
      obtain ⟨verifier, roles, rfl, -, -, -, -, guarded⟩ := batchAccount_ok passed
      have plain : superAdmin ∉ (newAccount text row.accountId (text.casefold (text.strip row.username))
          row.displayName roles verifier).roles := newAccount_plain guarded idle
      exact .trans (ungranted_setAccount fun role => absurd role plain)
        (ih (commands_setAccount plain idle) _ _)

theorem setAccountEnabled_ungranted (accountId : String) (enabled : Bool) :
    Ungranted payload (setAccountEnabled session accountId enabled payload).1 := by
  refine ungranted_guarded fun account passed => ?_
  split at passed
  next => cases passed
  next found =>
    split at passed
    next => cases passed
    next =>
      cases passed
      exact ungranted_rewrite (targetAccount_ok found).1 rfl id

theorem setAccountRoles_ungranted (idle : session.commands payload = false) (accountId : String)
    (roles : List String) : Ungranted payload (setAccountRoles session accountId roles payload).1 := by
  refine ungranted_guarded fun account passed => ?_
  split at passed
  next => cases passed
  next =>
    split at passed
    next => cases passed
    next found =>
      split at passed
      next => cases passed
      next guarded =>
        split at passed
        next => cases passed
        next =>
          cases passed
          refine ungranted_rewrite (account_found found).1 rfl fun role => ?_
          rcases guard_passed guarded with same | commands
          · have role : superAdmin ∈ roles := mem_sortedSet.mp role
            simpa [role] using same
          · cases idle.symm.trans commands

theorem changePassword_ungranted (accountId password : String) :
    Ungranted payload (changePassword text session accountId password payload).1 := by
  refine ungranted_guarded fun account passed => ?_
  split at passed
  next => cases passed
  next => cases passed
  next found _ =>
    cases passed
    exact ungranted_rewrite (targetAccount_ok found).1 rfl id

theorem deleteAccount_ungranted (accountId : String) :
    Ungranted payload (deleteAccount session accountId payload).1 := by
  refine ungranted_guarded fun account _ => ?_
  intro id ⟨other, found, role⟩
  have found : (payload.accounts.erase account.id).get? id = some other := found
  rw [Table.get?_erase] at found
  split at found
  next => cases found
  next => exact ⟨other, found, role⟩

theorem updateRole_ungranted (roleId title : String) (permissions : List String) :
    Ungranted payload (updateRole text roleId title permissions payload).1 := by
  refine ungranted_guarded fun role _ => ?_
  intro id ⟨other, found, has⟩
  have found : (payload.accounts.updateWhere (fun _ => true) (Account.bump role.id)
    (Account.key_bump role.id)).get? id = some other := found
  rw [Table.get?_updateWhere] at found
  obtain ⟨old, before, rfl⟩ := Option.map_eq_some_iff.mp found
  refine ⟨old, before, ?_⟩
  have same := (bump_facts role.id old).2.2.1
  simpa [same] using has

end Identity

section Rest

variable {payload : Payload ν Extensions}

theorem governanceEdit_accounts {check : Payload ν Extensions → Except Refusal α}
    {write : α → Governance → Governance} {f : α → ρ} :
    (governanceEdit check write f payload).1.accounts = payload.accounts := by
  rw [governanceEdit, Edit.guarded]
  split
  next => rfl
  next => rfl

theorem enrollmentEdit_accounts {check : Payload ν Extensions → Except Refusal α}
    {write : α → Payload ν Extensions → Payload ν Extensions} {f : α → ρ}
    (h : ∀ a, (write a payload).accounts = payload.accounts) :
    (enrollmentEdit check write f payload).1.accounts = payload.accounts := by
  rw [enrollmentEdit, Edit.guarded]
  split
  next => rfl
  next a _ => exact h a

theorem after_accounts {request : Except Refusal α} {edit : α → Edit (Payload ν Extensions) ρ}
    (h : ∀ a, request = .ok a → (edit a payload).1.accounts = payload.accounts) :
    (Edit.after request edit payload).1.accounts = payload.accounts := by
  cases request with
  | error => rfl
  | ok a => exact h a rfl

theorem decideApproval_accounts (session : Caller) (now : Instant) (approvalId : String) (approved : Bool) :
    (decideApproval session now approvalId approved payload).1.accounts = payload.accounts := by
  rcases decideApproval_cases payload session now approvalId approved with ⟨refusal, same⟩ |
    ⟨item, -, -, same⟩ | ⟨item, -, -, -, -, same⟩
  · rw [same]
  · rw [same]
    rfl
  · rw [same]
    rfl

theorem authorizeOperation_accounts (session : Caller) (now : Instant)
    (permission resourceId approvalId metric : String) (delta : Nat) :
    (authorizeOperation session now permission resourceId approvalId metric delta payload).1.accounts =
      payload.accounts := by
  rcases authorizeOperation_cases payload session now permission resourceId approvalId metric delta with
    ⟨refusal, same⟩ | ⟨item, -, -, same⟩ | ⟨item, charged, -, -, -, -, -, -, -, -, same⟩ |
    ⟨charged, -, -, same⟩
  · rw [same]
  · rw [same]
    rfl
  · rw [same]
    rfl
  · rw [same]
    rfl

theorem consume_accounts (sha256 : String → String) (now : Instant) (token : Token)
    (device : DevicePublic) : (consume sha256 now token device payload).1.accounts = payload.accounts := by
  rcases consume_cases sha256 payload now token device with ⟨refusal, same⟩ | ⟨credential, -, -, same⟩ |
    ⟨credential, account, row, -, -, same⟩
  · rw [same]
  · rw [same]
    rfl
  · rw [same]
    rfl

end Rest

section Requests

variable {site : Site ν} {request : Request ν} {payload : Payload ν Extensions}

theorem edit_ungranted (idle : request.session.commands payload = false)
    (plain : ∀ known catalog campaignId title rows ttl,
      request.operation ≠ .importMembersCsv known catalog campaignId title rows ttl) :
    Ungranted payload (request.edit site payload).1 := by
  obtain ⟨session, now, operation, weather⟩ := request
  cases operation with
  | createAccount => exact createAccount_ungranted idle _ _ _ _ _
  | bulkCreateAccounts => exact bulkRows_ungranted idle _ _ _
  | setAccountEnabled => exact setAccountEnabled_ungranted _ _
  | setAccountRoles => exact setAccountRoles_ungranted idle _ _
  | changePassword => exact changePassword_ungranted _ _
  | deleteAccount => exact deleteAccount_ungranted _
  | createRole => exact ungranted_guarded fun _ _ => .refl payload
  | updateRole => exact updateRole_ungranted _ _ _
  | deleteRole => exact ungranted_guarded fun _ _ => .refl payload
  | createWorkspace => exact ungranted_of_accounts governanceEdit_accounts
  | createTeam => exact ungranted_of_accounts governanceEdit_accounts
  | registerResource =>
    exact ungranted_of_accounts (after_accounts fun _ _ => governanceEdit_accounts)
  | grantRole => exact ungranted_of_accounts governanceEdit_accounts
  | setZeroTrustPolicy =>
    exact ungranted_of_accounts (after_accounts fun _ _ => governanceEdit_accounts)
  | reserveQuota => exact ungranted_of_accounts (after_accounts fun _ _ => governanceEdit_accounts)
  | releaseQuota => exact ungranted_of_accounts (after_accounts fun _ _ => governanceEdit_accounts)
  | requestApproval =>
    exact ungranted_of_accounts (after_accounts fun _ _ => governanceEdit_accounts)
  | decideApproval => exact ungranted_of_accounts (decideApproval_accounts ..)
  | authorizeOperation =>
    exact ungranted_of_accounts (after_accounts fun _ _ => authorizeOperation_accounts ..)
  | createCampaign =>
    exact ungranted_of_accounts (after_accounts fun _ _ => enrollmentEdit_accounts fun _ => rfl)
  | importMembersCsv known catalog campaignId title rows ttl =>
    exact absurd rfl (plain known catalog campaignId title rows ttl)
  | consume => exact ungranted_of_accounts (after_accounts fun _ _ => consume_accounts ..)
  | revokeCampaign => exact ungranted_of_accounts (enrollmentEdit_accounts fun _ => rfl)
  | revokeDevice => exact ungranted_of_accounts (enrollmentEdit_accounts fun _ => rfl)

end Requests

section MemberFile

variable {text : Text ν} {root : String × String} {catalog : List Role} {row : CsvRow}
  {account : Account ν} {payload : Payload ν Extensions}

theorem csvAccount_ok {seen : List String} (passed : csvAccount text catalog row seen = .ok account) :
    account.id = row.accountId ∧
      (superAdmin ∈ account.roles ↔ superAdmin ∈ row.roles.map text.strip) := by
  have named : superAdmin ∈ (row.roles.map text.strip).filter (· ≠ "") ↔
      superAdmin ∈ row.roles.map text.strip := by
    rw [List.mem_filter]
    exact and_iff_left (by decide)
  simp only [csvAccount] at passed
  split at passed
  next => cases passed
  next =>
    generalize chosen : (if (row.roles.map text.strip).filter (· ≠ "") = [] then ["member"]
      else (row.roles.map text.strip).filter (· ≠ "")) = roles at passed
    have same : superAdmin ∈ roles ↔ superAdmin ∈ row.roles.map text.strip := by
      rw [← named, ← chosen]
      split
      next none' =>
        rw [none']
        exact iff_of_false (by decide) List.not_mem_nil
      next => exact Iff.rfl
    split at passed
    next => cases passed
    next =>
      split at passed
      next => cases passed
      next verifier _ =>
        cases passed
        exact ⟨rfl, mem_sortedSet.trans same⟩

theorem csvMembers_ok {campaignId : String} {expiresAt : Instant} {rows : List CsvRow}
    {seen : List String} {accounts : List (Account ν)} {tokens : List Token}
    (passed : csvMembers text root catalog campaignId expiresAt rows seen = .ok (accounts, tokens)) :
    accounts.map Account.id = rows.map CsvRow.accountId ∧
      ∀ id, (∃ account ∈ accounts, account.id = id ∧ superAdmin ∈ account.roles) ↔
        ∃ row ∈ rows, row.accountId = id ∧ superAdmin ∈ row.roles.map text.strip := by
  induction rows generalizing seen accounts tokens with
  | nil =>
    cases passed
    exact ⟨rfl, fun _ => by simp only [List.not_mem_nil, false_and, exists_false]⟩
  | cons row rest ih =>
    rw [csvMembers] at passed
    split at passed
    next => cases passed
    next account first =>
      split at passed
      next => cases passed
      next accounts' tokens' others =>
        cases passed
        obtain ⟨sameId, role⟩ := csvAccount_ok first
        obtain ⟨ids, named⟩ := ih others
        refine ⟨by rw [List.map_cons, List.map_cons, sameId, ids], fun id => ?_⟩
        simp only [List.mem_cons, exists_eq_or_imp, sameId, role, named id]

theorem holds_setAccounts {accounts : List (Account ν)} (distinct : (accounts.map Account.id).Nodup)
    {id : String} :
    (accounts.foldl Payload.setAccount payload).Holds id ↔
      (∃ account ∈ accounts, account.id = id ∧ superAdmin ∈ account.roles) ∨
        (id ∉ accounts.map Account.id ∧ payload.Holds id) := by
  induction accounts generalizing payload with
  | nil => simp
  | cons account rest ih =>
    rw [List.map_cons, List.nodup_cons] at distinct
    rw [List.foldl_cons, ih distinct.2, holds_setAccount]
    simp only [List.mem_cons, exists_eq_or_imp, List.map_cons, not_or]
    constructor
    · rintro (found | ⟨absent, ⟨rfl, role⟩ | ⟨other, held⟩⟩)
      · exact .inl (.inr found)
      · exact .inl (.inl ⟨rfl, role⟩)
      · exact .inr ⟨⟨other, absent⟩, held⟩
    · rintro ((⟨rfl, role⟩ | found) | ⟨⟨other, absent⟩, held⟩)
      · exact .inr ⟨distinct.1, .inl ⟨rfl, role⟩⟩
      · exact .inl found
      · exact .inr ⟨absent, .inr ⟨other, held⟩⟩

end MemberFile

section Runs

variable {site : Site ν} {request : Request ν} {v v' : Vault (Payload ν Extensions)}
  {payload payload' : Payload ν Extensions}

theorem run_ok (ran : request.run site v = (v', .ok ())) (live : v.live = some payload)
    (live' : v'.live = some payload') :
    (request.operation.readOnly = true ∧ payload' = payload) ∨
      ((request.edit site payload).2 = .ok () ∧
        payload' = (format site.text site.restValid).revise (request.edit site payload).1) := by
  rw [Request.run] at ran
  split at ran
  next readOnly =>
    have same : v = v' := congrArg Prod.fst ran
    exact .inl ⟨readOnly, Option.some.inj (live'.symm.trans (same ▸ live))⟩
  next =>
    obtain ⟨before, found, passed, -, rfl⟩ := transact_ok ran
    cases live.symm.trans found
    exact .inr ⟨passed, (Option.some.inj live').symm⟩

theorem after_passed {request : Except Refusal α} {edit : α → Edit (Payload ν Extensions) ρ} {result : ρ}
    (h : (Edit.after request edit payload).2 = .ok result) :
    ∃ a, request = .ok a ∧ (edit a payload).2 = .ok result ∧
      (Edit.after request edit payload).1 = (edit a payload).1 := by
  cases request with
  | error => cases h
  | ok a => exact ⟨a, rfl, h, rfl⟩

theorem enrollmentEdit_passed {check : Payload ν Extensions → Except Refusal α}
    {write : α → Payload ν Extensions → Payload ν Extensions} {f : α → ρ} {result : ρ}
    (h : (enrollmentEdit check write f payload).2 = .ok result) :
    payload.enrollment.accepted = true ∧ ∃ a, check payload = .ok a ∧
      (enrollmentEdit check write f payload).1 = write a payload := by
  obtain ⟨a, passed, -, same⟩ := guarded_passed h
  split at passed
  next => cases passed
  next accepted => exact ⟨by simpa using accepted, a, passed, same⟩

theorem importMembers_holds {session : Caller} {now : Instant} {weather : Weather}
    {known : List (Account ν)} {catalog : List Role} {campaignId title : String} {rows : List CsvRow}
    {ttl : Int}
    (passed : (Request.edit site ⟨session, now,
      .importMembersCsv known catalog campaignId title rows ttl, weather⟩ payload).2 = .ok ())
    (distinct : (rows.map CsvRow.accountId).Nodup) (id : String) :
    (Request.edit site ⟨session, now, .importMembersCsv known catalog campaignId title rows ttl,
        weather⟩ payload).1.Holds id ↔
      (∃ row ∈ rows, row.accountId = id ∧ superAdmin ∈ row.roles.map site.text.strip) ∨
        (id ∉ rows.map CsvRow.accountId ∧ payload.Holds id) := by
  obtain ⟨⟨accounts, issue⟩, prepared, passed, same⟩ := after_passed passed
  obtain ⟨-, _, -, written⟩ := enrollmentEdit_passed passed
  obtain ⟨ids, named⟩ : accounts.map Account.id = rows.map CsvRow.accountId ∧
      ∀ id, (∃ account ∈ accounts, account.id = id ∧ superAdmin ∈ account.roles) ↔
        ∃ row ∈ rows, row.accountId = id ∧ superAdmin ∈ row.roles.map site.text.strip := by
    rw [csvIssue] at prepared
    split at prepared
    next => cases prepared
    next =>
      split at prepared
      next => cases prepared
      next members =>
        cases prepared
        exact csvMembers_ok members
  have edited : (Request.edit site ⟨session, now, .importMembersCsv known catalog campaignId title rows
      ttl, weather⟩ payload).1 = (accounts.foldl Payload.setAccount payload).setEnrollment
        (payload.enrollment.issue site.sha256 issue) := same.trans written
  rw [edited]
  change (accounts.foldl Payload.setAccount payload).Holds id ↔ _
  rw [holds_setAccounts (ids ▸ distinct), named, ids]

/-- In every operation but the import of a member file, an account gets the role from the session of
an enabled Super Administrator with a recent step-up. The import asks for neither. -/
theorem escalation_guarded_iff (ran : request.run site v = (v', .ok ())) (live : v.live = some payload)
    (live' : v'.live = some payload') (drawn : request.operation.Drawn payload) :
    ((∃ accountId, payload'.Holds accountId ∧ ¬payload.Holds accountId) →
        request.session.commands payload = true) ↔
      ¬(request.operation.importsSuperAdmin site.text = true ∧
        request.session.commands payload = false) := by
  cases commanding : request.session.commands payload with
  | true => simp
  | false =>
    simp only [Bool.false_eq_true, imp_false, and_true]
    refine not_congr ?_
    have outcome := run_ok ran live live'
    by_cases file : ∃ known catalog campaignId title rows ttl,
        request.operation = .importMembersCsv known catalog campaignId title rows ttl
    · obtain ⟨known, catalog, campaignId, title, rows, ttl, operation⟩ := file
      obtain ⟨session, now, _, weather⟩ := request
      subst operation
      obtain ⟨wrong, -⟩ | ⟨passed, rfl⟩ := outcome
      · cases wrong
      have holds := importMembers_holds passed drawn.1
      have unknown (row : CsvRow) (mem : row ∈ rows) : ¬payload.Holds row.accountId := by
        rintro ⟨account, found, -⟩
        cases (drawn.2 row mem).symm.trans found
      have gained (id : String) : ((format site.text site.restValid).revise _).Holds id ↔ _ := holds id
      simp only [gained, Operation.importsSuperAdmin, List.any_eq_true, List.contains_iff_mem]
      constructor
      · rintro ⟨id, ⟨row, mem, -, role⟩ | ⟨-, held⟩, new⟩
        · exact ⟨row, mem, role⟩
        · exact absurd held new
      · rintro ⟨row, mem, role⟩
        exact ⟨row.accountId, .inl ⟨row, mem, rfl, role⟩, unknown row mem⟩
    · have plain : request.operation.importsSuperAdmin site.text = false := by
        cases operation : request.operation with
        | importMembersCsv known catalog campaignId title rows ttl =>
          exact absurd ⟨known, catalog, campaignId, title, rows, ttl, operation⟩ file
        | _ => rfl
      rw [plain]
      refine iff_of_false ?_ Bool.false_ne_true
      rintro ⟨id, held, new⟩
      rcases outcome with ⟨-, rfl⟩ | ⟨-, rfl⟩
      · exact new held
      · exact new (edit_ungranted commanding (fun known catalog campaignId title rows ttl same =>
          file ⟨known, catalog, campaignId, title, rows, ttl, same⟩) id held)

end Runs

section Imported

def adminAccount : Account String :=
  ⟨"account-admin", "admin", "Admin", "battery horse correct", ["administrator"], true, 1⟩

def governedPayload : Payload String Extensions where
  revision := 1
  generation := 1
  accounts := ⟨[rootAccount, adminAccount], by decide⟩
  roles := ⟨[⟨superAdmin, "Super Administrator", true, permissionCatalog⟩,
    ⟨"administrator", "Administrator", true, ["enterprise.enrollment.manage"]⟩,
    ⟨"member", "Member", true, ["dataset.read"]⟩], by decide⟩
  rest := .empty

def governed : Vault (Payload String Extensions) := ⟨some governedPayload, governedPayload⟩

def plainSite : Site String :=
  ⟨plainText, id, some, ("enterprise", "root"), fun _ => true⟩

/-- An Administrator imports a member file of one row. -/
def memberFile (role : String) : Request String where
  session := ⟨"account-admin", true, true⟩
  now := 0
  operation := .importMembersCsv governedPayload.accounts.rows governedPayload.roles.rows "campaign" "CSV"
    [⟨"mallory", "Mallory", [role], "", "account-9", "Tmp-0123456789", ⟨"credential", "secret", "token"⟩⟩]
    3600
  weather := fairWeather

theorem escalation_guarded_iff_member :
    ∃ v' payload', (memberFile "member").run plainSite governed = (v', .ok ()) ∧
      v'.live = some payload' ∧
      ((∃ accountId, payload'.Holds accountId ∧ ¬governedPayload.Holds accountId) →
        (memberFile "member").session.commands governedPayload = true) := by
  have evaluated : ((memberFile "member").run plainSite governed).2 = .ok () ∧
      ((memberFile "member").run plainSite governed).1.live.isSome = true := by decide +kernel
  cases ran : (memberFile "member").run plainSite governed with
  | mk v' result =>
    rw [ran] at evaluated
    obtain ⟨rfl, unlocked⟩ := evaluated
    obtain ⟨payload', live'⟩ := Option.isSome_iff_exists.mp unlocked
    refine ⟨v', payload', rfl, live', (escalation_guarded_iff ran rfl live' ⟨?_, ?_⟩).mpr ?_⟩
    · decide +kernel
    · decide +kernel
    · decide +kernel

/-- The session of an Administrator makes a Super Administrator. -/
theorem member_file_escalates :
    ∃ v' payload', (memberFile superAdmin).run plainSite governed = (v', .ok ()) ∧
      v'.live = some payload' ∧
      (∃ accountId, payload'.Holds accountId ∧ ¬governedPayload.Holds accountId) ∧
      (memberFile superAdmin).session.commands governedPayload = false := by
  have evaluated : ((memberFile superAdmin).run plainSite governed).2 = .ok () ∧
      (((memberFile superAdmin).run plainSite governed).1.live.bind fun payload' =>
        (payload'.accounts.get? "account-9").map Account.roles) = some [superAdmin] := by decide +kernel
  cases ran : (memberFile superAdmin).run plainSite governed with
  | mk v' result =>
    rw [ran] at evaluated
    obtain ⟨rfl, granted⟩ := evaluated
    obtain ⟨payload', live', there⟩ := Option.bind_eq_some_iff.mp granted
    obtain ⟨account, found, roles⟩ := Option.map_eq_some_iff.mp there
    refine ⟨v', payload', rfl, live', ⟨"account-9", ⟨account, found, ?_⟩, ?_⟩, by decide +kernel⟩
    · rw [roles]
      exact List.mem_singleton.mpr rfl
    · rintro ⟨old, before, -⟩
      have absent : governedPayload.accounts.get? "account-9" = none := by decide +kernel
      cases absent.symm.trans before

end Imported

end Arenyxa.Enterprise
