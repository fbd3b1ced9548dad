import Arenyxa.Enterprise.Credentials
import Arenyxa.Lib.Outcome

/-! The reissue of a campaign: a revocation, and a new campaign for the accounts of the old one. -/

namespace Arenyxa.Enterprise

open Outcome

variable {ν : Type}

/-- A call of `reissue_campaign` with what it draws and what its steps meet. The permissions are asked
anew by each step. -/
structure Reissue where
  campaignId : String
  ttl : Int
  now : Instant
  newId : String
  draw : String → Draw
  reader : Caller
  revoker : Caller
  /-- `accounts()` answers. -/
  lists : Except Refusal Unit
  /-- The token of an account is signed. -/
  signs : String → Except Refusal Unit
  creator : Caller
  revocation : Weather
  creation : Weather

namespace Reissue

section Calls

variable (site : Site ν) (call : Reissue)

/-- The token of each account of a new campaign. -/
def signedTokens (known : List (Account ν)) (expiresAt : Instant) : List String → Except Refusal (List Token)
  | [] => .ok []
  | accountId :: rest =>
    match known.find? fun account => account.id = accountId with
    | none => .error .accountInvalid
    | some account =>
      if !account.enabled then .error .accountInvalid
      else do
        call.signs accountId
        let tokens ← signedTokens known expiresAt rest
        return (call.draw accountId).token site.root call.newId accountId account.username account.roles
          expiresAt :: tokens

/-- `dict.fromkeys` of the account identities. -/
def distinctIds (accountIds : List String) : List String := (accountIds.filter (· ≠ "")).reverse.dedup.reverse

/-- What `create_campaign` prepares before its mutator. -/
def prepare (known : List (Account ν)) (title : String) (accountIds : List String) : Except Refusal Issue := do
  let ids := distinctIds accountIds
  require (ids ≠ [] ∧ ids.length ≤ 1000) .campaignInvalid
  let expiresAt := expiry call.now 300 (7 * 24 * 3600) call.ttl
  let clip := String.ofList ((site.text.strip title).toList.take 160)
  call.lists
  let tokens ← call.signedTokens site known expiresAt ids
  return ⟨call.newId, if clip = "" then "Enrollment Campaign" else clip, expiresAt, tokens⟩

/-- `create_campaign` -/
def create (title : String) (accountIds : List String) (v : Vault (Payload ν Extensions)) :
    Vault (Payload ν Extensions) × Except Refusal Unit :=
  match v.live with
  | none => (v, .error .locked)
  | some payload =>
    match call.prepare site payload.accounts.rows title accountIds with
    | .error refusal => (v, .error refusal)
    | .ok issue =>
      v.transact (format site.text site.restValid) (admission call.creator true)
        (createCampaign site.sha256 issue) call.creation

/-- `revoke_campaign` -/
def revoke (v : Vault (Payload ν Extensions)) : Vault (Payload ν Extensions) × Except Refusal Unit :=
  v.transact (format site.text site.restValid) (admission call.revoker true) (revokeCampaign call.campaignId)
    call.revocation

/-- The campaign that the call reads first. -/
def read (payload : Payload ν Extensions) : Except Refusal Campaign := do
  admission call.reader false
  require (payload.enrollment.accepted = true) .stateInvalid
  match payload.enrollment.campaigns.get? call.campaignId with
  | none => .error .campaignMissing
  | some campaign => .ok campaign

/-- `reissue_campaign` -/
def run (v : Vault (Payload ν Extensions)) : Vault (Payload ν Extensions) × Except Refusal Unit :=
  match v.live with
  | none => (v, .error .locked)
  | some payload =>
    match call.read payload with
    | .error refusal => (v, .error refusal)
    | .ok campaign =>
      match call.revoke site v with
      | (v, .error refusal) => (v, .error refusal)
      | (v, .ok ()) =>
        call.create site (campaign.title ++ " · reissued") (payload.enrollment.campaignAccounts campaign) v

end Calls

end Reissue

/-- What a vault holds, or will hold once it is unlocked again. -/
def Vault.standing {π : Type} (v : Vault π) : π := v.live.getD v.durable

/-- The credential is unused, and its campaign active. -/
def Enrollment.Consumable (e : Enrollment) (credentialId : String) : Prop :=
  ∃ credential campaign, e.credentials.get? credentialId = some credential ∧ credential.state = .unused ∧
    e.campaigns.get? credential.campaignId = some campaign ∧ campaign.status = .active

/-- A valid payload is committed. -/
def Weather.commits (weather : Weather) : Bool := weather.saves && weather.audits

/-- A valid payload is given up for the one before. -/
def Weather.undoes (weather : Weather) : Bool := !weather.saves || !weather.audits && weather.restores

section Transactions

variable {π ρ : Type} {v : Vault π} {payload : π} {edit : Edit π ρ} {result : ρ}

theorem transact_standing (format : Format π) (weather : Weather) (live : v.live = some payload) (passed : (edit payload).2 = .ok result) :
    (format.valid (edit payload).1 = true ∧ weather.commits = true ∧ v.transact format (.ok ()) edit weather =
        (⟨some (format.revise (edit payload).1), format.revise (edit payload).1⟩, .ok result)) ∨
      (format.valid (edit payload).1 = true ∧ weather.undoes = true ∧ ∃ durable refusal,
        v.transact format (.ok ()) edit weather = (⟨some payload, durable⟩, .error refusal)) ∨
      (¬(format.valid (edit payload).1 = true ∧ (weather.commits = true ∨ weather.undoes = true)) ∧
        ∃ v' refusal, v.transact format (.ok ()) edit weather = (v', .error refusal) ∧
          (v'.standing = (edit payload).1 ∨ v'.standing = format.revise (edit payload).1)) := by
  rw [Vault.transact.eq_def, live]
  rcases outcome : edit payload with ⟨edited, refusal | made⟩
  · rw [outcome] at passed
    cases passed
  rw [outcome] at passed
  cases passed
  cases valid : format.valid edited with
  | false => simp [Vault.commit, outcome, valid, Vault.standing]
  | true =>
    obtain ⟨saves, audits, restores⟩ := weather
    cases saves with
    | false => simp [Vault.commit, outcome, valid, Weather.commits, Weather.undoes]
    | true =>
      cases audits with
      | true => simp [Vault.commit, outcome, valid, Weather.commits, Weather.undoes]
      | false =>
        cases restores with
        | true => simp [Vault.commit, outcome, valid, Weather.commits, Weather.undoes]
        | false => simp [Vault.commit, outcome, valid, Weather.commits, Weather.undoes, Vault.standing]

end Transactions

namespace Reissue

/-- The old campaign is revoked, and a new one holds one unused credential for each of its accounts. -/
structure Replaced (call : Reissue) (before : Enrollment) (campaign : Campaign) (after : Enrollment) : Prop where
  revoked : ∃ old, after.campaigns.get? call.campaignId = some old ∧ old.status = .revoked
  issued : ∃ (new : Campaign) (rows : List Credential), after.campaigns.get? call.newId = some new ∧ new.status = .active ∧
    new.credentialIds = rows.map Credential.id ∧
    (∀ row ∈ rows, after.credentials.get? row.id = some row ∧ row.state = .unused ∧ row.campaignId = call.newId) ∧
    (rows.map Credential.accountId).Nodup ∧
    ∀ accountId, accountId ∈ rows.map Credential.accountId ↔ accountId ∈ before.campaignAccounts campaign

/-- The call replaces the campaign, or raises and leaves its credentials as consumable as they were. -/
def AllOrNothing (site : Site ν) (call : Reissue) (v : Vault (Payload ν Extensions)) : Prop :=
  match (call.run site v).2 with
  | .ok () => ∃ campaign, v.standing.enrollment.campaigns.get? call.campaignId = some campaign ∧
    call.Replaced v.standing.enrollment campaign (call.run site v).1.standing.enrollment
  | .error _ => ∀ campaign, v.standing.enrollment.campaigns.get? call.campaignId = some campaign →
    ∀ credentialId ∈ campaign.credentialIds,
      ((call.run site v).1.standing.enrollment.Consumable credentialId ↔
        v.standing.enrollment.Consumable credentialId)

section Conditions

variable (site : Site ν) (call : Reissue) (payload : Payload ν Extensions)

def valid : Bool := validatePayload site.text site.restValid payload

/-- The payload with the campaign revoked. -/
def revoked : Payload ν Extensions :=
  ((revokeCampaign call.campaignId : Edit (Payload ν Extensions) Unit) payload).1

/-- The payload that a committed revocation leaves. -/
def again : Payload ν Extensions := (format site.text site.restValid).revise (call.revoked payload)

/-- The revocation is made, and stays when the call raises. -/
def Takes : Prop :=
  (∃ campaign, call.read payload = .ok campaign) ∧ admission call.revoker true = .ok () ∧
    ¬(valid site (call.revoked payload) = true ∧ call.revocation.undoes = true)

/-- The checks of `create_campaign` pass behind the revocation, and its commit goes through. -/
def Creates (campaign : Campaign) : Prop :=
  ∃ issue, call.prepare site payload.accounts.rows (campaign.title ++ " · reissued")
      (payload.enrollment.campaignAccounts campaign) = .ok issue ∧
    admission call.creator true = .ok () ∧ (call.again site payload).enrollment.full issue = false ∧
    valid site ((createCampaign site.sha256 issue : Edit (Payload ν Extensions) Unit) (call.again site payload)).1 =
      true ∧ call.creation.commits = true

/-- The revocation is committed, and the new campaign can be created behind it. -/
def Follows : Prop :=
  ∃ campaign, call.read payload = .ok campaign ∧ admission call.revoker true = .ok () ∧
    valid site (call.revoked payload) = true ∧ call.revocation.commits = true ∧ call.Creates site payload campaign

/-- The new campaign can be created, for accounts that have a name; or the revocation does not stay; or
there is nothing left to consume. -/
def Safe (v : Vault (Payload ν Extensions)) : Prop :=
  ∀ payload campaign, v.live = some payload → call.read payload = .ok campaign →
    (call.Follows site payload → "" ∉ payload.enrollment.campaignAccounts campaign) ∧
      (call.Takes site payload → ¬call.Follows site payload →
        ∀ credentialId ∈ campaign.credentialIds, ¬payload.enrollment.Consumable credentialId)

/-- What is drawn is new: the campaign, and one credential for each account. -/
structure Fresh (call : Reissue) (e : Enrollment) : Prop where
  campaign : e.campaigns.get? call.newId = none
  unlisted : ∀ accountId, ∀ campaign ∈ e.campaigns.rows,
    (call.draw accountId).credentialId ∉ campaign.credentialIds
  distinct : ∀ a b, (call.draw a).credentialId = (call.draw b).credentialId → a = b

end Conditions

section Proofs

variable {site : Site ν} {call : Reissue} {v : Vault (Payload ν Extensions)} {payload : Payload ν Extensions}
  {campaign : Campaign} {issue : Issue}

theorem read_ok : call.read payload = .ok campaign ↔ admission call.reader false = .ok () ∧
    payload.enrollment.accepted = true ∧ payload.enrollment.campaigns.get? call.campaignId = some campaign := by
  rw [read, bind_eq_ok]
  simp only [bind_eq_ok, require_eq_ok]
  have admitted : (∃ u, admission call.reader false = .ok u) ↔ admission call.reader false = .ok () :=
    ⟨fun h => h.elim fun _ h => h, fun h => ⟨(), h⟩⟩
  cases payload.enrollment.campaigns.get? call.campaignId with
  | none => simp
  | some other => simp [admitted]

theorem revokes (read : call.read payload = .ok campaign) :
    revokeCampaign call.campaignId payload =
      (payload.setEnrollment { payload.enrollment with
        campaigns := payload.enrollment.campaigns.assign { campaign with status := .revoked }
        credentials := payload.enrollment.credentials.updateWhere
          (fun credential => campaign.credentialIds.contains credential.id) revokeUnused
          key_revokeUnused }, .ok ()) := by
  obtain ⟨-, accepted, found⟩ := read_ok.1 read
  simp [revokeCampaign, enrollmentEdit, Edit.guarded, accepted, found]

theorem enrollment_revoked (read : call.read payload = .ok campaign) :
    (call.revoked payload).enrollment = { payload.enrollment with
      campaigns := payload.enrollment.campaigns.assign { campaign with status := .revoked }
      credentials := payload.enrollment.credentials.updateWhere
        (fun credential => campaign.credentialIds.contains credential.id) revokeUnused key_revokeUnused } := by
  rw [revoked, revokes read]
  rfl

theorem spent_revoked (read : call.read payload = .ok campaign) {credentialId : String}
    (listed : credentialId ∈ campaign.credentialIds) {credential : Credential}
    (found : (call.revoked payload).enrollment.credentials.get? credentialId = some credential) :
    credential.state ≠ .unused := by
  rw [enrollment_revoked read, Table.get?_updateWhere] at found
  obtain ⟨old, here, rfl⟩ := Option.map_eq_some_iff.mp found
  have named : old.id = credentialId := Table.get?_key here
  have member : campaign.credentialIds.contains old.id = true := by
    rw [named]
    exact List.contains_iff_mem.mpr listed
  rw [if_pos member, revokeUnused]
  split
  next => rintro ⟨⟩
  next used => exact used

theorem not_consumable {e : Enrollment} {credentialId : String}
    (spent : ∀ credential, e.credentials.get? credentialId = some credential → credential.state ≠ .unused) :
    ¬e.Consumable credentialId := by
  rintro ⟨credential, _, found, unused, -⟩
  exact spent credential found unused

theorem signedTokens_ok {known : List (Account ν)} {expiresAt : Instant} {ids : List String} {tokens : List Token}
    (h : call.signedTokens site known expiresAt ids = .ok tokens) :
    tokens.map Token.accountId = ids ∧ ∀ token ∈ tokens, token.campaignId = call.newId ∧
      token.credentialId = (call.draw token.accountId).credentialId := by
  induction ids generalizing tokens with
  | nil =>
    cases h
    exact ⟨rfl, fun _ mem => (nomatch mem)⟩
  | cons accountId rest ih =>
    rw [signedTokens] at h
    split at h
    next => cases h
    next account found =>
      split at h
      next => cases h
      next =>
        obtain ⟨-, -, h⟩ := bind_eq_ok.mp h
        obtain ⟨later, made, h⟩ := bind_eq_ok.mp h
        cases h
        obtain ⟨names, drawn⟩ := ih made
        refine ⟨congrArg _ names, fun token mem => ?_⟩
        rcases List.mem_cons.mp mem with rfl | mem
        · exact ⟨rfl, rfl⟩
        · exact drawn token mem

theorem nodup_distinctIds (accountIds : List String) : (distinctIds accountIds).Nodup :=
  List.nodup_reverse.mpr (List.nodup_dedup _)

theorem mem_distinctIds {accountIds : List String} {accountId : String} :
    accountId ∈ distinctIds accountIds ↔ accountId ∈ accountIds ∧ accountId ≠ "" := by
  simp [distinctIds]

theorem prepare_ok {known : List (Account ν)} {title : String} {accountIds : List String}
    (h : call.prepare site known title accountIds = .ok issue) :
    issue.campaignId = call.newId ∧ issue.tokens.map Token.accountId = distinctIds accountIds ∧
      ∀ token ∈ issue.tokens, token.campaignId = call.newId ∧
        token.credentialId = (call.draw token.accountId).credentialId := by
  rw [prepare] at h
  obtain ⟨-, -, h⟩ := bind_eq_ok.mp h
  obtain ⟨-, -, h⟩ := bind_eq_ok.mp h
  obtain ⟨tokens, made, h⟩ := bind_eq_ok.mp h
  cases h
  exact ⟨rfl, signedTokens_ok made⟩

theorem get?_issued {sha256 : String → String} {tokens : List Token} (table : Table Credential)
    (distinct : (tokens.map Token.credentialId).Nodup) {token : Token} (mem : token ∈ tokens) :
    (tokens.foldl (fun table token => table.assign (token.credential sha256)) table).get? token.credentialId =
      some (token.credential sha256) := by
  induction tokens generalizing table with
  | nil => cases mem
  | cons first rest ih =>
    obtain ⟨absent, distinct⟩ := List.nodup_cons.mp distinct
    rcases List.mem_cons.mp mem with rfl | mem
    · rcases credentials_issue sha256 rest (table.assign (token.credential sha256)) token.credentialId with
        ⟨other, listed, named, -⟩ | same
      · exact absurd (named ▸ List.mem_map_of_mem listed) absent
      · exact same.trans (Table.get?_assign.trans (if_pos rfl))
    · exact ih (table.assign (first.credential sha256)) distinct mem

theorem get?_unissued {sha256 : String → String} {tokens : List Token} {table : Table Credential} {id : String}
    (other : ∀ token ∈ tokens, token.credentialId ≠ id) :
    (tokens.foldl (fun table token => table.assign (token.credential sha256)) table).get? id = table.get? id := by
  rcases credentials_issue sha256 tokens table id with ⟨token, listed, named, -⟩ | same
  · exact absurd named (other token listed)
  · exact same

section Outcomes

variable (fresh : call.Fresh payload.enrollment) (read : call.read payload = .ok campaign)
  (prepared : call.prepare site payload.accounts.rows (campaign.title ++ " · reissued")
    (payload.enrollment.campaignAccounts campaign) = .ok issue)

include prepared in
theorem get?_newCampaign :
    ((call.revoked payload).enrollment.issue site.sha256 issue).campaigns.get? call.newId = some issue.campaign := by
  have named : call.newId = issue.campaignId := (prepare_ok prepared).1.symm
  exact Table.get?_assign.trans (if_pos named)

include fresh prepared

theorem distinct_issued : (issue.tokens.map Token.credentialId).Nodup := by
  obtain ⟨-, names, drawn⟩ := prepare_ok prepared
  have ids : issue.tokens.map Token.credentialId =
      (issue.tokens.map Token.accountId).map fun accountId => (call.draw accountId).credentialId := by
    rw [List.map_map]
    exact List.map_congr_left fun token mem => (drawn token mem).2
  rw [ids, names]
  exact (nodup_distinctIds _).map fun a b same => fresh.distinct a b same

include read

theorem spent_issued {credentialId : String} (listed : credentialId ∈ campaign.credentialIds)
    {credential : Credential} (found : ((call.revoked payload).enrollment.issue site.sha256 issue).credentials.get?
      credentialId = some credential) : credential.state ≠ .unused := by
  have others : ∀ token ∈ issue.tokens, token.credentialId ≠ credentialId := by
    rintro token mem rfl
    obtain ⟨-, -, here⟩ := read_ok.1 read
    have row : campaign ∈ payload.enrollment.campaigns.rows := (Table.get?_some_iff.mp here).1
    rw [((prepare_ok prepared).2.2 token mem).2] at listed
    exact fresh.unlisted token.accountId campaign row listed
  have same : ((call.revoked payload).enrollment.issue site.sha256 issue).credentials.get? credentialId =
      (call.revoked payload).enrollment.credentials.get? credentialId := get?_unissued others
  exact spent_revoked read listed (same ▸ found)

theorem replaced_iff : call.Replaced payload.enrollment campaign
      ((call.revoked payload).enrollment.issue site.sha256 issue) ↔
    "" ∉ payload.enrollment.campaignAccounts campaign := by
  obtain ⟨named, names, drawn⟩ := prepare_ok prepared
  obtain ⟨-, -, here⟩ := read_ok.1 read
  have issued {token : Token} (mem : token ∈ issue.tokens) :
      ((call.revoked payload).enrollment.issue site.sha256 issue).credentials.get? token.credentialId =
        some (token.credential site.sha256) := get?_issued _ (distinct_issued fresh prepared) mem
  constructor
  · rintro ⟨-, new, rows, found, -, ids, held, -, accounts⟩ empty
    cases (get?_newCampaign prepared).symm.trans found
    obtain ⟨row, mem, nameless⟩ := List.mem_map.mp ((accounts "").mpr empty)
    have listed : row.id ∈ issue.tokens.map Token.credentialId := by
      have its : row.id ∈ rows.map Credential.id := List.mem_map_of_mem mem
      rwa [← ids] at its
    obtain ⟨token, its, same⟩ := List.mem_map.mp listed
    have own : some row = some (token.credential site.sha256) := by
      rw [← (held row mem).1, ← same, issued its]
    have account : token.accountId ∈ distinctIds (payload.enrollment.campaignAccounts campaign) :=
      names ▸ List.mem_map_of_mem its
    rw [Option.some.injEq] at own
    rw [own] at nameless
    exact (mem_distinctIds.1 account).2 nameless
  · intro some_names
    have accounts : (issue.tokens.map fun token => token.credential site.sha256).map Credential.accountId =
        distinctIds (payload.enrollment.campaignAccounts campaign) := by
      rw [List.map_map, ← names]
      rfl
    refine ⟨⟨{ campaign with status := .revoked }, ?_, rfl⟩, issue.campaign,
      issue.tokens.map fun token => token.credential site.sha256, get?_newCampaign prepared, rfl, ?_, ?_,
      ?_, ?_⟩
    · have other : call.campaignId ≠ issue.campaignId := by
        intro same
        rw [same, named, fresh.campaign] at here
        cases here
      have own : campaign.id = call.campaignId := Table.get?_key here
      have first : ((call.revoked payload).enrollment.issue site.sha256 issue).campaigns.get? call.campaignId =
          (call.revoked payload).enrollment.campaigns.get? call.campaignId := Table.get?_assign.trans (if_neg other)
      rw [first, enrollment_revoked read]
      exact Table.get?_assign.trans (if_pos own.symm)
    · rw [List.map_map]
      rfl
    · intro row mem
      obtain ⟨token, its, rfl⟩ := List.mem_map.mp mem
      exact ⟨issued its, rfl, (drawn token its).1⟩
    · rw [accounts]
      exact nodup_distinctIds _
    · intro accountId
      rw [accounts, mem_distinctIds]
      exact and_iff_left_of_imp fun mem empty => some_names (empty ▸ mem)

end Outcomes

theorem revise_enrollment (text : Text ν) (restValid : Extensions → Bool) (payload : Payload ν Extensions) :
    ((format text restValid).revise payload).enrollment = payload.enrollment := rfl

theorem length_revoked (read : call.read payload = .ok campaign) :
    (call.revoked payload).enrollment.campaigns.rows.length = payload.enrollment.campaigns.rows.length ∧
      (call.revoked payload).enrollment.credentials.rows.length = payload.enrollment.credentials.rows.length ∧
      (call.revoked payload).enrollment.devices = payload.enrollment.devices := by
  obtain ⟨-, -, found⟩ := read_ok.1 read
  have own : campaign.id = call.campaignId := Table.get?_key found
  have known : payload.enrollment.campaigns.get? (Keyed.key { campaign with status := .revoked }) ≠ none := by
    show payload.enrollment.campaigns.get? campaign.id ≠ none
    rw [own, found]
    exact nofun
  rw [enrollment_revoked read]
  refine ⟨?_, List.length_map _, rfl⟩
  rw [Table.rows_assign_of_mem known, List.length_map]

theorem creates (site : Site ν) (read : call.read payload = .ok campaign) (issue : Issue) :
    (createCampaign site.sha256 issue : Edit (Payload ν Extensions) Unit) (call.again site payload) =
      if (call.again site payload).enrollment.full issue then (call.again site payload, .error .capacity)
      else ((call.again site payload).setEnrollment ((call.revoked payload).enrollment.issue site.sha256 issue),
        .ok ()) := by
  obtain ⟨-, accepted, -⟩ := read_ok.1 read
  obtain ⟨campaigns, credentials, devices⟩ := length_revoked read
  have again_accepted : (call.again site payload).enrollment.accepted = true := by
    rw [again, revise_enrollment, Enrollment.accepted, campaigns, credentials, devices]
    exact accepted
  rw [createCampaign, enrollmentEdit, Edit.guarded, again_accepted]
  cases (call.again site payload).enrollment.full issue with
  | true => rfl
  | false => rfl

theorem Weather.not_undoes {weather : Weather} (commits : weather.commits = true) : weather.undoes ≠ true := by
  obtain ⟨saves, audits, restores⟩ := weather
  revert commits
  cases saves <;> cases audits <;> simp [Weather.commits, Weather.undoes]

theorem create_outcome (site : Site ν) (fresh : call.Fresh payload.enrollment) (read : call.read payload = .ok campaign) :
    let created := call.create site (campaign.title ++ " · reissued") (payload.enrollment.campaignAccounts campaign)
      ⟨some (call.again site payload), call.again site payload⟩
    (¬call.Creates site payload campaign ∧ ∃ v' refusal, created = (v', .error refusal) ∧
        ∀ credentialId ∈ campaign.credentialIds, ¬v'.standing.enrollment.Consumable credentialId) ∨
      (call.Creates site payload campaign ∧ ∃ issue v', call.prepare site payload.accounts.rows
          (campaign.title ++ " · reissued") (payload.enrollment.campaignAccounts campaign) = .ok issue ∧
        created = (v', .ok ()) ∧
        v'.standing.enrollment = (call.revoked payload).enrollment.issue site.sha256 issue) := by
  intro created
  have accounts : (call.again site payload).accounts = payload.accounts := by
    have same : (call.revoked payload).accounts = payload.accounts := by
      rw [revoked, revokes read]
      rfl
    exact same
  have gone : ∀ credentialId ∈ campaign.credentialIds,
      ¬(call.again site payload).enrollment.Consumable credentialId := fun credentialId listed =>
    not_consumable fun credential found => spent_revoked read listed found
  have made : created = match call.prepare site payload.accounts.rows (campaign.title ++ " · reissued")
        (payload.enrollment.campaignAccounts campaign) with
      | .error refusal => (⟨some (call.again site payload), call.again site payload⟩, .error refusal)
      | .ok issue => Vault.transact (format site.text site.restValid)
          ⟨some (call.again site payload), call.again site payload⟩ (admission call.creator true)
          (createCampaign site.sha256 issue) call.creation := by
    rw [← accounts]
    rfl
  cases prepared : call.prepare site payload.accounts.rows (campaign.title ++ " · reissued")
      (payload.enrollment.campaignAccounts campaign) with
  | error refusal =>
    rw [prepared] at made
    refine .inl ⟨?_, _, refusal, made, gone⟩
    rintro ⟨issue, its, -⟩
    cases prepared.symm.trans its
  | ok issue =>
    rw [prepared] at made
    dsimp only at made
    cases admitted : admission call.creator true with
    | error refusal =>
      rw [admitted] at made
      refine .inl ⟨?_, _, refusal, made, gone⟩
      rintro ⟨_, -, passed, -⟩
      cases admitted.symm.trans passed
    | ok u =>
      rw [admitted] at made
      cases full : (call.again site payload).enrollment.full issue with
      | true =>
        have refused := creates site read issue
        rw [full, if_pos rfl] at refused
        have raised : created = (⟨some (call.again site payload), call.again site payload⟩, .error .capacity) := by
          rw [made, Vault.transact.eq_def]
          simp only [refused]
        refine .inl ⟨?_, _, .capacity, raised, gone⟩
        rintro ⟨_, its, -, room, -⟩
        cases prepared.symm.trans its
        cases full.symm.trans room
      | false =>
        have passed := creates site read issue
        rw [full, if_neg Bool.false_ne_true] at passed
        have after : ∀ credentialId ∈ campaign.credentialIds,
            ¬((call.revoked payload).enrollment.issue site.sha256 issue).Consumable credentialId :=
          fun credentialId listed => not_consumable fun credential found =>
            spent_issued fresh read prepared listed found
        have creates_iff : call.Creates site payload campaign ↔
            (valid site ((createCampaign site.sha256 issue : Edit (Payload ν Extensions) Unit)
              (call.again site payload)).1 = true ∧ call.creation.commits = true) := by
          constructor
          · rintro ⟨_, its, -, -, valid, commits⟩
            cases prepared.symm.trans its
            exact ⟨valid, commits⟩
          · rintro ⟨valid, commits⟩
            exact ⟨issue, prepared, admitted, full, valid, commits⟩
        rw [creates_iff]
        have live : (⟨some (call.again site payload), call.again site payload⟩ : Vault (Payload ν Extensions)).live =
            some (call.again site payload) := rfl
        rcases transact_standing (format site.text site.restValid) call.creation live (congrArg Prod.snd passed) with
          ⟨valid, commits, same⟩ | ⟨valid, undoes, durable, refusal, same⟩ | ⟨stays, v', refusal, same, standing⟩
        · refine .inr ⟨⟨valid, commits⟩, issue, _, rfl, made.trans same, ?_⟩
          rw [passed]
          rfl
        · exact .inl ⟨fun h => Weather.not_undoes h.2 undoes, _, refusal, made.trans same, gone⟩
        · refine .inl ⟨fun h => stays ⟨h.1, .inl h.2⟩, v', refusal, made.trans same, ?_⟩
          rw [passed] at standing
          rcases standing with standing | standing
          · rw [standing]
            exact after
          · rw [standing]
            exact after

theorem run_outcome (fresh : call.Fresh payload.enrollment) (live : v.live = some payload)
    (read : call.read payload = .ok campaign) :
    (¬call.Takes site payload ∧ ¬call.Follows site payload ∧ ∃ v' refusal, call.run site v = (v', .error refusal) ∧
        v'.standing = payload) ∨
      (call.Takes site payload ∧ ¬call.Follows site payload ∧ ∃ v' refusal, call.run site v = (v', .error refusal) ∧
        ∀ credentialId ∈ campaign.credentialIds, ¬v'.standing.enrollment.Consumable credentialId) ∨
      (call.Follows site payload ∧ ∃ issue v', call.prepare site payload.accounts.rows
          (campaign.title ++ " · reissued") (payload.enrollment.campaignAccounts campaign) = .ok issue ∧
        call.run site v = (v', .ok ()) ∧
        v'.standing.enrollment = (call.revoked payload).enrollment.issue site.sha256 issue) := by
  have first : call.run site v = match call.revoke site v with
      | (v, .error refusal) => (v, .error refusal)
      | (v, .ok ()) =>
        call.create site (campaign.title ++ " · reissued") (payload.enrollment.campaignAccounts campaign) v := by
    rw [run, live]
    simp only [read]
  cases admitted : admission call.revoker true with
  | error refusal =>
    have refused : call.revoke site v = (v, .error refusal) := by
      rw [revoke, Vault.transact.eq_def, live, admitted]
    rw [refused] at first
    refine .inl ⟨fun takes => ?_, ?_, v, refusal, first, by rw [Vault.standing, live]; rfl⟩
    · cases admitted.symm.trans takes.2.1
    · rintro ⟨_, -, passed, -⟩
      cases admitted.symm.trans passed
  | ok u =>
    have passed : ((revokeCampaign call.campaignId : Edit (Payload ν Extensions) Unit) payload).2 = .ok () := by
      rw [revokes read]
    have gone : ∀ credentialId ∈ campaign.credentialIds,
        ¬(call.revoked payload).enrollment.Consumable credentialId := fun credentialId listed =>
      not_consumable fun credential found => spent_revoked read listed found
    rcases transact_standing (format site.text site.restValid) call.revocation live passed with
      ⟨valid, commits, same⟩ | ⟨valid, undoes, durable, refusal, same⟩ | ⟨stays, v', refusal, same, standing⟩
    · have revoked : call.revoke site v = (⟨some (call.again site payload), call.again site payload⟩, .ok ()) := by
        rw [revoke, admitted, same]
        rfl
      have takes : call.Takes site payload :=
        ⟨⟨campaign, read⟩, admitted, fun h => Weather.not_undoes commits h.2⟩
      have follows_iff : call.Follows site payload ↔ call.Creates site payload campaign := by
        constructor
        · rintro ⟨_, its, -, -, -, creates⟩
          cases read.symm.trans its
          exact creates
        · exact fun creates => ⟨campaign, read, admitted, valid, commits, creates⟩
      rw [revoked] at first
      rw [follows_iff, first]
      rcases create_outcome site fresh read with ⟨fails, raised⟩ | ⟨creates, made⟩
      · exact .inr (.inl ⟨takes, fails, raised⟩)
      · exact .inr (.inr ⟨creates, made⟩)
    · refine .inl ⟨fun takes => takes.2.2 ⟨valid, undoes⟩, ?_, ⟨some payload, durable⟩, refusal, ?_, rfl⟩
      · rintro ⟨_, -, -, -, commits, -⟩
        exact Weather.not_undoes commits undoes
      · rw [first, revoke, admitted, same]
    · refine .inr (.inl ⟨⟨⟨campaign, read⟩, admitted, fun h => stays ⟨h.1, .inr h.2⟩⟩, ?_, v', refusal, ?_, ?_⟩)
      · rintro ⟨_, -, -, valid, commits, -⟩
        exact stays ⟨valid, .inl commits⟩
      · rw [first, revoke, admitted, same]
      · rcases standing with standing | standing
        · rw [standing]
          exact gone
        · rw [standing]
          exact gone

/-- A reissue is all or nothing exactly where its second part cannot fail behind the first, or the first
takes nothing away. -/
theorem reissue_allOrNothing_iff (fresh : ∀ payload, v.live = some payload → call.Fresh payload.enrollment) :
    AllOrNothing site call v ↔ call.Safe site v := by
  cases live : v.live with
  | none =>
    have same : call.run site v = (v, .error .locked) := by rw [run, live]
    rw [AllOrNothing, same]
    refine ⟨fun _ payload _ its => ?_, fun _ _ _ _ _ => Iff.rfl⟩
    cases live.symm.trans its
  | some payload =>
    have stands : v.standing = payload := by
      rw [Vault.standing, live]
      rfl
    cases read : call.read payload with
    | error refusal =>
      have same : call.run site v = (v, .error refusal) := by
        rw [run, live]
        simp only [read]
      rw [AllOrNothing, same]
      refine ⟨fun _ other _ its passed => ?_, fun _ _ _ _ _ => Iff.rfl⟩
      cases live.symm.trans its
      cases read.symm.trans passed
    | ok campaign =>
      obtain ⟨-, -, found⟩ := read_ok.1 read
      have safe_iff : call.Safe site v ↔
          (call.Follows site payload → "" ∉ payload.enrollment.campaignAccounts campaign) ∧
            (call.Takes site payload → ¬call.Follows site payload →
              ∀ credentialId ∈ campaign.credentialIds, ¬payload.enrollment.Consumable credentialId) := by
        refine ⟨fun safe => safe payload campaign live read, fun safe other campaign' its passed => ?_⟩
        cases live.symm.trans its
        cases read.symm.trans passed
        exact safe
      rw [safe_iff, AllOrNothing, stands]
      rcases run_outcome (fresh payload live) live read with ⟨idle, alone, v', refusal, same, standing⟩ |
        ⟨takes, alone, v', refusal, same, gone⟩ | ⟨follows, issue, v', prepared, same, standing⟩
      · rw [same]
        refine iff_of_true (fun _ _ _ _ => by rw [standing]) ⟨fun h => absurd h alone, fun h => absurd h idle⟩
      · rw [same]
        constructor
        · intro kept
          refine ⟨fun h => absurd h alone, fun _ _ credentialId listed consumable => ?_⟩
          exact gone credentialId listed ((kept campaign found credentialId listed).mpr consumable)
        · rintro ⟨-, none_left⟩ campaign' found' credentialId listed
          cases found.symm.trans found'
          exact iff_of_false (gone credentialId listed) (none_left takes alone credentialId listed)
      · rw [same]
        have replaced := replaced_iff (fresh payload live) read prepared
        rw [← standing] at replaced
        constructor
        · rintro ⟨campaign', found', its⟩
          cases found.symm.trans found'
          exact ⟨fun _ => replaced.mp its, fun _ h => absurd follows h⟩
        · rintro ⟨some_names, -⟩
          exact ⟨campaign, found, replaced.mpr (some_names follows)⟩

end Proofs

section Laptops

/-- A campaign with one credential that is not used yet. -/
def laptopsPayload : Payload String Extensions :=
  governedPayload.setEnrollment {
    campaigns := ⟨[⟨"campaign", "Laptops", seconds 3600, .active, ["credential"]⟩], by decide⟩
    credentials := ⟨[⟨"credential", "campaign", "account-admin", "admin", ["administrator"], seconds 3600, "secret",
      "token", .unused, ""⟩], by decide⟩
    devices := .empty }

def laptops : Vault (Payload String Extensions) := ⟨some laptopsPayload, laptopsPayload⟩

def renewal : Reissue where
  campaignId := "campaign"
  ttl := 3600
  now := 0
  newId := "renewed"
  draw accountId := ⟨"new-" ++ accountId, "secret", "token"⟩
  reader := rootSession
  revoker := rootSession
  lists := .ok ()
  signs _ := .ok ()
  creator := rootSession
  revocation := fairWeather
  creation := fairWeather

theorem renewal_fresh : renewal.Fresh laptopsPayload.enrollment where
  campaign := rfl
  unlisted accountId campaign listed same := by
    rw [List.mem_singleton.mp listed] at same
    have letters := congrArg String.toList (List.mem_singleton.mp same)
    simp [renewal] at letters
  distinct a b same := by
    have letters := congrArg String.toList same
    exact String.toList_inj.mp (by simpa [renewal] using letters)

theorem reissue_allOrNothing_laptops : AllOrNothing plainSite renewal laptops ↔ renewal.Safe plainSite laptops :=
  reissue_allOrNothing_iff fun payload live => by
    cases live
    exact renewal_fresh

/-- The caller may manage enrollment, but not list the accounts. -/
def unlistedRenewal : Reissue := { renewal with lists := .error .denied }

/-- The old campaign is revoked, and the call raises. -/
theorem campaign_lost : ¬AllOrNothing plainSite unlistedRenewal laptops := by
  have read : unlistedRenewal.read laptopsPayload =
      .ok ⟨"campaign", "Laptops", seconds 3600, .active, ["credential"]⟩ := rfl
  have fresh : unlistedRenewal.Fresh laptopsPayload.enrollment :=
    ⟨renewal_fresh.campaign, renewal_fresh.unlisted, renewal_fresh.distinct⟩
  have takes : unlistedRenewal.Takes plainSite laptopsPayload :=
    ⟨⟨_, read⟩, rfl, fun h => Bool.false_ne_true h.2⟩
  have consumable : laptopsPayload.enrollment.Consumable "credential" := ⟨_, _, rfl, rfl, rfl, rfl⟩
  intro kept
  have live : laptops.live = some laptopsPayload := rfl
  rcases run_outcome fresh live read with ⟨idle, -⟩ | ⟨-, -, v', refusal, same, gone⟩ | ⟨follows, -⟩
  · exact idle takes
  · rw [AllOrNothing, same] at kept
    exact gone "credential" (by decide) ((kept _ rfl "credential" (by decide)).mpr consumable)
  · -- the listing of the accounts is refused before anything is signed
    obtain ⟨_, _, -, -, -, _, prepared, -⟩ := follows
    rw [prepare] at prepared
    obtain ⟨-, -, passed⟩ := bind_eq_ok.mp prepared
    dsimp only at passed
    obtain ⟨_, listed, -⟩ := bind_eq_ok.mp passed
    cases listed

end Laptops

end Reissue

end Arenyxa.Enterprise
