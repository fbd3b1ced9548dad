import Arenyxa.Enterprise.Accounts

/-! What an operation on the accounts and roles leaves is accepted again, except that one role may
be too many. -/

namespace Arenyxa.Enterprise

open SortedSet (sortedSet mem_sortedSet)

variable {ν ε : Type} (text : Text ν) (restValid : ε → Bool)

structure Payload.Valid (payload : Payload ν ε) : Prop where
  rest : restValid payload.rest = true
  inhabited : payload.roles.rows ≠ []
  bounded : payload.roles.rows.length ≤ maxRoles
  roles : ∀ role ∈ payload.roles.rows, role.valid text = true
  usernames : ∀ a ∈ payload.accounts.rows, ∀ b ∈ payload.accounts.rows,
    text.casefold a.username = text.casefold b.username → a = b
  accounts : ∀ account ∈ payload.accounts.rows, account.valid text payload.roles = true
  governed : ∃ account ∈ payload.accounts.rows, account.governs = true

variable {text restValid} {payload : Payload ν ε} {account : Account ν} {session : Caller}

theorem governs_iff : account.governs = true ↔ account.enabled = true ∧ superAdmin ∈ account.roles := by
  rw [Account.governs, Bool.and_eq_true, List.contains_iff_mem]

theorem validatePayload_iff :
    validatePayload text restValid payload = true ↔ payload.Valid text restValid := by
  have once : payload.accounts.rows.Nodup := List.Nodup.of_map _ payload.accounts.nodup
  simp only [validatePayload, Bool.and_eq_true, decide_eq_true_eq, List.all_eq_true, List.any_eq_true]
  constructor
  · rintro ⟨⟨⟨⟨⟨⟨rest, inhabited⟩, bounded⟩, roles⟩, usernames⟩, accounts⟩, governed⟩
    exact ⟨rest, inhabited, bounded, roles,
      fun a ha b hb => List.inj_on_of_nodup_map usernames ha hb, accounts, governed⟩
  · intro h
    exact ⟨⟨⟨⟨⟨⟨h.rest, h.inhabited⟩, h.bounded⟩, h.roles⟩,
      once.map_on fun a ha b hb => h.usernames a ha b hb⟩, h.accounts⟩, h.governed⟩

namespace Payload.Valid

theorem of_id (a b : Account ν) (ha : a ∈ payload.accounts.rows) (hb : b ∈ payload.accounts.rows)
    (same : a.id = b.id) : a = b :=
  Table.eq_of_key payload.accounts.nodup ha hb same

theorem another_or_governs (h : payload.Valid text restValid)
    (mem : account ∈ payload.accounts.rows) :
    anotherGoverns payload account = true ∨ account.governs = true := by
  obtain ⟨other, otherMem, governs⟩ := h.governed
  by_cases same : other.id = account.id
  · exact .inr (of_id other account otherMem mem same ▸ governs)
  · exact .inl (List.any_eq_true.mpr ⟨other, otherMem, by simp [governs, same]⟩)

theorem setAccount (h : payload.Valid text restValid)
    (valid : account.valid text payload.roles = true)
    (username : ∀ other ∈ payload.accounts.rows, other.id ≠ account.id →
      text.casefold other.username ≠ text.casefold account.username)
    (governed : anotherGoverns payload account = true ∨ account.governs = true) :
    (payload.setAccount account).Valid text restValid where
  rest := h.rest
  inhabited := h.inhabited
  bounded := h.bounded
  roles := h.roles
  usernames a ha b hb same := by
    rcases Table.mem_assign.mp ha with rfl | ⟨memA, otherA⟩
    · rcases Table.mem_assign.mp hb with rfl | ⟨memB, otherB⟩
      · rfl
      · exact absurd same.symm (username b memB otherB)
    · rcases Table.mem_assign.mp hb with rfl | ⟨memB, otherB⟩
      · exact absurd same (username a memA otherA)
      · exact h.usernames a memA b memB same
  accounts a ha := by
    rcases Table.mem_assign.mp ha with rfl | ⟨ha, -⟩
    · exact valid
    · exact h.accounts a ha
  governed := by
    rcases governed with another | governs
    · obtain ⟨other, mem, facts⟩ := List.any_eq_true.mp another
      obtain ⟨governs, different⟩ : other.governs = true ∧ other.id ≠ account.id := by
        simpa using facts
      exact ⟨other, Table.mem_assign.mpr (.inr ⟨mem, different⟩), governs⟩
    · exact ⟨account, Table.mem_assign.mpr (.inl rfl), governs⟩

theorem changeAccount (h : payload.Valid text restValid) {old : Account ν}
    (mem : old ∈ payload.accounts.rows) (sameId : account.id = old.id)
    (sameName : account.username = old.username)
    (valid : account.valid text payload.roles = true)
    (governed : anotherGoverns payload old = true ∨ account.governs = true) :
    (payload.setAccount account).Valid text restValid := by
  refine h.setAccount valid (fun other otherMem different same => ?_) ?_
  · rw [sameName] at same
    exact different (h.usernames other otherMem old mem same ▸ sameId.symm)
  · rw [anotherGoverns, sameId]
    exact governed

end Payload.Valid

theorem account_found {accountId : String} (found : payload.accounts.get? accountId = some account) :
    account ∈ payload.accounts.rows ∧ account.id = accountId :=
  Table.get?_some_iff.mp found

theorem targetAccount_ok {accountId : String}
    (passed : targetAccount session accountId payload = .ok account) :
    account ∈ payload.accounts.rows ∧ guardSuperAdminTarget session account payload = none := by
  rw [targetAccount] at passed
  split at passed
  next => cases passed
  next found =>
    split at passed
    next => cases passed
    next guard =>
      cases passed
      exact ⟨(account_found found).1, guard⟩

section New

variable {accountId username displayName password : String} {roles : List String} {verifier : ν}

theorem rolesKnown_sortedSet {catalog : Table Role} (h : rolesKnown roles catalog = true) :
    rolesKnown (sortedSet roles) catalog = true := by
  simp only [rolesKnown, Bool.and_eq_true, decide_eq_true_eq, List.all_eq_true] at h ⊢
  exact ⟨fun empty => h.1 (SortedSet.sortedSet_eq_nil.mp empty),
    fun role mem => h.2 role (mem_sortedSet.mp mem)⟩

theorem newAccount_valid {catalog : Table Role} (named : text.casefold username = username)
    (ne : username ≠ "") (known : rolesKnown roles catalog = true)
    (password : text.verifierValid verifier = true) :
    (newAccount text accountId username displayName roles verifier).valid text catalog = true := by
  have known' := rolesKnown_sortedSet known
  simp [Account.valid, newAccount, named, ne, known', password]

theorem checkAccount_ok
    (passed : checkAccount text session accountId username displayName password roles payload =
      .ok account) :
    ∃ verifier, account = newAccount text accountId (text.casefold (text.strip username)) displayName
        roles verifier ∧
      text.casefold (text.strip username) ≠ "" ∧ rolesKnown roles payload.roles = true ∧
      text.verifierValid verifier = true ∧
      text.casefold (text.strip username) ∉ takenUsernames text payload ∧
      guardSuperAdminAssignment session [] roles payload = none := by
  simp only [checkAccount] at passed
  split at passed
  next => cases passed
  next named =>
    split at passed
    next => cases passed
    next free =>
      split at passed
      next => cases passed
      next known =>
        split at passed
        next => cases passed
        next => cases passed
        next verifier guard drawn =>
          cases passed
          refine ⟨verifier, rfl, ?_, by simpa using known, text.verifier_valid _ _ drawn, ?_, guard⟩
          · simp only [usernameInvalid, Bool.or_eq_true, decide_eq_true_eq, not_or] at named
            exact named.1.1
          · simpa [takenUsernames] using free

theorem batchAccount_ok {row : MemberRow} {seen : List String}
    (passed : batchAccount text session row seen payload = .ok account) :
    ∃ verifier roles, account = newAccount text row.accountId
        (text.casefold (text.strip row.username)) row.displayName roles verifier ∧
      text.casefold (text.strip row.username) ≠ "" ∧ rolesKnown roles payload.roles = true ∧
      text.verifierValid verifier = true ∧
      text.casefold (text.strip row.username) ∉ seen ∧
      guardSuperAdminAssignment session [] roles payload = none := by
  simp only [batchAccount] at passed
  generalize sortedSet (if row.roles = [] then ["member"] else row.roles) = roles at passed
  generalize (if row.password = "" then row.generated else row.password) = password at passed
  split at passed
  next => cases passed
  next named =>
    split at passed
    next => cases passed
    next known =>
      split at passed
      next => cases passed
      next => cases passed
      next verifier guard drawn =>
        cases passed
        simp only [usernameInvalid, Bool.or_eq_true, decide_eq_true_eq, not_or] at named
        exact ⟨verifier, _, rfl, named.1.1.1, by simpa using known, text.verifier_valid _ _ drawn,
          by simpa using named.2, guard⟩

theorem Payload.Valid.addAccount (h : payload.Valid text restValid)
    (fresh : payload.accounts.get? accountId = none)
    (ne : text.casefold username ≠ "") (known : rolesKnown roles payload.roles = true)
    (password : text.verifierValid verifier = true)
    (free : text.casefold username ∉ takenUsernames text payload) :
    (payload.setAccount
      (newAccount text accountId (text.casefold username) displayName roles verifier)).Valid text
        restValid := by
  refine h.setAccount (newAccount_valid (text.casefold_idem _) ne known password) ?_ ?_
  · intro other mem _ same
    refine free (List.mem_map.mpr ⟨other, mem, same.trans ?_⟩)
    exact text.casefold_idem _
  · obtain ⟨other, mem, governs⟩ := h.governed
    refine .inl (List.any_eq_true.mpr ⟨other, mem, ?_⟩)
    have different : other.id ≠ accountId := Table.get?_none_iff.mp fresh other mem
    simp only [governs, newAccount, Bool.true_and]
    exact decide_eq_true different

end New

/-- What the edit writes when it passes is valid, and the revision is the one that was there. -/
def Sound (text : Text ν) (restValid : ε → Bool) {ρ : Type} (edit : Edit (Payload ν ε) ρ)
    (payload : Payload ν ε) : Prop :=
  ∀ result, (edit payload).2 = .ok result →
    (edit payload).1.Valid text restValid ∧ (edit payload).1.revision = payload.revision

section Sound

variable {ρ α : Type} {accountId username displayName password roleId title : String}
  {roles permissions : List String}

theorem sound_guarded {check : Payload ν ε → Except Refusal α} {write : α → Payload ν ε → Payload ν ε}
    {f : α → ρ}
    (h : ∀ a, check payload = .ok a →
      (write a payload).Valid text restValid ∧ (write a payload).revision = payload.revision) :
    Sound text restValid (Edit.guarded check write f) payload := by
  intro result passed
  obtain ⟨a, checked, -, wrote⟩ := guarded_passed passed
  rw [wrote]
  exact h a checked

theorem createAccount_sound (h : payload.Valid text restValid)
    (fresh : payload.accounts.get? accountId = none) :
    Sound text restValid (createAccount text session accountId username displayName password roles)
      payload := by
  refine sound_guarded fun account passed => ⟨?_, rfl⟩
  obtain ⟨verifier, rfl, ne, known, valid, free, -⟩ := checkAccount_ok passed
  refine h.addAccount fresh ?_ known valid ?_
  · exact ne
  · exact free

theorem setAccountEnabled_sound (h : payload.Valid text restValid) {enabled : Bool} :
    Sound text restValid (setAccountEnabled session accountId enabled) payload := by
  refine sound_guarded fun account passed => ⟨?_, rfl⟩
  split at passed
  next => cases passed
  next found =>
    split at passed
    next => cases passed
    next last =>
      cases passed
      have mem := (targetAccount_ok found).1
      refine h.changeAccount mem rfl rfl ?_ ?_
      · have valid := h.accounts account mem
        simp only [Account.valid, Bool.and_eq_true, decide_eq_true_eq] at valid ⊢
        exact ⟨⟨valid.1.1, Nat.succ_pos _⟩, valid.2⟩
      · rcases h.another_or_governs mem with another | governs
        · exact .inl another
        · have holds := (governs_iff.1 governs).2
          cases enabled with
          | true => exact .inr (governs_iff.2 ⟨rfl, holds⟩)
          | false => exact .inl (by simpa [holds] using last)

theorem setAccountRoles_sound (h : payload.Valid text restValid) :
    Sound text restValid (setAccountRoles session accountId roles) payload := by
  refine sound_guarded fun account passed => ⟨?_, rfl⟩
  split at passed
  next => cases passed
  next known =>
    split at passed
    next => cases passed
    next found =>
      split at passed
      next => cases passed
      next =>
        split at passed
        next => cases passed
        next last =>
          cases passed
          have mem := (account_found found).1
          refine h.changeAccount mem rfl rfl ?_ ?_
          · have valid := h.accounts account mem
            have known' := rolesKnown_sortedSet (by simpa using known)
            simp only [Account.valid, Bool.and_eq_true, decide_eq_true_eq] at valid ⊢
            exact ⟨⟨⟨valid.1.1.1, known'⟩, Nat.succ_pos _⟩, valid.2⟩
          · rcases h.another_or_governs mem with another | governs
            · exact .inl another
            · obtain ⟨enabled, holds⟩ := governs_iff.1 governs
              by_cases keeps : superAdmin ∈ roles
              · exact .inr (governs_iff.2 ⟨enabled, mem_sortedSet.mpr keeps⟩)
              · exact .inl (by simpa [enabled, holds, keeps] using last)

theorem changePassword_sound (h : payload.Valid text restValid) :
    Sound text restValid (changePassword text session accountId password) payload := by
  refine sound_guarded fun account passed => ⟨?_, rfl⟩
  split at passed
  next => cases passed
  next => cases passed
  next old verifier found drawn =>
    cases passed
    have mem := (targetAccount_ok found).1
    refine h.changeAccount mem rfl rfl ?_ (h.another_or_governs mem)
    have valid := h.accounts old mem
    have verified := text.verifier_valid _ _ drawn
    simp only [Account.valid, Bool.and_eq_true, decide_eq_true_eq] at valid ⊢
    exact ⟨⟨valid.1.1, Nat.succ_pos _⟩, verified⟩

theorem deleteAccount_sound (h : payload.Valid text restValid) :
    Sound text restValid (deleteAccount session accountId) payload := by
  refine sound_guarded fun account passed => ⟨?_, rfl⟩
  split at passed
  next => cases passed
  next found =>
    split at passed
    next => cases passed
    next last =>
      cases passed
      have mem := (targetAccount_ok found).1
      have another : anotherGoverns payload account = true := by
        rcases h.another_or_governs mem with another | governs
        · exact another
        · simpa [governs] using last
      obtain ⟨other, otherMem, facts⟩ := List.any_eq_true.mp another
      obtain ⟨governs, different⟩ : other.governs = true ∧ other.id ≠ account.id := by
        simpa using facts
      exact {
        rest := h.rest
        inhabited := h.inhabited
        bounded := h.bounded
        roles := h.roles
        usernames := fun a ha b hb =>
          h.usernames a (Table.mem_erase.mp ha).1 b (Table.mem_erase.mp hb).1
        accounts := fun a ha => h.accounts a (Table.mem_erase.mp ha).1
        governed := ⟨other, Table.mem_erase.mpr ⟨otherMem, different⟩, governs⟩ }

theorem normalizeRole_ok {role : Role}
    (passed : normalizeRole text roleId title permissions = .ok role) : role.valid text = true := by
  simp only [normalizeRole] at passed
  split at passed
  next => cases passed
  next key =>
    split at passed
    next => cases passed
    next label =>
      split at passed
      next => cases passed
      next listed =>
        cases passed
        have once : (sortedSet ((permissions.map text.strip).filter (· ≠ ""))).Nodup :=
          (List.perm_insertionSort _ _).nodup_iff.mpr (List.nodup_dedup _)
        simp only [Bool.or_eq_true, decide_eq_true_eq, not_or, Nat.not_lt, Bool.not_eq_true',
          Bool.not_eq_false] at key label listed
        simp only [Role.valid, text.strip_idem, Bool.and_eq_true, decide_eq_true_eq]
        exact ⟨⟨⟨⟨⟨⟨⟨⟨key.1.1, key.1.2⟩, trivial⟩, key.2⟩, label.1⟩, label.2⟩, listed.1⟩, once⟩,
          listed.2⟩

theorem account_valid_mono {catalog catalog' : Table Role}
    (keeps : ∀ role ∈ account.roles, (catalog.get? role).isSome → (catalog'.get? role).isSome)
    (h : account.valid text catalog = true) : account.valid text catalog' = true := by
  simp only [Account.valid, rolesKnown, Bool.and_eq_true, decide_eq_true_eq, List.all_eq_true] at h ⊢
  exact ⟨⟨⟨h.1.1.1, h.1.1.2.1, fun role mem => keeps role mem (h.1.1.2.2 role mem)⟩, h.1.2⟩, h.2⟩

theorem isSome_get?_assign {catalog : Table Role} {role : Role} {key : String}
    (h : (catalog.get? key).isSome) : ((catalog.assign role).get? key).isSome := by
  rw [Table.get?_assign]
  split
  next => rfl
  next => exact h

theorem Payload.Valid.assignRole (h : payload.Valid text restValid) {role : Role}
    (valid : role.valid text = true)
    (room : (payload.roles.assign role).rows.length ≤ maxRoles) :
    ({ payload with roles := payload.roles.assign role } : Payload ν ε).Valid text restValid where
  rest := h.rest
  inhabited := List.ne_nil_of_mem (Table.mem_assign.mpr (.inl rfl))
  bounded := room
  roles other mem := by
    rcases Table.mem_assign.mp mem with rfl | ⟨mem, -⟩
    · exact valid
    · exact h.roles other mem
  usernames := h.usernames
  accounts account mem := account_valid_mono (fun _ _ => isSome_get?_assign) (h.accounts account mem)
  governed := h.governed

theorem createRole_sound (h : payload.Valid text restValid)
    (room : ∀ role, normalizeRole text roleId title permissions = .ok role →
      payload.roles.get? role.id = none → payload.roles.rows.length < maxRoles) :
    Sound text restValid (createRole text roleId title permissions) payload := by
  refine sound_guarded fun role passed => ⟨?_, rfl⟩
  split at passed
  next => cases passed
  next normal =>
    split at passed
    next => cases passed
    next absent =>
      cases passed
      exact h.assignRole (normalizeRole_ok normal)
        (Nat.le_trans (Table.length_assign_le _ _) (room role normal (by simpa using absent)))

theorem customRole_ok {role : Role} (passed : customRole roleId payload = .ok role) :
    payload.roles.get? roleId = some role := by
  rw [customRole] at passed
  split at passed
  next => cases passed
  next found =>
    split at passed
    next => cases passed
    next =>
      cases passed
      exact found

theorem bump_facts (roleId : String) (account : Account ν) :
    (account.bump roleId).id = account.id ∧
    (account.bump roleId).username = account.username ∧
    (account.bump roleId).roles = account.roles ∧
    (account.bump roleId).enabled = account.enabled ∧
    (account.bump roleId).verifier = account.verifier ∧
    account.authGeneration ≤ (account.bump roleId).authGeneration := by
  rw [Account.bump]
  split
  next => exact ⟨rfl, rfl, rfl, rfl, rfl, Nat.le_succ _⟩
  next => exact ⟨rfl, rfl, rfl, rfl, rfl, Nat.le_refl _⟩

theorem bump_valid {catalog : Table Role} (h : account.valid text catalog = true) :
    (account.bump roleId).valid text catalog = true := by
  obtain ⟨-, username, roles, -, verifier, generation⟩ := bump_facts roleId account
  simp only [Account.valid, Bool.and_eq_true, decide_eq_true_eq] at h ⊢
  rw [username, roles, verifier]
  exact ⟨⟨h.1.1, Nat.le_trans h.1.2 generation⟩, h.2⟩

theorem Payload.Valid.bumpAll (h : payload.Valid text restValid) :
    ({ payload with
        accounts := payload.accounts.updateWhere (fun _ => true) (Account.bump roleId)
          (Account.key_bump roleId) } : Payload ν ε).Valid text restValid := by
  have mem : ∀ {a}, a ∈ (payload.accounts.updateWhere (fun _ => true) (Account.bump roleId)
      (Account.key_bump roleId)).rows → ∃ b ∈ payload.accounts.rows, b.bump roleId = a := by
    intro a ha
    simpa [Table.updateWhere] using ha
  refine ⟨h.rest, h.inhabited, h.bounded, h.roles, ?_, ?_, ?_⟩
  · intro a ha b hb same
    obtain ⟨a, memA, rfl⟩ := mem ha
    obtain ⟨b, memB, rfl⟩ := mem hb
    rw [(bump_facts roleId _).2.1, (bump_facts roleId _).2.1] at same
    rw [h.usernames a memA b memB same]
  · intro a ha
    obtain ⟨a, memA, rfl⟩ := mem ha
    exact bump_valid (h.accounts a memA)
  · obtain ⟨a, memA, governs⟩ := h.governed
    refine ⟨a.bump roleId, by simpa [Table.updateWhere] using ⟨a, memA, rfl⟩, ?_⟩
    obtain ⟨-, -, roles, enabled, -⟩ := bump_facts roleId a
    rw [Account.governs, roles, enabled]
    exact governs

theorem updateRole_sound (h : payload.Valid text restValid) :
    Sound text restValid (updateRole text roleId title permissions) payload := by
  refine sound_guarded fun role passed => ⟨?_, rfl⟩
  split at passed
  next => cases passed
  next => cases passed
  next current normalized found normal =>
    cases passed
    obtain ⟨mem, -⟩ := Table.get?_some_iff.mp (customRole_ok found)
    have present : payload.roles.get? (Keyed.key { normalized with id := current.id }) ≠ none := by
      intro absent
      exact Table.get?_none_iff.mp absent current mem rfl
    have valid := normalizeRole_ok normal
    have old := h.roles current mem
    refine Payload.Valid.bumpAll (h.assignRole ?_ ?_)
    · simp only [Role.valid, Bool.and_eq_true] at valid old ⊢
      exact ⟨⟨⟨⟨⟨old.1.1.1.1.1, valid.1.1.1.1.2⟩, valid.1.1.1.2⟩, valid.1.1.2⟩, valid.1.2⟩, valid.2⟩
    · rw [Table.rows_assign_of_mem present, List.length_map]
      exact h.bounded

theorem deleteRole_sound (h : payload.Valid text restValid) :
    Sound text restValid (deleteRole (ν := ν) roleId) payload := by
  refine sound_guarded fun role passed => ⟨?_, rfl⟩
  split at passed
  next => cases passed
  next found =>
    split at passed
    next => cases passed
    next unused =>
      cases passed
      have same : role.id = roleId := Table.get?_key (customRole_ok found)
      have keeps : ∀ account ∈ payload.accounts.rows, ∀ key ∈ account.roles,
          (payload.roles.get? key).isSome → ((payload.roles.erase role.id).get? key).isSome := by
        intro account mem key has known
        have other : key ≠ role.id := by
          rintro rfl
          exact unused (List.any_eq_true.mpr ⟨account, mem, by simpa [← same] using has⟩)
        rw [Table.get?_erase, if_neg other]
        exact known
      have accounts : ∀ account ∈ payload.accounts.rows,
          account.valid text (payload.roles.erase role.id) = true := fun account mem =>
        account_valid_mono (keeps account mem) (h.accounts account mem)
      refine ⟨h.rest, ?_, ?_, ?_, h.usernames, accounts, h.governed⟩
      · obtain ⟨account, mem, governs⟩ := h.governed
        have holds := (governs_iff.1 governs).2
        have known := accounts account mem
        simp only [Account.valid, rolesKnown, Bool.and_eq_true, List.all_eq_true] at known
        obtain ⟨row, found⟩ := Option.isSome_iff_exists.mp (known.1.1.2.2 _ holds)
        exact List.ne_nil_of_mem (Table.get?_some_iff.mp found).1
      · exact Nat.le_trans (List.length_filter_le _ _) h.bounded
      · exact fun other mem => h.roles other (Table.mem_erase.mp mem).1

end Sound

section Batches

variable {row : MemberRow} {rows : List MemberRow} {seen created : List String}

/-- The rows pass their checks on the payload that the batch starts from. -/
def batchAccepted (text : Text ν) (session : Caller) (payload : Payload ν ε) :
    List MemberRow → List String → Bool
  | [], _ => true
  | row :: rest, seen => match batchAccount text session row seen payload with
    | .error _ => false
    | .ok account => batchAccepted text session payload rest (account.username :: seen)

/-- The identities that are drawn for a batch are new. -/
def BatchFresh (session : Caller) (payload : Payload ν ε) (rows : List MemberRow) : Prop :=
  (rows.map MemberRow.accountId).Nodup ∧ ∀ row ∈ rows,
    payload.accounts.get? row.accountId = none ∧ row.accountId ≠ session.accountId

theorem batchAccount_setAccount (other : account.id ≠ session.accountId) :
    batchAccount text session row seen (payload.setAccount account) =
      batchAccount text session row seen payload := by
  have current : currentAccountIsSuperAdmin session (payload.setAccount account) =
      currentAccountIsSuperAdmin session payload := by
    rw [currentAccountIsSuperAdmin, currentAccountIsSuperAdmin]
    have same : (payload.setAccount account).accounts.get? session.accountId =
        payload.accounts.get? session.accountId :=
      Table.get?_assign.trans (if_neg other.symm)
    rw [same]
  simp only [batchAccount, guardSuperAdminAssignment, current]
  rfl

theorem batchAccount_id (passed : batchAccount text session row seen payload = .ok account) :
    account.id = row.accountId ∧ account.username = text.casefold (text.strip row.username) := by
  obtain ⟨verifier, roles, rfl, -⟩ := batchAccount_ok passed
  exact ⟨rfl, rfl⟩

theorem BatchFresh.next (h : BatchFresh session payload (row :: rows)) (same : account.id = row.accountId) :
    BatchFresh session (payload.setAccount account) rows := by
  obtain ⟨once, fresh⟩ := h
  obtain ⟨apart, once⟩ := List.nodup_cons.mp once
  refine ⟨once, fun other mem => ⟨?_, (fresh other (.tail _ mem)).2⟩⟩
  have different : other.accountId ≠ account.id := by
    rw [same]
    rintro equal
    exact apart (equal ▸ List.mem_map_of_mem mem)
  exact (Table.get?_assign.trans (if_neg different)).trans (fresh other (.tail _ mem)).1

theorem bulkRows_accepted (base : Payload ν ε) (rows : List MemberRow) (seen created : List String)
    (payload : Payload ν ε) (fresh : BatchFresh session payload rows)
    (agree : ∀ row seen, batchAccount text session row seen payload =
      batchAccount text session row seen base)
    (accepted : batchAccepted text session base rows seen = true) :
    ∃ ids, (bulkRows text session rows seen created payload).2 = .ok ids := by
  induction rows generalizing seen created payload with
  | nil => exact ⟨created, rfl⟩
  | cons row rest ih =>
    cases passed : batchAccount text session row seen base with
    | error refusal =>
      rw [batchAccepted, passed] at accepted
      cases accepted
    | ok account =>
      rw [batchAccepted, passed] at accepted
      have same := (batchAccount_id passed).1
      have written : bulkRows text session (row :: rest) seen created payload =
          bulkRows text session rest (account.username :: seen) (created ++ [account.id])
            (payload.setAccount account) := by rw [bulkRows, agree, passed]
      rw [written]
      refine ih _ _ _ (fresh.next same) (fun next seen => ?_) accepted
      rw [batchAccount_setAccount (same ▸ (fresh.2 row (.head _)).2), agree]

theorem bulkRows_sound (rows : List MemberRow) (seen created : List String) (payload : Payload ν ε)
    (h : payload.Valid text restValid) (fresh : BatchFresh session payload rows)
    (taken : ∀ username ∈ takenUsernames text payload, username ∈ seen) :
    Sound text restValid (bulkRows text session rows seen created) payload := by
  induction rows generalizing seen created payload with
  | nil => exact fun _ _ => ⟨h, rfl⟩
  | cons row rest ih =>
    intro ids passed
    rw [bulkRows] at passed ⊢
    split at passed
    next => cases passed
    next account checked =>
      obtain ⟨verifier, roles, rfl, ne, known, valid, free, -⟩ := batchAccount_ok checked
      refine ih _ _ _ ?_ (fresh.next rfl) ?_ ids passed
      · exact h.addAccount (fresh.2 row (.head _)).1 ne known valid fun mem => free (taken _ mem)
      · intro username mem
        obtain ⟨other, otherMem, rfl⟩ := List.mem_map.mp mem
        rcases Table.mem_assign.mp otherMem with rfl | ⟨otherMem, -⟩
        · exact List.mem_cons.mpr (.inl (text.casefold_idem _))
        · exact .tail _ (taken _ (List.mem_map.mpr ⟨other, otherMem, rfl⟩))

end Batches

end Arenyxa.Enterprise
