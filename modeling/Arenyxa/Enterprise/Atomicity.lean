import Arenyxa.Enterprise.Validity
import Arenyxa.Lib.History

/-! Identity mutations: which of them leave something behind when they raise. -/

namespace Arenyxa.Enterprise

open History

variable {ν ε : Type}

/-- The calls that change the payload, each with the identities that it draws. What a mutator returns
is not looked at. -/
inductive Mutation (ν ε : Type)
  | createAccount (accountId username displayName password : String) (roles : List String)
  | bulkCreateAccounts (rows : List MemberRow)
  | setAccountEnabled (accountId : String) (enabled : Bool)
  | setAccountRoles (accountId : String) (roles : List String)
  | changePassword (accountId password : String)
  | deleteAccount (accountId : String)
  | createRole (roleId title : String) (permissions : List String)
  | updateRole (roleId title : String) (permissions : List String)
  | deleteRole (roleId : String)
  | mutateExtension (space : String) (stepUp : Bool) (mutator : Edit (Payload ν ε) (List String))
  | serviceMutateExtension (space : String) (leased : Bool) (mutator : Edit (Payload ν ε) (List String))

/-- One call, with its session and with what happens to its commit. -/
structure Call (ν ε : Type) where
  session : Caller
  mutation : Mutation ν ε
  weather : Weather

/-- The other parts of the payload: how they are validated, and `setdefault` of a namespace. -/
structure Spaces (ε : Type) where
  valid : ε → Bool
  ensure : String → ε → ε

section Calls

variable (text : Text ν) (spaces : Spaces ε)

def Payload.open (payload : Payload ν ε) (space : String) : Payload ν ε :=
  { payload with rest := spaces.ensure space payload.rest }

def Call.admission (call : Call ν ε) : Except Refusal Unit :=
  match call.mutation with
  | .createAccount .. => Enterprise.admission call.session false
  | .bulkCreateAccounts rows => batchAdmission call.session rows
  | .mutateExtension _ stepUp _ => Enterprise.admission call.session stepUp
  | .serviceMutateExtension _ leased _ => if leased then .ok () else .error .denied
  | _ => Enterprise.admission call.session true

def Call.edit (call : Call ν ε) : Edit (Payload ν ε) (List String) :=
  match call.mutation with
  | .createAccount accountId username displayName password roles =>
    createAccount text call.session accountId username displayName password roles
  | .bulkCreateAccounts rows => bulkCreateAccounts text call.session rows
  | .setAccountEnabled accountId enabled => setAccountEnabled call.session accountId enabled
  | .setAccountRoles accountId roles => setAccountRoles call.session accountId roles
  | .changePassword accountId password => changePassword text call.session accountId password
  | .deleteAccount accountId => deleteAccount call.session accountId
  | .createRole roleId title permissions => createRole text roleId title permissions
  | .updateRole roleId title permissions => updateRole text roleId title permissions
  | .deleteRole roleId => deleteRole roleId
  | .mutateExtension space _ mutator => fun payload => mutator (payload.open spaces space)
  | .serviceMutateExtension space _ mutator => fun payload => mutator (payload.open spaces space)

def Call.run (call : Call ν ε) (v : Vault (Payload ν ε)) :
    Vault (Payload ν ε) × Except Refusal (List String) :=
  v.transact (format text spaces.valid) call.admission (call.edit text spaces) call.weather

def after (v : Vault (Payload ν ε)) (call : Call ν ε) : Vault (Payload ν ε) := (call.run text spaces v).1

/-- A call that raises leaves the live payload as it was, or locks the vault. One that returns
leaves the live and the durable payload equal, one revision on. -/
def Atomic (v : Vault (Payload ν ε)) (call : Call ν ε) : Prop :=
  match call.run text spaces v with
  | (v', .error _) => v'.live = v.live ∨ v'.live = none
  | (v', .ok _) => ∃ payload payload', v.live = some payload ∧ v' = ⟨some payload', payload'⟩ ∧
      payload'.revision = payload.revision + 1

/-- The identities that a call draws are new. -/
def Fresh (v : Vault (Payload ν ε)) (call : Call ν ε) : Prop :=
  ∀ payload, v.live = some payload → match call.mutation with
    | .createAccount accountId .. => payload.accounts.get? accountId = none
    | .bulkCreateAccounts rows => BatchFresh call.session payload rows
    | _ => True

/-- What an extension mutator writes: nothing when it raises, else a valid payload with the revision
that was there. -/
def MutatorClean (payload : Payload ν ε) (space : String)
    (mutator : Edit (Payload ν ε) (List String)) : Prop :=
  match mutator (payload.open spaces space) with
  | (edited, .error _) => edited = payload
  | (edited, .ok _) => edited.Valid text spaces.valid ∧ edited.revision = payload.revision

/-- The condition under which a call leaves nothing behind: no batch row is refused after another
one, there is room for a new role, and a mutator is clean. -/
def Clean (v : Vault (Payload ν ε)) (call : Call ν ε) : Prop :=
  ∀ payload, v.live = some payload → call.admission = .ok () → match call.mutation with
    | .bulkCreateAccounts rows =>
      batchAccepted text call.session payload rows (takenUsernames text payload) = true ∨
        ∀ row ∈ rows.head?, ∃ refusal,
          batchAccount text call.session row (takenUsernames text payload) payload = .error refusal
    | .createRole roleId title permissions =>
      ∀ role, normalizeRole text roleId title permissions = .ok role →
        payload.roles.get? role.id = none → payload.roles.rows.length < maxRoles
    | .mutateExtension space _ mutator => MutatorClean text spaces payload space mutator
    | .serviceMutateExtension space _ mutator => MutatorClean text spaces payload space mutator
    | _ => True

/-- The calls of a history that return. -/
def returned : Vault (Payload ν ε) → List (Call ν ε) → List (Call ν ε)
  | _, [] => []
  | v, call :: rest => match call.run text spaces v with
    | (v', .error _) => returned v' rest
    | (v', .ok _) => call :: returned v' rest

end Calls

section Steps

variable {text : Text ν} {spaces : Spaces ε} {v : Vault (Payload ν ε)} {call : Call ν ε}
  {payload : Payload ν ε}

theorem admission_error {refusal : Refusal} (h : call.admission = .error refusal) :
    (call.run text spaces v).1 = v ∧ ∃ raised, (call.run text spaces v).2 = .error raised := by
  rw [Call.run, Vault.transact.eq_def, h]
  cases v.live with
  | none => exact ⟨rfl, _, rfl⟩
  | some payload => exact ⟨rfl, _, rfl⟩

theorem run_locked (h : v.live = none) :
    call.run text spaces v = (v, .error .locked) := by
  rw [Call.run, Vault.transact.eq_def, h]

theorem mutator_sound {space : String} {mutator : Edit (Payload ν ε) (List String)}
    (h : MutatorClean text spaces payload space mutator) :
    Sound text spaces.valid (fun payload => mutator (payload.open spaces space)) payload := by
  intro ids passed
  rw [MutatorClean] at h
  split at h
  next outcome =>
    simp only [outcome] at passed
    cases passed
  next outcome =>
    simp only [outcome]
    exact h

theorem mutator_refused {space : String} {mutator : Edit (Payload ν ε) (List String)}
    {refusal : Refusal} (h : MutatorClean text spaces payload space mutator)
    (refused : (mutator (payload.open spaces space)).2 = .error refusal) :
    (mutator (payload.open spaces space)).1 = payload := by
  rw [MutatorClean] at h
  split at h
  next outcome =>
    rw [outcome]
    exact h
  next outcome =>
    rw [outcome] at refused
    cases refused

theorem sound_of_clean (valid : payload.Valid text spaces.valid) (live : v.live = some payload)
    (admitted : call.admission = .ok ()) (fresh : Fresh v call) (clean : Clean text spaces v call) :
    Sound text spaces.valid (call.edit text spaces) payload := by
  have new := fresh payload live
  have kept := clean payload live admitted
  obtain ⟨session, mutation, weather⟩ := call
  cases mutation with
  | createAccount => exact createAccount_sound valid new
  | bulkCreateAccounts rows => exact bulkRows_sound rows _ _ _ valid new fun _ mem => mem
  | setAccountEnabled => exact setAccountEnabled_sound valid
  | setAccountRoles => exact setAccountRoles_sound valid
  | changePassword => exact changePassword_sound valid
  | deleteAccount => exact deleteAccount_sound valid
  | createRole roleId title permissions => exact createRole_sound valid kept
  | updateRole => exact updateRole_sound valid
  | deleteRole => exact deleteRole_sound valid
  | mutateExtension space stepUp mutator => exact mutator_sound kept
  | serviceMutateExtension space leased mutator => exact mutator_sound kept

theorem bulkRows_refused {session : Caller} {rows : List MemberRow} {refusal : Refusal}
    (fresh : BatchFresh session payload rows)
    (clean : batchAccepted text session payload rows (takenUsernames text payload) = true ∨
      ∀ row ∈ rows.head?, ∃ refusal,
        batchAccount text session row (takenUsernames text payload) payload = .error refusal)
    (refused : (bulkCreateAccounts text session rows payload).2 = .error refusal) :
    (bulkCreateAccounts text session rows payload).1 = payload := by
  rw [bulkCreateAccounts] at refused ⊢
  rcases clean with accepted | first
  · obtain ⟨ids, passed⟩ := bulkRows_accepted payload rows _ [] payload fresh (fun _ _ => rfl) accepted
    rw [passed] at refused
    cases refused
  · cases rows with
    | nil => rfl
    | cons row rest =>
      obtain ⟨reason, wrong⟩ := first row rfl
      rw [bulkRows, wrong]

theorem refused_of_clean (live : v.live = some payload) (admitted : call.admission = .ok ())
    (fresh : Fresh v call) (clean : Clean text spaces v call) {refusal : Refusal}
    (refused : (call.edit text spaces payload).2 = .error refusal) :
    (call.edit text spaces payload).1 = payload := by
  have new := fresh payload live
  have kept := clean payload live admitted
  obtain ⟨session, mutation, weather⟩ := call
  cases mutation with
  | createAccount => exact guarded_refused refused
  | bulkCreateAccounts rows => exact bulkRows_refused new kept refused
  | setAccountEnabled => exact guarded_refused refused
  | setAccountRoles => exact guarded_refused refused
  | changePassword => exact guarded_refused refused
  | deleteAccount => exact guarded_refused refused
  | createRole => exact guarded_refused refused
  | updateRole => exact guarded_refused refused
  | deleteRole => exact guarded_refused refused
  | mutateExtension => exact mutator_refused kept refused
  | serviceMutateExtension => exact mutator_refused kept refused

/-- A payload that is live is valid. -/
def Sane (text : Text ν) (spaces : Spaces ε) (v : Vault (Payload ν ε)) : Prop :=
  ∀ payload, v.live = some payload → payload.Valid text spaces.valid

theorem clean_outcome (sane : Sane text spaces v) (fresh : Fresh v call)
    (clean : Clean text spaces v call) :
    (∃ v' refusal, call.run text spaces v = (v', .error refusal) ∧
      (v'.live = v.live ∨ v'.live = none)) ∨
    (∃ payload payload' ids, v.live = some payload ∧
      call.run text spaces v = (⟨some payload', payload'⟩, .ok ids) ∧
      payload'.revision = payload.revision + 1 ∧ payload'.Valid text spaces.valid) := by
  cases live : v.live with
  | none => exact .inl ⟨v, .locked, run_locked live, .inl live⟩
  | some payload =>
    cases admitted : call.admission with
    | error refusal =>
      have unchanged : (call.run text spaces v).1 = v ∧
          ∃ raised, (call.run text spaces v).2 = .error raised := admission_error admitted
      obtain ⟨same, raised, refused⟩ := unchanged
      exact .inl ⟨_, raised, Prod.ext rfl refused, 
        .inl ((congrArg Vault.live same).trans live)⟩
    | ok u =>
      have sound := sound_of_clean (sane payload live) live admitted fresh clean
      rw [Call.run, admitted]
      rcases transact_cases live (call.edit text spaces) call.weather with
        ⟨refusal, refused, same⟩ | ⟨ids, passed, invalid, -⟩ |
        ⟨ids, passed, -, same | ⟨durable, refusal, -, same⟩ | same⟩
      · exact .inl ⟨_, _, same, .inl (congrArg some (refused_of_clean live admitted fresh clean refused))⟩
      · exact absurd (validatePayload_iff.mpr (sound ids passed).1) (by
          rw [show validatePayload text spaces.valid (call.edit text spaces payload).1 = false from invalid]
          exact Bool.false_ne_true)
      · obtain ⟨valid, revision⟩ := sound ids passed
        refine .inr ⟨payload, _, ids, rfl, same, congrArg (· + 1) revision, ?_⟩
        exact ⟨valid.rest, valid.inhabited, valid.bounded, valid.roles, valid.usernames,
          valid.accounts, valid.governed⟩
      · exact .inl ⟨_, _, same, .inl rfl⟩
      · exact .inl ⟨_, _, same, .inr rfl⟩

theorem atomic_of_clean (sane : Sane text spaces v) (fresh : Fresh v call)
    (clean : Clean text spaces v call) :
    Atomic text spaces v call ∧ Sane text spaces (after text spaces v call) := by
  rw [Atomic, after]
  rcases clean_outcome sane fresh clean with ⟨v', refusal, outcome, left⟩ |
    ⟨payload, payload', ids, live, outcome, revision, valid⟩
  · rw [outcome]
    refine ⟨left, fun payload live => ?_⟩
    rcases left with same | locked
    · exact sane payload (same ▸ live)
    · cases locked.symm.trans live
  · rw [outcome]
    refine ⟨⟨payload, payload', live, rfl, revision⟩, fun other same => ?_⟩
    cases same
    exact valid

end Steps

section Runs

variable {text : Text ν} {spaces : Spaces ε} {v : Vault (Payload ν ε)} {calls : List (Call ν ε)}

theorem run_after_locked (h : v.live = none) : (run (after text spaces) v calls).live = none := by
  induction calls with
  | nil => exact h
  | cons call rest ih =>
    have stays : after text spaces v call = v := congrArg Prod.fst (run_locked h)
    rw [run, List.foldl_cons, stays]
    exact ih

theorem live_eq_returned {w : Vault (Payload ν ε)} (same : v.live = w.live) (sane : Sane text spaces v)
    (fresh : Each (after text spaces) Fresh v calls)
    (clean : Each (after text spaces) (Clean text spaces) v calls) :
    (run (after text spaces) v calls).live = none ∨
      (run (after text spaces) v calls).live =
        (run (after text spaces) w (returned text spaces v calls)).live := by
  induction calls generalizing v w with
  | nil => exact .inr same
  | cons call rest ih =>
    obtain ⟨freshNow, freshRest⟩ := fresh
    obtain ⟨cleanNow, cleanRest⟩ := clean
    have saneNext := (atomic_of_clean sane freshNow cleanNow).2
    rw [run, List.foldl_cons, returned]
    rcases clean_outcome sane freshNow cleanNow with ⟨v', refusal, outcome, left⟩ |
      ⟨payload, payload', ids, live, outcome, -, -⟩
    · have next : after text spaces v call = v' := congrArg Prod.fst outcome
      rw [outcome]
      rw [next] at saneNext freshRest cleanRest ⊢
      rcases left with kept | locked
      · exact ih (kept.trans same) saneNext freshRest cleanRest
      · exact .inl (run_after_locked locked)
    · have next : after text spaces v call = ⟨some payload', payload'⟩ := congrArg Prod.fst outcome
      have replay : (after text spaces v call).live = (after text spaces w call).live :=
        (transact_live same).2
      rw [outcome]
      rw [next] at saneNext freshRest cleanRest replay ⊢
      exact ih replay saneNext freshRest cleanRest

end Runs

section Founded

def plainText : Text String where
  strip := id
  casefold := id
  hasSpace s := s.toList.any Char.isWhitespace
  passwordVerifier password := if password.length < 12 || 1024 < password.length then none else some password
  verifierValid verifier := 12 ≤ verifier.length
  strip_idem _ := rfl
  casefold_idem _ := rfl
  verifier_valid password verifier drawn := by
    split at drawn
    next => cases drawn
    next bounds =>
      cases drawn
      simp only [Bool.or_eq_true, decide_eq_true_eq, not_or, Nat.not_lt] at bounds
      exact decide_eq_true bounds.1

def plainSpaces : Spaces (List String) where
  valid spaces := spaces.length ≤ 32
  ensure space spaces := if spaces.contains space then spaces else spaces ++ [space]

def rootAccount : Account String :=
  ⟨"account-root", "root", "Root", "correct horse battery", [superAdmin], true, 1⟩

def foundedPayload : Payload String (List String) where
  revision := 1
  generation := 1
  accounts := ⟨[rootAccount], by decide⟩
  roles := ⟨[⟨superAdmin, "Super Administrator", true, permissionCatalog⟩,
    ⟨"member", "Member", true, ["dataset.read"]⟩], by decide⟩
  rest := []

def founded : Vault (Payload String (List String)) := ⟨some foundedPayload, foundedPayload⟩

def rootSession : Caller := ⟨"account-root", true, true⟩

def fairWeather : Weather := ⟨true, true, true⟩

/-- The second row of the batch repeats the username of the first. -/
def repeatingBatch : Call String (List String) :=
  ⟨rootSession, .bulkCreateAccounts [
    ⟨"account-1", "alice", "Alice", [], "correct horse battery", ""⟩,
    ⟨"account-2", "alice", "Alice", [], "correct horse battery", ""⟩], fairWeather⟩

def createAuditor : Call String (List String) :=
  ⟨rootSession, .createRole "auditor" "Auditor" ["enterprise.audit.read"], fairWeather⟩

theorem sane_founded : Sane plainText plainSpaces founded := by
  rintro payload live
  cases live
  exact validatePayload_iff.mp (by decide +kernel)

end Founded

end Arenyxa.Enterprise
