import Mathlib.Data.Prod.Basic

/-! The unlocked vault: a payload that every operation edits in place, and the durable copy that
a commit writes. An edit that raises is not undone. -/

namespace Arenyxa.Enterprise

inductive Refusal
  | locked | denied | stepUpRequired
  | username | usernameExists | role | account | superAdminRequired | lastSuperAdmin | password
  | roleExists | roleMissing | builtinRole | roleInUse | batch
  | payloadInvalid | save | audit | rollbackFailed
  | stateInvalid | ownerInvalid | workspaceMissing | memberInvalid | teamMissing | resourceMissing
  | permissionInvalid | approvalInvalid | approvalExpired | approvalRequired | selfReview
  | requesterMismatch | quotaExceeded | quotaInvalid | idInvalid | resourceKind | scopeInvalid
  | capacity | campaignMissing | campaignInactive | credentialMissing | replay | expired
  | credentialInvalid | accountInvalid | rolesChanged | deviceExists | deviceMissing | campaignInvalid | csv
  | enterpriseMismatch | deviceInvalid | deviceBinding
  deriving DecidableEq

section Vault

variable {π ρ : Type}

/-- What an operation writes to the live payload, and what it returns or raises after that. -/
abbrev Edit (π ρ : Type) := π → π × Except Refusal ρ

/-- Checks that write nothing, before one write. -/
def Edit.guarded {α : Type} (check : π → Except Refusal α) (write : α → π → π) (result : α → ρ) :
    Edit π ρ :=
  fun payload => match check payload with
    | .error refusal => (payload, .error refusal)
    | .ok a => (write a payload, .ok (result a))

/-- The live payload is `none` while the vault is locked. -/
structure Vault (π : Type) where
  live : Option π
  durable : π

/-- Which of the calls of a commit succeed: the save, the audit record, and the save of the
earlier payload. -/
structure Weather where
  saves : Bool
  audits : Bool
  restores : Bool

/-- The payload of the code as a type: what `validate_payload` accepts, and the counters that
a commit raises. -/
structure Format (π : Type) where
  valid : π → Bool
  revise : π → π

variable (format : Format π)

/-- `_commit_with_rollback` of a payload that was edited in place. -/
def Vault.commit (v : Vault π) (before edited : π) (weather : Weather) : Vault π × Except Refusal Unit :=
  if !format.valid edited then ({ v with live := some edited }, .error .payloadInvalid)
  else
    let revised := format.revise edited
    if !weather.saves then ({ v with live := some before }, .error .save)
    else if weather.audits then (⟨some revised, revised⟩, .ok ())
    else if weather.restores then (⟨some before, before⟩, .error .audit)
    else (⟨none, revised⟩, .error .rollbackFailed)

/-- An operation under the mutation lock. `admitted` is the answer of its permission checks, which
come first. -/
def Vault.transact (v : Vault π) (admitted : Except Refusal Unit) (edit : Edit π ρ)
    (weather : Weather) : Vault π × Except Refusal ρ :=
  match v.live, admitted with
  | none, _ => (v, .error .locked)
  | some _, .error refusal => (v, .error refusal)
  | some payload, .ok () =>
    match edit payload with
    | (edited, .error refusal) => ({ v with live := some edited }, .error refusal)
    | (edited, .ok result) =>
      match v.commit format payload edited weather with
      | (v', .error refusal) => (v', .error refusal)
      | (v', .ok ()) => (v', .ok result)

end Vault

section Outcomes

variable {π ρ : Type} {format : Format π} {v v' : Vault π} {payload : π} {edit : Edit π ρ}
  {weather : Weather} {admitted : Except Refusal Unit} {result : ρ} {refusal : Refusal}

theorem transact_cases (live : v.live = some payload) (edit : Edit π ρ) (weather : Weather) :
    (∃ refusal, (edit payload).2 = .error refusal ∧
      v.transact format (.ok ()) edit weather =
        ({ v with live := some (edit payload).1 }, .error refusal)) ∨
    (∃ result, (edit payload).2 = .ok result ∧ format.valid (edit payload).1 = false ∧
      v.transact format (.ok ()) edit weather =
        ({ v with live := some (edit payload).1 }, .error .payloadInvalid)) ∨
    (∃ result, (edit payload).2 = .ok result ∧ format.valid (edit payload).1 = true ∧
      (v.transact format (.ok ()) edit weather =
          (⟨some (format.revise (edit payload).1), format.revise (edit payload).1⟩, .ok result) ∨
        (∃ durable refusal, (durable = v.durable ∨ durable = payload) ∧
          v.transact format (.ok ()) edit weather = (⟨some payload, durable⟩, .error refusal)) ∨
        v.transact format (.ok ()) edit weather =
          (⟨none, format.revise (edit payload).1⟩, .error .rollbackFailed))) := by
  rw [Vault.transact.eq_def, live]
  rcases outcome : edit payload with ⟨edited, refusal | result⟩
  · exact .inl ⟨refusal, rfl, by simp only [outcome]⟩
  · refine .inr ?_
    cases valid : format.valid edited with
    | false => exact .inl ⟨result, rfl, rfl, by simp [Vault.commit, outcome, valid]⟩
    | true =>
      refine .inr ⟨result, rfl, rfl, ?_⟩
      obtain ⟨saves, audits, restores⟩ := weather
      cases saves with
      | false => exact .inr (.inl ⟨v.durable, .save, .inl rfl, by simp [Vault.commit, outcome, valid]⟩)
      | true =>
        cases audits with
        | true => exact .inl (by simp [Vault.commit, outcome, valid])
        | false =>
          cases restores with
          | true => exact .inr (.inl ⟨payload, .audit, .inr rfl, by simp [Vault.commit, outcome, valid]⟩)
          | false => exact .inr (.inr (by simp [Vault.commit, outcome, valid]))

theorem transact_ok (h : v.transact format admitted edit weather = (v', .ok result)) :
    ∃ payload, v.live = some payload ∧ (edit payload).2 = .ok result ∧
      format.valid (edit payload).1 = true ∧
      v' = ⟨some (format.revise (edit payload).1), format.revise (edit payload).1⟩ := by
  cases live : v.live with
  | none =>
    rw [Vault.transact.eq_def, live] at h
    cases h
  | some payload =>
    cases admitted with
    | error refusal =>
      rw [Vault.transact.eq_def, live] at h
      cases h
    | ok u =>
      rcases transact_cases live edit weather with ⟨refusal, -, same⟩ | ⟨result, -, -, same⟩ |
        ⟨result', passed, valid, same | ⟨durable, refusal, -, same⟩ | same⟩
      · cases same.symm.trans h
      · cases same.symm.trans h
      · cases same.symm.trans h
        exact ⟨payload, rfl, passed, valid, rfl⟩
      · cases same.symm.trans h
      · cases same.symm.trans h

theorem transact_live {w : Vault π} (same : v.live = w.live) :
    (v.transact format admitted edit weather).2 = (w.transact format admitted edit weather).2 ∧
      (v.transact format admitted edit weather).1.live =
        (w.transact format admitted edit weather).1.live := by
  rw [Vault.transact.eq_def, Vault.transact.eq_def, ← same]
  cases live : v.live with
  | none => exact ⟨rfl, live.trans (live.symm.trans same)⟩
  | some payload =>
    cases admitted with
    | error refusal => exact ⟨rfl, same⟩
    | ok u =>
      rcases outcome : edit payload with ⟨edited, refusal | result⟩
      · simp [outcome]
      · obtain ⟨saves, audits, restores⟩ := weather
        cases valid : format.valid edited with
        | false => simp [Vault.commit, outcome, valid]
        | true => cases saves <;> cases audits <;> cases restores <;>
            simp [Vault.commit, outcome, valid]

theorem transact_keeps {P : π → Prop} (edited : ∀ payload, v.live = some payload → P (edit payload).1)
    (revised : ∀ payload, P payload → P (format.revise payload))
    (h : ∀ payload, v.live = some payload → P payload) (payload : π)
    (live : (v.transact format admitted edit weather).1.live = some payload) : P payload := by
  cases before : v.live with
  | none =>
    rw [Vault.transact.eq_def, before] at live
    exact h payload live
  | some old =>
    cases admitted with
    | error refusal =>
      rw [Vault.transact.eq_def, before] at live
      exact h payload live
    | ok u =>
      rcases transact_cases before edit weather with ⟨refusal, -, same⟩ | ⟨result, -, -, same⟩ |
        ⟨result, -, -, same | ⟨durable, refusal, -, same⟩ | same⟩
      · rw [same] at live
        exact Option.some.inj live ▸ edited old before
      · rw [same] at live
        exact Option.some.inj live ▸ edited old before
      · rw [same] at live
        exact Option.some.inj live ▸ revised _ (edited old before)
      · rw [same] at live
        exact Option.some.inj live ▸ h old before
      · rw [same] at live
        cases live

theorem transact_unlocked (live : v.live = some payload)
    (fair : (weather.audits || weather.restores) = true) :
    (v.transact format admitted edit weather).1.live ≠ none := by
  rw [Vault.transact.eq_def, live]
  cases admitted with
  | error refusal => simp [live]
  | ok u =>
    rcases outcome : edit payload with ⟨edited, refusal | result⟩
    · simp [outcome]
    · obtain ⟨saves, audits, restores⟩ := weather
      cases valid : format.valid edited <;> cases saves <;> cases audits <;> cases restores <;>
        simp_all [Vault.commit]

theorem guarded_refused {α : Type} {check : π → Except Refusal α} {write : α → π → π} {f : α → ρ}
    (h : (Edit.guarded check write f payload).2 = .error refusal) :
    (Edit.guarded check write f payload).1 = payload := by
  rw [Edit.guarded] at h ⊢
  split at h
  next => rfl
  next => cases h

theorem guarded_passed {α : Type} {check : π → Except Refusal α} {write : α → π → π} {f : α → ρ}
    (h : (Edit.guarded check write f payload).2 = .ok result) :
    ∃ a, check payload = .ok a ∧ f a = result ∧
      (Edit.guarded check write f payload).1 = write a payload := by
  rw [Edit.guarded] at h ⊢
  split at h
  next => cases h
  next a passed =>
    cases h
    exact ⟨a, passed, rfl, rfl⟩

end Outcomes

end Arenyxa.Enterprise
