import Arenyxa.Security.Kernel

/-! Which changes of the security state leave a session valid. -/

namespace Arenyxa.Security

variable {V : Type} {lib : Library V} {s s' : SecurityState} {session : Session V} {now : Int}

structure Identity.Carries (identity : Identity) (session : Session V) : Prop where
  enabled : identity.enabled = true
  principal : identity.principal.id = session.principalId
  trustDomain : identity.principal.trustDomain = session.trustDomain
  generation : identity.generation = session.identityGeneration

structure DeviceIdentity.Carries (device : DeviceIdentity) (session : Session V) : Prop where
  trustDomain : device.trustDomain = session.trustDomain
  active : device.revoked = false
  generation : device.generation = session.deviceGeneration

/-- The session has a time at which it was issued and a later one at which it expires, and now is between them. -/
def Timely (lib : Library V) (session : Session V) (now : Int) : Prop :=
  ∃ issued expires, lib.fromisoformat session.issuedAt = some issued ∧
    lib.fromisoformat session.expiresAt = some expires ∧ issued < expires ∧ now < expires ∧ issued - now ≤ 5 * minute

theorem validateDevice_valid_iff : (validateDevice s session).valid = true ↔ session.deviceId = "" ∨
    ∃ device, s.devices session.deviceId = some device ∧ device.Carries session := by
  unfold validateDevice
  split
  next bare => exact iff_of_true rfl (.inl bare)
  next named =>
    rw [or_iff_right named]
    split
    next missing => exact iff_of_false nofun fun ⟨_, its, _⟩ => nomatch missing.symm.trans its
    next device found =>
      rw [found]
      have only : (∃ d, some device = some d ∧ d.Carries session) ↔ device.Carries session :=
        ⟨fun ⟨_, its, carries⟩ => Option.some.inj its ▸ carries, fun carries => ⟨device, rfl, carries⟩⟩
      rw [only]
      split
      next domain => exact iff_of_false nofun fun carries => domain carries.trustDomain
      next domain =>
        split
        next revoked => exact iff_of_false nofun fun carries => by simp [carries.active] at revoked
        next active =>
          split
          next other => exact iff_of_false nofun fun carries => other carries.generation
          next same => exact iff_of_true rfl ⟨not_not.mp domain, by simpa using active, not_not.mp same⟩

theorem validateIdentity_valid_iff : (validateIdentity s session).valid = true ↔
    (∃ identity, s.identities session.identityId = some identity ∧ identity.Carries session) ∧
      (validateDevice s session).valid = true := by
  unfold validateIdentity
  split
  next missing => exact iff_of_false nofun fun ⟨⟨_, its, _⟩, _⟩ => nomatch missing.symm.trans its
  next identity found =>
    rw [found]
    have only : (∃ i, some identity = some i ∧ i.Carries session) ↔ identity.Carries session :=
      ⟨fun ⟨_, its, carries⟩ => Option.some.inj its ▸ carries, fun carries => ⟨identity, rfl, carries⟩⟩
    rw [only]
    split
    next disabled => exact iff_of_false nofun fun its => by simp [its.1.enabled] at disabled
    next enabled =>
      split
      next other => exact iff_of_false nofun fun its => other its.1.principal
      next principal =>
        split
        next other => exact iff_of_false nofun fun its => other its.1.trustDomain
        next domain =>
          split
          next other => exact iff_of_false nofun fun its => other its.1.generation
          next same =>
            refine (and_iff_right ⟨?_, not_not.mp principal, not_not.mp domain, not_not.mp same⟩).symm
            simpa using enabled

theorem validate_valid_iff : (validate lib s session now).valid = true ↔
    Timely lib session now ∧ session.id ∉ s.revokedSessions ∧ (validateIdentity s session).valid = true := by
  unfold validate Timely
  split
  next issued expires from_issued from_expires =>
    rw [from_issued, from_expires]
    have only : (∃ i e, some issued = some i ∧ some expires = some e ∧ i < e ∧ now < e ∧ i - now ≤ 5 * minute) ↔
        issued < expires ∧ now < expires ∧ issued - now ≤ 5 * minute := by
      constructor
      · rintro ⟨_, _, rfl', rfl'', rest⟩
        cases rfl'
        cases rfl''
        exact rest
      · exact fun rest => ⟨issued, expires, rfl, rfl, rest⟩
    rw [only]
    split
    next reversed => exact iff_of_false nofun fun its => absurd its.1.1 (not_lt.mpr reversed)
    next ordered =>
      split
      next late => exact iff_of_false nofun fun its => absurd its.1.2.1 (not_lt.mpr late)
      next live =>
        split
        next early => exact iff_of_false nofun fun its => absurd its.1.2.2 (not_le.mpr early)
        next begun =>
          split
          next revoked => exact iff_of_false nofun fun its => its.2.1 revoked
          next kept =>
            rw [and_iff_right ⟨not_le.mp ordered, not_le.mp live, not_lt.mp begun⟩, and_iff_right kept]
  next unread =>
    exact iff_of_false nofun fun ⟨⟨issued, expires, from_issued, from_expires, _⟩, _⟩ =>
      unread issued expires from_issued from_expires

theorem valid_of_later (valid : (validate lib s' session now).valid = true)
    (revoked : session.id ∈ s.revokedSessions → session.id ∈ s'.revokedSessions)
    (identities : ∀ identity, s'.identities session.identityId = some identity → identity.Carries session →
      s.identities session.identityId = some identity)
    (devices : ∀ device, s'.devices session.deviceId = some device → device.Carries session →
      s.devices session.deviceId = some device) : (validate lib s session now).valid = true := by
  obtain ⟨timely, kept, valid⟩ := validate_valid_iff.1 valid
  obtain ⟨⟨identity, found, carries⟩, device⟩ := validateIdentity_valid_iff.1 valid
  refine validate_valid_iff.2 ⟨timely, fun mem => kept (revoked mem), validateIdentity_valid_iff.2 ⟨?_, ?_⟩⟩
  · exact ⟨identity, identities identity found carries, carries⟩
  · refine validateDevice_valid_iff.2 ((validateDevice_valid_iff.1 device).imp_right ?_)
    exact fun ⟨device, found, carries⟩ => ⟨device, devices device found carries, carries⟩

/-- The state and the ids that were drawn for it: an id that is drawn is a new one. -/
structure World where
  state : SecurityState
  drawn : List String
  known : ∀ {id identity}, state.identities id = some identity → id ∈ drawn

/-- A method changes the state. Identities are created under an id that is drawn for them. -/
inductive Step (w w' : World) : Prop
  | createIdentity (identity : Identity) (new : identity.id ∉ w.drawn)
      (done : w.state.registerIdentity identity = .ok w'.state) (drawn : identity.id :: w.drawn ⊆ w'.drawn)
  | removeIdentity (id : String) (done : w.state.removeIdentity id = w'.state) (drawn : w.drawn ⊆ w'.drawn)
  | disableIdentity (id : String) (done : w.state.disableIdentity id = .ok w'.state) (drawn : w.drawn ⊆ w'.drawn)
  | bumpIdentityGeneration (id : String) (done : w.state.bumpIdentityGeneration id = .ok w'.state)
      (drawn : w.drawn ⊆ w'.drawn)
  | registerDevice (device : DeviceIdentity) (done : w.state.registerDevice device = .ok w'.state)
      (drawn : w.drawn ⊆ w'.drawn)
  | revokeDevice (id : String) (done : w.state.revokeDevice id = .ok w'.state) (drawn : w.drawn ⊆ w'.drawn)
  | revokeSession (id : String) (done : w.state.revokeSession id = w'.state) (drawn : w.drawn ⊆ w'.drawn)
  | forgetSessionRevocation (id : String) (done : w.state.forgetSessionRevocation id = w'.state)
      (drawn : w.drawn ⊆ w'.drawn)

/-- The generation of the identity is not behind the one that the session carries. -/
def Behind (session : Session V) (s : SecurityState) : Prop :=
  ∀ identity, s.identities session.identityId = some identity → session.identityGeneration ≤ identity.generation

/-- The identity of the session is one that was known. -/
structure Issued (session : Session V) (w : World) : Prop where
  drawn : session.identityId ∈ w.drawn
  behind : Behind session w.state

theorem Behind.putIdentity {identity : Identity} (behind : Behind session s)
    (later : identity.id = session.identityId → session.identityGeneration ≤ identity.generation) :
    Behind session (s.putIdentity identity) := by
  intro found its
  rw [SecurityState.putIdentity] at its
  dsimp only at its
  by_cases own : session.identityId = identity.id
  · rw [own, Function.update_self] at its
    exact Option.some.inj its ▸ later own.symm
  · rw [Function.update_of_ne own] at its
    exact behind found its

theorem Issued.step {w w' : World} (issued : Issued session w) (step : Step w w') : Issued session w' := by
  obtain ⟨mem, behind⟩ := issued
  cases step with
  | createIdentity identity new done drawn =>
    refine ⟨drawn (List.mem_cons_of_mem _ mem), ?_⟩
    unfold SecurityState.registerIdentity at done
    split at done
    next => cases done
    next => exact Except.ok.inj done ▸ behind.putIdentity fun own => absurd (own ▸ mem) new
  | removeIdentity id done drawn =>
    refine ⟨drawn mem, done ▸ fun identity its => ?_⟩
    rw [SecurityState.removeIdentity] at its
    dsimp only at its
    by_cases own : session.identityId = id
    · rw [own, Function.update_self] at its
      cases its
    · rw [Function.update_of_ne own] at its
      exact behind identity its
  | disableIdentity id done drawn =>
    refine ⟨drawn mem, ?_⟩
    unfold SecurityState.disableIdentity at done
    split at done
    next => cases done
    next identity found =>
      refine Except.ok.inj done ▸ behind.putIdentity fun own => ?_
      have here := behind identity (own ▸ w.state.keyed found ▸ found)
      exact here.trans (Int.le_add_one le_rfl)
  | bumpIdentityGeneration id done drawn =>
    refine ⟨drawn mem, ?_⟩
    unfold SecurityState.bumpIdentityGeneration at done
    split at done
    next => cases done
    next identity found =>
      refine Except.ok.inj done ▸ behind.putIdentity fun own => ?_
      have here := behind identity (own ▸ w.state.keyed found ▸ found)
      exact here.trans (Int.le_add_one le_rfl)
  | registerDevice device done drawn =>
    refine ⟨drawn mem, ?_⟩
    unfold SecurityState.registerDevice at done
    split at done
    next => cases done
    next => exact Except.ok.inj done ▸ behind
  | revokeDevice id done drawn =>
    refine ⟨drawn mem, ?_⟩
    unfold SecurityState.revokeDevice at done
    split at done
    next => cases done
    next => exact Except.ok.inj done ▸ behind
  | revokeSession id done drawn => exact ⟨drawn mem, done ▸ behind⟩
  | forgetSessionRevocation id done drawn => exact ⟨drawn mem, done ▸ behind⟩

theorem Issued.run {w w' : World} (issued : Issued session w) (run : Relation.ReflTransGen Step w w') :
    Issued session w' := by
  induction run with
  | refl => exact issued
  | tail _ step ih => exact ih.step step

theorem issueSession_issued {w : World} {kernel : SecurityKernel V} {identityId sessionId deviceId : String}
    {capabilities : List String} {ttl : Int} {metadata : List (String × V)} (state : kernel.state = w.state)
    (done : issueSession lib kernel identityId sessionId capabilities deviceId ttl now metadata = .ok session) :
    Issued session w := by
  obtain ⟨identity, granted, generation, found, -, -, rfl⟩ := issueSession_ok done
  rw [state] at found
  have here : w.state.identities identity.id = some identity := w.state.keyed found ▸ found
  exact ⟨w.known here, fun other its => Option.some.inj (here.symm.trans its) ▸ le_rfl⟩

end Arenyxa.Security
