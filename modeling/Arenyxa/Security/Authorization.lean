import Arenyxa.Security.Rules
import Arenyxa.Security.Validity

/-! What an allowance of the security kernel rests on, and what never brings one about. -/

universe v

namespace Arenyxa.Security

open Audit (AuditEvent)

variable {V : Type} {lib : Library V} {kernel kernel' : SecurityKernel V} {emit : AuditEvent → Except String Unit}
  {request : Request V}

/-- What an allowance rests on. -/
structure Sound (lib : Library V) (kernel : SecurityKernel V) (request : Request V) (session : Session V)
    (definition : CapabilityDefinition) : Prop where
  carried : request.session = some session
  valid : (validate lib kernel.state session request.now).valid = true
  registered : kernel.catalog request.capability = some definition
  verified : session.trustDomain = .developer → "platform.root" ∈ session.grantedCapabilities →
    rootIntegrity lib session = true
  grounds :
    (session.trustDomain = .developer ∧ "platform.root" ∈ session.grantedCapabilities ∧
      rootIntegrity lib session = true ∧ (definition.trustDomain = .personal ∨ definition.trustDomain = .developer)) ∨
    (definition.trustDomain = session.trustDomain ∧ request.capability ∈ session.grantedCapabilities ∧
      Admits lib ⟨session.trustDomain, request.capability, request.resource, request.context⟩ kernel.policy)

theorem rootClaimed_iff {session : Session V} : rootClaimed session = true ↔
    session.trustDomain = .developer ∧ "platform.root" ∈ session.grantedCapabilities := by
  unfold rootClaimed
  rw [Bool.and_eq_true, decide_eq_true_iff, List.contains_iff_mem]

theorem not_allows {code reason : String} {rules : List String} : ¬Allows (.ok ⟨false, code, reason, rules⟩) := by
  rintro ⟨_, its, allowed⟩
  cases its
  cases allowed

theorem decision_allows (allows : Allows (decision lib kernel request)) :
    ∃ session definition, Sound lib kernel request session definition := by
  unfold decision at allows
  split at allows
  next => exact absurd allows not_allows
  next session carried =>
    dsimp only at allows
    split at allows
    next => exact absurd allows not_allows
    next valid =>
      unfold decideFor at allows
      split at allows
      next => exact absurd allows not_allows
      next definition registered =>
        split at allows
        next => exact absurd allows not_allows
        next verified =>
          have integrity : session.trustDomain = .developer → "platform.root" ∈ session.grantedCapabilities →
              rootIntegrity lib session = true := by
            intro domain root
            rw [rootClaimed_iff.2 ⟨domain, root⟩] at verified
            simpa using verified
          refine ⟨session, definition, carried, by simpa using valid, registered, integrity, ?_⟩
          split at allows
          next root =>
            rw [Bool.and_eq_true, Bool.and_eq_true, rootClaimed_iff] at root
            exact .inl ⟨root.1.1.1, root.1.1.2, root.1.2, by simpa using root.2⟩
          next =>
            split at allows
            next => exact absurd allows not_allows
            next domain => exact .inr ⟨not_not.mp domain, evaluate_allows_iff.mp allows⟩

theorem Sound.allows {session : Session V} {definition : CapabilityDefinition}
    (sound : Sound lib kernel request session definition) : Allows (decision lib kernel request) := by
  unfold decision
  rw [sound.carried]
  dsimp only
  rw [sound.valid]
  unfold decideFor
  rw [sound.registered]
  have verified : ¬(rootClaimed session && !rootIntegrity lib session) = true := by
    intro claimed
    rw [Bool.and_eq_true, rootClaimed_iff] at claimed
    rw [sound.verified claimed.1.1 claimed.1.2] at claimed
    exact absurd claimed.2 (by decide)
  dsimp only
  rw [if_neg (by decide), if_neg verified]
  split
  next => exact ⟨_, rfl, rfl⟩
  next common =>
    rcases sound.grounds with ⟨domain, root, integrity, which⟩ | ⟨domain, granted, admits⟩
    · refine absurd ?_ common
      rw [Bool.and_eq_true, Bool.and_eq_true, rootClaimed_iff]
      exact ⟨⟨⟨domain, root⟩, integrity⟩, by simpa using which⟩
    · rw [if_neg (not_not.mpr domain)]
      exact evaluate_allows_iff.mpr ⟨granted, admits⟩

theorem authorize_ok {decision : AuthorizationDecision} {trace : List Happening}
    (done : authorize lib kernel emit request = (trace, .ok decision)) :
    Security.decision lib kernel request = .ok decision ∧ trace = [.emitted (auditEvent kernel request decision)] ∧
      emit (auditEvent kernel request decision) = .ok () := by
  unfold authorize at done
  split at done
  next => cases done
  next decision' decided =>
    split at done
    next => cases done
    next wrote =>
      cases done
      exact ⟨decided, rfl, wrote⟩

/-- The kernel after a rule that denies was added, or a session, a device or an identity lost its standing. -/
inductive Tightened (kernel : SecurityKernel V) : SecurityKernel V → Prop
  | add {rule : PolicyRule V} {policy : List (PolicyRule V)} (effect : rule.effect = .deny)
      (done : add kernel.policy rule = .ok policy) : Tightened kernel { kernel with policy := policy }
  | revokeSession (id : String) : Tightened kernel { kernel with state := kernel.state.revokeSession id }
  | revokeDevice {id : String} {state : SecurityState} (done : kernel.state.revokeDevice id = .ok state) :
      Tightened kernel { kernel with state := state }
  | disableIdentity {id : String} {state : SecurityState} (done : kernel.state.disableIdentity id = .ok state) :
      Tightened kernel { kernel with state := state }
  | bumpIdentityGeneration {id : String} {state : SecurityState}
      (done : kernel.state.bumpIdentityGeneration id = .ok state) : Tightened kernel { kernel with state := state }

section States

variable {s s' : SecurityState} {session : Session V} {now : Int} {id : String}

theorem valid_of_revokeSession (valid : (validate lib (s.revokeSession id) session now).valid = true) :
    (validate lib s session now).valid = true :=
  valid_of_later valid (List.mem_cons_of_mem id) (fun _ its _ => its) (fun _ its _ => its)

theorem valid_of_revokeDevice (done : s.revokeDevice id = .ok s')
    (valid : (validate lib s' session now).valid = true) : (validate lib s session now).valid = true := by
  unfold SecurityState.revokeDevice at done
  split at done
  next => cases done
  next device found =>
    cases done
    refine valid_of_later valid (fun mem => mem) (fun _ its _ => its) (fun other its carries => ?_)
    dsimp only at its
    by_cases own : session.deviceId = id
    · rw [own, Function.update_self] at its
      have active := carries.active
      rw [← Option.some.inj its] at active
      cases active
    · rwa [Function.update_of_ne own] at its

theorem valid_of_putIdentity {identity : Identity}
    (spent : identity.id = session.identityId → ¬identity.Carries session)
    (valid : (validate lib (s.putIdentity identity) session now).valid = true) :
    (validate lib s session now).valid = true := by
  refine valid_of_later valid (fun mem => mem) (fun other its carries => ?_) (fun _ its _ => its)
  rw [SecurityState.putIdentity] at its
  dsimp only at its
  by_cases own : session.identityId = identity.id
  · rw [own, Function.update_self] at its
    exact absurd (Option.some.inj its ▸ carries) (spent own.symm)
  · rwa [Function.update_of_ne own] at its

theorem valid_of_disableIdentity (done : s.disableIdentity id = .ok s')
    (valid : (validate lib s' session now).valid = true) : (validate lib s session now).valid = true := by
  unfold SecurityState.disableIdentity at done
  split at done
  next => cases done
  next identity found =>
    cases done
    exact valid_of_putIdentity (fun _ carries => Bool.false_ne_true carries.enabled) valid

theorem valid_of_bumpIdentityGeneration (behind : Behind session s) (done : s.bumpIdentityGeneration id = .ok s')
    (valid : (validate lib s' session now).valid = true) : (validate lib s session now).valid = true := by
  unfold SecurityState.bumpIdentityGeneration at done
  split at done
  next => cases done
  next identity found =>
    cases done
    refine valid_of_putIdentity (fun own carries => ?_) valid
    have here := behind identity (own ▸ s.keyed found ▸ found)
    have next : identity.generation + 1 = session.identityGeneration := carries.generation
    omega

end States

theorem allows_of_valid {session : Session V} {state : SecurityState} (carried : request.session = some session)
    (earlier : (validate lib state session request.now).valid = true →
      (validate lib kernel.state session request.now).valid = true)
    (allows : Allows (decision lib { kernel with state := state } request)) :
    Allows (decision lib kernel request) := by
  obtain ⟨session', definition, sound⟩ := decision_allows allows
  cases carried.symm.trans sound.carried
  exact Sound.allows ⟨carried, earlier sound.valid, sound.registered, sound.verified, sound.grounds⟩

theorem allows_of_add {rule : PolicyRule V} {policy : List (PolicyRule V)} (effect : rule.effect = .deny)
    (done : add kernel.policy rule = .ok policy)
    (allows : Allows (decision lib { kernel with policy := policy } request)) :
    Allows (decision lib kernel request) := by
  have perm := add_eq done
  have fewer : kernel.policy ⊆ policy := fun r mem => perm.mem_iff.mpr (List.mem_append_left _ mem)
  have kept : ∀ r ∈ policy, r.effect = .allow → r ∈ kernel.policy := by
    intro r mem allow
    rcases List.mem_append.mp (perm.mem_iff.mp mem) with old | new
    · exact old
    · rw [List.mem_singleton.mp new, effect] at allow
      cases allow
  obtain ⟨session, definition, sound⟩ := decision_allows allows
  exact Sound.allows ⟨sound.carried, sound.valid, sound.registered, sound.verified,
    sound.grounds.imp_right fun ⟨domain, granted, admits⟩ => ⟨domain, granted, admits.of_subset fewer kept⟩⟩

theorem Tightened.allows {session : Session V} (carried : request.session = some session)
    (behind : Behind session kernel.state) (tightened : Tightened kernel kernel')
    (allows : Allows (decision lib kernel' request)) : Allows (decision lib kernel request) := by
  cases tightened with
  | add effect done => exact allows_of_add effect done allows
  | revokeSession id => exact allows_of_valid carried valid_of_revokeSession allows
  | revokeDevice done => exact allows_of_valid carried (valid_of_revokeDevice done) allows
  | disableIdentity done => exact allows_of_valid carried (valid_of_disableIdentity done) allows
  | bumpIdentityGeneration done =>
    exact allows_of_valid carried (valid_of_bumpIdentityGeneration behind done) allows

theorem decision_flag_congr {policy policy' : List (PolicyRule V)} (same : ∀ rule, rule ∈ policy ↔ rule ∈ policy') :
    flag (decision lib { kernel with policy := policy } request) =
      flag (decision lib { kernel with policy := policy' } request) := by
  unfold decision
  split
  next => rfl
  next session carried =>
    dsimp only
    split
    next => rfl
    next =>
      unfold decideFor
      dsimp only
      split
      next => rfl
      next =>
        split
        next => rfl
        next =>
          split
          next => rfl
          next =>
            split
            next => rfl
            next => exact evaluate_flag_congr same

theorem execute_ran {T : Type v} {operation : Except String T}
    (ran : Happening.ran ∈ (execute lib kernel emit request operation).1) :
    ∃ made, decision lib kernel request = .ok made ∧ made.allowed = true ∧
      (execute lib kernel emit request operation).1 = [.emitted (auditEvent kernel request made), .ran] ∧
      emit (auditEvent kernel request made) = .ok () := by
  rcases done : authorize lib kernel emit request with ⟨trace, e | made⟩
  · have quiet : trace = [] := by
      unfold authorize at done
      split at done
      next =>
        cases done
        rfl
      next =>
        split at done
        next =>
          cases done
          rfl
        next => cases done
    unfold execute require at ran
    rw [done, quiet] at ran
    cases ran
  · obtain ⟨decided, rfl, wrote⟩ := authorize_ok done
    unfold execute require at ran ⊢
    rw [done] at ran ⊢
    dsimp only at ran ⊢
    rcases allowed : made.allowed with _ | _
    · rw [allowed] at ran
      cases List.mem_singleton.mp ran
    · exact ⟨made, decided, allowed, rfl, wrote⟩

/-- An allowance rests on a valid session, a registered capability and a verified root grant or the rules. No further
deny rule brings it about, and no loss of standing of an issued session, of its identity or its device. It does not
depend on the order of the rules, and an operation runs behind the record of its allowance. -/
theorem authorization (lib : Library V) :
    (∀ kernel emit request trace made, authorize lib kernel emit request = (trace, .ok made) → made.allowed = true →
      ∃ session definition, Sound lib kernel request session definition) ∧
    (∀ (w w' : World) (kernel kernel₁ kernel₂ : SecurityKernel V) identityId sessionId capabilities deviceId ttl now
        metadata session, kernel.state = w.state →
      issueSession lib kernel identityId sessionId capabilities deviceId ttl now metadata = .ok session →
      Relation.ReflTransGen Step w w' → kernel₁.state = w'.state → Tightened kernel₁ kernel₂ →
      ∀ request emit₁ emit₂ made₁ made₂, request.session = some session →
        (authorize lib kernel₁ emit₁ request).2 = .ok made₁ → (authorize lib kernel₂ emit₂ request).2 = .ok made₂ →
        made₁.allowed = false → made₂.allowed = false) ∧
    (∀ (kernel : SecurityKernel V) more more' added, more.Perm more' → addAll kernel.policy more = .ok added →
      ∃ added', addAll kernel.policy more' = .ok added' ∧ ∀ request,
        flag (decision lib { kernel with policy := added } request) =
          flag (decision lib { kernel with policy := added' } request)) ∧
    ∀ (T : Type v) kernel emit request (operation : Except String T),
      Happening.ran ∈ (execute lib kernel emit request operation).1 →
      ∃ made, decision lib kernel request = .ok made ∧ made.allowed = true ∧
        (execute lib kernel emit request operation).1 = [.emitted (auditEvent kernel request made), .ran] ∧
        emit (auditEvent kernel request made) = .ok () := by
  refine ⟨?_, ?_, ?_, fun T kernel emit request operation => execute_ran⟩
  · intro kernel emit request trace made done allowed
    exact decision_allows ⟨made, (authorize_ok done).1, allowed⟩
  · intro w w' kernel kernel₁ kernel₂ identityId sessionId capabilities deviceId ttl now metadata session here issued
      run there tightened request emit₁ emit₂ made₁ made₂ carried done₁ done₂ denied
    have behind := ((issueSession_issued here issued).run run).behind
    have decided₁ := (authorize_ok (Prod.ext rfl done₁)).1
    have decided₂ := (authorize_ok (Prod.ext rfl done₂)).1
    by_contra turned
    obtain ⟨_, its, allowed⟩ :=
      tightened.allows carried (there ▸ behind) ⟨made₂, decided₂, Bool.eq_true_of_not_eq_false turned⟩
    cases decided₁.symm.trans its
    rw [denied] at allowed
    cases allowed
  · intro kernel more more' added perm done
    obtain ⟨added', done'⟩ := addAll_ok_iff.mpr ((addAll_ok_iff.mp ⟨added, done⟩).perm perm)
    refine ⟨added', done', fun request => decision_flag_congr fun rule => ?_⟩
    rw [(addAll_eq done).mem_iff, (addAll_eq done').mem_iff, List.mem_append, List.mem_append, perm.mem_iff]

section Samples

/-- Two times have a text, a second apart. -/
def sampleLibrary : Library String where
  isoformat t := if t = 0 then "first" else "last"
  fromisoformat t := if t = "first" then some 0 else if t = "last" then some 1000000 else none
  equal := (· == ·)
  hashable _ := true
  null := "None"
  isTrue := (· == "True")

def sampleIdentity : Identity := ⟨"identity_1", ⟨"principal_1", .personal⟩, true, 1⟩

def emptyState : SecurityState := ⟨fun _ => none, fun _ => none, [], nofun⟩

def sampleWorld : World where
  state := emptyState.putIdentity sampleIdentity
  drawn := ["identity_1"]
  known {id identity} its := by
    by_cases own : id = "identity_1"
    · exact List.mem_singleton.mpr own
    · exact nomatch (Function.update_of_ne own _ _).symm.trans its

/-- A rule about all resources for the capabilities of a pattern. -/
def sampleRule (id pattern : String) (effect : PolicyEffect) : PolicyRule String :=
  ⟨id, .personal, [pattern], ["*"], effect, [("region", .sequence ["eu", "us"])], 0⟩

def sampleKernel (policy : List (PolicyRule String)) : SecurityKernel String where
  state := sampleWorld.state
  catalog name := if name = "data.read" then some ⟨"data.read", .personal, ""⟩ else none
  policy := policy

def sampleSession : Session String :=
  ⟨"session_1", "principal_1", "identity_1", .personal, "first", "last", 1, "", 0, ["data.read"], []⟩

def sampleRequest : Request String :=
  ⟨some sampleSession, "data.read", "table", [("region", "eu")], 1, "corr_1", "audit_1", "first"⟩

def accept (_ : AuditEvent) : Except String Unit := .ok ()

/-- A session issued for reading is allowed to read, an operation runs, another deny rule changes no denial, and two
rules have one verdict in either order. -/
theorem authorization_sample :
    (∃ session definition, Sound sampleLibrary (sampleKernel [sampleRule "a" "data.*" .allow]) sampleRequest session
      definition) ∧
    (⟨false, "POLICY_DENY", "an explicit deny policy matched", ["b"]⟩ : AuthorizationDecision).allowed = false ∧
    (∃ added', addAll [] [sampleRule "b" "data.rea[a-d]" .deny, sampleRule "a" "data.*" .allow] = .ok added' ∧
      flag (decision sampleLibrary (sampleKernel added') sampleRequest) = some false) ∧
    ∃ made, decision sampleLibrary (sampleKernel [sampleRule "a" "data.*" .allow]) sampleRequest = .ok made ∧
      made.allowed = true := by
  have both := authorization.{0} sampleLibrary
  refine ⟨?_, ?_, ?_, ?_⟩
  · exact both.1 (sampleKernel [sampleRule "a" "data.*" .allow]) accept sampleRequest _
      ⟨true, "ALLOW", "capability and allow policy matched", ["a"]⟩ rfl rfl
  · exact both.2.1 sampleWorld sampleWorld (sampleKernel []) (sampleKernel [])
      (sampleKernel [sampleRule "b" "data.rea[a-d]" .deny]) "identity_1" "session_1" ["data.read"] "" 1 0 []
      sampleSession rfl rfl .refl rfl
      (.add (show (sampleRule "b" "data.rea[a-d]" .deny).effect = .deny from rfl) rfl) sampleRequest accept accept
      ⟨false, "POLICY_DEFAULT_DENY", "no allow policy matched", []⟩ _ rfl rfl rfl rfl
  · obtain ⟨added', done, same⟩ := both.2.2.1 (sampleKernel []) [sampleRule "a" "data.*" .allow,
      sampleRule "b" "data.rea[a-d]" .deny] [sampleRule "b" "data.rea[a-d]" .deny, sampleRule "a" "data.*" .allow] _
      (.swap _ _ []) rfl
    exact ⟨added', done, (same sampleRequest).symm.trans rfl⟩
  · obtain ⟨made, decided, allowed, _⟩ := both.2.2.2 Unit (sampleKernel [sampleRule "a" "data.*" .allow]) accept
      sampleRequest (.ok ()) (.tail _ (.head _))
    exact ⟨made, decided, allowed⟩

end Samples

end Arenyxa.Security
