import Arenyxa.Enterprise.SessionService

/-! Whose authority the session of the enterprise carries. -/

namespace Arenyxa.Enterprise.Sessions

open Security (SecurityState Library issueSession issueSession_ok validate grantAll)

variable {ν ε : Type} {setup : Setup ν ε}

section Retiring

variable {security : SecurityState} {session : Option Session} {identityId id : String}

theorem retire_identities : (retire security session identityId).identities =
    if identityId = "" then security.identities else Function.update security.identities identityId none := by
  unfold retire
  cases session with
  | none => dsimp only; split <;> rfl
  | some session => dsimp only; split <;> rfl

theorem retire_missing (missing : security.identities id = none) :
    (retire security session identityId).identities id = none := by
  rw [retire_identities]
  split
  · exact missing
  · by_cases own : id = identityId
    · rw [own, Function.update_self]
    · rwa [Function.update_of_ne own]

theorem retire_own (named : identityId ≠ "") :
    (retire security session identityId).identities identityId = none := by
  rw [retire_identities, if_neg named, Function.update_self]

theorem invalid_of_missing {lib : Library Value} {session : Session} {now : Int}
    (missing : security.identities session.identityId = none) :
    (validate lib security session now).valid = false := by
  by_contra valid
  obtain ⟨_, _, identity⟩ := Security.validate_valid_iff.mp (Bool.eq_true_of_not_eq_false valid)
  obtain ⟨⟨_, its, _⟩, _⟩ := Security.validateIdentity_valid_iff.mp identity
  cases missing.symm.trans its

end Retiring

section Issuing

variable {security security' : SecurityState} {domain : Security.TrustDomain}

theorem grantAll_subset {capabilities granted : List String}
    (done : grantAll (setup.kernel security) domain capabilities = .ok granted) : granted ⊆ capabilities := by
  induction capabilities generalizing granted with
  | nil =>
    cases done
    exact List.nil_subset _
  | cons capability capabilities ih =>
    unfold grantAll at done
    split at done
    next => cases done
    next definition found =>
      split at done
      next => cases done
      next =>
        rcases rest : grantAll (setup.kernel security) domain capabilities with e | more
        · rw [rest] at done
          cases done
        · rw [rest] at done
          cases done
          rw [setup.named found]
          exact List.cons_subset_cons _ (ih rest)

theorem registerIdentity_ok {identity : Security.Identity}
    (done : security.registerIdentity identity = .ok security') : security' = security.putIdentity identity := by
  unfold SecurityState.registerIdentity at done
  split at done
  · cases done
  · cases done
    rfl

theorem putIdentity_self {identity : Security.Identity} :
    (security.putIdentity identity).identities identity.id = some identity :=
  Function.update_self ..

theorem putIdentity_missing {identity : Security.Identity} {id : String} (other : id ≠ identity.id)
    (missing : security.identities id = none) : (security.putIdentity identity).identities id = none :=
  (Function.update_of_ne other ..).trans missing

/-- What a login makes of an account. -/
structure Issued (login : Login) (account : Account ν) (permissions : List String) (session : Session) : Prop where
  identity : session.identityId = login.identityId
  domain : session.trustDomain = .enterprise
  granted : session.grantedCapabilities ⊆ permissions
  generation : authGeneration session = account.authGeneration

end Issuing

/-- The service holds what it held. -/
structure Same (s s' : Service ν ε) : Prop where
  session : s'.session = s.session
  identityId : s'.identityId = s.identityId
  accountId : s'.accountId = s.accountId
  stepUpAt : s'.stepUpAt = s.stepUpAt

/-- No identity comes up but one. -/
def Only (identityId : String) (security security' : SecurityState) : Prop :=
  ∀ id, id ≠ identityId → security.identities id = none → security'.identities id = none

/-- What a login comes to. -/
inductive Logged (s : Service ν ε) (login : Login) : Service ν ε × Entry ν → Prop
  | refused {s' : Service ν ε} (same : Same s s') (only : Only login.identityId s.security s'.security) :
    Logged s login (s', .refused)
  | rolledBack {s' : Service ν ε} {session : Session} (same : Same s s')
    (only : Only login.identityId s.security s'.security) (identity : session.identityId = login.identityId)
    (gone : login.identityId ≠ "" → s'.security.identities login.identityId = none) :
    Logged s login (s', .rolledBack session)
  | entered {s' : Service ν ε} {session : Session} {account : Account ν} {permissions : List String}
    (issued : Issued login account permissions session) (current : s'.session = some session)
    (identityId : s'.identityId = login.identityId) (accountId : s'.accountId = account.id)
    (stepUpAt : s'.stepUpAt = 0) (only : Only login.identityId s.security s'.security)
    (gone : s.identityId ≠ "" → s'.security.identities s.identityId = none) :
    Logged s login (s', .entered session account permissions)

theorem login_logged (setup : Setup ν ε) (s : Service ν ε) (login : Login) : Logged s login (s.login setup login) := by
  have refused : Logged s login (s, .refused) := .refused ⟨rfl, rfl, rfl, rfl⟩ fun _ _ missing => missing
  unfold Service.login
  split
  next => exact refused
  next => exact refused
  next payload _ _ =>
    split
    next => exact refused
    next account found =>
      split
      next => exact refused
      next =>
        split
        next => exact refused
        next security done =>
          have put := registerIdentity_ok done
          have only : Only login.identityId s.security security :=
            fun id other missing => put ▸ putIdentity_missing other missing
          dsimp only
          split
          next => exact .refused ⟨rfl, rfl, rfl, rfl⟩ only
          next session made =>
            have issued : Issued login account (permissionsForAccount payload account) session := by
              obtain ⟨identity, granted, generation, its, -, all, rfl⟩ := issueSession_ok made
              cases (put ▸ putIdentity_self).symm.trans its
              refine ⟨rfl, rfl, fun capability mem => ?_, rfl⟩
              exact grantAll_subset all (List.mem_dedup.1 ((List.mem_insertionSort _).1 mem))
            have gone (named : login.identityId ≠ "") :
                (retire security (some session) login.identityId).identities login.identityId = none :=
              retire_own named
            have still : Only login.identityId s.security (retire security (some session) login.identityId) :=
              fun id other missing => retire_missing (only id other missing)
            split
            next => exact .rolledBack ⟨rfl, rfl, rfl, rfl⟩ still issued.identity gone
            next =>
              split
              next => exact .rolledBack ⟨rfl, rfl, rfl, rfl⟩ still issued.identity gone
              next =>
                exact .entered issued rfl rfl rfl rfl
                  (fun id other missing => retire_missing (only id other missing)) retire_own

/-- The service holds what it held, or has left its session. -/
inductive Leaves (s s' : Service ν ε) : Prop
  | kept (same : Same s s') (security : s'.security = s.security)
  | gone (session : s'.session = none) (stepUpAt : s'.stepUpAt = 0) (security : s'.security = s.logout.security)

section Leaving

variable {s s' : Service ν ε} {id : String}

theorem logout_session : s.logout.session = none := by
  unfold Service.logout
  split <;> rfl

theorem logout_stepUpAt : s.logout.stepUpAt = 0 := by
  unfold Service.logout
  split <;> rfl

theorem logout_security {session : Session} (current : s.session = some session) :
    s.logout.security = retire s.security (some session) s.identityId := by
  rw [Service.logout, current]

theorem logout_missing (missing : s.security.identities id = none) : s.logout.security.identities id = none := by
  rcases current : s.session with _ | session
  · rw [Service.logout, current]
    exact missing
  · rw [logout_security current]
    exact retire_missing missing

theorem logout_own {session : Session} (current : s.session = some session) (named : s.identityId ≠ "") :
    s.logout.security.identities s.identityId = none := by
  rw [logout_security current]
  exact retire_own named

theorem Leaves.refl (s : Service ν ε) : Leaves s s := .kept ⟨rfl, rfl, rfl, rfl⟩ rfl

theorem Leaves.logout (leaves : Leaves s s') : Leaves s s'.logout := by
  refine .gone logout_session logout_stepUpAt ?_
  cases leaves with
  | kept same security =>
    unfold Service.logout
    rw [same.session, same.identityId, security]
    split
    · exact security
    · rfl
  | gone session _ security =>
    rw [Service.logout, session]
    exact security

theorem Leaves.withVault (leaves : Leaves s s') (vault : Vault (Payload ν ε)) :
    Leaves s { s' with vault := vault } := by
  cases leaves with
  | kept same security => exact .kept ⟨same.session, same.identityId, same.accountId, same.stepUpAt⟩ security
  | gone session stepUpAt security => exact .gone session stepUpAt security

theorem Leaves.ofVault {vault : Vault (Payload ν ε)} (leaves : Leaves { s with vault := vault } s') :
    Leaves s s' := by
  cases leaves with
  | kept same security => exact .kept ⟨same.session, same.identityId, same.accountId, same.stepUpAt⟩ security
  | gone session stepUpAt security =>
    refine .gone session stepUpAt (security.trans ?_)
    unfold Service.logout
    dsimp only
    split <;> rfl

theorem lock_leaves : Leaves s s.lock := (Leaves.refl s).logout.withVault _

theorem status_leaves {now : Int} : Leaves s (s.status setup now) := by
  unfold Service.status
  split
  · split
    · exact .refl s
    · exact (Leaves.refl s).logout
  · exact .refl s

theorem saved_leaves {change : Change ν ε} : Leaves s (s.saved setup change) := by
  unfold Service.saved
  split
  · split
    · exact .refl s
    · dsimp only
      split
      · exact status_leaves.ofVault
      · exact .refl s
  · exact .refl s

theorem mutate_leaves {change : Change ν ε} : Leaves s (s.mutate setup change) := by
  have left (vault : Vault (Payload ν ε)) : Leaves s { s.saved setup change with vault := vault } :=
    saved_leaves.withVault vault
  unfold Service.mutate
  split
  next vault refusal _ =>
    dsimp only
    split
    · exact (left vault).logout
    · exact left vault
  next vault _ _ =>
    dsimp only
    split
    · exact (left vault).logout
    · exact left vault

theorem checkStepUp_some {password : String} {now monotonic : Int} {checked : Checked}
    (done : s.checkStepUp setup password now monotonic = some checked) :
    s.session = some checked.session ∧ checked.accountId = s.accountId := by
  unfold Service.checkStepUp at done
  split at done
  next payload session _ current =>
    split at done
    · split at done
      next => cases done
      next account found =>
        split at done
        · cases done
          exact ⟨current, rfl⟩
        · cases done
    · cases done
  next => cases done

end Leaving

/-- The session of the service is the one of the last login. -/
structure Standing (w : World ν ε) (session : Session) (login : Entered) : Prop where
  last : w.lastLogin = some login
  own : login.session = session
  account : w.service.accountId = login.accountId
  identity : w.service.identityId = session.identityId
  named : session.identityId ≠ ""
  drawn : session.identityId ∈ w.drawn
  domain : session.trustDomain = .enterprise
  granted : session.grantedCapabilities ⊆ login.permissions
  generation : authGeneration session = login.authGeneration

/-- What holds of every world that is reached. -/
structure Coherent (w : World ν ε) : Prop where
  current : ∀ session, w.service.session = some session → ∃ login, Standing w session login
  ended : ∀ session ∈ w.ended,
    session.identityId ∈ w.drawn ∧ w.service.security.identities session.identityId = none
  apart : ∀ session ∈ w.ended, ∀ current, w.service.session = some current →
    current.identityId ≠ session.identityId
  verified : ∀ checked ∈ w.verified, checked.session.identityId ∈ w.drawn
  account : ∀ checked ∈ w.verified, w.service.session = some checked.session →
    checked.accountId = w.service.accountId
  pending : ∀ checked ∈ w.pending, checked ∈ w.verified

/-- A time stamp belongs to a check of the password for the current session, and is not much later. -/
def Stamped (delay : Int) (w : World ν ε) : Prop :=
  w.service.stepUpAt ≠ 0 → ∃ checked ∈ w.verified, w.service.session = some checked.session ∧
    w.service.stepUpAt ≤ checked.checkedAt + delay

/-- A step-up is stamped while the session that it was checked for is there, and not much later. -/
def Prompt (delay : Int) (w : World ν ε) : Step ν ε → Prop
  | .stampStepUp i monotonic => ∀ checked, w.pending[i]? = some checked →
      w.service.session = some checked.session ∧ monotonic ≤ checked.checkedAt + delay
  | _ => True

section Steps

variable {w : World ν ε} {s' : Service ν ε} {delay : Int}

theorem leave_kept (same : Same w.service s') : (w.leave s').ended = w.ended := by
  unfold World.leave
  rw [same.session]
  cases w.service.session <;> rfl

theorem leave_gone (session : s'.session = none) :
    (w.leave s').ended = w.service.session.toList ++ w.ended := by
  unfold World.leave
  rw [session]
  rfl

theorem Standing.carry {w' : World ν ε} {session : Session} {login : Entered} (standing : Standing w session login)
    (last : w'.lastLogin = w.lastLogin) (accountId : w'.service.accountId = w.service.accountId)
    (identityId : w'.service.identityId = w.service.identityId) (drawn : w.drawn ⊆ w'.drawn) :
    Standing w' session login :=
  ⟨last.trans standing.last, standing.own, accountId.trans standing.account, identityId.trans standing.identity,
    standing.named, drawn standing.drawn, standing.domain, standing.granted, standing.generation⟩

theorem Coherent.leave (coherent : Coherent w) (leaves : Leaves w.service s') : Coherent (w.leave s') := by
  cases leaves with
  | kept same security =>
    have ended := leave_kept same
    have back {session : Session} (its : (w.leave s').service.session = some session) :
        w.service.session = some session := same.session.symm.trans its
    refine ⟨?_, ?_, ?_, coherent.verified, ?_, coherent.pending⟩
    · intro session its
      obtain ⟨login, standing⟩ := coherent.current session (back its)
      exact ⟨login, standing.carry rfl same.accountId same.identityId (List.Subset.refl _)⟩
    · intro session mem
      rw [ended] at mem
      exact ⟨(coherent.ended session mem).1, security ▸ (coherent.ended session mem).2⟩
    · intro session mem current its
      rw [ended] at mem
      exact coherent.apart session mem current (back its)
    · intro checked mem its
      exact (coherent.account checked mem (back its)).trans same.accountId.symm
  | gone session _ security =>
    have missing {session' : Session} (its : (w.leave s').service.session = some session') : False :=
      nomatch session.symm.trans its
    refine ⟨fun _ its => (missing its).elim, ?_, fun _ _ _ its => (missing its).elim, coherent.verified,
      fun _ _ its => (missing its).elim, coherent.pending⟩
    intro left mem
    rw [leave_gone session] at mem
    change left.identityId ∈ w.drawn ∧ s'.security.identities left.identityId = none
    rw [security]
    rcases List.mem_append.mp mem with own | old
    · have current := Option.mem_toList.mp own
      obtain ⟨login, standing⟩ := coherent.current left current
      refine ⟨standing.drawn, ?_⟩
      rw [← standing.identity]
      exact logout_own current (standing.identity ▸ standing.named)
    · exact ⟨(coherent.ended left old).1, logout_missing (coherent.ended left old).2⟩

theorem Coherent.login (coherent : Coherent w) (login : Login) :
    Coherent (w.step setup (.login login)) := by
  rw [World.step]
  split
  next => exact coherent
  next fresh =>
    obtain ⟨named, new⟩ := not_or.mp fresh
    have logged := login_logged setup w.service login
    have apart {session : Session} (its : session.identityId ∈ w.drawn) : session.identityId ≠ login.identityId :=
      fun own => new (own ▸ its)
    generalize w.service.login setup login = outcome at logged ⊢
    cases logged with
    | refused same only =>
      refine ⟨?_, ?_, ?_, ?_, ?_, coherent.pending⟩
      · intro session its
        obtain ⟨entered, standing⟩ := coherent.current session (same.session.symm.trans its)
        exact ⟨entered, standing.carry rfl same.accountId same.identityId (List.subset_cons_self ..)⟩
      · intro session mem
        obtain ⟨drawn, missing⟩ := coherent.ended session mem
        exact ⟨List.mem_cons_of_mem _ drawn, only _ (apart drawn) missing⟩
      · exact fun session mem current its => coherent.apart session mem current (same.session.symm.trans its)
      · exact fun checked mem => List.mem_cons_of_mem _ (coherent.verified checked mem)
      · exact fun checked mem its =>
          (coherent.account checked mem (same.session.symm.trans its)).trans same.accountId.symm
    | rolledBack same only identity gone =>
      refine ⟨?_, ?_, ?_, ?_, ?_, coherent.pending⟩
      · intro session its
        obtain ⟨entered, standing⟩ := coherent.current session (same.session.symm.trans its)
        exact ⟨entered, standing.carry rfl same.accountId same.identityId (List.subset_cons_self ..)⟩
      · intro session mem
        rcases List.mem_cons.mp mem with rfl | old
        · rw [identity]
          exact ⟨List.mem_cons_self .., gone named⟩
        · obtain ⟨drawn, missing⟩ := coherent.ended session old
          exact ⟨List.mem_cons_of_mem _ drawn, only _ (apart drawn) missing⟩
      · intro session mem current its
        have before := same.session.symm.trans its
        rcases List.mem_cons.mp mem with rfl | old
        · obtain ⟨_, standing⟩ := coherent.current current before
          rw [identity]
          exact apart standing.drawn
        · exact coherent.apart session old current before
      · exact fun checked mem => List.mem_cons_of_mem _ (coherent.verified checked mem)
      · exact fun checked mem its =>
          (coherent.account checked mem (same.session.symm.trans its)).trans same.accountId.symm
    | entered issued here identityId accountId stepUpAt only gone =>
      have own {session : Session} (its : _ = some session) : _ = session := Option.some.inj (here.symm.trans its)
      refine ⟨?_, ?_, ?_, ?_, ?_, coherent.pending⟩
      · intro session its
        cases own its
        exact ⟨_, rfl, rfl, accountId, identityId.trans issued.identity.symm, issued.identity ▸ named,
          issued.identity ▸ List.mem_cons_self .., issued.domain, issued.granted, issued.generation⟩
      · intro session mem
        rcases List.mem_append.mp mem with left | old
        · obtain ⟨_, standing⟩ := coherent.current session (Option.mem_toList.mp left)
          refine ⟨List.mem_cons_of_mem _ standing.drawn, ?_⟩
          rw [← standing.identity]
          exact gone (standing.identity ▸ standing.named)
        · obtain ⟨drawn, missing⟩ := coherent.ended session old
          exact ⟨List.mem_cons_of_mem _ drawn, only _ (apart drawn) missing⟩
      · intro session mem current its
        cases own its
        rw [issued.identity]
        rcases List.mem_append.mp mem with left | old
        · obtain ⟨_, standing⟩ := coherent.current session (Option.mem_toList.mp left)
          exact (apart standing.drawn).symm
        · exact (apart (coherent.ended session old).1).symm
      · exact fun checked mem => List.mem_cons_of_mem _ (coherent.verified checked mem)
      · intro checked mem its
        cases own its
        exact absurd issued.identity (apart (coherent.verified checked mem))

theorem Coherent.step (coherent : Coherent w) (step : Step ν ε) : Coherent (w.step setup step) := by
  cases step with
  | login login => exact coherent.login login
  | logout => exact coherent.leave (Leaves.refl _).logout
  | lock => exact coherent.leave lock_leaves
  | unlock =>
    refine ⟨fun session its => ?_, coherent.ended, coherent.apart, coherent.verified, coherent.account,
      coherent.pending⟩
    obtain ⟨login, standing⟩ := coherent.current session its
    exact ⟨login, standing.carry rfl rfl rfl (List.Subset.refl _)⟩
  | status now => exact coherent.leave status_leaves
  | mutate change => exact coherent.leave mutate_leaves
  | checkStepUp password now monotonic =>
    rw [World.step]
    split
    next => exact coherent
    next checked done =>
      obtain ⟨its, account⟩ := checkStepUp_some done
      obtain ⟨_, standing⟩ := coherent.current checked.session its
      refine ⟨fun session here => ?_, coherent.ended, coherent.apart, ?_, ?_, ?_⟩
      · obtain ⟨login, standing⟩ := coherent.current session here
        exact ⟨login, standing.carry rfl rfl rfl (List.Subset.refl _)⟩
      · intro other mem
        rcases List.mem_cons.mp mem with rfl | old
        · exact standing.drawn
        · exact coherent.verified other old
      · intro other mem here
        rcases List.mem_cons.mp mem with rfl | old
        · exact account
        · exact coherent.account other old here
      · intro other mem
        rcases List.mem_append.mp mem with old | new
        · exact List.mem_cons_of_mem _ (coherent.pending other old)
        · rw [List.mem_singleton.mp new]
          exact List.mem_cons_self ..
  | stampStepUp i monotonic =>
    rw [World.step]
    split
    next => exact coherent
    next =>
      refine ⟨fun session its => ?_, coherent.ended, coherent.apart, coherent.verified, coherent.account,
        fun checked mem => coherent.pending checked (List.mem_of_mem_eraseIdx mem)⟩
      obtain ⟨login, standing⟩ := coherent.current session its
      exact ⟨login, standing.carry rfl rfl rfl (List.Subset.refl _)⟩

theorem Stamped.same (stamped : Stamped delay w) (same : Same w.service s') {drawn : List String}
    {lastLogin : Option Entered} {ended : List Session} :
    Stamped delay { w with service := s', drawn := drawn, lastLogin := lastLogin, ended := ended } := by
  intro stamp
  obtain ⟨checked, mem, its, time⟩ := stamped (same.stepUpAt ▸ stamp)
  exact ⟨checked, mem, same.session.trans its, same.stepUpAt ▸ time⟩

theorem Stamped.leave (stamped : Stamped delay w) (leaves : Leaves w.service s') : Stamped delay (w.leave s') := by
  cases leaves with
  | kept same _ => exact stamped.same same
  | gone _ stepUpAt _ => exact fun stamp => absurd stepUpAt stamp

theorem Stamped.step (coherent : Coherent w) (stamped : Stamped delay w) {step : Step ν ε}
    (prompt : Prompt delay w step) : Stamped delay (w.step setup step) := by
  cases step with
  | login login =>
    rw [World.step]
    split
    next => exact stamped
    next =>
      have logged := login_logged setup w.service login
      generalize w.service.login setup login = outcome at logged ⊢
      cases logged with
      | refused same _ => exact stamped.same same
      | rolledBack same _ _ _ => exact stamped.same same
      | entered _ _ _ _ stepUpAt _ _ => exact fun stamp => absurd stepUpAt stamp
  | logout => exact stamped.leave (Leaves.refl _).logout
  | lock => exact stamped.leave lock_leaves
  | unlock => exact stamped.same ⟨rfl, rfl, rfl, rfl⟩
  | status now => exact stamped.leave status_leaves
  | mutate change => exact stamped.leave mutate_leaves
  | checkStepUp password now monotonic =>
    rw [World.step]
    split
    next => exact stamped
    next checked done =>
      intro stamp
      obtain ⟨other, mem, its, time⟩ := stamped stamp
      exact ⟨other, List.mem_cons_of_mem _ mem, its, time⟩
  | stampStepUp i monotonic =>
    rw [World.step]
    split
    next => exact stamped
    next checked found =>
      obtain ⟨its, time⟩ := prompt checked found
      exact fun _ => ⟨checked, coherent.pending checked (List.mem_of_getElem? found), its, time⟩

end Steps

/-- Every step of the run is prompt. -/
def World.Prompt (setup : Setup ν ε) (delay : Int) : World ν ε → List (Step ν ε) → Prop
  | _, [] => True
  | w, step :: steps => Sessions.Prompt delay w step ∧ (w.step setup step).Prompt setup delay steps

/-- A service that nobody has entered. -/
structure World.Starts (w : World ν ε) : Prop where
  session : w.service.session = none
  stepUpAt : w.service.stepUpAt = 0
  ended : w.ended = []
  verified : w.verified = []
  pending : w.pending = []

section Runs

variable {w : World ν ε} {delay : Int}

theorem World.Starts.coherent (starts : w.Starts) : Coherent w where
  current _ its := nomatch starts.session.symm.trans its
  ended _ mem := nomatch starts.ended ▸ mem
  apart _ mem := nomatch starts.ended ▸ mem
  verified _ mem := nomatch starts.verified ▸ mem
  account _ mem := nomatch starts.verified ▸ mem
  pending _ mem := nomatch starts.pending ▸ mem

theorem Coherent.run (coherent : Coherent w) (steps : List (Step ν ε)) : Coherent (w.run setup steps) := by
  induction steps generalizing w with
  | nil => exact coherent
  | cons step steps ih => exact ih (coherent.step step)

theorem Stamped.run (coherent : Coherent w) (stamped : Stamped delay w) {steps : List (Step ν ε)}
    (prompt : w.Prompt setup delay steps) : Stamped delay (w.run setup steps) := by
  induction steps generalizing w with
  | nil => exact stamped
  | cons step steps ih => exact ih (coherent.step step) (stamped.step coherent prompt.1) prompt.2

/-- What an operation that passes rests on. -/
structure Authority (setup : Setup ν ε) (w : World ν ε) (capability : String) (now : Int) (login : Entered)
    (payload : Payload ν ε) (account : Account ν) : Prop where
  last : w.lastLogin = some login
  current : w.service.session = some login.session
  valid : (validate setup.lib w.service.security login.session now).valid = true
  unexpired : ∃ expires, setup.lib.fromisoformat login.session.expiresAt = some expires ∧ now < expires
  kept : login.session ∉ w.ended
  live : w.service.vault.live = some payload
  found : payload.accounts.get? login.accountId = some account
  enabled : account.enabled = true
  generation : account.authGeneration = login.authGeneration
  granted : capability ∈ login.permissions

theorem Coherent.required (coherent : Coherent w) {capability resource : String} {now : Int}
    (passed : w.service.require setup capability resource now = true) :
    ∃ login payload account, Authority setup w capability now login payload account := by
  unfold Service.require at passed
  split at passed
  next payload session live current =>
    obtain ⟨is_current, allowed⟩ := Bool.and_eq_true_iff.mp passed
    obtain ⟨login, standing⟩ := coherent.current session current
    obtain rfl := standing.own
    unfold sessionIsCurrent at is_current
    obtain ⟨valid, account⟩ := Bool.and_eq_true_iff.mp is_current
    split at account
    next => cases account
    next account' found =>
      obtain ⟨enabled, generation⟩ := Bool.and_eq_true_iff.mp account
      obtain ⟨_, expires, _, read, _, before, _⟩ := (Security.validate_valid_iff.mp valid).1
      obtain ⟨_, definition, sound⟩ :=
        Security.decision_allows (Security.allows_iff_flag.mpr (of_decide_eq_true allowed))
      cases sound.carried
      refine ⟨login, payload, account', standing.last, current, valid, ⟨expires, read, before⟩, fun mem => ?_,
        live, standing.account ▸ found, enabled, ?_, standing.granted ?_⟩
      · exact coherent.apart _ mem _ current rfl
      · exact (of_decide_eq_true generation).symm.trans standing.generation
      · rcases sound.grounds with ⟨developer, _⟩ | ⟨_, granted, _⟩
        · exact nomatch standing.domain.symm.trans developer
        · exact granted
  next => cases passed

theorem Stamped.required (stamped : Stamped delay w) {monotonic : Int}
    (passed : w.service.requireStepUp monotonic = true) :
    ∃ checked ∈ w.verified, w.service.session = some checked.session ∧
      monotonic - checked.checkedAt ≤ stepUpMaxAge + delay := by
  obtain ⟨stamp, age⟩ := Bool.and_eq_true_iff.mp passed
  have recent := of_decide_eq_true age
  obtain ⟨checked, mem, its, time⟩ := stamped (of_decide_eq_true stamp)
  exact ⟨checked, mem, its, by omega⟩

/-- In every run an operation passes only on the authority of the last login, and a session that ended is not valid
again. Where every step-up is stamped for the session that it was checked for, a passed step-up rests on a check for
the current session, as old as the delay allows. -/
theorem session_authority (setup : Setup ν ε) (starts : w.Starts) (steps : List (Step ν ε)) :
    (∀ capability resource now, (w.run setup steps).service.require setup capability resource now = true →
      ∃ login payload account, Authority setup (w.run setup steps) capability now login payload account) ∧
    (∀ session ∈ (w.run setup steps).ended, ∀ now,
      (validate setup.lib (w.run setup steps).service.security session now).valid = false) ∧
    ∀ delay, w.Prompt setup delay steps → ∀ monotonic,
      (w.run setup steps).service.requireStepUp monotonic = true →
      ∃ checked ∈ (w.run setup steps).verified, (w.run setup steps).service.session = some checked.session ∧
        checked.accountId = (w.run setup steps).service.accountId ∧
        monotonic - checked.checkedAt ≤ stepUpMaxAge + delay := by
  have coherent : Coherent (w.run setup steps) := starts.coherent.run steps
  refine ⟨fun _ _ _ => coherent.required,
    fun session mem now => invalid_of_missing (coherent.ended session mem).2, ?_⟩
  intro delay prompt monotonic passed
  have stamped : Stamped delay w := fun stamp => absurd starts.stepUpAt stamp
  obtain ⟨checked, mem, its, age⟩ := (stamped.run starts.coherent prompt).required passed
  exact ⟨checked, mem, its, coherent.account checked mem its, age⟩

end Runs

section Samples

/-- Two times have a text, as long apart as a session lives. -/
def sampleSetup : Setup String (List String) where
  lib :=
    { isoformat := fun t => if t = 0 then "first" else "last"
      fromisoformat := fun t => if t = "first" then some 0 else if t = "last" then some 28800000000 else none
      equal := fun a b => decide (a = b)
      hashable := fun _ => true
      null := .text ""
      isTrue := fun _ => false }
  text := plainText
  spaces := plainSpaces
  verifies verifier password := verifier == password
  catalog name := if name = "dataset.read" then some ⟨"dataset.read", .enterprise, ""⟩ else none
  policy := [⟨"local-enterprise-dataset.read", .enterprise, ["dataset.read"], ["enterprise:*", "dataset:*"], .allow,
    [("surface", .value (.text "local-enterprise"))], 80⟩]
  named {name definition} its := by
    split at its
    next own => rw [← Option.some.inj its, own]
    next => cases its

def samplePayload : Payload String (List String) :=
  { foundedPayload with
    accounts := ⟨[⟨"account-ada", "ada", "Ada", "tall bright lamp", ["member"], true, 1⟩,
      ⟨"account-eve", "eve", "Eve", "small green door", ["member"], true, 1⟩], by decide⟩ }

def sampleWorld : World String (List String) where
  service := ⟨⟨some samplePayload, samplePayload⟩, Security.emptyState, none, "", "", 0⟩
  drawn := []
  lastLogin := none
  ended := []
  verified := []
  pending := []

def loginOf (username password identityId : String) : Login :=
  ⟨username, password, identityId, "principal", "session", 0, false, true, true⟩

def loginAda : Step String (List String) := .login (loginOf "ada" "tall bright lamp" "identity_1")

def loginEve : Step String (List String) := .login (loginOf "eve" "small green door" "identity_2")

/-- The password of one account is checked, and another account logs in before the time stamp. -/
def interleaved : List (Step String (List String)) :=
  [loginAda, .checkStepUp "tall bright lamp" 1 1000, loginEve, .stampStepUp 0 1000]

/-- Behind the stamp the session of the other account passes for stepped up. -/
theorem stepUp_for_another : sampleWorld.Starts ∧
    (sampleWorld.run sampleSetup interleaved).service.requireStepUp 1000 = true ∧
    ∀ checked ∈ (sampleWorld.run sampleSetup interleaved).verified,
      (sampleWorld.run sampleSetup interleaved).service.session ≠ some checked.session := by
  refine ⟨⟨rfl, rfl, rfl, rfl, rfl⟩, by decide +kernel, fun checked mem its => ?_⟩
  have all : (sampleWorld.run sampleSetup interleaved).verified.map (·.session.identityId) = ["identity_1"] := by
    decide +kernel
  have current : (sampleWorld.run sampleSetup interleaved).service.session.map (·.identityId) =
      some "identity_2" := by decide +kernel
  have one := List.mem_singleton.mp (all ▸ List.mem_map_of_mem mem)
  rw [its, Option.map_some, one] at current
  exact absurd current (by decide)

theorem session_authority_sample :
    (∃ login payload account, Authority sampleSetup
      (sampleWorld.run sampleSetup [loginAda, .checkStepUp "tall bright lamp" 1 1000, .stampStepUp 0 1000])
      "dataset.read" 1 login payload account) ∧
    ∃ checked ∈ (sampleWorld.run sampleSetup
        [loginAda, .checkStepUp "tall bright lamp" 1 1000, .stampStepUp 0 1000]).verified,
      (1000 : Int) - checked.checkedAt ≤ stepUpMaxAge + 0 := by
  have both := session_authority sampleSetup (w := sampleWorld) ⟨rfl, rfl, rfl, rfl, rfl⟩
    [loginAda, .checkStepUp "tall bright lamp" 1 1000, .stampStepUp 0 1000]
  have prompt : sampleWorld.Prompt sampleSetup 0
      [loginAda, .checkStepUp "tall bright lamp" 1 1000, .stampStepUp 0 1000] := by
    refine ⟨trivial, trivial, fun checked its => ?_, trivial⟩
    have waiting : ((sampleWorld.run sampleSetup [loginAda, .checkStepUp "tall bright lamp" 1 1000]).pending)[0]? =
        (sampleWorld.run sampleSetup [loginAda, .checkStepUp "tall bright lamp" 1 1000]).service.session.map
          fun session => ⟨session, "account-ada", 1000⟩ := rfl
    obtain ⟨session, here, rfl⟩ := Option.map_eq_some_iff.mp (waiting.symm.trans its)
    exact ⟨here, le_rfl⟩
  obtain ⟨checked, mem, _, _, age⟩ := both.2.2 0 prompt 1000 (by decide +kernel)
  exact ⟨both.1 "dataset.read" "dataset:table" 1 (by decide +kernel), checked, mem, age⟩

end Samples

end Arenyxa.Enterprise.Sessions
