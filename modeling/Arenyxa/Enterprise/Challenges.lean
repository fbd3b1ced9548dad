import Arenyxa.Enterprise.WorkerAuth
import Arenyxa.Lib.History

/-! A challenge leads to one session at most, and only a worker whose registered key has signed it
gets one. -/

namespace Arenyxa.Enterprise

open History

variable {verifies : Algorithm → String → String → Message → Bool} {sha256 : String → String}

/-- What is assumed of the environment: identities and tokens are new when they are drawn, and
a signature that verifies was made with the key before it is presented. -/
def Honest (verifies : Algorithm → String → String → Message → Bool) (sha256 : String → String)
    (w : World) : AuthAction → Prop
  | .issue _ challengeId _ => challengeId ∉ w.issued.map Challenge.challengeId
  | .present _ signature => ∀ algorithm publicKey message,
      verifies algorithm publicKey signature message = true →
      (algorithm, publicKey, message) ∈ w.signed
  | .insert _ token => sha256 token ∉ w.opened.map Opening.digest
  | _ => True

section Tokens

/-- The challenge that an authentication has taken. -/
def Authentication.holds : Authentication → Option String
  | .presented _ _ found => found.map Challenge.challengeId
  | .bound _ _ issued => some issued.challengeId
  | .verified issued _ => some issued.challengeId
  | .ended => none

/-- Where a challenge is: in the table, with an authentication, or behind a session. -/
def World.places (w : World) (challengeId : String) : Nat :=
  (w.server.challenges.rows.map Challenge.challengeId).count challengeId +
    (w.calls.filterMap Authentication.holds).count challengeId +
    (w.opened.map Opening.challengeId).count challengeId

/-- A challenge is in one place at most, and only if it was issued. -/
structure World.Single (w : World) : Prop where
  once : ∀ challengeId, w.places challengeId ≤ 1
  issued : ∀ challengeId, 0 < w.places challengeId →
    challengeId ∈ w.issued.map Challenge.challengeId

theorem count_filterMap_set {α β : Type} [BEq β] (f : α → Option β) {l : List α} {i : Nat} {a b : α}
    (h : l[i]? = some a) (x : β) :
    ((l.set i b).filterMap f).count x + (f a).toList.count x =
      (l.filterMap f).count x + (f b).toList.count x := by
  obtain ⟨bound, rfl⟩ := List.getElem?_eq_some_iff.mp h
  have split : l = l.take i ++ l[i] :: l.drop (i + 1) := by simp
  have after : l.set i b = l.take i ++ b :: l.drop (i + 1) := List.set_eq_take_append_cons_drop ..
    |>.trans (if_pos bound)
  have cons : ∀ (c : α) (l : List α), (c :: l).filterMap f = (f c).toList ++ l.filterMap f := by
    intro c l
    cases result : f c with
    | none => simp [result]
    | some d => simp [result]
  rw [after]
  conv_rhs => rw [split]
  simp only [List.filterMap_append, cons, List.count_append]
  omega

variable {w w' : World} {actions : List AuthAction} {action : AuthAction} {challengeId : String}

theorem places_set {call call' : Authentication} {i : Nat} (at_call : w.calls[i]? = some call)
    (keeps : call'.holds = call.holds ∨ call'.holds = none) (challengeId : String) :
    ({ w with calls := w.calls.set i call' } : World).places challengeId ≤ w.places challengeId := by
  have counted := count_filterMap_set (b := call') Authentication.holds at_call challengeId
  have fewer : (call'.holds).toList.count challengeId ≤ (call.holds).toList.count challengeId := by
    rcases keeps with same | none
    · rw [same]
    · rw [none]
      exact Nat.zero_le _
  simp only [World.places]
  omega

theorem count_sublist {t t' : Table Challenge} (sub : t'.rows.Sublist t.rows) (challengeId : String) :
    (t'.rows.map Challenge.challengeId).count challengeId ≤
      (t.rows.map Challenge.challengeId).count challengeId :=
  (sub.map _).count_le _

theorem World.Single.fewer (h : w.Single) (places : ∀ id, w'.places id ≤ w.places id)
    (issued : w'.issued = w.issued) : w'.Single where
  once id := (places id).trans (h.once id)
  issued id here := issued ▸ h.issued id (here.trans_le (places id))

theorem createWorkerChallenge_some {s s' : Server} {workerId nonce : String} {challenge : Challenge}
    (h : s.createWorkerChallenge workerId challengeId nonce = some (challenge, s')) :
    challenge.challengeId = challengeId ∧ s'.workers = s.workers ∧ s'.now = s.now ∧
      s'.sessions = s.cleanup.sessions ∧
      s'.challenges =
        (s.cleanup.challenges.evictOldest maxChallenges Challenge.createdAt).assign challenge := by
  rw [Server.createWorkerChallenge.eq_def] at h
  split at h
  next => cases h
  next worker =>
    split at h
    next => cases h
    next =>
      cases h
      exact ⟨rfl, rfl, rfl, rfl, rfl⟩

theorem cleanup_sublist (s : Server) : s.cleanup.challenges.rows.Sublist s.challenges.rows :=
  List.filter_sublist

theorem get?_of_places (h : w.places challengeId = 0) {t : Table Challenge}
    (sub : t.rows.Sublist w.server.challenges.rows) : t.get? challengeId = none := by
  refine Table.get?_none_iff.mpr fun c mem same => ?_
  have counted : 0 < (w.server.challenges.rows.map Challenge.challengeId).count challengeId :=
    List.count_pos_iff.mpr (List.mem_map.mpr ⟨c, sub.subset mem, same⟩)
  rw [World.places] at h
  omega

theorem single_issue (h : w.Single) {workerId nonce : String} {challenge : Challenge} {s' : Server}
    (fresh : challengeId ∉ w.issued.map Challenge.challengeId)
    (created : w.server.createWorkerChallenge workerId challengeId nonce = some (challenge, s')) :
    ({ w with server := s', issued := challenge :: w.issued } : World).Single := by
  obtain ⟨rfl, -, -, -, table⟩ := createWorkerChallenge_some created
  have nowhere : w.places challenge.challengeId = 0 := by
    by_contra somewhere
    exact fresh (h.issued _ (Nat.pos_of_ne_zero somewhere))
  have sub : (w.server.cleanup.challenges.evictOldest maxChallenges Challenge.createdAt).rows.Sublist
      w.server.challenges.rows := Table.evictOldest_sublist.trans (cleanup_sublist _)
  have absent : (w.server.cleanup.challenges.evictOldest maxChallenges Challenge.createdAt).get?
      (Keyed.key challenge) = none := get?_of_places nowhere sub
  have rows : s'.challenges.rows =
      (w.server.cleanup.challenges.evictOldest maxChallenges Challenge.createdAt).rows ++
        [challenge] := by
    rw [table, Table.assign, if_pos absent, Table.rows_insert absent]
  have counted : ∀ id, ({ w with server := s', issued := challenge :: w.issued } : World).places id ≤
      w.places id + [challenge.challengeId].count id := by
    intro id
    have fewer := (sub.map Challenge.challengeId).count_le id
    simp only [World.places, rows, List.map_append, List.map_cons, List.map_nil, List.count_append]
    omega
  refine ⟨fun id => ?_, fun id here => ?_⟩
  · by_cases same : id = challenge.challengeId
    · subst same
      have bound := counted challenge.challengeId
      rw [nowhere, List.count_singleton_self] at bound
      exact bound
    · have bound := counted id
      rw [List.count_singleton, if_neg (by simpa using Ne.symm same)] at bound
      exact bound.trans (h.once id)
  · by_cases same : id = challenge.challengeId
    · exact List.mem_map.mpr ⟨challenge, List.mem_cons_self, same.symm⟩
    · have bound := counted id
      rw [List.count_singleton, if_neg (by simpa using Ne.symm same)] at bound
      exact List.mem_cons_of_mem _ (h.issued id (here.trans_le bound))

theorem places_present (presented : Presented) (signature : String) (id : String) :
    (w.step verifies sha256 (.present presented signature)).places id ≤ w.places id := by
  have fewer := count_sublist (cleanup_sublist w.server) id
  have others : (w.server.cleanup.challenges.erase presented.challengeId).rows.Sublist
      w.server.cleanup.challenges.rows := List.filter_sublist
  have kept := count_sublist others id
  simp only [World.step, Server.takeChallenge, World.places, List.filterMap_append, List.count_append]
  cases found : w.server.cleanup.challenges.get? presented.challengeId with
  | none =>
    simp only [List.filterMap_cons, Authentication.holds, Option.map_none, List.filterMap_nil,
      List.count_nil]
    omega
  | some c =>
    obtain ⟨mem, named⟩ := Table.get?_some_iff.mp found
    replace named : c.challengeId = presented.challengeId := named
    simp only [List.filterMap_cons, Authentication.holds, Option.map_some, List.filterMap_nil]
    by_cases same : id = c.challengeId
    · subst same
      have gone : ((w.server.cleanup.challenges.erase presented.challengeId).rows.map
          Challenge.challengeId).count c.challengeId = 0 := by
        refine List.count_eq_zero.mpr fun there => ?_
        obtain ⟨d, there, same⟩ := List.mem_map.mp there
        exact (Table.mem_erase.mp there).2 (same.trans named)
      have here : 0 < (w.server.cleanup.challenges.rows.map Challenge.challengeId).count
          c.challengeId := List.count_pos_iff.mpr (List.mem_map_of_mem mem)
      rw [List.count_singleton_self]
      omega
    · rw [List.count_singleton, if_neg (by simpa using Ne.symm same)]
      omega

theorem places_insert {i : Nat} {issued : Challenge} {worker : Worker} (token id : String)
    (at_call : w.calls[i]? = some (.verified issued worker)) :
    (w.step verifies sha256 (.insert i token)).places id ≤ w.places id := by
  have fewer := count_sublist (cleanup_sublist w.server) id
  have counted := count_filterMap_set (b := .ended) Authentication.holds at_call id
  simp only [World.step, at_call, World.places, Server.openSession, List.map_cons,
    Authentication.holds, Option.toList_some, Option.toList_none, List.count_nil] at counted ⊢
  rw [← List.singleton_append (x := issued.challengeId), List.count_append]
  omega

theorem places_bind (i : Nat) (id : String) :
    (w.step verifies sha256 (.bind i)).places id ≤ w.places id := by
  rw [World.step.eq_def]
  simp only
  split
  next presented signature issued at_call =>
    split
    next =>
      refine places_set at_call (.inl ?_) id
      rfl
    next => exact places_set at_call (.inr rfl) id
  next at_call => exact places_set at_call (.inr rfl) id
  next => exact le_rfl

theorem places_verify (i : Nat) (admitted : Bool) (id : String) :
    (w.step verifies sha256 (.verify i admitted)).places id ≤ w.places id := by
  rw [World.step.eq_def]
  simp only
  split
  next presented signature issued at_call =>
    split
    next =>
      refine places_set at_call (.inl ?_) id
      rfl
    next => exact places_set at_call (.inr rfl) id
  next => exact le_rfl

theorem single_step (h : w.Single) (honest : Honest verifies sha256 w action) :
    (w.step verifies sha256 action).Single := by
  cases action with
  | pass seconds => exact ⟨h.once, h.issued⟩
  | register workerId worker => exact ⟨h.once, h.issued⟩
  | sign algorithm publicKey message => exact ⟨h.once, h.issued⟩
  | issue workerId challengeId nonce =>
    rw [World.step.eq_def]
    simp only
    split
    next => exact h
    next challenge server created => exact single_issue h honest created
  | present challenge signature => exact h.fewer (places_present challenge signature) rfl
  | bind call =>
    refine h.fewer (places_bind call) ?_
    rw [World.step.eq_def]
    grind
  | verify call admitted =>
    refine h.fewer (places_verify call admitted) ?_
    rw [World.step.eq_def]
    grind
  | insert call token =>
    rw [World.step.eq_def]
    simp only
    split
    next issued worker at_call =>
      have fewer := fun id => @places_insert verifies sha256 w _ _ _ token id at_call
      rw [World.step.eq_def] at fewer
      simp only [at_call] at fewer
      exact h.fewer fewer rfl
    next => exact h
  | use token =>
    refine h.fewer (fun id => ?_) rfl
    have fewer := count_sublist (cleanup_sublist w.server) id
    simp only [World.step, Server.workerSession, World.places]
    omega

end Tokens

section Proofs

/-- The message answers a challenge: it is that of the challenge, up to the rounding of its
expiry. -/
def Challenge.Answered (c : Challenge) (message : Message) : Prop :=
  message = { c.message with expiresAt := message.expiresAt } ∧
    |message.expiresAt - c.expiresAt| ≤ 1 / 1000000

variable (verifies sha256) (now : Rat) (workers : String → Option Worker)

/-- The key that was registered for the worker at some moment has signed the answer before the
challenge expired. -/
structure Proven (actions : List AuthAction) (c : Challenge) (worker : Worker) : Prop where
  registered : Once (World.step verifies sha256) (World.start now workers)
    (fun w => w.server.workers c.workerId = some worker) actions
  active : worker.revoked = false
  signed : ∃ message, c.Answered message ∧
    Once (World.step verifies sha256) (World.start now workers)
      (fun w => (worker.algorithm, worker.publicKey, message) ∈ w.signed ∧
        w.server.now < c.expiresAt) actions

/-- What is known of an authentication between its steps. -/
def Authentication.Known (actions : List AuthAction) (w : World) : Authentication → Prop
  | .presented challenge signature (some c) => c ∈ w.issued ∧
      c.challengeId = challenge.challengeId ∧
      ∀ algorithm publicKey message, verifies algorithm publicKey signature message = true →
        (algorithm, publicKey, message) ∈ w.signed
  | .bound challenge signature c => c ∈ w.issued ∧
      (∃ time, bindsTo time c challenge = true) ∧ c.challengeId = challenge.challengeId ∧
      ∀ algorithm publicKey message, verifies algorithm publicKey signature message = true →
        Once (World.step verifies sha256) (World.start now workers)
          (fun w => (algorithm, publicKey, message) ∈ w.signed ∧ w.server.now < c.expiresAt) actions
  | .verified c worker => c ∈ w.issued ∧ Proven verifies sha256 now workers actions c worker
  | _ => True

structure World.Authentic (actions : List AuthAction) (w : World) : Prop where
  listed : ∀ c ∈ w.server.challenges.rows, c ∈ w.issued
  calls : ∀ call ∈ w.calls, call.Known verifies sha256 now workers actions w
  opened : ∀ o ∈ w.opened, ∃ c ∈ w.issued, c.challengeId = o.challengeId ∧ c.workerId = o.workerId ∧
    ∃ worker, Proven verifies sha256 now workers actions c worker
  sessions : ∀ session ∈ w.server.sessions.rows, ∃ o ∈ w.opened,
    o.digest = session.digest ∧ o.workerId = session.workerId

theorem answered_of_bindsTo {c : Challenge} {presented : Presented} {message : Message} {time : Rat}
    (binds : bindsTo time c presented = true) (named : c.challengeId = presented.challengeId)
    (rebuilt : challengeMessage presented = some message) : c.Answered message := by
  simp only [bindsTo, Bool.and_eq_true, Bool.or_eq_true, decide_eq_true_eq] at binds
  obtain ⟨⟨⟨⟨⟨⟨-, worker⟩, schema⟩, algorithm⟩, nonce⟩, protocol⟩, expiry⟩ := binds
  rw [challengeMessage.eq_def, protocol] at rebuilt
  split at rebuilt
  next expiresAt protocol' presents same =>
    cases same
    have close : |expiresAt - c.expiresAt| ≤ 1 / 1000000 := by
      rw [presents] at expiry
      exact of_decide_eq_true expiry
    split at rebuilt
    next v2 =>
      rw [algorithm.resolve_left (by simp [← schema, v2])] at rebuilt
      cases rebuilt
      refine ⟨?_, close⟩
      simp [Challenge.message, ← schema, v2, named, worker, nonce]
    next v1 =>
      cases rebuilt
      refine ⟨?_, close⟩
      simp [Challenge.message, ← schema, v1, named, worker, nonce]
  next => cases rebuilt

variable {verifies sha256 now workers} {c : Challenge} {worker : Worker} {call : Authentication}
  {w w' : World} {actions : List AuthAction} {action : AuthAction}

theorem Proven.snoc (h : Proven verifies sha256 now workers actions c worker) :
    Proven verifies sha256 now workers (actions ++ [action]) c worker where
  registered := h.registered.snoc
  active := h.active
  signed := by
    obtain ⟨message, answered, signed⟩ := h.signed
    exact ⟨message, answered, signed.snoc⟩

theorem Authentication.Known.snoc (h : call.Known verifies sha256 now workers actions w)
    (issued : w.issued ⊆ w'.issued) (signed : w.signed ⊆ w'.signed) :
    call.Known verifies sha256 now workers (actions ++ [action]) w' := by
  cases call with
  | presented challenge signature found =>
    cases found with
    | none => trivial
    | some c =>
      exact ⟨issued h.1, h.2.1, fun algorithm key message made => signed (h.2.2 algorithm key message made)⟩
  | bound challenge signature c =>
    exact ⟨issued h.1, h.2.1, h.2.2.1, fun algorithm key message made =>
      (h.2.2.2 algorithm key message made).snoc⟩
  | verified c worker => exact ⟨issued h.1, h.2.snoc⟩
  | ended => trivial

theorem World.Authentic.next (h : w.Authentic verifies sha256 now workers actions)
    (issued : w'.issued = w.issued) (signed : w.signed ⊆ w'.signed) (opened : w'.opened = w.opened)
    (challenges : w'.server.challenges.rows ⊆ w.server.challenges.rows)
    (sessions : w'.server.sessions.rows ⊆ w.server.sessions.rows)
    (calls : ∀ call ∈ w'.calls, call ∈ w.calls ∨
      call.Known verifies sha256 now workers (actions ++ [action]) w') :
    w'.Authentic verifies sha256 now workers (actions ++ [action]) where
  listed c mem := issued ▸ h.listed c (challenges mem)
  calls call mem := (calls call mem).elim
    (fun old => (h.calls call old).snoc (issued ▸ List.Subset.refl _) signed) id
  opened := by
    rw [issued, opened]
    intro o mem
    obtain ⟨c, there, named, owner, worker, proven⟩ := h.opened o mem
    exact ⟨c, there, named, owner, worker, proven.snoc⟩
  sessions session mem := by
    rw [opened]
    exact h.sessions session (sessions mem)

theorem authentic_bind (h : w.Authentic verifies sha256 now workers actions)
    (here : w = run (World.step verifies sha256) (World.start now workers) actions) (i : Nat) :
    (w.step verifies sha256 (.bind i)).Authentic verifies sha256 now workers
      (actions ++ [.bind i]) := by
  rw [World.step.eq_def]
  simp only
  split
  next challenge signature c at_call =>
    obtain ⟨issued, named, made⟩ := h.calls _ (List.mem_of_getElem? at_call)
    split
    next binds =>
      have live : w.server.now < c.expiresAt := by
        simp only [bindsTo, Bool.and_eq_true, decide_eq_true_eq] at binds
        exact binds.1.1.1.1.1.1
      refine h.next rfl (List.Subset.refl _) rfl (List.Subset.refl _) (List.Subset.refl _) ?_
      intro call mem
      refine (List.mem_or_eq_of_mem_set mem).imp_right ?_
      rintro rfl
      refine ⟨issued, ⟨_, binds⟩, named, fun algorithm key message verified => Once.snoc (Once.now ?_)⟩
      exact here ▸ ⟨made algorithm key message verified, live⟩
    next =>
      refine h.next rfl (List.Subset.refl _) rfl (List.Subset.refl _) (List.Subset.refl _) ?_
      intro call mem
      refine (List.mem_or_eq_of_mem_set mem).imp_right ?_
      rintro rfl
      trivial
  next =>
    refine h.next rfl (List.Subset.refl _) rfl (List.Subset.refl _) (List.Subset.refl _) ?_
    intro call mem
    refine (List.mem_or_eq_of_mem_set mem).imp_right ?_
    rintro rfl
    trivial
  next =>
    exact h.next rfl (List.Subset.refl _) rfl (List.Subset.refl _) (List.Subset.refl _) fun _ mem =>
      .inl mem

theorem verifyWorker_some {s : Server} {challenge : Presented} {signature : String} {admitted : Bool}
    (h : s.verifyWorker verifies c challenge signature admitted = some worker) :
    s.workers c.workerId = some worker ∧ worker.revoked = false ∧ ∃ message,
      challengeMessage challenge = some message ∧
        verifies worker.algorithm worker.publicKey signature message = true := by
  rw [Server.verifyWorker.eq_def] at h
  split at h
  next row message found rebuilt =>
    split at h
    next passed =>
      cases h
      simp only [Bool.and_eq_true, Bool.not_eq_true'] at passed
      exact ⟨found, passed.1.1.1, message, rebuilt, passed.2⟩
    next => cases h
  next => cases h

theorem authentic_verify (h : w.Authentic verifies sha256 now workers actions)
    (here : w = run (World.step verifies sha256) (World.start now workers) actions) (i : Nat)
    (admitted : Bool) :
    (w.step verifies sha256 (.verify i admitted)).Authentic verifies sha256 now workers
      (actions ++ [.verify i admitted]) := by
  rw [World.step.eq_def]
  simp only
  split
  next challenge signature c at_call =>
    obtain ⟨issued, ⟨time, binds⟩, named, made⟩ := h.calls _ (List.mem_of_getElem? at_call)
    split
    next worker verified =>
      obtain ⟨row, active, message, rebuilt, signed⟩ := verifyWorker_some verified
      refine h.next rfl (List.Subset.refl _) rfl (List.Subset.refl _) (List.Subset.refl _) ?_
      intro call mem
      refine (List.mem_or_eq_of_mem_set mem).imp_right ?_
      rintro rfl
      refine ⟨issued, Once.snoc (Once.now (here ▸ row)), active, message, ?_, ?_⟩
      · exact answered_of_bindsTo binds named rebuilt
      · exact (made _ _ _ signed).snoc
    next =>
      refine h.next rfl (List.Subset.refl _) rfl (List.Subset.refl _) (List.Subset.refl _) ?_
      intro call mem
      refine (List.mem_or_eq_of_mem_set mem).imp_right ?_
      rintro rfl
      trivial
  next =>
    exact h.next rfl (List.Subset.refl _) rfl (List.Subset.refl _) (List.Subset.refl _) fun _ mem =>
      .inl mem

theorem authentic_issue (h : w.Authentic verifies sha256 now workers actions)
    (workerId challengeId nonce : String) :
    (w.step verifies sha256 (.issue workerId challengeId nonce)).Authentic verifies sha256 now workers
      (actions ++ [.issue workerId challengeId nonce]) := by
  rw [World.step.eq_def]
  simp only
  split
  next =>
    exact h.next rfl (List.Subset.refl _) rfl (List.Subset.refl _) (List.Subset.refl _) fun _ mem =>
      .inl mem
  next challenge server created =>
    obtain ⟨-, -, -, sessions, table⟩ := createWorkerChallenge_some created
    have grown : w.issued ⊆ challenge :: w.issued := List.subset_cons_self _ _
    refine ⟨fun c mem => ?_, fun call mem => (h.calls call mem).snoc grown (List.Subset.refl _), ?_, ?_⟩
    · simp only [table] at mem
      rcases Table.mem_assign.mp mem with rfl | ⟨mem, -⟩
      · exact List.mem_cons_self
      · exact grown (h.listed c ((cleanup_sublist _).subset (Table.evictOldest_sublist.subset mem)))
    · intro o mem
      obtain ⟨c, there, named, owner, worker, proven⟩ := h.opened o mem
      exact ⟨c, grown there, named, owner, worker, proven.snoc⟩
    · intro session mem
      simp only [sessions] at mem
      exact h.sessions session (List.mem_of_mem_filter mem)

theorem authentic_present (h : w.Authentic verifies sha256 now workers actions)
    (challenge : Presented) (signature : String)
    (honest : Honest verifies sha256 w (.present challenge signature)) :
    (w.step verifies sha256 (.present challenge signature)).Authentic verifies sha256 now workers
      (actions ++ [.present challenge signature]) := by
  have fewer : w.server.cleanup.challenges.rows ⊆ w.server.challenges.rows :=
    (cleanup_sublist _).subset
  refine h.next rfl (List.Subset.refl _) rfl (fun c mem => fewer (Table.mem_erase.mp mem).1)
    List.filter_sublist.subset fun call mem => ?_
  refine (List.mem_append.mp mem).imp_right fun new => ?_
  cases List.mem_singleton.mp new
  cases found : w.server.cleanup.challenges.get? challenge.challengeId with
  | none =>
    simp only [Server.takeChallenge, found]
    trivial
  | some c =>
    obtain ⟨mem, named⟩ := Table.get?_some_iff.mp found
    simp only [Server.takeChallenge, found]
    exact ⟨h.listed c (fewer mem), named, honest⟩

theorem authentic_insert (h : w.Authentic verifies sha256 now workers actions) (i : Nat)
    (token : String) :
    (w.step verifies sha256 (.insert i token)).Authentic verifies sha256 now workers
      (actions ++ [.insert i token]) := by
  rw [World.step.eq_def]
  simp only
  split
  next c worker at_call =>
    obtain ⟨issued, proven⟩ := h.calls _ (List.mem_of_getElem? at_call)
    refine ⟨fun c mem => h.listed c ((cleanup_sublist _).subset mem), fun call mem => ?_, ?_, ?_⟩
    · rcases List.mem_or_eq_of_mem_set mem with old | rfl
      · exact (h.calls call old).snoc (List.Subset.refl _) (List.Subset.refl _)
      · trivial
    · intro o mem
      rcases List.mem_cons.mp mem with rfl | mem
      · exact ⟨c, issued, rfl, rfl, worker, proven.snoc⟩
      · obtain ⟨c, there, named, owner, worker, proven⟩ := h.opened o mem
        exact ⟨c, there, named, owner, worker, proven.snoc⟩
    · intro session mem
      rcases Table.mem_assign.mp mem with rfl | ⟨mem, -⟩
      · exact ⟨_, List.mem_cons_self, rfl, rfl⟩
      · have old := List.mem_of_mem_filter (Table.evictOldest_sublist.subset mem)
        obtain ⟨o, there, same⟩ := h.sessions session old
        exact ⟨o, List.mem_cons_of_mem _ there, same⟩
  next =>
    exact h.next rfl (List.Subset.refl _) rfl (List.Subset.refl _) (List.Subset.refl _) fun _ mem =>
      .inl mem

theorem authentic_step (h : w.Authentic verifies sha256 now workers actions)
    (here : w = run (World.step verifies sha256) (World.start now workers) actions)
    (honest : Honest verifies sha256 w action) :
    (w.step verifies sha256 action).Authentic verifies sha256 now workers (actions ++ [action]) := by
  cases action with
  | pass seconds =>
    exact h.next rfl (List.Subset.refl _) rfl (List.Subset.refl _) (List.Subset.refl _) fun _ mem =>
      .inl mem
  | register workerId worker =>
    exact h.next rfl (List.Subset.refl _) rfl (List.Subset.refl _) (List.Subset.refl _) fun _ mem =>
      .inl mem
  | sign algorithm publicKey message =>
    exact h.next rfl (List.subset_cons_self _ _) rfl (List.Subset.refl _) (List.Subset.refl _)
      fun _ mem => .inl mem
  | issue workerId challengeId nonce => exact authentic_issue h workerId challengeId nonce
  | present challenge signature => exact authentic_present h challenge signature honest
  | bind call => exact authentic_bind h here call
  | verify call admitted => exact authentic_verify h here call admitted
  | insert call token => exact authentic_insert h call token
  | use token =>
    exact h.next rfl (List.Subset.refl _) rfl (cleanup_sublist _).subset List.filter_sublist.subset
      fun _ mem => .inl mem

theorem start_authentic : (World.start now workers).Authentic verifies sha256 now workers [] where
  listed _ mem := absurd mem List.not_mem_nil
  calls _ mem := absurd mem List.not_mem_nil
  opened _ mem := absurd mem List.not_mem_nil
  sessions _ mem := absurd mem List.not_mem_nil

end Proofs

section Limits

/-- Both tables are within their limits. -/
structure Server.Bounded (s : Server) : Prop where
  challenges : s.challenges.rows.length ≤ maxChallenges
  sessions : s.sessions.rows.length ≤ maxWorkerSessions

theorem Server.Bounded.cleanup {s : Server} (h : s.Bounded) : s.cleanup.Bounded where
  challenges := (List.length_filter_le _ _).trans h.challenges
  sessions := (List.length_filter_le _ _).trans h.sessions

theorem bounded_step {w : World} (h : w.server.Bounded) (action : AuthAction) :
    (w.step verifies sha256 action).server.Bounded := by
  have room : 0 < maxChallenges ∧ 0 < maxWorkerSessions := by decide
  rw [World.step.eq_def]
  cases action with
  | pass seconds => exact ⟨h.challenges, h.sessions⟩
  | register workerId worker => exact ⟨h.challenges, h.sessions⟩
  | sign algorithm publicKey message => exact h
  | issue workerId challengeId nonce =>
    simp only
    split
    next => exact h
    next challenge server created =>
      obtain ⟨-, -, -, sessions, table⟩ := createWorkerChallenge_some created
      refine ⟨?_, ?_⟩
      · rw [table]
        exact Table.length_assign_evictOldest room.1 h.cleanup.challenges
      · rw [sessions]
        exact h.cleanup.sessions
  | present challenge signature =>
    exact ⟨(List.length_filter_le _ _).trans h.cleanup.challenges, h.cleanup.sessions⟩
  | bind call => grind
  | verify call admitted => grind
  | insert call token =>
    simp only
    split
    next =>
      exact ⟨h.cleanup.challenges, Table.length_assign_evictOldest room.2 h.cleanup.sessions⟩
    next => exact h
  | use token => exact h.cleanup

theorem workerSession_live {s : Server} {digest : String} {session : Session}
    (h : (s.workerSession digest).1 = some session) : s.now < session.expiresAt := by
  obtain ⟨mem, -⟩ := Table.get?_some_iff.mp h
  exact of_decide_eq_true (List.mem_filter.mp mem).2

end Limits

section Histories

variable {w : World} {actions : List AuthAction} {action : AuthAction} {challengeId : String}

theorem absent_step (issued : challengeId ∈ w.issued.map Challenge.challengeId)
    (absent : w.server.challenges.get? challengeId = none)
    (honest : Honest verifies sha256 w action) :
    (w.step verifies sha256 action).server.challenges.get? challengeId = none ∧
      challengeId ∈ (w.step verifies sha256 action).issued.map Challenge.challengeId := by
  have fewer : ∀ {t : Table Challenge}, t.rows ⊆ w.server.challenges.rows →
      t.get? challengeId = none := fun sub => Table.get?_none_iff.mpr fun c mem =>
    Table.get?_none_iff.mp absent c (sub mem)
  rw [World.step.eq_def]
  cases action with
  | pass seconds => exact ⟨absent, issued⟩
  | register workerId worker => exact ⟨absent, issued⟩
  | sign algorithm publicKey message => exact ⟨absent, issued⟩
  | issue workerId other nonce =>
    simp only
    split
    next => exact ⟨absent, issued⟩
    next challenge server created =>
      obtain ⟨named, -, -, -, table⟩ := createWorkerChallenge_some created
      refine ⟨?_, List.mem_cons_of_mem _ issued⟩
      simp only [table]
      rw [Table.get?_assign, if_neg]
      · exact fewer (Table.evictOldest_sublist.trans (cleanup_sublist _)).subset
      · rintro rfl
        exact honest (named ▸ issued)
  | present challenge signature =>
    exact ⟨fewer ((List.Sublist.trans List.filter_sublist (cleanup_sublist _)).subset), issued⟩
  | bind call => grind
  | verify call admitted => grind
  | insert call token =>
    simp only
    split
    next => exact ⟨fewer (cleanup_sublist _).subset, issued⟩
    next => exact ⟨absent, issued⟩
  | use token => exact ⟨fewer (cleanup_sublist _).subset, issued⟩

variable (verifies : Algorithm → String → String → Message → Bool) (sha256 : String → String)
  (now : Rat) (workers : String → Option Worker)

/-- What holds of the authentication after a history. -/
structure Authenticated (actions : List AuthAction) (w : World) : Prop where
  /-- A challenge leads to one session at most. -/
  single : (w.opened.map Opening.challengeId).Nodup
  /-- The first presentation of an issued challenge takes it out of the table for good. -/
  spent : ∀ before challenge signature, before ++ [.present challenge signature] <+: actions →
    challenge.challengeId ∈
      (run (World.step verifies sha256) (World.start now workers) before).issued.map
        Challenge.challengeId →
    w.server.challenges.get? challenge.challengeId = none
  /-- Every session was opened for a challenge that the registered key has signed in time. -/
  proven : ∀ o ∈ w.opened, ∃ c ∈ w.issued, c.challengeId = o.challengeId ∧ c.workerId = o.workerId ∧
    ∃ worker, Proven verifies sha256 now workers actions c worker
  sessions : ∀ session ∈ w.server.sessions.rows, ∃ o ∈ w.opened,
    o.digest = session.digest ∧ o.workerId = session.workerId
  live : ∀ token session, (w.server.workerSession (sha256 token)).1 = some session →
    w.server.now < session.expiresAt
  bounded : w.server.Bounded

theorem spent_history (actions : List AuthAction)
    (honest : Meets (World.step verifies sha256) (World.start now workers) (Honest verifies sha256)
      actions) :
    ∀ before challenge signature, before ++ [.present challenge signature] <+: actions →
      challenge.challengeId ∈
        (run (World.step verifies sha256) (World.start now workers) before).issued.map
          Challenge.challengeId →
      (run (World.step verifies sha256) (World.start now workers) actions).server.challenges.get?
          challenge.challengeId = none ∧
        challenge.challengeId ∈ (run (World.step verifies sha256) (World.start now workers)
          actions).issued.map Challenge.challengeId := by
  refine induct (I := fun actions w => ∀ before challenge signature,
    before ++ [.present challenge signature] <+: actions →
      challenge.challengeId ∈
        (run (World.step verifies sha256) (World.start now workers) before).issued.map
          Challenge.challengeId →
      w.server.challenges.get? challenge.challengeId = none ∧
        challenge.challengeId ∈ w.issued.map Challenge.challengeId) ?_ ?_ actions honest
  · intro before challenge signature early
    exact absurd (List.prefix_nil.mp early) (by simp)
  · intro actions action honest ih before challenge signature early issued
    rcases List.prefix_concat_iff.mp early with here | earlier
    · obtain ⟨rfl, same⟩ := List.append_inj' here rfl
      cases same
      refine ⟨?_, issued⟩
      simp only [World.step, Server.takeChallenge]
      rw [Table.get?_erase, if_pos rfl]
    · obtain ⟨absent, issued⟩ := ih before challenge signature earlier issued
      exact absent_step issued absent honest

/-- One registered worker. -/
def oneWorker (workerId : String) : Option Worker :=
  if workerId = "w" then some ⟨false, "key", .ed25519, 1⟩ else none

/-- The answer to a challenge of that worker, with an expiry that was rounded on its way. -/
def roundedMessage : Message := ⟨schemaV1, "c", "w", "n", 120 + 1 / 2097152, 1, none⟩

/-- The one signature that was ever made. -/
def oneSignature (algorithm : Algorithm) (publicKey signature : String) (message : Message) : Bool :=
  algorithm = .ed25519 && publicKey = "key" && signature = "sig" && message = roundedMessage

def roundedHistory : List AuthAction :=
  [.issue "w" "c" "n", .sign .ed25519 "key" roundedMessage,
    .present ⟨schemaV1, "c", "w", "n", some (.finite (120 + 1 / 2097152)), some 1, none⟩ "sig",
    .bind 0, .verify 0 true, .insert 0 "t"]

theorem roundedHistory_honest : Meets (World.step oneSignature id) (World.start 0 oneWorker)
    (Honest oneSignature id) roundedHistory := by
  refine meets_of_each ⟨List.not_mem_nil, trivial, ?_, trivial, trivial, fun opened => ?_, trivial⟩
  case refine_2 => exact absurd opened (by decide +kernel)
  intro algorithm publicKey message verified
  simp only [oneSignature, Bool.and_eq_true, decide_eq_true_eq] at verified
  obtain ⟨⟨⟨rfl, rfl⟩, -⟩, rfl⟩ := verified
  exact List.mem_cons_self

end Histories

end Arenyxa.Enterprise
