import Arenyxa.Distributed.Runs

/-! A lease token is good for one grant: once the lease has ended or its time has passed, no
call that presents the token does anything. -/

namespace Arenyxa.Distributed

open Outcome

/-- The presented lease of a call. -/
def Op.call? : Op → Option LeaseCall
  | .startJob _ c | .renewLease c _ _ | .handoverLease c _ | .checkpoint c _
  | .markSideEffectStarted c | .complete _ c _ | .fail c _ _ => some c
  | _ => none

/-- The call raises, or is a completion that finds its own receipt; the tables stay as they are. -/
structure Refused (env : Env) (b : Backend) (q : Queue) (op : Op) : Prop where
  outcome : (∃ e, op.exec env b q = .error e) ∨
    (op.exec env b q = .ok (.unit, q) ∧ ∃ fallback c result, op = .complete fallback c result ∧
      Replays env q c (env.sha.hexdigest result.canonical))
  unchanged : (queueMachine env b).next q op = q

/-- No active lease on the digest runs past `floor`; with `⊥` there is none at all. -/
def Lapsed (digest : String) (floor : WithBot ℚ) (o : Option Job) : Prop :=
  ∀ row, o = some row → row.state.active → row.leaseTokenSha256 = digest →
    (row.leaseExpiresAt : WithBot ℚ) ≤ floor

/-- A restart that distrusts the clock of the previous boot lets it start again at any time from
second 1 on. -/
def Op.floorAfter (b : Backend) (q : Queue) (floor : WithBot ℚ) : Op → WithBot ℚ
  | .initializeLeaseClock domain mono _ =>
    if b = .sqlite ∧ q.anchored domain mono = false then floor.map fun _ => 1 else floor
  | _ => floor

/-- The lease clock does not fall below `floor` in the course of the calls. -/
def ClockFrom (env : Env) (b : Backend) : WithBot ℚ → Queue → List Op → Prop
  | _, _, [] => True
  | floor, q, op :: ops => (∀ c ∈ op.call?, floor ≤ ((c.now : ℚ) : WithBot ℚ)) ∧
    ClockFrom env b (op.floorAfter b q floor) ((queueMachine env b).next q op) ops

/-- The leases a run from `q` grants. -/
def grantedIn (env : Env) (b : Backend) (q : Queue) (ops : List Op) : List DistributedLease :=
  ((queueMachine env b).commits q ops).flatMap fun x => x.2.2.granted

/-- The leases granted in a run. -/
def issued (env : Env) (b : Backend) (ops : List Op) : List DistributedLease :=
  grantedIn env b .empty ops

/-- No token is drawn twice, and the hash tells the tokens apart. -/
structure TokensDistinct (env : Env) (b : Backend) (ops : List Op) : Prop where
  nodup : ((issued env b ops).map DistributedLease.leaseToken).Nodup
  injective : ∀ lease ∈ issued env b ops, ∀ lease' ∈ issued env b ops,
    env.sha.hexdigest lease.leaseToken = env.sha.hexdigest lease'.leaseToken →
      lease.leaseToken = lease'.leaseToken

/-- The operations that take leases back by themselves. -/
def Op.recovers : Op → Bool
  | .revokeWorker _ _ _ | .recoverStaleWorkerLeases _ | .recoverExpiredLeases _
  | .reconcileDurableState _ => true
  | _ => false

/-- The ways a committed operation ends a lease before its time has passed. -/
inductive Ends (q : Queue) (lease : DistributedLease) : Op → Result × Queue → Prop
  | handedOver {c : LeaseCall} {reason : String} {r : Result × Queue}
    (job : c.jobId = lease.jobId) : Ends q lease (.handoverLease c reason) r
  | failed {c : LeaseCall} {code : String} {retryable : Bool} {r : Result × Queue}
    (job : c.jobId = lease.jobId) : Ends q lease (.fail c code retryable) r
  | completed {fallback : Bool} {c : LeaseCall} {result : JsonObject} {r : Result × Queue}
    (job : c.jobId = lease.jobId) : Ends q lease (.complete fallback c result) r
  | leasedAgain {op : Op} {r : Result × Queue} {again : DistributedLease}
    (granted : again ∈ r.1.granted) (job : again.jobId = lease.jobId) : Ends q lease op r
  | revoked {utc : String} {stamp : String → String} {r : Result × Queue} :
    Ends q lease (.revokeWorker lease.workerId utc stamp) r
  | recovered {op : Op} {r : Result × Queue} (sweep : op.recovers)
    (held : ∃ row, q.job? lease.jobId = some row ∧ row.state.active)
    (back : ∀ row, r.2.job? lease.jobId = some row → row.state.active = false) :
    Ends q lease op r

section Calls

variable {env : Env} {b : Backend} {q : Queue} {op : Op} {c : LeaseCall}

theorem Refused.of_error {e : QueueError} (h : op.exec env b q = .error e) :
    Refused env b q op :=
  ⟨.inl ⟨e, h⟩, Machine.next_error h⟩

theorem Refused.of_replay {fallback : Bool} {result : JsonObject}
    (h : (Op.complete fallback c result).exec env b q = .ok (.unit, q))
    (replays : Replays env q c (env.sha.hexdigest result.canonical)) :
    Refused env b q (.complete fallback c result) :=
  ⟨.inr ⟨h, fallback, c, result, rfl, replays⟩, Machine.next_ok h⟩

theorem Sound.refused_or_live (hs : Sound q.opened) (presents : op.call? = some c) :
    Refused env b q op ∨ ∃ row, LeaseLive env q c row := by
  cases h : op.exec env b q with
  | error e => exact .inl (.of_error h)
  | ok r =>
    have committed := h
    cases op with
    | startJob fallback c' =>
      obtain rfl := Option.some.inj presents
      simp only [Op.exec, silently, bind_eq_ok] at h
      obtain ⟨q', h, -⟩ := h
      obtain ⟨row, live, -⟩ | ⟨-, -, ⟨row, live, -⟩, -⟩ := (startJob_sat hs).of_ok h
      · exact .inr ⟨row, live⟩
      · exact .inr ⟨row, live⟩
    | renewLease c' seconds reading =>
      obtain rfl := Option.some.inj presents
      simp only [Op.exec, returning, bind_eq_ok] at h
      obtain ⟨r', h, -⟩ := h
      with_reducible obtain ⟨row, held, -⟩ := (renewLease_sat hs).of_ok h
      exact .inr ⟨row, held.toLeaseLive⟩
    | handoverLease c' reason =>
      obtain rfl := Option.some.inj presents
      simp only [Op.exec, returning, bind_eq_ok] at h
      obtain ⟨r', h, -⟩ := h
      with_reducible obtain ⟨row, held, -⟩ := (handoverLease_sat hs).of_ok h
      exact .inr ⟨row, held.toLeaseLive⟩
    | checkpoint c' value =>
      obtain rfl := Option.some.inj presents
      simp only [Op.exec, returning, bind_eq_ok] at h
      obtain ⟨r', h, -⟩ := h
      with_reducible obtain ⟨row, held, -⟩ := (checkpoint_sat hs).of_ok h
      exact .inr ⟨row, held.toLeaseLive⟩
    | markSideEffectStarted c' =>
      obtain rfl := Option.some.inj presents
      simp only [Op.exec, silently, bind_eq_ok] at h
      obtain ⟨q', h, -⟩ := h
      with_reducible obtain ⟨row, held, -⟩ := (markSideEffectStarted_sat hs).of_ok h
      exact .inr ⟨row, held.toLeaseLive⟩
    | complete fallback c' result =>
      obtain rfl := Option.some.inj presents
      simp only [Op.exec, silently, bind_eq_ok] at h
      obtain ⟨q', h, hr⟩ := h
      cases hr
      obtain ⟨rfl, replays⟩ | ⟨row, live, -⟩ | ⟨-, -, ⟨row, live, -⟩, -⟩ := (complete_sat hs).of_ok h
      · exact .inl (.of_replay committed replays)
      · exact .inr ⟨row, live⟩
      · exact .inr ⟨row, live⟩
    | fail c' errorCode retryable =>
      obtain rfl := Option.some.inj presents
      simp only [Op.exec, returning, bind_eq_ok] at h
      obtain ⟨r', h, -⟩ := h
      with_reducible obtain ⟨row, held, -⟩ := (failJob_sat hs).of_ok h
      exact .inr ⟨row, held.toLeaseLive⟩
    | _ => cases presents

theorem LeaseLive.not_lapsed {row : Job} {floor : WithBot ℚ} (live : LeaseLive env q c row)
    (clock : floor ≤ ((c.now : ℚ) : WithBot ℚ)) :
    ¬Lapsed (env.sha.hexdigest c.leaseToken) floor (q.job? c.jobId) := by
  intro lapsed
  have le := (lapsed row live.found live.active live.token).trans clock
  exact absurd live.unexpired (not_lt.mpr (WithBot.coe_le_coe.mp le))

end Calls

section Lapses

variable {env : Env} {b : Backend} {q : Queue} {op : Op} {r : Result × Queue} {id digest : String}
  {floor : WithBot ℚ}

theorem Lapsed.of_inactive {o : Option Job} (h : ∀ row, o = some row → row.state.active = false) :
    Lapsed digest floor o := by
  intro row found active
  rw [h row found] at active
  cases active

theorem RowStep.lapsed {l : Label} {o o' : Option Job} (h : RowStep env.sha id l o o')
    (foreign : ∀ g, l.grant? = some g → g.jobId = id → env.sha.hexdigest g.token ≠ digest)
    (trusted : l ≠ .distrusted) (unrenewed : ∀ expires utc e, l ≠ .moved id (.renew expires utc) e)
    (lapsed : Lapsed digest floor o) : Lapsed digest floor o' := by
  intro row' found active same
  obtain ⟨g, grant, named, -, token⟩ | ⟨row, rfl, held, -, token, expiry⟩ :=
    h.lease_cases found active
  · exact absurd (token.symm.trans same) (foreign g grant named)
  · have expires : row'.leaseExpiresAt = row.leaseExpiresAt :=
      expiry.resolve_right fun h => h.elim trusted fun ⟨expires, utc, e, hl⟩ =>
        unrenewed expires utc e hl
    rw [expires]
    exact lapsed row rfl held (token.symm.trans same)

theorem Op.Emits.trusted (emits : op.Emits env b q .distrusted) :
    ∃ domain mono epoch, op = .initializeLeaseClock domain mono epoch := by
  cases op <;> simp_all [Emits, Label.Leases, Label.Recovers, Label.Prunes, Label.Surrenders]

theorem Op.Emits.renewed {expires : ℚ} {utc : String} {entry : Option Entry}
    (emits : op.Emits env b q (.moved id (.renew expires utc) entry)) :
    ∃ c seconds reading, op = .renewLease c seconds reading := by
  cases op <;> simp_all [Emits, Label.Leases, Label.Recovers, Label.Prunes, Label.Surrenders]

/-- Operations other than a renewal and a restart. -/
def Op.plain : Op → Bool
  | .renewLease _ _ _ | .initializeLeaseClock _ _ _ => false
  | _ => true

theorem Account.lapsed_step {ls : List Label} {result : Result}
    (account : Account env b q op ls result) (plain : op.plain)
    (foreign : ∀ lease ∈ result.granted, lease.jobId = id →
      env.sha.hexdigest lease.leaseToken ≠ digest)
    {l : Label} (hl : l ∈ ls) {o o' : Option Job} (step : RowStep env.sha id l o o')
    (lapsed : Lapsed digest floor o) : Lapsed digest floor o' := by
  have emits := account.emits l hl
  refine step.lapsed ?_ ?_ ?_ lapsed
  · intro g grant named
    obtain ⟨lease, granted, rfl⟩ := account.granted_of_label hl grant
    exact foreign lease granted named
  · rintro rfl
    obtain ⟨domain, mono, epoch, rfl⟩ := emits.trusted
    cases plain
  · rintro expires utc e rfl
    obtain ⟨c, seconds, reading, rfl⟩ := emits.renewed
    cases plain

theorem Accounted.lapsed (h : Accounted env b q op r) (plain : op.plain)
    (foreign : ∀ lease ∈ r.1.granted, lease.jobId = id →
      env.sha.hexdigest lease.leaseToken ≠ digest)
    (lapsed : Lapsed digest floor (q.job? id)) : Lapsed digest floor (r.2.job? id) := by
  obtain ⟨ls, transaction, account⟩ := h
  exact (transaction.row id).invariant
    (fun _ _ _ hl step => account.lapsed_step plain foreign hl step) lapsed

theorem Sound.lapsed_renewLease (hs : Sound q.opened) {c : LeaseCall} {seconds : Int}
    {reading : Instant} (h : (Op.renewLease c seconds reading).exec env b q = .ok r)
    (clock : floor ≤ ((c.now : ℚ) : WithBot ℚ)) (lapsed : Lapsed digest floor (q.job? id)) :
    Lapsed digest floor (r.2.job? id) := by
  obtain ⟨⟨expires, q'⟩, renewed, hr⟩ := bind_eq_ok.mp h
  cases hr
  obtain ⟨row, held, transaction⟩ := (renewLease_sat hs).of_ok renewed
  by_cases same : c.jobId = id
  · subst same
    rw [(transaction.job?_worked [c.workerId] held.found).2]
    rintro _ ⟨⟩ active token
    have live : Lapsed (env.sha.hexdigest c.leaseToken) floor (q.job? c.jobId) := by
      rw [← held.token, show row.leaseTokenSha256 = digest from token]
      exact lapsed
    exact absurd live (held.not_lapsed clock)
  · refine (transaction.row id).invariant (fun o l o' hl step => step.lapsed ?_ ?_ ?_) lapsed
    all_goals
      obtain rfl | hl := List.mem_cons.mp hl
      · simp [Label.grant?, same]
      · rw [List.mem_singleton.mp hl]
        simp [Label.grant?]

theorem job?_initializeLeaseClock {domain : String} {mono epoch : ℚ} {row : Job}
    (found : (q.initializeLeaseClock b domain mono epoch).job? id = some row)
    (active : row.state.active) :
    ∃ old, q.job? id = some old ∧ old.state.active ∧
      old.leaseTokenSha256 = row.leaseTokenSha256 ∧
      if b = .sqlite ∧ q.anchored domain mono = false then row.leaseExpiresAt = 1
      else row.leaseExpiresAt = old.leaseExpiresAt := by
  cases b with
  | postgresql =>
    refine ⟨row, found, active, rfl, ?_⟩
    rw [if_neg (fun h => nomatch h.1)]
  | sqlite =>
    unfold Queue.initializeLeaseClock at found
    change Queue.job? (if q.anchored domain mono then _ else _) id = some row at found
    by_cases anchor : q.anchored domain mono
    · rw [if_pos anchor] at found
      refine ⟨row, found, active, rfl, ?_⟩
      rw [if_neg (fun h => by simp [anchor] at h)]
    · rw [if_neg anchor] at found
      dsimp only at found
      split at found
      next =>
        have found : q.distrustLeases.job? id = some row := found
        rw [Queue.job?_distrustLeases] at found
        obtain ⟨old, hold, hrow⟩ := Option.map_eq_some_iff.mp found
        split at hrow
        next held =>
          subst hrow
          refine ⟨old, hold, held, rfl, ?_⟩
          rw [if_pos ⟨rfl, by simpa using anchor⟩]
          rfl
        next idle =>
          subst hrow
          exact absurd active idle
      next idle =>
        -- with no anchor and no active row there is nothing to redate
        have found : q.job? id = some row := found
        refine absurd (.inr (List.any_eq_true.mpr ⟨row, ?_, active⟩)) idle
        exact (Table.get?_some_iff.mp found).1

theorem Lapsed.restarted {domain : String} {mono epoch : ℚ}
    (lapsed : Lapsed digest floor (q.job? id)) :
    Lapsed digest ((Op.initializeLeaseClock domain mono epoch).floorAfter b q floor)
      ((q.initializeLeaseClock b domain mono epoch).job? id) := by
  intro row found active same
  obtain ⟨old, found', active', token, expiry⟩ := job?_initializeLeaseClock found active
  have le := lapsed old found' active' (token.trans same)
  rw [Op.floorAfter]
  split_ifs at expiry ⊢
  · rw [expiry]
    cases floor with
    | bot => exact absurd le (by simp)
    | coe t => exact le_rfl
  · rwa [expiry]

theorem Sound.lapsed_exec (hs : Sound q.opened) (h : op.exec env b q = .ok r)
    (clock : ∀ c ∈ op.call?, floor ≤ ((c.now : ℚ) : WithBot ℚ))
    (foreign : ∀ lease ∈ r.1.granted, lease.jobId = id →
      env.sha.hexdigest lease.leaseToken ≠ digest)
    (lapsed : Lapsed digest floor (q.job? id)) :
    Lapsed digest (op.floorAfter b q floor) (r.2.job? id) := by
  by_cases plain : op.plain
  · have next := (hs.accounted h).lapsed plain foreign lapsed
    cases op with
    | initializeLeaseClock => cases plain
    | _ => exact next
  · cases op with
    | renewLease c seconds reading =>
      exact hs.lapsed_renewLease h (clock c rfl) lapsed
    | initializeLeaseClock domain mono epoch =>
      cases h
      exact lapsed.restarted
    | _ => exact absurd rfl plain

/-- The floor a run leaves behind. -/
def floorAfterRun (env : Env) (b : Backend) : WithBot ℚ → Queue → List Op → WithBot ℚ
  | floor, _, [] => floor
  | floor, q, op :: ops =>
    floorAfterRun env b (op.floorAfter b q floor) ((queueMachine env b).next q op) ops

theorem Op.floorAfter_bot : op.floorAfter b q ⊥ = ⊥ := by
  cases op with
  | initializeLeaseClock domain mono epoch =>
    rw [floorAfter]
    split <;> rfl
  | _ => rfl

theorem floorAfterRun_bot (ops : List Op) : floorAfterRun env b ⊥ q ops = ⊥ := by
  induction ops generalizing q with
  | nil => rfl
  | cons op ops ih => rw [floorAfterRun, Op.floorAfter_bot, ih]

theorem clockFrom_bot (ops : List Op) : ClockFrom env b ⊥ q ops := by
  induction ops generalizing q with
  | nil => trivial
  | cons op ops ih =>
    rw [ClockFrom, Op.floorAfter_bot]
    exact ⟨fun _ _ => bot_le, ih⟩

theorem ClockFrom.snoc {ops : List Op} (h : ClockFrom env b floor q (ops ++ [op])) :
    ClockFrom env b floor q ops ∧
      ∀ c ∈ op.call?, floorAfterRun env b floor q ops ≤ ((c.now : ℚ) : WithBot ℚ) := by
  induction ops generalizing q floor with
  | nil => exact ⟨trivial, h.1⟩
  | cons first ops ih =>
    obtain ⟨here, rest⟩ := h
    obtain ⟨clock, last⟩ := ih rest
    exact ⟨⟨here, clock⟩, last⟩

theorem Op.floorAfter_of_error {e : QueueError} (h : op.exec env b q = .error e) :
    op.floorAfter b q floor = floor := by
  cases op with
  | initializeLeaseClock => cases h
  | _ => rfl

theorem Lapsed.run {ops : List Op} (hs : Sound q.opened) (clock : ClockFrom env b floor q ops)
    (foreign : ∀ lease ∈ grantedIn env b q ops, env.sha.hexdigest lease.leaseToken ≠ digest)
    (lapsed : Lapsed digest floor (q.job? id)) :
    Lapsed digest (floorAfterRun env b floor q ops)
      (((queueMachine env b).run q ops).job? id) := by
  induction ops generalizing q floor with
  | nil => exact lapsed
  | cons op ops ih =>
    obtain ⟨here, rest⟩ := clock
    rw [floorAfterRun, Machine.run_cons]
    cases h : (queueMachine env b).exec op q with
    | ok r =>
      rw [Machine.next_ok h] at rest ⊢
      rw [grantedIn, Machine.commits_cons_ok ops h] at foreign
      have step := hs.lapsed_exec h here (fun lease granted _ =>
        foreign lease (List.mem_append_left _ granted)) lapsed
      exact ih (hs.exec h) rest (fun lease granted =>
        foreign lease (List.mem_append_right _ granted)) step
    | error e =>
      rw [Machine.next_error h] at rest ⊢
      rw [grantedIn, Machine.commits_cons_error ops h] at foreign
      rw [Op.floorAfter_of_error h] at rest ⊢
      exact ih hs rest foreign lapsed

end Lapses

section Tokens

variable {env : Env} {b : Backend} {ops before after : List Op} {op : Op} {r : Result × Queue}
  {lease : DistributedLease}

theorem issued_append : issued env b (before ++ after) =
    issued env b before ++ grantedIn env b (Queue.reached env b before) after := by
  rw [issued, grantedIn, Machine.commits_append, List.flatMap_append]
  rfl

theorem issued_of_ok (h : op.exec env b (Queue.reached env b before) = .ok r) :
    issued env b (before ++ op :: after) =
      issued env b before ++ (r.1.granted ++ grantedIn env b r.2 after) := by
  rw [issued_append, grantedIn,
    show (queueMachine env b).commits (Queue.reached env b before) (op :: after) = _ from
      Machine.commits_cons_ok after h, List.flatMap_cons]
  rfl

theorem TokensDistinct.foreign (h : TokensDistinct env b ops) {first rest : List DistributedLease}
    (split : issued env b ops = first ++ rest) (held : lease ∈ first) {later : DistributedLease}
    (granted : later ∈ rest) :
    env.sha.hexdigest later.leaseToken ≠ env.sha.hexdigest lease.leaseToken := by
  intro same
  have token := h.injective later (split ▸ List.mem_append_right _ granted) lease
    (split ▸ List.mem_append_left _ held) same
  have nodup := h.nodup
  rw [split, List.map_append] at nodup
  exact List.disjoint_of_nodup_append nodup (List.mem_map_of_mem held)
    (token ▸ List.mem_map_of_mem granted)

theorem TokensDistinct.eq (h : TokensDistinct env b ops) {lease' : DistributedLease}
    (held : lease ∈ issued env b ops) (held' : lease' ∈ issued env b ops)
    (same : env.sha.hexdigest lease.leaseToken = env.sha.hexdigest lease'.leaseToken) :
    lease = lease' :=
  List.inj_on_of_nodup_map h.nodup held held' (h.injective lease held lease' held' same)

theorem exists_issued (env : Env) (b : Backend) (ops : List Op) :
    ∀ id row, (Queue.reached env b ops).job? id = some row → row.state.active →
      ∃ lease ∈ issued env b ops, lease.jobId = id ∧ lease.workerId = row.leaseWorkerId ∧
        row.leaseTokenSha256 = env.sha.hexdigest lease.leaseToken := by
  let P (ops : List Op) (q : Queue) : Prop :=
    ∀ id row, q.job? id = some row → row.state.active →
      ∃ lease ∈ issued env b ops, lease.jobId = id ∧ lease.workerId = row.leaseWorkerId ∧
        row.leaseTokenSha256 = env.sha.hexdigest lease.leaseToken
  refine Machine.run_induct (M := queueMachine env b) (s := .empty) (P := P) ?_ ?_ ?_ ops
  · intro id row found
    cases found
  · intro ops op o q' ih h id
    have split : issued env b (ops ++ [op]) = issued env b ops ++ o.granted := by
      rw [issued_of_ok h]
      simp [grantedIn]
    obtain ⟨ls, transaction, account⟩ := (sound_reached env b ops).accounted h
    refine (transaction.row id).invariant (P := fun o => ∀ row, o = some row → row.state.active →
      ∃ lease ∈ issued env b (ops ++ [op]), lease.jobId = id ∧
        lease.workerId = row.leaseWorkerId ∧
        row.leaseTokenSha256 = env.sha.hexdigest lease.leaseToken) ?_ ?_
    · intro _ l _ hl step ih row' found active
      obtain ⟨g, grant, named, owner, token⟩ | ⟨row, rfl, held, owner, token, -⟩ :=
        step.lease_cases found active
      · obtain ⟨lease, granted, rfl⟩ := account.granted_of_label hl grant
        exact ⟨lease, split ▸ List.mem_append_right _ granted, named, owner.symm, token⟩
      · rw [owner, token]
        exact ih row rfl held
    · intro row found active
      obtain ⟨lease, granted, rest⟩ := ih id row found active
      exact ⟨lease, split ▸ List.mem_append_left _ granted, rest⟩
  · intro ops op e ih h id row found active
    have same : issued env b (ops ++ [op]) = issued env b ops := by
      rw [issued, grantedIn, Machine.commits_snoc_error h]
      rfl
    rw [same]
    exact ih id row found active

theorem TokensDistinct.owner (h : TokensDistinct env b (before ++ after))
    (held : lease ∈ issued env b (before ++ after)) {id : String} {row : Job}
    (found : (Queue.reached env b before).job? id = some row) (active : row.state.active)
    (token : row.leaseTokenSha256 = env.sha.hexdigest lease.leaseToken) :
    lease.jobId = id ∧ lease.workerId = row.leaseWorkerId := by
  obtain ⟨lease', granted, job, owner, digest⟩ := exists_issued env b before id row found active
  obtain rfl := h.eq held (by rw [issued_append]; exact List.mem_append_left _ granted)
    (token.symm.trans digest)
  exact ⟨job, owner⟩

theorem Queue.not_heldBy_of_activeCount {q : Queue} {w id : String} {row : Job}
    (none : q.activeCount w = 0) (found : q.job? id = some row) (active : row.state.active) :
    row.leaseWorkerId ≠ w := by
  intro owner
  have zero : q.jobs.rows.countP (Job.heldBy w) = 0 := by
    rw [activeCount] at none
    omega
  have unheld := List.countP_eq_zero.mp zero row (Table.get?_some_iff.mp found).1
  exact unheld (by simp [Job.heldBy, active, owner])

theorem Ends.lapsed (ends : Ends (Queue.reached env b before) lease op r)
    (h : op.exec env b (Queue.reached env b before) = .ok r)
    (distinct : TokensDistinct env b (before ++ op :: after))
    (held : lease ∈ issued env b before) :
    Lapsed (env.sha.hexdigest lease.leaseToken) ⊥ (r.2.job? lease.jobId) := by
  have hs := sound_reached env b before
  have split := @issued_of_ok env b before after op r h
  cases ends with
  | handedOver job =>
    obtain ⟨r', released, hr⟩ := bind_eq_ok.mp h
    cases hr
    obtain ⟨row, live, code, v, transaction⟩ := (handoverLease_sat hs).of_ok released
    rw [← job]
    obtain ⟨⟨-, retryable, target⟩, after⟩ := transaction.job?_worked [_] live.found
    rw [after]
    refine .of_inactive fun _ found => ?_
    cases found
    simp only [Move.apply, Job.release, target, Job.not_active_releaseTarget]
  | failed job =>
    obtain ⟨r', released, hr⟩ := bind_eq_ok.mp h
    cases hr
    obtain ⟨row, live, code, v, transaction⟩ := (failJob_sat hs).of_ok released
    rw [← job]
    obtain ⟨⟨-, retryable, target⟩, after⟩ := transaction.job?_worked [_] live.found
    rw [after]
    refine .of_inactive fun _ found => ?_
    cases found
    simp only [Move.apply, Job.release, target, Job.not_active_releaseTarget]
  | completed job =>
    rename_i fallback c result
    obtain ⟨r', done, hr⟩ := bind_eq_ok.mp h
    cases hr
    have inactive : ∀ m, Completed env m c result.canonical
        (env.sha.hexdigest result.canonical) (Queue.reached env b before) r' →
        ∀ row, r'.job? c.jobId = some row → row.state.active = false := by
      rintro m ⟨row, live, v, transaction⟩ _ found
      rw [(transaction.job?_worked [_] live.found).2] at found
      cases found
      rfl
    rw [← job]
    obtain ⟨rfl, replays⟩ | completed | ⟨-, -, completed, -⟩ := (complete_sat hs).of_ok done
    · refine .of_inactive fun row found => ?_
      rw [Replays, found] at replays
      rw [replays.1]
      rfl
    · exact .of_inactive (inactive _ completed)
    · exact .of_inactive (inactive _ completed)
  | leasedAgain granted job =>
    rename_i again
    have foreign : ∀ later ∈ r.1.granted,
        env.sha.hexdigest later.leaseToken ≠ env.sha.hexdigest lease.leaseToken := fun later hl =>
      distinct.foreign split held (List.mem_append_left _ hl)
    obtain ⟨ls, transaction, account⟩ := hs.accounted h
    obtain ⟨ls₁, l, ls₂, row, expires, utc, rfl, -, -, path⟩ := account.granted transaction granted
    rw [job] at path
    have other : ∀ row, r.2.job? lease.jobId = some row → row.state.active →
        row.leaseTokenSha256 ≠ env.sha.hexdigest lease.leaseToken := by
      refine path.invariant (P := fun o => ∀ row, o = some row → row.state.active →
        row.leaseTokenSha256 ≠ env.sha.hexdigest lease.leaseToken) ?_ ?_
      · intro _ l' _ hl step ih row' found active
        obtain ⟨g, grant, -, -, token⟩ | ⟨row, rfl, running, -, token, -⟩ :=
          step.lease_cases found active
        · obtain ⟨later, hlater, rfl⟩ := account.granted_of_label
            (List.mem_append_right _ (List.mem_cons_of_mem _ hl)) grant
          rw [token]
          exact foreign later hlater
        · rw [token]
          exact ih row rfl running
      · rintro _ ⟨⟩ -
        exact foreign again granted
    intro row found active token
    exact absurd token (other row found active)
  | revoked =>
    obtain ⟨r', revoked, hr⟩ := bind_eq_ok.mp h
    cases hr
    have none := ((@revokeWorker_sat env.sha b _ hs _ _ _).of_ok revoked).2
    intro row found active token
    rename_i utc stamp
    have reach : Queue.reached env b (before ++ [.revokeWorker lease.workerId utc stamp]) = r'.2 :=
      Machine.run_snoc_ok h
    rw [List.append_cons] at distinct
    obtain ⟨-, owner⟩ := distinct.owner (issued_append ▸ List.mem_append_left _
      (issued_append ▸ List.mem_append_left _ held)) (reach ▸ found) active token
    exact absurd owner.symm (Queue.not_heldBy_of_activeCount none found active)
  | recovered _ _ back => exact .of_inactive back

theorem TokensDistinct.refused {floor : WithBot ℚ} {call : Op} {c : LeaseCall}
    (distinct : TokensDistinct env b (before ++ after)) (held : lease ∈ issued env b before)
    (presents : call.call? = some c) (token : c.leaseToken = lease.leaseToken)
    (clock : floor ≤ ((c.now : ℚ) : WithBot ℚ))
    (lapsed : Lapsed (env.sha.hexdigest lease.leaseToken) floor
      ((Queue.reached env b before).job? lease.jobId)) :
    Refused env b (Queue.reached env b before) call := by
  obtain refused | ⟨row, live⟩ := (sound_reached env b before).refused_or_live presents
  · exact refused
  · have digest := live.token
    rw [token] at digest
    obtain ⟨job, -⟩ := distinct.owner (issued_append ▸ List.mem_append_left _ held) live.found
      live.active digest
    rw [job, ← token] at lapsed
    exact absurd lapsed (live.not_lapsed clock)

end Tokens

/-- Lease fencing. After an operation that ends a lease, and after its time has passed, the
calls that present its token are refused; and at any instant the calls that are not refused
present one and the same worker and token for a job. -/
theorem lease_fencing (env : Env) (b : Backend) (ops : List Op)
    (distinct : TokensDistinct env b ops) :
    (∀ before ending after r lease call c, ops = before ++ ending :: after →
      lease ∈ issued env b before → ending.exec env b (Queue.reached env b before) = .ok r →
      Ends (Queue.reached env b before) lease ending r →
      call.call? = some c → c.leaseToken = lease.leaseToken →
      Refused env b (Queue.reached env b ops) call) ∧
    (∀ before after lease call c (floor : ℚ), ops = before ++ after →
      lease ∈ issued env b before →
      Lapsed (env.sha.hexdigest lease.leaseToken) floor
        ((Queue.reached env b before).job? lease.jobId) →
      ClockFrom env b floor (Queue.reached env b before) (after ++ [call]) →
      call.call? = some c → c.leaseToken = lease.leaseToken →
      Refused env b (Queue.reached env b ops) call) ∧
    ∀ lease ∈ issued env b ops, ∀ lease' ∈ issued env b ops, ∀ call call' c c',
      call.call? = some c → call'.call? = some c' → c.jobId = c'.jobId →
      c.leaseToken = lease.leaseToken → c'.leaseToken = lease'.leaseToken →
      ¬Refused env b (Queue.reached env b ops) call →
      ¬Refused env b (Queue.reached env b ops) call' →
      c.workerId = c'.workerId ∧ c.leaseToken = c'.leaseToken := by
  refine ⟨?_, ?_, ?_⟩
  · rintro before ending after r lease call c rfl held h ends presents token
    have lapsed := (ends.lapsed h distinct held).run (((sound_reached env b before).exec h))
      (clockFrom_bot after) fun later granted =>
        distinct.foreign (issued_of_ok h) held (List.mem_append_right _ granted)
    have reach : (queueMachine env b).run r.2 after =
        Queue.reached env b (before ++ ending :: after) := by
      have next : (queueMachine env b).next ((queueMachine env b).run .empty before) ending = r.2 :=
        Machine.next_ok h
      rw [Queue.reached, Machine.run_append, Machine.run_cons, next]
    rw [reach, floorAfterRun_bot] at lapsed
    have all : TokensDistinct env b ((before ++ ending :: after) ++ []) := by
      rwa [List.append_nil]
    exact all.refused (issued_append ▸ List.mem_append_left _ held) presents token bot_le lapsed
  · rintro before after lease call c floor rfl held lapsed clock presents token
    obtain ⟨clock, last⟩ := clock.snoc
    have lapsed := lapsed.run (sound_reached env b before) clock fun later granted =>
      distinct.foreign issued_append held granted
    have reach : (queueMachine env b).run (Queue.reached env b before) after =
        Queue.reached env b (before ++ after) := (Machine.run_append _ _ _).symm
    rw [reach] at lapsed
    have all : TokensDistinct env b ((before ++ after) ++ []) := by rwa [List.append_nil]
    exact all.refused (issued_append ▸ List.mem_append_left _ held) presents token
      (last c presents) lapsed
  · intro lease held lease' held' call call' c c' presents presents' job token token' open' open''
    obtain ⟨row, live⟩ := ((sound_reached env b ops).refused_or_live presents).resolve_left open'
    obtain ⟨row', live'⟩ := ((sound_reached env b ops).refused_or_live presents').resolve_left open''
    obtain rfl : row = row' := Option.some.inj (live.found.symm.trans (job ▸ live'.found))
    refine ⟨live.owner.symm.trans live'.owner, ?_⟩
    rw [token, token']
    apply distinct.injective lease held lease' held'
    rw [← token, ← token']
    exact live.token.symm.trans live'.token

/-- A job and its first lease. -/
def leasedOnce : List Op :=
  [sampleWorker "worker" 1, sampleJob "job" "key" "idempotent", sampleLease "worker" "token-a"]

def handover : Op := .handoverLease (sampleCall "job" "worker" "token-a") ""

theorem lease_fencing_sample :
    Refused sampleEnv .sqlite
      (Queue.reached sampleEnv .sqlite (leasedOnce ++ handover :: [sampleLease "worker" "token-b"]))
      (.startJob false (sampleCall "job" "worker" "token-a")) := by
  have tokens : (issued sampleEnv .sqlite (leasedOnce ++ handover ::
      [sampleLease "worker" "token-b"])).map DistributedLease.leaseToken = ["token-a", "token-b"] := by
    decide +kernel
  have distinct : TokensDistinct sampleEnv .sqlite (leasedOnce ++ handover ::
      [sampleLease "worker" "token-b"]) := by
    refine ⟨tokens ▸ by decide, fun lease hl lease' hl' same => ?_⟩
    have drawn := tokens ▸ List.mem_map_of_mem (f := DistributedLease.leaseToken) hl
    have drawn' := tokens ▸ List.mem_map_of_mem (f := DistributedLease.leaseToken) hl'
    revert same drawn drawn'
    generalize lease.leaseToken = t
    generalize lease'.leaseToken = t'
    simp only [List.mem_cons, List.not_mem_nil, or_false]
    rintro same (rfl | rfl) (rfl | rfl)
    · rfl
    · exact absurd same (by decide +kernel)
    · exact absurd same (by decide +kernel)
    · rfl
  have pairs : ("job", "token-a") ∈ (issued sampleEnv .sqlite leasedOnce).map
      fun lease => (lease.jobId, lease.leaseToken) := by
    decide +kernel
  obtain ⟨lease, held, pair⟩ := List.mem_map.mp pairs
  obtain ⟨job, token⟩ := Prod.mk.inj pair
  have committed : (handover.exec sampleEnv .sqlite
      (Queue.reached sampleEnv .sqlite leasedOnce)).toBool := by
    decide +kernel
  cases h : handover.exec sampleEnv .sqlite (Queue.reached sampleEnv .sqlite leasedOnce) with
  | error e =>
    rw [h] at committed
    cases committed
  | ok r =>
    exact (lease_fencing sampleEnv .sqlite _ distinct).1 leasedOnce handover _ r lease _ _ rfl
      held h (.handedOver job.symm) rfl token.symm

end Arenyxa.Distributed
