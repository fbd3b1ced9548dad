import Arenyxa.Distributed.Idempotency
import Arenyxa.Enterprise.Approvals
import Mathlib.Algebra.BigOperators.Group.List.Basic

/-! `submit_task`. The look up of the key, the authorization, the enqueue and the compensation are
transactions of their own, on two stores, so the submissions interleave between them. -/

namespace Arenyxa.Enterprise

open History
open Distributed (Queue QueueError EnqueueArgs JobIdentity Backend Op)

variable {ν : Type}

/-- The arguments of a submission, whose task has passed its own validation. -/
structure Submission where
  session : Caller
  approvalId : String
  quotaMetric : String
  quotaAmount : Int
  job : EnqueueArgs

inductive Phase
  | looking
  | authorizing
  | enqueueing (reserved : Nat)
  | releasing
  | done (jobId : Option String)
  deriving DecidableEq

/-- The vault and the queue, the submissions that were made, and those that created a job. -/
structure Desk (ν : Type) where
  vault : Vault (Payload ν Extensions)
  queue : Queue
  calls : List (Submission × Phase)
  created : List Submission

namespace Submission

def boundElsewhere : QueueError :=
  QueueError.fail "DISTRIBUTED_IDEMPOTENCY_COLLISION" "Idempotency key is already bound to another operation"

def payloadDiffers : QueueError :=
  QueueError.fail "DISTRIBUTED_IDEMPOTENCY_COLLISION"
    "Idempotency key payload does not match the original job"

/-- What `job_for_idempotency` finds, checked against the submission. -/
def lookUp (env : Distributed.Env) (q : Queue) (s : Submission) : Except QueueError (Option String) := do
  let idem ← Distributed.cleanToken s.job.idempotencyKey "idempotency key" 192
  let existing := q.heldIdentity? idem
  let payload ← Distributed.boundedJson env.sha s.job.payload Distributed.maxJobPayloadBytes "job payload"
  match existing with
  | none => return none
  | some held => do
    Outcome.require (held.kind = s.job.kind ∧ held.resourceId = s.job.resourceId ∧
      held.permission = s.job.permission ∧
      held.sideEffectMode.name = Distributed.casefold (Distributed.strip s.job.sideEffectMode)) boundElsewhere
    Outcome.require (held.payloadSha256 = payload.2) payloadDiffers
    return some held.jobId

def authorization (s : Submission) (now : Instant) (weather : Weather) : Request ν where
  session := s.session
  now := now
  operation := .authorizeOperation s.job.permission s.job.resourceId s.approvalId s.quotaMetric s.quotaAmount
  weather := weather

/-- `release_for_operation` -/
def compensation (s : Submission) (now : Instant) (weather : Weather) : Request ν where
  session := s.session
  now := now
  operation := .releaseQuota s.job.resourceId s.quotaMetric s.quotaAmount
  weather := weather

variable (site : Site ν)

/-- The metric that the authorization charges, and by how much. -/
def charge? (s : Submission) : Option (String × Nat) :=
  match authorizeRequest site.text s.job.permission s.approvalId s.quotaMetric s.quotaAmount with
  | .error _ => none
  | .ok (metric, delta) => if metric ≠ "" && 0 < delta then some (metric, delta) else none

/-- `quota_reserved` in the decision: the usage after the reservation. -/
def reserved (s : Submission) (vault : Vault (Payload ν Extensions)) : Nat :=
  match s.charge? site, vault.live with
  | some (metric, _), some payload => payload.governance.quotaUsage s.job.resourceId metric
  | _, _ => 0

/-- What the submission costs of a metric on a resource. -/
def cost (resourceId metric : String) (s : Submission) : Nat :=
  match s.charge? site with
  | none => 0
  | some (m, delta) => if resourceId = s.job.resourceId ∧ metric = m then delta else 0

end Submission

inductive Move
  | submit (s : Submission)
  | lookUp (i : Nat)
  | authorize (i : Nat) (now : Instant) (weather : Weather)
  | enqueue (i : Nat) (stores : Bool)
  | release (i : Nat) (now : Instant) (weather : Weather)
  | operate (op : Op)

section Steps

variable (site : Site ν) (env : Distributed.Env) (b : Backend)

/-- What the look up of a submission leads to. -/
def Submission.looked (s : Submission) (q : Queue) : Phase :=
  match s.lookUp env q with
  | .error _ => .done none
  | .ok (some jobId) => .done (some jobId)
  | .ok none => .authorizing

/-- Where a submission goes whose enqueue raised. -/
def Submission.raised (s : Submission) (reserved : Nat) : Phase :=
  if s.quotaMetric ≠ "" && 0 < s.quotaAmount && 0 < reserved then .releasing else .done none

def Desk.step (d : Desk ν) : Move → Desk ν
  | .submit s => { d with calls := d.calls ++ [(s, .looking)] }
  | .lookUp i =>
    match d.calls[i]? with
    | some (s, .looking) => { d with calls := d.calls.set i (s, s.looked env d.queue) }
    | _ => d
  | .authorize i now weather =>
    match d.calls[i]? with
    | some (s, .authorizing) =>
      match (s.authorization now weather).run site d.vault with
      | (vault, .error _) => { d with
          vault := vault
          calls := d.calls.set i (s, .done none) }
      | (vault, .ok ()) => { d with
          vault := vault
          calls := d.calls.set i (s, .enqueueing (s.reserved site vault)) }
    | _ => d
  | .enqueue i stores =>
    match d.calls[i]? with
    | some (s, .enqueueing reserved) =>
      match stores, d.queue.enqueue env b s.job with
      | true, .ok (jobId, queue) => { d with
          queue := queue
          calls := d.calls.set i (s, .done (some jobId))
          created := if ((Op.enqueue s.job).inserted? env d.queue).isSome then d.created ++ [s] else d.created }
      | _, _ => { d with calls := d.calls.set i (s, s.raised reserved) }
    | _ => d
  | .release i now weather =>
    match d.calls[i]? with
    | some (s, .releasing) => { d with
        vault := ((s.compensation now weather).run site d.vault).1
        calls := d.calls.set i (s, .done none) }
    | _ => d
  | .operate op =>
    match op.exec env b d.queue with
    | .ok (_, queue) => { d with queue := queue }
    | .error _ => d

/-- A compensation that is attempted succeeds. -/
def Desk.Compensates (d : Desk ν) : Move → Prop
  | .release i now weather => ∀ s, d.calls[i]? = some (s, .releasing) →
    ((s.compensation now weather).run site d.vault).2 = .ok ()
  | _ => True

/-- An authorization settles. When a submission that reserved quota is enqueued, no job that it would
be answered with has its key by then. -/
def Desk.Alone (d : Desk ν) : Move → Prop
  | .authorize i now weather => ∀ s, d.calls[i]? = some (s, .authorizing) →
    site.Settles d.vault (s.authorization now weather)
  | .enqueue i stores => stores = true →
    ∀ s reserved, d.calls[i]? = some (s, .enqueueing reserved) → 0 < reserved →
      ∀ row held, s.job.accept env = .ok row → d.queue.heldIdentity? row.idempotencyKey = some held →
        held.sameRequest row.identity = false
  | _ => True

end Steps

section Usage

variable {site : Site ν} {v : Vault (Payload ν Extensions)} {payload : Payload ν Extensions}
  {s : Submission} {now : Instant} {weather : Weather}

theorem sum_map_set {α : Type} {l : List α} {i : Nat} {x y : α} (f : α → Nat) (found : l[i]? = some y) :
    ((l.set i x).map f).sum + f y = (l.map f).sum + f x := by
  induction l generalizing i with
  | nil => cases found
  | cons z l ih =>
    cases i with
    | zero =>
      cases found
      simp only [List.set_cons_zero, List.map_cons, List.sum_cons]
      omega
    | succ i =>
      have rest := ih found
      simp only [List.set_cons_succ, List.map_cons, List.sum_cons]
      omega

theorem chargeOperation_usage {g charged : Governance} {resource : Resource} {resourceId metric : String}
    {delta : Nat} (h : chargeOperation g resource resourceId metric delta = .ok charged) (r m : String) :
    charged.quotaUsage r m =
      g.quotaUsage r m + if metric ≠ "" ∧ r = resourceId ∧ m = metric then delta else 0 := by
  rw [chargeOperation] at h
  split at h
  next charges =>
    simp only [Bool.and_eq_true, decide_eq_true_eq] at charges
    rw [reserve] at h
    split at h
    next => cases h
    next =>
      cases h
      simp only [Governance.charge]
      split
      next here =>
        obtain ⟨rfl, rfl⟩ := here
        simp [charges.1]
      next other => rw [if_neg fun h => other h.2, Nat.add_zero]
  next free =>
    cases h
    simp only [Bool.and_eq_true, decide_eq_true_eq, not_and, Nat.not_lt, Nat.le_zero] at free
    split
    next here => rw [free here.1]; rfl
    next => rfl

theorem authorizeOperation_charged {session : Caller} {permission resourceId approvalId metric : String}
    {delta : Nat}
    (passed : (authorizeOperation session now permission resourceId approvalId metric delta payload).2 =
      .ok ()) (r m : String) :
    (authorizeOperation session now permission resourceId approvalId metric delta
        payload).1.governance.quotaUsage r m =
      payload.governance.quotaUsage r m +
        if metric ≠ "" ∧ r = resourceId ∧ m = metric then delta else 0 := by
  rcases authorizeOperation_cases payload session now permission resourceId approvalId metric delta with
    ⟨refusal, same⟩ | ⟨item, -, -, same⟩ |
    ⟨item, charged, -, -, -, -, -, -, -, ⟨resource, charges⟩, same⟩ | ⟨charged, -, ⟨resource, charges⟩, same⟩
  · rw [same] at passed
    cases passed
  · rw [same] at passed
    cases passed
  · rw [same]
    exact chargeOperation_usage charges r m
  · rw [same]
    exact chargeOperation_usage charges r m

theorem cost_eq {metric : String} {delta : Nat}
    (prepared : authorizeRequest site.text s.job.permission s.approvalId s.quotaMetric s.quotaAmount =
      .ok (metric, delta)) (r m : String) :
    s.cost site r m = if metric ≠ "" ∧ r = s.job.resourceId ∧ m = metric then delta else 0 := by
  rw [Submission.cost, Submission.charge?, prepared]
  by_cases named : metric = ""
  · simp [named]
  · by_cases positive : 0 < delta
    · simp [named, positive]
    · have zero : delta = 0 := by omega
      simp [named, zero]

theorem charge?_some {metric : String} {delta : Nat} (h : s.charge? site = some (metric, delta)) :
    cleanId site.text s.quotaMetric = .ok metric ∧ delta = s.quotaAmount.toNat ∧ 0 < delta ∧
      s.quotaMetric ≠ "" := by
  rw [Submission.charge?] at h
  split at h
  next => cases h
  next m d prepared =>
    split at h
    next charges =>
      cases h
      simp only [Bool.and_eq_true, decide_eq_true_eq] at charges
      rw [authorizeRequest] at prepared
      split at prepared
      next => cases prepared
      next m' cleaned =>
        split at prepared
        next => cases prepared
        next =>
          split at prepared
          next => cases prepared
          next =>
            cases prepared
            split at cleaned
            next =>
              cases cleaned
              exact absurd rfl charges.1
            next named => exact ⟨cleaned, rfl, charges.2, named⟩
    next => cases h

theorem cost_of_free (free : s.charge? site = none) (r m : String) : s.cost site r m = 0 := by
  rw [Submission.cost, free]

theorem charge?_of_unnamed (unnamed : s.quotaMetric = "") : s.charge? site = none := by
  cases charged : s.charge? site with
  | none => rfl
  | some charge =>
    obtain ⟨metric, delta⟩ := charge
    exact absurd unnamed (charge?_some charged).2.2.2

theorem authorization_usage (passed : ((s.authorization now weather).run site v).2 = .ok ()) :
    ∃ payload payload', v.live = some payload ∧
      ((s.authorization now weather).run site v).1.live = some payload' ∧
      ∀ r m, payload'.governance.quotaUsage r m = payload.governance.quotaUsage r m + s.cost site r m := by
  cases readOnly : (s.authorization (ν := ν) now weather).operation.readOnly with
  | true =>
    have unchanged : ((s.authorization now weather).run site v).1 = v := by
      rw [Request.run, if_pos readOnly]
    have unnamed : s.quotaMetric = "" := by
      simp only [Submission.authorization, Operation.readOnly, Bool.and_eq_true, decide_eq_true_eq] at readOnly
      exact readOnly.2
    cases live : v.live with
    | none =>
      rw [run_sealed live] at passed
      cases passed
    | some payload =>
      refine ⟨payload, payload, rfl, (congrArg Vault.live unchanged).trans live, fun r m => ?_⟩
      rw [cost_of_free (charge?_of_unnamed unnamed), Nat.add_zero]
  | false =>
    obtain ⟨payload, live, edited, live'⟩ := run_passed readOnly passed
    obtain ⟨⟨metric, delta⟩, prepared, edited, written⟩ := after_passed edited
    refine ⟨payload, _, live, live', fun r m => ?_⟩
    rw [cost_eq prepared]
    have same : ((s.authorization now weather).edit site payload).1.governance.quotaUsage r m = _ :=
      congrArg (fun payload => payload.governance.quotaUsage r m) written
    exact same.trans (authorizeOperation_charged edited r m)

theorem compensation_usage (charges : (s.charge? site).isSome = true)
    (passed : ((s.compensation now weather).run site v).2 = .ok ()) :
    ∃ payload payload', v.live = some payload ∧
      ((s.compensation now weather).run site v).1.live = some payload' ∧
      ∀ r m, payload'.governance.quotaUsage r m = payload.governance.quotaUsage r m - s.cost site r m := by
  obtain ⟨payload, live, edited, live'⟩ := run_passed rfl passed
  obtain ⟨metric, cleaned, edited, written⟩ := after_passed edited
  refine ⟨payload, _, live, live', fun r m => ?_⟩
  obtain ⟨⟨metric', delta⟩, charged⟩ := Option.isSome_iff_exists.mp charges
  obtain ⟨cleaned', rfl, -, -⟩ := charge?_some charged
  cases cleaned.symm.trans cleaned'
  rw [Submission.cost, charged]
  have same : ((s.compensation now weather).edit site payload).1.governance.quotaUsage r m = _ :=
    congrArg (fun payload => payload.governance.quotaUsage r m) written
  refine same.trans ?_
  obtain ⟨_, -, -, left⟩ := guarded_passed edited
  refine (congrArg (fun payload => payload.governance.quotaUsage r m) left).trans ?_
  change (if r = s.job.resourceId ∧ m = metric then payload.governance.quotaUsage s.job.resourceId metric -
    s.quotaAmount.toNat else payload.governance.quotaUsage r m) = _
  split
  next here =>
    obtain ⟨rfl, rfl⟩ := here
    simp
  next other => simp [other]

end Usage

section Balance

variable (site : Site ν)

/-- What a submission has charged that no job stands for yet. -/
def pending (r m : String) (call : Submission × Phase) : Nat :=
  match call.2 with
  | .enqueueing _ => call.1.cost site r m
  | .releasing => call.1.cost site r m
  | _ => 0

/-- A submission remembers whether it has charged. -/
def Remembers (call : Submission × Phase) : Prop :=
  match call.2 with
  | .enqueueing reserved => 0 < reserved ↔ (call.1.charge? site).isSome = true
  | .releasing => (call.1.charge? site).isSome = true
  | _ => True

/-- What the jobs that were created cost. -/
def Desk.billed (d : Desk ν) (r m : String) : Nat := (d.created.map (Submission.cost site r m)).sum

structure Desk.Balanced (usage : String → String → Nat) (d : Desk ν) : Prop where
  balance : ∀ payload, d.vault.live = some payload → ∀ r m,
    payload.governance.quotaUsage r m =
      usage r m + d.billed site r m + (d.calls.map (pending site r m)).sum
  remembers : ∀ call ∈ d.calls, Remembers site call

variable {site} {env : Distributed.Env} {b : Backend} {usage : String → String → Nat} {d : Desk ν}
  {s : Submission} {i : Nat} {phase phase' : Phase} {r m : String}

theorem billed_snoc : (Desk.billed site { d with created := d.created ++ [s] } r m) =
    d.billed site r m + s.cost site r m := by
  simp [Desk.billed]

theorem remembers_set (h : ∀ call ∈ d.calls, Remembers site call) (next : Remembers site (s, phase)) :
    ∀ call ∈ d.calls.set i (s, phase), Remembers site call := by
  intro call listed
  rcases List.mem_or_eq_of_mem_set listed with before | rfl
  · exact h call before
  · exact next

theorem Desk.Balanced.advance (h : d.Balanced site usage) (found : d.calls[i]? = some (s, phase))
    (next : Remembers site (s, phase')) (same : ∀ r m, pending site r m (s, phase') = pending site r m (s, phase)) :
    Desk.Balanced site usage { d with calls := d.calls.set i (s, phase') } where
  balance payload live r m := by
    have sums := sum_map_set (x := (s, phase')) (pending site r m) found
    have before := h.balance payload live r m
    rw [same r m] at sums
    change _ = usage r m + d.billed site r m + ((d.calls.set i (s, phase')).map (pending site r m)).sum
    omega
  remembers := remembers_set h.remembers next

theorem enqueue_answers {a : EnqueueArgs} {q : Queue} {answer : String × Queue}
    (h : q.enqueue env b a = .ok answer) :
    ((Op.enqueue a).inserted? env q).isSome = true ∨
      ∃ row held, a.accept env = .ok row ∧ q.heldIdentity? row.idempotencyKey = some held ∧
        held.sameRequest row.identity = true := by
  rw [Queue.enqueue] at h
  cases accepted : a.accept env with
  | error e =>
    rw [accepted] at h
    cases h
  | ok row =>
    cases held : q.heldIdentity? row.idempotencyKey with
    | none => exact .inl (by simp [Op.inserted?, accepted, held])
    | some held' =>
      refine .inr ⟨row, held', rfl, held, ?_⟩
      rw [accepted] at h
      simp only [bind, Except.bind, held] at h
      cases same : held'.sameRequest row.identity with
      | true => rfl
      | false => simp [same, Outcome.require] at h

theorem pending_raised (site : Site ν) {reserved : Nat} (remembers : 0 < reserved ↔ (s.charge? site).isSome = true) :
    Remembers site (s, s.raised reserved) ∧
      ∀ r m, pending site r m (s, s.raised reserved) = s.cost site r m := by
  rw [Submission.raised]
  split
  next releases =>
    simp only [Bool.and_eq_true, decide_eq_true_eq] at releases
    exact ⟨remembers.mp releases.2, fun _ _ => rfl⟩
  next kept =>
    refine ⟨trivial, fun r m => (cost_of_free ?_ r m).symm⟩
    cases charged : s.charge? site with
    | none => rfl
    | some charge =>
      obtain ⟨metric, delta⟩ := charge
      obtain ⟨-, amount, positive, named⟩ := charge?_some charged
      have reserved := remembers.mpr (Option.isSome_of_eq_some charged)
      refine absurd ?_ kept
      simp only [Bool.and_eq_true, decide_eq_true_eq]
      exact ⟨⟨named, by omega⟩, reserved⟩

theorem remembers_reserved {vault : Vault (Payload ν Extensions)} {payload : Payload ν Extensions}
    (live : vault.live = some payload)
    (charged : ∀ r m, s.cost site r m ≤ payload.governance.quotaUsage r m) :
    0 < s.reserved site vault ↔ (s.charge? site).isSome = true := by
  rw [Submission.reserved, live]
  cases charge : s.charge? site with
  | none => simp
  | some charge' =>
    obtain ⟨metric, delta⟩ := charge'
    have positive := (charge?_some charge).2.2.1
    have least := charged s.job.resourceId metric
    rw [Submission.cost, charge] at least
    simp only [and_self, if_true] at least
    simp only [Option.isSome_some, iff_true]
    omega

theorem step_balanced {move : Move} (h : d.Balanced site usage) (compensates : d.Compensates site move)
    (alone : d.Alone site env move) : (d.step site env b move).Balanced site usage := by
  cases move with
  | submit s =>
    refine ⟨fun payload live r m => ?_, fun call listed => ?_⟩
    · have before := h.balance payload live r m
      change _ = usage r m + d.billed site r m + ((d.calls ++ [(s, Phase.looking)]).map
        (pending site r m)).sum
      rw [List.map_append, List.sum_append, before]
      rfl
    · rcases List.mem_append.mp listed with before | new
      · exact h.remembers call before
      · rw [List.mem_singleton.mp new]
        trivial
  | lookUp i =>
    rw [Desk.step]
    split
    next s found =>
      have looked : s.looked env d.queue = .authorizing ∨ ∃ jobId, s.looked env d.queue = .done jobId := by
        rw [Submission.looked]
        split
        · exact .inr ⟨_, rfl⟩
        · exact .inr ⟨_, rfl⟩
        · exact .inl rfl
      rcases looked with same | ⟨jobId, same⟩
      · rw [same]
        exact h.advance found trivial fun _ _ => rfl
      · rw [same]
        exact h.advance found trivial fun _ _ => rfl
    next => exact h
  | authorize i now weather =>
    rw [Desk.step]
    split
    next s found =>
      split
      next vault refusal ran =>
        have spared := run_spared rfl (alone s found) (congrArg Prod.snd ran)
        have moved : Desk.Balanced site usage { d with calls := d.calls.set i (s, .done none) } :=
          h.advance found trivial fun _ _ => rfl
        refine ⟨fun payload live r m => ?_, moved.remembers⟩
        have quota := spared.quota
        rw [ran, show vault.live = some payload from live] at quota
        cases before : d.vault.live with
        | none =>
          rw [before] at quota
          cases quota
        | some payload' =>
          rw [before] at quota
          have same : payload.governance.quotaUsage = payload'.governance.quotaUsage := Option.some.inj quota
          rw [same]
          exact moved.balance payload' before r m
      next vault ran =>
        obtain ⟨payload', payload, before, after, charged⟩ := authorization_usage (congrArg Prod.snd ran)
        rw [ran] at after
        refine ⟨fun other live r m => ?_, remembers_set h.remembers ?_⟩
        · cases (show vault.live = some other from live).symm.trans after
          have sums := sum_map_set (x := (s, Phase.enqueueing (s.reserved site vault))) (pending site r m) found
          have balance := h.balance payload' before r m
          rw [charged r m, balance]
          change _ = usage r m + d.billed site r m + ((d.calls.set i _).map (pending site r m)).sum
          simp only [pending] at sums ⊢
          omega
        · exact remembers_reserved after fun r m => by
            rw [charged r m]
            omega
    next => exact h
  | enqueue i stores =>
    rw [Desk.step]
    split
    next s reserved found =>
      have remembers : 0 < reserved ↔ (s.charge? site).isSome = true :=
        h.remembers _ (List.mem_of_getElem? found)
      split
      next jobId queue enqueued =>
        cases inserted : ((Op.enqueue s.job).inserted? env d.queue).isSome with
        | true =>
          refine ⟨fun payload live r m => ?_, remembers_set h.remembers trivial⟩
          have sums := sum_map_set (x := (s, Phase.done (some jobId))) (pending site r m) found
          have balance := h.balance payload live r m
          change _ = usage r m + Desk.billed site { d with created := d.created ++ [s] } r m +
            ((d.calls.set i (s, Phase.done (some jobId))).map (pending site r m)).sum
          rw [balance, billed_snoc]
          simp only [pending] at sums ⊢
          omega
        | false =>
          have free : s.charge? site = none := Option.not_isSome_iff_eq_none.mp fun charges => by
            rcases enqueue_answers enqueued with new | ⟨row, held, accepted, known, same⟩
            · cases inserted.symm.trans new
            · cases (alone rfl s reserved found (remembers.mpr charges) row held accepted known).symm.trans same
          have same : Desk.Balanced site usage { d with calls := d.calls.set i (s, .done (some jobId)) } :=
            h.advance found trivial fun r m => (cost_of_free free r m).symm
          exact ⟨same.balance, same.remembers⟩
      next =>
        obtain ⟨next, same⟩ := pending_raised site remembers
        exact h.advance found next same
    next => exact h
  | release i now weather =>
    rw [Desk.step]
    split
    next s found =>
      have charges : (s.charge? site).isSome = true := h.remembers _ (List.mem_of_getElem? found)
      obtain ⟨payload', payload, before, after, released⟩ := compensation_usage charges (compensates s found)
      refine ⟨fun other live r m => ?_, remembers_set h.remembers trivial⟩
      cases (show ((s.compensation now weather).run site d.vault).1.live = some other from live).symm.trans after
      have sums := sum_map_set (x := (s, Phase.done none)) (pending site r m) found
      have balance := h.balance payload' before r m
      rw [released r m, balance]
      change _ = usage r m + d.billed site r m + ((d.calls.set i (s, Phase.done none)).map (pending site r m)).sum
      simp only [pending] at sums ⊢
      omega
    next => exact h
  | operate op =>
    rw [Desk.step]
    split
    next => exact ⟨h.balance, h.remembers⟩
    next => exact h

end Balance

section Runs

variable {site : Site ν} {env : Distributed.Env} {b : Backend}

/-- No submission is on its way. -/
def Desk.Settled (d : Desk ν) : Prop := ∀ call ∈ d.calls, ∃ jobId, call.2 = .done jobId

end Runs

section Duplicates

/-- Reading the sales is counted, too. -/
def readSales (jobId : String) : Submission where
  session := rootSession
  approvalId := ""
  quotaMetric := "exports"
  quotaAmount := 1
  job :=
    { kind := "task.run", payload := ⟨"{}"⟩, resourceId := "dataset:sales", permission := "dataset.read",
      idempotencyKey := "key", root := ⟨"1", "1", false⟩, jobId := jobId, utc := "2030-01-01" }

def salesDesk : Desk String := ⟨exporting, .empty, [], []⟩

theorem queue_authorize {site : Site ν} {env : Distributed.Env} {b : Backend} {d : Desk ν} {i : Nat}
    {now : Instant} {weather : Weather} :
    (d.step site env b (.authorize i now weather)).queue = d.queue := by
  rw [Desk.step]
  split
  next => split <;> rfl
  next => rfl

/-- Two submissions of one key look up before either enqueues. -/
def duplicates : List Move := [.submit (readSales "job-1"), .submit (readSales "job-2"), .lookUp 0, .lookUp 1,
  .authorize 0 1 fairWeather, .authorize 1 1 fairWeather, .enqueue 0 true, .enqueue 1 true]

def duplicateDesk : Desk String := run (Desk.step plainSite Distributed.sampleEnv .sqlite) salesDesk duplicates

end Duplicates

end Arenyxa.Enterprise
