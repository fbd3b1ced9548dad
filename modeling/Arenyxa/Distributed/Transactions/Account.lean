import Arenyxa.Distributed.Transactions.Admission
import Arenyxa.Distributed.Transactions.Grant
import Arenyxa.Distributed.Transactions.Recovery

/-! Every operation of the queue as a transaction: what statements it is made of and how they
answer to what it returns. -/

namespace Arenyxa.Distributed

open Outcome QueueError

/-- A lease as its holder knows it. -/
structure Grant where
  jobId : String
  workerId : String
  token : String

def DistributedLease.grant (l : DistributedLease) : Grant := ⟨l.jobId, l.workerId, l.leaseToken⟩

namespace Label

def grant? : Label → Option Grant
  | .moved id (.lease worker token _ _) _ => some ⟨id, worker, token⟩
  | _ => none

/-- The entry a step makes in the journal, with the job it makes it for. -/
def entry? : Label → Option (String × Entry)
  | .entered row e => some (row.jobId, e)
  | .moved id _ (some e) => some (id, e)
  | _ => none

def logs (id : String) (l : Label) : Bool := l.entry?.any (·.1 = id)

def Leases : Label → Prop
  | .moved _ (.lease _ _ _ _) _ | .reckoned _ => True
  | _ => False

/-- The statements that give the lease of one job back. -/
def Surrenders (c : LeaseCall) (l : Label) : Prop :=
  l = .reckoned c.workerId ∨ ∃ target code e, l = .moved c.jobId (.release target code c.utc) (some e)

end Label

/-- The statements an operation may make. -/
def Op.Emits (env : Env) (b : Backend) (q : Queue) : Op → Label → Prop
  | .enqueue a, l => l.Prunes ∨
    ∃ row e, l = .entered row e ∧ row.jobId = a.jobId ∧ row.idempotencyKey = strip a.idempotencyKey
  | .registerWorker a, l => ∃ new, a.Admitted new ∧ (l = .enrolled new ∨ l = .redeclared new)
  | .heartbeat worker _ _ _, l | .setWorkerDrain worker _ _, l => l = .reckoned worker
  | .leaseNext _ _ _ _, l | .leaseMany _ _ _ _, l => l.Leases
  | .startJob _ c, l => ∃ e, l = .moved c.jobId (.start c.utc) (some e)
  | .renewLease c _ _, l => l = .reckoned c.workerId ∨
    ∃ expires, l = .moved c.jobId (.renew expires c.utc) none
  | .checkpoint c _, l => ∃ json n, l = .moved c.jobId (.saveCheckpoint json n c.utc) none
  | .markSideEffectStarted c, l => ∃ e, l = .moved c.jobId (.startSideEffect c.utc) (some e)
  | .handoverLease c _, l | .fail c _ _, l => l.Surrenders c
  | .complete _ c result, l => l = .reckoned c.workerId ∨
    ∃ e, l = .moved c.jobId (.complete result.canonical (env.sha.hexdigest result.canonical)
      c.workerId (env.sha.hexdigest c.leaseToken) c.utc) (some e)
  | .retryReviewRequired id utc, l => ∃ e, l = .moved id (.approveRetry utc) (some e)
  | .revokeWorker _ _ _, l | .recoverStaleWorkerLeases _, l | .recoverExpiredLeases _, l
  | .reconcileDurableState _, l => l.Recovers b
  | .retainTerminalJobs _ _, l => l.Prunes
  | .initializeLeaseClock domain mono _, l => l = .flagged ∨
    (l = .distrusted ∧ b = .sqlite ∧ q.anchored domain mono = false)
  | .backfillTerminalFences, l => l.Prunes ∨ l = .flagged

/-- The job an operation draws a name for. -/
def Op.created? : Op → Option String
  | .enqueue a => some a.jobId
  | _ => none

/-- The operation is an operator's retry of the job. -/
def Op.retries (id : String) : Op → Bool
  | .retryReviewRequired id' _ => id' = id
  | _ => false

/-- The job whose single statement on PostgreSQL finds what it looks for. -/
def Op.fastJob? (env : Env) (b : Backend) (q : Queue) : Op → Option String
  | .leaseNext false worker seconds d =>
    if b = .postgresql then
      (q.leaseNextFast env worker (leaseDuration seconds) d).map (·.1.jobId)
    else none
  | .startJob false c =>
    if b = .postgresql ∧ (q.startJobFast env c).isSome then some c.jobId else none
  | .complete false c result =>
    if b = .postgresql ∧ (q.completeFast env c result.canonical
        (env.sha.hexdigest result.canonical)).isSome then some c.jobId
    else none
  | _ => none

/-- The statements `ls` of an operation that returned `r`. -/
structure Account (env : Env) (b : Backend) (q : Queue) (op : Op) (ls : List Label) (r : Result) :
    Prop where
  emits : ∀ l ∈ ls, op.Emits env b q l
  recorded : ∀ l ∈ ls, ∀ p ∈ l.entry?, p.2.recording = .kept b ∨ op.fastJob? env b q = some p.1
  grants : ls.filterMap Label.grant? = r.granted.map DistributedLease.grant
  once : ∀ id, ls.countP (Label.logs id) ≤ 1

/-- What a committed operation amounts to. -/
def Accounted (env : Env) (b : Backend) (q : Queue) (op : Op) (r : Result × Queue) : Prop :=
  ∃ ls, Transaction env.sha q ls r.2 ∧ Account env b q op ls r.1

section Accounts

variable {env : Env} {b : Backend} {q q' : Queue} {op : Op} {ls : List Label} {r : Result}

theorem Transaction.row {sha : Sha256} (h : Transaction sha q ls q') (id : String) :
    Path (fun o l o' => RowStep sha id l o o') (q.job? id) ls (q'.job? id) := by
  obtain ⟨o, path, -⟩ := h
  exact path.map (fun L => L.queue.job? id) _ fun _ _ _ step => step.row id

theorem Label.jobId?_of_logs {id : String} {l : Label} (h : l.logs id) : l.jobId? = some id := by
  cases l with
  | entered row e => simpa [logs, entry?, jobId?] using h
  | moved id' mv entry => cases entry <;> simp_all [logs, entry?, jobId?]
  | distrusted | enrolled | redeclared | reckoned | fenced | erased | dropped | flagged =>
    simp [logs, entry?] at h

theorem Label.logs_of_jobId?_ne {id : String} {l : Label} (h : l.jobId? ≠ some id) :
    l.logs id = false := by
  cases hl : l.logs id with
  | false => rfl
  | true => exact absurd (Label.jobId?_of_logs hl) h

theorem RowStep.of_recovers {sha : Sha256} {id : String} {l : Label} {o o' : Option Job}
    (h : RowStep sha id l o o') (recovers : l.Recovers b) :
    (l.logs id = false ∧ o' = o) ∨ ∃ row retryable code utc, o = some row ∧ row.state.active ∧
      o' = some (row.release (row.releaseTarget retryable) code utc) := by
  cases h with
  | other untouched => exact .inl ⟨Label.logs_of_jobId?_ne untouched, rfl⟩
  | moved named permitted =>
    rename_i row mv entry _ _
    cases mv with
    | release target code utc =>
      obtain ⟨active, retryable, rfl⟩ := permitted
      exact .inr ⟨row, retryable, code, utc, rfl, active, rfl⟩
    | lease | start | renew | saveCheckpoint | startSideEffect | complete | approveRetry =>
      cases recovers
  | entered | distrusted | erased => cases recovers

theorem Transaction.once_of_recovers {sha : Sha256} (h : Transaction sha q ls q')
    (recovers : ∀ l ∈ ls, l.Recovers b) (id : String) : ls.countP (Label.logs id) ≤ 1 := by
  refine ((h.row id).countP_le_one (fun o => ∃ row, o = some row ∧ row.state.active) ?_ ?_).1
  · intro o l o' hl step logs
    obtain ⟨quiet, -⟩ | ⟨row, retryable, code, utc, rfl, active, rfl⟩ :=
      step.of_recovers (recovers l hl)
    · rw [logs] at quiet
      cases quiet
    · exact ⟨⟨row, rfl, active⟩, by simp [Job.release, Job.not_active_releaseTarget]⟩
  · intro o l o' hl step idle
    obtain ⟨-, rfl⟩ | ⟨row, retryable, code, utc, rfl, active, rfl⟩ :=
      step.of_recovers (recovers l hl)
    · exact idle
    · exact absurd ⟨row, rfl, active⟩ idle

theorem RowStep.of_leases {sha : Sha256} {id : String} {l : Label} {o o' : Option Job}
    (h : RowStep sha id l o o') (leases : l.Leases) :
    (l.logs id = false ∧ o' = o) ∨ ∃ row worker token expires utc, o = some row ∧
      row.state = .queued ∧ o' = some (row.lease worker (sha.hexdigest token) expires utc) := by
  cases h with
  | other untouched => exact .inl ⟨Label.logs_of_jobId?_ne untouched, rfl⟩
  | moved named permitted =>
    rename_i row mv entry _ _
    cases mv with
    | lease worker token expires utc =>
      exact .inr ⟨row, worker, token, expires, utc, rfl, permitted.1, rfl⟩
    | release | start | renew | saveCheckpoint | startSideEffect | complete | approveRetry =>
      cases leases
  | entered | distrusted | erased => cases leases

theorem Transaction.once_of_leases {sha : Sha256} (h : Transaction sha q ls q')
    (leases : ∀ l ∈ ls, l.Leases) (id : String) : ls.countP (Label.logs id) ≤ 1 := by
  refine ((h.row id).countP_le_one (fun o => ∃ row, o = some row ∧ row.state = .queued) ?_ ?_).1
  · intro o l o' hl step logs
    obtain ⟨quiet, -⟩ | ⟨row, worker, token, expires, utc, rfl, queued, rfl⟩ :=
      step.of_leases (leases l hl)
    · rw [logs] at quiet
      cases quiet
    · exact ⟨⟨row, rfl, queued⟩, by simp [Job.lease]⟩
  · intro o l o' hl step idle
    obtain ⟨-, rfl⟩ | ⟨row, worker, token, expires, utc, rfl, queued, rfl⟩ :=
      step.of_leases (leases l hl)
    · exact idle
    · exact absurd ⟨row, rfl, queued⟩ idle

theorem countP_logs_eq_zero (quiet : ∀ l ∈ ls, l.entry? = none) (id : String) :
    ls.countP (Label.logs id) = 0 :=
  List.countP_eq_zero.mpr fun l hl => by simp [Label.logs, quiet l hl]

theorem Account.nil (ungranted : r.granted = []) : Account env b q op [] r where
  emits := by simp
  recorded := by simp
  grants := by simp [ungranted]
  once := by simp

theorem Account.worked {id : String} {mv : Move} {entry : Option Entry} (ws : List String)
    (moved : op.Emits env b q (.moved id mv entry))
    (reckoned : ∀ w ∈ ws, op.Emits env b q (.reckoned w))
    (recorded : ∀ e ∈ entry, e.recording = .kept b ∨ op.fastJob? env b q = some id)
    (plain : (Label.moved id mv entry).grant? = none) (ungranted : r.granted = []) :
    Account env b q op (.moved id mv entry :: ws.map .reckoned) r where
  emits := by
    intro l hl
    obtain rfl | hl := List.mem_cons.mp hl
    · exact moved
    · obtain ⟨w, hw, rfl⟩ := List.mem_map.mp hl
      exact reckoned w hw
  recorded := by
    intro l hl p hp
    obtain rfl | hl := List.mem_cons.mp hl
    · cases entry with
      | none => cases hp
      | some e =>
        cases hp
        exact recorded e rfl
    · obtain ⟨w, -, rfl⟩ := List.mem_map.mp hl
      cases hp
  grants := by
    rw [List.filterMap_cons_none plain, ungranted]
    simp [Label.grant?]
  once := by
    intro id'
    have rest : (ws.map Label.reckoned).countP (Label.logs id') = 0 :=
      countP_logs_eq_zero (by simp [Label.entry?]) id'
    have head := List.countP_cons (p := Label.logs id') (a := .moved id mv entry)
      (l := ws.map .reckoned)
    split at head <;> omega

theorem Account.quiet (emits : ∀ l ∈ ls, op.Emits env b q l)
    (silent : ∀ l ∈ ls, l.entry? = none) (plain : ∀ l ∈ ls, l.grant? = none)
    (ungranted : r.granted = []) : Account env b q op ls r where
  emits := emits
  recorded := fun l hl p hp => by
    rw [silent l hl] at hp
    cases hp
  grants := by
    rw [ungranted, List.filterMap_eq_nil_iff.mpr plain]
    rfl
  once := fun id => by simp [countP_logs_eq_zero silent id]

theorem Account.recovers {sha : Sha256} (transaction : Transaction sha q ls q')
    (recovers : ∀ l ∈ ls, l.Recovers b) (emits : ∀ l, l.Recovers b → op.Emits env b q l)
    (ungranted : r.granted = []) : Account env b q op ls r where
  emits := fun l hl => emits l (recovers l hl)
  recorded := fun l hl p hp => by
    have h := recovers l hl
    cases l with
    | moved id mv entry =>
      cases mv <;> cases entry <;> first | cases h | (cases hp; exact .inl h)
    | reckoned => cases hp
    | entered | distrusted | enrolled | redeclared | fenced | erased | dropped | flagged => cases h
  grants := by
    rw [ungranted, List.filterMap_eq_nil_iff.mpr]
    · rfl
    · intro l hl
      have h := recovers l hl
      cases l with
      | moved id mv entry => cases mv <;> first | rfl | cases h
      | reckoned => rfl
      | entered | distrusted | enrolled | redeclared | fenced | erased | dropped | flagged =>
        cases h
  once := transaction.once_of_recovers recovers

theorem Granted.leases {m : Recording} {leases : List DistributedLease} (h : Granted m leases ls) :
    ls.filterMap Label.grant? = leases.map DistributedLease.grant ∧ ∀ l ∈ ls, l.Leases ∧
      ∀ p ∈ l.entry?, p.2.recording = m ∧ ∃ lease ∈ leases, p.1 = lease.jobId := by
  induction h with
  | nil => simp
  | snoc _ ih =>
    obtain ⟨grants, shape⟩ := ih
    refine ⟨by simp [grants, Label.grant?, DistributedLease.grant], fun l hl => ?_⟩
    obtain hl | hl := List.mem_append.mp hl
    · obtain ⟨leases, entry⟩ := shape l hl
      refine ⟨leases, fun p hp => ?_⟩
      obtain ⟨recording, lease, mem, same⟩ := entry p hp
      exact ⟨recording, lease, List.mem_append_left _ mem, same⟩
    · obtain rfl | hl := List.mem_cons.mp hl
      · refine ⟨trivial, fun p hp => ?_⟩
        cases hp
        exact ⟨rfl, _, List.mem_append_right _ List.mem_cons_self, rfl⟩
      · rw [List.mem_singleton.mp hl]
        exact ⟨trivial, by simp [Label.entry?]⟩

theorem Account.leases {m : Recording} {leases : List DistributedLease}
    (transaction : Transaction env.sha q ls q') (granted : Granted m leases ls)
    (emits : ∀ l, l.Leases → op.Emits env b q l) (returned : r.granted = leases)
    (recorded : m = .kept b ∨ ∀ lease ∈ leases, op.fastJob? env b q = some lease.jobId) :
    Account env b q op ls r where
  emits := fun l hl => emits l (granted.leases.2 l hl).1
  recorded := fun l hl p hp => by
    obtain ⟨recording, lease, mem, same⟩ := (granted.leases.2 l hl).2 p hp
    obtain kept | fast := recorded
    · exact .inl (recording.trans kept)
    · exact .inr (same ▸ fast lease mem)
  grants := by rw [granted.leases.1, returned]
  once := transaction.once_of_leases fun l hl => (granted.leases.2 l hl).1

end Accounts

section Operations

variable {env : Env} {b : Backend} {q q' : Queue}

theorem Grants.accounted {m : Recording} {leases : List DistributedLease} {op : Op} {r : Result}
    (h : Grants env.sha q m leases q') (emits : ∀ l, l.Leases → op.Emits env b q l)
    (returned : r.granted = leases)
    (recorded : m = .kept b ∨ ∀ lease ∈ leases, op.fastJob? env b q = some lease.jobId) :
    Accounted env b q op (r, q') := by
  obtain ⟨ls, path, granted⟩ := h
  have transaction : Transaction env.sha q ls q' := ⟨_, path, fun _ _ => rfl⟩
  exact ⟨ls, transaction, .leases transaction granted emits returned recorded⟩

theorem Recovery.accounted {op : Op} {r : Result} (h : Recovery env.sha b q q')
    (emits : ∀ l, l.Recovers b → op.Emits env b q l) (ungranted : r.granted = []) :
    Accounted env b q op (r, q') := by
  obtain ⟨ls, transaction, recovers⟩ := h
  exact ⟨ls, transaction, .recovers transaction recovers emits ungranted⟩

theorem Pruned.accounted {op : Op} {r : Result} (h : Pruned env.sha q q')
    (emits : ∀ l, l.Prunes → op.Emits env b q l) (ungranted : r.granted = []) :
    Accounted env b q op (r, q') := by
  obtain ⟨ls, path, prunes⟩ := h
  refine ⟨ls, ⟨_, path, fun _ _ => rfl⟩, .quiet (fun l hl => emits l (prunes l hl)) ?_ ?_ ungranted⟩
  all_goals
    intro l hl
    have h := prunes l hl
    cases l <;> first | rfl | cases h

theorem Enqueued.accounted {a : EnqueueArgs} {r : Result} (h : Enqueued env b a q q')
    (ungranted : r.granted = []) : Accounted env b q (.enqueue a) (r, q') := by
  obtain ⟨row, v, q₁, -, named, keyed, -, ⟨ls, path, prunes⟩, step⟩ := h
  have quiet : ∀ l ∈ ls, l.entry? = none ∧ l.grant? = none := by
    intro l hl
    have h := prunes l hl
    cases l <;> first | exact ⟨rfl, rfl⟩ | cases h
  refine ⟨_, ⟨_, path.snoc step, fun _ _ => rfl⟩, ?_, ?_, ?_, ?_⟩
  · intro l hl
    obtain hl | hl := List.mem_append.mp hl
    · exact .inl (prunes l hl)
    · exact .inr ⟨row, _, List.mem_singleton.mp hl, named, keyed⟩
  · intro l hl p hp
    obtain hl | hl := List.mem_append.mp hl
    · rw [(quiet l hl).1] at hp
      cases hp
    · rw [List.mem_singleton.mp hl] at hp
      cases hp
      exact .inl rfl
  · rw [ungranted, List.filterMap_append, List.filterMap_eq_nil_iff.mpr fun l hl => (quiet l hl).2]
    rfl
  · intro id
    rw [List.countP_append, countP_logs_eq_zero (fun l hl => (quiet l hl).1), Nat.zero_add]
    exact List.countP_le_length

theorem Started.accounted {m : Recording} {c : LeaseCall} {fallback : Bool}
    (h : Started env m c q q')
    (recorded : m = .kept b ∨ (Op.startJob fallback c).fastJob? env b q = some c.jobId) :
    Accounted env b q (.startJob fallback c) (.unit, q') := by
  obtain ⟨row, live, ⟨-, rfl⟩ | ⟨v, transaction⟩⟩ := h
  · exact ⟨[], .nil, .nil rfl⟩
  · refine ⟨_, transaction, Account.worked [] ⟨_, rfl⟩ (by simp) ?_ rfl rfl⟩
    rintro e he
    cases he
    exact recorded

theorem Completed.accounted {m : Recording} {c : LeaseCall} {fallback : Bool} {result : JsonObject}
    (h : Completed env m c result.canonical (env.sha.hexdigest result.canonical) q q')
    (recorded : m = .kept b ∨
      (Op.complete fallback c result).fastJob? env b q = some c.jobId) :
    Accounted env b q (.complete fallback c result) (.unit, q') := by
  obtain ⟨row, live, v, transaction⟩ := h
  refine ⟨_, transaction, Account.worked [c.workerId] (.inr ⟨_, rfl⟩) ?_ ?_ rfl rfl⟩
  · intro w hw
    rw [List.mem_singleton.mp hw]
    exact .inl rfl
  · rintro e he
    cases he
    exact recorded

theorem startJob_accounted (hs : Sound q.opened) {fallback : Bool} {c : LeaseCall} :
    Sat (q.startJob env b fallback c)
      (fun q' => Accounted env b q (.startJob fallback c) (.unit, q')) Benign := by
  with_reducible refine (startJob_sat hs).mono ?_ fun _ he => he
  rintro q' (started | ⟨rfl, rfl, started, fast⟩)
  · exact started.accounted (.inl rfl)
  · exact started.accounted (.inr (by simp [Op.fastJob?, fast]))

theorem complete_accounted (hs : Sound q.opened) {fallback : Bool} {c : LeaseCall}
    {result : JsonObject} :
    Sat (q.complete env b fallback c result)
      (fun q' => Accounted env b q (.complete fallback c result) (.unit, q')) Benign := by
  with_reducible refine (complete_sat hs).mono ?_ fun _ he => he
  rintro q' (⟨rfl, -⟩ | completed | ⟨rfl, rfl, completed, fast⟩)
  · exact ⟨[], .nil, .nil rfl⟩
  · exact completed.accounted (.inl rfl)
  · exact completed.accounted (.inr (by simp [Op.fastJob?, fast]))

theorem leaseNext_accounted (hs : Sound q.opened) {fallback : Bool} {worker : String}
    {seconds : Int} {d : Draw} :
    Sat (q.leaseNext env b fallback worker seconds d)
      (fun r => Accounted env b q (.leaseNext fallback worker seconds d)
        (.leases r.1.toList, r.2)) Benign := by
  with_reducible refine (leaseNext_sat hs).mono ?_ fun _ he => he
  rintro ⟨lease, q'⟩ (grants | ⟨rfl, rfl, grants, fast⟩)
  · exact grants.accounted (fun _ h => h) rfl (.inl rfl)
  · refine grants.accounted (fun _ h => h) rfl (.inr fun l hl => ?_)
    cases lease with
    | none => cases hl
    | some lease =>
      obtain rfl := List.mem_singleton.mp hl
      simp [Op.fastJob?, fast]

theorem Registered.accounted {a : RegisterArgs} {r : Result} (h : Registered env.sha a q q')
    (ungranted : r.granted = []) : Accounted env b q (.registerWorker a) (r, q') := by
  obtain ⟨new, admitted, ⟨-, transaction⟩ | ⟨-, transaction⟩⟩ := h
  · refine ⟨_, transaction, .quiet ?_ ?_ ?_ ungranted⟩ <;> intro l hl <;>
      obtain rfl := List.mem_singleton.mp hl
    · exact ⟨new, admitted, .inl rfl⟩
    · rfl
    · rfl
  · refine ⟨_, transaction, .quiet ?_ ?_ ?_ ungranted⟩ <;> intro l hl <;>
      obtain rfl := List.mem_singleton.mp hl
    · exact ⟨new, admitted, .inr rfl⟩
    · rfl
    · rfl

theorem Account.touched {op : Op} {worker : String} {r : Result}
    (emits : op.Emits env b q (.reckoned worker)) (ungranted : r.granted = []) :
    Account env b q op [.reckoned worker] r := by
  refine .quiet ?_ ?_ ?_ ungranted <;> intro l hl <;> obtain rfl := List.mem_singleton.mp hl
  · exact emits
  · rfl
  · rfl

theorem handoverLease_accounted (hs : Sound q.opened) {c : LeaseCall} {reason : String} :
    Sat (q.handoverLease env b c reason)
      (fun r => Accounted env b q (.handoverLease c reason) (.state r.1, r.2)) Benign := by
  with_reducible refine (handoverLease_sat hs).mono ?_ fun _ he => he
  rintro ⟨target, q'⟩ ⟨row, held, code, v, transaction⟩
  refine ⟨_, transaction, Account.worked [c.workerId] (.inr ⟨_, _, _, rfl⟩) ?_ ?_ rfl rfl⟩
  · simp [Op.Emits, Label.Surrenders]
  · simp

theorem failJob_accounted (hs : Sound q.opened) {c : LeaseCall} {errorCode : String}
    {retryable : Bool} :
    Sat (q.failJob env b c errorCode retryable)
      (fun r => Accounted env b q (.fail c errorCode retryable) (.state r.1, r.2)) Benign := by
  with_reducible refine (failJob_sat hs).mono ?_ fun _ he => he
  rintro ⟨target, q'⟩ ⟨row, held, code, v, transaction⟩
  refine ⟨_, transaction, Account.worked [c.workerId] (.inr ⟨_, _, _, rfl⟩) ?_ ?_ rfl rfl⟩
  · simp [Op.Emits, Label.Surrenders]
  · simp

theorem renewLease_accounted (hs : Sound q.opened) {c : LeaseCall} {seconds : Int}
    {reading : Instant} :
    Sat (q.renewLease env c seconds reading)
      (fun r => Accounted env b q (.renewLease c seconds reading) (.expires r.1, r.2)) Benign := by
  with_reducible refine (renewLease_sat hs).mono ?_ fun _ he => he
  rintro ⟨expires, q'⟩ ⟨row, held, transaction⟩
  exact ⟨_, transaction,
    Account.worked [c.workerId] (.inr ⟨_, rfl⟩) (by simp [Op.Emits]) (by simp) rfl rfl⟩

theorem markSideEffectStarted_accounted (hs : Sound q.opened) {c : LeaseCall} :
    Sat (q.markSideEffectStarted env b c)
      (fun q' => Accounted env b q (.markSideEffectStarted c) (.unit, q')) Benign := by
  with_reducible refine (markSideEffectStarted_sat hs).mono ?_ fun _ he => he
  rintro q' ⟨row, held, marked⟩
  split at marked
  next =>
    obtain ⟨-, v, transaction⟩ := marked
    exact ⟨_, transaction, Account.worked [] ⟨_, rfl⟩ (by simp) (by simp) rfl rfl⟩
  next =>
    subst marked
    exact ⟨[], .nil, .nil rfl⟩

theorem initializeLeaseClock_accounted {domain : String} {mono epoch : ℚ} :
    Accounted env b q (.initializeLeaseClock domain mono epoch)
      (.unit, q.initializeLeaseClock b domain mono epoch) := by
  obtain ⟨ls, transaction, emits⟩ :=
    @initializeLeaseClock_transaction b q env.sha domain mono epoch
  refine ⟨ls, transaction, .quiet emits ?_ ?_ rfl⟩ <;> intro l hl <;>
    obtain rfl | ⟨rfl, -⟩ := emits l hl <;> rfl

theorem backfillTerminalFences_accounted (hs : Sound q.opened) :
    Sat q.backfillTerminalFences
      (fun q' => Accounted env b q .backfillTerminalFences (.unit, q')) Benign := by
  with_reducible refine (backfillTerminalFences_sat env.sha hs).mono ?_ fun _ he => he
  rintro q' ⟨q₁, ⟨ls, path, prunes⟩, flagged⟩
  have emits : ∀ l ∈ ls ++ [.flagged], l.Prunes ∨ l = .flagged := by
    intro l hl
    obtain hl | hl := List.mem_append.mp hl
    · exact .inl (prunes l hl)
    · exact .inr (List.mem_singleton.mp hl)
  refine ⟨_, ⟨_, path.snoc flagged, fun _ _ => rfl⟩, .quiet emits ?_ ?_ rfl⟩
  all_goals
    intro l hl
    obtain h | rfl := emits l hl
    · cases l <;> first | rfl | cases h
    · rfl

theorem Op.exec_sat (hs : Sound q.opened) (op : Op) :
    Sat (op.exec env b q) (Accounted env b q op) Benign := by
  cases op with
  | enqueue a =>
    simp only [exec, returning, sat_bind, sat_pure]
    with_reducible refine (enqueue_sat hs).mono ?_ fun _ he => he
    rintro ⟨id, q'⟩ (⟨rfl, -⟩ | ⟨-, enqueued⟩)
    · exact ⟨[], .nil, .nil rfl⟩
    · exact enqueued.accounted rfl
  | registerWorker a =>
    simp only [exec, returning, sat_bind, sat_pure]
    exact registerWorker_sat.mono (fun _ h => h.accounted rfl) fun _ he => he
  | heartbeat worker resources now utc =>
    simp only [exec, silently, sat_bind, sat_pure]
    exact (heartbeat_sat env.sha).mono (fun _ h => ⟨_, h, .touched rfl rfl⟩) fun _ he => he
  | setWorkerDrain worker drain utc =>
    simp only [exec, silently, sat_bind, sat_pure]
    exact (setWorkerDrain_sat env.sha).mono (fun _ h => ⟨_, h, .touched rfl rfl⟩) fun _ he => he
  | revokeWorker worker utc stamp =>
    simp only [exec, returning, sat_bind, sat_pure]
    exact (revokeWorker_sat hs).mono (fun _ h => h.1.accounted (fun _ h => h) rfl) fun _ he => he
  | leaseNext fallback worker seconds d =>
    simp only [exec, returning, sat_bind, sat_pure]
    with_reducible exact leaseNext_accounted hs
  | leaseMany worker maxItems seconds draws =>
    simp only [exec, returning, sat_bind, sat_pure]
    exact (leaseMany_sat hs).mono (fun _ h => h.accounted (fun _ h => h) rfl (.inl rfl))
      fun _ he => he
  | startJob fallback c =>
    simp only [exec, silently, sat_bind, sat_pure]
    with_reducible exact startJob_accounted hs
  | renewLease c seconds reading =>
    simp only [exec, returning, sat_bind, sat_pure]
    with_reducible exact renewLease_accounted hs
  | handoverLease c reason =>
    simp only [exec, returning, sat_bind, sat_pure]
    with_reducible exact handoverLease_accounted hs
  | checkpoint c value =>
    simp only [exec, returning, sat_bind, sat_pure]
    with_reducible refine (checkpoint_sat hs).mono ?_ fun _ he => he
    rintro ⟨n, q'⟩ ⟨row, held, json, transaction⟩
    exact ⟨_, transaction, Account.worked [] ⟨_, _, rfl⟩ (by simp) (by simp) rfl rfl⟩
  | markSideEffectStarted c =>
    simp only [exec, silently, sat_bind, sat_pure]
    with_reducible exact markSideEffectStarted_accounted hs
  | complete fallback c result =>
    simp only [exec, silently, sat_bind, sat_pure]
    with_reducible exact complete_accounted hs
  | fail c errorCode retryable =>
    simp only [exec, returning, sat_bind, sat_pure]
    with_reducible exact failJob_accounted hs
  | retryReviewRequired id utc =>
    simp only [exec, silently, sat_bind, sat_pure]
    with_reducible refine (retryReviewRequired_sat env.sha hs).mono ?_ fun _ he => he
    rintro q' ⟨row, -, -, v, transaction⟩
    exact ⟨_, transaction, Account.worked [] ⟨_, rfl⟩ (by simp) (by simp) rfl rfl⟩
  | recoverStaleWorkerLeases a =>
    simp only [exec, returning, sat_bind, sat_pure]
    exact (recoverStaleWorkerLeases_sat hs).mono (fun _ h => h.accounted (fun _ h => h) rfl)
      fun _ he => he
  | recoverExpiredLeases a =>
    simp only [exec, returning, sat_bind, sat_pure]
    exact (recoverExpiredLeases_sat hs).mono (fun _ h => h.accounted (fun _ h => h) rfl)
      fun _ he => he
  | reconcileDurableState a =>
    simp only [exec, returning, sat_bind, sat_pure]
    exact (reconcileDurableState_sat hs).mono (fun _ h => h.accounted (fun _ h => h) rfl)
      fun _ he => he
  | retainTerminalJobs maxTerminal maxTombstones =>
    simp only [exec, returning, Queue.retainTerminalJobs, sat_bind, sat_pure]
    exact (retainTerminalLocked_sat env.sha hs).mono (fun _ h => h.accounted (fun _ h => h) rfl)
      fun _ he => he
  | initializeLeaseClock domain mono epoch => exact initializeLeaseClock_accounted
  | backfillTerminalFences =>
    simp only [exec, silently, sat_bind, sat_pure]
    with_reducible exact backfillTerminalFences_accounted hs

end Operations

section Effects

variable {sha : Sha256} {env : Env} {b : Backend} {q q' : Queue} {op : Op} {ls : List Label}
  {r : Result} {id : String} {l : Label}

theorem Label.eq_of_grant? {g : Grant} (h : l.grant? = some g) :
    ∃ expires utc entry, l = .moved g.jobId (.lease g.workerId g.token expires utc) entry := by
  cases l with
  | moved id mv entry =>
    cases mv with
    | lease worker token expires utc =>
      obtain rfl := Option.some.inj h
      exact ⟨expires, utc, entry, rfl⟩
    | start | renew | saveCheckpoint | startSideEffect | release | complete | approveRetry =>
      simp [grant?] at h
  | entered | distrusted | enrolled | redeclared | reckoned | fenced | erased | dropped | flagged =>
    simp [grant?] at h

theorem RowStep.of_grant {g : Grant} {o o' : Option Job} (h : RowStep sha g.jobId l o o')
    (grant : l.grant? = some g) : ∃ row expires utc, o = some row ∧ row.state = .queued ∧
      o' = some (row.lease g.workerId (sha.hexdigest g.token) expires utc) := by
  obtain ⟨expires, utc, entry, rfl⟩ := Label.eq_of_grant? grant
  cases h with
  | moved _ permitted => exact ⟨_, expires, utc, rfl, permitted.1, rfl⟩
  | other untouched => exact absurd rfl untouched

theorem Account.granted (account : Account env b q op ls r) (transaction : Transaction sha q ls q')
    {lease : DistributedLease} (granted : lease ∈ r.granted) :
    ∃ ls₁ l ls₂ row expires utc, ls = ls₁ ++ l :: ls₂ ∧ row.state = .queued ∧
      Path (fun o l o' => RowStep sha lease.jobId l o o') (q.job? lease.jobId) ls₁ (some row) ∧
      Path (fun o l o' => RowStep sha lease.jobId l o o')
        (some (row.lease lease.workerId (sha.hexdigest lease.leaseToken) expires utc)) ls₂
        (q'.job? lease.jobId) := by
  have grant : lease.grant ∈ ls.filterMap Label.grant? := by
    rw [account.grants]
    exact List.mem_map_of_mem granted
  obtain ⟨l, hl, hgrant⟩ := List.mem_filterMap.mp grant
  obtain ⟨ls₁, ls₂, o, o', rfl, before, step, after⟩ := (transaction.row lease.jobId).split hl
  obtain ⟨row, expires, utc, rfl, queued, rfl⟩ := RowStep.of_grant (g := lease.grant) step hgrant
  exact ⟨ls₁, l, ls₂, row, expires, utc, rfl, queued, before, after⟩

theorem Transaction.job?_worked {mv : Move} {entry : Option Entry} {row : Job} (ws : List String)
    (h : Transaction sha q (.moved id mv entry :: ws.map .reckoned) q')
    (found : q.job? id = some row) :
    mv.Permitted row ∧ q'.job? id = some (mv.apply sha row) := by
  have path := h.row id
  rw [found] at path
  generalize q'.job? id = new at path ⊢
  cases path with
  | cons step rest =>
    cases step with
    | other untouched => exact absurd rfl untouched
    | moved _ permitted =>
      refine ⟨permitted, rest.invariant (P := fun o => o = some (mv.apply sha row)) ?_ rfl⟩
      rintro o l o' hl step rfl
      obtain ⟨w, -, rfl⟩ := List.mem_map.mp hl
      cases step with
      | other => rfl

theorem Account.granted_of_label (account : Account env b q op ls r) (hl : l ∈ ls) {g : Grant}
    (grant : l.grant? = some g) : ∃ lease ∈ r.granted, lease.grant = g := by
  apply List.mem_map.mp
  rw [← account.grants]
  exact List.mem_filterMap.mpr ⟨l, hl, grant⟩

theorem RowStep.lease_cases {o o' : Option Job} {row' : Job} (h : RowStep sha id l o o')
    (found : o' = some row') (active : row'.state.active) :
    (∃ g, l.grant? = some g ∧ g.jobId = id ∧ row'.leaseWorkerId = g.workerId ∧
      row'.leaseTokenSha256 = sha.hexdigest g.token) ∨
    ∃ row, o = some row ∧ row.state.active ∧ row'.leaseWorkerId = row.leaseWorkerId ∧
      row'.leaseTokenSha256 = row.leaseTokenSha256 ∧
      (row'.leaseExpiresAt = row.leaseExpiresAt ∨ l = .distrusted ∨
        ∃ expires utc entry, l = .moved id (.renew expires utc) entry) := by
  cases h with
  | entered _ fresh =>
    cases found
    rw [fresh.queued] at active
    cases active
  | moved named permitted =>
    cases found
    rename_i row mv entry _ _
    cases mv with
    | lease worker token expires utc => exact .inl ⟨⟨id, worker, token⟩, rfl, rfl, rfl, rfl⟩
    | start utc =>
      exact .inr ⟨row, rfl, by rw [show row.state = .leased from permitted]; rfl, rfl, rfl, .inl rfl⟩
    | renew expires utc =>
      exact .inr ⟨row, rfl, permitted.1, rfl, rfl, .inr (.inr ⟨expires, utc, entry, rfl⟩)⟩
    | saveCheckpoint => exact .inr ⟨row, rfl, active, rfl, rfl, .inl rfl⟩
    | startSideEffect => exact .inr ⟨row, rfl, active, rfl, rfl, .inl rfl⟩
    | release target code utc =>
      obtain ⟨-, retryable, rfl⟩ := permitted
      simp [Move.apply, Job.release, Job.not_active_releaseTarget] at active
    | complete => simp [Move.apply, Job.complete, JobState.active] at active
    | approveRetry => simp [Move.apply, Job.approveRetry, JobState.active] at active
  | distrusted held =>
    cases found
    exact .inr ⟨_, rfl, held, rfl, rfl, .inr (.inl rfl)⟩
  | erased => cases found
  | other => exact .inr ⟨row', found, active, rfl, rfl, .inl rfl⟩

end Effects

section Emissions

variable {env : Env} {b : Backend} {q : Queue} {op : Op} {id : String}

theorem Op.Emits.entered {row : Job} {e : Entry} (h : op.Emits env b q (.entered row e)) :
    op.created? = some row.jobId := by
  cases op <;> simp_all [Emits, created?, Label.Leases, Label.Recovers, Label.Prunes,
    Label.Surrenders]

theorem Op.Emits.approveRetry {utc : String} {entry : Option Entry}
    (h : op.Emits env b q (.moved id (.approveRetry utc) entry)) :
    op.retries id ∧ ∃ e, entry = some e := by
  cases op <;> simp_all [Emits, retries, Label.Leases, Label.Recovers, Label.Prunes,
    Label.Surrenders]

end Emissions

end Arenyxa.Distributed
