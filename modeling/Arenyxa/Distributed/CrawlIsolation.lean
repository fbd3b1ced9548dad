import Arenyxa.Crawler.Limits
import Arenyxa.Distributed.Crawls
import Arenyxa.Lib.SortedSet

/-! Crawls on one queue do not interfere, as long as no namespace opens another one. -/

namespace Arenyxa.Distributed

open Outcome QueueError History

section Names

variable {sha : Sha256} {a c : CrawlId}

theorem strip_eq_self {s : String} (head : ∀ ch ∈ s.toList.head?, isSpace ch = false)
    (last : ∀ ch ∈ s.toList.getLast?, isSpace ch = false) : strip s = s := by
  have trimmed := SortedSet.trim_eq_self (p := isSpace) head last
  rw [SortedSet.trim, List.rdropWhile] at trimmed
  rw [strip, trimmed, String.ofList_toList]

theorem CrawlId.toList_keyPrefix (c : CrawlId) : c.keyPrefix.toList = "crawl:".toList ++ c.text.toList ++ [':'] := by
  simp [keyPrefix]

theorem CrawlId.toList_key (c : CrawlId) (url : String) :
    (c.key sha url).toList = c.keyPrefix.toList ++ (urlIdentity sha url).toList := by
  simp [key]

theorem CrawlId.strip_keyPrefix (c : CrawlId) : strip c.keyPrefix = c.keyPrefix := by
  apply strip_eq_self
  · rw [toList_keyPrefix]
    intro ch head
    cases head
    decide
  · rw [toList_keyPrefix, List.getLast?_concat]
    intro ch last
    cases last
    decide

/-- The digits of a digest: no colon and no blank is among them. -/
def HexDigests (sha : Sha256) : Prop := ∀ s, ∀ ch ∈ (sha.hexdigest s).toList, ch ∈ hexDigits

theorem not_isSpace_of_hex {ch : Char} (hex : ch ∈ hexDigits) : isSpace ch = false := by
  have none_blank : hexDigits.all (fun digit => !isSpace digit) = true := by decide +kernel
  simpa using List.all_eq_true.mp none_blank ch hex

theorem CrawlId.strip_key (hex : HexDigests sha) (c : CrawlId) (url : String) :
    strip (c.key sha url) = c.key sha url := by
  apply strip_eq_self
  · rw [toList_key, toList_keyPrefix]
    intro ch head
    cases head
    decide
  · rw [toList_key]
    intro ch last
    rw [List.getLast?_append] at last
    cases digest : (urlIdentity sha url).toList.getLast? with
    | none =>
      have empty := String.toList_eq_nil_iff.mp (List.getLast?_eq_none_iff.mp digest)
      exact absurd empty (sha.hexdigest_ne_empty url)
    | some digit =>
      rw [digest] at last
      cases last
      exact not_isSpace_of_hex (hex url _ (List.mem_of_getLast? digest))

/-- One namespace opens another. -/
def CrawlId.Covers (a c : CrawlId) : Prop := a.keyPrefix.toList <+: c.keyPrefix.toList

instance : DecidableRel CrawlId.Covers := fun a c =>
  inferInstanceAs (Decidable (a.keyPrefix.toList <+: c.keyPrefix.toList))

theorem CrawlId.covers_iff (hex : HexDigests sha) (url : String) :
    a.keyPrefix.toList <+: (c.key sha url).toList ↔ a.Covers c := by
  rw [toList_key]
  refine ⟨fun opens => ?_, fun covers => covers.trans (List.prefix_append ..)⟩
  obtain covers | longer := List.prefix_or_prefix_of_prefix opens (List.prefix_append c.keyPrefix.toList _)
  · exact covers
  obtain ⟨more, rest⟩ := longer
  rw [← rest, List.prefix_append_right_inj] at opens
  rcases List.eq_nil_or_concat' more with rfl | ⟨digits, last, rfl⟩
  · rw [List.append_nil] at rest
    exact ⟨[], (List.append_nil _).trans rest.symm⟩
  · rw [toList_keyPrefix a, ← List.append_assoc] at rest
    obtain ⟨-, ends⟩ := List.append_inj' rest rfl
    cases ends
    have digit := hex url ':' (opens.subset (by simp))
    exact absurd digit (by decide)

end Names

section Rows

variable {env : Env} {b : Backend} {q q' : Queue} {a : CrawlId}

/-- The jobs that a crawl counts and lists. -/
def Queue.Lists (q : Queue) (a : CrawlId) (id : String) : Prop :=
  ∃ row, q.job? id = some row ∧ a.keyPrefix.toList <+: row.idempotencyKey.toList

/-- The rows that a crawl counts and lists are the same ones. -/
def Queue.SameListed (q q' : Queue) (a : CrawlId) : Prop :=
  ∀ row : Job, a.keyPrefix.toList <+: row.idempotencyKey.toList →
    (q'.job? row.jobId = some row ↔ q.job? row.jobId = some row)

theorem Queue.inPrefix_iff {namePrefix : String} {state : Option JobState} {row : Job} :
    inPrefix namePrefix state row ↔
      namePrefix.toList <+: row.idempotencyKey.toList ∧ ∀ wanted ∈ state, row.state = wanted := by
  rw [inPrefix, decide_eq_true_iff, List.prefix_iff_eq_take, eq_comm]

theorem Queue.SameListed.perm (same : q.SameListed q' a) (state : Option JobState) :
    (q'.jobs.rows.filter (inPrefix a.keyPrefix state)).Perm (q.jobs.rows.filter (inPrefix a.keyPrefix state)) := by
  refine (List.perm_ext_iff_of_nodup (q'.jobs.nodup.of_map.filter _) (q.jobs.nodup.of_map.filter _)).mpr fun row => ?_
  rw [List.mem_filter, List.mem_filter, inPrefix_iff, mem_jobs_iff, mem_jobs_iff]
  exact and_congr_left fun listed => same row listed.1

theorem Queue.SameListed.countP (same : q.SameListed q' a) (state : Option JobState) :
    q'.jobs.rows.countP (inPrefix a.keyPrefix state) = q.jobs.rows.countP (inPrefix a.keyPrefix state) := by
  rw [List.countP_eq_length_filter, List.countP_eq_length_filter]
  exact (same.perm state).length_eq

theorem cleanToken_keyPrefix {label token : String} {n : Nat} (clean : cleanToken a.keyPrefix label n = .ok token) :
    token = a.keyPrefix :=
  (cleanToken_sat.of_ok clean).1.trans a.strip_keyPrefix

theorem Queue.prefixCount_eq (namePrefix : String) :
    q.prefixCount namePrefix = q.jobs.rows.countP (inPrefix namePrefix none) := by
  exact List.countP_congr fun row _ => by simp [inPrefix]

/-- What a crawl reads of the queue is the same. -/
structure Coordinator.Undisturbed (c : Coordinator) (q q' : Queue) : Prop where
  count : ∀ state, q'.countJobsByIdempotencyPrefix c.crawlId.keyPrefix state =
    q.countJobsByIdempotencyPrefix c.crawlId.keyPrefix state
  limit : ∀ call : EnqueueArgs, call.idempotencyPrefix = c.crawlId.keyPrefix →
    q'.prefixGuard call = q.prefixGuard call
  snapshot : c.snapshot q' = c.snapshot q
  reconciled : ∀ json limit calls, c.Reconciles json q' limit calls ↔ c.Reconciles json q limit calls

theorem Queue.SameListed.count (same : q.SameListed q' a) (state : Option JobState) :
    q'.countJobsByIdempotencyPrefix a.keyPrefix state = q.countJobsByIdempotencyPrefix a.keyPrefix state := by
  unfold countJobsByIdempotencyPrefix
  cases clean : cleanToken a.keyPrefix "idempotency prefix" 192 with
  | error => rfl
  | ok token =>
    obtain rfl := cleanToken_keyPrefix clean
    simp only [bind, Except.bind, same.countP]

theorem Queue.SameListed.prefixGuard (same : q.SameListed q' a) {call : EnqueueArgs}
    (named : call.idempotencyPrefix = a.keyPrefix) : q'.prefixGuard call = q.prefixGuard call := by
  unfold Queue.prefixGuard
  split
  next => rfl
  next =>
    rw [named]
    cases clean : cleanToken a.keyPrefix "idempotency prefix" 192 with
    | error => rfl
    | ok token =>
      obtain rfl := cleanToken_keyPrefix clean
      simp only [bind, Except.bind, prefixCount_eq, same.countP]

theorem Queue.SameListed.lists (same : q.SameListed q' a) {state : Option JobState} {limit : Int} {rows : List Job} :
    q'.ListsJobsByIdempotencyPrefix a.keyPrefix state limit rows ↔
      q.ListsJobsByIdempotencyPrefix a.keyPrefix state limit rows := by
  refine exists_congr fun token => exists_congr fun all => and_congr_right fun clean => ?_
  obtain rfl := cleanToken_keyPrefix clean
  exact and_congr_left fun _ => ⟨fun p => p.trans (same.perm state), fun p => p.trans (same.perm state).symm⟩

theorem Queue.SameListed.undisturbed {c : Coordinator} (same : q.SameListed q' c.crawlId) : c.Undisturbed q q' where
  count := same.count
  limit _ named := same.prefixGuard named
  snapshot := by simp only [Coordinator.snapshot, same.count]
  reconciled _ _ _ := exists_congr fun _ => and_congr_left fun _ => same.lists

end Rows

section Work

variable {sha : Sha256} {env : Env} {b : Backend} {q : Queue} {op : Op} {r : Result × Queue} {l : Label} {id : String}

theorem Op.Works.keeps (works : op.Works) (emits : op.Emits env b q l) :
    (∀ row e, l ≠ .entered row e) ∧ ∀ id, l ≠ .erased id := by
  constructor
  · rintro row e rfl
    have created := emits.entered
    cases op with
    | enqueue | retainTerminalJobs | backfillTerminalFences => cases works
    | _ => cases created
  · rintro id rfl
    cases op <;> simp_all [Works, Emits, Label.Leases, Label.Recovers, Label.Surrenders]

theorem Accounted.keys (h : Accounted env b q op r) (works : op.Works) (id : String) :
    (r.2.job? id).map Job.idempotencyKey = (q.job? id).map Job.idempotencyKey := by
  refine h.keep (P := fun o => o.map Job.idempotencyKey = (q.job? id).map Job.idempotencyKey) ?_ rfl
  intro l o o' emits step same
  cases step with
  | entered => exact absurd rfl ((works.keeps emits).1 _ _)
  | erased => exact absurd rfl ((works.keeps emits).2 _)
  | moved =>
    rename_i row mv entry _ _ _ _
    rw [← same, Option.map_some, Option.map_some, mv.apply_idempotencyKey env.sha]
  | distrusted => exact same
  | other => exact same

/-- The jobs that a transaction is about; `none` is one about the whole queue. -/
def Op.subjects (r : Result) : Op → Option (List String)
  | .registerWorker _ | .heartbeat .. | .setWorkerDrain .. => some []
  | .leaseNext .. | .leaseMany .. => some (r.granted.map DistributedLease.jobId)
  | .startJob _ c | .renewLease c .. | .handoverLease c _ | .checkpoint c _ | .markSideEffectStarted c
  | .complete _ c _ | .fail c .. => some [c.jobId]
  | .retryReviewRequired id _ => some [id]
  | _ => none

theorem RowStep.same {o o' : Option Job} (h : RowStep sha id l o o') (apart : l.jobId? ≠ some id)
    (calm : l ≠ .distrusted) : o' = o := by
  cases h with
  | entered named => exact absurd (congrArg some named) apart
  | moved | erased => exact absurd rfl apart
  | distrusted => exact absurd rfl calm
  | other => rfl

theorem moved_apart {id' : String} {mv : Move} {entry : Option Entry} (other : id ∉ [id']) :
    (Label.moved id' mv entry).jobId? ≠ some id :=
  fun same => other (List.mem_singleton.mpr (Option.some.inj same).symm)

theorem Account.leased_apart {ls : List Label} {r : Result} (account : Account env b q op ls r) (hl : l ∈ ls)
    (leases : l.Leases) (other : id ∉ r.granted.map DistributedLease.jobId) :
    l.jobId? ≠ some id ∧ l ≠ .distrusted := by
  cases l with
  | moved id' mv entry =>
    cases mv with
    | lease worker token expires utc =>
      obtain ⟨lease, mem, same⟩ := account.granted_of_label (g := ⟨id', worker, token⟩) hl rfl
      refine ⟨fun named => other (List.mem_map.mpr ⟨lease, mem, ?_⟩), nofun⟩
      exact (congrArg Grant.jobId same).trans (Option.some.inj named)
    | _ => cases leases
  | reckoned => exact ⟨nofun, nofun⟩
  | _ => cases leases

theorem Account.apart {ls : List Label} {r : Result} (account : Account env b q op ls r) {ids : List String}
    (subjects : op.subjects r = some ids) (other : id ∉ ids) (hl : l ∈ ls) :
    l.jobId? ≠ some id ∧ l ≠ .distrusted := by
  have emits := account.emits l hl
  cases op with
  | leaseNext | leaseMany =>
    cases subjects
    exact account.leased_apart hl emits other
  | registerWorker =>
    obtain ⟨new, -, rfl | rfl⟩ := emits <;> exact ⟨nofun, nofun⟩
  | heartbeat | setWorkerDrain =>
    cases emits
    exact ⟨nofun, nofun⟩
  | startJob | markSideEffectStarted | retryReviewRequired =>
    cases subjects
    obtain ⟨e, rfl⟩ := emits
    exact ⟨moved_apart other, nofun⟩
  | checkpoint =>
    cases subjects
    obtain ⟨json, n, rfl⟩ := emits
    exact ⟨moved_apart other, nofun⟩
  | renewLease | complete =>
    cases subjects
    obtain rfl | ⟨x, rfl⟩ := emits
    · exact ⟨nofun, nofun⟩
    · exact ⟨moved_apart other, nofun⟩
  | handoverLease | fail =>
    cases subjects
    obtain rfl | ⟨target, code, e, rfl⟩ := emits
    · exact ⟨nofun, nofun⟩
    · exact ⟨moved_apart other, nofun⟩
  | _ => cases subjects

theorem Accounted.others (h : Accounted env b q op r) {ids : List String} (subjects : op.subjects r.1 = some ids)
    (other : id ∉ ids) : r.2.job? id = q.job? id := by
  obtain ⟨ls, transaction, account⟩ := h
  refine (transaction.row id).invariant (P := fun o => o = q.job? id) ?_ rfl
  intro o l o' hl step same
  obtain ⟨apart, calm⟩ := account.apart subjects other hl
  exact (step.same apart calm).trans same

end Work

section Submission

variable {env : Env} {b : Backend} {q q' : Queue} {a : EnqueueArgs} {jobId : String}

/-- An enqueue that deletes no history: its key is held, or the table has room, or there is no history to delete. -/
def Queue.Spares (q : Queue) (a : EnqueueArgs) : Prop :=
  (q.heldIdentity? (strip a.idempotencyKey)).isSome ∨ q.jobs.rows.length < maxJobs ∨
    q.terminalHistory.length ≤ maxJobs / 2 - 1

instance (q : Queue) (a : EnqueueArgs) : Decidable (q.Spares a) :=
  inferInstanceAs (Decidable (_ ∨ _ ∨ _))

theorem Queue.jobs_pruneTombstones (q : Queue) (n : Int) : (q.pruneTombstones n).jobs = q.jobs := by
  unfold pruneTombstones
  split
  next =>
    exact foldl_induct (f := fun q' (f : Fence) => q'.deleteIdempotentFence f.idempotencyKey)
      (I := fun _ (q' : Queue) => q'.jobs = q.jobs) (fun _ _ _ same => same) _ _ rfl
  next => rfl

theorem Queue.jobCountGuard_spares
    (spares : q.jobs.rows.length < maxJobs ∨ q.terminalHistory.length ≤ maxJobs / 2 - 1)
    (guarded : q.jobCountGuard = .ok q') : q' = q := by
  unfold jobCountGuard at guarded
  split at guarded
  next => exact (Except.ok.inj guarded).symm
  next full =>
    have short := spares.resolve_left full
    obtain ⟨⟨report, pruned⟩, retained, rest⟩ := bind_eq_ok.mp guarded
    obtain ⟨_, room, -⟩ := bind_eq_ok.mp rest
    obtain ⟨history, none_pruned, same⟩ := bind_eq_ok.mp retained
    have unpruned : history = q := by
      unfold pruneHistory at none_pruned
      split at none_pruned
      next =>
        rw [List.drop_eq_nil_of_le (by exact short)] at none_pruned
        exact (Except.ok.inj none_pruned).symm
      next => exact (Except.ok.inj none_pruned).symm
    cases same
    rw [require_eq_ok] at room
    rw [jobs_pruneTombstones, unpruned] at room
    exact absurd room full

theorem Sound.enqueue_spares (hs : Sound q.opened) (spares : q.Spares a)
    (enqueued : q.enqueue env b a = .ok (jobId, q')) :
    q' = q ∨ ∃ row e, row.jobId = a.jobId ∧ row.idempotencyKey = strip a.idempotencyKey ∧
      Step env.sha q.opened (.entered row e) q'.opened := by
  obtain ⟨row, accepted, rest⟩ := bind_eq_ok.mp enqueued
  obtain ⟨fresh, named, keyed⟩ := admit_sat.of_ok accepted
  split at rest
  next held hheld =>
    obtain ⟨_, -, rest⟩ := bind_eq_ok.mp rest
    cases rest
    exact .inl rfl
  next free =>
    obtain ⟨_, -, rest⟩ := bind_eq_ok.mp rest
    obtain ⟨q₁, guarded, rest⟩ := bind_eq_ok.mp rest
    obtain ⟨q₂, inserted, rest⟩ := bind_eq_ok.mp rest
    obtain ⟨q₃, recorded, final⟩ := bind_eq_ok.mp rest
    rw [Queue.Spares, ← keyed, free] at spares
    obtain rfl := Queue.jobCountGuard_spares (spares.resolve_left (by simp)) guarded
    obtain ⟨_, absent, rest'⟩ := bind_eq_ok.mp inserted
    rw [require_eq_ok] at absent
    cases rest'
    cases final
    have entered := (Queue.entered env.sha absent.1 free fresh rfl rfl rfl).of_ok recorded
    exact .inr ⟨row, _, named, keyed, entered⟩

theorem entered_job? {sha : Sha256} {row : Job} {e : Entry} (step : Step sha q.opened (.entered row e) q'.opened)
    (id : String) : (id = row.jobId ∧ q.job? id = none ∧ q'.job? id = some row) ∨
      (id ≠ row.jobId ∧ q'.job? id = q.job? id) := by
  have here := step.row id
  generalize before : q.opened.queue.job? id = old at here
  generalize after : q'.opened.queue.job? id = new at here
  cases here with
  | entered named => exact .inl ⟨named.symm, before, after⟩
  | other untouched => exact .inr ⟨fun named => untouched (congrArg some named.symm), after.trans before.symm⟩

end Submission

namespace Crawls

/-- The jobs a crawl counts and lists are the ones enqueued for it. -/
def Exact (s : Crawls) (a : CrawlId) : Prop := ∀ id, s.queue.Lists a id ↔ (a, id) ∈ s.enqueued

/-- No job was enqueued for another crawl whose namespace this one opens. -/
def Apart (s : Crawls) (a : CrawlId) : Prop := ∀ c id, (c, id) ∈ s.enqueued → a.Covers c → c = a

/-- The call is for the crawl itself, or for one whose namespace it does not open. -/
def Action.Clear (a : CrawlId) : Action → Prop
  | .enqueueUrl c .. => a.Covers c.crawlId → c.crawlId = a
  | .childUrl lease .. => a.Covers lease.crawlId → lease.crawlId = a
  | .next .. | .work _ => True

/-- An enqueue deletes no history. -/
def Spares (env : Env) (json : CrawlJson) (s : Crawls) : Action → Prop
  | .next i d => ∀ call ∈ s.calls[i]?, call.stage.submits → s.queue.Spares (call.payload.enqueueArgs env.sha json d)
  | _ => True

instance (env : Env) (json : CrawlJson) (s : Crawls) : ∀ act, Decidable (s.Spares env json act)
  | .next i d => inferInstanceAs (Decidable (∀ call ∈ s.calls[i]?, call.stage.submits → s.queue.Spares
      (call.payload.enqueueArgs env.sha json d)))
  | .enqueueUrl .. | .childUrl .. | .work _ => isTrue trivial

/-- A step of other crawls: a call of another crawl, or a transaction about none of the jobs of this one. -/
def Foreign (env : Env) (b : Backend) (a : CrawlId) (s : Crawls) : Action → Prop
  | .next i _ => ∀ call ∈ s.calls[i]?, call.payload.crawlId ≠ a
  | .work op => ∀ r, op.1.exec env b s.queue = .ok r →
      ∃ ids, op.1.subjects r.1 = some ids ∧ ∀ id ∈ ids, (a, id) ∉ s.enqueued
  | _ => True

/-- Every job was enqueued for one crawl, and has a key of that crawl. -/
structure Kept (sha : Sha256) (s : Crawls) : Prop where
  sound : Sound s.queue.opened
  entered : ∀ id row, s.queue.job? id = some row → ∃ c url, (c, id) ∈ s.enqueued ∧ row.idempotencyKey = c.key sha url
  present : ∀ c id, (c, id) ∈ s.enqueued → ∃ row url, s.queue.job? id = some row ∧ row.idempotencyKey = c.key sha url
  once : ∀ c c' id, (c, id) ∈ s.enqueued → (c', id) ∈ s.enqueued → c = c'

section Steps

variable {δ : Type*} {lib : Crawler.Library δ} {env : Env} {b : Backend} {json : CrawlJson} {s : Crawls} {a : CrawlId}
  {act : Action}

theorem Kept.lists_iff (h : s.Kept env.sha) (hex : HexDigests env.sha) {id : String} :
    s.queue.Lists a id ↔ ∃ c, (c, id) ∈ s.enqueued ∧ a.Covers c := by
  constructor
  · rintro ⟨row, found, opens⟩
    obtain ⟨c, url, mem, keyed⟩ := h.entered id row found
    rw [keyed, CrawlId.covers_iff hex] at opens
    exact ⟨c, mem, opens⟩
  · rintro ⟨c, mem, covers⟩
    obtain ⟨row, url, found, keyed⟩ := h.present c id mem
    refine ⟨row, found, ?_⟩
    rw [keyed, CrawlId.covers_iff hex]
    exact covers

theorem Kept.exact_iff (h : s.Kept env.sha) (hex : HexDigests env.sha) : s.Exact a ↔ s.Apart a := by
  constructor
  · intro lists c id mem covers
    exact h.once c a id mem ((lists id).mp ((h.lists_iff hex).mpr ⟨c, mem, covers⟩))
  · intro apart id
    rw [h.lists_iff hex]
    constructor
    · rintro ⟨c, mem, covers⟩
      exact apart c id mem covers ▸ mem
    · exact fun mem => ⟨a, mem, List.prefix_rfl⟩

theorem next_cases (hs : Sound s.queue.opened) (call : Call) (d : EnqueueDraw)
    (spares : call.stage.submits → s.queue.Spares (call.payload.enqueueArgs env.sha json d)) :
    (call.next env b json d s.queue).2 = s.queue ∨
      ∃ row e, row.jobId = d.jobId ∧ row.idempotencyKey = strip (call.payload.crawlId.key env.sha call.payload.url) ∧
        Step env.sha s.queue.opened (.entered row e) (call.next env b json d s.queue).2.opened := by
  unfold Call.next
  cases stage : call.stage with
  | counting =>
    dsimp only
    split <;> exact .inl rfl
  | pending =>
    dsimp only
    split <;> exact .inl rfl
  | answered answer => exact .inl rfl
  | submitting =>
    dsimp only
    split
    next => exact .inl rfl
    next jobId q' enqueued => exact hs.enqueue_spares (spares (by rw [stage]; rfl)) enqueued

theorem record_same (c : CrawlId) (jobId : String) : s.record c jobId s.queue = s.enqueued := by
  rw [record, if_neg]
  rintro ⟨absent, found⟩
  rw [absent] at found
  cases found

theorem Kept.enter (h : s.Kept env.sha) (hex : HexDigests env.sha) {c : CrawlId} {url : String} {row : Job}
    {e : Entry} {q : Queue} (keyed : row.idempotencyKey = strip (c.key env.sha url))
    (step : Step env.sha s.queue.opened (.entered row e) q.opened) (calls : List Call) :
    s.record c row.jobId q = s.enqueued ++ [(c, row.jobId)] ∧
      (⟨q, calls, s.record c row.jobId q⟩ : Crawls).Kept env.sha := by
  rw [c.strip_key hex] at keyed
  obtain ⟨-, absent, found⟩ | ⟨other, -⟩ := entered_job? step row.jobId
  on_goal 2 => exact absurd rfl other
  have recorded : s.record c row.jobId q = s.enqueued ++ [(c, row.jobId)] := by
    rw [record, if_pos ⟨absent, by rw [found]; rfl⟩]
  have fresh : ∀ c', (c', row.jobId) ∉ s.enqueued := by
    intro c' mem
    obtain ⟨held, -, here, -⟩ := h.present c' _ mem
    rw [absent] at here
    cases here
  rw [recorded]
  refine ⟨rfl, step.sound h.sound, ?_, ?_, ?_⟩
  · intro id row' here
    obtain ⟨rfl, -, new⟩ | ⟨-, same⟩ := entered_job? step id
    · cases new.symm.trans here
      exact ⟨c, url, by simp, keyed⟩
    · obtain ⟨c', url', mem, key⟩ := h.entered id row' (same.symm.trans here)
      exact ⟨c', url', List.mem_append_left _ mem, key⟩
  · intro c' id mem
    obtain mem | mem := List.mem_append.mp mem
    · obtain ⟨row', url', here, key⟩ := h.present c' id mem
      obtain ⟨rfl, -⟩ | ⟨-, same⟩ := entered_job? step id
      · exact absurd mem (fresh c')
      · exact ⟨row', url', same.trans here, key⟩
    · cases List.mem_singleton.mp mem
      exact ⟨row, url, found, keyed⟩
  · intro c₁ c₂ id mem₁ mem₂
    rcases List.mem_append.mp mem₁ with mem₁ | mem₁ <;> rcases List.mem_append.mp mem₂ with mem₂ | mem₂
    · exact h.once c₁ c₂ id mem₁ mem₂
    · cases List.mem_singleton.mp mem₂
      exact absurd mem₁ (fresh c₁)
    · cases List.mem_singleton.mp mem₁
      exact absurd mem₂ (fresh c₂)
    · cases List.mem_singleton.mp mem₁
      cases List.mem_singleton.mp mem₂
      rfl

theorem Kept.work (h : s.Kept env.sha) {op : Op} (works : op.Works) {r : Result × Queue}
    (done : op.exec env b s.queue = .ok r) : ({ s with queue := r.2 } : Crawls).Kept env.sha := by
  have keys := fun id => (h.sound.accounted done).keys works id
  refine ⟨h.sound.exec done, ?_, ?_, h.once⟩
  · intro id row found
    have key := keys id
    rw [found] at key
    obtain ⟨row', found', same⟩ := Option.map_eq_some_iff.mp key.symm
    obtain ⟨c, url, mem, keyed⟩ := h.entered id row' found'
    exact ⟨c, url, mem, same.symm.trans keyed⟩
  · intro c id mem
    obtain ⟨row, url, found, keyed⟩ := h.present c id mem
    have key := keys id
    rw [found] at key
    obtain ⟨row', found', same⟩ := Option.map_eq_some_iff.mp key
    exact ⟨row', url, found', same.trans keyed⟩

theorem Kept.step (h : s.Kept env.sha) (hex : HexDigests env.sha) (spares : s.Spares env json act) :
    (s.step lib env b json act).Kept env.sha := by
  cases act with
  | enqueueUrl | childUrl => exact ⟨h.sound, h.entered, h.present, h.once⟩
  | work op =>
    unfold Crawls.step
    dsimp only
    split
    next => exact h
    next r q done => exact h.work op.2 done
  | next i d =>
    unfold Crawls.step
    dsimp only
    split
    next => exact h
    next call found =>
      obtain same | ⟨row, e, named, keyed, step⟩ := next_cases (b := b) h.sound call d (spares call found)
      · rw [same, record_same]
        exact ⟨h.sound, h.entered, h.present, h.once⟩
      · rw [← named]
        exact (h.enter hex keyed step _).2

theorem kept_start (sha : Sha256) : start.Kept sha where
  sound := sound_empty
  entered id row found := by
    rw [show start.queue.job? id = none from rfl] at found
    cases found
  present c id mem := absurd mem List.not_mem_nil
  once c c' id mem := absurd mem List.not_mem_nil

theorem kept_run (hex : HexDigests env.sha) (acts : List Action)
    (spared : Meets (step lib env b json) start (Spares env json) acts) :
    (run (step lib env b json) start acts).Kept env.sha :=
  induct (I := fun _ (s : Crawls) => s.Kept env.sha) (kept_start env.sha)
    (fun _ _ spares h => h.step hex spares) acts spared

/-- The calls in flight are for the crawl, or for crawls whose namespace it does not open, and so are the jobs. -/
structure Clear (s : Crawls) (a : CrawlId) : Prop where
  calls : ∀ call ∈ s.calls, a.Covers call.payload.crawlId → call.payload.crawlId = a
  apart : s.Apart a

theorem Clear.step (h : s.Clear a) (clear : act.Clear a) : (s.step lib env b json act).Clear a := by
  cases act with
  | enqueueUrl c url depth parentUrl =>
    refine ⟨fun call mem => ?_, h.apart⟩
    obtain mem | mem := List.mem_append.mp mem
    · exact h.calls call mem
    · cases List.mem_singleton.mp mem
      exact clear
  | childUrl lease link finalUrl =>
    refine ⟨fun call mem => ?_, h.apart⟩
    obtain mem | mem := List.mem_append.mp mem
    · exact h.calls call mem
    · cases List.mem_singleton.mp mem
      exact clear
  | work op =>
    unfold Crawls.step
    dsimp only
    split
    next => exact h
    next => exact ⟨h.calls, h.apart⟩
  | next i d =>
    unfold Crawls.step
    dsimp only
    split
    next => exact h
    next call found =>
      have known := h.calls call (List.mem_of_getElem? found)
      refine ⟨fun call' mem => ?_, fun c id mem => ?_⟩
      · obtain mem | rfl := List.mem_or_eq_of_mem_set mem
        · exact h.calls call' mem
        · exact known
      · dsimp only [record] at mem
        split at mem
        next =>
          obtain mem | mem := List.mem_append.mp mem
          · exact h.apart c id mem
          · cases List.mem_singleton.mp mem
            exact known
        next => exact h.apart c id mem

theorem clear_start : start.Clear a where
  calls _ mem := absurd mem List.not_mem_nil
  apart _ _ mem := absurd mem List.not_mem_nil

theorem clear_run (acts : List Action) (clear : ∀ act ∈ acts, act.Clear a) :
    (run (step lib env b json) start acts).Clear a := by
  have each : Meets (step lib env b json) start (fun _ act => act.Clear a) acts := by
    rintro before act after rfl
    exact clear act (by simp)
  exact induct (I := fun _ (s : Crawls) => s.Clear a) clear_start (fun _ _ clear h => h.step clear) acts each

theorem Kept.not_listed (h : s.Kept env.sha) (hex : HexDigests env.sha) (apart : s.Apart a) {id : String}
    (other : (a, id) ∉ s.enqueued) : ¬ s.queue.Lists a id :=
  fun lists => other (((h.exact_iff hex).mpr apart id).mp lists)

theorem Kept.sameListed (h : s.Kept env.sha) (hex : HexDigests env.sha) (clear : s.Clear a)
    (spares : s.Spares env json act) (foreign : s.Foreign env b a act) :
    s.queue.SameListed (s.step lib env b json act).queue a := by
  intro row opens
  cases act with
  | enqueueUrl | childUrl => exact Iff.rfl
  | work op =>
    unfold Crawls.step
    dsimp only
    split
    next => exact Iff.rfl
    next r q done =>
      obtain ⟨ids, subjects, others⟩ := foreign _ done
      by_cases subject : row.jobId ∈ ids
      · have unlisted := h.not_listed hex clear.apart (others _ subject)
        constructor
        · intro found
          have key := (h.sound.accounted done).keys op.2 row.jobId
          rw [found] at key
          obtain ⟨row', found', same⟩ := Option.map_eq_some_iff.mp key.symm
          exact absurd ⟨row', found', same.symm ▸ opens⟩ unlisted
        · exact fun found => absurd ⟨row, found, opens⟩ unlisted
      · rw [(h.sound.accounted done).others subjects subject]
  | next i d =>
    unfold Crawls.step
    dsimp only
    split
    next => exact Iff.rfl
    next call found =>
      obtain same | ⟨row', e, named, keyed, step⟩ := next_cases (b := b) h.sound call d (spares call found)
      · dsimp only
        rw [same]
      · rw [call.payload.crawlId.strip_key hex] at keyed
        obtain ⟨-, absent, new⟩ | ⟨-, same⟩ := entered_job? step row.jobId
        · refine iff_of_false (fun here => ?_) (fun here => ?_)
          · cases new.symm.trans here
            rw [keyed, CrawlId.covers_iff hex] at opens
            exact foreign call found (clear.calls call (List.mem_of_getElem? found) opens)
          · cases absent.symm.trans here
        · dsimp only
          rw [same]

end Steps

section Sample

theorem sample_hex : HexDigests sampleSha := by
  intro s
  have digits : (sampleDigest s).toList.all hexDigits.contains = true := by
    unfold sampleDigest
    split_ifs <;> exact all_toList_ofList (by decide +kernel)
  exact fun ch mem => List.contains_iff_mem.mp (List.all_eq_true.mp digits ch mem)

def sampleJson : CrawlJson := ⟨fun _ => ⟨"{}"⟩, fun _ => ⟨"", -1, []⟩⟩

def sampleCrawl (text : String) (stripped : strip text = text) (accepted : (crawlNamespace text).isOk) :
    Coordinator :=
  .new (Crawler.Crawl.sampleSettings ["http://a.example/"] 100 (by decide) (by decide) (by decide))
    ⟨text, stripped, accepted⟩ {} "" ""

def sampleDraw : EnqueueDraw := ⟨⟨"1", "1", false⟩, "job", "2030-01-01"⟩

/-- A crawl enqueues its seed, up to the enqueue itself. -/
def sampleActs (c : Coordinator) : List Action :=
  [.enqueueUrl c "http://a.example/" 0 "", .next 0 sampleDraw, .next 0 sampleDraw]

def sampleA : Coordinator := sampleCrawl "a" (by decide) (by decide)

def sampleB : Coordinator := sampleCrawl "b" (by decide) (by decide)

def sampleAB : Coordinator := sampleCrawl "a:b" (by decide) (by decide)

end Sample

theorem foreign_next {env : Env} {b : Backend} {s : Crawls} {a : CrawlId} {i : Nat} {d : EnqueueDraw}
    (other : ∀ call ∈ s.calls[i]?, call.payload.crawlId ≠ a) : s.Foreign env b a (.next i d) := other

end Crawls

end Arenyxa.Distributed
