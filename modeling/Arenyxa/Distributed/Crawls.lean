import Arenyxa.Crawler.Engine
import Arenyxa.Distributed.Runs

/-! Crawls on the distributed queue. Every URL of a crawl is a job whose idempotency key opens with the namespace of
the crawl; a coordinator and a worker read the counts of that namespace before they enqueue, each read and the enqueue
in a transaction of its own. -/

namespace Arenyxa.Distributed

open Outcome QueueError
open Crawler (Library Settings canonicalizeUrl inScope)

def distributedCrawlJobKind : String := "crawler.fetch.v1"

structure DistributedCrawlPolicy where
  maxPendingJobs : Int := 2000
  maxResultLinks : Int := 512
  jobMaxAttempts : Int := 3
  priorityBase : Int := 100

def DistributedCrawlPolicy.normalized (policy : DistributedCrawlPolicy) : DistributedCrawlPolicy where
  maxPendingJobs := max 1 (min 100000 policy.maxPendingJobs)
  maxResultLinks := max 1 (min 2000 policy.maxResultLinks)
  jobMaxAttempts := max 1 (min 20 policy.jobMaxAttempts)
  priorityBase := max (-1000) (min 1000 policy.priorityBase)

def crawlNamespace (crawlId : String) : Except String String :=
  let value := strip crawlId
  if value = "" ∨ value.toList.any fun ch => isSpace ch || ch.toNat < 32 || ch.toNat == 127 then
    .error "crawl_id is invalid"
  else .ok ("crawl:" ++ value ++ ":")

/-- A crawl id as a coordinator keeps it and its jobs carry it: stripped, and one that has a namespace. -/
structure CrawlId where
  text : String
  stripped : strip text = text
  accepted : (crawlNamespace text).isOk
  deriving DecidableEq

def CrawlId.keyPrefix (c : CrawlId) : String := "crawl:" ++ c.text ++ ":"

def urlIdentity (sha : Sha256) (url : String) : String := sha.hexdigest url

def CrawlId.key (sha : Sha256) (c : CrawlId) (url : String) : String := c.keyPrefix ++ urlIdentity sha url

/-- The payload of a crawl job; its schema is a constant. -/
structure CrawlPayload where
  crawlId : CrawlId
  url : String
  depth : Int
  parentUrl : String
  config : Settings
  policy : DistributedCrawlPolicy
  resourceId : String
  permission : String

/-- What a reconciliation reads of a stored result; a result without a depth has the depth -1. -/
structure CrawlResult where
  finalUrl : String
  depth : Int
  deferredLinks : List String

/-- The two directions of the JSON library. -/
structure CrawlJson where
  payload : CrawlPayload → JsonObject
  result : String → CrawlResult

/-- What an enqueue takes from outside. -/
structure EnqueueDraw where
  root : TraceContext
  jobId : String
  utc : String

def CrawlPayload.enqueueArgs (sha : Sha256) (json : CrawlJson) (p : CrawlPayload) (d : EnqueueDraw) :
    EnqueueArgs where
  kind := distributedCrawlJobKind
  payload := json.payload p
  resourceId := p.resourceId
  permission := p.permission
  idempotencyKey := p.crawlId.key sha p.url
  sideEffectMode := "idempotent"
  maxAttempts := p.policy.jobMaxAttempts
  priority := max (-1000) (p.policy.priorityBase - p.depth)
  idempotencyPrefix := p.crawlId.keyPrefix
  idempotencyPrefixLimit := some p.config.maxPages
  root := d.root
  jobId := d.jobId
  utc := d.utc

namespace Queue

/-- `substr(idempotency_key,1,?)=?`, and the state where one is asked for. -/
def inPrefix (namePrefix : String) (state : Option JobState) (row : Job) : Bool :=
  row.idempotencyKey.toList.take namePrefix.toList.length = namePrefix.toList ∧ ∀ wanted ∈ state, row.state = wanted

def countJobsByIdempotencyPrefix (q : Queue) (namePrefix : String) (state : Option JobState) :
    Except QueueError Nat := do
  let token ← cleanToken namePrefix "idempotency prefix" 192
  return q.jobs.rows.countP (inPrefix token state)

/-- The rows a listing may return: equal times come in any order. -/
def ListsJobsByIdempotencyPrefix (q : Queue) (namePrefix : String) (state : Option JobState) (limit : Int)
    (rows : List Job) : Prop :=
  ∃ (token : String) (all : List Job), cleanToken namePrefix "idempotency prefix" 192 = .ok token ∧
    all.Perm (q.jobs.rows.filter (inPrefix token state)) ∧ all.Pairwise (fun a b => a.createdAt ≤ b.createdAt) ∧
    rows = all.take (max 1 (min 5000 limit)).toNat

end Queue

structure Coordinator where
  crawlId : CrawlId
  config : Settings
  policy : DistributedCrawlPolicy
  resourceId : String
  permission : String

/-- The counts of a snapshot; the rest of it describes the storage of the whole queue. -/
structure DistributedCrawlSnapshot where
  crawlId : String
  jobsTotal : Nat
  queued : Nat
  leased : Nat
  running : Nat
  completed : Nat
  failed : Nat
  reviewRequired : Nat
  backpressureActive : Bool

namespace Coordinator

def new (config : Settings) (crawlId : CrawlId) (policy : DistributedCrawlPolicy) (resourceId permission : String) :
    Coordinator where
  crawlId := crawlId
  config := config
  policy := policy.normalized
  resourceId := if strip resourceId = "" then "crawler:" ++ crawlId.text else strip resourceId
  permission := if strip permission = "" then "crawler.execute" else strip permission

def payload (c : Coordinator) (url : String) (depth : Int) (parentUrl : String) : CrawlPayload :=
  ⟨c.crawlId, url, depth, parentUrl, c.config, c.policy, c.resourceId, c.permission⟩

def snapshot (c : Coordinator) (q : Queue) : Except QueueError DistributedCrawlSnapshot := do
  let count := q.countJobsByIdempotencyPrefix c.crawlId.keyPrefix
  let queued ← count (some .queued)
  let leased ← count (some .leased)
  let running ← count (some .running)
  let completed ← count (some .completed)
  let failed ← count (some .failed)
  let reviewRequired ← count (some .reviewRequired)
  let jobsTotal ← count none
  return ⟨c.crawlId.text, jobsTotal, queued, leased, running, completed, failed, reviewRequired,
    c.policy.maxPendingJobs ≤ queued⟩

/-- The calls of `enqueue_url` that a reconciliation comes to, as long as none meets the back-pressure. -/
def Reconciles (c : Coordinator) (json : CrawlJson) (q : Queue) (limit : Int) (calls : List (String × Int × String)) :
    Prop :=
  ∃ rows, q.ListsJobsByIdempotencyPrefix c.crawlId.keyPrefix (some .completed) limit rows ∧
    calls = rows.flatMap fun row =>
      let result := json.result row.resultJson
      (result.deferredLinks.take c.policy.maxResultLinks.toNat).map fun link =>
        (link, result.depth + 1, result.finalUrl)

end Coordinator

/-- What a caller makes of a link. A worker passes over one that is out of scope, held, or over the limit. -/
inductive Answer
  | invalid | depth | scope | maxPages | backpressure | duplicate | skipped | deferred
  | enqueued (jobId : String)
  | raised (e : QueueError)

inductive Origin
  | coordinator | worker

/-- The next transaction of a call. -/
inductive Stage
  | counting | pending | submitting
  | answered (answer : Answer)

def Stage.submits : Stage → Bool
  | .submitting => true
  | _ => false

def Origin.refused : Origin → QueueError → Answer
  | .coordinator, e =>
    if e.code = "DISTRIBUTED_IDEMPOTENCY_COLLISION" then .duplicate
    else if e.code = "DISTRIBUTED_PREFIX_LIMIT" then .maxPages
    else .raised e
  | .worker, e =>
    match e with
    | .arenyxa code _ _ =>
      if code = "DISTRIBUTED_IDEMPOTENCY_COLLISION" ∨ code = "DISTRIBUTED_PREFIX_LIMIT" then .skipped else .deferred
    | _ => .raised e

def Origin.pressed : Origin → Answer
  | .coordinator => .backpressure
  | .worker => .deferred

/-- A URL on its way into the queue. -/
structure Call where
  origin : Origin
  payload : CrawlPayload
  stage : Stage

section Calls

variable {δ : Type*} (lib : Library δ) (env : Env) (b : Backend) (json : CrawlJson)

/-- `enqueue_url` up to its first transaction. -/
def Coordinator.enqueueUrl (c : Coordinator) (url : String) (depth : Int) (parentUrl : String) : Call :=
  let target := canonicalizeUrl lib (lib.strip url)
  { origin := .coordinator
    payload := c.payload target depth parentUrl
    stage :=
      if target = "" then .answered .invalid
      else if depth < 0 ∨ c.config.maxDepth < depth then .answered .depth
      else if 0 < depth ∧ ¬ inScope lib c.config target then .answered .scope
      else .counting }

/-- One link of the page a worker fetched for the job with this payload. -/
def CrawlPayload.childUrl (p : CrawlPayload) (link finalUrl : String) : Call where
  origin := .worker
  payload := { p with url := link, depth := p.depth + 1, parentUrl := finalUrl }
  stage := if inScope lib p.config link then .pending else .answered .skipped

/-- One transaction of a call. -/
def Call.next (call : Call) (d : EnqueueDraw) (q : Queue) : Stage × Queue :=
  let p := call.payload
  match call.stage with
  | .counting =>
    match q.countJobsByIdempotencyPrefix p.crawlId.keyPrefix none with
    | .error e => (.answered (.raised e), q)
    | .ok current => (if p.config.maxPages ≤ current then .answered .maxPages else .pending, q)
  | .pending =>
    match q.countJobsByIdempotencyPrefix p.crawlId.keyPrefix (some .queued) with
    | .error e => (.answered (.raised e), q)
    | .ok queued => (if p.policy.maxPendingJobs ≤ queued then .answered call.origin.pressed else .submitting, q)
  | .submitting =>
    match q.enqueue env b (p.enqueueArgs env.sha json d) with
    | .error e => (.answered (call.origin.refused e), q)
    | .ok (jobId, q) => (.answered (.enqueued jobId), q)
  | .answered answer => (.answered answer, q)

end Calls

/-- Neither an enqueue nor the deletion of history. -/
def Op.Works : Op → Prop
  | .enqueue _ | .retainTerminalJobs _ _ | .backfillTerminalFences => False
  | _ => True

/-- A transaction of a worker, or of the recovery that runs beside them. -/
abbrev WorkOp := { op : Op // op.Works }

/-- The queue with the calls in flight, and with each job the crawl it was enqueued for. -/
structure Crawls where
  queue : Queue
  calls : List Call
  enqueued : List (CrawlId × String)

inductive Crawls.Action
  | enqueueUrl (c : Coordinator) (url : String) (depth : Int) (parentUrl : String)
  | childUrl (lease : CrawlPayload) (link finalUrl : String)
  | next (i : Nat) (d : EnqueueDraw)
  | work (op : WorkOp)

namespace Crawls

def start : Crawls := ⟨.empty, [], []⟩

/-- A job is enqueued for the crawl whose call puts it into the queue. -/
def record (s : Crawls) (c : CrawlId) (jobId : String) (q : Queue) : List (CrawlId × String) :=
  if s.queue.job? jobId = none ∧ (q.job? jobId).isSome then s.enqueued ++ [(c, jobId)] else s.enqueued

variable {δ : Type*} (lib : Library δ) (env : Env) (b : Backend) (json : CrawlJson)

def step (s : Crawls) : Action → Crawls
  | .enqueueUrl c url depth parentUrl => { s with calls := s.calls ++ [c.enqueueUrl lib url depth parentUrl] }
  | .childUrl lease link finalUrl => { s with calls := s.calls ++ [lease.childUrl lib link finalUrl] }
  | .next i d =>
    match s.calls[i]? with
    | none => s
    | some call =>
      let after := call.next env b json d s.queue
      { queue := after.2
        calls := s.calls.set i { call with stage := after.1 }
        enqueued := s.record call.payload.crawlId d.jobId after.2 }
  | .work op =>
    match op.1.exec env b s.queue with
    | .error _ => s
    | .ok (_, q) => { s with queue := q }

end Crawls

end Arenyxa.Distributed
