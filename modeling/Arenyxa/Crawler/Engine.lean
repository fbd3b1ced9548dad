import Arenyxa.Lib.History
import Mathlib.Algebra.Order.Ring.Rat
import Mathlib.Data.List.Dedup
import Mathlib.Data.List.DropRight
import Mathlib.Data.List.Infix
import Mathlib.Data.List.Sort

/-! The crawl kernel: a stable priority frontier, a bounded set of URL digests, and the pacing of the hosts. -/

namespace Arenyxa.Crawler

structure FrontierRequest where
  url : String
  depth : Nat
  parentUrl : String
  priority : Int
  sequence : Nat

/-- A higher priority is dispatched first, and an older request first among equals. -/
def FrontierRequest.Before (a b : FrontierRequest) : Prop :=
  b.priority < a.priority ∨ a.priority = b.priority ∧ a.sequence ≤ b.sequence

instance : DecidableRel FrontierRequest.Before := fun a b => by
  unfold FrontierRequest.Before
  infer_instance

structure PriorityFrontier where
  heap : List FrontierRequest
  sequence : Nat

namespace PriorityFrontier

def empty : PriorityFrontier := ⟨[], 0⟩

def push (frontier : PriorityFrontier) (url : String) (depth : Nat) (parentUrl : String) (priority : Int) :
    PriorityFrontier where
  heap := frontier.heap.orderedInsert FrontierRequest.Before ⟨url, depth, parentUrl, priority, frontier.sequence + 1⟩
  sequence := frontier.sequence + 1

def pop (frontier : PriorityFrontier) : Option (FrontierRequest × PriorityFrontier) :=
  match frontier.heap with
  | [] => none
  | first :: rest => some (first, { frontier with heap := rest })

variable {frontier : PriorityFrontier} {url parentUrl : String} {depth : Nat} {priority : Int}

theorem push_perm : ((frontier.push url depth parentUrl priority).heap).Perm
    (⟨url, depth, parentUrl, priority, frontier.sequence + 1⟩ :: frontier.heap) :=
  List.perm_orderedInsert ..

theorem heap_of_pop {first : FrontierRequest} {rest : PriorityFrontier} (pops : frontier.pop = some (first, rest)) :
    frontier.heap = first :: rest.heap := by
  rw [pop] at pops
  split at pops
  next => cases pops
  next here =>
    cases pops
    exact here

end PriorityFrontier

/-- The digests of the URLs seen; it holds at most so many. -/
structure UrlDeduplicator (δ : Type*) where
  maxEntries : Nat
  seen : List δ

namespace UrlDeduplicator

variable {δ : Type*} [DecidableEq δ]

/-- Whether the URL is new; `none` is the safety bound. -/
def add (dedup : UrlDeduplicator δ) (key : δ) : Option (Bool × UrlDeduplicator δ) :=
  if key ∈ dedup.seen then some (false, dedup)
  else if dedup.maxEntries ≤ dedup.seen.length then none
  else some (true, { dedup with seen := key :: dedup.seen })

end UrlDeduplicator

/-- The calls in flight of each host, and when it may be called again. -/
structure HostRateController where
  perHostConcurrency : Nat
  readyAt : String → Rat
  active : String → Nat

namespace HostRateController

def new (perHostConcurrency : Nat) : HostRateController where
  perHostConcurrency := max 1 perHostConcurrency
  readyAt _ := 0
  active _ := 0

/-- `none` when the host is unknown, full, or not ready yet. -/
def acquire (rate : HostRateController) (host : String) (delaySeconds now : Rat) : Option HostRateController :=
  if host = "" ∨ rate.perHostConcurrency ≤ rate.active host ∨ now < rate.readyAt host then none
  else some { rate with
    active := Function.update rate.active host (rate.active host + 1)
    readyAt := Function.update rate.readyAt host (now + max 0 delaySeconds) }

def release (rate : HostRateController) (host : String) : HostRateController :=
  { rate with active := Function.update rate.active host (rate.active host - 1) }

theorem acquire_some {rate after : HostRateController} {host : String} {delaySeconds now : Rat}
    (acquires : rate.acquire host delaySeconds now = some after) :
    rate.active host < rate.perHostConcurrency ∧ after.perHostConcurrency = rate.perHostConcurrency ∧
      after.active = Function.update rate.active host (rate.active host + 1) := by
  rw [acquire] at acquires
  split at acquires
  next => cases acquires
  next free =>
    simp only [not_or, not_le] at free
    cases acquires
    exact ⟨free.2.1, rfl, rfl⟩

end HostRateController

end Arenyxa.Crawler

/-! The run of the crawler engine: the loop of its main thread, one scan of a frontier entry or one collected page
at a time. The environment answers for robots.txt, the clock, the workers and the cancellation. -/

namespace Arenyxa.Crawler

open History

/-- A URL taken apart; `none` as the port is one that is out of range. -/
structure SplitResult where
  scheme : String
  hostname : Option String
  port : Option (Option Nat)
  path : String
  query : String

/-- What the standard library makes of texts and URLs; a text that it refuses is `none`. -/
structure Library (δ : Type*) where
  urlsplit : String → Option SplitResult
  urlunsplit : String → String → String → String → String
  strip : String → String
  casefold : String → String
  idna : String → Option String
  fnmatchcase : String → String → Bool
  sha256 : String → δ

def lstripDots (value : String) : String := String.ofList (value.toList.dropWhile (· = '.'))

def rstripDots (value : String) : String := String.ofList (value.toList.rdropWhile (· = '.'))

def endsWith (value ending : String) : Bool := ending.toList.isSuffixOf value.toList

/-- A normalized configuration. -/
structure Settings where
  seeds : List String
  maxPages : Nat
  maxDepth : Nat
  concurrency : Nat
  perHostConcurrency : Nat
  perHostDelaySeconds : Rat
  blockedDomains : List String
  respectRobotsTxt : Bool
  sameSiteOnly : Bool
  includeSubdomains : Bool
  allowedDomains : List String
  includeUrlGlobs : List String
  excludeUrlGlobs : List String
  maxRecords : Nat
  distinct : seeds.Nodup
  seedBound : seeds.length ≤ 10000
  onePage : 1 ≤ maxPages
  oneHost : 1 ≤ perHostConcurrency

section Domains

variable {δ : Type*} (lib : Library δ)

def Library.scheme (url : String) : String := ((lib.urlsplit url).map SplitResult.scheme).getD ""

/-- The host name of a URL, empty when it has none. -/
def Library.hostname (url : String) : String := ((lib.urlsplit url).bind SplitResult.hostname).getD ""

/-- Empty for a text that is no URL of the web. -/
def canonicalizeUrl (raw : String) : String :=
  match lib.urlsplit (lib.strip raw) with
  | none => ""
  | some parsed =>
    let scheme := lib.casefold parsed.scheme
    if (scheme ≠ "http" ∧ scheme ≠ "https") ∨ parsed.hostname.getD "" = "" then ""
    else match lib.idna (parsed.hostname.getD ""), parsed.port with
      | some ascii, some port =>
        let host := rstripDots (lib.casefold ascii)
        let netloc := match port with
          | none => host
          | some port =>
            if (scheme = "http" ∧ port = 80) ∨ (scheme = "https" ∧ port = 443) then host
            else host ++ ":" ++ toString port
        lib.urlunsplit scheme netloc (if parsed.path = "" then "/" else parsed.path) parsed.query
      | _, _ => ""

def normalizeDomain (raw : String) : String :=
  let value := rstripDots (lib.casefold (lib.strip raw))
  let value := if "://".toList <:+: value.toList then lib.hostname value else value
  match lib.idna (lstripDots value) with
  | some ascii => rstripDots (lib.casefold ascii)
  | none => ""

def blockedDomain (host : String) (patterns : List String) : Bool :=
  let normalized := normalizeDomain lib host
  patterns.any fun pattern =>
    let value := rstripDots (lib.strip (lib.casefold pattern))
    if value = "" then false
    else if value.toList.any fun c => c = '*' ∨ c = '?' ∨ c = '[' then lib.fnmatchcase normalized value
    else normalized = value || endsWith normalized ("." ++ value)

def domainMatches (host allowed : String) (includeSubdomains : Bool) : Bool :=
  host = allowed || includeSubdomains && endsWith host ("." ++ allowed)

/-- `HostRateController.host`. -/
def rateHost (url : String) : String := rstripDots (lib.casefold (lib.hostname url))

def Settings.seedHosts (c : Settings) : List String :=
  (c.seeds.map fun url => normalizeDomain lib (lib.hostname url)).filter (· ≠ "")

def inScope (c : Settings) (url : String) : Bool :=
  if (lib.scheme url ≠ "http" ∧ lib.scheme url ≠ "https") ∨ lib.hostname url = "" then false
  else
    let host := normalizeDomain lib (lib.hostname url)
    if host = "" then false
    else if blockedDomain lib host c.blockedDomains then false
    else if !(if c.allowedDomains ≠ [] then
        c.allowedDomains.any fun allowed => domainMatches host allowed c.includeSubdomains
      else !c.sameSiteOnly || (c.seedHosts lib).any fun seed =>
        domainMatches host seed c.includeSubdomains) then false
    else if c.includeUrlGlobs ≠ [] ∧ !c.includeUrlGlobs.any (lib.fnmatchcase url) then false
    else !c.excludeUrlGlobs.any (lib.fnmatchcase url)

end Domains

/-- A frontier entry as the workers see it. -/
structure FrontierItem where
  url : String
  depth : Nat
  parentUrl : String

/-- What a worker has made of a page. -/
structure Fetched where
  finalUrl : String
  status : Int
  extracted : List (String × String)
  qualityFlags : List String
  links : List String

structure CrawlPage where
  requestedUrl : String
  finalUrl : String
  depth : Nat
  parentUrl : String
  status : Int
  extracted : List (String × String)
  qualityFlags : List String

def Fetched.page (fetched : Fetched) (entry : FrontierItem) : CrawlPage where
  requestedUrl := entry.url
  finalUrl := fetched.finalUrl
  depth := entry.depth
  parentUrl := entry.parentUrl
  status := fetched.status
  extracted := fetched.extracted
  qualityFlags := fetched.qualityFlags

/-- The statuses of a page that has been fetched. -/
def CrawlPage.succeeded (page : CrawlPage) : Bool := 200 ≤ page.status ∧ page.status < 400

structure CrawlRecord where
  url : String
  depth : Nat
  extracted : List (String × String)
  qualityFlags : List String

/-- What robots.txt says of a URL. -/
structure RobotsAnswer where
  allowed : Bool
  delaySeconds : Rat

/-- Where the main thread is. -/
inductive Phase
  | entering
  | scanning (scanBudget : Nat)
  | collecting
  | finished
  | raised
  deriving DecidableEq

/-- An entry handed to a worker, with what robots.txt had said. -/
structure Submission where
  entry : FrontierItem
  allowed : Bool

structure Crawl (δ : Type*) where
  phase : Phase
  frontier : PriorityFrontier
  dedup : UrlDeduplicator δ
  completed : List String
  pages : List CrawlPage
  records : List CrawlRecord
  errors : List (String × String)
  warnings : List String
  pending : List FrontierItem
  rate : HostRateController
  submitted : Nat
  succeeded : Nat
  failed : Nat
  discovered : Nat
  skipped : Nat
  duplicates : Nat
  robotsDenied : Nat
  cancelled : Bool
  /-- Everything handed to a worker, in order. -/
  submissions : List Submission
  /-- The URLs that robots.txt has denied. -/
  denied : List String

inductive Move
  | cancel
  | enter
  | scan (robots : RobotsAnswer) (now : Rat)
  | collect (k : Nat) (outcome : Except String Fetched)
  | leave

namespace Crawl

variable {δ : Type*} [DecidableEq δ] (lib : Library δ) (c : Settings)

def maxEntries : Nat := min 2000000 (max 10000 (c.maxPages * 100))

def discoveryCap : Nat := min 1000000 (max c.seeds.length (c.maxPages * 50))

/-- A seed goes to the frontier whatever the set of digests says of it. -/
def seed (s : Crawl δ) (url : String) : Crawl δ :=
  match s.dedup.add (lib.sha256 url) with
  | some (_, dedup) => { s with
      frontier := s.frontier.push url 0 "" 0
      dedup := dedup }
  | none => { s with phase := .raised }

def start : Crawl δ :=
  c.seeds.foldl (seed lib)
    { phase := .entering
      frontier := .empty
      dedup := ⟨maxEntries c, []⟩
      completed := []
      pages := []
      records := []
      errors := []
      warnings := []
      pending := []
      rate := .new c.perHostConcurrency
      submitted := 0
      succeeded := 0
      failed := 0
      discovered := c.seeds.length
      skipped := 0
      duplicates := 0
      robotsDenied := 0
      cancelled := false
      submissions := []
      denied := [] }

def complete (s : Crawl δ) (url : String) : Crawl δ := { s with completed := s.completed.insert url }

def enter (s : Crawl δ) : Crawl δ :=
  if (s.frontier.heap ≠ [] ∨ s.pending ≠ []) ∧ s.completed.length < c.maxPages then
    if s.cancelled then { s with phase := .finished }
    else { s with phase := .scanning s.frontier.heap.length }
  else { s with phase := .finished }

/-- What follows the scan of the frontier. -/
def scanned (s : Crawl δ) : Crawl δ :=
  if s.pending = [] then
    if s.frontier.heap = [] ∨ c.maxPages ≤ s.submitted then { s with phase := .finished }
    else { s with phase := .entering }
  else { s with phase := .collecting }

/-- One entry of the frontier, popped. -/
def dispatch (s : Crawl δ) (request : FrontierRequest) (robots : RobotsAnswer) (now : Rat) : Crawl δ :=
  let entry : FrontierItem := ⟨request.url, request.depth, request.parentUrl⟩
  if entry.url ∈ s.completed then { s with duplicates := s.duplicates + 1 }
  else if 0 < entry.depth ∧ !inScope lib c entry.url then { s with skipped := s.skipped + 1 }
  else if normalizeDomain lib (lib.hostname entry.url) = "" then { s with skipped := s.skipped + 1 }
  else if c.respectRobotsTxt && !robots.allowed then
    { s.complete entry.url with
      robotsDenied := s.robotsDenied + 1
      denied := entry.url :: s.denied }
  else
    let delay := max c.perHostDelaySeconds (if c.respectRobotsTxt then robots.delaySeconds else 0)
    match s.rate.acquire (rateHost lib entry.url) delay now with
    | none => { s with frontier := s.frontier.push entry.url entry.depth entry.parentUrl 0 }
    | some rate => { s with
        rate := rate
        pending := s.pending ++ [entry]
        submitted := s.submitted + 1
        submissions := s.submissions ++ [⟨entry, robots.allowed⟩] }

/-- One turn of the scan of the frontier. -/
def scan (s : Crawl δ) (scanBudget : Nat) (robots : RobotsAnswer) (now : Rat) : Crawl δ :=
  match s.frontier.pop, scanBudget with
  | some (request, frontier), scanBudget + 1 =>
    if s.pending.length < c.concurrency ∧ s.submitted < c.maxPages ∧ !s.cancelled then
      dispatch lib c { s with
        frontier := frontier
        phase := .scanning scanBudget } request robots now
    else s.scanned c
  | _, _ => s.scanned c

/-- A link of a fetched page; `none` when the set of digests is full. -/
def mention (s : Crawl δ) (page : CrawlPage) (link : String) : Option (Crawl δ) :=
  if link ∈ s.completed then some { s with duplicates := s.duplicates + 1 }
  else match s.dedup.add (lib.sha256 link) with
    | none => none
    | some (false, _) => some { s with duplicates := s.duplicates + 1 }
    | some (true, dedup) =>
      if inScope lib c link then
        some { s with
          dedup := dedup
          frontier := s.frontier.push link (page.depth + 1) page.finalUrl (-(page.depth + 1 : Int))
          discovered := s.discovered + 1 }
      else some { s with
        dedup := dedup
        skipped := s.skipped + 1 }

/-- The links of a fetched page, up to the discovery bound. -/
def follow (s : Crawl δ) (page : CrawlPage) : List String → Crawl δ
  | [] => s
  | link :: rest =>
    if discoveryCap c ≤ s.dedup.seen.length then
      { s with warnings := s.warnings ++ ["Crawler frontier discovery bound reached; additional links were ignored"] }
    else match s.mention lib c page link with
      | some s => follow s page rest
      | none => { s with phase := .raised }

/-- A page joins the results. -/
def tally (s : Crawl δ) (page : CrawlPage) : Crawl δ :=
  { s with
    pages := s.pages ++ [page]
    succeeded := if page.succeeded then s.succeeded + 1 else s.succeeded
    failed := if page.succeeded then s.failed else s.failed + 1
    records := if page.extracted ≠ [] ∧ s.records.length < c.maxRecords then
      s.records ++ [⟨page.finalUrl, page.depth, page.extracted, page.qualityFlags⟩] else s.records }

/-- A page that a worker has brought, with its links. -/
def report (s : Crawl δ) (page : CrawlPage) (links : List String) : Crawl δ :=
  if page.depth < c.maxDepth ∧ page.succeeded then (s.tally c page).follow lib c page links else s.tally c page

/-- A done future leaves the pending ones, and its URL is completed. -/
def retire (s : Crawl δ) (k : Nat) (entry : FrontierItem) : Crawl δ :=
  { s with
    pending := s.pending.eraseIdx k
    rate := s.rate.release (rateHost lib entry.url)
    completed := s.completed.insert entry.url }

def collect (s : Crawl δ) (k : Nat) (entry : FrontierItem) : Except String Fetched → Crawl δ
  | .error error => { s.retire lib k entry with
      failed := s.failed + 1
      errors := s.errors ++ [(entry.url, error)] }
  | .ok fetched => (s.retire lib k entry).report lib c (fetched.page entry) fetched.links

def step (s : Crawl δ) : Move → Crawl δ
  | .cancel => { s with cancelled := true }
  | .enter => match s.phase with
    | .entering => s.enter c
    | _ => s
  | .scan robots now => match s.phase with
    | .scanning scanBudget => s.scan lib c scanBudget robots now
    | _ => s
  | .collect k outcome => match s.phase, s.pending[k]? with
    | .collecting, some entry => s.collect lib c k entry outcome
    | _, _ => s
  | .leave => match s.phase with
    | .collecting => { s with phase := .entering }
    | _ => s

end Crawl

end Arenyxa.Crawler
