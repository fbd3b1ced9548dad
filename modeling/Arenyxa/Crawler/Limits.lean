import Arenyxa.Crawler.Engine
import Mathlib.Data.List.Perm.Basic

/-! The bounds that a crawl keeps in every run, and when it reports every page that it has submitted. -/

namespace Arenyxa.Crawler

open History

namespace Crawl

section Bounds

variable {δ : Type*} (lib : Library δ) (c : Settings)

/-- The bounds of the configuration, over everything submitted and everything in flight. -/
structure Safe (s : Crawl δ) : Prop where
  once : (s.submissions.map (·.entry.url)).Nodup
  depth : ∀ x ∈ s.submissions, x.entry.depth ≤ c.maxDepth
  scope : ∀ x ∈ s.submissions, 0 < x.entry.depth → inScope lib c x.entry.url = true
  robots : c.respectRobotsTxt = true → ∀ x ∈ s.submissions, x.allowed = true ∧ x.entry.url ∉ s.denied
  pages : s.submissions.length ≤ c.maxPages
  perHost : ∀ host, s.pending.countP (fun entry => rateHost lib entry.url = host) ≤ c.perHostConcurrency
  overall : s.pending.length ≤ c.concurrency

/-- Every URL that the crawl has at hand: waiting, in flight or done. -/
def urls (s : Crawl δ) : List String :=
  s.frontier.heap.map (·.url) ++ (s.pending.map (·.url) ++ s.completed)

/-- Each URL at hand is there once and known; what was submitted is in flight or done; the books agree. -/
structure Sound (s : Crawl δ) : Prop extends Safe lib c s where
  distinct : s.urls.Nodup
  seen : ∀ url ∈ s.urls, lib.sha256 url ∈ s.dedup.seen
  room : s.dedup.seen.length ≤ discoveryCap c
  entries : s.dedup.maxEntries = maxEntries c
  calm : s.phase ≠ .raised
  depths : ∀ x ∈ s.frontier.heap, x.depth ≤ c.maxDepth
  taken : ∀ x ∈ s.submissions, x.entry.url ∈ s.pending.map (·.url) ++ s.completed
  refused : ∀ url ∈ s.denied, url ∈ s.completed ∧ url ∉ s.submissions.map (·.entry.url)
  submits : s.submitted = s.submissions.length
  active : ∀ host, s.rate.active host = s.pending.countP fun entry => rateHost lib entry.url = host
  limit : s.rate.perHostConcurrency = c.perHostConcurrency
  accounts : s.submitted = s.succeeded + s.failed + s.pending.length
  reports : ∀ x ∈ s.submissions, x.entry.url ∈ s.pending.map (·.url) ∨
    x.entry.url ∈ s.pages.map CrawlPage.requestedUrl ++ s.errors.map Prod.fst

end Bounds

section Steps

variable {δ : Type*} {lib : Library δ} {c : Settings} {s s' : Crawl δ}

theorem cap_le_entries : discoveryCap c ≤ maxEntries c := by
  have := c.seedBound
  simp only [discoveryCap, maxEntries]
  omega

theorem Sound.has_room (h : s.Sound lib c) (room : s.dedup.seen.length < discoveryCap c) :
    s.dedup.seen.length < s.dedup.maxEntries :=
  h.entries ▸ room.trans_le cap_le_entries

theorem Sound.noted (h : s.Sound lib c) (digest : δ) (room : s.dedup.seen.length < discoveryCap c) :
    ({ s with dedup := { s.dedup with seen := digest :: s.dedup.seen } } : Crawl δ).Sound lib c :=
  { h with
    seen := fun other here => List.mem_cons_of_mem _ (h.seen other here)
    room := room
    entries := h.entries }

theorem Sound.in_phase (h : s.Sound lib c) {phase : Phase} (calm : phase ≠ .raised) :
    ({ s with phase := phase } : Crawl δ).Sound lib c :=
  { h with calm := calm }

theorem Sound.enter (h : s.Sound lib c) : (s.enter c).Sound lib c := by
  rw [Crawl.enter]
  split
  next => split <;> exact h.in_phase nofun
  next => exact h.in_phase nofun

theorem Sound.scanned (h : s.Sound lib c) : (s.scanned c).Sound lib c := by
  rw [Crawl.scanned]
  split
  next => split <;> exact h.in_phase nofun
  next => exact h.in_phase nofun

/-- A request popped from the frontier: nothing else at hand has its URL. -/
structure InHand (lib : Library δ) (c : Settings) (s : Crawl δ) (request : FrontierRequest) : Prop where
  fresh : request.url ∉ s.urls
  known : lib.sha256 request.url ∈ s.dedup.seen
  depth : request.depth ≤ c.maxDepth

theorem Sound.popped (h : s.Sound lib c) {request : FrontierRequest} {rest : PriorityFrontier} (phase : Phase)
    (pops : s.frontier.pop = some (request, rest)) (calm : phase ≠ .raised) :
    ({ s with
        frontier := rest
        phase := phase } : Crawl δ).Sound lib c ∧
      ({ s with
        frontier := rest
        phase := phase } : Crawl δ).InHand lib c request := by
  have heap := PriorityFrontier.heap_of_pop pops
  have urls : s.urls = request.url :: ({ s with frontier := rest } : Crawl δ).urls := by
    simp only [Crawl.urls, heap, List.map_cons, List.cons_append]
  have distinct := h.distinct
  rw [urls, List.nodup_cons] at distinct
  have seen := h.seen
  rw [urls, List.forall_mem_cons] at seen
  have depths := h.depths
  rw [heap, List.forall_mem_cons] at depths
  exact ⟨{ h with
    distinct := distinct.2
    seen := seen.2
    calm := calm
    depths := depths.2 }, ⟨distinct.1, seen.1, depths.1⟩⟩

theorem joins {url : String} {known : List δ} (perm : s'.urls.Perm (url :: s.urls)) (distinct : s.urls.Nodup)
    (seen : ∀ url ∈ s.urls, lib.sha256 url ∈ known) (fresh : url ∉ s.urls) (new : lib.sha256 url ∈ known) :
    s'.urls.Nodup ∧ ∀ url ∈ s'.urls, lib.sha256 url ∈ known := by
  refine ⟨perm.nodup_iff.mpr (List.nodup_cons.mpr ⟨fresh, distinct⟩), fun other here => ?_⟩
  rcases List.mem_cons.mp (perm.mem_iff.mp here) with rfl | here
  · exact new
  · exact seen other here

theorem urls_push {url parentUrl : String} {depth : Nat} {priority : Int} :
    ({ s with frontier := s.frontier.push url depth parentUrl priority } : Crawl δ).urls.Perm (url :: s.urls) :=
  (PriorityFrontier.push_perm.map FrontierRequest.url).append_right _

theorem urls_submit (entry : FrontierItem) :
    ({ s with pending := s.pending ++ [entry] } : Crawl δ).urls.Perm (entry.url :: s.urls) := by
  simp only [urls, List.map_append, List.map_cons, List.map_nil, List.append_assoc, List.singleton_append]
  exact (List.Perm.append_left _ List.perm_middle).trans List.perm_middle

theorem urls_complete {url : String} (fresh : url ∉ s.completed) :
    (s.complete url).urls.Perm (url :: s.urls) := by
  simp only [urls, complete, List.insert_of_not_mem fresh]
  exact (List.Perm.append_left _ List.perm_middle).trans List.perm_middle

theorem Sound.pushed (h : s.Sound lib c) {url : String} (parentUrl : String) {depth : Nat} (priority : Int)
    (fresh : url ∉ s.urls) (known : lib.sha256 url ∈ s.dedup.seen) (bound : depth ≤ c.maxDepth) :
    ({ s with frontier := s.frontier.push url depth parentUrl priority } : Crawl δ).Sound lib c := by
  obtain ⟨distinct, seen⟩ := joins urls_push h.distinct h.seen fresh known
  refine { h with distinct := distinct, seen := seen, depths := fun x here => ?_ }
  rcases List.mem_cons.mp (PriorityFrontier.push_perm.mem_iff.mp here) with rfl | here
  · exact bound
  · exact h.depths x here

theorem countP_host (lib : Library δ) {entry : FrontierItem} {entries more : List FrontierItem}
    (perm : more.Perm (entry :: entries)) (host : String) :
    more.countP (fun entry => rateHost lib entry.url = host) =
      entries.countP (fun entry => rateHost lib entry.url = host) +
        if rateHost lib entry.url = host then 1 else 0 := by
  rw [perm.countP_eq, List.countP_cons]
  simp

theorem Sound.submitted (h : s.Sound lib c) {entry : FrontierItem} {allowed : Bool} {rate : HostRateController}
    {delay now : Rat} (acquires : s.rate.acquire (rateHost lib entry.url) delay now = some rate)
    (fresh : entry.url ∉ s.urls) (known : lib.sha256 entry.url ∈ s.dedup.seen) (bound : entry.depth ≤ c.maxDepth)
    (scope : 0 < entry.depth → inScope lib c entry.url = true) (robots : c.respectRobotsTxt = true → allowed = true)
    (free : s.pending.length < c.concurrency) (left : s.submitted < c.maxPages) :
    ({ s with
      rate := rate
      pending := s.pending ++ [entry]
      submitted := s.submitted + 1
      submissions := s.submissions ++ [⟨entry, allowed⟩] } : Crawl δ).Sound lib c := by
  obtain ⟨distinct, seen⟩ := joins (urls_submit entry) h.distinct h.seen fresh known
  obtain ⟨room, limit, active⟩ := HostRateController.acquire_some acquires
  have more : (s.pending ++ [entry]).Perm (entry :: s.pending) := List.perm_append_comm
  have here : entry.url ∉ s.pending.map (·.url) ++ s.completed :=
    fun here => fresh (List.mem_append_right _ here)
  have new : entry.url ∉ s.submissions.map (·.entry.url) := by
    intro old
    obtain ⟨x, old, same⟩ := List.mem_map.mp old
    exact here (same ▸ h.taken x old)
  have undenied : entry.url ∉ s.denied := fun denied => here (List.mem_append_right _ (h.refused _ denied).1)
  exact {
    once := by
      rw [List.map_append, List.nodup_append]
      refine ⟨h.once, List.nodup_singleton _, ?_⟩
      rintro url old _ (_ | ⟨_, ⟨⟩⟩) rfl
      exact new old
    depth := List.forall_mem_append.mpr ⟨h.depth, List.forall_mem_singleton.mpr bound⟩
    scope := List.forall_mem_append.mpr ⟨h.scope, List.forall_mem_singleton.mpr scope⟩
    robots := fun respects => List.forall_mem_append.mpr
      ⟨h.robots respects, List.forall_mem_singleton.mpr ⟨robots respects, undenied⟩⟩
    pages := by
      have := h.submits
      simp only [List.length_append, List.length_singleton]
      omega
    perHost := fun host => by
      rw [countP_host lib more]
      split
      next same =>
        rw [← h.active host, ← same]
        exact h.limit ▸ room
      next => exact h.perHost host
    overall := by
      simp only [List.length_append, List.length_singleton]
      omega
    distinct := distinct
    seen := seen
    room := h.room
    entries := h.entries
    calm := h.calm
    depths := h.depths
    taken := List.forall_mem_append.mpr ⟨fun x old => by
      rw [List.map_append]
      rcases List.mem_append.mp (h.taken x old) with flying | done
      · exact List.mem_append_left _ (List.mem_append_left _ flying)
      · exact List.mem_append_right _ done, List.forall_mem_singleton.mpr (by simp)⟩
    refused := fun url denied => by
      obtain ⟨done, old⟩ := h.refused url denied
      refine ⟨done, fun more => ?_⟩
      rw [List.map_append, List.mem_append] at more
      rcases more with more | more
      · exact old more
      · rw [List.mem_singleton.mp more] at denied
        exact undenied denied
    submits := by simp [h.submits]
    active := fun host => by
      rw [countP_host lib more, active, Function.update_apply]
      split
      next same =>
        rw [if_pos same.symm, same, h.active]
      next other =>
        rw [if_neg (Ne.symm other), h.active, Nat.add_zero]
    limit := limit.trans h.limit
    accounts := by
      have := h.accounts
      simp only [List.length_append, List.length_singleton]
      omega
    reports := List.forall_mem_append.mpr ⟨fun x old => by
      rcases h.reports x old with flying | reported
      · exact .inl (by rw [List.map_append]; exact List.mem_append_left _ flying)
      · exact .inr reported, List.forall_mem_singleton.mpr (.inl (by simp))⟩ }

theorem Sound.denied (h : s.Sound lib c) {url : String} (fresh : url ∉ s.urls)
    (known : lib.sha256 url ∈ s.dedup.seen) :
    ({ s.complete url with
      robotsDenied := s.robotsDenied + 1
      denied := url :: s.denied } : Crawl δ).Sound lib c := by
  have here : url ∉ s.pending.map (·.url) ++ s.completed := fun here => fresh (List.mem_append_right _ here)
  have undone : url ∉ s.completed := fun done => here (List.mem_append_right _ done)
  have new : ∀ x ∈ s.submissions, x.entry.url ≠ url := fun x old same => here (same ▸ h.taken x old)
  obtain ⟨distinct, seen⟩ := joins (urls_complete undone) h.distinct h.seen fresh known
  exact { h with
    distinct := distinct
    seen := seen
    robots := fun respects x old => ⟨(h.robots respects x old).1, fun denied => by
      rcases List.mem_cons.mp denied with same | denied
      · exact new x old same
      · exact (h.robots respects x old).2 denied⟩
    taken := fun x old => by
      have := h.taken x old
      simp only [complete, List.mem_append, List.mem_insert_iff] at this ⊢
      tauto
    refused := List.forall_mem_cons.mpr ⟨⟨List.mem_insert_self, fun old => by
      obtain ⟨x, old, same⟩ := List.mem_map.mp old
      exact new x old same⟩, fun url denied =>
      ⟨List.mem_insert_of_mem (h.refused url denied).1, (h.refused url denied).2⟩⟩ }

theorem pending_perm {k : Nat} {entry : FrontierItem} (found : s.pending[k]? = some entry) :
    s.pending.Perm (entry :: s.pending.eraseIdx k) := by
  obtain ⟨within, rfl⟩ := List.getElem?_eq_some_iff.mp found
  exact (List.getElem_cons_eraseIdx_perm within).symm

theorem Sound.collected (h : s.Sound lib c) {k : Nat} {entry : FrontierItem} (found : s.pending[k]? = some entry)
    (succeeded failed : Nat) (pages : List CrawlPage) (records : List CrawlRecord) (errors : List (String × String))
    (counts : succeeded + failed = s.succeeded + s.failed + 1)
    (reported : entry.url ∈ pages.map CrawlPage.requestedUrl ++ errors.map Prod.fst)
    (kept : ∀ url ∈ s.pages.map CrawlPage.requestedUrl ++ s.errors.map Prod.fst,
      url ∈ pages.map CrawlPage.requestedUrl ++ errors.map Prod.fst) :
    ({ s with
      pending := s.pending.eraseIdx k
      rate := s.rate.release (rateHost lib entry.url)
      completed := s.completed.insert entry.url
      succeeded := succeeded
      failed := failed
      pages := pages
      records := records
      errors := errors } : Crawl δ).Sound lib c := by
  have perm := pending_perm found
  have length := perm.length_eq
  rw [List.length_cons] at length
  have flying : entry.url ∈ s.pending.map (·.url) := List.mem_map_of_mem (List.mem_of_getElem? found)
  have undone : entry.url ∉ s.completed := by
    intro done
    have distinct := (List.nodup_append.mp h.distinct).2.1
    exact (List.nodup_append.mp distinct).2.2 _ flying _ done rfl
  have moved : (s.pending.eraseIdx k).map (·.url) ++ s.completed.insert entry.url |>.Perm
      (s.pending.map (·.url) ++ s.completed) := by
    rw [List.insert_of_not_mem undone]
    exact List.perm_middle.trans ((perm.map (·.url)).symm.append_right _)
  have same : (s.frontier.heap.map (·.url) ++ ((s.pending.eraseIdx k).map (·.url) ++
      s.completed.insert entry.url)).Perm s.urls := List.Perm.append_left _ moved
  have hosts (host : String) := countP_host lib perm host
  exact {
    once := h.once
    depth := h.depth
    scope := h.scope
    robots := h.robots
    pages := h.pages
    perHost := fun host => by
      have := h.perHost host
      rw [hosts host] at this
      exact Nat.le_of_add_right_le this
    overall := by
      have := h.overall
      simp only
      omega
    distinct := same.nodup_iff.mpr h.distinct
    seen := fun url here => h.seen url (same.mem_iff.mp here)
    room := h.room
    entries := h.entries
    calm := h.calm
    depths := h.depths
    taken := fun x old => moved.mem_iff.mpr (h.taken x old)
    refused := fun url denied => ⟨List.mem_insert_of_mem (h.refused url denied).1, (h.refused url denied).2⟩
    submits := h.submits
    active := fun host => by
      have := h.active host
      rw [hosts host] at this
      simp only [HostRateController.release, Function.update_apply]
      split
      next same =>
        subst same
        rw [if_pos rfl] at this
        rw [this, Nat.add_sub_cancel]
      next other =>
        rw [this, if_neg (Ne.symm other), Nat.add_zero]
    limit := h.limit
    accounts := by
      have := h.accounts
      simp only
      omega
    reports := fun x old => by
      rcases h.reports x old with here | done
      · rcases List.mem_cons.mp ((perm.map (·.url)).mem_iff.mp here) with same | here
        · exact .inr (same ▸ reported)
        · exact .inl here
      · exact .inr (kept _ done) }

theorem Sound.dispatch (h : s.Sound lib c) {request : FrontierRequest} (hand : s.InHand lib c request)
    (robots : RobotsAnswer) (now : Rat) (free : s.pending.length < c.concurrency) (left : s.submitted < c.maxPages) :
    (s.dispatch lib c request robots now).Sound lib c := by
  simp only [Crawl.dispatch]
  split
  next => exact { h with }
  split
  next => exact { h with }
  next inside =>
    split
    next => exact { h with }
    split
    next => exact h.denied hand.fresh hand.known
    next allowed =>
      split
      next => exact h.pushed request.parentUrl 0 hand.fresh hand.known hand.depth
      next rate acquires =>
        refine h.submitted acquires hand.fresh hand.known hand.depth (fun deep => ?_) (fun respects => ?_) free left
        · by_contra out
          exact inside ⟨deep, by simpa using out⟩
        · simpa [respects] using allowed

theorem scan_cases (lib : Library δ) (c : Settings) (s : Crawl δ) (scanBudget : Nat) (robots : RobotsAnswer)
    (now : Rat) :
    s.scan lib c scanBudget robots now = s.scanned c ∨
      ∃ request frontier budget, s.frontier.pop = some (request, frontier) ∧ s.pending.length < c.concurrency ∧
        s.submitted < c.maxPages ∧ s.scan lib c scanBudget robots now = dispatch lib c { s with
          frontier := frontier
          phase := .scanning budget } request robots now := by
  rw [Crawl.scan.eq_def]
  split
  next request frontier budget pops =>
    split
    next runs => exact .inr ⟨request, frontier, budget, pops, runs.1, runs.2.1, rfl⟩
    next => exact .inl rfl
  next => exact .inl rfl

theorem Sound.scan (h : s.Sound lib c) (scanBudget : Nat) (robots : RobotsAnswer) (now : Rat) :
    (s.scan lib c scanBudget robots now).Sound lib c := by
  rcases scan_cases lib c s scanBudget robots now with
    same | ⟨request, frontier, budget, pops, free, left, same⟩
  · rw [same]
    exact h.scanned
  · rw [same]
    obtain ⟨h', hand⟩ := h.popped (.scanning budget) pops nofun
    exact h'.dispatch hand robots now free left

end Steps

section Moves

variable {δ : Type*} [DecidableEq δ] {lib : Library δ} {c : Settings} {s s' : Crawl δ}

theorem mention_cases (lib : Library δ) (c : Settings) (page : CrawlPage) (link : String)
    (room : s.dedup.seen.length < s.dedup.maxEntries) :
    (s.mention lib c page link = some { s with duplicates := s.duplicates + 1 } ∧
      (link ∈ s.completed ∨ lib.sha256 link ∈ s.dedup.seen)) ∨
    lib.sha256 link ∉ s.dedup.seen ∧
      (inScope lib c link = false ∧ s.mention lib c page link = some { s with
        dedup := { s.dedup with seen := lib.sha256 link :: s.dedup.seen }
        skipped := s.skipped + 1 } ∨
      inScope lib c link = true ∧ s.mention lib c page link = some { s with
        dedup := { s.dedup with seen := lib.sha256 link :: s.dedup.seen }
        frontier := s.frontier.push link (page.depth + 1) page.finalUrl (-(page.depth + 1 : Int))
        discovered := s.discovered + 1 }) := by
  by_cases done : link ∈ s.completed
  · exact .inl ⟨by rw [Crawl.mention, if_pos done], .inl done⟩
  by_cases known : lib.sha256 link ∈ s.dedup.seen
  · exact .inl ⟨by rw [Crawl.mention, if_neg done, UrlDeduplicator.add, if_pos known], .inr known⟩
  refine .inr ⟨known, ?_⟩
  have adds : s.dedup.add (lib.sha256 link) =
      some (true, { s.dedup with seen := lib.sha256 link :: s.dedup.seen }) := by
    rw [UrlDeduplicator.add, if_neg known, if_neg (not_le.mpr room)]
  cases inside : inScope lib c link with
  | false => exact .inl ⟨rfl, by rw [Crawl.mention, if_neg done, adds]; simp [inside]⟩
  | true => exact .inr ⟨rfl, by rw [Crawl.mention, if_neg done, adds]; simp [inside]⟩

theorem Sound.mention (h : s.Sound lib c) {page : CrawlPage} (link : String) (within : page.depth < c.maxDepth)
    (room : s.dedup.seen.length < discoveryCap c) :
    ∃ s', s.mention lib c page link = some s' ∧ s'.Sound lib c := by
  rcases mention_cases lib c page link (h.has_room room) with ⟨same, -⟩ | ⟨new, ⟨-, same⟩ | ⟨-, same⟩⟩
  · exact ⟨_, same, { h with }⟩
  · exact ⟨_, same, { h.noted _ room with }⟩
  · have fresh : link ∉ s.urls := fun here => new (h.seen link here)
    have := (h.noted _ room).pushed page.finalUrl (-(page.depth + 1 : Int)) fresh List.mem_cons_self within
    exact ⟨_, same, { this with }⟩

theorem Sound.follow {page : CrawlPage} (within : page.depth < c.maxDepth) (links : List String)
    (h : s.Sound lib c) : (s.follow lib c page links).Sound lib c := by
  induction links generalizing s with
  | nil => exact h
  | cons link rest ih =>
    rw [Crawl.follow]
    split
    next => exact { h with }
    next open' =>
      obtain ⟨s', mentions, h'⟩ := h.mention link within (not_le.mp open')
      rw [mentions]
      exact ih h'

theorem Sound.collect (h : s.Sound lib c) {k : Nat} {entry : FrontierItem} (found : s.pending[k]? = some entry)
    (outcome : Except String Fetched) : (s.collect lib c k entry outcome).Sound lib c := by
  cases outcome with
  | error error =>
    exact h.collected found s.succeeded (s.failed + 1) s.pages s.records (s.errors ++ [(entry.url, error)])
      (by omega) (by simp) (fun url old => by
        simp only [List.map_append, List.mem_append] at old ⊢
        tauto)
  | ok fetched =>
    have reported := h.collected found
      (if (fetched.page entry).succeeded then s.succeeded + 1 else s.succeeded)
      (if (fetched.page entry).succeeded then s.failed else s.failed + 1) (s.pages ++ [fetched.page entry])
      (if (fetched.page entry).extracted ≠ [] ∧ s.records.length < c.maxRecords then
        s.records ++ [⟨(fetched.page entry).finalUrl, (fetched.page entry).depth, (fetched.page entry).extracted,
          (fetched.page entry).qualityFlags⟩] else s.records) s.errors
      (by split <;> omega) (by simp [Fetched.page]) (fun url old => by
        simp only [List.map_append, List.mem_append] at old ⊢
        tauto)
    rw [Crawl.collect, Crawl.report]
    split
    next follows => exact reported.follow follows.1 _
    next => exact reported

theorem Sound.step (h : s.Sound lib c) (move : Move) : (s.step lib c move).Sound lib c := by
  cases move with
  | cancel => exact { h with }
  | enter =>
    simp only [Crawl.step]
    split
    next => exact h.enter
    next => exact h
  | scan robots now =>
    simp only [Crawl.step]
    split
    next => exact h.scan _ robots now
    next => exact h
  | collect k outcome =>
    simp only [Crawl.step]
    split
    next found => exact h.collect found outcome
    next => exact h
  | leave =>
    simp only [Crawl.step]
    split
    next => exact h.in_phase nofun
    next => exact h

theorem Sound.seed (h : s.Sound lib c) {url : String} (fresh : url ∉ s.urls)
    (room : s.dedup.seen.length < discoveryCap c) :
    (s.seed lib url).Sound lib c ∧ (∀ other ∈ (s.seed lib url).urls, other = url ∨ other ∈ s.urls) ∧
      (s.seed lib url).dedup.seen.length ≤ s.dedup.seen.length + 1 := by
  have urls : ∀ other ∈ ({ s with frontier := s.frontier.push url 0 "" 0 } : Crawl δ).urls,
      other = url ∨ other ∈ s.urls := fun other here => List.mem_cons.mp (urls_push.mem_iff.mp here)
  by_cases old : lib.sha256 url ∈ s.dedup.seen
  · rw [Crawl.seed, UrlDeduplicator.add, if_pos old]
    exact ⟨h.pushed "" 0 fresh old (Nat.zero_le _), urls, Nat.le_succ _⟩
  · have open' : ¬ s.dedup.maxEntries ≤ s.dedup.seen.length := by
      rw [h.entries]
      exact not_le.mpr (room.trans_le cap_le_entries)
    rw [Crawl.seed, UrlDeduplicator.add, if_neg old, if_neg open']
    exact ⟨(h.noted _ room).pushed "" 0 fresh List.mem_cons_self (Nat.zero_le _), urls, Nat.le_refl _⟩

theorem Sound.seeded {seeds : List String} (h : s.Sound lib c) (distinct : seeds.Nodup)
    (fresh : ∀ url ∈ seeds, url ∉ s.urls) (room : s.dedup.seen.length + seeds.length ≤ discoveryCap c) :
    (seeds.foldl (Crawl.seed lib) s).Sound lib c := by
  induction seeds generalizing s with
  | nil => exact h
  | cons url rest ih =>
    rw [List.length_cons] at room
    obtain ⟨h', urls, length⟩ := h.seed (fresh url List.mem_cons_self) (by omega)
    rw [List.nodup_cons] at distinct
    refine ih h' distinct.2 (fun other here => ?_) (by omega)
    intro old
    rcases urls other old with rfl | old
    · exact distinct.1 here
    · exact fresh other (List.mem_cons_of_mem _ here) old

theorem seeds_le_cap : c.seeds.length ≤ discoveryCap c := by
  have := c.seedBound
  simp only [discoveryCap]
  omega

theorem sound_start : (start lib c).Sound lib c := by
  refine Sound.seeded ?_ c.distinct (fun _ _ => List.not_mem_nil) (by simpa using seeds_le_cap)
  exact {
    once := List.nodup_nil
    depth := nofun
    scope := nofun
    robots := fun _ => nofun
    pages := Nat.zero_le _
    perHost := fun _ => Nat.zero_le _
    overall := Nat.zero_le _
    distinct := List.nodup_nil
    seen := nofun
    room := Nat.zero_le _
    entries := rfl
    calm := nofun
    depths := nofun
    taken := nofun
    refused := nofun
    submits := rfl
    active := fun _ => rfl
    limit := max_eq_right c.oneHost
    accounts := rfl
    reports := nofun }

theorem sound_run (moves : List Move) : (run (step lib c) (start lib c) moves).Sound lib c := by
  induction moves using List.reverseRecOn with
  | nil => exact sound_start
  | append_singleton moves move ih =>
    rw [run_snoc]
    exact ih.step move

end Moves

section Reports

variable {δ : Type*} {lib : Library δ} {c : Settings} {s : Crawl δ} {move : Move}

/-- The loop is not left for its completed URLs while a page is in flight. -/
def Drains (c : Settings) (s : Crawl δ) : Move → Prop
  | .enter => s.phase = .entering → s.pending ≠ [] → s.completed.length < c.maxPages
  | _ => True

/-- The counts add up, and every submitted page is in the report. -/
def Reported (s : Crawl δ) : Prop :=
  s.submitted = s.succeeded + s.failed ∧
    ∀ x ∈ s.submissions, x.entry.url ∈ s.pages.map CrawlPage.requestedUrl ++ s.errors.map Prod.fst

/-- The run ends with nothing in flight, unless it is cancelled. -/
def Ends (s : Crawl δ) : Prop := s.phase = .finished → s.cancelled = false → s.pending = []

theorem Sound.reported_iff (h : s.Sound lib c) : s.Reported ↔ s.pending = [] := by
  have := h.accounts
  constructor
  · intro reported
    have := reported.1
    exact List.length_eq_zero_iff.mp (by omega)
  · intro none
    rw [none] at this
    refine ⟨this, fun x old => ?_⟩
    rcases h.reports x old with here | done
    · rw [none] at here
      cases here
    · exact done

theorem dispatch_phase {request : FrontierRequest} {robots : RobotsAnswer} {now : Rat} :
    (s.dispatch lib c request robots now).phase = s.phase := by
  simp only [Crawl.dispatch]
  split
  next => rfl
  split
  next => rfl
  split
  next => rfl
  split
  next => rfl
  split <;> rfl

theorem scanned_ends : (s.scanned c).Ends := by
  rw [Crawl.scanned]
  split
  next none =>
    split
    next => exact fun _ _ => none
    next => exact fun _ _ => none
  next => exact fun ended => by cases ended

theorem enter_ends (drains : s.pending ≠ [] → s.completed.length < c.maxPages) : (s.enter c).Ends := by
  rw [Crawl.enter]
  split
  next =>
    split
    next cancelled =>
      intro _ free
      rw [show s.cancelled = false from free] at cancelled
      cases cancelled
    next => exact fun ended => by cases ended
  next over' =>
    intro _ _
    by_contra flying
    exact over' ⟨.inr flying, drains flying⟩

end Reports

section Runs

variable {δ : Type*} [DecidableEq δ] {lib : Library δ} {c : Settings} {s : Crawl δ} {move : Move}

theorem mention_phase {page : CrawlPage} {link : String} {s' : Crawl δ}
    (mentions : s.mention lib c page link = some s') : s'.phase = s.phase := by
  rw [Crawl.mention] at mentions
  split at mentions
  next =>
    cases mentions
    rfl
  next =>
    split at mentions
    next => cases mentions
    next =>
      cases mentions
      rfl
    next =>
      split at mentions <;>
      · cases mentions
        rfl

theorem follow_phase {page : CrawlPage} (links : List String) (going : s.phase ≠ .finished) :
    (s.follow lib c page links).phase ≠ .finished := by
  induction links generalizing s with
  | nil => exact going
  | cons link rest ih =>
    rw [Crawl.follow]
    split
    next => exact going
    next =>
      split
      next s' mentions =>
        refine ih ?_
        rw [mention_phase mentions]
        exact going
      next => nofun

theorem collect_phase {k : Nat} {entry : FrontierItem} {outcome : Except String Fetched}
    (going : s.phase ≠ .finished) :
    (s.collect lib c k entry outcome).phase ≠ .finished := by
  cases outcome with
  | error error => exact going
  | ok fetched =>
    rw [Crawl.collect, Crawl.report]
    split
    next => exact follow_phase _ going
    next => exact going

theorem Ends.step (ends : s.Ends) (drains : s.Drains c move) : (s.step lib c move).Ends := by
  cases move with
  | cancel => exact fun _ free => by cases free
  | enter =>
    simp only [Crawl.step]
    split
    next entering => exact enter_ends (drains entering)
    next => exact ends
  | scan robots now =>
    simp only [Crawl.step]
    split
    next scanBudget scanning =>
      rcases scan_cases lib c s scanBudget robots now with same | ⟨request, frontier, budget, -, -, -, same⟩
      · rw [same]
        exact scanned_ends
      · rw [same]
        intro ended
        rw [dispatch_phase] at ended
        cases ended
    next => exact ends
  | collect k outcome =>
    simp only [Crawl.step]
    split
    next collecting _ => exact fun ended => absurd ended (collect_phase (by rw [collecting]; nofun))
    next => exact ends
  | leave =>
    simp only [Crawl.step]
    split
    next => exact fun ended => by cases ended
    next => exact ends

theorem lost_step (lost : s.phase = .finished ∧ s.pending ≠ []) :
    (s.step lib c move).phase = .finished ∧ (s.step lib c move).pending ≠ [] := by
  cases move with
  | cancel => exact lost
  | _ => simpa only [Crawl.step, lost.1] using lost

theorem lost_run (moves : List Move) (lost : s.phase = .finished ∧ s.pending ≠ []) :
    (run (step lib c) s moves).phase = .finished ∧ (run (step lib c) s moves).pending ≠ [] := by
  induction moves generalizing s with
  | nil => exact lost
  | cons move rest ih => exact ih (lost_step lost)

theorem lost_of_not_drains (stops : ¬ s.Drains c move) :
    (s.step lib c move).phase = .finished ∧ (s.step lib c move).pending ≠ [] := by
  cases move with
  | enter =>
    simp only [Drains, Classical.not_imp, not_lt] at stops
    obtain ⟨entering, flying, full⟩ := stops
    simp only [Crawl.step, entering, Crawl.enter]
    rw [if_neg fun goes => absurd goes.2 (not_lt.mpr full)]
    exact ⟨rfl, flying⟩
  | _ => exact absurd trivial stops

theorem seed_pending {url : String} : (s.seed lib url).pending = s.pending := by
  rw [Crawl.seed]
  split <;> rfl

theorem start_pending : (start lib c).pending = [] := by
  rw [start]
  generalize c.seeds = seeds
  suffices h : ∀ s : Crawl δ, s.pending = [] → (seeds.foldl (seed lib) s).pending = [] from h _ rfl
  induction seeds with
  | nil => exact fun _ none => none
  | cons url rest ih => exact fun s none => ih _ (seed_pending.trans none)

end Runs

/-- Every run keeps the bounds of its configuration; and a run that ends uncancelled reports every page that it has
submitted if and only if its loop never stops, for the number of completed URLs, with a page in flight. -/
theorem runs_safe_and_reported {δ : Type*} [DecidableEq δ] (lib : Library δ) (c : Settings) (moves : List Move) :
    (run (step lib c) (start lib c) moves).Safe lib c ∧
      ((run (step lib c) (start lib c) moves).phase = .finished →
        (run (step lib c) (start lib c) moves).cancelled = false →
        ((run (step lib c) (start lib c) moves).Reported ↔
          Meets (step lib c) (start lib c) (Drains c) moves)) := by
  refine ⟨(sound_run moves).toSafe, fun ended free => ?_⟩
  rw [(sound_run moves).reported_iff]
  constructor
  · rintro none before move after rfl
    by_contra stops
    rw [run, List.foldl_append] at none
    exact (lost_run after (lost_of_not_drains stops)).2 none
  · intro drains
    exact induct (I := fun _ s => s.Ends) (fun _ _ => start_pending) (fun _ _ here ends => ends.step here)
      moves drains ended free

/-- At every moment what was submitted has succeeded, has failed or is in flight, each host has a slot taken for each of its
pages in flight, no URL is at hand twice, and what has left the flight is in the report. -/
theorem crawls_accounted {δ : Type*} [DecidableEq δ] (lib : Library δ) (c : Settings) (moves : List Move) :
    let s := run (step lib c) (start lib c) moves
    s.submitted = s.succeeded + s.failed + s.pending.length ∧
      (∀ host, s.rate.active host = s.pending.countP fun entry => rateHost lib entry.url = host) ∧ s.urls.Nodup ∧
      ∀ x ∈ s.submissions, x.entry.url ∈ s.pending.map (·.url) ∨
        x.entry.url ∈ s.pages.map CrawlPage.requestedUrl ++ s.errors.map Prod.fst :=
  have sound := sound_run moves
  ⟨sound.accounts, sound.active, sound.distinct, sound.reports⟩

/-- A library for URLs of two hosts. -/
def sampleLibrary : Library String where
  urlsplit url :=
    some ⟨"http", some (if url = "http://b.example/" then "b.example" else "a.example"), some none, "/", ""⟩
  urlunsplit scheme netloc path _ := scheme ++ "://" ++ netloc ++ path
  strip := id
  casefold := id
  idna := some
  fnmatchcase _ _ := false
  sha256 := id

/-- The default settings without a delay, for so many pages. -/
def sampleSettings (seeds : List String) (maxPages : Nat) (distinct : seeds.Nodup) (seedBound : seeds.length ≤ 10000)
    (onePage : 1 ≤ maxPages) : Settings where
  seeds := seeds
  maxPages := maxPages
  maxDepth := 3
  concurrency := 8
  perHostConcurrency := 2
  perHostDelaySeconds := 0
  blockedDomains := []
  respectRobotsTxt := true
  sameSiteOnly := true
  includeSubdomains := true
  allowedDomains := []
  includeUrlGlobs := []
  excludeUrlGlobs := []
  maxRecords := 100000
  distinct := distinct
  seedBound := seedBound
  onePage := onePage
  oneHost := by decide

/-- A page that takes longer than one wait is lost when a URL denied by robots.txt has used up the one page. -/
theorem denied_url_ends_run :
    let c := sampleSettings ["http://b.example/", "http://a.example/"] 1 (by decide) (by decide) (by decide)
    let ended := run (step sampleLibrary c) (start sampleLibrary c)
      [.enter, .scan ⟨false, 0⟩ 0, .scan ⟨true, 0⟩ 0, .scan ⟨true, 0⟩ 0, .leave, .enter]
    ended.phase = .finished ∧ ended.cancelled = false ∧ ended.submitted = 1 ∧ ended.succeeded + ended.failed = 0 := by
  decide +kernel

end Crawl

end Arenyxa.Crawler
