import Arenyxa.Crawler.Limits
import Arenyxa.Lib.Topological

/-! A crawl of a web graph where no cap is reached and every fetch succeeds: what it fetches, and at what depth. -/

namespace Arenyxa.Crawler

open History Paths

namespace Crawl

section Graph

variable {δ : Type*} (lib : Library δ) (c : Settings) (links : String → List String)

/-- A link of a page that is in scope. -/
def Edge (page link : String) : Prop := link ∈ links page ∧ inScope lib c link = true

/-- The URLs that the seeds and the pages of the graph name. -/
def Named (url : String) : Prop := url ∈ c.seeds ∨ ∃ page, url ∈ links page

abbrev Reached : Nat → String → Prop := Reach (· ∈ c.seeds) (Edge lib c links)

abbrev Apart : Nat → String → Prop := Distance (· ∈ c.seeds) (Edge lib c links)

/-- What the crawl has at hand or has fetched, each with its depth. -/
def entries (s : Crawl δ) : List (String × Nat) :=
  s.frontier.heap.map (fun x => (x.url, x.depth)) ++ (s.pending.map (fun x => (x.url, x.depth)) ++
    s.pages.map fun x => (x.requestedUrl, x.depth))

/-- The pages are the URLs in scope within the depth, each with its distance. -/
def Exact (s : Crawl δ) : Prop :=
  ∀ url n, (∃ page ∈ s.pages, page.requestedUrl = url ∧ page.depth = n) ↔
    inScope lib c url = true ∧ Apart lib c links n url ∧ n ≤ c.maxDepth

end Graph

section Kept

variable {δ : Type*} (lib : Library δ) (c : Settings) (links : String → List String)

/-- What is at hand is named, known, in scope and within the depth, and what is known and in scope is at hand. -/
structure Kept (s : Crawl δ) : Prop where
  inside : ∀ x ∈ s.entries, inScope lib c x.1 = true
  within : ∀ x ∈ s.entries, x.2 ≤ c.maxDepth
  named : ∀ x ∈ s.entries, Named c links x.1
  known : ∀ x ∈ s.entries, lib.sha256 x.1 ∈ s.dedup.seen
  done : ∀ url ∈ s.completed, ∃ n, (url, n) ∈ s.entries
  seen : ∀ digest ∈ s.dedup.seen, ∃ url, Named c links url ∧ lib.sha256 url = digest ∧
    (inScope lib c url = true → ∃ n, (url, n) ∈ s.entries)
  seeds : ∀ url ∈ c.seeds, (url, 0) ∈ s.entries

/-- Also at hand is what the fetched pages link to; and the run ends with nothing waiting or in flight. -/
structure Tracks (s : Crawl δ) : Prop extends Kept lib c links s where
  expanded : ∀ page ∈ s.pages, page.depth < c.maxDepth → ∀ link, Edge lib c links page.requestedUrl link →
    ∃ n, (link, n) ∈ s.entries
  ended : s.phase = .finished → s.frontier.heap = [] ∧ s.pending = []
  free : s.cancelled = false

/-- The links, named by a page, are at hand if they are in scope; the new entries are among them. -/
structure Grows (depth : Nat) (named : List String) (s s' : Crawl δ) : Prop where
  kept : s'.Kept lib c links
  older : ∀ x ∈ s.entries, x ∈ s'.entries
  newer : ∀ x ∈ s'.entries, x ∈ s.entries ∨
    x.2 = depth + 1 ∧ x.1 ∈ named ∧ inScope lib c x.1 = true ∧ lib.sha256 x.1 ∉ s.dedup.seen
  all : ∀ link ∈ named, inScope lib c link = true → ∃ n, (link, n) ∈ s'.entries
  digests : ∀ digest ∈ s.dedup.seen, digest ∈ s'.dedup.seen
  bound : s'.dedup.maxEntries = s.dedup.maxEntries
  pages : s'.pages = s.pages
  phase : s'.phase = s.phase
  cancelled : s'.cancelled = s.cancelled

/-- What is at hand has its distance as its depth. -/
def Layered (s : Crawl δ) : Prop := ∀ x ∈ s.entries, Apart lib c links x.2 x.1

end Kept

section Entries

variable {δ : Type*} {lib : Library δ} {c : Settings} {links : String → List String} {s s' : Crawl δ}

theorem Kept.same (h : s.Kept lib c links) (entries : ∀ x, x ∈ s'.entries ↔ x ∈ s.entries)
    (dedup : s'.dedup = s.dedup) (completed : ∀ url ∈ s'.completed, url ∈ s.completed ∨ ∃ n, (url, n) ∈ s.entries) :
    s'.Kept lib c links where
  inside x here := h.inside x ((entries x).mp here)
  within x here := h.within x ((entries x).mp here)
  named x here := h.named x ((entries x).mp here)
  known x here := dedup ▸ h.known x ((entries x).mp here)
  done url here := by
    obtain ⟨n, found⟩ := (completed url here).elim (h.done url) id
    exact ⟨n, (entries _).mpr found⟩
  seen digest here := by
    obtain ⟨url, named, same, tracked⟩ := h.seen digest (dedup ▸ here)
    refine ⟨url, named, same, fun inside => ?_⟩
    obtain ⟨n, found⟩ := tracked inside
    exact ⟨n, (entries _).mpr found⟩
  seeds url here := (entries _).mpr (h.seeds url here)

theorem Tracks.same (h : s.Tracks lib c links) (entries : ∀ x, x ∈ s'.entries ↔ x ∈ s.entries)
    (dedup : s'.dedup = s.dedup) (completed : s'.completed = s.completed) (pages : s'.pages = s.pages)
    (ended : s'.phase = .finished → s'.frontier.heap = [] ∧ s'.pending = []) (free : s'.cancelled = false) :
    s'.Tracks lib c links where
  toKept := h.toKept.same entries dedup fun url here => .inl (completed ▸ here)
  expanded page here less link edge := by
    obtain ⟨n, found⟩ := h.expanded page (pages ▸ here) less link edge
    exact ⟨n, (entries _).mpr found⟩
  ended := ended
  free := free

theorem Kept.grows (h : s.Kept lib c links) {depth : Nat} : Grows lib c links depth [] s s where
  kept := h
  older _ here := here
  newer _ here := .inl here
  all := nofun
  digests _ here := here
  bound := rfl
  pages := rfl
  phase := rfl
  cancelled := rfl

theorem Grows.trans {s'' : Crawl δ} {depth : Nat} {named more : List String}
    (h : Grows lib c links depth named s s') (h' : Grows lib c links depth more s' s'') :
    Grows lib c links depth (named ++ more) s s'' where
  kept := h'.kept
  older x here := h'.older x (h.older x here)
  newer x here := by
    rcases h'.newer x here with here | ⟨next, named, inside, new⟩
    · rcases h.newer x here with here | ⟨next, named, inside, new⟩
      · exact .inl here
      · exact .inr ⟨next, List.mem_append_left _ named, inside, new⟩
    · exact .inr ⟨next, List.mem_append_right _ named, inside, fun old => new (h.digests _ old)⟩
  all link named inside := by
    rcases List.mem_append.mp named with named | named
    · obtain ⟨n, here⟩ := h.all link named inside
      exact ⟨n, h'.older _ here⟩
    · exact h'.all link named inside
  digests digest here := h'.digests digest (h.digests digest here)
  bound := h'.bound.trans h.bound
  pages := h'.pages.trans h.pages
  phase := h'.phase.trans h.phase
  cancelled := h'.cancelled.trans h.cancelled

theorem Kept.joined (h : s.Kept lib c links) {link : String} {depth : Nat}
    (entries : ∀ x, x ∈ s'.entries ↔ x = (link, depth + 1) ∨ x ∈ s.entries)
    (dedup : s'.dedup.seen = lib.sha256 link :: s.dedup.seen) (completed : s'.completed = s.completed)
    (named : Named c links link) (inside : inScope lib c link = true) (within : depth < c.maxDepth) :
    s'.Kept lib c links where
  inside x here := by
    rcases (entries x).mp here with rfl | here
    · exact inside
    · exact h.inside x here
  within x here := by
    rcases (entries x).mp here with rfl | here
    · exact within
    · exact h.within x here
  named x here := by
    rcases (entries x).mp here with rfl | here
    · exact named
    · exact h.named x here
  known x here := by
    rw [dedup]
    rcases (entries x).mp here with rfl | here
    · exact List.mem_cons_self
    · exact List.mem_cons_of_mem _ (h.known x here)
  done url here := by
    obtain ⟨n, found⟩ := h.done url (completed ▸ here)
    exact ⟨n, (entries _).mpr (.inr found)⟩
  seen := by
    rw [dedup]
    refine List.forall_mem_cons.mpr ⟨⟨link, named, rfl, fun _ => ⟨_, (entries _).mpr (.inl rfl)⟩⟩, ?_⟩
    intro digest here
    obtain ⟨url, named, same, tracked⟩ := h.seen digest here
    refine ⟨url, named, same, fun inside => ?_⟩
    obtain ⟨n, found⟩ := tracked inside
    exact ⟨n, (entries _).mpr (.inr found)⟩
  seeds url here := (entries _).mpr (.inr (h.seeds url here))

theorem entries_popped {request : FrontierRequest} {rest : PriorityFrontier} (phase : Phase)
    (pops : s.frontier.pop = some (request, rest)) :
    s.entries = (request.url, request.depth) :: ({ s with
      frontier := rest
      phase := phase } : Crawl δ).entries := by
  simp only [entries, PriorityFrontier.heap_of_pop pops, List.map_cons, List.cons_append]

theorem entries_push {url parentUrl : String} {depth : Nat} {priority : Int} :
    ({ s with frontier := s.frontier.push url depth parentUrl priority } : Crawl δ).entries.Perm
      ((url, depth) :: s.entries) :=
  (PriorityFrontier.push_perm.map fun x => (x.url, x.depth)).append_right _

theorem entries_submit (entry : FrontierItem) :
    ({ s with pending := s.pending ++ [entry] } : Crawl δ).entries.Perm ((entry.url, entry.depth) :: s.entries) := by
  simp only [entries, List.map_append, List.map_cons, List.map_nil, List.append_assoc, List.singleton_append]
  exact (List.Perm.append_left _ List.perm_middle).trans List.perm_middle

theorem host_of_inScope {url : String} (inside : inScope lib c url = true) :
    normalizeDomain lib (lib.hostname url) ≠ "" := by
  intro none
  simp [inScope, none] at inside

theorem dispatch_entries {request : FrontierRequest} {robots : RobotsAnswer} (now : Rat)
    (hand : s.InHand lib c request) (inside : inScope lib c request.url = true)
    (allowed : c.respectRobotsTxt = true → robots.allowed = true) :
    (s.dispatch lib c request robots now).entries.Perm ((request.url, request.depth) :: s.entries) ∧
      (s.dispatch lib c request robots now).dedup = s.dedup ∧
      (s.dispatch lib c request robots now).completed = s.completed ∧
      (s.dispatch lib c request robots now).pages = s.pages ∧
      (s.dispatch lib c request robots now).cancelled = s.cancelled := by
  have undone : request.url ∉ s.completed := fun done =>
    hand.fresh (List.mem_append_right _ (List.mem_append_right _ done))
  have permitted : (c.respectRobotsTxt && !robots.allowed) = false := by
    cases respects : c.respectRobotsTxt with
    | false => rfl
    | true => rw [allowed respects]; rfl
  simp only [Crawl.dispatch, if_neg undone, inside, Bool.not_true, Bool.false_eq_true, and_false, if_false,
    if_neg (host_of_inScope inside), permitted]
  split
  next => exact ⟨entries_push, rfl, rfl, rfl, rfl⟩
  next => exact ⟨entries_submit ⟨request.url, request.depth, request.parentUrl⟩, rfl, rfl, rfl, rfl⟩

theorem scanned_keeps (s : Crawl δ) (c : Settings) :
    (s.scanned c).entries = s.entries ∧ (s.scanned c).dedup = s.dedup ∧
    (s.scanned c).completed = s.completed ∧ (s.scanned c).pages = s.pages ∧
      (s.scanned c).cancelled = s.cancelled := by
  rw [Crawl.scanned]
  split
  next => split <;> exact ⟨rfl, rfl, rfl, rfl, rfl⟩
  next => exact ⟨rfl, rfl, rfl, rfl, rfl⟩

theorem scanned_ended (left : s.submitted < c.maxPages) (ended : (s.scanned c).phase = .finished) :
    (s.scanned c).frontier.heap = [] ∧ (s.scanned c).pending = [] := by
  rw [Crawl.scanned] at ended ⊢
  split at ended
  next none =>
    rw [if_pos none]
    split at ended
    next stops =>
      rw [if_pos stops]
      exact ⟨stops.resolve_right (not_le.mpr left), none⟩
    next => cases ended
  next => cases ended

theorem scanned_submitted : (s.scanned c).submitted = s.submitted := by
  rw [Crawl.scanned]
  split
  next => split <;> rfl
  next => rfl

theorem entries_fetched (lib : Library δ) (c : Settings) {k : Nat} {entry : FrontierItem} (fetched : Fetched)
    (found : s.pending[k]? = some entry) :
    ((s.retire lib k entry).tally c (fetched.page entry)).entries.Perm s.entries := by
  refine List.Perm.append_left _ ?_
  have moved := (pending_perm found).map fun x => (x.url, x.depth)
  refine List.Perm.trans ?_ (moved.symm.append_right _)
  simp only [Crawl.tally, List.map_append, List.map_cons, List.map_nil]
  exact (List.perm_append_comm.append_left _).trans List.perm_middle

theorem Tracks.scanned (h : s.Tracks lib c links) (left : s.submitted < c.maxPages) :
    (s.scanned c).Tracks lib c links := by
  obtain ⟨entries, dedup, completed, pages, cancelled⟩ := scanned_keeps s c
  exact h.same (fun x => entries ▸ Iff.rfl) dedup completed pages (scanned_ended left) (cancelled.trans h.free)

theorem Kept.fetched (h : s.Kept lib c links) {k : Nat} {entry : FrontierItem} (fetched : Fetched)
    (found : s.pending[k]? = some entry) :
    ((s.retire lib k entry).tally c (fetched.page entry)).Kept lib c links := by
  refine h.same (fun x => (entries_fetched lib c fetched found).mem_iff) rfl fun url here => ?_
  rcases List.mem_insert_iff.mp here with rfl | here
  · refine .inr ⟨entry.depth, List.mem_append_right _ (List.mem_append_left _ ?_)⟩
    exact List.mem_map_of_mem (List.mem_of_getElem? found)
  · exact .inl here

theorem enter_completed : (s.enter c).completed = s.completed := by
  rw [Crawl.enter]
  split
  next => split <;> rfl
  next => rfl

theorem Tracks.fetched (h : s.Tracks lib c links) (finished : s.phase = .finished) {x : String × Nat} :
    x ∈ s.entries ↔ ∃ page ∈ s.pages, page.requestedUrl = x.1 ∧ page.depth = x.2 := by
  obtain ⟨none, idle⟩ := h.ended finished
  rw [entries, none, idle, List.map_nil, List.map_nil, List.nil_append, List.nil_append, List.mem_map]
  simp only [Prod.ext_iff]

theorem Tracks.enter (h : s.Tracks lib c links) (few : s.completed.length < c.maxPages) :
    (s.enter c).Tracks lib c links ∧ (s.enter c).entries = s.entries := by
  rw [Crawl.enter]
  split
  next =>
    rw [if_neg (by simp [h.free])]
    exact ⟨h.same (fun _ => Iff.rfl) rfl rfl rfl (by rintro ⟨⟩) h.free, rfl⟩
  next stops =>
    refine ⟨h.same (fun _ => Iff.rfl) rfl rfl rfl (fun _ => ?_) h.free, rfl⟩
    by_contra left
    exact stops ⟨by rw [← not_and_or]; exact left, few⟩

theorem Tracks.reaches (h : s.Tracks lib c links) (layered : s.Layered lib c links) (finished : s.phase = .finished)
    {n : Nat} {url : String} (reached : Reached lib c links n url) (within : n ≤ c.maxDepth) :
    ∃ m, (url, m) ∈ s.entries := by
  induction reached with
  | start seed => exact ⟨0, h.seeds _ seed⟩
  | step reached edge ih =>
    obtain ⟨m, here⟩ := ih (Nat.le_of_succ_le within)
    have near := (layered _ here).le reached
    obtain ⟨page, fetched, same, depth⟩ := (h.fetched finished).mp here
    exact h.expanded page fetched (depth ▸ near.trans_lt within) _ (same ▸ edge)

theorem Tracks.scan (h : s.Tracks lib c links) (sound : s.Sound lib c) {scanBudget : Nat} {robots : RobotsAnswer}
    {now : Rat} (allowed : c.respectRobotsTxt = true → robots.allowed = true)
    (left : (s.scan lib c scanBudget robots now).submitted < c.maxPages) :
    (s.scan lib c scanBudget robots now).Tracks lib c links ∧
      ∀ x, x ∈ (s.scan lib c scanBudget robots now).entries ↔ x ∈ s.entries := by
  rcases scan_cases lib c s scanBudget robots now with same | ⟨request, frontier, budget, pops, -, -, same⟩
  · rw [same] at left ⊢
    rw [scanned_submitted] at left
    exact ⟨h.scanned left, fun x => by rw [(scanned_keeps s c).1]⟩
  · rw [same]
    obtain ⟨-, hand⟩ := sound.popped (.scanning budget) pops nofun
    have entries := entries_popped (.scanning budget) pops
    have inside := h.inside (request.url, request.depth) (entries ▸ List.mem_cons_self)
    obtain ⟨perm, dedup, completed, pages, cancelled⟩ := dispatch_entries now hand inside allowed
    have same x : x ∈ (dispatch lib c { s with
        frontier := frontier
        phase := .scanning budget } request robots now).entries ↔ x ∈ s.entries := by
      rw [perm.mem_iff, entries]
    exact ⟨h.same same dedup completed pages (fun ended => by rw [dispatch_phase] at ended; cases ended)
      (cancelled.trans h.free), same⟩

theorem Tracks.exact (h : s.Tracks lib c links) (layered : s.Layered lib c links) (finished : s.phase = .finished) :
    s.Exact lib c links := by
  intro url n
  rw [← h.fetched finished (x := (url, n))]
  constructor
  · exact fun here => ⟨h.inside _ here, layered _ here, h.within _ here⟩
  · rintro ⟨-, apart, within⟩
    obtain ⟨m, here⟩ := h.reaches layered finished apart.1 within
    obtain rfl : m = n := (layered _ here).unique apart
    exact here

end Entries

section Usual

variable {δ : Type*} [DecidableEq δ] (lib : Library δ) (c : Settings) (links : String → List String)

/-- No cap is reached. -/
def Uncapped (s : Crawl δ) : Prop :=
  s.submitted < c.maxPages ∧ s.completed.length < c.maxPages ∧ s.dedup.seen.length < discoveryCap c

/-- The step reaches no cap; nothing is denied or cancelled, and a page that is collected has been fetched, with the
links that it has in the graph. -/
def Usual (s : Crawl δ) (move : Move) : Prop :=
  Uncapped c (s.step lib c move) ∧ match move with
    | .cancel => False
    | .scan robots _ => c.respectRobotsTxt = true → robots.allowed = true
    | .collect k (.error _) => s.pending[k]? = none
    | .collect k (.ok fetched) => ∀ entry ∈ s.pending[k]?,
        (fetched.page entry).succeeded = true ∧ fetched.links = links entry.url
    | _ => True

instance {s : Crawl δ} : Decidable (Uncapped c s) :=
  inferInstanceAs (Decidable (_ < _ ∧ _ < _ ∧ _ < _))

instance {s : Crawl δ} : ∀ move, Decidable (Usual lib c links s move)
  | .cancel => isFalse And.right
  | .enter => inferInstanceAs (Decidable (Uncapped c _ ∧ True))
  | .scan robots _ => inferInstanceAs (Decidable (Uncapped c _ ∧ (c.respectRobotsTxt = true → robots.allowed = true)))
  | .collect k (.error _) => inferInstanceAs (Decidable (Uncapped c _ ∧ s.pending[k]? = none))
  | .collect k (.ok fetched) => inferInstanceAs (Decidable (Uncapped c _ ∧ ∀ entry ∈ s.pending[k]?,
      (fetched.page entry).succeeded = true ∧ fetched.links = links entry.url))
  | .leave => inferInstanceAs (Decidable (Uncapped c _ ∧ True))

/-- A page that is collected is the first to name a URL only if no page nearer to the seeds names it. -/
def First (s : Crawl δ) : Move → Prop
  | .collect k _ => s.phase = .collecting → ∀ entry, s.pending[k]? = some entry → entry.depth < c.maxDepth →
      ∀ link, Edge lib c links entry.url link → lib.sha256 link ∉ s.dedup.seen →
        ∀ n < entry.depth, ∀ page, Reached lib c links n page → ¬ Edge lib c links page link
  | _ => True

/-- The step collects a page that is the first to name the URL, which gets the depth beyond the page's. -/
inductive Gains (s : Crawl δ) : Move → String × Nat → Prop
  | link {k : Nat} {outcome : Except String Fetched} {entry : FrontierItem} {link : String}
    (collecting : s.phase = .collecting) (found : s.pending[k]? = some entry) (within : entry.depth < c.maxDepth)
    (edge : Edge lib c links entry.url link) (new : lib.sha256 link ∉ s.dedup.seen) :
    Gains s (.collect k outcome) (link, entry.depth + 1)

variable {lib c links} {s s' : Crawl δ} {move : Move}

theorem Kept.mention (h : s.Kept lib c links) (inj : Set.InjOn lib.sha256 {url | Named c links url})
    {page : CrawlPage} {link : String} (named : Named c links link) (within : page.depth < c.maxDepth)
    (room : s.dedup.seen.length < s.dedup.maxEntries) :
    ∃ s', s.mention lib c page link = some s' ∧ Grows lib c links page.depth [link] s s' := by
  rcases mention_cases lib c page link room with ⟨same, known⟩ | ⟨new, ⟨out, same⟩ | ⟨inside, same⟩⟩
  · refine ⟨_, same, h.same (fun _ => Iff.rfl) rfl (fun url here => .inl here), fun _ here => here,
      fun _ here => .inl here, ?_, fun _ here => here, rfl, rfl, rfl, rfl⟩
    intro other here inside
    rw [List.mem_singleton.mp here] at inside ⊢
    rcases known with done | known
    · exact h.done link done
    · obtain ⟨url, named', same, tracked⟩ := h.seen _ known
      rw [inj named' named same] at tracked
      exact tracked inside
  · refine ⟨_, same, { h with
      known := fun x here => List.mem_cons_of_mem _ (h.known x here)
      seen := List.forall_mem_cons.mpr ⟨⟨link, named, rfl, fun inside => ?_⟩, h.seen⟩ },
      fun _ here => here, fun _ here => .inl here, ?_, fun _ here => List.mem_cons_of_mem _ here, rfl, rfl, rfl, rfl⟩
    · rw [out] at inside
      cases inside
    · intro other here inside
      rw [List.mem_singleton.mp here, out] at inside
      cases inside
  · have entries x : x ∈ (({ s with
        dedup := { s.dedup with seen := lib.sha256 link :: s.dedup.seen }
        frontier := s.frontier.push link (page.depth + 1) page.finalUrl (-(page.depth + 1 : Int))
        discovered := s.discovered + 1 } : Crawl δ).entries) ↔ x = (link, page.depth + 1) ∨ x ∈ s.entries :=
      entries_push.mem_iff.trans List.mem_cons
    have here : (link, page.depth + 1) ∈ (({ s with
        dedup := { s.dedup with seen := lib.sha256 link :: s.dedup.seen }
        frontier := s.frontier.push link (page.depth + 1) page.finalUrl (-(page.depth + 1 : Int))
        discovered := s.discovered + 1 } : Crawl δ).entries) := (entries _).mpr (.inl rfl)
    refine ⟨_, same, h.joined entries rfl rfl named inside within, fun x old => (entries x).mpr (.inr old),
      fun x now => ?_, fun other named _ => ?_, fun _ old => List.mem_cons_of_mem _ old, rfl, rfl, rfl, rfl⟩
    · rcases (entries x).mp now with rfl | old
      · exact .inr ⟨rfl, List.mem_singleton_self _, inside, new⟩
      · exact .inl old
    · rw [List.mem_singleton.mp named]
      exact ⟨_, here⟩

theorem Kept.follow (h : s.Kept lib c links) (inj : Set.InjOn lib.sha256 {url | Named c links url})
    {page : CrawlPage} (within : page.depth < c.maxDepth) (named : List String)
    (all : ∀ link ∈ named, Named c links link) (bound : s.dedup.maxEntries = maxEntries c)
    (room : (s.follow lib c page named).dedup.seen.length < discoveryCap c) :
    Grows lib c links page.depth named s (s.follow lib c page named) := by
  induction named generalizing s with
  | nil => exact h.grows
  | cons link rest ih =>
    rw [Crawl.follow] at room ⊢
    split at room
    next full => exact absurd room (not_lt.mpr full)
    next roomy =>
      rw [if_neg roomy]
      have space : s.dedup.seen.length < s.dedup.maxEntries :=
        bound ▸ (not_le.mp roomy).trans_le cap_le_entries
      obtain ⟨s', mentions, grows⟩ := h.mention inj (all link List.mem_cons_self) within space
      rw [mentions] at room ⊢
      exact grows.trans (ih grows.kept (fun other here => all other (List.mem_cons_of_mem _ here))
        (grows.bound.trans bound) room)

theorem Tracks.collect (h : s.Tracks lib c links) (sound : s.Sound lib c)
    (inj : Set.InjOn lib.sha256 {url | Named c links url}) {k : Nat} {entry : FrontierItem}
    {fetched : Fetched} (collecting : s.phase = .collecting) (found : s.pending[k]? = some entry)
    (succeeds : (fetched.page entry).succeeded = true) (same : fetched.links = links entry.url)
    (room : (s.collect lib c k entry (.ok fetched)).dedup.seen.length < discoveryCap c) :
    (s.collect lib c k entry (.ok fetched)).Tracks lib c links ∧
      ∀ x, x ∈ (s.collect lib c k entry (.ok fetched)).entries ↔
        x ∈ s.entries ∨ Gains lib c links s (.collect k (.ok fetched)) x := by
  have kept := h.toKept.fetched fetched found
  have entries x := (entries_fetched lib c fetched found).mem_iff (a := x)
  rw [Crawl.collect, Crawl.report] at room ⊢
  by_cases within : entry.depth < c.maxDepth
  · have follows : (fetched.page entry).depth < c.maxDepth ∧ (fetched.page entry).succeeded = true :=
      ⟨within, succeeds⟩
    rw [if_pos follows] at room ⊢
    have grows := kept.follow inj within fetched.links (fun link here => .inr ⟨entry.url, same ▸ here⟩)
      sound.entries room
    have pages : ∀ page ∈ s.pages ++ [fetched.page entry], page.depth < c.maxDepth →
        ∀ link, Edge lib c links page.requestedUrl link → ∃ n, (link, n) ∈
          (((s.retire lib k entry).tally c (fetched.page entry)).follow lib c (fetched.page entry)
            fetched.links).entries := by
      refine List.forall_mem_append.mpr ⟨fun page here less link edge => ?_, List.forall_mem_singleton.mpr
        fun _ link edge => grows.all link (same ▸ edge.1) edge.2⟩
      obtain ⟨n, old⟩ := h.expanded page here less link edge
      exact ⟨n, grows.older _ ((entries _).mpr old)⟩
    refine ⟨⟨grows.kept, by rw [grows.pages]; exact pages, fun ended => ?_,
      grows.cancelled.trans h.free⟩, fun x => ⟨fun here => ?_, fun here => ?_⟩⟩
    · rw [grows.phase] at ended
      cases collecting.symm.trans ended
    · rcases grows.newer x here with here | ⟨next, named, inside, new⟩
      · exact .inl ((entries x).mp here)
      · refine .inr ?_
        obtain ⟨link, n⟩ := x
        cases next
        exact .link collecting found within ⟨same ▸ named, inside⟩ new
    · rcases here with here | gains
      · exact grows.older x ((entries x).mpr here)
      · cases gains with
        | link _ found' _ edge new =>
          cases found.symm.trans found'
          obtain ⟨n, here⟩ := grows.all _ (same ▸ edge.1) edge.2
          rcases grows.newer _ here with old | ⟨next, -⟩
          · exact absurd (kept.known _ old) new
          · cases next
            exact here
  · rw [if_neg fun follows => within follows.1]
    refine ⟨⟨kept, fun page here less link edge => ?_, fun ended => ?_, h.free⟩, fun x => ?_⟩
    · rcases List.mem_append.mp here with here | here
      · obtain ⟨n, old⟩ := h.expanded page here less link edge
        exact ⟨n, (entries _).mpr old⟩
      · rw [List.mem_singleton.mp here] at less
        exact absurd less within
    · cases collecting.symm.trans ended
    · rw [entries x]
      refine ⟨.inl, fun here => here.resolve_right fun gains => ?_⟩
      cases gains with
      | link _ found' less _ _ =>
        cases found.symm.trans found'
        exact within less

theorem Tracks.step (h : s.Tracks lib c links) (sound : s.Sound lib c)
    (inj : Set.InjOn lib.sha256 {url | Named c links url}) (usual : s.Usual lib c links move) :
    (s.step lib c move).Tracks lib c links ∧
      ∀ x, x ∈ (s.step lib c move).entries ↔ x ∈ s.entries ∨ Gains lib c links s move x := by
  obtain ⟨⟨left, few, room⟩, usual⟩ := usual
  cases move with
  | cancel => exact usual.elim
  | enter =>
    have plain x : ¬ Gains lib c links s .enter x := by rintro ⟨⟩
    simp only [plain, or_false]
    simp only [Crawl.step] at few ⊢
    split at few
    next =>
      rw [enter_completed] at few
      exact ⟨(h.enter few).1, fun x => by rw [(h.enter few).2]⟩
    next => exact ⟨h, fun _ => Iff.rfl⟩
  | scan robots now =>
    have plain x : ¬ Gains lib c links s (.scan robots now) x := by rintro ⟨⟩
    simp only [plain, or_false]
    simp only [Crawl.step] at left ⊢
    split at left
    next => exact h.scan sound usual left
    next => exact ⟨h, fun _ => Iff.rfl⟩
  | collect k outcome =>
    simp only [Crawl.step] at room ⊢
    split at room
    next entry collecting found =>
      cases outcome with
      | error error =>
        cases found.symm.trans usual
      | ok fetched =>
        obtain ⟨succeeds, same⟩ := usual entry found
        exact h.collect sound inj collecting found succeeds same room
    next other =>
      refine ⟨h, fun x => ⟨.inl, fun here => here.resolve_right fun gains => ?_⟩⟩
      cases gains with
      | link collecting found _ _ _ => exact other _ collecting found
  | leave =>
    have plain x : ¬ Gains lib c links s .leave x := by rintro ⟨⟩
    simp only [plain, or_false]
    simp only [Crawl.step]
    split
    next => exact ⟨h.same (fun _ => Iff.rfl) rfl rfl rfl (by rintro ⟨⟩) h.free, fun _ => Iff.rfl⟩
    next => exact ⟨h, fun _ => Iff.rfl⟩

theorem Layered.step (layered : s.Layered lib c links) (h : s.Tracks lib c links)
    (sound : s.Sound lib c) (inj : Set.InjOn lib.sha256 {url | Named c links url}) (usual : s.Usual lib c links move)
    (first : s.First lib c links move) : (s.step lib c move).Layered lib c links := by
  intro x here
  rcases ((h.step sound inj usual).2 x).mp here with old | gains
  · exact layered x old
  · cases gains with
    | @link k outcome entry link collecting found within edge new =>
      have flying : (entry.url, entry.depth) ∈ s.entries := List.mem_append_right _ (List.mem_append_left _
        (List.mem_map_of_mem (List.mem_of_getElem? found)))
      refine (layered _ flying).next edge (fun seed => new (h.known _ (h.seeds link seed))) ?_
      exact first collecting entry found within link edge new

theorem seed_cases (lib : Library δ) (url : String) (room : s.dedup.seen.length < s.dedup.maxEntries) :
    ∃ seen, s.seed lib url = { s with
      frontier := s.frontier.push url 0 "" 0
      dedup := { s.dedup with seen := seen } } ∧ seen.length ≤ s.dedup.seen.length + 1 ∧
      ∀ digest, digest ∈ seen ↔ digest ∈ s.dedup.seen ∨ digest = lib.sha256 url := by
  by_cases old : lib.sha256 url ∈ s.dedup.seen
  · refine ⟨s.dedup.seen, by rw [seed, UrlDeduplicator.add, if_pos old], Nat.le_succ _, fun digest => ?_⟩
    exact ⟨.inl, fun here => here.elim id fun same => same ▸ old⟩
  · refine ⟨lib.sha256 url :: s.dedup.seen, ?_, Nat.le_refl _, fun digest => ?_⟩
    · rw [seed, UrlDeduplicator.add, if_neg old, if_neg (not_le.mpr room)]
    · rw [List.mem_cons, or_comm]

theorem seeded (lib : Library δ) (seeds : List String)
    (room : s.dedup.seen.length + seeds.length ≤ s.dedup.maxEntries) :
    (∀ x, x ∈ (seeds.foldl (Crawl.seed lib) s).entries ↔ x ∈ s.entries ∨ ∃ url ∈ seeds, x = (url, 0)) ∧
    (∀ digest, digest ∈ (seeds.foldl (Crawl.seed lib) s).dedup.seen ↔
      digest ∈ s.dedup.seen ∨ ∃ url ∈ seeds, digest = lib.sha256 url) ∧
    (seeds.foldl (Crawl.seed lib) s).completed = s.completed ∧ (seeds.foldl (Crawl.seed lib) s).pages = s.pages ∧
    (seeds.foldl (Crawl.seed lib) s).phase = s.phase ∧ (seeds.foldl (Crawl.seed lib) s).cancelled = s.cancelled := by
  induction seeds generalizing s with
  | nil => exact ⟨fun x => by simp, fun digest => by simp, rfl, rfl, rfl, rfl⟩
  | cons url rest ih =>
    rw [List.length_cons] at room
    obtain ⟨seen, same, length, digests⟩ := seed_cases (s := s) lib url (by omega)
    rw [List.foldl_cons, same]
    obtain ⟨entries, digests', completed, pages, phase, cancelled⟩ := ih (s := { s with
      frontier := s.frontier.push url 0 "" 0
      dedup := { s.dedup with seen := seen } }) (by simp only; omega)
    refine ⟨fun x => ?_, fun digest => ?_, completed, pages, phase, cancelled⟩
    · refine (entries x).trans ((or_congr_left entries_push.mem_iff).trans ?_)
      simp only [List.mem_cons, exists_eq_or_imp]
      rw [or_comm (a := x = (url, 0)), or_assoc]
    · rw [digests', digests]
      simp only [List.mem_cons, exists_eq_or_imp]
      exact or_assoc

theorem entries_start (x : String × Nat) : x ∈ (start lib c).entries ↔ ∃ url ∈ c.seeds, x = (url, 0) :=
  ((seeded lib c.seeds (by simpa using seeds_le_cap.trans cap_le_entries)).1 x).trans (or_iff_right List.not_mem_nil)

theorem seen_start (digest : δ) : digest ∈ (start lib c).dedup.seen ↔ ∃ url ∈ c.seeds, digest = lib.sha256 url :=
  ((seeded lib c.seeds (by simpa using seeds_le_cap.trans cap_le_entries)).2.1 digest).trans
    (or_iff_right List.not_mem_nil)

theorem rest_start : (start lib c).completed = [] ∧ (start lib c).pages = [] ∧ (start lib c).phase = .entering ∧
    (start lib c).cancelled = false :=
  (seeded lib c.seeds (by simpa using seeds_le_cap.trans cap_le_entries)).2.2

theorem tracks_start (inside : ∀ url ∈ c.seeds, inScope lib c url = true) : (start lib c).Tracks lib c links where
  inside x here := by
    obtain ⟨url, seed, rfl⟩ := (entries_start x).mp here
    exact inside url seed
  within x here := by
    obtain ⟨url, seed, rfl⟩ := (entries_start x).mp here
    exact Nat.zero_le _
  named x here := by
    obtain ⟨url, seed, rfl⟩ := (entries_start x).mp here
    exact .inl seed
  known x here := by
    obtain ⟨url, seed, rfl⟩ := (entries_start x).mp here
    exact (seen_start _).mpr ⟨url, seed, rfl⟩
  done url here := by
    rw [rest_start.1] at here
    cases here
  seen digest here := by
    obtain ⟨url, seed, rfl⟩ := (seen_start digest).mp here
    exact ⟨url, .inl seed, rfl, fun _ => ⟨0, (entries_start _).mpr ⟨url, seed, rfl⟩⟩⟩
  expanded page here := by
    rw [rest_start.2.1] at here
    cases here
  seeds url seed := (entries_start _).mpr ⟨url, seed, rfl⟩
  ended finished := by
    rw [rest_start.2.2.1] at finished
    cases finished
  free := rest_start.2.2.2

theorem layered_start : (start lib c).Layered lib c links := by
  intro x here
  obtain ⟨url, seed, rfl⟩ := (entries_start x).mp here
  exact ⟨.start seed, nofun⟩

variable {moves : List Move}

theorem tracks_run (inj : Set.InjOn lib.sha256 {url | Named c links url})
    (inside : ∀ url ∈ c.seeds, inScope lib c url = true)
    (usual : Meets (Crawl.step lib c) (start lib c) (Usual lib c links) moves) :
    (run (Crawl.step lib c) (start lib c) moves).Tracks lib c links :=
  induct (I := fun _ s => s.Tracks lib c links) (tracks_start inside)
    (fun actions _ here h => (h.step (sound_run actions) inj here).1) moves usual

theorem entries_run (inj : Set.InjOn lib.sha256 {url | Named c links url})
    (inside : ∀ url ∈ c.seeds, inScope lib c url = true) (after : List Move)
    (usual : Meets (Crawl.step lib c) (start lib c) (Usual lib c links) (moves ++ after)) {x : String × Nat}
    (here : x ∈ (run (Crawl.step lib c) (start lib c) moves).entries) :
    x ∈ (run (Crawl.step lib c) (start lib c) (moves ++ after)).entries := by
  induction after using List.reverseRecOn with
  | nil => rwa [List.append_nil]
  | append_singleton after move ih =>
    rw [← List.append_assoc] at usual ⊢
    rw [run_snoc]
    have h := tracks_run inj inside usual.init
    exact ((h.step (sound_run _) inj usual.last).2 x).mpr (.inl (ih usual.init))

theorem layered_run (inj : Set.InjOn lib.sha256 {url | Named c links url})
    (inside : ∀ url ∈ c.seeds, inScope lib c url = true)
    (usual : Meets (Crawl.step lib c) (start lib c) (Usual lib c links) moves)
    (first : Meets (Crawl.step lib c) (start lib c) (First lib c links) moves) :
    (run (Crawl.step lib c) (start lib c) moves).Layered lib c links := by
  induction moves using List.reverseRecOn with
  | nil => exact layered_start
  | append_singleton moves move ih =>
    rw [run_snoc]
    have h := tracks_run inj inside usual.init
    exact (ih usual.init first.init).step h (sound_run _) inj usual.last first.last

end Usual

/-- Where the seeds are in scope, a crawl that meets no cap, denial, cancellation or failure ends with the URLs in
scope within its depth, each at its distance, if and only if a page is the first to name a URL only where no page
nearer to the seeds names it. -/
theorem runs_exact_iff {δ : Type*} [DecidableEq δ] (lib : Library δ) (c : Settings) (links : String → List String)
    (moves : List Move) (inj : Set.InjOn lib.sha256 {url | Named c links url})
    (inside : ∀ url ∈ c.seeds, inScope lib c url = true)
    (usual : Meets (step lib c) (start lib c) (Usual lib c links) moves)
    (finished : (run (step lib c) (start lib c) moves).phase = .finished) :
    (run (step lib c) (start lib c) moves).Exact lib c links ↔
      Meets (step lib c) (start lib c) (First lib c links) moves := by
  have h := tracks_run inj inside usual
  constructor
  · rintro distance before move after rfl
    cases move with
    | collect k outcome =>
      intro collecting entry found within link edge new n less page reached named
      have usual' : Meets (step lib c) (start lib c) (Usual lib c links)
          ((before ++ [.collect k outcome]) ++ after) := by
        rwa [List.append_assoc]
      have gains : (link, entry.depth + 1) ∈
          (run (step lib c) (start lib c) (before ++ [.collect k outcome])).entries := by
        rw [run_snoc]
        have h := tracks_run inj inside usual'.before.init
        exact ((h.step (sound_run _) inj usual'.before.last).2 _).mpr (.inr (.link collecting found within edge new))
      have stays := entries_run inj inside after usual' gains
      rw [List.append_assoc, List.singleton_append, h.fetched finished] at stays
      have apart := ((distance _ _).mp stays).2.1
      exact apart.2 (n + 1) (Nat.succ_lt_succ less) (reached.step named)
    | _ => trivial
  · exact fun first => h.exact (layered_run inj inside usual first) finished

/-- Two seeds: the second reaches in two links a page that the first links to. -/
def sampleLinks (url : String) : List String :=
  if url = "http://a.example/1" then ["http://a.example/b"]
  else if url = "http://a.example/2" then ["http://a.example/a"]
  else if url = "http://a.example/a" then ["http://a.example/b"]
  else []

def sampleFetched (links : List String) : Except String Fetched := .ok ⟨"", 200, [], [], links⟩

def oneSeed : Settings := sampleSettings ["http://a.example/a"] 250 (by decide) (by decide) (by decide)

def twoSeeds : Settings :=
  sampleSettings ["http://a.example/1", "http://a.example/2"] 250 (by decide) (by decide) (by decide)

theorem first_of {δ : Type*} {lib : Library δ} {c : Settings} {links : String → List String} {s : Crawl δ} {k : Nat}
    {outcome : Except String Fetched} (h : ∀ entry ∈ s.pending[k]?, entry.depth = 0 ∨ links entry.url = []) :
    s.First lib c links (.collect k outcome) := by
  intro _ entry found _ link edge _ n less
  rcases h entry found with seed | leaf
  · rw [seed] at less
    cases less
  · rw [Edge, leaf] at edge
    cases edge.1

/-- A crawl of one seed that links to one page. -/
theorem one_seed_exact :
    (run (step sampleLibrary oneSeed) (start sampleLibrary oneSeed)
      [.enter, .scan ⟨true, 0⟩ 0, .scan ⟨true, 0⟩ 0, .collect 0 (sampleFetched ["http://a.example/b"]), .leave,
        .enter, .scan ⟨true, 0⟩ 0, .scan ⟨true, 0⟩ 0, .collect 0 (sampleFetched []), .leave, .enter]).Exact
      sampleLibrary oneSeed sampleLinks := by
  refine (runs_exact_iff sampleLibrary oneSeed sampleLinks _ (fun _ _ _ _ => id) (by decide +kernel)
    (meets_of_each (by decide +kernel)) (by decide +kernel)).mpr (meets_of_each ?_)
  refine ⟨trivial, trivial, trivial, first_of ?_, trivial, trivial, trivial, trivial, first_of ?_, trivial, trivial,
    trivial⟩
  · decide +kernel
  · decide +kernel

/-- The second seed's pages complete before the first seed, and give its link the depth two instead of one. -/
theorem slow_seed_deepens :
    let moves := [.enter, .scan ⟨true, 0⟩ 0, .scan ⟨true, 0⟩ 0, .scan ⟨true, 0⟩ 0,
      .collect 1 (sampleFetched ["http://a.example/a"]), .leave, .enter, .scan ⟨true, 0⟩ 0, .scan ⟨true, 0⟩ 0,
      .collect 1 (sampleFetched ["http://a.example/b"]), .collect 0 (sampleFetched ["http://a.example/b"]), .leave,
      .enter, .scan ⟨true, 0⟩ 0, .scan ⟨true, 0⟩ 0, .collect 0 (sampleFetched []), .leave, .enter]
    (∀ url ∈ twoSeeds.seeds, inScope sampleLibrary twoSeeds url = true) ∧
      Meets (step sampleLibrary twoSeeds) (start sampleLibrary twoSeeds) (Usual sampleLibrary twoSeeds sampleLinks)
        moves ∧
      (run (step sampleLibrary twoSeeds) (start sampleLibrary twoSeeds) moves).phase = .finished ∧
      ¬ (run (step sampleLibrary twoSeeds) (start sampleLibrary twoSeeds) moves).Exact sampleLibrary twoSeeds
        sampleLinks := by
  refine ⟨by decide +kernel, meets_of_each (by decide +kernel), by decide +kernel, fun distance => ?_⟩
  have deep := (distance "http://a.example/b" 2).mp (by decide +kernel)
  refine deep.2.1.2 1 (by decide) (.step (u := "http://a.example/1") (.start ?_) ?_)
  · decide
  · exact ⟨by decide +kernel, by decide +kernel⟩

end Crawl

end Arenyxa.Crawler
