import Arenyxa.Replay.Credentials

/-! The drafts of two captured requests with different credentials are the same, and each slot is bound. -/

namespace Arenyxa.Replay

open Registry (Text text)

/-- A place of a draft whose value is a reference. -/
inductive Slot
  | header (name : Text)
  | query (name : Text)

def Slot.ref (lib : Library) : Slot → Text
  | header name => headerRef lib name
  | query name => queryRef lib name

/-- The value of the slot in a draft. -/
def Slot.At (draft : ReplayDraft) (value : Text) : Slot → Prop
  | header name => (name, value) ∈ draft.request.headers
  | query name => (name, value) ∈ draft.request.query

/-- What a draft is made from. -/
inductive Captured
  | exchange (resolver : Option (Text → Option ResolvedBody)) (x : Exchange)
  | event (e : Event)

namespace Captured

def url : Captured → Text
  | exchange _ x => x.url
  | event e => e.url

def headers : Captured → Dict
  | exchange _ x => x.headers
  | event e => e.headers

/-- The same with another URL and other headers. -/
def withCredentials (url : Text) (headers : Dict) : Captured → Captured
  | exchange resolver x => exchange resolver { x with url := url, headers := headers }
  | event e => event { e with url := url, headers := headers }

variable (lib : Library)

def draft : Captured → Except String ReplayDraft
  | exchange resolver x => draftFromExchange lib resolver x
  | event e => draftFromEvent lib e

/-- The draft with its redacted snapshot. -/
def drafted (c : Captured) : Except String (ReplayDraft × RequestSpec × Fingerprint) :=
  (c.draft lib).map fun d => (d, redactedSnapshot lib d)

def slots (c : Captured) : List Slot :=
  ((c.headers.filter fun item => ¬ HopByHop lib item.1 ∧ SensitiveHeader lib item.1).map fun item =>
    Slot.header item.1) ++ (sanitizeUrlQuery lib c.url).query.map fun item => Slot.query item.1

/-- Captured requests that differ in credentials have the same draft. -/
def Private (c : Captured) : Prop :=
  ∀ url headers, SameUrl lib c.url url → SameHeaders lib c.headers headers →
    (c.withCredentials url headers).drafted lib = c.drafted lib

/-- Different slots have different references, so that each can be given a value of its own. -/
def Bound (c : Captured) : Prop :=
  (∀ s ∈ c.slots lib, ∀ s' ∈ c.slots lib, s.ref lib = s'.ref lib → s = s') ∧
    ∀ d, c.draft lib = .ok d → ∀ chosen : Slot → Text, ∃ secrets bound,
      bindSecrets lib secrets d = .ok bound ∧ ∀ s ∈ c.slots lib, s.At bound (chosen s)

/-- The names of the slots are not the same once they are normalised. -/
def Apart (c : Captured) : Prop :=
  (∀ name name', .header name ∈ c.slots lib → .header name' ∈ c.slots lib →
    headerKey lib name = headerKey lib name' → name = name') ∧
  ∀ name name', .query name ∈ c.slots lib → .query name' ∈ c.slots lib →
    queryKey lib name = queryKey lib name' → name = name'

end Captured

variable {lib : Library} {c : Captured} {d : ReplayDraft}

section Drafts

theorem draft_some (some : c.url ≠ []) : ∃ d, c.draft lib = .ok d ∧
    d.request.url = (sanitizeUrlQuery lib c.url).url ∧ d.request.query = (sanitizeUrlQuery lib c.url).query ∧
    d.request.headers = (sanitizeHeaders lib c.headers).1 := by
  cases c with
  | exchange resolver x => exact ⟨_, if_neg some, rfl, rfl, rfl⟩
  | event e => exact ⟨_, if_neg some, rfl, rfl, rfl⟩

theorem draft_same {url : Text} {headers : Dict} (empty : url = [] ↔ c.url = [])
    (urls : sanitizeUrlQuery lib url = sanitizeUrlQuery lib c.url)
    (same : sanitizeHeaders lib headers = sanitizeHeaders lib c.headers) :
    (c.withCredentials url headers).draft lib = c.draft lib := by
  cases c with
  | exchange resolver x =>
    change draftFromExchange lib resolver _ = draftFromExchange lib resolver x
    rw [draftFromExchange, draftFromExchange]
    change sanitizeUrlQuery lib url = sanitizeUrlQuery lib x.url at urls
    change sanitizeHeaders lib headers = sanitizeHeaders lib x.headers at same
    simp only [urls, same]
    exact if_congr empty rfl rfl
  | event e =>
    change draftFromEvent lib _ = draftFromEvent lib e
    rw [draftFromEvent, draftFromEvent]
    change sanitizeUrlQuery lib url = sanitizeUrlQuery lib e.url at urls
    change sanitizeHeaders lib headers = sanitizeHeaders lib e.headers at same
    simp only [urls, same]
    exact if_congr empty rfl rfl

theorem url_withCredentials (url : Text) (headers : Dict) : (c.withCredentials url headers).url = url := by
  cases c <;> rfl

theorem not_carries_nil : ¬ Carries lib [] := by
  rintro ⟨f, as, bs, name, v, -, its, -⟩
  simp [Frame.url] at its

theorem private_iff : c.Private lib ↔ (lib.urlsplit c.url).isSome = true ∨ ¬ Carries lib c.url := by
  constructor
  · intro all
    by_cases empty : c.url = []
    · rw [empty]
      exact .inr not_carries_nil
    refine splits_of_private fun url' same => ?_
    have headers : SameHeaders lib c.headers c.headers := List.forall₂_same.mpr fun _ _ => ⟨rfl, fun _ => rfl⟩
    have drafts := all url' c.headers same headers
    have some' : (c.withCredentials url' c.headers).url ≠ [] := by
      rw [url_withCredentials]
      exact fun none => empty (same.empty.mp none)
    obtain ⟨d, made, url, -⟩ := @draft_some lib _ empty
    obtain ⟨d', made', url', -⟩ := @draft_some lib _ some'
    rw [Captured.drafted, Captured.drafted, made, made'] at drafts
    have equal : d' = d := (Prod.mk.inj (Except.ok.inj drafts)).1
    rw [url_withCredentials] at url'
    rw [← url, ← url', equal]
  · intro private_ url headers same_url same_headers
    have drafts := @draft_same lib c url headers same_url.empty (sanitizeUrlQuery_private private_ same_url)
      (sanitizeHeaders_same same_headers)
    rw [Captured.drafted, Captured.drafted, drafts]

end Drafts

section Binding

theorem allowed_squash (t : Text) : ∀ replaced, ∀ c ∈ squash replaced t, allowed c = true := by
  induction t with
  | nil => exact fun _ c mem => absurd mem List.not_mem_nil
  | cons first t ih =>
    intro replaced c mem
    rw [squash] at mem
    split at mem
    next good =>
      rcases List.mem_cons.mp mem with rfl | later
      · exact good
      · exact ih _ c later
    next =>
      split at mem
      · exact ih _ c mem
      · rcases List.mem_cons.mp mem with rfl | later
        · decide
        · exact ih _ c later

theorem allowed_kind : (∀ c ∈ text "header.", allowed c = true) ∧ (∀ c ∈ text "query.", allowed c = true) ∧
    ∀ c ∈ text "query", allowed c = true := by
  decide

theorem isSecret_ref (s : Slot) : lib.isSecret (s.ref lib) = true := by
  cases s with
  | header name =>
    refine lib.isSecret_reference _ (by simp [text]) fun c mem => ?_
    rcases List.mem_append.mp mem with kind | key
    · exact allowed_kind.1 c kind
    · exact allowed_squash _ _ c key
  | query name =>
    refine lib.isSecret_reference _ (by simp [text]) fun c mem => ?_
    rcases List.mem_append.mp mem with kind | key
    · exact allowed_kind.2.1 c kind
    · rw [queryKey] at key
      split at key
      · exact allowed_kind.2.2 c key
      · exact allowed_squash _ _ c key

theorem ref_inj {s s' : Slot} (same : s.ref lib = s'.ref lib) :
    (∃ name name', s = .header name ∧ s' = .header name' ∧ headerKey lib name = headerKey lib name') ∨
      ∃ name name', s = .query name ∧ s' = .query name' ∧ queryKey lib name = queryKey lib name' := by
  cases s with
  | header name =>
    cases s' with
    | header name' =>
      have keys := List.append_cancel_left (List.append_cancel_left (List.append_cancel_right same))
      exact .inl ⟨name, name', rfl, rfl, keys⟩
    | query name' =>
      have kinds := List.append_cancel_left (List.append_cancel_right same)
      simp [text] at kinds
  | query name =>
    cases s' with
    | header name' =>
      have kinds := List.append_cancel_left (List.append_cancel_right same)
      simp [text] at kinds
    | query name' =>
      have keys := List.append_cancel_left (List.append_cancel_left (List.append_cancel_right same))
      exact .inr ⟨name, name', rfl, rfl, keys⟩

theorem refs_apart : (∀ s ∈ c.slots lib, ∀ s' ∈ c.slots lib, s.ref lib = s'.ref lib → s = s') ↔ c.Apart lib := by
  constructor
  · intro distinct
    refine ⟨fun name name' mem mem' keys => ?_, fun name name' mem mem' keys => ?_⟩
    · refine Slot.header.inj (distinct _ mem _ mem' ?_)
      rw [Slot.ref, Slot.ref, headerRef, headerRef, keys]
    · refine Slot.query.inj (distinct _ mem _ mem' ?_)
      rw [Slot.ref, Slot.ref, queryRef, queryRef, keys]
  · rintro ⟨headers, queries⟩ s mem s' mem' same
    rcases ref_inj same with ⟨name, name', rfl, rfl, keys⟩ | ⟨name, name', rfl, rfl, keys⟩
    · rw [headers name name' mem mem' keys]
    · rw [queries name name' mem mem' keys]

theorem resolveAll_ok {secrets : Text → Option Text} (all : ∀ ref, (secrets ref).isSome = true) (dict : Dict) :
    ∃ bound, resolveAll lib secrets dict = .ok bound ∧
      ∀ name ref value, (name, ref) ∈ dict → lib.isSecret ref = true → secrets ref = some value →
        (name, value) ∈ bound := by
  induction dict with
  | nil => exact ⟨[], rfl, fun _ _ _ mem => absurd mem List.not_mem_nil⟩
  | cons item dict ih =>
    obtain ⟨bound, resolved, each⟩ := ih
    obtain ⟨value, its⟩ : ∃ value, resolve lib secrets item.2 = .ok value := by
      rw [resolve]
      obtain ⟨secret, found⟩ := Option.isSome_iff_exists.mp (all item.2)
      split
      · rw [found]
        exact ⟨_, rfl⟩
      · exact ⟨_, rfl⟩
    have step : resolveAll lib secrets (item :: dict) = .ok ((item.1, value) :: bound) := by
      rw [resolveAll, its, resolved]
      rfl
    refine ⟨(item.1, value) :: bound, step, fun name ref secret mem is_ref found => ?_⟩
    rcases List.mem_cons.mp mem with rfl | later
    · rw [resolve, if_pos is_ref, found] at its
      cases its
      exact List.mem_cons_self
    · exact List.mem_cons_of_mem _ (each name ref secret later is_ref found)

theorem bindSecrets_ok {secrets : Text → Option Text} (all : ∀ ref, (secrets ref).isSome = true) (d : ReplayDraft) :
    ∃ bound, bindSecrets lib secrets d = .ok bound ∧
      (∀ name ref value, (name, ref) ∈ d.request.headers → lib.isSecret ref = true → secrets ref = some value →
        (name, value) ∈ bound.request.headers) ∧
      ∀ name ref value, (name, ref) ∈ d.request.query → lib.isSecret ref = true → secrets ref = some value →
        (name, value) ∈ bound.request.query := by
  obtain ⟨query, query_ok, queries⟩ := @resolveAll_ok lib _ all d.request.query
  obtain ⟨headers, headers_ok, each⟩ := @resolveAll_ok lib _ all d.request.headers
  obtain ⟨cookies, cookies_ok, -⟩ := @resolveAll_ok lib _ all d.request.cookies
  obtain ⟨body, body_ok⟩ : ∃ body, resolveBody lib secrets d.request.body = .ok body := by
    cases d.request.body with
    | none => exact ⟨none, rfl⟩
    | some body =>
      obtain ⟨secret, found⟩ := Option.isSome_iff_exists.mp (all body)
      rw [resolveBody, resolve, found]
      split <;> exact ⟨_, rfl⟩
  exact ⟨_, by rw [bindSecrets, query_ok, headers_ok, cookies_ok, body_ok]; rfl, each, queries⟩

theorem query_refs (pairs : Dict) (s : Sanitized) (refs : ∀ item ∈ s.secretQuery, item.2 = queryRef lib item.1) :
    ∀ item ∈ (pairs.foldl (sanitizePair lib) s).secretQuery, item.2 = queryRef lib item.1 := by
  induction pairs generalizing s with
  | nil => exact refs
  | cons pair pairs ih =>
    rw [List.foldl_cons]
    refine ih _ fun item mem => ?_
    rw [sanitizePair] at mem
    split at mem
    · split at mem
      · exact refs item mem
      · rcases List.mem_append.mp mem with old | new
        · exact refs item old
        · cases List.mem_singleton.mp new
          rfl
    · exact refs item mem

theorem slot_at (made : c.draft lib = .ok d) {s : Slot} (mem : s ∈ c.slots lib) : s.At d (s.ref lib) := by
  have some : c.url ≠ [] := by
    intro empty
    cases c with
    | exchange resolver x => cases (if_pos empty).symm.trans made
    | event e => cases (if_pos empty).symm.trans made
  obtain ⟨d', made', -, query, headers⟩ := @draft_some lib _ some
  cases made.symm.trans made'
  rcases List.mem_append.mp mem with of_header | of_query
  · obtain ⟨item, item_mem, rfl⟩ := List.mem_map.mp of_header
    obtain ⟨here, sensitive⟩ := List.mem_filter.mp item_mem
    obtain ⟨own, sensitive⟩ := of_decide_eq_true sensitive
    rw [Slot.At, headers, sanitizeHeaders]
    refine List.mem_filterMap.mpr ⟨item, here, ?_⟩
    rw [sanitizeHeader, if_neg own, if_pos sensitive]
    rfl
  · obtain ⟨item, item_mem, rfl⟩ := List.mem_map.mp of_query
    have its : item.2 = queryRef lib item.1 := by
      rw [sanitizeUrlQuery] at item_mem
      split at item_mem
      · exact absurd item_mem List.not_mem_nil
      · exact query_refs _ _ (fun _ mem => absurd mem List.not_mem_nil) item item_mem
    rw [Slot.At, query, Slot.ref, ← its]
    exact item_mem

theorem bound_iff : c.Bound lib ↔ c.Apart lib := by
  refine ⟨fun bound => refs_apart.1 bound.1, fun apart => ?_⟩
  have distinct := refs_apart.2 apart
  refine ⟨distinct, fun d made chosen => ?_⟩
  let secrets (ref : Text) : Option Text :=
    some (((c.slots lib).find? fun s => s.ref lib = ref).elim [] chosen)
  have own : ∀ s ∈ c.slots lib, secrets (s.ref lib) = some (chosen s) := by
    intro s mem
    cases found : (c.slots lib).find? fun s' => s'.ref lib = s.ref lib with
    | none => exact absurd (decide_eq_true rfl) (List.find?_eq_none.mp found s mem)
    | some s' =>
      have same : s'.ref lib = s.ref lib := by simpa using List.find?_some found
      have := distinct s' (List.mem_of_find?_eq_some found) s mem same
      simp only [secrets, found, this, Option.elim_some]
  obtain ⟨bound, binds, headers, queries⟩ := @bindSecrets_ok lib secrets (fun _ => rfl) d
  refine ⟨secrets, bound, binds, fun s mem => ?_⟩
  have there := slot_at made mem
  cases s with
  | header name => exact headers name _ _ there (isSecret_ref (.header name)) (own _ mem)
  | query name => exact queries name _ _ there (isSecret_ref (.query name)) (own _ mem)

end Binding

/-- Drafts carry no captured credential, and each slot is bound to its own value, exactly where the URL can be split
or carries none and no two names of slots are normalised to one. -/
theorem drafts_private (lib : Library) (c : Captured) :
    c.Private lib ∧ c.Bound lib ↔
      ((lib.urlsplit c.url).isSome = true ∨ ¬ Carries lib c.url) ∧ c.Apart lib :=
  and_congr private_iff bound_iff

section Sample

def plainAround (before after : Text) : Option Parts :=
  if 0x5b ∈ before ∧ 0x5d ∉ before then none
  else some { scheme := [], netloc := [], path := clean before, query := [], fragment := (clean after).drop 1 }

/-- Like `urlsplit`, with the scheme and the host left in the path. -/
def plainSplit (url : Text) : Option Parts :=
  let base := url.takeWhile (· ≠ hash)
  (plainAround (base.takeWhile (· ≠ questionMark)) (url.dropWhile (· ≠ hash))).map fun parts =>
    { parts with query := clean ((base.dropWhile (· ≠ questionMark)).drop 1) }

theorem plainSplit_query (before query after : Text) (no_query : questionMark ∉ before) (no_fragment : hash ∉ before)
    (no_hash : hash ∉ query) (fragment : after = [] ∨ after.head? = some hash) :
    plainSplit (before ++ questionMark :: (query ++ after)) =
      (plainAround before after).map fun parts => { parts with query := clean query } := by
  have base : ∀ c ∈ before ++ questionMark :: query, decide (c ≠ hash) = true := by
    intro c mem
    refine decide_eq_true fun its => ?_
    subst its
    rcases List.mem_append.mp mem with early | late
    · exact no_fragment early
    · rcases List.mem_cons.mp late with mark | later
      · exact absurd mark (by decide)
      · exact no_hash later
  have head : ∀ c ∈ before, decide (c ≠ questionMark) = true := fun c mem =>
    decide_eq_true fun its : c = questionMark => no_query (its ▸ mem)
  have taken : after.takeWhile (· ≠ hash) = [] ∧ after.dropWhile (· ≠ hash) = after := by
    cases after with
    | nil => exact ⟨rfl, rfl⟩
    | cons c after =>
      obtain rfl : c = hash := by simpa using fragment
      exact ⟨List.takeWhile_cons_of_neg (by simp), List.dropWhile_cons_of_neg (by simp)⟩
  have url : before ++ questionMark :: (query ++ after) = (before ++ questionMark :: query) ++ after := by simp
  rw [plainSplit, url, List.takeWhile_append_of_pos base, List.dropWhile_append_of_pos base, taken.1, taken.2,
    List.append_nil, List.takeWhile_append_of_pos head, List.dropWhile_append_of_pos head,
    List.takeWhile_cons_of_neg (by simp), List.dropWhile_cons_of_neg (by simp), List.append_nil, List.drop_one,
    List.tail_cons]

def plainLibrary : Library where
  casefold t := t.map fun c => if 0x41 ≤ c ∧ c ≤ 0x5a then c + 0x20 else c
  upper t := t.map fun c => if 0x61 ≤ c ∧ c ≤ 0x7a then c - 0x20 else c
  strip t := ((t.dropWhile (· = 0x20)).reverse.dropWhile (· = 0x20)).reverse
  unquote := id
  sensitiveParameter name := name = text "token"
  isSecret t := secretPrefix <+: t
  urlsplit := plainSplit
  urlunsplit parts := parts.path ++ (if parts.query = [] then [] else questionMark :: parts.query) ++
    if parts.fragment = [] then [] else hash :: parts.fragment
  urlencode d := [ampersand].intercalate (d.map fun item => item.1 ++ equals :: item.2)
  decode _ bytes := some (bytes.map UInt8.toNat)
  redact := id
  sha256 bytes := bytes.map UInt8.toNat
  encode t := t.map UInt8.ofNat
  around := plainAround
  urlsplit_query := plainSplit_query
  isSecret_reference key _ _ := by
    rw [List.append_assoc]
    exact decide_eq_true (List.prefix_append _ _)

/-- An event whose URL has a bracket that is not closed. -/
def bracketEvent : Event where
  id := text "event"
  url := text "http://[::1/?token=abc"
  method := text "GET"
  headers := []
  bodyRef := []
  requestRef := []
  sessionId := []

theorem draft_keeps_token :
    ¬ ((Captured.event bracketEvent).Private plainLibrary ∧ (Captured.event bracketEvent).Bound plainLibrary) := by
  rintro ⟨all, -⟩
  have carries : Carries plainLibrary bracketEvent.url :=
    ⟨⟨text "http://[::1/", [], by decide, by decide, .inl rfl⟩, [], [], text "token", text "abc",
      ⟨by decide, by decide⟩, by decide, by decide, by decide⟩
  rcases private_iff.1 all with splits | none
  · exact absurd splits (by decide)
  · exact none carries

end Sample

end Arenyxa.Replay
