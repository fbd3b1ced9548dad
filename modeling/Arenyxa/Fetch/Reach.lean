import Arenyxa.Network.Protection

/-! The addresses that a fetch connects to, where the guard and the transport each look the host up. -/

namespace Arenyxa.Fetch

open Network

inductive Transport
  | httpx
  | urllib

/-- What `urlsplit` finds; the name is empty where the URL has none. -/
structure Url where
  scheme : Text
  hostname : Text

/-- A request of a chain of redirects, with the answers to the lookups of its host: the guard's, and then the
addresses that the transport tries, which are none where it has a connection left. -/
structure Hop where
  url : Option Url
  guarded : Option (List Address)
  dialled : List Address

/-- An attempt of a fetch: the answer to the lookup before it, its requests as far as they may come, and whether it
ends in a failure that is tried again. -/
structure Attempt where
  preflight : Option (List Address)
  hops : List Hop
  retried : Bool

/-- A direct connection: the host, the addresses tried, and those that the guard has found for the host. -/
structure Dial where
  host : Text
  addresses : List Address
  vetted : List Address
  deriving DecidableEq

variable (casefold : Char → Text) (p : Policy)

/-- `check_target`, with a lookup. -/
def checkTarget (host : Text) (answer : Option (List Address)) : Except Refusal Unit :=
  let normalized := normalizedHost casefold host
  if !p.enabled then .ok ()
  else if normalized = [] then .error .targetInvalid
  else if p.blockCloudMetadata && p.protectedName casefold normalized then .error .protectedTarget
  else match p.resolve casefold host answer with
    | .error refusal => .error refusal
    | .ok addresses => p.validateAddresses casefold normalized addresses

/-- `_guard_url`; a malformed URL is not split. -/
def guardUrl (url : Option Url) (answer : Option (List Address)) : Except Refusal Unit :=
  match url with
  | none => .error .targetInvalid
  | some url =>
    if url.scheme.flatMap casefold ∉ ["http".toList, "https".toList] ∨ url.hostname = [] then
      .error .targetInvalid
    else checkTarget casefold p url.hostname answer

/-- The addresses that a guard in force has found for a host. -/
def vetted (host : Text) (answer : Option (List Address)) : List Address :=
  if !p.enabled then []
  else match p.resolve casefold host answer with
    | .error _ => []
    | .ok addresses => addresses

/-- The connection of a request: to the host of the URL, or to the proxy. A host that is an address is not looked
up. -/
def Hop.dial (proxy : Option Text) (url : Url) (hop : Hop) : Dial :=
  match proxy with
  | some proxy => ⟨proxy, (ipAddress proxy).elim hop.dialled fun a => [a], []⟩
  | none => ⟨url.hostname, (ipAddress url.hostname).elim hop.dialled fun a => [a],
      vetted casefold p url.hostname hop.guarded⟩

/-- The connections of a chain of requests, each behind its guard, and whether the guard has refused one. -/
def chain (proxy : Option Text) : List Hop → List Dial × Bool
  | [] => ([], false)
  | hop :: hops =>
    match hop.url, guardUrl casefold p hop.url hop.guarded with
    | some url, .ok () => (hop.dial casefold p proxy url :: (chain proxy hops).1, (chain proxy hops).2)
    | _, _ => ([], true)

def maxRedirects : Nat := 10

/-- `_fetch_once`: HTTPX asks the guard again for the first request, and urllib only for redirects. -/
def Attempt.dials (transport : Transport) (proxy : Option Text) (attempt : Attempt) : List Dial × Bool :=
  match attempt.hops.take (maxRedirects + 1) with
  | [] => ([], false)
  | first :: redirects =>
    match transport with
    | .httpx =>
      match guardUrl casefold p first.url attempt.preflight with
      | .error _ => ([], true)
      | .ok () => chain casefold p proxy (first :: redirects)
    | .urllib => chain casefold p proxy ({ first with guarded := attempt.preflight } :: redirects)

/-- `fetch` and `fetch_async`: a refusal of the guard is not tried again. -/
def fetch (transport : Transport) (proxy : Option Text) : List Attempt → List Dial
  | [] => []
  | attempt :: attempts =>
    (attempt.dials casefold p transport proxy).1 ++
      if (attempt.dials casefold p transport proxy).2 || !attempt.retried then []
      else fetch transport proxy attempts

/-- The policy has no objection to the address. -/
def Accepted (host : Text) (a : Address) : Prop := p.objection casefold (normalizedHost casefold host) a = none

/-- Every address tried is one that the policy accepts. -/
def Guarded (dials : List Dial) : Prop := ∀ d ∈ dials, ∀ a ∈ d.addresses, Accepted casefold p d.host a

/-- An address that the transport finds for the host, and the guard has not found, is one that the policy accepts. -/
def Dial.Steady (d : Dial) : Prop := ∀ a ∈ d.addresses, a ∉ d.vetted → Accepted casefold p d.host a

/-- So it is of each request, as long as the guard lets them through. -/
def ChainSteady (proxy : Option Text) : List Hop → Prop
  | [] => True
  | hop :: hops => ∀ url, hop.url = some url → guardUrl casefold p hop.url hop.guarded = .ok () →
      (hop.dial casefold p proxy url).Steady casefold p ∧ ChainSteady proxy hops

def Attempt.Steady (transport : Transport) (proxy : Option Text) (attempt : Attempt) : Prop :=
  match attempt.hops.take (maxRedirects + 1) with
  | [] => True
  | first :: redirects =>
    match transport with
    | .httpx => guardUrl casefold p first.url attempt.preflight = .ok () →
        ChainSteady casefold p proxy (first :: redirects)
    | .urllib => ChainSteady casefold p proxy ({ first with guarded := attempt.preflight } :: redirects)

/-- So it is of each attempt that is made. -/
def FetchSteady (transport : Transport) (proxy : Option Text) : List Attempt → Prop
  | [] => True
  | attempt :: attempts => attempt.Steady casefold p transport proxy ∧
      ((attempt.dials casefold p transport proxy).2 = false → attempt.retried = true →
        FetchSteady transport proxy attempts)

variable {casefold p} {transport : Transport} {proxy : Option Text}

section Vetting

theorem accepted_of_vetted {host : Text} {answer : Option (List Address)} {a : Address}
    (passed : checkTarget casefold p host answer = .ok ()) (mem : a ∈ vetted casefold p host answer) :
    Accepted casefold p host a := by
  rw [vetted] at mem
  rw [checkTarget] at passed
  split at mem
  next => exact absurd mem List.not_mem_nil
  next enabled =>
    rw [if_neg enabled] at passed
    split at passed
    next => exact absurd passed nofun
    next =>
      split at passed
      next => exact absurd passed nofun
      next =>
        cases resolved : p.resolve casefold host answer with
        | error refusal =>
          rw [resolved] at mem
          exact absurd mem List.not_mem_nil
        | ok addresses =>
          rw [resolved] at mem passed
          exact validateAddresses_ok.mp passed a mem

theorem checked_of_guarded {url : Url} {answer : Option (List Address)}
    (passed : guardUrl casefold p (some url) answer = .ok ()) :
    checkTarget casefold p url.hostname answer = .ok () := by
  rw [guardUrl] at passed
  split at passed
  next => exact absurd passed nofun
  next => exact passed

theorem guarded_dial_iff {url : Url} {hop : Hop} (passed : guardUrl casefold p (some url) hop.guarded = .ok ()) :
    (∀ a ∈ (hop.dial casefold p proxy url).addresses,
        Accepted casefold p (hop.dial casefold p proxy url).host a) ↔
      (hop.dial casefold p proxy url).Steady casefold p := by
  have found : ∀ a ∈ (hop.dial casefold p proxy url).vetted,
      Accepted casefold p (hop.dial casefold p proxy url).host a := by
    cases proxy with
    | some proxy => exact fun a mem => absurd mem List.not_mem_nil
    | none => exact fun a mem => accepted_of_vetted (checked_of_guarded passed) mem
  refine ⟨fun guarded a tried _ => guarded a tried, fun steady a tried => ?_⟩
  by_cases mem : a ∈ (hop.dial casefold p proxy url).vetted
  · exact found a mem
  · exact steady a tried mem

end Vetting

section Fetches

theorem guarded_nil : Guarded casefold p [] := fun _ mem => absurd mem List.not_mem_nil

theorem guarded_append {dials more : List Dial} :
    Guarded casefold p (dials ++ more) ↔ Guarded casefold p dials ∧ Guarded casefold p more :=
  List.forall_mem_append

theorem guarded_chain_iff (hops : List Hop) :
    Guarded casefold p (chain casefold p proxy hops).1 ↔ ChainSteady casefold p proxy hops := by
  induction hops with
  | nil => exact iff_of_true guarded_nil trivial
  | cons hop hops ih =>
    rw [chain, ChainSteady]
    split
    next url at_url passed =>
      rw [Guarded, List.forall_mem_cons]
      refine ⟨fun guarded url' same _ => ?_, fun steady => ?_⟩
      · obtain rfl := Option.some.inj (at_url.symm.trans same)
        exact ⟨(guarded_dial_iff (at_url ▸ passed)).mp guarded.1, ih.mp guarded.2⟩
      · obtain ⟨own, later⟩ := steady url at_url passed
        exact ⟨(guarded_dial_iff (at_url ▸ passed)).mpr own, ih.mpr later⟩
    next refused =>
      exact iff_of_true guarded_nil fun url at_url passed => (refused url at_url passed).elim

theorem guarded_attempt_iff (attempt : Attempt) :
    Guarded casefold p (attempt.dials casefold p transport proxy).1 ↔
      attempt.Steady casefold p transport proxy := by
  rw [Attempt.dials, Attempt.Steady]
  cases attempt.hops.take (maxRedirects + 1) with
  | nil => exact iff_of_true guarded_nil trivial
  | cons first redirects =>
    cases transport with
    | urllib => exact guarded_chain_iff _
    | httpx =>
      dsimp only
      split
      next refusal refused =>
        exact iff_of_true guarded_nil fun passed => absurd (refused.symm.trans passed) nofun
      next passed => exact (guarded_chain_iff _).trans ⟨fun steady _ => steady, fun steady => steady passed⟩

end Fetches

def publicAddress : Address := .v4 (octets 93 184 216 34)

def metadataAddress : Address := .v4 (octets 169 254 169 254)

/-- The guard is told of a public address, and the transport of another one. -/
def reboundAttempt : Attempt where
  preflight := some [publicAddress]
  hops := [⟨some ⟨"https".toList, "rebind.test".toList⟩, some [publicAddress], [metadataAddress]⟩]
  retried := false

end Arenyxa.Fetch
