import Arenyxa.Lib.History
import Arenyxa.Lib.Retention
import Mathlib.Data.Rat.Floor

/-! The adaptive rate of the requests to a host: the limiter, and the coordinator that the runs share. -/

universe u

namespace Arenyxa.Runs

structure AdaptiveRateLimiter where
  minimum : ℤ
  maximum : ℤ
  concurrency : ℤ
  delaySeconds : ℚ
  stable : ℕ
  baselineLatency : Option ℚ

inductive RateMode
  | backoff | recover | steady

structure RateDecision where
  concurrency : ℤ
  delaySeconds : ℚ
  mode : RateMode
  reason : String

/-- What is observed of a request; there is no status where it failed without a response. -/
structure Observation where
  status : Option ℤ
  latencyMs : Option ℚ
  retryAfter : Option ℚ

/-- `round(x, 3)` -/
def round3 (x : ℚ) : ℚ :=
  let low := ⌊x * 1000⌋
  let rest := x * 1000 - low
  let rounded := if rest < 1 / 2 then low else if 1 / 2 < rest then low + 1 else if low % 2 = 0 then low else low + 1
  rounded / 1000

def Observation.latency (o : Observation) : ℚ := max 0 (o.latencyMs.getD 0)

def Observation.Throttled (o : Observation) : Prop := o.status = some 429 ∨ o.status = some 503

instance (o : Observation) : Decidable o.Throttled := inferInstanceAs (Decidable (_ ∨ _))

/-- The delay that a throttling response suggests. -/
def Observation.suggested (o : Observation) : ℚ :=
  if o.Throttled then max (1 / 4) (min 60 (o.retryAfter.getD 0)) else 1 / 4

/-- Nothing is known of the response, or it was a success or a redirect. -/
def Observation.Passed (o : Observation) : Prop := o.status = none ∨ ∃ code ∈ o.status, 200 ≤ code ∧ code < 400

instance (o : Observation) : Decidable o.Passed :=
  match h : o.status with
  | none => isTrue (.inl h)
  | some code =>
    decidable_of_iff (200 ≤ code ∧ code < 400)
      ⟨fun range => .inr ⟨code, h, range⟩, by rintro (none | ⟨code', its, range⟩) <;> simp_all⟩

namespace AdaptiveRateLimiter

def init (minimum maximum initial : ℤ) : AdaptiveRateLimiter where
  minimum := max 1 minimum
  maximum := max (max 1 minimum) maximum
  concurrency := max (max 1 minimum) (min (max (max 1 minimum) maximum) initial)
  delaySeconds := 0
  stable := 0
  baselineLatency := none

/-- The baseline after an observation. -/
def baseline (l : AdaptiveRateLimiter) (o : Observation) : Option ℚ :=
  match l.baselineLatency with
  | none => if o.latency ≠ 0 then some o.latency else none
  | some b => if o.latency ≠ 0 ∧ b ≠ 0 then some (b * (92 / 100) + o.latency * (8 / 100)) else some b

def Pressed (l : AdaptiveRateLimiter) (o : Observation) : Prop :=
  o.latency ≠ 0 ∧ (∃ b ∈ l.baseline o, b ≠ 0 ∧ b * (5 / 2) < o.latency) ∧ 750 < o.latency

instance (l : AdaptiveRateLimiter) (o : Observation) : Decidable (l.Pressed o) :=
  inferInstanceAs (Decidable (_ ∧ _ ∧ _))

/-- The observation makes the limiter back off. -/
def BacksOff (l : AdaptiveRateLimiter) (o : Observation) : Prop := o.Throttled ∨ l.Pressed o

instance (l : AdaptiveRateLimiter) (o : Observation) : Decidable (l.BacksOff o) := inferInstanceAs (Decidable (_ ∨ _))

def backOff (l : AdaptiveRateLimiter) (o : Observation) : AdaptiveRateLimiter :=
  { l with
    baselineLatency := l.baseline o
    concurrency := max l.minimum ⌈(l.concurrency : ℚ) * (55 / 100)⌉
    delaySeconds := max (l.delaySeconds * (16 / 10)) o.suggested
    stable := 0 }

def Recovers (l : AdaptiveRateLimiter) : Prop := 20 ≤ l.stable + 1 ∧ l.concurrency < l.maximum

instance (l : AdaptiveRateLimiter) : Decidable l.Recovers := inferInstanceAs (Decidable (_ ∧ _))

def observe (l : AdaptiveRateLimiter) (o : Observation) : AdaptiveRateLimiter × RateDecision :=
  if l.BacksOff o then
    let reason := if o.Throttled then "HTTP " ++ toString (o.status.getD 0) ++ " 触发自适应退避" else "响应延迟显著上升，主动降载"
    let l := l.backOff o
    (l, ⟨l.concurrency, round3 l.delaySeconds, .backoff, reason⟩)
  else if o.Passed then
    let passed := { l with
      baselineLatency := l.baseline o, stable := l.stable + 1, delaySeconds := l.delaySeconds * (9 / 10) }
    if l.Recovers then
      let l := { passed with concurrency := l.concurrency + 1, stable := 0 }
      (l, ⟨l.concurrency, round3 l.delaySeconds, .recover, "稳定窗口达标，渐进恢复并发"⟩)
    else (passed, ⟨passed.concurrency, round3 passed.delaySeconds, .steady, "维持当前速率"⟩)
  else
    let l := { l with baselineLatency := l.baseline o }
    (l, ⟨l.concurrency, round3 l.delaySeconds, .steady, "维持当前速率"⟩)

end AdaptiveRateLimiter

structure AdaptiveHostState (H : Type u) where
  host : H
  limiter : AdaptiveRateLimiter
  nextAllowed : ℚ := 0
  lastDecision : RateMode := .steady
  lastSeen : ℚ

instance {H : Type u} : Keyed (AdaptiveHostState H) H := ⟨AdaptiveHostState.host⟩

structure AdaptiveRateCoordinator (H : Type u) where
  maximum : ℤ
  maxHosts : ℕ
  idleTtlSeconds : ℚ
  states : Table (AdaptiveHostState H)

namespace AdaptiveRateCoordinator

variable {H : Type u} [DecidableEq H]

def init (maximum maxHosts : ℤ) (idleTtlSeconds : ℚ) : AdaptiveRateCoordinator H where
  maximum := max 1 maximum
  maxHosts := (max 64 maxHosts).toNat
  idleTtlSeconds := max 60 idleTtlSeconds
  states := .empty

/-- The hosts that were not idle for too long. -/
def live (c : AdaptiveRateCoordinator H) (now : ℚ) : Table (AdaptiveHostState H) :=
  c.states.filter fun s => ¬ c.idleTtlSeconds ≤ now - s.lastSeen

/-- `_prune_locked` -/
def prune (c : AdaptiveRateCoordinator H) (now : ℚ) : AdaptiveRateCoordinator H :=
  let live := c.live now
  let oldest := (live.rows.mergeSort fun s s' => s.lastSeen ≤ s'.lastSeen).take (live.rows.length - c.maxHosts)
  { c with states := oldest.foldl (fun t s => t.erase s.host) live }

def fresh (c : AdaptiveRateCoordinator H) (host : H) (now : ℚ) : AdaptiveHostState H where
  host := host
  limiter := .init 1 c.maximum c.maximum
  lastSeen := now

/-- `_state`: the state of the host, and the coordinator with it. -/
def state (c : AdaptiveRateCoordinator H) (host : H) (now : ℚ) : AdaptiveHostState H × AdaptiveRateCoordinator H :=
  match c.states.get? host with
  | some s => ({ s with lastSeen := now }, { c with states := c.states.assign { s with lastSeen := now } })
  | none =>
    let pruned := c.prune now
    let room := pruned.states.evictOldest c.maxHosts fun s => s.lastSeen
    (c.fresh host now, { c with states := room.assign (c.fresh host now) })

def limit (c : AdaptiveRateCoordinator H) (host : H) (now : ℚ) : ℤ × AdaptiveRateCoordinator H :=
  ((c.state host now).1.limiter.concurrency, (c.state host now).2)

/-- `ready_and_reserve`: the clock is read before the lock is taken, and again by `_state`. -/
def readyAndReserve (c : AdaptiveRateCoordinator H) (host : H) (now locked : ℚ) : Bool × AdaptiveRateCoordinator H :=
  let (s, c) := c.state host locked
  let s := { s with lastSeen := now }
  if now < s.nextAllowed then (false, { c with states := c.states.assign s })
  else (true, { c with states := c.states.assign { s with nextAllowed := now + max 0 s.limiter.delaySeconds } })

/-- `observe`, with its three readings of the clock. -/
def observe (c : AdaptiveRateCoordinator H) (host : H) (o : Observation) (locked seen later : ℚ) :
    AdaptiveRateCoordinator H :=
  let (s, c) := c.state host locked
  let (limiter, decision) := s.limiter.observe o
  let s := { s with limiter := limiter, lastSeen := seen, lastDecision := decision.mode }
  let s := if 0 < decision.delaySeconds then
      { s with nextAllowed := max s.nextAllowed (later + decision.delaySeconds) } else s
  { c with states := c.states.assign s }

def snapshot (c : AdaptiveRateCoordinator H) (now : ℚ) : List (H × ℤ × ℚ × RateMode) × AdaptiveRateCoordinator H :=
  let c := c.prune now
  (c.states.rows.map fun s => (s.host, s.limiter.concurrency, round3 s.limiter.delaySeconds, s.lastDecision), c)

end AdaptiveRateCoordinator

end Arenyxa.Runs

/-! The bounds of the adaptive rate, and the spacing of the reservations of a host. -/

namespace Arenyxa.Runs

open History

namespace AdaptiveRateLimiter

variable {l : AdaptiveRateLimiter} {o : Observation}

structure Bounded (l : AdaptiveRateLimiter) : Prop where
  low : l.minimum ≤ l.concurrency
  high : l.concurrency ≤ l.maximum
  delay : l.delaySeconds ≤ 60

structure Sound (l : AdaptiveRateLimiter) : Prop extends l.Bounded where
  minimum : 1 ≤ l.minimum
  nonneg : 0 ≤ l.delaySeconds

/-- What an observation leaves: the bounds, the time that a throttling response asks for, and no more speed where
the request was throttled or failed. -/
structure Respects (l : AdaptiveRateLimiter) (o : Observation) (l' : AdaptiveRateLimiter) : Prop where
  bounded : l'.Bounded
  retry : o.Throttled → min 60 (o.retryAfter.getD 0) ≤ l'.delaySeconds
  slower : o.Throttled ∨ o.status = none → l'.concurrency ≤ l.concurrency ∧ l.delaySeconds ≤ l'.delaySeconds

/-- Backing off once more keeps within a minute; and a failure finds nothing that it could recover. -/
def Calm (l : AdaptiveRateLimiter) (o : Observation) : Prop :=
  (l.BacksOff o → l.delaySeconds * (16 / 10) ≤ 60) ∧
    (o.status = none → ¬ l.BacksOff o → l.delaySeconds = 0 ∧ ¬ l.Recovers)

instance (l : AdaptiveRateLimiter) (o : Observation) : Decidable (l.Calm o) := inferInstanceAs (Decidable (_ ∧ _))

theorem sound_init (minimum maximum initial : ℤ) : (init minimum maximum initial).Sound where
  low := le_max_left _ _
  high := max_le (le_max_left _ _) (min_le_left _ _)
  delay := by norm_num [init]
  minimum := le_max_left _ _
  nonneg := le_refl _

theorem suggested_le : o.suggested ≤ 60 := by
  rw [Observation.suggested]
  split
  · exact max_le (by norm_num) (min_le_left _ _)
  · norm_num

theorem retry_le_suggested (throttled : o.Throttled) : min 60 (o.retryAfter.getD 0) ≤ o.suggested := by
  rw [Observation.suggested, if_pos throttled]
  exact le_max_right _ _

theorem ceil_le (sound : l.Sound) : ⌈(l.concurrency : ℚ) * (55 / 100)⌉ ≤ l.concurrency := by
  have one : (1 : ℚ) ≤ l.concurrency := by exact_mod_cast sound.minimum.trans sound.low
  refine Int.ceil_le.2 ?_
  linarith

theorem backOff_calm (sound : l.Sound) : l.Respects o (l.backOff o) ↔ l.delaySeconds * (16 / 10) ≤ 60 := by
  have nonneg := sound.nonneg
  refine ⟨fun kept => (le_max_left _ _).trans kept.bounded.delay, fun within => ?_⟩
  have less := max_le sound.low (ceil_le sound)
  have more : l.delaySeconds ≤ (l.backOff o).delaySeconds := le_max_of_le_left (by linarith)
  exact ⟨⟨le_max_left _ _, less.trans sound.high, max_le within suggested_le⟩,
    fun throttled => (retry_le_suggested throttled).trans (le_max_right _ _), fun _ => ⟨less, more⟩⟩

theorem observe_calm (sound : l.Sound) : l.Respects o (l.observe o).1 ↔ l.Calm o := by
  have within := sound.delay
  have nonneg := sound.nonneg
  rw [observe]
  by_cases back : l.BacksOff o
  · rw [if_pos back, Calm, backOff_calm sound]
    exact ⟨fun kept => ⟨fun _ => kept, fun _ calm => absurd back calm⟩, fun calm => calm.1 back⟩
  have unthrottled : ¬ o.Throttled := fun throttled => back (.inl throttled)
  rw [if_neg back]
  by_cases passed : o.Passed
  · rw [if_pos passed]
    dsimp only
    by_cases recovers : l.Recovers
    · rw [if_pos recovers]
      refine ⟨fun kept => ⟨fun its => absurd its back, fun failed _ => ?_⟩, fun calm => ?_⟩
      · have slower := (kept.slower (.inr failed)).1
        dsimp only at slower
        omega
      · refine ⟨⟨?_, recovers.2, ?_⟩, fun throttled => absurd throttled unthrottled, ?_⟩
        · exact sound.low.trans (by dsimp only; omega)
        · dsimp only
          linarith
        · rintro (throttled | failed)
          · exact absurd throttled unthrottled
          · exact absurd recovers (calm.2 failed back).2
    · rw [if_neg recovers]
      refine ⟨fun kept => ⟨fun its => absurd its back, fun failed _ => ⟨?_, recovers⟩⟩, fun calm => ?_⟩
      · have slower := (kept.slower (.inr failed)).2
        dsimp only at slower
        linarith
      · refine ⟨⟨sound.low, sound.high, ?_⟩, fun throttled => absurd throttled unthrottled, ?_⟩
        · dsimp only
          linarith
        · rintro (throttled | failed)
          · exact absurd throttled unthrottled
          · have none := (calm.2 failed back).1
            exact ⟨le_refl _, by dsimp only; rw [none]; norm_num⟩
  · rw [if_neg passed]
    have answered : o.status ≠ none := fun none => passed (.inl none)
    exact ⟨fun _ => ⟨fun its => absurd its back, fun failed => absurd failed answered⟩,
      fun _ => ⟨⟨sound.low, sound.high, sound.delay⟩, fun throttled => absurd throttled unthrottled,
        fun either => either.elim (fun throttled => absurd throttled unthrottled)
          fun failed => absurd failed answered⟩⟩

theorem sound_observe (sound : l.Sound) (kept : l.Respects o (l.observe o).1) : (l.observe o).1.Sound := by
  refine ⟨kept.bounded, ?_, ?_⟩
  · have same : (l.observe o).1.minimum = l.minimum := by
      rw [observe]
      split
      · rfl
      · split
        · dsimp only
          split <;> rfl
        · rfl
    rw [same]
    exact sound.minimum
  · have nonneg := sound.nonneg
    rw [observe]
    split
    · exact le_max_of_le_left (by linarith)
    · split
      · dsimp only
        split
        · dsimp only
          linarith
        · dsimp only
          linarith
      · exact nonneg

theorem observations_calm (sound : l.Sound) (observations : List Observation) :
    Each (fun l o => (l.observe o).1) (fun l o => l.Respects o (l.observe o).1) l observations ↔
      Each (fun l o => (l.observe o).1) Calm l observations := by
  induction observations generalizing l with
  | nil => exact Iff.rfl
  | cons o observations ih =>
    rw [Each, Each, observe_calm sound]
    exact and_congr_right fun calm => ih (sound_observe sound ((observe_calm sound).mpr calm))

end AdaptiveRateLimiter

end Arenyxa.Runs

/-! The reservations of the hosts that several runs share. -/

namespace Arenyxa.Runs

open History

variable {H : Type u} [DecidableEq H]

/-- A call of the coordinator, with its readings of the clock. -/
inductive RateCall (H : Type u)
  | limit (host : H) (now : ℚ)
  | readyAndReserve (host : H) (now locked : ℚ)
  | observe (host : H) (o : Observation) (locked seen later : ℚ)
  | snapshot (now : ℚ)

/-- A successful reservation: the reading of the clock and the delay in force. -/
structure Reservation (H : Type u) where
  host : H
  at_ : ℚ
  delay : ℚ

def Reservation.over (r : Reservation H) : ℚ := r.at_ + r.delay

namespace RateCall

/-- The reading of the clock when the call removes idle hosts. -/
def time : RateCall H → ℚ
  | limit _ now => now
  | readyAndReserve _ _ locked => locked
  | observe _ _ locked _ _ => locked
  | snapshot now => now

def apply (c : AdaptiveRateCoordinator H) : RateCall H → AdaptiveRateCoordinator H
  | limit host now => (c.limit host now).2
  | readyAndReserve host now locked => (c.readyAndReserve host now locked).2
  | observe host o locked seen later => c.observe host o locked seen later
  | snapshot now => (c.snapshot now).2

def reservation (c : AdaptiveRateCoordinator H) : RateCall H → List (Reservation H)
  | readyAndReserve host now locked =>
    if (c.readyAndReserve host now locked).1 then [⟨host, now, (c.state host locked).1.limiter.delaySeconds⟩] else []
  | _ => []

def observation (c : AdaptiveRateCoordinator H) :
    RateCall H → List (AdaptiveRateLimiter × Observation × AdaptiveRateLimiter)
  | observe host o locked _ _ =>
    let limiter := (c.state host locked).1.limiter
    [(limiter, o, (limiter.observe o).1)]
  | _ => []

/-- The hosts that the call drops. -/
def drops (c : AdaptiveRateCoordinator H) (call : RateCall H) : List H :=
  (c.states.rows.map AdaptiveHostState.host).filter fun host => (call.apply c).states.get? host = none

end RateCall

/-- The coordinator, with what it granted and observed, and when it dropped a host. -/
structure RateRun (H : Type u) where
  coordinator : AdaptiveRateCoordinator H
  reserved : List (Reservation H) := []
  observed : List (AdaptiveRateLimiter × Observation × AdaptiveRateLimiter) := []
  dropped : List (H × ℚ) := []

namespace RateRun

def next (s : RateRun H) (call : RateCall H) : RateRun H where
  coordinator := call.apply s.coordinator
  reserved := s.reserved ++ call.reservation s.coordinator
  observed := s.observed ++ call.observation s.coordinator
  dropped := s.dropped ++ (call.drops s.coordinator).map fun host => (host, call.time)

/-- Two reservations of a host are at least the delay apart that was in force at the first. -/
def Spaced (reserved : List (Reservation H)) : Prop :=
  reserved.Pairwise fun r r' => r.host = r'.host → r.over ≤ r'.at_

/-- Every limiter is in bounds, every observation leaves what it must, and the reservations are spaced. -/
structure Controlled (s : RateRun H) : Prop where
  bounded : ∀ h ∈ s.coordinator.states.rows, h.limiter.Bounded
  observed : ∀ x ∈ s.observed, x.1.Respects x.2.1 x.2.2
  spaced : Spaced s.reserved

/-- The observation is calm; no host is dropped before its reservations are over; and who reserves has read the clock
after the host was last dropped. -/
structure Orderly (s : RateRun H) (call : RateCall H) : Prop where
  calm : ∀ x ∈ call.observation s.coordinator, x.1.Calm x.2.1
  past : ∀ host ∈ call.drops s.coordinator, ∀ r ∈ s.reserved, r.host = host → r.over ≤ call.time
  fresh : ∀ r ∈ call.reservation s.coordinator, ∀ d ∈ (s.next call).dropped, d.1 = r.host → d.2 ≤ r.at_

instance (s : RateRun H) (call : RateCall H) : Decidable (s.Orderly call) :=
  decidable_of_iff
    ((∀ x ∈ call.observation s.coordinator, x.1.Calm x.2.1) ∧
      (∀ host ∈ call.drops s.coordinator, ∀ r ∈ s.reserved, r.host = host → r.over ≤ call.time) ∧
      ∀ r ∈ call.reservation s.coordinator, ∀ d ∈ (s.next call).dropped, d.1 = r.host → d.2 ≤ r.at_)
    ⟨fun ⟨calm, past, fresh⟩ => ⟨calm, past, fresh⟩, fun ⟨calm, past, fresh⟩ => ⟨calm, past, fresh⟩⟩

end RateRun

section States

variable {c : AdaptiveRateCoordinator H} {host : H} {now : ℚ}

theorem get?_foldl_erase (oldest : List (AdaptiveHostState H)) (t : Table (AdaptiveHostState H)) (h : H) :
    (oldest.foldl (fun t s => t.erase s.host) t).get? h = none ∨
      (oldest.foldl (fun t s => t.erase s.host) t).get? h = t.get? h := by
  induction oldest generalizing t with
  | nil => exact .inr rfl
  | cons s oldest ih =>
    rw [List.foldl_cons]
    rcases ih (t.erase s.host) with gone | same
    · exact .inl gone
    · rw [same, Table.get?_erase]
      split
      · exact .inl rfl
      · exact .inr rfl

theorem get?_of_sublist {t t' : Table (AdaptiveHostState H)} (sub : t'.rows.Sublist t.rows) (h : H) :
    t'.get? h = none ∨ t'.get? h = t.get? h := by
  cases found : t'.get? h with
  | none => exact .inl rfl
  | some s =>
    obtain ⟨mem, its⟩ := Table.get?_some_iff.mp found
    exact .inr (Table.get?_some_iff.mpr ⟨sub.subset mem, its⟩).symm

theorem get?_prune (h : H) :
    (c.prune now).states.get? h = none ∨ (c.prune now).states.get? h = c.states.get? h := by
  rcases get?_foldl_erase _ (c.live now) h with gone | same
  · exact .inl gone
  · have sub : (c.live now).rows.Sublist c.states.rows := List.filter_sublist
    rcases get?_of_sublist sub h with gone | kept
    · exact .inl (same.trans gone)
    · exact .inr (same.trans kept)

theorem state_cases :
    (c.state host now).2.states.get? host = some (c.state host now).1 ∧
      (∀ h, h ≠ host → (c.state host now).2.states.get? h = none ∨
        (c.state host now).2.states.get? h = c.states.get? h) ∧
      ((∃ s, c.states.get? host = some s ∧ (c.state host now).1 = { s with lastSeen := now }) ∨
        c.states.get? host = none ∧ (c.state host now).1 = c.fresh host now) := by
  rw [AdaptiveRateCoordinator.state]
  cases found : c.states.get? host with
  | some s =>
    have own : s.host = host := Table.get?_key found
    refine ⟨?_, fun h other => .inr ?_, .inl ⟨s, rfl, rfl⟩⟩
    · exact Table.get?_assign.trans (if_pos own.symm)
    · exact Table.get?_assign.trans (if_neg fun its => other (its.trans own))
  | none =>
    refine ⟨Table.get?_assign.trans (if_pos rfl), fun h other => ?_, .inr ⟨rfl, rfl⟩⟩
    have others : ∀ room : Table (AdaptiveHostState H),
        (room.assign (c.fresh host now)).get? h = room.get? h := fun room => Table.get?_assign.trans (if_neg other)
    dsimp only
    rw [others]
    have sub : ((c.prune now).states.evictOldest c.maxHosts fun s => s.lastSeen).rows.Sublist
        (c.prune now).states.rows := Table.evictOldest_sublist
    rcases get?_of_sublist sub h with gone | kept
    · exact .inl gone
    · rw [kept]
      exact get?_prune h

theorem apply_keeps (call : RateCall H) (h : H) {s : AdaptiveHostState H} (found : c.states.get? h = some s) :
    (call.apply c).states.get? h = none ∨
      ∃ s', (call.apply c).states.get? h = some s' ∧ s.nextAllowed ≤ s'.nextAllowed := by
  have step : ∀ (host : H) (now : ℚ) (s' : AdaptiveHostState H), s'.host = host →
      (c.state host now).1.nextAllowed ≤ s'.nextAllowed →
      ((c.state host now).2.states.assign s').get? h = none ∨
        ∃ s'', ((c.state host now).2.states.assign s').get? h = some s'' ∧ s.nextAllowed ≤ s''.nextAllowed := by
    intro host now s' own later
    obtain ⟨-, others, old⟩ := @state_cases H _ c host now
    have assigned : ((c.state host now).2.states.assign s').get? h =
        if h = s'.host then some s' else (c.state host now).2.states.get? h := Table.get?_assign
    rw [assigned]
    by_cases same : h = host
    · rw [if_pos (same.trans own.symm)]
      refine .inr ⟨s', rfl, ?_⟩
      subst same
      rcases old with ⟨s₀, found₀, its⟩ | ⟨none, -⟩
      · cases found.symm.trans found₀
        rw [its] at later
        exact later
      · cases found.symm.trans none
    · rw [if_neg fun its => same (its.trans own)]
      rcases others h same with gone | kept
      · exact .inl gone
      · exact .inr ⟨s, kept.trans found, le_refl _⟩
  have named : ∀ host now, (c.state host now).1.host = host := by
    intro host now
    exact Table.get?_key (@state_cases H _ c host now).1
  cases call with
  | limit host now =>
    obtain ⟨here, others, old⟩ := @state_cases H _ c host now
    change (c.state host now).2.states.get? h = none ∨ ∃ s', (c.state host now).2.states.get? h = some s' ∧ _
    by_cases same : h = host
    · subst same
      rcases old with ⟨s₀, found₀, its⟩ | ⟨none, -⟩
      · cases found.symm.trans found₀
        exact .inr ⟨_, here, by rw [its]⟩
      · cases found.symm.trans none
    · rcases others h same with gone | kept
      · exact .inl gone
      · exact .inr ⟨s, kept.trans found, le_refl _⟩
  | readyAndReserve host now locked =>
    rw [RateCall.apply, AdaptiveRateCoordinator.readyAndReserve]
    dsimp only
    split
    · exact step host locked _ (named host locked) (le_refl _)
    next ready =>
      refine step host locked _ (named host locked) ?_
      exact (not_lt.mp ready).trans (le_add_of_nonneg_right (le_max_left _ _))
  | observe host o locked seen later =>
    rw [RateCall.apply, AdaptiveRateCoordinator.observe]
    dsimp only
    split
    · exact step host locked _ (named host locked) (le_max_left _ _)
    · exact step host locked _ (named host locked) (le_refl _)
  | snapshot now =>
    rcases @get?_prune H _ c now h with gone | kept
    · exact .inl gone
    · exact .inr ⟨s, kept.trans found, le_refl _⟩

theorem apply_limiter (call : RateCall H) {s : AdaptiveHostState H} (mem : s ∈ (call.apply c).states.rows) :
    (∃ s₀ ∈ c.states.rows, s.limiter = s₀.limiter) ∨ s.limiter = .init 1 c.maximum c.maximum ∨
      ∃ x ∈ call.observation c, s.limiter = x.2.2 := by
  have found := Table.mem_rows_iff.mp mem
  have of_state : ∀ host now, (∃ s₀ ∈ c.states.rows, (c.state host now).1.limiter = s₀.limiter) ∨
      (c.state host now).1.limiter = .init 1 c.maximum c.maximum := by
    intro host now
    rcases (@state_cases H _ c host now).2.2 with ⟨s₀, found₀, its⟩ | ⟨-, its⟩
    · exact .inl ⟨s₀, (Table.get?_some_iff.mp found₀).1, by rw [its]⟩
    · exact .inr (by rw [its]; rfl)
  have of_rows : ∀ host now h s, (c.state host now).2.states.get? h = some s →
      (∃ s₀ ∈ c.states.rows, s.limiter = s₀.limiter) ∨ s.limiter = .init 1 c.maximum c.maximum := by
    intro host now h s found
    obtain ⟨here, others, -⟩ := @state_cases H _ c host now
    by_cases same : h = host
    · subst same
      cases here.symm.trans found
      exact of_state h now
    · rcases others h same with gone | kept
      · cases gone.symm.trans found
      · exact .inl ⟨s, (Table.get?_some_iff.mp (kept.symm.trans found)).1, rfl⟩
  have of_assign : ∀ host now (s' : AdaptiveHostState H),
      ((c.state host now).2.states.assign s').get? s.host = some s →
      s = s' ∨ (∃ s₀ ∈ c.states.rows, s.limiter = s₀.limiter) ∨ s.limiter = .init 1 c.maximum c.maximum := by
    intro host now s' found
    have assigned : ((c.state host now).2.states.assign s').get? s.host =
        if s.host = s'.host then some s' else (c.state host now).2.states.get? s.host := Table.get?_assign
    rw [assigned] at found
    split at found
    · cases found
      exact .inl rfl
    · exact .inr (of_rows host now _ s found)
  cases call with
  | limit host now => exact (of_rows host now _ s found).imp_right .inl
  | readyAndReserve host now locked =>
    rw [RateCall.apply, AdaptiveRateCoordinator.readyAndReserve] at found
    dsimp only at found
    split at found
    all_goals
      rcases of_assign host locked _ found with rfl | old
      · exact (of_state host locked).imp_right .inl
      · exact old.imp_right .inl
  | observe host o locked seen later =>
    rw [RateCall.apply, AdaptiveRateCoordinator.observe] at found
    dsimp only at found
    split at found
    all_goals
      rcases of_assign host locked _ found with rfl | old
      · exact .inr (.inr ⟨_, List.mem_singleton_self _, rfl⟩)
      · exact old.imp_right .inl
  | snapshot now =>
    rcases @get?_prune H _ c now s.host with gone | kept
    · cases gone.symm.trans found
    · exact .inl ⟨s, (Table.get?_some_iff.mp (kept.symm.trans found)).1, rfl⟩

theorem reservation_ready {call : RateCall H} {r : Reservation H} (mem : r ∈ call.reservation c) :
    (∀ s, c.states.get? r.host = some s → s.nextAllowed ≤ r.at_) ∧
      ∃ s', (call.apply c).states.get? r.host = some s' ∧ r.over ≤ s'.nextAllowed := by
  cases call with
  | limit => exact absurd mem List.not_mem_nil
  | observe => exact absurd mem List.not_mem_nil
  | snapshot => exact absurd mem List.not_mem_nil
  | readyAndReserve host now locked =>
    obtain ⟨here, -, old⟩ := @state_cases H _ c host locked
    have named : (c.state host locked).1.host = host := Table.get?_key here
    rw [RateCall.reservation] at mem
    split at mem
    next granted =>
      cases List.mem_singleton.mp mem
      rw [AdaptiveRateCoordinator.readyAndReserve] at granted
      dsimp only at granted
      split at granted
      · cases granted
      next ready =>
        constructor
        · intro s found
          rcases old with ⟨s₀, found₀, its⟩ | ⟨none, -⟩
          · cases found.symm.trans found₀
            rw [its] at ready
            exact not_lt.mp ready
          · cases found.symm.trans none
        · rw [RateCall.apply, AdaptiveRateCoordinator.readyAndReserve]
          dsimp only
          rw [if_neg ready]
          exact ⟨_, Table.get?_assign.trans (if_pos named.symm), add_le_add_right (le_max_right _ _) _⟩
    next => exact absurd mem List.not_mem_nil

end States

section Runs

open AdaptiveRateLimiter

variable {s : RateRun H} {call : RateCall H}

/-- Every reservation is over when its host may be asked again, or was over when the host was dropped. -/
def RateRun.Settled (s : RateRun H) (r : Reservation H) : Prop :=
  (∃ h, s.coordinator.states.get? r.host = some h ∧ r.over ≤ h.nextAllowed) ∨
    ∃ d ∈ s.dropped, d.1 = r.host ∧ r.over ≤ d.2

structure RateRun.Sound (s : RateRun H) : Prop where
  limiters : ∀ h ∈ s.coordinator.states.rows, h.limiter.Sound
  observed : ∀ x ∈ s.observed, x.1.Respects x.2.1 x.2.2
  settled : ∀ r ∈ s.reserved, s.Settled r
  spaced : RateRun.Spaced s.reserved

theorem settled_next (sound : s.Sound) (orderly : s.Orderly call) {r : Reservation H} (mem : r ∈ s.reserved) :
    (s.next call).Settled r := by
  rcases sound.settled r mem with ⟨h, found, late⟩ | ⟨d, drop, own, late⟩
  · rcases apply_keeps call r.host found with gone | ⟨h', kept, later⟩
    · have dropped : r.host ∈ call.drops s.coordinator := by
        obtain ⟨row, its⟩ := Table.get?_some_iff.mp found
        exact List.mem_filter.mpr ⟨List.mem_map.mpr ⟨h, row, its⟩, decide_eq_true gone⟩
      exact .inr ⟨(r.host, call.time), List.mem_append_right _ (List.mem_map.mpr ⟨_, dropped, rfl⟩), rfl,
        orderly.past _ dropped r mem rfl⟩
    · exact .inl ⟨h', kept, late.trans later⟩
  · exact .inr ⟨d, List.mem_append_left _ drop, own, late⟩

theorem observation_sound (sound : s.Sound) : ∀ x ∈ call.observation s.coordinator,
    x.1.Sound ∧ x.2.2 = (x.1.observe x.2.1).1 := by
  cases call with
  | limit => exact fun x mem => absurd mem List.not_mem_nil
  | readyAndReserve => exact fun x mem => absurd mem List.not_mem_nil
  | snapshot => exact fun x mem => absurd mem List.not_mem_nil
  | observe host o locked seen later =>
    intro x mem
    cases List.mem_singleton.mp mem
    refine ⟨?_, rfl⟩
    rcases (@state_cases H _ s.coordinator host locked).2.2 with ⟨h, found, its⟩ | ⟨-, its⟩
    · dsimp only
      rw [its]
      exact sound.limiters h (Table.get?_some_iff.mp found).1
    · dsimp only
      rw [its]
      exact sound_init _ _ _

theorem sound_next (sound : s.Sound) (orderly : s.Orderly call) : (s.next call).Sound := by
  have observed : ∀ x ∈ call.observation s.coordinator, x.1.Respects x.2.1 x.2.2 := by
    intro x mem
    obtain ⟨its, after⟩ := observation_sound sound x mem
    rw [after]
    exact (observe_calm its).mpr (orderly.calm x mem)
  refine ⟨fun h mem => ?_, fun x mem => ?_, fun r mem => ?_, ?_⟩
  · rcases apply_limiter call mem with ⟨h₀, mem₀, same⟩ | fresh | ⟨x, its, same⟩
    · rw [same]
      exact sound.limiters h₀ mem₀
    · rw [fresh]
      exact sound_init _ _ _
    · have kept := observed x its
      obtain ⟨own, after⟩ := observation_sound sound x its
      rw [after] at kept
      rw [same, after]
      exact sound_observe own kept
  · rcases List.mem_append.mp mem with old | new
    · exact sound.observed x old
    · exact observed x new
  · rcases List.mem_append.mp mem with old | new
    · exact settled_next sound orderly old
    · obtain ⟨h, found, late⟩ := (reservation_ready new).2
      exact .inl ⟨h, found, late⟩
  · refine List.pairwise_append.mpr ⟨sound.spaced, ?_, fun r old r' new same => ?_⟩
    · cases call with
      | limit => exact .nil
      | observe => exact .nil
      | snapshot => exact .nil
      | readyAndReserve =>
        rw [RateCall.reservation]
        split
        · exact List.pairwise_singleton _ _
        · exact .nil
    · rcases sound.settled r old with ⟨h, found, late⟩ | ⟨d, drop, own, late⟩
      · rw [same] at found
        exact late.trans ((reservation_ready new).1 h found)
      · exact late.trans (orderly.fresh r' new d (List.mem_append_left _ drop) (own.trans same))

end Runs

end Arenyxa.Runs
