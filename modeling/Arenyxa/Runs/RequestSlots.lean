import Arenyxa.Lib.History
import Arenyxa.Runs.Gate

/-! The slots and host leases of the requests of all runs, on both engines. -/

namespace Arenyxa.Runs

open History

inductive Engine
  | thread | asyncio
  deriving DecidableEq

/-- How far a request is, from the lease that it gets first. -/
inductive RequestStage
  | leased
  /-- The gate has refused it, and its lease goes back. -/
  | returning
  | slotted
  /-- It was not ready, or not submitted: the lease goes back, and then the slot. -/
  | rollingBack | rolledBack
  | queued
  | running
  /-- The body has released the lease. -/
  | fetched
  /-- The future was cancelled before it ran: its callbacks free the slot, and then the lease. -/
  | cancelled | freed
  /-- The coroutine was cancelled before its first step, and nothing of it will run. -/
  | abandoned
  | gone
  deriving DecidableEq

def RequestStage.holdsLease : RequestStage → Bool
  | .leased | .returning | .slotted | .rollingBack | .queued | .running | .cancelled | .freed
  | .abandoned => true
  | .rolledBack | .fetched | .gone => false

def RequestStage.holdsSlot : RequestStage → Bool
  | .slotted | .rollingBack | .rolledBack | .queued | .running | .fetched | .cancelled
  | .abandoned => true
  | .leased | .returning | .freed | .gone => false

/-- The run is still inside the admission of the request. -/
def RequestStage.entering : RequestStage → Bool
  | .leased | .returning | .slotted | .rollingBack | .rolledBack => true
  | _ => false

/-- No code is left that acts on the request. -/
def RequestStage.settled : RequestStage → Bool
  | .gone | .abandoned => true
  | _ => false

structure Request where
  run : String
  host : String
  engine : Engine
  stage : RequestStage
  /-- How many slots it was granted, and how often slot and lease were released. -/
  slots : Nat
  slotReleases : Nat
  leaseReleases : Nat

structure Pool where
  gate : Gate
  limiter : HostLimiter
  requests : List Request
  ended : List String
  /-- How often a release found no active request. -/
  clamped : Nat

inductive PoolStep
  | lease (run host : String) (engine : Engine) (maxActive : Int)
  | ask (i : Nat)
  /-- The request is handed to a worker, or is not ready or not accepted. -/
  | settle (i : Nat) (submitted : Bool)
  | start (i : Nat)
  | cancel (i : Nat)
  | release (i : Nat)
  | setLimit (limit : Int)
  | endRun (run : String)

namespace Pool

def created (maximum perHostWorkers : Nat) : Pool :=
  ⟨.created maximum, ⟨max 1 perHostWorkers, Nat.lt_of_lt_of_le Nat.one_pos (Nat.le_max_left ..), .empty⟩,
    [], [], 0⟩

def enter (p : Pool) (run host : String) (engine : Engine) (maxActive : Int) : Pool :=
  if p.ended.contains run then p
  else match p.limiter.tryAcquire host maxActive with
    | (false, limiter) => { p with limiter := limiter }
    | (true, limiter) => { p with
        limiter := limiter
        requests := p.requests ++ [⟨run, host, engine, .leased, 0, 0, 0⟩] }

def put (p : Pool) (i : Nat) (r : Request) : Pool := { p with requests := p.requests.set i r }

def ask (p : Pool) (i : Nat) (r : Request) : Pool :=
  match p.gate.tryAcquire r.run with
  | (true, gate) => { p with gate := gate }.put i { r with stage := .slotted, slots := r.slots + 1 }
  | (false, gate) => { p with gate := gate }.put i { r with stage := .returning }

/-- `_HostLease.release`. -/
def freeLease (p : Pool) (i : Nat) (r : Request) (stage : RequestStage) : Pool :=
  { p with limiter := p.limiter.release r.host }.put i
    { r with stage := stage, leaseReleases := r.leaseReleases + 1 }

/-- `_DynamicRequestGate.release`. -/
def freeSlot (p : Pool) (i : Nat) (r : Request) (stage : RequestStage) : Pool :=
  { p with
    gate := p.gate.release
    clamped := if p.gate.active = 0 then p.clamped + 1 else p.clamped }.put i
    { r with stage := stage, slotReleases := r.slotReleases + 1 }

/-- The next release that the code around a request makes. -/
def releaseNext (p : Pool) (i : Nat) (r : Request) : Pool :=
  match r.stage with
  | .returning => p.freeLease i r .gone
  | .rollingBack => p.freeLease i r .rolledBack
  | .rolledBack => p.freeSlot i r .gone
  | .running => p.freeLease i r .fetched
  | .fetched => p.freeSlot i r .gone
  | .cancelled => p.freeSlot i r .freed
  | .freed => p.freeLease i r .gone
  | _ => p

/-- The run leaves its loop, outside of any admission, and `withdraw` follows. -/
def endRun (p : Pool) (run : String) : Pool :=
  if p.requests.all fun r => r.run ≠ run || !r.stage.entering then
    { p with gate := p.gate.withdraw run, ended := run :: p.ended }
  else p

def moved (p : Pool) (i : Nat) (expected : RequestStage) (f : Request → Pool) : Pool :=
  match p.requests[i]? with
  | none => p
  | some r => if r.stage = expected then f r else p

def step (p : Pool) : PoolStep → Pool
  | .lease run host engine maxActive => p.enter run host engine maxActive
  | .ask i => p.moved i .leased fun r => p.ask i r
  | .settle i submitted => p.moved i .slotted fun r =>
      p.put i { r with stage := if submitted then .queued else .rollingBack }
  | .start i => p.moved i .queued fun r => p.put i { r with stage := .running }
  | .cancel i => p.moved i .queued fun r =>
      p.put i { r with stage := if r.engine = .thread then .cancelled else .abandoned }
  | .release i => match p.requests[i]? with
    | none => p
    | some r => p.releaseNext i r
  | .setLimit limit => { p with gate := p.gate.setLimit limit }
  | .endRun run => p.endRun run

/-- The leases of a host that are out. -/
def leases (p : Pool) (host : String) : Nat :=
  p.requests.countP fun r => r.host = host && r.stage.holdsLease

/-- The condition: no coroutine is cancelled before its first step. -/
def Ordered (p : Pool) : PoolStep → Prop
  | .cancel i => ∀ r, p.requests[i]? = some r → r.stage = .queued → r.engine = .thread
  | _ => True

/-- Every run has ended, and no worker or callback still acts on a request. -/
def Quiet (p : Pool) : Prop :=
  ∀ r ∈ p.requests, r.run ∈ p.ended ∧ r.stage.settled = true

structure Accounted (p : Pool) : Prop where
  active : p.gate.active = p.requests.countP (·.stage.holdsSlot)
  users : ∀ host, (p.limiter.gate host).users = p.leases host ∧
    p.leases host ≤ p.limiter.perHostWorkers
  granted : ∀ owner, (p.gate.tryAcquire owner).1 = true →
    (p.gate.tryAcquire owner).2.active ≤ p.gate.limit
  once : ∀ r ∈ p.requests, r.slots ≤ 1 ∧
    r.slotReleases + (if r.stage.holdsSlot then 1 else 0) = r.slots ∧
    r.leaseReleases + (if r.stage.holdsLease then 1 else 0) = 1
  unclamped : p.clamped = 0
  quiet : p.Quiet → p.gate.active = 0 ∧ p.limiter.gates.rows = [] ∧ p.gate.waiters = []

structure Kept (p : Pool) : Prop where
  active : p.gate.active = p.requests.countP (·.stage.holdsSlot)
  leases : p.limiter.Counts p.leases
  once : ∀ r ∈ p.requests, (if r.stage = .leased ∨ r.stage = .returning then r.slots = 0 else r.slots ≤ 1) ∧
    r.slotReleases + (if r.stage.holdsSlot then 1 else 0) = r.slots ∧
    r.leaseReleases + (if r.stage.holdsLease then 1 else 0) = 1
  started : ∀ r ∈ p.requests, r.stage ≠ .abandoned ∧ (r.stage.entering = true → r.run ∉ p.ended)
  unclamped : p.clamped = 0
  line : p.gate.waiters.Nodup
  waiting : ∀ owner ∈ p.gate.waiters, owner ∉ p.ended ∧ ∃ r ∈ p.requests, r.run = owner

section Steps

variable {p : Pool} {i : Nat} {r r' : Request}

theorem countP_set {l : List Request} (found : l[i]? = some r) (r' : Request) (q : Request → Bool) :
    (l.set i r').countP q + (if q r then 1 else 0) = l.countP q + (if q r' then 1 else 0) := by
  induction l generalizing i with
  | nil => cases found
  | cons x l ih =>
    cases i with
    | zero =>
      cases found
      simp only [List.set_cons_zero, List.countP_cons]
      omega
    | succ i =>
      have step := ih (i := i) found
      simp only [List.set_cons_succ, List.countP_cons]
      omega

theorem mem_set {l : List Request} {x : Request} (mem : x ∈ l.set i r') : x = r' ∨ x ∈ l :=
  (List.mem_or_eq_of_mem_set mem).symm

theorem run_mem_set {l : List Request} (found : l[i]? = some r) (same : r'.run = r.run) {owner : String}
    (h : ∃ x ∈ l, x.run = owner) : ∃ x ∈ l.set i r', x.run = owner := by
  obtain ⟨x, mem, rfl⟩ := h
  obtain ⟨j, hit⟩ := List.mem_iff_getElem?.mp mem
  by_cases here : i = j
  · subst here
    obtain rfl := Option.some_inj.mp (found.symm.trans hit)
    refine ⟨r', List.mem_iff_getElem?.mpr ⟨i, ?_⟩, same⟩
    rw [List.getElem?_set_self (List.getElem?_eq_some_iff.mp found).1]
  · exact ⟨x, List.mem_iff_getElem?.mpr ⟨j, by rw [List.getElem?_set_ne here, hit]⟩, rfl⟩

/-- What holds of one request of its own. -/
def Fine (ended : List String) (r : Request) : Prop :=
  ((if r.stage = .leased ∨ r.stage = .returning then r.slots = 0 else r.slots ≤ 1) ∧
    r.slotReleases + (if r.stage.holdsSlot then 1 else 0) = r.slots ∧
    r.leaseReleases + (if r.stage.holdsLease then 1 else 0) = 1) ∧
  r.stage ≠ .abandoned ∧ (r.stage.entering = true → r.run ∉ ended)

theorem Kept.fine (h : p.Kept) (found : p.requests[i]? = some r) : Fine p.ended r :=
  ⟨h.once r (List.mem_of_getElem? found), h.started r (List.mem_of_getElem? found)⟩

theorem Kept.put (h : p.Kept) (found : p.requests[i]? = some r) (r' : Request) (same : r'.run = r.run)
    (host : r'.host = r.host) (fine : Fine p.ended r') {gate : Gate} {limiter : HostLimiter}
    (active : gate.active + (if r.stage.holdsSlot then 1 else 0) =
      p.gate.active + (if r'.stage.holdsSlot then 1 else 0))
    (leases : ∀ after : String → Nat,
      (∀ other, after other + (if other = r.host ∧ r.stage.holdsLease then 1 else 0) =
        p.leases other + (if other = r.host ∧ r'.stage.holdsLease then 1 else 0)) →
      limiter.Counts after)
    (line : gate.waiters.Nodup)
    (waiting : ∀ owner ∈ gate.waiters, owner ∈ p.gate.waiters ∨ owner = r.run ∧ r.run ∉ p.ended) :
    Kept ({ p with gate := gate, limiter := limiter }.put i r') where
  active := by
    have counts := countP_set found r' (·.stage.holdsSlot)
    have before := h.active
    show gate.active = (p.requests.set i r').countP _
    omega
  leases := by
    refine leases _ fun other => ?_
    have counts := countP_set found r' fun x => x.host = other && x.stage.holdsLease
    simp only [Bool.and_eq_true, decide_eq_true_eq, host, eq_comm (a := r.host)] at counts
    exact counts
  once x mem := by
    rcases mem_set mem with rfl | mem
    · exact fine.1
    · exact h.once x mem
  started x mem := by
    rcases mem_set mem with rfl | mem
    · exact fine.2
    · exact h.started x mem
  unclamped := h.unclamped
  line := line
  waiting owner mem := by
    rcases waiting owner mem with old | ⟨rfl, going⟩
    · obtain ⟨going, asked⟩ := h.waiting owner old
      exact ⟨going, run_mem_set found same asked⟩
    · exact ⟨going, run_mem_set found same ⟨r, List.mem_of_getElem? found, rfl⟩⟩

theorem Kept.pass (h : p.Kept) (found : p.requests[i]? = some r) (r' : Request)
    (same : r'.run = r.run) (host : r'.host = r.host) (fine : Fine p.ended r')
    (slot : r'.stage.holdsSlot = r.stage.holdsSlot)
    (lease : r'.stage.holdsLease = r.stage.holdsLease) : (p.put i r').Kept := by
  refine Kept.put h found r' same host fine (by rw [slot]) (fun after less => ?_) h.line
    fun owner mem => .inl mem
  have equal : after = p.leases := funext fun other => by
    have step := less other
    rw [lease] at step
    omega
  rw [equal]
  exact h.leases

theorem Kept.ask (h : p.Kept) (found : p.requests[i]? = some r) (stage : r.stage = .leased) :
    (p.ask i r).Kept := by
  obtain ⟨⟨none', slots, leases⟩, -, going⟩ := h.fine found
  rw [if_pos (.inl stage)] at none'
  rw [stage] at slots leases going
  have line := Gate.tryAcquire_nodup r.run h.line
  have members {owner : String} := Gate.mem_tryAcquire r.run owner h.line
  have unmoved (after : String → Nat) (held : Bool) (less : ∀ other,
      after other + (if other = r.host ∧ r.stage.holdsLease then 1 else 0) =
        p.leases other + (if other = r.host ∧ held then 1 else 0)) (holds : held = true) :
      p.limiter.Counts after := by
    have equal : after = p.leases := funext fun other => by
      have step := less other
      have lease : r.stage.holdsLease = true := by rw [stage]; rfl
      rw [lease, holds] at step
      omega
    rw [equal]
    exact h.leases
  cases granted : (p.gate.tryAcquire r.run).1 with
  | true =>
    obtain ⟨-, active, -⟩ := Gate.tryAcquire_granted granted
    have same : p.ask i r = { p with gate := (p.gate.tryAcquire r.run).2 }.put i
        { r with stage := .slotted, slots := r.slots + 1 } := by
      rw [Pool.ask]
      split
      next gate hit => rw [hit]
      next gate hit => simp [hit] at granted
    rw [same]
    refine h.put found { r with stage := .slotted, slots := r.slots + 1 } rfl rfl
      ⟨⟨?_, ?_, leases⟩, nofun, going⟩ ?_
      (fun after less => unmoved after _ less rfl) line fun owner mem => ?_
    · rw [if_neg (by simp)]
      show r.slots + 1 ≤ 1
      omega
    · show r.slotReleases + 1 = r.slots + 1
      simpa [RequestStage.holdsSlot] using slots
    · rw [active, stage]
      rfl
    · have old := members.mp mem
      split at old
      next => cases granted.symm.trans old
      next => exact .inl old
  | false =>
    have same : p.ask i r = { p with gate := (p.gate.tryAcquire r.run).2 }.put i
        { r with stage := .returning } := by
      rw [Pool.ask]
      split
      next gate hit => simp [hit] at granted
      next gate hit => rw [hit]
    rw [same]
    refine h.put found { r with stage := .returning } rfl rfl ⟨⟨?_, slots, leases⟩, nofun, going⟩ ?_
      (fun after less => unmoved after _ less rfl) line fun owner mem => ?_
    · rw [if_pos (.inr rfl)]
      exact none'
    · rw [Gate.tryAcquire_refused granted, Gate.enqueue_active, stage]
      rfl
    · have old := members.mp mem
      split at old
      next same => exact .inr ⟨same, going rfl⟩
      next => exact .inl old

theorem Kept.freeLease (h : p.Kept) (found : p.requests[i]? = some r) {stage : RequestStage}
    (held : r.stage.holdsLease = true) (dropped : stage.holdsLease = false)
    (slot : stage.holdsSlot = r.stage.holdsSlot) (live : stage ≠ .abandoned)
    (unasked : stage ≠ .leased ∧ stage ≠ .returning)
    (entering : stage.entering = true → r.stage.entering = true) : (p.freeLease i r stage).Kept := by
  obtain ⟨⟨bound, slots, leases⟩, -, going⟩ := h.fine found
  refine h.put found { r with stage := stage, leaseReleases := r.leaseReleases + 1 } rfl rfl
    ⟨⟨?_, ?_, ?_⟩, live, fun on => going (entering on)⟩ ?_ (fun after less => ?_) h.line fun owner mem => .inl mem
  · rw [if_neg (by simp [unasked.1, unasked.2])]
    show r.slots ≤ 1
    split at bound
    · omega
    · exact bound
  · rw [slot]
    exact slots
  · rw [held] at leases
    rw [dropped]
    simpa using leases
  · rw [slot]
  · refine h.leases.release fun other => ?_
    have step := less other
    rw [held, dropped] at step
    simpa using step

theorem Kept.freeSlot (h : p.Kept) (found : p.requests[i]? = some r) {stage : RequestStage}
    (held : r.stage.holdsSlot = true) (dropped : stage.holdsSlot = false)
    (lease : stage.holdsLease = r.stage.holdsLease) (live : stage ≠ .abandoned)
    (asked : r.stage ≠ .leased ∧ r.stage ≠ .returning)
    (unasked : stage ≠ .leased ∧ stage ≠ .returning)
    (entering : stage.entering = false) : (p.freeSlot i r stage).Kept := by
  obtain ⟨⟨bound, slots, leases⟩, -, -⟩ := h.fine found
  have some : 0 < p.gate.active := by
    rw [h.active, List.countP_pos_iff]
    exact ⟨r, List.mem_of_getElem? found, held⟩
  have unclamped : p.freeSlot i r stage = { p with gate := p.gate.release }.put i
      { r with stage := stage, slotReleases := r.slotReleases + 1 } := by
    rw [Pool.freeSlot, if_neg (Nat.pos_iff_ne_zero.mp some)]
  rw [unclamped]
  refine h.put found { r with stage := stage, slotReleases := r.slotReleases + 1 } rfl rfl
    ⟨⟨?_, ?_, ?_⟩, live, fun on => ?_⟩ ?_ (fun after less => ?_) h.line fun owner mem => .inl mem
  · rw [if_neg (by simp [unasked.1, unasked.2])]
    rw [if_neg (by simp [asked.1, asked.2])] at bound
    exact bound
  · rw [held] at slots
    rw [dropped]
    simpa using slots
  · rw [lease]
    exact leases
  · cases entering.symm.trans on
  · rw [held, dropped]
    show p.gate.active - 1 + 1 = p.gate.active + 0
    omega
  · have equal : after = p.leases := funext fun other => by
      have step := less other
      rw [lease] at step
      omega
    rw [equal]
    exact h.leases

theorem Kept.releaseNext (h : p.Kept) (found : p.requests[i]? = some r) : (p.releaseNext i r).Kept := by
  rw [Pool.releaseNext]
  cases stage : r.stage with
  | returning =>
    exact h.freeLease found (by rw [stage]; rfl) rfl (by rw [stage]; rfl) nofun ⟨nofun, nofun⟩ nofun
  | rollingBack =>
    exact h.freeLease found (by rw [stage]; rfl) rfl (by rw [stage]; rfl) nofun ⟨nofun, nofun⟩
      fun _ => by rw [stage]; rfl
  | rolledBack =>
    exact h.freeSlot found (by rw [stage]; rfl) rfl (by rw [stage]; rfl) nofun (by simp [stage])
      ⟨nofun, nofun⟩ rfl
  | running =>
    exact h.freeLease found (by rw [stage]; rfl) rfl (by rw [stage]; rfl) nofun ⟨nofun, nofun⟩ nofun
  | fetched =>
    exact h.freeSlot found (by rw [stage]; rfl) rfl (by rw [stage]; rfl) nofun (by simp [stage])
      ⟨nofun, nofun⟩ rfl
  | cancelled =>
    exact h.freeSlot found (by rw [stage]; rfl) rfl (by rw [stage]; rfl) nofun (by simp [stage])
      ⟨nofun, nofun⟩ rfl
  | freed =>
    exact h.freeLease found (by rw [stage]; rfl) rfl (by rw [stage]; rfl) nofun ⟨nofun, nofun⟩ nofun
  | leased => exact h
  | slotted => exact h
  | queued => exact h
  | abandoned => exact h
  | gone => exact h

theorem Kept.enter (h : p.Kept) (run host : String) (engine : Engine) (maxActive : Int) :
    (p.enter run host engine maxActive).Kept := by
  have counts := h.leases.tryAcquire host maxActive
  rw [Pool.enter]
  split
  next => exact h
  next going =>
    have going : run ∉ p.ended := fun mem => going (List.contains_iff_mem.mpr mem)
    split
    next limiter refused =>
      rw [refused] at counts
      simp only [Bool.false_eq_true, and_false, if_false, Nat.add_zero] at counts
      exact ⟨h.active, counts, h.once, h.started, h.unclamped, h.line, h.waiting⟩
    next limiter granted =>
      rw [granted] at counts
      simp only [and_true] at counts
      refine ⟨?_, ?_, fun r mem => ?_, fun r mem => ?_, h.unclamped, h.line, fun owner mem => ?_⟩
      · rw [List.countP_append]
        exact h.active
      · have same : Pool.leases { p with
            limiter := limiter
            requests := p.requests ++ [⟨run, host, engine, .leased, 0, 0, 0⟩] } =
            fun other => p.leases other + if other = host then 1 else 0 := funext fun other => by
          show List.countP _ _ = List.countP _ _ + _
          rw [List.countP_append, List.countP_singleton]
          simp [RequestStage.holdsLease, eq_comm]
        rw [same]
        exact counts
      · rcases List.mem_append.mp mem with old | new
        · exact h.once r old
        · obtain rfl := List.mem_singleton.mp new
          exact ⟨rfl, rfl, rfl⟩
      · rcases List.mem_append.mp mem with old | new
        · exact h.started r old
        · obtain rfl := List.mem_singleton.mp new
          exact ⟨nofun, fun _ => going⟩
      · obtain ⟨going, r, mem, same⟩ := h.waiting owner mem
        exact ⟨going, r, List.mem_append_left _ mem, same⟩

theorem Kept.endRun (h : p.Kept) (run : String) : (p.endRun run).Kept := by
  rw [Pool.endRun]
  split
  next outside =>
    refine ⟨h.active, h.leases, h.once, fun r mem => ⟨(h.started r mem).1, fun on => ?_⟩, h.unclamped,
      h.line.erase run, fun owner mem => ?_⟩
    · have apart := List.all_eq_true.mp outside r mem
      rw [on, Bool.not_true, Bool.or_false, decide_eq_true_eq] at apart
      exact fun mem' => (List.mem_cons.mp mem').elim apart ((h.started r mem).2 on)
    · obtain ⟨differs, old⟩ := (h.line.mem_erase_iff).mp mem
      obtain ⟨going, asked⟩ := h.waiting owner old
      exact ⟨fun mem' => (List.mem_cons.mp mem').elim differs going, asked⟩
  next => exact h

theorem Kept.step (h : p.Kept) (a : PoolStep) (ordered : p.Ordered a) : (p.step a).Kept := by
  have through (i : Nat) (expected : RequestStage) (f : Request → Pool)
      (moves : ∀ r, p.requests[i]? = some r → r.stage = expected → (f r).Kept) :
      (p.moved i expected f).Kept := by
    rw [Pool.moved]
    split
    next => exact h
    next r found =>
      split
      next stage => exact moves r found stage
      next => exact h
  cases a with
  | lease run host engine maxActive => exact h.enter run host engine maxActive
  | ask i => exact through i .leased _ fun r found stage => h.ask found stage
  | settle i submitted =>
    refine through i .slotted _ fun r found stage => ?_
    obtain ⟨⟨bound, slots, leases⟩, -, going⟩ := h.fine found
    rw [if_neg (by simp [stage])] at bound
    rw [stage] at slots leases going
    cases submitted with
    | true =>
      exact h.pass found { r with stage := .queued } rfl rfl ⟨⟨bound, slots, leases⟩, nofun, nofun⟩
        (by rw [stage]; rfl) (by rw [stage]; rfl)
    | false =>
      exact h.pass found { r with stage := .rollingBack } rfl rfl ⟨⟨bound, slots, leases⟩, nofun, going⟩
        (by rw [stage]; rfl) (by rw [stage]; rfl)
  | start i =>
    refine through i .queued _ fun r found stage => ?_
    obtain ⟨⟨bound, slots, leases⟩, -, -⟩ := h.fine found
    rw [if_neg (by simp [stage])] at bound
    rw [stage] at slots leases
    exact h.pass found { r with stage := .running } rfl rfl ⟨⟨bound, slots, leases⟩, nofun, nofun⟩
      (by rw [stage]; rfl) (by rw [stage]; rfl)
  | cancel i =>
    refine through i .queued _ fun r found stage => ?_
    obtain ⟨⟨bound, slots, leases⟩, -, -⟩ := h.fine found
    rw [if_neg (by simp [stage])] at bound
    rw [stage] at slots leases
    rw [if_pos (ordered r found stage)]
    exact h.pass found { r with stage := .cancelled } rfl rfl ⟨⟨bound, slots, leases⟩, nofun, nofun⟩
      (by rw [stage]; rfl) (by rw [stage]; rfl)
  | release i =>
    show (match p.requests[i]? with | none => p | some r => p.releaseNext i r).Kept
    split
    next => exact h
    next r found => exact h.releaseNext found
  | setLimit limit => exact ⟨h.active, h.leases, h.once, h.started, h.unclamped, h.line, h.waiting⟩
  | endRun run => exact h.endRun run

theorem Kept.accounted (h : p.Kept) : p.Accounted where
  active := h.active
  users host := ⟨(h.leases.users host).1, h.leases.users_le host⟩
  granted owner granted := by
    obtain ⟨below, active, -⟩ := Gate.tryAcquire_granted granted
    rw [active]
    exact below
  once r mem := by
    obtain ⟨bound, rest⟩ := h.once r mem
    refine ⟨?_, rest⟩
    split at bound
    · omega
    · exact bound
  unclamped := h.unclamped
  quiet quiet := by
    have gone : ∀ r ∈ p.requests, r.stage = .gone := by
      intro r mem
      have settled := (quiet r mem).2
      have live := (h.started r mem).1
      cases stage : r.stage <;> simp_all [RequestStage.settled]
    refine ⟨?_, h.leases.empty fun host => ?_, List.eq_nil_iff_forall_not_mem.mpr fun owner mem => ?_⟩
    · rw [h.active]
      refine List.countP_eq_zero.mpr fun r mem => ?_
      simp [gone r mem, RequestStage.holdsSlot]
    · refine List.countP_eq_zero.mpr fun r mem => ?_
      simp [gone r mem, RequestStage.holdsLease]
    · obtain ⟨going, r, asked, rfl⟩ := h.waiting owner mem
      exact going (quiet r asked).1

theorem created_kept (maximum perHostWorkers : Nat) : (created maximum perHostWorkers).Kept where
  active := rfl
  leases := ⟨fun _ => ⟨rfl, Nat.zero_add _⟩, nofun⟩
  once := nofun
  started := nofun
  unclamped := rfl
  line := List.nodup_nil
  waiting := nofun

end Steps

end Pool

/-- In a history that cancels no coroutine before its first step, slots and leases are accounted. -/
theorem slots_accounted (maximum perHostWorkers : Nat) (steps : List PoolStep)
    (ordered : Meets Pool.step (.created maximum perHostWorkers) Pool.Ordered steps) :
    (run Pool.step (.created maximum perHostWorkers) steps).Accounted := by
  have kept : (run Pool.step (.created maximum perHostWorkers) steps).Kept :=
    induct (I := fun _ p => p.Kept) (Pool.created_kept _ _)
      (fun _ a ordered kept => kept.step a ordered) steps ordered
  exact kept.accounted

theorem slots_accounted_thread :
    (run Pool.step (.created 4 2)
      [.lease "run" "example.org" .thread 2, .ask 0, .settle 0 true, .cancel 0, .release 0, .release 0,
        .endRun "run"]).Accounted := by
  refine slots_accounted 4 2 _ (meets_of_each ⟨trivial, trivial, trivial, fun r found _ => ?_, trivial,
    trivial, trivial, trivial⟩)
  obtain rfl := Option.some_inj.mp found
  rfl

/-- A coroutine that is cancelled before its first step keeps its slot after its run has ended. -/
theorem abandoned_slot :
    let p := run Pool.step (.created 4 2)
      [.lease "run" "example.org" .asyncio 2, .ask 0, .settle 0 true, .cancel 0, .endRun "run"]
    p.Quiet ∧ p.gate.active = 1 ∧ p.limiter.gates.rows = [⟨"example.org", 1, 1⟩] ∧ ¬ p.Accounted := by
  have active : (run Pool.step (.created 4 2)
      [.lease "run" "example.org" .asyncio 2, .ask 0, .settle 0 true, .cancel 0,
        .endRun "run"]).gate.active = 1 := by decide
  have quiet : (run Pool.step (.created 4 2)
      [.lease "run" "example.org" .asyncio 2, .ask 0, .settle 0 true, .cancel 0,
        .endRun "run"]).Quiet := by
    intro r mem
    have only : r ∈ [(⟨"run", "example.org", .asyncio, .abandoned, 1, 0, 0⟩ : Request)] := mem
    obtain rfl := List.mem_singleton.mp only
    exact ⟨List.mem_cons_self, rfl⟩
  refine ⟨quiet, active, by decide, fun accounted => ?_⟩
  have idle := (accounted.quiet quiet).1
  rw [active] at idle
  cases idle

end Arenyxa.Runs
