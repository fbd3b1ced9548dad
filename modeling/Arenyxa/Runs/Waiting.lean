import Arenyxa.Lib.History
import Arenyxa.Runs.Gate

/-! Runs that wait for each other at the gate. -/

namespace Arenyxa.Runs

open History

/-- What the loop of a run does at the gate. -/
structure RunLoop where
  /-- The hosts of the requests that have not been admitted. -/
  requests : List String
  /-- The host whose lease the loop has in hand, and whether it has a slot with it. -/
  held : Option String
  slotted : Bool
  /-- The hosts of the requests in flight. -/
  inFlight : List String
  paused : Bool
  ended : Bool

def RunLoop.submitted (requests : List String) : RunLoop :=
  ⟨requests, none, false, [], false, false⟩

structure Contest where
  gate : Gate
  limiter : HostLimiter
  /-- The limit that the adaptive rate sets for a host. -/
  hostLimit : String → Int
  runs : String → RunLoop

inductive ContestStep
  | lease (run host : String)
  | ask (run : String)
  /-- The lease goes back after a refusal of the gate. -/
  | giveBack (run : String)
  | submit (run : String)
  /-- Lease and slot go back, since the host is not ready. -/
  | rollBack (run : String)
  | complete (run host : String)
  | pause (run : String)
  | resume (run : String)
  /-- The loop is left, and `withdraw` follows. -/
  | endRun (run : String)
  | setLimit (limit : Int)
  | setHostLimit (host : String) (limit : Int)

namespace Contest

variable (c : Contest)

def set (run : String) (r : RunLoop) : Contest := { c with runs := Function.update c.runs run r }

/-- `_HostLimiter.try_acquire` would give a lease. -/
def Room (host : String) : Prop :=
  ((c.limiter.gate host).users : Int) < max 1 (c.hostLimit host) ∧ (c.limiter.gate host).permits ≠ 0

/-- The loop is neither ended nor paused, and has a request that it could ask for. -/
def Asks (run : String) : Prop :=
  (c.runs run).ended = false ∧ (c.runs run).paused = false ∧
    ∃ host ∈ (c.runs run).requests, (c.runs run).held = some host ∨ c.Room host

def lease (run host : String) : Contest :=
  let r := c.runs run
  if r.ended || r.held.isSome || !r.requests.contains host then c
  else match c.limiter.tryAcquire host (c.hostLimit host) with
    | (false, limiter) => { c with limiter := limiter }
    | (true, limiter) => { c with limiter := limiter }.set run { r with held := some host }

def ask (run : String) : Contest :=
  let r := c.runs run
  if r.ended || r.held.isNone || r.slotted then c
  else match c.gate.tryAcquire run with
    | (false, gate) => { c with gate := gate }
    | (true, gate) => { c with gate := gate }.set run { r with slotted := true }

def giveBack (run : String) : Contest :=
  let r := c.runs run
  match r.held, r.slotted with
  | some host, false => { c with limiter := c.limiter.release host }.set run { r with held := none }
  | _, _ => c

def submit (run : String) : Contest :=
  let r := c.runs run
  match r.held, r.slotted with
  | some host, true => c.set run { r with
      requests := r.requests.erase host, held := none, slotted := false
      inFlight := r.inFlight ++ [host] }
  | _, _ => c

def rollBack (run : String) : Contest :=
  let r := c.runs run
  match r.held, r.slotted with
  | some host, true => { c with limiter := c.limiter.release host, gate := c.gate.release }.set run
      { r with held := none, slotted := false }
  | _, _ => c

def complete (run host : String) : Contest :=
  let r := c.runs run
  if r.inFlight.contains host then
    { c with limiter := c.limiter.release host, gate := c.gate.release }.set run
      { r with inFlight := r.inFlight.erase host }
  else c

def step : ContestStep → Contest
  | .lease run host => c.lease run host
  | .ask run => c.ask run
  | .giveBack run => c.giveBack run
  | .submit run => c.submit run
  | .rollBack run => c.rollBack run
  | .complete run host => c.complete run host
  | .pause run => c.set run { c.runs run with paused := true }
  | .resume run => c.set run { c.runs run with paused := false }
  | .endRun run =>
    if (c.runs run).held.isSome then c
    else { c with gate := c.gate.withdraw run }.set run { c.runs run with ended := true }
  | .setLimit limit => { c with gate := c.gate.setLimit limit }
  | .setHostLimit host limit => { c with hostLimit := Function.update c.hostLimit host limit }

/-- The condition on a step: a run is paused only outside of the queue and asks only while it is not,
and whatever takes room at a host leaves every run in the queue another request that
it could ask for. -/
def Ordered : ContestStep → Prop
  | .pause run => run ∉ c.gate.waiters
  | .ask run => (c.runs run).paused = false
  | .lease run host => ∀ other ∈ c.gate.waiters, other ≠ run →
      ∃ h ∈ (c.runs other).requests, (c.runs other).held = some h ∨ c.Room h ∧
        (h = host → ((c.limiter.gate host).users : Int) + 1 < max 1 (c.hostLimit host) ∧
          1 < (c.limiter.gate host).permits)
  | .giveBack run => run ∈ c.gate.waiters →
      ∃ h ∈ (c.runs run).requests, c.Room h ∨ (c.runs run).held = some h ∧
        ((c.limiter.gate h).users : Int) ≤ max 1 (c.hostLimit h)
  | .setHostLimit host limit => ∀ other ∈ c.gate.waiters,
      ∃ h ∈ (c.runs other).requests, (c.runs other).held = some h ∨ c.Room h ∧
        (h = host → ((c.limiter.gate host).users : Int) < max 1 limit)
  | _ => True

/-- The leases of a loop that is admitted nothing yet are for its requests. -/
structure Kept (c : Contest) : Prop where
  line : c.gate.waiters.Nodup
  asks : ∀ run ∈ c.gate.waiters, c.Asks run
  held : ∀ run host, (c.runs run).held = some host → host ∈ (c.runs run).requests
  slotted : ∀ run, (c.runs run).slotted = true → run ∉ c.gate.waiters

section Rooms

variable {l : HostLimiter} {host other : String} {maxActive : Int}

theorem gate_release_ne (h : other ≠ host) : (l.release host).gate other = l.gate other := by
  have own := HostLimiter.gate_host l host
  rw [HostLimiter.release]
  split
  next => rw [HostLimiter.gate_erase, if_neg h]
  next => rw [HostLimiter.gate_assign, if_neg h]

theorem gate_release_self (l : HostLimiter) (host : String) : ((l.release host).gate host).users = (l.gate host).users - 1 ∧
    ((l.release host).gate host).permits ≠ 0 := by
  rw [HostLimiter.release]
  split
  next last =>
    rw [HostLimiter.gate_erase, if_pos rfl, last]
    exact ⟨rfl, Nat.pos_iff_ne_zero.mp l.positive⟩
  next =>
    rw [HostLimiter.gate_assign, if_pos rfl]
    exact ⟨rfl, Nat.succ_ne_zero _⟩

theorem gate_granted (other : String) (granted : (l.tryAcquire host maxActive).1 = true) :
    (l.tryAcquire host maxActive).2.gate other =
      if other = host then ⟨host, (l.gate host).users + 1, (l.gate host).permits - 1⟩
      else l.gate other := by
  rw [HostLimiter.tryAcquire] at granted ⊢
  simp only at granted ⊢
  split at granted
  next => cases granted
  next busy =>
    split at granted
    next => cases granted
    next spent =>
      rw [if_neg busy, if_neg spent]
      exact HostLimiter.gate_assign _ other

theorem gate_refused (other : String) (refused : (l.tryAcquire host maxActive).1 = false) :
    ((l.tryAcquire host maxActive).2.gate other).users = (l.gate other).users ∧
      ((l.gate other).permits ≠ 0 → ((l.tryAcquire host maxActive).2.gate other).permits ≠ 0) := by
  have made : HostLimiter.gate { l with gates := l.gates.assign (l.gate host) } other = l.gate other := by
    rw [HostLimiter.gate_assign, HostLimiter.gate_host]
    split
    next same => rw [same]
    next => rfl
  rw [HostLimiter.tryAcquire] at refused ⊢
  simp only at refused ⊢
  split at refused
  next busy =>
    rw [if_pos busy]
    exact ⟨by rw [made], fun some => by rw [made]; exact some⟩
  next busy =>
    split at refused
    next spent =>
      rw [if_neg busy, if_pos spent]
      split
      next unused =>
        have erased : HostLimiter.gate { l with
            gates := (l.gates.assign (l.gate host)).erase host } other =
            if other = host then ⟨other, 0, l.perHostWorkers⟩ else l.gate other := by
          have step := HostLimiter.gate_erase
            { l with gates := l.gates.assign (l.gate host) } host other
          rw [made] at step
          exact step
        show (HostLimiter.gate { l with gates := (l.gates.assign (l.gate host)).erase host } other).users =
            _ ∧ (_ → (HostLimiter.gate { l with
              gates := (l.gates.assign (l.gate host)).erase host } other).permits ≠ 0)
        rw [erased]
        split
        next same =>
          subst same
          exact ⟨unused.symm, fun _ => Nat.pos_iff_ne_zero.mp l.positive⟩
        next => exact ⟨rfl, id⟩
      next => exact ⟨by rw [made], fun some => by rw [made]; exact some⟩
    next => cases refused

end Rooms

section Steps

variable {c : Contest} {run host : String}

theorem set_same (r : RunLoop) : (c.set run r).runs run = r := Function.update_self ..

theorem set_other {other : String} (h : other ≠ run) (r : RunLoop) : (c.set run r).runs other = c.runs other :=
  Function.update_of_ne h ..

theorem Asks.mono {c' : Contest} {other : String} (h : c.Asks other) (same : c'.runs other = c.runs other)
    (room : ∀ h ∈ (c.runs other).requests, c.Room h → c'.Room h) : c'.Asks other := by
  obtain ⟨ended, paused, request, mem, open'⟩ := h
  refine ⟨by rw [same]; exact ended, by rw [same]; exact paused, request, by rw [same]; exact mem, ?_⟩
  rw [same]
  exact open'.imp_right (room request mem)

theorem room_release (host : String) {h : String} (room : c.Room h) (gate : Gate)
    (runs : String → RunLoop) : Room ⟨gate, c.limiter.release host, c.hostLimit, runs⟩ h := by
  rw [Room]
  by_cases same : h = host
  · subst same
    obtain ⟨users, permits⟩ := gate_release_self c.limiter h
    refine ⟨?_, permits⟩
    have before : ((c.limiter.gate h).users : Int) < max 1 (c.hostLimit h) := room.1
    show (((c.limiter.release h).gate h).users : Int) < max 1 (c.hostLimit h)
    rw [users]
    omega
  · rw [gate_release_ne same]
    exact room

theorem Kept.released (h : c.Kept) {r : RunLoop} {gate : Gate} (waiters : gate.waiters = c.gate.waiters)
    (asks : run ∈ c.gate.waiters → ({ c with gate := gate, limiter := c.limiter.release host }.set run
      r).Asks run)
    (held : ∀ host, r.held = some host → host ∈ r.requests)
    (slotted : r.slotted = true → (c.runs run).slotted = true) :
    ({ c with gate := gate, limiter := c.limiter.release host }.set run r).Kept where
  line := by
    show gate.waiters.Nodup
    rw [waiters]
    exact h.line
  asks other mem := by
    have waiting : other ∈ c.gate.waiters := waiters ▸ mem
    by_cases same : other = run
    · subst same
      exact asks waiting
    · have stays : ({ c with gate := gate, limiter := c.limiter.release host }.set run r).runs other =
          c.runs other := set_other same r
      exact (h.asks other waiting).mono stays fun request _ room =>
        room_release host room _ _
  held other host' found := by
    by_cases same : other = run
    · subst same
      rw [set_same] at found ⊢
      exact held host' found
    · rw [set_other same] at found ⊢
      exact h.held other host' found
  slotted other on mem := by
    have waiting : other ∈ c.gate.waiters := waiters ▸ mem
    by_cases same : other = run
    · subst same
      rw [set_same] at on
      exact h.slotted other (slotted on) waiting
    · rw [set_other same] at on
      exact h.slotted other on waiting

theorem Kept.settled (h : c.Kept) {r : RunLoop}
    (asks : run ∈ c.gate.waiters → (c.set run r).Asks run)
    (held : ∀ host, r.held = some host → host ∈ r.requests)
    (slotted : r.slotted = true → run ∉ c.gate.waiters) : (c.set run r).Kept where
  line := h.line
  asks other mem := by
    by_cases same : other = run
    · subst same
      exact asks mem
    · exact (h.asks other mem).mono (set_other same r) fun _ _ => id
  held other host' found := by
    by_cases same : other = run
    · subst same
      rw [set_same] at found ⊢
      exact held host' found
    · rw [set_other same] at found ⊢
      exact h.held other host' found
  slotted other on := by
    by_cases same : other = run
    · subst same
      rw [set_same] at on
      exact slotted on
    · rw [set_other same] at on
      exact h.slotted other on

theorem Kept.lease (h : c.Kept) (ordered : c.Ordered (.lease run host)) : (c.lease run host).Kept := by
  rw [Contest.lease]
  split
  next => exact h
  next free =>
    simp only [Bool.or_eq_true, Bool.not_eq_true', not_or, Bool.not_eq_true, Bool.not_eq_false,
      List.contains_iff_mem] at free
    obtain ⟨⟨going, empty⟩, asked⟩ := free
    split
    next limiter refused =>
      have room (request : String) (room : c.Room request) :
          Room { c with limiter := limiter } request := by
        have outcome : (c.limiter.tryAcquire host (c.hostLimit host)).1 = false := by rw [refused]
        obtain ⟨users, permits⟩ := gate_refused request outcome
        rw [refused] at users permits
        exact ⟨by rw [users]; exact room.1, permits room.2⟩
      exact ⟨h.line, fun other mem => (h.asks other mem).mono rfl fun request _ => room request, h.held,
        h.slotted⟩
    next limiter granted =>
      have outcome : (c.limiter.tryAcquire host (c.hostLimit host)).1 = true := by rw [granted]
      have gate (request : String) : limiter.gate request = if request = host then
          ⟨host, (c.limiter.gate host).users + 1, (c.limiter.gate host).permits - 1⟩
          else c.limiter.gate request := by
        have step := gate_granted request outcome
        rw [granted] at step
        exact step
      refine ⟨h.line, fun other mem => ?_, fun other host' found => ?_, fun other on => ?_⟩
      · by_cases same : other = run
        · subst same
          obtain ⟨ended, paused, -⟩ := h.asks other mem
          refine ⟨?_, ?_, host, ?_, .inl ?_⟩
          · rw [set_same]; exact ended
          · rw [set_same]; exact paused
          · rw [set_same]; exact asked
          · rw [set_same]
        · obtain ⟨ended, paused, -⟩ := h.asks other mem
          obtain ⟨request, wanted, open'⟩ := ordered other mem same
          refine ⟨?_, ?_, request, ?_, ?_⟩
          · rw [set_other same]; exact ended
          · rw [set_other same]; exact paused
          · rw [set_other same]; exact wanted
          · rw [set_other same]
            refine open'.imp_right fun both => ?_
            obtain ⟨room, spare⟩ := both
            show ((limiter.gate request).users : Int) < max 1 (c.hostLimit request) ∧
              (limiter.gate request).permits ≠ 0
            rw [gate]
            split
            next here =>
              obtain ⟨below, more⟩ := spare here
              subst here
              exact ⟨by simpa using below, Nat.sub_ne_zero_of_lt more⟩
            next => exact room
      · by_cases same : other = run
        · subst same
          rw [set_same] at found ⊢
          obtain rfl := Option.some_inj.mp found
          exact asked
        · rw [set_other same] at found ⊢
          exact h.held other host' found
      · by_cases same : other = run
        · subst same
          rw [set_same] at on
          exact h.slotted other on
        · rw [set_other same] at on
          exact h.slotted other on

theorem Kept.ask (h : c.Kept) (ordered : c.Ordered (.ask run)) : (c.ask run).Kept := by
  rw [Contest.ask]
  split
  next => exact h
  next free =>
    simp only [Bool.or_eq_true, not_or, Bool.not_eq_true, Option.isNone_eq_false_iff] at free
    obtain ⟨⟨going, some⟩, bare⟩ := free
    obtain ⟨host, found⟩ := Option.isSome_iff_exists.mp some
    have line := Gate.tryAcquire_nodup run h.line
    have members {other : String} := Gate.mem_tryAcquire run other h.line
    split
    next gate refused =>
      rw [refused] at line members
      refine ⟨line, fun other mem => ?_, h.held, fun other on mem => ?_⟩
      · by_cases same : other = run
        · subst same
          exact ⟨going, ordered, host, h.held other host found, .inl found⟩
        · have old := members.mp mem
          rw [if_neg same] at old
          exact h.asks other old
      · by_cases same : other = run
        · subst same
          cases bare.symm.trans on
        · have old := members.mp mem
          rw [if_neg same] at old
          exact h.slotted other on old
    next gate granted =>
      rw [granted] at line members
      have gone : run ∉ gate.waiters := fun mem => by
        have old := members.mp mem
        rw [if_pos rfl] at old
        cases old
      refine ⟨line, fun other mem => ?_, fun other host' hit => ?_, fun other on mem => ?_⟩
      · have same : other ≠ run := fun same => gone (same ▸ mem)
        have old := members.mp mem
        rw [if_neg same] at old
        exact (h.asks other old).mono (set_other same _) fun _ _ => id
      · by_cases same : other = run
        · subst same
          rw [set_same] at hit ⊢
          exact h.held other host' hit
        · rw [set_other same] at hit ⊢
          exact h.held other host' hit
      · have same : other ≠ run := fun same => gone (same ▸ mem)
        rw [set_other same] at on
        have old := members.mp mem
        rw [if_neg same] at old
        exact h.slotted other on old

theorem Kept.giveBack (h : c.Kept) (ordered : c.Ordered (.giveBack run)) : (c.giveBack run).Kept := by
  rw [Contest.giveBack.eq_def]
  simp only
  split
  next host held bare =>
    refine h.released rfl (fun mem => ?_) nofun id
    obtain ⟨ended, paused, -⟩ := h.asks run mem
    obtain ⟨request, wanted, open'⟩ := ordered mem
    refine ⟨?_, ?_, request, ?_, .inr ?_⟩
    · rw [set_same]; exact ended
    · rw [set_same]; exact paused
    · rw [set_same]; exact wanted
    · rcases open' with room | ⟨own, fits⟩
      · exact room_release host room _ _
      · obtain rfl := Option.some_inj.mp (held.symm.trans own)
        obtain ⟨users, permits⟩ := gate_release_self c.limiter host
        refine ⟨?_, permits⟩
        show (((c.limiter.release host).gate host).users : Int) < max 1 (c.hostLimit host)
        rw [users]
        omega
  next => exact h

theorem Kept.submit (h : c.Kept) : (c.submit run).Kept := by
  rw [Contest.submit.eq_def]
  simp only
  split
  next host held on => exact h.settled (fun mem => absurd mem (h.slotted run on)) nofun nofun
  next => exact h

theorem Kept.rollBack (h : c.Kept) : (c.rollBack run).Kept := by
  rw [Contest.rollBack.eq_def]
  simp only
  split
  next host held on => exact h.released rfl (fun mem => absurd mem (h.slotted run on)) nofun nofun
  next => exact h

theorem Kept.complete (h : c.Kept) : (c.complete run host).Kept := by
  rw [Contest.complete]
  split
  next =>
    refine h.released rfl (fun mem => ?_) (h.held run) id
    obtain ⟨ended, paused, request, wanted, open'⟩ := h.asks run mem
    refine ⟨?_, ?_, request, ?_, ?_⟩
    · rw [set_same]; exact ended
    · rw [set_same]; exact paused
    · rw [set_same]; exact wanted
    · rw [set_same]
      exact open'.imp_right fun room => room_release host room _ _
  next => exact h

theorem Kept.endRun (h : c.Kept) : (c.step (.endRun run)).Kept := by
  rw [Contest.step]
  split
  next => exact h
  next free =>
    have empty : (c.runs run).held = none := by simpa using free
    have gone : ∀ other ∈ c.gate.waiters.erase run, other ≠ run ∧ other ∈ c.gate.waiters :=
      fun other mem => h.line.mem_erase_iff.mp mem
    refine ⟨h.line.erase run, fun other mem => ?_, fun other host' hit => ?_, fun other on mem => ?_⟩
    · obtain ⟨same, old⟩ := gone other mem
      exact (h.asks other old).mono (set_other same _) fun _ _ => id
    · by_cases same : other = run
      · subst same
        rw [set_same] at hit
        cases empty.symm.trans hit
      · rw [set_other same] at hit ⊢
        exact h.held other host' hit
    · obtain ⟨same, old⟩ := gone other mem
      rw [set_other same] at on
      exact h.slotted other on old

theorem Kept.step (h : c.Kept) (a : ContestStep) (ordered : c.Ordered a) : (c.step a).Kept := by
  cases a with
  | lease run host => exact h.lease ordered
  | ask run => exact h.ask ordered
  | giveBack run => exact h.giveBack ordered
  | submit run => exact h.submit
  | rollBack run => exact h.rollBack
  | complete run host => exact h.complete
  | pause run => exact h.settled (fun mem => absurd mem ordered) (h.held run) (h.slotted run)
  | resume run =>
    refine h.settled (fun mem => ?_) (h.held run) (h.slotted run)
    obtain ⟨ended, paused, request, wanted, open'⟩ := h.asks run mem
    refine ⟨?_, ?_, request, ?_, ?_⟩
    · rw [set_same]; exact ended
    · rw [set_same]
    · rw [set_same]; exact wanted
    · rw [set_same]; exact open'
  | endRun run => exact h.endRun
  | setLimit limit => exact ⟨h.line, h.asks, h.held, h.slotted⟩
  | setHostLimit host limit =>
    refine ⟨h.line, fun other mem => ?_, h.held, h.slotted⟩
    obtain ⟨ended, paused, -⟩ := h.asks other mem
    obtain ⟨request, wanted, open'⟩ := ordered other mem
    refine ⟨ended, paused, request, wanted, open'.imp_right fun ⟨room, below⟩ => ⟨?_, room.2⟩⟩
    show ((c.limiter.gate request).users : Int) <
      max 1 (Function.update c.hostLimit host limit request)
    by_cases here : request = host
    · rw [here, Function.update_self]
      exact here ▸ below here
    · rw [Function.update_of_ne here]
      exact room.1

end Steps

theorem workers_pos (perHostWorkers : Nat) : 0 < max 1 perHostWorkers :=
  Nat.lt_of_lt_of_le Nat.one_pos (Nat.le_max_left ..)

def created (maximum perHostWorkers : Nat) (hostLimit : String → Int) (runs : String → RunLoop) : Contest :=
  ⟨.created maximum, ⟨max 1 perHostWorkers, workers_pos perHostWorkers, .empty⟩, hostLimit, runs⟩

theorem created_kept (maximum perHostWorkers : Nat) (hostLimit : String → Int)
    (requests : String → List String) :
    (created maximum perHostWorkers hostLimit fun run => .submitted (requests run)).Kept :=
  ⟨List.nodup_nil, nofun, nofun, nofun⟩

theorem refused_behind {g : Gate} {owner : String} (below : g.active < g.limit)
    (refused : (g.tryAcquire owner).1 = false) :
    ∃ other, (g.enqueue owner).waiters.head? = some other ∧ other ≠ owner ∧ other ∈ g.waiters := by
  rw [Gate.tryAcquire] at refused
  split at refused
  next blocked =>
    rw [Gate.enqueue_active, Gate.enqueue_limit] at blocked
    have behind := blocked.resolve_left (Nat.not_le.mpr below)
    cases line : (g.enqueue owner).waiters with
    | nil =>
      have mem : owner ∈ (g.enqueue owner).waiters := Gate.mem_enqueue.mpr (.inr rfl)
      rw [line] at mem
      cases mem
    | cons first rest =>
      rw [line] at behind
      have differs : first ≠ owner := fun same => behind (by rw [same]; rfl)
      have mem : first ∈ (g.enqueue owner).waiters := by
        rw [line]
        exact List.mem_cons_self
      exact ⟨first, rfl, differs, (Gate.mem_enqueue.mp mem).resolve_right differs⟩
  next => cases refused

end Contest

def twoRuns (run : String) : List String := if run = "a" then ["one"] else ["two", "three"]

def Contest.contended (steps : List ContestStep) : Contest :=
  run Contest.step (.created 1 1 (fun _ => 1) fun run => .submitted (twoRuns run)) steps

end Arenyxa.Runs
