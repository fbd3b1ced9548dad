import Arenyxa.Lib.Table

/-! The gate for all requests of the process, and the limiter of the requests to one host. -/

namespace Arenyxa.Runs

/-- `_DynamicRequestGate`; the set of waiting owners holds the members of the queue. -/
structure Gate where
  maximum : Nat
  limit : Nat
  active : Nat
  waiters : List String

namespace Gate

def created (maximum : Nat) : Gate := ⟨max 1 maximum, max 1 maximum, 0, []⟩

def enqueue (g : Gate) (owner : String) : Gate :=
  if g.waiters.contains owner then g else { g with waiters := g.waiters ++ [owner] }

/-- `try_acquire`: only the owner at the head of the queue, and only below the limit. -/
def tryAcquire (g : Gate) (owner : String) : Bool × Gate :=
  let g := g.enqueue owner
  if g.limit ≤ g.active ∨ g.waiters.head? ≠ some owner then (false, g)
  else (true, { g with waiters := g.waiters.tail, active := g.active + 1 })

/-- `release`, which takes nothing from zero. -/
def release (g : Gate) : Gate := { g with active := g.active - 1 }

def withdraw (g : Gate) (owner : String) : Gate := { g with waiters := g.waiters.erase owner }

def setLimit (g : Gate) (limit : Int) : Gate :=
  { g with limit := (max 1 (min (g.maximum : Int) limit)).toNat }

variable {g : Gate} {owner : String}

theorem tryAcquire_granted (h : (g.tryAcquire owner).1 = true) :
    g.active < g.limit ∧ (g.tryAcquire owner).2.active = g.active + 1 ∧
      (g.enqueue owner).waiters.head? = some owner ∧
      (g.tryAcquire owner).2.waiters = (g.enqueue owner).waiters.tail := by
  have same : (g.enqueue owner).active = g.active ∧ (g.enqueue owner).limit = g.limit := by
    rw [enqueue]
    split <;> exact ⟨rfl, rfl⟩
  rw [tryAcquire] at h ⊢
  split at h
  next => cases h
  next passes =>
    rw [if_neg passes]
    obtain ⟨below, head⟩ := not_or.mp passes
    rw [same.1, same.2] at below
    exact ⟨Nat.lt_of_not_le below, by rw [same.1], not_not.mp head, rfl⟩

theorem tryAcquire_refused (h : (g.tryAcquire owner).1 = false) :
    (g.tryAcquire owner).2 = g.enqueue owner := by
  rw [tryAcquire] at h ⊢
  split at h
  next refused => rw [if_pos refused]
  next => cases h

theorem enqueue_active : (g.enqueue owner).active = g.active := by
  rw [enqueue]
  split <;> rfl

theorem enqueue_limit : (g.enqueue owner).limit = g.limit := by
  rw [enqueue]
  split <;> rfl

theorem mem_enqueue {other : String} :
    other ∈ (g.enqueue owner).waiters ↔ other ∈ g.waiters ∨ other = owner := by
  rw [enqueue]
  split
  next known =>
    have known : owner ∈ g.waiters := List.contains_iff_mem.mp known
    constructor
    · exact .inl
    · rintro (mem | rfl)
      · exact mem
      · exact known
  next => simp

theorem enqueue_nodup (owner : String) (h : g.waiters.Nodup) : (g.enqueue owner).waiters.Nodup := by
  rw [enqueue]
  split
  next => exact h
  next absent =>
    refine List.nodup_append.mpr ⟨h, List.nodup_singleton _, ?_⟩
    intro a mem b last
    rw [List.mem_singleton.mp last]
    rintro rfl
    exact absent (List.contains_iff_mem.mpr mem)

theorem tryAcquire_nodup (owner : String) (h : g.waiters.Nodup) : (g.tryAcquire owner).2.waiters.Nodup := by
  cases granted : (g.tryAcquire owner).1 with
  | false =>
    rw [tryAcquire_refused granted]
    exact enqueue_nodup owner h
  | true =>
    rw [(tryAcquire_granted granted).2.2.2]
    exact (enqueue_nodup owner h).tail

theorem mem_tryAcquire (owner other : String) (h : g.waiters.Nodup) :
    other ∈ (g.tryAcquire owner).2.waiters ↔
      if other = owner then (g.tryAcquire owner).1 = false else other ∈ g.waiters := by
  cases granted : (g.tryAcquire owner).1 with
  | false =>
    rw [tryAcquire_refused granted, mem_enqueue]
    by_cases same : other = owner <;> simp [same]
  | true =>
    obtain ⟨-, -, head, rest⟩ := tryAcquire_granted granted
    rw [rest]
    have nodup := enqueue_nodup owner h
    have members : ∀ x, x ∈ (g.enqueue owner).waiters ↔ x ∈ g.waiters ∨ x = owner := fun x => mem_enqueue
    cases line : (g.enqueue owner).waiters with
    | nil => simp [line] at head
    | cons first others =>
      rw [line] at head nodup members
      obtain rfl : first = owner := Option.some_inj.mp head
      have fresh := (List.nodup_cons.mp nodup).1
      show other ∈ others ↔ _
      by_cases same : other = first
      · subst same
        simp [fresh]
      · have whole := members other
        simp only [List.mem_cons, same, false_or, or_false] at whole
        simpa [same] using whole

end Gate

/-- `_HostGate`: the requests that use a host, and what its semaphore has left. -/
structure HostGate where
  host : String
  users : Nat
  permits : Nat
  deriving DecidableEq

instance : Keyed HostGate String := ⟨HostGate.host⟩

@[simp] theorem hostGate_key (g : HostGate) : Keyed.key g = g.host := rfl

/-- `_HostLimiter`. -/
structure HostLimiter where
  perHostWorkers : Nat
  positive : 0 < perHostWorkers
  gates : Table HostGate

namespace HostLimiter

/-- The gate of a host, which is made where there is none. -/
def gate (l : HostLimiter) (host : String) : HostGate :=
  (l.gates.get? host).getD ⟨host, 0, l.perHostWorkers⟩

/-- `try_acquire`, up to the lease that it makes. -/
def tryAcquire (l : HostLimiter) (host : String) (maxActive : Int) : Bool × HostLimiter :=
  let g := l.gate host
  let made := { l with gates := l.gates.assign g }
  if max 1 maxActive ≤ g.users then (false, made)
  else if g.permits = 0 then
    (false, if g.users = 0 then { l with gates := made.gates.erase host } else made)
  else (true, { l with gates := l.gates.assign ⟨host, g.users + 1, g.permits - 1⟩ })

/-- `_release` of a lease. -/
def release (l : HostLimiter) (host : String) : HostLimiter :=
  let g := l.gate host
  if g.users - 1 = 0 then { l with gates := l.gates.erase host }
  else { l with gates := l.gates.assign ⟨host, g.users - 1, g.permits + 1⟩ }

/-- The gates count the leases that are out. -/
structure Counts (l : HostLimiter) (leases : String → Nat) : Prop where
  users : ∀ host, (l.gate host).users = leases host ∧
    (l.gate host).users + (l.gate host).permits = l.perHostWorkers
  used : ∀ g ∈ l.gates.rows, 0 < g.users

section Counting

variable {l : HostLimiter} {leases : String → Nat} {host : String} {maxActive : Int}

theorem gate_host (l : HostLimiter) (host : String) : (l.gate host).host = host := by
  rw [gate]
  cases found : l.gates.get? host with
  | none => rfl
  | some g => exact Table.get?_key found

theorem gate_assign (g : HostGate) (other : String) :
    gate { l with gates := l.gates.assign g } other = if other = g.host then g else l.gate other := by
  have lookup : (l.gates.assign g).get? other = if other = g.host then some g else l.gates.get? other :=
    Table.get?_assign
  rw [gate, gate]
  show ((l.gates.assign g).get? other).getD _ = _
  rw [lookup]
  split <;> rfl

theorem gate_erase (l : HostLimiter) (host other : String) : gate { l with gates := l.gates.erase host } other =
    if other = host then ⟨other, 0, l.perHostWorkers⟩ else l.gate other := by
  have lookup : (l.gates.erase host).get? other = if other = host then none else l.gates.get? other :=
    Table.get?_erase
  rw [gate, gate]
  show ((l.gates.erase host).get? other).getD _ = _
  rw [lookup]
  split <;> rfl

theorem Counts.users_le (h : l.Counts leases) (host : String) : leases host ≤ l.perHostWorkers := by
  obtain ⟨same, sum⟩ := h.users host
  omega

theorem Counts.tryAcquire (h : l.Counts leases) (host : String) (maxActive : Int) :
    (l.tryAcquire host maxActive).2.Counts fun other =>
      leases other + if other = host ∧ (l.tryAcquire host maxActive).1 = true then 1 else 0 := by
  have users := h.users host
  have own := gate_host l host
  rw [HostLimiter.tryAcquire]
  simp only
  split
  next busy =>
    have used : 0 < (l.gate host).users := by
      have one : (1 : Int) ≤ (l.gate host).users := Int.le_trans (Int.le_max_left 1 maxActive) busy
      omega
    refine ⟨fun other => ?_, fun g mem => ?_⟩
    · rw [gate_assign, own]
      split
      next same =>
        subst same
        simpa using users
      next => simpa using h.users other
    · rcases Table.mem_assign.mp mem with rfl | ⟨mem, -⟩
      · exact used
      · exact h.used g mem
  next =>
    split
    next spent =>
      have full : (l.gate host).users = l.perHostWorkers := by omega
      have used : ¬ (l.gate host).users = 0 := by
        have positive := l.positive
        omega
      rw [if_neg used]
      refine ⟨fun other => ?_, fun g mem => ?_⟩
      · rw [gate_assign, own]
        split
        next same =>
          subst same
          simpa using users
        next => simpa using h.users other
      · rcases Table.mem_assign.mp mem with rfl | ⟨mem, -⟩
        · exact Nat.pos_of_ne_zero used
        · exact h.used g mem
    next some =>
      refine ⟨fun other => ?_, fun g mem => ?_⟩
      · rw [gate_assign]
        split
        next same =>
          have same : other = host := same
          subst same
          show (l.gate other).users + 1 = _ ∧ (l.gate other).users + 1 + ((l.gate other).permits - 1) = _
          simp only [and_self, if_true]
          omega
        next differs =>
          have differs : ¬ other = host := differs
          simpa [differs] using h.users other
      · rcases Table.mem_assign.mp mem with rfl | ⟨mem, -⟩
        · exact Nat.succ_pos _
        · exact h.used g mem

theorem Counts.release (h : l.Counts leases) {after : String → Nat}
    (less : ∀ other, after other + (if other = host then 1 else 0) = leases other) :
    (l.release host).Counts after := by
  have users := h.users host
  have one := less host
  rw [if_pos rfl] at one
  rw [HostLimiter.release]
  split
  next last =>
    refine ⟨fun other => ?_, fun g mem => ?_⟩
    · rw [gate_erase]
      have step := less other
      split
      next same =>
        subst same
        refine ⟨?_, Nat.zero_add _⟩
        show 0 = after other
        omega
      next differs =>
        rw [if_neg differs, Nat.add_zero] at step
        rw [step]
        exact h.users other
    · exact h.used g (Table.mem_erase.mp mem).1
  next more =>
    refine ⟨fun other => ?_, fun g mem => ?_⟩
    · rw [gate_assign]
      have step := less other
      split
      next same =>
        have same : other = host := same
        subst same
        show (l.gate other).users - 1 = after other ∧ (l.gate other).users - 1 + ((l.gate other).permits + 1) = _
        rw [if_pos rfl] at step
        show _ ∧ _ = l.perHostWorkers
        omega
      next differs =>
        have differs : ¬ other = host := differs
        rw [if_neg differs, Nat.add_zero] at step
        rw [step]
        exact h.users other
    · rcases Table.mem_assign.mp mem with rfl | ⟨mem, -⟩
      · exact Nat.pos_of_ne_zero more
      · exact h.used g mem

theorem Counts.empty (h : l.Counts leases) (none' : ∀ host, leases host = 0) : l.gates.rows = [] := by
  refine List.eq_nil_iff_forall_not_mem.mpr fun g mem => ?_
  have found : l.gate g.host = g := by
    have found : l.gates.get? g.host = some g := Table.mem_rows_iff.mp mem
    rw [gate, found]
    rfl
  have zero := (h.users g.host).1
  rw [found, none' g.host] at zero
  have used := h.used g mem
  omega

end Counting

end HostLimiter

end Arenyxa.Runs
