import Arenyxa.Lib.History

/-! The circuit breaker before the storage of the queue, with the calls of several threads at it. -/

namespace Arenyxa.Distributed

open Function History

/-- Clock readings are milliseconds of `time.monotonic`. -/
structure StorageCircuit where
  failures : Nat
  openUntil : Nat
  lastError : String

inductive CircuitDetail
  | lastError (text : String)
  | failures (count : Nat)

structure CircuitError where
  code : String
  message : String
  retryAfter : Nat
  detail : CircuitDetail

namespace StorageCircuit

def threshold : Nat := 3

def cooldown : Nat := 2000

def closed : StorageCircuit := ⟨0, 0, ""⟩

def shorten (n : Nat) (text : String) : String := String.ofList (text.toList.take n)

variable (c : StorageCircuit)

def preflight (now : Nat) : Except CircuitError StorageCircuit :=
  if c.openUntil > now then
    .error {
      code := "DISTRIBUTED_STORAGE_CIRCUIT_OPEN"
      message := "Distributed storage circuit breaker is open; leasing is temporarily paused"
      retryAfter := c.openUntil - now
      detail := .lastError (shorten 192 c.lastError) }
  else if c.openUntil ≠ 0 then
    -- Half-open: the elapsed deadline is cleared.
    .ok { c with openUntil := 0 }
  else .ok c

def success : StorageCircuit := ⟨0, 0, ""⟩

/-- `error` is the text of the exception, behind the name of its type. -/
def failure (now : Nat) (error : String) : StorageCircuit × CircuitError :=
  let opened := c.failures + 1 ≥ threshold
  ({ failures := c.failures + 1
     openUntil := if opened then now + cooldown else c.openUntil
     lastError := shorten 256 error },
    { code := if opened then "DISTRIBUTED_STORAGE_CIRCUIT_OPEN" else "DISTRIBUTED_STORAGE_BACKPRESSURE"
      message :=
        "Distributed storage is unavailable or backpressured; queue state is not empty by implication"
      retryAfter := if opened then cooldown else 500
      detail := .failures (c.failures + 1) })

end StorageCircuit

/-- How far a call of `lease_next` or `lease_many` is. -/
inductive CallStage
  | fresh | refused
  | letThrough
  | attempting
  | reported
  /-- The storage has raised an exception that is not reported. -/
  | left
  deriving DecidableEq

/-- The calls at one circuit. -/
structure CircuitCalls where
  circuit : StorageCircuit
  stage : Nat → CallStage
  /-- The half-open probes that have reported neither success nor failure. -/
  probes : List Nat
  /-- The calls that were let through beside a probe, each behind the probe. -/
  beside : List (Nat × Nat)
  /-- The calls whose attempt has started while the circuit was open. -/
  early : List Nat

inductive CallEvent
  | preflight (call now : Nat)
  | attempt (call now : Nat)
  | success (call : Nat)
  | failure (call now : Nat) (error : String)
  | leave (call : Nat)

namespace CircuitCalls

def start : CircuitCalls := ⟨.closed, fun _ => .fresh, [], [], []⟩

def step (s : CircuitCalls) : CallEvent → CircuitCalls
  | .preflight call now =>
    if s.stage call = .fresh then
      match s.circuit.preflight now with
      | .error _ => { s with stage := update s.stage call .refused }
      | .ok circuit =>
        { s with
          circuit := circuit
          stage := update s.stage call .letThrough
          probes := if s.circuit.openUntil ≠ 0 then s.probes ++ [call] else s.probes
          beside := s.beside ++ s.probes.map fun probe => (probe, call) }
    else s
  | .attempt call now =>
    if s.stage call = .letThrough then
      { s with
        stage := update s.stage call .attempting
        early := if s.circuit.openUntil > now then s.early ++ [call] else s.early }
    else s
  | .success call =>
    if s.stage call = .attempting then
      { s with
        circuit := .success
        stage := update s.stage call .reported
        probes := s.probes.filter (· ≠ call) }
    else s
  | .failure call now error =>
    if s.stage call = .attempting then
      { s with
        circuit := (s.circuit.failure now error).1
        stage := update s.stage call .reported
        probes := s.probes.filter (· ≠ call) }
    else s
  | .leave call =>
    if s.stage call = .attempting then { s with stage := update s.stage call .left } else s

/-- No attempt has started against an open circuit, and no call has joined a probe. -/
structure OneProbe (s : CircuitCalls) : Prop where
  alone : s.beside = []
  closed : s.early = []

/-- The condition: no call comes to a circuit that is not open before the probe has reported, and no
report opens the circuit while another call is between its preflight and its attempt. -/
def Apart (s : CircuitCalls) : CallEvent → Prop
  | .preflight call now => s.stage call = .fresh → s.circuit.openUntil ≤ now → s.probes = []
  | .failure call _ _ => s.stage call = .attempting →
    StorageCircuit.threshold ≤ s.circuit.failures + 1 → ∀ other, s.stage other ≠ .letThrough
  | _ => True

structure Kept (s : CircuitCalls) : Prop extends s.OneProbe where
  /-- A call on its way to the storage has found the deadline cleared. -/
  cleared : ∀ call, s.stage call = .letThrough → s.circuit.openUntil = 0

variable {s : CircuitCalls} {call now : Nat}

theorem through_of_update {stages : Nat → CallStage} (stage : CallStage) {other : Nat}
    (past : stage ≠ .letThrough) (through : update stages call stage other = .letThrough) :
    stages other = .letThrough := by
  rw [update_apply] at through
  split at through
  next => exact absurd through past
  next => exact through

theorem preflight_ok {c c' : StorageCircuit} (ok : c.preflight now = .ok c') :
    c.openUntil ≤ now ∧ c'.openUntil = 0 := by
  rw [StorageCircuit.preflight] at ok
  split at ok
  next => cases ok
  next elapsed =>
    split at ok
    next =>
      cases ok
      exact ⟨Nat.le_of_not_lt elapsed, rfl⟩
    next cleared =>
      cases ok
      exact ⟨Nat.le_of_not_lt elapsed, by simpa using cleared⟩

theorem Kept.step {event : CallEvent} (h : s.Kept) (apart : s.Apart event) : (s.step event).Kept := by
  fun_cases CircuitCalls.step s event with
  | case1 call now fresh error refused =>
    exact ⟨⟨h.alone, h.closed⟩, fun other through =>
      h.cleared other (through_of_update .refused (by decide) through)⟩
  | case2 call now fresh circuit passed =>
    obtain ⟨elapsed, cleared⟩ := preflight_ok passed
    have nobody : s.probes = [] := apart fresh elapsed
    refine ⟨⟨?_, h.closed⟩, fun _ _ => cleared⟩
    show s.beside ++ s.probes.map _ = []
    rw [h.alone, nobody]
    rfl
  | case4 call now through =>
    refine ⟨⟨h.alone, ?_⟩, fun other passed =>
      h.cleared other (through_of_update .attempting (by decide) passed)⟩
    show (if s.circuit.openUntil > now then s.early ++ [call] else s.early) = []
    rw [h.cleared call through, if_neg (Nat.not_lt_zero now), h.closed]
  | case6 call attempting => exact ⟨⟨h.alone, h.closed⟩, fun _ _ => rfl⟩
  | case8 call now error attempting =>
    refine ⟨⟨h.alone, h.closed⟩, fun other through => ?_⟩
    have through := through_of_update .reported (by decide) through
    have shut : ¬ s.circuit.failures + 1 ≥ StorageCircuit.threshold := fun opens =>
      apart attempting opens other through
    show (if _ then _ else s.circuit.openUntil) = 0
    rw [if_neg shut]
    exact h.cleared other through
  | case10 call attempting =>
    exact ⟨⟨h.alone, h.closed⟩, fun other through =>
      h.cleared other (through_of_update .left (by decide) through)⟩
  | case3 | case5 | case7 | case9 | case11 => exact h

theorem start_kept : start.Kept where
  alone := rfl
  closed := rfl
  cleared _ through := CallStage.noConfusion through

theorem run_kept (events : List CallEvent) (apart : Meets step start Apart events) :
    (run step start events).Kept :=
  induct (I := fun _ s => Kept s) start_kept (fun _ _ apart h => h.step apart) events apart

theorem broken_of_not_apart {event : CallEvent} (broken : ¬s.Apart event) :
    ∃ next, ¬((s.step event).step next).OneProbe := by
  cases event with
  | preflight call now =>
    simp only [Apart, Classical.not_imp] at broken
    obtain ⟨fresh, elapsed, probing⟩ := broken
    refine ⟨.attempt call now, fun h => ?_⟩
    have passed : ∃ circuit, s.circuit.preflight now = .ok circuit := by
      rw [StorageCircuit.preflight, if_neg (Nat.not_lt.mpr elapsed)]
      split <;> exact ⟨_, rfl⟩
    obtain ⟨circuit, passed⟩ := passed
    have alone := h.alone
    simp only [step, if_pos fresh, passed, update_self, ↓reduceIte, List.append_eq_nil_iff,
      List.map_eq_nil_iff] at alone
    exact probing alone.2
  | failure call now error =>
    simp only [Apart, Classical.not_imp, not_forall, not_not] at broken
    obtain ⟨attempting, opens, other, through⟩ := broken
    refine ⟨.attempt other now, fun h => ?_⟩
    have ne : other ≠ call := by
      rintro rfl
      rw [attempting] at through
      cases through
    have closed := h.closed
    have still : update s.stage call .reported other = .letThrough := by
      rw [update_of_ne ne, through]
    have ahead : now < now + StorageCircuit.cooldown := Nat.lt_add_of_pos_right (by decide)
    simp only [step, if_pos attempting, if_pos still, StorageCircuit.failure, if_pos opens,
      if_pos ahead, List.append_eq_nil_iff] at closed
    exact List.cons_ne_nil _ _ closed.2
  | attempt | success | leave => exact absurd trivial broken

/-- One probe at a time, and no attempt on an open circuit, in every run that meets the condition;
and from a step that does not meet it, one more step leads to the contrary. -/
theorem one_probe_of_apart (events : List CallEvent) :
    (Meets step start Apart events → (run step start events).OneProbe) ∧
    ∀ event, Meets step start Apart events → ¬Apart (run step start events) event →
      ∃ next, ¬(run step start (events ++ [event] ++ [next])).OneProbe := by
  refine ⟨fun apart => (run_kept events apart).toOneProbe, fun event _ broken => ?_⟩
  obtain ⟨next, two⟩ := broken_of_not_apart broken
  exact ⟨next, by rwa [run_snoc, run_snoc]⟩

/-- Three failures open the circuit. After the cooldown, two calls reach the storage before either
has reported. -/
theorem two_probes : ¬∀ events, (run step start events).OneProbe := by
  intro all
  have alone := (all [.preflight 0 1, .attempt 0 1, .failure 0 1 "OSError: busy",
    .preflight 1 2, .attempt 1 2, .failure 1 2 "OSError: busy",
    .preflight 2 3, .attempt 2 3, .failure 2 3 "OSError: busy",
    .preflight 3 2003, .preflight 4 2003, .attempt 3 2004, .attempt 4 2004]).alone
  revert alone
  decide

end CircuitCalls

end Arenyxa.Distributed
