import Arenyxa.Capture.Message
import Arenyxa.Lib.Table
import Mathlib.Algebra.Group.Int.Defs

/-! Bounded reassembly of TCP directions: a probe of each contiguous stream, the segments that
arrived ahead of it, and a global budget that evicts the direction that was idle longest. -/

universe u

namespace Arenyxa.Capture

def maxFlows : Nat := 4096

def maxProbeBytes : Nat := 64 * 1024

def maxPendingSegments : Nat := 64

def maxPendingBytes : Nat := 128 * 1024

def maxGlobalBytes : Nat := 64 * 1024 * 1024

def maxSegmentBytes : Nat := 1024 * 1024

/-- `& 0xFFFFFFFF` -/
def sequenceModulus : Nat := 2 ^ 32

/-- Signed 32-bit delta with wrap-around. -/
def sequenceDelta (left right : Nat) : Int :=
  ((left : Int) - right + 2 ^ 31) % sequenceModulus - 2 ^ 31

structure Segment where
  sequence : Nat
  payload : Bytes

instance : Keyed Segment Nat := ⟨Segment.sequence⟩

structure Direction (κ : Type u) where
  key : κ
  expectedSequence : Option Nat
  probe : Bytes
  pending : Table Segment
  pendingBytes : Int
  contiguousBytes : Nat
  lastSeen : Nat
  truncated : Bool

variable {κ : Type u}

instance : Keyed (Direction κ) κ := ⟨Direction.key⟩

def Direction.fresh (key : κ) (clock : Nat) : Direction κ :=
  ⟨key, none, [], Table.empty, 0, 0, clock, false⟩

def Direction.withKey (d : Direction κ) (key : κ) : Direction κ := { d with key := key }

/-- A direction in work, and the manager's `_retained_bytes`. -/
structure Held (κ : Type u) where
  state : Direction κ
  retained : Int

def Held.truncate (h : Held κ) : Held κ := { h with state := { h.state with truncated := true } }

def appendContiguous (h : Held κ) (payload : Bytes) : Held κ :=
  if payload = [] then h
  else
    match h.state.expectedSequence with
    | none => h
    | some expected =>
      let remaining := maxProbeBytes - h.state.probe.length
      { state := { h.state with
          expectedSequence := some ((expected + payload.length) % sequenceModulus)
          contiguousBytes := h.state.contiguousBytes + payload.length
          probe := h.state.probe ++ payload.take remaining
          truncated := h.state.truncated || remaining < payload.length }
        retained := h.retained + (payload.take remaining).length }

/-- `pending[sequence] = payload` -/
def setPending (pending : Table Segment) (sequence : Nat) (payload : Bytes) : Table Segment :=
  match pending.get? sequence with
  | some _ => pending.modify sequence (fun s => { s with payload := payload }) fun _ => rfl
  | none => pending.insert ⟨sequence, payload⟩

/-- The bytes that a longer segment with the same sequence number gives back. -/
def replacedBytes (h : Held κ) (sequence : Nat) : Nat :=
  match h.state.pending.get? sequence with
  | some existing => existing.payload.length
  | none => 0

def giveBack (h : Held κ) (freed : Nat) : Held κ :=
  { state := { h.state with pendingBytes := h.state.pendingBytes - freed }
    retained := h.retained - freed }

def availableBytes (h : Held κ) : Int := maxPendingBytes - h.state.pendingBytes

def keepSegment (h : Held κ) (sequence : Nat) (payload bounded : Bytes) : Held κ :=
  { state := { h.state with
      pending := setPending h.state.pending sequence bounded
      pendingBytes := h.state.pendingBytes + bounded.length
      truncated := h.state.truncated || bounded.length < payload.length }
    retained := h.retained + bounded.length }

def storeWithin (h : Held κ) (sequence : Nat) (payload : Bytes) : Held κ :=
  if maxPendingSegments ≤ h.state.pending.rows.length ∧
      h.state.pending.get? sequence = none then h.truncate
  else if availableBytes h ≤ 0 then h.truncate
  else if payload.take (availableBytes h).toNat = [] then h
  else keepSegment h sequence payload (payload.take (availableBytes h).toNat)

def storePending (h : Held κ) (sequence : Nat) (payload : Bytes) : Held κ :=
  if (h.state.pending.get? sequence).any fun s => payload.length ≤ s.payload.length then h
  else storeWithin (giveBack h (replacedBytes h sequence)) sequence payload

/-- The better of the segment found so far and a candidate that is due. -/
def closerDue (expected : Nat) (best : Option Segment) (candidate : Segment) : Option Segment :=
  if 0 < sequenceDelta candidate.sequence expected then best
  else
    match best with
    | none => some candidate
    | some b =>
      if sequenceDelta b.sequence expected < sequenceDelta candidate.sequence expected then
        some candidate
      else best

/-- The pending segment at or before the expected sequence number that reaches it most closely. -/
def bestDue (expected : Nat) (pending : List Segment) : Option Segment :=
  pending.foldl (closerDue expected) none

def popPending (h : Held κ) (segment : Segment) : Held κ :=
  { state := { h.state with
      pending := h.state.pending.erase segment.sequence
      pendingBytes := h.state.pendingBytes - segment.payload.length }
    retained := h.retained - segment.payload.length }

/-- One pass of the drain loop over a segment that is due. -/
def deliver (h : Held κ) (expected : Nat) (segment : Segment) : Held κ :=
  let overlap := (-sequenceDelta segment.sequence expected).toNat
  if overlap < segment.payload.length then
    appendContiguous (popPending h segment) (segment.payload.drop overlap)
  else popPending h segment

/-- A segment that is due, and one that was already pending. -/
def Due (expected : Nat) (pending : List Segment) (segment : Segment) : Prop :=
  segment ∈ pending ∧ sequenceDelta segment.sequence expected ≤ 0

theorem closerDue_cases (expected : Nat) (best : Option Segment) (candidate : Segment) :
    closerDue expected best candidate = best ∨
      (closerDue expected best candidate = some candidate ∧
        sequenceDelta candidate.sequence expected ≤ 0) := by
  unfold closerDue
  split
  · exact .inl rfl
  · cases best with
    | none => exact .inr ⟨rfl, by omega⟩
    | some b =>
      simp only
      split
      · exact .inr ⟨rfl, by omega⟩
      · exact .inl rfl

theorem mem_of_bestDue {expected : Nat} {pending : List Segment} {segment : Segment}
    (h : bestDue expected pending = some segment) : Due expected pending segment := by
  have step : ∀ (l : List Segment) (best : Option Segment),
      (∀ s, best = some s → Due expected pending s) → (∀ s ∈ l, s ∈ pending) →
      ∀ s, l.foldl (closerDue expected) best = some s → Due expected pending s := by
    intro l
    induction l with
    | nil => intro best hbest _; exact hbest
    | cons c l ih =>
      intro best hbest sub
      refine ih _ ?_ fun s hs => sub s (List.mem_cons_of_mem c hs)
      intro s hs
      rcases closerDue_cases expected best c with same | ⟨taken, due⟩
      · exact hbest s (same ▸ hs)
      · rw [taken] at hs
        cases hs
        exact ⟨sub c List.mem_cons_self, due⟩
  exact step pending none (fun s hs => nomatch hs) (fun s hs => hs) segment h

theorem ahead_of_bestDue {expected : Nat} {pending : List Segment}
    (h : bestDue expected pending = none) :
    ∀ s ∈ pending, 0 < sequenceDelta s.sequence expected := by
  have step : ∀ (l : List Segment) (best : Option Segment),
      l.foldl (closerDue expected) best = none →
      best = none ∧ ∀ s ∈ l, 0 < sequenceDelta s.sequence expected := by
    intro l
    induction l with
    | nil => intro best h; exact ⟨h, fun s hs => nomatch hs⟩
    | cons c l ih =>
      intro best h
      obtain ⟨kept, rest⟩ := ih _ h
      have here : best = none ∧ 0 < sequenceDelta c.sequence expected := by
        unfold closerDue at kept
        split at kept
        next ahead => exact ⟨kept, ahead⟩
        next =>
          cases best with
          | none => cases kept
          | some b =>
            simp only at kept
            split at kept <;> cases kept
      refine ⟨here.1, fun s hs => ?_⟩
      rcases List.mem_cons.mp hs with rfl | hs
      · exact here.2
      · exact rest s hs
  exact (step pending none h).2

theorem appendContiguous_pending (h : Held κ) (payload : Bytes) :
    (appendContiguous h payload).state.pending = h.state.pending := by
  rw [appendContiguous]
  split
  · rfl
  · split <;> rfl

theorem deliver_pending (h : Held κ) (expected : Nat) (segment : Segment) :
    (deliver h expected segment).state.pending = h.state.pending.erase segment.sequence := by
  rw [deliver]
  split
  · exact appendContiguous_pending _ _
  · rfl

def drainPending (h : Held κ) : Held κ :=
  match h.state.expectedSequence with
  | none => h
  | some expected =>
    match _found : bestDue expected h.state.pending.rows with
    | none => h
    | some segment => drainPending (deliver h expected segment)
termination_by h.state.pending.rows.length
decreasing_by
  rw [deliver_pending]
  have here := Table.mem_rows_iff.mp (mem_of_bestDue ‹_›).1
  have : (h.state.pending.erase segment.sequence).rows.length + 1 = _ := Table.length_erase here
  omega

structure Update where
  streamBytes : Bytes
  contiguousBytes : Nat
  pendingBytes : Int
  retransmission : Bool
  outOfOrder : Bool
  gap : Bool
  truncated : Bool
  closed : Bool

structure Call (κ : Type u) where
  key : κ
  sequence : Int
  payload : Bytes
  flags : List String

section Feed

-- `str.casefold`
variable (casefold : String → String)

def Call.flagged (call : Call κ) (flag : String) : Bool := (call.flags.map casefold).contains flag

def Call.dataSequence (call : Call κ) : Nat :=
  ((call.sequence + if call.flagged casefold "syn" then 1 else 0) % sequenceModulus).toNat

def Call.closes (call : Call κ) : Bool :=
  call.flagged casefold "rst" || call.flagged casefold "fin"

/-- `state.expected_sequence`, which the first segment of a direction fixes. -/
def expect (h : Held κ) (sequence : Nat) : Held κ :=
  { h with state := { h.state with
      expectedSequence := some (h.state.expectedSequence.getD sequence) } }

/-- How a segment is taken: whether it overlaps delivered data, whether it leaves a gap. -/
structure Taken (κ : Type u) where
  held : Held κ
  retransmission : Bool
  outOfOrder : Bool

def receive (h : Held κ) (sequence : Nat) (payload : Bytes) : Taken κ :=
  if payload = [] then ⟨h, false, false⟩
  else
    let delta := sequenceDelta sequence (h.state.expectedSequence.getD sequence)
    if delta = 0 then ⟨drainPending (appendContiguous h payload), false, false⟩
    else if 0 < delta then ⟨storePending h sequence payload, false, true⟩
    else
      let overlap := (-delta).toNat
      if payload.length ≤ overlap then ⟨h, true, false⟩
      else ⟨drainPending (appendContiguous h (payload.drop overlap)), true, false⟩

structure Manager (κ : Type u) where
  states : Table (Direction κ)
  clock : Nat
  retainedBytes : Int

def Manager.init : Manager κ := ⟨Table.empty, 0, 0⟩

def older (best : Option (Direction κ)) (d : Direction κ) : Option (Direction κ) :=
  match best with
  | none => some d
  | some b => if d.lastSeen < b.lastSeen then some d else some b

/-- `min(rows, key=last_seen)` -/
def oldest (rows : List (Direction κ)) : Option (Direction κ) := rows.foldl older none

theorem mem_of_oldest {rows : List (Direction κ)} {d : Direction κ} (h : oldest rows = some d) :
    d ∈ rows := by
  have step : ∀ (l : List (Direction κ)) (best : Option (Direction κ)),
      l.foldl older best = some d → d ∈ l ∨ best = some d := by
    intro l
    induction l with
    | nil => intro best h; exact .inr h
    | cons c l ih =>
      intro best h
      rcases ih _ h with here | here
      · exact .inl (List.mem_cons_of_mem c here)
      · cases best with
        | none =>
          cases here
          exact .inl List.mem_cons_self
        | some b =>
          simp only [older] at here
          split at here
          · cases here
            exact .inl List.mem_cons_self
          · exact .inr here
  rcases step rows none h with here | none_left
  · exact here
  · cases none_left

theorem oldest_eq_none {rows : List (Direction κ)} (h : oldest rows = none) : rows = [] := by
  have some_left : ∀ (l : List (Direction κ)) (b : Direction κ), l.foldl older (some b) ≠ none := by
    intro l
    induction l with
    | nil => intro b h; cases h
    | cons c l ih =>
      intro b h
      rw [List.foldl_cons, older] at h
      split at h
      · exact ih c h
      · exact ih b h
  cases rows with
  | nil => rfl
  | cons d rows => exact absurd h (some_left rows d)

/-- `if retained < 0: retained = 0` -/
def clampZero (retained : Int) : Int := if retained < 0 then 0 else retained

variable [DecidableEq κ]

-- The correction `_drop_state` makes; `clampZero` in the code.
variable (clamp : Int → Int)

def dropState (m : Manager κ) (key : κ) : Manager κ :=
  match m.states.get? key with
  | none => m
  | some state =>
    { m with
      states := m.states.erase key
      retainedBytes := clamp (m.retainedBytes - (state.probe.length + state.pendingBytes)) }

def ensureFlowCapacity (m : Manager κ) : Manager κ :=
  if m.states.rows.length < maxFlows then m
  else
    match oldest m.states.rows with
    | none => m
    | some victim => dropState clamp m victim.key

def trimState (h : Held κ) : Held κ :=
  let removed := h.state.probe.length - maxProbeBytes / 2
  { state := { h.state with
      pending := Table.empty
      pendingBytes := 0
      probe := h.state.probe.take (maxProbeBytes / 2)
      truncated := true }
    retained := h.retained - (h.state.pending.total fun s => s.payload.length) - removed }

/-- Puts a direction back that was worked on. -/
def Manager.put (m : Manager κ) (h : Held κ) : Manager κ :=
  { m with
    states := m.states.modify h.state.key (fun d => h.state.withKey d.key) fun _ => rfl
    retainedBytes := h.retained }

theorem length_dropState {m : Manager κ} {d : Direction κ} (live : d ∈ m.states.rows) :
    (dropState clamp m d.key).states.rows.length + 1 = m.states.rows.length := by
  have here : m.states.get? d.key = some d := Table.mem_rows_iff.mp live
  rw [dropState, here]
  exact Table.length_erase here

def enforceGlobalBudget (exclude : κ) (m : Manager κ) : Manager κ :=
  if maxGlobalBytes < m.retainedBytes ∧ m.states.rows ≠ [] then
    match _found : oldest (m.states.rows.filter fun d => d.key ≠ exclude) with
    | none =>
      match m.states.get? exclude with
      | none => m
      | some state => m.put (trimState ⟨state, m.retainedBytes⟩)
    | some victim => enforceGlobalBudget exclude (dropState clamp m victim.key)
  else m
termination_by m.states.rows.length
decreasing_by
  have := length_dropState clamp (List.mem_of_mem_filter (mem_of_oldest ‹_›))
  omega

/-- The manager with a state for the key, and that state. -/
def openState (m : Manager κ) (key : κ) : Manager κ × Direction κ :=
  match m.states.get? key with
  | some state => (m, { state with lastSeen := m.clock })
  | none =>
    let room := ensureFlowCapacity clamp m
    ({ room with states := room.states.insert (.fresh key m.clock) }, .fresh key m.clock)

/-- The work on a segment, from the state that was found for its key. -/
def work (m : Manager κ) (d : Direction κ) (call : Call κ) : Taken κ :=
  receive (expect ⟨d, m.retainedBytes⟩ (call.dataSequence casefold)) (call.dataSequence casefold)
    call.payload

def Taken.update (taken : Taken κ) (closed : Bool) : Update :=
  ⟨taken.held.state.probe, taken.held.state.contiguousBytes, taken.held.state.pendingBytes,
    taken.retransmission, taken.outOfOrder, taken.outOfOrder, taken.held.state.truncated, closed⟩

def Manager.tick (m : Manager κ) : Manager κ := { m with clock := m.clock + 1 }

def feed (m : Manager κ) (call : Call κ) : Update × Manager κ :=
  if maxSegmentBytes < call.payload.length then
    (⟨[], 0, 0, false, false, false, true, false⟩, m.tick)
  else
    let opened := openState clamp m.tick call.key
    let taken := work casefold opened.1 opened.2 call
    let closed := call.closes casefold
    let m := enforceGlobalBudget clamp call.key (opened.1.put taken.held)
    (taken.update closed, if closed then dropState clamp m call.key else m)

def reset (m : Manager κ) : Manager κ := { m with states := Table.empty, retainedBytes := 0 }

end Feed

end Arenyxa.Capture
