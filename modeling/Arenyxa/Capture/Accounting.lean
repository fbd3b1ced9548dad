import Arenyxa.Capture.Reassembly

/-! The byte counters of the reassembly against what the directions really hold. -/

universe u

namespace Arenyxa.Capture

variable {κ : Type u}

def Segment.size (s : Segment) : Nat := s.payload.length

def Direction.heldBytes (d : Direction κ) : Nat := d.probe.length + d.pending.total Segment.size

/-- A direction within its own limits, whose counter is its pending bytes. -/
structure Direction.Bounded (d : Direction κ) : Prop where
  counted : d.pendingBytes = d.pending.total Segment.size
  probe : d.probe.length ≤ maxProbeBytes
  segments : d.pending.rows.length ≤ maxPendingSegments
  bytes : d.pending.total Segment.size ≤ maxPendingBytes

/-- Every pending segment is strictly ahead of the expected sequence number. -/
def Direction.Ahead (d : Direction κ) : Prop :=
  match d.expectedSequence with
  | none => d.pending.rows = []
  | some expected => ∀ s ∈ d.pending.rows, 0 < sequenceDelta s.sequence expected

theorem Direction.Bounded.heldBytes_le {d : Direction κ} (h : d.Bounded) :
    d.heldBytes ≤ maxProbeBytes + maxPendingBytes := Nat.add_le_add h.probe h.bytes

/-- A direction in work: `base` is what the manager retains for all the others. -/
structure Held.Balanced (key : κ) (base : Int) (h : Held κ) : Prop extends h.state.Bounded where
  key : h.state.key = key
  retained : h.retained = base + h.state.heldBytes

section Work

variable {key : κ} {base : Int} {h : Held κ}

theorem Held.Balanced.truncate (b : h.Balanced key base) : h.truncate.Balanced key base :=
  { b with }

theorem appendContiguous_balanced (b : h.Balanced key base) (payload : Bytes) :
    (appendContiguous h payload).Balanced key base := by
  rw [appendContiguous]
  split
  · exact b
  · cases h.state.expectedSequence with
    | none => exact b
    | some expected =>
      refine { b with probe := ?_, retained := ?_ }
      · have := b.probe
        simp only [List.length_append, List.length_take]
        omega
      · have := b.retained
        simp only [Direction.heldBytes, List.length_append] at this ⊢
        omega

theorem appendContiguous_expects {expected : Nat} {payload : Bytes}
    (h' : h.state.expectedSequence = some expected) (some_bytes : payload ≠ []) :
    (appendContiguous h payload).state.expectedSequence =
      some ((expected + payload.length) % sequenceModulus) := by
  rw [appendContiguous, if_neg some_bytes, h']

theorem popPending_balanced {segment : Segment} (b : h.Balanced key base)
    (here : h.state.pending.get? segment.sequence = some segment) :
    (popPending h segment).Balanced key base := by
  have total : (h.state.pending.erase segment.sequence).total Segment.size + segment.payload.length =
      h.state.pending.total Segment.size := Table.total_erase Segment.size here
  have count : (h.state.pending.erase segment.sequence).rows.length + 1 =
      h.state.pending.rows.length := Table.length_erase here
  refine { key := b.key, probe := b.probe, counted := ?_, segments := ?_, bytes := ?_,
           retained := ?_ }
  · have := b.counted
    simp only [popPending]
    omega
  · have := b.segments
    simp only [popPending]
    omega
  · have := b.bytes
    simp only [popPending]
    omega
  · have := b.retained
    simp only [popPending, Direction.heldBytes] at this ⊢
    omega

theorem deliver_balanced {expected : Nat} {segment : Segment} (b : h.Balanced key base)
    (here : h.state.pending.get? segment.sequence = some segment) :
    (deliver h expected segment).Balanced key base := by
  rw [deliver]
  split
  · exact appendContiguous_balanced (popPending_balanced b here) _
  · exact popPending_balanced b here

theorem deliver_expects {expected : Nat} (segment : Segment)
    (set : h.state.expectedSequence = some expected) :
    (deliver h expected segment).state.expectedSequence ≠ none := by
  rw [deliver]
  split
  next more =>
    have popped : (popPending h segment).state.expectedSequence = some expected := set
    rw [appendContiguous_expects popped]
    · exact Option.some_ne_none _
    · intro empty
      have := congrArg List.length empty
      rw [List.length_drop, List.length_nil] at this
      omega
  next =>
    intro unset
    rw [popPending, set] at unset
    cases unset

theorem drainPending_induct {P : Held κ → Prop}
    (step : ∀ h expected segment, h.state.expectedSequence = some expected →
      h.state.pending.get? segment.sequence = some segment →
      sequenceDelta segment.sequence expected ≤ 0 → P h → P (deliver h expected segment))
    (set : h.state.expectedSequence ≠ none) (start : P h) :
    P (drainPending h) ∧ (drainPending h).state.Ahead := by
  induction size : h.state.pending.rows.length using Nat.strongRecOn generalizing h with
  | ind size ih =>
    obtain ⟨expected, here⟩ := Option.ne_none_iff_exists'.mp set
    rw [drainPending]
    split
    next unset => exact absurd unset set
    next expected' here' =>
      rw [here] at here'
      cases here'
      split
      next nothing =>
        refine ⟨start, ?_⟩
        rw [Direction.Ahead, here]
        exact ahead_of_bestDue nothing
      next segment found =>
        have pending := Table.mem_rows_iff.mp (mem_of_bestDue found).1
        have shorter : (deliver h expected segment).state.pending.rows.length + 1 =
            h.state.pending.rows.length := by
          rw [deliver_pending]
          exact Table.length_erase pending
        exact ih _ (by omega) (deliver_expects segment here)
          (step h expected segment here pending (mem_of_bestDue found).2 start) rfl

theorem drainPending_balanced (set : h.state.expectedSequence ≠ none)
    (b : h.Balanced key base) :
    (drainPending h).Balanced key base ∧ (drainPending h).state.Ahead :=
  drainPending_induct (fun _ _ _ _ pending _ b => deliver_balanced b pending) set b

theorem total_setPending (pending : Table Segment) (sequence : Nat) (payload : Bytes) :
    (setPending pending sequence payload).total Segment.size +
        ((pending.get? sequence).elim 0 Segment.size) =
      pending.total Segment.size + payload.length := by
  rw [setPending]
  cases here : pending.get? sequence with
  | none => exact Table.total_insert Segment.size here
  | some existing =>
    exact Table.total_modify Segment.size (fun s => { s with payload := payload })
      (fun _ => rfl) here

theorem length_setPending (pending : Table Segment) (sequence : Nat) (payload : Bytes) :
    (setPending pending sequence payload).rows.length =
      pending.rows.length + if pending.get? sequence = none then 1 else 0 := by
  rw [setPending]
  cases here : pending.get? sequence with
  | none =>
    have rows : (pending.insert ⟨sequence, payload⟩).rows = _ := Table.rows_insert here
    rw [rows, List.length_append]
    rfl
  | some existing => exact List.length_map _

theorem mem_setPending {pending : Table Segment} {sequence : Nat} {payload : Bytes} {s : Segment}
    (h : s ∈ (setPending pending sequence payload).rows) :
    s ∈ pending.rows ∨ s = ⟨sequence, payload⟩ := by
  rw [setPending] at h
  cases here : pending.get? sequence with
  | none =>
    rw [here] at h
    have rows : (pending.insert ⟨sequence, payload⟩).rows = _ := Table.rows_insert here
    simp only [rows, List.mem_append, List.mem_singleton] at h
    exact h
  | some existing =>
    rw [here] at h
    obtain ⟨old, member, rfl⟩ := List.mem_map.mp h
    split
    next same =>
      right
      rw [← of_decide_eq_true same]
      rfl
    next => exact .inl member

theorem replacedBytes_eq (h : Held κ) (sequence : Nat) :
    replacedBytes h sequence = (h.state.pending.get? sequence).elim 0 Segment.size := by
  rw [replacedBytes]
  cases h.state.pending.get? sequence <;> rfl

theorem giveBack_zero (h : Held κ) : giveBack h 0 = h := by
  simp [giveBack]

theorem storePending_balanced {sequence : Nat} {payload : Bytes} (some_bytes : payload ≠ [])
    (b : h.Balanced key base) : (storePending h sequence payload).Balanced key base := by
  have long := List.length_pos_iff.mpr some_bytes
  have counted := b.counted
  have bytes := b.bytes
  have retained := b.retained
  have freed := replacedBytes_eq h sequence
  rw [storePending]
  split
  · exact b
  rw [storeWithin]
  split
  next full =>
    have unmoved : replacedBytes h sequence = 0 := by
      rw [freed, show h.state.pending.get? sequence = none from full.2]
      rfl
    rw [unmoved, giveBack_zero]
    exact b.truncate
  next room =>
    split
    next none_left =>
      -- A replaced segment has left room, so nothing was replaced here.
      have unmoved : replacedBytes h sequence = 0 := by
        simp only [availableBytes, giveBack, counted] at none_left
        omega
      rw [unmoved, giveBack_zero]
      exact b.truncate
    next available =>
      split
      next empty =>
        have := congrArg List.length empty
        rw [List.length_take, List.length_nil] at this
        omega
      next =>
        have bounded := List.length_take_le
          (availableBytes (giveBack h (replacedBytes h sequence))).toNat payload
        generalize payload.take (availableBytes (giveBack h (replacedBytes h sequence))).toNat =
          kept at bounded
        have total := total_setPending h.state.pending sequence kept
        have length := length_setPending h.state.pending sequence kept
        rw [← freed] at total
        simp only [availableBytes, giveBack] at bounded available room
        refine { key := b.key, probe := b.probe, counted := ?_, segments := ?_, bytes := ?_,
                 retained := ?_ }
        · simp only [keepSegment, giveBack]
          omega
        · have := b.segments
          simp only [keepSegment, giveBack, length]
          split
          next fresh =>
            rw [not_and_or] at room
            have := room.resolve_right (not_not_intro fresh)
            omega
          next => omega
        · simp only [keepSegment, giveBack]
          omega
        · simp only [keepSegment, giveBack, Direction.heldBytes] at retained ⊢
          omega

theorem storePending_ahead {sequence expected : Nat} {payload : Bytes}
    (set : h.state.expectedSequence = some expected) (ahead : h.state.Ahead)
    (later : 0 < sequenceDelta sequence expected) :
    (storePending h sequence payload).state.Ahead := by
  have old : ∀ s ∈ h.state.pending.rows, 0 < sequenceDelta s.sequence expected := by
    rw [Direction.Ahead, set] at ahead
    exact ahead
  have same : ∀ freed, (giveBack h freed).state.Ahead := by
    intro freed
    rw [Direction.Ahead, show (giveBack h freed).state.expectedSequence = some expected from set]
    exact old
  rw [storePending]
  split
  · exact ahead
  rw [storeWithin]
  split
  · exact same (replacedBytes h sequence)
  split
  · exact same (replacedBytes h sequence)
  split
  · exact same (replacedBytes h sequence)
  · rw [Direction.Ahead]
    simp only [keepSegment, giveBack, set]
    intro s hs
    rcases mem_setPending hs with hs | rfl
    · exact old s hs
    · exact later

theorem receive_spec (sequence : Nat) (payload : Bytes) (b : h.Balanced key base)
    (set : h.state.expectedSequence ≠ none) (ahead : h.state.Ahead) :
    (receive h sequence payload).held.Balanced key base ∧
      (receive h sequence payload).held.state.Ahead := by
  obtain ⟨expected, here⟩ := Option.ne_none_iff_exists'.mp set
  have delivered : ∀ part : Bytes, part ≠ [] →
      (drainPending (appendContiguous h part)).Balanced key base ∧
        (drainPending (appendContiguous h part)).state.Ahead := by
    intro part some_bytes
    refine drainPending_balanced ?_ (appendContiguous_balanced b part)
    rw [appendContiguous_expects here some_bytes]
    exact Option.some_ne_none _
  unfold receive
  dsimp only
  split
  · exact ⟨b, ahead⟩
  next some_bytes =>
    split
    · exact delivered payload some_bytes
    split
    next later =>
      rw [here] at later
      exact ⟨storePending_balanced some_bytes b, storePending_ahead here ahead later⟩
    split
    · exact ⟨b, ahead⟩
    next overlap =>
      refine delivered _ fun empty => ?_
      have := congrArg List.length empty
      rw [List.length_drop, List.length_nil] at this
      omega

end Work

section Managers

variable [DecidableEq κ] {clamp : Int → Int} {m : Manager κ}

/-- The counters of a manager between its limits. -/
structure Manager.Tallied (m : Manager κ) : Prop where
  retained : m.retainedBytes = m.states.total Direction.heldBytes
  bounded : ∀ d ∈ m.states.rows, d.Bounded
  ahead : ∀ d ∈ m.states.rows, d.Ahead
  flows : m.states.rows.length ≤ maxFlows

/-- A correction that leaves counters that are not negative alone. -/
def Faithful (clamp : Int → Int) : Prop := ∀ n, 0 ≤ n → clamp n = n

theorem clampZero_faithful : Faithful clampZero := by
  intro n hn
  rw [clampZero, if_neg (by omega)]

theorem dropState_tallied (t : m.Tallied) (faithful : Faithful clamp) (key : κ) :
    (dropState clamp m key).Tallied ∧ dropState clamp m key = dropState clampZero m key := by
  rw [dropState, dropState]
  cases here : m.states.get? key with
  | none => exact ⟨t, rfl⟩
  | some d =>
    have total : (m.states.erase key).total Direction.heldBytes + d.heldBytes =
        m.states.total Direction.heldBytes := Table.total_erase Direction.heldBytes here
    have member := (Table.get?_some_iff.mp here).1
    have rest : m.retainedBytes - (d.probe.length + d.pendingBytes) =
        (m.states.erase key).total Direction.heldBytes := by
      rw [t.retained, (t.bounded d member).counted, ← total, Direction.heldBytes]
      omega
    have exact_rest := faithful _ (Int.natCast_nonneg ((m.states.erase key).total Direction.heldBytes))
    have exact_zero := clampZero_faithful _
      (Int.natCast_nonneg ((m.states.erase key).total Direction.heldBytes))
    simp only [rest, exact_rest, exact_zero]
    refine ⟨⟨rfl, fun d' hd => t.bounded d' (Table.mem_erase.mp hd).1,
      fun d' hd => t.ahead d' (Table.mem_erase.mp hd).1, ?_⟩, trivial⟩
    have : (m.states.erase key).rows.length + 1 = m.states.rows.length := Table.length_erase here
    have := t.flows
    simp only
    omega

theorem dropState_retained_le (t : m.Tallied) (faithful : Faithful clamp) (key : κ) :
    (dropState clamp m key).retainedBytes ≤ m.retainedBytes := by
  obtain ⟨tallied, -⟩ := dropState_tallied t faithful key
  rw [tallied.retained, t.retained]
  rw [dropState]
  cases here : m.states.get? key with
  | none => exact Int.le_refl _
  | some d =>
    have total : (m.states.erase key).total Direction.heldBytes + d.heldBytes =
        m.states.total Direction.heldBytes := Table.total_erase Direction.heldBytes here
    simp only
    omega

theorem ensureFlowCapacity_tallied (t : m.Tallied) (faithful : Faithful clamp) :
    (ensureFlowCapacity clamp m).Tallied ∧
      (ensureFlowCapacity clamp m).states.rows.length < maxFlows ∧
      ensureFlowCapacity clamp m = ensureFlowCapacity clampZero m := by
  rw [ensureFlowCapacity, ensureFlowCapacity]
  split
  next room => exact ⟨t, room, rfl⟩
  next full =>
    cases found : oldest m.states.rows with
    | none =>
      rw [oldest_eq_none found] at full
      exact absurd (by decide : 0 < maxFlows) full
    | some victim =>
      obtain ⟨tallied, same⟩ := dropState_tallied t faithful victim.key
      refine ⟨tallied, ?_, same⟩
      have := length_dropState clamp (mem_of_oldest found)
      have := t.flows
      simp only
      omega

theorem get?_dropState (clamp : Int → Int) (m : Manager κ) (key other : κ) :
    (dropState clamp m key).states.get? other =
      if other = key then none else m.states.get? other := by
  cases here : m.states.get? key with
  | none =>
    rw [dropState, here]
    simp only
    split
    next same => rw [same, here]
    next => rfl
  | some d =>
    rw [dropState, here]
    exact Table.get?_erase

theorem put_tallied {h : Held κ} {d : Direction κ} (t : m.Tallied)
    (live : m.states.get? h.state.key = some d)
    (b : h.Balanced h.state.key (m.retainedBytes - d.heldBytes)) (ahead : h.state.Ahead) :
    (m.put h).Tallied := by
  have total : (m.put h).states.total Direction.heldBytes + d.heldBytes =
      m.states.total Direction.heldBytes + h.state.heldBytes :=
    Table.total_modify Direction.heldBytes (fun d => h.state.withKey d.key) (fun _ => rfl) live
  have rows : ∀ d' ∈ (m.put h).states.rows, d' ∈ m.states.rows ∨ d' = h.state := by
    intro d' hd
    obtain ⟨old, member, rfl⟩ := List.mem_map.mp hd
    split
    next same =>
      right
      have named : old.key = h.state.key := of_decide_eq_true same
      exact congrArg h.state.withKey named
    next => exact .inl member
  refine ⟨?_, fun d' hd => ?_, fun d' hd => ?_, ?_⟩
  · have := b.retained
    have := t.retained
    show h.retained = ((m.put h).states.total Direction.heldBytes : Nat)
    omega
  · rcases rows d' hd with old | rfl
    · exact t.bounded d' old
    · exact b.toBounded
  · rcases rows d' hd with old | rfl
    · exact t.ahead d' old
    · exact ahead
  · exact (List.length_map _).trans_le t.flows

theorem alone_within_budget (t : m.Tallied) {key : κ}
    (alone : m.states.rows.filter (fun d => d.key ≠ key) = []) :
    m.retainedBytes ≤ maxGlobalBytes := by
  have same : ∀ d ∈ m.states.rows, d.key = key := by
    intro d hd
    have := List.filter_eq_nil_iff.mp alone d hd
    simpa using this
  have small : maxProbeBytes + maxPendingBytes ≤ maxGlobalBytes := by decide
  rw [t.retained, Table.total]
  have bounded := t.bounded
  have nodup := m.states.nodup
  cases rows : m.states.rows with
  | nil => simp
  | cons d rest =>
    rw [rows] at same bounded nodup
    cases rest with
    | nil =>
      have := (bounded d List.mem_cons_self).heldBytes_le
      simp only [List.map_cons, List.map_nil, List.sum_cons, List.sum_nil]
      omega
    | cons d' rest =>
      exfalso
      rw [List.map_cons, List.nodup_cons] at nodup
      apply nodup.1
      rw [show Keyed.key d = Keyed.key d' from
        (same d List.mem_cons_self).trans (same d' (List.mem_cons_of_mem d List.mem_cons_self)).symm]
      exact List.mem_map_of_mem List.mem_cons_self

theorem enforceGlobalBudget_spec (t : m.Tallied) (faithful : Faithful clamp) (exclude : κ) :
    (enforceGlobalBudget clamp exclude m).Tallied ∧
      (enforceGlobalBudget clamp exclude m).retainedBytes ≤ maxGlobalBytes ∧
      (enforceGlobalBudget clamp exclude m).states.get? exclude = m.states.get? exclude ∧
      enforceGlobalBudget clamp exclude m = enforceGlobalBudget clampZero exclude m := by
  induction size : m.states.rows.length using Nat.strongRecOn generalizing m with
  | ind size ih =>
    rw [enforceGlobalBudget, enforceGlobalBudget]
    by_cases excess : maxGlobalBytes < m.retainedBytes ∧ m.states.rows ≠ []
    · rw [if_pos excess, if_pos excess]
      split
      next alone =>
        have := alone_within_budget t (oldest_eq_none alone)
        omega
      next victim found =>
        have other := List.mem_filter.mp (mem_of_oldest found)
        obtain ⟨tallied, same⟩ := dropState_tallied t faithful victim.key
        have shorter := length_dropState clamp other.1
        obtain ⟨tallied', budget, kept, same'⟩ := ih _ (by omega) tallied rfl
        refine ⟨tallied', budget, ?_, ?_⟩
        · rw [kept, get?_dropState, if_neg]
          exact fun hk => of_decide_eq_true other.2 hk.symm
        · rw [same', same]
    · rw [if_neg excess, if_neg excess]
      refine ⟨t, ?_, rfl, rfl⟩
      by_contra long
      refine excess ⟨by omega, fun empty => ?_⟩
      have := t.retained
      rw [Table.total, empty, List.map_nil, List.sum_nil] at this
      omega

omit [DecidableEq κ] in
theorem fresh_bounded (key : κ) (clock : Nat) : (Direction.fresh key clock).Bounded where
  counted := rfl
  probe := Nat.zero_le _
  segments := Nat.zero_le _
  bytes := Nat.zero_le _

theorem openState_spec (t : m.Tallied) (faithful : Faithful clamp) (key : κ) :
    (openState clamp m key).1.Tallied ∧
      (∃ d, (openState clamp m key).1.states.get? key = some d ∧
        (openState clamp m key).2 = { d with lastSeen := m.clock } ∧
        d = (m.states.get? key).getD (.fresh key m.clock)) ∧
      openState clamp m key = openState clampZero m key := by
  rw [openState, openState]
  cases here : m.states.get? key with
  | some d => exact ⟨t, ⟨d, here, rfl, rfl⟩, rfl⟩
  | none =>
    obtain ⟨tallied, room, same⟩ := ensureFlowCapacity_tallied t faithful
    simp only [← same]
    have free : (ensureFlowCapacity clamp m).states.get? key = none := by
      rw [ensureFlowCapacity]
      split
      · exact here
      · split
        · exact here
        · rw [get?_dropState, here]
          split <;> rfl
    have rows : ((ensureFlowCapacity clamp m).states.insert (.fresh key m.clock)).rows = _ :=
      Table.rows_insert free
    have member : ∀ d ∈ ((ensureFlowCapacity clamp m).states.insert (.fresh key m.clock)).rows,
        d ∈ (ensureFlowCapacity clamp m).states.rows ∨ d = .fresh key m.clock := by
      intro d hd
      rw [rows] at hd
      exact (List.mem_append.mp hd).imp_right List.mem_singleton.mp
    refine ⟨⟨?_, fun d hd => ?_, fun d hd => ?_, ?_⟩, ⟨.fresh key m.clock, ?_, rfl, rfl⟩, trivial⟩
    · have total : ((ensureFlowCapacity clamp m).states.insert (.fresh key m.clock)).total
          Direction.heldBytes = _ := Table.total_insert Direction.heldBytes free
      simp only [total, tallied.retained]
      rfl
    · rcases member d hd with old | rfl
      · exact tallied.bounded d old
      · exact fresh_bounded key m.clock
    · rcases member d hd with old | rfl
      · exact tallied.ahead d old
      · rfl
    · simp only [rows, List.length_append, List.length_singleton]
      omega
    · have found : ((ensureFlowCapacity clamp m).states.insert (.fresh key m.clock)).get? key = _ :=
        Table.get?_insert free
      rw [found]
      exact if_pos rfl

end Managers

section Feeds

variable [DecidableEq κ] (casefold : String → String) {clamp : Int → Int} {m : Manager κ}

omit [DecidableEq κ] in
theorem expect_ahead {h : Held κ} (sequence : Nat) (ahead : h.state.Ahead) :
    (expect h sequence).state.Ahead := by
  rw [Direction.Ahead] at ahead ⊢
  cases set : h.state.expectedSequence with
  | none =>
    rw [set] at ahead
    simp only [expect, set, Option.getD_none]
    intro s hs
    rw [show h.state.pending.rows = [] from ahead] at hs
    cases hs
  | some expected =>
    rw [set] at ahead
    simp only [expect, set, Option.getD_some]
    exact ahead

theorem work_spec {d d₀ : Direction κ} {call : Call κ} {seen : Nat} (t : m.Tallied)
    (live : m.states.get? call.key = some d₀) (opened : d = { d₀ with lastSeen := seen }) :
    (work casefold m d call).held.state.key = call.key ∧
      (m.put (work casefold m d call).held).Tallied := by
  have member := (Table.get?_some_iff.mp live).1
  have named : d₀.key = call.key := Table.get?_key live
  have bounded := t.bounded d₀ member
  have balanced : (expect ⟨d, m.retainedBytes⟩ (call.dataSequence casefold)).Balanced call.key
      (m.retainedBytes - d₀.heldBytes) := by
    subst opened
    refine { counted := bounded.counted, probe := bounded.probe, segments := bounded.segments,
             bytes := bounded.bytes, key := named, retained := ?_ }
    show m.retainedBytes = m.retainedBytes - d₀.heldBytes + d₀.heldBytes
    omega
  have ahead : (expect ⟨d, m.retainedBytes⟩ (call.dataSequence casefold)).state.Ahead := by
    refine expect_ahead _ ?_
    subst opened
    exact t.ahead d₀ member
  obtain ⟨after, ahead'⟩ :=
    receive_spec (call.dataSequence casefold) call.payload balanced (Option.some_ne_none _) ahead
  refine ⟨after.key, put_tallied (d := d₀) t ?_ ?_ ahead'⟩
  · rw [show (work casefold m d call).held.state.key = call.key from after.key]
    exact live
  · rw [show (work casefold m d call).held.state.key = call.key from after.key]
    exact after

/-- What the manager is after a call, between the call's limits. -/
structure Manager.Accounted (m : Manager κ) : Prop extends m.Tallied where
  budget : m.retainedBytes ≤ maxGlobalBytes

theorem feed_accounted (a : m.Accounted) (faithful : Faithful clamp) (call : Call κ) :
    (feed casefold clamp m call).2.Accounted ∧
      feed casefold clamp m call = feed casefold clampZero m call := by
  have ticked : m.tick.Tallied := ⟨a.retained, a.bounded, a.ahead, a.flows⟩
  rw [feed, feed]
  split
  · exact ⟨⟨ticked, a.budget⟩, rfl⟩
  · obtain ⟨tallied, ⟨d₀, live, opened, -⟩, same⟩ := openState_spec ticked faithful call.key
    rw [← same]
    dsimp only
    obtain ⟨named, put⟩ := work_spec casefold tallied live opened
    obtain ⟨enforced, budget, -, same'⟩ := enforceGlobalBudget_spec put faithful call.key
    obtain ⟨dropped, same''⟩ := dropState_tallied enforced faithful call.key
    have drop_budget := dropState_retained_le enforced faithful call.key
    rw [← same']
    cases call.closes casefold with
    | false => exact ⟨⟨enforced, budget⟩, rfl⟩
    | true =>
      simp only [↓reduceIte]
      exact ⟨⟨dropped, Int.le_trans drop_budget budget⟩, by rw [same'']⟩

inductive Operation (κ : Type u)
  | feed (call : Call κ)
  | reset

def Operation.apply (m : Manager κ) : Operation κ → Manager κ
  | .feed call => (Capture.feed casefold clampZero m call).2
  | .reset => Capture.reset m

/-- The states a manager goes through. -/
def reassemble (operations : List (Operation κ)) : Manager κ :=
  operations.foldl (Operation.apply casefold) Manager.init

omit [DecidableEq κ] in
theorem init_accounted : (Manager.init : Manager κ).Accounted where
  retained := rfl
  bounded := fun _ h => nomatch h
  ahead := fun _ h => nomatch h
  flows := Nat.zero_le _
  budget := by show (0 : Int) ≤ maxGlobalBytes; decide

omit [DecidableEq κ] in
theorem reset_accounted (m : Manager κ) : (reset m).Accounted where
  retained := rfl
  bounded := fun _ h => nomatch h
  ahead := fun _ h => nomatch h
  flows := Nat.zero_le _
  budget := by show (0 : Int) ≤ maxGlobalBytes; decide

theorem apply_accounted (a : m.Accounted) (operation : Operation κ) :
    (operation.apply casefold m).Accounted := by
  cases operation with
  | feed call => exact (feed_accounted casefold a clampZero_faithful call).1
  | reset => exact reset_accounted m

/-- After any calls the counters are exact and every limit holds, and no correction of the
global counter ever sees a negative value: any correction that leaves the others alone gives
the same next call. -/
theorem reassemble_accounted (operations : List (Operation κ)) :
    (reassemble casefold operations).Accounted ∧
      ∀ clamp call, Faithful clamp →
        feed casefold clamp (reassemble casefold operations) call =
          feed casefold clampZero (reassemble casefold operations) call := by
  have run : (reassemble casefold operations).Accounted :=
    List.foldlRecOn operations (Operation.apply casefold) init_accounted
      fun _ a operation _ => apply_accounted casefold a operation
  exact ⟨run, fun clamp call faithful => (feed_accounted casefold run faithful call).2⟩

end Feeds

end Arenyxa.Capture
