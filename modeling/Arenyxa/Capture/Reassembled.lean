import Arenyxa.Capture.Accounting

/-! Segments of one stream, fed in any order: the probe is a piece of the stream, and the
contiguous part is as long as the segments allow. -/

universe u

namespace Arenyxa.Capture

section Sequences

/-- The sequence number of an offset of the stream. -/
def seqAt (initial offset : Nat) : Nat := (initial + offset) % sequenceModulus

variable {initial i j : Nat}

theorem sequenceDelta_seqAt (hi : i < 2 ^ 31) (hj : j < 2 ^ 31) :
    sequenceDelta (seqAt initial i) (seqAt initial j) = i - j := by
  unfold sequenceDelta seqAt sequenceModulus
  omega

theorem seqAt_inj (hi : i < 2 ^ 31) (hj : j < 2 ^ 31) (same : seqAt initial i = seqAt initial j) :
    i = j := by
  unfold seqAt sequenceModulus at same
  omega

theorem seqAt_add (n : Nat) : (seqAt initial i + n) % sequenceModulus = seqAt initial (i + n) := by
  unfold seqAt sequenceModulus
  omega

end Sequences

/-- A payload that is the stream from an offset on. -/
structure PieceOf (stream : Bytes) (offset : Nat) (payload : Bytes) : Prop where
  bytes : payload = (stream.drop offset).take payload.length
  inside : offset + payload.length ≤ stream.length

section Pieces

variable {stream payload : Bytes} {offset : Nat}

theorem PieceOf.drop (p : PieceOf stream offset payload) (n : Nat) (short : n ≤ payload.length) :
    PieceOf stream (offset + n) (payload.drop n) := by
  have inside := p.inside
  constructor
  · conv_lhs => rw [p.bytes]
    rw [List.drop_take, List.drop_drop, List.length_drop]
  · rw [List.length_drop]
    omega

theorem PieceOf.take (p : PieceOf stream offset payload) (n : Nat) :
    PieceOf stream offset (payload.take n) := by
  have inside := p.inside
  constructor
  · conv_lhs => rw [p.bytes]
    rw [List.take_take, List.length_take]
  · rw [List.length_take]
    omega

end Pieces

variable {κ : Type u}

/-- The bytes a pending segment stands for. -/
def Covers (initial : Nat) (stream : Bytes) (s : Segment) (x : Nat) : Prop :=
  ∃ offset, s.sequence = seqAt initial offset ∧ offset ≤ stream.length ∧ offset ≤ x ∧
    x < offset + s.payload.length

/-- A direction against the stream, from the offset its first segment fixed, and against the
offsets that have been received. -/
structure Reassembled (stream : Bytes) (initial base : Nat) (received : Nat → Prop)
    (d : Direction κ) : Prop where
  inside : base + d.contiguousBytes ≤ stream.length
  expected : d.expectedSequence = some (seqAt initial (base + d.contiguousBytes))
  probe : d.probe = (stream.drop base).take (min maxProbeBytes d.contiguousBytes)
  contiguous : ∀ i < d.contiguousBytes, received (base + i)
  pending : ∀ s ∈ d.pending.rows, ∃ offset, s.sequence = seqAt initial offset ∧
    PieceOf stream offset s.payload ∧
    ∀ x, offset ≤ x → x < offset + s.payload.length → received x

/-- Whatever has been received is delivered or pending. -/
def Complete (stream : Bytes) (initial base : Nat) (received : Nat → Prop) (d : Direction κ) :
    Prop :=
  ∀ x, received x → x < base + d.contiguousBytes ∨
    ∃ s ∈ d.pending.rows, Covers initial stream s x

section Steps

variable {stream : Bytes} {initial base : Nat} {received : Nat → Prop} {h : Held κ}

theorem Reassembled.mono {received' : Nat → Prop} {d : Direction κ}
    (r : Reassembled stream initial base received d) (more : ∀ x, received x → received' x) :
    Reassembled stream initial base received' d where
  inside := r.inside
  expected := r.expected
  probe := r.probe
  contiguous := fun i hi => more _ (r.contiguous i hi)
  pending := fun s hs => by
    obtain ⟨offset, seq, piece, covered⟩ := r.pending s hs
    exact ⟨offset, seq, piece, fun x low high => more x (covered x low high)⟩

theorem appendContiguous_reassembled {payload : Bytes}
    (r : Reassembled stream initial base received h.state)
    (piece : PieceOf stream (base + h.state.contiguousBytes) payload)
    (fresh : ∀ x, base + h.state.contiguousBytes ≤ x →
      x < base + h.state.contiguousBytes + payload.length → received x) :
    Reassembled stream initial base received (appendContiguous h payload).state ∧
      (appendContiguous h payload).state.contiguousBytes =
        h.state.contiguousBytes + payload.length := by
  by_cases empty : payload = []
  · rw [appendContiguous, if_pos empty, empty]
    exact ⟨r, rfl⟩
  have inside := piece.inside
  have length : h.state.probe.length = min maxProbeBytes h.state.contiguousBytes := by
    rw [r.probe, List.length_take, List.length_drop]
    have := r.inside
    omega
  rw [appendContiguous, if_neg empty, r.expected]
  refine ⟨⟨?_, ?_, ?_, ?_, r.pending⟩, rfl⟩
  · simp only
    omega
  · simp only
    rw [seqAt_add, Nat.add_assoc]
  · simp only
    rw [length]
    by_cases full : maxProbeBytes ≤ h.state.contiguousBytes
    · rw [show maxProbeBytes - min maxProbeBytes h.state.contiguousBytes = 0 by omega,
        List.take_zero, List.append_nil, r.probe]
      congr 1
      omega
    · have probe := r.probe
      rw [Nat.min_eq_right (by omega)] at probe ⊢
      conv_lhs => rw [probe, piece.bytes, ← List.drop_drop, List.take_take]
      rw [← List.take_add]
      congr 1
      omega
  · intro i hi
    simp only at hi
    by_cases old : i < h.state.contiguousBytes
    · exact r.contiguous i old
    · exact fresh (base + i) (by omega) (by omega)

theorem popPending_reassembled (segment : Segment)
    (r : Reassembled stream initial base received h.state) :
    Reassembled stream initial base received (popPending h segment).state where
  inside := r.inside
  expected := r.expected
  probe := r.probe
  contiguous := r.contiguous
  pending := fun s hs => r.pending s (Table.mem_erase.mp hs).1

theorem deliver_reassembled (short : stream.length < 2 ^ 31) {expected : Nat} {segment : Segment}
    (set : h.state.expectedSequence = some expected)
    (here : h.state.pending.get? segment.sequence = some segment)
    (due : sequenceDelta segment.sequence expected ≤ 0)
    (r : Reassembled stream initial base received h.state) :
    Reassembled stream initial base received (deliver h expected segment).state ∧
      (Complete stream initial base received h.state →
        Complete stream initial base received (deliver h expected segment).state) := by
  obtain ⟨offset, seq, piece, covered⟩ := r.pending segment (Table.get?_some_iff.mp here).1
  have inside := piece.inside
  have reached := r.inside
  rw [r.expected] at set
  cases set
  have delta := @sequenceDelta_seqAt initial offset (base + h.state.contiguousBytes)
    (by omega) (by omega)
  rw [← seq] at delta
  rw [delta] at due
  have popped := popPending_reassembled segment r
  -- The segment itself is the only one that stood for its bytes.
  have others : ∀ s ∈ h.state.pending.rows, ∀ x, Covers initial stream s x →
      s ∈ (h.state.pending.erase segment.sequence).rows ∨ x < offset + segment.payload.length := by
    rintro s hs x ⟨offset', seq', low, -, high⟩
    by_cases same : s.sequence = segment.sequence
    · right
      have : s = segment := by
        have found : h.state.pending.get? s.sequence = some s := Table.mem_rows_iff.mp hs
        rw [same, here] at found
        exact (Option.some.inj found).symm
      subst this
      have : offset' = offset :=
        seqAt_inj (by omega) (by omega) (seq'.symm.trans seq)
      omega
    · exact .inl (Table.mem_erase.mpr ⟨hs, same⟩)
  rw [deliver, delta]
  have overlap : (-((offset : Int) - (base + h.state.contiguousBytes : Nat))).toNat =
      base + h.state.contiguousBytes - offset := by omega
  simp only [overlap]
  split
  next more =>
    have rest := piece.drop (base + h.state.contiguousBytes - offset) (by omega)
    rw [show offset + (base + h.state.contiguousBytes - offset) =
      base + h.state.contiguousBytes by omega] at rest
    have fresh : ∀ x, base + h.state.contiguousBytes ≤ x →
        x < base + h.state.contiguousBytes +
          (segment.payload.drop (base + h.state.contiguousBytes - offset)).length → received x := by
      intro x low high
      rw [List.length_drop] at high
      exact covered x (by omega) (by omega)
    obtain ⟨appended, grown⟩ := appendContiguous_reassembled popped rest fresh
    refine ⟨appended, fun complete x hx => ?_⟩
    rw [grown, List.length_drop, appendContiguous_pending]
    have kept : (popPending h segment).state.contiguousBytes = h.state.contiguousBytes := rfl
    rcases complete x hx with old | ⟨s, hs, cover⟩
    · left
      omega
    · rcases others s hs x cover with remains | within
      · exact .inr ⟨s, remains, cover⟩
      · left
        omega
  next =>
    refine ⟨popped, fun complete x hx => ?_⟩
    have kept : (popPending h segment).state.contiguousBytes = h.state.contiguousBytes := rfl
    rcases complete x hx with old | ⟨s, hs, cover⟩
    · exact .inl old
    · rcases others s hs x cover with remains | within
      · exact .inr ⟨s, remains, cover⟩
      · left
        omega

theorem drainPending_reassembled (short : stream.length < 2 ^ 31)
    (r : Reassembled stream initial base received h.state) :
    Reassembled stream initial base received (drainPending h).state ∧
      (Complete stream initial base received h.state →
        Complete stream initial base received (drainPending h).state) := by
  have set : h.state.expectedSequence ≠ none := by
    rw [r.expected]
    exact Option.some_ne_none _
  refine (drainPending_induct (P := fun h' => Reassembled stream initial base received h'.state ∧
    (Complete stream initial base received h.state →
      Complete stream initial base received h'.state)) ?_ set ⟨r, id⟩).1
  rintro h' expected segment set here due ⟨r', complete⟩
  obtain ⟨next, kept⟩ := deliver_reassembled short set here due r'
  exact ⟨next, fun start => kept (complete start)⟩

/-- The pending limits leave room for the whole segment. -/
def StoresWhole (h : Held κ) (sequence : Nat) (payload : Bytes) : Prop :=
  ((h.state.pending.get? sequence).any fun s => payload.length ≤ s.payload.length) = true ∨
    (¬(maxPendingSegments ≤ h.state.pending.rows.length ∧
        h.state.pending.get? sequence = none) ∧
      payload.length ≤ availableBytes (giveBack h (replacedBytes h sequence)))

theorem storePending_cases (h : Held κ) (sequence : Nat) (payload : Bytes) :
    (storePending h sequence payload).state.expectedSequence = h.state.expectedSequence ∧
      (storePending h sequence payload).state.probe = h.state.probe ∧
      (storePending h sequence payload).state.contiguousBytes = h.state.contiguousBytes ∧
      ((storePending h sequence payload).state.pending = h.state.pending ∨
        ∃ n, (storePending h sequence payload).state.pending =
          setPending h.state.pending sequence (payload.take n)) := by
  rw [storePending]
  split
  · exact ⟨rfl, rfl, rfl, .inl rfl⟩
  rw [storeWithin]
  split
  · exact ⟨rfl, rfl, rfl, .inl rfl⟩
  split
  · exact ⟨rfl, rfl, rfl, .inl rfl⟩
  split
  · exact ⟨rfl, rfl, rfl, .inl rfl⟩
  · exact ⟨rfl, rfl, rfl, .inr ⟨_, rfl⟩⟩

theorem storePending_whole {sequence : Nat} {payload : Bytes} (some_bytes : payload ≠ [])
    (whole : StoresWhole h sequence payload) :
    ((storePending h sequence payload).state.pending =
        setPending h.state.pending sequence payload ∧
      ∀ s, h.state.pending.get? sequence = some s → s.payload.length < payload.length) ∨
    ((storePending h sequence payload).state.pending = h.state.pending ∧
      ∃ s, h.state.pending.get? sequence = some s ∧ payload.length ≤ s.payload.length) := by
  have long := List.length_pos_iff.mpr some_bytes
  rw [storePending]
  split
  next longer =>
    right
    cases found : h.state.pending.get? sequence with
    | none => simp [found] at longer
    | some s =>
      rw [found] at longer
      exact ⟨rfl, s, rfl, of_decide_eq_true longer⟩
  next shorter =>
    obtain ⟨room, fits⟩ := whole.resolve_left shorter
    left
    have enough : payload.take (availableBytes (giveBack h (replacedBytes h sequence))).toNat =
        payload := List.take_of_length_le (by omega)
    constructor
    · rw [storeWithin, if_neg (show ¬(maxPendingSegments ≤
        (giveBack h (replacedBytes h sequence)).state.pending.rows.length ∧
          (giveBack h (replacedBytes h sequence)).state.pending.get? sequence = none) from room),
        if_neg (by omega), enough, if_neg some_bytes]
      rfl
    · intro s found
      rw [found] at shorter
      by_contra longer
      exact shorter (decide_eq_true (Nat.le_of_not_lt longer))

theorem mem_setPending_self (pending : Table Segment) (sequence : Nat) (payload : Bytes) :
    ⟨sequence, payload⟩ ∈ (setPending pending sequence payload).rows := by
  rw [setPending]
  cases here : pending.get? sequence with
  | none =>
    have rows : (pending.insert ⟨sequence, payload⟩).rows = _ := Table.rows_insert here
    simp only [rows]
    exact List.mem_append_right _ List.mem_cons_self
  | some old =>
    have named : old.sequence = sequence := Table.get?_key here
    refine List.mem_map.mpr ⟨old, (Table.get?_some_iff.mp here).1, ?_⟩
    exact (if_pos (decide_eq_true named)).trans (congrArg (Segment.mk · payload) named)

theorem mem_setPending_of_ne {pending : Table Segment} {sequence : Nat} (payload : Bytes)
    {s : Segment} (member : s ∈ pending.rows) (other : s.sequence ≠ sequence) :
    s ∈ (setPending pending sequence payload).rows := by
  rw [setPending]
  cases here : pending.get? sequence with
  | none =>
    have rows : (pending.insert ⟨sequence, payload⟩).rows = _ := Table.rows_insert here
    simp only [rows]
    exact List.mem_append_left _ member
  | some old =>
    refine List.mem_map.mpr ⟨s, member, ?_⟩
    exact if_neg fun same => other (of_decide_eq_true same)

theorem storePending_reassembled {sequence offset : Nat} {payload : Bytes}
    (seq : sequence = seqAt initial offset) (piece : PieceOf stream offset payload)
    (fresh : ∀ x, offset ≤ x → x < offset + payload.length → received x)
    (r : Reassembled stream initial base received h.state) :
    Reassembled stream initial base received (storePending h sequence payload).state := by
  obtain ⟨expected, probe, contiguous, pending⟩ := storePending_cases h sequence payload
  refine ⟨?_, ?_, ?_, ?_, ?_⟩
  · rw [contiguous]
    exact r.inside
  · rw [expected, contiguous]
    exact r.expected
  · rw [probe, contiguous]
    exact r.probe
  · rw [contiguous]
    exact r.contiguous
  · rcases pending with same | ⟨n, set⟩
    · rw [same]
      exact r.pending
    · rw [set]
      intro s hs
      rcases mem_setPending hs with old | rfl
      · exact r.pending s old
      · refine ⟨offset, seq, piece.take n, fun x low high => fresh x low ?_⟩
        rw [List.length_take] at high
        omega

theorem storePending_complete (short : stream.length < 2 ^ 31) {sequence offset : Nat}
    {payload : Bytes} (some_bytes : payload ≠ []) (seq : sequence = seqAt initial offset)
    (piece : PieceOf stream offset payload) {before : Nat → Prop}
    (after : ∀ x, received x → before x ∨ (offset ≤ x ∧ x < offset + payload.length))
    (whole : StoresWhole h sequence payload)
    (complete : Complete stream initial base before h.state) :
    Complete stream initial base received (storePending h sequence payload).state := by
  have inside := piece.inside
  have contiguous := (storePending_cases h sequence payload).2.2.1
  intro x hx
  rw [contiguous]
  rcases storePending_whole some_bytes whole with ⟨set, longest⟩ | ⟨same, longer, found, covers⟩
  · rw [set]
    have fresh : x < offset + payload.length → offset ≤ x →
        ∃ s ∈ (setPending h.state.pending sequence payload).rows, Covers initial stream s x :=
      fun high low => ⟨⟨sequence, payload⟩, mem_setPending_self _ _ _, offset, seq, by omega, low, high⟩
    rcases after x hx with old | ⟨low, high⟩
    · rcases complete x old with delivered | ⟨s, hs, cover⟩
      · exact .inl delivered
      · right
        by_cases same : s.sequence = sequence
        · obtain ⟨offset', seq', within, low, high⟩ := cover
          have grown := longest s (Table.get?_some_iff.mpr ⟨hs, same⟩)
          have : offset' = offset :=
            seqAt_inj (by omega) (by omega) ((seq'.symm.trans same).trans seq)
          exact fresh (by omega) (by omega)
        · exact ⟨s, mem_setPending_of_ne payload hs same, cover⟩
    · exact .inr (fresh high low)
  · rw [same]
    rcases after x hx with old | ⟨low, high⟩
    · exact complete x old
    · right
      have named : longer.sequence = sequence := Table.get?_key found
      exact ⟨longer, (Table.get?_some_iff.mp found).1, offset, named.trans seq, by omega, low,
        by omega⟩

theorem appendContiguous_complete {payload : Bytes} {before : Nat → Prop}
    (grown : (appendContiguous h payload).state.contiguousBytes =
      h.state.contiguousBytes + payload.length)
    (after : ∀ x, received x → before x ∨
      x < base + h.state.contiguousBytes + payload.length)
    (complete : Complete stream initial base before h.state) :
    Complete stream initial base received (appendContiguous h payload).state := by
  intro x hx
  rw [grown, appendContiguous_pending]
  rcases after x hx with old | delivered
  · rcases complete x old with delivered | pending
    · left
      omega
    · exact .inr pending
  · left
    omega

theorem receive_reassembled (short : stream.length < 2 ^ 31) {sequence offset : Nat}
    {payload : Bytes} (seq : sequence = seqAt initial offset) (piece : PieceOf stream offset payload)
    (fresh : ∀ x, offset ≤ x → x < offset + payload.length → received x)
    (r : Reassembled stream initial base received h.state) :
    Reassembled stream initial base received (receive h sequence payload).held.state ∧
      ∀ before : Nat → Prop,
        (∀ x, received x → before x ∨ (offset ≤ x ∧ x < offset + payload.length)) →
        (payload ≠ [] → 0 < sequenceDelta sequence (h.state.expectedSequence.getD sequence) →
          StoresWhole h sequence payload) →
        Complete stream initial base before h.state →
        Complete stream initial base received (receive h sequence payload).held.state := by
  have inside := piece.inside
  have reached := r.inside
  have delta : sequenceDelta sequence (h.state.expectedSequence.getD sequence) =
      (offset : Int) - (base + h.state.contiguousBytes : Nat) := by
    rw [r.expected, Option.getD_some, seq]
    exact sequenceDelta_seqAt (by omega) (by omega)
  unfold receive
  rw [delta]
  dsimp only
  split
  next empty =>
    refine ⟨r, fun before after _ complete x hx => ?_⟩
    rcases after x hx with old | ⟨low, high⟩
    · exact complete x old
    · rw [empty, List.length_nil] at high
      omega
  next some_bytes =>
    split
    next due =>
      have here : offset = base + h.state.contiguousBytes := by omega
      rw [here] at piece fresh
      obtain ⟨appended, grown⟩ := appendContiguous_reassembled r piece fresh
      obtain ⟨drained, kept⟩ := drainPending_reassembled short appended
      refine ⟨drained, fun before after _ complete => kept ?_⟩
      exact appendContiguous_complete grown
        (fun x hx => (after x hx).imp_right fun range => by omega) complete
    split
    next later =>
      refine ⟨storePending_reassembled seq piece fresh r, fun before after whole complete => ?_⟩
      exact storePending_complete short some_bytes seq piece after (whole some_bytes later) complete
    split
    next old =>
      refine ⟨r, fun before after _ complete x hx => ?_⟩
      rcases after x hx with before_here | ⟨low, high⟩
      · exact complete x before_here
      · exact .inl (show x < base + h.state.contiguousBytes by omega)
    next more =>
      have overlap : (-((offset : Int) - (base + h.state.contiguousBytes : Nat))).toNat =
          base + h.state.contiguousBytes - offset := by omega
      rw [overlap] at more ⊢
      have rest := piece.drop (base + h.state.contiguousBytes - offset) (by omega)
      rw [show offset + (base + h.state.contiguousBytes - offset) =
        base + h.state.contiguousBytes by omega] at rest
      have length := @List.length_drop _ (base + h.state.contiguousBytes - offset) payload
      obtain ⟨appended, grown⟩ := appendContiguous_reassembled r rest
        fun x low high => fresh x (by omega) (by omega)
      obtain ⟨drained, kept⟩ := drainPending_reassembled short appended
      refine ⟨drained, fun before after _ complete => kept ?_⟩
      exact appendContiguous_complete grown
        (fun x hx => (after x hx).imp_right fun range => by omega) complete

end Steps

section Runs

variable (casefold : String → String)

/-- A call that feeds the stream from an offset on: its payload under the sequence number that
belongs to it. -/
structure Slice (stream : Bytes) (initial : Nat) (key : κ) (call : Call κ) (offset : Nat) :
    Prop where
  key : call.key = key
  sequence : call.dataSequence casefold = seqAt initial offset
  piece : PieceOf stream offset call.payload
  opens : call.closes casefold = false

/-- An offset of the stream that some call carries. -/
def Delivered (stream : Bytes) (initial : Nat) (calls : List (Call κ)) (x : Nat) : Prop :=
  ∃ call ∈ calls, ∃ offset, call.dataSequence casefold = seqAt initial offset ∧
    PieceOf stream offset call.payload ∧ offset ≤ x ∧ x < offset + call.payload.length

variable {stream : Bytes} {initial base : Nat} {key : κ} {casefold}

theorem Delivered.mono {calls calls' : List (Call κ)} (more : ∀ c ∈ calls, c ∈ calls') {x : Nat} :
    Delivered casefold stream initial calls x → Delivered casefold stream initial calls' x := by
  rintro ⟨call, member, rest⟩
  exact ⟨call, more call member, rest⟩

theorem delivered_concat (short : stream.length < 2 ^ 31) {calls : List (Call κ)} {call : Call κ}
    {offset : Nat} (slice : Slice casefold stream initial key call offset) {x : Nat}
    (h : Delivered casefold stream initial (calls ++ [call]) x) :
    Delivered casefold stream initial calls x ∨
      (offset ≤ x ∧ x < offset + call.payload.length) := by
  obtain ⟨c, member, offset', seq, piece, low, high⟩ := h
  rcases List.mem_append.mp member with old | new
  · exact .inl ⟨c, old, offset', seq, piece, low, high⟩
  · rw [List.mem_singleton.mp new] at seq piece high
    have inside := piece.inside
    have inside' := slice.piece.inside
    have : offset' = offset :=
      seqAt_inj (by omega) (by omega) (seq.symm.trans slice.sequence)
    exact .inr ⟨by omega, by omega⟩

theorem Slice.delivers {calls : List (Call κ)} {call : Call κ} {offset : Nat}
    (slice : Slice casefold stream initial key call offset) (x : Nat) (low : offset ≤ x)
    (high : x < offset + call.payload.length) :
    Delivered casefold stream initial (calls ++ [call]) x :=
  ⟨call, List.mem_append_right _ List.mem_cons_self, offset, slice.sequence, slice.piece, low, high⟩

variable [DecidableEq κ] {m : Manager κ} (casefold)

/-- The pending limits neither drop nor cut the segment of a call. -/
def Unlimited (m : Manager κ) (call : Call κ) : Prop :=
  ∀ d expected, m.states.get? call.key = some d → d.expectedSequence = some expected →
    call.payload ≠ [] → 0 < sequenceDelta (call.dataSequence casefold) expected →
    StoresWhole ⟨d, m.retainedBytes⟩ (call.dataSequence casefold) call.payload

def feedAll (m : Manager κ) (calls : List (Call κ)) : Manager κ :=
  calls.foldl (fun m call => (feed casefold clampZero m call).2) m

def Undropped : Manager κ → List (Call κ) → Prop
  | _, [] => True
  | m, call :: rest =>
    Unlimited casefold m call ∧ Undropped (feed casefold clampZero m call).2 rest

variable {casefold}

theorem get?_put {h : Held κ} (live : (m.states.get? h.state.key).isSome) :
    (m.put h).states.get? h.state.key = some h.state := by
  obtain ⟨d, here⟩ := Option.isSome_iff_exists.mp live
  have found : (m.put h).states.get? h.state.key =
      (m.states.get? h.state.key).map fun d => h.state.withKey d.key :=
    @Table.get?_modify_self _ _ _ _ m.states h.state.key (fun d => h.state.withKey d.key) fun _ => rfl
  have named : d.key = h.state.key := Table.get?_key here
  rw [found, here, Option.map_some, named]
  rfl

theorem feed_state (a : m.Accounted) {call : Call κ} (size : call.payload.length ≤ maxSegmentBytes)
    (opens : call.closes casefold = false) :
    ∃ retained, (feed casefold clampZero m call).2.states.get? call.key =
      some (receive (expect ⟨{ (m.states.get? call.key).getD (.fresh call.key m.tick.clock) with
          lastSeen := m.tick.clock }, retained⟩ (call.dataSequence casefold))
        (call.dataSequence casefold) call.payload).held.state := by
  have ticked : m.tick.Tallied := ⟨a.retained, a.bounded, a.ahead, a.flows⟩
  obtain ⟨tallied, ⟨d, live, opened, from_before⟩, -⟩ :=
    openState_spec ticked clampZero_faithful call.key
  obtain ⟨named, put⟩ := work_spec casefold tallied live opened
  obtain ⟨-, -, kept, -⟩ := enforceGlobalBudget_spec put clampZero_faithful call.key
  refine ⟨(openState clampZero m.tick call.key).1.retainedBytes, ?_⟩
  rw [feed, if_neg (by omega)]
  simp only [opens, Bool.false_eq_true, ↓reduceIte]
  rw [kept]
  have found := @get?_put _ _ (openState clampZero m.tick call.key).1
    (work casefold (openState clampZero m.tick call.key).1
      (openState clampZero m.tick call.key).2 call).held (by rw [named, live]; rfl)
  rw [named] at found
  rw [found, work, opened, from_before]
  rfl

theorem feed_reassembled (short : stream.length < 2 ^ 31) (a : m.Accounted)
    {calls : List (Call κ)} {call : Call κ} {offset : Nat} {d : Direction κ}
    (slice : Slice casefold stream initial key call offset) (live : m.states.get? key = some d)
    (r : Reassembled stream initial base (Delivered casefold stream initial calls) d) :
    ∃ d', (feed casefold clampZero m call).2.states.get? key = some d' ∧
      Reassembled stream initial base (Delivered casefold stream initial (calls ++ [call])) d' ∧
      (call.payload.length ≤ maxSegmentBytes → Unlimited casefold m call →
        Complete stream initial base (Delivered casefold stream initial calls) d →
        Complete stream initial base (Delivered casefold stream initial (calls ++ [call])) d') := by
  have more : ∀ x, Delivered casefold stream initial calls x →
      Delivered casefold stream initial (calls ++ [call]) x := fun _ =>
    Delivered.mono fun _ => List.mem_append_left _
  have named := slice.key
  subst named
  by_cases size : call.payload.length ≤ maxSegmentBytes
  · obtain ⟨retained, after⟩ := feed_state a size slice.opens
    rw [live, Option.getD_some] at after
    have start : Reassembled stream initial base
        (Delivered casefold stream initial (calls ++ [call]))
        (expect ⟨{ d with lastSeen := m.tick.clock }, retained⟩
          (call.dataSequence casefold)).state := by
      have r' := r.mono more
      refine ⟨r'.inside, ?_, r'.probe, r'.contiguous, r'.pending⟩
      show some (d.expectedSequence.getD _) = _
      rw [r.expected]
      rfl
    obtain ⟨received, complete⟩ :=
      receive_reassembled short slice.sequence slice.piece slice.delivers start
    refine ⟨_, after, received, fun _ unlimited old => complete _ ?_ ?_ old⟩
    · exact fun x hx => delivered_concat short slice hx
    · intro some_bytes later
      refine unlimited d _ live r.expected some_bytes ?_
      have set : (expect ⟨{ d with lastSeen := m.tick.clock }, retained⟩
          (call.dataSequence casefold)).state.expectedSequence = d.expectedSequence := by
        show some (d.expectedSequence.getD _) = _
        rw [r.expected]
        rfl
      rw [set, r.expected] at later
      exact later
  · refine ⟨d, ?_, r.mono more, fun fits => absurd fits size⟩
    rw [feed, if_pos (by omega)]
    exact live

theorem feedAll_reassembled (short : stream.length < 2 ^ 31) {rest : List (Call κ)} :
    ∀ {m : Manager κ} {calls : List (Call κ)} {d : Direction κ}, m.Accounted →
      (∀ call ∈ rest, ∃ offset, Slice casefold stream initial key call offset) →
      m.states.get? key = some d →
      Reassembled stream initial base (Delivered casefold stream initial calls) d →
      (feedAll casefold m rest).Accounted ∧
      ∃ d', (feedAll casefold m rest).states.get? key = some d' ∧
        Reassembled stream initial base (Delivered casefold stream initial (calls ++ rest)) d' ∧
        ((∀ call ∈ rest, call.payload.length ≤ maxSegmentBytes) → Undropped casefold m rest →
          Complete stream initial base (Delivered casefold stream initial calls) d →
          Complete stream initial base (Delivered casefold stream initial (calls ++ rest)) d') := by
  induction rest with
  | nil =>
    intro m calls d a _ live r
    rw [List.append_nil]
    exact ⟨a, d, live, r, fun _ _ complete => complete⟩
  | cons call rest ih =>
    intro m calls d a slices live r
    obtain ⟨offset, slice⟩ := slices call List.mem_cons_self
    obtain ⟨d₁, live₁, r₁, complete₁⟩ := feed_reassembled short a slice live r
    obtain ⟨after, d₂, live₂, r₂, complete₂⟩ :=
      ih (feed_accounted casefold a clampZero_faithful call).1
        (fun c hc => slices c (List.mem_cons_of_mem call hc)) live₁ r₁
    rw [List.append_assoc] at r₂ complete₂
    refine ⟨after, d₂, live₂, r₂, fun fits undropped complete => ?_⟩
    exact complete₂ (fun c hc => fits c (List.mem_cons_of_mem call hc)) undropped.2
      (complete₁ (fits call List.mem_cons_self) undropped.1 complete)

theorem feed_first (short : stream.length < 2 ^ 31) (a : m.Accounted) {first : Call κ}
    (slice : Slice casefold stream initial key first base)
    (size : first.payload.length ≤ maxSegmentBytes) (idle : m.states.get? key = none) :
    ∃ d, (feed casefold clampZero m first).2.states.get? key = some d ∧
      Reassembled stream initial base (Delivered casefold stream initial [first]) d ∧
      Complete stream initial base (Delivered casefold stream initial [first]) d := by
  have named := slice.key
  subst named
  obtain ⟨retained, after⟩ := feed_state a size slice.opens
  rw [idle, Option.getD_none] at after
  have inside := slice.piece.inside
  have start : Reassembled stream initial base (Delivered casefold stream initial ([] ++ [first]))
      (expect ⟨{ Direction.fresh first.key m.tick.clock with lastSeen := m.tick.clock }, retained⟩
        (first.dataSequence casefold)).state := by
    refine ⟨?_, ?_, ?_, (fun _ never => nomatch never), (fun _ never => nomatch never)⟩
    · show base + 0 ≤ _
      omega
    · exact congrArg some slice.sequence
    · rfl
  obtain ⟨received, complete⟩ :=
    receive_reassembled short slice.sequence slice.piece slice.delivers start
  refine ⟨_, after, received, complete (fun _ => False) ?_ ?_ fun _ never => never.elim⟩
  · rintro x hx
    rcases delivered_concat short slice hx with ⟨_, none_yet, _⟩ | range
    · cases none_yet
    · exact .inr range
  · intro some_bytes later
    rw [show (expect ⟨{ Direction.fresh first.key m.tick.clock with lastSeen := m.tick.clock },
      retained⟩ (first.dataSequence casefold)).state.expectedSequence =
        some (first.dataSequence casefold) from rfl, Option.getD_some, sequenceDelta] at later
    unfold sequenceModulus at later
    omega

omit [DecidableEq κ] in
theorem Complete.missing (short : stream.length < 2 ^ 31) {received : Nat → Prop}
    {d : Direction κ} (r : Reassembled stream initial base received d) (ahead : d.Ahead)
    (complete : Complete stream initial base received d) :
    ¬received (base + d.contiguousBytes) := by
  intro here
  have reached := r.inside
  rcases complete _ here with delivered | ⟨s, hs, offset, seq, within, low, high⟩
  · omega
  · rw [Direction.Ahead, r.expected] at ahead
    have later := ahead s hs
    rw [seq, sequenceDelta_seqAt (by omega) (by omega)] at later
    omega

end Runs

section Streams

variable [DecidableEq κ] (casefold : String → String) (stream : Bytes) (initial : Nat)

/-- Slices of one stream on a key that is idle, in any order and with any repetition: after them
the probe is a piece of the stream from the first one's offset, as long as what was received
from there without a gap; and it is all of that, where no slice was too long and none met the
pending limits. -/
theorem reassemble_stream (operations : List (Operation κ)) (first : Call κ)
    (rest : List (Call κ)) (base : Nat) (short : stream.length < 2 ^ 31)
    (idle : (reassemble casefold operations).states.get? first.key = none)
    (fits : first.payload.length ≤ maxSegmentBytes)
    (starts : Slice casefold stream initial first.key first base)
    (slices : ∀ call ∈ rest, ∃ offset, Slice casefold stream initial first.key call offset) :
    ∃ d, (feedAll casefold (reassemble casefold operations) (first :: rest)).states.get?
        first.key = some d ∧
      d.probe = (stream.drop base).take (min maxProbeBytes d.contiguousBytes) ∧
      base + d.contiguousBytes ≤ stream.length ∧
      (∀ i < d.contiguousBytes, Delivered casefold stream initial (first :: rest) (base + i)) ∧
      ((∀ call ∈ rest, call.payload.length ≤ maxSegmentBytes) →
        Undropped casefold (reassemble casefold operations) (first :: rest) →
        ¬Delivered casefold stream initial (first :: rest) (base + d.contiguousBytes)) := by
  have a := (reassemble_accounted casefold operations).1
  obtain ⟨d₁, live₁, r₁, complete₁⟩ := feed_first short a starts fits idle
  have next := (feed_accounted casefold a clampZero_faithful first).1
  obtain ⟨after, d, live, r, complete⟩ := feedAll_reassembled short next slices live₁ r₁
  refine ⟨d, live, r.probe, r.inside, r.contiguous, fun fit undropped => ?_⟩
  have ahead := after.ahead d (Table.get?_some_iff.mp live).1
  exact Complete.missing short r ahead (complete fit undropped.2 complete₁)

/-- The last two bytes of a stream of four, the later one first, across the end of the sequence
numbers. -/
def wrappedCalls : List (Call Nat) := [⟨0, 1, [4], []⟩, ⟨0, 0, [3], []⟩]

theorem wrappedCalls_reassembled :
    ∃ d, (feedAll id (reassemble id []) (⟨0, 4294967295, [2], []⟩ :: wrappedCalls)).states.get? 0 =
        some d ∧
      d.probe = ([1, 2, 3, 4].drop 1).take (min maxProbeBytes d.contiguousBytes) ∧
      1 + d.contiguousBytes ≤ [1, 2, 3, 4].length ∧
      (∀ i < d.contiguousBytes, Delivered id [1, 2, 3, 4] 4294967294
        (⟨0, 4294967295, [2], []⟩ :: wrappedCalls) (1 + i)) ∧
      ((∀ call ∈ wrappedCalls, call.payload.length ≤ maxSegmentBytes) →
        Undropped id (reassemble id []) (⟨0, 4294967295, [2], []⟩ :: wrappedCalls) →
        ¬Delivered id [1, 2, 3, 4] 4294967294 (⟨0, 4294967295, [2], []⟩ :: wrappedCalls)
          (1 + d.contiguousBytes)) := by
  refine reassemble_stream id [1, 2, 3, 4] 4294967294 [] ⟨0, 4294967295, [2], []⟩ wrappedCalls 1
    (by decide) rfl (by decide) ⟨rfl, by decide, ⟨rfl, by decide⟩, by decide⟩ ?_
  intro call member
  rcases List.mem_cons.mp member with rfl | member
  · exact ⟨3, rfl, by decide, ⟨rfl, by decide⟩, by decide⟩
  · rw [List.mem_singleton.mp member]
    exact ⟨2, rfl, by decide, ⟨rfl, by decide⟩, by decide⟩

def longStream : Bytes := List.replicate 1048578 0

def oneByte : Call Nat := ⟨0, 0, [0], []⟩

theorem oneByte_state :
    ((feed id clampZero Manager.init oneByte).2.states.get? 0).map Direction.expectedSequence =
        some (some 1) ∧
      ((feed id clampZero Manager.init oneByte).2.states.get? 0).map Direction.contiguousBytes =
        some 1 := by
  decide +kernel

/-- All of the stream but its first byte, one byte more than a segment may have. -/
def longCall : Call Nat := ⟨0, 1, List.replicate 1048577 0, []⟩

/-- Nothing meets the pending limits, every byte was fed, and one is delivered. -/
theorem longCall_rejected :
    Slice id longStream 0 0 oneByte 0 ∧ Slice id longStream 0 0 longCall 1 ∧
      Undropped id (reassemble id []) [oneByte, longCall] ∧
      Delivered id longStream 0 [oneByte, longCall] (0 + 1) ∧
      ((feedAll id (reassemble id []) [oneByte, longCall]).states.get? 0).map
        Direction.contiguousBytes = some 1 := by
  have whole : longStream.length = 1048578 := List.length_replicate
  have long : longCall.payload.length = 1048577 := List.length_replicate
  have one : Slice id longStream 0 0 oneByte 0 := by
    refine ⟨rfl, by decide, ⟨?_, ?_⟩, by decide⟩
    · rw [longStream, List.drop_zero, List.take_replicate]
      rfl
    · rw [whole]
      decide
  have rest : Slice id longStream 0 0 longCall 1 := by
    refine ⟨rfl, by decide, ⟨?_, ?_⟩, by decide⟩
    · rw [long, longStream, List.drop_replicate, List.take_replicate]
      rfl
    · rw [whole, long]
  refine ⟨one, rest, ⟨?_, ?_, trivial⟩, ?_, ?_⟩
  · intro d expected none_yet
    cases none_yet
  · intro d expected live set _ later
    have live' : (feed id clampZero Manager.init oneByte).2.states.get? 0 = some d := live
    have known := oneByte_state.1
    rw [live', Option.map_some, set, Option.some_inj, Option.some_inj] at known
    subst known
    exact absurd later (by decide)
  · exact ⟨longCall, List.mem_cons_of_mem _ List.mem_cons_self, 1, rest.sequence, rest.piece,
      by decide, by rw [long]; decide⟩
  · have rejected : (feed id clampZero (feed id clampZero Manager.init oneByte).2 longCall).2 =
        (feed id clampZero Manager.init oneByte).2.tick := by
      rw [feed, if_pos]
      rw [long]
      decide
    have start : reassemble id [] = (Manager.init : Manager Nat) := rfl
    rw [feedAll, List.foldl_cons, List.foldl_cons, List.foldl_nil, start, rejected]
    exact oneByte_state.2

end Streams

end Arenyxa.Capture
