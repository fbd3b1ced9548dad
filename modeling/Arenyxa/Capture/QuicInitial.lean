import Arenyxa.Lib.Dict
import Arenyxa.Lib.Words
import Mathlib.Data.Int.Bitwise
import Mathlib.Data.List.Chain
import Mathlib.Data.List.Sort
import Mathlib.Tactic.IntervalCases

/-! QUIC Initial packets: the packet number that a truncated one stands for, and the frames of the
plaintext with the stream that their CRYPTO frames carry. -/

namespace Arenyxa.Capture.Quic

open Words

abbrev Bytes := List UInt8

section PacketNumber

/-- `_packet_number` -/
def packetNumber (truncated pnLength : Nat) (largestPacketNumber : Int) : Int :=
  let expected := max 0 (largestPacketNumber + 1)
  let window : Int := (1 <<< (pnLength * 8) : Nat)
  let half := window / 2
  let mask := window - 1
  let candidate := Int.lor (Int.land expected (Int.lnot mask)) truncated
  if candidate ≤ expected - half ∧ candidate < (1 <<< 62 : Nat) - window then candidate + window
  else if expected + half < candidate ∧ window ≤ candidate then candidate - window
  else candidate

theorem ldiff_mask (n k : Nat) : Nat.ldiff n (2 ^ k - 1) = 2 ^ k * (n / 2 ^ k) := by
  refine Nat.eq_of_testBit_eq fun i => ?_
  rw [Nat.testBit_ldiff, Nat.testBit_two_pow_sub_one, Nat.testBit_two_pow_mul, Nat.testBit_div_two_pow]
  by_cases low : i < k
  · simp [low]
  · simp [low, Nat.sub_add_cancel (Nat.le_of_not_lt low), Nat.le_of_not_lt low]

/-- Masking takes the remainder off and the truncated number takes its place. -/
theorem candidate_eq (expected k : Nat) {truncated : Nat} (fits : truncated < 2 ^ k) :
    Int.lor (Int.land expected (Int.lnot (2 ^ k - 1))) truncated = 2 ^ k * (expected / 2 ^ k : Nat) + truncated := by
  have mask : ((2 : Int) ^ k - 1) = ((2 ^ k - 1 : Nat) : Int) := by
    rw [Nat.cast_sub Nat.one_le_two_pow]
    norm_cast
  have masked : Int.land expected (Int.lnot ((2 ^ k - 1 : Nat) : Int)) = (Nat.ldiff expected (2 ^ k - 1) : Nat) := rfl
  have joined (a b : Nat) : Int.lor a b = (a ||| b : Nat) := rfl
  rw [mask, masked, joined, ldiff_mask, ← Nat.two_pow_add_eq_or_of_lt fits]
  norm_cast

theorem packetNumber_eq (expected length : Nat) {truncated : Nat} (fits : truncated < 2 ^ (8 * length)) :
    packetNumber truncated length (expected - 1) =
      let window : Nat := 2 ^ (8 * length)
      let candidate : Int := (window * (expected / window) + truncated : Nat)
      if candidate ≤ expected - window / 2 ∧ candidate < 2 ^ 62 - window then candidate + window
      else if expected + window / 2 < candidate ∧ window ≤ candidate then candidate - window
      else candidate := by
  have next : max 0 ((expected : Int) - 1 + 1) = expected := by omega
  have whole : ((1 <<< (length * 8) : Nat) : Int) = 2 ^ (8 * length) := by
    rw [Nat.one_shiftLeft, Nat.mul_comm]
    norm_cast
  simp only [packetNumber, next, whole, candidate_eq _ _ fits]
  push_cast
  rfl

/-- The packet number is recovered from its lowest bytes where it lies in the window around the one that is expected, and
what any truncated number gives is not negative. -/
theorem packetNumber_recovers (length : Nat) (largest : Int) (positive : 1 ≤ length) (short : length ≤ 4)
    (least : -1 ≤ largest) (most : largest < 2 ^ 62 - 1) :
    (∀ pn : Nat, pn < 2 ^ 62 → largest + 1 - 2 ^ (8 * length - 1) < pn → pn ≤ largest + 1 + 2 ^ (8 * length - 1) →
        packetNumber (pn % 2 ^ (8 * length)) length largest = pn) ∧
      ∀ truncated < 2 ^ (8 * length), 0 ≤ packetNumber truncated length largest := by
  obtain ⟨expected, rfl⟩ : ∃ expected : Nat, largest = expected - 1 := ⟨(largest + 1).toNat, by omega⟩
  constructor
  · intro pn fits low high
    rw [packetNumber_eq expected length (Nat.mod_lt _ (Nat.two_pow_pos _))]
    interval_cases length <;> norm_num at low high ⊢ <;> (repeat' split) <;> omega
  · intro truncated fits
    rw [packetNumber_eq expected length fits]
    dsimp only
    split
    next => omega
    next =>
      split
      next large => exact Int.sub_nonneg.mpr large.2
      next => exact Int.natCast_nonneg _

theorem packetNumber_recovers_wrapped : packetNumber (256 % 2 ^ (8 * 1)) 1 254 = 256 ∧ 0 ≤ packetNumber 0 1 254 :=
  ⟨(packetNumber_recovers 1 254 (by decide) (by decide) (by decide) (by decide)).1 256 (by decide) (by decide) (by decide),
    (packetNumber_recovers 1 254 (by decide) (by decide) (by decide) (by decide)).2 0 (by decide)⟩

end PacketNumber

/-- Functions of the standard library. -/
structure Library where
  /-- `bytes.decode("utf-8", errors="replace")` -/
  decodeUtf8 : Bytes → String

def maxInitialFrames : Nat := 256

def maxInitialCryptoBytes : Nat := 64 * 1024

/-- `quic_varint`: the number and the bytes behind it. -/
def quicVarint : Bytes → Except String (Nat × Bytes)
  | [] => .error "truncated QUIC variable-length integer"
  | first :: rest =>
    let length := 2 ^ (first.toNat / 64)
    if rest.length + 1 < length then .error "truncated QUIC variable-length integer"
    else .ok ((rest.take (length - 1)).foldl (fun value byte => 256 * value + byte.toNat) (first.toNat % 64),
      rest.drop (length - 1))

structure AckRange where
  gap : Nat
  ackRange : Nat

structure EcnCounts where
  ect0 : Nat
  ect1 : Nat
  ce : Nat

/-- What is reported of a frame; an ACK frame with `ecn` counts is of the type `ACK_ECN`. -/
inductive Entry
  | padding (length : Nat)
  | ping
  | ack (largestAcknowledged ackDelay firstAckRange : Nat) (ranges : List AckRange) (ecn : Option EcnCounts)
  | crypto (offset length : Nat)
  | connectionClose (errorCode : Nat) (triggerFrameType : Option Nat) (reason : String)
  | unknown (frameType unparsedTailBytes : Nat)

/-- One turn of the loop: the entry, the chunk it puts in, and the bytes that the next turn starts with. -/
structure Turn where
  entry : Entry
  chunk : Option (Nat × Bytes)
  rest : Bytes

def readRanges : Nat → Bytes → Except String (List AckRange × Bytes)
  | 0, rest => .ok ([], rest)
  | count + 1, rest => do
    let (gap, rest) ← quicVarint rest
    let (ackRange, rest) ← quicVarint rest
    let (ranges, rest) ← readRanges count rest
    return (⟨gap, ackRange⟩ :: ranges, rest)

def readEcn (rest : Bytes) : Except String (EcnCounts × Bytes) := do
  let (ect0, rest) ← quicVarint rest
  let (ect1, rest) ← quicVarint rest
  let (ce, rest) ← quicVarint rest
  return (⟨ect0, ect1, ce⟩, rest)

def readAck (counted : Bool) (rest : Bytes) : Except String Turn := do
  let (largest, rest) ← quicVarint rest
  let (delay, rest) ← quicVarint rest
  let (rangeCount, rest) ← quicVarint rest
  let (firstRange, rest) ← quicVarint rest
  if 64 < rangeCount then throw "QUIC Initial ACK range budget exceeded"
  let (ranges, rest) ← readRanges rangeCount rest
  if counted then
    let (ecn, rest) ← readEcn rest
    return ⟨.ack largest delay firstRange ranges (some ecn), none, rest⟩
  else return ⟨.ack largest delay firstRange ranges none, none, rest⟩

def readCrypto (rest : Bytes) : Except String Turn := do
  let (offset, rest) ← quicVarint rest
  let (length, rest) ← quicVarint rest
  if maxInitialCryptoBytes < length ∨ rest.length < length then throw "invalid QUIC Initial CRYPTO frame"
  return ⟨.crypto offset length, some (offset, rest.take length), rest.drop length⟩

section Frames

variable (lib : Library)

def readClose (triggered : Bool) (rest : Bytes) : Except String Turn := do
  let (errorCode, rest) ← quicVarint rest
  let (trigger, rest) ← if triggered then do
      let (trigger, rest) ← quicVarint rest
      pure (some trigger, rest)
    else pure (none, rest)
  let (length, rest) ← quicVarint rest
  if 4096 < length ∨ rest.length < length then throw "invalid QUIC CONNECTION_CLOSE reason"
  let reason := String.ofList ((lib.decodeUtf8 (rest.take length)).toList.take 4096)
  return ⟨.connectionClose errorCode trigger reason, none, rest.drop length⟩

/-- The frame at the front. Behind one of an unknown type nothing is read. -/
def readFrame (plaintext : Bytes) : Except String Turn := do
  let (frameType, rest) ← quicVarint plaintext
  if frameType = 0x00 then
    return ⟨.padding (1 + (rest.takeWhile (· = 0)).length), none, rest.dropWhile (· = 0)⟩
  else if frameType = 0x01 then return ⟨.ping, none, rest⟩
  else if frameType = 0x02 ∨ frameType = 0x03 then readAck (frameType = 0x03) rest
  else if frameType = 0x06 then readCrypto rest
  else if frameType = 0x1c ∨ frameType = 0x1d then readClose lib (frameType = 0x1c) rest
  else return ⟨.unknown frameType rest.length, none, []⟩

/-- The loop over the frames, with the entries it may still add. -/
def readFrames : Nat → Bytes → List (Nat × Bytes) → Except String (List Entry × List (Nat × Bytes))
  | 0, _, cryptoChunks => .ok ([], cryptoChunks)
  | _ + 1, [], cryptoChunks => .ok ([], cryptoChunks)
  | budget + 1, plaintext, cryptoChunks => do
    let turn ← readFrame lib plaintext
    let cryptoChunks := turn.chunk.elim cryptoChunks fun chunk => Dict.put cryptoChunks chunk.1 chunk.2
    let (frames, cryptoChunks) ← readFrames budget turn.rest cryptoChunks
    return (turn.entry :: frames, cryptoChunks)

/-- The loop over the chunks in the order of their offsets, up to the first that does not meet the one before it. -/
def assemble (cryptoChunks : List (Nat × Bytes)) : List Nat → Nat → Bytes → Bytes
  | [], _, assembled => assembled
  | offset :: offsets, expected, assembled =>
    let chunk := (cryptoChunks.lookup offset).getD []
    if offset ≠ expected ∨ maxInitialCryptoBytes < assembled.length + chunk.length then assembled
    else assemble cryptoChunks offsets (expected + chunk.length) (assembled ++ chunk)

/-- `_parse_initial_frames` -/
def parseInitialFrames (plaintext : Bytes) : Except String (List Entry × Bytes) := do
  let (frames, cryptoChunks) ← readFrames lib maxInitialFrames plaintext []
  return (frames, assemble cryptoChunks ((Dict.keys cryptoChunks).insertionSort (· ≤ ·)) 0 [])

end Frames

/-- A number in one of its encodings, of one, two, four or eight bytes. -/
structure Varint where
  width : Fin 4
  value : Nat
  fits : value < 2 ^ (8 * 2 ^ width.val - 2)

def Varint.encode (n : Varint) : Bytes := word (2 ^ n.width.val) (n.width.val * 2 ^ (8 * 2 ^ n.width.val - 2) + n.value)

/-- A frame as the sender puts it into the packet; `padding` is a whole run of so many bytes and one more. -/
inductive Frame
  | padding (more : Nat)
  | ping
  | ack (largest delay count first : Varint) (ranges : List (Varint × Varint)) (ecn : Option (Varint × Varint × Varint))
  | crypto (offset length : Varint) (data : Bytes)

namespace Frame

def encode : Frame → Bytes
  | padding more => List.replicate (more + 1) 0
  | ping => [0x01]
  | ack largest delay count first ranges ecn =>
    (if ecn.isSome then 0x03 else 0x02) :: (largest.encode ++ delay.encode ++ count.encode ++ first.encode ++
      ranges.flatMap (fun range => range.1.encode ++ range.2.encode) ++
      (ecn.elim [] fun (ect0, ect1, ce) => ect0.encode ++ ect1.encode ++ ce.encode))
  | crypto offset length data => 0x06 :: (offset.encode ++ length.encode ++ data)

/-- The counts that the frame states are those of what follows them. -/
def WellFormed : Frame → Prop
  | ack _ _ count _ ranges _ => count.value = ranges.length
  | crypto _ length data => length.value = data.length
  | _ => True

def entry : Frame → Entry
  | padding more => .padding (more + 1)
  | ping => .ping
  | ack largest delay _ first ranges ecn => .ack largest.value delay.value first.value
      (ranges.map fun range => ⟨range.1.value, range.2.value⟩)
      (ecn.map fun (ect0, ect1, ce) => ⟨ect0.value, ect1.value, ce.value⟩)
  | crypto offset _ data => .crypto offset.value data.length

def isPadding : Frame → Bool
  | padding _ => true
  | _ => false

/-- The parser's budget for the ranges of an ACK frame. -/
def Affordable : Frame → Prop
  | ack _ _ count _ _ _ => count.value ≤ 64
  | _ => True

/-- Where a CRYPTO frame's part of the stream starts, and the part. -/
def slice? : Frame → Option (Nat × Bytes)
  | crypto offset _ data => some (offset.value, data)
  | _ => none

end Frame

/-- What the CRYPTO frames carry, in the order of the frames. -/
def slices (frames : List Frame) : List (Nat × Bytes) := frames.filterMap Frame.slice?

/-- Frames that a sender makes of a stream. -/
structure Sent (stream : Bytes) (frames : List Frame) : Prop where
  short : stream.length ≤ maxInitialCryptoBytes
  few : frames.length ≤ maxInitialFrames
  wellFormed : ∀ frame ∈ frames, frame.WellFormed
  runs : frames.IsChain fun frame next => ¬(frame.isPadding ∧ next.isPadding)
  sliced : ∀ part ∈ slices frames, part.2 <+: stream.drop part.1

def Covered (frames : List Frame) (i : Nat) : Prop := ∃ part ∈ slices frames, part.1 ≤ i ∧ i < part.1 + part.2.length

/-- The slices cover so many bytes, and not the one behind them. -/
def Covers (frames : List Frame) (n : Nat) : Prop := (∀ i < n, Covered frames i) ∧ ¬Covered frames n

/-- The last slice that starts at a position. -/
def kept (frames : List Frame) (position : Nat) : Option Bytes := (slices frames).reverse.lookup position

/-- One reads from a position to the end by going from each slice that is kept to the one that starts where it ends, and
none starts before it ends, unless it ends at the end itself. -/
inductive Tiled (kept : Nat → Option Bytes) (stop : Nat) : Nat → Prop
  | done : Tiled kept stop stop
  | last {position : Nat} {chunk : Bytes} (starts : kept position = some chunk) (ends : position + chunk.length = stop) :
      Tiled kept stop position
  | next {position : Nat} {chunk : Bytes} (starts : kept position = some chunk) (some : chunk ≠ [])
      (alone : ∀ start, position < start → start < position + chunk.length → kept start = none)
      (rest : Tiled kept stop (position + chunk.length)) : Tiled kept stop position

section Encoding

variable {lib : Library} {rest : Bytes}

theorem quicVarint_small {n : UInt8} (small : n.toNat < 64) : quicVarint (n :: rest) = .ok (n.toNat, rest) := by
  simp [quicVarint, Nat.div_eq_of_lt small, Nat.mod_eq_of_lt small]

theorem quicVarint_encode (n : Varint) : quicVarint (n.encode ++ rest) = .ok (n.value, rest) := by
  obtain ⟨width, value, fits⟩ := n
  obtain ⟨k, bytes⟩ : ∃ k, 2 ^ width.val = k + 1 := ⟨2 ^ width.val - 1, by have := Nat.two_pow_pos width.val; omega⟩
  have unit : 2 ^ (8 * 2 ^ width.val - 2) = 256 ^ k * 64 := by
    rw [bytes, show 8 * (k + 1) - 2 = 8 * k + 6 by omega, Nat.pow_add, Nat.pow_mul]
  have positive : 0 < 256 ^ k := Nat.pow_pos (by decide)
  rw [unit] at fits
  have least : value / 256 ^ k < 64 := Nat.div_lt_of_lt_mul fits
  have first : (width.val * (256 ^ k * 64) + value) / 256 ^ k = 64 * width.val + value / 256 ^ k := by
    rw [Nat.mul_left_comm, Nat.mul_add_div positive, Nat.mul_comm]
  have low : (width.val * (256 ^ k * 64) + value) % 256 ^ k = value % 256 ^ k := by
    rw [Nat.mul_left_comm, Nat.mul_add_mod]
  obtain ⟨digit, digit_eq⟩ : ∃ digit, value / 256 ^ k = digit := ⟨_, rfl⟩
  rw [digit_eq] at least first
  have byte : (UInt8.ofNat (64 * width.val + digit)).toNat = 64 * width.val + digit := by
    have := width.isLt
    rw [UInt8.toNat_ofNat']
    exact Nat.mod_eq_of_lt (by omega)
  have head : (64 * width.val + digit) / 64 = width.val := by omega
  have tail : (64 * width.val + digit) % 64 = value / 256 ^ k := by omega
  rw [Varint.encode, unit, bytes, word_cons, List.cons_append, quicVarint, first, byte, head, tail, bytes,
    List.length_append, length_word, if_neg (by omega), Nat.add_sub_cancel, List.take_left' (length_word ..),
    List.drop_left' (length_word ..), foldl_value, length_word, value_word_mod, low, Nat.div_add_mod]

theorem readRanges_encode (ranges : List (Varint × Varint)) :
    readRanges ranges.length (ranges.flatMap (fun range => range.1.encode ++ range.2.encode) ++ rest) =
      .ok (ranges.map fun range => ⟨range.1.value, range.2.value⟩, rest) := by
  induction ranges with
  | nil => rfl
  | cons range ranges ih =>
    rw [List.length_cons, List.flatMap_cons, List.append_assoc, List.append_assoc, readRanges, quicVarint_encode]
    simp only [bind, Except.bind, quicVarint_encode, ih]
    rfl

theorem readFrame_type {frameType : UInt8} (small : frameType.toNat < 64) :
    readFrame lib (frameType :: rest) =
      if frameType.toNat = 0x00 then
        .ok ⟨.padding (1 + (rest.takeWhile (· = 0)).length), none, rest.dropWhile (· = 0)⟩
      else if frameType.toNat = 0x01 then .ok ⟨.ping, none, rest⟩
      else if frameType.toNat = 0x02 ∨ frameType.toNat = 0x03 then readAck (frameType.toNat = 0x03) rest
      else if frameType.toNat = 0x06 then readCrypto rest
      else if frameType.toNat = 0x1c ∨ frameType.toNat = 0x1d then readClose lib (frameType.toNat = 0x1c) rest
      else .ok ⟨.unknown frameType.toNat rest.length, none, []⟩ := by
  rw [readFrame, quicVarint_small small]
  rfl

theorem readAck_encode {largest delay count first : Varint} {ranges : List (Varint × Varint)}
    (ecn : Option (Varint × Varint × Varint)) (counted : count.value = ranges.length) :
    readAck ecn.isSome (largest.encode ++ delay.encode ++ count.encode ++ first.encode ++
        ranges.flatMap (fun range => range.1.encode ++ range.2.encode) ++
        (ecn.elim [] fun (ect0, ect1, ce) => ect0.encode ++ ect1.encode ++ ce.encode) ++ rest) =
      if 64 < count.value then .error "QUIC Initial ACK range budget exceeded"
      else .ok ⟨(Frame.ack largest delay count first ranges ecn).entry, none, rest⟩ := by
  simp only [List.append_assoc, readAck, quicVarint_encode, bind, Except.bind]
  split
  next => rfl
  next =>
    simp only [counted, readRanges_encode, pure, Except.pure]
    cases ecn with
    | none => rfl
    | some counts =>
      simp only [Option.isSome_some, Option.elim_some, List.append_assoc, if_true, readEcn, quicVarint_encode, bind,
        Except.bind, pure, Except.pure]
      rfl

theorem readCrypto_encode {offset length : Varint} {data : Bytes} (counted : length.value = data.length)
    (short : data.length ≤ maxInitialCryptoBytes) :
    readCrypto (offset.encode ++ length.encode ++ data ++ rest) =
      .ok ⟨.crypto offset.value data.length, some (offset.value, data), rest⟩ := by
  have fits : ¬(maxInitialCryptoBytes < data.length ∨ (data ++ rest).length < data.length) := by
    rw [List.length_append]
    omega
  simp only [List.append_assoc, readCrypto, quicVarint_encode, bind, Except.bind, counted, if_neg fits, pure, Except.pure,
    List.take_left, List.drop_left]

/-- A frame in the plaintext is read as the entry for it. -/
theorem readFrame_encode (lib : Library) {frame : Frame} (wellFormed : frame.WellFormed)
    (short : ∀ part, frame.slice? = some part → part.2.length ≤ maxInitialCryptoBytes)
    (apart : frame.isPadding → rest.head? ≠ some 0) :
    (frame.Affordable → readFrame lib (frame.encode ++ rest) = .ok ⟨frame.entry, frame.slice?, rest⟩) ∧
      (¬frame.Affordable → readFrame lib (frame.encode ++ rest) = .error "QUIC Initial ACK range budget exceeded") := by
  cases frame with
  | padding more =>
    have here : (List.replicate more 0 ++ rest).takeWhile (· = (0 : UInt8)) = List.replicate more 0 := by
      rw [List.takeWhile_append_of_pos fun byte mem => decide_eq_true (List.eq_of_mem_replicate mem)]
      cases rest with
      | nil => simp
      | cons byte rest => simp [show byte ≠ 0 from fun same => apart rfl (same ▸ rfl)]
    have behind : (List.replicate more 0 ++ rest).dropWhile (· = (0 : UInt8)) = rest := by
      rw [List.dropWhile_append_of_pos fun byte mem => decide_eq_true (List.eq_of_mem_replicate mem)]
      cases rest with
      | nil => rfl
      | cons byte rest => simp [show byte ≠ 0 from fun same => apart rfl (same ▸ rfl)]
    refine ⟨fun _ => ?_, fun dear => (dear trivial).elim⟩
    rw [Frame.encode, List.replicate_succ, List.cons_append, readFrame_type (by decide), if_pos (by decide), here, behind,
      List.length_replicate, Nat.add_comm]
    rfl
  | ping =>
    refine ⟨fun _ => ?_, fun dear => (dear trivial).elim⟩
    exact (readFrame_type (by decide)).trans rfl
  | ack largest delay count first ranges ecn =>
    have read : readFrame lib ((Frame.ack largest delay count first ranges ecn).encode ++ rest) =
        if 64 < count.value then .error "QUIC Initial ACK range budget exceeded"
        else .ok ⟨(Frame.ack largest delay count first ranges ecn).entry, none, rest⟩ := by
      rw [← readAck_encode ecn wellFormed, Frame.encode, List.cons_append]
      cases ecn with
      | none => exact (readFrame_type (by decide)).trans rfl
      | some counts => exact (readFrame_type (show (0x03 : UInt8).toNat < 64 by decide)).trans rfl
    rw [read]
    exact ⟨fun cheap => if_neg (Nat.not_lt.mpr cheap), fun dear => if_pos (Nat.not_le.mp dear)⟩
  | crypto offset length data =>
    refine ⟨fun _ => ?_, fun dear => (dear trivial).elim⟩
    rw [Frame.encode, List.cons_append, readFrame_type (by decide)]
    exact readCrypto_encode wellFormed (short _ rfl)

end Encoding

section Assembly

variable {chunks : List (Nat × Bytes)} {stream : Bytes}

theorem assemble_stops {offsets : List Nat} {expected : Nat} {assembled : Bytes} (other : offsets.head? ≠ some expected) :
    assemble chunks offsets expected assembled = assembled := by
  cases offsets with
  | nil => rfl
  | cons offset offsets => exact if_pos (.inl fun same => other (congrArg some same))

/-- What is assembled from a position on: it goes up to the end exactly where the chunks are tiled. -/
theorem assemble_take (stop : Nat) (short : stream.length ≤ maxInitialCryptoBytes)
    (sliced : ∀ p chunk, chunks.lookup p = some chunk → chunk <+: stream.drop p)
    (within : ∀ p chunk, p ≤ stop → chunks.lookup p = some chunk → p + chunk.length ≤ stop) (offsets : List Nat) :
    ∀ p ≤ stop, offsets.Pairwise (· < ·) → (∀ offset ∈ offsets, p ≤ offset) →
      (∀ offset, p ≤ offset → ((chunks.lookup offset).isSome ↔ offset ∈ offsets)) →
      ∃ q ≤ stop, assemble chunks offsets p (stream.take p) = stream.take q ∧
        (q = stop ↔ Tiled (chunks.lookup ·) stop p) := by
  induction offsets with
  | nil =>
    intro p le _ _ starts
    refine ⟨p, le, rfl, fun same => same ▸ .done, fun tiled => ?_⟩
    cases tiled with
    | done => rfl
    | last at_p _ => exact absurd ((starts p le_rfl).mp (Option.isSome_iff_exists.mpr ⟨_, at_p⟩)) List.not_mem_nil
    | next at_p _ _ _ => exact absurd ((starts p le_rfl).mp (Option.isSome_iff_exists.mpr ⟨_, at_p⟩)) List.not_mem_nil
  | cons offset offsets ih =>
    intro p le sorted least starts
    obtain ⟨first, sorted⟩ := List.pairwise_cons.mp sorted
    by_cases here : offset = p
    · subst here
      obtain ⟨chunk, at_p⟩ := Option.isSome_iff_exists.mp ((starts offset le_rfl).mpr List.mem_cons_self)
      have part := sliced offset chunk at_p
      have joined : stream.take offset ++ chunk = stream.take (offset + chunk.length) := by
        rw [List.take_add, ← List.prefix_iff_eq_take.mp part]
      have room : ¬(offset ≠ offset ∨ maxInitialCryptoBytes < (stream.take offset).length + chunk.length) := by
        rw [← List.length_append, joined, List.length_take]
        omega
      have step : assemble chunks (offset :: offsets) offset (stream.take offset) =
          assemble chunks offsets (offset + chunk.length) (stream.take (offset + chunk.length)) := by
        simp only [assemble, at_p, Option.getD_some, if_neg room, joined]
      have ends := within offset chunk le at_p
      rw [step]
      by_cases inner : offset < offset + chunk.length ∧ ∀ later ∈ offsets, offset + chunk.length ≤ later
      · have onward : ∀ later, offset + chunk.length ≤ later → ((chunks.lookup later).isSome ↔ later ∈ offsets) := by
          intro later behind
          rw [starts later (by omega), List.mem_cons]
          exact or_iff_right (by omega)
        obtain ⟨q, le, assembled, whole⟩ := ih (offset + chunk.length) ends sorted inner.2 onward
        refine ⟨q, le, assembled, whole.trans ⟨fun rest => ?_, fun tiled => ?_⟩⟩
        · refine .next at_p (List.length_pos_iff.mp (by omega)) (fun start after before => ?_) rest
          rw [← Option.not_isSome_iff_eq_none, starts start (by omega), List.mem_cons, not_or]
          exact ⟨by omega, fun mem => absurd (inner.2 start mem) (by omega)⟩
        · cases tiled with
          | done => omega
          | last at_p' ends' =>
            cases at_p.symm.trans at_p'
            exact ends' ▸ .done
          | next at_p' _ _ rest =>
            cases at_p.symm.trans at_p'
            exact rest
      · have other : offsets.head? ≠ some (offset + chunk.length) := by
          intro head
          obtain ⟨rest, rfl⟩ := List.head?_eq_some_iff.mp head
          have behind := first _ List.mem_cons_self
          refine inner ⟨behind, fun later mem => ?_⟩
          rcases List.mem_cons.mp mem with rfl | mem
          · exact le_rfl
          · exact ((List.pairwise_cons.mp sorted).1 later mem).le
        refine ⟨offset + chunk.length, ends, assemble_stops other, fun same => .last at_p same, fun tiled => ?_⟩
        cases tiled with
        | done => omega
        | last at_p' ends' =>
          cases at_p.symm.trans at_p'
          exact ends'
        | next at_p' some alone _ =>
          cases at_p.symm.trans at_p'
          have positive := List.length_pos_iff.mpr some
          simp only [not_and, not_forall, Nat.not_le] at inner
          obtain ⟨later, mem, before⟩ := inner (by omega)
          have found := (starts later (first later mem).le).mpr (List.mem_cons_of_mem _ mem)
          rw [alone later (first later mem) before] at found
          cases found
    · have absent : chunks.lookup p = none := by
        rw [← Option.not_isSome_iff_eq_none, starts p le_rfl, List.mem_cons, not_or]
        have := least offset List.mem_cons_self
        exact ⟨Ne.symm here, fun mem => absurd (first p mem) (by omega)⟩
      refine ⟨p, le, assemble_stops fun head => here (Option.some.inj head), fun same => same ▸ .done, fun tiled => ?_⟩
      cases tiled with
      | done => rfl
      | last at_p _ => cases absent.symm.trans at_p
      | next at_p _ _ _ => cases absent.symm.trans at_p

end Assembly

section Parsing

variable {lib : Library} {stream : Bytes} {frames : List Frame}

theorem head_encode {frame : Frame} {rest : Bytes} (other : ¬frame.isPadding) : (frame.encode ++ rest).head? ≠ some 0 := by
  cases frame with
  | padding more => exact absurd rfl other
  | ping => exact fun same => by cases same
  | ack largest delay count first ranges ecn => cases ecn <;> exact fun same => by cases same
  | crypto offset length data => exact fun same => by cases same

theorem readFrames_succ {budget : Nat} {plaintext : Bytes} {chunks : List (Nat × Bytes)} (some : plaintext ≠ []) :
    readFrames lib (budget + 1) plaintext chunks = (do
      let turn ← readFrame lib plaintext
      let (frames, chunks) ← readFrames lib budget turn.rest
        (turn.chunk.elim chunks fun chunk => Dict.put chunks chunk.1 chunk.2)
      return (turn.entry :: frames, chunks)) := by
  cases plaintext with
  | nil => exact absurd rfl some
  | cons byte plaintext => rfl

theorem readFrames_encode (lib : Library) (frames : List Frame) : ∀ (budget : Nat) (chunks : List (Nat × Bytes)), frames.length ≤ budget →
    (∀ frame ∈ frames, frame.WellFormed) → (frames.IsChain fun frame next => ¬(frame.isPadding ∧ next.isPadding)) →
    (∀ part ∈ slices frames, part.2.length ≤ maxInitialCryptoBytes) →
      ((∀ frame ∈ frames, frame.Affordable) → readFrames lib budget (frames.flatMap Frame.encode) chunks =
        .ok (frames.map Frame.entry, Dict.merge chunks (slices frames))) ∧
      ((∃ frame ∈ frames, ¬frame.Affordable) →
        ∃ refusal, readFrames lib budget (frames.flatMap Frame.encode) chunks = .error refusal) := by
  induction frames with
  | nil =>
    intro budget chunks _ _ _ _
    refine ⟨fun _ => ?_, fun ⟨_, mem, _⟩ => absurd mem List.not_mem_nil⟩
    cases budget <;> rfl
  | cons frame frames ih =>
    intro budget chunks few wellFormed runs short
    obtain ⟨budget, rfl⟩ : ∃ n, budget = n + 1 := ⟨budget - 1, by simp only [List.length_cons] at few; omega⟩
    have nonempty : frame.encode ++ frames.flatMap Frame.encode ≠ [] := by cases frame <;> simp [Frame.encode, List.replicate_succ]
    have slices_cons : slices (frame :: frames) = frame.slice?.toList ++ slices frames := by
      rw [slices, List.filterMap_cons]
      cases frame.slice? <;> rfl
    have apart : frame.isPadding → (frames.flatMap Frame.encode).head? ≠ some 0 := by
      intro padding
      cases frames with
      | nil => exact nofun
      | cons next frames =>
        exact head_encode fun padding' => (List.isChain_cons_cons.mp runs).1 ⟨padding, padding'⟩
    have read := readFrame_encode lib (wellFormed frame List.mem_cons_self)
      (fun part at_part => short part (by simp [slices_cons, at_part])) apart
    have later := ih budget (frame.slice?.elim chunks fun chunk => Dict.put chunks chunk.1 chunk.2)
      (Nat.le_of_succ_le_succ few) (fun next mem => wellFormed next (List.mem_cons_of_mem _ mem)) runs.tail
      (fun part mem => short part (by simp [slices_cons, mem]))
    have merged : Dict.merge chunks (slices (frame :: frames)) =
        Dict.merge (frame.slice?.elim chunks fun chunk => Dict.put chunks chunk.1 chunk.2) (slices frames) := by
      rw [slices_cons]
      cases frame.slice? <;> rfl
    rw [List.flatMap_cons, readFrames_succ nonempty, merged]
    constructor
    · intro cheap
      rw [read.1 (cheap frame List.mem_cons_self)]
      simp only [bind, Except.bind, later.1 fun next mem => cheap next (List.mem_cons_of_mem _ mem)]
      rfl
    · intro dear
      by_cases cheap : frame.Affordable
      · obtain ⟨next, mem, dear⟩ := dear
        have behind := (List.mem_cons.mp mem).resolve_left fun same => dear (same ▸ cheap)
        obtain ⟨refusal, refused⟩ := later.2 ⟨next, behind, dear⟩
        exact ⟨refusal, by simp only [read.1 cheap, bind, Except.bind, refused]⟩
      · exact ⟨_, by rw [read.2 cheap]; rfl⟩

theorem mem_of_kept {position : Nat} {chunk : Bytes} (found : kept frames position = some chunk) :
    (position, chunk) ∈ slices frames := by
  obtain ⟨before, after, split, -⟩ := List.lookup_eq_some_iff.mp found
  rw [← List.mem_reverse, split]
  exact List.mem_append_right _ List.mem_cons_self

theorem Sent.within (sent : Sent stream frames) {part : Nat × Bytes} (mem : part ∈ slices frames) (some : 0 < part.2.length) :
    part.1 + part.2.length ≤ stream.length := by
  have := (sent.sliced part mem).length_le
  rw [List.length_drop] at this
  omega

theorem Sent.covers_le (sent : Sent stream frames) {n : Nat} (covers : Covers frames n) : n ≤ stream.length := by
  by_contra longer
  obtain ⟨part, mem, from_part, to_part⟩ := covers.1 (n - 1) (by omega)
  have := sent.within mem (by omega)
  omega

/-- The frames of an Initial packet are read one by one and the longest prefix of the stream that they cover is put together,
exactly where no ACK frame is beyond the budget and the prefix is tiled by the slices that are kept. -/
theorem reassembles_iff (sent : Sent stream frames) :
    (∃ assembled, parseInitialFrames lib (frames.flatMap Frame.encode) = .ok (frames.map Frame.entry, assembled) ∧
        ∃ n, assembled = stream.take n ∧ Covers frames n) ↔
      (∀ frame ∈ frames, frame.Affordable) ∧ ∃ n, Covers frames n ∧ Tiled (kept frames) n 0 := by
  have small : ∀ part ∈ slices frames, part.2.length ≤ maxInitialCryptoBytes := fun part mem => by
    have := (sent.sliced part mem).length_le
    rw [List.length_drop] at this
    exact this.trans ((Nat.sub_le ..).trans sent.short)
  obtain ⟨read, refused⟩ := readFrames_encode lib frames maxInitialFrames [] sent.few sent.wellFormed sent.runs small
  by_cases cheap : ∀ frame ∈ frames, frame.Affordable
  · obtain ⟨chunks, chunks_eq⟩ : ∃ chunks, Dict.merge [] (slices frames) = chunks := ⟨_, rfl⟩
    have looked : ∀ p, chunks.lookup p = kept frames p := fun p => by
      rw [← chunks_eq, Dict.lookup_merge_reverse, kept, List.lookup_nil, Option.or_none]
    have parsed : parseInitialFrames lib (frames.flatMap Frame.encode) =
        .ok (frames.map Frame.entry, assemble chunks ((Dict.keys chunks).insertionSort (· ≤ ·)) 0 []) := by
      rw [parseInitialFrames, read cheap, chunks_eq]
      rfl
    have put_together {n : Nat} (covers : Covers frames n) :
        ∃ q ≤ n, assemble chunks ((Dict.keys chunks).insertionSort (· ≤ ·)) 0 [] = stream.take q ∧
          (q = n ↔ Tiled (kept frames) n 0) := by
      have nodup : (Dict.keys chunks).Nodup := chunks_eq ▸ Dict.nodup_merge List.nodup_nil
      have sorted : ((Dict.keys chunks).insertionSort (· ≤ ·)).Pairwise (· < ·) :=
        ((List.pairwise_insertionSort (· ≤ ·) _).and ((List.perm_insertionSort (· ≤ ·) _).nodup_iff.mpr nodup)).imp
          fun ⟨le, ne⟩ => lt_of_le_of_ne le ne
      have found := assemble_take n sent.short (fun p chunk at_p => sent.sliced _ (mem_of_kept (looked p ▸ at_p)))
        (fun p chunk le at_p => by
          by_contra beyond
          exact covers.2 ⟨_, mem_of_kept (looked p ▸ at_p), le, Nat.not_le.mp beyond⟩)
        _ 0 (Nat.zero_le n) sorted (fun _ _ => Nat.zero_le _) fun offset _ => by
          rw [List.mem_insertionSort, ← not_iff_not, Option.not_isSome_iff_eq_none]
          exact Dict.lookup_eq_none_iff
      simp only [looked] at found
      exact found
    constructor
    · rintro ⟨assembled, result, n, rfl, covers⟩
      obtain ⟨q, le, together, whole⟩ := put_together covers
      have long := sent.covers_le covers
      have same := congrArg List.length ((Prod.mk.inj (Except.ok.inj (result.symm.trans parsed))).2.trans together)
      rw [List.length_take, List.length_take] at same
      exact ⟨cheap, n, covers, whole.mp (by omega)⟩
    · rintro ⟨-, n, covers, tiled⟩
      obtain ⟨q, -, together, whole⟩ := put_together covers
      exact ⟨_, parsed, n, whole.mpr tiled ▸ together, covers⟩
  · refine iff_of_false ?_ fun both => cheap both.1
    rintro ⟨assembled, result, -⟩
    simp only [not_forall] at cheap
    obtain ⟨frame, mem, dear⟩ := cheap
    obtain ⟨refusal, failed⟩ := refused ⟨frame, mem, dear⟩
    rw [parseInitialFrames, failed] at result
    cases result

end Parsing

section Samples

def sampleLibrary : Library where
  decodeUtf8 bytes := String.ofList (bytes.map fun byte => Char.ofNat byte.toNat)

/-- A CRYPTO frame with its numbers in one byte each. -/
def cryptoFrame (offset : Nat) (data : Bytes) (near : offset < 64) (short : data.length < 64) : Frame :=
  .crypto ⟨0, offset, near⟩ ⟨0, data.length, short⟩ data

def shuffledFrames : List Frame :=
  [cryptoFrame 1 [2, 3] (by decide) (by decide), .padding 2, cryptoFrame 0 [1] (by decide) (by decide)]

def overlappingFrames : List Frame :=
  [cryptoFrame 0 [1, 2] (by decide) (by decide), cryptoFrame 1 [2, 3] (by decide) (by decide)]

theorem reassembles_shuffled :
    ∃ assembled, parseInitialFrames sampleLibrary (shuffledFrames.flatMap Frame.encode) =
        .ok (shuffledFrames.map Frame.entry, assembled) ∧
      ∃ n, assembled = [1, 2, 3].take n ∧ Covers shuffledFrames n := by
  have sent : Sent [1, 2, 3] shuffledFrames := by
    refine ⟨by decide, by decide, ?_, ?_, by decide⟩
    · simp [shuffledFrames, cryptoFrame, Frame.WellFormed]
    · simp [shuffledFrames, cryptoFrame, Frame.isPadding]
  have covers : Covers shuffledFrames 3 := by
    refine ⟨fun i below => ?_, fun ⟨part, mem, _, beyond⟩ => ?_⟩
    · rcases Nat.eq_zero_or_pos i with rfl | later
      · exact ⟨(0, [1]), by decide, by decide, by decide⟩
      · exact ⟨(1, [2, 3]), by decide, later, below⟩
    · exact absurd beyond ((by decide : ∀ part ∈ slices shuffledFrames, ¬3 < part.1 + part.2.length) part mem)
  refine (reassembles_iff sent).mpr ⟨?_, 3, covers, ?_⟩
  · simp [shuffledFrames, cryptoFrame, Frame.Affordable]
  · exact .next (show kept shuffledFrames 0 = some [1] by decide) (by decide) (fun _ after before => by simp at before; omega)
      (.last (show kept shuffledFrames 1 = some [2, 3] by decide) rfl)

theorem overlap_lost :
    Sent [1, 2, 3] overlappingFrames ∧
      ¬∃ assembled, parseInitialFrames sampleLibrary (overlappingFrames.flatMap Frame.encode) =
          .ok (overlappingFrames.map Frame.entry, assembled) ∧
        ∃ n, assembled = [1, 2, 3].take n ∧ Covers overlappingFrames n := by
  constructor
  · refine ⟨by decide, by decide, ?_, ?_, by decide⟩
    · simp [overlappingFrames, cryptoFrame, Frame.WellFormed]
    · simp [overlappingFrames, cryptoFrame, Frame.isPadding]
  · rintro ⟨assembled, parsed, n, same, -, uncovered⟩
    have read : parseInitialFrames sampleLibrary (overlappingFrames.flatMap Frame.encode) =
        .ok (overlappingFrames.map Frame.entry, [1, 2]) := by rfl
    have two := congrArg List.length ((Prod.mk.inj (Except.ok.inj (read.symm.trans parsed))).2.trans same)
    rw [List.length_take] at two
    obtain rfl : n = 2 := by simp at two; omega
    exact uncovered ⟨(1, [2, 3]), by decide, by decide, by decide⟩

end Samples

end Arenyxa.Capture.Quic
