import Arenyxa.Capture.Message
import Arenyxa.Lib.Words

/-! The decoder of an identified WebSocket frame stream. -/

namespace Arenyxa.Capture.WebSocket

open Words

def maxFrames : Nat := 4096

def maxPayloadBytes : Nat := 64 * 1024 * 1024

/-- `_OPCODES` -/
def opcodeNames : List (Nat × String) :=
  [(0x0, "continuation"), (0x1, "text"), (0x2, "binary"), (0x8, "close"), (0x9, "ping"), (0xA, "pong")]

def typeName (opcode : Nat) : String :=
  (opcodeNames.lookup opcode).getD ("reserved-0x" ++ String.ofList (Nat.toDigits 16 opcode))

/-- The `reason` of a frame that is not decoded. -/
inductive Reason
  | extendedLength16
  | extendedLength64
  | invalid64BitLength
  | payloadBudget
  | maskKey
  | payload

inductive ProtocolError
  | reservedBitsWithoutNegotiatedExtension
  | invalidControlFrame
  | invalidClosePayload
  | newDataFrameDuringFragmentation
  | continuationWithoutStart
  | fragmentedMessageBudget
  | reservedOpcode

/-- The row of a decoded frame. -/
structure FrameRow where
  offset : Nat
  fin : Bool
  rsvBits : Nat
  opcode : Nat
  type : String
  masked : Bool
  payloadLength : Nat
  payloadSha256 : String
  protocolError : Option ProtocolError := none
  /-- `close_code` and `close_reason_bytes` -/
  close : Option (Nat × Nat) := none
  /-- `message_opcode` and `message_accumulated_bytes` -/
  message : Option (Nat × Nat) := none

inductive Row
  | frame (row : FrameRow)
  /-- `truncated`, without a whole header -/
  | headless (offset remaining : Nat)
  | truncated (offset : Nat) (reason : Reason) (payloadLength : Option Nat)
  | malformed (offset : Nat) (reason : Reason) (payloadLength : Option Nat)

/-- `raw[start:start + length]` -/
def slice (raw : Bytes) (start length : Nat) : Bytes := (raw.drop start).take length

def payloadLength (raw : Bytes) (cursor : Nat) (second : UInt8) : Nat × Nat × Option Reason :=
  let length := (second &&& 0x7F).toNat
  if length = 126 then
    if raw.length < cursor + 2 then (0, cursor, some .extendedLength16)
    else (value (slice raw cursor 2), cursor + 2, none)
  else if length = 127 then
    if raw.length < cursor + 8 then (0, cursor, some .extendedLength64)
    else
      let length := value (slice raw cursor 8)
      if 2 ^ 63 ≤ length then (length, cursor + 8, some .invalid64BitLength)
      else (length, cursor + 8, none)
  else (length, cursor, none)

/-- `byte ^ mask[index % 4]` at every index -/
def unmask (mask payload : Bytes) : Bytes := payload.mapIdx fun i b => b ^^^ mask.getD (i % 4) 0

def framePayload (raw : Bytes) (cursor length : Nat) (masked unmaskPayload : Bool) :
    Bytes × Nat × Option Reason :=
  if masked = true ∧ raw.length < cursor + 4 then ([], cursor, some .maskKey)
  else
    let mask := if masked then slice raw cursor 4 else []
    let cursor := if masked then cursor + 4 else cursor
    if raw.length < cursor + length then ([], cursor, some .payload)
    else
      let payload := slice raw cursor length
      (if masked && unmaskPayload then unmask mask payload else payload, cursor + length, none)

/-- The opcode of the open message, if any, and the bytes it has so far. -/
abbrev Fragments := Option Nat × Nat

def fragmentState (row : FrameRow) (opcode : Nat) (fin : Bool) (length : Nat) (current : Fragments) :
    FrameRow × Fragments :=
  if opcode = 0x1 ∨ opcode = 0x2 then
    if current.1.isSome then
      ({ row with protocolError := some .newDataFrameDuringFragmentation }, current)
    else if fin then (row, current)
    else (row, (some opcode, length))
  else if opcode = 0x0 then
    match current.1 with
    | none => ({ row with protocolError := some .continuationWithoutStart }, current)
    | some active =>
      let total := current.2 + length
      let row := { row with message := some (active, total) }
      if maxPayloadBytes < total then
        ({ row with protocolError := some .fragmentedMessageBudget }, (none, 0))
      else if fin then (row, (none, 0))
      else (row, (some active, total))
  else if (opcodeNames.lookup opcode).isNone then
    ({ row with protocolError := some .reservedOpcode }, current)
  else (row, current)

structure Decoded where
  row : Row
  cursor : Nat
  fragments : Fragments
  stop : Bool

/-- The row of a frame with its payload, before the state of fragmentation is known. -/
def frameRow (hexdigest : Bytes → String) (offset : Nat) (fin : Bool) (rsv opcode : Nat) (masked : Bool)
    (length : Nat) (logical : Bytes) : FrameRow where
  offset := offset
  fin := fin
  rsvBits := rsv
  opcode := opcode
  type := typeName opcode
  masked := masked
  payloadLength := length
  payloadSha256 := hexdigest logical
  protocolError :=
    if opcode = 0x8 ∧ length = 1 then some .invalidClosePayload
    else if 0x8 ≤ opcode ∧ (fin = false ∨ 125 < length) then some .invalidControlFrame
    else if rsv ≠ 0 then some .reservedBitsWithoutNegotiatedExtension
    else none
  close :=
    if opcode = 0x8 ∧ 2 ≤ logical.length then some (value (logical.take 2), logical.length - 2) else none

def decodeFrame (hexdigest : Bytes → String) (raw : Bytes) (start : Nat) (fragments : Fragments)
    (unmaskPayload : Bool) : Decoded :=
  if raw.length < start + 2 then ⟨.headless start (raw.length - start), start, fragments, true⟩
  else
    let first := raw.getD start 0
    let second := raw.getD (start + 1) 0
    let fin : Bool := first &&& 0x80 ≠ 0
    let rsv := ((first >>> 4) &&& 0x07).toNat
    let opcode := (first &&& 0x0F).toNat
    let masked : Bool := second &&& 0x80 ≠ 0
    match payloadLength raw (start + 2) second with
    | (_, cursor, some .invalid64BitLength) =>
      ⟨.malformed start .invalid64BitLength none, cursor, fragments, true⟩
    | (_, cursor, some reason) => ⟨.truncated start reason none, cursor, fragments, true⟩
    | (length, cursor, none) =>
      if maxPayloadBytes < length then
        ⟨.malformed start .payloadBudget (some length), cursor, fragments, true⟩
      else
        match framePayload raw cursor length masked unmaskPayload with
        | (_, cursor, some reason) => ⟨.truncated start reason (some length), cursor, fragments, true⟩
        | (logical, cursor, none) =>
          let row := frameRow hexdigest start fin rsv opcode masked length logical
          let (row, fragments) := fragmentState row opcode fin length fragments
          ⟨.frame row, cursor, fragments, false⟩

structure Progress where
  cursor : Nat := 0
  frames : List Row := []
  fragments : Fragments := (none, 0)

/-- At most so many rounds of the decoder's loop. -/
def decodeFrames (hexdigest : Bytes → String) (raw : Bytes) (unmaskPayload : Bool) :
    Nat → Progress → Progress
  | 0, s => s
  | rounds + 1, s =>
    if raw.length ≤ s.cursor then s
    else
      let d := decodeFrame hexdigest raw s.cursor s.fragments unmaskPayload
      let s := ⟨d.cursor, s.frames ++ [d.row], d.fragments⟩
      if d.stop then s else decodeFrames hexdigest raw unmaskPayload rounds s

structure StreamRows where
  frameCount : Nat
  frames : List Row
  bytesConsumed : Nat
  bytesTotal : Nat
  fragmentationOpen : Bool

/-- `decode_websocket_stream` -/
def decodeStream (hexdigest : Bytes → String) (raw : Bytes) (unmaskPayload : Bool := true) : StreamRows :=
  let s := decodeFrames hexdigest raw unmaskPayload maxFrames {}
  ⟨s.frames.length, s.frames, s.cursor, raw.length, s.fragments.1.isSome⟩

end Arenyxa.Capture.WebSocket
