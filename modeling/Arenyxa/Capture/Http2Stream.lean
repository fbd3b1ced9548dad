import Arenyxa.Capture.Message
import Arenyxa.Lib.Dict
import Arenyxa.Lib.History
import Arenyxa.Lib.Records
import Arenyxa.Lib.Words

/-! The decoder of one direction of an HTTP/2 connection, and the gRPC messages of its streams. -/

namespace Arenyxa.Capture.Http2

open Outcome History Words Records Dict

def maxFrameBytes : Nat := 16 * 1024 * 1024
def maxFrames : Nat := 4096
def maxHeaderBlock : Nat := 512 * 1024
def maxHeaderList : Nat := 128 * 1024
def maxHeaders : Nat := 256
def maxGrpcMessages : Nat := 512
def maxGrpcMessageBytes : Nat := 64 * 1024 * 1024
def maxReassemblyBytes : Nat := 64 * 1024 * 1024

/-- The HPACK decoder with its table, and what is taken from the library for texts and digests. An
error of `decode` is a `ValueError` or `TypeError`. -/
structure Http2Library (σ : Type) where
  empty : σ
  decode : σ → Bytes → Except String (List (Bytes × Bytes)) × σ
  decodeUtf8 : Bytes → String
  casefold : String → String
  strip : String → String
  hexdigest : Bytes → String

structure GrpcMessage where
  compressed : Bool
  length : Nat
  sha256 : String

structure Frame where
  offset : Nat
  typeId : Nat
  flags : UInt8
  streamId : Nat
  payload : Bytes

structure FrameRow where
  typeId : Nat
  flags : UInt8
  streamId : Nat
  length : Nat
  offset : Nat
  /-- Of the fields before a header block. -/
  metadata : List (String × Nat) := []
  headers : Option (List (String × String)) := none
  continuedHeaders : Option (List (String × String)) := none
  protocolError : Option String := none
  decodeError : Option String := none
  /-- `grpc_messages` and `grpc_pending_bytes` -/
  grpc : Option (List GrpcMessage × Nat) := none
  dohBodyBytes : Option Nat := none

inductive Row
  | frame (row : FrameRow)
  | truncated (offset remaining : Nat)
  | malformed (typeId offset declaredLength remaining : Nat)

structure StreamSummary where
  streamId : Nat
  grpc : Bool := false
  doh : Bool := false
  contentType : String := ""
  grpcMessageCount : Nat := 0
  grpcPayloadBytes : Nat := 0
  grpcPendingBytes : Nat := 0
  dohBodyBytes : Nat := 0

structure State (σ : Type) where
  decoder : σ
  frames : List Row
  streamHeaders : List (Nat × List (String × String))
  streamSummaries : List (Nat × StreamSummary)
  grpcBuffers : List (Nat × Bytes)
  dohBuffers : List (Nat × Bytes)
  reassemblyBytes : Int
  pendingStream : Nat
  pendingBlock : Bytes

def clip (n : Nat) (text : String) : String := String.ofList (text.toList.take n)

/-- The padding and the priority fields are cut off a header frame. -/
def headerBlockFragment (frameType : Nat) (flags : UInt8) (payload : Bytes) :
    Except String (Bytes × List (String × Nat)) := do
  let padded := flags &&& 0x08 ≠ 0
  require (padded → payload ≠ []) "HTTP/2 padded frame is missing pad length"
  let padLength := if padded then (payload.headD 0).toNat else 0
  let cursor := if padded then 1 else 0
  let field := value ((payload.drop cursor).take 4)
  let priority := frameType = 0x1 ∧ flags &&& 0x20 ≠ 0
  require (priority → cursor + 5 ≤ payload.length) "HTTP/2 HEADERS priority section is truncated"
  require (¬priority ∧ frameType = 0x5 → cursor + 4 ≤ payload.length) "HTTP/2 PUSH_PROMISE is truncated"
  let metadata :=
    if priority then [("exclusive", field / 2 ^ 31), ("stream_dependency", field % 2 ^ 31),
      ("weight", ((payload.drop (cursor + 4)).headD 0).toNat + 1)]
    else if frameType = 0x5 then [("promised_stream_id", field % 2 ^ 31)]
    else []
  let cursor := if priority then cursor + 5 else if frameType = 0x5 then cursor + 4 else cursor
  require (cursor + padLength ≤ payload.length) "HTTP/2 padding exceeds frame payload"
  let fragment := (payload.take (payload.length - padLength)).drop cursor
  require (fragment.length ≤ maxHeaderBlock) "HTTP/2 header block fragment exceeds safety bound"
  return (fragment, metadata ++ [("padding_length", padLength)])

variable {σ : Type} (lib : Http2Library σ)

def decodeHpack (decoder : σ) (block : Bytes) : Except String (List (String × String)) × σ :=
  if block.length > maxHeaderBlock then (.error "HTTP/2 HPACK block exceeds safety bound", decoder)
  else match lib.decode decoder block with
    | (.error e, decoder) => (.error e, decoder)
    | (.ok raw, decoder) =>
      if raw.length > maxHeaders then (.error "HTTP/2 header count exceeds safety bound", decoder)
      else
        let rows := raw.map fun (name, value) =>
          (clip 512 (lib.decodeUtf8 name), clip 8192 (lib.decodeUtf8 value))
        if (rows.map fun (name, value) => name.utf8ByteSize + value.utf8ByteSize).sum > maxHeaderList then
          (.error "HTTP/2 decoded header list exceeds safety bound", decoder)
        else (.ok rows, decoder)

def dataFragment (flags : UInt8) (payload : Bytes) : Except String Bytes :=
  if flags &&& 0x08 = 0 then .ok payload
  else match payload with
    | [] => .error "HTTP/2 padded DATA frame is missing pad length"
    | pad :: rest =>
      if pad.toNat > rest.length then .error "HTTP/2 DATA padding exceeds payload"
      else .ok (rest.take (rest.length - pad.toNat))

/-- `_consume_grpc_buffer`, with so many more messages to come. -/
def consumeGrpcBuffer : Nat → Bytes → Except String (List GrpcMessage × Bytes)
  | 0, buffer => .ok ([], buffer)
  | rows + 1, buffer =>
    if 5 ≤ buffer.length then
      let compressed := buffer.headD 0
      let length := value ((buffer.drop 1).take 4)
      if compressed ∉ [0, 1] ∨ length > maxGrpcMessageBytes then
        .error "invalid or oversized gRPC message envelope"
      else if buffer.length < 5 + length then .ok ([], buffer)
      else
        let message := (buffer.drop 5).take length
        (consumeGrpcBuffer rows (buffer.drop (5 + length))).map fun rest =>
          (⟨compressed ≠ 0, length, lib.hexdigest message⟩ :: rest.1, rest.2)
    else .ok ([], buffer)

/-- `content_type.casefold().split(";", 1)[0].strip()` -/
def mediaType (contentType : String) : String :=
  lib.strip (String.ofList ((lib.casefold contentType).toList.takeWhile (· ≠ ';')))

def isGrpc (text : String) : Bool := "application/grpc".toList.isPrefixOf text.toList

def contentType (headers : List (String × String)) : String :=
  (headers.lookup "content-type").getD ""

namespace State

variable {lib} (s : State σ)

def start (lib : Http2Library σ) : State σ := ⟨lib.empty, [], [], [], [], [], 0, 0, []⟩

def summary (k : Nat) : StreamSummary := (s.streamSummaries.lookup k).getD { streamId := k }

variable (lib)

/-- A header block is complete. -/
def blockEnds (k : Nat) (block : Bytes) (row : FrameRow)
    (put_headers : FrameRow → List (String × String) → FrameRow) : State σ × FrameRow :=
  match decodeHpack lib s.decoder block with
  | (.error e, decoder) =>
    ({ s with decoder := decoder, pendingStream := 0, pendingBlock := [] },
      { row with decodeError := some (clip 256 e) })
  | (.ok headers, decoder) =>
    let normalized := headers.foldl (fun d item => put d (lib.casefold item.1) item.2) []
    let summary := s.summary k
    let summary :=
      if isGrpc (lib.casefold (contentType normalized)) then
        { summary with grpc := true, contentType := contentType normalized }
      else if mediaType lib (contentType normalized) = "application/dns-message" then
        { summary with doh := true, contentType := contentType normalized }
      else summary
    ({ s with
        decoder := decoder
        streamHeaders := put s.streamHeaders k normalized
        streamSummaries := put s.streamSummaries k summary
        pendingStream := 0
        pendingBlock := [] },
      put_headers row headers)

def headers (f : Frame) (row : FrameRow) : State σ × FrameRow :=
  if f.streamId = 0 then (s, { row with protocolError := some "header-frame-on-stream-zero" })
  else if s.pendingStream ≠ 0 then (s, { row with protocolError := some "header-block-interleaving" })
  else match headerBlockFragment f.typeId f.flags f.payload with
    | .error e =>
      ({ s with pendingStream := 0, pendingBlock := [] }, { row with decodeError := some (clip 256 e) })
    | .ok (fragment, metadata) =>
      let row := { row with metadata := metadata }
      if f.flags &&& 0x04 ≠ 0 then
        s.blockEnds lib f.streamId (s.pendingBlock ++ fragment) row fun row headers =>
          { row with headers := some headers }
      else
        ({ s with pendingStream := f.streamId, pendingBlock := s.pendingBlock ++ fragment }, row)

def continuation (f : Frame) (row : FrameRow) : State σ × FrameRow :=
  if s.pendingStream = 0 ∨ s.pendingStream ≠ f.streamId then
    (s, { row with protocolError := some "unexpected-continuation" })
  else if s.pendingBlock.length + f.payload.length > maxHeaderBlock then
    ({ s with pendingStream := 0, pendingBlock := [] },
      { row with decodeError := some "HTTP/2 continued header block exceeds safety bound" })
  else if f.flags &&& 0x04 ≠ 0 then
    s.blockEnds lib f.streamId (s.pendingBlock ++ f.payload) row fun row headers =>
      { row with continuedHeaders := some headers }
  else ({ s with pendingBlock := s.pendingBlock ++ f.payload }, row)

def grpcBuffer (k : Nat) : Bytes := (s.grpcBuffers.lookup k).getD []

def dohBuffer (k : Nat) : Bytes := (s.dohBuffers.lookup k).getD []

/-- The size bounds for a part of a gRPC stream. -/
def Fits (k : Nat) (body : Bytes) : Prop :=
  (s.grpcBuffer k).length + body.length ≤ maxGrpcMessageBytes + 5 ∧
    s.reassemblyBytes + body.length ≤ maxReassemblyBytes

instance (k : Nat) (body : Bytes) : Decidable (s.Fits k body) := inferInstanceAs (Decidable (_ ∧ _))

def grpcData (k : Nat) (body : Bytes) (row : FrameRow) : State σ × FrameRow :=
  let buffer := s.grpcBuffer k
  if s.Fits k body then
    let (error, messages, rest) :=
      match consumeGrpcBuffer lib maxGrpcMessages (buffer ++ body) with
      | .ok (messages, rest) => (row.decodeError, messages, rest)
      | .error e => (some (clip 256 e), [], [])
    let summary := (s.streamSummaries.lookup k).getD { streamId := k, grpc := true }
    ({ s with
        grpcBuffers := put s.grpcBuffers k rest
        reassemblyBytes := s.reassemblyBytes + rest.length - buffer.length
        streamSummaries := put s.streamSummaries k { summary with
          grpcMessageCount := summary.grpcMessageCount + messages.length
          grpcPayloadBytes := summary.grpcPayloadBytes + (messages.map GrpcMessage.length).sum
          grpcPendingBytes := rest.length } },
      { row with decodeError := error, grpc := some (messages, rest.length) })
  else
    ({ s with
        grpcBuffers := put s.grpcBuffers k []
        reassemblyBytes := s.reassemblyBytes - buffer.length },
      { row with decodeError := some "gRPC reassembly buffer exceeds safety bound" })

def dohData (k : Nat) (flags : UInt8) (body : Bytes) (row : FrameRow) : State σ × FrameRow :=
  let buffer := s.dohBuffer k
  if buffer.length + body.length > 65535 ∨ s.reassemblyBytes + body.length > maxReassemblyBytes then
    ({ s with
        dohBuffers := put s.dohBuffers k []
        reassemblyBytes := s.reassemblyBytes - buffer.length },
      { row with decodeError := some "DoH DNS body exceeds 65535-byte wire-format limit" })
  else
    let filled := buffer ++ body
    let summary := (s.streamSummaries.lookup k).getD { streamId := k, doh := true }
    -- The last frame of a message hands its body to the DNS decoder and empties the buffer.
    let kept := if flags &&& 0x01 ≠ 0 ∧ filled ≠ [] then [] else filled
    ({ s with
        dohBuffers := put s.dohBuffers k kept
        reassemblyBytes := s.reassemblyBytes + body.length - (filled.length - kept.length)
        streamSummaries := put s.streamSummaries k { summary with dohBodyBytes := filled.length } },
      { row with dohBodyBytes := some filled.length })

/-- The media type that decides how the data of a stream is read. -/
def dataType (k : Nat) : String := mediaType lib (contentType ((s.streamHeaders.lookup k).getD []))

def data (f : Frame) (row : FrameRow) : State σ × FrameRow :=
  let (row, body) := match dataFragment f.flags f.payload with
    | .ok body => (row, body)
    | .error e => ({ row with decodeError := some (clip 256 e) }, [])
  if isGrpc (s.dataType lib f.streamId) then s.grpcData lib f.streamId body row
  else if s.dataType lib f.streamId = "application/dns-message" then
    s.dohData f.streamId f.flags body row
  else (s, row)

def step (f : Frame) : State σ :=
  let row : FrameRow := {
    typeId := f.typeId
    flags := f.flags
    streamId := f.streamId
    length := f.payload.length
    offset := f.offset }
  let (s, row) :=
    if f.typeId = 0x1 ∨ f.typeId = 0x5 then s.headers lib f row
    else if f.typeId = 0x9 then s.continuation lib f row
    else if f.typeId = 0x0 then s.data lib f row
    -- The other types only add fields to their row.
    else (s, row)
  { s with frames := s.frames ++ [.frame row] }

end State

/-- `raw[start:start + length]` -/
def slice (raw : Bytes) (start length : Nat) : Bytes := (raw.drop start).take length

/-- The frame at the cursor, behind its header of nine bytes. -/
def frameAt (raw : Bytes) (cursor : Nat) : Frame where
  offset := cursor
  typeId := (raw.getD (cursor + 3) 0).toNat
  flags := raw.getD (cursor + 4) 0
  streamId := value (slice raw (cursor + 5) 4) % 2 ^ 31
  payload := slice raw (cursor + 9) (value (slice raw cursor 3))

/-- At most so many rounds of the decoder's loop. -/
def rounds (raw : Bytes) : Nat → Nat → State σ → Nat × State σ
  | 0, cursor, s => (cursor, s)
  | n + 1, cursor, s =>
    if raw.length ≤ cursor then (cursor, s)
    else if raw.length < cursor + 9 then
      (cursor, { s with frames := s.frames ++ [.truncated cursor (raw.length - cursor)] })
    else
      let length := value (slice raw cursor 3)
      if length > maxFrameBytes ∨ raw.length < cursor + 9 + length then
        (cursor + 9, { s with frames := s.frames ++
          [.malformed (frameAt raw cursor).typeId cursor length (raw.length - (cursor + 9))] })
      else rounds raw n (cursor + 9 + length) (s.step lib (frameAt raw cursor))

/-- `b"PRI * HTTP/2.0\r\n\r\nSM\r\n\r\n"` -/
def preface : Bytes := ascii "PRI * HTTP/2.0" ++ headEnd ++ ascii "SM" ++ headEnd

structure Decoded where
  clientPreface : Bool
  bytesConsumed : Nat
  bytesTotal : Nat
  frames : List Row
  streams : List StreamSummary
  pendingHeaderStream : Nat
  pendingGrpcStreams : List (Nat × Nat)
  pendingDohStreams : List (Nat × Nat)
  pendingReassemblyBytes : Int

/-- The sizes of the buffers that hold something. -/
def pendingSizes (buffers : List (Nat × Bytes)) : List (Nat × Nat) :=
  (buffers.filter fun item => item.2 ≠ []).map fun item => (item.1, item.2.length)

def firstFrame (raw : Bytes) : Nat := if preface.isPrefixOf raw then 24 else 0

def decodeHttp2Stream (raw : Bytes) : Decoded :=
  let (cursor, s) := rounds lib raw maxFrames (firstFrame raw) (.start lib)
  { clientPreface := preface.isPrefixOf raw
    bytesConsumed := cursor
    bytesTotal := raw.length
    frames := s.frames
    streams := (s.streamSummaries.map Prod.snd).mergeSort fun a b => a.streamId ≤ b.streamId
    pendingHeaderStream := s.pendingStream
    pendingGrpcStreams := pendingSizes s.grpcBuffers
    pendingDohStreams := pendingSizes s.dohBuffers
    pendingReassemblyBytes := s.reassemblyBytes }

section Envelopes

/-- The size of an envelope, once its five bytes are there. -/
def envelopeSize (l : Bytes) : Option Nat :=
  if 5 ≤ l.length then some (5 + value ((l.drop 1).take 4)) else none

/-- The row of a whole envelope. -/
def message (envelope : Bytes) : GrpcMessage :=
  ⟨envelope.headD 0 ≠ 0, envelope.length - 5, lib.hexdigest (envelope.drop 5)⟩

/-- So many heads at the front of a buffer, as far as they are there, have a flag and a length that
gRPC allows. -/
def WellFormed : Nat → Bytes → Prop
  | 0, _ => True
  | k + 1, l => 5 ≤ l.length →
    (l.headD 0 ∈ ([0, 1] : Bytes) ∧ value ((l.drop 1).take 4) ≤ maxGrpcMessageBytes) ∧
      (5 + value ((l.drop 1).take 4) ≤ l.length → WellFormed k (l.drop (5 + value ((l.drop 1).take 4))))

theorem envelopeSize_headed : Headed envelopeSize where
  stable l m n head := by
    rw [envelopeSize] at head
    split at head
    next whole =>
      have longer : 5 ≤ (l ++ m).length := by
        rw [List.length_append]
        omega
      rw [envelopeSize, if_pos longer, ← head, List.drop_append_of_le_length (by omega),
        List.take_append_of_le_length (by rw [List.length_drop]; omega)]
    next => cases head
  pos l n head := by
    rw [envelopeSize] at head
    split at head
    next =>
      cases head
      omega
    next => cases head

variable {lib} {k : Nat} {l : Bytes}

theorem consume_ok (fine : WellFormed k l) : consumeGrpcBuffer lib k l =
    .ok ((cut envelopeSize k l).1.map (message lib), (cut envelopeSize k l).2) := by
  fun_induction consumeGrpcBuffer lib k l with
  | case1 => rfl
  | case2 k l head compressed length bad =>
    obtain ⟨⟨flag, short⟩, -⟩ := fine head
    rcases bad with bad | bad
    · exact absurd flag bad
    · exact absurd short (Nat.not_le.mpr bad)
  | case3 k l head compressed length good part =>
    have uncut : ¬ 5 + value ((l.drop 1).take 4) ≤ l.length := Nat.not_le.mpr part
    rw [cut, envelopeSize, if_pos head]
    simp only [if_neg uncut, List.map_nil]
  | case4 k l head compressed length good whole payload ih =>
    have room : 5 + value ((l.drop 1).take 4) ≤ l.length := Nat.le_of_not_lt whole
    have row : message lib (l.take (5 + length)) = ⟨compressed ≠ 0, length, lib.hexdigest payload⟩ := by
      have first : (l.take (5 + length)).headD 0 = l.headD 0 := by
        cases l with
        | nil => rfl
        | cons b l => rw [Nat.add_comm, List.take_succ_cons]; rfl
      have long : (l.take (5 + length)).length = 5 + length := List.length_take_of_le room
      rw [message, first, long, List.drop_take, Nat.add_sub_cancel_left]
    rw [ih ((fine head).2 room), cut, envelopeSize, if_pos head]
    simp only [if_pos room, List.map_cons]
    rw [row]
    rfl
  | case5 k l short =>
    rw [cut, envelopeSize, if_neg short]
    rfl

theorem consume_error (lib : Http2Library σ) (bad : ¬WellFormed k l) :
    (∃ e, consumeGrpcBuffer lib k l = .error e) ∧ 5 ≤ l.length := by
  fun_induction consumeGrpcBuffer lib k l with
  | case1 => exact absurd trivial bad
  | case2 k l head => exact ⟨⟨_, rfl⟩, head⟩
  | case3 k l head compressed length good part =>
    refine absurd (fun _ => ⟨⟨?_, ?_⟩, fun whole => absurd whole (Nat.not_le.mpr part)⟩) bad
    · by_contra flag
      exact good (.inl flag)
    · exact Nat.le_of_not_lt fun long => good (.inr long)
  | case4 k l head compressed length good whole payload ih =>
    by_cases rest : WellFormed k (l.drop (5 + length))
    · refine absurd (fun _ => ⟨⟨?_, ?_⟩, fun _ => rest⟩) bad
      · by_contra flag
        exact good (.inl flag)
      · exact Nat.le_of_not_lt fun long => good (.inr long)
    · obtain ⟨⟨e, failed⟩, -⟩ := ih rest
      rw [failed]
      exact ⟨⟨e, rfl⟩, head⟩
  | case5 k l short => exact absurd (fun head => absurd head short) bad

/-- The bytes of a message with its head. -/
def GrpcMessage.size (m : GrpcMessage) : Nat := 5 + m.length

theorem cut_sizes (k : Nat) (l : Bytes) :
    (cut envelopeSize k l).1.flatten.length + (cut envelopeSize k l).2.length = l.length := by
  rw [← List.length_append, cut_flatten]

theorem sum_message_size (k : Nat) (l : Bytes) :
    (((cut envelopeSize k l).1.map (message lib)).map GrpcMessage.size).sum =
      (cut envelopeSize k l).1.flatten.length := by
  fun_induction cut envelopeSize k l with
  | case1 | case2 | case4 => rfl
  | case3 k l n head whole ih =>
    have headed : 5 ≤ n := by
      rw [envelopeSize] at head
      split at head
      next =>
        cases head
        omega
      next => cases head
    have long : (l.take n).length = n := List.length_take_of_le whole
    have own : (message lib (l.take n)).size = n := by
      show 5 + ((l.take n).length - 5) = n
      omega
    rw [List.map_cons, List.map_cons, List.sum_cons, ih, own, List.flatten_cons, List.length_append,
      long]

variable (lib) in
/-- What one part of a gRPC stream does to the messages reported so far, and to the buffer. -/
def accept (v : List GrpcMessage × Bytes) (body : Bytes) : List GrpcMessage × Bytes :=
  match consumeGrpcBuffer lib maxGrpcMessages (v.2 ++ body) with
  | .ok (messages, rest) => (v.1 ++ messages, rest)
  | .error _ => (v.1, [])

/-- The envelopes cut off part by part, and the rest. -/
def cutOff (bodies : List Bytes) : List Bytes × Bytes :=
  bodies.foldl (drain envelopeSize maxGrpcMessages) ([], [])

/-- The heads that are looked at, after each part, are well formed. -/
def HeadsFine (bodies : List Bytes) : Prop :=
  ∀ before body after, bodies = before ++ body :: after →
    WellFormed maxGrpcMessages ((cutOff before).2 ++ body)

/-- For every number of last parts, they complete no more than 512 envelopes each on average. -/
def Paced (bodies : List Bytes) : Prop :=
  ∀ before after, bodies = before ++ after → (cutAll envelopeSize bodies.flatten).1.length ≤
    (cutAll envelopeSize before.flatten).1.length + maxGrpcMessages * after.length

variable {bodies : List Bytes} {body : Bytes}

theorem HeadsFine.init (fine : HeadsFine (bodies ++ [body])) : HeadsFine bodies := by
  rintro before body' after rfl
  exact fine before body' (after ++ [body]) (by simp)

theorem HeadsFine.snoc (fine : HeadsFine bodies)
    (last : WellFormed maxGrpcMessages ((cutOff bodies).2 ++ body)) : HeadsFine (bodies ++ [body]) := by
  intro before body' after split
  rcases List.eq_nil_or_concat' after with rfl | ⟨after, b, rfl⟩
  · obtain ⟨rfl, same⟩ := List.append_inj' split rfl
    cases same
    exact last
  · rw [← List.cons_append, ← List.append_assoc] at split
    obtain ⟨rfl, -⟩ := List.append_inj' split rfl
    exact fine before body' after rfl

theorem accept_fine (fine : HeadsFine bodies) : bodies.foldl (accept lib) ([], []) =
    ((cutOff bodies).1.map (message lib), (cutOff bodies).2) := by
  induction bodies using List.reverseRecOn with
  | nil => rfl
  | append_singleton bodies body ih =>
    have last := fine bodies body [] rfl
    have next : cutOff (bodies ++ [body]) = drain envelopeSize maxGrpcMessages (cutOff bodies) body := by
      simp only [cutOff, List.foldl_append, List.foldl_cons, List.foldl_nil]
    rw [List.foldl_append, ih fine.init, List.foldl_cons, List.foldl_nil, accept, consume_ok last,
      next, drain, List.map_append]

theorem accept_conserves (lib : Http2Library σ) (bodies : List Bytes) :
    let v := bodies.foldl (accept lib) ([], [])
    ∃ lost, (v.1.map GrpcMessage.size).sum + v.2.length + lost = bodies.flatten.length ∧
      (lost = 0 → HeadsFine bodies) := by
  induction bodies using List.reverseRecOn with
  | nil => exact ⟨0, rfl, fun _ before body after split => by simp at split⟩
  | append_singleton bodies body ih =>
    obtain ⟨lost, total, none_lost⟩ := ih
    simp only [List.foldl_append, List.foldl_cons, List.foldl_nil, List.flatten_append,
      List.flatten_singleton, List.length_append]
    by_cases last : WellFormed maxGrpcMessages
        ((bodies.foldl (accept lib) ([], [])).2 ++ body)
    · have cut_all := cut_sizes maxGrpcMessages ((bodies.foldl (accept lib) ([], [])).2 ++ body)
      rw [List.length_append] at cut_all
      refine ⟨lost, ?_, fun none => ?_⟩
      · rw [accept, consume_ok last]
        simp only [List.map_append, List.sum_append]
        rw [sum_message_size]
        omega
      · have fine := none_lost none
        refine fine.snoc ?_
        rw [accept_fine fine] at last
        exact last
    · obtain ⟨⟨e, failed⟩, headed⟩ := consume_error lib last
      rw [List.length_append] at headed
      refine ⟨lost + (bodies.foldl (accept lib) ([], [])).2.length + body.length, ?_, fun none => ?_⟩
      · rw [accept, failed]
        simp only [List.length_nil]
        omega
      · omega

theorem accept_faithful_iff (lib : Http2Library σ) (bodies : List Bytes) :
    let v := bodies.foldl (accept lib) ([], [])
    let all := cutAll envelopeSize bodies.flatten
    (v.1 = all.1.map (message lib) ∧ v.2.length = all.2.length) ↔ HeadsFine bodies ∧ Paced bodies := by
  intro v all
  constructor
  · rintro ⟨reported, waiting⟩
    obtain ⟨lost, total, none_lost⟩ := accept_conserves lib bodies
    have whole := cut_sizes (bodies.flatten.length + 1) bodies.flatten
    have sizes : ((all.1.map (message lib)).map GrpcMessage.size).sum = all.1.flatten.length :=
      sum_message_size _ _
    have fine : HeadsFine bodies := none_lost (by
      change (v.1.map GrpcMessage.size).sum + v.2.length + lost = _ at total
      rw [reported, waiting, sizes] at total
      change all.1.flatten.length + all.2.length = _ at whole
      omega)
    refine ⟨fine, ?_⟩
    have counted : all.1.length ≤ (cutOff bodies).1.length := by
      have lengths := congrArg List.length reported
      rw [show v = _ from accept_fine fine, List.length_map, List.length_map] at lengths
      exact Nat.le_of_eq lengths.symm
    exact ((drain_run envelopeSize_headed maxGrpcMessages bodies).2 _).mp counted
  · rintro ⟨fine, paced⟩
    have drained : cutOff bodies = all := (drained_iff envelopeSize_headed).mpr paced
    rw [show v = _ from accept_fine fine, drained]
    exact ⟨rfl, rfl⟩

end Envelopes

section Streams

/-- The frame is a part of the data of a stream. -/
def Frame.Carries (k : Nat) (f : Frame) : Prop := f.typeId = 0x0 ∧ f.streamId = k

instance (k : Nat) (f : Frame) : Decidable (f.Carries k) := inferInstanceAs (Decidable (_ ∧ _))

/-- The data of a frame without its padding; a padding that does not fit leaves none. -/
def Frame.body (f : Frame) : Bytes :=
  match dataFragment f.flags f.payload with
  | .ok body => body
  | .error _ => []

/-- The parts in which the data of a stream comes. -/
def partsOf (k : Nat) (frames : List Frame) : List Bytes :=
  (frames.filter fun f => f.Carries k).map Frame.body

/-- The gRPC messages that a row reports for a stream. -/
def Row.messages (k : Nat) : Row → List GrpcMessage
  | .frame row => if row.streamId = k then (row.grpc.map Prod.fst).getD [] else []
  | _ => []

def reported (k : Nat) (rows : List Row) : List GrpcMessage := rows.flatMap (Row.messages k)

/-- A part of a gRPC stream that is within the size bounds when it comes. -/
def Carried (lib : Http2Library σ) (k : Nat) (s : State σ) (f : Frame) : Prop :=
  f.Carries k → isGrpc (s.dataType lib k) = true ∧ s.Fits k f.body

instance (k : Nat) (s : State σ) (f : Frame) : Decidable (Carried lib k s f) :=
  inferInstanceAs (Decidable (_ → _))

/-- The frames in a stream of bytes, up to one that is truncated or malformed. -/
def framesFrom (raw : Bytes) : Nat → Nat → List Frame
  | 0, _ => []
  | n + 1, cursor =>
    if raw.length ≤ cursor ∨ raw.length < cursor + 9 then []
    else
      let length := value (slice raw cursor 3)
      if length > maxFrameBytes ∨ raw.length < cursor + 9 + length then []
      else frameAt raw cursor :: framesFrom raw n (cursor + 9 + length)

def framesOf (raw : Bytes) : List Frame := framesFrom raw maxFrames (firstFrame raw)

variable {lib : Http2Library σ} {s : State σ} {k j : Nat} {f : Frame} {row : FrameRow}

theorem keys_put_nodup {d : List (Nat × Bytes)} {value : Bytes} (nodup : (keys d).Nodup) :
    (keys (put d k value)).Nodup := by
  rw [put]
  split
  next =>
    have same : keys (d.map fun item => if item.1 = k then (k, value) else item) = keys d := by
      rw [keys, keys, List.map_map]
      refine List.map_congr_left fun item _ => ?_
      by_cases own : item.1 = k <;> simp [own]
    rwa [same]
  next absent =>
    rw [keys, List.map_append, List.nodup_append]
    refine ⟨nodup, List.nodup_singleton _, fun a mem b single same => absent ?_⟩
    rw [List.map_singleton, List.mem_singleton] at single
    rwa [← show a = k from same.trans single]

theorem lookup_pendingSizes {d : List (Nat × Bytes)} (nodup : (keys d).Nodup) :
    ((pendingSizes d).lookup k).getD 0 = ((d.lookup k).getD []).length := by
  induction d with
  | nil => rfl
  | cons item d ih =>
    obtain ⟨fresh, nodup⟩ := List.nodup_cons.mp nodup
    have rest := ih nodup
    rw [pendingSizes] at rest ⊢
    by_cases own : k = item.1
    · subst own
      have gone : d.lookup item.1 = none := lookup_eq_none_iff.mpr fresh
      rw [List.lookup_cons, beq_self_eq_true]
      by_cases empty : item.2 = []
      · rw [gone] at rest
        simpa [empty] using rest
      · simp [empty]
    · rw [List.lookup_cons, beq_eq_false_iff_ne.mpr own]
      by_cases empty : item.2 = []
      · simpa [List.filter_cons, empty] using rest
      · simpa [List.filter_cons, empty, List.lookup_cons, beq_eq_false_iff_ne.mpr own] using rest

/-- What header frames and the data of other streams leave as it is. -/
structure Aside (k : Nat) (s : State σ) (row : FrameRow) (r : State σ × FrameRow) : Prop where
  frames : r.1.frames = s.frames
  buffer : r.1.grpcBuffer k = s.grpcBuffer k
  nodup : (keys s.grpcBuffers).Nodup → (keys r.1.grpcBuffers).Nodup
  silent : row.grpc = none ∨ row.streamId ≠ k → r.2.grpc = none ∨ r.2.streamId ≠ k

theorem blockEnds_aside (block : Bytes) (put_headers : FrameRow → List (String × String) → FrameRow)
    (same : ∀ row headers, (put_headers row headers).grpc = row.grpc ∧
      (put_headers row headers).streamId = row.streamId) :
    Aside k s row (s.blockEnds lib j block row put_headers) := by
  rw [State.blockEnds]
  split
  next => exact ⟨rfl, rfl, id, id⟩
  next headers decoder _ =>
    refine ⟨rfl, rfl, id, fun silent => ?_⟩
    rwa [(same row headers).1, (same row headers).2]

theorem headers_aside : Aside k s row (s.headers lib f row) := by
  rw [State.headers]
  split
  next => exact ⟨rfl, rfl, id, id⟩
  next =>
    split
    next => exact ⟨rfl, rfl, id, id⟩
    next =>
      split
      next => exact ⟨rfl, rfl, id, id⟩
      next fragment metadata _ =>
        dsimp only
        split
        next =>
          have ends : Aside k s { row with metadata := metadata }
              (s.blockEnds lib f.streamId (s.pendingBlock ++ fragment) { row with metadata := metadata }
                fun row headers => { row with headers := some headers }) :=
            blockEnds_aside _ _ fun _ _ => ⟨rfl, rfl⟩
          exact ⟨ends.frames, ends.buffer, ends.nodup, ends.silent⟩
        next => exact ⟨rfl, rfl, id, id⟩

theorem continuation_aside : Aside k s row (s.continuation lib f row) := by
  rw [State.continuation]
  split
  next => exact ⟨rfl, rfl, id, id⟩
  next =>
    split
    next => exact ⟨rfl, rfl, id, id⟩
    next =>
      split
      next => exact blockEnds_aside _ _ fun _ _ => ⟨rfl, rfl⟩
      next => exact ⟨rfl, rfl, id, id⟩

theorem grpcData_aside {body : Bytes} (other : j ≠ k) (elsewhere : row.streamId ≠ k) :
    Aside k s row (s.grpcData lib j body row) := by
  have kept (rest : Bytes) : ((put s.grpcBuffers j rest).lookup k).getD [] = s.grpcBuffer k := by
    rw [lookup_put, if_neg (Ne.symm other), State.grpcBuffer]
  rw [State.grpcData]
  split
  next => exact ⟨rfl, kept _, keys_put_nodup, fun _ => .inr elsewhere⟩
  next => exact ⟨rfl, kept _, keys_put_nodup, fun _ => .inr elsewhere⟩

theorem dohData_aside {flags : UInt8} {body : Bytes} : Aside k s row (s.dohData j flags body row) := by
  rw [State.dohData]
  split
  next => exact ⟨rfl, rfl, id, id⟩
  next => exact ⟨rfl, rfl, id, id⟩

theorem data_aside (other : f.streamId ≠ k) (elsewhere : row.streamId ≠ k) :
    Aside k s row (s.data lib f row) := by
  have each (row' : FrameRow) (body : Bytes) (same : row'.streamId = row.streamId) : Aside k s row
      (if isGrpc (s.dataType lib f.streamId) then s.grpcData lib f.streamId body row'
        else if s.dataType lib f.streamId = "application/dns-message" then
          s.dohData f.streamId f.flags body row'
        else (s, row')) := by
    have elsewhere' : row'.streamId ≠ k := same ▸ elsewhere
    split
    next =>
      have aside : Aside k s row' (s.grpcData lib f.streamId body row') := grpcData_aside other elsewhere'
      exact ⟨aside.frames, aside.buffer, aside.nodup, fun _ => aside.silent (.inr elsewhere')⟩
    next =>
      split
      next =>
        have aside : Aside k s row' (s.dohData f.streamId f.flags body row') := dohData_aside
        exact ⟨aside.frames, aside.buffer, aside.nodup, fun _ => aside.silent (.inr elsewhere')⟩
      next => exact ⟨rfl, rfl, id, fun _ => .inr elsewhere'⟩
  rw [State.data]
  cases dataFragment f.flags f.payload with
  | ok body => exact each row body rfl
  | error e => exact each { row with decodeError := some (clip 256 e) } [] rfl

/-- The messages of a stream so far, and its buffer. -/
def view (k : Nat) (s : State σ) : List GrpcMessage × Bytes := (reported k s.frames, s.grpcBuffer k)

theorem reported_snoc (rows : List Row) (row : Row) :
    reported k (rows ++ [row]) = reported k rows ++ row.messages k := by
  rw [reported, List.flatMap_append, List.flatMap_singleton]
  rfl

theorem messages_silent (silent : row.grpc = none ∨ row.streamId ≠ k) :
    (Row.frame row).messages k = [] := by
  rw [Row.messages]
  rcases silent with none | elsewhere
  · rw [none]
    exact ite_self []
  · rw [if_neg elsewhere]

/-- The row of a frame before it is decoded. -/
def Frame.bare (f : Frame) : FrameRow :=
  { typeId := f.typeId, flags := f.flags, streamId := f.streamId, length := f.payload.length,
    offset := f.offset }

theorem Aside.step_view {r : State σ × FrameRow} (aside : Aside k s f.bare r) :
    view k { r.1 with frames := r.1.frames ++ [.frame r.2] } = view k s := by
  have silent := aside.silent (.inl rfl)
  have rows : reported k (r.1.frames ++ [.frame r.2]) = reported k s.frames := by
    rw [reported_snoc, messages_silent silent, List.append_nil, aside.frames]
  exact Prod.ext rows aside.buffer

theorem step_aside (lib : Http2Library σ) (s : State σ) (elsewhere : ¬f.Carries k) :
    view k (s.step lib f) = view k s ∧ ((keys s.grpcBuffers).Nodup → (keys (s.step lib f).grpcBuffers).Nodup) := by
  have each {r : State σ × FrameRow} (aside : Aside k s f.bare r) :
      view k { r.1 with frames := r.1.frames ++ [.frame r.2] } = view k s ∧
        ((keys s.grpcBuffers).Nodup → (keys r.1.grpcBuffers).Nodup) :=
    ⟨aside.step_view, aside.nodup⟩
  rw [State.step]
  by_cases header : f.typeId = 0x1 ∨ f.typeId = 0x5
  · rw [if_pos header]
    exact each headers_aside
  rw [if_neg header]
  by_cases more : f.typeId = 0x9
  · rw [if_pos more]
    exact each continuation_aside
  rw [if_neg more]
  by_cases data : f.typeId = 0x0
  · rw [if_pos data]
    have other : f.streamId ≠ k := fun same => elsewhere ⟨data, same⟩
    exact each (data_aside other other)
  · rw [if_neg data]
    exact each (r := (s, f.bare)) ⟨rfl, rfl, id, id⟩

theorem grpcData_own (lib : Http2Library σ) {body : Bytes} (fits : s.Fits k body) (own : row.streamId = k)
    (before : List GrpcMessage) :
    let r := s.grpcData lib k body row
    r.1.frames = s.frames ∧
      (before ++ (Row.frame r.2).messages k, r.1.grpcBuffer k) = accept lib (before, s.grpcBuffer k) body ∧
      ((keys s.grpcBuffers).Nodup → (keys r.1.grpcBuffers).Nodup) := by
  have filled (rest : Bytes) : ((put s.grpcBuffers k rest).lookup k).getD [] = rest := by
    rw [lookup_put, if_pos rfl]
    rfl
  rw [State.grpcData, if_pos fits, accept]
  dsimp only
  cases consumeGrpcBuffer lib maxGrpcMessages (s.grpcBuffer k ++ body) with
  | error e =>
    refine ⟨rfl, Prod.ext ?_ (filled []), keys_put_nodup⟩
    simp [Row.messages, own]
  | ok done =>
    refine ⟨rfl, Prod.ext ?_ (filled done.2), keys_put_nodup⟩
    simp [Row.messages, own]

theorem step_own (carries : f.Carries k) (carried : Carried lib k s f) :
    view k (s.step lib f) = accept lib (view k s) f.body ∧
      ((keys s.grpcBuffers).Nodup → (keys (s.step lib f).grpcBuffers).Nodup) := by
  obtain ⟨data, rfl⟩ := carries
  obtain ⟨grpc, fits⟩ := carried ⟨data, rfl⟩
  have each (row : FrameRow) (own : row.streamId = f.streamId) :
      let r := s.grpcData lib f.streamId f.body row
      view f.streamId { r.1 with frames := r.1.frames ++ [.frame r.2] } =
        accept lib (view f.streamId s) f.body ∧
      ((keys s.grpcBuffers).Nodup → (keys r.1.grpcBuffers).Nodup) := by
    obtain ⟨frames, accepted, nodup⟩ := grpcData_own lib fits own (reported f.streamId s.frames)
    refine ⟨?_, nodup⟩
    show (reported _ (_ ++ _), _) = _
    rw [reported_snoc, frames]
    exact accepted
  rw [State.step, if_neg (by rw [data]; decide), if_neg (by rw [data]; decide), if_pos data,
    State.data]
  cases fragment : dataFragment f.flags f.payload with
  | ok body =>
    have same : f.body = body := by rw [Frame.body, fragment]
    dsimp only
    rw [if_pos grpc, ← same]
    exact each _ rfl
  | error e =>
    have same : f.body = [] := by rw [Frame.body, fragment]
    dsimp only
    rw [if_pos grpc, ← same]
    exact each _ rfl

theorem run_view (frames : List Frame)
    (carried : Meets (fun s f => s.step lib f) (State.start lib) (Carried lib k) frames) :
    let s := run (fun s f => s.step lib f) (State.start lib) frames
    view k s = (partsOf k frames).foldl (accept lib) ([], []) ∧ (keys s.grpcBuffers).Nodup := by
  refine induct (P := Carried lib k)
    (I := fun frames s => view k s = (partsOf k frames).foldl (accept lib) ([], []) ∧
      (keys s.grpcBuffers).Nodup) ⟨rfl, by exact List.nodup_nil⟩
    (fun frames f carried inv => ?_) frames carried
  obtain ⟨viewed, nodup⟩ := inv
  by_cases own : f.Carries k
  · obtain ⟨next, keep⟩ := step_own own carried
    refine ⟨?_, keep nodup⟩
    have more : partsOf k (frames ++ [f]) = partsOf k frames ++ [f.body] := by
      simp [partsOf, own]
    rw [next, viewed, more, List.foldl_append]
    rfl
  · obtain ⟨next, keep⟩ := step_aside lib (run (fun s f => s.step lib f) (State.start lib) frames) own
    refine ⟨?_, keep nodup⟩
    have same : partsOf k (frames ++ [f]) = partsOf k frames := by
      simp [partsOf, own]
    rw [next, viewed, same]

theorem rounds_run (lib : Http2Library σ) (k : Nat) (raw : Bytes) (n cursor : Nat) (s : State σ) :
    let ended := run (fun s f => s.step lib f) s (framesFrom raw n cursor)
    view k (rounds lib raw n cursor s).2 = view k ended ∧
      (rounds lib raw n cursor s).2.grpcBuffers = ended.grpcBuffers := by
  induction n generalizing cursor s with
  | zero => exact ⟨rfl, rfl⟩
  | succ n ih =>
    rw [rounds, framesFrom]
    by_cases done : raw.length ≤ cursor
    · rw [if_pos done, if_pos (.inl done)]
      exact ⟨rfl, rfl⟩
    by_cases short : raw.length < cursor + 9
    · rw [if_neg done, if_pos short, if_pos (.inr short)]
      exact ⟨Prod.ext ((reported_snoc _ _).trans (List.append_nil _)) rfl, rfl⟩
    rw [if_neg done, if_neg short, if_neg (not_or.mpr ⟨done, short⟩)]
    dsimp only
    split
    next => exact ⟨Prod.ext ((reported_snoc _ _).trans (List.append_nil _)) rfl, rfl⟩
    next => exact ih _ _

/-- Every header block says the same here, and a digest shows the bytes. -/
def sampleLibrary : Http2Library Unit where
  empty := ()
  decode _ _ := (.ok [(ascii "content-type", ascii "application/grpc")], ())
  decodeUtf8 bytes := String.ofList (bytes.map fun b => Char.ofNat b.toNat)
  casefold := id
  strip := id
  hexdigest bytes := String.ofList (bytes.map fun b => Char.ofNat b.toNat)

/-- A frame on the first stream. -/
def sampleFrame (typeId flags : UInt8) (payload : Bytes) : Bytes :=
  word 3 payload.length ++ [typeId, flags, 0, 0, 0, 1] ++ payload

def sampleHeaders : Bytes := sampleFrame 1 4 [0x88]

/-- What is reported of a gRPC stream, whose parts are within the size bounds when they come, are its
complete envelopes, and only the rest is pending: exactly where no part brings a malformed head
among the first 512 that are looked at, and no run of last parts completes more than 512 envelopes
for each of its parts. -/
theorem grpc_messages_iff (lib : Http2Library σ) (k : Nat) (raw : Bytes)
    (carried : Meets (fun s f => s.step lib f) (State.start lib) (Carried lib k) (framesOf raw)) :
    let parts := partsOf k (framesOf raw)
    let all := cutAll envelopeSize parts.flatten
    let decoded := decodeHttp2Stream lib raw
    (reported k decoded.frames = all.1.map (message lib) ∧
      (decoded.pendingGrpcStreams.lookup k).getD 0 = all.2.length) ↔ HeadsFine parts ∧ Paced parts := by
  intro parts all decoded
  obtain ⟨viewed, nodup⟩ := run_view (framesOf raw) carried
  obtain ⟨same, buffers⟩ := rounds_run lib k raw maxFrames (firstFrame raw) (.start lib)
  refine Iff.trans ?_ (accept_faithful_iff lib parts)
  have view_eq : view k (rounds lib raw maxFrames (firstFrame raw) (.start lib)).2 =
      parts.foldl (accept lib) ([], []) := same.trans viewed
  rw [← view_eq]
  have distinct : (keys (rounds lib raw maxFrames (firstFrame raw) (.start lib)).2.grpcBuffers).Nodup :=
    buffers ▸ nodup
  have pending : (decoded.pendingGrpcStreams.lookup k).getD 0 = _ := lookup_pendingSizes distinct
  rw [pending]
  exact Iff.rfl

/-- One message in two parts, the first of them padded, and the beginning of another. -/
def splitMessage : Bytes :=
  sampleHeaders ++ sampleFrame 0 8 [2, 0, 0, 0, 0, 2, 104, 0, 0] ++ sampleFrame 0 0 [105, 1, 0, 0]

theorem grpc_messages_split :
    let parts := partsOf 1 (framesOf splitMessage)
    let all := cutAll envelopeSize parts.flatten
    let decoded := decodeHttp2Stream sampleLibrary splitMessage
    (reported 1 decoded.frames = all.1.map (message sampleLibrary) ∧
      (decoded.pendingGrpcStreams.lookup 1).getD 0 = all.2.length) ↔ HeadsFine parts ∧ Paced parts :=
  grpc_messages_iff sampleLibrary 1 splitMessage (meets_of_each (by decide +kernel))

/-- 513 empty messages in one part. -/
def emptyMessages : Bytes := sampleHeaders ++ sampleFrame 0 0 (List.replicate (513 * 5) 0)

theorem grpc_messages_held : ¬∀ (lib : Http2Library Unit) (k : Nat) (raw : Bytes),
    Meets (fun s f => s.step lib f) (State.start lib) (Carried lib k) (framesOf raw) →
    reported k (decodeHttp2Stream lib raw).frames =
      (cutAll envelopeSize (partsOf k (framesOf raw)).flatten).1.map (message lib) := by
  intro all
  have carried : Meets (fun s f => s.step sampleLibrary f) (State.start sampleLibrary)
      (Carried sampleLibrary 1) (framesOf emptyMessages) := meets_of_each (by decide +kernel)
  have same := congrArg List.length (all sampleLibrary 1 emptyMessages carried)
  revert same
  decide +kernel

end Streams

end Arenyxa.Capture.Http2
