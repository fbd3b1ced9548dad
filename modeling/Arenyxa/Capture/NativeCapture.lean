import Arenyxa.Lib.Records
import Arenyxa.Lib.Words
import Mathlib.Algebra.Order.Ring.Rat

/-! The reader of classic PCAP and PCAPNG files. -/

namespace Arenyxa.Capture.Native

open Words Records

abbrev Bytes := List UInt8

structure NativeCapturePacket where
  frameNumber : Nat
  timestampEpoch : ℚ
  capturedLength : Nat
  originalLength : Nat
  linkTypeId : Nat
  linkType : String
  data : Bytes
  interfaceId : Nat := 0

def maxPacketBytes : Nat := 16 * 1024 * 1024

def maxBlockBytes : Nat := 32 * 1024 * 1024

def maxPackets : Nat := 1000000

def linkTypes : List (Nat × String) :=
  [(0, "null"), (1, "ethernet"), (3, "ax25"), (6, "token-ring"), (7, "arcnet"), (8, "slip"), (9, "ppp"),
   (10, "fddi"), (12, "raw-ip"), (50, "ppp-hdlc"), (51, "ppp-ether"), (100, "atm-rfc1483"), (101, "raw-ip"),
   (104, "cisco-hdlc"), (105, "ieee80211"), (107, "frame-relay"), (108, "loopback"), (113, "linux-sll"),
   (117, "pflog"), (119, "prism"), (127, "radiotap"), (129, "arcnet-linux"), (163, "ieee80211-avs"),
   (166, "ppp-pppd"), (169, "gprs-llc"), (187, "bluetooth-hci-h4-phdr"), (189, "usb-linux"), (192, "ppi"),
   (195, "ieee802154-fcs"), (201, "bluetooth-hci-h4"), (202, "usb-linux-mmap"), (203, "fibre-channel-2"),
   (204, "fibre-channel-2-delims"), (220, "usb-ip"), (227, "socketcan"), (228, "ipv4"), (229, "ipv6"),
   (230, "ieee802154"), (239, "nflog"), (249, "usbpcap"), (251, "bluetooth-le-ll"), (252, "netlink"),
   (253, "bluetooth-linux-monitor"), (256, "profibus-dl"), (276, "linux-sll2")]

def linkTypeName (id : Nat) : String := (linkTypes.lookup id).getD s!"linktype-{id}"

/-- The byte order and the fractions of a second that a magic number stands for. -/
def pcapMagic : List (Bytes × ByteOrder × Nat) :=
  [([0xa1, 0xb2, 0xc3, 0xd4], .big, 1000000),
   ([0xd4, 0xc3, 0xb2, 0xa1], .little, 1000000),
   ([0xa1, 0xb2, 0x3c, 0x4d], .big, 1000000000),
   ([0x4d, 0x3c, 0xb2, 0xa1], .little, 1000000000)]

def pcapngShb : Bytes := [0x0a, 0x0d, 0x0d, 0x0a]

/-- `bytes[start:stop]` -/
def slice (bytes : Bytes) (start stop : Nat) : Bytes := (bytes.take stop).drop start

/-- The number at an offset. -/
def field (order : ByteOrder) (bytes : Bytes) (offset width : Nat) : Nat :=
  order.value (slice bytes offset (offset + width))

/-- `bytes[-4:]` -/
def lastFour (bytes : Bytes) : Bytes := bytes.drop (bytes.length - 4)

/-- `bytes[:-4]` -/
def withoutFour (bytes : Bytes) : Bytes := bytes.take (bytes.length - 4)

/-- What one pass of a reader's loop gives: an error, the end, or the state and the bytes that go on, with the
packet that was yielded. -/
abbrev Pass (σ : Type) := Except String (Option (Option NativeCapturePacket × σ × Bytes))

section Pcap

/-- The global header's part in reading the packets. -/
structure PcapHeader where
  order : ByteOrder
  fractionScale : Nat
  snaplen : Nat
  linkTypeId : Nat

def pcapHeader (header : Bytes) : Except String PcapHeader :=
  if header.length ≠ 24 then .error "truncated PCAP global header"
  else match pcapMagic.lookup (header.take 4) with
    | none => .error "invalid PCAP magic"
    | some (order, fractionScale) =>
      let major := field order header 4 2
      let minor := field order header 6 2
      let snaplen := field order header 16 4
      if major ≠ 2 ∨ 4 < minor then .error s!"unsupported PCAP version: {major}.{minor}"
      else if snaplen = 0 ∨ maxPacketBytes < snaplen then .error "PCAP snaplen exceeds the native capture budget"
      else .ok ⟨order, fractionScale, snaplen, field order header 20 4⟩

/-- One pass of the loop of `_iter_pcap`, after as many packets. -/
def pcapPass (h : PcapHeader) (frameNumber : Nat) (handle : Bytes) : Pass Nat :=
  let packetHeader := handle.take 16
  let rest := handle.drop 16
  let seconds := field h.order packetHeader 0 4
  let fraction := field h.order packetHeader 4 4
  let capturedLength := field h.order packetHeader 8 4
  let originalLength := field h.order packetHeader 12 4
  let data := rest.take capturedLength
  if packetHeader = [] then .ok none
  else if packetHeader.length ≠ 16 then .error "truncated PCAP packet header"
  else if maxPacketBytes < capturedLength ∨ h.snaplen < capturedLength then
    .error "PCAP packet exceeds the native packet byte budget"
  else if originalLength < capturedLength then
    .error "PCAP captured length exceeds the original packet length"
  else if h.fractionScale ≤ fraction then .error "PCAP packet timestamp fraction is invalid"
  else if data.length ≠ capturedLength then .error "truncated PCAP packet payload"
  else .ok (some (some {
      frameNumber := frameNumber + 1
      timestampEpoch := seconds + fraction / h.fractionScale
      capturedLength := capturedLength
      originalLength := originalLength
      linkTypeId := h.linkTypeId
      linkType := linkTypeName h.linkTypeId
      data := data }, frameNumber + 1, rest.drop capturedLength))

theorem pcapPass_shrinks {h : PcapHeader} {frameNumber frameNumber' : Nat} {handle rest : Bytes}
    {p? : Option NativeCapturePacket} (pass : pcapPass h frameNumber handle = .ok (some (p?, frameNumber', rest))) :
    rest.length < handle.length := by
  rw [pcapPass] at pass
  repeat' split at pass
  all_goals cases pass
  next whole _ _ _ _ =>
    rw [not_not, List.length_take] at whole
    simp only [List.length_drop]
    omega

def pcapReader (h : PcapHeader) : Reader UInt8 Nat NativeCapturePacket String where
  next := pcapPass h
  shrinks := pcapPass_shrinks

/-- `_iter_pcap` -/
def iterPcap (handle : Bytes) (limit : Nat) : List NativeCapturePacket × Option String :=
  match pcapHeader (handle.take 24) with
  | .error message => ([], some message)
  | .ok h => (pcapReader h).read limit 0 (handle.drop 24)

end Pcap

section Pcapng

/-- A row of the section's table of interfaces. -/
structure NgInterface where
  linkTypeId : Nat
  linkType : String
  resolution : ℚ
  timestampOffset : ℚ
  snaplen : Nat

structure NgState where
  order : ByteOrder := .little
  interfaces : List NgInterface := []
  frameNumber : Nat := 0

/-- `_validate_block_length` -/
def ValidBlockLength (value minimum : Nat) : Prop :=
  minimum ≤ value ∧ value % 4 = 0 ∧ value ≤ maxBlockBytes

instance (value minimum : Nat) : Decidable (ValidBlockLength value minimum) :=
  inferInstanceAs (Decidable (_ ∧ _ ∧ _))

def padded (length : Nat) : Nat := (length + 3) / 4 * 4

/-- A signed number of 64 bits. -/
def signed (n : Nat) : Int := if n < 2 ^ 63 then n else n - 2 ^ 64

/-- `_pcapng_interface_timing`, from what the options before have given. -/
def interfaceTiming (order : ByteOrder) (options : Bytes) (resolution timestampOffset : ℚ) :
    Except String (ℚ × ℚ) :=
  if options.length < 4 then .ok (resolution, timestampOffset)
  else
    let code := field order options 0 2
    let length := field order options 2 2
    let after := options.drop 4
    let value := after.take length
    if code = 0 then
      if length ≠ 0 then .error "invalid PCAPNG end-of-options marker" else .ok (resolution, timestampOffset)
    else if after.length < padded length then .error "truncated PCAPNG interface option"
    else if code = 9 then
      match value with
      | [raw] =>
        let resolution : ℚ := if 0x80 ≤ raw.toNat then 1 / 2 ^ (raw.toNat % 0x80) else 1 / 10 ^ raw.toNat
        interfaceTiming order (after.drop (padded length)) resolution timestampOffset
      | _ => .error "invalid PCAPNG timestamp-resolution option"
    else if code = 14 then
      if value.length ≠ 8 then .error "invalid PCAPNG timestamp-offset option"
      else interfaceTiming order (after.drop (padded length)) resolution (signed (order.value value))
    else interfaceTiming order (after.drop (padded length)) resolution timestampOffset
termination_by options.length
decreasing_by all_goals simp only [List.length_drop]; omega

def sectionOrder (magic : Bytes) : Option ByteOrder :=
  if magic = [0x4d, 0x3c, 0x2b, 0x1a] then some .little
  else if magic = [0x1a, 0x2b, 0x3c, 0x4d] then some .big
  else none

def sectionBlock (s : NgState) (blockPrefix rest : Bytes) : Pass NgState :=
  match sectionOrder (slice blockPrefix 8 12) with
  | none => .error "invalid PCAPNG byte-order magic"
  | some order =>
    let blockLength := field order blockPrefix 4 4
    let remainder := rest.take (blockLength - 12)
    let body := slice blockPrefix 8 12 ++ withoutFour remainder
    let major := field order body 4 2
    let minor := field order body 6 2
    if ¬ ValidBlockLength blockLength 28 then .error "invalid PCAPNG block length"
    else if remainder.length ≠ blockLength - 12 ∨ order.value (lastFour remainder) ≠ blockLength then
      .error "invalid PCAPNG section block length"
    else if major ≠ 1 then .error s!"unsupported PCAPNG section version: {major}.{minor}"
    else .ok (some (none, { s with order := order, interfaces := [] }, rest.drop (blockLength - 12)))

/-- The body of a block that starts no section, and the bytes that follow the block. -/
def blockBody (order : ByteOrder) (blockPrefix rest : Bytes) : Except String (Bytes × Bytes) :=
  let blockLength := field order blockPrefix 4 4
  let remainder := rest.take (blockLength - 12)
  if ¬ ValidBlockLength blockLength 12 then .error "invalid PCAPNG block length"
  else if blockLength = 12 then
    if field order blockPrefix 8 4 ≠ blockLength then .error "PCAPNG block length trailer mismatch"
    else .ok ([], rest)
  else if remainder.length ≠ blockLength - 12 then .error "truncated PCAPNG block"
  else if remainder.length < 4 ∨ order.value (lastFour remainder) ≠ blockLength then
    .error "PCAPNG block length trailer mismatch"
  else .ok (slice blockPrefix 8 12 ++ withoutFour remainder, rest.drop (blockLength - 12))

def interfaceBlock (order : ByteOrder) (body : Bytes) : Except String NgInterface :=
  let linkTypeId := field order body 0 2
  let snaplen := field order body 4 4
  if body.length < 8 then .error "truncated PCAPNG interface block"
  else if maxPacketBytes < snaplen then .error "PCAPNG interface snaplen exceeds the native packet byte budget"
  else match interfaceTiming order (body.drop 8) (1 / 1000000) 0 with
    | .error message => .error message
    | .ok (resolution, timestampOffset) =>
      .ok ⟨linkTypeId, linkTypeName linkTypeId, resolution, timestampOffset,
        if snaplen = 0 then maxPacketBytes else snaplen⟩

/-- What an enhanced and an obsolete packet block share, once their fields are read. -/
def timedPacket (s : NgState) (body : Bytes) (interfaceId tsHigh tsLow capturedLength originalLength : Nat) :
    Except String NativeCapturePacket :=
  match s.interfaces[interfaceId]? with
  | none => .error "PCAPNG packet references an unknown interface"
  | some row =>
    if maxPacketBytes < capturedLength ∨ row.snaplen < capturedLength ∨ originalLength < capturedLength ∨
        body.length < 20 + padded capturedLength then
      .error "PCAPNG packet exceeds the native packet byte budget"
    else .ok {
      frameNumber := s.frameNumber + 1
      timestampEpoch := row.timestampOffset + (tsHigh * 2 ^ 32 + tsLow : Nat) * row.resolution
      capturedLength := capturedLength
      originalLength := originalLength
      linkTypeId := row.linkTypeId
      linkType := row.linkType
      data := slice body 20 (20 + capturedLength)
      interfaceId := interfaceId }

def enhancedBlock (s : NgState) (body : Bytes) : Except String NativeCapturePacket :=
  if body.length < 20 then .error "truncated PCAPNG enhanced packet block"
  else timedPacket s body (field s.order body 0 4) (field s.order body 4 4) (field s.order body 8 4)
    (field s.order body 12 4) (field s.order body 16 4)

/-- The interface's number has two bytes here, and the count of drops the two after it. -/
def obsoleteBlock (s : NgState) (body : Bytes) : Except String NativeCapturePacket :=
  if body.length < 20 then .error "truncated PCAPNG obsolete packet block"
  else timedPacket s body (field s.order body 0 2) (field s.order body 4 4) (field s.order body 8 4)
    (field s.order body 12 4) (field s.order body 16 4)

/-- A simple packet block is skipped where the section has no interface. -/
def simpleBlock (s : NgState) (body : Bytes) : Except String (Option NativeCapturePacket) :=
  match s.interfaces with
  | [] => .ok none
  | row :: _ =>
    if body.length < 4 then .ok none
    else
      let originalLength := field s.order body 0 4
      let capturedLength := min originalLength row.snaplen
      if body.length - 4 ≠ padded capturedLength then
        .error "PCAPNG simple packet length does not match interface snaplen"
      else if maxPacketBytes < capturedLength then
        .error "PCAPNG simple packet exceeds the native packet byte budget"
      else .ok (some {
        frameNumber := s.frameNumber + 1
        timestampEpoch := 0
        capturedLength := capturedLength
        originalLength := originalLength
        linkTypeId := row.linkTypeId
        linkType := row.linkType
        data := slice body 4 (4 + capturedLength) })

/-- What a block does to the section's state. -/
def blockEffect (s : NgState) (blockType : Nat) (body : Bytes) :
    Except String (Option NativeCapturePacket × NgState) :=
  if blockType = 1 then
    (interfaceBlock s.order body).map fun row => (none, { s with interfaces := s.interfaces ++ [row] })
  else if blockType = 6 then
    (enhancedBlock s body).map fun p => (some p, { s with frameNumber := s.frameNumber + 1 })
  else if blockType = 2 then
    (obsoleteBlock s body).map fun p => (some p, { s with frameNumber := s.frameNumber + 1 })
  else if blockType = 3 then
    (simpleBlock s body).map fun p? => (p?, { s with frameNumber := s.frameNumber + if p?.isSome then 1 else 0 })
  else .ok (none, s)

/-- One pass of the loop of `_iter_pcapng`. -/
def pcapngPass (s : NgState) (handle : Bytes) : Pass NgState :=
  let blockPrefix := handle.take 12
  let rest := handle.drop 12
  if blockPrefix = [] then .ok none
  else if blockPrefix.length ≠ 12 then .error "truncated PCAPNG block header"
  else if blockPrefix.take 4 = pcapngShb then sectionBlock s blockPrefix rest
  else match blockBody s.order blockPrefix rest with
    | .error message => .error message
    | .ok (body, after) =>
      (blockEffect s (field s.order blockPrefix 0 4) body).map fun (p?, s) => some (p?, s, after)

theorem sectionBlock_rest {s s' : NgState} {blockPrefix rest after : Bytes} {p? : Option NativeCapturePacket}
    (pass : sectionBlock s blockPrefix rest = .ok (some (p?, s', after))) : after.length ≤ rest.length := by
  rw [sectionBlock] at pass
  split at pass
  next => exact absurd pass nofun
  next =>
    dsimp only at pass
    repeat' split at pass
    all_goals cases pass
    exact List.length_drop ▸ Nat.sub_le _ _

theorem blockBody_rest {order : ByteOrder} {blockPrefix rest body after : Bytes}
    (read : blockBody order blockPrefix rest = .ok (body, after)) : after.length ≤ rest.length := by
  rw [blockBody] at read
  repeat' split at read
  all_goals cases read
  · exact le_rfl
  · exact List.length_drop ▸ Nat.sub_le _ _

theorem pcapngPass_shrinks {s s' : NgState} {handle rest : Bytes} {p? : Option NativeCapturePacket}
    (pass : pcapngPass s handle = .ok (some (p?, s', rest))) : rest.length < handle.length := by
  rw [pcapngPass] at pass
  dsimp only at pass
  split at pass
  next => exact absurd pass nofun
  next =>
    split at pass
    next => exact absurd pass nofun
    next whole =>
      have shorter : (handle.drop 12).length < handle.length := by
        rw [not_not, List.length_take] at whole
        rw [List.length_drop]
        omega
      split at pass
      next => exact (sectionBlock_rest pass).trans_lt shorter
      next =>
        split at pass
        next => exact absurd pass nofun
        next read =>
          refine lt_of_le_of_lt ?_ shorter
          have after := blockBody_rest read
          rcases effect : blockEffect s (field s.order (handle.take 12) 0 4) _ with _ | ⟨p?, s⟩
          · rw [effect] at pass
            exact absurd pass nofun
          · rw [effect] at pass
            cases pass
            exact after

def pcapngReader : Reader UInt8 NgState NativeCapturePacket String where
  next := pcapngPass
  shrinks := pcapngPass_shrinks

/-- `_iter_pcapng` -/
def iterPcapng (handle : Bytes) (limit : Nat) : List NativeCapturePacket × Option String :=
  pcapngReader.read limit {} handle

end Pcapng

/-- `iter_packets` of a file's bytes: the packets that are yielded, and the error that is raised after them. -/
def iterPackets (bytes : Bytes) (limit : Int) : List NativeCapturePacket × Option String :=
  let bounded := (max 0 (min limit maxPackets)).toNat
  let magic := bytes.take 4
  if (pcapMagic.lookup magic).isSome then iterPcap bytes bounded
  else if magic = pcapngShb then iterPcapng bytes bounded
  else ([], some "unsupported capture format: expected PCAP or PCAPNG")

end Arenyxa.Capture.Native

/-! The captures that a PCAP or PCAPNG file states: its records, their bytes and the packets that they mean. -/

namespace Arenyxa.Capture.Native

open Words Records

/-- The packet of a PCAP file. -/
structure PcapRecord where
  seconds : Nat
  fraction : Nat
  originalLength : Nat
  data : Bytes

structure PcapFile where
  order : ByteOrder
  nanoseconds : Bool
  minor : Nat
  zone : Nat
  sigfigs : Nat
  snaplen : Nat
  linkType : Nat
  records : List PcapRecord

namespace PcapFile

variable (f : PcapFile)

def fractionScale : Nat := if f.nanoseconds then 1000000000 else 1000000

def magic : Bytes := f.order.word 4 (if f.nanoseconds then 0xa1b23c4d else 0xa1b2c3d4)

def header : Bytes :=
  f.magic ++ f.order.word 2 2 ++ f.order.word 2 f.minor ++ f.order.word 4 f.zone ++ f.order.word 4 f.sigfigs ++
    f.order.word 4 f.snaplen ++ f.order.word 4 f.linkType

def encode (r : PcapRecord) : Bytes :=
  f.order.word 4 r.seconds ++ f.order.word 4 r.fraction ++ f.order.word 4 r.data.length ++
    f.order.word 4 r.originalLength ++ r.data

def bytes : Bytes := f.header ++ f.records.flatMap f.encode

/-- The packet of a record, after as many packets. -/
def meaning (frameNumber : Nat) (r : PcapRecord) : Option NativeCapturePacket × Nat :=
  (some {
    frameNumber := frameNumber + 1
    timestampEpoch := r.seconds + r.fraction / f.fractionScale
    capturedLength := r.data.length
    originalLength := r.originalLength
    linkTypeId := f.linkType
    linkType := linkTypeName f.linkType
    data := r.data }, frameNumber + 1)

/-- The record is within its fields and the reader's limits. -/
structure Fit (r : PcapRecord) : Prop where
  seconds : r.seconds < 2 ^ 32
  fraction : r.fraction < f.fractionScale
  original : r.originalLength < 2 ^ 32
  complete : r.data.length ≤ r.originalLength
  snapped : r.data.length ≤ f.snaplen

structure Valid : Prop where
  minor : f.minor ≤ 4
  snaplen : 0 < f.snaplen ∧ f.snaplen ≤ maxPacketBytes
  linkType : f.linkType < 2 ^ 32
  records : ∀ r ∈ f.records, f.Fit r
  count : f.records.length ≤ maxPackets

end PcapFile

/-- An option of an interface; a resolution is a power of two or of ten. -/
inductive InterfaceOption
  | resolution (binary : Bool) (exponent : Nat)
  | offset (seconds : Int)
  | other (code : Nat) (value : Bytes)

namespace InterfaceOption

def code : InterfaceOption → Nat
  | resolution .. => 9
  | offset _ => 14
  | other code _ => code

def value (order : ByteOrder) : InterfaceOption → Bytes
  | resolution binary exponent => [UInt8.ofNat (if binary then 0x80 + exponent else exponent)]
  | offset seconds => order.word 8 (seconds % 2 ^ 64).toNat
  | other _ value => value

def encode (order : ByteOrder) (o : InterfaceOption) : Bytes :=
  order.word 2 o.code ++ order.word 2 (o.value order).length ++ o.value order ++
    List.replicate (padded (o.value order).length - (o.value order).length) 0

def Fit : InterfaceOption → Prop
  | resolution _ exponent => exponent < 0x80
  | offset seconds => -2 ^ 63 ≤ seconds ∧ seconds < 2 ^ 63
  | other code value => code ≠ 0 ∧ code ≠ 9 ∧ code ≠ 14 ∧ code < 2 ^ 16 ∧ value.length < 2 ^ 16

/-- The resolution and the offset, after those of the options before. -/
def timing (before : ℚ × ℚ) : InterfaceOption → ℚ × ℚ
  | resolution binary exponent => (1 / (if binary then 2 else 10) ^ exponent, before.2)
  | offset seconds => (before.1, seconds)
  | other .. => before

end InterfaceOption

/-- A block of a PCAPNG file. What follows the padding of a packet are the options of its block. -/
inductive Block
  | section (minor : Nat) (sectionLength options : Bytes)
  | interface (linkType snaplen : Nat) (options : List InterfaceOption) (ended : Bool)
  | enhanced (interfaceId ticks originalLength : Nat) (data padding options : Bytes)
  | obsolete (interfaceId drops ticks originalLength : Nat) (data padding options : Bytes)
  | simple (originalLength : Nat) (data padding : Bytes)
  | unknown (type : Nat) (body : Bytes)

/-- A block in the byte order of its section. -/
abbrev Record := ByteOrder × Block

namespace Block

def type : Block → Nat
  | «section» .. => 0x0a0d0d0a
  | interface .. => 1
  | enhanced .. => 6
  | obsolete .. => 2
  | simple .. => 3
  | unknown type _ => type

def body (order : ByteOrder) : Block → Bytes
  | «section» minor sectionLength options =>
    order.word 4 0x1a2b3c4d ++ (order.word 2 1 ++ order.word 2 minor ++ sectionLength ++ options)
  | interface linkType snaplen options ended =>
    order.word 2 linkType ++ order.word 2 0 ++ order.word 4 snaplen ++
      (options.flatMap (·.encode order) ++ if ended then [0, 0, 0, 0] else [])
  | enhanced interfaceId ticks originalLength data padding options =>
    order.word 4 interfaceId ++ order.word 4 (ticks / 2 ^ 32) ++ order.word 4 (ticks % 2 ^ 32) ++
      order.word 4 data.length ++ order.word 4 originalLength ++ (data ++ padding ++ options)
  | obsolete interfaceId drops ticks originalLength data padding options =>
    order.word 2 interfaceId ++ order.word 2 drops ++ order.word 4 (ticks / 2 ^ 32) ++
      order.word 4 (ticks % 2 ^ 32) ++ order.word 4 data.length ++ order.word 4 originalLength ++
      (data ++ padding ++ options)
  | simple originalLength data padding => order.word 4 originalLength ++ (data ++ padding)
  | unknown _ body => body

end Block

/-- The bytes of a block: its type, its length, its body and its length again. -/
def encodeRecord (r : Record) : Bytes :=
  r.1.word 4 r.2.type ++ r.1.word 4 (12 + (r.2.body r.1).length) ++ r.2.body r.1 ++
    r.1.word 4 (12 + (r.2.body r.1).length)

/-- The row of an interface. -/
def interfaceRow (linkType snaplen : Nat) (options : List InterfaceOption) : NgInterface :=
  let timing := options.foldl InterfaceOption.timing (1 / 1000000, 0)
  { linkTypeId := linkType
    linkType := linkTypeName linkType
    resolution := timing.1
    timestampOffset := timing.2
    snaplen := if snaplen = 0 then maxPacketBytes else snaplen }

/-- The packet of an interface. -/
def packetOf (frameNumber : Nat) (row : NgInterface) (interfaceId : Nat) (time : ℚ) (originalLength : Nat)
    (data : Bytes) : NativeCapturePacket where
  frameNumber := frameNumber
  timestampEpoch := time
  capturedLength := data.length
  originalLength := originalLength
  linkTypeId := row.linkTypeId
  linkType := row.linkType
  data := data
  interfaceId := interfaceId

/-- A packet at the time of so many ticks of its interface. -/
def timed (s : NgState) (interfaceId ticks originalLength : Nat) (data : Bytes) :
    Option NativeCapturePacket × NgState :=
  (s.interfaces[interfaceId]?.map fun row =>
      packetOf (s.frameNumber + 1) row interfaceId (row.timestampOffset + ticks * row.resolution) originalLength data,
    { s with frameNumber := s.frameNumber + 1 })

/-- The packet of a block, and the section after it. -/
def meaning (s : NgState) : Record → Option NativeCapturePacket × NgState
  | (order, .section ..) => (none, { s with order := order, interfaces := [] })
  | (_, .interface linkType snaplen options _) =>
    (none, { s with interfaces := s.interfaces ++ [interfaceRow linkType snaplen options] })
  | (_, .enhanced interfaceId ticks originalLength data _ _) => timed s interfaceId ticks originalLength data
  | (_, .obsolete interfaceId _ ticks originalLength data _ _) => timed s interfaceId ticks originalLength data
  | (_, .simple originalLength data _) =>
    (s.interfaces.head?.map fun row => packetOf (s.frameNumber + 1) row 0 0 originalLength data,
      { s with frameNumber := s.frameNumber + 1 })
  | (_, .unknown ..) => (none, s)

/-- A packet is within its fields and the limits of the reader and of its interface. -/
structure FitPacket (row? : Option NgInterface) (ticks originalLength : Nat) (data padding : Bytes) : Prop where
  ticks : ticks < 2 ^ 64
  original : originalLength < 2 ^ 32
  complete : data.length ≤ originalLength
  budget : data.length ≤ maxPacketBytes
  padding : data.length + padding.length = padded data.length
  snapped : ∃ row, row? = some row ∧ data.length ≤ row.snaplen

def Block.Fit (s : NgState) : Block → Prop
  | «section» minor sectionLength _ => minor < 2 ^ 16 ∧ sectionLength.length = 8
  | interface linkType snaplen options _ =>
    linkType < 2 ^ 16 ∧ snaplen ≤ maxPacketBytes ∧ ∀ o ∈ options, o.Fit
  | enhanced interfaceId ticks originalLength data padding _ =>
    interfaceId < 2 ^ 32 ∧ FitPacket s.interfaces[interfaceId]? ticks originalLength data padding
  | obsolete interfaceId drops ticks originalLength data padding _ =>
    interfaceId < 2 ^ 16 ∧ drops < 2 ^ 16 ∧
      FitPacket s.interfaces[interfaceId]? ticks originalLength data padding
  | simple originalLength data padding =>
    FitPacket s.interfaces.head? 0 originalLength data padding ∧
      ∀ row ∈ s.interfaces.head?, data.length = min originalLength row.snaplen
  | unknown type _ => type < 2 ^ 32 ∧ type ∉ [1, 2, 3, 6, 0x0a0d0d0a]

/-- A block is in its section's byte order, is padded to four bytes, and is within the reader's limits. -/
structure Record.Fit (s : NgState) (r : Record) : Prop where
  order : r.1 = s.order ∨ r.2.type = 0x0a0d0d0a
  aligned : (r.2.body r.1).length % 4 = 0
  budget : 12 + (r.2.body r.1).length ≤ maxBlockBytes
  block : r.2.Fit s

structure ValidPcapng (records : List Record) : Prop where
  starts : ∃ first rest, records = first :: rest ∧ first.2.type = 0x0a0d0d0a
  fits : Fits meaning Record.Fit {} records
  count : (yields meaning {} records).length ≤ maxPackets

/-- A file of either format. -/
inductive CaptureFile
  | pcap (file : PcapFile)
  | pcapng (records : List Record)

namespace CaptureFile

def bytes : CaptureFile → Bytes
  | pcap file => file.bytes
  | pcapng records => records.flatMap encodeRecord

/-- The packets of the file. -/
def packets : CaptureFile → List NativeCapturePacket
  | pcap file => yields file.meaning 0 file.records
  | pcapng records => yields meaning {} records

/-- The packets of the records that are complete in the first `k` bytes. -/
def packetsWithin : CaptureFile → Nat → List NativeCapturePacket
  | pcap file, k => yields file.meaning 0 (complete file.encode file.records (k - 24))
  | pcapng records, k => yields meaning {} (complete encodeRecord records k)

def Valid : CaptureFile → Prop
  | pcap file => file.Valid
  | pcapng records => ValidPcapng records

end CaptureFile

end Arenyxa.Capture.Native
