import Arenyxa.Capture.NativeCapture
import Mathlib.Tactic.NormNum

/-! The reader yields exactly the packets of a capture. -/

namespace Arenyxa.Capture.Native

open Words Records

variable {order : ByteOrder} {s : NgState} {bytes rest more body first tail : Bytes}
  {k n offset start stop width : Nat}

section Fields

theorem slice_left (inside : stop ≤ bytes.length) : slice (bytes ++ rest) start stop = slice bytes start stop := by
  rw [slice, slice, List.take_append_of_le_length inside]

@[simp] theorem slice_skip (before : bytes.length ≤ start) :
    slice (bytes ++ rest) start stop = slice rest (start - bytes.length) (stop - bytes.length) := by
  by_cases short : stop ≤ bytes.length
  · rw [slice_left short, slice, slice, List.drop_eq_nil_of_le (by rw [List.length_take]; omega),
      Nat.sub_eq_zero_of_le short, List.take_zero, List.drop_nil]
  · rw [slice, slice, List.take_append, List.drop_append, List.take_of_length_le (by omega),
      List.drop_eq_nil_of_le before, List.nil_append]

theorem slice_zero (whole : bytes.length = n) : slice (bytes ++ rest) 0 n = bytes := by
  rw [slice, ← whole, List.take_left]
  rfl

@[simp] theorem field_skip (before : bytes.length ≤ offset) :
    field order (bytes ++ rest) offset width = field order rest (offset - bytes.length) width := by
  rw [field, slice_skip before, Nat.sub_add_comm before]
  rfl

@[simp] theorem field_word (fits : n < 256 ^ width) : field order (order.word width n ++ rest) 0 width = n := by
  rw [field, Nat.zero_add, slice_zero (order.length_word width n), order.value_word fits]

end Fields

section Pcap

variable {f : PcapFile} {r : PcapRecord}

def PcapFile.parsed (f : PcapFile) : PcapHeader := ⟨f.order, f.fractionScale, f.snaplen, f.linkType⟩

theorem PcapFile.magic_lookup (f : PcapFile) : pcapMagic.lookup f.magic = some (f.order, f.fractionScale) := by
  rw [magic, fractionScale]
  cases f.order <;> cases f.nanoseconds <;> decide

theorem PcapFile.length_header (f : PcapFile) : f.header.length = 24 := by
  simp [header, magic]

theorem pcapHeader_header (valid : f.Valid) : pcapHeader f.header = .ok f.parsed := by
  have magic : f.header.take 4 = f.magic := by
    rw [PcapFile.header]
    simp only [List.append_assoc]
    exact List.take_left' (f.order.length_word 4 _)
  have major : field f.order f.header 4 2 = 2 := by
    simp [PcapFile.header, PcapFile.magic]
  have minor : field f.order f.header 6 2 = f.minor := by
    have := valid.minor
    simp [PcapFile.header, PcapFile.magic, show f.minor < 65536 by omega]
  have snaplen : field f.order f.header 16 4 = f.snaplen := by
    have := valid.snaplen.2
    rw [maxPacketBytes] at this
    simp [PcapFile.header, PcapFile.magic, show f.snaplen < 4294967296 by omega]
  have linkType : field f.order f.header 20 4 = f.linkType := by
    have := valid.linkType
    have := @field_word f.order [] f.linkType 4 (by omega)
    rw [List.append_nil] at this
    simp [PcapFile.header, PcapFile.magic, this]
  rw [pcapHeader, if_neg (not_not.mpr f.length_header), magic, f.magic_lookup]
  dsimp only
  rw [major, minor, snaplen, linkType, if_neg (by have := valid.minor; omega),
    if_neg (by have := valid.snaplen; omega)]
  rfl

theorem PcapFile.encode_head (valid : f.Valid) (fit : f.Fit r) :
    ∃ head : Bytes, head.length = 16 ∧ f.encode r = head ++ r.data ∧ field f.order head 0 4 = r.seconds ∧
      field f.order head 4 4 = r.fraction ∧ field f.order head 8 4 = r.data.length ∧
      field f.order head 12 4 = r.originalLength := by
  have small := fit.snapped.trans valid.snaplen.2
  rw [maxPacketBytes] at small
  have seconds := fit.seconds
  have scale : f.fractionScale < 2 ^ 32 := by rw [PcapFile.fractionScale]; split <;> omega
  have fraction := fit.fraction.trans scale
  have original := @field_word f.order [] r.originalLength 4 (by have := fit.original; omega)
  rw [List.append_nil] at original
  refine ⟨_, ?_, rfl, ?_, ?_, ?_, ?_⟩
  · simp
  · simp [show r.seconds < 4294967296 by omega]
  · simp [show r.fraction < 4294967296 by omega]
  · simp [show r.data.length < 4294967296 by omega]
  · simp [original]

theorem pcapPass_encode (valid : f.Valid) (fit : f.Fit r) (frameNumber : Nat) :
    pcapPass f.parsed frameNumber (f.encode r ++ more) =
      .ok (some ((f.meaning frameNumber r).1, (f.meaning frameNumber r).2, more)) := by
  have snapped := fit.snapped.trans valid.snaplen.2
  obtain ⟨head, whole, split, seconds, fraction, captured, original⟩ := PcapFile.encode_head valid fit
  rw [split, List.append_assoc, pcapPass, List.take_left' whole, List.drop_left' whole]
  simp only [PcapFile.parsed, seconds, fraction, captured, original]
  rw [if_neg (List.ne_nil_of_length_pos (by omega)), if_neg (not_not.mpr whole),
    if_neg (by have := fit.snapped; omega), if_neg (not_lt.mpr fit.complete), if_neg (not_le.mpr fit.fraction),
    List.take_left, if_neg (not_not.mpr rfl), List.drop_left]
  rfl

theorem take_header {bytes : Bytes} {j width : Nat} (some : 0 < j) (short : j < width) (inside : j < bytes.length) :
    (bytes.take j).take width ≠ [] ∧ ((bytes.take j).take width).length ≠ width := by
  have length : ((bytes.take j).take width).length = j := by
    rw [List.length_take, List.length_take]
    omega
  exact ⟨List.ne_nil_of_length_pos (by omega), by omega⟩

theorem pcapPass_cut (valid : f.Valid) (fit : f.Fit r) (frameNumber : Nat) {j : Nat} (some : 0 < j)
    (short : j < (f.encode r).length) : ∃ e, pcapPass f.parsed frameNumber ((f.encode r).take j) = .error e := by
  rw [pcapPass]
  by_cases inside : j < 16
  · obtain ⟨nonempty, unfinished⟩ := take_header some inside short
    rw [if_neg nonempty, if_pos unfinished]
    exact ⟨_, rfl⟩
  · obtain ⟨head, whole, split, seconds, fraction, captured, original⟩ := PcapFile.encode_head valid fit
    have cut : (f.encode r).take j = head ++ r.data.take (j - 16) := by
      rw [split, List.take_append, List.take_of_length_le (by omega), whole]
    have missing : ((r.data.take (j - 16)).take r.data.length).length ≠ r.data.length := by
      rw [split, List.length_append] at short
      rw [List.length_take, List.length_take]
      omega
    rw [cut, List.take_left' whole, List.drop_left' whole]
    simp only [PcapFile.parsed, captured]
    rw [if_neg (List.ne_nil_of_length_pos (by omega)), if_neg (not_not.mpr whole)]
    repeat' split
    all_goals exact ⟨_, rfl⟩

theorem pcap_fits {records : List PcapRecord} (own : ∀ r ∈ records, f.Fit r) (frameNumber : Nat) :
    Fits f.meaning (fun _ r => f.Fit r) frameNumber records := by
  induction records generalizing frameNumber with
  | nil => trivial
  | cons r records ih =>
    exact ⟨own r List.mem_cons_self, ih (fun r mem => own r (List.mem_cons_of_mem _ mem)) _⟩

end Pcap

section Framing

/-- A block's bytes up to its header of 12 bytes, which holds the first of the body or, without one, the length. -/
structure Framed (order : ByteOrder) (type : Nat) (body first tail : Bytes) : Prop where
  four : first.length = 4
  rest : tail.length = body.length
  parts : body = [] ∧ first = order.word 4 12 ∧ tail = [] ∨
    ∃ later, body = first ++ later ∧ tail = later ++ order.word 4 (12 + body.length)

def blockPrefix (order : ByteOrder) (type : Nat) (body first : Bytes) : Bytes :=
  order.word 4 type ++ order.word 4 (12 + body.length) ++ first

theorem encode_framed (order : ByteOrder) (b : Block) (aligned : (b.body order).length % 4 = 0) :
    ∃ first tail, Framed order b.type (b.body order) first tail ∧
      encodeRecord (order, b) = blockPrefix order b.type (b.body order) first ++ tail := by
  cases body : b.body order with
  | nil =>
    refine ⟨order.word 4 12, [], ⟨order.length_word 4 12, rfl, .inl ⟨rfl, rfl, rfl⟩⟩, ?_⟩
    simp [encodeRecord, blockPrefix, body]
  | cons byte later =>
    rw [body] at aligned
    have enough : 4 ≤ (byte :: later).length := by
      rw [List.length_cons] at aligned ⊢
      omega
    refine ⟨(byte :: later).take 4, (byte :: later).drop 4 ++ order.word 4 (12 + (byte :: later).length),
      ⟨?_, ?_, .inr ⟨_, (List.take_append_drop 4 _).symm, rfl⟩⟩, ?_⟩
    · rw [List.length_take]
      omega
    · rw [List.length_append, List.length_drop, order.length_word]
      omega
    · rw [blockPrefix, List.append_assoc, ← List.append_assoc (List.take 4 _), List.take_append_drop, encodeRecord,
        body]
      simp only [List.append_assoc]

variable {type : Nat}

theorem length_blockPrefix (framed : Framed order type body first tail) :
    (blockPrefix order type body first).length = 12 := by
  simp [blockPrefix, framed.four]

theorem field_type (fits : type < 2 ^ 32) : field order (blockPrefix order type body first) 0 4 = type := by
  rw [blockPrefix, List.append_assoc]
  exact field_word (by omega)

theorem field_length (budget : 12 + body.length ≤ maxBlockBytes) :
    field order (blockPrefix order type body first) 4 4 = 12 + body.length := by
  rw [maxBlockBytes] at budget
  simp [blockPrefix, show 12 + body.length < 4294967296 by omega]

theorem slice_first (framed : Framed order type body first tail) :
    slice (blockPrefix order type body first) 8 12 = first := by
  have := @slice_zero first [] 4 framed.four
  rw [List.append_nil] at this
  simp [blockPrefix, this]

theorem take_tail (framed : Framed order type body first tail) :
    (tail ++ more).take (12 + body.length - 12) = tail ∧ (tail ++ more).drop (12 + body.length - 12) = more := by
  rw [Nat.add_sub_cancel_left, ← framed.rest]
  exact ⟨List.take_left, List.drop_left⟩

theorem last_split {later trailer : Bytes} (four : trailer.length = 4) :
    lastFour (later ++ trailer) = trailer ∧ withoutFour (later ++ trailer) = later := by
  rw [lastFour, withoutFour, List.length_append, four, Nat.add_sub_cancel]
  exact ⟨List.drop_left, List.take_left⟩

theorem blockBody_framed (framed : Framed order type body first tail) (aligned : body.length % 4 = 0)
    (budget : 12 + body.length ≤ maxBlockBytes) :
    blockBody order (blockPrefix order type body first) (tail ++ more) = .ok (body, more) := by
  have valid : ValidBlockLength (12 + body.length) 12 := ⟨by omega, by omega, budget⟩
  have small := budget
  rw [maxBlockBytes] at small
  rw [blockBody]
  simp only [field_length budget, (take_tail framed).1, (take_tail framed).2, slice_first framed]
  rw [if_neg (not_not.mpr valid)]
  rcases framed.parts with ⟨empty, trailer, none⟩ | ⟨later, split, trailed⟩
  · rw [empty, List.length_nil, if_pos rfl, none, List.nil_append]
    have trailing : field order (blockPrefix order type [] first) 8 4 = 12 := by
      have := @field_word order [] 12 4 (by norm_num)
      rw [List.append_nil] at this
      simp [blockPrefix, trailer, this]
    rw [trailing, if_neg (not_not.mpr rfl)]
  · have some : 4 ≤ body.length := by
      rw [split, List.length_append, framed.four]
      omega
    obtain ⟨at_end, before⟩ := @last_split later _ (order.length_word 4 (12 + body.length))
    rw [if_neg (by omega), framed.rest, if_neg (by omega), trailed, at_end, before,
      order.value_word (by omega), if_neg (by omega), ← split]

theorem block_missing (budget : 12 + body.length ≤ maxBlockBytes) (missing : rest.length < body.length) :
    (∃ e, blockBody order (blockPrefix order type body first) rest = .error e) ∧
      (sectionOrder (slice (blockPrefix order type body first) 8 12) = some order →
        ∃ e, sectionBlock s (blockPrefix order type body first) rest = .error e) := by
  have short : (rest.take (12 + body.length - 12)).length ≠ 12 + body.length - 12 := by
    rw [List.length_take]
    omega
  refine ⟨?_, fun magic => ?_⟩
  · rw [blockBody]
    simp only [field_length budget]
    repeat' split
    all_goals first
      | exact ⟨_, rfl⟩
      | omega
  · rw [sectionBlock, magic]
    simp only [field_length budget]
    split
    next => exact ⟨_, rfl⟩
    next =>
      rw [if_pos (.inl short)]
      exact ⟨_, rfl⟩

end Framing

section Blocks

variable {r : Record} {interfaceId ticks originalLength : Nat} {data padding options head : Bytes}

theorem sectionOrder_magic (order : ByteOrder) : sectionOrder (order.word 4 0x1a2b3c4d) = some order := by
  cases order <;> decide

theorem word_shb (order : ByteOrder) : order.word 4 0x0a0d0d0a = pcapngShb := by
  cases order <;> decide

theorem word_other {type : Nat} (fits : type < 2 ^ 32) (other : type ≠ 0x0a0d0d0a) :
    order.word 4 type ≠ pcapngShb := by
  intro same
  rw [← word_shb order] at same
  have := congrArg order.value same
  rw [order.value_word (by omega), order.value_word (by norm_num)] at this
  exact other this

theorem Record.Fit.section_of_type (fit : r.Fit s) (its : r.2.type = 0x0a0d0d0a) :
    ∃ minor sectionLength options, r.2 = .section minor sectionLength options ∧ sectionLength.length = 8 := by
  obtain ⟨order, block⟩ := r
  have own := fit.block
  cases block with
  | «section» minor sectionLength options => exact ⟨minor, sectionLength, options, rfl, own.2⟩
  | interface | enhanced | obsolete | simple => exact absurd its (by dsimp only [Block.type]; decide)
  | unknown type body =>
    have its : type = 0x0a0d0d0a := its
    subst its
    exact absurd own.2 (by decide)

theorem Record.Fit.type_lt (fit : r.Fit s) : r.2.type < 2 ^ 32 := by
  obtain ⟨order, block⟩ := r
  have own := fit.block
  cases block with
  | unknown type body => exact own.1
  | «section» | interface | enhanced | obsolete | simple => dsimp only [Block.type]; norm_num

theorem first_magic {minor : Nat} {sectionLength first tail : Bytes}
    (framed : Framed order 0x0a0d0d0a (Block.body order (.section minor sectionLength options)) first tail) :
    first = order.word 4 0x1a2b3c4d := by
  rcases framed.parts with ⟨empty, -⟩ | ⟨later, split, -⟩
  · have := congrArg List.length empty
    simp [Block.body] at this
  · exact (List.append_inj_left split (by rw [framed.four, order.length_word])).symm

theorem sectionBlock_framed {minor : Nat} {sectionLength first tail : Bytes}
    (eight : sectionLength.length = 8)
    (framed : Framed order 0x0a0d0d0a (Block.body order (.section minor sectionLength options)) first tail)
    (aligned : (Block.body order (.section minor sectionLength options)).length % 4 = 0)
    (budget : 12 + (Block.body order (.section minor sectionLength options)).length ≤ maxBlockBytes) :
    sectionBlock s (blockPrefix order 0x0a0d0d0a (Block.body order (.section minor sectionLength options)) first)
      (tail ++ more) = .ok (some (none, { s with order := order, interfaces := [] }, more)) := by
  have small := budget
  rw [maxBlockBytes] at small
  have major : field order (Block.body order (.section minor sectionLength options)) 4 2 = 1 := by
    simp [Block.body]
  have long : 16 ≤ (Block.body order (.section minor sectionLength options)).length := by
    simp [Block.body, eight]
    omega
  generalize whole : Block.body order (.section minor sectionLength options) = body at *
  have magic : slice (blockPrefix order 0x0a0d0d0a body first) 8 12 = order.word 4 0x1a2b3c4d := by
    rw [slice_first framed]
    subst whole
    exact first_magic framed
  rw [sectionBlock, magic, sectionOrder_magic]
  simp only [field_length budget, (take_tail framed).1, (take_tail framed).2]
  rw [if_neg (not_not.mpr ⟨by omega, by omega, budget⟩)]
  rcases framed.parts with ⟨empty, -⟩ | ⟨later, split, trailed⟩
  · rw [empty] at long
    exact absurd long (by decide)
  · obtain ⟨at_end, before⟩ := @last_split later _ (order.length_word 4 (12 + body.length))
    have same : order.word 4 0x1a2b3c4d ++ later = body := by
      rw [split, ← magic, slice_first framed]
    rw [framed.rest, trailed, at_end, before, order.value_word (by omega), if_neg (by omega), same, major,
      if_neg (not_not.mpr rfl)]

theorem timedPacket_fit (fit : FitPacket s.interfaces[interfaceId]? ticks originalLength data padding)
    (twenty : head.length = 20) :
    (timedPacket s (head ++ (data ++ padding ++ options)) interfaceId (ticks / 2 ^ 32) (ticks % 2 ^ 32) data.length
      originalLength).map (fun p => (some p, { s with frameNumber := s.frameNumber + 1 })) =
      .ok (timed s interfaceId ticks originalLength data) := by
  obtain ⟨row, at_id, snapped⟩ := fit.snapped
  have padded := fit.padding
  have own : slice (head ++ (data ++ padding ++ options)) 20 (20 + data.length) = data := by
    rw [slice_skip (by omega), twenty, Nat.sub_self, Nat.add_sub_cancel_left, List.append_assoc, slice_zero rfl]
  have budget := fit.budget
  have complete := fit.complete
  rw [timedPacket, timed, at_id]
  dsimp only
  rw [own, if_neg (by simp only [List.length_append]; omega), Nat.div_add_mod']
  rfl

theorem length_padding (length : Nat) : length ≤ padded length := by
  rw [padded]
  omega

theorem value_lt {o : InterfaceOption} (fit : o.Fit) : o.code < 2 ^ 16 ∧ (o.value order).length < 2 ^ 16 := by
  cases o with
  | resolution =>
    rw [InterfaceOption.code, InterfaceOption.value, List.length_singleton]
    norm_num
  | offset seconds =>
    rw [InterfaceOption.code, InterfaceOption.value, order.length_word]
    norm_num
  | other code value => exact fit.2.2.2

theorem code_zero {o : InterfaceOption} (fit : o.Fit) : o.code ≠ 0 := by
  cases o with
  | resolution | offset => exact nofun
  | other code value => exact fit.1

theorem signed_offset {seconds : Int} (fit : -2 ^ 63 ≤ seconds ∧ seconds < 2 ^ 63) :
    signed (order.value (order.word 8 (seconds % 2 ^ 64).toNat)) = seconds := by
  rw [order.value_word (by omega), signed]
  split <;> omega

theorem interfaceTiming_option {o : InterfaceOption} (fit : o.Fit) (before : ℚ × ℚ) :
    interfaceTiming order (o.encode order ++ rest) before.1 before.2 =
      interfaceTiming order rest (o.timing before).1 (o.timing before).2 := by
  obtain ⟨code_lt, length_lt⟩ := @value_lt order o fit
  have split : o.encode order ++ rest = order.word 2 o.code ++ (order.word 2 (o.value order).length ++
      (o.value order ++ (List.replicate (padded (o.value order).length - (o.value order).length) 0 ++ rest))) := by
    simp only [InterfaceOption.encode, List.append_assoc]
  have code : field order (o.encode order ++ rest) 0 2 = o.code := by
    rw [split, field_word (by omega)]
  have length : field order (o.encode order ++ rest) 2 2 = (o.value order).length := by
    rw [split, field_skip (by rw [order.length_word]), order.length_word, Nat.sub_self, field_word (by omega)]
  have behind : (o.encode order ++ rest).drop 4 = o.value order ++
      (List.replicate (padded (o.value order).length - (o.value order).length) 0 ++ rest) := by
    rw [split, ← List.append_assoc]
    exact List.drop_left' (by simp)
  have padding := length_padding (o.value order).length
  have next : (o.value order ++ (List.replicate (padded (o.value order).length - (o.value order).length) 0 ++
      rest)).drop (padded (o.value order).length) = rest := by
    rw [← List.append_assoc]
    exact List.drop_left' (by simp; omega)
  rw [interfaceTiming]
  simp only [code, length, behind, List.take_left, next]
  rw [if_neg (by rw [split]; simp; omega), if_neg (code_zero fit), if_neg (by simp; omega)]
  cases o with
  | resolution binary exponent =>
    have fit : exponent < 0x80 := fit
    cases binary with
    | true =>
      have raw : (0x80 + exponent) % 256 = 0x80 + exponent := by omega
      simp [InterfaceOption.code, InterfaceOption.value, InterfaceOption.timing, raw, Nat.mod_eq_of_lt fit]
    | false =>
      have raw : exponent % 256 = exponent := by omega
      simp [InterfaceOption.code, InterfaceOption.value, InterfaceOption.timing, raw, not_le.mpr fit]
  | offset seconds =>
    simp only [InterfaceOption.code, InterfaceOption.value, InterfaceOption.timing, ByteOrder.length_word,
      signed_offset fit, Nat.reduceEqDiff, ↓reduceIte, ne_eq, not_true_eq_false]
  | other code value =>
    simp [InterfaceOption.code, InterfaceOption.timing, fit.2.1, fit.2.2.1]

theorem interfaceTiming_options {interfaceOptions : List InterfaceOption} (fit : ∀ o ∈ interfaceOptions, o.Fit)
    (ended : Bool) (before : ℚ × ℚ) :
    interfaceTiming order (interfaceOptions.flatMap (·.encode order) ++ if ended then [0, 0, 0, 0] else []) before.1
      before.2 = .ok (interfaceOptions.foldl InterfaceOption.timing before) := by
  induction interfaceOptions generalizing before with
  | nil =>
    rw [List.flatMap_nil, List.nil_append, interfaceTiming]
    cases ended with
    | true => cases order <;> rfl
    | false => rfl
  | cons o interfaceOptions ih =>
    rw [List.flatMap_cons, List.append_assoc, interfaceTiming_option (fit o List.mem_cons_self)]
    exact ih (fun o mem => fit o (List.mem_cons_of_mem _ mem)) _

theorem interfaceBlock_body {linkType snaplen : Nat} {interfaceOptions : List InterfaceOption} {ended : Bool}
    (fit : Block.Fit s (.interface linkType snaplen interfaceOptions ended)) :
    interfaceBlock order (Block.body order (.interface linkType snaplen interfaceOptions ended)) =
      .ok (interfaceRow linkType snaplen interfaceOptions) := by
  obtain ⟨linkType_lt, snapped, own⟩ := fit
  have small := snapped
  rw [maxPacketBytes] at small
  have link : field order (Block.body order (.interface linkType snaplen interfaceOptions ended)) 0 2 = linkType := by
    simp [Block.body, show linkType < 65536 by omega]
  have snap : field order (Block.body order (.interface linkType snaplen interfaceOptions ended)) 4 4 = snaplen := by
    simp [Block.body, show snaplen < 4294967296 by omega]
  have later : (Block.body order (.interface linkType snaplen interfaceOptions ended)).drop 8 =
      interfaceOptions.flatMap (·.encode order) ++ if ended then [0, 0, 0, 0] else [] :=
    List.drop_left' (by simp)
  rw [interfaceBlock]
  simp only [link, snap, later]
  rw [if_neg (by simp only [Block.body, List.length_append, ByteOrder.length_word]; omega),
    if_neg (not_lt.mpr snapped), interfaceTiming_options own ended (1 / 1000000, 0)]
  rfl

theorem packet_fields {packet : Bytes} (start : Bytes) {w x y z : Nat}
    (whole : packet = start ++ order.word 4 w ++ order.word 4 x ++ order.word 4 y ++ order.word 4 z ++ rest)
    (four : start.length = 4) (hw : w < 2 ^ 32) (hx : x < 2 ^ 32) (hy : y < 2 ^ 32) (hz : z < 2 ^ 32) :
    20 ≤ packet.length ∧ field order packet 4 4 = w ∧ field order packet 8 4 = x ∧ field order packet 12 4 = y ∧
      field order packet 16 4 = z := by
  subst whole
  refine ⟨?_, ?_, ?_, ?_, ?_⟩
  · simp only [List.length_append, ByteOrder.length_word]
    omega
  · simp [four, show w < 4294967296 from hw]
  · simp [four, show x < 4294967296 from hx]
  · simp [four, show y < 4294967296 from hy]
  · simp [four, show z < 4294967296 from hz]

theorem FitPacket.words {row? : Option NgInterface}
    (fit : FitPacket row? ticks originalLength data padding) :
    ticks / 2 ^ 32 < 2 ^ 32 ∧ ticks % 2 ^ 32 < 2 ^ 32 ∧ data.length < 2 ^ 32 := by
  have ticks_lt := fit.ticks
  have small := fit.budget
  rw [maxPacketBytes] at small
  omega

theorem blockEffect_body (b : Block) (fit : b.Fit s) (other : b.type ≠ 0x0a0d0d0a) :
    blockEffect s b.type (b.body s.order) = .ok (meaning s (s.order, b)) := by
  cases b with
  | «section» => exact absurd rfl other
  | interface linkType snaplen interfaceOptions ended =>
    rw [blockEffect, Block.type, if_pos rfl, interfaceBlock_body fit]
    rfl
  | enhanced interfaceId ticks originalLength data padding options =>
    obtain ⟨id_lt, packet⟩ := fit
    obtain ⟨high_lt, low_lt, captured_lt⟩ := packet.words
    have body : Block.body s.order (.enhanced interfaceId ticks originalLength data padding options) = _ := rfl
    obtain ⟨long, high, low, captured, original⟩ := packet_fields (s.order.word 4 interfaceId) body
      (s.order.length_word 4 interfaceId) high_lt low_lt captured_lt packet.original
    have interface : field s.order (Block.body s.order (.enhanced interfaceId ticks originalLength data padding
        options)) 0 4 = interfaceId := by
      simp [Block.body, show interfaceId < 4294967296 from id_lt]
    rw [blockEffect, Block.type, if_neg (by decide), if_pos rfl, enhancedBlock, if_neg (not_lt.mpr long), interface,
      high, low, captured, original]
    exact timedPacket_fit packet (by simp)
  | obsolete interfaceId drops ticks originalLength data padding options =>
    obtain ⟨id_lt, drops_lt, packet⟩ := fit
    obtain ⟨high_lt, low_lt, captured_lt⟩ := packet.words
    have body : Block.body s.order (.obsolete interfaceId drops ticks originalLength data padding options) = _ := rfl
    obtain ⟨long, high, low, captured, original⟩ := packet_fields
      (s.order.word 2 interfaceId ++ s.order.word 2 drops) body (by simp) high_lt low_lt captured_lt packet.original
    have interface : field s.order (Block.body s.order (.obsolete interfaceId drops ticks originalLength data padding
        options)) 0 2 = interfaceId := by
      simp [Block.body, show interfaceId < 65536 from id_lt]
    rw [blockEffect, Block.type, if_neg (by decide), if_neg (by decide), if_pos rfl, obsoleteBlock,
      if_neg (not_lt.mpr long), interface, high, low, captured, original]
    exact timedPacket_fit packet (by simp)
  | simple originalLength data padding =>
    obtain ⟨packet, least⟩ := fit
    obtain ⟨row, at_head, -⟩ := packet.snapped
    have original :
        field s.order (Block.body s.order (.simple originalLength data padding)) 0 4 = originalLength := by
      have := packet.original
      simp [Block.body, show originalLength < 4294967296 by omega]
    have captured : min originalLength row.snaplen = data.length := (least row at_head).symm
    have own : slice (Block.body s.order (.simple originalLength data padding)) 4 (4 + data.length) = data := by
      rw [Block.body, slice_skip (by rw [s.order.length_word]), s.order.length_word, Nat.sub_self,
        Nat.add_sub_cancel_left, slice_zero rfl]
    have padded := packet.padding
    have budget := packet.budget
    obtain ⟨rows, interfaces⟩ : ∃ rows, s.interfaces = row :: rows := List.head?_eq_some_iff.mp at_head
    have simple : simpleBlock s (Block.body s.order (.simple originalLength data padding)) =
        .ok (some (packetOf (s.frameNumber + 1) row 0 0 originalLength data)) := by
      rw [simpleBlock, interfaces]
      simp only [original, captured, own]
      rw [if_neg (by simp [Block.body]), if_neg (by simp [Block.body]; omega), if_neg (by omega)]
      rfl
    rw [blockEffect, Block.type, if_neg (by decide), if_neg (by decide), if_neg (by decide), if_pos rfl, simple,
      meaning, at_head]
    rfl
  | unknown type body =>
    have types := fit.2
    simp only [List.mem_cons, List.not_mem_nil, or_false, not_or] at types
    rw [blockEffect, Block.type, if_neg types.1, if_neg types.2.2.2.1, if_neg types.2.1, if_neg types.2.2.1]
    rfl

theorem word_prefix :
    (blockPrefix order type body first).take 4 = order.word 4 type := by
  rw [blockPrefix, List.append_assoc]
  exact List.take_left' (order.length_word 4 type)

theorem pcapngPass_encode (fit : r.Fit s) :
    pcapngPass s (encodeRecord r ++ more) = .ok (some ((meaning s r).1, (meaning s r).2, more)) := by
  obtain ⟨order, block⟩ := r
  obtain ⟨first, tail, framed, encoded⟩ := encode_framed order block fit.aligned
  have whole := length_blockPrefix framed
  rw [encoded, List.append_assoc, pcapngPass, List.take_left' whole, List.drop_left' whole,
    if_neg (List.ne_nil_of_length_pos (by omega)), if_neg (not_not.mpr whole), word_prefix]
  by_cases its : block.type = 0x0a0d0d0a
  · obtain ⟨minor, sectionLength, options, rfl, eight⟩ := fit.section_of_type its
    rw [if_pos (show order.word 4 (Block.type (.section minor sectionLength options)) = pcapngShb from
      word_shb order)]
    exact sectionBlock_framed eight framed fit.aligned fit.budget
  · obtain rfl : order = s.order := fit.order.resolve_right its
    rw [if_neg (word_other fit.type_lt its), blockBody_framed framed fit.aligned fit.budget]
    dsimp only
    rw [field_type fit.type_lt, blockEffect_body block fit.block its]
    rfl

theorem pcapngPass_cut (fit : r.Fit s) {j : Nat} (some : 0 < j) (short : j < (encodeRecord r).length) :
    ∃ e, pcapngPass s ((encodeRecord r).take j) = .error e := by
  obtain ⟨order, block⟩ := r
  rw [pcapngPass]
  by_cases inside : j < 12
  · obtain ⟨nonempty, unfinished⟩ := take_header some inside short
    rw [if_neg nonempty, if_pos unfinished]
    exact ⟨_, rfl⟩
  · obtain ⟨first, tail, framed, encoded⟩ := encode_framed order block fit.aligned
    have whole := length_blockPrefix framed
    have cut : (encodeRecord (order, block)).take j =
        blockPrefix order block.type (block.body order) first ++ tail.take (j - 12) := by
      rw [encoded, List.take_append, List.take_of_length_le (by omega), whole]
    have missing : (tail.take (j - 12)).length < (block.body order).length := by
      rw [encoded, List.length_append, whole] at short
      rw [← framed.rest, List.length_take]
      omega
    rw [cut, List.take_left' whole, List.drop_left' whole, if_neg (List.ne_nil_of_length_pos (by omega)),
      if_neg (not_not.mpr whole), word_prefix]
    obtain ⟨unread, unsectioned⟩ := @block_missing order s _ _ first block.type fit.budget missing
    by_cases its : block.type = 0x0a0d0d0a
    · obtain ⟨minor, sectionLength, options, rfl, -⟩ := fit.section_of_type its
      rw [if_pos (show order.word 4 (Block.type (.section minor sectionLength options)) = pcapngShb from
      word_shb order)]
      refine unsectioned ?_
      rw [slice_first framed, first_magic framed, sectionOrder_magic]
    · obtain rfl : order = s.order := fit.order.resolve_right its
      obtain ⟨e, failed⟩ := unread
      rw [if_neg (word_other fit.type_lt its), failed]
      exact ⟨e, rfl⟩

end Blocks

section Files

/-- The numbers go on one by one. -/
def Numbered (start : Nat) (packets : List NativeCapturePacket) : Prop :=
  packets.map NativeCapturePacket.frameNumber = List.range' (start + 1) packets.length

theorem Numbered.cons {p : NativeCapturePacket} {packets : List NativeCapturePacket}
    (own : p.frameNumber = start + 1) (rest : Numbered (start + 1) packets) : Numbered start (p :: packets) := by
  rw [Numbered, List.map_cons, own, List.length_cons, List.range'_succ, rest]

theorem numbered_pcap (f : PcapFile) (records : List PcapRecord) (start : Nat) :
    Numbered start (yields f.meaning start records) := by
  induction records generalizing start with
  | nil => rfl
  | cons r records ih => exact .cons rfl (ih (start + 1))

theorem length_yields_pcap (f : PcapFile) (records : List PcapRecord) (start : Nat) :
    (yields f.meaning start records).length = records.length := by
  induction records generalizing start with
  | nil => rfl
  | cons r records ih => exact congrArg (· + 1) (ih (start + 1))

theorem numbered_meaning {r : Record} (fit : r.Fit s) :
    (meaning s r).1 = none ∧ (meaning s r).2.frameNumber = s.frameNumber ∨
      ∃ p, (meaning s r).1 = some p ∧ p.frameNumber = s.frameNumber + 1 ∧
        (meaning s r).2.frameNumber = s.frameNumber + 1 := by
  obtain ⟨order, block⟩ := r
  have block_fit := fit.block
  cases block with
  | «section» | interface | unknown => exact .inl ⟨rfl, rfl⟩
  | enhanced =>
    obtain ⟨row, at_id, -⟩ := block_fit.2.snapped
    exact .inr ⟨_, by rw [meaning, timed, at_id]; rfl, rfl, rfl⟩
  | obsolete =>
    obtain ⟨row, at_id, -⟩ := block_fit.2.2.snapped
    exact .inr ⟨_, by rw [meaning, timed, at_id]; rfl, rfl, rfl⟩
  | simple =>
    obtain ⟨row, at_head, -⟩ := block_fit.1.snapped
    exact .inr ⟨_, by rw [meaning, at_head]; rfl, rfl, rfl⟩

theorem numbered_pcapng {records : List Record} (fits : Fits meaning Record.Fit s records) :
    Numbered s.frameNumber (yields meaning s records) := by
  induction records generalizing s with
  | nil => rfl
  | cons r records ih =>
    have rest := ih fits.2
    rw [yields]
    rcases numbered_meaning fits.1 with ⟨none, same⟩ | ⟨p, some, own, next⟩
    · rw [none]
      rwa [same] at rest
    · rw [some]
      rw [next] at rest
      exact .cons own rest

theorem take_bounded {packets : List NativeCapturePacket} (count : packets.length ≤ maxPackets) (limit : Int) :
    packets.take (max 0 (min limit maxPackets)).toNat = packets.take limit.toNat := by
  by_cases within : limit ≤ maxPackets
  · rw [min_eq_left within, show (max 0 limit).toNat = limit.toNat by omega]
  · rw [List.take_of_length_le (by omega), List.take_of_length_le (by omega)]

theorem iterPackets_short {limit : Int} (short : bytes.length < 4) : (iterPackets bytes limit).1 = [] := by
  have four : (bytes.take 4).length ≠ 4 := by
    rw [List.length_take]
    omega
  have unknown : pcapMagic.lookup (bytes.take 4) = none := by
    rw [List.lookup_eq_none_iff]
    refine fun row mem => bne_iff_ne.mpr fun same => four ?_
    rw [same]
    exact (by decide : ∀ row ∈ pcapMagic, row.1.length = 4) row mem
  rw [iterPackets]
  simp only [unknown]
  rw [if_neg nofun, if_neg (fun same => four (by rw [same]; rfl))]

section Exact

variable {f : PcapFile} {records : List Record} {limit : Int}

theorem pcap_read (valid : f.Valid) (limit : Nat) :
    (pcapReader f.parsed).read limit 0 (f.records.flatMap f.encode) =
        ((yields f.meaning 0 f.records).take limit, none) ∧
      ∀ k, ((pcapReader f.parsed).read limit 0 ((f.records.flatMap f.encode).take k)).1 =
        (yields f.meaning 0 (complete f.encode f.records k)).take limit :=
  Reader.read_exact (pcapReader f.parsed) f.meaning (fun _ r => f.Fit r) f.encode
    (fun frameNumber _ _ fit => pcapPass_encode valid fit frameNumber)
    (fun _ => rfl) (fun frameNumber _ _ fit some short => pcapPass_cut valid fit frameNumber some short)
    (pcap_fits valid.records 0) limit

theorem pcapng_read (valid : ValidPcapng records) (limit : Nat) :
    pcapngReader.read limit {} (records.flatMap encodeRecord) = ((yields meaning {} records).take limit, none) ∧
      ∀ k, (pcapngReader.read limit {} ((records.flatMap encodeRecord).take k)).1 =
        (yields meaning {} (complete encodeRecord records k)).take limit :=
  Reader.read_exact pcapngReader meaning Record.Fit encodeRecord (fun _ _ _ fit => pcapngPass_encode fit)
    (fun _ => rfl)
    (fun _ _ _ fit some short => pcapngPass_cut fit some short) valid.fits limit

theorem PcapFile.take_header {k : Nat} (enough : 24 ≤ k) :
    f.bytes.take k = f.header ++ (f.records.flatMap f.encode).take (k - 24) := by
  rw [PcapFile.bytes, List.take_append, f.length_header, List.take_of_length_le (by rw [f.length_header]; omega)]

theorem PcapFile.take_magic : f.header.take 4 = f.magic := by
  rw [PcapFile.header]
  simp only [List.append_assoc]
  exact List.take_left' (f.order.length_word 4 _)

theorem iterPackets_pcap (valid : f.Valid) (later : Bytes) :
    iterPackets (f.header ++ later) limit =
      (pcapReader f.parsed).read (max 0 (min limit maxPackets)).toNat 0 later := by
  have magic : (f.header ++ later).take 4 = f.magic := by
    rw [List.take_append_of_le_length (by rw [f.length_header]; norm_num), f.take_magic]
  rw [iterPackets]
  simp only [magic, f.magic_lookup]
  rw [if_pos Option.isSome_some, iterPcap, List.take_left' f.length_header, List.drop_left' f.length_header,
    pcapHeader_header valid]

theorem iterPackets_pcap_short {k : Nat} (short : k < 24) : (iterPackets (f.bytes.take k) limit).1 = [] := by
  have cut : f.bytes.take k = f.header.take k := by
    rw [PcapFile.bytes, List.take_append_of_le_length (by rw [f.length_header]; omega)]
  have length : (f.header.take k).length = k := by
    rw [List.length_take, f.length_header]
    omega
  rw [cut]
  by_cases unknown : k < 4
  · exact iterPackets_short (by omega)
  · have magic : (f.header.take k).take 4 = f.magic := by
      rw [List.take_take, min_eq_left (by omega), f.take_magic]
    rw [iterPackets]
    simp only [magic, f.magic_lookup]
    rw [if_pos Option.isSome_some, iterPcap, List.take_of_length_le (by omega), pcapHeader, if_pos (by omega)]

theorem pcapng_magic (valid : ValidPcapng records) {k : Nat} (enough : 4 ≤ k) :
    ((records.flatMap encodeRecord).take k).take 4 = pcapngShb := by
  obtain ⟨first, rest, rfl, its⟩ := valid.starts
  rw [List.take_take, min_eq_left enough, List.flatMap_cons, encodeRecord, its]
  simp only [List.append_assoc]
  rw [List.take_left' (first.1.length_word 4 _), word_shb]

theorem iterPackets_pcapng (magic : bytes.take 4 = pcapngShb) :
    iterPackets bytes limit = pcapngReader.read (max 0 (min limit maxPackets)).toNat {} bytes := by
  rw [iterPackets]
  simp only [magic]
  rw [if_neg (by decide), if_pos trivial, iterPcapng]

end Exact

/-- The reader yields exactly the packets of a file, numbered from 1 and up to the limit, and ends without an error;
and of the file's first `k` bytes it yields the packets of the complete records. -/
theorem iterPackets_exact (file : CaptureFile) (valid : file.Valid) :
    Numbered 0 file.packets ∧
    (∀ limit : Int, iterPackets file.bytes limit = (file.packets.take limit.toNat, none)) ∧
    ∀ (limit : Int) (k : Nat), (iterPackets (file.bytes.take k) limit).1 =
      (file.packetsWithin k).take limit.toNat := by
  cases file with
  | pcap f =>
    have valid : f.Valid := valid
    have count : (yields f.meaning 0 f.records).length ≤ maxPackets :=
      (length_yields_pcap f f.records 0).trans_le valid.count
    refine ⟨numbered_pcap f f.records 0, fun limit => ?_, fun limit k => ?_⟩
    · exact (iterPackets_pcap valid _).trans ((pcap_read valid _).1.trans (by
        rw [take_bounded count]
        rfl))
    · dsimp only [CaptureFile.bytes, CaptureFile.packetsWithin]
      by_cases short : k < 24
      · rw [iterPackets_pcap_short short, complete_none fun r _ => ?_]
        · exact List.take_nil.symm
        · simp only [PcapFile.encode, List.length_append, ByteOrder.length_word]
          omega
      · rw [PcapFile.take_header (not_lt.mp short), iterPackets_pcap valid, (pcap_read valid _).2,
          take_bounded (((yields_complete _ _ _).length_le).trans count)]
  | pcapng records =>
    have valid : ValidPcapng records := valid
    refine ⟨numbered_pcapng valid.fits, fun limit => ?_, fun limit k => ?_⟩
    · obtain ⟨first, rest, some, -⟩ := valid.starts
      have magic := pcapng_magic valid (k := (records.flatMap encodeRecord).length) (by
        simp only [some, List.flatMap_cons, encodeRecord, List.length_append, ByteOrder.length_word]
        omega)
      rw [List.take_length] at magic
      exact (iterPackets_pcapng magic).trans ((pcapng_read valid _).1.trans (by
        rw [take_bounded valid.count]
        rfl))
    · dsimp only [CaptureFile.bytes, CaptureFile.packetsWithin]
      by_cases short : k < 4
      · rw [iterPackets_short (by rw [List.length_take]; omega), complete_none fun r _ => ?_]
        · exact List.take_nil.symm
        · simp only [encodeRecord, List.length_append, ByteOrder.length_word]
          omega
      · rw [iterPackets_pcapng (pcapng_magic valid (not_lt.mp short)), (pcapng_read valid _).2,
          take_bounded (((yields_complete _ _ _).length_le).trans valid.count)]

/-- A section of one interface, whose packet follows a block that is skipped. -/
def sampleRecords : List Record :=
  [(.big, .section 0 (List.replicate 8 0xff) []), (.big, .interface 1 0 [.resolution false 9] true),
   (.big, .unknown 4 [0, 0, 0, 0]), (.big, .enhanced 0 5 3 [1, 2, 3] [0] [])]

theorem sample_valid : ValidPcapng sampleRecords where
  starts := ⟨_, _, rfl, rfl⟩
  fits := by
    refine ⟨⟨.inr rfl, by decide, by decide, by decide, by decide⟩,
      ⟨.inl rfl, by decide, by decide, by decide, by decide, ?_⟩,
      ⟨.inl rfl, by decide, by decide, by decide, by decide⟩,
      ⟨.inl rfl, by decide, by decide, by decide, ⟨by decide, by decide, by decide, by decide, by decide, _, rfl,
        by decide⟩⟩, trivial⟩
    intro o mem
    obtain rfl := List.mem_singleton.mp mem
    exact (by decide : 9 < 0x80)
  count := by decide

theorem iterPackets_sample :
    Numbered 0 (CaptureFile.pcapng sampleRecords).packets ∧
    (∀ limit : Int, iterPackets (CaptureFile.pcapng sampleRecords).bytes limit =
      ((CaptureFile.pcapng sampleRecords).packets.take limit.toNat, none)) ∧
    ∀ (limit : Int) (k : Nat), (iterPackets ((CaptureFile.pcapng sampleRecords).bytes.take k) limit).1 =
      ((CaptureFile.pcapng sampleRecords).packetsWithin k).take limit.toNat :=
  iterPackets_exact (.pcapng sampleRecords) sample_valid

end Files

end Arenyxa.Capture.Native
