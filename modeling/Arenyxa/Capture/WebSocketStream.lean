import Arenyxa.Capture.WebSocket
import Arenyxa.Lib.Records
import Mathlib.Data.List.GetD

/-! What the decoder makes of a sequence of frames, whole or cut at any byte. -/

namespace Arenyxa.Capture.WebSocket

open Words Records

/-- The three forms of a payload length. -/
inductive LengthForm
  | seven
  | sixteen
  | sixtyFour

namespace LengthForm

def Fits : LengthForm → Nat → Prop
  | seven, length => length ≤ 125
  | sixteen, length => length < 256 ^ 2
  | sixtyFour, length => length < 2 ^ 63

/-- The seven bits of a length in the second byte. -/
def code : LengthForm → Nat → Nat
  | seven, length => length
  | sixteen, _ => 126
  | sixtyFour, _ => 127

/-- The bytes of a length after the second one. -/
def width : LengthForm → Nat
  | seven => 0
  | sixteen => 2
  | sixtyFour => 8

instance (form : LengthForm) (length : Nat) : Decidable (form.Fits length) := by
  cases form <;> (simp only [Fits]; infer_instance)

theorem code_lt {form : LengthForm} {length : Nat} (fits : form.Fits length) :
    form.code length < 128 := by
  cases form with
  | seven => exact Nat.lt_of_le_of_lt fits (by decide)
  | sixteen | sixtyFour => simp [code]

end LengthForm

/-- A frame, with its payload as it was before masking. -/
structure Frame where
  fin : Bool
  rsv : Fin 8
  opcode : Fin 16
  form : LengthForm
  mask : Option {key : Bytes // key.length = 4}
  payload : Bytes
  fits : form.Fits payload.length

namespace Frame

def masked (f : Frame) : Bool := f.mask.isSome

def key (f : Frame) : Bytes := (f.mask.map Subtype.val).getD []

def first (f : Frame) : UInt8 := UInt8.ofNat ((if f.fin then 128 else 0) + 16 * f.rsv + f.opcode)

def second (f : Frame) : UInt8 :=
  UInt8.ofNat ((if f.masked then 128 else 0) + f.form.code f.payload.length)

def extended (f : Frame) : Bytes := word f.form.width f.payload.length

/-- Masking and unmasking are the same operation. -/
def body (f : Frame) : Bytes := if f.masked then unmask f.key f.payload else f.payload

def encode (f : Frame) : Bytes := f.first :: f.second :: (f.extended ++ (f.key ++ f.body))

def data (f : Frame) : Prop := f.opcode.val = 1 ∨ f.opcode.val = 2

def continuation (f : Frame) : Prop := f.opcode.val = 0

instance (f : Frame) : Decidable f.data := inferInstanceAs (Decidable (_ ∨ _))

instance (f : Frame) : Decidable f.continuation := inferInstanceAs (Decidable (_ = _))

end Frame

/-- The bytes of the message that is open before a frame, and after it. A data frame opens one unless it
is final, and only a final continuation closes it. -/
def advance (message : Option Nat) (f : Frame) : Option Nat :=
  match message with
  | none => if f.data ∧ f.fin = false then some f.payload.length else none
  | some bytes =>
    if f.continuation then if f.fin then none else some (bytes + f.payload.length) else some bytes

section Advance

variable {f : Frame} {bytes : Nat}

theorem advance_idle (idle : ¬ (f.data ∧ f.fin = false)) : advance none f = none := if_neg idle

theorem advance_start (data : f.data) (more : f.fin = false) : advance none f = some f.payload.length :=
  if_pos ⟨data, more⟩

theorem advance_other (other : ¬ f.continuation) : advance (some bytes) f = some bytes := if_neg other

theorem advance_final (continuation : f.continuation) (final : f.fin = true) :
    advance (some bytes) f = none := by
  rw [advance, if_pos continuation, if_pos final]

theorem advance_continued (continuation : f.continuation) (more : f.fin = false) :
    advance (some bytes) f = some (bytes + f.payload.length) := by
  rw [advance, if_pos continuation, if_neg (by rw [more]; exact Bool.false_ne_true)]

end Advance

/-- The bytes of the message that a sequence of frames leaves open. -/
def unfinished (frames : List Frame) : Option Nat := frames.foldl advance none

/-- A sequence that the decoder's budgets admit: its frames, their payloads, and the messages they form. -/
structure Budgeted (frames : List Frame) : Prop where
  count : frames.length ≤ maxFrames
  payload : ∀ f ∈ frames, f.payload.length ≤ maxPayloadBytes
  message : ∀ before f after, frames = before ++ f :: after → f.continuation →
    ∀ bytes ∈ unfinished before, bytes + f.payload.length ≤ maxPayloadBytes

def bytes (frames : List Frame) : Bytes := frames.flatMap Frame.encode

/-- The row states the frame: its place, its fields, the digest of its payload, and how it fragments. -/
structure FrameRow.Describes (hexdigest : Bytes → String) (before : List Frame) (f : Frame) (row : FrameRow) :
    Prop where
  offset : row.offset = (bytes before).length
  fin : row.fin = f.fin
  opcode : row.opcode = f.opcode
  masked : row.masked = f.masked
  payloadLength : row.payloadLength = f.payload.length
  payloadSha256 : row.payloadSha256 = hexdigest f.payload
  interrupts : row.protocolError = some .newDataFrameDuringFragmentation ↔
    f.data ∧ (unfinished before).isSome
  orphan : row.protocolError = some .continuationWithoutStart ↔ f.continuation ∧ unfinished before = none

/-- One row for each frame. -/
def RowsOf (hexdigest : Bytes → String) (frames : List Frame) (rows : List Row) : Prop :=
  rows.length = frames.length ∧ ∀ before f after, frames = before ++ f :: after →
    ∃ row, rows[before.length]? = some (.frame row) ∧ row.Describes hexdigest before f

def Row.TruncatedAt (offset : Nat) : Row → Prop
  | .headless start _ => start = offset
  | .truncated start _ _ => start = offset
  | _ => False

section Frames

variable {hexdigest : Bytes → String} {f : Frame} {pre post raw : Bytes} {start length j : Nat}
  {fragments : Fragments}

theorem first_fields (fin : Bool) (rsv : Fin 8) (opcode : Fin 16) :
    let b := UInt8.ofNat ((if fin then 128 else 0) + 16 * rsv + opcode)
    decide (b &&& 0x80 ≠ 0) = fin ∧ ((b >>> 4) &&& 0x07).toNat = rsv ∧ (b &&& 0x0F).toNat = opcode := by
  revert fin rsv opcode
  decide +kernel

theorem second_fields (masked : Bool) (code : Fin 128) :
    let b := UInt8.ofNat ((if masked then 128 else 0) + code)
    decide (b &&& 0x80 ≠ 0) = masked ∧ (b &&& 0x7F).toNat = code := by
  revert masked code
  decide +kernel

theorem Frame.second_code (f : Frame) :
    (f.second &&& 0x7F).toNat = f.form.code f.payload.length :=
  (second_fields f.masked ⟨_, LengthForm.code_lt f.fits⟩).2

theorem slice_append (pre post : Bytes) {x : Bytes} (at_start : start = pre.length) (whole : length = x.length) :
    slice (pre ++ (x ++ post)) start length = x := by
  subst at_start whole
  rw [slice, List.drop_left, List.take_left]

theorem unmask_unmask (mask payload : Bytes) : unmask mask (unmask mask payload) = payload := by
  refine List.ext_getElem? fun i => ?_
  rw [unmask, unmask, List.getElem?_mapIdx, List.getElem?_mapIdx, Option.map_map]
  cases payload[i]? with
  | none => rfl
  | some b =>
    rw [Option.map_some, Function.comp_apply, UInt8.xor_assoc, UInt8.xor_self, UInt8.xor_zero]

@[simp] theorem length_unmask (mask payload : Bytes) : (unmask mask payload).length = payload.length :=
  List.length_mapIdx

@[simp] theorem Frame.length_extended (f : Frame) : f.extended.length = f.form.width := length_word _ _

theorem Frame.length_key (f : Frame) : f.key.length = if f.masked then 4 else 0 := by
  rw [key, masked]
  cases f.mask with
  | none => rfl
  | some key => exact key.2

@[simp] theorem Frame.length_body (f : Frame) : f.body.length = f.payload.length := by
  rw [body]
  split
  · exact length_unmask _ _
  · rfl

theorem Frame.length_encode (f : Frame) :
    f.encode.length = 2 + f.form.width + f.key.length + f.payload.length := by
  rw [encode, List.length_cons, List.length_cons, List.length_append, List.length_append,
    length_extended, length_body]
  omega

theorem payloadLength_whole (f : Frame) (pre post : Bytes) (at_start : start = pre.length) :
    payloadLength (pre ++ (f.extended ++ post)) start f.second =
      (f.payload.length, start + f.form.width, none) := by
  have room : start + f.form.width ≤ (pre ++ (f.extended ++ post)).length := by
    simp only [List.length_append, f.length_extended]
    omega
  have read : slice (pre ++ (f.extended ++ post)) start f.form.width = f.extended :=
    slice_append pre post at_start f.length_extended.symm
  have fits := f.fits
  unfold payloadLength
  rw [f.second_code]
  cases at_form : f.form <;> rw [at_form] at fits room read <;>
    dsimp only [LengthForm.code, LengthForm.width] at room read ⊢
  case seven =>
    rw [if_neg (by intro is; rw [is] at fits; exact absurd fits (by decide)),
      if_neg (by intro is; rw [is] at fits; exact absurd fits (by decide))]
    rfl
  case sixteen =>
    rw [if_pos rfl, if_neg (Nat.not_lt.mpr room), read, Frame.extended, at_form,
      show value (word LengthForm.sixteen.width _) = _ from value_word fits]
  case sixtyFour =>
    rw [if_neg (by decide), if_pos rfl, if_neg (Nat.not_lt.mpr room), read, Frame.extended, at_form,
      show value (word LengthForm.sixtyFour.width _) = _ from
        value_word (Nat.lt_trans (show _ < _ from fits) (by decide)),
      if_neg (Nat.not_le.mpr fits)]

theorem payloadLength_cut (f : Frame) (pre : Bytes) (at_start : start = pre.length) (cut : j < f.form.width) :
    ∃ reason, reason ≠ .invalid64BitLength ∧
      payloadLength (pre ++ f.extended.take j) start f.second = (0, start, some reason) := by
  have short : (pre ++ f.extended.take j).length < start + f.form.width := by
    simp only [List.length_append, List.length_take, f.length_extended]
    omega
  unfold payloadLength
  rw [f.second_code]
  cases at_form : f.form <;> rw [at_form] at short cut <;>
    dsimp only [LengthForm.code, LengthForm.width] at short ⊢
  case seven => exact absurd cut (Nat.not_lt_zero j)
  case sixteen => exact ⟨.extendedLength16, nofun, by rw [if_pos rfl, if_pos short]⟩
  case sixtyFour =>
    exact ⟨.extendedLength64, nofun, by rw [if_neg (by decide), if_pos rfl, if_pos short]⟩

theorem framePayload_whole (f : Frame) (pre post : Bytes) (at_start : start = pre.length) :
    framePayload (pre ++ (f.key ++ (f.body ++ post))) start f.payload.length f.masked true =
      (f.payload, start + f.key.length + f.payload.length, none) := by
  have key := f.length_key
  have room : start + f.key.length + f.payload.length ≤ (pre ++ (f.key ++ (f.body ++ post))).length := by
    simp only [List.length_append, f.length_body]
    omega
  have masked : slice (pre ++ (f.key ++ (f.body ++ post))) start f.key.length = f.key :=
    slice_append pre _ at_start rfl
  have payload : slice (pre ++ (f.key ++ (f.body ++ post))) (start + f.key.length) f.payload.length =
      f.body := by
    rw [← List.append_assoc]
    exact slice_append _ post (by rw [List.length_append, at_start]) f.length_body.symm
  unfold framePayload
  cases with_mask : f.masked
  case false =>
    rw [with_mask, if_neg Bool.false_ne_true] at key
    rw [key] at room payload
    rw [if_neg (by simp), if_neg (by simpa using room), key]
    simp only [Bool.false_eq_true, if_false, Bool.false_and]
    rw [show slice _ start f.payload.length = f.body from payload, Frame.body, with_mask]
    rfl
  case true =>
    rw [with_mask, if_pos rfl] at key
    rw [key] at room payload masked
    rw [if_neg (by simp only [List.length_append] at room ⊢; omega)]
    simp only [if_true, Bool.and_self]
    rw [if_neg (Nat.not_lt.mpr room), masked, payload, Frame.body, with_mask, if_pos rfl,
      unmask_unmask, key]

theorem framePayload_cut (f : Frame) (pre : Bytes) (at_start : start = pre.length)
    (cut : j < f.key.length + f.payload.length) :
    ∃ cursor reason, start ≤ cursor ∧ reason ≠ .invalid64BitLength ∧
      framePayload (pre ++ (f.key ++ f.body).take j) start f.payload.length f.masked true =
        ([], cursor, some reason) := by
  have short : (pre ++ (f.key ++ f.body).take j).length < start + f.key.length + f.payload.length := by
    simp only [List.length_append, List.length_take, f.length_body]
    omega
  have key := f.length_key
  unfold framePayload
  by_cases no_key : f.masked = true ∧ (pre ++ (f.key ++ f.body).take j).length < start + 4
  · exact ⟨start, .maskKey, Nat.le_refl _, nofun, by rw [if_pos no_key]⟩
  · refine ⟨if f.masked then start + 4 else start, .payload, ?_, nofun, ?_⟩
    · split
      · exact Nat.le_add_right start 4
      · exact Nat.le_refl _
    · rw [if_neg no_key]
      refine if_pos ?_
      split
      next with_mask => rwa [key, if_pos with_mask] at short
      next without => rwa [key, if_neg without] at short

theorem header_bytes (f : Frame) (rest : Bytes) (at_start : start = pre.length) :
    ¬ (pre ++ f.first :: f.second :: rest).length < start + 2 ∧
      (pre ++ f.first :: f.second :: rest).getD start 0 = f.first ∧
      (pre ++ f.first :: f.second :: rest).getD (start + 1) 0 = f.second := by
  subst at_start
  refine ⟨by simp only [List.length_append, List.length_cons]; omega, ?_, ?_⟩
  · rw [List.getD_append_right _ _ _ _ (Nat.le_refl _), Nat.sub_self]
    rfl
  · rw [List.getD_append_right _ _ _ _ (Nat.le_succ _), Nat.succ_sub (Nat.le_refl _), Nat.sub_self]
    rfl

theorem Frame.first_fields (f : Frame) :
    decide (f.first &&& 0x80 ≠ 0) = f.fin ∧ ((f.first >>> 4) &&& 0x07).toNat = f.rsv ∧
      (f.first &&& 0x0F).toNat = f.opcode := WebSocket.first_fields f.fin f.rsv f.opcode

theorem Frame.second_masked (f : Frame) : decide (f.second &&& 0x80 ≠ 0) = f.masked :=
  (second_fields f.masked ⟨_, LengthForm.code_lt f.fits⟩).1

/-- The row of a frame and the state of fragmentation after it. -/
def Frame.decoded (hexdigest : Bytes → String) (f : Frame) (start : Nat) (fragments : Fragments) :
    FrameRow × Fragments :=
  fragmentState (frameRow hexdigest start f.fin f.rsv f.opcode f.masked f.payload.length f.payload)
    f.opcode f.fin f.payload.length fragments

theorem decodeFrame_whole (at_start : start = pre.length) (within : f.payload.length ≤ maxPayloadBytes) :
    decodeFrame hexdigest (pre ++ (f.encode ++ post)) start fragments true =
      ⟨.frame (f.decoded hexdigest start fragments).1, start + f.encode.length,
        (f.decoded hexdigest start fragments).2, false⟩ := by
  obtain ⟨room, first, second⟩ := header_bytes f (f.extended ++ (f.key ++ f.body) ++ post) at_start
  obtain ⟨fin, rsv, opcode⟩ := f.first_fields
  have length := payloadLength_whole f (pre ++ [f.first, f.second]) (f.key ++ (f.body ++ post))
    (show start + 2 = _ by simp [at_start])
  have payload := framePayload_whole f (pre ++ [f.first, f.second] ++ f.extended) post
    (show start + 2 + f.form.width = _ by simp [at_start]; omega)
  rw [Frame.encode, List.cons_append, List.cons_append]
  unfold decodeFrame
  rw [if_neg room, first, second]
  dsimp only
  rw [fin, rsv, opcode, f.second_masked]
  simp only [List.append_assoc, List.cons_append, List.nil_append] at length payload ⊢
  rw [length]
  dsimp only
  rw [if_neg (Nat.not_lt.mpr within), payload]
  refine congrArg (fun cursor => Decoded.mk _ cursor _ false) ?_
  simp only [List.length_cons, List.length_append, f.length_extended, f.length_body]
  omega

theorem decodeFrame_cut (hexdigest : Bytes → String) (fragments : Fragments) (at_start : start = pre.length)
    (within : f.payload.length ≤ maxPayloadBytes) (some_bytes : 0 < j) (cut : j < f.encode.length) :
    ∃ row cursor, row.TruncatedAt start ∧ (cursor = start ↔ j < 2) ∧
      decodeFrame hexdigest (pre ++ f.encode.take j) start fragments true = ⟨row, cursor, fragments, true⟩ := by
  match j, some_bytes with
  | 1, _ =>
    have short : (pre ++ f.encode.take 1).length < start + 2 := by
      rw [List.length_append, List.length_take]
      omega
    exact ⟨.headless start _, start, rfl, by simp, by rw [decodeFrame, if_pos short]⟩
  | j + 2, _ =>
    obtain ⟨room, first, second⟩ := header_bytes f ((f.extended ++ (f.key ++ f.body)).take j) at_start
    have lengths : f.encode.length = 2 + f.form.width + f.key.length + f.payload.length := f.length_encode
    have outside {cursor : Nat} (later : start + 2 ≤ cursor) : cursor = start ↔ j + 2 < 2 := by omega
    rw [Frame.encode, List.take_succ_cons, List.take_succ_cons]
    unfold decodeFrame
    rw [if_neg room, first, second]
    dsimp only
    rw [f.second_masked]
    by_cases within_length : j < f.form.width
    · obtain ⟨reason, other, length⟩ := payloadLength_cut f (pre ++ [f.first, f.second])
        (show start + 2 = _ by simp [at_start]) within_length
      have cut_length : (f.extended ++ (f.key ++ f.body)).take j = f.extended.take j := by
        rw [List.take_append_of_le_length (by rw [f.length_extended]; omega)]
      rw [cut_length]
      simp only [List.append_assoc, List.cons_append, List.nil_append] at length ⊢
      rw [length]
      refine ⟨.truncated start reason none, start + 2, rfl, outside (Nat.le_refl _), ?_⟩
      cases reason <;> first | rfl | exact absurd rfl other
    · have length := payloadLength_whole f (pre ++ [f.first, f.second])
        ((f.key ++ f.body).take (j - f.form.width)) (show start + 2 = _ by simp [at_start])
      obtain ⟨cursor, reason, later, other, payload⟩ := framePayload_cut f
        (pre ++ [f.first, f.second] ++ f.extended)
        (show start + 2 + f.form.width = _ by simp [at_start]; omega)
        (show j - f.form.width < _ by omega)
      have cut_payload : (f.extended ++ (f.key ++ f.body)).take j =
          f.extended ++ (f.key ++ f.body).take (j - f.form.width) := by
        rw [List.take_append, f.length_extended, List.take_of_length_le (by rw [f.length_extended]; omega)]
      rw [cut_payload]
      simp only [List.append_assoc, List.cons_append, List.nil_append] at length payload ⊢
      rw [length]
      dsimp only
      rw [if_neg (Nat.not_lt.mpr within), payload]
      exact ⟨.truncated start reason (some f.payload.length), cursor, rfl, outside (by omega), rfl⟩

end Frames

section Messages

variable {hexdigest : Bytes → String} {message : Option Nat} {fragments : Fragments} {row : FrameRow}

/-- The decoder's state of fragmentation says whether a message is open, and what it has so far. -/
def Agrees (message : Option Nat) (fragments : Fragments) : Prop :=
  fragments.1.isSome = message.isSome ∧ ∀ bytes ∈ message, fragments.2 = bytes

/-- What the state of fragmentation makes of a row that it has not marked yet. -/
structure Marks (message : Option Nat) (f : Frame) (row row' : FrameRow) (fragments : Fragments) : Prop where
  agrees : Agrees (advance message f) fragments
  rest : ∃ error message, row' = { row with protocolError := error, message := message }
  interrupts : row'.protocolError = some .newDataFrameDuringFragmentation ↔ f.data ∧ message.isSome
  orphan : row'.protocolError = some .continuationWithoutStart ↔ f.continuation ∧ message = none

theorem marks_fragmentState (f : Frame) (agrees : Agrees message fragments)
    (within : f.continuation → ∀ bytes ∈ message, bytes + f.payload.length ≤ maxPayloadBytes)
    (unmarked : row.protocolError ≠ some .newDataFrameDuringFragmentation ∧
      row.protocolError ≠ some .continuationWithoutStart) :
    Marks message f row (fragmentState row f.opcode f.fin f.payload.length fragments).1
      (fragmentState row f.opcode f.fin f.payload.length fragments).2 := by
  obtain ⟨active, total⟩ := fragments
  obtain ⟨is_open, so_far⟩ := agrees
  dsimp only at is_open so_far
  unfold fragmentState
  dsimp only
  by_cases data : f.opcode.val = 1 ∨ f.opcode.val = 2
  · have other : ¬ f.continuation := fun none => by
      rcases data with one | two
      · exact absurd (none.symm.trans one) (by decide)
      · exact absurd (none.symm.trans two) (by decide)
    rw [if_pos data]
    cases message with
    | some bytes =>
      rw [if_pos (show active.isSome = true from is_open)]
      exact ⟨(advance_other other).symm ▸ ⟨is_open, so_far⟩, ⟨_, _, rfl⟩, iff_of_true rfl ⟨data, rfl⟩,
        iff_of_false nofun (fun both => other both.1)⟩
    | none =>
      rw [if_neg (by rw [is_open]; exact Bool.false_ne_true)]
      have marks : ∀ {after : Fragments}, Agrees (advance none f) after → Marks none f row row after :=
        fun after => ⟨after, ⟨_, _, rfl⟩, iff_of_false unmarked.1 (fun both => Bool.false_ne_true both.2),
          iff_of_false unmarked.2 (fun both => other both.1)⟩
      cases final : f.fin with
      | true =>
        refine marks ?_
        rw [advance_idle fun both => Bool.false_ne_true (both.2.symm.trans final)]
        exact ⟨is_open, so_far⟩
      | false =>
        refine marks ?_
        rw [advance_start data final]
        exact ⟨rfl, fun _ here => Option.some.inj here⟩
  · rw [if_neg data]
    have undisturbed : ¬ (f.data ∧ f.fin = false) := fun both => data both.1
    by_cases continuation : f.opcode.val = 0
    · rw [if_pos continuation]
      cases message with
      | none =>
        obtain rfl : active = none := Option.isNone_iff_eq_none.mp (by rw [← Option.not_isSome, is_open]; rfl)
        exact ⟨(advance_idle undisturbed).symm ▸ ⟨rfl, so_far⟩, ⟨_, _, rfl⟩,
          iff_of_false nofun (fun both => data both.1), iff_of_true rfl ⟨continuation, rfl⟩⟩
      | some bytes =>
        obtain ⟨opcode, rfl⟩ := Option.isSome_iff_exists.mp (is_open.trans rfl)
        have total_eq : total = bytes := so_far bytes rfl
        have marks : ∀ {after : Fragments}, Agrees (advance (some bytes) f) after →
            Marks (some bytes) f row { row with message := some (opcode, total + f.payload.length) } after :=
          fun after => ⟨after, ⟨_, _, rfl⟩, iff_of_false unmarked.1 (fun both => data both.1),
            iff_of_false unmarked.2 (fun both => nomatch both.2)⟩
        dsimp only
        rw [if_neg (Nat.not_lt.mpr (total_eq ▸ within continuation bytes rfl))]
        cases final : f.fin with
        | true =>
          refine marks ?_
          rw [advance_final continuation final]
          exact ⟨rfl, nofun⟩
        | false =>
          refine marks ?_
          rw [advance_continued continuation final]
          exact ⟨rfl, fun _ here => (congrArg (· + _) total_eq).trans (Option.some.inj here)⟩
    · rw [if_neg continuation]
      have kept : Agrees (advance message f) (active, total) := by
        cases message with
        | none => exact (advance_idle undisturbed).symm ▸ ⟨is_open, so_far⟩
        | some bytes => exact (advance_other continuation).symm ▸ ⟨is_open, so_far⟩
      split
      · exact ⟨kept, ⟨_, _, rfl⟩, iff_of_false nofun (fun both => data both.1),
          iff_of_false nofun (fun both => continuation both.1)⟩
      · exact ⟨kept, ⟨_, _, rfl⟩, iff_of_false unmarked.1 (fun both => data both.1),
          iff_of_false unmarked.2 (fun both => continuation both.1)⟩

theorem frameRow_unmarked (hexdigest : Bytes → String) (start : Nat) (f : Frame) :
    let row := frameRow hexdigest start f.fin f.rsv f.opcode f.masked f.payload.length f.payload
    row.protocolError ≠ some .newDataFrameDuringFragmentation ∧
      row.protocolError ≠ some .continuationWithoutStart := by
  dsimp only [frameRow]
  split_ifs <;> exact ⟨nofun, nofun⟩

theorem describes_decoded (hexdigest : Bytes → String) {before : List Frame} {f : Frame}
    (agrees : Agrees (unfinished before) fragments)
    (within : f.continuation → ∀ bytes ∈ unfinished before, bytes + f.payload.length ≤ maxPayloadBytes) :
    (f.decoded hexdigest (bytes before).length fragments).1.Describes hexdigest before f ∧
      Agrees (unfinished (before ++ [f])) (f.decoded hexdigest (bytes before).length fragments).2 := by
  have marks := marks_fragmentState f agrees within (frameRow_unmarked hexdigest (bytes before).length f)
  obtain ⟨error, message, same⟩ := marks.rest
  refine ⟨⟨?_, ?_, ?_, ?_, ?_, ?_, marks.interrupts, marks.orphan⟩, ?_⟩
  iterate 6 exact (congrArg _ same).trans rfl
  rw [unfinished, List.foldl_append]
  exact marks.agrees

end Messages

section Runs

variable {hexdigest : Bytes → String} {before frames : List Frame} {f : Frame}

/-- A complete frame, as the decoder reads it. -/
def Progress.read (hexdigest : Bytes → String) (s : Progress) (f : Frame) : Progress :=
  ⟨s.cursor + f.encode.length, s.frames ++ [.frame (f.decoded hexdigest s.cursor s.fragments).1],
    (f.decoded hexdigest s.cursor s.fragments).2⟩

def progress (hexdigest : Bytes → String) (frames : List Frame) : Progress :=
  frames.foldl (Progress.read hexdigest) {}

theorem progress_concat (before : List Frame) (f : Frame) :
    progress hexdigest (before ++ [f]) = (progress hexdigest before).read hexdigest f :=
  List.foldl_concat ..

theorem bytes_concat (before : List Frame) (f : Frame) : bytes (before ++ [f]) = bytes before ++ f.encode := by
  simp [bytes]

theorem Budgeted.left {after : List Frame} (budgeted : Budgeted (before ++ after)) : Budgeted before where
  count := by
    have := budgeted.count
    rw [List.length_append] at this
    omega
  payload f mem := budgeted.payload f (List.mem_append_left _ mem)
  message first f rest split := budgeted.message first f (rest ++ after) (by rw [split]; simp)

theorem RowsOf.concat {rows : List Row} {row : FrameRow} (rowsOf : RowsOf hexdigest before rows)
    (describes : row.Describes hexdigest before f) :
    RowsOf hexdigest (before ++ [f]) (rows ++ [.frame row]) := by
  refine ⟨by rw [List.length_append, List.length_append, rowsOf.1]; rfl, fun first g rest split => ?_⟩
  rcases List.eq_nil_or_concat rest with rfl | ⟨rest, last, rfl⟩
  · obtain ⟨rfl, same⟩ := List.append_inj' split rfl
    cases same
    exact ⟨row, by rw [← rowsOf.1, List.getElem?_concat_length], describes⟩
  · have split : before ++ [f] = (first ++ g :: rest) ++ [last] := by simpa using split
    obtain ⟨found, there, described⟩ := rowsOf.2 first g rest (List.append_inj' split rfl).1
    exact ⟨found, (List.getElem?_append_left (List.getElem?_eq_some_iff.mp there).1).trans there, described⟩

/-- The decoder stands behind complete frames, with one row for each. -/
structure Reached (hexdigest : Bytes → String) (frames : List Frame) (s : Progress) : Prop where
  cursor : s.cursor = (bytes frames).length
  rows : RowsOf hexdigest frames s.frames
  agrees : Agrees (unfinished frames) s.fragments

theorem reached_progress (budgeted : Budgeted frames) :
    Reached hexdigest frames (progress hexdigest frames) := by
  induction frames using List.reverseRecOn with
  | nil => exact ⟨rfl, ⟨rfl, fun _ _ _ split => absurd split (by simp)⟩, rfl, nofun⟩
  | append_singleton before f ih =>
    have reached := ih budgeted.left
    obtain ⟨describes, agrees⟩ :=
      describes_decoded hexdigest reached.agrees (budgeted.message before f [] rfl)
    rw [← reached.cursor] at describes agrees
    rw [progress_concat]
    refine ⟨?_, reached.rows.concat describes, agrees⟩
    rw [bytes_concat, List.length_append, ← reached.cursor]
    rfl

theorem decodeFrames_bytes (frames : List Frame) (budgeted : Budgeted frames) (tail : Bytes) (rounds : Nat) :
    decodeFrames hexdigest (bytes frames ++ tail) true (frames.length + rounds) {} =
      decodeFrames hexdigest (bytes frames ++ tail) true rounds (progress hexdigest frames) := by
  induction frames using List.reverseRecOn generalizing tail rounds with
  | nil => rw [List.length_nil, Nat.zero_add]; rfl
  | append_singleton before f ih =>
    have reached : Reached hexdigest before _ := reached_progress budgeted.left
    rw [bytes_concat, List.append_assoc, List.length_append, Nat.add_assoc, ih budgeted.left,
      List.length_singleton, Nat.add_comm 1, decodeFrames, if_neg,
      decodeFrame_whole reached.cursor (budgeted.payload f (by simp)), progress_concat]
    · rfl
    · rw [reached.cursor, List.length_append, List.length_append, f.length_encode]
      omega

theorem decodeFrames_end {raw : Bytes} {s : Progress} (at_end : raw.length ≤ s.cursor) (rounds : Nat) :
    decodeFrames hexdigest raw true rounds s = s := by
  cases rounds with
  | zero => rfl
  | succ rounds => rw [decodeFrames, if_pos at_end]

theorem decodeStream_bytes (budgeted : Budgeted frames) :
    decodeFrames hexdigest (bytes frames) true maxFrames {} = progress hexdigest frames := by
  have run := @decodeFrames_bytes hexdigest frames budgeted [] (maxFrames - frames.length)
  rw [List.append_nil, Nat.add_sub_cancel' budgeted.count] at run
  rw [run, decodeFrames_end (reached_progress budgeted).cursor.ge]

theorem frames_prefix (after : List Frame) (s : Progress) :
    s.frames <+: (after.foldl (Progress.read hexdigest) s).frames := by
  induction after generalizing s with
  | nil => exact List.prefix_refl _
  | cons f after ih => exact (List.prefix_append _ _).trans (ih (s.read hexdigest f))

theorem frames_take {after : List Frame} (budgeted : Budgeted (before ++ after)) :
    (progress hexdigest (before ++ after)).frames.take before.length = (progress hexdigest before).frames := by
  have counted : (progress hexdigest before).frames.length = before.length :=
    (reached_progress budgeted.left).rows.1
  have grows : (progress hexdigest before).frames <+: (progress hexdigest (before ++ after)).frames := by
    rw [progress, progress, List.foldl_append]
    exact frames_prefix after _
  rw [← counted]
  exact (List.prefix_iff_eq_take.mp grows).symm

theorem decodeStream_take (hexdigest : Bytes → String) (budgeted : Budgeted frames) (k : Nat) :
    ∃ last cursor, (cursor = (bytes (complete Frame.encode frames k)).length ↔
        (part Frame.encode frames k).length ≤ 1) ∧
      (last = [] ∨
        ∃ row : Row, last = [row] ∧ row.TruncatedAt (bytes (complete Frame.encode frames k)).length) ∧
      (decodeStream hexdigest ((bytes frames).take k)).bytesConsumed = cursor ∧
      (decodeStream hexdigest ((bytes frames).take k)).frames =
        (progress hexdigest (complete Frame.encode frames k)).frames ++ last := by
  have raw : (bytes frames).take k =
      bytes (complete Frame.encode frames k) ++ part Frame.encode frames k := take_flatMap _ frames k
  obtain ⟨rest, all⟩ := complete_prefix Frame.encode frames k
  have within : Budgeted (complete Frame.encode frames k) :=
    (show Budgeted (_ ++ rest) by rwa [all]).left
  have reached : Reached hexdigest _ _ := reached_progress within
  have run := @decodeFrames_bytes hexdigest _ within (part Frame.encode frames k)
    (maxFrames - (complete Frame.encode frames k).length)
  rw [Nat.add_sub_cancel' within.count, ← raw] at run
  rcases part_cases Frame.encode frames k with ⟨nothing, -⟩ | ⟨f, after, j, split, cut, some_bytes, inside⟩
  · replace run := run.trans (decodeFrames_end (by rw [raw, nothing, List.append_nil, reached.cursor]) _)
    exact ⟨[], _, iff_of_true reached.cursor (by rw [nothing]; exact Nat.zero_le 1), .inl rfl,
      congrArg Progress.cursor run, (congrArg Progress.frames run).trans (List.append_nil _).symm⟩
  · have room : ∃ rounds, maxFrames - (complete Frame.encode frames k).length = rounds + 1 := by
      have count := budgeted.count
      rw [split, List.length_append, List.length_cons] at count
      exact ⟨maxFrames - (complete Frame.encode frames k).length - 1, by omega⟩
    obtain ⟨rounds, room⟩ := room
    obtain ⟨row, cursor, truncated, resumes, decoded⟩ := decodeFrame_cut hexdigest
      (progress hexdigest (complete Frame.encode frames k)).fragments reached.cursor
      (budgeted.payload f (by rw [split]; simp)) some_bytes inside
    rw [room, decodeFrames, if_neg (by
      rw [raw, reached.cursor, List.length_append, cut, List.length_take]
      omega), raw, cut, decoded] at run
    have at_end := reached.cursor
    refine ⟨[row], cursor, ?_, .inr ⟨row, rfl, at_end ▸ truncated⟩, ?_, ?_⟩
    · rw [← at_end, resumes, cut, List.length_take]
      omega
    · rw [← cut, ← raw] at run
      exact congrArg Progress.cursor run
    · rw [← cut, ← raw] at run
      exact congrArg Progress.frames run

end Runs

/-- The rows state the frames; a message is open at the end exactly if the frames leave one open; and the
first `k` bytes give the rows of their complete frames, at most one truncated row, and their end. -/
structure Exact (hexdigest : Bytes → String) (frames : List Frame) (k : Nat) : Prop where
  rows : RowsOf hexdigest frames (decodeStream hexdigest (bytes frames)).frames
  fragmentation : (decodeStream hexdigest (bytes frames)).fragmentationOpen = (unfinished frames).isSome
  cut : ∃ last, (last = [] ∨
      ∃ row : Row, last = [row] ∧ row.TruncatedAt (bytes (complete Frame.encode frames k)).length) ∧
    (decodeStream hexdigest ((bytes frames).take k)).frames =
      (decodeStream hexdigest (bytes frames)).frames.take (complete Frame.encode frames k).length ++ last
  consumed : (decodeStream hexdigest ((bytes frames).take k)).bytesConsumed =
    (bytes (complete Frame.encode frames k)).length

/-- The decoder is exact on a sequence of frames and on its first `k` bytes if and only if these hold at
most one byte of the frame after the complete ones. -/
theorem decode_exact_iff (hexdigest : Bytes → String) (frames : List Frame) (budgeted : Budgeted frames)
    (k : Nat) : Exact hexdigest frames k ↔ (part Frame.encode frames k).length ≤ 1 := by
  obtain ⟨last, cursor, resumes, at_most_one, consumed, rows⟩ := decodeStream_take hexdigest budgeted k
  obtain ⟨rest, all⟩ := complete_prefix Frame.encode frames k
  have whole : decodeFrames hexdigest (bytes frames) true maxFrames {} = _ := decodeStream_bytes budgeted
  have reached : Reached hexdigest frames _ := reached_progress budgeted
  refine ⟨fun exact => resumes.mp (consumed.symm.trans exact.consumed), fun short => ⟨?_, ?_, ?_, ?_⟩⟩
  · rw [decodeStream, whole]
    exact reached.rows
  · rw [decodeStream, whole]
    exact reached.agrees.1
  · refine ⟨last, at_most_one, rows.trans (congrArg (· ++ last) ?_)⟩
    have first := @frames_take hexdigest (complete Frame.encode frames k) rest (by rwa [all])
    rw [all] at first
    rw [← first]
    exact congrArg (fun s => List.take _ (Progress.frames s)) whole.symm
  · exact consumed.trans (resumes.mpr short)

/-- An unmasked text frame of two bytes. -/
def sampleFrame : Frame := ⟨true, 0, 1, .seven, none, [0x48, 0x69], by decide⟩

theorem sample_budgeted : Budgeted [sampleFrame] where
  count := by decide
  payload f mem := by
    obtain rfl := List.mem_singleton.mp mem
    decide
  message before f after split continuation := by
    have mem : f ∈ [sampleFrame] := by rw [split]; simp
    obtain rfl := List.mem_singleton.mp mem
    exact absurd continuation (by decide)

theorem decode_exact_boundary : Exact (fun _ => "") [sampleFrame] 1 :=
  (decode_exact_iff (fun _ => "") [sampleFrame] sample_budgeted 1).mpr (by decide)

/-- Behind the header of a frame that is cut, the decoder has consumed the header. -/
theorem header_consumed :
    Budgeted [sampleFrame] ∧
      (decodeStream (fun _ => "") ((bytes [sampleFrame]).take 3)).bytesConsumed = 2 ∧
      ¬ Exact (fun _ => "") [sampleFrame] 3 := by
  have consumed : (decodeStream (fun _ => "") ((bytes [sampleFrame]).take 3)).bytesConsumed = 2 := by
    decide
  refine ⟨sample_budgeted, consumed, fun exact => ?_⟩
  have ends := consumed.symm.trans exact.consumed
  exact absurd ends (by decide)

end Arenyxa.Capture.WebSocket
