import Arenyxa.Capture.Reader

/-! Where a message ends, as a function of the whole stream. The reader computes it from a
buffer that may run ahead of the message, and then the limit is compared with the buffer. -/

namespace Arenyxa.Capture

open Outcome Search Segments HttpError

inductive ErrorKind
  | valueError
  | connectionError

def HttpError.kind : HttpError → ErrorKind
  | valueError _ => .valueError
  | connectionError _ => .connectionError

/-- The result of a call, as a caller tells it apart. -/
def outcome {α : Type} (r : Except HttpError α) : Except ErrorKind α :=
  match r with
  | .ok a => .ok a
  | .error e => .error e.kind

@[simp] theorem outcome_ok {α : Type} (a : α) : outcome (.ok a : Except HttpError α) = .ok a := rfl

@[simp] theorem outcome_error {α : Type} (e : HttpError) :
    outcome (.error e : Except HttpError α) = .error e.kind := rfl

/-! ### The abstract reader -/

def trailersExtent : (left : Nat) → Bytes → Except HttpError Nat
  | left, text =>
    match find? crlf text with
    | none => .error (closedDuring "HTTP chunked trailer")
    | some 0 => .ok 2
    | some (n + 1) =>
      match left with
      | 0 => .error (valueError "HTTP trailer count exceeded the safety limit")
      | left + 1 => do
        checkTrailer (text.take (n + 1))
        let rest ← trailersExtent left (text.drop (n + 3))
        return n + 3 + rest

/-- The length of the chunked body at the beginning of a text. -/
def chunksExtent (limit : Int) (decoded : Nat) (text : Bytes) : Except HttpError Nat :=
  match find? crlf text with
  | none => .error (closedDuring "chunked body")
  | some n => do
    let size ← chunkSize (text.take n)
    if _ : limit < size ∨ limit < decoded + size then .error chunkedTooLong
    else if _ : size = 0 then do
      let rest ← trailersExtent maxTrailers (text.drop (n + 2))
      return n + 2 + rest
    else do
      require (n + 2 + size + 2 ≤ text.length) (closedDuring "HTTP chunk")
      require (slice text (n + 2 + size) (n + 2 + size + 2) = crlf)
        (valueError "Malformed HTTP chunk terminator")
      let rest ← chunksExtent limit (decoded + size) (text.drop (n + 2 + size + 2))
      return n + 2 + size + 2 + rest
termination_by (limit - decoded).toNat

/-- A head and what follows it. -/
def splitHead (limit : Int) (text : Bytes) : Except HttpError (Bytes × Bytes) := do
  require (4 ≤ limit) (valueError "HTTP header limit is too small")
  match find? headEnd text with
  | none => do
    require (text.length ≤ limit) headersTooLong
    return (text, [])
  | some index => do
    require (index + headEnd.length ≤ limit) headersTooLong
    return (text.take (index + headEnd.length), text.drop (index + headEnd.length))

section Buffers

variable {limit : Int} {position : Nat} {buffer : Bytes} {sock : Socket}

theorem findFrom_persistent {pat : Bytes} (nonempty : pat ≠ []) (start : Nat) :
    Persistent (findFrom pat start) := by
  intro l m a found
  exact findFrom_append_of_some found nonempty m

theorem slice_append (l m : Bytes) {start stop : Nat} (inside : stop ≤ l.length) :
    slice (l ++ m) start stop = slice l start stop := by
  unfold slice
  by_cases h : start ≤ l.length
  · rw [List.drop_append_of_le_length h, List.take_append_of_le_length]
    rw [List.length_drop]
    omega
  · rw [Nat.sub_eq_zero_of_le (by omega), List.take_zero, List.take_zero]

/-- What one line taken from the socket tells about the stream. -/
structure LineAt (limit : Int) (position : Nat) (buffer : Bytes) (sock : Socket)
    (r : Nat × Bytes × Socket) : Prop where
  stream : r.2.1 ++ r.2.2.stream = buffer ++ sock.stream
  from_position : position ≤ r.1
  inside : r.1 + 2 ≤ r.2.1.length
  found : find? crlf ((buffer ++ sock.stream).drop position) = some (r.1 - position)
  bounded : r.2.1 = buffer ∨ r.2.1.length ≤ limit

theorem receiveUntil_sat (label : String) (limit : Int) (position : Nat) (buffer : Bytes)
    (sock : Socket) :
    Sat (receiveUntil label limit position buffer sock) (LineAt limit position buffer sock)
      (fun e => (e = closedDuring label ∧
          find? crlf ((buffer ++ sock.stream).drop position) = none ∧
          (sock.stream = [] ∨ (buffer ++ sock.stream).length ≤ limit)) ∨
        (e = chunkedTooLong ∧ limit < (buffer ++ sock.stream).length ∧
          ∃ l, l <+: buffer ++ sock.stream ∧ findFrom crlf position l = none ∧
            limit < (l.length + recvSize : Int))) := by
  rw [receiveUntil]
  refine (receiveFor_sat limit (closedDuring label) chunkedTooLong
    (findFrom_persistent (by simp [crlf]) position) (fun _ _ => by simp [recvSize])).mono
    (fun r hr => ?_) (fun e he => ?_)
  · obtain ⟨found, stream, answer, -, bounded⟩ := hr
    have here := le_of_findFrom found
    obtain ⟨j, hj, hr⟩ := Option.map_eq_some_iff.mp answer
    refine ⟨stream, here.1, here.2 (by simp [crlf]), ?_, bounded⟩
    rw [hj, ← hr, Nat.add_sub_cancel_left]
  · rcases he with ⟨rfl, missing, ended⟩ | excess
    · exact .inl ⟨rfl, Option.map_eq_none_iff.mp missing, ended⟩
    · obtain ⟨rfl, long, l, part, missing, ahead⟩ := excess
      exact .inr ⟨rfl, long, l, part, missing, ahead⟩

theorem LineAt.slice_eq {r : Nat × Bytes × Socket} (h : LineAt limit position buffer sock r) :
    slice r.2.1 position r.1 = ((buffer ++ sock.stream).drop position).take (r.1 - position) := by
  rw [← slice_append r.2.1 r.2.2.stream (by have := h.inside; omega), h.stream, slice]

theorem LineAt.take_eq {r : Nat × Bytes × Socket} (h : LineAt limit position buffer sock r)
    {n : Nat} (inside : n ≤ r.2.1.length) : r.2.1.take n = (buffer ++ sock.stream).take n := by
  rw [← h.stream, List.take_append_of_le_length inside]

theorem receiveTo_sat (limit : Int) (eof excess : HttpError) (required : Nat) (buffer : Bytes)
    (sock : Socket) :
    Sat (receiveTo limit eof excess required buffer sock)
      (fun r => r.2.1 ++ r.2.2.stream = buffer ++ sock.stream ∧ required ≤ r.2.1.length ∧
        (r.2.1 = buffer ∨ r.2.1.length ≤ limit))
      (fun e => (e = eof ∧ (buffer ++ sock.stream).length < required ∧
          (sock.stream = [] ∨ (buffer ++ sock.stream).length ≤ limit)) ∨
        (e = excess ∧ limit < (buffer ++ sock.stream).length ∧ limit < required)) := by
  rw [receiveTo]
  refine (receiveFor_sat limit eof excess ?_ ?_).mono (fun r hr => ?_) (fun e he => ?_)
  · intro l m a enough
    simp only [ite_eq_right_iff, reduceCtorEq, imp_false, not_lt] at enough ⊢
    rw [List.length_append]
    omega
  · intro l short
    simp only [recvSize]
    split at short
    next => omega
    next => cases short
  · obtain ⟨enough, stream, -, -, bounded⟩ := hr
    refine ⟨stream, ?_, bounded⟩
    by_contra short
    rw [if_pos (by omega)] at enough
    cases enough
  · rcases he with ⟨rfl, missing, ended⟩ | excess
    · refine .inl ⟨rfl, ?_, ended⟩
      by_contra enough
      rw [if_neg (by omega)] at missing
      cases missing
    · obtain ⟨rfl, long, l, -, short, ahead⟩ := excess
      refine .inr ⟨rfl, long, ?_⟩
      split at short
      next => omega
      next => cases short

theorem le_of_trailersExtent {left n : Nat} {text : Bytes} (h : trailersExtent left text = .ok n) :
    ∃ k, find? crlf text = some k ∧ k + 2 ≤ n := by
  rw [trailersExtent.eq_def] at h
  cases hk : find? crlf text with
  | none => simp [hk] at h
  | some k =>
    refine ⟨k, rfl, ?_⟩
    cases k with
    | zero =>
      simp only [hk, Except.ok.injEq] at h
      omega
    | succ k =>
      cases left with
      | zero => simp [hk] at h
      | succ left =>
        simp only [hk] at h
        obtain ⟨_, -, h⟩ := bind_eq_ok.mp h
        obtain ⟨rest, -, h⟩ := bind_eq_ok.mp h
        cases h
        omega

theorem le_of_chunksExtent {decoded n : Nat} {text : Bytes}
    (h : chunksExtent limit decoded text = .ok n) :
    ∃ k, find? crlf text = some k ∧ k + 2 ≤ n := by
  rw [chunksExtent] at h
  cases hk : find? crlf text with
  | none => simp [hk] at h
  | some k =>
    refine ⟨k, rfl, ?_⟩
    simp only [hk] at h
    obtain ⟨size, -, h⟩ := bind_eq_ok.mp h
    by_cases long : limit < size ∨ limit < decoded + size
    · simp only [long, ↓reduceDIte, reduceCtorEq] at h
    simp only [long, ↓reduceDIte] at h
    by_cases last : size = 0
    · simp only [last, ↓reduceDIte] at h
      obtain ⟨rest, -, h⟩ := bind_eq_ok.mp h
      cases h
      omega
    · simp only [last, ↓reduceDIte] at h
      obtain ⟨_, -, h⟩ := bind_eq_ok.mp h
      obtain ⟨_, -, h⟩ := bind_eq_ok.mp h
      obtain ⟨rest, -, h⟩ := bind_eq_ok.mp h
      cases h
      omega

theorem length_lt_of_missing {l total : Bytes} {k : Nat} (part : l <+: total)
    (missing : findFrom crlf position l = none) (found : find? crlf (total.drop position) = some k) :
    l.length < position + k + 2 := by
  obtain ⟨m, rfl⟩ := part
  by_contra long
  have whole : findFrom crlf position (l ++ m) = some (position + k) := by
    rw [findFrom, found]
    rfl
  rw [findFrom_of_append whole (by show position + k + 2 ≤ l.length; omega)] at missing
  cases missing

/-- A result of the reader against the end of the message on the stream: what it returns
lies within the limit, it reports a closed connection only when the stream is no longer than
the limit, and it departs from the message only by running into the limit, which takes a
receive that goes past the message. -/
structure Follows (limit : Int) (total : Bytes) (extent : Except HttpError Nat)
    (r : Except HttpError Bytes) : Prop where
  agrees : r = (extent.map total.take) ∨ (r = .error chunkedTooLong ∧ limit < total.length ∧
    ∀ n, extent = .ok n → limit < (n + recvSize - 1 : Int))
  bounded : Sat r (fun m => m.length ≤ limit)
    (fun e => e.kind = .connectionError → total.length ≤ limit)

theorem Follows.of_error {total : Bytes} {extent : Except HttpError Nat} {e : HttpError}
    (h : extent = .error e) (settled : e.kind = .connectionError → total.length ≤ limit) :
    Follows limit total extent (.error e) := by
  subst h
  exact ⟨.inl rfl, settled⟩

theorem Follows.of_over {total : Bytes} {extent : Except HttpError Nat}
    (h : limit < total.length) (past : ∀ n, extent = .ok n → limit < (n + recvSize - 1 : Int)) :
    Follows limit total extent (.error chunkedTooLong) :=
  ⟨.inr ⟨rfl, h, past⟩, fun closed => nomatch closed⟩

theorem Follows.of_line_over {total : Bytes} {extent : Except HttpError Nat}
    (h : limit < total.length)
    (ends : ∀ n, extent = .ok n → ∃ k, find? crlf (total.drop position) = some k ∧ k + 2 ≤ n)
    (ahead : ∃ l, l <+: total ∧ findFrom crlf position l = none ∧
      limit < (l.length + recvSize : Int)) :
    Follows limit total (extent.map (position + ·)) (.error chunkedTooLong) := by
  refine .of_over h fun n hn => ?_
  obtain ⟨l, part, missing, long⟩ := ahead
  obtain ⟨m, hm, rfl⟩ := map_eq_ok.mp hn
  obtain ⟨k, found, inside⟩ := ends m hm
  have := length_lt_of_missing part missing found
  omega

theorem Follows.of_extent {total : Bytes} {extent extent' : Except HttpError Nat}
    {r : Except HttpError Bytes} (h : Follows limit total extent r) (same : extent' = extent) :
    Follows limit total extent' r := by
  rw [same]
  exact h

theorem parseHeaderLine_sat (line : Bytes) :
    Sat (parseHeaderLine line) (fun _ => True) (fun e => e.kind = .valueError) := by
  simp [parseHeaderLine, HttpError.kind]

theorem parseHead_sat (head : Bytes) :
    Sat (parseHead head) (fun _ => True) (fun e => e.kind = .valueError) := by
  have lines : ∀ l : List Bytes,
      Sat (l.mapM parseHeaderLine) (fun _ => True) (fun e => e.kind = .valueError) := by
    intro l
    induction l with
    | nil => simp
    | cons line l ih =>
      rw [List.mapM_cons, sat_bind]
      refine (parseHeaderLine_sat line).mono (fun _ _ => ?_) (fun _ he => he)
      rw [sat_bind]
      exact ih.mono (fun _ _ => by simp) (fun _ he => he)
  simp only [parseHead, sat_bind, sat_require, HttpError.kind]
  exact ⟨fun _ => ⟨fun _ => ⟨fun _ => ⟨fun _ => (lines _).mono (fun _ _ => by simp) (fun _ he => he),
    by simp⟩, by simp⟩, by simp⟩, by simp⟩

theorem checkTrailer_sat (trailer : Bytes) :
    Sat (checkTrailer trailer) (fun _ => True) (fun e => e.kind = .valueError) := by
  rw [checkTrailer, sat_bind]
  refine (parseHead_sat _).mono (fun parsed _ => ?_) (fun _ he => he)
  obtain ⟨start, headers⟩ := parsed
  cases headers <;> simp [HttpError.kind]

theorem chunkSize_sat (line : Bytes) :
    Sat (chunkSize line) (fun _ => True) (fun e => e.kind = .valueError) := by
  simp [chunkSize, HttpError.kind]

theorem LineAt.within {r : Nat × Bytes × Socket} (h : LineAt limit position buffer sock r)
    (within : buffer.length ≤ limit) : r.2.1.length ≤ limit := by
  rcases h.bounded with same | short
  · rw [same]
    exact within
  · exact short

theorem within_of_ended (within : buffer.length ≤ limit)
    (ended : sock.stream = [] ∨ (buffer ++ sock.stream).length ≤ limit) :
    (buffer ++ sock.stream).length ≤ limit := by
  rcases ended with ended | short
  · rw [ended, List.append_nil]
    exact within
  · exact short

theorem readTrailers_follows (left : Nat) (start : position ≤ buffer.length)
    (within : buffer.length ≤ limit) :
    Follows limit (buffer ++ sock.stream)
      ((trailersExtent left ((buffer ++ sock.stream).drop position)).map (position + ·))
      (readTrailers limit left position buffer sock) := by
  induction left using Nat.strongRecOn generalizing position buffer sock with
  | ind left ih =>
    rw [readTrailers]
    have line := receiveUntil_sat "HTTP chunked trailer" limit position buffer sock
    cases h : receiveUntil "HTTP chunked trailer" limit position buffer sock with
    | error e =>
      rcases line.of_error h with ⟨rfl, missing, ended⟩ | ⟨rfl, excess⟩
      · rw [trailersExtent, missing]
        exact .of_error rfl fun _ => within_of_ended within ended
      · exact .of_line_over excess.1 (fun _ => le_of_trailersExtent) excess.2
    | ok r =>
      have here := line.of_ok h
      obtain ⟨stop, received, rest⟩ := r
      have bounded : received.length ≤ limit := here.within within
      have inside : stop + 2 ≤ received.length := here.inside
      have stream : received ++ rest.stream = buffer ++ sock.stream := here.stream
      have from_position : position ≤ stop := here.from_position
      rw [trailersExtent, here.found]
      simp only [bind, Except.bind, here.slice_eq]
      cases hn : stop - position with
      | zero =>
        have at_stop : position = stop := by omega
        simp only [List.take_zero, ↓reduceIte]
        refine ⟨.inl ?_, ?_⟩
        · rw [here.take_eq inside, at_stop]
          rfl
        · show ((received.take (stop + 2)).length : Int) ≤ limit
          rw [List.length_take]
          omega
      | succ n =>
        have nonempty : ((buffer ++ sock.stream).drop position).take (n + 1) ≠ [] := by
          intro empty
          have := congrArg List.length empty
          rw [← stream, List.length_take, List.length_drop, List.length_append,
            List.length_nil] at this
          omega
        rw [if_neg nonempty]
        cases left with
        | zero => exact .of_error rfl fun closed => nomatch closed
        | succ left =>
          have checked := checkTrailer_sat (((buffer ++ sock.stream).drop position).take (n + 1))
          cases ht : checkTrailer (((buffer ++ sock.stream).drop position).take (n + 1)) with
          | error e =>
            have value := checked.of_error ht
            simp only [ht]
            exact .of_error rfl fun closed => by rw [value] at closed; cases closed
          | ok _ =>
            have next : Follows limit (received ++ rest.stream) _
                (readTrailers limit left (stop + 2) received rest) :=
              ih left (Nat.lt_succ_self left) inside bounded
            rw [stream] at next
            refine next.of_extent ?_
            simp only [ht]
            rw [List.drop_drop, show position + (n + 3) = stop + 2 by omega]
            cases trailersExtent left ((buffer ++ sock.stream).drop (stop + 2)) with
            | error e => rfl
            | ok m =>
              show Except.ok (position + (n + 3 + m)) = Except.ok (stop + 2 + m)
              rw [show position + (n + 3 + m) = stop + 2 + m by omega]

theorem map_add {x : Except HttpError Nat} (i j : Nat) :
    (x.bind fun n => .ok (j + n)).map (i + ·) = x.map (i + j + ·) := by
  cases x with
  | error e => rfl
  | ok n => exact congrArg Except.ok (Nat.add_assoc i j n).symm

theorem readChunks_follows (decoded : Nat) (start : position ≤ buffer.length)
    (within : buffer.length ≤ limit) :
    Follows limit (buffer ++ sock.stream)
      ((chunksExtent limit decoded ((buffer ++ sock.stream).drop position)).map (position + ·))
      (readChunks limit position decoded buffer sock) := by
  induction h : (limit - decoded).toNat using Nat.strongRecOn
    generalizing position decoded buffer sock with
  | ind budget ih =>
    rw [readChunks]
    have line := receiveUntil_sat "chunked body" limit position buffer sock
    cases h : receiveUntil "chunked body" limit position buffer sock with
    | error e =>
      rcases line.of_error h with ⟨rfl, missing, ended⟩ | ⟨rfl, excess⟩
      · rw [chunksExtent, missing]
        exact .of_error rfl fun _ => within_of_ended within ended
      · exact .of_line_over excess.1 (fun _ => le_of_chunksExtent) excess.2
    | ok r =>
      have here := line.of_ok h
      obtain ⟨stop, received, rest⟩ := r
      have bounded : received.length ≤ limit := here.within within
      have inside : stop + 2 ≤ received.length := here.inside
      have stream : received ++ rest.stream = buffer ++ sock.stream := here.stream
      have from_position : position ≤ stop := here.from_position
      rw [chunksExtent, here.found]
      simp only [bind, Except.bind, here.slice_eq]
      have sized := chunkSize_sat (((buffer ++ sock.stream).drop position).take (stop - position))
      cases hs : chunkSize (((buffer ++ sock.stream).drop position).take (stop - position)) with
      | error e =>
        have value := sized.of_error hs
        exact .of_error rfl fun closed => by rw [value] at closed; cases closed
      | ok size =>
        by_cases long : limit < size ∨ limit < decoded + size
        · simp only [long, ↓reduceDIte]
          exact .of_error rfl fun closed => by cases closed
        simp only [long, ↓reduceDIte]
        by_cases last : size = 0
        · simp only [last, ↓reduceDIte]
          have next : Follows limit (received ++ rest.stream) _
              (readTrailers limit maxTrailers (stop + 2) received rest) :=
            readTrailers_follows maxTrailers inside bounded
          rw [stream] at next
          refine next.of_extent ?_
          rw [List.drop_drop, show position + (stop - position + 2) = stop + 2 by omega]
          refine (map_add position (stop - position + 2)).trans ?_
          rw [show position + (stop - position + 2) = stop + 2 by omega]
        simp only [last, ↓reduceDIte]
        have block := receiveTo_sat limit (closedDuring "HTTP chunk") chunkedTooLong
          (stop + 2 + size + 2) received rest
        have room : stop - position + 2 + size + 2 ≤ ((buffer ++ sock.stream).drop position).length ↔
            stop + 2 + size + 2 ≤ (buffer ++ sock.stream).length := by
          rw [List.length_drop]
          omega
        rw [stream] at block
        cases hb : receiveTo limit (closedDuring "HTTP chunk") chunkedTooLong
            (stop + 2 + size + 2) received rest with
        | error e =>
          rcases block.of_error hb with ⟨rfl, missing, ended⟩ | ⟨rfl, excess⟩
          · rw [require, if_neg (by rw [room]; omega)]
            refine .of_error rfl fun _ => ?_
            rw [← stream] at ended ⊢
            exact within_of_ended bounded ended
          · refine .of_over excess.1 fun n hn => ?_
            obtain ⟨m, hm, rfl⟩ := map_eq_ok.mp hn
            obtain ⟨_, -, hm⟩ := bind_eq_ok.mp hm
            obtain ⟨_, -, hm⟩ := bind_eq_ok.mp hm
            obtain ⟨k, -, hm⟩ := bind_eq_ok.mp hm
            cases hm
            have : 0 < recvSize := by decide
            omega
        | ok r =>
          obtain ⟨stream', enough, ahead⟩ := block.of_ok hb
          obtain ⟨_, received', rest'⟩ := r
          have bounded' : received'.length ≤ limit := by
            rcases ahead with rfl | short
            · exact bounded
            · exact short
          have reaches : stop + 2 + size + 2 ≤ (buffer ++ sock.stream).length := by
            rw [← stream', List.length_append]
            omega
          have same : slice received' (stop + 2 + size) (stop + 2 + size + 2) =
              slice ((buffer ++ sock.stream).drop position) (stop - position + 2 + size)
                (stop - position + 2 + size + 2) := by
            rw [← slice_append received' rest'.stream enough, stream', slice, slice,
              List.drop_drop, show position + (stop - position + 2 + size) = stop + 2 + size by omega]
            congr 1
            omega
          rw [require, if_pos (room.mpr reaches)]
          simp only [same]
          by_cases closed : slice ((buffer ++ sock.stream).drop position)
              (stop - position + 2 + size) (stop - position + 2 + size + 2) = crlf
          · simp only [require, closed, ↓reduceIte]
            have next : Follows limit (received' ++ rest'.stream) _
                (readChunks limit (stop + 2 + size + 2) (decoded + size) received' rest') :=
              ih _ (by omega) (decoded + size) enough bounded' rfl
            rw [stream'] at next
            refine next.of_extent ?_
            rw [List.drop_drop, show position + (stop - position + 2 + size + 2) =
              stop + 2 + size + 2 by omega]
            refine (map_add position (stop - position + 2 + size + 2)).trans ?_
            rw [show position + (stop - position + 2 + size + 2) = stop + 2 + size + 2 by omega]
          · simp only [require, closed, ↓reduceIte]
            exact .of_error rfl fun closed => by cases closed

end Buffers

end Arenyxa.Capture
