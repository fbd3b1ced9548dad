import Arenyxa.Capture.Segmentation

/-! Which results of the reader depend on how its stream is cut. -/

namespace Arenyxa.Capture

open Outcome Search Segments HttpError

section Heads

variable {limit : Int} {sock : Socket} {initial : Bytes}

/-- The socket with what was received of it before. -/
def ahead (state : Bytes × Socket) : Bytes := state.1 ++ state.2.stream

theorem readHead_splits (limit : Int) (sock : Socket) (initial : Bytes) :
    (readHead sock limit initial).map (fun r => (r.1, ahead r.2)) =
      splitHead limit (initial ++ sock.stream) := by
  rw [readHead, splitHead]
  by_cases small : 4 ≤ limit
  · simp only [require, small, ↓reduceIte, bind, Except.bind]
    have loop : Sat (receiveUpTo limit headersTooLong (fun b => (find? headEnd b).isSome)
        recvSize initial sock) _ _ := receiveUpTo_sat limit headersTooLong (by decide)
    cases hr : receiveUpTo limit headersTooLong (fun b => (find? headEnd b).isSome) recvSize
        initial sock with
    | error e =>
      obtain ⟨rfl, l, ⟨m, whole⟩, missing, long⟩ := loop.of_error hr
      have total := congrArg List.length whole
      rw [List.length_append] at total
      cases found : find? headEnd (initial ++ sock.stream) with
      | none =>
        simp only
        rw [if_neg (by omega)]
        rfl
      | some index =>
        have outside : l.length < index + headEnd.length := by
          by_contra inside
          rw [← whole] at found
          rw [find?_of_append found (by omega)] at missing
          cases missing
        simp only
        rw [if_neg (by omega)]
        rfl
    | ok r =>
      obtain ⟨whole, ended⟩ := loop.of_ok hr
      obtain ⟨buffer, rest⟩ := r
      simp only at whole ended ⊢
      rw [← whole]
      rcases ended with here | ⟨missing, drained, short⟩
      · obtain ⟨index, found⟩ := Option.isSome_iff_exists.mp here
        have inside := find?_add_length_le found
        rw [found, find?_append_of_some found]
        simp only
        by_cases long : index + headEnd.length ≤ limit
        · rw [if_pos long]
          simp only [pure, Except.pure, Except.map, ahead]
          rw [List.take_append_of_le_length inside, List.drop_append_of_le_length inside]
        · rw [if_neg long]
          rfl
      · have missing' : find? headEnd buffer = none := by simpa using missing
        rw [drained, List.append_nil, missing']
        simp only
        rw [if_pos short]
        simp only [pure, Except.pure, Except.map, ahead, drained, List.append_nil]
  · simp only [require, small, ↓reduceIte]
    rfl

theorem readHead_append {r : Bytes × Bytes × Socket} (later : Socket)
    (h : readHead sock limit initial = .ok r) (terminated : headEnd <:+ r.1) :
    readHead (sock.append later) limit initial = .ok (r.1, r.2.1, r.2.2.append later) := by
  rw [readHead] at h ⊢
  obtain ⟨_, small, h⟩ := bind_eq_ok.mp h
  obtain ⟨⟨buffer, rest⟩, hr, h⟩ := bind_eq_ok.mp h
  have here : (find? headEnd buffer).isSome = true := by
    cases found : find? headEnd buffer with
    | some index => rfl
    | none =>
      exfalso
      simp only [found] at h
      cases h
      have some_here := find?_isSome_of_infix terminated.isInfix
      rw [found] at some_here
      cases some_here
  rw [receiveUpTo_append _ _ (by decide) later hr here]
  simp only [small, bind, Except.bind] at h ⊢
  obtain ⟨index, found⟩ := Option.isSome_iff_exists.mp here
  rw [found] at h ⊢
  simp only at h ⊢
  cases long : require (index + headEnd.length ≤ limit) headersTooLong with
  | error e => rw [long] at h; cases h
  | ok _ => rw [long] at h; cases h; rfl

theorem readHead_ahead {r : Bytes × Bytes × Socket} (short : initial.length < recvSize)
    (h : readHead sock limit initial = .ok r) : r.2.1.length < recvSize := by
  rw [readHead] at h
  obtain ⟨_, small, h⟩ := bind_eq_ok.mp h
  obtain ⟨⟨buffer, rest⟩, hr, h⟩ := bind_eq_ok.mp h
  cases found : find? headEnd buffer with
  | none =>
    simp only [found] at h
    cases h
    exact (by decide : 0 < recvSize)
  | some index =>
    simp only [found] at h
    obtain ⟨_, -, h⟩ := bind_eq_ok.mp h
    cases h
    simp only [List.length_drop]
    rcases (receiveUpTo_ahead _ _).of_ok hr with same | ⟨l, m, extended, missing, bounded⟩
    · simp only at same
      rw [same]
      omega
    · have outside : l.length < index + headEnd.length := by
        by_contra inside
        simp only at extended
        rw [extended] at found
        rw [find?_of_append found (by omega)] at missing
        cases missing
      simp only at extended
      rw [extended, List.length_append]
      omega

end Heads

section FinalHead

variable {σ τ : Type} {next : σ → Except HttpError (Bytes × σ)}
  {next' : τ → Except HttpError (Bytes × τ)} {left : Nat}

attribute [local simp] finalHead in
theorem finalHead_map (view : σ → τ)
    (same : ∀ s, (next s).map (fun r => (r.1, view r.2)) = next' (view s)) (s : σ) :
    (finalHead next left s).map (fun r => (r.1, r.2.1, r.2.2.1, view r.2.2.2)) =
      finalHead next' left (view s) := by
  induction left using Nat.strongRecOn generalizing s with
  | ind left ih =>
    rw [finalHead, finalHead, ← same s]
    cases next s with
    | error e => rfl
    | ok r =>
      obtain ⟨head, state⟩ := r
      simp only [Except.map, bind, Except.bind]
      cases responseHead head with
      | error e => rfl
      | ok parsed =>
        obtain ⟨status, headers⟩ := parsed
        simp only
        cases informational : isInformational status with
        | false => rfl
        | true =>
          simp only [↓reduceIte]
          cases left with
          | zero => rfl
          | succ left =>
            simp only
            cases checkInformational headers with
            | error e => rfl
            | ok _ => exact ih left (Nat.lt_succ_self left) state

theorem terminated_of_responseHead {head : Bytes} {r : Nat × List Header}
    (h : responseHead head = .ok r) : headEnd <:+ head := by
  rw [responseHead] at h
  obtain ⟨_, -, h⟩ := bind_eq_ok.mp h
  obtain ⟨_, lines, -⟩ := bind_eq_ok.mp h
  rw [parseHead] at lines
  obtain ⟨_, ended, -⟩ := bind_eq_ok.mp lines
  exact require_eq_ok.mp ended

theorem finalHead_keeps (P : σ → Prop) {r : Nat × Bytes × List Header × σ}
    (kept : ∀ s r, P s → next s = .ok r → P r.2) {s : σ} (start : P s)
    (h : finalHead next left s = .ok r) : P r.2.2.2 := by
  induction left using Nat.strongRecOn generalizing s with
  | ind left ih =>
    rw [finalHead] at h
    obtain ⟨⟨head, state⟩, taken, h⟩ := bind_eq_ok.mp h
    obtain ⟨⟨status, headers⟩, -, h⟩ := bind_eq_ok.mp h
    have after := kept s _ start taken
    cases informational : isInformational status with
    | false =>
      simp only [informational] at h
      cases h
      exact after
    | true =>
      simp only [informational, ↓reduceIte] at h
      cases left with
      | zero => cases h
      | succ left =>
        obtain ⟨_, -, h⟩ := bind_eq_ok.mp h
        exact ih left (Nat.lt_succ_self left) after h

theorem finalHead_extend (extend : σ → σ) {r : Nat × Bytes × List Header × σ}
    (kept : ∀ s r, next s = .ok r → headEnd <:+ r.1 → next (extend s) = .ok (r.1, extend r.2))
    {s : σ} (h : finalHead next left s = .ok r) :
    finalHead next left (extend s) = .ok (r.1, r.2.1, r.2.2.1, extend r.2.2.2) := by
  induction left using Nat.strongRecOn generalizing s with
  | ind left ih =>
    rw [finalHead] at h ⊢
    obtain ⟨⟨head, state⟩, taken, h⟩ := bind_eq_ok.mp h
    obtain ⟨⟨status, headers⟩, parsed, h⟩ := bind_eq_ok.mp h
    rw [kept s _ taken (terminated_of_responseHead parsed)]
    simp only [bind, Except.bind, parsed] at h ⊢
    cases informational : isInformational status with
    | false =>
      simp only [informational] at h ⊢
      cases h
      rfl
    | true =>
      simp only [informational, ↓reduceIte] at h ⊢
      cases left with
      | zero => cases h
      | succ left =>
        simp only at h ⊢
        cases checked : checkInformational headers with
        | error e => rw [checked] at h; cases h
        | ok _ =>
          rw [checked] at h
          exact ih left (Nat.lt_succ_self left) h

end FinalHead

section Streams

variable {limit : Int} {left : Nat} {text : Bytes}

theorem splitHead_consumes {head rest : Bytes} (h : splitHead limit text = .ok (head, rest))
    (terminated : headEnd <:+ head) :
    text = head ++ rest ∧ ∀ tail, splitHead limit (head ++ tail) = .ok (head, tail) := by
  rw [splitHead] at h
  obtain ⟨_, small, h⟩ := bind_eq_ok.mp h
  cases found : find? headEnd text with
  | none =>
    simp only [found] at h
    obtain ⟨_, -, h⟩ := bind_eq_ok.mp h
    cases h
    have some_here := find?_isSome_of_infix terminated.isInfix
    rw [found] at some_here
    cases some_here
  | some index =>
    simp only [found] at h
    obtain ⟨_, short, h⟩ := bind_eq_ok.mp h
    have inside := find?_add_length_le found
    cases h
    refine ⟨(List.take_append_drop _ _).symm, fun tail => ?_⟩
    have whole := find?_append_of_some (find?_take found (Nat.le_refl _)) tail
    have full : (text.take (index + headEnd.length)).length = index + headEnd.length := by
      rw [List.length_take, Nat.min_eq_left inside]
    rw [splitHead, small, whole]
    simp only [bind, Except.bind, short]
    rw [List.take_left' full, List.drop_left' full]
    rfl

theorem finalHead_consumes {r : Nat × Bytes × List Header × Bytes}
    (h : finalHead (splitHead limit) left text = .ok r) :
    ∃ consumed, text = consumed ++ r.2.2.2 ∧ ∀ tail,
      finalHead (splitHead limit) left (consumed ++ tail) = .ok (r.1, r.2.1, r.2.2.1, tail) := by
  induction left using Nat.strongRecOn generalizing text with
  | ind left ih =>
    rw [finalHead] at h
    obtain ⟨⟨head, state⟩, taken, h⟩ := bind_eq_ok.mp h
    obtain ⟨⟨status, headers⟩, parsed, h⟩ := bind_eq_ok.mp h
    obtain ⟨whole, again⟩ := splitHead_consumes taken (terminated_of_responseHead parsed)
    cases informational : isInformational status with
    | false =>
      simp only [informational] at h
      cases h
      refine ⟨head, whole, fun tail => ?_⟩
      rw [finalHead, again tail]
      simp only [bind, Except.bind, parsed, informational]
      rfl
    | true =>
      simp only [informational, ↓reduceIte] at h
      cases left with
      | zero => cases h
      | succ left =>
        obtain ⟨_, checked, h⟩ := bind_eq_ok.mp h
        obtain ⟨consumed, rest, further⟩ := ih left (Nat.lt_succ_self left) h
        refine ⟨head ++ consumed, by rw [List.append_assoc, ← rest, ← whole], fun tail => ?_⟩
        rw [finalHead, List.append_assoc, again (consumed ++ tail)]
        simp only [bind, Except.bind, parsed, informational, ↓reduceIte, checked]
        exact further tail

theorem receiveTo_exact (limit : Int) (eof excess : HttpError) (required : Nat) (buffer : Bytes)
    (sock : Socket) (start : buffer.length ≤ required) :
    Sat (receiveTo limit eof excess required buffer sock) (fun r => r.2.1.length ≤ required)
      (fun _ => True) := by
  rw [receiveTo]
  refine (receiveFor_keeps limit eof excess (fun l => l.length ≤ required)
    (fun l m short missing added => ?_) start).mono (fun _ h => h) (fun _ _ => trivial)
  rw [List.length_append]
  omega

theorem readExact_splits (sock : Socket) (size : Nat) (initial : Bytes) (limit : Int) :
    readExact sock size initial limit =
      if size ≤ limit then
        if size ≤ (initial ++ sock.stream).length then .ok ((initial ++ sock.stream).take size)
        else .error (connectionError "Connection closed before HTTP body completed")
      else .error bodyTooLong := by
  rw [readExact]
  by_cases fits : size ≤ limit
  · have filled := receiveTo_sat limit
      (connectionError "Connection closed before HTTP body completed") bodyTooLong size
      (initial.take size) sock
    have exact := receiveTo_exact limit
      (connectionError "Connection closed before HTTP body completed") bodyTooLong size
      (initial.take size) sock (List.length_take_le size initial)
    have body : (initial.take size ++ sock.stream).take size = (initial ++ sock.stream).take size := by
      simp only [List.take_append, List.take_take, Nat.min_self, List.length_take]
      congr 2
      omega
    have enough : size ≤ (initial ++ sock.stream).length ↔
        size ≤ (initial.take size ++ sock.stream).length := by
      simp only [List.length_append, List.length_take]
      omega
    simp only [require, fits, ↓reduceIte, bind, Except.bind]
    cases h : receiveTo limit (connectionError "Connection closed before HTTP body completed")
        bodyTooLong size (initial.take size) sock with
    | error e =>
      have cut : e = connectionError "Connection closed before HTTP body completed" ∧
          (initial.take size ++ sock.stream).length < size := by
        rcases filled.of_error h with ⟨closed, short, -⟩ | ⟨excess, -, long⟩
        · exact ⟨closed, short⟩
        · omega
      obtain ⟨rfl, short⟩ := cut
      rw [if_neg (by rw [enough]; omega)]
    | ok r =>
      obtain ⟨stream, long, -⟩ := filled.of_ok h
      have short := exact.of_ok h
      obtain ⟨_, buffer, rest⟩ := r
      rw [← body, ← stream, if_pos (by rw [enough, ← stream, List.length_append]; omega)]
      rw [List.take_append_of_le_length long, List.take_of_length_le short]
      rfl
  · simp only [require, fits, ↓reduceIte]
    rfl

theorem readToEnd_splits (sock : Socket) (initial : Bytes) (limit : Int) :
    readToEnd sock initial limit =
      if (initial ++ sock.stream).length ≤ limit then .ok (initial ++ sock.stream)
      else .error responseTooLong := by
  rw [readToEnd]
  have loop : Sat (receiveUpTo limit responseTooLong (fun _ => false) recvSize initial sock) _ _ :=
    receiveUpTo_sat limit responseTooLong (by decide)
  cases h : receiveUpTo limit responseTooLong (fun _ => false) recvSize initial sock with
  | error e =>
    obtain ⟨rfl, l, part, -, long⟩ := loop.of_error h
    have := part.length_le
    rw [if_neg (by omega)]
    rfl
  | ok r =>
    obtain ⟨whole, ended | ⟨-, drained, short⟩⟩ := loop.of_ok h
    · cases ended
    · rw [drained, List.append_nil] at whole
      rw [← whole, if_pos short]
      rfl

end Streams

section Bodies

variable {limit : Int} {sock : Socket} {initial stream : Bytes} {n : Nat}

theorem limit_nonneg_of_chunksExtent {decoded : Nat}
    (h : chunksExtent limit decoded stream = .ok n) : 0 ≤ limit := by
  rw [chunksExtent] at h
  cases found : find? crlf stream with
  | none => simp [found] at h
  | some k =>
    simp only [found] at h
    obtain ⟨size, -, h⟩ := bind_eq_ok.mp h
    by_contra negative
    rw [dif_pos (.inl (by omega))] at h
    cases h

theorem readChunks_initial (sock : Socket) (short : initial.length ≤ limit) :
    Follows limit (initial ++ sock.stream) (chunksExtent limit 0 (initial ++ sock.stream))
      (readChunks limit 0 0 initial sock) := by
  refine (readChunks_follows 0 (Nat.zero_le _) short).of_extent ?_
  rw [List.drop_zero]
  cases chunksExtent limit 0 (initial ++ sock.stream) with
  | error e => rfl
  | ok n => exact congrArg Except.ok (Nat.zero_add n).symm

/-- What reading a chunked body comes to when the reader does not run ahead of it. -/
def chunkedOutcome (limit : Int) (stream : Bytes) : Except ErrorKind Bytes :=
  match chunksExtent limit 0 stream with
  | .ok n => if n ≤ limit then .ok (stream.take n) else .error .valueError
  | .error e => if limit < stream.length then .error .valueError else .error e.kind

theorem readChunked_outcome
    (settled : ∀ n, chunksExtent limit 0 (initial ++ sock.stream) = .ok n → n ≤ limit →
      (initial ++ sock.stream).length ≤ limit ∨
        (initial.length ≤ limit ∧ (n + recvSize - 1 : Int) ≤ limit)) :
    outcome (readChunked sock initial limit) = chunkedOutcome limit (initial ++ sock.stream) := by
  have whole := @List.length_append _ initial sock.stream
  rw [readChunked, chunkedOutcome]
  by_cases negative : 0 ≤ limit
  swap
  · simp only [require, negative, ↓reduceIte]
    show (.error .valueError : Except ErrorKind Bytes) = _
    cases h : chunksExtent limit 0 (initial ++ sock.stream) with
    | ok n => exact absurd (limit_nonneg_of_chunksExtent h) negative
    | error e =>
      simp only
      rw [if_pos (by omega)]
  by_cases short : initial.length ≤ limit
  swap
  · simp only [require, negative, short, ↓reduceIte]
    cases h : chunksExtent limit 0 (initial ++ sock.stream) with
    | ok n =>
      simp only
      rw [if_neg]
      · rfl
      · intro inside
        have := settled n h inside
        omega
    | error e =>
      simp only
      rw [if_pos (by omega)]
      rfl
  simp only [require, negative, short, ↓reduceIte, bind, Except.bind]
  obtain ⟨agrees, bounded⟩ := readChunks_initial sock short
  rcases agrees with same | ⟨excess, long, past⟩
  · rw [same] at bounded ⊢
    cases h : chunksExtent limit 0 (initial ++ sock.stream) with
    | ok n =>
      rw [h] at bounded
      have inside := (chunksExtent_cut h).1
      have fits : (((initial ++ sock.stream).take n).length : Int) ≤ limit := bounded
      rw [List.length_take] at fits
      simp only
      rw [if_pos (by omega)]
      rfl
    | error e =>
      rw [h] at bounded
      have closed : e.kind = .connectionError → (initial ++ sock.stream).length ≤ limit := bounded
      simp only [Except.map, outcome_error]
      split
      next long =>
        cases kind : e.kind with
        | valueError => rfl
        | connectionError => exact absurd (closed kind) (by omega)
      next => rfl
  · rw [excess]
    cases h : chunksExtent limit 0 (initial ++ sock.stream) with
    | ok n =>
      simp only
      rw [if_neg]
      · rfl
      · intro inside
        have := past n h
        have := settled n h inside
        omega
    | error e =>
      simp only
      rw [if_pos long]
      rfl

theorem readChunked_complete (later : Socket) (whole : stream = initial ++ sock.stream)
    (short : stream.length ≤ limit)
    (complete : chunksExtent limit 0 stream = .ok stream.length) :
    readChunked (sock.append later) initial limit = .ok stream := by
  subst whole
  have whole := @List.length_append _ initial sock.stream
  have negative := limit_nonneg_of_chunksExtent complete
  have fits : initial.length ≤ limit := by omega
  rw [readChunked]
  simp only [require, negative, fits, ↓reduceIte, bind, Except.bind]
  refine readChunks_append later ?_
  rcases (readChunks_initial sock fits).agrees with same | ⟨-, long, -⟩
  · rw [same, complete]
    exact congrArg Except.ok List.take_length
  · omega

theorem readChunked_overrun (later : Socket) (whole : stream = initial ++ sock.stream)
    (more : later.stream ≠ []) (negative : 0 ≤ limit) (short : stream.length ≤ limit)
    (starved : chunksExtent limit 0 stream = .error trailerClosed)
    (long : limit < (stream.length + (later.recv recvSize).1.length : Int)) :
    readChunked (sock.append later) initial limit = .error chunkedTooLong := by
  subst whole
  have whole := @List.length_append _ initial sock.stream
  have fits : initial.length ≤ limit := by omega
  rw [readChunked]
  simp only [require, negative, fits, ↓reduceIte, bind, Except.bind]
  refine readChunks_starved later more long ?_
  rcases (readChunks_initial sock fits).agrees with same | ⟨-, excess, -⟩
  · rw [same, starved]
    rfl
  · omega

end Bodies

section Responses

variable {method : Bytes} {headerLimit limit : Int} {stream : Bytes}

/-- A response with a chunked body: what its heads leave of the stream. -/
def ChunkedResponse (method : Bytes) (headerLimit : Int) (stream head rest : Bytes) : Prop :=
  ∃ status headers length,
    finalHead (splitHead headerLimit) maxInformational stream = .ok (status, head, headers, rest) ∧
    hasNoBody method status = false ∧ messageFraming headers = .ok (true, length)

theorem finalHead_splits (headerLimit : Int) (left : Nat) (state : Bytes × Socket) :
    (finalHead (nextHead headerLimit) left state).map
        (fun r => (r.1, r.2.1, r.2.2.1, ahead r.2.2.2)) =
      finalHead (splitHead headerLimit) left (ahead state) :=
  finalHead_map ahead (fun s => readHead_splits headerLimit s.2 s.1) state

theorem finalHead_cut {status : Nat} {consumed head : Bytes} {headers : List Header}
    (front back : Bytes)
    (h : ∀ tail, finalHead (splitHead headerLimit) maxInformational (consumed ++ tail) =
      .ok (status, head, headers, tail)) :
    ∃ (received : Bytes) (sock : Socket), received ++ sock.stream = front ∧
      finalHead (nextHead headerLimit) maxInformational
        ([], (Feed.whole (consumed ++ front)).append (Feed.whole back)) =
        .ok (status, head, headers, received, sock.append (Feed.whole back)) := by
  have refined := finalHead_splits headerLimit maxInformational
    ([], Feed.whole (consumed ++ front))
  simp only [ahead, Feed.stream_whole, List.nil_append] at refined
  rw [h front] at refined
  obtain ⟨r, hr, same⟩ := map_eq_ok.mp refined
  obtain ⟨status', head', headers', received, sock⟩ := r
  cases same
  refine ⟨received, sock, rfl, ?_⟩
  exact finalHead_extend (fun s => (s.1, s.2.append (Feed.whole back)))
    (fun s r taken terminated => readHead_append (Feed.whole back) taken terminated) hr

/-- What a response comes to when the reader does not run ahead of a chunked body. -/
def responseOutcome (method : Bytes) (headerLimit limit : Int) (stream : Bytes) :
    Except ErrorKind Bytes := do
  let (status, head, headers, rest) ←
    outcome (finalHead (splitHead headerLimit) maxInformational stream)
  if hasNoBody method status then return head
  else do
    let (isChunked, length) ← outcome (messageFraming headers)
    let body ←
      if isChunked then chunkedOutcome limit rest
      else
        match length with
        | some size => outcome (readExact Feed.exhausted size rest limit)
        | none => outcome (readToEnd Feed.exhausted rest limit)
    return head ++ body

theorem readResponse_outcome (sock : Socket)
    (settled : ∀ head rest n, ChunkedResponse method headerLimit sock.stream head rest →
      chunksExtent limit 0 rest = .ok n → n ≤ limit →
      rest.length ≤ limit ∨ (n + recvSize - 1 : Int) ≤ limit) :
    outcome (readResponse sock method headerLimit limit) =
      responseOutcome method headerLimit limit sock.stream := by
  have refined := finalHead_splits headerLimit maxInformational ([], sock)
  rw [readResponse, responseOutcome]
  have stream : ahead ([], sock) = sock.stream := rfl
  rw [stream] at refined
  cases heads : finalHead (nextHead headerLimit) maxInformational ([], sock) with
  | error e =>
    rw [heads] at refined
    rw [← refined]
    rfl
  | ok r =>
    obtain ⟨status, head, headers, received, sock'⟩ := r
    rw [heads] at refined
    rw [← refined]
    have short : received.length < recvSize :=
      finalHead_keeps (fun s => s.1.length < recvSize)
        (fun s r before taken => readHead_ahead before taken) (by show 0 < recvSize; decide) heads
    simp only [Except.map, bind, Except.bind, outcome_ok]
    cases bodyless : hasNoBody method status with
    | true => rfl
    | false =>
      simp only [Bool.false_eq_true, ↓reduceIte]
      cases framing : messageFraming headers with
      | error e => rfl
      | ok framed =>
        obtain ⟨isChunked, length⟩ := framed
        have here : ∀ n, isChunked = true → chunksExtent limit 0 (received ++ sock'.stream) = .ok n →
            n ≤ limit → (received ++ sock'.stream).length ≤ limit ∨
              (received.length ≤ limit ∧ (n + recvSize - 1 : Int) ≤ limit) := by
          rintro n rfl extent inside
          refine (settled head (received ++ sock'.stream) n
            ⟨status, headers, length, refined.symm, bodyless, framing⟩ extent inside).imp_right ?_
          intro room
          exact ⟨by omega, room⟩
        simp only [outcome_ok, ahead]
        cases isChunked with
        | true =>
          rw [← readChunked_outcome (fun n => here n rfl)]
          cases readChunked sock' received limit <;> rfl
        | false =>
          cases length with
          | some size =>
            have same : readExact sock' size received limit =
                readExact Feed.exhausted size (received ++ sock'.stream) limit := by
              rw [readExact_splits, readExact_splits, Feed.stream_exhausted, List.append_nil]
            simp only [Bool.false_eq_true, ↓reduceIte]
            rw [same]
            cases readExact Feed.exhausted size (received ++ sock'.stream) limit <;> rfl
          | none =>
            have same : readToEnd sock' received limit =
                readToEnd Feed.exhausted (received ++ sock'.stream) limit := by
              rw [readToEnd_splits, readToEnd_splits, Feed.stream_exhausted, List.append_nil]
            simp only [Bool.false_eq_true, ↓reduceIte]
            rw [same]
            cases readToEnd Feed.exhausted (received ++ sock'.stream) limit <;> rfl

/-- A read that comes out alike for every way to cut a stream. -/
def CutIndependent {σ α : Type} (cuts : σ → Prop) (read : σ → Except HttpError α) : Prop :=
  ∀ s s', cuts s → cuts s' → outcome (read s) = outcome (read s')

/-- No complete chunked body lies within the limit on a stream that goes on past it. -/
def ChunkedSettled (limit : Int) (stream : Bytes) : Prop :=
  ∀ n, chunksExtent limit 0 stream = .ok n → n ≤ limit → stream.length ≤ limit

/-- As `ChunkedSettled` for the body of a response, of which a receive can bring at most
`recvSize - 1` bytes too many. -/
def ResponseSettled (method : Bytes) (headerLimit limit : Int) (stream : Bytes) : Prop :=
  ∀ head rest n, ChunkedResponse method headerLimit stream head rest →
    chunksExtent limit 0 rest = .ok n → n ≤ limit →
    rest.length ≤ limit ∨ (n + recvSize - 1 : Int) ≤ limit

theorem readChunked_independent_iff (limit : Int) (stream : Bytes) :
    CutIndependent (fun s => ahead s = stream) (fun s => readChunked s.2 s.1 limit) ↔
      ChunkedSettled limit stream := by
  constructor
  · intro same n extent inside
    obtain ⟨long, complete, -⟩ := chunksExtent_cut extent
    by_contra past
    have cut := same (stream.take n, Feed.whole (stream.drop n)) (stream, Feed.exhausted)
      (by simp [ahead]) (by simp [ahead])
    have length : (stream.take n).length = n := by
      rw [List.length_take, Nat.min_eq_left long]
    have read : readChunked ((Feed.exhausted : Socket).append (Feed.whole (stream.drop n)))
        (stream.take n) limit = .ok (stream.take n) :=
      readChunked_complete (Feed.whole (stream.drop n)) (List.append_nil (stream.take n)).symm
        (by rw [length]; exact inside) (by rw [length]; exact complete)
    rw [Feed.exhausted_append] at read
    have refused : readChunked Feed.exhausted stream limit = .error chunkedTooLong := by
      rw [readChunked, require, if_pos (limit_nonneg_of_chunksExtent extent), require, if_neg past]
      rfl
    simp only [read, refused, outcome_ok, outcome_error, reduceCtorEq] at cut
  · rintro settled ⟨initial, sock⟩ ⟨initial', sock'⟩ (rfl : initial ++ sock.stream = stream)
      (whole : initial' ++ sock'.stream = initial ++ sock.stream)
    rw [readChunked_outcome fun n extent inside => .inl (settled n extent inside),
      readChunked_outcome fun n extent inside => .inl ?_, whole]
    rw [whole] at extent ⊢
    exact settled n extent inside

theorem readResponse_independent_iff (method : Bytes) (headerLimit limit : Int) (stream : Bytes) :
    CutIndependent (fun sock => Feed.stream sock = stream)
        (fun sock => readResponse sock method headerLimit limit) ↔
      ResponseSettled method headerLimit limit stream := by
  constructor
  · rintro same head rest n ⟨status, headers, length, heads, bodyless, framing⟩ extent inside
    obtain ⟨long, complete, starved⟩ := chunksExtent_cut extent
    have two := (le_of_chunksExtent extent).choose_spec.2
    by_contra past
    rw [not_or] at past
    obtain ⟨consumed, whole, again⟩ := finalHead_consumes heads
    simp only at whole again
    -- One cut ends with the body, the other one byte before it.
    obtain ⟨received, sock, front, read⟩ := finalHead_cut (rest.take n) (rest.drop n) again
    obtain ⟨received', sock', front', read'⟩ := finalHead_cut (rest.take (n - 1))
      (rest.drop (n - 1)) again
    have taken : (rest.take n).length = n := by rw [List.length_take, Nat.min_eq_left long]
    have taken' : (rest.take (n - 1)).length = n - 1 := by
      rw [List.length_take, Nat.min_eq_left (by omega)]
    have body : readChunked (sock.append (Feed.whole (rest.drop n))) received limit =
        .ok (rest.take n) :=
      readChunked_complete _ front.symm (by rw [taken]; exact inside) (by rw [taken]; exact complete)
    have more : (Feed.whole (rest.drop (n - 1))).stream ≠ [] := by
      rw [Feed.stream_whole]
      intro empty
      have := congrArg List.length empty
      rw [List.length_drop, List.length_nil] at this
      omega
    have overrun : readChunked (sock'.append (Feed.whole (rest.drop (n - 1)))) received' limit =
        .error chunkedTooLong := by
      refine readChunked_overrun _ front'.symm more (limit_nonneg_of_chunksExtent extent) ?_
        starved ?_
      · rw [taken']
        omega
      · rw [taken', Feed.recv_whole, List.length_take, List.length_drop]
        omega
    have cut := same ((Feed.whole (consumed ++ rest.take n)).append (Feed.whole (rest.drop n)))
      ((Feed.whole (consumed ++ rest.take (n - 1))).append (Feed.whole (rest.drop (n - 1))))
      (by simp [whole]) (by simp [whole])
    simp only [readResponse, read, read', bind, Except.bind, bodyless, framing, body, overrun,
      Bool.false_eq_true, ↓reduceIte, outcome_error, pure, Except.pure, outcome_ok,
      reduceCtorEq] at cut
  · intro settled sock sock' whole whole'
    subst whole
    rw [readResponse_outcome sock settled, readResponse_outcome sock' (by rw [whole']; exact settled),
      whole']

/-- Heads, bodies of known length and bodies up to the end of the stream never depend on the
cutting; chunked bodies do exactly when a receive can bring in more than the limit allows. -/
theorem reader_cut_independent_iff (size : Nat) (method : Bytes) (headerLimit limit : Int)
    (stream : Bytes) :
    (CutIndependent (fun s => ahead s = stream) fun s =>
      (readHead s.2 limit s.1).map fun r => (r.1, ahead r.2)) ∧
    (CutIndependent (fun s => ahead s = stream) fun s => readExact s.2 size s.1 limit) ∧
    (CutIndependent (fun s => ahead s = stream) (fun s => readChunked s.2 s.1 limit) ↔
      ChunkedSettled limit stream) ∧
    (CutIndependent (fun sock => Feed.stream sock = stream)
      (fun sock => readResponse sock method headerLimit limit) ↔
        ResponseSettled method headerLimit limit stream) := by
  refine ⟨?_, ?_, readChunked_independent_iff limit stream,
    readResponse_independent_iff method headerLimit limit stream⟩
  · rintro ⟨initial, sock⟩ ⟨initial', sock'⟩ (whole : initial ++ sock.stream = stream)
      (whole' : initial' ++ sock'.stream = stream)
    simp only [readHead_splits, whole, whole']
  · rintro ⟨initial, sock⟩ ⟨initial', sock'⟩ (whole : initial ++ sock.stream = stream)
      (whole' : initial' ++ sock'.stream = stream)
    simp only [readExact_splits, whole, whole']

/-- A whole chunked body and one byte of the next message: the reader returns the body when
the byte is still in the socket, and refuses it when the byte came along. -/
theorem readChunked_depends_on_cut :
    ¬CutIndependent (fun s => ahead s = ascii "0\r\n\r\nG")
      (fun s => readChunked s.2 s.1 5) := by
  intro same
  have cut := same (ascii "0\r\n\r\n", Feed.whole (ascii "G"))
    (ascii "0\r\n\r\nG", Feed.exhausted) rfl rfl
  have body : readChunked (Feed.whole (ascii "G")) (ascii "0\r\n\r\n") 5 =
      .ok (ascii "0\r\n\r\n") := by decide +kernel
  have refused : readChunked Feed.exhausted (ascii "0\r\n\r\nG") 5 = .error chunkedTooLong := by
    decide +kernel
  simp only [body, refused, outcome_ok, outcome_error, reduceCtorEq] at cut

end Responses

end Arenyxa.Capture
