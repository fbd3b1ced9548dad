import Arenyxa.Capture.Extent

/-! The reader against the cutting of its stream into received chunks. -/

namespace Arenyxa.Capture

open Outcome Search Segments HttpError

def trailerClosed : HttpError := closedDuring "HTTP chunked trailer"

section Cuts

variable {limit : Int} {left n : Nat} {text : Bytes}

theorem find?_take {pat : Bytes} {k : Nat} (found : find? pat text = some k)
    (inside : k + pat.length ≤ n) : find? pat (text.take n) = some k := by
  have long := find?_add_length_le found
  rw [← List.take_append_drop n text] at found
  exact find?_of_append found (by rw [List.length_take]; omega)

theorem find?_take_of_lt {pat : Bytes} {k : Nat} (found : find? pat text = some k)
    (outside : n < k + pat.length) : find? pat (text.take n) = none := by
  cases h : find? pat (text.take n) with
  | none => rfl
  | some j =>
    have whole := find?_append_of_some h (text.drop n)
    rw [List.take_append_drop, found] at whole
    have := find?_add_length_le h
    rw [List.length_take] at this
    cases whole
    omega

theorem trailersExtent_cut (h : trailersExtent left text = .ok n) :
    n ≤ text.length ∧ trailersExtent left (text.take n) = .ok n ∧
      trailersExtent left (text.take (n - 1)) = .error trailerClosed := by
  induction left using Nat.strongRecOn generalizing text n with
  | ind left ih =>
    obtain ⟨k, found, inside⟩ := le_of_trailersExtent h
    have long : k + 2 ≤ text.length := find?_add_length_le found
    rw [trailersExtent, found] at h
    rw [trailersExtent, trailersExtent, find?_take found inside]
    cases k with
    | zero =>
      cases h
      rw [find?_take_of_lt found (by decide)]
      exact ⟨long, rfl, rfl⟩
    | succ k =>
      cases left with
      | zero => cases h
      | succ left =>
        obtain ⟨_, checked, h⟩ := bind_eq_ok.mp h
        obtain ⟨rest, hrest, h⟩ := bind_eq_ok.mp h
        cases h
        obtain ⟨short, whole, starved⟩ := ih left (Nat.lt_succ_self left) hrest
        have := (le_of_trailersExtent hrest).choose_spec.2
        rw [List.length_drop] at short
        rw [find?_take found (by show k + 1 + 2 ≤ k + 3 + rest - 1; omega)]
        simp only [List.take_take, List.drop_take]
        rw [Nat.min_eq_left (by omega), Nat.min_eq_left (by omega), checked,
          show k + 3 + rest - (k + 3) = rest by omega,
          show k + 3 + rest - 1 - (k + 3) = rest - 1 by omega, whole, starved]
        exact ⟨by omega, rfl, rfl⟩

theorem chunksExtent_cut {decoded : Nat} (h : chunksExtent limit decoded text = .ok n) :
    n ≤ text.length ∧ chunksExtent limit decoded (text.take n) = .ok n ∧
      chunksExtent limit decoded (text.take (n - 1)) = .error trailerClosed := by
  induction budget : (limit - decoded).toNat using Nat.strongRecOn
    generalizing decoded text n with
  | ind budget' ih =>
    obtain ⟨k, found, inside⟩ := le_of_chunksExtent h
    have long : k + 2 ≤ text.length := find?_add_length_le found
    rw [chunksExtent, found] at h
    obtain ⟨size, sized, h⟩ := bind_eq_ok.mp h
    by_cases excess : limit < size ∨ limit < decoded + size
    · simp only [excess, ↓reduceDIte, reduceCtorEq] at h
    simp only [excess, ↓reduceDIte] at h
    by_cases last : size = 0
    · subst last
      simp only [↓reduceDIte] at h
      obtain ⟨rest, hrest, h⟩ := bind_eq_ok.mp h
      cases h
      obtain ⟨short, whole, starved⟩ := trailersExtent_cut hrest
      have := (le_of_trailersExtent hrest).choose_spec.2
      rw [List.length_drop] at short
      rw [chunksExtent, chunksExtent, find?_take found inside,
        find?_take found (by show k + 2 ≤ k + 2 + rest - 1; omega)]
      simp only [List.take_take, List.drop_take]
      rw [Nat.min_eq_left (by omega), Nat.min_eq_left (by omega), sized]
      simp only [bind, Except.bind, excess, ↓reduceDIte]
      rw [show k + 2 + rest - (k + 2) = rest by omega,
        show k + 2 + rest - 1 - (k + 2) = rest - 1 by omega, whole, starved]
      exact ⟨by omega, rfl, rfl⟩
    · simp only [last, ↓reduceDIte] at h
      obtain ⟨_, room, h⟩ := bind_eq_ok.mp h
      obtain ⟨_, closed, h⟩ := bind_eq_ok.mp h
      obtain ⟨rest, hrest, h⟩ := bind_eq_ok.mp h
      cases h
      rw [require_eq_ok] at room closed
      obtain ⟨short, whole, starved⟩ := ih _ (by omega) hrest rfl
      have := (le_of_chunksExtent hrest).choose_spec.2
      rw [List.length_drop] at short
      have kept : ∀ m, k + 2 + size + 2 ≤ m →
          slice (text.take m) (k + 2 + size) (k + 2 + size + 2) = crlf := by
        intro m hm
        rw [← slice_append (text.take m) (text.drop m) (by rw [List.length_take]; omega),
          List.take_append_drop]
        exact closed
      rw [chunksExtent, chunksExtent, find?_take found inside,
        find?_take found (by show k + 2 ≤ k + 2 + size + 2 + rest - 1; omega)]
      simp only [List.take_take, List.drop_take]
      rw [Nat.min_eq_left (by omega), Nat.min_eq_left (by omega), sized]
      simp only [bind, Except.bind, excess, last, ↓reduceDIte]
      rw [kept _ (by omega), kept _ (by omega),
        show k + 2 + size + 2 + rest - (k + 2 + size + 2) = rest by omega,
        show k + 2 + size + 2 + rest - 1 - (k + 2 + size + 2) = rest - 1 by omega, whole, starved]
      simp only [require, List.length_take, ↓reduceIte]
      rw [if_pos (by omega), if_pos (by omega)]
      exact ⟨by omega, rfl, rfl⟩

end Cuts

section Later

variable {limit : Int} {position : Nat} {buffer : Bytes} {sock : Socket}

theorem receiveUntil_append {label : String} {r : Nat × Bytes × Socket} (later : Socket)
    (h : receiveUntil label limit position buffer sock = .ok r) :
    receiveUntil label limit position buffer (sock.append later) =
      .ok (r.1, r.2.1, r.2.2.append later) :=
  receiveFor_append _ _ _ (fun _ _ => by decide) later h

theorem receiveTo_append {eof excess : HttpError} {required : Nat} {r : Unit × Bytes × Socket}
    (later : Socket) (h : receiveTo limit eof excess required buffer sock = .ok r) :
    receiveTo limit eof excess required buffer (sock.append later) =
      .ok (r.1, r.2.1, r.2.2.append later) := by
  refine receiveFor_append _ _ _ (fun l short => ?_) later h
  have : 0 < recvSize := by decide
  split at short
  next => omega
  next => cases short

theorem readTrailers_append {left : Nat} {m : Bytes} (later : Socket)
    (h : readTrailers limit left position buffer sock = .ok m) :
    readTrailers limit left position buffer (sock.append later) = .ok m := by
  induction left using Nat.strongRecOn generalizing position buffer sock with
  | ind left ih =>
    rw [readTrailers] at h ⊢
    obtain ⟨r, hr, h⟩ := bind_eq_ok.mp h
    rw [receiveUntil_append later hr]
    obtain ⟨stop, received, rest⟩ := r
    simp only [bind, Except.bind] at h ⊢
    split at h
    next last => rw [if_pos last]; exact h
    next more =>
      rw [if_neg more]
      cases left with
      | zero => exact h
      | succ left =>
        simp only at h ⊢
        cases checked : checkTrailer (slice received position stop) with
        | error e => rw [checked] at h; cases h
        | ok _ =>
          rw [checked] at h
          exact ih left (Nat.lt_succ_self left) h

theorem readChunks_append {decoded : Nat} {m : Bytes} (later : Socket)
    (h : readChunks limit position decoded buffer sock = .ok m) :
    readChunks limit position decoded buffer (sock.append later) = .ok m := by
  induction budget : (limit - decoded).toNat using Nat.strongRecOn
    generalizing position decoded buffer sock with
  | ind budget' ih =>
    rw [readChunks] at h ⊢
    obtain ⟨r, hr, h⟩ := bind_eq_ok.mp h
    obtain ⟨size, sized, h⟩ := bind_eq_ok.mp h
    rw [receiveUntil_append later hr]
    simp only [bind, Except.bind, sized]
    by_cases excess : limit < size ∨ limit < decoded + size
    · simp only [excess, ↓reduceDIte, reduceCtorEq] at h
    simp only [excess, ↓reduceDIte] at h ⊢
    by_cases last : size = 0
    · simp only [last, ↓reduceDIte] at h ⊢
      exact readTrailers_append later h
    simp only [last, ↓reduceDIte] at h ⊢
    obtain ⟨block, hb, h⟩ := bind_eq_ok.mp h
    obtain ⟨_, closed, h⟩ := bind_eq_ok.mp h
    rw [receiveTo_append later hb]
    simp only [closed]
    exact ih _ (by omega) h rfl

theorem readTrailers_starved {left : Nat} (later : Socket) (more : later.stream ≠ [])
    (long : limit < ((buffer ++ sock.stream).length + (later.recv recvSize).1.length : Int))
    (h : readTrailers limit left position buffer sock = .error trailerClosed) :
    readTrailers limit left position buffer (sock.append later) = .error chunkedTooLong := by
  induction left using Nat.strongRecOn generalizing position buffer sock with
  | ind left ih =>
    rw [readTrailers] at h ⊢
    cases hr : receiveUntil "HTTP chunked trailer" limit position buffer sock with
    | error e =>
      rw [hr] at h
      cases h
      have starved : receiveUntil "HTTP chunked trailer" limit position buffer
          (sock.append later) = .error chunkedTooLong :=
        receiveFor_starved _ _ _ (by decide) (by decide) later more long hr
      rw [starved]
      rfl
    | ok r =>
      have stream := ((receiveUntil_sat _ _ _ _ _).of_ok hr).stream
      rw [hr] at h
      rw [receiveUntil_append later hr]
      obtain ⟨stop, received, rest⟩ := r
      simp only [bind, Except.bind] at h ⊢
      split at h
      next last => cases h
      next more =>
        rw [if_neg more]
        cases left with
        | zero => cases h
        | succ left =>
          simp only at h ⊢
          cases checked : checkTrailer (slice received position stop) with
          | error e =>
            have value := (checkTrailer_sat _).of_error checked
            rw [checked] at h
            cases h
            cases value
          | ok _ =>
            rw [checked] at h
            exact ih left (Nat.lt_succ_self left) (by rw [stream]; exact long) h

theorem readChunks_starved {decoded : Nat} (later : Socket) (more : later.stream ≠ [])
    (long : limit < ((buffer ++ sock.stream).length + (later.recv recvSize).1.length : Int))
    (h : readChunks limit position decoded buffer sock = .error trailerClosed) :
    readChunks limit position decoded buffer (sock.append later) = .error chunkedTooLong := by
  induction budget : (limit - decoded).toNat using Nat.strongRecOn
    generalizing position decoded buffer sock with
  | ind budget' ih =>
    rw [readChunks] at h ⊢
    cases hr : receiveUntil "chunked body" limit position buffer sock with
    | error e =>
      rw [hr] at h
      cases h
      rcases (receiveUntil_sat _ _ _ _ _).of_error hr with ⟨other, -⟩ | ⟨other, -⟩
      · exact absurd other (by decide)
      · exact absurd other (by decide)
    | ok r =>
      have stream := ((receiveUntil_sat _ _ _ _ _).of_ok hr).stream
      rw [hr] at h
      rw [receiveUntil_append later hr]
      obtain ⟨stop, received, rest⟩ := r
      simp only [bind, Except.bind] at h ⊢
      cases sized : chunkSize (slice received position stop) with
      | error e =>
        have value := (chunkSize_sat _).of_error sized
        rw [sized] at h
        cases h
        cases value
      | ok size =>
        simp only [sized] at h ⊢
        by_cases excess : limit < size ∨ limit < decoded + size
        · simp only [excess, ↓reduceDIte] at h
          exact absurd (Except.error.inj h) (by decide)
        simp only [excess, ↓reduceDIte] at h ⊢
        rw [← stream] at long
        by_cases last : size = 0
        · simp only [last, ↓reduceDIte] at h ⊢
          exact readTrailers_starved later more long h
        simp only [last, ↓reduceDIte] at h ⊢
        cases hb : receiveTo limit (closedDuring "HTTP chunk") chunkedTooLong
            (stop + 2 + size + 2) received rest with
        | error e =>
          rw [hb] at h
          cases h
          rcases (receiveTo_sat _ _ _ _ _ _).of_error hb with ⟨other, -⟩ | ⟨other, -⟩
          · exact absurd other (by decide)
          · exact absurd other (by decide)
        | ok r =>
          have stream' := ((receiveTo_sat _ _ _ _ _ _).of_ok hb).1
          rw [hb] at h
          rw [receiveTo_append later hb]
          obtain ⟨_, received', rest'⟩ := r
          simp only at h ⊢
          by_cases closed : slice received' (stop + 2 + size) (stop + 2 + size + 2) = crlf
          · simp only [require, closed, ↓reduceIte] at h ⊢
            exact ih _ (by omega) (by rw [stream']; exact long) h rfl
          · simp only [require, closed, ↓reduceIte] at h
            exact absurd (Except.error.inj h) (by simp [trailerClosed, closedDuring])

end Later

end Arenyxa.Capture
