import Arenyxa.Capture.Http2Stream

/-! The memory that the HTTP/2 decoder holds back for the bodies of its streams. -/

namespace Arenyxa.Capture.Http2

open Outcome Records Dict

/-- The bytes in a family of buffers. -/
def held (buffers : List (Nat × Bytes)) : Nat := (buffers.map fun item => item.2.length).sum

variable {σ : Type} {lib : Http2Library σ} {s : State σ} {d : List (Nat × Bytes)} {k : Nat} {v : Bytes}

theorem held_eq (nodup : (keys d).Nodup) (mem : k ∈ keys d) :
    held (d.map fun item => if item.1 = k then (k, v) else item) + ((d.lookup k).getD []).length =
      held d + v.length := by
  induction d with
  | nil => exact absurd mem List.not_mem_nil
  | cons item d ih =>
    obtain ⟨fresh, nodup⟩ := List.nodup_cons.mp nodup
    by_cases own : item.1 = k
    · subst own
      have rest : (d.map fun other => if other.1 = item.1 then (item.1, v) else other) = d := by
        refine (List.map_congr_left fun other mem => if_neg fun same => ?_).trans d.map_id
        exact fresh (same ▸ List.mem_map_of_mem mem)
      rw [List.map_cons, if_pos rfl, rest, List.lookup_cons, beq_self_eq_true]
      simp only [held, List.map_cons, List.sum_cons, Option.getD_some]
      omega
    · have later : k ∈ keys d := (List.mem_cons.mp mem).resolve_left (Ne.symm own)
      have moved := ih nodup later
      rw [List.map_cons, if_neg own, List.lookup_cons, beq_eq_false_iff_ne.mpr (Ne.symm own)]
      simp only [held, List.map_cons, List.sum_cons] at moved ⊢
      omega

theorem held_put (nodup : (keys d).Nodup) :
    held (put d k v) + ((d.lookup k).getD []).length = held d + v.length := by
  rw [put]
  split
  next mem => exact held_eq nodup mem
  next absent =>
    rw [lookup_eq_none_iff.mpr absent, held, held, List.map_append, List.sum_append]
    simp

theorem buffer_le_held (nodup : (keys d).Nodup) : ((d.lookup k).getD []).length ≤ held d := by
  have emptied := held_put (v := []) (k := k) nodup
  rw [List.length_nil] at emptied
  omega

theorem consume_length (rows : Nat) (buffer : Bytes) {messages : List GrpcMessage} {rest : Bytes}
    (h : consumeGrpcBuffer lib rows buffer = .ok (messages, rest)) : rest.length ≤ buffer.length := by
  fun_induction consumeGrpcBuffer lib rows buffer generalizing messages rest with
  | case1 | case3 | case5 =>
    cases h
    exact Nat.le_refl _
  | case2 => cases h
  | case4 rows buffer _ _ _ _ _ =>
    rename_i ih
    obtain ⟨left, later, same⟩ := map_eq_ok.mp h
    cases same
    have shorter := ih later
    rw [List.length_drop] at shorter
    exact shorter.trans (Nat.sub_le _ _)

/-- The counter agrees with the buffers, and is within its bound. -/
structure Accounted (s : State σ) : Prop where
  grpc : (keys s.grpcBuffers).Nodup
  doh : (keys s.dohBuffers).Nodup
  counted : s.reassemblyBytes = held s.grpcBuffers + held s.dohBuffers
  bounded : s.reassemblyBytes ≤ maxReassemblyBytes

theorem accounted_start : Accounted (State.start lib) :=
  ⟨List.nodup_nil, List.nodup_nil, rfl, Int.natCast_nonneg _⟩

/-- Only data frames touch the buffers and their counter. -/
structure Untouched (s s' : State σ) : Prop where
  grpc : s'.grpcBuffers = s.grpcBuffers
  doh : s'.dohBuffers = s.dohBuffers
  count : s'.reassemblyBytes = s.reassemblyBytes

theorem Accounted.untouched {s' : State σ} (h : Accounted s) (same : Untouched s s') : Accounted s' := by
  refine ⟨?_, ?_, ?_, ?_⟩
  · rw [same.grpc]
    exact h.grpc
  · rw [same.doh]
    exact h.doh
  · rw [same.grpc, same.doh, same.count]
    exact h.counted
  · rw [same.count]
    exact h.bounded

theorem blockEnds_untouched (k : Nat) (block : Bytes) (row : FrameRow)
    (put_headers : FrameRow → List (String × String) → FrameRow) :
    Untouched s (s.blockEnds lib k block row put_headers).1 := by
  rw [State.blockEnds]
  split
  next => exact ⟨rfl, rfl, rfl⟩
  next => exact ⟨rfl, rfl, rfl⟩

theorem headers_untouched (f : Frame) (row : FrameRow) : Untouched s (s.headers lib f row).1 := by
  rw [State.headers]
  split
  next => exact ⟨rfl, rfl, rfl⟩
  next =>
    split
    next => exact ⟨rfl, rfl, rfl⟩
    next =>
      split
      next => exact ⟨rfl, rfl, rfl⟩
      next =>
        dsimp only
        split
        next => exact blockEnds_untouched _ _ _ _
        next => exact ⟨rfl, rfl, rfl⟩

theorem continuation_untouched (f : Frame) (row : FrameRow) :
    Untouched s (s.continuation lib f row).1 := by
  rw [State.continuation]
  split
  next => exact ⟨rfl, rfl, rfl⟩
  next =>
    split
    next => exact ⟨rfl, rfl, rfl⟩
    next =>
      split
      next => exact blockEnds_untouched _ _ _ _
      next => exact ⟨rfl, rfl, rfl⟩

theorem Accounted.grpcData (h : Accounted s) (k : Nat) (body : Bytes) (row : FrameRow) :
    Accounted (s.grpcData lib k body row).1 := by
  have within : (s.grpcBuffer k).length ≤ held s.grpcBuffers := buffer_le_held h.grpc
  have counted := h.counted
  have bounded := h.bounded
  -- What a part leaves in the buffer is no more than what was there and what came.
  have next (rest : Bytes) (less : (rest.length : Int) ≤ (s.grpcBuffer k).length ∨
      (rest.length ≤ (s.grpcBuffer k).length + body.length ∧ s.Fits k body)) :
      held (put s.grpcBuffers k rest) + (s.grpcBuffer k).length = held s.grpcBuffers + rest.length ∧
        s.reassemblyBytes + rest.length - (s.grpcBuffer k).length ≤ maxReassemblyBytes := by
    refine ⟨held_put h.grpc, ?_⟩
    rcases less with less | ⟨less, -, fits⟩
    · omega
    · omega
  rw [State.grpcData]
  split
  next fits =>
    cases taken : consumeGrpcBuffer lib maxGrpcMessages (s.grpcBuffer k ++ body) with
    | error e =>
      obtain ⟨moved, room⟩ := next [] (.inl (by simp))
      refine ⟨keys_put_nodup h.grpc, h.doh, ?_, room⟩
      dsimp only
      omega
    | ok left =>
      have shorter := consume_length _ _ taken
      rw [List.length_append] at shorter
      obtain ⟨moved, room⟩ := next left.2 (.inr ⟨shorter, fits⟩)
      refine ⟨keys_put_nodup h.grpc, h.doh, ?_, room⟩
      dsimp only
      omega
  next =>
    obtain ⟨moved, room⟩ := next [] (.inl (by simp))
    rw [List.length_nil] at moved room
    refine ⟨keys_put_nodup h.grpc, h.doh, ?_, ?_⟩
    · dsimp only
      omega
    · dsimp only
      omega

theorem Accounted.dohData (h : Accounted s) (k : Nat) (flags : UInt8) (body : Bytes) (row : FrameRow) :
    Accounted (s.dohData k flags body row).1 := by
  have within : (s.dohBuffer k).length ≤ held s.dohBuffers := buffer_le_held h.doh
  have counted := h.counted
  have bounded := h.bounded
  have moved (rest : Bytes) :
      held (put s.dohBuffers k rest) + (s.dohBuffer k).length = held s.dohBuffers + rest.length :=
    held_put h.doh
  rw [State.dohData]
  dsimp only
  split
  next =>
    have emptied := moved []
    rw [List.length_nil] at emptied
    refine ⟨h.grpc, keys_put_nodup h.doh, ?_, ?_⟩
    · dsimp only
      omega
    · dsimp only
      omega
  next fits =>
    rw [not_or] at fits
    -- The last frame of a message empties the buffer it has filled.
    have kept : (if flags &&& 0x01 ≠ 0 ∧ s.dohBuffer k ++ body ≠ [] then []
        else s.dohBuffer k ++ body).length ≤ (s.dohBuffer k ++ body).length := by
      split
      next => exact Nat.zero_le _
      next => exact Nat.le_refl _
    have filled := moved (if flags &&& 0x01 ≠ 0 ∧ s.dohBuffer k ++ body ≠ [] then []
      else s.dohBuffer k ++ body)
    rw [List.length_append] at kept
    refine ⟨h.grpc, keys_put_nodup h.doh, ?_, ?_⟩
    · simp only [List.length_append]
      omega
    · simp only [List.length_append]
      omega

theorem Accounted.data (h : Accounted s) (f : Frame) (row : FrameRow) :
    Accounted (s.data lib f row).1 := by
  rw [State.data]
  dsimp only
  split
  next => exact h.grpcData _ _ _
  next =>
    split
    next => exact h.dohData _ _ _ _
    next => exact h

theorem Accounted.framed (h : Accounted s) (frames : List Row) :
    Accounted { s with frames := frames } :=
  ⟨h.grpc, h.doh, h.counted, h.bounded⟩

theorem Accounted.step (h : Accounted s) (f : Frame) : Accounted (s.step lib f) := by
  rw [State.step]
  dsimp only
  split
  next => exact (h.untouched (headers_untouched f _)).framed _
  next =>
    split
    next => exact (h.untouched (continuation_untouched f _)).framed _
    next =>
      split
      next => exact (h.data f _).framed _
      next => exact h.framed _

theorem rounds_accounted (raw : Bytes) (n cursor : Nat) (h : Accounted s) :
    Accounted (rounds lib raw n cursor s).2 := by
  fun_induction rounds lib raw n cursor s with
  | case1 => exact h
  | case2 => exact h
  | case3 => exact h.framed _
  | case4 => exact h.framed _
  | case5 n cursor s _ _ length _ ih => exact ih (h.step _)

theorem rounds_cursor (raw : Bytes) (n cursor : Nat) (s : State σ) (within : cursor ≤ raw.length) :
    cursor ≤ (rounds lib raw n cursor s).1 ∧ (rounds lib raw n cursor s).1 ≤ raw.length := by
  fun_induction rounds lib raw n cursor s with
  | case1 => exact ⟨Nat.le_refl _, within⟩
  | case2 => exact ⟨Nat.le_refl _, within⟩
  | case3 => exact ⟨Nat.le_refl _, within⟩
  | case4 => exact ⟨Nat.le_add_right _ _, by omega⟩
  | case5 n cursor s _ _ length _ ih =>
    obtain ⟨on, inside⟩ := ih (by omega)
    exact ⟨by omega, inside⟩

theorem rounds_mono (raw : Bytes) (n cursor : Nat) (s : State σ) (within : cursor ≤ raw.length) :
    (rounds lib raw n cursor s).1 ≤ (rounds lib raw (n + 1) cursor s).1 := by
  fun_induction rounds lib raw n cursor s with
  | case1 => exact (rounds_cursor raw 1 _ _ within).1
  | case2 n cursor s beyond => rw [rounds, if_pos beyond]
  | case3 n cursor s more short => rw [rounds, if_neg more, if_pos short]
  | case4 n cursor s more whole length bad =>
    rw [rounds, if_neg more, if_neg whole]
    dsimp only
    rw [if_pos bad]
  | case5 n cursor s more whole length good ih =>
    rw [rounds, if_neg more, if_neg whole]
    dsimp only
    rw [if_neg good]
    exact ih (by omega)

theorem firstFrame_le (raw : Bytes) : firstFrame raw ≤ raw.length := by
  rw [firstFrame]
  split
  next starts => exact (List.isPrefixOf_iff_prefix.mp starts).length_le
  next => exact Nat.zero_le _

/-- After every number of rounds of the frame loop the counter is the size of all buffers and within
its bound, and the cursor has only moved on, within the input. -/
theorem reassembly_accounted (lib : Http2Library σ) (raw : Bytes) (n : Nat) :
    let now := rounds lib raw n (firstFrame raw) (.start lib)
    let next := rounds lib raw (n + 1) (firstFrame raw) (.start lib)
    now.2.reassemblyBytes = held now.2.grpcBuffers + held now.2.dohBuffers ∧
      0 ≤ now.2.reassemblyBytes ∧ now.2.reassemblyBytes ≤ maxReassemblyBytes ∧
      firstFrame raw ≤ now.1 ∧ now.1 ≤ next.1 ∧ now.1 ≤ raw.length := by
  intro now next
  have accounted : Accounted now.2 := rounds_accounted raw n _ accounted_start
  have cursor : firstFrame raw ≤ now.1 ∧ now.1 ≤ raw.length := rounds_cursor raw n _ _ (firstFrame_le raw)
  refine ⟨accounted.counted, ?_, accounted.bounded, cursor.1, rounds_mono raw n _ _ (firstFrame_le raw), cursor.2⟩
  have counted := accounted.counted
  omega

end Arenyxa.Capture.Http2
