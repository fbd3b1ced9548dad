import Arenyxa.Lib.Outcome
import Mathlib.Data.List.TakeDrop

/-! A stream that arrives in segments, and the loops that buffer it until a condition on
the buffer holds. -/

universe u v w

namespace Arenyxa.Segments

open Outcome

variable {β : Type u}

/-- What is still to be received. An empty chunk would mean the end of the stream. -/
structure Feed (β : Type u) where
  chunks : List (List β)
  nonempty : ∀ chunk ∈ chunks, chunk ≠ []

namespace Feed

def exhausted : Feed β := ⟨[], by simp⟩

def stream (feed : Feed β) : List β := feed.chunks.flatten

/-- Up to `size` items of the next chunk; nothing once the stream has ended. -/
def recv (size : Nat) : Feed β → List β × Feed β
  | ⟨[], h⟩ => ([], ⟨[], h⟩)
  | ⟨chunk :: chunks, h⟩ =>
    if long : size < chunk.length then
      (chunk.take size, ⟨chunk.drop size :: chunks, by
        intro c hc
        rcases List.mem_cons.mp hc with rfl | hc
        · simpa using long
        · exact h c (List.mem_cons_of_mem _ hc)⟩)
    else (chunk, ⟨chunks, fun c hc => h c (List.mem_cons_of_mem _ hc)⟩)

/-- Later chunks behind the ones of a feed. -/
def append (feed later : Feed β) : Feed β :=
  ⟨feed.chunks ++ later.chunks, by
    intro c hc
    rcases List.mem_append.mp hc with hc | hc
    · exact feed.nonempty c hc
    · exact later.nonempty c hc⟩

/-- The stream in one piece. -/
def whole : List β → Feed β
  | [] => exhausted
  | b :: l => ⟨[b :: l], by simp⟩

@[simp] theorem stream_exhausted : (exhausted : Feed β).stream = [] := rfl

@[simp] theorem stream_whole (l : List β) : (whole l).stream = l := by
  cases l <;> simp [whole, stream, exhausted]

@[simp] theorem stream_append (feed later : Feed β) :
    (feed.append later).stream = feed.stream ++ later.stream := by
  simp [append, stream]

@[simp] theorem exhausted_append (feed : Feed β) : exhausted.append feed = feed := rfl

theorem recv_stream (size : Nat) (feed : Feed β) :
    (feed.recv size).1 ++ (feed.recv size).2.stream = feed.stream := by
  rcases feed with ⟨_ | ⟨chunk, chunks⟩, h⟩
  · rfl
  · by_cases long : size < chunk.length
    · simp [recv, stream, long, ← List.append_assoc]
    · simp [recv, stream, long]

theorem recv_length_le (size : Nat) (feed : Feed β) : (feed.recv size).1.length ≤ size := by
  rcases feed with ⟨_ | ⟨chunk, chunks⟩, h⟩
  · simp [recv]
  · by_cases long : size < chunk.length
    · simp only [recv, long, dite_true, List.length_take]
      omega
    · simp only [recv, long, dite_false]
      omega

theorem recv_eq_nil {size : Nat} {feed : Feed β} (pos : 0 < size) :
    (feed.recv size).1 = [] ↔ feed.stream = [] := by
  rcases feed with ⟨_ | ⟨chunk, chunks⟩, h⟩
  · simp [recv, stream]
  · have hc := h chunk List.mem_cons_self
    have := List.length_pos_iff.mpr hc
    by_cases long : size < chunk.length
    · simp only [recv, long, dite_true, stream, List.flatten_cons, List.append_eq_nil_iff, hc,
        false_and, iff_false]
      intro empty
      have := congrArg List.length empty
      rw [List.length_take, List.length_nil] at this
      omega
    · simp [recv, long, stream, hc]

theorem recv_append {size : Nat} {feed : Feed β} (more : feed.stream ≠ []) (later : Feed β) :
    (feed.append later).recv size = ((feed.recv size).1, (feed.recv size).2.append later) := by
  rcases feed with ⟨_ | ⟨chunk, chunks⟩, h⟩
  · exact absurd rfl more
  · by_cases long : size < chunk.length
    · simp [recv, append, long]
    · simp [recv, append, long]

theorem recv_lt {size : Nat} {feed : Feed β} (more : (feed.recv size).1 ≠ []) :
    (feed.recv size).2.stream.length < feed.stream.length := by
  have := congrArg List.length (recv_stream size feed)
  have := List.length_pos_iff.mpr more
  rw [List.length_append] at *
  omega

theorem recv_append_of_nil {size : Nat} {feed : Feed β} (ended : feed.stream = [])
    (later : Feed β) : (feed.append later).recv size = later.recv size := by
  rcases feed with ⟨_ | ⟨chunk, chunks⟩, h⟩
  · rcases later with ⟨_ | _, _⟩ <;> rfl
  · have hc := h chunk List.mem_cons_self
    simp [stream, hc] at ended

theorem recv_whole {size : Nat} (l : List β) : ((whole l).recv size).1 = l.take size := by
  cases l with
  | nil => simp [whole, exhausted, recv]
  | cons b l =>
    by_cases long : size < (b :: l).length
    · simp only [whole, recv, long, dite_true]
    · simp only [whole, recv, long, dite_false]
      rw [List.take_of_length_le (by omega)]

end Feed

section Loops

variable {α : Type v} {ε : Type u} (limit : Int) (eof excess : ε)

/-- `while not stop(buffer)`: receive, stop at the end of the stream, and check the limit
after each receive. -/
def receiveFor (stop : List β → Option α) (size : List β → Nat) (buffer : List β)
    (feed : Feed β) : Except ε (α × List β × Feed β) :=
  match stop buffer with
  | some a => .ok (a, buffer, feed)
  | none =>
    if (feed.recv (size buffer)).1 = [] then .error eof
    else if limit < (buffer ++ (feed.recv (size buffer)).1).length then .error excess
    else receiveFor stop size (buffer ++ (feed.recv (size buffer)).1) (feed.recv (size buffer)).2
termination_by feed.stream.length
decreasing_by exact Feed.recv_lt ‹_›

private theorem pass (size : Nat) (buffer : List β) (feed : Feed β) :
    (buffer ++ (feed.recv size).1) ++ (feed.recv size).2.stream = buffer ++ feed.stream := by
  rw [List.append_assoc, Feed.recv_stream]

/-- `while not stop(buffer)`: check the limit, receive, and leave at the end of the stream. -/
def receiveUpTo (stop : List β → Bool) (size : Nat) (buffer : List β) (feed : Feed β) :
    Except ε (List β × Feed β) :=
  if stop buffer then .ok (buffer, feed)
  else if limit < buffer.length then .error excess
  else if (feed.recv size).1 = [] then .ok (buffer, feed)
  else receiveUpTo stop size (buffer ++ (feed.recv size).1) (feed.recv size).2
termination_by feed.stream.length
decreasing_by exact Feed.recv_lt ‹_›

variable {stop : List β → Option α} {size : List β → Nat} {buffer : List β} {feed : Feed β}

/-- A condition that, once it holds of the buffer, gives the same answer however much follows. -/
def Persistent (stop : List β → Option α) : Prop :=
  ∀ l m a, stop l = some a → stop (l ++ m) = some a

theorem receiveFor_sat (persistent : Persistent stop)
    (pos : ∀ l, stop l = none → 0 < size l) :
    Sat (receiveFor limit eof excess stop size buffer feed)
      (fun r => stop r.2.1 = some r.1 ∧ r.2.1 ++ r.2.2.stream = buffer ++ feed.stream ∧
        stop (buffer ++ feed.stream) = some r.1 ∧ buffer.length ≤ r.2.1.length ∧
        (r.2.1 = buffer ∨ r.2.1.length ≤ limit))
      (fun e => (e = eof ∧ stop (buffer ++ feed.stream) = none ∧
          (feed.stream = [] ∨ (buffer ++ feed.stream).length ≤ limit)) ∨
        (e = excess ∧ limit < (buffer ++ feed.stream).length ∧
          ∃ l, l <+: buffer ++ feed.stream ∧ stop l = none ∧ limit < (l.length + size l : Int))) := by
  induction buffer, feed using receiveFor.induct limit stop size with
  | case1 buffer feed a found =>
    rw [receiveFor, found]
    exact ⟨found, rfl, persistent _ _ _ found, Nat.le_refl _, .inl rfl⟩
  | case2 buffer feed missing ended =>
    have drained := (Feed.recv_eq_nil (pos buffer missing)).mp ended
    rw [receiveFor, missing]
    simp only [ended, ↓reduceIte]
    exact .inl ⟨rfl, by rw [drained, List.append_nil, missing], .inl drained⟩
  | case3 buffer feed missing more long =>
    rw [receiveFor, missing]
    simp only [more, long, ↓reduceIte]
    refine .inr ⟨rfl, ?_, buffer, List.prefix_append _ _, missing, ?_⟩
    · rw [← pass (size buffer) buffer feed, List.length_append]
      omega
    · have := Feed.recv_length_le (size buffer) feed
      rw [List.length_append] at long
      omega
  | case4 buffer feed missing more short ih =>
    rw [receiveFor, missing]
    simp only [more, short, ↓reduceIte]
    rw [pass] at ih
    refine ih.mono (fun r hr => ?_) (fun e he => ?_)
    · obtain ⟨found, whole, answer, longer, bounded⟩ := hr
      rw [List.length_append] at longer
      refine ⟨found, whole, answer, by omega, .inr ?_⟩
      rcases bounded with same | bounded
      · rw [same]; omega
      · exact bounded
    · rcases he with ⟨rfl, missing', drained | bounded⟩ | overrun
      · refine .inl ⟨rfl, missing', .inr ?_⟩
        rw [← pass (size buffer) buffer feed, drained, List.append_nil]
        omega
      · exact .inl ⟨rfl, missing', .inr bounded⟩
      · exact .inr overrun

theorem receiveFor_keeps (P : List β → Prop)
    (step : ∀ l m, P l → stop l = none → m.length ≤ size l → P (l ++ m)) (start : P buffer) :
    Sat (receiveFor limit eof excess stop size buffer feed) (fun r => P r.2.1)
      (fun e => e = eof ∨ (e = excess ∧ ∃ l, P l ∧ limit < l.length)) := by
  induction buffer, feed using receiveFor.induct limit stop size with
  | case1 buffer feed a found =>
    rw [receiveFor, found]
    exact start
  | case2 buffer feed missing ended =>
    rw [receiveFor, missing]
    simp only [ended, ↓reduceIte]
    exact .inl rfl
  | case3 buffer feed missing more long =>
    rw [receiveFor, missing]
    simp only [more, long, ↓reduceIte]
    exact .inr ⟨rfl, _, step _ _ start missing (Feed.recv_length_le _ _), long⟩
  | case4 buffer feed missing more short ih =>
    rw [receiveFor, missing]
    simp only [more, short, ↓reduceIte]
    exact ih (step _ _ start missing (Feed.recv_length_le _ _))

theorem receiveFor_append (pos : ∀ l, stop l = none → 0 < size l) (later : Feed β)
    {r : α × List β × Feed β} (h : receiveFor limit eof excess stop size buffer feed = .ok r) :
    receiveFor limit eof excess stop size buffer (feed.append later) =
      .ok (r.1, r.2.1, r.2.2.append later) := by
  induction buffer, feed using receiveFor.induct limit stop size with
  | case1 buffer feed a found =>
    rw [receiveFor, found] at h ⊢
    cases h
    rfl
  | case2 buffer feed missing ended =>
    rw [receiveFor, missing] at h
    simp only [ended, ↓reduceIte, reduceCtorEq] at h
  | case3 buffer feed missing more long =>
    rw [receiveFor, missing] at h
    simp only [more, long, ↓reduceIte, reduceCtorEq] at h
  | case4 buffer feed missing more short ih =>
    rw [receiveFor, missing] at h ⊢
    simp only [more, short, ↓reduceIte] at h
    have some_left : feed.stream ≠ [] := fun ended =>
      more ((Feed.recv_eq_nil (pos buffer missing)).mpr ended)
    simp only [Feed.recv_append some_left, more, short, ↓reduceIte]
    exact ih h

theorem receiveFor_starved {n : Nat} (pos : 0 < n) (distinct : eof ≠ excess) (later : Feed β)
    (more : later.stream ≠ [])
    (long : limit < ((buffer ++ feed.stream).length + (later.recv n).1.length : Int))
    (h : receiveFor limit eof excess stop (fun _ => n) buffer feed = .error eof) :
    receiveFor limit eof excess stop (fun _ => n) buffer (feed.append later) = .error excess := by
  induction buffer, feed using receiveFor.induct limit stop (fun _ => n) with
  | case1 buffer feed a found =>
    rw [receiveFor, found] at h
    cases h
  | case2 buffer feed missing ended =>
    have drained := (Feed.recv_eq_nil pos).mp ended
    rw [receiveFor, missing]
    simp only [Feed.recv_append_of_nil drained, Feed.recv_eq_nil pos, more, ↓reduceIte]
    rw [drained, List.append_nil] at long
    rw [if_pos (by rw [List.length_append]; omega)]
  | case3 buffer feed missing more long' =>
    rw [receiveFor, missing] at h
    simp only [more, long', ↓reduceIte] at h
    exact absurd (Except.error.inj h).symm distinct
  | case4 buffer feed missing arrived short ih =>
    rw [receiveFor, missing] at h ⊢
    simp only [arrived, short, ↓reduceIte] at h
    have some_left : feed.stream ≠ [] := fun ended => arrived ((Feed.recv_eq_nil pos).mpr ended)
    simp only [Feed.recv_append some_left, arrived, short, ↓reduceIte]
    exact ih (by rw [pass]; exact long) h

variable {check : List β → Bool} {n : Nat}

theorem receiveUpTo_sat (pos : 0 < n) :
    Sat (receiveUpTo limit excess check n buffer feed)
      (fun r => r.1 ++ r.2.stream = buffer ++ feed.stream ∧
        (check r.1 = true ∨ (check r.1 = false ∧ r.2.stream = [] ∧ r.1.length ≤ limit)))
      (fun e => e = excess ∧
        ∃ l, l <+: buffer ++ feed.stream ∧ check l = false ∧ limit < l.length) := by
  induction buffer, feed using receiveUpTo.induct limit check n with
  | case1 buffer feed found =>
    rw [receiveUpTo, if_pos found]
    exact ⟨rfl, .inl found⟩
  | case2 buffer feed missing long =>
    rw [receiveUpTo, if_neg missing, if_pos long]
    exact ⟨rfl, buffer, List.prefix_append _ _, by simpa using missing, long⟩
  | case3 buffer feed missing short ended =>
    rw [receiveUpTo, if_neg missing, if_neg short, if_pos ended]
    exact ⟨rfl, .inr ⟨by simpa using missing, (Feed.recv_eq_nil pos).mp ended, by simpa using short⟩⟩
  | case4 buffer feed missing short more ih =>
    rw [receiveUpTo, if_neg missing, if_neg short, if_neg more]
    rw [pass] at ih
    exact ih

theorem receiveUpTo_ahead :
    Sat (receiveUpTo limit excess check n buffer feed)
      (fun r => r.1 = buffer ∨ ∃ l m, r.1 = l ++ m ∧ check l = false ∧ m.length ≤ n)
      (fun _ => True) := by
  induction buffer, feed using receiveUpTo.induct limit check n with
  | case1 buffer feed found =>
    rw [receiveUpTo, if_pos found]
    exact .inl rfl
  | case2 buffer feed missing long =>
    rw [receiveUpTo, if_neg missing, if_pos long]
    trivial
  | case3 buffer feed missing short ended =>
    rw [receiveUpTo, if_neg missing, if_neg short, if_pos ended]
    exact .inl rfl
  | case4 buffer feed missing short more ih =>
    rw [receiveUpTo, if_neg missing, if_neg short, if_neg more]
    refine ih.mono (fun r hr => .inr ?_) (fun _ _ => trivial)
    rcases hr with same | extended
    · exact ⟨buffer, (feed.recv n).1, same, by simpa using missing, Feed.recv_length_le _ _⟩
    · exact extended

theorem receiveUpTo_append (pos : 0 < n) (later : Feed β) {r : List β × Feed β}
    (h : receiveUpTo limit excess check n buffer feed = .ok r) (found : check r.1 = true) :
    receiveUpTo limit excess check n buffer (feed.append later) = .ok (r.1, r.2.append later) := by
  induction buffer, feed using receiveUpTo.induct limit check n with
  | case1 buffer feed here =>
    rw [receiveUpTo, if_pos here] at h ⊢
    cases h
    rfl
  | case2 buffer feed missing long =>
    rw [receiveUpTo, if_neg missing, if_pos long] at h
    cases h
  | case3 buffer feed missing short ended =>
    rw [receiveUpTo, if_neg missing, if_neg short, if_pos ended] at h
    cases h
    exact absurd found missing
  | case4 buffer feed missing short more ih =>
    rw [receiveUpTo, if_neg missing, if_neg short, if_neg more] at h
    have some_left : feed.stream ≠ [] := fun ended => more ((Feed.recv_eq_nil pos).mpr ended)
    rw [receiveUpTo, if_neg missing, if_neg short, Feed.recv_append some_left, if_neg more]
    exact ih h

end Loops

end Arenyxa.Segments
