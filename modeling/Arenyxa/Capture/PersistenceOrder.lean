import Arenyxa.Capture.Persistence

/-! The order in which the persistence pipeline hands its flows over, and what it promises to callers. -/

namespace Arenyxa.Capture.Persistence

open History

variable {φ : Type}

namespace Pipeline

/-- No flow stands ahead of one whose call had returned when its own call began. -/
def InLine (p : Pipeline φ) : Prop := p.line.Pairwise fun i j => j ∉ p.earlier i

/-- A thread falls back only when no flow of a call that had returned before its own waits for the
writer. -/
def InTurn (p : Pipeline φ) : Move φ → Prop
  | .fallBack i _ _ => p.stage i = some .overflowing → ∀ j ∈ p.earlier i, j ∉ p.waiting
  | _ => True

/-- Every flow is handed over after those of the calls that had returned when its own began. -/
def Ordered (p : Pipeline φ) : Prop :=
  ∀ before i after, p.sinks = before ++ i :: after → ∀ j ∈ p.earlier i, j ∈ before

section Order

variable {p p' : Pipeline φ} {i : Nat} {call : Call φ}

theorem InLine.congr (h : p.InLine) (line : p'.line = p.line)
    (earlier : ∀ i ∈ p.line, p'.earlier i = p.earlier i) : p'.InLine := by
  rw [InLine, line]
  refine List.Pairwise.imp_of_mem (fun {i j} here _ apart => ?_) h
  rwa [earlier i here]

theorem Sound.mem_line (h : p.Sound) : i ∈ p.line ↔ (p.stage i).any Stage.given := by
  rw [← List.count_pos_iff, h.once]
  cases (p.stage i).any Stage.given <;> simp

theorem Sound.not_given (h : p.Sound) (found : p.calls[i]? = some call) (kept : call.stage.given = false) :
    ∀ k, i ∉ p.earlier k := by
  intro k early
  have returned := (h.earlier k i early).2
  rw [stage_of found] at returned
  rw [Option.some.inj returned] at kept
  cases kept

theorem InLine.set (inLine : p.InLine) (now : Stage) (found : p.calls[i]? = some call)
    (calls : p'.calls = (p.setStage i call now).calls) (line : p'.line = p.line) : p'.InLine :=
  inLine.congr line fun _ _ => (earlier_congr calls).trans (earlier_set now found)

theorem InLine.enqueue (h : p.Sound) (inLine : p.InLine) (flow : φ) : (p.enqueue flow).InLine := by
  have old : ∀ k ∈ p.line, k < p.calls.length := by
    intro k waits
    have given := h.mem_line.mp waits
    cases staged : p.stage k with
    | none =>
      rw [staged] at given
      cases given
    | some now => exact stage_some staged
  rw [Pipeline.enqueue]
  split
  next =>
    refine inLine.congr rfl fun k waits => ?_
    rw [Pipeline.earlier, List.getElem?_append_left (old k waits), Pipeline.earlier]
  next =>
    refine inLine.congr rfl fun k waits => ?_
    rw [Pipeline.earlier, List.getElem?_append_left (old k waits), Pipeline.earlier]

theorem InLine.put (h : p.Sound) (inLine : p.InLine) (found : p.calls[i]? = some call)
    (admitted : call.stage = .admitted) : (p.put i call).InLine := by
  have early : ∀ k, i ∉ p.earlier k := h.not_given found (by rw [admitted]; rfl)
  rw [Pipeline.put]
  split
  next =>
    have line : ({ p.setStage i call .leaving with queue := p.queue ++ [Item.flow i] }).line =
        p.line ++ [i] :=
      line_snoc (.flow i) rfl rfl rfl
    have same : ∀ k, ({ p.setStage i call .leaving with queue := p.queue ++ [Item.flow i] }).earlier k =
        p.earlier k :=
      fun k => earlier_set .leaving found
    rw [InLine, line]
    simp only [same]
    refine List.pairwise_append.mpr ⟨inLine, List.pairwise_singleton .., fun k _ j last => ?_⟩
    rw [List.mem_singleton.mp last]
    exact early k
  next => exact inLine.set .overflowing found rfl rfl

theorem InLine.fallBack (h : p.Sound) (inLine : p.InLine) (found : p.calls[i]? = some call)
    (overflowing : call.stage = .overflowing) (turn : ∀ j ∈ p.earlier i, j ∉ p.waiting)
    (history archive : Bool) : ((p.handOver i history archive).setStage i call .leaving).InLine := by
  have early : ∀ k, i ∉ p.earlier k := h.not_given found (by rw [overflowing]; rfl)
  have same : ∀ k, ((p.handOver i history archive).setStage i call .leaving).earlier k = p.earlier k :=
    fun k => earlier_set (p := p.handOver i history archive) .leaving found
  have line : ((p.handOver i history archive).setStage i call .leaving).line =
      p.sinks ++ i :: p.waiting :=
    List.append_assoc ..
  obtain ⟨handed, waits, between⟩ := List.pairwise_append.mp inLine
  rw [InLine, line]
  simp only [same]
  refine List.pairwise_append.mpr ⟨handed, List.pairwise_cons.mpr ⟨?_, waits⟩, ?_⟩
  · exact fun j later first => turn j first later
  · intro k before j after
    rcases List.mem_cons.mp after with rfl | after
    · exact early k
    · exact between k before j after

/-- The writer's steps and the closers' move no call, and leave the line as it is. -/
def Still (p p' : Pipeline φ) : Prop := p'.calls = p.calls ∧ p'.sinks = p.sinks ∧ p'.waiting = p.waiting

theorem still_get : p.Still p.get := by
  rw [Pipeline.get]
  split
  next call rest waits queued =>
    exact ⟨rfl, rfl, waiting_take _ waits queued rfl⟩
  next rest waits queued =>
    exact ⟨rfl, rfl, waiting_take _ waits queued rfl⟩
  next => exact ⟨rfl, rfl, rfl⟩

theorem still_taskDone : p.Still p.taskDone := by
  rw [Pipeline.taskDone]
  split
  next handed =>
    exact ⟨rfl, rfl, waiting_writer _ (by rw [handed]; rfl) rfl⟩
  next stopping =>
    exact ⟨rfl, rfl, waiting_writer _ (by rw [stopping]; rfl) rfl⟩
  next => exact ⟨rfl, rfl, rfl⟩

theorem still_lock {k : Nat} : p.Still (p.lock k) := by
  rw [Pipeline.lock]
  split
  next => exact ⟨rfl, rfl, rfl⟩
  next => split <;> exact ⟨rfl, rfl, rfl⟩

theorem still_awaitAdmissions {k : Nat} : p.Still (p.awaitAdmissions k) := by
  rw [Pipeline.awaitAdmissions]
  split
  next =>
    refine ⟨rfl, rfl, ?_⟩
    rw [waiting, waiting]
    split
    next finished =>
      rw [finished]
      rfl
    next => rfl
  next => exact ⟨rfl, rfl, rfl⟩

theorem still_stop {k : Nat} : p.Still (p.stop k) := by
  rw [Pipeline.stop]
  split
  next => exact ⟨rfl, rfl, rfl⟩
  next =>
    split
    next =>
      exact ⟨rfl, rfl, waiting_stop⟩
    next => exact ⟨rfl, rfl, rfl⟩

theorem InLine.still (inLine : p.InLine) (still : p.Still p') : p'.InLine := by
  obtain ⟨calls, sinks, waiting⟩ := still
  refine inLine.congr ?_ fun _ _ => earlier_congr calls
  rw [line, sinks, waiting, line]

theorem InLine.step (h : p.Sound) (inLine : p.InLine) (move : Move φ) (turn : p.InTurn move) :
    (p.step move).InLine := by
  cases move with
  | enqueue flow => exact inLine.enqueue h flow
  | put i =>
    simp only [Pipeline.step]
    split
    next found => exact inLine.put h found rfl
    next => exact inLine
  | fallBack i history archive =>
    simp only [Pipeline.step]
    split
    next found => exact inLine.fallBack h found rfl (turn (stage_of found)) history archive
    next => exact inLine
  | leave i =>
    simp only [Pipeline.step]
    split
    next found => exact inLine.set .returned found rfl rfl
    next => exact inLine
  | get => exact inLine.still still_get
  | persist history archive =>
    simp only [Pipeline.step]
    split
    next holds => exact inLine.congr (line_persist holds history archive) fun _ _ => rfl
    next => exact inLine
  | taskDone => exact inLine.still still_taskDone
  | retire =>
    simp only [Pipeline.step]
    split
    next leaving => exact inLine.still ⟨rfl, rfl, waiting_writer _ (by rw [leaving]; rfl) rfl⟩
    next => exact inLine
  | close => exact inLine
  | lock k =>
    simp only [Pipeline.step]
    split
    next => exact inLine.still still_lock
    next => exact inLine
  | lockTimeout k =>
    simp only [Pipeline.step]
    split <;> exact inLine
  | awaitAdmissions k =>
    simp only [Pipeline.step]
    split
    next => exact inLine.still still_awaitAdmissions
    next => exact inLine
  | flush k =>
    simp only [Pipeline.step]
    split
    next => split <;> exact inLine
    next => exact inLine
  | stop k =>
    simp only [Pipeline.step]
    split
    next => exact inLine.still still_stop
    next => exact inLine
  | join k =>
    simp only [Pipeline.step]
    split <;> exact inLine
  | giveUp k =>
    simp only [Pipeline.step]
    split <;> exact inLine

theorem InLine.ordered (h : p.Sound) (inLine : p.InLine) : p.Ordered := by
  intro before i after split j early
  have given : j ∈ p.line := h.mem_line.mpr (by rw [(h.earlier i j early).2]; rfl)
  rw [line, split] at given
  rw [InLine, line, split, List.append_assoc, List.cons_append] at inLine
  rcases List.mem_append.mp (List.append_assoc .. ▸ given) with first | later
  · exact first
  · rcases List.mem_cons.mp later with rfl | later
    · exact absurd (h.earlier j j early).1 (Nat.lt_irrefl j)
    · exact absurd early ((List.pairwise_cons.mp (List.pairwise_append.mp inLine).2.1).1 j later)

theorem inLine_run (capacity : Int) (moves : List (Move φ))
    (turn : Meets Pipeline.step (start capacity) InTurn moves) :
    (run Pipeline.step (start capacity) moves).InLine :=
  induct (I := fun _ (p : Pipeline φ) => p.InLine) (show (start capacity).line.Pairwise _ from .nil)
    (fun before move turn inLine => inLine.step (sound_run capacity before) move turn) moves turn

theorem Sound.turn (h : p.Sound) (move : Move φ) (ordered : (p.step move).Ordered) : p.InTurn move := by
  cases move with
  | fallBack i history archive =>
    intro overflowing j early waits
    obtain ⟨⟨flow, now, earlier⟩, found, same⟩ := Option.map_eq_some_iff.mp overflowing
    cases (show now = .overflowing from same)
    have next : Pipeline.step p (.fallBack i history archive) =
        (p.handOver i history archive).setStage i ⟨flow, .overflowing, earlier⟩ .leaving := by
      simp only [Pipeline.step, found]
    rw [next] at ordered
    have handed : j ∈ p.sinks := ordered p.sinks i [] rfl j
      ((earlier_set (p := p.handOver i history archive) .leaving found).symm ▸ early)
    have twice : 1 < p.line.count j := by
      rw [line, List.count_append]
      exact Nat.add_lt_add_of_le_of_lt (List.count_pos_iff.mpr handed) (List.count_pos_iff.mpr waits)
    rw [h.once] at twice
    exact absurd (Bool.toNat_le _) (Nat.not_le.mpr twice)
  | _ => trivial

end Order

/-! ## What the pipeline promises -/

/-- A close is past the close lock, or it has reported the drain complete. -/
def Closing (p : Pipeline φ) : Prop :=
  ∃ closer ∈ p.closers, closer ≠ .locking ∧ closer ≠ .returned false

structure Delivers (p : Pipeline φ) : Prop where
  atMostOnce : ∀ i, p.sinks.count i ≤ 1
  drained : .returned true ∈ p.closers → ∀ i, p.stage i = some .returned → p.sinks.count i = 1
  refuses : p.Closing → ∀ flow, (p.enqueue flow).stage p.calls.length = some .refused
  ordered : p.Ordered

theorem Sound.delivers {p : Pipeline φ} (h : p.Sound) (ordered : p.Ordered) : p.Delivers where
  atMostOnce i := by
    have once := h.once i
    rw [line, List.count_append] at once
    have given := Bool.toNat_le ((p.stage i).any Stage.given)
    omega
  drained closed i returned := by
    have once := h.once i
    have empty := (h.ending (.inr (.inr (.inr (.inr (.inr (.inr closed))))))).2
    rw [line, empty, List.append_nil, returned] at once
    exact once
  refuses closing flow := by
    obtain ⟨closer, here, notLocking, notFailed⟩ := closing
    have live : p.state ≠ .opened := by
      cases closer with
      | locking => exact absurd rfl notLocking
      | admitting => exact h.admitting here
      | flushing => exact (h.flushing here).1
      | stopping => exact (h.ending (.inr (.inr (.inr (.inr (.inl here)))))).1.1
      | joining => exact (h.ending (.inr (.inr (.inr (.inr (.inr (.inl here))))))).1.1
      | returned closed =>
        cases closed with
        | false => exact absurd rfl notFailed
        | true => exact (h.ending (.inr (.inr (.inr (.inr (.inr (.inr here))))))).1.1
    rw [Pipeline.enqueue, if_neg live, stage]
    simp
  ordered := ordered

/-- At every moment the admissions are the calls under way, and a flow that was given away is once in the line of the sinks
and no other is; once the writer is to stop, no call is under way or admitted, and nothing waits. -/
theorem admissions_accounted (capacity : Int) (moves : List (Move φ)) :
    let p := run step (start capacity) moves
    p.activeAdmissions = p.calls.countP (·.stage.active) ∧
      (∀ i, p.line.count i = ((p.stage i).any Stage.given).toNat) ∧ (p.Ending → p.Quiet ∧ p.waiting = []) :=
  have sound := sound_run capacity moves
  ⟨sound.active, sound.once, sound.ending⟩

/-- Sixteen flows wait for the writer when the seventeenth is handed over. -/
def saturated : List (Move Unit) :=
  (List.range 16).flatMap (fun i => [.enqueue (), .put i, .leave i]) ++
    [.enqueue (), .put 16, .fallBack 16 true true]

end Pipeline

end Arenyxa.Capture.Persistence
