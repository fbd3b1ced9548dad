import Arenyxa.Distributed.Invariants

/-! Operations as transactions: from sound tables an operation either raises an ordinary error
or commits a path of statements that leaves no debt. -/

namespace Arenyxa.Distributed

open Outcome QueueError

/-- An error other than the two the queue reserves for broken tables. -/
def Benign (e : QueueError) : Prop :=
  e.code ≠ "DISTRIBUTED_STATE_TRANSITION_INVALID" ∧ e ≠ fenceCollision

@[simp] theorem QueueError.code_fail (code message : String) (context : Details) :
    (fail code message context).code = code := rfl

theorem benign_of_code {e : QueueError} (h : e.code ≠ "DISTRIBUTED_STATE_TRANSITION_INVALID")
    (h' : e.code ≠ "DISTRIBUTED_IDEMPOTENCY_COLLISION") : Benign e :=
  ⟨h, fun he => h' (he ▸ rfl)⟩

/-- `ls` leads from `q` to `q'` and settles every counter. -/
def Transaction (sha : Sha256) (q : Queue) (ls : List Label) (q' : Queue) : Prop :=
  ∃ o, Path (Step sha) q.opened ls ⟨q', o⟩ ∧ Ledger.Closed ⟨q', o⟩

section Basics

variable {sha : Sha256} {q q' : Queue} {ls : List Label}

theorem Transaction.nil : Transaction sha q [] q := ⟨_, .nil _, fun _ _ => rfl⟩

theorem Transaction.sound (h : Transaction sha q ls q') (hs : Sound q.opened) :
    Sound q'.opened := by
  obtain ⟨o, path, closed⟩ := h
  exact (hs.path path).reopen closed

theorem Transaction.single {l : Label} (h : Step sha q.opened l q'.opened) :
    Transaction sha q [l] q' := ⟨_, .single h, fun _ _ => rfl⟩

end Basics

section Statements

variable {L : Ledger} {b : Backend} {row : Job} {v : EventValues}

theorem Sound.fence_eq_none {mv : Move} (hs : Sound L) (found : L.queue.job? row.jobId = some row)
    (permitted : mv.Permitted row) : L.queue.fence? row.idempotencyKey = none :=
  (hs.fences _ _ found).fence_eq_none permitted.not_terminal

theorem Sound.moved (hs : Sound L) (sha : Sha256) (mv : Move) (found : L.queue.job? row.jobId = some row)
    (permitted : mv.Permitted row) {entry : Option Entry} (silent : mv.silent = entry.isNone)
    (records : ∀ e ∈ entry, e.Records row (mv.apply sha row))
    (known : ∀ w token expires utc, mv = .lease w token expires utc →
      (L.queue.worker? w).isSome) :
    Step sha L (.moved row.jobId mv entry) ⟨L.queue.enact sha mv row entry, mv.owes row L.owed⟩ :=
  .moved found permitted known silent records fun _ =>
    Queue.fenceAgrees_iff.mpr (by simp [hs.fence_eq_none found permitted])

theorem Queue.recordEventLocked_eq {q : Queue} (found : q.job? v.jobId = some row)
    (allowed : (v.fromState, v.toState) ∈ allowedJobTransitions) (enters : v.toState = row.state)
    (agrees : row.state.terminal → q.fenceAgrees row) :
    q.recordEventLocked b v = .ok (q.settle row (some ⟨.kept b, v.stored⟩)) := by
  rw [recordEventLocked, require, if_pos allowed]
  by_cases ht : row.state.terminal
  · have fenced : q.fenceTerminal v.toState v.jobId = .ok (q.upsertFence (row.fence jsonDumps)) := by
      simp [fenceTerminal, enters, ht, fenceJob, found, storeTerminalFence, require, agrees ht,
        bind, Except.bind, pure, Except.pure]
    simp only [fenced, bind, Except.bind, pure, Except.pure, settle, sealRow, ht, if_true]
    rfl
  · have fenced : q.fenceTerminal v.toState v.jobId = .ok q := by
      simp [fenceTerminal, enters, ht]
    simp only [fenced, bind, Except.bind, pure, Except.pure, settle, sealRow, ht]
    rfl

theorem Sound.recorded (hs : Sound L) (sha : Sha256) (mv : Move) (found : L.queue.job? row.jobId = some row)
    (permitted : mv.Permitted row) (loud : mv.silent = false) (named : v.jobId = row.jobId)
    (leaves : v.fromState = some row.state) (enters : v.toState = (mv.apply sha row).state) :
    (L.queue.updateJob row.jobId (mv.apply sha) (mv.apply_jobId sha)).recordEventLocked b v =
      .ok (L.queue.enact sha mv row (some ⟨.kept b, v.stored⟩)) := by
  apply Queue.recordEventLocked_eq
  · rw [Queue.job?_updateJob, if_pos named, named, found]
    rfl
  · rw [leaves, enters]
    exact permitted.allowed loud
  · exact enters
  · intro _
    apply Queue.fenceAgrees_iff.mpr
    simp [hs.fence_eq_none found permitted]

theorem Queue.settle_updateWorker (q : Queue) (e : Entry) (id : String) (g : Worker → Worker)
    (hg : ∀ r, (g r).workerId = r.workerId) :
    (q.updateWorker id g hg).settle row (some e) =
      (q.settle row (some e)).updateWorker id g hg := by
  have fenced : (q.updateWorker id g hg).sealRow row e.recording =
      (q.sealRow row e.recording).updateWorker id g hg := by
    unfold sealRow upsertFence
    rw [fence?_updateWorker]
    split
    · split <;> rfl
    · rfl
  rw [settle, settle, fenced]
  cases e.recording with
  | kept b => exact Queue.recordEvent_updateWorker
  | appended => rfl

theorem Sound.recorded_updateWorker (hs : Sound L) (sha : Sha256) (mv : Move) (found : L.queue.job? row.jobId = some row)
    (permitted : mv.Permitted row) (loud : mv.silent = false) (named : v.jobId = row.jobId)
    (leaves : v.fromState = some row.state) (enters : v.toState = (mv.apply sha row).state)
    (id : String) (g : Worker → Worker) (hg : ∀ r, (g r).workerId = r.workerId) :
    ((L.queue.updateJob row.jobId (mv.apply sha) (mv.apply_jobId sha)).updateWorker id g
        hg).recordEventLocked b v =
      .ok ((L.queue.enact sha mv row (some ⟨.kept b, v.stored⟩)).updateWorker id g hg) := by
  rw [Queue.enact, ← Queue.settle_updateWorker]
  apply Queue.recordEventLocked_eq
  · rw [Queue.job?_updateWorker, Queue.job?_updateJob, if_pos named, named, found]
    rfl
  · rw [leaves, enters]
    exact permitted.allowed loud
  · exact enters
  · intro _
    apply Queue.fenceAgrees_iff.mpr
    simp [hs.fence_eq_none found permitted]

end Statements

section Counters

variable {sha : Sha256} {q : Queue} {o : String → Int} {w w' : Worker} {n : Int} {id : String}

theorem Worker.Fair.of_eq (h : w.Fair q n) (named : w'.workerId = w.workerId)
    (count : w'.activeLeases = w.activeLeases) (state : w'.state = .revoked → w.state = .revoked) :
    w'.Fair q n :=
  ⟨by rw [count, named]; exact h.balance, fun hr => count.trans (h.revoked (state hr))⟩

theorem Worker.Fair.returned (h : w.Fair q n) (hn : 0 ≤ n) (named : w'.workerId = w.workerId)
    (count : w'.activeLeases = max 0 (w.activeLeases - n))
    (state : w'.state = .revoked → w.state = .revoked) : w'.Fair q 0 := by
  have pos := q.activeCount_nonneg w.workerId
  have balance := h.balance
  refine ⟨?_, fun hr => ?_⟩
  · rw [count, named]
    omega
  · have zero := h.revoked (state hr)
    omega

theorem Step.returned (owes : o id = 1) (heartbeat : ℚ) (utc : String) :
    Step sha ⟨q, o⟩ (.reckoned id)
      ⟨q.updateWorker id (·.returnSlot heartbeat utc), Function.update o id 0⟩ := by
  apply Step.reckoned
  · intro w _ fair
    rw [owes] at fair
    exact fair.returned (by decide) rfl rfl fun hr => hr
  · intro w _ _ bounded
    obtain ⟨h₀, h₁⟩ := bounded
    constructor <;> simp only [Worker.returnSlot, Worker.beat, Worker.releaseSlots] <;> omega

theorem Step.touched {f : Worker → Worker} {hf : ∀ r, (f r).workerId = r.workerId}
    (count : ∀ w, (f w).activeLeases = w.activeLeases) (slots : ∀ w, (f w).maxSlots = w.maxSlots)
    (state : ∀ w, q.worker? id = some w → (f w).state = .revoked → w.state = .revoked) :
    Step sha ⟨q, o⟩ (.reckoned id) ⟨q.updateWorker id f hf, o⟩ := by
  have step : Step sha ⟨q, o⟩ (.reckoned id)
      ⟨q.updateWorker id f hf, Function.update o id (o id)⟩ := by
    apply Step.reckoned
    · exact fun w found fair => fair.of_eq (hf w) (count w) (state w found)
    · intro w _ _ bounded
      rwa [Worker.Bounded, count, slots]
  rwa [Function.update_eq_self] at step

end Counters

end Arenyxa.Distributed
