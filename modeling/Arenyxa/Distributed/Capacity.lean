import Arenyxa.Distributed.Runs

/-! What the lease columns and the worker counters say in reachable states, and what the queue's
own diagnosis makes of them. -/

namespace Arenyxa.Distributed

open Outcome

def Job.violation? (row : Job) : Option String :=
  if row.state.active ∧ ¬(row.leaseWorkerId ≠ "" ∧ row.leaseTokenSha256 ≠ "" ∧ 0 < row.leaseExpiresAt) then
    some ("job:" ++ row.jobId ++ ":active-state-missing-lease")
  else if ¬row.state.active ∧ (row.leaseWorkerId ≠ "" ∨ row.leaseTokenSha256 ≠ "" ∨ 0 < row.leaseExpiresAt) then
    some ("job:" ++ row.jobId ++ ":inactive-state-retains-lease")
  else none

def Worker.slotBound (w : Worker) : String := "worker:" ++ w.workerId ++ ":slot-bound:" ++ toString w.activeLeases

namespace Queue

def workerViolations (q : Queue) (w : Worker) : List String :=
  let expected := q.heldLeases w.workerId
  (if w.activeLeases = expected then [] else ["worker:" ++ w.workerId ++ ":active-leases:" ++
    toString w.activeLeases ++ "!=" ++ toString expected]) ++
    if w.activeLeases < 0 ∨ w.maxSlots < w.activeLeases then [w.slotBound] else []

def invariantViolations (q : Queue) : List String :=
  q.jobs.rows.filterMap Job.violation? ++ q.workers.rows.flatMap q.workerViolations

def SlotsBounded (q : Queue) : Prop := ∀ w ∈ q.workers.rows, w.Bounded

end Queue

theorem Job.LeaseShape.violation?_eq_none {row : Job} (h : row.LeaseShape) : row.violation? = none := by
  rw [Job.LeaseShape] at h
  rw [Job.violation?]
  split_ifs at h with active
  · rw [if_neg (not_and.mpr fun _ => not_not.mpr h), if_neg fun retains => retains.1 active]
  · rw [if_neg fun lost => active lost.1, if_neg (by simp [h])]

/-- In sound tables the diagnosis of a worker is its slot bound. -/
theorem Sound.workerViolations {q : Queue} (hs : Sound q.opened) {w : Worker} (hw : w ∈ q.workers.rows) :
    q.workerViolations w = if w.maxSlots < w.activeLeases then [w.slotBound] else [] := by
  have found : q.worker? w.workerId = some w := Table.mem_rows_iff.mp hw
  have named : w.workerId ≠ "" := fun unnamed => by
    have none : q.worker? "" = none := hs.named
    rw [unnamed, none] at found
    cases found
  have balance : w.activeLeases = q.activeCount w.workerId := by
    simpa [Queue.opened] using (hs.fair w.workerId w found).balance
  have counted : 0 ≤ w.activeLeases := balance ▸ Int.natCast_nonneg _
  rw [Queue.workerViolations, Queue.heldLeases, if_neg named, if_pos balance, List.nil_append]
  simp only [Int.not_lt.mpr counted, false_or]

section Slots

variable {env : Env} {b : Backend} {q q' : Queue}

theorem Step.bounded {sha : Sha256} {L L' : Ledger} {l : Label} (h : Step sha L l L')
    (hs : Sound L) (enrolled : ∀ new, l ≠ .enrolled new) (redeclared : ∀ new, l ≠ .redeclared new)
    (bounded : L.queue.SlotsBounded) : L'.queue.SlotsBounded := by
  cases h with
  | entered | moved | fenced => simpa [Queue.SlotsBounded, Queue.insertRow] using bounded
  | distrusted | erased | dropped | flagged => exact bounded
  | enrolled => exact absurd rfl (enrolled _)
  | redeclared => exact absurd rfl (redeclared _)
  | reckoned fair keeps =>
    rename_i q o id f hf k
    intro w hw
    have found : (q.updateWorker id f hf).worker? w.workerId = some w := Table.mem_rows_iff.mp hw
    rw [Queue.worker?_updateWorker] at found
    split at found
    next named =>
      obtain ⟨old, hold, rfl⟩ := Option.map_eq_some_iff.mp found
      rw [named] at hold
      exact keeps old hold (hs.fair id old hold) (bounded old (Table.get?_some_iff.mp hold).1)
    next => exact bounded w (Table.mem_rows_iff.mpr found)

/-- The registration does not take slots away that are in use. -/
def Op.KeepsSlots (q : Queue) : Op → Prop
  | .registerWorker a => ∀ w, q.worker? (strip a.workerId) = some w → w.activeLeases ≤ a.slots
  | _ => True

theorem RegisterArgs.slots_pos (a : RegisterArgs) : 1 ≤ a.slots := le_max_left _ _

theorem Registered.bounded {sha : Sha256} {a : RegisterArgs} (h : Registered sha a q q')
    (bounded : q.SlotsBounded) :
    q'.SlotsBounded ↔ (Op.registerWorker a).KeepsSlots q := by
  obtain ⟨new, admitted, ⟨absent, o, path, -⟩ | ⟨known, o, path, -⟩⟩ := h
  · cases path with
    | cons step rest =>
      cases rest
      cases step
      refine iff_of_true (fun w hw => ?_) fun w found => ?_
      · have found : (q.insertWorker new).worker? w.workerId = some w := Table.mem_rows_iff.mp hw
        rw [Queue.worker?_insertWorker absent] at found
        split at found
        · obtain rfl := Option.some.inj found
          have pos := a.slots_pos
          rw [Worker.Bounded, admitted.idle, admitted.slots]
          omega
        · exact bounded w (Table.mem_rows_iff.mpr found)
      · rw [← admitted.workerId, absent] at found
        cases found
  · cases path with
    | cons step rest =>
      cases rest
      cases step
      have after (w : Worker) (found : q.worker? new.workerId = some w) :
          (q.updateWorker new.workerId new.redeclare).worker? new.workerId =
            some (new.redeclare w) := by
        rw [Queue.worker?_updateWorker, if_pos rfl, found]
        rfl
      constructor
      · intro bounded' w found
        rw [← admitted.workerId] at found
        have fits := (bounded' _ (Table.get?_some_iff.mp (after w found)).1).2
        exact admitted.slots ▸ fits
      · intro keeps w hw
        have found : (q.updateWorker new.workerId new.redeclare).worker? w.workerId = some w :=
          Table.mem_rows_iff.mp hw
        rw [Queue.worker?_updateWorker] at found
        split at found
        next named =>
          obtain ⟨old, hold, rfl⟩ := Option.map_eq_some_iff.mp found
          rw [named] at hold
          refine ⟨(bounded old (Table.get?_some_iff.mp hold).1).1, ?_⟩
          exact (keeps old (admitted.workerId ▸ hold)).trans_eq admitted.slots.symm
        next => exact bounded w (Table.mem_rows_iff.mpr found)

theorem Sound.bounded_iff (hs : Sound q.opened) (bounded : q.SlotsBounded) {op : Op}
    {r : Result × Queue} (h : op.exec env b q = .ok r) : r.2.SlotsBounded ↔ op.KeepsSlots q := by
  cases op with
  | registerWorker a =>
    simp only [Op.exec, returning, bind_eq_ok] at h
    obtain ⟨⟨w, q'⟩, h, hr⟩ := h
    cases hr
    exact (registerWorker_sat.of_ok h).bounded bounded
  | _ =>
    refine iff_of_true ?_ trivial
    obtain ⟨ls, ⟨o, path, -⟩, account⟩ := hs.accounted h
    have both := path.invariant (P := fun L => Sound L ∧ L.queue.SlotsBounded) ?_ ⟨hs, bounded⟩
    · exact both.2
    rintro L l L' hl step ⟨hs, bounded⟩
    have emits := account.emits l hl
    refine ⟨step.sound hs, step.bounded hs ?_ ?_ bounded⟩ <;> rintro new rfl <;>
      simp [Op.Emits, Label.Prunes, Label.Leases, Label.Recovers, Label.Surrenders] at emits

end Slots

section Runs

variable {env : Env} {b : Backend}

/-- The lease columns of every job say whether it is leased, the counter of every worker is the
number of leases it holds, and a revoked worker holds none. -/
theorem lease_invariant (ops : List Op) :
    (∀ row ∈ (Queue.reached env b ops).jobs.rows,
      (row.state.active ↔
        row.leaseWorkerId ≠ "" ∧ row.leaseTokenSha256 ≠ "" ∧ 0 < row.leaseExpiresAt) ∧
      (¬row.state.active →
        row.leaseWorkerId = "" ∧ row.leaseTokenSha256 = "" ∧ row.leaseExpiresAt = 0)) ∧
    ∀ w ∈ (Queue.reached env b ops).workers.rows,
      w.activeLeases = (Queue.reached env b ops).activeCount w.workerId ∧
      (w.state = .revoked → ∀ row ∈ (Queue.reached env b ops).jobs.rows,
        ¬(row.state.active ∧ row.leaseWorkerId = w.workerId)) := by
  have sound := sound_reached env b ops
  refine ⟨fun row hrow => ?_, fun w hw => ?_⟩
  · have shape : row.LeaseShape := sound.shape _ _ (Queue.mem_jobs_iff.mp hrow)
    unfold Job.LeaseShape at shape
    split_ifs at shape with active
    · exact ⟨iff_of_true active shape, absurd active⟩
    · exact ⟨iff_of_false active fun held => held.1 shape.1, fun _ => shape⟩
  · have fair := sound.fair _ w (Table.mem_rows_iff.mp hw)
    have balance : w.activeLeases = (Queue.reached env b ops).activeCount w.workerId := by
      simpa [Queue.opened] using fair.balance
    refine ⟨balance, fun revoked row hrow held => ?_⟩
    rw [fair.revoked revoked, Queue.activeCount] at balance
    have none := List.countP_eq_zero.mp (Int.natCast_eq_zero.mp balance.symm) row hrow
    simp [Job.heldBy, held] at none

/-- The diagnosis of a reachable state names the workers with more leases than slots, and nothing else. -/
theorem invariantViolations_reached (ops : List Op) :
    (Queue.reached env b ops).invariantViolations =
      ((Queue.reached env b ops).workers.rows.filter fun w => w.maxSlots < w.activeLeases).map Worker.slotBound := by
  have sound := sound_reached env b ops
  have jobs : (Queue.reached env b ops).jobs.rows.filterMap Job.violation? = [] :=
    List.filterMap_eq_nil_iff.mpr fun row hrow =>
      Job.LeaseShape.violation?_eq_none (sound.shape _ _ (Queue.mem_jobs_iff.mp hrow))
  rw [Queue.invariantViolations, jobs, List.nil_append, List.flatMap_congr fun w hw => sound.workerViolations hw]
  induction (Queue.reached env b ops).workers.rows with
  | nil => rfl
  | cons w rows ih =>
    rw [List.flatMap_cons, List.filter_cons, ih]
    by_cases more : w.maxSlots < w.activeLeases <;> simp [more]

/-- The slot bound holds all along a run exactly if no worker is registered anew with fewer slots
than it has leases. -/
theorem slots_bounded_iff (ops : List Op) :
    (∀ before after, ops = before ++ after → ∀ w ∈ (Queue.reached env b before).workers.rows,
      0 ≤ w.activeLeases ∧ w.activeLeases ≤ w.maxSlots) ↔
    ∀ x ∈ Queue.history env b ops, x.2.1.KeepsSlots x.1 := by
  constructor
  · rintro bounded ⟨q, op, result⟩ hx
    obtain ⟨pre, post, split⟩ := List.append_of_mem hx
    obtain ⟨before, after, q', rfl, rfl, -, h, -⟩ := Machine.commits_split split
    refine ((sound_reached env b before).bounded_iff (bounded before _ rfl) h).mp ?_
    have next : Queue.reached env b (before ++ [op]) = q' := Machine.run_snoc_ok h
    exact next ▸ bounded (before ++ [op]) after (by simp)
  · rintro keeps before after rfl
    change (Queue.reached env b before).SlotsBounded
    suffices both : Sound (Queue.reached env b before).opened ∧
        (Queue.reached env b before).SlotsBounded from both.2
    let inv (q : Queue) : Prop := Sound q.opened ∧ q.SlotsBounded
    refine Machine.run_keep (P := inv) ⟨sound_empty, fun w hw => by cases hw⟩ ?_
    rintro q op o q' hm h ⟨hs, bounded⟩
    refine ⟨hs.exec h, (hs.bounded_iff bounded h).mpr (keeps (q, op, o) ?_)⟩
    rw [Queue.history, Machine.commits_append]
    exact List.mem_append_left _ hm

/-- Two leases, then a registration with one slot. -/
def shrunk : List Op :=
  [sampleWorker "w" 2, sampleJob "job" "key" "idempotent", sampleJob "job-b" "key-b" "idempotent",
    sampleLease "w" "token-a", sampleLease "w" "token-b", sampleWorker "w" 1]

theorem slots_exceeded_shrunk :
    ∃ w ∈ (Queue.reached sampleEnv .sqlite shrunk).workers.rows,
      ¬(0 ≤ w.activeLeases ∧ w.activeLeases ≤ w.maxSlots) := by
  decide +kernel

end Runs

end Arenyxa.Distributed
