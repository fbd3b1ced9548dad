import Mathlib.Data.List.Count
import Arenyxa.Runs.Engines

/-! Where the requests of a run are, and what of their results is stored. -/

namespace Arenyxa.Runs

open History

/-- The containers of the loop, and the record of what has gone through them. -/
structure Placing where
  pending : List Item
  deferredHosts : List String
  deferredByHost : Table Bucket
  inFlight : List Item
  admitted : List Item
  recorded : List Item

def Execution.placing (e : Execution) : Placing :=
  ⟨e.pending, e.deferredHosts, e.deferredByHost, e.inFlight, e.admitted, e.recorded.map Prod.fst⟩

namespace Placing

/-- In how many places a request is. -/
def places (p : Placing) (a : Item) : Nat :=
  p.pending.count a + p.deferredByHost.total (·.items.count a) + p.inFlight.count a +
    p.recorded.count a

/-- The requests that wait behind a host. -/
def waiting (p : Placing) (host : String) : List Item :=
  ((p.deferredByHost.get? host).map Bucket.items).getD []

def ofHost (items : List Item) (host : String) : List Item := items.filter (·.host = host)

structure Kept (requests : List Item) (p : Placing) : Prop where
  conserved : ∀ a, p.places a = requests.count a
  order : ∀ host, ofHost p.admitted host ++ p.waiting host ++ ofHost p.pending host =
    ofHost requests host
  once : p.deferredHosts.Nodup
  listed : ∀ host, host ∈ p.deferredHosts ↔ (p.deferredByHost.get? host).isSome
  filled : ∀ host b, p.deferredByHost.get? host = some b → b.items ≠ []

section Steps

variable {requests : List Item} {p : Placing} {item : Item} {rest items : List Item} {host : String}
  {hosts : List String}

theorem ofHost_append (l l' : List Item) (host : String) :
    ofHost (l ++ l') host = ofHost l host ++ ofHost l' host := List.filter_append ..

theorem ofHost_singleton (item : Item) (host : String) :
    ofHost [item] host = if item.host = host then [item] else [] := by
  rw [ofHost, List.filter_singleton]
  by_cases same : item.host = host <;> simp [same]

theorem ofHost_cons (item : Item) (l : List Item) (host : String) :
    ofHost (item :: l) host = (if item.host = host then [item] else []) ++ ofHost l host := by
  rw [← ofHost_singleton, ← ofHost_append]
  rfl

theorem Kept.host_of_waiting (h : p.Kept requests) (mem : item ∈ p.waiting host) : item.host = host := by
  have within : item ∈ ofHost requests host := by
    rw [← h.order host]
    exact List.mem_append_left _ (List.mem_append_right _ mem)
  simpa [ofHost] using (List.mem_filter.mp within).2

theorem Kept.admitRequest (h : p.Kept requests) (pending : p.pending = item :: rest)
    (free : p.deferredByHost.get? item.host = none) :
    Kept requests { p with
      pending := rest, inFlight := p.inFlight ++ [item], admitted := p.admitted ++ [item] } where
  conserved a := by
    rw [← h.conserved a]
    simp only [places, pending, List.count_append, List.count_cons, List.count_nil]
    omega
  order other := by
    rw [← h.order other, pending, ofHost_append, ofHost_singleton, ofHost_cons]
    by_cases same : item.host = other
    · subst same
      have none' : p.waiting item.host = [] := by rw [waiting, free]; rfl
      have none'' : waiting { p with
          pending := rest, inFlight := p.inFlight ++ [item], admitted := p.admitted ++ [item] }
          item.host = [] := none'
      simp [none', none'']
    · simp only [if_neg same, List.append_nil, List.nil_append]
      rfl
  once := h.once
  listed := h.listed
  filled := h.filled

theorem Kept.deferNew (h : p.Kept requests) (pending : p.pending = item :: rest)
    (free : p.deferredByHost.get? item.host = none) :
    Kept requests { p with
      pending := rest
      deferredHosts := p.deferredHosts ++ [item.host]
      deferredByHost := p.deferredByHost.insert ⟨item.host, [item]⟩ } := by
  have lookup (i : String) : (p.deferredByHost.insert ⟨item.host, [item]⟩).get? i =
      if i = item.host then some ⟨item.host, [item]⟩ else p.deferredByHost.get? i :=
    Table.get?_insert free
  refine ⟨fun a => ?_, fun other => ?_, ?_, fun other => ?_, fun other b found => ?_⟩
  · have total : (p.deferredByHost.insert ⟨item.host, [item]⟩).total (·.items.count a) =
        p.deferredByHost.total (·.items.count a) + [item].count a := Table.total_insert _ free
    rw [← h.conserved a]
    simp only [places, pending, total, List.count_cons, List.count_nil]
    omega
  · rw [← h.order other, pending, ofHost_cons]
    simp only [waiting, lookup]
    by_cases same : item.host = other
    · subst same
      simp [free]
    · have differs : ¬ other = item.host := fun e => same e.symm
      simp [same, differs]
  · refine List.nodup_append.mpr ⟨h.once, List.nodup_singleton _, ?_⟩
    intro a mem b last
    rw [List.mem_singleton.mp last]
    rintro rfl
    simpa [free] using (h.listed _).mp mem
  · simp only [List.mem_append, h.listed, lookup]
    by_cases same : other = item.host
    · simp [same]
    · simp [same]
  · simp only [lookup] at found
    split at found
    next =>
      cases found
      exact List.cons_ne_nil _ _
    next => exact h.filled other b found

theorem Kept.deferMore (h : p.Kept requests) (pending : p.pending = item :: rest) {b : Bucket}
    (found : p.deferredByHost.get? item.host = some b) :
    Kept requests { p with
      pending := rest
      deferredByHost := p.deferredByHost.modify item.host (·.push item) (fun _ => rfl) } := by
  have lookup (i : String) : (p.deferredByHost.modify item.host (·.push item) (fun _ => rfl)).get? i =
      if i = item.host then (p.deferredByHost.get? i).map (·.push item)
      else p.deferredByHost.get? i := Table.get?_modify
  refine ⟨fun a => ?_, fun other => ?_, h.once, fun other => ?_, fun other c hit => ?_⟩
  · have moved := Table.total_modify (fun c : Bucket => c.items.count a) (·.push item) (fun _ => rfl)
      found
    simp only [Bucket.push, List.count_append, List.count_cons, List.count_nil] at moved
    rw [← h.conserved a]
    simp only [places, pending, Bucket.push, List.count_cons]
    omega
  · rw [← h.order other, pending, ofHost_cons]
    simp only [waiting, lookup]
    by_cases same : item.host = other
    · subst same
      simp [found, Bucket.push]
    · have differs : ¬ other = item.host := fun e => same e.symm
      simp [same, differs]
  · rw [h.listed]
    simp only [lookup]
    split <;> simp
  · simp only [lookup] at hit
    split at hit
    next =>
      obtain ⟨d, -, rfl⟩ := Option.map_eq_some_iff.mp hit
      exact List.append_ne_nil_of_right_ne_nil _ (List.cons_ne_nil _ _)
    next => exact h.filled other c hit

theorem Kept.rotate (h : p.Kept requests) (line : p.deferredHosts = host :: hosts) :
    Kept requests { p with deferredHosts := hosts ++ [host] } where
  conserved := h.conserved
  order := h.order
  once := by
    have perm : (host :: hosts).Perm (hosts ++ [host]) := (List.perm_append_singleton host hosts).symm
    exact perm.nodup_iff.mp (line ▸ h.once)
  listed other := by
    rw [← h.listed, line]
    simp [or_comm]
  filled := h.filled

theorem Kept.admitLast (h : p.Kept requests) (line : p.deferredHosts = host :: hosts)
    (found : p.deferredByHost.get? host = some ⟨host, [item]⟩) :
    Kept requests { p with
      deferredHosts := hosts
      deferredByHost := p.deferredByHost.erase host
      inFlight := p.inFlight ++ [item]
      admitted := p.admitted ++ [item] } := by
  have lookup (i : String) : (p.deferredByHost.erase host).get? i =
      if i = host then none else p.deferredByHost.get? i := Table.get?_erase
  have fresh := (List.nodup_cons.mp (line ▸ h.once)).1
  refine ⟨fun a => ?_, fun other => ?_, (List.nodup_cons.mp (line ▸ h.once)).2, fun other => ?_,
    fun other b hit => ?_⟩
  · have moved := Table.total_erase (fun c : Bucket => c.items.count a) found
    rw [← h.conserved a]
    simp only [places, List.count_append] at moved ⊢
    omega
  · have own : item.host = host := h.host_of_waiting (by simp [waiting, found])
    rw [← h.order other, ofHost_append, ofHost_singleton, own]
    simp only [waiting, lookup]
    by_cases same : host = other
    · subst same
      simp [found]
    · have differs : ¬ other = host := fun e => same e.symm
      simp [same, differs]
  · have before := h.listed other
    rw [line, List.mem_cons] at before
    simp only [lookup]
    by_cases same : other = host
    · subst same
      simp [fresh]
    · simpa [same] using before
  · simp only [lookup] at hit
    split at hit
    next => cases hit
    next => exact h.filled other b hit

theorem Kept.admitMore (h : p.Kept requests) (line : p.deferredHosts = host :: hosts)
    (found : p.deferredByHost.get? host = some ⟨host, item :: items⟩) (more : items ≠ []) :
    Kept requests { p with
      deferredHosts := hosts ++ [host]
      deferredByHost := p.deferredByHost.modify host Bucket.pop (fun _ => rfl)
      inFlight := p.inFlight ++ [item]
      admitted := p.admitted ++ [item] } := by
  have lookup (i : String) : (p.deferredByHost.modify host Bucket.pop (fun _ => rfl)).get? i =
      if i = host then (p.deferredByHost.get? i).map Bucket.pop
      else p.deferredByHost.get? i := Table.get?_modify
  have turned := h.rotate line
  refine ⟨fun a => ?_, fun other => ?_, turned.once, fun other => ?_, fun other b hit => ?_⟩
  · have moved := Table.total_modify (fun c : Bucket => c.items.count a) Bucket.pop (fun _ => rfl) found
    simp only [Bucket.pop, List.tail_cons, List.count_cons] at moved
    rw [← h.conserved a]
    simp only [places, List.count_append, List.count_cons, List.count_nil]
    omega
  · have own : item.host = host := h.host_of_waiting (by simp [waiting, found])
    rw [← h.order other, ofHost_append, ofHost_singleton, own]
    simp only [waiting, lookup]
    by_cases same : host = other
    · subst same
      simp [found, Bucket.pop]
    · have differs : ¬ other = host := fun e => same e.symm
      simp [same, differs]
  · rw [turned.listed]
    simp only [lookup]
    split <;> simp
  · simp only [lookup] at hit
    split at hit
    next same =>
      obtain ⟨c, before, rfl⟩ := Option.map_eq_some_iff.mp hit
      obtain rfl := Option.some_inj.mp ((same ▸ before).symm.trans found)
      exact more
    next => exact h.filled other b hit

theorem Kept.record (h : p.Kept requests) (mem : item ∈ p.inFlight) :
    Kept requests { p with
      inFlight := p.inFlight.erase item, recorded := p.recorded ++ [item] } := by
  refine ⟨fun a => ?_, h.order, h.once, h.listed, h.filled⟩
  rw [← h.conserved a]
  have moved : (p.inFlight.erase item).count a + [item].count a = p.inFlight.count a := by
    have perm := (List.perm_cons_erase mem).count_eq a
    rw [perm, List.count_cons, List.count_cons, List.count_nil]
    omega
  simp only [places, List.count_append]
  omega

end Steps

end Placing

/-- What is counted, and what is stored or about to be. -/
structure Tally where
  successCount : Nat
  failureCount : Nat
  resultCount : Nat
  recorded : List (Item × Outcome)
  rows : List ResultRecord
  writeBatch : List ResultRecord
  ending : Ending

def Execution.tally (e : Execution) : Tally :=
  ⟨e.counters.successCount, e.counters.failureCount, e.counters.resultCount, e.recorded, e.rows,
    e.writeBatch, e.ending⟩

/-- The record, or a row of the run with an equal content hash. -/
def Tally.Has (t : Tally) (r : ResultRecord) : Prop := ∃ row ∈ t.rows, row.contentHash = r.contentHash

/-- The counters against the outcomes, and of a run that is no preview against the rows. -/
structure Tally.Kept (s : Settings) (t : Tally) : Prop where
  counted : t.ending ≠ .interrupted → t.successCount + t.failureCount = t.recorded.length
  rows : s.preview = false → t.resultCount = t.rows.length
  stored : s.preview = false → ∀ x ∈ t.recorded, x.2.errorCode = none → ∀ r, x.2.record = some r →
    r ∈ t.writeBatch ∨ t.Has r
  flushed : s.preview = false → t.ending ≠ .running → t.writeBatch = []

/-- The condition on a turn of the thread engine: the loop is left by an exception, or a store write
fails, only where no record waits in the batch, and no request that has been taken out of its
container ends in a cancellation. -/
def Execution.Ordered (s : Settings) (e : Execution) (turn : Turn) : Prop :=
  e.ending = .running → match turn with
    | .progress w | .flushDue w | .close w => w ≠ .stored → e.writeBatch = []
    | .cancel | .pressure => e.writeBatch = []
    | .askDeferred answer => answer = .closed → e.deferredHosts = []
    | .askPending answer => answer = .closed → ∀ item ∈ e.pending.head?,
        (e.deferredByHost.get? item.host).isSome
    | .collect item completion w => item ∈ e.inFlight → ∃ o, completion.outcome = some o ∧
        (w ≠ .stored → o.buffered s → e.writeBatch.length + 1 < s.batchSize)

section Executions

variable {s : Settings} {e e' : Execution} {requests : List Item} {code : String}

theorem interrupt_placing : (e.interrupt code).placing = e.placing := by
  rw [Execution.interrupt]
  split <;> rfl

theorem complete_placing : e.complete.placing = e.placing := by
  rw [Execution.complete]
  split
  next => rfl
  next => split <;> rfl

theorem flushBatch_placing {w : StoreCall} (h : e.flushBatch s w = .ok e') : e'.placing = e.placing := by
  rw [Execution.flushBatch.eq_def] at h
  split at h
  next =>
    cases h
    rfl
  next =>
    cases w with
    | stored =>
      cases h
      rfl
    | locked => cases h
    | failed => cases h

theorem flush_placing (w : StoreCall) : (e.flush s w).placing = e.placing := by
  rw [Execution.flush]
  split
  next e' h =>
    show e'.placing = e.placing
    rw [flushBatch_placing h]
    rfl
  next => exact interrupt_placing

theorem record_placing (item : Item) (o : Outcome) : (e.record s item o).placing =
    { e.placing with recorded := e.placing.recorded ++ [item] } := by
  have added : (e.recorded ++ [(item, o)]).map Prod.fst = e.recorded.map Prod.fst ++ [item] := by simp
  unfold Execution.record
  rcases o with ⟨_ | r, retries, _ | code⟩
  · simp only [Execution.placing, added]
  · simp only [Execution.placing, added]
  · cases s.preview with
    | true =>
      simp only [if_true]
      split <;> simp only [Execution.placing, added]
    | false => simp [Execution.placing]
  · simp only [Execution.placing, added]

theorem askDeferred_kept (h : e.placing.Kept requests) (answer : Answer)
    (open' : answer = .closed → e.deferredHosts = []) :
    (e.askDeferred answer).placing.Kept requests := by
  rw [Execution.askDeferred]
  split
  next => exact h
  next host hosts line =>
    have listed : (e.deferredByHost.get? host).isSome := (h.listed host).mp (by
      show host ∈ e.deferredHosts
      simp [line])
    rw [Execution.askHost]
    split
    next absent => simp [absent] at listed
    next found => exact absurd rfl (h.filled host _ found)
    next name item items found =>
      obtain rfl : name = host := Table.get?_key found
      cases answer with
      | gateFull => exact h
      | hostBusy => exact h.rotate line
      | closed => simp [open' rfl] at line
      | granted =>
        show (e.admitDeferred name hosts item items).placing.Kept requests
        rw [Execution.admitDeferred]
        split
        next last =>
          subst last
          exact h.admitLast line found
        next more => exact h.admitMore line found more

theorem askPending_kept (h : e.placing.Kept requests) (answer : Answer)
    (open' : answer = .closed → ∀ item ∈ e.pending.head?, (e.deferredByHost.get? item.host).isSome) :
    (e.askPending answer).placing.Kept requests := by
  rw [Execution.askPending]
  split
  next => exact h
  next item rest pending =>
    rw [Execution.askItem.eq_def]
    cases found : e.deferredByHost.get? item.host with
    | some b =>
      simp only [Execution.defer, found]
      exact h.deferMore pending found
    | none =>
      cases answer with
      | gateFull => exact h
      | hostBusy =>
        simp only [Execution.defer, found]
        exact h.deferNew pending found
      | closed => simpa [found] using open' rfl item (by simp [pending])
      | granted => exact h.admitRequest pending found

theorem collectThread_kept (h : e.placing.Kept requests) {item : Item} (mem : item ∈ e.inFlight)
    {completion : Completion} {o : Outcome} (outcome : completion.outcome = some o) (w : StoreCall) :
    (collectThread e s item completion w).placing.Kept requests := by
  have recorded : ((e.take item).record s item o).placing.Kept requests := by
    rw [record_placing]
    exact h.record mem
  simp only [collectThread, outcome]
  split
  next =>
    rw [flush_placing]
    exact recorded
  next => exact recorded

theorem close_kept (h : e.placing.Kept requests) (w : StoreCall) : (e.close s w).placing.Kept requests := by
  rw [Execution.close]
  split
  next =>
    split
    next =>
      rw [complete_placing]
      exact h
    next =>
      split
      next e' flushed =>
        rw [complete_placing, flushBatch_placing flushed]
        exact h
      next =>
        rw [interrupt_placing]
        exact h
  next => exact h

theorem step_placing (h : e.placing.Kept requests) (turn : Turn) (ordered : e.Ordered s turn) :
    (e.step s collectThread turn).placing.Kept requests := by
  have stopped (code : String) : (e.interrupt code).placing.Kept requests := by
    rw [interrupt_placing]
    exact h
  rw [Execution.step.eq_def]
  split
  next => exact h
  next active =>
    have condition := ordered (not_not.mp active)
    cases turn with
    | progress w =>
      cases w with
      | stored => exact h
      | locked => exact stopped _
      | failed => exact stopped _
    | cancel => exact stopped _
    | pressure => exact stopped _
    | askDeferred answer => exact askDeferred_kept h answer condition
    | askPending answer => exact askPending_kept h answer condition
    | collect item completion w =>
      show (if item ∈ e.inFlight then _ else e).placing.Kept requests
      split
      next mem =>
        obtain ⟨o, outcome, -⟩ := condition mem
        exact collectThread_kept h mem outcome w
      next => exact h
    | flushDue w =>
      show (e.flushDue s w).placing.Kept requests
      rw [Execution.flushDue]
      split
      next => exact h
      next =>
        rw [flush_placing]
        exact h
    | close w => exact close_kept h w

theorem interrupt_tally (e : Execution) (code : String) : ∃ failures, (e.interrupt code).tally =
    { e.tally with failureCount := failures, ending := .interrupted } := by
  rw [Execution.interrupt]
  split <;> exact ⟨_, rfl⟩

theorem complete_tally : e.complete.tally = { e.tally with ending := .counted } := by
  rw [Execution.complete]
  split
  next => rfl
  next => split <;> rfl

theorem Tally.Kept.interrupt (h : e.tally.Kept s) (empty : e.writeBatch = []) :
    (e.interrupt code).tally.Kept s := by
  obtain ⟨failures, same⟩ := interrupt_tally e code
  rw [same]
  exact ⟨fun other => absurd rfl other, h.rows, h.stored, fun _ _ => empty⟩

theorem Tally.Kept.complete (h : e.tally.Kept s) (running : e.ending ≠ .interrupted)
    (empty : s.preview = false → e.writeBatch = []) : e.complete.tally.Kept s := by
  rw [complete_tally]
  exact ⟨fun _ => h.counted running, h.rows, h.stored, fun shown _ => empty shown⟩

theorem appendResults_keeps (batch rows : List ResultRecord) :
    (∀ row ∈ rows, row ∈ Execution.appendResults rows batch) ∧
      (∀ r ∈ batch, ∃ row ∈ Execution.appendResults rows batch, row.contentHash = r.contentHash) ∧
      rows.length ≤ (Execution.appendResults rows batch).length := by
  induction batch generalizing rows with
  | nil => exact ⟨fun _ mem => mem, nofun, Nat.le_refl _⟩
  | cons r batch ih =>
    show _ ∧ _ ∧ _
    have step : Execution.appendResults rows (r :: batch) = Execution.appendResults
        (if (rows.map ResultRecord.contentHash).contains r.contentHash then rows else rows ++ [r]) batch :=
      rfl
    rw [step]
    split
    next known =>
      obtain ⟨kept, hashed, longer⟩ := ih rows
      refine ⟨kept, fun x mem => ?_, longer⟩
      rcases List.mem_cons.mp mem with rfl | mem
      · obtain ⟨row, stored, same⟩ := List.mem_map.mp (List.contains_iff_mem.mp known)
        exact ⟨row, kept row stored, same⟩
      · exact hashed x mem
    next =>
      obtain ⟨kept, hashed, longer⟩ := ih (rows ++ [r])
      refine ⟨fun row mem => kept row (List.mem_append_left _ mem), fun x mem => ?_, ?_⟩
      · rcases List.mem_cons.mp mem with rfl | mem
        · exact ⟨x, kept x (List.mem_append_right _ (List.mem_singleton_self x)), rfl⟩
        · exact hashed x mem
      · rw [List.length_append] at longer
        exact Nat.le_trans (Nat.le_add_right _ _) longer

theorem Tally.Kept.flushBatch (h : e.tally.Kept s) {w : StoreCall} (flushed : e.flushBatch s w = .ok e') :
    e'.tally.Kept s ∧ e'.ending = e.ending ∧ (s.preview = false → e'.writeBatch = []) := by
  rw [Execution.flushBatch.eq_def] at flushed
  split at flushed
  next idle =>
    cases flushed
    refine ⟨h, rfl, fun shown => ?_⟩
    simpa [shown] using idle
  next =>
    cases w with
    | locked => cases flushed
    | failed => cases flushed
    | stored =>
      cases flushed
      obtain ⟨kept, hashed, longer⟩ := appendResults_keeps e.writeBatch e.rows
      refine ⟨⟨h.counted, fun shown => ?_, fun shown x mem success r held => ?_, fun _ _ => rfl⟩, rfl,
        fun _ => rfl⟩
      · have before : e.counters.resultCount = e.rows.length := h.rows shown
        show e.counters.resultCount + (_ - e.rows.length) = _
        rw [before]
        exact Nat.add_sub_cancel' longer
      · rcases h.stored shown x mem success r held with batched | ⟨row, stored, same⟩
        · exact .inr (hashed r batched)
        · exact .inr ⟨row, kept row stored, same⟩

theorem flushBatch_stored : ∃ e', e.flushBatch s .stored = .ok e' := by
  rw [Execution.flushBatch.eq_def]
  split
  next => exact ⟨_, rfl⟩
  next => exact ⟨_, rfl⟩

theorem flushBatch_of_empty (empty : e.writeBatch = []) (w : StoreCall) : e.flushBatch s w = .ok e := by
  rw [Execution.flushBatch.eq_def, if_pos (by simp [empty])]

theorem flushBatch_of_written {w : StoreCall} (written : w ≠ .stored → e.writeBatch = []) :
    ∃ e', e.flushBatch s w = .ok e' := by
  by_cases stored : w = .stored
  · rw [stored]
    exact flushBatch_stored
  · exact ⟨e, flushBatch_of_empty (written stored) w⟩

theorem Tally.Kept.flush (h : e.tally.Kept s) {w : StoreCall} (written : w ≠ .stored → e.writeBatch = []) :
    (e.flush s w).tally.Kept s := by
  obtain ⟨e', flushed⟩ := flushBatch_of_written (e := { e with stage := "write" }) (s := s) written
  have kept : Tally.Kept s (Execution.tally { e with stage := "write" }) := h
  rw [Execution.flush, flushed]
  exact (kept.flushBatch flushed).1

theorem record_log (item : Item) (o : Outcome) :
    (e.record s item o).recorded = e.recorded ++ [(item, o)] ∧ (e.record s item o).rows = e.rows := by
  unfold Execution.record
  rcases o with ⟨_ | r, retries, _ | code⟩
  · exact ⟨rfl, rfl⟩
  · exact ⟨rfl, rfl⟩
  · cases s.preview with
    | true =>
      simp only [if_true]
      split
      · exact ⟨rfl, rfl⟩
      · exact ⟨rfl, rfl⟩
    | false => exact ⟨rfl, rfl⟩
  · exact ⟨rfl, rfl⟩

theorem Tally.Kept.record (h : e.tally.Kept s) (running : e.ending = .running) (item : Item)
    (o : Outcome) : (e.record s item o).tally.Kept s := by
  have counted : e.counters.successCount + e.counters.failureCount = e.recorded.length :=
    h.counted (by simp [Execution.tally, running])
  have going : (e.record s item o).ending = .running := (record_ending item o).trans running
  obtain ⟨listed, rows⟩ := record_log (e := e) (s := s) item o
  have results : s.preview = false →
      (e.record s item o).counters.resultCount = e.counters.resultCount := by
    intro shown
    unfold Execution.record
    rcases o with ⟨_ | r, retries, _ | code⟩
    · rfl
    · rfl
    · simp [shown]
    · rfl
  have sums : (e.record s item o).counters.successCount + (e.record s item o).counters.failureCount =
      e.counters.successCount + e.counters.failureCount + 1 := by
    unfold Execution.record
    rcases o with ⟨_ | r, retries, _ | code⟩
    · exact Nat.add_right_comm _ _ _
    · exact (Nat.add_assoc _ _ _).symm
    · cases s.preview with
      | true =>
        simp only [if_true]
        split
        · exact Nat.add_right_comm _ _ _
        · exact Nat.add_right_comm _ _ _
      | false => exact Nat.add_right_comm _ _ _
    · exact (Nat.add_assoc _ _ _).symm
  refine ⟨fun _ => ?_, fun shown => ?_, fun shown x mem success r held => ?_, fun _ other => ?_⟩
  · show (e.record s item o).counters.successCount + (e.record s item o).counters.failureCount =
      (e.record s item o).recorded.length
    rw [sums, listed, List.length_append, counted]
    rfl
  · show (e.record s item o).counters.resultCount = (e.record s item o).rows.length
    rw [results shown, rows]
    exact h.rows shown
  · show r ∈ (e.record s item o).writeBatch ∨ ∃ row ∈ (e.record s item o).rows, _
    have mem : x ∈ (e.record s item o).recorded := mem
    rw [record_batch, rows]
    rw [listed] at mem
    rcases List.mem_append.mp mem with old | new
    · rcases h.stored shown x old success r held with batched | stored
      · refine .inl ?_
        split
        · exact List.mem_append_left _ batched
        · exact batched
      · exact .inr stored
    · obtain rfl := List.mem_singleton.mp new
      have buffered : o.buffered s = true := by
        have success : o.errorCode = none := success
        have held : o.record = some r := held
        simp [Outcome.buffered, success, held, shown]
      have held : o.record = some r := held
      exact .inl (by simp [buffered, held])
  · exact absurd going other

theorem askDeferred_tally (answer : Answer) (open' : answer = .closed → e.deferredHosts = []) :
    (e.askDeferred answer).tally = e.tally := by
  rw [Execution.askDeferred]
  split
  next => rfl
  next host hosts line =>
    rw [Execution.askHost]
    split
    next => rfl
    next => rfl
    next item items _ =>
      cases answer with
      | gateFull => rfl
      | hostBusy => rfl
      | closed => simp [open' rfl] at line
      | granted =>
        show (e.admitDeferred host hosts item items).tally = e.tally
        rw [Execution.admitDeferred]
        split <;> rfl

theorem defer_tally (item : Item) : (e.defer item).tally = e.tally := by
  rw [Execution.defer]
  split <;> rfl

theorem askPending_tally (answer : Answer)
    (open' : answer = .closed → ∀ item ∈ e.pending.head?, (e.deferredByHost.get? item.host).isSome) :
    (e.askPending answer).tally = e.tally := by
  rw [Execution.askPending]
  split
  next => rfl
  next item rest pending =>
    rw [Execution.askItem.eq_def]
    cases found : e.deferredByHost.get? item.host with
    | some b => exact defer_tally item
    | none =>
      cases answer with
      | gateFull => rfl
      | hostBusy => exact defer_tally item
      | closed => simpa [found] using open' rfl item (by simp [pending])
      | granted => rfl

theorem Tally.Kept.collect (h : e.tally.Kept s) (running : e.ending = .running) (item : Item)
    {completion : Completion} {o : Outcome} (outcome : completion.outcome = some o) {w : StoreCall}
    (written : w ≠ .stored → o.buffered s → e.writeBatch.length + 1 < s.batchSize) :
    (collectThread e s item completion w).tally.Kept s := by
  have taken : (e.take item).tally.Kept s := h
  have recorded := taken.record running item o
  simp only [collectThread, outcome]
  split
  next full =>
    simp only [Bool.and_eq_true, decide_eq_true_eq] at full
    refine recorded.flush fun unwritten => ?_
    have spare := written unwritten full.1
    have size := full.2
    rw [record_batch, if_pos full.1, List.length_append] at size
    have one : o.record.toList.length ≤ 1 := by cases o.record <;> simp
    have same : (e.take item).writeBatch.length = e.writeBatch.length := rfl
    omega
  next => exact recorded

theorem Tally.Kept.close (h : e.tally.Kept s) (running : e.ending = .running) {w : StoreCall}
    (written : w ≠ .stored → e.writeBatch = []) : (e.close s w).tally.Kept s := by
  rw [Execution.close]
  split
  next =>
    split
    next empty => exact h.complete (by simp [running]) fun _ => List.isEmpty_iff.mp empty
    next =>
      obtain ⟨e', flushed⟩ := flushBatch_of_written (e := { e with stage := "write" }) (s := s) written
      have kept : Tally.Kept s (Execution.tally { e with stage := "write" }) := h
      obtain ⟨after, same, empty⟩ := kept.flushBatch flushed
      rw [flushed]
      have going : e'.ending = .running := same.trans running
      exact after.complete (by simp [going]) empty
  next => exact h

theorem step_tally (h : e.tally.Kept s) (turn : Turn) (ordered : e.Ordered s turn) :
    (e.step s collectThread turn).tally.Kept s := by
  rw [Execution.step.eq_def]
  split
  next => exact h
  next active =>
    have running := not_not.mp active
    have condition := ordered running
    cases turn with
    | progress w =>
      cases w with
      | stored => exact h
      | locked => exact h.interrupt (condition (by decide))
      | failed => exact h.interrupt (condition (by decide))
    | cancel => exact h.interrupt condition
    | pressure => exact h.interrupt condition
    | askDeferred answer =>
      show (e.askDeferred answer).tally.Kept s
      rw [askDeferred_tally answer condition]
      exact h
    | askPending answer =>
      show (e.askPending answer).tally.Kept s
      rw [askPending_tally answer condition]
      exact h
    | collect item completion w =>
      show (if item ∈ e.inFlight then _ else e).tally.Kept s
      split
      next mem =>
        obtain ⟨o, outcome, written⟩ := condition mem
        exact h.collect running item outcome written
      next => exact h
    | flushDue w =>
      show (e.flushDue s w).tally.Kept s
      rw [Execution.flushDue]
      split
      next => exact h
      next => exact h.flush condition
    | close w => exact h.close running condition

/-- A loop that is left by its counters has nothing left to do. -/
def Execution.Finished (e : Execution) : Prop :=
  e.ending = .counted → e.pending = [] ∧ e.deferredHosts = [] ∧ e.inFlight = []

theorem flush_ending (h : e.ending = .running) (w : StoreCall) : (e.flush s w).ending ≠ .counted := by
  rw [Execution.flush]
  split
  next e' flushed =>
    rw [Execution.flushBatch.eq_def] at flushed
    split at flushed
    next =>
      cases flushed
      simp [h]
    next =>
      cases w with
      | stored =>
        cases flushed
        simp [h]
      | locked => cases flushed
      | failed => cases flushed
  next => simp [interrupt_ending]

theorem step_finished (h : e.Finished) (turn : Turn) (ordered : e.Ordered s turn) :
    (e.step s collectThread turn).Finished := by
  have going {e' : Execution} (other : e'.ending ≠ .counted) : e'.Finished :=
    fun counted => absurd counted other
  have stopped (code : String) : (e.interrupt code).Finished := going (by simp [interrupt_ending])
  rw [Execution.step.eq_def]
  split
  next => exact h
  next active =>
    have running := not_not.mp active
    have condition := ordered running
    cases turn with
    | progress w =>
      cases w with
      | stored => exact h
      | locked => exact stopped _
      | failed => exact stopped _
    | cancel => exact stopped _
    | pressure => exact stopped _
    | askDeferred answer =>
      have same : (e.askDeferred answer).ending = e.ending :=
        congrArg Tally.ending (askDeferred_tally answer condition)
      exact going (by simp [same, running])
    | askPending answer =>
      have same : (e.askPending answer).ending = e.ending :=
        congrArg Tally.ending (askPending_tally answer condition)
      exact going (by simp [same, running])
    | collect item completion w =>
      show (if item ∈ e.inFlight then _ else e).Finished
      split
      next =>
        rw [collectThread]
        cases completion.outcome with
        | none => exact going (by simp [interrupt_ending])
        | some o =>
          have same : ((e.take item).record s item o).ending = .running :=
            (record_ending item o).trans running
          simp only
          split
          next => exact going (flush_ending same w)
          next => exact going (by simp [same])
      next => exact h
    | flushDue w =>
      show (e.flushDue s w).Finished
      rw [Execution.flushDue]
      split
      next => exact h
      next => exact going (flush_ending running w)
    | close w =>
      show (e.close s w).Finished
      rw [Execution.close]
      split
      next empty =>
        simp only [Bool.and_eq_true, List.isEmpty_iff] at empty
        have left : e.pending = [] ∧ e.deferredHosts = [] ∧ e.inFlight = [] :=
          ⟨empty.1.1, empty.1.2, empty.2⟩
        have finished {e' : Execution} (same : e'.placing = e.placing) : e'.complete.Finished := by
          intro _
          have placed := complete_placing.trans same
          refine ⟨?_, ?_, ?_⟩
          · exact (congrArg Placing.pending placed).trans left.1
          · exact (congrArg Placing.deferredHosts placed).trans left.2.1
          · exact (congrArg Placing.inFlight placed).trans left.2.2
        split
        next => exact finished rfl
        next =>
          split
          next e' flushed => exact finished ((flushBatch_placing flushed).trans rfl)
          next => exact stopped _
      next => exact h

end Executions

/-- The requests of a task, by the keys of their hosts. -/
def enumerated (hosts : List String) : List Item := hosts.zipIdx.map fun x => ⟨x.2, x.1⟩

theorem enumerated_nodup (hosts : List String) : (enumerated hosts).Nodup := by
  have indices : (enumerated hosts).map Item.index = List.range' 0 hosts.length := by
    rw [enumerated, List.map_map]
    exact List.zipIdx_map_snd 0 hosts
  exact List.Nodup.of_map Item.index (indices ▸ List.nodup_range')

theorem started_placing (requests : List Item) : (Execution.started requests).placing.Kept requests where
  conserved a := by simp [Placing.places, Execution.placing, Execution.started]
  order host := by simp [Placing.ofHost, Placing.waiting, Execution.placing, Execution.started]
  once := List.nodup_nil
  listed host := by simp [Execution.placing, Execution.started]
  filled host b found := by cases found

theorem started_tally (s : Settings) (requests : List Item) :
    (Execution.started requests).tally.Kept s :=
  ⟨fun _ => rfl, fun _ => rfl, fun _ => nofun, fun _ _ => rfl⟩

/-- What holds of a run of the thread engine: every request is in one place, in the order of the
task for each host; the counters add up; and the records of the successes are stored. -/
structure Execution.Sound (s : Settings) (hosts : List String) (e : Execution) : Prop where
  conserved : ∀ a ∈ enumerated hosts, e.placing.places a = 1
  order : ∀ host, Placing.ofHost e.admitted host ++ e.placing.waiting host ++
    Placing.ofHost e.pending host = Placing.ofHost (enumerated hosts) host
  listed : e.deferredHosts.Nodup ∧
    (∀ host, host ∈ e.deferredHosts ↔ (e.deferredByHost.get? host).isSome) ∧
    ∀ host b, e.deferredByHost.get? host = some b → b.items ≠ []
  counted : e.ending = .counted →
    e.counters.successCount + e.counters.failureCount = hosts.length
  stored : s.preview = false → e.ending ≠ .running →
    e.counters.resultCount = e.rows.length ∧
      ∀ x ∈ e.recorded, x.2.errorCode = none → ∀ r, x.2.record = some r →
        ∃ row ∈ e.rows, row.contentHash = r.contentHash

theorem Execution.sound_of_kept {s : Settings} {hosts : List String} {e : Execution}
    (placed : e.placing.Kept (enumerated hosts)) (tallied : e.tally.Kept s) (finished : e.Finished) :
    e.Sound s hosts where
  conserved a mem := by
    rw [placed.conserved a, List.count_eq_one_of_mem (enumerated_nodup hosts) mem]
  order := placed.order
  listed := ⟨placed.once, placed.listed, placed.filled⟩
  counted ending := by
    obtain ⟨pending, line, flying⟩ := finished ending
    have sum : e.counters.successCount + e.counters.failureCount = e.recorded.length :=
      tallied.counted (by simp [Execution.tally, ending])
    have none' : ∀ host, e.deferredByHost.get? host = none := by
      intro host
      have absent : host ∉ e.deferredHosts := by simp [line]
      exact Option.not_isSome_iff_eq_none.mp fun some => absent ((placed.listed host).mpr some)
    have empty : e.deferredByHost.rows = [] := List.eq_nil_iff_forall_not_mem.mpr fun b mem => by
      cases (none' b.host).symm.trans (Table.mem_rows_iff.mp mem)
    have perm : (e.recorded.map Prod.fst).Perm (enumerated hosts) := by
      refine List.perm_iff_count.mpr fun a => ?_
      rw [← placed.conserved a]
      simp [Placing.places, Execution.placing, pending, flying, Table.total, empty]
    rw [sum, ← List.length_map (f := Prod.fst), perm.length_eq, enumerated, List.length_map,
      List.length_zipIdx]
  stored shown ending := by
    refine ⟨tallied.rows shown, fun x mem success r held => ?_⟩
    rcases tallied.stored shown x mem success r held with batched | stored
    · have empty : e.writeBatch = [] := tallied.flushed shown ending
      have batched : r ∈ e.writeBatch := batched
      simp [empty] at batched
    · exact stored

/-- A history of the thread engine in the condition keeps its requests and its records. -/
theorem execution_sound (s : Settings) (hosts : List String) (turns : List Turn)
    (ordered : Meets (Execution.step s collectThread) (.started (enumerated hosts))
      (Execution.Ordered s) turns) :
    (run (Execution.step s collectThread) (.started (enumerated hosts)) turns).Sound s hosts := by
  generalize whole : run (Execution.step s collectThread) (.started (enumerated hosts)) turns = e
  have kept : e.placing.Kept (enumerated hosts) ∧ e.tally.Kept s ∧ e.Finished := by
    rw [← whole]
    exact induct (I := fun _ e => e.placing.Kept (enumerated hosts) ∧ e.tally.Kept s ∧ e.Finished)
      ⟨started_placing _, started_tally s _, nofun⟩
      (fun _ turn ordered kept => ⟨step_placing kept.1 turn ordered, step_tally kept.2.1 turn ordered,
        step_finished kept.2.2 turn ordered⟩) turns ordered
  exact Execution.sound_of_kept kept.1 kept.2.1 kept.2.2

def smallSettings : Settings := ⟨32, by decide, false⟩

def oneSuccess : Completion := .returned ⟨some ⟨"r", "h"⟩, 0, none⟩

theorem execution_sound_completed :
    (run (Execution.step smallSettings collectThread) (.started (enumerated ["example.org"]))
      [.askPending .granted, .collect ⟨0, "example.org"⟩ oneSuccess .stored, .close .stored]).Sound
        smallSettings ["example.org"] := by
  refine execution_sound _ _ _ (meets_of_each ⟨fun _ => nofun, fun _ _ => ⟨_, rfl, ?_⟩, fun _ => ?_,
    trivial⟩)
  · exact fun other => absurd rfl other
  · exact fun other => absurd rfl other

/-- A run that is cancelled between a success and its flush, and loses the record. -/
theorem cancelled_loses_record :
    let e := run (Execution.step smallSettings collectThread)
      (.started (enumerated ["example.org", "example.org"]))
      [.askPending .granted, .collect ⟨0, "example.org"⟩ oneSuccess .stored, .cancel]
    e.status = .cancelled ∧ e.counters.successCount = 1 ∧ e.rows = [] ∧
      ¬ e.Sound smallSettings ["example.org", "example.org"] := by
  refine ⟨by decide, by decide, by decide, fun sound => ?_⟩
  obtain ⟨row, mem, -⟩ := (sound.stored rfl (by decide)).2
    (⟨0, "example.org"⟩, ⟨some ⟨"r", "h"⟩, 0, none⟩) (by decide) rfl _ rfl
  have none' : (run (Execution.step smallSettings collectThread)
      (.started (enumerated ["example.org", "example.org"]))
      [.askPending .granted, .collect ⟨0, "example.org"⟩ oneSuccess .stored, .cancel]).rows = [] := by
    decide
  rw [none'] at mem
  cases mem

end Arenyxa.Runs
