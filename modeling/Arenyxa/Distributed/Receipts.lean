import Arenyxa.Distributed.Runs

/-! The outcome of a terminal job and the receipt that a repeated completion finds. -/

namespace Arenyxa.Distributed

open Outcome QueueError

/-- The job with this key was submitted in the run. -/
def Submitted (ops : List Op) (id key : String) : Prop :=
  ∃ a, .enqueue a ∈ ops ∧ a.jobId = id ∧ strip a.idempotencyKey = key

/-- Every row and every fence belongs to a submission. -/
structure Drawn (ops : List Op) (q : Queue) : Prop where
  rows : ∀ id row, q.job? id = some row → Submitted ops id row.idempotencyKey
  fences : ∀ f ∈ q.fences.rows, Submitted ops f.jobId f.idempotencyKey

/-- What is left of the job tells of its completion under this receipt. -/
structure Settled (q : Queue) (id : String) (receipt : List String) : Prop where
  row : ∀ row, q.job? id = some row → row.state = .completed ∧ row.terminalReceipt = receipt
  fence : ∀ f ∈ q.fences.rows, f.jobId = id →
    f.terminalState = .completed ∧ f.terminalReceipt.items = receipt

section Fences

variable {sha : Sha256} {env : Env} {b : Backend} {q : Queue} {L L' : Ledger} {l : Label}
  {op : Op} {r : Result × Queue}

theorem Step.mem_fences (h : Step sha L l L') {f : Fence} (hf : f ∈ L'.queue.fences.rows) :
    f ∈ L.queue.fences.rows ∨ ∃ row, L'.queue.job? row.jobId = some row ∧
      f.idempotencyKey = row.idempotencyKey ∧ f.Seals row := by
  have at_key := Table.mem_rows_iff.mp hf
  cases h with
  | entered =>
    exact .inl (by simpa [Queue.insertRow] using hf)
  | moved found permitted known silent records agrees =>
    rename_i q o row mv entry
    cases entry with
    | none => exact .inl hf
    | some e =>
      have key : (q.enact sha mv row (some e)).fence? f.idempotencyKey = some f := at_key
      rw [Queue.enact, Queue.fence?_settle_some, Queue.fence?_sealRow] at key
      split at key
      next sealing =>
        refine .inr ⟨mv.apply sha row, ?_, sealing.2, ?_⟩
        · change (q.enact sha mv row (some e)).job? _ = _
          rw [Queue.job?_enact, Move.apply_jobId, if_pos rfl, found]
          rfl
        · have terminal := sealing.1
          have agrees := Queue.fenceAgrees_iff.mp (agrees terminal)
          rw [sealing.2] at key
          cases old : q.fence? row.idempotencyKey with
          | none =>
            simp only [Queue.fence?_updateJob, Move.apply_idempotencyKey, old, Option.map_none,
              Option.getD_none, Option.some.injEq] at key
            rw [← key]
            exact Fence.seals_fence _ _
          | some f' =>
            simp only [Queue.fence?_updateJob, Move.apply_idempotencyKey, old, Option.map_some,
              Option.getD_some, Option.some.injEq] at key
            rw [← key]
            exact Fence.seals_refresh ((agrees f' old).trans (by simp)) _
      next => exact .inl (Table.mem_rows_iff.mpr key)
  | fenced found terminal agrees =>
    rename_i q o row
    have key : (q.upsertFence (row.fence jsonDumps)).fence? f.idempotencyKey = some f := at_key
    rw [Queue.fence?_upsertFence] at key
    split at key
    next same =>
      refine .inr ⟨row, ?_, same, ?_⟩
      · simpa [Queue.job?] using found
      · rw [same] at key
        cases old : q.fence? row.idempotencyKey with
        | none =>
          simp only [Job.fence, old, Option.map_none, Option.getD_none, Option.some.injEq] at key
          rw [← key]
          exact Fence.seals_fence row (.kept .sqlite)
        | some f' =>
          simp only [Job.fence, old, Option.map_some, Option.getD_some, Option.some.injEq] at key
          rw [← key]
          exact Fence.seals_refresh (Queue.fenceAgrees_iff.mp agrees f' old) (.kept .sqlite)
    next => exact .inl (Table.mem_rows_iff.mpr key)
  | dropped => exact .inl (List.mem_of_mem_filter hf)
  | distrusted | enrolled | redeclared | reckoned | erased | flagged => exact .inl hf

theorem Submitted.snoc {ops : List Op} {id key : String} (h : Submitted ops id key) :
    Submitted (ops ++ [op]) id key := by
  obtain ⟨a, ha, rest⟩ := h
  exact ⟨a, List.mem_append_left _ ha, rest⟩

theorem Submitted.unique {ops : List Op} {id key key' : String} (fresh : FreshIds ops)
    (h : Submitted ops id key) (h' : Submitted ops id key') : key = key' := by
  obtain ⟨a, ha, named, rfl⟩ := h
  obtain ⟨a', ha', named', rfl⟩ := h'
  obtain ⟨rfl⟩ := fresh.eq_of_created ha ha' (congrArg some named) (congrArg some named')
  rfl

theorem Op.Emits.submission {row : Job} {e : Entry} (h : op.Emits env b q (.entered row e)) :
    ∃ a, op = .enqueue a ∧ row.jobId = a.jobId ∧ row.idempotencyKey = strip a.idempotencyKey := by
  cases op with
  | enqueue a =>
    obtain prunes | ⟨row', e', same, named, keyed⟩ := h
    · cases prunes
    · cases same
      exact ⟨a, rfl, named, keyed⟩
  | _ => simp [Emits, Label.Leases, Label.Recovers, Label.Surrenders, Label.Prunes] at h

theorem Drawn.snoc {ops : List Op} (h : Drawn ops q) : Drawn (ops ++ [op]) q :=
  ⟨fun id row found => (h.rows id row found).snoc, fun f hf => (h.fences f hf).snoc⟩

theorem Accounted.drawn {ops : List Op} (h : Accounted env b q op r) (drawn : Drawn ops q) :
    Drawn (ops ++ [op]) r.2 := by
  obtain ⟨ls, ⟨o, path, -⟩, account⟩ := h
  refine path.invariant (P := fun L => Drawn (ops ++ [op]) L.queue) ?_ drawn.snoc
  intro L l L' hl step drawn
  have rows : ∀ id row, L'.queue.job? id = some row →
      Submitted (ops ++ [op]) id row.idempotencyKey := by
    intro id row found
    have row_step := step.row id
    rw [found] at row_step
    generalize before : L.queue.job? id = old at row_step
    cases row_step with
    | entered named =>
      obtain ⟨a, rfl, name, key⟩ := (account.emits _ hl).submission
      exact ⟨a, List.mem_append_right _ List.mem_cons_self, name.symm.trans named, key.symm⟩
    | moved => simpa using drawn.rows id _ before
    | distrusted =>
      have submitted := drawn.rows id _ before
      exact submitted
    | other => exact drawn.rows id _ before
  refine ⟨rows, fun f hf => ?_⟩
  obtain old | ⟨row, found, key, seals⟩ := step.mem_fences hf
  · exact drawn.fences f old
  · have submitted := rows _ row found
    rw [key, show f.jobId = row.jobId from congrArg JobIdentity.jobId seals.1]
    exact submitted

theorem drawn_reached (env : Env) (b : Backend) (ops : List Op) :
    Drawn ops (Queue.reached env b ops) := by
  refine Machine.run_induct (M := queueMachine env b) (s := .empty) (P := Drawn) ?_ ?_ ?_ ops
  · exact ⟨by rintro id row ⟨⟩, by rintro f ⟨⟩⟩
  · exact fun ops op o q' drawn h => ((sound_reached env b ops).accounted h).drawn drawn
  · exact fun ops op e drawn _ => drawn.snoc

theorem Drawn.fence_key {ops : List Op} (h : Drawn ops q) (fresh : FreshIds ops) {f : Fence}
    (hf : f ∈ q.fences.rows) {key : String} (submitted : Submitted ops f.jobId key) :
    f.idempotencyKey = key :=
  (h.fences f hf).unique fresh submitted

end Fences

section Outcomes

variable {sha : Sha256} {env : Env} {b : Backend} {q : Queue} {L L' : Ledger} {l : Label}
  {op : Op} {r : Result × Queue} {id : String} {proof : List String} {c : LeaseCall}

theorem Accounted.frozen (h : Accounted env b q op r) {row : Job} (terminal : row.state.terminal)
    (uncreated : op.created? ≠ some id) (held : q.job? id = some row ∨ q.job? id = none) :
    r.2.job? id = some row ∨ r.2.job? id = none := by
  refine h.keep (P := fun o => o = some row ∨ o = none) ?_ held
  intro l o o' emits step hold
  cases step with
  | entered named => exact absurd (named ▸ emits.entered) uncreated
  | moved _ permitted =>
    obtain same | none := hold
    · obtain rfl := Option.some.inj same
      rw [permitted.not_terminal] at terminal
      cases terminal
    · cases none
  | distrusted active =>
    obtain same | none := hold
    · obtain rfl := Option.some.inj same
      rw [JobState.not_terminal_of_active active] at terminal
      cases terminal
    · cases none
  | erased => exact .inr rfl
  | other => exact hold

theorem frozen_run (env : Env) (b : Backend) {ops : List Op} (hs : Sound q.opened) {row : Job}
    (terminal : row.state.terminal) (uncreated : ∀ op ∈ ops, op.created? ≠ some id)
    (held : q.job? id = some row) :
    ((queueMachine env b).run q ops).job? id = some row ∨
      ((queueMachine env b).run q ops).job? id = none := by
  have kept : Sound ((queueMachine env b).run q ops).opened ∧
      (((queueMachine env b).run q ops).job? id = some row ∨
        ((queueMachine env b).run q ops).job? id = none) := by
    refine Machine.run_keep (P := fun q : Queue => Sound q.opened ∧
      (q.job? id = some row ∨ q.job? id = none)) ⟨hs, .inl held⟩ ?_
    rintro q op o q' commit h ⟨hs, held⟩
    exact ⟨hs.exec h, (hs.accounted h).frozen terminal
      (uncreated op (Machine.mem_of_mem_commits commit)) held⟩
  exact kept.2

theorem Accounted.settled (h : Accounted env b q op r) (uncreated : op.created? ≠ some id)
    (settled : Settled q id proof) : Settled r.2 id proof := by
  obtain ⟨ls, ⟨o, path, -⟩, account⟩ := h
  refine path.invariant (P := fun L => Settled L.queue id proof) ?_ settled
  intro L l L' hl step settled
  have rows : ∀ row, L'.queue.job? id = some row →
      row.state = .completed ∧ row.terminalReceipt = proof := by
    intro row found
    have row_step := step.row id
    rw [found] at row_step
    generalize before : L.queue.job? id = old at row_step
    cases row_step with
    | entered named => exact absurd (named ▸ (account.emits _ hl).entered) uncreated
    | moved _ permitted =>
      have live := permitted.not_terminal
      rw [(settled.row _ before).1] at live
      cases live
    | distrusted active =>
      rw [(settled.row _ before).1] at active
      cases active
    | other => exact settled.row row before
  refine ⟨rows, fun f hf named => ?_⟩
  obtain old | ⟨row, found, key, seals⟩ := step.mem_fences hf
  · exact settled.fence f old named
  · have name : row.jobId = id :=
      (congrArg JobIdentity.jobId seals.1).symm.trans named
    obtain ⟨completed, same⟩ := rows row (name ▸ found)
    exact ⟨seals.2.1.trans completed, seals.2.2.trans same⟩

theorem settled_run (env : Env) (b : Backend) {ops : List Op} (hs : Sound q.opened)
    (uncreated : ∀ op ∈ ops, op.created? ≠ some id) (settled : Settled q id proof) :
    Settled ((queueMachine env b).run q ops) id proof := by
  have kept : Sound ((queueMachine env b).run q ops).opened ∧
      Settled ((queueMachine env b).run q ops) id proof := by
    refine Machine.run_keep (P := fun q : Queue => Sound q.opened ∧ Settled q id proof)
      ⟨hs, settled⟩ ?_
    rintro q op o q' commit h ⟨hs, settled⟩
    exact ⟨hs.exec h, (hs.accounted h).settled
      (uncreated op (Machine.mem_of_mem_commits commit)) settled⟩
  exact kept.2

/-- The receipt a call presents. -/
def LeaseCall.receipt (env : Env) (c : LeaseCall) (result : JsonObject) : List String :=
  [c.workerId, env.sha.hexdigest c.leaseToken, env.sha.hexdigest result.canonical]

theorem Sound.replays_of_complete (hs : Sound q.opened) {fallback : Bool} {result : JsonObject}
    (h : (Op.complete fallback c result).exec env b q = .ok r) :
    Replays env r.2 c (env.sha.hexdigest result.canonical) := by
  obtain ⟨q', done, hr⟩ := bind_eq_ok.mp h
  cases hr
  have fresh : ∀ m, Completed env m c result.canonical (env.sha.hexdigest result.canonical) q q' →
      Replays env q' c (env.sha.hexdigest result.canonical) := by
    rintro m ⟨row, live, v, transaction⟩
    rw [Replays, (transaction.job?_worked [_] live.found).2]
    exact ⟨rfl, rfl⟩
  obtain ⟨rfl, replays⟩ | completed | ⟨-, -, completed, -⟩ := (complete_sat hs).of_ok done
  · exact replays
  · exact fresh _ completed
  · exact fresh _ completed

theorem Drawn.settled {ops : List Op} (drawn : Drawn ops q) (fresh : FreshIds ops)
    (hs : Sound q.opened) {result : JsonObject}
    (replays : Replays env q c (env.sha.hexdigest result.canonical)) :
    Settled q c.jobId (c.receipt env result) := by
  unfold Replays at replays
  cases found : q.job? c.jobId with
  | some row =>
    rw [found] at replays
    refine ⟨?_, fun f hf named => ?_⟩
    · rintro _ found'
      obtain rfl := Option.some.inj (found.symm.trans found')
      exact replays
    · have key := drawn.fence_key fresh hf (named ▸ drawn.rows _ row found)
      have sealed := hs.fences _ row found
      rw [Queue.Sealed, if_pos (by rw [replays.1]; rfl)] at sealed
      obtain ⟨f', fence, seals⟩ := sealed
      have at_key : q.fence? row.idempotencyKey = some f := key ▸ Table.mem_rows_iff.mp hf
      obtain rfl := Option.some.inj (at_key.symm.trans fence)
      exact ⟨seals.2.1.trans replays.1, seals.2.2.trans replays.2⟩
  | none =>
    rw [found] at replays
    obtain ⟨f, fence, completed, items⟩ := replays
    refine ⟨fun row found' => ?_, fun f' hf' named' => ?_⟩
    · rw [found] at found'
      cases found'
    · have hf := List.mem_of_find?_eq_some fence
      have named : f.jobId = c.jobId := by simpa using List.find?_some fence
      have key := drawn.fence_key fresh hf' (named'.trans named.symm ▸ drawn.fences f hf)
      have old : q.fence? f.idempotencyKey = some f := Table.mem_rows_iff.mp hf
      have new : q.fence? f'.idempotencyKey = some f' := Table.mem_rows_iff.mp hf'
      rw [key, old] at new
      obtain rfl := Option.some.inj new
      exact ⟨completed, items⟩

theorem Submitted.created {ops : List Op} {key : String} (h : Submitted ops id key) :
    id ∈ ops.filterMap Op.created? := by
  obtain ⟨a, ha, rfl, -⟩ := h
  exact List.mem_filterMap.mpr ⟨_, ha, rfl⟩

theorem Drawn.created {ops : List Op} (drawn : Drawn ops q) {resultSha : String}
    (replays : Replays env q c resultSha) : c.jobId ∈ ops.filterMap Op.created? := by
  unfold Replays at replays
  split at replays
  next row found => exact (drawn.rows _ row found).created
  next =>
    obtain ⟨f, fence, -⟩ := replays
    have named : f.jobId = c.jobId := by simpa using List.find?_some fence
    exact named ▸ (drawn.fences f (List.mem_of_find?_eq_some fence)).created

theorem complete_bounded {fallback : Bool} {result : JsonObject}
    (h : (Op.complete fallback c result).exec env b q = .ok r) :
    result.canonical.utf8ByteSize ≤ maxResultBytes := by
  by_contra big
  simp [Op.exec, silently, Queue.complete, boundedJson, require, big, bind, Except.bind] at h

theorem allCompareDigest_self {items : List String} (plain : ∀ s ∈ items, isAscii s) :
    allCompareDigest (items.zip items) = .ok true := by
  induction items with
  | nil => rfl
  | cons s items ih =>
    have here := plain s List.mem_cons_self
    rw [List.zip_cons_cons, allCompareDigest, compareDigest_of_ascii here here, beq_self_eq_true]
    exact ih fun s hs => plain s (List.mem_cons_of_mem _ hs)

theorem Settled.replay {c' : LeaseCall} {result : JsonObject} {fallback : Bool}
    (settled : Settled q c.jobId (c.receipt env result)) (job : c'.jobId = c.jobId)
    (worker : c'.workerId = c.workerId) (token : c'.leaseToken = c.leaseToken)
    (bounded : result.canonical.utf8ByteSize ≤ maxResultBytes)
    (retained : (q.job? c.jobId).isSome ∨ (q.fenceForJob? c.jobId).isSome) :
    (Op.complete fallback c' result).exec env b q = .ok (.unit, q) ↔
      (q.job? c.jobId).isSome ∨ isAscii c.workerId := by
  have digest := env.sha.isAscii_hexdigest
  have json : boundedJson env.sha result maxResultBytes "job result" =
      .ok (result.canonical, env.sha.hexdigest result.canonical) := by
    simp [boundedJson, require, bounded, bind, Except.bind, pure, Except.pure]
  have idle : q.completeFast env c' result.canonical (env.sha.hexdigest result.canonical) = none := by
    unfold Queue.completeFast
    rw [job]
    split
    · rfl
    next row found =>
      rw [if_neg]
      rintro ⟨active, -⟩
      rw [(settled.row row found).1] at active
      cases active
  have portable : (Op.complete fallback c' result).exec env b q =
      silently (q.completePortable env b c' result.canonical
        (env.sha.hexdigest result.canonical)) := by
    simp only [Op.exec, Queue.complete, json, idle, bind, Except.bind, ite_self]
  rw [portable, Queue.completePortable, job, worker, token]
  cases found : q.job? c.jobId with
  | some row =>
    obtain ⟨completed, receipt⟩ := settled.row row found
    simp only [Job.terminalReceipt, LeaseCall.receipt, List.cons.injEq, and_true] at receipt
    obtain ⟨owner, tokenSha, resultSha⟩ := receipt
    have same := @allCompareDigest_self
      [env.sha.hexdigest c.leaseToken, env.sha.hexdigest result.canonical] (by simp [digest])
    simp only [List.zip_cons_cons, List.zip_nil_right] at same
    simp [completed, Queue.replayCompleted, rowReceiptMatches, owner, worker, tokenSha, resultSha,
      same, require, silently, bind, Except.bind, pure, Except.pure]
  | none =>
    rw [found] at retained
    obtain ⟨f, fence⟩ := Option.isSome_iff_exists.mp (retained.resolve_left (by simp))
    have named : f.jobId = c.jobId := by simpa using List.find?_some fence
    obtain ⟨completed, items⟩ := settled.fence f (List.mem_of_find?_eq_some fence) named
    simp only [Queue.replayPruned, job, fence, completed, fenceReceiptMatches, items, worker,
      LeaseCall.receipt, List.length_cons, List.length_nil, if_true]
    by_cases ascii : isAscii c.workerId
    · have same := @allCompareDigest_self [c.workerId, env.sha.hexdigest c.leaseToken,
        env.sha.hexdigest result.canonical] (by simp [ascii, digest])
      simp only [List.zip_cons_cons, List.zip_nil_right] at same
      simp [same, ascii, require, silently, bind, Except.bind, pure, Except.pure]
    · simp [allCompareDigest, compareDigest, require, ascii, silently, bind, Except.bind]

theorem Settled.refuses {c' : LeaseCall} {result result' : JsonObject} {fallback : Bool}
    (hs : Sound q.opened) (settled : Settled q c.jobId (c.receipt env result))
    (job : c'.jobId = c.jobId) (differs : c'.receipt env result' ≠ c.receipt env result) :
    ∃ e, (Op.complete fallback c' result').exec env b q = .error e := by
  cases h : (Op.complete fallback c' result').exec env b q with
  | error e => exact ⟨e, rfl⟩
  | ok r =>
    obtain ⟨q', done, hr⟩ := bind_eq_ok.mp h
    have dead : ∀ row, ¬LeaseLive env q c' row := fun row live => by
      have active := live.active
      rw [(settled.row row (job ▸ live.found)).1] at active
      cases active
    obtain ⟨-, replays⟩ | ⟨row, live, -⟩ | ⟨-, -, ⟨row, live, -⟩, -⟩ := (complete_sat hs).of_ok done
    · unfold Replays at replays
      rw [job] at replays
      split at replays
      next row found => exact absurd (replays.2.symm.trans (settled.row row found).2) differs
      next found =>
        obtain ⟨f, fence, -, items⟩ := replays
        have named : f.jobId = c.jobId := by simpa using List.find?_some fence
        exact absurd (items.symm.trans
          (settled.fence f (List.mem_of_find?_eq_some fence) named).2) differs
    · exact absurd live (dead row)
    · exact absurd live (dead row)

end Outcomes

/-- A terminal row is final until it is pruned. After a completion, the same completion is
answered from the row, or from the fence where the worker id is ASCII text; any other one is
refused. -/
theorem terminal_receipt_replays_iff (env : Env) (b : Backend) (ops : List Op)
    (fresh : FreshIds ops) :
    (∀ before after id row row', ops = before ++ after →
      (Queue.reached env b before).job? id = some row → row.state.terminal →
      (Queue.reached env b ops).job? id = some row' → row' = row) ∧
    ∀ before fallback c result after r, ops = before ++ .complete fallback c result :: after →
      (Op.complete fallback c result).exec env b (Queue.reached env b before) = .ok r →
      (∀ fallback' c', c'.jobId = c.jobId → c'.workerId = c.workerId →
        c'.leaseToken = c.leaseToken →
        ((Queue.reached env b ops).job? c.jobId).isSome ∨
          ((Queue.reached env b ops).fenceForJob? c.jobId).isSome →
        ((Op.complete fallback' c' result).exec env b (Queue.reached env b ops) =
            .ok (.unit, Queue.reached env b ops) ↔
          ((Queue.reached env b ops).job? c.jobId).isSome ∨ isAscii c.workerId)) ∧
      ∀ fallback' c' result', c'.jobId = c.jobId →
        (env.sha.hexdigest c'.leaseToken = env.sha.hexdigest c.leaseToken →
          c'.leaseToken = c.leaseToken) →
        (env.sha.hexdigest result'.canonical = env.sha.hexdigest result.canonical →
          result' = result) →
        (c'.workerId ≠ c.workerId ∨ c'.leaseToken ≠ c.leaseToken ∨ result' ≠ result) →
        (∃ e, (Op.complete fallback' c' result').exec env b (Queue.reached env b ops) = .error e) ∧
          (queueMachine env b).next (Queue.reached env b ops) (.complete fallback' c' result') =
            Queue.reached env b ops := by
  refine ⟨?_, ?_⟩
  · rintro before after id row row' rfl found terminal found'
    have drawn : id ∈ before.filterMap Op.created? :=
      mem_created_of_job? (Option.isSome_iff_exists.mpr ⟨row, found⟩)
    have reach : (queueMachine env b).run (Queue.reached env b before) after =
        Queue.reached env b (before ++ after) := (Machine.run_append _ _ _).symm
    have frozen := frozen_run env b (sound_reached env b before) terminal
      (fun op hop => fresh.not_created drawn hop) found
    rw [reach, found'] at frozen
    exact Option.some.inj (frozen.resolve_right (by simp))
  · rintro before fallback c result after r rfl h
    have hs := sound_reached env b before
    have next : (queueMachine env b).run r.2 after =
        Queue.reached env b (before ++ .complete fallback c result :: after) := by
      have step : (queueMachine env b).next ((queueMachine env b).run .empty before)
          (.complete fallback c result) = r.2 := Machine.next_ok h
      rw [Queue.reached, Machine.run_append, Machine.run_cons, step]
    have reach : Queue.reached env b (before ++ [Op.complete fallback c result]) = r.2 :=
      Machine.run_snoc_ok h
    rw [List.append_cons] at fresh
    have drawn : Drawn (before ++ [Op.complete fallback c result]) r.2 :=
      reach ▸ drawn_reached env b _
    have replays := hs.replays_of_complete h
    have settled := drawn.settled fresh.left (hs.exec h) replays
    have created := drawn.created replays
    have settled := settled_run env b (hs.exec h)
      (fun op hop => fresh.not_created created hop) settled
    rw [next] at settled
    have bounded := complete_bounded h
    refine ⟨?_, ?_⟩
    · intro fallback' c' job worker token retained
      exact settled.replay job worker token bounded retained
    · intro fallback' c' result' job tokens results differs
      have other : c'.receipt env result' ≠ c.receipt env result := by
        simp only [LeaseCall.receipt, ne_eq, List.cons.injEq, and_true, not_and]
        intro worker token same
        exact differs.elim (fun h => h worker) fun h =>
          h.elim (fun h => h (tokens token)) fun h => h (results same)
      obtain ⟨e, raised⟩ := @Settled.refuses env b _ c c' result result' fallback'
        (sound_reached env b _) settled job other
      exact ⟨⟨e, raised⟩, Machine.next_error raised⟩

/-- A worker with an umlaut in its name completes a job whose row is then pruned. -/
def prunedReceipt : List Op :=
  [.backfillTerminalFences, sampleWorker "wörker" 1, sampleJob "job" "key" "idempotent",
    sampleLease "wörker" "token-a", .complete false (sampleCall "job" "wörker" "token-a") ⟨"{}"⟩,
    .retainTerminalJobs 0 100]

/-- Its retried completion raises a `TypeError`, although the fence is there. -/
theorem receipt_lost :
    ((Op.complete false (sampleCall "job" "wörker" "token-a") ⟨"{}"⟩).exec sampleEnv .sqlite
        (Queue.reached sampleEnv .sqlite (prunedReceipt.take 4))).toBool = true ∧
      ((Queue.reached sampleEnv .sqlite prunedReceipt).fenceForJob? "job").isSome ∧
      ((Op.complete false (sampleCall "job" "wörker" "token-a") ⟨"{}"⟩).exec sampleEnv .sqlite
        (Queue.reached sampleEnv .sqlite prunedReceipt)).toBool = false := by
  decide +kernel

/-- The same with a name in ASCII. -/
theorem terminal_receipt_replays_iff_sample :
    (Op.complete false (sampleCall "job" "worker" "token-a") ⟨"{}"⟩).exec sampleEnv .sqlite
        (Queue.reached sampleEnv .sqlite [sampleWorker "worker" 1, sampleJob "job" "key" "idempotent",
          sampleLease "worker" "token-a", .complete false (sampleCall "job" "worker" "token-a") ⟨"{}"⟩]) =
      .ok (.unit, Queue.reached sampleEnv .sqlite [sampleWorker "worker" 1,
        sampleJob "job" "key" "idempotent", sampleLease "worker" "token-a",
        .complete false (sampleCall "job" "worker" "token-a") ⟨"{}"⟩]) := by
  have committed : ((Op.complete false (sampleCall "job" "worker" "token-a") ⟨"{}"⟩).exec sampleEnv
      .sqlite (Queue.reached sampleEnv .sqlite [sampleWorker "worker" 1,
        sampleJob "job" "key" "idempotent", sampleLease "worker" "token-a"])).toBool := by
    decide +kernel
  cases h : (Op.complete false (sampleCall "job" "worker" "token-a") ⟨"{}"⟩).exec sampleEnv
      .sqlite (Queue.reached sampleEnv .sqlite [sampleWorker "worker" 1,
        sampleJob "job" "key" "idempotent", sampleLease "worker" "token-a"]) with
  | error e =>
    rw [h] at committed
    cases committed
  | ok r =>
    exact (((terminal_receipt_replays_iff sampleEnv .sqlite _ (by decide)).2
      [sampleWorker "worker" 1, sampleJob "job" "key" "idempotent", sampleLease "worker" "token-a"]
      false _ _ [] r rfl h).1 false _ rfl rfl rfl (.inl (by decide +kernel))).mpr
        (.inr (by decide))

end Arenyxa.Distributed
