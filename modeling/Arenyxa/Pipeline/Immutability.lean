import Arenyxa.Pipeline.Store

/-! Ready revisions never change, and the current revision of a dataset is a ready one of its
own. -/

namespace Arenyxa.Pipeline

open Outcome Table

variable {ρ : Type u} {codec : Codec ρ} {s s' : Store}

/-- The row of `id`, if it is ready, outlives the step. -/
def Keeps (s s' : Store) : Prop :=
  ∀ id r, s.revisions.get? id = some r → r.buildState = .ready → s'.revisions.get? id = some r

/-- Every dataset that shows a revision shows a ready one of its own. -/
def Store.Shown (s : Store) : Prop :=
  ∀ id d current, s.datasets.get? id = some d → d.currentRevisionId = some current →
    ∃ r, s.revisions.get? current = some r ∧ r.datasetId = id ∧ r.buildState = .ready

theorem Keeps.shown (keeps : Keeps s s') (same : s'.datasets = s.datasets) (shown : s.Shown) :
    s'.Shown := by
  intro id d current here names
  rw [same] at here
  obtain ⟨r, found, own, ready⟩ := shown id d current here names
  exact ⟨r, keeps current r found ready, own, ready⟩

section Steps

theorem keeps_of_same (same : s'.revisions = s.revisions) : Keeps s s' :=
  fun _ _ here _ => same ▸ here

theorem keeps_insertRevision {r : Revision} (h : insertRevision s r = .ok s') :
    Keeps s s' ∧ s'.datasets = s.datasets := by
  obtain ⟨_, fresh, h⟩ := bind_eq_ok.mp h
  cases h
  rw [require_eq_ok] at fresh
  refine ⟨fun id old here _ => ?_, rfl⟩
  show (s.revisions.insert r).get? id = some old
  rw [get?_insert fresh, if_neg, here]
  rintro rfl
  exact nomatch fresh.symm.trans here

theorem keeps_updateRevision {id : String} {r : Revision} {f : Revision → Revision}
    (hf : ∀ r, Keyed.key (f r) = Keyed.key r) (here : s.revisions.get? id = some r)
    (unready : r.buildState ≠ .ready) : Keeps s (updateRevision s id f hf) := by
  intro other old found ready
  show (s.revisions.modify id f hf).get? other = some old
  rw [get?_modify_ne, found]
  rintro rfl
  exact unready (Option.some.inj (here.symm.trans found) ▸ ready)

theorem revision_eq_ok {id : String} {r : Revision} :
    revision s id = .ok r ↔ s.revisions.get? id = some r := by
  rw [revision]
  cases s.revisions.get? id with
  | none => simp
  | some x => simp

theorem BuildState.ne_ready_of_open {b : BuildState} (h : b = .building ∨ b = .interrupted) :
    b ≠ .ready := by
  rcases h with rfl | rfl
  · exact nofun
  · exact nofun

theorem keeps_saveRevision {new : DatasetRevision ρ} (h : saveRevision codec new s = .ok s') :
    Keeps s s' ∧ s'.datasets = s.datasets := by
  obtain ⟨_, -, h⟩ := bind_eq_ok.mp h
  obtain ⟨_, -, h⟩ := bind_eq_ok.mp h
  exact keeps_insertRevision h

theorem keeps_beginRevisionBuild {new : DatasetRevision ρ}
    (h : beginRevisionBuild codec new s = .ok s') : Keeps s s' ∧ s'.datasets = s.datasets := by
  obtain ⟨_, -, h⟩ := bind_eq_ok.mp h
  exact keeps_insertRevision h

theorem keeps_appendRevisionRecords {id : String} {records : List (String × ρ)} {replace : Bool}
    {batchSize : Int} {n : Nat}
    (h : appendRevisionRecords codec id records replace batchSize s = .ok (n, s')) :
    Keeps s s' ∧ s'.datasets = s.datasets := by
  obtain ⟨_, -, h⟩ := bind_eq_ok.mp h
  obtain ⟨r, here, h⟩ := bind_eq_ok.mp h
  obtain ⟨_, unready, h⟩ := bind_eq_ok.mp h
  obtain ⟨_, -, h⟩ := bind_eq_ok.mp h
  cases h
  exact ⟨keeps_updateRevision (Revision.key_withRecords _) (revision_eq_ok.1 here)
    (BuildState.ne_ready_of_open (require_eq_ok.mp unready)), rfl⟩

theorem keeps_setRevisionBuildState {id : String} {state : BuildState}
    (h : setRevisionBuildState id state s = .ok s') : Keeps s s' ∧ s'.datasets = s.datasets := by
  obtain ⟨_, -, h⟩ := bind_eq_ok.mp h
  cases here : s.revisions.get? id with
  | none =>
    rw [here] at h
    cases h
  | some r =>
    rw [here] at h
    obtain ⟨_, unready, h⟩ := bind_eq_ok.mp h
    cases h
    exact ⟨keeps_updateRevision (Revision.key_setState _) here (require_eq_ok.mp unready), rfl⟩

theorem keeps_claimWorkflowExecutionForResume {id : String} {won : Bool}
    (h : claimWorkflowExecutionForResume id s = .ok (won, s')) :
    Keeps s s' ∧ s'.datasets = s.datasets := by
  rw [claimWorkflowExecutionForResume] at h
  cases claimed : s.executions.get? id with
  | none =>
    rw [claimed] at h
    cases h
  | some e =>
    simp only [claimed] at h
    by_cases resumable : e.state = .interrupted ∨ e.state = .cancelled
    · rw [if_pos resumable] at h
      cases here : s.revisions.get? e.outputRevisionId with
      | none =>
        rw [here] at h
        cases h
      | some r =>
        rw [here] at h
        obtain ⟨_, unready, h⟩ := bind_eq_ok.mp h
        cases h
        exact ⟨keeps_updateRevision (Revision.key_setState _) here (require_eq_ok.mp unready), rfl⟩
    · rw [if_neg resumable] at h
      cases h
      exact ⟨keeps_of_same rfl, rfl⟩

theorem keeps_recoverInterruptedPipelineState (s : Store) :
    Keeps s (recoverInterruptedPipelineState s) := by
  intro id r here ready
  refine (@get?_updateWhere _ _ _ _ s.revisions _ _ (Revision.key_setState _) id).trans ?_
  rw [here, Option.map_some, ready]
  rfl

theorem finalizeRevisionBuild_spec {id name : String} {schema : ρ} {projectId : Option String}
    {n : Nat} (h : finalizeRevisionBuild codec id schema name projectId s = .ok (n, s')) :
    Keeps s s' ∧ ∃ r r', s.revisions.get? id = some r ∧ s'.revisions.get? id = some r' ∧
      r'.datasetId = r.datasetId ∧ r'.buildState = .ready ∧
      s'.datasets = upsertCurrent s.datasets r.datasetId name projectId id := by
  obtain ⟨r, here, h⟩ := bind_eq_ok.mp h
  obtain ⟨_, unready, h⟩ := bind_eq_ok.mp h
  obtain ⟨text, -, h⟩ := bind_eq_ok.mp h
  cases h
  rw [revision_eq_ok] at here
  refine ⟨keeps_updateRevision (Revision.key_finalized text) here
    (BuildState.ne_ready_of_open (require_eq_ok.mp unready)), r, r.finalized text, here, ?_, rfl, rfl,
    rfl⟩
  refine (@get?_modify_self _ _ _ _ s.revisions id _ (Revision.key_finalized text)).trans ?_
  rw [here]
  rfl

theorem get?_upsertCurrent {t : Table Dataset} {id name current other : String}
    {projectId : Option String} {d : Dataset}
    (h : (upsertCurrent t id name projectId current).get? other = some d) :
    (other = id ∧ d.currentRevisionId = some current) ∨ t.get? other = some d := by
  rw [upsertCurrent] at h
  by_cases fresh : t.get? id = none
  · rw [if_pos fresh, get?_insert fresh] at h
    change (if other = id then _ else _) = _ at h
    by_cases same : other = id
    · rw [if_pos same] at h
      cases h
      exact .inl ⟨same, rfl⟩
    · rw [if_neg same] at h
      exact .inr h
  · rw [if_neg fresh, get?_modify] at h
    by_cases same : other = id
    · rw [if_pos same] at h
      obtain ⟨old, -, rfl⟩ := Option.map_eq_some_iff.mp h
      exact .inl ⟨same, rfl⟩
    · rw [if_neg same] at h
      exact .inr h

theorem shown_finalizeRevisionBuild {id name : String} {schema : ρ} {projectId : Option String}
    {n : Nat} (h : finalizeRevisionBuild codec id schema name projectId s = .ok (n, s'))
    (shown : s.Shown) : s'.Shown := by
  obtain ⟨keeps, r, r', -, found, own, ready, datasets⟩ := finalizeRevisionBuild_spec h
  intro other d current here names
  rw [datasets] at here
  rcases get?_upsertCurrent here with ⟨rfl, now⟩ | before
  · cases now.symm.trans names
    exact ⟨r', found, own, ready⟩
  · obtain ⟨old, there, same, finished⟩ := shown other d current before names
    exact ⟨old, keeps current old there finished, same, finished⟩

theorem exec_keeps {op : Op ρ} {reply : Reply} (h : op.exec codec s = .ok (reply, s')) :
    Keeps s s' ∧ (s.Shown → s'.Shown) := by
  cases op with
  | saveRevision new =>
    obtain ⟨t, done, h⟩ := bind_eq_ok.mp h
    cases h
    obtain ⟨keeps, same⟩ := keeps_saveRevision done
    exact ⟨keeps, keeps.shown same⟩
  | beginRevisionBuild new =>
    obtain ⟨t, done, h⟩ := bind_eq_ok.mp h
    cases h
    obtain ⟨keeps, same⟩ := keeps_beginRevisionBuild done
    exact ⟨keeps, keeps.shown same⟩
  | appendRevisionRecords id records replace batchSize =>
    obtain ⟨t, done, h⟩ := bind_eq_ok.mp h
    cases h
    obtain ⟨keeps, same⟩ := keeps_appendRevisionRecords done
    exact ⟨keeps, keeps.shown same⟩
  | setRevisionBuildState id state =>
    obtain ⟨t, done, h⟩ := bind_eq_ok.mp h
    cases h
    obtain ⟨keeps, same⟩ := keeps_setRevisionBuildState done
    exact ⟨keeps, keeps.shown same⟩
  | finalizeRevisionBuild id schema name projectId =>
    obtain ⟨t, done, h⟩ := bind_eq_ok.mp h
    cases h
    exact ⟨(finalizeRevisionBuild_spec done).1, shown_finalizeRevisionBuild done⟩
  | beginWorkflowExecution e =>
    obtain ⟨t, done, h⟩ := bind_eq_ok.mp h
    cases h
    obtain ⟨_, -, done⟩ := bind_eq_ok.mp done
    cases done
    exact ⟨keeps_of_same rfl, (keeps_of_same rfl).shown rfl⟩
  | finishWorkflowExecution id state =>
    obtain ⟨t, done, h⟩ := bind_eq_ok.mp h
    cases h
    obtain ⟨_, -, done⟩ := bind_eq_ok.mp done
    obtain ⟨_, -, done⟩ := bind_eq_ok.mp done
    cases done
    exact ⟨keeps_of_same rfl, (keeps_of_same rfl).shown rfl⟩
  | claimWorkflowExecutionForResume id =>
    obtain ⟨t, done, h⟩ := bind_eq_ok.mp h
    cases h
    obtain ⟨keeps, same⟩ := keeps_claimWorkflowExecutionForResume done
    exact ⟨keeps, keeps.shown same⟩
  | recoverInterruptedPipelineState =>
    cases h
    have keeps := keeps_recoverInterruptedPipelineState s
    exact ⟨keeps, keeps.shown rfl⟩

end Steps

section Runs

variable (codec)

theorem keeps_run (s : Store) (ops : List (Op ρ)) : Keeps s ((store codec).run s ops) :=
  fun id r here ready => Machine.run_invariant (P := fun t : Store => t.revisions.get? id = some r) here
    (fun _ _ _ _ found h => (exec_keeps h).1 id r found ready) ops

theorem shown_run (ops : List (Op ρ)) : ((store codec).run .empty ops).Shown :=
  Machine.run_invariant (P := Store.Shown) (fun id d _ here => by cases here)
    (fun _ _ _ _ shown h => (exec_keeps h).2 shown) ops

/-- In every reachable store the row of a ready revision, its records, schema and state, stays
as it is through any further calls, and what a dataset shows is a ready revision of its own. -/
theorem ready_revision_immutable (ops later : List (Op ρ)) :
    (∀ id r, ((store codec).run .empty ops).revisions.get? id = some r → r.buildState = .ready →
      ((store codec).run .empty (ops ++ later)).revisions.get? id = some r) ∧
    (∀ id d current, ((store codec).run .empty ops).datasets.get? id = some d →
      d.currentRevisionId = some current →
      ∃ r, ((store codec).run .empty ops).revisions.get? current = some r ∧ r.datasetId = id ∧
        r.buildState = .ready) := by
  refine ⟨fun id r here ready => ?_, shown_run codec ops⟩
  rw [Machine.run_append]
  exact keeps_run codec _ later id r here ready

end Runs

end Arenyxa.Pipeline
