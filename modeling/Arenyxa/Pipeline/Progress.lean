import Arenyxa.Lib.Cursor
import Arenyxa.Pipeline.Runtime
import Mathlib.Algebra.BigOperators.Group.List.Basic
import Mathlib.Algebra.Group.Pi.Basic
import Mathlib.Algebra.Group.Prod

/-! How far a run has come: what its durable rows and its pending buffers count, measured by the
workflow on the records that the cursor has passed. -/

namespace Arenyxa.Pipeline

open Lib

variable {rt : Runtime} {source : List (String × Record)}

/-- Processed inputs, staged outputs, errors, and the counts of each node. -/
abbrev Tally := Nat × Nat × Nat × (String → NodeCounts)

def Rows.tally (rows : Rows) : Tally :=
  (rows.processed, rows.staged, rows.errors, fun node => (rows.nodes node).1)

def Memory.tally (m : Memory) : Tally :=
  (m.processed, m.outputs.length, m.errors, fun node => ((m.deltas node).map Prod.fst).getD 0)

/-- What one record contributes. -/
def contribution (rt : Runtime) (record : Record) : Tally :=
  let result := rt.execute record
  (1, result.outputs.length, result.errors,
    fun node => ((result.nodes node).map NodeMetrics.counts).getD 0)

def total (rt : Runtime) (records : List (String × Record)) : Tally :=
  (records.map fun record => contribution rt record.2).sum

theorem total_append (records records' : List (String × Record)) :
    total rt (records ++ records') = total rt records + total rt records' := by
  rw [total, List.map_append, List.sum_append, total, total]

theorem total_processed (records : List (String × Record)) :
    (total rt records).1 = records.length := by
  induction records with
  | nil => rfl
  | cons record records ih =>
    have split : total rt (record :: records) = contribution rt record.2 + total rt records := rfl
    rw [split, List.length_cons, ← ih]
    exact Nat.add_comm 1 _

section Records

variable {m : Memory} {identity : String}

/-- The outputs of a record pass the checks of the loop, with so many observed before. -/
def Fits (rt : Runtime) (observed : Nat) (outputs : List Record) : Prop :=
  (outputs = [] ∨ observed + outputs.length ≤ rt.outputCap) ∧
    ∀ output ∈ outputs, ∃ size, rt.encodedSize output = some size ∧ size ≤ rt.maxPendingOutputBytes

def stagedOutputs (rt : Runtime) (identity : String) : List Record → Nat → List (String × Record)
  | [], _ => []
  | output :: rest, ordinal =>
    (outputIdentity rt identity ordinal, output) :: stagedOutputs rt identity rest (ordinal + 1)

@[simp] theorem stagedOutputs_length (outputs : List Record) (ordinal : Nat) :
    (stagedOutputs rt identity outputs ordinal).length = outputs.length := by
  induction outputs generalizing ordinal with
  | nil => rfl
  | cons output rest ih => exact congrArg (· + 1) (ih (ordinal + 1))

theorem stageOutputs_complete_iff (outputs : List Record) (ordinal : Nat) (m : Memory) :
    (stageOutputs rt identity outputs ordinal m).2 = true ↔ Fits rt m.observed outputs := by
  induction outputs generalizing m ordinal with
  | nil => simp [stageOutputs, Fits]
  | cons output rest ih =>
    rw [stageOutputs]
    simp only
    split
    next full => simp only [Fits, List.length_cons]; simp; omega
    next room =>
      split
      next failed => simp [Fits, failed]
      next size encoded =>
        split
        next large => simp [Fits, encoded, large]
        next small =>
          rw [ih]
          simp only [Fits, List.length_cons, List.forall_mem_cons, encoded, reduceCtorEq, false_or,
            Option.some.injEq, exists_eq_left', Nat.not_lt.mp small, true_and]
          refine and_congr_left fun _ => ⟨?_, fun fits => .inr (by omega)⟩
          rintro (rfl | fits)
          · exact Nat.not_lt.mp room
          · omega

theorem stageOutputs_done {outputs : List Record} {ordinal : Nat} {m' : Memory}
    (h : stageOutputs rt identity outputs ordinal m = (m', true)) :
    ∃ bytes, m' =
      { m with
        observed := m.observed + outputs.length
        schema := m.schema.observeAll outputs
        outputs := m.outputs ++ stagedOutputs rt identity outputs ordinal
        bytes := bytes } := by
  induction outputs generalizing m ordinal with
  | nil =>
    cases h
    exact ⟨m'.bytes, by simp [stagedOutputs, Schema.observeAll]⟩
  | cons output rest ih =>
    rw [stageOutputs] at h
    simp only at h
    split at h
    next => cases h
    next =>
      split at h
      next => cases h
      next size _ =>
        split at h
        next => cases h
        next =>
          obtain ⟨bytes, done⟩ := ih h
          refine ⟨bytes, ?_⟩
          simp [done, stagedOutputs, Schema.observeAll, Nat.add_assoc, Nat.add_comm 1]

theorem stageOutputs_cursor (outputs : List Record) (ordinal : Nat) (m : Memory) :
    (stageOutputs rt identity outputs ordinal m).1.processed = m.processed ∧
      (stageOutputs rt identity outputs ordinal m).1.last = m.last := by
  induction outputs generalizing m ordinal with
  | nil => exact ⟨rfl, rfl⟩
  | cons output rest ih =>
    rw [stageOutputs]
    simp only
    split
    next => exact ⟨rfl, rfl⟩
    next =>
      split
      next => exact ⟨rfl, rfl⟩
      next size _ =>
        split
        next => exact ⟨rfl, rfl⟩
        next => exact ih _ _

theorem takeRecord_complete_iff (result : WorkflowResult) (m : Memory) :
    (takeRecord rt identity result m).2 = true ↔ Fits rt m.observed result.outputs := by
  have staged := @stageOutputs_complete_iff rt identity result.outputs 0
    { m with
      deltas := mergeNodeMetrics m.deltas result.nodes
      errors := m.errors + result.errors }
  rw [← staged, takeRecord.eq_def]
  simp only
  split
  next failed => simp [failed]
  next taken => simp [taken]

theorem takeRecord_done {result : WorkflowResult} {m' : Memory}
    (h : takeRecord rt identity result m = (m', true)) :
    ∃ bytes, m' =
      { m with
        deltas := mergeNodeMetrics m.deltas result.nodes
        errors := m.errors + result.errors
        observed := m.observed + result.outputs.length
        schema := m.schema.observeAll result.outputs
        outputs := m.outputs ++ stagedOutputs rt identity result.outputs 0
        bytes := bytes
        processed := m.processed + 1
        last := identity } := by
  rw [takeRecord.eq_def] at h
  simp only at h
  split at h
  next => cases h
  next staged taken =>
    obtain ⟨bytes, done⟩ := stageOutputs_done taken
    cases h
    exact ⟨bytes, by rw [done]⟩

theorem takeRecord_fails {result : WorkflowResult} {m' : Memory}
    (h : takeRecord rt identity result m = (m', false)) :
    m'.processed = m.processed ∧ m'.last = m.last := by
  rw [takeRecord.eq_def] at h
  simp only at h
  split at h
  next staged failed =>
    cases h
    have cursor := @stageOutputs_cursor rt identity result.outputs 0
      { m with
        deltas := mergeNodeMetrics m.deltas result.nodes
        errors := m.errors + result.errors }
    rwa [failed] at cursor
  next => cases h

theorem mergeNodeMetrics_counts (deltas : NodeDeltas) (nodes : String → Option NodeMetrics)
    (node : String) :
    ((mergeNodeMetrics deltas nodes node).map Prod.fst).getD 0 =
      ((deltas node).map Prod.fst).getD 0 + ((nodes node).map NodeMetrics.counts).getD 0 := by
  rw [mergeNodeMetrics]
  cases nodes node with
  | none => exact (add_zero _).symm
  | some metrics =>
    cases deltas node with
    | none => rfl
    | some delta => rfl

theorem takeRecord_tally {record : Record} {m' : Memory}
    (h : takeRecord rt identity (rt.execute record) m = (m', true)) :
    m'.tally = m.tally + contribution rt record := by
  obtain ⟨bytes, rfl⟩ := takeRecord_done h
  refine Prod.ext rfl (Prod.ext ?_ (Prod.ext rfl ?_))
  · simp [Memory.tally, contribution]
  · exact funext fun node => mergeNodeMetrics_counts _ _ node

end Records

theorem checkpointed_tally {rows rows' : Rows} {m : Memory} {checkpoint : Checkpoint}
    (h : rows.checkpointed m checkpoint = some rows') :
    rows'.tally = rows.tally + m.tally ∧ rows'.lastInput = m.last ∧
      rows'.checkpoint = some checkpoint := by
  rw [Rows.checkpointed] at h
  split at h
  next =>
    cases h
    refine ⟨Prod.ext rfl (Prod.ext rfl (Prod.ext rfl (funext fun node => ?_))), rfl, rfl⟩
    simp only [Rows.tally, Memory.tally, upsertNodes, Prod.snd_add, Pi.add_apply]
    cases m.deltas node with
    | none => exact (add_zero _).symm
    | some delta => rfl
  next => cases h

end Arenyxa.Pipeline

/-! The output records of a workflow: their identities are their own, and storing them again
changes nothing. -/

namespace Arenyxa.Pipeline

open Lib

variable {rt : Runtime} {source records : List (String × Record)}

section Identities

theorem eq_of_append_cons {α : Type} [DecidableEq α] {z : α} {l l' d d' : List α} (clean : z ∉ d)
    (clean' : z ∉ d') (h : l ++ z :: d = l' ++ z :: d') : l = l' ∧ d = d' := by
  have tail : ∀ {l d : List α}, z ∉ d → ((l ++ z :: d).reverse.takeWhile (· ≠ z)) = d.reverse := by
    intro l d clean
    have all : ∀ x ∈ d.reverse, decide (x ≠ z) = true := fun x mem =>
      decide_eq_true fun same => clean (same ▸ List.mem_reverse.mp mem)
    rw [List.reverse_append, List.reverse_cons, List.append_assoc, List.takeWhile_append_of_pos all]
    simp
  have same : d = d' := by
    have tails := congrArg (fun text => text.reverse.takeWhile (· ≠ z)) h
    simp only [tail clean, tail clean'] at tails
    exact List.reverse_injective tails
  subst same
  exact ⟨List.append_cancel_right h, rfl⟩

theorem toList_toString (n : Nat) : (toString n).toList = Nat.toDigits 10 n := Nat.toList_repr

theorem separator_notMem_toString (n : Nat) : '\x00' ∉ (toString n).toList := by
  rw [toList_toString]
  intro mem
  exact absurd (Nat.isDigit_of_mem_toDigits (by decide) (by decide) mem) (by decide)

theorem toString_injective {m n : Nat} (h : toString m = toString n) : m = n := by
  have digits := congrArg String.toList h
  rw [toList_toString, toList_toString] at digits
  have values := congrArg (fun l => Nat.ofDigitChars 10 l 0) digits
  simpa using values

theorem outputIdentity_injective (collisions : Function.Injective rt.sha256)
    {identity identity' : String} {ordinal ordinal' : Nat}
    (h : outputIdentity rt identity ordinal = outputIdentity rt identity' ordinal') :
    identity = identity' ∧ ordinal = ordinal' := by
  have texts := congrArg String.toList (collisions (String.append_right_inj _ |>.mp h))
  simp only [String.toList_append, List.append_assoc] at texts
  have cut : ∀ s n, s ++ ("\x00".toList ++ (rt.workflowId.toList ++ ("\x00".toList ++ n))) =
      (s ++ '\x00' :: rt.workflowId.toList) ++ '\x00' :: n := by
    intro s n
    simp
  rw [cut, cut] at texts
  obtain ⟨front, back⟩ := eq_of_append_cons (separator_notMem_toString ordinal)
    (separator_notMem_toString ordinal') texts
  exact ⟨String.toList_injective (List.append_cancel_right front),
    toString_injective (String.toList_injective back)⟩

end Identities

section Outputs

/-- The output records that the workflow makes of source records. -/
def outputsOf (rt : Runtime) (records : List (String × Record)) : List (String × Record) :=
  records.flatMap fun record => stagedOutputs rt record.1 (rt.execute record.2).outputs 0

theorem outputsOf_append (records records' : List (String × Record)) :
    outputsOf rt (records ++ records') = outputsOf rt records ++ outputsOf rt records' :=
  List.flatMap_append

theorem mem_stagedOutputs {identity : String} {outputs : List Record} {ordinal : Nat}
    {output : String × Record} (h : output ∈ stagedOutputs rt identity outputs ordinal) :
    ∃ i, output.1 = outputIdentity rt identity (ordinal + i) ∧ outputs[i]? = some output.2 := by
  induction outputs generalizing ordinal with
  | nil => cases h
  | cons first rest ih =>
    rcases List.mem_cons.mp h with rfl | later
    · exact ⟨0, rfl, rfl⟩
    · obtain ⟨i, identity, there⟩ := ih later
      exact ⟨i + 1, by rw [identity, Nat.add_assoc, Nat.add_comm 1], there⟩

theorem outputsOf_unique (collisions : Function.Injective rt.sha256) (sorted : Ascending source)
    {output output' : String × Record} (here : output ∈ outputsOf rt source)
    (there : output' ∈ outputsOf rt source) (same : output.1 = output'.1) : output = output' := by
  obtain ⟨record, mem, staged⟩ := List.mem_flatMap.mp here
  obtain ⟨record', mem', staged'⟩ := List.mem_flatMap.mp there
  obtain ⟨i, identity, found⟩ := mem_stagedOutputs staged
  obtain ⟨j, identity', found'⟩ := mem_stagedOutputs staged'
  obtain ⟨names, ordinals⟩ := outputIdentity_injective collisions
    (identity.symm.trans (same.trans identity'))
  cases sorted.eq_of_key mem mem' names
  cases Nat.add_left_cancel ordinals
  exact Prod.ext same (Option.some.inj (found.symm.trans found'))

end Outputs

section Upserts

variable {known : List (String × Record)}
  (unique : ∀ x ∈ known, ∀ y ∈ known, x.1 = y.1 → x = y)

include unique

theorem upsertRecord_known (stored : records ⊆ known) {record : String × Record}
    (new : record ∈ known) :
    upsertRecord records record = records ∧ record ∈ records ∨
      upsertRecord records record = records ++ [record] ∧ record.1 ∉ records.map Prod.fst := by
  rw [upsertRecord]
  split
  next present =>
    obtain ⟨old, mem, same⟩ := List.mem_map.mp present
    cases unique old (stored mem) record new same
    refine .inl ⟨?_, mem⟩
    conv_rhs => rw [← List.map_id records]
    refine List.map_congr_left fun other there => ?_
    split
    next same => exact (unique other (stored there) record new same).symm
    next => rfl
  next absent => exact .inr ⟨rfl, absent⟩

theorem mem_foldl_upsertRecord {outputs : List (String × Record)} (stored : records ⊆ known)
    (new : outputs ⊆ known) (x : String × Record) :
    x ∈ outputs.foldl upsertRecord records ↔ x ∈ records ∨ x ∈ outputs := by
  induction outputs generalizing records with
  | nil => simp
  | cons output rest ih =>
    have first := new List.mem_cons_self
    have rest_known : rest ⊆ known := fun y mem => new (List.mem_cons_of_mem _ mem)
    rw [List.foldl_cons]
    rcases upsertRecord_known unique stored first with ⟨same, mem⟩ | ⟨appended, -⟩
    · rw [same, ih stored rest_known, List.mem_cons]
      grind
    · have stored' : records ++ [output] ⊆ known := by
        intro y mem
        rcases List.mem_append.mp mem with old | new
        · exact stored old
        · cases List.mem_singleton.mp new
          exact first
      rw [appended, ih stored' rest_known]
      simp [or_assoc]

theorem nodup_foldl_upsertRecord {outputs : List (String × Record)} (stored : records ⊆ known)
    (new : outputs ⊆ known) (keys : (records.map Prod.fst).Nodup) :
    ((outputs.foldl upsertRecord records).map Prod.fst).Nodup := by
  induction outputs generalizing records with
  | nil => exact keys
  | cons output rest ih =>
    have first := new List.mem_cons_self
    have rest_known : rest ⊆ known := fun y mem => new (List.mem_cons_of_mem _ mem)
    rw [List.foldl_cons]
    rcases upsertRecord_known unique stored first with ⟨same, mem⟩ | ⟨appended, absent⟩
    · rw [same]
      exact ih stored rest_known keys
    · rw [appended]
      refine ih ?_ rest_known ?_
      · intro y mem
        rcases List.mem_append.mp mem with old | new
        · exact stored old
        · cases List.mem_singleton.mp new
          exact first
      · rw [List.map_append]
        exact keys.append (List.nodup_singleton _) (by simpa using absent)

end Upserts

end Arenyxa.Pipeline
