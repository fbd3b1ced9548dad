import Arenyxa.Lib.SortedSet
import Arenyxa.Pipeline.Runtime

/-! What the schema accumulator holds depends on the records that it has observed, not on how
often and in which order. -/

namespace Arenyxa.Pipeline

/-- What an observation makes of the type of a field. -/
def observed (before : Option Kind) (value : Kind) : Option Kind := some (merge before value)

theorem observed_comm (before : Option Kind) (a b : Kind) :
    observed (observed before a) b = observed (observed before b) a := by
  cases before with
  | none => cases a <;> cases b <;> rfl
  | some before => cases before <;> cases a <;> cases b <;> rfl

theorem observed_twice (before : Option Kind) (a : Kind) :
    observed (observed before a) a = observed before a := by
  cases before with
  | none => cases a <;> rfl
  | some before => cases before <;> cases a <;> rfl

theorem observeField_apply (s : Schema) (field : String × Json) (name : String) :
    s.observeField field name =
      if name = field.1 then observed (s field.1) (typeOf field.2) else s name := by
  rw [Schema.observeField, Function.update_apply]
  rfl

instance : RightCommutative Schema.observeField where
  right_comm s a b := by
    funext name
    simp only [observeField_apply]
    by_cases first : name = a.1
    · subst first
      by_cases second : a.1 = b.1
      · simp only [second, ↓reduceIte]
        exact observed_comm _ _ _
      · simp [second]
    · by_cases second : name = b.1
      · subst second
        simp [first]
      · simp [first, second]

theorem observeField_twice (s : Schema) (field : String × Json) :
    (s.observeField field).observeField field = s.observeField field := by
  funext name
  simp only [observeField_apply]
  by_cases here : name = field.1
  · simp only [here, ↓reduceIte]
    exact observed_twice _ _
  · simp [here]

theorem observeAll_append (s : Schema) (records records' : List Record) :
    s.observeAll (records ++ records') = (s.observeAll records).observeAll records' :=
  List.foldl_append

theorem observeAll_congr (s : Schema) {records records' : List Record}
    (same : ∀ record, record ∈ records ↔ record ∈ records') :
    s.observeAll records = s.observeAll records' := by
  have fields : ∀ records, s.observeAll records = records.flatten.foldl Schema.observeField s := by
    intro records
    rw [List.foldl_flatten]
    rfl
  rw [fields, fields]
  refine Lib.foldl_congr_of_mem observeField_twice s fun field => ?_
  simp only [List.mem_flatten, same]

end Arenyxa.Pipeline
