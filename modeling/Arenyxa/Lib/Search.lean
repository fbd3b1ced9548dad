import Mathlib.Data.List.Infix

/-! The first occurrence of a pattern in a list, and what stays of it when the list grows. -/

universe u

namespace Arenyxa.Search

variable {α : Type u} [DecidableEq α]

/-- `bytes.find(pattern)` -/
def find? (pat : List α) : List α → Option Nat
  | [] => if pat = [] then some 0 else none
  | a :: l => if pat <+: a :: l then some 0 else (find? pat l).map (· + 1)

/-- `bytes.find(pattern, start)` -/
def findFrom (pat : List α) (start : Nat) (l : List α) : Option Nat :=
  (find? pat (l.drop start)).map (start + ·)

variable {pat l m : List α} {i n : Nat}

attribute [local simp] find? in
theorem find?_add_length_le (h : find? pat l = some i) : i + pat.length ≤ l.length := by
  induction l generalizing i with
  | nil =>
    rw [find?] at h
    split at h
    next empty =>
      cases h
      simp [empty]
    next => cases h
  | cons a l ih =>
    rw [find?] at h
    split at h
    next here =>
      cases h
      simpa using here.length_le
    next =>
      obtain ⟨j, hj, rfl⟩ := Option.map_eq_some_iff.mp h
      have := ih hj
      simp only [List.length_cons]
      omega

theorem find?_append_of_some (h : find? pat l = some i) (m : List α) :
    find? pat (l ++ m) = some i := by
  induction l generalizing i with
  | nil =>
    rw [find?] at h
    split at h
    next empty =>
      cases h
      cases m <;> simp [find?, empty]
    next => cases h
  | cons a l ih =>
    rw [find?] at h
    rw [List.cons_append, find?]
    split at h
    next here =>
      cases h
      have longer : pat <+: a :: (l ++ m) := here.trans (List.prefix_append (a :: l) m)
      rw [if_pos longer]
    next absent =>
      obtain ⟨j, hj, rfl⟩ := Option.map_eq_some_iff.mp h
      rw [if_neg, ih hj]
      · rfl
      · intro here
        have long := find?_add_length_le hj
        apply absent
        rw [← List.cons_append] at here
        exact List.prefix_of_prefix_length_le here (List.prefix_append _ _)
          (by simp only [List.length_cons]; omega)

theorem find?_of_append (h : find? pat (l ++ m) = some i) (inside : i + pat.length ≤ l.length) :
    find? pat l = some i := by
  cases hl : find? pat l with
  | some j => rw [find?_append_of_some hl] at h; exact h
  | none =>
    exfalso
    induction l generalizing i with
    | nil =>
      have empty : pat = [] := by
        rw [List.length_nil] at inside
        exact List.length_eq_zero_iff.mp (by omega)
      simp [find?, empty] at hl
    | cons a l ih =>
      rw [find?] at hl
      split at hl
      next => cases hl
      next absent =>
        rw [List.cons_append, find?] at h
        split at h
        next here =>
          cases h
          rw [← List.cons_append] at here
          exact absent (List.prefix_of_prefix_length_le here (List.prefix_append _ _)
            (by simpa using inside))
        next =>
          obtain ⟨j, hj, rfl⟩ := Option.map_eq_some_iff.mp h
          exact ih hj (by simp only [List.length_cons] at inside; omega)
            (by simpa using hl)

theorem find?_cons_of_not {a : α} (h : ¬pat <+: a :: l) :
    find? pat (a :: l) = (find? pat l).map (· + 1) := by
  rw [find?, if_neg h]

theorem find?_cons_of_starts {a : α} (h : pat <+: a :: l) : find? pat (a :: l) = some 0 := by
  rw [find?, if_pos h]

theorem find?_isSome_of_infix (h : pat <:+: l) : (find? pat l).isSome = true := by
  induction l with
  | nil =>
    rw [List.infix_nil] at h
    simp [find?, h]
  | cons a l ih =>
    by_cases here : pat <+: a :: l
    · rw [find?_cons_of_starts here]
      rfl
    · rw [find?_cons_of_not here, Option.isSome_map]
      exact ih ((List.infix_cons_iff.mp h).resolve_left here)

theorem le_of_findFrom (h : findFrom pat n l = some i) : n ≤ i ∧ (pat ≠ [] → i + pat.length ≤ l.length) := by
  obtain ⟨j, hj, rfl⟩ := Option.map_eq_some_iff.mp h
  have := find?_add_length_le hj
  rw [List.length_drop] at this
  refine ⟨Nat.le_add_right n j, fun nonempty => ?_⟩
  have := List.length_pos_iff.mpr nonempty
  omega

theorem findFrom_append_of_some (h : findFrom pat n l = some i) (pos : pat ≠ []) (m : List α) :
    findFrom pat n (l ++ m) = some i := by
  obtain ⟨j, hj, rfl⟩ := Option.map_eq_some_iff.mp h
  have long := find?_add_length_le hj
  have := List.length_pos_iff.mpr pos
  rw [List.length_drop] at long
  rw [findFrom, List.drop_append_of_le_length (by omega), find?_append_of_some hj]
  rfl

theorem findFrom_of_append (h : findFrom pat n (l ++ m) = some i)
    (inside : i + pat.length ≤ l.length) : findFrom pat n l = some i := by
  obtain ⟨j, hj, rfl⟩ := Option.map_eq_some_iff.mp h
  rw [List.drop_append_of_le_length (by omega)] at hj
  rw [findFrom, find?_of_append hj (by rw [List.length_drop]; omega)]
  rfl

end Arenyxa.Search

/-! Replacement of the occurrences of a pattern in a list, from left to right and without overlaps. -/

namespace Arenyxa.Replace

variable {α : Type u} [DecidableEq α]

/-- The replacement from here on, `skip` elements still belonging to the last occurrence. -/
def replaceFrom (pat new : List α) : (skip : Nat) → List α → List α
  | _, [] => []
  | skip + 1, _ :: rest => replaceFrom pat new skip rest
  | 0, a :: rest =>
    if pat <+: a :: rest then new ++ replaceFrom pat new (pat.length - 1) rest else a :: replaceFrom pat new 0 rest

/-- `bytes.replace(pattern, new)`, for a pattern that is not empty. -/
def replaceAll (pat new text : List α) : List α := replaceFrom pat new 0 text

variable {pat new text : List α}

attribute [local simp] replaceFrom in
theorem replaceAll_ne_nil (some_new : new ≠ []) (some_text : text ≠ []) : replaceAll pat new text ≠ [] := by
  obtain ⟨a, rest, rfl⟩ := List.exists_cons_of_ne_nil some_text
  rw [replaceAll, replaceFrom]
  split
  next => exact fun empty => some_new (List.append_eq_nil_iff.mp empty).1
  next => exact List.cons_ne_nil a _

theorem mem_replaceFrom {a : α} (skip : Nat) (text : List α) (mem : a ∈ replaceFrom pat new skip text) :
    a ∈ new ∨ a ∈ text := by
  induction text generalizing skip with
  | nil => cases skip <;> exact absurd mem List.not_mem_nil
  | cons b rest ih =>
    cases skip with
    | succ skip => exact (ih skip mem).imp_right (List.mem_cons_of_mem b)
    | zero =>
      rw [replaceFrom] at mem
      split at mem
      · rcases List.mem_append.mp mem with inserted | later
        · exact .inl inserted
        · exact (ih _ later).imp_right (List.mem_cons_of_mem b)
      · rcases List.mem_cons.mp mem with rfl | later
        · exact .inr List.mem_cons_self
        · exact (ih 0 later).imp_right (List.mem_cons_of_mem b)

theorem replaceAll_of_not_infix (absent : ¬ pat <:+: text) : replaceAll pat new text = text := by
  rw [replaceAll]
  induction text with
  | nil => rfl
  | cons a rest ih =>
    rw [replaceFrom, if_neg fun here => absent here.isInfix, ih fun later => absent (List.infix_cons later)]

theorem length_deleteFrom_le (skip : Nat) (text : List α) : (replaceFrom pat [] skip text).length ≤ text.length := by
  induction text generalizing skip with
  | nil => cases skip <;> exact Nat.le_refl 0
  | cons a rest ih =>
    cases skip with
    | succ skip => exact (ih skip).trans (Nat.le_succ _)
    | zero =>
      rw [replaceFrom]
      split
      next => exact (ih _).trans (Nat.le_succ _)
      next => exact Nat.succ_le_succ (ih 0)

theorem length_deleteAll_lt (occurs : pat <:+: text) (some_text : text ≠ []) :
    (replaceAll pat [] text).length < text.length := by
  rw [replaceAll]
  induction text with
  | nil => exact absurd rfl some_text
  | cons a rest ih =>
    rw [replaceFrom]
    split
    next => exact Nat.lt_succ_of_le (length_deleteFrom_le _ rest)
    next later =>
      have inside := (List.infix_cons_iff.mp occurs).resolve_left later
      by_cases empty : rest = []
      · subst empty
        rw [List.infix_nil] at inside
        exact absurd (inside ▸ List.nil_prefix) later
      · exact Nat.succ_lt_succ (ih inside empty)

theorem deleteAll_eq_self_iff (some_pat : pat ≠ []) : replaceAll pat [] text = text ↔ ¬ pat <:+: text := by
  refine ⟨fun same occurs => ?_, replaceAll_of_not_infix⟩
  have some_text : text ≠ [] := by
    rintro rfl
    exact some_pat (List.infix_nil.mp occurs)
  have shorter := length_deleteAll_lt occurs some_text
  rw [same] at shorter
  exact Nat.lt_irrefl _ shorter

end Arenyxa.Replace
