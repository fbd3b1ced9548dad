import Mathlib.Data.List.Basic
import Mathlib.Data.List.Count

/-! Rows by their index: what stands at an index after a row is written, or after one is added. -/

universe u

namespace Arenyxa.Indexed

variable {α : Type u} {l : List α} {i j : Nat} {a b : α}

theorem lt_of_get (found : l[i]? = some a) : i < l.length := (List.getElem?_eq_some_iff.mp found).1

theorem get_set_self (found : l[i]? = some a) : (l.set i b)[i]? = some b :=
  List.getElem?_set_self (lt_of_get found)

theorem get_snoc (found : (l ++ [a])[j]? = some b) : l[j]? = some b ∨ j = l.length ∧ b = a := by
  rcases Nat.lt_or_ge j l.length with inside | outside
  · rw [List.getElem?_append_left inside] at found
    exact .inl found
  · rw [List.getElem?_append_right outside, List.getElem?_singleton] at found
    split at found
    next last => exact .inr ⟨by omega, (Option.some.inj found).symm⟩
    next => cases found

theorem get_snoc_of_get (found : l[j]? = some b) : (l ++ [a])[j]? = some b :=
  (List.getElem?_append_left (lt_of_get found)).trans found

theorem map_set {β : Type u} {f : α → β} (found : l[i]? = some a) (same : f b = f a) :
    (l.set i b).map f = l.map f := by
  obtain ⟨inside, rfl⟩ := List.getElem?_eq_some_iff.mp found
  rw [List.map_set, same, ← List.getElem_map f (h := by simpa using inside)]
  exact List.set_getElem_self _

theorem countP_set (p : α → Bool) (b : α) (found : l[i]? = some a) :
    (l.set i b).countP p + (p a).toNat = l.countP p + (p b).toNat := by
  obtain ⟨inside, rfl⟩ := List.getElem?_eq_some_iff.mp found
  have some_row : p l[i] → 0 < l.countP p := fun here =>
    List.countP_pos_iff.mpr ⟨_, List.getElem_mem inside, here⟩
  rw [List.countP_set inside]
  cases was : p l[i]
  · cases p b <;> simp
  · have := some_row was
    cases p b <;> simp <;> omega

end Arenyxa.Indexed
