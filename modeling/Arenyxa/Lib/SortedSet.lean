import Mathlib.Data.List.Dedup
import Mathlib.Data.List.DropRight
import Mathlib.Data.List.Lex
import Mathlib.Data.List.Perm.Basic
import Mathlib.Data.List.Sort

/-! Normal forms of lists: trimmed at both ends, and as the sorted list of their elements. -/

namespace Arenyxa.SortedSet

section Trim

variable {α : Type u} {p : α → Bool} {l : List α}

/-- The list without the elements of either end that satisfy `p`. -/
def trim (p : α → Bool) (l : List α) : List α := (l.dropWhile p).rdropWhile p

theorem trim_idem : trim p (trim p l) = trim p l := by
  have front : (trim p l).dropWhile p = trim p l := by
    rw [List.dropWhile_eq_self_iff]
    intro nonempty
    have part : trim p l <+: l.dropWhile p := List.rdropWhile_prefix p _
    have long : 0 < (l.dropWhile p).length := Nat.lt_of_lt_of_le nonempty part.length_le
    have first := List.dropWhile_get_zero_not p l long
    rw [part.getElem nonempty]
    exact first
  rw [trim, front]
  exact List.rdropWhile_idempotent p _

theorem trim_eq_self (head : ∀ a ∈ l.head?, p a = false) (last : ∀ a ∈ l.getLast?, p a = false) :
    trim p l = l := by
  have front : l.dropWhile p = l := by
    rw [List.dropWhile_eq_self_iff]
    intro nonempty
    rw [head _ (List.head?_eq_getElem? ▸ List.getElem?_eq_getElem nonempty)]
    exact Bool.false_ne_true
  rw [trim, front, List.rdropWhile_eq_self_iff]
  intro nonempty
  rw [last _ (List.getLast?_eq_some_getLast nonempty)]
  exact Bool.false_ne_true

theorem trim_ends (h : trim p l = l) :
    (∀ a ∈ l.head?, p a = false) ∧ ∀ a ∈ l.getLast?, p a = false := by
  have back : l.rdropWhile p = l := by
    rw [← h]
    exact List.rdropWhile_idempotent p _
  have last := List.rdropWhile_eq_self_iff.mp back
  have part : l <+: l.dropWhile p := by
    have := List.rdropWhile_prefix p (l.dropWhile p)
    rwa [← trim, h] at this
  have front : l.dropWhile p = l :=
    ((List.dropWhile_suffix p).eq_of_length_le part.length_le)
  have head := List.dropWhile_eq_self_iff.mp front
  constructor
  · intro a ha
    cases l with
    | nil => cases ha
    | cons b l =>
      cases ha
      exact eq_false_of_ne_true (head (Nat.zero_lt_succ _))
  · intro a ha
    obtain ⟨nonempty, rfl⟩ := List.mem_getLast?_eq_getLast ha
    exact eq_false_of_ne_true (last nonempty)

end Trim

section Sorted

variable {α : Type u} [LinearOrder α] {l : List α} {a : α}

/-- `sorted(set(l))` -/
def sortedSet (l : List α) : List α := l.dedup.insertionSort (· ≤ ·)

@[simp]
theorem mem_sortedSet : a ∈ sortedSet l ↔ a ∈ l := by
  rw [sortedSet, List.mem_insertionSort, List.mem_dedup]

theorem sortedSet_idem : sortedSet (sortedSet l) = sortedSet l := by
  have once : (sortedSet l).Nodup :=
    (List.perm_insertionSort _ _).nodup_iff.mpr (List.nodup_dedup l)
  rw [sortedSet, once.dedup]
  exact (List.pairwise_insertionSort _ _).insertionSort_eq

theorem sortedSet_eq_nil : sortedSet l = [] ↔ l = [] := by
  simp only [List.eq_nil_iff_forall_not_mem, mem_sortedSet]

end Sorted

end Arenyxa.SortedSet

/-! Folds that forget the order and the repetitions of a list. -/

namespace Arenyxa.Lib

universe u v

variable {α : Type u} {β : Type v} {op : β → α → β} [RightCommutative op] {x : α} {l l' : List α}

theorem foldl_absorb (twice : ∀ b x, op (op b x) x = op b x) (b : β) (mem : x ∈ l) :
    op (l.foldl op b) x = l.foldl op b := by
  obtain ⟨s, t, rfl⟩ := List.append_of_mem mem
  have once : (s ++ x :: t).foldl op b = (s ++ t).foldl op (op b x) :=
    List.perm_middle.foldl_eq b
  calc op ((s ++ x :: t).foldl op b) x
      = (s ++ x :: t ++ [x]).foldl op b := by rw [List.foldl_concat]
    _ = (x :: (s ++ x :: t)).foldl op b := (List.perm_append_singleton x _).foldl_eq b
    _ = (s ++ t).foldl op (op (op b x) x) := (List.perm_middle.foldl_eq (op b x))
    _ = (s ++ x :: t).foldl op b := by rw [twice, once]

theorem foldl_absorb_subset (twice : ∀ b x, op (op b x) x = op b x) (b : β) (sub : l' ⊆ l) :
    l'.foldl op (l.foldl op b) = l.foldl op b := by
  induction l' with
  | nil => rfl
  | cons x rest ih =>
    rw [List.foldl_cons, foldl_absorb twice b (sub List.mem_cons_self)]
    exact ih fun y mem => sub (List.mem_cons_of_mem x mem)

theorem foldl_congr_of_mem (twice : ∀ b x, op (op b x) x = op b x) (b : β)
    (same : ∀ x, x ∈ l ↔ x ∈ l') : l.foldl op b = l'.foldl op b := by
  calc l.foldl op b
      = l'.foldl op (l.foldl op b) := (foldl_absorb_subset twice b fun x => (same x).mpr).symm
    _ = (l ++ l').foldl op b := List.foldl_append.symm
    _ = (l' ++ l).foldl op b := List.perm_append_comm.foldl_eq b
    _ = l.foldl op (l'.foldl op b) := List.foldl_append
    _ = l'.foldl op b := foldl_absorb_subset twice b fun x => (same x).mp

end Arenyxa.Lib
