import Mathlib.Data.List.Sort
import Mathlib.Data.String.Basic

/-! A list in the order of its keys, read through a cursor: what stands up to a key, what stands
above it, and how a cursor moves over one entry. -/

namespace Arenyxa.Lib

variable {κ α : Type} [LinearOrder κ] {l : List (κ × α)} {a b : κ} {x : κ × α} {r : List (κ × α)}

/-- The keys of the list grow strictly. -/
abbrev Ascending (l : List (κ × α)) : Prop := l.Pairwise fun x y => x.1 < y.1

def upTo (l : List (κ × α)) (a : κ) : List (κ × α) := l.filter fun x => x.1 ≤ a

def above (l : List (κ × α)) (a : κ) : List (κ × α) := l.filter fun x => a < x.1

/-- What a cursor passes on its way from one key to another. -/
def window (l : List (κ × α)) (a b : κ) : List (κ × α) := upTo (above l a) b

@[simp] theorem mem_upTo : x ∈ upTo l a ↔ x ∈ l ∧ x.1 ≤ a := by simp [upTo]

@[simp] theorem mem_above : x ∈ above l a ↔ x ∈ l ∧ a < x.1 := by simp [above]

theorem Ascending.above (sorted : Ascending l) (a : κ) : Ascending (above l a) :=
  sorted.sublist List.filter_sublist

theorem Ascending.eq_of_key (sorted : Ascending l) {y : κ × α} (mem : x ∈ l) (mem' : y ∈ l)
    (same : x.1 = y.1) : x = y :=
  List.inj_on_of_nodup_map (List.pairwise_map.mpr (sorted.imp ne_of_lt)) mem mem' same

theorem lookup_of_mem (sorted : Ascending l) (mem : x ∈ l) : l.lookup x.1 = some x.2 := by
  obtain ⟨before, after, rfl⟩ := List.append_of_mem mem
  have first := (List.pairwise_append.mp sorted).2.2
  exact List.lookup_eq_some_iff.mpr ⟨before, after, rfl, fun y mem => bne_iff_ne.mpr (first y mem x List.mem_cons_self).ne'⟩

theorem above_eq_self (all : ∀ x ∈ l, a < x.1) : above l a = l :=
  List.filter_eq_self.mpr fun x mem => decide_eq_true (all x mem)

theorem upTo_eq_nil (all : ∀ x ∈ l, a < x.1) : upTo l a = [] :=
  List.filter_eq_nil_iff.mpr fun x mem low =>
    absurd (of_decide_eq_true low) (not_le.mpr (all x mem))

theorem upTo_append_above (sorted : Ascending l) (a : κ) : upTo l a ++ above l a = l := by
  induction l with
  | nil => rfl
  | cons x l ih =>
    obtain ⟨low, sorted⟩ := List.pairwise_cons.mp sorted
    by_cases here : x.1 ≤ a
    · have kept : upTo (x :: l) a = x :: upTo l a := List.filter_cons_of_pos (by simpa using here)
      have dropped : above (x :: l) a = above l a :=
        List.filter_cons_of_neg (by simpa using here)
      rw [kept, dropped, List.cons_append, ih sorted]
    · have all : ∀ y ∈ x :: l, a < y.1 := by
        intro y mem
        rcases List.mem_cons.mp mem with rfl | mem
        · exact not_le.mp here
        · exact (not_le.mp here).trans (low y mem)
      rw [upTo_eq_nil all, above_eq_self all, List.nil_append]

theorem above_above (le : a ≤ b) : above (above l a) b = above l b := by
  rw [above, above, List.filter_filter]
  refine List.filter_congr fun x _ => ?_
  have further : b < x.1 → a < x.1 := le.trans_lt
  simpa using further

theorem upTo_upTo (le : a ≤ b) : upTo (upTo l a) b = upTo l a := by
  refine List.filter_eq_self.mpr fun x mem => decide_eq_true ?_
  exact (mem_upTo.1 mem).2.trans le

theorem upTo_append_window (sorted : Ascending l) (le : a ≤ b) :
    upTo l a ++ window l a b = upTo l b := by
  conv_rhs => rw [← upTo_append_above sorted a]
  rw [window, upTo, upTo, upTo, List.filter_append]
  congr 1
  exact (upTo_upTo le).symm

theorem window_self : window l a a = [] := upTo_eq_nil fun _ mem => (mem_above.1 mem).2

theorem above_step (sorted : Ascending l) (next : above l a = x :: r) :
    a < x.1 ∧ above l x.1 = r ∧ window l a x.1 = [x] := by
  have here : x ∈ above l a := next ▸ List.mem_cons_self
  have ahead := (mem_above.1 here).2
  have order := next ▸ sorted.above a
  have later := (List.pairwise_cons.mp order).1
  refine ⟨ahead, ?_, ?_⟩
  · rw [← above_above ahead.le, next, above, List.filter_cons_of_neg (by simp)]
    exact above_eq_self later
  · rw [window, next, upTo, List.filter_cons_of_pos (by simp)]
    exact congrArg (x :: ·) (upTo_eq_nil later)

theorem above_last (sorted : Ascending l) {n : Nat} (last : (l.take n).getLast? = some x) :
    above l x.1 = l.drop n := by
  obtain ⟨before, taken⟩ := List.getLast?_eq_some_iff.mp last
  have whole : l = before ++ x :: l.drop n := by
    conv_lhs => rw [← List.take_append_drop n l, taken]
    exact List.append_assoc before [x] _
  obtain ⟨_, behind, apart⟩ := List.pairwise_append.mp (whole ▸ sorted)
  have passed : above before x.1 = [] :=
    List.filter_eq_nil_iff.mpr fun y mem ahead =>
      lt_asymm (apart y mem x List.mem_cons_self) (of_decide_eq_true ahead)
  have self : above (x :: l.drop n) x.1 = above (l.drop n) x.1 := List.filter_cons_of_neg (by simp)
  calc above l x.1 = above before x.1 ++ above (x :: l.drop n) x.1 := by
        conv_lhs => rw [whole]
        exact List.filter_append before _
    _ = l.drop n := by
        rw [passed, List.nil_append, self]
        exact above_eq_self (List.pairwise_cons.mp behind).1

theorem window_append (sorted : Ascending l) {c : κ} (le : a ≤ b) (le' : b ≤ c) :
    window l a b ++ window l b c = window l a c := by
  have step := upTo_append_window (sorted.above a) le'
  rw [window, above_above le] at step
  exact step

theorem upTo_eq_self_of_above (sorted : Ascending l) (done : above l a = []) : upTo l a = l := by
  have whole := upTo_append_above sorted a
  rwa [done, List.append_nil] at whole

theorem empty_lt {identity : String} (named : identity ≠ "") : "" < identity := by
  rw [String.lt_iff_toList_lt]
  cases letters : identity.toList with
  | nil => exact absurd (String.toList_eq_nil_iff.mp letters) named
  | cons c rest => exact List.nil_lt_cons c rest

end Arenyxa.Lib
