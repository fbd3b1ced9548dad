import Arenyxa.Lib.Table
import Mathlib.Data.List.DropRight
import Mathlib.Data.List.MinMax

/-! Bounded retention on a log that grows at its end: keeping the newest `n` entries of
one stream inside an interleaved log. -/

universe u

namespace Arenyxa.Retention

variable {α : Type u}

/-- Drop the first `n` entries that satisfy `p`. -/
def dropFirst (p : α → Bool) : Nat → List α → List α
  | 0, xs => xs
  | _, [] => []
  | n + 1, x :: xs => if p x then dropFirst p n xs else x :: dropFirst p (n + 1) xs

/-- Keep the newest `n` of the entries that satisfy `p`, and every other entry. -/
def keepNewest (p : α → Bool) (n : Nat) (xs : List α) : List α :=
  dropFirst p (xs.countP p - n) xs

theorem filter_dropFirst (p : α → Bool) (n : Nat) (xs : List α) :
    (dropFirst p n xs).filter p = (xs.filter p).drop n := by
  induction xs generalizing n with
  | nil => cases n <;> rfl
  | cons x xs ih =>
    cases n with
    | zero => rfl
    | succ n => by_cases hp : p x <;> simp [dropFirst, hp, ih]

theorem filter_dropFirst_of_disjoint {p q : α → Bool} (h : ∀ x, q x → p x = false) (n : Nat)
    (xs : List α) : (dropFirst p n xs).filter q = xs.filter q := by
  induction xs generalizing n with
  | nil => cases n <;> rfl
  | cons x xs ih =>
    cases n with
    | zero => rfl
    | succ n =>
      by_cases hp : p x
      · have hq : q x = false := by
          cases hqx : q x with
          | false => rfl
          | true => exact absurd (h x hqx) (by simp [hp])
        simp [dropFirst, hp, hq, ih]
      · by_cases hq : q x <;> simp [dropFirst, hp, hq, ih]

theorem filter_keepNewest (p : α → Bool) (n : Nat) (xs : List α) :
    (keepNewest p n xs).filter p = (xs.filter p).rtake n := by
  rw [keepNewest, filter_dropFirst, List.rtake, List.countP_eq_length_filter]

theorem filter_keepNewest_of_disjoint {p q : α → Bool} (h : ∀ x, q x → p x = false) (n : Nat)
    (xs : List α) : (keepNewest p n xs).filter q = xs.filter q :=
  filter_dropFirst_of_disjoint h _ _

theorem length_rtake (n : Nat) (xs : List α) : (xs.rtake n).length = min n xs.length := by
  simp only [List.rtake, List.length_drop]
  omega

theorem rtake_of_length_le {n : Nat} {xs : List α} (h : xs.length ≤ n) : xs.rtake n = xs := by
  rw [List.rtake, Nat.sub_eq_zero_of_le h, List.drop_zero]

theorem rtake_append_of_le {n : Nat} {xs ys : List α} (h : n ≤ ys.length) :
    (xs ++ ys).rtake n = ys.rtake n := by
  rw [List.rtake, List.rtake, List.drop_append, List.drop_of_length_le, List.nil_append]
  · congr 1
    simp only [List.length_append]
    omega
  · simp only [List.length_append]
    omega

theorem rtake_rtake_append {n m : Nat} {xs ys : List α} (h : n ≤ m + ys.length) :
    (xs.rtake m ++ ys).rtake n = (xs ++ ys).rtake n := by
  rcases Nat.le_total xs.length m with hm | hm
  · rw [rtake_of_length_le hm]
  · have hlen : n ≤ (xs.rtake m ++ ys).length := by
      rw [List.length_append, length_rtake]
      omega
    have hsplit : xs ++ ys = xs.take (xs.length - m) ++ (xs.rtake m ++ ys) := by
      rw [← List.append_assoc, List.rtake, List.take_append_drop]
    rw [hsplit, rtake_append_of_le hlen]

theorem rtake_append_singleton (m : Nat) (xs : List α) (x : α) :
    xs.rtake m ++ [x] = (xs ++ [x]).rtake (m + 1) := by
  have hlen : (xs.rtake m ++ [x]).length ≤ m + 1 := by
    rw [List.length_append, length_rtake, List.length_singleton]
    omega
  calc
    xs.rtake m ++ [x] = (xs.rtake m ++ [x]).rtake (m + 1) := (rtake_of_length_le hlen).symm
    _ = (xs ++ [x]).rtake (m + 1) := rtake_rtake_append (by simp)

end Arenyxa.Retention

/-! Bounded tables that make room by dropping their oldest row. -/

universe v w

namespace Arenyxa.Table

open Keyed (key)

variable {ρ : Type u} {κ : Type v} [Keyed ρ κ] [DecidableEq κ] {τ : Type w} [LinearOrder τ]

/-- Room for one more row: at the limit the first of the oldest rows goes. -/
def evictOldest (limit : Nat) (age : ρ → τ) (t : Table ρ) : Table ρ :=
  if limit ≤ t.rows.length then
    match t.rows.argmin age with
    | none => t
    | some oldest => t.erase (key oldest)
  else t

variable {limit : Nat} {age : ρ → τ} {t : Table ρ} {r : ρ}

theorem evictOldest_sublist : (t.evictOldest limit age).rows.Sublist t.rows := by
  rw [evictOldest]
  split
  next =>
    split
    next => exact .refl _
    next => exact List.filter_sublist
  next => exact .refl _

theorem length_evictOldest (room : 0 < limit) (within : t.rows.length ≤ limit) :
    (t.evictOldest limit age).rows.length < limit := by
  rw [evictOldest]
  split
  next full =>
    split
    next none =>
      rw [List.argmin_eq_none.mp none] at full
      exact absurd full (Nat.not_le.mpr room)
    next oldest found =>
      have mem := List.argmin_mem found
      have shorter := length_erase (mem_rows_iff.mp mem)
      omega
  next free => exact Nat.not_le.mp free

theorem length_assign_evictOldest (room : 0 < limit) (within : t.rows.length ≤ limit) :
    ((t.evictOldest limit age).assign r).rows.length ≤ limit :=
  (length_assign_le _ _).trans (length_evictOldest room within)

end Arenyxa.Table
