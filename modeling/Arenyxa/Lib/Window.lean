import Mathlib.Data.List.Count
import Mathlib.Tactic.Linarith

/-! Requests counted in windows of a fixed length. A window's credit bounds what is granted from a time on, so that an
interval shorter than a window sees at most twice the limit. -/

namespace Arenyxa.Windows

structure Window where
  started : ℚ
  count : Nat

namespace Window

variable {length now since till : ℚ} {n : Nat} {w : Window}

def lapsed (length now : ℚ) (w : Window) : Bool := length ≤ now - w.started

/-- One more request. A window that has lapsed starts again. -/
def hit (length now : ℚ) (w : Window) : Window :=
  if w.lapsed length now then ⟨now, 1⟩ else { w with count := w.count + 1 }

/-- What is used of a window that started since a time, and less the whole limit for one that started before. -/
def credit (since : ℚ) (limit : Nat) (w : Window) : Int :=
  (min w.count limit : Nat) - if since ≤ w.started then 0 else (limit : Int)

theorem credit_bounds : -n ≤ w.credit since n ∧ w.credit since n ≤ n := by
  rw [credit]
  split <;> omega

theorem credit_granted (used : 0 < w.count) : (if w.count ≤ n then 1 else 0) + -(n : Int) ≤ w.credit since n := by
  rw [credit]
  split <;> split <;> omega

theorem count_hit : 0 < (w.hit length now).count := by
  rw [hit]
  split <;> exact Nat.succ_pos _

theorem credit_open (started : since ≤ now) : credit since n ⟨now, 1⟩ = (min 1 n : Nat) := by
  rw [credit, if_pos started, Int.sub_zero]

theorem credit_lapsed (short : till - since < length) (inside : now ≤ till) (lapsed : w.lapsed length now) :
    w.credit since n ≤ 0 := by
  have past : ¬since ≤ w.started := by
    have := of_decide_eq_true lapsed
    linarith
  rw [credit, if_neg past]
  omega

theorem credit_hit (short : till - since < length) (started : since ≤ now) (inside : now ≤ till) :
    (if (w.hit length now).count ≤ n then 1 else 0) + w.credit since n ≤ (w.hit length now).credit since n := by
  rw [hit]
  split
  next lapsed =>
    have := credit_lapsed (n := n) short inside lapsed
    rw [credit_open started]
    change (if 1 ≤ n then 1 else 0) + _ ≤ _
    split <;> omega
  next =>
    simp only [credit]
    split <;> omega

end Window

section Runs

variable {σ α : Type} (step : σ → α → σ)

/-- The calls of a run, each with the state that it meets. -/
def meets : σ → List α → List (σ × α)
  | _, [] => []
  | s, a :: calls => (s, a) :: meets (step s a) calls

variable {step} {since till : ℚ} {time : α → ℚ} {gain : σ × α → Bool} {Inv : σ → Prop} {cap : Nat}

theorem meets_inv (keeps : ∀ s a, Inv s → Inv (step s a)) (calls : List α) :
    ∀ s, Inv s → Inv (calls.foldl step s) ∧ ∀ m ∈ meets step s calls, Inv m.1 := by
  induction calls with
  | nil => exact fun s inv => ⟨inv, fun m mem => absurd mem List.not_mem_nil⟩
  | cons a calls ih =>
    intro s inv
    obtain ⟨last, all⟩ := ih (step s a) (keeps s a inv)
    refine ⟨last, fun m mem => ?_⟩
    rcases List.mem_cons.mp mem with rfl | mem
    · exact inv
    · exact all m mem

theorem mem_meets {calls : List α} {m : σ × α} : ∀ {s}, m ∈ meets step s calls → m.2 ∈ calls := by
  induction calls with
  | nil => exact fun mem => absurd mem List.not_mem_nil
  | cons a calls ih =>
    intro s mem
    rcases List.mem_cons.mp mem with rfl | mem
    · exact List.mem_cons_self
    · exact List.mem_cons_of_mem _ (ih mem)

/-- Where every gain in an interval raises a bounded potential, the gains in the interval are bounded. -/
theorem countP_meets_le (potential : σ → Int) (Inv : σ → Prop) (keeps : ∀ s a, Inv s → Inv (step s a))
    (bounds : ∀ s, Inv s → -cap ≤ potential s ∧ potential s ≤ cap) (calls : List α)
    (sorted : calls.Pairwise fun a b => time a ≤ time b)
    (rises : ∀ s, ∀ a ∈ calls, Inv s → since ≤ time a → time a ≤ till →
      (if gain (s, a) then 1 else 0) + potential s ≤ potential (step s a)) :
    ∀ s, Inv s →
      ((meets step s calls).countP fun m => gain m && (decide (since ≤ time m.2) && decide (time m.2 ≤ till))) ≤ 2 * cap ∧
      ((∀ a ∈ calls, since ≤ time a) →
        (((meets step s calls).countP fun m => gain m && (decide (since ≤ time m.2) && decide (time m.2 ≤ till)) : Nat) : Int) ≤
          cap - potential s) := by
  induction calls with
  | nil =>
    intro s inv
    exact ⟨Nat.zero_le _, fun _ => Int.sub_nonneg.mpr (bounds s inv).2⟩
  | cons a calls ih =>
    intro s inv
    obtain ⟨later, sorted⟩ := List.pairwise_cons.mp sorted
    obtain ⟨most, rest⟩ := ih sorted (fun s a mem => rises s a (List.mem_cons_of_mem _ mem)) (step s a) (keeps s a inv)
    rw [meets, List.countP_cons]
    by_cases started : since ≤ time a
    · have from_now : ∀ b ∈ calls, since ≤ time b := fun b mem => started.trans (later b mem)
      have bound := rest from_now
      have := bounds s inv
      have := bounds (step s a) (keeps s a inv)
      by_cases inside : time a ≤ till
      · have raised := rises s a List.mem_cons_self inv started inside
        cases gained : gain (s, a) <;> simp only [gained, started, inside, decide_true, Bool.and_true] at raised ⊢ <;>
          refine ⟨?_, fun _ => ?_⟩ <;> push_cast <;> simp at raised ⊢ <;> omega
      · have after : ∀ m ∈ meets step (step s a) calls, time a ≤ time m.2 := fun m mem => later m.2 (mem_meets mem)
        have none : (meets step (step s a) calls).countP
            (fun m => gain m && (decide (since ≤ time m.2) && decide (time m.2 ≤ till))) = 0 :=
          List.countP_eq_zero.mpr fun m mem => by simp [not_le.mpr ((not_le.mp inside).trans_le (after m mem))]
        simp only [none, inside, decide_false, Bool.and_false]
        refine ⟨Nat.zero_le _, fun _ => ?_⟩
        have := bounds s inv
        simp
        omega
    · have first : ¬∀ b ∈ a :: calls, since ≤ time b := fun all => started (all a List.mem_cons_self)
      simp only [started, decide_false, Bool.false_and, Bool.and_false]
      exact ⟨most, fun all => absurd all first⟩

end Runs

end Arenyxa.Windows
