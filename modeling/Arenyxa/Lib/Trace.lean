import Mathlib.Data.List.Basic

/-! Finite executions of a labelled transition relation. A transaction of several statements
is one path; what its statements keep, it keeps, and what it did is read off its labels. -/

universe u v w

namespace Arenyxa

inductive Path {σ : Type u} {ℓ : Type v} (step : σ → ℓ → σ → Prop) : σ → List ℓ → σ → Prop
  | nil (s : σ) : Path step s [] s
  | cons {s t r : σ} {l : ℓ} {ls : List ℓ} :
    step s l t → Path step t ls r → Path step s (l :: ls) r

namespace Path

variable {σ : Type u} {ℓ : Type v} {step : σ → ℓ → σ → Prop}

theorem single {s t : σ} {l : ℓ} (h : step s l t) : Path step s [l] t := .cons h (.nil t)

theorem append {s t r : σ} {ls ms : List ℓ} (h : Path step s ls t) (h' : Path step t ms r) :
    Path step s (ls ++ ms) r := by
  induction h with
  | nil => exact h'
  | cons hs _ ih => exact .cons hs (ih h')

theorem snoc {s t r : σ} {ls : List ℓ} {l : ℓ} (h : Path step s ls t) (h' : step t l r) :
    Path step s (ls ++ [l]) r := h.append (single h')

theorem split {s t : σ} {ls : List ℓ} {l : ℓ} (h : Path step s ls t) (hl : l ∈ ls) :
    ∃ ls₁ ls₂ s' t', ls = ls₁ ++ l :: ls₂ ∧ Path step s ls₁ s' ∧ step s' l t' ∧
      Path step t' ls₂ t := by
  induction h with
  | nil => cases hl
  | cons hs hrest ih =>
    obtain rfl | hl := List.mem_cons.mp hl
    · exact ⟨[], _, _, _, rfl, .nil _, hs, hrest⟩
    · obtain ⟨ls₁, ls₂, s', t', rfl, before, here, after⟩ := ih hl
      exact ⟨_ :: ls₁, ls₂, s', t', rfl, .cons hs before, here, after⟩

theorem invariant {s t : σ} {ls : List ℓ} {P : σ → Prop} (h : Path step s ls t)
    (keep : ∀ s l t, l ∈ ls → step s l t → P s → P t) (start : P s) : P t := by
  induction h with
  | nil => exact start
  | cons hs _ ih =>
    apply ih
    · exact fun s l t hl => keep s l t (List.mem_cons_of_mem _ hl)
    · exact keep _ _ _ List.mem_cons_self hs start

theorem map {τ : Type w} {s t : σ} {ls : List ℓ} (h : Path step s ls t) (f : σ → τ)
    (step' : τ → ℓ → τ → Prop) (project : ∀ s l t, step s l t → step' (f s) l (f t)) :
    Path step' (f s) ls (f t) := by
  induction h with
  | nil s => exact .nil (f s)
  | cons hs _ ih => exact .cons (project _ _ _ hs) ih

theorem countP_le_one {s t : σ} {ls : List ℓ} {p : ℓ → Bool} (h : Path step s ls t)
    (ready : σ → Prop)
    (fire : ∀ s l t, l ∈ ls → step s l t → p l → ready s ∧ ¬ready t)
    (keep : ∀ s l t, l ∈ ls → step s l t → ¬ready s → ¬ready t) :
    ls.countP p ≤ 1 ∧ (¬ready s → ls.countP p = 0) := by
  induction h with
  | nil => simp
  | cons hs hrest ih =>
    rename_i s t r l ls
    obtain ⟨once, never⟩ := ih (fun s l t hl => fire s l t (List.mem_cons_of_mem _ hl))
      (fun s l t hl => keep s l t (List.mem_cons_of_mem _ hl))
    by_cases hp : p l
    · obtain ⟨before, after⟩ := fire _ _ _ List.mem_cons_self hs hp
      rw [List.countP_cons_of_pos hp, never after]
      exact ⟨Nat.le_refl 1, fun unready => absurd before unready⟩
    · rw [List.countP_cons_of_neg hp]
      exact ⟨once, fun unready => never (keep _ _ _ List.mem_cons_self hs unready)⟩

end Path

/-- Between two events of kind `p` there is one of kind `r`. -/
def Separated {ℓ : Type v} (p r : ℓ → Bool) (l : List ℓ) : Prop :=
  ∀ pre x mid y post, l = pre ++ x :: (mid ++ y :: post) → p x → p y → ∃ z ∈ mid, r z

namespace Separated

variable {ℓ : Type v} {p r : ℓ → Bool} {a : ℓ} {l : List ℓ}

theorem tail (h : Separated p r (a :: l)) : Separated p r l := by
  intro pre x mid y post hl
  exact h (a :: pre) x mid y post (by rw [hl, List.cons_append])

theorem countP_le_and (h : Separated p r l) :
    l.countP p ≤ 1 + l.countP r ∧
      ((∀ pre y post, l = pre ++ y :: post → p y → ∃ z ∈ pre, r z) → l.countP p ≤ l.countP r) := by
  induction l with
  | nil => simp
  | cons a l ih =>
    obtain ⟨free, opened⟩ := ih h.tail
    by_cases hp : p a
    · have after : l.countP p ≤ l.countP r := opened fun pre y post hl => by
        subst hl
        exact h [] a pre y post rfl hp
      rw [List.countP_cons_of_pos hp]
      refine ⟨?_, fun first => ?_⟩
      · have := l.countP_cons (p := r) (a := a)
        split at this <;> omega
      · obtain ⟨z, hz, -⟩ := first [] a l rfl hp
        cases hz
    · rw [List.countP_cons_of_neg hp]
      by_cases hr : r a
      · rw [List.countP_cons_of_pos hr]
        omega
      · rw [List.countP_cons_of_neg hr]
        refine ⟨free, fun first => opened fun pre y post hl hy => ?_⟩
        obtain ⟨z, hz, hrz⟩ := first (a :: pre) y post (by rw [hl, List.cons_append]) hy
        obtain rfl | hz := List.mem_cons.mp hz
        · exact absurd hrz hr
        · exact ⟨z, hz, hrz⟩

theorem countP_le (h : Separated p r l) : l.countP p ≤ 1 + l.countP r := h.countP_le_and.1

end Separated

end Arenyxa
