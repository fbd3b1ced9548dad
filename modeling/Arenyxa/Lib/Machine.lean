import Mathlib.Data.List.Induction

/-! Deterministic machines whose steps either commit or raise and leave the state alone.
The nondeterminism of the environment (clocks, random names, scheduling) sits in the
inputs, so a run is a list of inputs and every property of runs is about all such lists. -/

universe u v w x

namespace Arenyxa

structure Machine (σ : Type u) (ι : Type v) (ο : Type w) (ε : Type x) where
  exec : ι → σ → Except ε (ο × σ)

namespace Machine

variable {σ : Type u} {ι : Type v} {ο : Type w} {ε : Type x} (M : Machine σ ι ο ε)

def next (s : σ) (i : ι) : σ :=
  match M.exec i s with
  | .ok (_, s') => s'
  | .error _ => s

def run (s : σ) (is : List ι) : σ := is.foldl M.next s

/-- The committed steps of a run, each with the state it started from. -/
def commits : σ → List ι → List (σ × ι × ο)
  | _, [] => []
  | s, i :: is =>
    match M.exec i s with
    | .ok (o, s') => (s, i, o) :: commits s' is
    | .error _ => commits s is

variable {M}

theorem next_ok {s s' : σ} {i : ι} {o : ο} (h : M.exec i s = .ok (o, s')) : M.next s i = s' := by
  simp [next, h]

theorem next_error {s : σ} {i : ι} {e : ε} (h : M.exec i s = .error e) : M.next s i = s := by
  simp [next, h]

@[simp] theorem run_nil (s : σ) : M.run s [] = s := rfl

@[simp] theorem run_cons (s : σ) (i : ι) (is : List ι) :
    M.run s (i :: is) = M.run (M.next s i) is := rfl

@[simp] theorem run_append (s : σ) (is js : List ι) :
    M.run s (is ++ js) = M.run (M.run s is) js := by
  simp [run, List.foldl_append]

theorem run_snoc_ok {s s' : σ} {is : List ι} {i : ι} {o : ο}
    (h : M.exec i (M.run s is) = .ok (o, s')) : M.run s (is ++ [i]) = s' := by
  simp [next_ok h]

@[simp] theorem commits_nil (s : σ) : M.commits s [] = [] := rfl

theorem commits_cons_ok {s s' : σ} {i : ι} {o : ο} (is : List ι)
    (h : M.exec i s = .ok (o, s')) : M.commits s (i :: is) = (s, i, o) :: M.commits s' is := by
  simp [commits, h]

theorem commits_cons_error {s : σ} {i : ι} {e : ε} (is : List ι)
    (h : M.exec i s = .error e) : M.commits s (i :: is) = M.commits s is := by
  simp [commits, h]

theorem commits_append (s : σ) (is js : List ι) :
    M.commits s (is ++ js) = M.commits s is ++ M.commits (M.run s is) js := by
  induction is generalizing s with
  | nil => rfl
  | cons i is ih =>
    cases h : M.exec i s with
    | ok r =>
      obtain ⟨o, s'⟩ := r
      rw [List.cons_append, commits_cons_ok _ h, commits_cons_ok _ h, ih, run_cons, next_ok h,
        List.cons_append]
    | error e =>
      rw [List.cons_append, commits_cons_error _ h, commits_cons_error _ h, ih, run_cons,
        next_error h]

theorem commits_snoc_ok {s s' : σ} {is : List ι} {i : ι} {o : ο}
    (h : M.exec i (M.run s is) = .ok (o, s')) :
    M.commits s (is ++ [i]) = M.commits s is ++ [(M.run s is, i, o)] := by
  rw [commits_append, commits_cons_ok _ h, commits_nil]

theorem commits_snoc_error {s : σ} {is : List ι} {i : ι} {e : ε}
    (h : M.exec i (M.run s is) = .error e) : M.commits s (is ++ [i]) = M.commits s is := by
  rw [commits_append, commits_cons_error _ h, commits_nil, List.append_nil]

theorem run_induct {s : σ} {P : List ι → σ → Prop} (start : P [] s)
    (commit : ∀ is i o s', P is (M.run s is) → M.exec i (M.run s is) = .ok (o, s') →
      P (is ++ [i]) s')
    (skip : ∀ is i e, P is (M.run s is) → M.exec i (M.run s is) = .error e →
      P (is ++ [i]) (M.run s is)) :
    ∀ is, P is (M.run s is) := by
  intro is
  induction is using List.reverseRecOn with
  | nil => exact start
  | append_singleton is i ih =>
    cases h : M.exec i (M.run s is) with
    | ok r =>
      obtain ⟨o, s'⟩ := r
      rw [run_snoc_ok h]
      exact commit is i o s' ih h
    | error e =>
      rw [run_append, run_cons, run_nil, next_error h]
      exact skip is i e ih h

theorem run_invariant {s : σ} {P : σ → Prop} (start : P s)
    (commit : ∀ i o t t', P t → M.exec i t = .ok (o, t') → P t') (is : List ι) :
    P (M.run s is) :=
  run_induct (P := fun _ t => P t) start (fun _ i o t' h he => commit i o _ t' h he)
    (fun _ _ _ h _ => h) is

theorem mem_of_mem_commits {s : σ} {is : List ι} {x : σ × ι × ο} (h : x ∈ M.commits s is) :
    x.2.1 ∈ is := by
  induction is generalizing s with
  | nil => cases h
  | cons i is ih =>
    cases he : M.exec i s with
    | ok r =>
      rw [commits_cons_ok is he] at h
      obtain rfl | h := List.mem_cons.mp h
      · exact List.mem_cons_self
      · exact List.mem_cons_of_mem _ (ih h)
    | error e =>
      rw [commits_cons_error is he] at h
      exact List.mem_cons_of_mem _ (ih h)

theorem run_keep {s : σ} {is : List ι} {P : σ → Prop} (start : P s)
    (keep : ∀ t i o t', (t, i, o) ∈ M.commits s is → M.exec i t = .ok (o, t') → P t → P t') :
    P (M.run s is) := by
  induction is generalizing s with
  | nil => exact start
  | cons i is ih =>
    cases he : M.exec i s with
    | ok r =>
      rw [commits_cons_ok is he] at keep
      rw [run_cons, next_ok he]
      exact ih (keep _ _ _ _ List.mem_cons_self he start)
        fun t i o t' hm => keep t i o t' (List.mem_cons_of_mem _ hm)
    | error e =>
      rw [commits_cons_error is he] at keep
      rw [run_cons, next_error he]
      exact ih start keep

theorem commits_split {s : σ} {is : List ι} {pre post : List (σ × ι × ο)} {x : σ × ι × ο}
    (h : M.commits s is = pre ++ x :: post) :
    ∃ is₁ is₂ s', is = is₁ ++ x.2.1 :: is₂ ∧ M.run s is₁ = x.1 ∧ M.commits s is₁ = pre ∧
      M.exec x.2.1 x.1 = .ok (x.2.2, s') ∧ M.commits s' is₂ = post := by
  induction is generalizing s pre with
  | nil => simp at h
  | cons i is ih =>
    cases he : M.exec i s with
    | ok r =>
      rw [commits_cons_ok is he] at h
      cases pre with
      | nil =>
        obtain ⟨rfl, rest⟩ := List.cons.inj h
        exact ⟨[], is, r.2, rfl, rfl, rfl, he, rest⟩
      | cons y pre =>
        obtain ⟨rfl, rest⟩ := List.cons.inj h
        obtain ⟨is₁, is₂, s', rfl, hrun, hpre, hx, hpost⟩ := ih rest
        refine ⟨i :: is₁, is₂, s', rfl, ?_, ?_, hx, hpost⟩
        · rw [run_cons, next_ok he, hrun]
        · rw [commits_cons_ok is₁ he, hpre]
    | error e =>
      rw [commits_cons_error is he] at h
      obtain ⟨is₁, is₂, s', rfl, hrun, hpre, hx, hpost⟩ := ih h
      refine ⟨i :: is₁, is₂, s', rfl, ?_, ?_, hx, hpost⟩
      · rw [run_cons, next_error he, hrun]
      · rw [commits_cons_error is₁ he, hpre]

end Machine

end Arenyxa
