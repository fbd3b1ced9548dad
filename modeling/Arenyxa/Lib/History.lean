import Mathlib.Data.List.Basic
import Mathlib.Data.List.Induction

/-! Histories of a system whose environment chooses the actions: what is assumed of every step,
what held at some earlier moment, and induction over the history. -/

universe u v

namespace Arenyxa.History

variable {σ : Type u} {α : Type v} (step : σ → α → σ) (start : σ)

def run (actions : List α) : σ := actions.foldl step start

/-- Every action of the history is assumed to be so in the state that it meets. -/
def Meets (P : σ → α → Prop) (actions : List α) : Prop :=
  ∀ before action after, actions = before ++ action :: after → P (run step start before) action

/-- So it was at some moment of the history. -/
def Once (Q : σ → Prop) (actions : List α) : Prop :=
  ∃ before, before <+: actions ∧ Q (run step start before)

/-- The same assumption, read along the history. -/
def Each (P : σ → α → Prop) : σ → List α → Prop
  | _, [] => True
  | s, action :: rest => P s action ∧ Each P (step s action) rest

variable {step start} {P : σ → α → Prop} {Q : σ → Prop} {actions : List α} {action : α}

theorem run_snoc : run step start (actions ++ [action]) = step (run step start actions) action := by
  rw [run, List.foldl_append]
  rfl

theorem Meets.init (h : Meets step start P (actions ++ [action])) : Meets step start P actions := by
  rintro before a after rfl
  exact h before a (after ++ [action]) (by simp)

theorem Meets.last (h : Meets step start P (actions ++ [action])) :
    P (run step start actions) action :=
  h actions action [] rfl

theorem Meets.before {rest : List α} (h : Meets step start P (actions ++ rest)) : Meets step start P actions := by
  rintro before a after rfl
  exact h before a (after ++ rest) (by simp)

theorem Meets.imp {P' : σ → α → Prop} (h : Meets step start P actions)
    (imp : ∀ before a, Meets step start P before → P (run step start before) a → P' (run step start before) a) :
    Meets step start P' actions := by
  rintro before a after rfl
  exact imp before a h.before (h before a after rfl)

instance instDecidableEach [∀ s a, Decidable (P s a)] :
    ∀ (s : σ) (actions : List α), Decidable (Each step P s actions)
  | _, [] => isTrue trivial
  | s, action :: rest =>
    have := instDecidableEach (step s action) rest
    inferInstanceAs (Decidable (P s action ∧ Each step P (step s action) rest))

theorem meets_of_each (h : Each step P start actions) : Meets step start P actions := by
  rintro before action after rfl
  induction before generalizing start with
  | nil => exact h.1
  | cons first rest ih => exact ih h.2

theorem each_iff {P' : σ → α → Prop} (h : ∀ s a, P s a ↔ P' s a) :
    Each step P start actions ↔ Each step P' start actions := by
  induction actions generalizing start with
  | nil => exact Iff.rfl
  | cons action rest ih => exact and_congr (h start action) ih

theorem each_append {rest : List α} :
    Each step P start (actions ++ rest) ↔
      Each step P start actions ∧ Each step P (run step start actions) rest := by
  induction actions generalizing start with
  | nil => exact ⟨fun h => ⟨trivial, h⟩, And.right⟩
  | cons action actions ih => exact (and_congr_right fun _ => ih).trans and_assoc.symm

theorem Once.now (h : Q (run step start actions)) : Once step start Q actions :=
  ⟨actions, List.prefix_rfl, h⟩

theorem Once.snoc (h : Once step start Q actions) : Once step start Q (actions ++ [action]) := by
  obtain ⟨before, early, held⟩ := h
  exact ⟨before, early.trans (List.prefix_append _ _), held⟩

theorem induct {I : List α → σ → Prop} (first : I [] start)
    (next : ∀ actions action, P (run step start actions) action → I actions (run step start actions) →
      I (actions ++ [action]) (step (run step start actions) action))
    (actions : List α) (meets : Meets step start P actions) : I actions (run step start actions) := by
  induction actions using List.reverseRecOn with
  | nil => exact first
  | append_singleton actions action ih =>
    rw [run_snoc]
    exact next actions action meets.last (ih meets.init)

end Arenyxa.History
