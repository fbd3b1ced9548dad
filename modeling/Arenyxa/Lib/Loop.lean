import Mathlib.Order.WellFounded

/-! Loops as repeated steps, with fuel: nothing is returned when it runs out. -/

universe u v

namespace Arenyxa.Loop

variable {σ : Type u} (step : σ → Option σ)

/-- Steps until there is none, within so many rounds. -/
def loop : Nat → σ → Option σ
  | 0, _ => none
  | fuel + 1, s =>
    match step s with
    | none => some s
    | some s' => loop fuel s'

variable {step} {s s' t t' : σ} {fuel fuel' : Nat}

theorem loop_none (h : step s = none) : loop step (fuel + 1) s = some s := by
  rw [loop, h]

theorem loop_some (h : step s = some s') : loop step (fuel + 1) s = loop step fuel s' := by
  rw [loop, h]

theorem loop_invariant {P : σ → Prop} (keep : ∀ s s', P s → step s = some s' → P s')
    (start : P s) (h : loop step fuel s = some t) : P t ∧ step t = none := by
  induction fuel generalizing s with
  | zero => cases h
  | succ fuel ih =>
    cases next : step s with
    | none =>
      rw [loop_none next] at h
      cases h
      exact ⟨start, next⟩
    | some s' =>
      rw [loop_some next] at h
      exact ih (keep s s' start next) h

theorem loop_terminates {β : Type v} {r : β → β → Prop} (wf : WellFounded r) (measure : σ → β)
    {P : σ → Prop} (keep : ∀ s s', P s → step s = some s' → P s')
    (descend : ∀ s s', P s → step s = some s' → r (measure s') (measure s)) (start : P s) :
    ∃ fuel t, loop step fuel s = some t := by
  induction at_measure : measure s using wf.induction generalizing s with
  | h b ih =>
    subst at_measure
    cases next : step s with
    | none => exact ⟨1, s, loop_none next⟩
    | some s' =>
      obtain ⟨fuel, t, h⟩ := ih _ (descend s s' start next) (keep s s' start next) rfl
      exact ⟨fuel + 1, t, (loop_some next).trans h⟩

theorem loop_unique (h : loop step fuel s = some t) (h' : loop step fuel' s = some t') : t = t' := by
  induction fuel generalizing s fuel' with
  | zero => cases h
  | succ fuel ih =>
    cases fuel' with
    | zero => cases h'
    | succ fuel' =>
      cases next : step s with
      | none =>
        rw [loop_none next] at h h'
        exact Option.some.inj (h.symm.trans h')
      | some s' =>
        rw [loop_some next] at h h'
        exact ih h h'

end Arenyxa.Loop
