import Mathlib.Init

/-! Pre- and postconditions for fallible code. `Sat x Q E` speaks about both ways a
computation can end, so that one derivation gives what a call leaves behind and
which errors it can raise. -/

universe u v w

namespace Arenyxa.Outcome

variable {ε : Type w} {α β : Type u} {γ : Type v}

/-- `x` returns a value in `Q` or raises an error in `E`. -/
def Sat (x : Except ε α) (Q : α → Prop) (E : ε → Prop) : Prop :=
  match x with
  | .ok a => Q a
  | .error e => E e

def require (p : Prop) [Decidable p] (e : ε) : Except ε Unit :=
  if p then .ok () else .error e

@[simp] theorem sat_ok {a : α} {Q : α → Prop} {E : ε → Prop} :
    Sat (.ok a : Except ε α) Q E ↔ Q a := Iff.rfl

@[simp] theorem sat_pure {a : α} {Q : α → Prop} {E : ε → Prop} :
    Sat (pure a : Except ε α) Q E ↔ Q a := Iff.rfl

@[simp] theorem sat_error {e : ε} {Q : α → Prop} {E : ε → Prop} :
    Sat (.error e : Except ε α) Q E ↔ E e := Iff.rfl

@[simp] theorem sat_bind {x : Except ε α} {f : α → Except ε β} {Q : β → Prop} {E : ε → Prop} :
    Sat (x >>= f) Q E ↔ Sat x (fun a => Sat (f a) Q E) E := by
  cases x with
  | ok a => exact Iff.rfl
  | error e => exact Iff.rfl

@[simp] theorem sat_map {x : Except ε α} {f : α → β} {Q : β → Prop} {E : ε → Prop} :
    Sat (f <$> x) Q E ↔ Sat x (fun a => Q (f a)) E := by
  cases x with
  | ok a => exact Iff.rfl
  | error e => exact Iff.rfl

@[simp] theorem sat_require {p : Prop} [Decidable p] {e : ε} {Q : Unit → Prop} {E : ε → Prop} :
    Sat (require p e) Q E ↔ (p → Q ()) ∧ (¬p → E e) := by
  by_cases h : p <;> simp [require, h]

theorem Sat.mono {x : Except ε α} {Q Q' : α → Prop} {E E' : ε → Prop} (h : Sat x Q E)
    (hQ : ∀ a, Q a → Q' a) (hE : ∀ e, E e → E' e) : Sat x Q' E' := by
  cases x with
  | ok a => exact hQ a h
  | error e => exact hE e h

theorem Sat.of_ok {x : Except ε α} {Q : α → Prop} {E : ε → Prop} {a : α}
    (h : Sat x Q E) (hx : x = .ok a) : Q a := by
  subst hx
  exact h

theorem Sat.of_error {x : Except ε α} {Q : α → Prop} {E : ε → Prop} {e : ε}
    (h : Sat x Q E) (hx : x = .error e) : E e := by
  subst hx
  exact h

theorem sat_of_eq {x : Except ε α} {Q : α → Prop} {E : ε → Prop} {a : α} (hx : x = .ok a)
    (h : Q a) : Sat x Q E := by
  subst hx
  exact h

theorem Sat.foldlM {f : α → γ → Except ε α} {I : List γ → α → Prop} {E : ε → Prop}
    (step : ∀ x rest a, I (x :: rest) a → Sat (f a x) (I rest) E) :
    ∀ (l : List γ) (a : α), I l a → Sat (l.foldlM f a) (I []) E := by
  intro l
  induction l with
  | nil => intro a h; exact h
  | cons x rest ih =>
    intro a h
    rw [List.foldlM_cons, sat_bind]
    exact (step x rest a h).mono (fun b hb => ih b hb) (fun _ he => he)

theorem foldl_induct {f : α → γ → α} {I : List γ → α → Prop}
    (step : ∀ x rest a, I (x :: rest) a → I rest (f a x)) :
    ∀ (l : List γ) (a : α), I l a → I [] (l.foldl f a) := by
  intro l
  induction l with
  | nil => intro a h; exact h
  | cons x rest ih => intro a h; exact ih (f a x) (step x rest a h)

theorem bind_eq_ok {x : Except ε α} {f : α → Except ε β} {b : β} :
    (x >>= f) = .ok b ↔ ∃ a, x = .ok a ∧ f a = .ok b := by
  cases x with
  | ok a =>
    constructor
    · intro h; exact ⟨a, rfl, h⟩
    · rintro ⟨_, ⟨⟩, h⟩; exact h
  | error e =>
    constructor
    · intro h; cases h
    · rintro ⟨_, ⟨⟩, _⟩

theorem map_eq_ok {x : Except ε α} {f : α → β} {b : β} :
    x.map f = .ok b ↔ ∃ a, x = .ok a ∧ f a = b := by
  cases x with
  | ok a =>
    constructor
    · intro h; exact ⟨a, rfl, Except.ok.inj h⟩
    · rintro ⟨_, ⟨⟩, rfl⟩; rfl
  | error e =>
    constructor
    · intro h; cases h
    · rintro ⟨_, ⟨⟩, _⟩

@[simp] theorem require_eq_ok {p : Prop} [Decidable p] {e : ε} {u : Unit} :
    require p e = .ok u ↔ p := by
  by_cases h : p <;> simp [require, h]

end Arenyxa.Outcome
