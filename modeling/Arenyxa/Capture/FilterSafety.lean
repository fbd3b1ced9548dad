import Arenyxa.Capture.FilterGrammar

/-! When a compiled filter raises: on the comparisons that the evaluation reaches. -/

namespace Arenyxa.Capture.Filter

open Outcome Registry

section Comparisons

variable {py : Builtins}

mutual

/-- Values that Python orders: numbers, texts, and lists whose first items that differ are such. -/
def Alike : Json → Json → Prop
  | .str _, .str _ => True
  | .arr xs, .arr ys => AlikeItems xs ys
  | a, b => (numberOf a).isSome ∧ (numberOf b).isSome

def AlikeItems : List Json → List Json → Prop
  | x :: xs, y :: ys => if equals x y then AlikeItems xs ys else Alike x y
  | _, _ => True

end

/-- The values of a field and of a literal that an operator takes. -/
def Comparable (op : Operator) (actual expected : Json) : Prop :=
  match op with
  | .eq | .ne => True
  | .contains | .startsWith | .endsWith => printable (orEmpty actual) = true ∧ printable expected = true
  | .isIn => (∃ items, expected = .arr items) ∨ ∃ t part, expected = .str t ∧ actual = .str part
  | .gt | .lt | .ge | .le => actual = .null ∨ Alike actual expected

variable {op : Operator}

theorem numbers_ok_iff {a b : Json} :
    (∃ value, (match numberOf a, numberOf b with
      | some x, some y => .ok (ordered Number.lt Number.le op x y)
      | _, _ => .error .typeError : Except EvalError Bool) = .ok value) ↔ (numberOf a).isSome ∧ (numberOf b).isSome := by
  cases numberOf a with
  | none => exact ⟨fun ⟨_, h⟩ => (nomatch h), fun h => (nomatch h.1)⟩
  | some x =>
    cases numberOf b with
    | none => exact ⟨fun ⟨_, h⟩ => (nomatch h), fun h => (nomatch h.2)⟩
    | some y => exact iff_of_true ⟨_, rfl⟩ ⟨rfl, rfl⟩

mutual

theorem order_ok_iff (a b : Json) : (∃ value, order op a b = .ok value) ↔ Alike a b := by
  unfold order
  split
  next => exact iff_of_true ⟨_, rfl⟩ (by rw [Alike]; trivial)
  next xs ys =>
    rw [Alike]
    exact orderItems_ok_iff xs ys
  next no_texts no_lists =>
    rw [Alike]
    · exact numbers_ok_iff
    · exact no_texts
    · exact no_lists

theorem orderItems_ok_iff (xs ys : List Json) : (∃ value, orderItems op xs ys = .ok value) ↔ AlikeItems xs ys := by
  cases xs with
  | nil =>
    unfold orderItems AlikeItems
    exact iff_of_true ⟨_, rfl⟩ trivial
  | cons x xs =>
    cases ys with
    | nil =>
      unfold orderItems AlikeItems
      exact iff_of_true ⟨_, rfl⟩ trivial
    | cons y ys =>
      rw [orderItems, AlikeItems]
      split
      next => exact orderItems_ok_iff xs ys
      next => exact order_ok_iff x y

end

theorem str_ok_iff (py : Builtins) {value : Json} : (∃ t, str py value = .ok t) ↔ printable value = true := by
  unfold str
  split
  next t => exact iff_of_true ⟨t, rfl⟩ rfl
  next =>
    split
    next printed => exact iff_of_true ⟨_, rfl⟩ printed
    next unprinted => exact ⟨fun ⟨_, h⟩ => (nomatch h), fun printed => absurd printed unprinted⟩

theorem texts_ok_iff {a b : Json} {f : Text → Text → Bool} :
    (∃ value, (do
      let x ← str py a
      let y ← str py b
      return f x y) = .ok value) ↔ printable a = true ∧ printable b = true := by
  rw [← str_ok_iff py, ← str_ok_iff py]
  simp only [bind_eq_ok]
  constructor
  · rintro ⟨value, x, first, y, second, -⟩
    exact ⟨⟨x, first⟩, y, second⟩
  · rintro ⟨⟨x, first⟩, y, second⟩
    exact ⟨f x y, x, first, y, second, rfl⟩

theorem isIn_ok_iff {actual expected : Json} : (∃ value, isIn actual expected = .ok value) ↔
    (∃ items, expected = .arr items) ∨ ∃ t part, expected = .str t ∧ actual = .str part := by
  unfold isIn
  split
  next items => exact iff_of_true ⟨_, rfl⟩ (.inl ⟨_, rfl⟩)
  next t part => exact iff_of_true ⟨_, rfl⟩ (.inr ⟨t, part, rfl, rfl⟩)
  next no_list no_text =>
    refine ⟨fun ⟨_, h⟩ => (nomatch h), ?_⟩
    rintro (⟨items, rfl⟩ | ⟨t, part, rfl, rfl⟩)
    · exact (no_list items rfl).elim
    · exact (no_text t part rfl rfl).elim

theorem guarded_ok_iff {actual expected : Json} :
    (∃ value, (match actual with
      | .null => .ok false
      | actual => order op actual expected : Except EvalError Bool) = .ok value) ↔ actual = .null ∨ Alike actual expected := by
  split
  next => exact iff_of_true ⟨_, rfl⟩ (.inl rfl)
  next some_value => rw [order_ok_iff, or_iff_right some_value]

theorem evaluate_ok_iff (op : Operator) (actual expected : Json) :
    (∃ value, evaluate py op actual expected = .ok value) ↔ Comparable op actual expected := by
  cases op with
  | eq | ne => exact iff_of_true ⟨_, rfl⟩ trivial
  | contains => exact texts_ok_iff.trans and_comm
  | startsWith | endsWith => exact texts_ok_iff
  | isIn => exact isIn_ok_iff
  | gt | lt | ge | le => exact guarded_ok_iff

end Comparisons

section Runs

variable (py : Builtins) (event : NetworkEvent)

mutual

/-- Every comparison that the evaluation reaches is one of comparable values. -/
def Disjunction.Safe : Disjunction → Prop
  | .one c => c.Safe
  | .or c rest => c.Safe ∧ (c.truth py event = false → rest.Safe)

def Conjunction.Safe : Conjunction → Prop
  | .one f => f.Safe
  | .and f rest => f.Safe ∧ (f.truth py event = true → rest.Safe)

def Factor.Safe : Factor → Prop
  | .group inner => inner.Safe
  | .comparison field operator expected =>
    ∀ op ∈ supportedOperators.lookup operator.value, ∀ value ∈ expected.value py, Comparable op (event.field field.value) value

end

variable {py event}

mutual

theorem Disjunction.eval_ok_iff (d : Disjunction) (read : d.Read) (converts : d.Converts py) :
    (∃ value, d.eval py event = .ok value) ↔ d.Safe py event := by
  cases d with
  | one c =>
    rw [Disjunction.eval, Disjunction.Safe]
    exact c.eval_ok_iff read converts
  | or c rest =>
    rw [Disjunction.eval, Disjunction.Safe, ← c.eval_ok_iff read.1 converts.1, ← rest.eval_ok_iff read.2 converts.2]
    constructor
    · rintro ⟨value, h⟩
      obtain ⟨first, its, later⟩ := bind_eq_ok.mp h
      refine ⟨⟨first, its⟩, fun no => ?_⟩
      rw [c.eval_truth its] at no
      subst no
      exact ⟨value, later⟩
    · rintro ⟨⟨first, its⟩, later⟩
      cases first with
      | true => exact ⟨true, bind_eq_ok.mpr ⟨true, its, rfl⟩⟩
      | false =>
        obtain ⟨value, last⟩ := later (c.eval_truth its)
        exact ⟨value, bind_eq_ok.mpr ⟨false, its, last⟩⟩

theorem Conjunction.eval_ok_iff (c : Conjunction) (read : c.Read) (converts : c.Converts py) :
    (∃ value, c.eval py event = .ok value) ↔ c.Safe py event := by
  cases c with
  | one f =>
    rw [Conjunction.eval, Conjunction.Safe]
    exact f.eval_ok_iff read converts
  | and f rest =>
    rw [Conjunction.eval, Conjunction.Safe, ← f.eval_ok_iff read.1 converts.1, ← rest.eval_ok_iff read.2 converts.2]
    constructor
    · rintro ⟨value, h⟩
      obtain ⟨first, its, later⟩ := bind_eq_ok.mp h
      refine ⟨⟨first, its⟩, fun yes => ?_⟩
      rw [f.eval_truth its] at yes
      subst yes
      exact ⟨value, later⟩
    · rintro ⟨⟨first, its⟩, later⟩
      cases first with
      | false => exact ⟨false, bind_eq_ok.mpr ⟨false, its, rfl⟩⟩
      | true =>
        obtain ⟨value, last⟩ := later (f.eval_truth its)
        exact ⟨value, bind_eq_ok.mpr ⟨true, its, last⟩⟩

theorem Factor.eval_ok_iff (f : Factor) (read : f.Read) (converts : f.Converts py) :
    (∃ value, f.eval py event = .ok value) ↔ f.Safe py event := by
  cases f with
  | group inner =>
    rw [Factor.eval, Factor.Safe]
    exact inner.eval_ok_iff read converts
  | comparison field operator expected =>
    obtain ⟨op, supported⟩ := Option.isSome_iff_exists.mp read.2.1
    obtain ⟨value, valued⟩ := Option.isSome_iff_exists.mp converts
    rw [Factor.eval, Factor.Safe, supported, valued]
    simp only [Option.mem_some_iff, forall_eq']
    exact evaluate_ok_iff op (event.field field.value) value

end

/-- A compiled filter returns a value exactly where no comparison that it reaches raises. -/
theorem compiled_returns_iff {s : Text} {p : Predicate} (compiled : compile py s = .ok p) (event : NetworkEvent) :
    (∃ value, p event = .ok value) ↔
      ∀ tree : Disjunction, Lexes py s tree.tokens [] → tree.Read → tree.Safe py event := by
  rcases compile_iff.mp compiled with ⟨spaces, rfl⟩ | ⟨tree, lexes, read, converts, rfl⟩
  · refine iff_of_true ⟨true, rfl⟩ fun tree lexes => ?_
    exact absurd (lexes_unique lexes (.blank spaces)).1 tree.tokens_ne_nil
  · rw [tree.eval_ok_iff read converts]
    refine ⟨fun safe tree' lexes' read' => ?_, fun all => all tree lexes read⟩
    rw [(tree_unique lexes' read' lexes read).1]
    exact safe

/-- A request to a host of the loopback. -/
def sampleEvent : NetworkEvent where
  protocol := text "http"
  direction := text "outbound"
  size := 512
  processRef := none
  method := some (text "GET")
  url := none
  status := some 200
  host := some (text "localhost")
  metadata := []

/-- What a compiled expression makes of an event, where it compiles. -/
def outcome (expression : String) (event : NetworkEvent) : Option (Except EvalError Bool) :=
  (compile ascii (text expression)).toOption.map fun p => p event

theorem outcome_eq {expression : String} {event : NetworkEvent} {result : Except EvalError Bool}
    (h : outcome expression event = some result) : ∃ p, compile ascii (text expression) = .ok p ∧ p event = result := by
  rw [outcome] at h
  cases compiled : compile ascii (text expression) with
  | error error =>
    rw [compiled] at h
    cases h
  | ok p =>
    rw [compiled] at h
    exact ⟨p, rfl, Option.some.inj h⟩

theorem compiled_returns_sample : ∃ p, compile ascii (text "http.status >= 400 || http.method in [GET, POST]") = .ok p ∧
    p sampleEvent = .ok true ∧ ∀ tree : Disjunction,
      Lexes ascii (text "http.status >= 400 || http.method in [GET, POST]") tree.tokens [] → tree.Read →
        tree.Safe ascii sampleEvent := by
  have its : outcome "http.status >= 400 || http.method in [GET, POST]" sampleEvent = some (.ok true) := by decide +kernel
  obtain ⟨p, compiled, returns⟩ := outcome_eq its
  exact ⟨p, compiled, returns, (compiled_returns_iff compiled sampleEvent).mp ⟨true, returns⟩⟩

/-- A text is compared with a number. -/
theorem compiled_raises : ∃ p, compile ascii (text "http.method > 5") = .ok p ∧ p sampleEvent = .error .typeError :=
  outcome_eq (by decide +kernel)

end Runs

end Arenyxa.Capture.Filter
