import Arenyxa.Lib.Cursor
import Arenyxa.Lib.Dict
import Mathlib.Algebra.Order.Ring.Rat

/-! The differences between two JSON documents, and the ones that a comparison lists. -/

namespace Arenyxa.Replay

open Lib (Ascending lookup_of_mem)

inductive Scalar
  | null
  | bool (value : Bool)
  | int (value : Int)
  | float (value : ℚ)
  | infinite (negative : Bool)
  | str (value : String)
  deriving DecidableEq

/-- A document as `json.loads` gives it, the fields of an object in the order of their keys. -/
inductive Doc
  | scalar (value : Scalar)
  | arr (items : List Doc)
  | obj (fields : List (String × Doc))

/-- `type(value).__name__` -/
def Scalar.type : Scalar → String
  | .null => "NoneType"
  | .bool _ => "bool"
  | .int _ => "int"
  | .float _ | .infinite _ => "float"
  | .str _ => "str"

def Doc.type : Doc → String
  | .scalar value => value.type
  | .arr _ => "list"
  | .obj _ => "dict"

inductive Change
  | type (path before after : String)
  | removed (path : String)
  | added (path : String)
  | length (path : String) (before after : Nat)
  | changed (path : String) (before after : Scalar)

/-- A key that only one of two objects has. -/
def Change.keyed : Change → Bool
  | .removed _ | .added _ => true
  | _ => false

def here (path : String) : String := if path = "" then "$" else path

def field (path key : String) : String := here path ++ "." ++ key

def item (path : String) (index : Nat) : String := here path ++ "[" ++ toString index ++ "]"

abbrev Fields := List (String × Doc)

def keysBut (fields others : Fields) : List String :=
  (fields.map Prod.fst).filter fun key => (others.lookup key).isNone

/-- What the walk has found, and whether it has stopped. -/
structure Progress where
  changes : List Change
  truncated : Bool

def Progress.report (s : Progress) (c : Change) : Progress := { s with changes := s.changes ++ [c] }

def Progress.stop (s : Progress) : Progress := { s with truncated := true }

/-- The value of a number, which a boolean is. -/
def Scalar.number? : Scalar → Option ℚ
  | .bool value => some (if value then 1 else 0)
  | .int value => some value
  | .float value => some value
  | _ => none

/-- `==` -/
def Scalar.looseEq (a b : Scalar) : Bool := a = b || (a.number?.isSome && a.number? = b.number?)

mutual

/-- `==`, for which dictionaries are equal where their keys and values are. -/
def looseEq : Doc → Doc → Bool
  | .scalar a, .scalar b => a.looseEq b
  | .arr items, .arr items' => items.length = items'.length && looseEqItems items items'
  | .obj fields, .obj fields' => fields.length = fields'.length && looseEqFields fields fields'
  | _, _ => false

def looseEqItems : List Doc → List Doc → Bool
  | a :: items, b :: items' => looseEq a b && looseEqItems items items'
  | _, _ => true

def looseEqFields : Fields → Fields → Bool
  | (key, a) :: fields, fields' =>
    (match fields'.lookup key with
      | none => false
      | some b => looseEq a b) && looseEqFields fields fields'
  | [], _ => true

end

section Walk

variable (maxChanges : Int)

/-- A loop over the keys that one object lacks. -/
def reportKeys (change : String → Change) : List String → Progress → Progress
  | [], s => s
  | key :: keys, s =>
    let s := s.report (change key)
    if maxChanges ≤ s.changes.length then s.stop else reportKeys change keys s

mutual

def walk : Doc → Doc → String → Progress → Progress
  | a, b, path, s =>
    if max 1 maxChanges ≤ s.changes.length then s.stop
    else if a.type ≠ b.type then s.report (.type (here path) a.type b.type)
    else match a, b with
      | .obj fields, .obj fields' =>
        let s := reportKeys maxChanges (fun key => .removed (field path key)) (keysBut fields fields') s
        if s.truncated then s
        else
          let s := reportKeys maxChanges (fun key => .added (field path key)) (keysBut fields' fields) s
          if s.truncated then s else walkFields fields fields' path s
      | .arr items, .arr items' =>
        let s := if items.length ≠ items'.length then s.report (.length (here path) items.length items'.length) else s
        walkItems items items' path 0 s
      | .scalar value, .scalar value' =>
        if value ≠ value' then s.report (.changed (here path) value value') else s
      | _, _ => s

def walkItems : List Doc → List Doc → String → Nat → Progress → Progress
  | a :: items, b :: items', path, index, s =>
    let s := walk a b (item path index) s
    if s.truncated then s else walkItems items items' path (index + 1) s
  | _, _, _, _, s => s

def walkFields : Fields → Fields → String → Progress → Progress
  | (key, a) :: fields, fields', path, s =>
    match fields'.lookup key with
    | none => walkFields fields fields' path s
    | some b =>
      let s := walk a b (field path key) s
      if s.truncated then s else walkFields fields fields' path s
  | [], _, _, s => s

end

end Walk

structure Diff where
  equal : Bool
  changes : List Change
  truncated : Bool

/-- `_json_diff` -/
def jsonDiff (left right : Doc) (maxChanges : Int) : Diff :=
  let s := walk maxChanges left right "" ⟨[], false⟩
  ⟨s.changes = [] && !s.truncated, s.changes, s.truncated⟩

structure Comparison where
  structuralEqual : Bool
  leftType : String
  rightType : String
  jsonDiff : Diff

/-- The part of `compare` about two bodies that are JSON. -/
def compare (left right : Doc) (maxJsonChanges : Int) : Comparison :=
  ⟨looseEq left right, left.type, right.type, jsonDiff left right maxJsonChanges⟩

section Trace

/-- What the walk does when nothing stops it: it comes to a pair of values, or it reports a change. -/
inductive Step
  | visit
  | report (c : Change)

def Step.change? : Step → Option Change
  | .visit => none
  | .report c => some c

mutual

def steps : Doc → Doc → String → List Step
  | a, b, path =>
    .visit :: if a.type ≠ b.type then [.report (.type (here path) a.type b.type)]
    else match a, b with
      | .obj fields, .obj fields' =>
        (keysBut fields fields').map (fun key => .report (.removed (field path key))) ++
          ((keysBut fields' fields).map (fun key => .report (.added (field path key))) ++ stepsFields fields fields' path)
      | .arr items, .arr items' =>
        (if items.length ≠ items'.length then [.report (.length (here path) items.length items'.length)] else []) ++
          stepsItems items items' path 0
      | .scalar value, .scalar value' =>
        if value ≠ value' then [.report (.changed (here path) value value')] else []
      | _, _ => []

def stepsItems : List Doc → List Doc → String → Nat → List Step
  | a :: items, b :: items', path, index => steps a b (item path index) ++ stepsItems items items' path (index + 1)
  | _, _, _, _ => []

def stepsFields : Fields → Fields → String → List Step
  | (key, a) :: fields, fields', path =>
    match fields'.lookup key with
    | none => stepsFields fields fields' path
    | some b => steps a b (field path key) ++ stepsFields fields fields' path
  | [], _, _ => []

end

/-- The walk along a trace. It stops at a pair when the list is full, and after a missing key that fills it. -/
def run (maxChanges : Int) : List Step → Progress → Progress
  | [], s => s
  | .visit :: rest, s => if max 1 maxChanges ≤ s.changes.length then s.stop else run maxChanges rest s
  | .report c :: rest, s =>
    if c.keyed = true ∧ maxChanges ≤ (s.report c).changes.length then (s.report c).stop
    else run maxChanges rest (s.report c)

variable {n : Int} {s : Progress} {rest rest' : List Step}

@[simp] theorem report_truncated (s : Progress) (c : Change) : (s.report c).truncated = s.truncated := rfl

@[simp] theorem stop_truncated (s : Progress) : s.stop.truncated = true := rfl

theorem run_append (fresh : s.truncated = false) :
    run n (rest ++ rest') s = if (run n rest s).truncated then run n rest s else run n rest' (run n rest s) := by
  induction rest generalizing s with
  | nil => rw [List.nil_append, run, if_neg (by rw [fresh]; exact nofun)]
  | cons step rest ih =>
    cases step with
    | visit =>
      rw [List.cons_append, run, run]
      split
      · rw [if_pos (stop_truncated s)]
      · exact ih fresh
    | report c =>
      rw [List.cons_append, run, run]
      split
      · rw [if_pos (stop_truncated _)]
      · exact ih fresh

theorem reportKeys_eq_run (change : String → Change) (keyed : ∀ key, (change key).keyed = true) (keys : List String) :
    reportKeys n change keys s = run n (keys.map fun key => .report (change key)) s := by
  induction keys generalizing s with
  | nil => rfl
  | cons key keys ih =>
    rw [reportKeys, List.map_cons, run]
    simp only [keyed, true_and, ih]

theorem run_report (c : Change) (plain : c.keyed = false) : run n [.report c] s = s.report c := by
  rw [run, if_neg (by rw [plain]; exact fun its => nomatch its.1), run]

mutual

theorem walk_eq_run (a b : Doc) (path : String) (s : Progress) (fresh : s.truncated = false) :
    walk n a b path s = run n (steps a b path) s := by
  rw [walk.eq_def, steps.eq_def]
  dsimp only
  rw [run]
  split
  · rfl
  split
  · exact (run_report _ rfl).symm
  cases a with
  | scalar value =>
    cases b with
    | scalar value' =>
      dsimp only
      split
      · exact (run_report _ rfl).symm
      · rfl
    | _ => rfl
  | arr items =>
    cases b with
    | arr items' =>
      dsimp only
      rw [run_append fresh]
      split
      · rw [run_report _ rfl, if_neg (by rw [report_truncated, fresh]; exact nofun)]
        exact walkItems_eq_run items items' path 0 _ fresh
      · rw [run, if_neg (by rw [fresh]; exact nofun)]
        exact walkItems_eq_run items items' path 0 _ fresh
    | _ => rfl
  | obj fields =>
    cases b with
    | obj fields' =>
      dsimp only
      rw [reportKeys_eq_run _ fun _ => rfl, reportKeys_eq_run _ fun _ => rfl, run_append fresh]
      split
      · rfl
      next removed =>
        rw [run_append (Bool.eq_false_iff.mpr removed)]
        split
        · rfl
        next added => exact walkFields_eq_run fields fields' path _ (Bool.eq_false_iff.mpr added)
    | _ => rfl

theorem walkItems_eq_run (items items' : List Doc) (path : String) (index : Nat) (s : Progress)
    (fresh : s.truncated = false) : walkItems n items items' path index s = run n (stepsItems items items' path index) s := by
  cases items with
  | nil => rw [walkItems.eq_def, stepsItems.eq_def, run]
  | cons a items =>
    cases items' with
    | nil => rw [walkItems.eq_def, stepsItems.eq_def, run]
    | cons b items' =>
      rw [walkItems, stepsItems, run_append fresh, walk_eq_run a b _ s fresh]
      split
      · rfl
      next going => exact walkItems_eq_run items items' path _ _ (Bool.eq_false_iff.mpr going)

theorem walkFields_eq_run (fields fields' : Fields) (path : String) (s : Progress) (fresh : s.truncated = false) :
    walkFields n fields fields' path s = run n (stepsFields fields fields' path) s := by
  cases fields with
  | nil => rw [walkFields, stepsFields, run]
  | cons pair fields =>
    obtain ⟨key, a⟩ := pair
    rw [walkFields, stepsFields]
    cases fields'.lookup key with
    | none => exact walkFields_eq_run fields fields' path s fresh
    | some b =>
      dsimp only
      rw [run_append fresh, walk_eq_run a b _ s fresh]
      split
      · rfl
      next going => exact walkFields_eq_run fields fields' path _ (Bool.eq_false_iff.mpr going)

end

end Trace

section Budget

variable {n : Int} {s : Progress} {rest rest' : List Step}

def changesOf (rest : List Step) : List Change := rest.filterMap Step.change?

@[simp] theorem changesOf_append : changesOf (rest ++ rest') = changesOf rest ++ changesOf rest' := List.filterMap_append

/-- The trace does not start with a change. -/
def Opens (rest : List Step) : Prop := ∀ c, rest.head? ≠ some (.report c)

/-- Only a pair of values follows a change that is not a missing key. -/
def Guarded : List Step → Prop
  | [] => True
  | .visit :: rest => Guarded rest
  | .report c :: rest => (c.keyed = false → Opens rest) ∧ Guarded rest

theorem guarded_append (first : Guarded rest) (second : Guarded rest') (opens : Opens rest') : Guarded (rest ++ rest') := by
  induction rest with
  | nil => exact second
  | cons step rest ih =>
    cases step with
    | visit => exact ih first
    | report c =>
      refine ⟨fun plain => ?_, ih first.2⟩
      cases rest with
      | nil => exact opens
      | cons second rest => exact first.1 plain

/-- Nothing follows the last change of the trace, which is not a missing key. -/
def Quiet (rest : List Step) : Prop := ∀ step, rest.getLast? = some step → ∃ c, step = .report c ∧ c.keyed = false

theorem not_quiet_of_none (none : changesOf rest = []) (first : Step) (keyed : ∀ c, first = .report c → c.keyed = true) :
    ¬Quiet (first :: rest) := by
  intro quiet
  obtain ⟨last, its⟩ : ∃ last, (first :: rest).getLast? = some last := ⟨_, List.getLast?_cons⟩
  obtain ⟨c, rfl, plain⟩ := quiet last its
  rcases List.mem_cons.mp (List.mem_of_getLast? its) with same | mem
  · exact absurd (keyed c same.symm) (by rw [plain]; exact nofun)
  · have listed : c ∈ changesOf rest := List.mem_filterMap.mpr ⟨_, mem, rfl⟩
    rw [none] at listed
    cases listed

theorem quiet_cons {first second : Step} : Quiet (first :: second :: rest) ↔ Quiet (second :: rest) := by
  rw [Quiet, Quiet, List.getLast?_cons_cons]

/-- A trace is listed up to the budget, and is cut off where it has more changes, or just as many and goes on. -/
theorem run_spec (one : 1 ≤ n) (fresh : s.truncated = false) (guarded : Guarded rest) (room : s.changes.length ≤ n)
    (full : s.changes.length = n → Opens rest) :
    (run n rest s).changes = s.changes ++ (changesOf rest).take (n - s.changes.length).toNat ∧
      ((run n rest s).truncated = true ↔ n < s.changes.length + (changesOf rest).length ∨
        s.changes.length + (changesOf rest).length = n ∧ ¬Quiet rest) := by
  have top : max 1 n = n := max_eq_right one
  induction rest generalizing s with
  | nil =>
    refine ⟨by simp [run, changesOf], ?_⟩
    rw [run, fresh]
    refine ⟨nofun, ?_⟩
    rintro (more | ⟨-, loud⟩)
    · simp [changesOf] at more
      omega
    · exact absurd nofun loud
  | cons step rest ih =>
    cases step with
    | visit =>
      have same : changesOf (.visit :: rest) = changesOf rest := rfl
      rw [run, top, same]
      split
      next stop =>
        refine ⟨by rw [show (n - s.changes.length).toNat = 0 by omega, List.take_zero, List.append_nil]; rfl,
          iff_of_true rfl ?_⟩
        rcases Nat.eq_zero_or_pos (changesOf rest).length with none | some
        · exact .inr ⟨by omega, not_quiet_of_none (List.length_eq_zero_iff.mp none) _ nofun⟩
        · exact .inl (by omega)
      next going =>
        obtain ⟨changes, truncated⟩ := ih fresh guarded room (fun its => absurd its.ge going)
        refine ⟨changes, truncated.trans ?_⟩
        cases rest with
        | nil =>
          have : (changesOf []).length = 0 := rfl
          constructor <;> intro its <;> omega
        | cons second rest => rw [quiet_cons]
    | report c =>
      have same : changesOf (.report c :: rest) = c :: changesOf rest := rfl
      have grown : (s.report c).changes.length = s.changes.length + 1 := List.length_append
      have less : (s.changes.length : Int) < n := lt_of_le_of_ne room fun its => full its c rfl
      obtain ⟨left, its⟩ : ∃ left, (n - s.changes.length).toNat = left + 1 := ⟨(n - s.changes.length).toNat - 1, by omega⟩
      rw [run, same, its, List.take_succ_cons, List.length_cons, grown]
      split
      next stop =>
        refine ⟨?_, iff_of_true rfl ?_⟩
        · rw [show left = 0 by omega, List.take_zero]
          rfl
        · rcases Nat.eq_zero_or_pos (changesOf rest).length with none | some
          · refine .inr ⟨by omega, not_quiet_of_none (List.length_eq_zero_iff.mp none) _ fun c' same => ?_⟩
            cases same
            exact stop.1
          · exact .inl (by omega)
      next going =>
        obtain ⟨changes, truncated⟩ := ih (s := s.report c) fresh guarded.2 (by omega) fun equal =>
          guarded.1 (Bool.eq_false_iff.mpr fun keyed => going ⟨keyed, by omega⟩)
        refine ⟨?_, truncated.trans ?_⟩
        · rw [changes, grown, show (n - ((s.changes.length + 1 : Nat) : Int)).toNat = left by omega]
          exact List.append_assoc _ _ _
        · rw [grown]
          cases rest with
          | nil =>
            have none : (changesOf []).length = 0 := rfl
            have loud : s.changes.length + 1 = n → Quiet [.report c] := fun equal step last => by
              cases last
              exact ⟨c, rfl, Bool.eq_false_iff.mpr fun keyed => going ⟨keyed, by omega⟩⟩
            have empty : Quiet [] := nofun
            constructor
            · rintro (more | ⟨-, not⟩)
              · omega
              · exact absurd empty not
            · rintro (more | ⟨equal, not⟩)
              · omega
              · exact absurd (loud (by omega)) not
          | cons second rest =>
            rw [quiet_cons]
            constructor <;> intro its <;> rcases its with more | ⟨equal, not⟩
            · exact .inl (by omega)
            · exact .inr ⟨by omega, not⟩
            · exact .inl (by omega)
            · exact .inr ⟨by omega, not⟩

end Budget

section Differences

variable {path : String} {a b left right : Doc} {fields fields' : Fields}

/-- The fields of every object stand in the order of their keys, each of which it has once. -/
inductive Proper : Doc → Prop
  | scalar (value : Scalar) : Proper (.scalar value)
  | arr {items : List Doc} : (∀ a ∈ items, Proper a) → Proper (.arr items)
  | obj {fields : Fields} : Ascending fields → (∀ f ∈ fields, Proper f.2) → Proper (.obj fields)

/-- Where two documents differ, and how. -/
inductive Differs : Doc → Doc → String → Change → Prop
  | type {a b : Doc} {path : String} : a.type ≠ b.type → Differs a b path (.type (here path) a.type b.type)
  | changed {v w : Scalar} {path : String} : v.type = w.type → v ≠ w →
      Differs (.scalar v) (.scalar w) path (.changed (here path) v w)
  | length {items items' : List Doc} {path : String} : items.length ≠ items'.length →
      Differs (.arr items) (.arr items') path (.length (here path) items.length items'.length)
  | item {items items' : List Doc} {path : String} {i : Nat} {a b : Doc} {c : Change} : items[i]? = some a →
      items'[i]? = some b → Differs a b (item path i) c → Differs (.arr items) (.arr items') path c
  | removed {fields fields' : Fields} {path key : String} : key ∈ keysBut fields fields' →
      Differs (.obj fields) (.obj fields') path (.removed (field path key))
  | added {fields fields' : Fields} {path key : String} : key ∈ keysBut fields' fields →
      Differs (.obj fields) (.obj fields') path (.added (field path key))
  | field {fields fields' : Fields} {path key : String} {a b : Doc} {c : Change} : (key, a) ∈ fields →
      fields'.lookup key = some b → Differs a b (field path key) c → Differs (.obj fields) (.obj fields') path c

def differences (left right : Doc) : List Change := changesOf (steps left right "")

theorem steps_opens (a b : Doc) (path : String) : Opens (steps a b path) := by
  intro c its
  rw [steps.eq_def] at its
  cases its

theorem opens_append {rest rest' : List Step} (first : Opens rest) (second : Opens rest') : Opens (rest ++ rest') := by
  cases rest with
  | nil => exact second
  | cons => exact first

theorem stepsItems_opens : ∀ (items items' : List Doc) (path : String) (i : Nat), Opens (stepsItems items items' path i)
  | a :: items, b :: items', path, i => by
    rw [stepsItems]
    exact opens_append (steps_opens a b _) (stepsItems_opens items items' path (i + 1))
  | [], _, _, _ => by rw [stepsItems.eq_def]; exact nofun
  | _ :: _, [], _, _ => by rw [stepsItems.eq_def]; exact nofun

theorem stepsFields_opens (fields fields' : Fields) (path : String) : Opens (stepsFields fields fields' path) := by
  induction fields with
  | nil => rw [stepsFields]; exact nofun
  | cons f fields ih =>
    rw [stepsFields]
    split
    · exact ih
    · exact opens_append (steps_opens _ _ _) ih

theorem guarded_keys (change : String → Change) (keyed : ∀ key, (change key).keyed = true) (keys : List String) {rest : List Step}
    (guarded : Guarded rest) : Guarded (keys.map (fun key => .report (change key)) ++ rest) := by
  induction keys with
  | nil => exact guarded
  | cons key keys ih => exact ⟨fun plain => absurd (keyed key) (by rw [plain]; exact nofun), ih⟩

mutual

theorem steps_guarded (a b : Doc) (path : String) : Guarded (steps a b path) := by
  rw [steps.eq_def]
  dsimp only
  split
  · exact ⟨fun _ => nofun, trivial⟩
  cases a with
  | scalar v =>
    cases b with
    | scalar w =>
      dsimp only
      split
      · exact ⟨fun _ => nofun, trivial⟩
      · trivial
    | _ => trivial
  | arr items =>
    cases b with
    | arr items' =>
      refine guarded_append ?_ (stepsItems_guarded items items' path 0) (stepsItems_opens items items' path 0)
      split
      · exact ⟨fun _ => nofun, trivial⟩
      · trivial
    | _ => trivial
  | obj fields =>
    cases b with
    | obj fields' =>
      exact guarded_keys _ (fun _ => rfl) _ (guarded_keys _ (fun _ => rfl) _ (stepsFields_guarded fields fields' path))
    | _ => trivial

theorem stepsItems_guarded (items items' : List Doc) (path : String) (i : Nat) : Guarded (stepsItems items items' path i) := by
  cases items with
  | nil => rw [stepsItems.eq_def]; trivial
  | cons a items =>
    cases items' with
    | nil => rw [stepsItems.eq_def]; trivial
    | cons b items' =>
      rw [stepsItems]
      exact guarded_append (steps_guarded a b _) (stepsItems_guarded items items' path (i + 1))
        (stepsItems_opens items items' path (i + 1))

theorem stepsFields_guarded (fields fields' : Fields) (path : String) : Guarded (stepsFields fields fields' path) := by
  cases fields with
  | nil => rw [stepsFields]; trivial
  | cons f fields =>
    obtain ⟨key, a⟩ := f
    rw [stepsFields]
    cases fields'.lookup key with
    | none => exact stepsFields_guarded fields fields' path
    | some b =>
      exact guarded_append (steps_guarded a b _) (stepsFields_guarded fields fields' path)
        (stepsFields_opens fields fields' path)

end

theorem Scalar.type_ne (v : Scalar) : v.type ≠ "list" ∧ v.type ≠ "dict" := by
  cases v <;> simp [Scalar.type]

theorem changesOf_keys (change : String → Change) (keys : List String) :
    changesOf (keys.map fun key => .report (change key)) = keys.map change := by
  induction keys with
  | nil => rfl
  | cons key keys ih => exact congrArg (change key :: ·) ih

mutual

/-- The trace reports the differences of the two documents. -/
theorem mem_steps (a b : Doc) (path : String) (c : Change) : c ∈ changesOf (steps a b path) ↔ Differs a b path c := by
  rw [steps.eq_def]
  dsimp only
  have visit (rest : List Step) : changesOf (.visit :: rest) = changesOf rest := rfl
  have single (c' : Change) : c ∈ changesOf [.report c'] ↔ c = c' := List.mem_singleton
  rw [visit]
  split
  next types =>
    rw [single]
    constructor
    · rintro rfl
      exact .type types
    · intro differs
      cases differs with
      | type => rfl
      | changed same => exact absurd same types
      | length | item | removed | added | field => exact absurd rfl types
  next same =>
    have alike : a.type = b.type := not_not.mp same
    cases a with
    | scalar v =>
      cases b with
      | scalar w =>
        dsimp only
        split
        next other =>
          rw [single]
          constructor
          · rintro rfl
            exact .changed alike other
          · intro differs
            cases differs with
            | type types => exact absurd alike types
            | changed => rfl
        next equal =>
          refine ⟨nofun, fun differs => ?_⟩
          cases differs with
          | type types => exact absurd alike types
          | changed _ other => exact absurd other equal
      | arr => exact absurd alike v.type_ne.1
      | obj => exact absurd alike v.type_ne.2
    | arr items =>
      cases b with
      | arr items' =>
        dsimp only
        rw [changesOf_append, List.mem_append, mem_stepsItems items items' path 0 c]
        simp only [Nat.zero_add]
        constructor
        · rintro (mem | ⟨i, a, b, found, found', differs⟩)
          · split at mem
            next lengths => exact (single _).mp mem ▸ .length lengths
            next => cases mem
          · exact .item found found' differs
        · intro differs
          cases differs with
          | type types => exact absurd alike types
          | length lengths => exact .inl (by rw [if_pos lengths]; exact (single _).mpr rfl)
          | item found found' differs => exact .inr ⟨_, _, _, found, found', differs⟩
      | scalar w => exact absurd alike.symm w.type_ne.1
      | obj => exact absurd alike (by simp [Doc.type])
    | obj fields =>
      cases b with
      | obj fields' =>
        dsimp only
        rw [changesOf_append, changesOf_append, List.mem_append, List.mem_append, changesOf_keys, changesOf_keys,
          mem_stepsFields fields fields' path c, List.mem_map, List.mem_map]
        constructor
        · rintro (⟨key, mem, rfl⟩ | ⟨key, mem, rfl⟩ | ⟨key, a, b, mem, found, differs⟩)
          · exact .removed mem
          · exact .added mem
          · exact .field mem found differs
        · intro differs
          cases differs with
          | type types => exact absurd alike types
          | removed mem => exact .inl ⟨_, mem, rfl⟩
          | added mem => exact .inr (.inl ⟨_, mem, rfl⟩)
          | field mem found differs => exact .inr (.inr ⟨_, _, _, mem, found, differs⟩)
      | scalar w => exact absurd alike.symm w.type_ne.2
      | arr => exact absurd alike (by simp [Doc.type])

theorem mem_stepsItems (items items' : List Doc) (path : String) (i : Nat) (c : Change) :
    c ∈ changesOf (stepsItems items items' path i) ↔
      ∃ k a b, items[k]? = some a ∧ items'[k]? = some b ∧ Differs a b (item path (i + k)) c := by
  cases items with
  | nil =>
    rw [stepsItems.eq_def]
    exact ⟨nofun, fun ⟨_, _, _, found, _⟩ => nomatch found⟩
  | cons a items =>
    cases items' with
    | nil =>
      rw [stepsItems.eq_def]
      exact ⟨nofun, fun ⟨_, _, _, _, found, _⟩ => nomatch found⟩
    | cons b items' =>
      rw [stepsItems, changesOf_append, List.mem_append, mem_steps a b _ c, mem_stepsItems items items' path (i + 1) c]
      constructor
      · rintro (differs | ⟨k, a', b', found, found', differs⟩)
        · exact ⟨0, a, b, rfl, rfl, differs⟩
        · exact ⟨k + 1, a', b', found, found', by rwa [Nat.add_right_comm] at differs⟩
      · rintro ⟨k, a', b', found, found', differs⟩
        cases k with
        | zero =>
          cases found
          cases found'
          exact .inl differs
        | succ k => exact .inr ⟨k, a', b', found, found', by rwa [Nat.add_right_comm]⟩

theorem mem_stepsFields (fields fields' : Fields) (path : String) (c : Change) :
    c ∈ changesOf (stepsFields fields fields' path) ↔
      ∃ key a b, (key, a) ∈ fields ∧ fields'.lookup key = some b ∧ Differs a b (field path key) c := by
  cases fields with
  | nil =>
    rw [stepsFields]
    exact ⟨nofun, fun ⟨_, _, _, mem, _⟩ => nomatch mem⟩
  | cons f fields =>
    obtain ⟨key, a⟩ := f
    rw [stepsFields]
    cases found : fields'.lookup key with
    | none =>
      dsimp only
      rw [mem_stepsFields fields fields' path c]
      constructor
      · rintro ⟨key', a', b', mem, found', differs⟩
        exact ⟨key', a', b', List.mem_cons_of_mem _ mem, found', differs⟩
      · rintro ⟨key', a', b', _ | ⟨_, mem⟩, found', differs⟩
        · cases found.symm.trans found'
        · exact ⟨key', a', b', mem, found', differs⟩
    | some b =>
      dsimp only
      rw [changesOf_append, List.mem_append, mem_steps a b _ c, mem_stepsFields fields fields' path c]
      constructor
      · rintro (differs | ⟨key', a', b', mem, found', differs⟩)
        · exact ⟨key, a, b, List.mem_cons_self, found, differs⟩
        · exact ⟨key', a', b', List.mem_cons_of_mem _ mem, found', differs⟩
      · rintro ⟨key', a', b', _ | ⟨_, mem⟩, found', differs⟩
        · cases found.symm.trans found'
          exact .inl differs
        · exact .inr ⟨key', a', b', mem, found', differs⟩

end

theorem isNone_lookup {key : String} : (fields.lookup key).isNone = true ↔ key ∉ fields.map Prod.fst := by
  rw [Option.isNone_iff_eq_none]
  exact Dict.lookup_eq_none_iff

theorem mem_keysBut {key : String} : key ∈ keysBut fields fields' ↔ key ∈ fields.map Prod.fst ∧ key ∉ fields'.map Prod.fst := by
  rw [keysBut, List.mem_filter, isNone_lookup]

theorem Differs.ne {c : Change} (differs : Differs a b path c) (proper : Proper a) : a ≠ b := by
  induction differs with
  | type types =>
    rintro rfl
    exact types rfl
  | changed _ other =>
    rintro ⟨⟩
    exact other rfl
  | length lengths =>
    rintro ⟨⟩
    exact lengths rfl
  | item found found' _ ih =>
    rintro ⟨⟩
    cases proper with
    | arr items => exact ih (items _ (List.mem_of_getElem? found)) (Option.some.inj (found.symm.trans found'))
  | removed mem =>
    rintro ⟨⟩
    exact absurd (mem_keysBut.1 mem).1 (mem_keysBut.1 mem).2
  | added mem =>
    rintro ⟨⟩
    exact absurd (mem_keysBut.1 mem).1 (mem_keysBut.1 mem).2
  | field mem found _ ih =>
    rintro ⟨⟩
    cases proper with
    | obj sorted values => exact ih (values _ mem) (Option.some.inj ((lookup_of_mem sorted mem).symm.trans found))

theorem eq_of_same (proper : Proper a) (proper' : Proper b) (same : ∀ c, ¬Differs a b path c) : a = b := by
  induction proper generalizing b path with
  | scalar v =>
    have alike : v.type = b.type := by
      by_contra types
      exact same _ (.type types)
    cases proper' with
    | scalar w =>
      by_contra other
      exact same _ (.changed alike fun its => other (its ▸ rfl))
    | arr => exact absurd alike v.type_ne.1
    | obj => exact absurd alike v.type_ne.2
  | @arr items _ ih =>
    have alike : "list" = b.type := by
      by_contra types
      exact same _ (.type types)
    cases proper' with
    | scalar w => exact absurd alike.symm w.type_ne.1
    | @arr items' values' =>
      have lengths : items.length = items'.length := by
        by_contra lengths
        exact same _ (.length lengths)
      congr 1
      refine List.ext_getElem lengths fun i low low' => ?_
      exact ih _ (List.getElem_mem low) (values' _ (List.getElem_mem low')) fun c differs =>
        same c (.item (List.getElem?_eq_getElem low) (List.getElem?_eq_getElem low') differs)
    | obj => exact absurd alike (by simp [Doc.type])
  | @obj fields sorted _ ih =>
    have alike : "dict" = b.type := by
      by_contra types
      exact same _ (.type types)
    cases proper' with
    | scalar w => exact absurd alike.symm w.type_ne.2
    | arr => exact absurd alike (by simp [Doc.type])
    | @obj fields' sorted' values' =>
      have keys (key : String) : key ∈ fields.map Prod.fst ↔ key ∈ fields'.map Prod.fst := by
        constructor <;> intro mem <;> by_contra other
        · exact same _ (.removed (mem_keysBut.2 ⟨mem, other⟩))
        · exact same _ (.added (mem_keysBut.2 ⟨mem, other⟩))
      have values (key : String) {a b : Doc} (mem : (key, a) ∈ fields) (mem' : (key, b) ∈ fields') : a = b :=
        ih _ mem (values' _ mem') fun c differs => same c (.field mem (lookup_of_mem sorted' mem') differs)
      have members (f : String × Doc) : f ∈ fields ↔ f ∈ fields' := by
        constructor <;> intro mem
        · obtain ⟨g, mem', key⟩ := List.mem_map.mp ((keys f.1).mp (List.mem_map_of_mem mem))
          have pair : g = f := Prod.ext key (values f.1 mem (key ▸ mem')).symm
          exact pair ▸ mem'
        · obtain ⟨g, mem', key⟩ := List.mem_map.mp ((keys f.1).mpr (List.mem_map_of_mem mem))
          have pair : g = f := Prod.ext key (values f.1 (key ▸ mem') mem)
          exact pair ▸ mem'
      have nodup {fields : Fields} (sorted : Ascending fields) : fields.Nodup :=
        sorted.imp fun {f g} (less : f.1 < g.1) same => less.ne (congrArg Prod.fst same)
      have perm : fields.Perm fields' := (List.perm_ext_iff_of_nodup (nodup sorted) (nodup sorted')).mpr members
      exact congrArg Doc.obj (perm.eq_of_pairwise (fun _ _ _ _ less more => absurd less more.asymm) sorted sorted')

end Differences

section Exact

variable {left right : Doc} {n : Int}

theorem differences_eq_nil (proper : Proper left) (proper' : Proper right) : differences left right = [] ↔ left = right := by
  rw [List.eq_nil_iff_forall_not_mem]
  constructor
  · intro none
    exact eq_of_same proper proper' fun c differs => none c ((mem_steps left right "" c).mpr differs)
  · intro same c mem
    exact ((mem_steps left right "" c).mp mem).ne proper same

mutual

theorem looseEq_refl (a : Doc) (proper : Proper a) : looseEq a a = true := by
  cases proper with
  | scalar v => simp [looseEq, Scalar.looseEq]
  | @arr items values =>
    rw [looseEq, decide_eq_true rfl, Bool.true_and]
    exact looseEqItems_refl items values
  | @obj fields sorted values =>
    rw [looseEq, decide_eq_true rfl, Bool.true_and]
    exact looseEqFields_refl fields fields (fun f mem => lookup_of_mem sorted mem) values

theorem looseEqItems_refl (items : List Doc) (values : ∀ a ∈ items, Proper a) : looseEqItems items items = true := by
  cases items with
  | nil => rw [looseEqItems]; exact nofun
  | cons a items =>
    rw [looseEqItems, looseEq_refl a (values a List.mem_cons_self), Bool.true_and]
    exact looseEqItems_refl items fun b mem => values b (List.mem_cons_of_mem _ mem)

theorem looseEqFields_refl (fields fields' : Fields) (found : ∀ f ∈ fields, fields'.lookup f.1 = some f.2)
    (values : ∀ f ∈ fields, Proper f.2) : looseEqFields fields fields' = true := by
  cases fields with
  | nil => rw [looseEqFields]
  | cons f fields =>
    obtain ⟨key, a⟩ := f
    rw [looseEqFields, found (key, a) List.mem_cons_self]
    dsimp only
    rw [looseEq_refl a (values (key, a) List.mem_cons_self), Bool.true_and]
    exact looseEqFields_refl fields fields' (fun f mem => found f (List.mem_cons_of_mem _ mem))
      fun f mem => values f (List.mem_cons_of_mem _ mem)

end

/-- Both notions of equality are that of the documents, a list that is cut off lacks a difference, and one that is not is
the list of all differences. -/
structure ExactComparison (left right : Doc) (n : Int) : Prop where
  equal : (jsonDiff left right n).equal = true ↔ left = right
  structural : (compare left right n).structuralEqual = (jsonDiff left right n).equal
  truncated : (jsonDiff left right n).truncated = true →
    (jsonDiff left right n).changes.length < (differences left right).length
  complete : (jsonDiff left right n).truncated = false →
    (jsonDiff left right n).changes = differences left right ∧
      ∀ c, c ∈ (jsonDiff left right n).changes ↔ Differs left right "" c

/-- The comparison is exact if and only if the documents are not equal as Python values only, and do not have just as many
differences as may be listed, unless the last of them is the last thing the walk comes to. -/
theorem comparison_exact_iff (proper : Proper left) (proper' : Proper right) (one : 1 ≤ n) :
    ExactComparison left right n ↔ (looseEq left right = true → left = right) ∧
      ((differences left right).length = n → Quiet (steps left right "")) := by
  have fresh : (⟨[], false⟩ : Progress).truncated = false := rfl
  have walked := walk_eq_run (n := n) left right "" ⟨[], false⟩ fresh
  obtain ⟨changes, truncated⟩ := run_spec (s := ⟨[], false⟩) one fresh (steps_guarded left right "")
    (by rw [List.length_nil]; omega) fun equal => by rw [List.length_nil] at equal; omega
  rw [← walked] at changes truncated
  simp only [List.length_nil, List.nil_append, Nat.cast_zero, sub_zero, zero_add] at changes truncated
  change (jsonDiff left right n).changes = (differences left right).take n.toNat at changes
  change (jsonDiff left right n).truncated = true ↔ n < (differences left right).length ∨
    (differences left right).length = n ∧ ¬Quiet (steps left right "") at truncated
  have size : (jsonDiff left right n).changes.length = min n.toNat (differences left right).length := by
    rw [changes, List.length_take]
  have equal : (jsonDiff left right n).equal = true ↔ left = right := by
    have unfolded : (jsonDiff left right n).equal =
        (decide ((jsonDiff left right n).changes = []) && !(jsonDiff left right n).truncated) := rfl
    rw [unfolded, Bool.and_eq_true, decide_eq_true_eq, ← differences_eq_nil proper proper', ← List.length_eq_zero_iff, size,
      ← List.length_eq_zero_iff, Bool.not_eq_true', Bool.eq_false_iff, ne_eq, truncated]
    omega
  constructor
  · intro holds
    refine ⟨fun loose => equal.mp (holds.structural ▸ loose), fun count => ?_⟩
    by_contra loud
    have missing := holds.truncated (truncated.mpr (.inr ⟨count, loud⟩))
    omega
  · rintro ⟨typed, quiet⟩
    refine ⟨equal, Bool.eq_iff_iff.mpr ⟨fun loose => equal.mpr (typed loose), fun same => ?_⟩, fun cut => ?_, fun whole => ?_⟩
    · obtain rfl := equal.mp same
      exact looseEq_refl left proper
    · rcases truncated.mp cut with more | ⟨count, loud⟩
      · omega
      · exact absurd (quiet count) loud
    · have few : ¬n < (differences left right).length := fun more =>
        absurd (truncated.mpr (.inl more)) (by rw [whole]; exact nofun)
      have all : (jsonDiff left right n).changes = differences left right := by
        rw [changes, List.take_of_length_le (by omega)]
      exact ⟨all, fun c => by rw [all]; exact mem_steps left right "" c⟩

def sampleLeft : Doc := .obj [("a", .scalar (.int 1)), ("b", .scalar .null)]

def sampleRight : Doc := .obj [("a", .scalar (.int 2))]

theorem comparison_exact_pair : ExactComparison sampleLeft sampleRight 3 ↔
    (looseEq sampleLeft sampleRight = true → sampleLeft = sampleRight) ∧
      (((differences sampleLeft sampleRight).length : Int) = 3 → Quiet (steps sampleLeft sampleRight "")) := by
  have proper : Proper sampleLeft := .obj (by decide) fun f mem => by
    simp only [List.mem_cons, List.not_mem_nil, or_false] at mem
    rcases mem with rfl | rfl <;> exact .scalar _
  have proper' : Proper sampleRight := .obj (by decide) fun f mem => by
    obtain rfl := List.mem_singleton.mp mem
    exact .scalar _
  exact comparison_exact_iff proper proper' (by decide : (1 : Int) ≤ 3)

/-- A whole number and a float of its value are equal for one notion and not for the other, and the only difference of
two objects fills a list of one, which is called truncated. -/
theorem comparison_misleads : ¬ExactComparison (.scalar (.int 1)) (.scalar (.float 1)) 1 ∧
    ¬ExactComparison (.obj [("a", .scalar .null)]) (.obj []) 1 := by
  constructor
  · intro holds
    have loose : (compare (.scalar (.int 1)) (.scalar (.float 1)) 1).structuralEqual = true := by decide
    have other : (jsonDiff (.scalar (.int 1)) (.scalar (.float 1)) 1).equal = false := rfl
    cases loose.symm.trans (holds.structural.trans other)
  · intro holds
    have cut : jsonDiff (.obj [("a", .scalar .null)]) (.obj []) 1 = ⟨false, [.removed "$.a"], true⟩ := rfl
    have only : differences (.obj [("a", .scalar .null)]) (.obj []) = [.removed "$.a"] := rfl
    have missing := holds.truncated (by rw [cut])
    rw [cut, only] at missing
    exact lt_irrefl _ missing

end Exact

end Arenyxa.Replay
