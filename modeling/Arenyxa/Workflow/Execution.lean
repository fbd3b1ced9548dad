import Arenyxa.Lib.Outcome
import Arenyxa.Workflow.Engine

/-! The execution of a workflow on its inputs: records are routed along the success and failure edges
into a buffer for each node, and a node handles its buffer when all of its parents have done so. -/

namespace Arenyxa.Workflow.Flow

open Outcome

/-- An exception of a handler. -/
structure Failure where
  text : String
  bufferLimit : Bool

/-- What a handler makes of an item: outputs, of which some may be no objects, and an exception behind
them. -/
structure Reaction (ι : Type) where
  outputs : List (Option ι)
  failure : Option Failure

/-- The registered handlers with the rest that `execute` calls: the node contract, the variables of a
configuration, and an item with the text of an error in it. -/
structure Library (γ ι : Type) where
  validateNode : Node γ → Option String
  handler : String → Option (ι → γ → Reaction ι)
  resolve : γ → Except Failure γ
  withError : ι → String → ι
  bufferSize : Nat

inductive NodeState
  | pending | running | completed | partly

structure NodeExecution where
  inputCount : Nat
  outputCount : Nat
  errorCount : Nat
  state : NodeState

inductive RunError
  | workflow (error : ExecutionError)
  | inputInvalid
  | handlerMissing
  | bufferLimit

/-- The local variables of `execute`, with the calls of the handlers in their order. -/
@[ext]
structure State (ι : Type) where
  run : Execution
  items : String → List ι
  executions : String → NodeExecution
  outputs : List ι
  errors : List (String × String × ι)
  calls : List (String × ι)

section Engine

variable {γ ι : Type} (lib : Library γ ι) (nodes : List (Node γ)) (node : Node γ)

def reaction (item : ι) : Reaction ι :=
  match lib.resolve node.config with
  | .error failure => ⟨[], some failure⟩
  | .ok config =>
    match lib.handler node.kind with
    | none => ⟨[], none⟩
    | some handle => handle item config

/-- The outputs up to the first one that is no object. -/
def objects : List (Option ι) → List ι
  | some output :: rest => output :: objects rest
  | _ => []

def yielded (item : ι) : List ι := objects (reaction lib node item).outputs

def notObject : Failure := ⟨"workflow node output must be a dict", false⟩

/-- The exception that ends the handling of an item. -/
def raised (item : ι) : Option Failure :=
  if (reaction lib node item).outputs.any Option.isNone then some notObject else (reaction lib node item).failure

def State.update (s : State ι) (id : String) (f : NodeExecution → NodeExecution) : State ι :=
  { s with executions := Function.update s.executions id (f (s.executions id)) }

/-- An item at the end of a buffer. -/
def State.sent (value : ι) (s : State ι) (child : String) : State ι :=
  { s with items := Function.update s.items child (s.items child ++ [value]) }

def State.called (s : State ι) (id : String) (item : ι) : State ι :=
  { s.update id fun e => { e with inputCount := e.inputCount + 1 } with calls := s.calls ++ [(id, item)] }

def State.counted (s : State ι) (id : String) : State ι := s.update id fun e => { e with outputCount := e.outputCount + 1 }

def State.failed (s : State ι) (id text : String) (item : ι) : State ι :=
  { s.update id fun e => { e with errorCount := e.errorCount + 1 } with errors := s.errors ++ [(id, text, item)] }

def appendBounded (value : ι) (s : State ι) (child : String) : Except RunError (State ι) := do
  require ((s.items child).length < lib.bufferSize) .bufferLimit
  return s.sent value child

def appendTerminal (value : ι) (s : State ι) : Except RunError (State ι) := do
  require (s.outputs.length < lib.bufferSize) .bufferLimit
  return { s with outputs := s.outputs ++ [value] }

def deliver (s : State ι) (output : ι) : Except RunError (State ι) :=
  if node.nextIds ≠ [] then node.nextIds.foldlM (appendBounded lib output) (s.counted node.id)
  else appendTerminal lib output (s.counted node.id)

def handleItem (s : State ι) (item : ι) : Except RunError (State ι) := do
  let s ← (yielded lib node item).foldlM (deliver lib node) (s.called node.id item)
  match raised lib node item with
  | none => return s
  | some failure =>
    require (failure.bufferLimit = false) .bufferLimit
    require (s.errors.length < lib.bufferSize) .bufferLimit
    node.failureIds.foldlM (appendBounded lib (lib.withError item failure.text)) (s.failed node.id failure.text item)

/-- The buffer of a node is taken as a whole: a node whose parents are done has no edge to itself. -/
def State.started (s : State ι) (id : String) : State ι :=
  { s.update id fun e => { e with state := .running } with items := Function.update s.items id [] }

def State.finished (s : State ι) (rest : List String) : State ι :=
  { s.update node.id fun e => { e with state := if e.errorCount = 0 then .completed else .partly } with
    run := node.targets.foldl releaseChild
      { s.run with ready := rest, visited := markVisited s.run.visited node.id } }

def nodeOf (id : String) : Option (Node γ) := nodes.find? fun node => node.id = id

/-- The loop over the nodes that are ready. -/
def rounds : Nat → State ι → Except RunError (State ι)
  | 0, s => .ok s
  | fuel + 1, s =>
    match s.run.ready with
    | [] => .ok s
    | id :: rest =>
      match nodeOf nodes id with
      | none => .error .handlerMissing
      | some node => do
        let s' ← (s.items id).foldlM (handleItem lib node) (s.started id)
        rounds fuel (s'.finished node rest)

def State.init : State ι where
  run := .init nodes
  items _ := []
  executions _ := ⟨0, 0, 0, .pending⟩
  outputs := []
  errors := []
  calls := []

/-- An input goes to every entry node; one that is no object is refused. -/
def seed (s : State ι) (input : Option ι) : Except RunError (State ι) :=
  match input with
  | none => .error .inputInvalid
  | some item => (entryNodes nodes).foldlM (appendBounded lib item) s

/-- `execute`; as many rounds as nodes leave none ready. -/
def execute (inputs : List (Option ι)) : Except RunError (State ι) := do
  match validateWorkflowContract lib.validateNode nodes with
  | .error error => .error (.workflow error)
  | .ok _ =>
    require (∀ node ∈ nodes, (lib.handler node.kind).isSome) .handlerMissing
    require (entryNodes nodes ≠ []) (.workflow (.cycle []))
    let s ← inputs.foldlM (seed lib nodes) (.init nodes)
    let s ← rounds lib nodes nodes.length s
    require (s.run.visited.length = nodes.length) (.workflow (.cycle (blockedNodes nodes s.run.visited)))
    return s

end Engine

section Room

variable {γ ι α : Type} {lib : Library γ ι} {node : Node γ}

/-- No buffer holds more than it may. -/
structure Fits (lib : Library γ ι) (s : State ι) : Prop where
  items : ∀ v, (s.items v).length ≤ lib.bufferSize
  outputs : s.outputs.length ≤ lib.bufferSize
  errors : s.errors.length ≤ lib.bufferSize

/-- Nothing is taken out of a buffer. -/
structure Grows (s s' : State ι) : Prop where
  items : ∀ v, s.items v <+: s'.items v
  outputs : s.outputs <+: s'.outputs
  errors : s.errors <+: s'.errors

theorem Grows.refl (s : State ι) : Grows s s := ⟨fun _ => List.prefix_rfl, List.prefix_rfl, List.prefix_rfl⟩

theorem Grows.trans {s s' s'' : State ι} (h : Grows s s') (h' : Grows s' s'') : Grows s s'' :=
  ⟨fun v => (h.items v).trans (h'.items v), h.outputs.trans h'.outputs, h.errors.trans h'.errors⟩

theorem Fits.of_grows {s s' : State ι} (fits : Fits lib s') (h : Grows s s') : Fits lib s :=
  ⟨fun v => (h.items v).length_le.trans (fits.items v), h.outputs.length_le.trans fits.outputs,
    h.errors.length_le.trans fits.errors⟩

theorem grows_foldl {g : State ι → α → State ι} (grows : ∀ s a, Grows s (g s a)) (l : List α) (s : State ι) :
    Grows s (l.foldl g s) := by
  induction l generalizing s with
  | nil => exact .refl s
  | cons a l ih => exact (grows s a).trans (ih _)

theorem foldlM_fits {f : State ι → α → Except RunError (State ι)} {g : State ι → α → State ι} {P : α → Prop}
    (step : ∀ s a s', Fits lib s → (f s a = .ok s' ↔ P a ∧ Fits lib (g s a) ∧ s' = g s a))
    (grows : ∀ s a, Grows s (g s a)) (l : List α) {s : State ι} (fits : Fits lib s) (s' : State ι) :
    l.foldlM f s = .ok s' ↔ (∀ a ∈ l, P a) ∧ Fits lib (l.foldl g s) ∧ s' = l.foldl g s := by
  induction l generalizing s with
  | nil =>
    refine ⟨fun h => ⟨fun _ mem => (nomatch mem), fits, (Except.ok.inj h).symm⟩, fun h => congrArg Except.ok h.2.2.symm⟩
  | cons a l ih =>
    rw [List.foldlM_cons, bind_eq_ok, List.forall_mem_cons, List.foldl_cons]
    constructor
    · rintro ⟨s₁, first, rest⟩
      obtain ⟨here, fits₁, rfl⟩ := (step s a s₁ fits).mp first
      obtain ⟨later, fits', same⟩ := (ih fits₁).mp rest
      exact ⟨⟨here, later⟩, fits', same⟩
    · rintro ⟨⟨here, later⟩, fits', same⟩
      have fits₁ := fits'.of_grows (grows_foldl grows l _)
      exact ⟨g s a, (step s a _ fits).mpr ⟨here, fits₁, rfl⟩, (ih fits₁).mpr ⟨later, fits', same⟩⟩

theorem items_sent (value : ι) (s : State ι) (child v : String) :
    (s.sent value child).items v = if v = child then s.items child ++ [value] else s.items v :=
  Function.update_apply ..

theorem grows_sent (value : ι) (s : State ι) (child : String) : Grows s (s.sent value child) := by
  refine ⟨fun v => ?_, List.prefix_rfl, List.prefix_rfl⟩
  rw [items_sent]
  split
  next its => exact its ▸ List.prefix_append _ _
  next => exact List.prefix_rfl

theorem appendBounded_fits (value : ι) (s : State ι) (child : String) (s' : State ι) (fits : Fits lib s) :
    appendBounded lib value s child = .ok s' ↔ True ∧ Fits lib (s.sent value child) ∧ s' = s.sent value child := by
  rw [appendBounded, bind_eq_ok]
  simp only [require_eq_ok, exists_const, true_and]
  refine and_congr ⟨fun room => ⟨fun v => ?_, fits.outputs, fits.errors⟩, fun fits' => ?_⟩
    ⟨fun h => (Except.ok.inj h).symm, fun h => congrArg Except.ok h.symm⟩
  · rw [items_sent]
    split
    next => rw [List.length_append, List.length_singleton]; exact room
    next => exact fits.items v
  · have its := fits'.items child
    rw [items_sent, if_pos rfl, List.length_append, List.length_singleton] at its
    exact its

theorem fits_update {s : State ι} {id : String} {f : NodeExecution → NodeExecution} :
    Fits lib (s.update id f) ↔ Fits lib s := ⟨fun h => ⟨h.items, h.outputs, h.errors⟩, fun h => ⟨h.items, h.outputs, h.errors⟩⟩

/-- An output at its destinations. -/
def State.delivered (node : Node γ) (s : State ι) (output : ι) : State ι :=
  if node.nextIds ≠ [] then node.nextIds.foldl (State.sent output) (s.counted node.id)
  else { s.counted node.id with outputs := (s.counted node.id).outputs ++ [output] }

theorem grows_counted (s : State ι) (id : String) : Grows s (s.counted id) :=
  ⟨fun _ => List.prefix_rfl, List.prefix_rfl, List.prefix_rfl⟩

theorem grows_delivered (node : Node γ) (s : State ι) (output : ι) : Grows s (s.delivered node output) := by
  rw [State.delivered]
  split
  next => exact (grows_counted s _).trans (grows_foldl (grows_sent output) _ _)
  next => exact ⟨fun _ => List.prefix_rfl, List.prefix_append _ _, List.prefix_rfl⟩

theorem deliver_fits (lib : Library γ ι) (node : Node γ) (s : State ι) (output : ι) (s' : State ι) (fits : Fits lib s) :
    deliver lib node s output = .ok s' ↔ True ∧ Fits lib (s.delivered node output) ∧ s' = s.delivered node output := by
  have counted : Fits lib (s.counted node.id) := fits_update.2 fits
  rw [deliver, State.delivered]
  split
  next =>
    refine (foldlM_fits (appendBounded_fits output) (grows_sent output) _ counted s').trans ?_
    exact and_congr_left fun _ => iff_of_true (fun _ _ => trivial) trivial
  next =>
    rw [appendTerminal, bind_eq_ok]
    simp only [require_eq_ok, exists_const, true_and]
    refine and_congr ⟨fun room => ⟨fits.items, ?_, fits.errors⟩, fun fits' => ?_⟩
      ⟨fun h => (Except.ok.inj h).symm, fun h => congrArg Except.ok h.symm⟩
    · rw [List.length_append, List.length_singleton]
      exact room
    · have its := fits'.outputs
      rw [List.length_append, List.length_singleton] at its
      exact its

/-- An item handled where there is room. -/
def State.handled (lib : Library γ ι) (node : Node γ) (s : State ι) (item : ι) : State ι :=
  let s := (yielded lib node item).foldl (State.delivered node) (s.called node.id item)
  match raised lib node item with
  | none => s
  | some failure =>
    node.failureIds.foldl (State.sent (lib.withError item failure.text)) (s.failed node.id failure.text item)

/-- The handler does not itself raise the error of the buffers. -/
def Calm (lib : Library γ ι) (node : Node γ) (item : ι) : Prop :=
  ∀ failure, raised lib node item = some failure → failure.bufferLimit = false

theorem grows_failed (s : State ι) (id text : String) (item : ι) : Grows s (s.failed id text item) :=
  ⟨fun _ => List.prefix_rfl, List.prefix_rfl, List.prefix_append _ _⟩

theorem fits_failed {s : State ι} (fits : Fits lib s) (room : s.errors.length < lib.bufferSize) (id text : String) (item : ι) :
    Fits lib (s.failed id text item) := by
  refine ⟨fits.items, fits.outputs, ?_⟩
  rw [State.failed, List.length_append, List.length_singleton]
  exact room

theorem grows_handled (s : State ι) (item : ι) : Grows s (s.handled lib node item) := by
  have called : Grows s (s.called node.id item) := ⟨fun _ => List.prefix_rfl, List.prefix_rfl, List.prefix_rfl⟩
  have delivered := called.trans (grows_foldl (grows_delivered node) (yielded lib node item) _)
  rw [State.handled]
  split
  next => exact delivered
  next failure _ =>
    exact delivered.trans ((grows_failed _ _ _ _).trans (grows_foldl (grows_sent _) _ _))

theorem handleItem_fits (lib : Library γ ι) (node : Node γ) (s : State ι) (item : ι) (s' : State ι) (fits : Fits lib s) :
    handleItem lib node s item = .ok s' ↔
      Calm lib node item ∧ Fits lib (s.handled lib node item) ∧ s' = s.handled lib node item := by
  have called : Fits lib (s.called node.id item) := ⟨fits.items, fits.outputs, fits.errors⟩
  have delivers := foldlM_fits (deliver_fits lib node) (grows_delivered node) (yielded lib node item) called
  have all : (∀ output ∈ yielded lib node item, True) ↔ True := iff_of_true (fun _ _ => trivial) trivial
  rw [handleItem, bind_eq_ok, State.handled]
  simp only [delivers, all, true_and]
  cases ends : raised lib node item with
  | none =>
    have calm : Calm lib node item := fun failure its => by
      rw [ends] at its
      cases its
    constructor
    · rintro ⟨s₁, ⟨fits₁, rfl⟩, h⟩
      exact ⟨calm, fits₁, (Except.ok.inj h).symm⟩
    · rintro ⟨-, fits₁, rfl⟩
      exact ⟨_, ⟨fits₁, rfl⟩, rfl⟩
  | some failure =>
    have calm_iff : Calm lib node item ↔ failure.bufferLimit = false := by
      refine ⟨fun calm => calm failure ends, fun quiet other its => ?_⟩
      rw [ends] at its
      cases its
      exact quiet
    rw [calm_iff]
    constructor
    · rintro ⟨s₁, ⟨fits₁, rfl⟩, h⟩
      obtain ⟨_, quiet, h⟩ := bind_eq_ok.mp h
      obtain ⟨_, room, h⟩ := bind_eq_ok.mp h
      refine ⟨require_eq_ok.mp quiet, ?_⟩
      have noted := fits_failed fits₁ (require_eq_ok.mp room) node.id failure.text item
      exact ((foldlM_fits (appendBounded_fits _) (grows_sent _) _ noted _).mp h).2
    · rintro ⟨quiet, fits', rfl⟩
      have noted := fits'.of_grows (grows_foldl (grows_sent _) _ _)
      have fits₁ := noted.of_grows (grows_failed _ node.id failure.text item)
      have room := noted.errors
      rw [State.failed, List.length_append, List.length_singleton] at room
      refine ⟨_, ⟨fits₁, rfl⟩, bind_eq_ok.mpr ⟨(), require_eq_ok.mpr quiet, bind_eq_ok.mpr ⟨(), require_eq_ok.mpr room, ?_⟩⟩⟩
      exact (foldlM_fits (appendBounded_fits _) (grows_sent _) _ noted _).mpr ⟨fun _ _ => trivial, fits', rfl⟩

end Room

section Effects

variable {γ ι : Type} (lib : Library γ ι) (node : Node γ)

/-- The copies of an item that a node sends to another one: its outputs along the success edges, the item
with the error along the failure edges. -/
def routed (item : ι) (v : String) : List ι :=
  (yielded lib node item).flatMap (List.replicate (node.nextIds.count v)) ++
    match raised lib node item with
    | none => []
    | some failure => List.replicate (node.failureIds.count v) (lib.withError item failure.text)

/-- What leaves the workflow. -/
def terminal (item : ι) : List ι := if node.nextIds ≠ [] then [] else yielded lib node item

def failures (item : ι) : List (String × String × ι) :=
  match raised lib node item with
  | none => []
  | some failure => [(node.id, failure.text, item)]

def NodeExecution.add (e : NodeExecution) (inputs outputs errors : Nat) : NodeExecution :=
  { e with
    inputCount := e.inputCount + inputs
    outputCount := e.outputCount + outputs
    errorCount := e.errorCount + errors }

/-- What a part of the handling adds to the state. -/
@[ext]
structure Delta (ι : Type) where
  inputs : Nat
  outputs : Nat
  sends : String → List ι
  leaves : List ι
  fails : List (String × String × ι)
  calls : List (String × ι)

def Delta.none : Delta ι := ⟨0, 0, fun _ => [], [], [], []⟩

def Delta.before (d e : Delta ι) : Delta ι where
  inputs := d.inputs + e.inputs
  outputs := d.outputs + e.outputs
  sends v := d.sends v ++ e.sends v
  leaves := d.leaves ++ e.leaves
  fails := d.fails ++ e.fails
  calls := d.calls ++ e.calls

/-- The second state is the first one with a delta, counted for one node. -/
structure Adds (id : String) (d : Delta ι) (s s' : State ι) : Prop where
  run : s'.run = s.run
  items : ∀ v, s'.items v = s.items v ++ d.sends v
  executions : s'.executions = Function.update s.executions id ((s.executions id).add d.inputs d.outputs d.fails.length)
  outputs : s'.outputs = s.outputs ++ d.leaves
  errors : s'.errors = s.errors ++ d.fails
  calls : s'.calls = s.calls ++ d.calls

variable {lib node} {s s' s'' : State ι} {d e : Delta ι} {id : String}

theorem Adds.refl (id : String) (s : State ι) : Adds id .none s s where
  run := rfl
  items _ := (List.append_nil _).symm
  executions := (Function.update_eq_self id s.executions).symm
  outputs := (List.append_nil _).symm
  errors := (List.append_nil _).symm
  calls := (List.append_nil _).symm

theorem Adds.trans (h : Adds id d s s') (h' : Adds id e s' s'') : Adds id (d.before e) s s'' where
  run := h'.run.trans h.run
  items v := by rw [h'.items, h.items, List.append_assoc]; rfl
  executions := by
    rw [h'.executions, h.executions, Function.update_self, Function.update_idem]
    simp only [NodeExecution.add, Delta.before, Nat.add_assoc, List.length_append]
  outputs := by rw [h'.outputs, h.outputs, List.append_assoc]; rfl
  errors := by rw [h'.errors, h.errors, List.append_assoc]; rfl
  calls := by rw [h'.calls, h.calls, List.append_assoc]; rfl

theorem Adds.congr (h : Adds id d s s') (same : d = e) : Adds id e s s' := same ▸ h

/-- The copies of an item for a list of children. -/
def Delta.copies (children : List String) (value : ι) : Delta ι :=
  { Delta.none with sends := fun v => List.replicate (children.count v) value }

theorem adds_foldl_sent (id : String) (value : ι) (children : List String) (s : State ι) :
    Adds id (.copies children value) s (children.foldl (State.sent value) s) := by
  induction children generalizing s with
  | nil => exact .refl id s
  | cons child children ih =>
    have first : Adds id (.copies [child] value) s (s.sent value child) := by
      refine { Adds.refl id s with items := fun v => ?_ }
      have one : (Delta.copies [child] value).sends v = List.replicate ([child].count v) value := rfl
      rw [items_sent, one, List.count_singleton]
      by_cases its : v = child
      · rw [if_pos its, its, beq_self_eq_true, if_pos rfl]
        rfl
      · rw [if_neg its, beq_eq_false_iff_ne.mpr (Ne.symm its), if_neg Bool.false_ne_true]
        exact (List.append_nil _).symm
    refine (first.trans (ih _)).congr (Delta.ext rfl rfl (funext fun v => ?_) rfl rfl rfl)
    show List.replicate _ _ ++ List.replicate _ _ = List.replicate _ _
    rw [← List.replicate_add, ← List.count_append]
    rfl

/-- An output on its way. -/
def Delta.output (node : Node γ) (output : ι) : Delta ι :=
  { Delta.none with
    outputs := 1
    sends := fun v => List.replicate (node.nextIds.count v) output
    leaves := if node.nextIds ≠ [] then [] else [output] }

theorem adds_delivered (s : State ι) (output : ι) : Adds node.id (.output node output) s (s.delivered node output) := by
  have counted : Adds node.id { Delta.none with outputs := 1 } s (s.counted node.id) :=
    { Adds.refl node.id s with executions := rfl }
  rw [State.delivered]
  by_cases onward : node.nextIds ≠ []
  · rw [if_pos onward]
    refine (counted.trans (adds_foldl_sent node.id output node.nextIds _)).congr (Delta.ext rfl rfl rfl ?_ rfl rfl)
    show [] ++ [] = if node.nextIds ≠ [] then [] else [output]
    rw [if_pos onward]
    rfl
  · have none_next : node.nextIds = [] := not_not.mp onward
    rw [if_neg onward]
    have left : Adds node.id { Delta.none with leaves := [output] } (s.counted node.id)
        { s.counted node.id with outputs := (s.counted node.id).outputs ++ [output] } :=
      { Adds.refl node.id (s.counted node.id) with outputs := rfl }
    refine (counted.trans left).congr (Delta.ext rfl rfl (funext fun v => ?_) ?_ rfl rfl)
    · show [] ++ [] = List.replicate (node.nextIds.count v) output
      rw [none_next]
      rfl
    · show [] ++ [output] = if node.nextIds ≠ [] then [] else [output]
      rw [if_neg onward]
      rfl

theorem adds_foldl_delivered (outputs : List ι) (s : State ι) :
    Adds node.id { Delta.none with
      outputs := outputs.length
      sends := fun v => outputs.flatMap (List.replicate (node.nextIds.count v))
      leaves := if node.nextIds ≠ [] then [] else outputs } s (outputs.foldl (State.delivered node) s) := by
  induction outputs generalizing s with
  | nil =>
    refine (Adds.refl node.id s).congr (Delta.ext rfl rfl rfl ?_ rfl rfl)
    show [] = if node.nextIds ≠ [] then [] else []
    split <;> rfl
  | cons output outputs ih =>
    refine ((adds_delivered s output).trans (ih _)).congr (Delta.ext rfl ?_ (funext fun v => ?_) ?_ rfl rfl)
    · exact Nat.add_comm 1 outputs.length
    · exact (List.flatMap_cons (f := List.replicate (node.nextIds.count v))).symm
    · show (if node.nextIds ≠ [] then [] else [output]) ++ (if node.nextIds ≠ [] then [] else outputs) =
        if node.nextIds ≠ [] then [] else output :: outputs
      split <;> rfl

/-- The handling of an item. -/
def Delta.item (lib : Library γ ι) (node : Node γ) (item : ι) : Delta ι where
  inputs := 1
  outputs := (yielded lib node item).length
  sends := routed lib node item
  leaves := terminal lib node item
  fails := failures lib node item
  calls := [(node.id, item)]

theorem adds_handled (s : State ι) (item : ι) : Adds node.id (.item lib node item) s (s.handled lib node item) := by
  have called : Adds node.id { Delta.none with inputs := 1, calls := [(node.id, item)] } s (s.called node.id item) :=
    { Adds.refl node.id s with executions := rfl, calls := rfl }
  have delivered := called.trans (adds_foldl_delivered (yielded lib node item) (s.called node.id item))
  rw [State.handled]
  cases ends : raised lib node item with
  | none =>
    refine delivered.congr (Delta.ext rfl (Nat.zero_add _) (funext fun v => ?_) rfl ?_ rfl)
    · show [] ++ (yielded lib node item).flatMap (List.replicate (node.nextIds.count v)) = routed lib node item v
      rw [routed, ends, List.append_nil]
      rfl
    · rw [Delta.item, failures, ends]
      rfl
  | some failure =>
    have failed (s : State ι) : Adds node.id { Delta.none with fails := [(node.id, failure.text, item)] } s
        (s.failed node.id failure.text item) := { Adds.refl node.id s with executions := rfl, errors := rfl }
    refine (delivered.trans ((failed _).trans (adds_foldl_sent node.id _ node.failureIds _))).congr
      (Delta.ext rfl (Nat.zero_add _) (funext fun v => ?_) ?_ ?_ rfl)
    · show ([] ++ (yielded lib node item).flatMap (List.replicate (node.nextIds.count v))) ++
        ([] ++ List.replicate (node.failureIds.count v) (lib.withError item failure.text)) = routed lib node item v
      rw [routed, ends]
      rfl
    · exact List.append_nil _
    · rw [Delta.item, failures, ends]
      rfl

/-- The handling of a buffer. -/
def Delta.buffer (lib : Library γ ι) (node : Node γ) (items : List ι) : Delta ι where
  inputs := items.length
  outputs := (items.flatMap (yielded lib node)).length
  sends v := items.flatMap fun item => routed lib node item v
  leaves := items.flatMap (terminal lib node)
  fails := items.flatMap (failures lib node)
  calls := items.map fun item => (node.id, item)

theorem adds_foldl_handled (items : List ι) (s : State ι) :
    Adds node.id (.buffer lib node items) s (items.foldl (State.handled lib node) s) := by
  induction items generalizing s with
  | nil => exact .refl node.id s
  | cons item items ih =>
    refine ((adds_handled s item).trans (ih _)).congr (Delta.ext ?_ ?_ rfl rfl rfl rfl)
    · exact Nat.add_comm 1 items.length
    · show (yielded lib node item).length + (items.flatMap (yielded lib node)).length = _
      rw [← List.length_append]
      rfl

end Effects

end Arenyxa.Workflow.Flow
