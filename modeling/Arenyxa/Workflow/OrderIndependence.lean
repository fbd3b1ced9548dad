import Arenyxa.Workflow.Execution
import Mathlib.Data.List.ReduceOption

/-! The result of a workflow does not depend on the order of its nodes: the calls of the handlers are the
same up to their order, and everything that is returned follows from them. -/

namespace Arenyxa.Workflow.Flow

open Outcome Loop Topological

section Log

variable {γ ι β : Type} (lib : Library γ ι) (nodes : List (Node γ)) (inputs : List ι)

/-- The items that a node has handled. -/
def received (calls : List (String × ι)) (v : String) : List ι :=
  calls.filterMap fun call => if call.1 = v then some call.2 else none

/-- A function of a node and an item, of a call. -/
def ofCall (f : Node γ → ι → List β) (call : String × ι) : List β :=
  match nodeOf nodes call.1 with
  | none => []
  | some node => f node call.2

def routedTo (v : String) (calls : List (String × ι)) : List ι :=
  calls.flatMap (ofCall nodes fun node item => routed lib node item v)

def entryItems (v : String) : List ι := if v ∈ entryNodes nodes then inputs else []

def tally (node : Node γ) (items : List ι) : NodeExecution where
  inputCount := items.length
  outputCount := (items.flatMap (yielded lib node)).length
  errorCount := (items.flatMap (failures lib node)).length
  state := if (items.flatMap (failures lib node)).length = 0 then .completed else .partly

/-- Between two rounds: what went into a buffer has been handled or waits, and everything else follows from
the calls. -/
structure Flowing (s : State ι) : Prop where
  executing : Executing nodes s.run
  flow : ∀ v, received s.calls v ++ s.items v = entryItems nodes inputs v ++ routedTo lib nodes v s.calls
  outputs : s.outputs = s.calls.flatMap (ofCall nodes (terminal lib))
  errors : s.errors = s.calls.flatMap (ofCall nodes (failures lib))
  executions : ∀ node ∈ nodes, s.executions node.id =
    if node.id ∈ s.run.visited then tally lib node (received s.calls node.id) else ⟨0, 0, 0, .pending⟩
  pending : ∀ v, v ∉ s.run.visited → received s.calls v = []
  drained : ∀ v ∈ s.run.visited, s.items v = []
  blocks : s.calls = s.run.visited.flatMap fun v => (received s.calls v).map fun item => (v, item)

variable {lib nodes inputs} {s : State ι} {node : Node γ}

theorem received_append (calls calls' : List (String × ι)) (v : String) :
    received (calls ++ calls') v = received calls v ++ received calls' v := List.filterMap_append

theorem received_own (v : String) (items : List ι) : received (items.map fun item => (v, item)) v = items := by
  induction items with
  | nil => rfl
  | cons item items ih =>
    rw [List.map_cons, received, List.filterMap_cons, if_pos rfl]
    exact congrArg _ ih

theorem received_other {v w : String} (other : v ≠ w) (items : List ι) :
    received (items.map fun item => (v, item)) w = [] := by
  refine List.filterMap_eq_nil_iff.mpr fun call mem => ?_
  obtain ⟨item, -, rfl⟩ := List.mem_map.mp mem
  exact if_neg other

theorem nodeOf_mem (linked : Linked nodes) (mem : node ∈ nodes) : nodeOf nodes node.id = some node := by
  rw [nodeOf]
  cases found : nodes.find? fun other => other.id = node.id with
  | none => simpa using List.find?_eq_none.mp found node mem
  | some other =>
    have named : other.id = node.id := of_decide_eq_true (List.find?_some found :)
    rw [List.inj_on_of_nodup_map linked.unique (List.mem_of_find?_eq_some found) mem named]

theorem mem_of_nodeOf {id : String} (found : nodeOf nodes id = some node) : node ∈ nodes ∧ node.id = id :=
  ⟨List.mem_of_find?_eq_some found, of_decide_eq_true (List.find?_some found :)⟩

theorem flatMap_ofCall (linked : Linked nodes) (mem : node ∈ nodes) (f : Node γ → ι → List β) (items : List ι) :
    (items.map fun item => (node.id, item)).flatMap (ofCall nodes f) = items.flatMap (f node) := by
  rw [List.flatMap_map]
  refine List.flatMap_congr fun item _ => ?_
  rw [ofCall, nodeOf_mem linked mem]

theorem routed_eq_nil {v : String} (off : v ∉ node.targets) (item : ι) : routed lib node item v = [] := by
  rw [Node.targets, List.mem_append, not_or] at off
  rw [routed, List.count_eq_zero.mpr off.1, List.count_eq_zero.mpr off.2]
  have silent : (yielded lib node item).flatMap (List.replicate 0) = [] := List.flatMap_eq_nil_iff.mpr fun _ _ => rfl
  rw [silent]
  cases raised lib node item <;> rfl

/-- A round without bounds on the buffers. -/
def State.executed (lib : Library γ ι) (node : Node γ) (rest : List String) (s : State ι) : State ι :=
  ((s.items node.id).foldl (State.handled lib node) (s.started node.id)).finished node rest

theorem executions_executed {rest : List String}
    (before : s.executions node.id = if node.id ∈ s.run.visited then tally lib node (received s.calls node.id) else ⟨0, 0, 0, .pending⟩)
    (fresh : node.id ∉ s.run.visited)
    (adds : Adds node.id (.buffer lib node (s.items node.id)) (s.started node.id)
      ((s.items node.id).foldl (State.handled lib node) (s.started node.id))) :
    (s.executed lib node rest).executions node.id = tally lib node (s.items node.id) := by
  rw [if_neg fresh] at before
  have started : (s.started node.id).executions node.id = ⟨0, 0, 0, .running⟩ := by
    refine (Function.update_self ..).trans ?_
    rw [before]
  have counted : ((s.items node.id).foldl (State.handled lib node) (s.started node.id)).executions node.id =
      ⟨(s.items node.id).length, ((s.items node.id).flatMap (yielded lib node)).length,
        ((s.items node.id).flatMap (failures lib node)).length, .running⟩ := by
    rw [adds.executions, Function.update_self, started]
    simp only [NodeExecution.add, Delta.buffer, Nat.zero_add]
  refine (Function.update_self ..).trans ?_
  rw [counted, tally]

theorem executed_flowing (linked : Linked nodes) (flowing : Flowing lib nodes inputs s) (mem : node ∈ nodes)
    {rest : List String} (next : s.run.ready = node.id :: rest) :
    Flowing lib nodes inputs (s.executed lib node rest) ∧
      (s.executed lib node rest).run.visited = s.run.visited ++ [node.id] ∧
      (s.executed lib node rest).calls = s.calls ++ (s.items node.id).map fun item => (node.id, item) := by
  have sorting := flowing.executing.sorting
  have once := flowing.executing.once
  rw [next] at sorting once
  have fresh : node.id ∉ s.run.visited := fun old =>
    (List.nodup_append.mp once).2.2 node.id old node.id List.mem_cons_self rfl
  have edge {v : String} (listed : v ∈ node.targets) : Edge nodes node.id v := ⟨node, mem, rfl, List.mem_append.mp listed⟩
  have adds : Adds node.id (.buffer lib node (s.items node.id)) (s.started node.id)
      ((s.items node.id).foldl (State.handled lib node) (s.started node.id)) := adds_foldl_handled _ _
  -- the part of the order is a round of the loop on no inputs
  have round : executeNext nodes s.run = some (s.executed lib node rest).run := by
    have first : executeNext nodes s.run = some ((outgoing nodes node.id).foldl releaseChild
        { s.run with ready := rest, visited := markVisited s.run.visited node.id }) := by
      rw [executeNext, next]
    rw [first, outgoing_of_mem linked.unique mem]
    show _ = some (node.targets.foldl releaseChild _)
    rw [adds.run]
    rfl
  obtain ⟨executing, -, -⟩ := executeNext_executing linked flowing.executing round
  have visited : (s.executed lib node rest).run.visited = s.run.visited ++ [node.id] := by
    obtain ⟨-, -, -, kept, -⟩ := releaseChildren node.targets
      { ((s.items node.id).foldl (State.handled lib node) (s.started node.id)).run with
        ready := rest
        visited := markVisited ((s.items node.id).foldl (State.handled lib node) (s.started node.id)).run.visited node.id }
    refine kept.trans ?_
    rw [adds.run]
    exact if_neg fresh
  have calls : (s.executed lib node rest).calls = s.calls ++ (s.items node.id).map fun item => (node.id, item) := adds.calls
  have items (v : String) : (s.executed lib node rest).items v =
      (if v = node.id then [] else s.items v) ++ (s.items node.id).flatMap fun item => routed lib node item v := by
    refine (adds.items v).trans ?_
    rw [show (s.started node.id).items v = if v = node.id then [] else s.items v from Function.update_apply ..]
    rfl
  have no_loop : node.id ∉ node.targets := fun listed =>
    fresh (sorting.parents node.id (List.mem_append_right _ List.mem_cons_self) node.id (edge listed))
  have silent {v : String} (off : v ∉ node.targets) : (s.items node.id).flatMap (fun item => routed lib node item v) = [] :=
    List.flatMap_eq_nil_iff.mpr fun item _ => routed_eq_nil off item
  have sends (v : String) : routedTo lib nodes v ((s.items node.id).map fun item => (node.id, item)) =
      (s.items node.id).flatMap fun item => routed lib node item v := flatMap_ofCall linked mem _ _
  have own : received (s.executed lib node rest).calls node.id = s.items node.id := by
    rw [calls, received_append, flowing.pending _ fresh, received_own]
    rfl
  have others {v : String} (other : v ≠ node.id) : received (s.executed lib node rest).calls v = received s.calls v := by
    rw [calls, received_append, received_other (Ne.symm other), List.append_nil]
  refine ⟨⟨executing, fun v => ?_, ?_, ?_, fun other mem' => ?_, fun v unvisited => ?_, fun v done => ?_, ?_⟩, visited, calls⟩
  · have before := flowing.flow v
    rw [items, calls, routedTo, List.flatMap_append, ← routedTo, ← routedTo, sends, ← List.append_assoc (entryItems _ _ _),
      ← before]
    by_cases here : v = node.id
    · subst here
      rw [← calls, own, if_pos rfl, silent no_loop, flowing.pending _ fresh]
      simp
    · rw [← calls, others here, if_neg here, List.append_assoc]
  · rw [calls, List.flatMap_append, ← flowing.outputs, flatMap_ofCall linked mem]
    exact adds.outputs
  · rw [calls, List.flatMap_append, ← flowing.errors, flatMap_ofCall linked mem]
    exact adds.errors
  · by_cases here : other.id = node.id
    · obtain rfl := List.inj_on_of_nodup_map linked.unique mem' mem here
      rw [if_pos (visited ▸ List.mem_append_right _ List.mem_cons_self), own]
      exact executions_executed (flowing.executions other mem) fresh adds
    · have kept : (s.executed lib node rest).executions other.id = s.executions other.id := by
        refine (Function.update_of_ne here _ _).trans ?_
        rw [adds.executions, Function.update_of_ne here]
        exact Function.update_of_ne here _ _
      have same : other.id ∈ (s.executed lib node rest).run.visited ↔ other.id ∈ s.run.visited := by
        rw [visited, List.mem_append, List.mem_singleton, or_iff_left here]
      rw [kept, flowing.executions other mem', others here]
      simp only [same]
  · rw [visited, List.mem_append, not_or, List.mem_singleton] at unvisited
    rw [others unvisited.2]
    exact flowing.pending v unvisited.1
  · rw [visited] at done
    rw [items]
    by_cases here : v = node.id
    · subst here
      rw [if_pos rfl, silent no_loop]
      rfl
    · have old : v ∈ s.run.visited := (List.mem_append.mp done).resolve_right fun its => here (List.mem_singleton.mp its)
      have off : v ∉ node.targets := fun listed =>
        fresh (sorting.parents v (List.mem_append_left _ old) node.id (edge listed))
      rw [if_neg here, flowing.drained v old, silent off]
      rfl
  · rw [visited, List.flatMap_append, List.flatMap_singleton, own]
    conv_lhs => rw [calls, flowing.blocks]
    congr 1
    refine List.flatMap_congr fun v old => ?_
    rw [others fun same => fresh (same ▸ old)]

end Log

section Flood

variable {γ ι : Type} (lib : Library γ ι) (nodes : List (Node γ))

/-- The rounds without bounds on the buffers. -/
def flood : Nat → State ι → State ι
  | 0, s => s
  | fuel + 1, s =>
    match s.run.ready with
    | [] => s
    | id :: rest =>
      match nodeOf nodes id with
      | none => s
      | some node => flood fuel (s.executed lib node rest)

/-- All that ever goes into a buffer fits, and no handler raises the error of the buffers. -/
structure Roomy (s : State ι) : Prop where
  items : ∀ v, (received s.calls v ++ s.items v).length ≤ lib.bufferSize
  outputs : s.outputs.length ≤ lib.bufferSize
  errors : s.errors.length ≤ lib.bufferSize
  calm : ∀ call ∈ s.calls, ∀ node, nodeOf nodes call.1 = some node → Calm lib node call.2

variable {lib nodes} {inputs : List ι} {s s' t : State ι} {node : Node γ} {rest : List String}

theorem ready_node (linked : Linked nodes) (flowing : Flowing lib nodes inputs s) {id : String}
    (next : s.run.ready = id :: rest) : ∃ node ∈ nodes, node.id = id ∧ nodeOf nodes id = some node := by
  have within := flowing.executing.sorting.within id (next ▸ List.mem_append_right _ List.mem_cons_self)
  obtain ⟨node, mem, rfl⟩ := List.mem_map.mp within
  exact ⟨node, mem, rfl, nodeOf_mem linked mem⟩

theorem flood_induct (linked : Linked nodes) {P : State ι → Prop}
    (keep : ∀ s node rest, Flowing lib nodes inputs s → node ∈ nodes → s.run.ready = node.id :: rest → P s →
      P (s.executed lib node rest)) (fuel : Nat) (flowing : Flowing lib nodes inputs s) (start : P s) :
    Flowing lib nodes inputs (flood lib nodes fuel s) ∧ P (flood lib nodes fuel s) := by
  induction fuel generalizing s with
  | zero => exact ⟨flowing, start⟩
  | succ fuel ih =>
    rw [flood]
    cases next : s.run.ready with
    | nil => exact ⟨flowing, start⟩
    | cons id rest =>
      obtain ⟨node, mem, rfl, found⟩ := ready_node linked flowing next
      simp only [found]
      exact ih (executed_flowing linked flowing mem next).1 (keep s node rest flowing mem next start)

theorem flood_flowing (linked : Linked nodes) (fuel : Nat) (flowing : Flowing lib nodes inputs s) :
    Flowing lib nodes inputs (flood lib nodes fuel s) :=
  (flood_induct linked (P := fun _ => True) (fun _ _ _ _ _ _ _ => trivial) fuel flowing trivial).1

theorem flood_calls (linked : Linked nodes) (fuel : Nat) (flowing : Flowing lib nodes inputs s) :
    s.calls <+: (flood lib nodes fuel s).calls :=
  (flood_induct linked (P := fun s' => s.calls <+: s'.calls) (fun _ _ _ flowing mem next earlier =>
    earlier.trans ((executed_flowing linked flowing mem next).2.2 ▸ List.prefix_append _ _)) fuel flowing List.prefix_rfl).2

theorem flood_done (linked : Linked nodes) {fuel : Nat} (flowing : Flowing lib nodes inputs s)
    (enough : nodes.length ≤ fuel + s.run.visited.length) : (flood lib nodes fuel s).run.ready = [] := by
  induction fuel generalizing s with
  | zero =>
    by_contra some_ready
    obtain ⟨id, rest, next⟩ := List.exists_cons_of_ne_nil some_ready
    have once := flowing.executing.once
    have few := (once.subperm flowing.executing.sorting.within).length_le
    rw [show s.run.ready = id :: rest from next, nodeIds, List.length_map, List.length_append, List.length_cons] at few
    omega
  | succ fuel ih =>
    rw [flood]
    cases next : s.run.ready with
    | nil => exact next
    | cons id rest =>
      obtain ⟨node, mem, rfl, found⟩ := ready_node linked flowing next
      obtain ⟨flowing', visited, -⟩ := executed_flowing linked flowing mem next
      simp only [found]
      refine ih flowing' ?_
      rw [visited, List.length_append, List.length_singleton]
      omega

theorem Roomy.of_prefix (flowing : Flowing lib nodes inputs s) (flowing' : Flowing lib nodes inputs s')
    (earlier : s.calls <+: s'.calls) (roomy : Roomy lib nodes s') : Roomy lib nodes s := by
  obtain ⟨more, calls⟩ := earlier
  refine ⟨fun v => ?_, ?_, ?_, fun call mem => roomy.calm call (calls ▸ List.mem_append_left _ mem)⟩
  · have := roomy.items v
    rw [flowing'.flow, ← calls, routedTo, List.flatMap_append, ← routedTo, ← List.append_assoc, List.length_append] at this
    rw [flowing.flow]
    exact (Nat.le_add_right ..).trans this
  · have := roomy.outputs
    rw [flowing'.outputs, ← calls, List.flatMap_append, ← flowing.outputs, List.length_append] at this
    exact (Nat.le_add_right ..).trans this
  · have := roomy.errors
    rw [flowing'.errors, ← calls, List.flatMap_append, ← flowing.errors, List.length_append] at this
    exact (Nat.le_add_right ..).trans this

theorem executed_roomy (linked : Linked nodes) (flowing : Flowing lib nodes inputs s) (mem : node ∈ nodes)
    (next : s.run.ready = node.id :: rest) (roomy : Roomy lib nodes s) :
    Roomy lib nodes (s.executed lib node rest) ↔ (∀ item ∈ s.items node.id, Calm lib node item) ∧
      Fits lib ((s.items node.id).foldl (State.handled lib node) (s.started node.id)) := by
  obtain ⟨flowing', visited, calls⟩ := executed_flowing linked flowing mem next
  have called (v : String) : received (s.executed lib node rest).calls v =
      received s.calls v ++ received ((s.items node.id).map fun item => (node.id, item)) v := by
    rw [calls, received_append]
  constructor
  · intro later
    refine ⟨fun item waits => ?_, fun v => ?_, later.outputs, later.errors⟩
    · refine later.calm (node.id, item) ?_ node (nodeOf_mem linked mem)
      rw [calls]
      exact List.mem_append_right _ (List.mem_map_of_mem (f := fun item => (node.id, item)) waits)
    · have := later.items v
      rw [List.length_append] at this
      exact (Nat.le_add_left ..).trans this
  · rintro ⟨calm, fits⟩
    refine ⟨fun v => ?_, fits.outputs, fits.errors, fun call its other found => ?_⟩
    · by_cases done : v ∈ (s.executed lib node rest).run.visited
      · have before := roomy.items v
        rw [flowing'.drained v done, List.append_nil, called]
        by_cases here : v = node.id
        · rw [here, received_own]
          rwa [here] at before
        · rw [received_other (Ne.symm here), List.append_nil]
          rw [List.length_append] at before
          exact (Nat.le_add_right ..).trans before
      · rw [flowing'.pending v done]
        exact fits.items v
    · rw [calls] at its
      rcases List.mem_append.mp its with old | new
      · exact roomy.calm call old other found
      · obtain ⟨item, waits, rfl⟩ := List.mem_map.mp new
        rw [nodeOf_mem linked mem] at found
        obtain rfl := Option.some.inj found
        exact calm item waits

theorem fits_started (roomy : Roomy lib nodes s) (id : String) : Fits lib (s.started id) := by
  refine ⟨fun v => ?_, roomy.outputs, roomy.errors⟩
  rw [show (s.started id).items v = if v = id then [] else s.items v from Function.update_apply ..]
  split
  next => exact Nat.zero_le _
  next =>
    have := roomy.items v
    rw [List.length_append] at this
    exact (Nat.le_add_left ..).trans this

theorem halted_iff (roomy : Roomy lib nodes s) :
    (.ok s : Except RunError (State ι)) = .ok t ↔ Roomy lib nodes s ∧ t = s :=
  ⟨fun h => ⟨roomy, (Except.ok.inj h).symm⟩, fun h => congrArg Except.ok h.2.symm⟩

theorem rounds_eq_ok (linked : Linked nodes) (fuel : Nat) (flowing : Flowing lib nodes inputs s) (roomy : Roomy lib nodes s) :
    rounds lib nodes fuel s = .ok t ↔ Roomy lib nodes (flood lib nodes fuel s) ∧ t = flood lib nodes fuel s := by
  induction fuel generalizing s with
  | zero => exact halted_iff roomy
  | succ fuel ih =>
    rw [rounds, flood]
    cases next : s.run.ready with
    | nil => exact halted_iff roomy
    | cons id rest =>
      obtain ⟨node, mem, rfl, found⟩ := ready_node linked flowing next
      have flowing' := (executed_flowing linked flowing mem next).1
      have handles := foldlM_fits (handleItem_fits lib node) grows_handled (s.items node.id) (fits_started roomy node.id)
      simp only [found]
      rw [bind_eq_ok]
      constructor
      · rintro ⟨s₁, first, later⟩
        obtain ⟨calm, fits, rfl⟩ := (handles _).mp first
        have roomy' := (executed_roomy linked flowing mem next roomy).mpr ⟨calm, fits⟩
        exact (ih flowing' roomy').mp later
      · rintro ⟨later, rfl⟩
        have roomy' : Roomy lib nodes (s.executed lib node rest) :=
          later.of_prefix flowing' (flood_flowing linked fuel flowing') (flood_calls linked fuel flowing')
        obtain ⟨calm, fits⟩ := (executed_roomy linked flowing mem next roomy).mp roomy'
        exact ⟨_, (handles _).mpr ⟨calm, fits, rfl⟩, (ih flowing' roomy').mpr ⟨later, rfl⟩⟩

end Flood

section Start

variable {γ ι : Type} {lib : Library γ ι} {nodes : List (Node γ)}

/-- The buffers when the inputs are at the entry nodes. -/
def State.seeded (nodes : List (Node γ)) (inputs : List ι) : State ι := { State.init nodes with items := entryItems nodes inputs }

/-- An input at the entry nodes. -/
def State.entered (nodes : List (Node γ)) (s : State ι) (input : Option ι) : State ι :=
  match input with
  | none => s
  | some item => (entryNodes nodes).foldl (State.sent item) s

theorem grows_entered (s : State ι) (input : Option ι) : Grows s (s.entered nodes input) := by
  cases input with
  | none => exact .refl s
  | some item => exact grows_foldl (grows_sent item) _ s

theorem seed_fits (lib : Library γ ι) (nodes : List (Node γ)) (s : State ι) (input : Option ι) (s' : State ι) (fits : Fits lib s) :
    seed lib nodes s input = .ok s' ↔ input.isSome ∧ Fits lib (s.entered nodes input) ∧ s' = s.entered nodes input := by
  cases input with
  | none => exact ⟨fun h => (nomatch h), fun h => (nomatch h.1)⟩
  | some item =>
    refine (foldlM_fits (appendBounded_fits item) (grows_sent item) _ fits s').trans ?_
    exact and_congr_left fun _ => iff_of_true (fun _ _ => trivial) rfl

theorem entered_items (unique : (nodeIds nodes).Nodup) (s : State ι) (item : ι) (v : String) :
    (s.entered nodes (some item)).items v = s.items v ++ entryItems nodes [item] v := by
  refine ((adds_foldl_sent "" item (entryNodes nodes) s).items v).trans (congrArg _ ?_)
  show List.replicate _ _ = _
  rw [entryItems]
  split
  next its =>
    rw [List.count_eq_one_of_mem (show (entryNodes nodes).Nodup from unique.filter _) its]
    rfl
  next off =>
    rw [List.count_eq_zero.mpr off]
    rfl

theorem foldl_entered (unique : (nodeIds nodes).Nodup) (inputs : List (Option ι)) :
    inputs.foldl (State.entered nodes) (.init nodes) = .seeded nodes inputs.reduceOption := by
  induction inputs using List.reverseRecOn with
  | nil =>
    refine State.ext rfl (funext fun v => ?_) rfl rfl rfl rfl
    show [] = entryItems nodes [] v
    rw [entryItems]
    split <;> rfl
  | append_singleton inputs input ih =>
    rw [List.foldl_append, List.foldl_cons, List.foldl_nil, ih]
    cases input with
    | none =>
      rw [List.reduceOption_append]
      exact congrArg (State.seeded nodes) (List.append_nil _).symm
    | some item =>
      have adds := adds_foldl_sent "" item (entryNodes nodes) (State.seeded nodes inputs.reduceOption)
      refine State.ext adds.run (funext fun v => ?_) ?_ (adds.outputs.trans rfl) (adds.errors.trans rfl) (adds.calls.trans rfl)
      · rw [entered_items unique, List.reduceOption_append]
        show entryItems nodes _ v ++ _ = entryItems nodes _ v
        simp only [entryItems]
        split <;> rfl
      · exact adds.executions.trans (Function.update_eq_self ..)

theorem seeded_flowing (lib : Library γ ι) (unique : (nodeIds nodes).Nodup) (inputs : List ι) : Flowing lib nodes inputs (.seeded nodes inputs) where
  executing := executing_init unique
  flow _ := (List.append_nil _).symm
  outputs := rfl
  errors := rfl
  executions _ _ := (if_neg List.not_mem_nil).symm
  pending _ _ := rfl
  drained _ never := (nomatch never)
  blocks := rfl

theorem seeded_fits_iff (inputs : List ι) :
    Fits lib (.seeded nodes inputs) ↔ Roomy lib nodes (.seeded nodes inputs) :=
  ⟨fun fits => ⟨fits.items, fits.outputs, fits.errors, fun _ never => (nomatch never)⟩,
    fun roomy => ⟨roomy.items, roomy.outputs, roomy.errors⟩⟩

theorem foldlM_checkContractNode_iff {validateNode : Node γ → Option String} (seen ids : List String) :
    nodes.foldlM (checkContractNode validateNode) seen = .ok ids ↔
      (∀ node ∈ nodes, validateNode node = none) ∧ (nodeIds nodes).Nodup ∧ (∀ id ∈ nodeIds nodes, id ∉ seen) ∧
        ids = seen ++ nodeIds nodes := by
  induction nodes generalizing seen with
  | nil =>
    refine ⟨fun h => ⟨fun _ never => (nomatch never), List.nodup_nil, fun _ never => (nomatch never), ?_⟩, fun h => ?_⟩
    · rw [← Except.ok.inj h]
      exact (List.append_nil _).symm
    · rw [h.2.2.2]
      exact congrArg Except.ok (List.append_nil _).symm
  | cons node nodes ih =>
    have step : checkContractNode validateNode seen node = .ok (seen ++ [node.id]) ↔
        validateNode node = none ∧ node.id ∉ seen := by
      rw [checkContractNode]
      cases validateNode node with
      | some code => exact ⟨fun h => (nomatch h), fun h => (nomatch h.1)⟩
      | none =>
        dsimp only
        split
        next old => exact ⟨fun h => (nomatch h), fun h => absurd old h.2⟩
        next fresh => exact iff_of_true rfl ⟨rfl, fresh⟩
    have only {next : List String} (h : checkContractNode validateNode seen node = .ok next) : next = seen ++ [node.id] := by
      rw [checkContractNode] at h
      split at h
      · cases h
      · split at h
        · cases h
        · exact (Except.ok.inj h).symm
    have apart : (∀ id ∈ nodeIds nodes, id ∉ seen ++ [node.id]) ↔
        (∀ id ∈ nodeIds nodes, id ∉ seen) ∧ node.id ∉ nodeIds nodes := by
      simp only [List.mem_append, List.mem_singleton, not_or]
      refine ⟨fun h => ⟨fun id mem => (h id mem).1, fun mem => (h node.id mem).2 rfl⟩, fun h id mem => ⟨h.1 id mem, ?_⟩⟩
      rintro rfl
      exact h.2 mem
    have ids_cons : nodeIds (node :: nodes) = node.id :: nodeIds nodes := rfl
    rw [List.foldlM_cons, bind_eq_ok, List.forall_mem_cons, ids_cons, List.nodup_cons, List.forall_mem_cons]
    constructor
    · rintro ⟨next, first, later⟩
      obtain rfl := only first
      obtain ⟨valid, fresh⟩ := step.mp first
      obtain ⟨all, unique, off, rfl⟩ := (ih _).mp later
      exact ⟨⟨valid, all⟩, ⟨(apart.mp off).2, unique⟩, ⟨fresh, (apart.mp off).1⟩, List.append_assoc ..⟩
    · rintro ⟨⟨valid, all⟩, ⟨other, unique⟩, ⟨fresh, off⟩, rfl⟩
      exact ⟨_, step.mpr ⟨valid, fresh⟩, (ih _).mpr ⟨all, unique, apart.mpr ⟨off, other⟩, List.append_cons ..⟩⟩

theorem forM_eq_ok {α ε : Type} {f : α → Except ε PUnit} {l : List α} : l.forM f = .ok () ↔ ∀ a ∈ l, f a = .ok () := by
  induction l with
  | nil => exact iff_of_true rfl fun _ never => (nomatch never)
  | cons a l ih =>
    rw [List.forall_mem_cons, ← ih]
    exact bind_eq_ok.trans ⟨fun ⟨_, first, later⟩ => ⟨first, later⟩, fun h => ⟨_, h.1, h.2⟩⟩

theorem contract_eq_ok {validateNode : Node γ → Option String} :
    validateWorkflowContract validateNode nodes = .ok () ↔
      nodes ≠ [] ∧ (∀ node ∈ nodes, validateNode node = none) ∧ Linked nodes := by
  have target (id target : String) :
      (if target ∈ nodeIds nodes then .ok () else .error (.missingNode id target) : Except ExecutionError PUnit) = .ok () ↔
        target ∈ nodeIds nodes := by
    split
    next its => exact iff_of_true rfl its
    next off => exact ⟨fun h => (nomatch h), fun its => absurd its off⟩
  rw [validateWorkflowContract]
  split
  next none => exact ⟨fun h => (nomatch h), fun h => absurd none h.1⟩
  next some_nodes =>
    rw [bind_eq_ok]
    simp only [foldlM_checkContractNode_iff, List.nil_append]
    constructor
    · rintro ⟨ids, ⟨valid, unique, -, rfl⟩, linked⟩
      exact ⟨some_nodes, valid, unique, fun node mem child listed =>
        (target node.id child).mp (forM_eq_ok.1 (forM_eq_ok.1 linked node mem) child listed)⟩
    · rintro ⟨-, valid, linked⟩
      exact ⟨_, ⟨valid, linked.unique, fun _ _ => List.not_mem_nil, rfl⟩, forM_eq_ok.2 fun node mem =>
        forM_eq_ok.2 fun child listed => (target node.id child).mpr (linked.targets node mem child listed)⟩

theorem execute_eq_ok {inputs : List (Option ι)} {t : State ι} :
    execute lib nodes inputs = .ok t ↔
      (nodes ≠ [] ∧ (∀ node ∈ nodes, lib.validateNode node = none) ∧ Linked nodes) ∧
      (∀ node ∈ nodes, (lib.handler node.kind).isSome) ∧ entryNodes nodes ≠ [] ∧ (∀ input ∈ inputs, input.isSome) ∧
      Roomy lib nodes (flood lib nodes nodes.length (.seeded nodes inputs.reduceOption)) ∧
      t = flood lib nodes nodes.length (.seeded nodes inputs.reduceOption) ∧ t.run.visited.length = nodes.length := by
  rw [execute]
  cases checked : validateWorkflowContract lib.validateNode nodes with
  | error error =>
    refine ⟨fun h => (nomatch h), fun h => ?_⟩
    rw [contract_eq_ok.2 h.1] at checked
    cases checked
  | ok valid =>
    have contract := contract_eq_ok.1 checked
    have linked := contract.2.2
    have fits_init : Fits lib (State.init nodes) := ⟨fun _ => Nat.zero_le _, Nat.zero_le _, Nat.zero_le _⟩
    have seeds := foldlM_fits (seed_fits lib nodes) grows_entered inputs fits_init
    have flowing := seeded_flowing lib linked.unique inputs.reduceOption
    simp only [bind_eq_ok, require_eq_ok, exists_const, seeds, foldl_entered linked.unique]
    constructor
    · rintro ⟨handled, some_entry, s, ⟨objects, fits, rfl⟩, t', later, complete, returned⟩
      obtain rfl := Except.ok.inj returned
      obtain ⟨roomy, same⟩ := (rounds_eq_ok linked nodes.length flowing ((seeded_fits_iff _).mp fits)).mp later
      exact ⟨contract, handled, some_entry, objects, roomy, same, complete⟩
    · rintro ⟨-, handled, some_entry, objects, roomy, rfl, complete⟩
      have start := roomy.of_prefix flowing (flood_flowing linked nodes.length flowing) (flood_calls linked nodes.length flowing)
      exact ⟨handled, some_entry, _, ⟨objects, (seeded_fits_iff _).mpr start, rfl⟩, _,
        (rounds_eq_ok linked nodes.length flowing start).mpr ⟨roomy, rfl⟩, complete, rfl⟩

end Start

section Order

variable {γ ι β : Type} {lib : Library γ ι} {nodes nodes' : List (Node γ)} {inputs : List ι} {s s' : State ι} {v : String}

/-- Every node was executed once, after its predecessors, on the records they routed to it. -/
structure Ran (lib : Library γ ι) (nodes : List (Node γ)) (inputs : List ι) (s : State ι) : Prop where
  once : s.run.visited.Perm (nodeIds nodes)
  parents : Settles (Edge nodes) s.run.visited
  blocks : s.calls = s.run.visited.flatMap fun v => (received s.calls v).map fun item => (v, item)
  routed : ∀ v, received s.calls v = entryItems nodes inputs v ++ routedTo lib nodes v s.calls

/-- The results of two runs, up to the order of what they list. -/
structure Same (nodes : List (Node γ)) (s s' : State ι) : Prop where
  outputs : s.outputs.Perm s'.outputs
  errors : s.errors.Perm s'.errors
  executions : ∀ v ∈ nodeIds nodes, s.executions v = s'.executions v
  received : ∀ v, (received s.calls v).Perm (received s'.calls v)

theorem flowing_ran (linked : Linked nodes) (flowing : Flowing lib nodes inputs s) (done : s.run.ready = [])
    (complete : s.run.visited.length = nodes.length) : Ran lib nodes inputs s := by
  have sorting := flowing.executing.sorting
  have once := flowing.executing.once
  rw [done] at sorting once
  have settles := sorting.settles
  have within := sorting.within
  rw [List.append_nil] at once settles within
  have all : s.run.visited.Perm (nodeIds nodes) :=
    (once.subperm within).perm_of_length_le (by rw [nodeIds, List.length_map, complete])
  refine ⟨all, settles, flowing.blocks, fun v => ?_⟩
  rw [← flowing.flow]
  by_cases visited : v ∈ s.run.visited
  · rw [flowing.drained v visited, List.append_nil]
  -- a name that no node has is the target of none
  have off : v ∉ nodeIds nodes := fun mem => visited (all.mem_iff.mpr mem)
  have unrouted : routedTo lib nodes v s.calls = [] := List.flatMap_eq_nil_iff.mpr fun call _ => by
    rw [ofCall]
    cases found : nodeOf nodes call.1 with
    | none => rfl
    | some node =>
      exact routed_eq_nil (fun listed => off (linked.targets node (mem_of_nodeOf found).1 v listed)) call.2
  have flow := flowing.flow v
  have no_entry : v ∉ entryNodes nodes := fun entry => off (List.mem_of_mem_filter entry)
  rw [unrouted, entryItems, if_neg no_entry, List.append_nil] at flow
  rw [(List.append_eq_nil_iff.mp flow).2, List.append_nil]

theorem entryNodes_perm (perm : nodes.Perm nodes') : (entryNodes nodes).Perm (entryNodes nodes') := by
  have same (id : String) : indegree nodes id = indegree nodes' id := (perm.map _).sum_eq
  rw [entryNodes, entryNodes]
  simp only [same]
  exact (perm.map Node.id).filter _

theorem entryItems_perm (perm : nodes.Perm nodes') : entryItems nodes inputs v = entryItems nodes' inputs v := by
  rw [entryItems, entryItems]
  simp only [(entryNodes_perm perm).mem_iff]

theorem edge_perm (perm : nodes.Perm nodes') : Edge nodes = Edge nodes' :=
  funext₂ fun _ _ => propext (exists_congr fun _ => and_congr_left fun _ => perm.mem_iff)

theorem linked_perm (linked : Linked nodes) (perm : nodes.Perm nodes') : Linked nodes' where
  unique := (perm.map Node.id).nodup_iff.mp linked.unique
  targets node mem target listed := (perm.map Node.id).mem_iff.mp (linked.targets node (perm.mem_iff.mpr mem) target listed)

theorem nodeOf_perm (linked : Linked nodes) (perm : nodes.Perm nodes') : nodeOf nodes v = nodeOf nodes' v := by
  cases found : nodeOf nodes v with
  | some node =>
    obtain ⟨mem, rfl⟩ := mem_of_nodeOf found
    exact (nodeOf_mem (linked_perm linked perm) (perm.mem_iff.mp mem)).symm
  | none =>
    cases found' : nodeOf nodes' v with
    | none => rfl
    | some node =>
      obtain ⟨mem, rfl⟩ := mem_of_nodeOf found'
      rw [nodeOf_mem linked (perm.mem_iff.mpr mem)] at found
      cases found

theorem ofCall_perm (linked : Linked nodes) (perm : nodes.Perm nodes') (f : Node γ → ι → List β) :
    ofCall nodes f = ofCall nodes' f := by
  funext call
  rw [ofCall, ofCall, nodeOf_perm linked perm]

theorem Ran.flatMap_calls (ran : Ran lib nodes inputs s) (f : String × ι → List β) :
    s.calls.flatMap f = s.run.visited.flatMap fun u => (received s.calls u).flatMap fun item => f (u, item) := by
  conv_lhs => rw [ran.blocks]
  rw [List.flatMap_assoc]
  exact List.flatMap_congr fun u _ => List.flatMap_map ..

theorem Ran.visited_perm (ran : Ran lib nodes inputs s) (perm : nodes.Perm nodes') (ran' : Ran lib nodes' inputs s') :
    s.run.visited.Perm s'.run.visited := ran.once.trans ((perm.map Node.id).trans ran'.once.symm)

theorem received_perm (linked : Linked nodes) (perm : nodes.Perm nodes') (acyclic : Acyclic (Edge nodes))
    (ran : Ran lib nodes inputs s) (ran' : Ran lib nodes' inputs s') (v : String) :
    (received s.calls v).Perm (received s'.calls v) := by
  have wf := acyclic.wellFounded fun p v edge => (linked.edge_within edge).1
  induction v using wf.induction with
  | h v ih =>
    rw [ran.routed, ran'.routed, entryItems_perm perm, routedTo, routedTo, ran.flatMap_calls, ran'.flatMap_calls,
      ofCall_perm linked perm]
    refine List.Perm.append_left _ (List.Perm.flatMap (ran.visited_perm perm ran') fun u _ => ?_)
    cases found : nodeOf nodes' u with
    | none =>
      have nothing (items : List ι) : items.flatMap (fun item => ofCall nodes' (fun node item => routed lib node item v) (u, item)) = [] :=
        List.flatMap_eq_nil_iff.mpr fun item _ => by rw [ofCall, found]
      rw [nothing, nothing]
    | some node =>
      obtain ⟨mem, rfl⟩ := mem_of_nodeOf found
      by_cases listed : v ∈ node.targets
      · exact (ih node.id ⟨node, perm.mem_iff.mpr mem, rfl, List.mem_append.mp listed⟩).flatMap_right _
      · have nothing (items : List ι) :
            items.flatMap (fun item => ofCall nodes' (fun node item => routed lib node item v) (node.id, item)) = [] :=
          List.flatMap_eq_nil_iff.mpr fun item _ => by
            rw [ofCall, found]
            exact routed_eq_nil listed item
        rw [nothing, nothing]

theorem calls_perm (perm : nodes.Perm nodes') (ran : Ran lib nodes inputs s) (ran' : Ran lib nodes' inputs s')
    (same : ∀ v, (received s.calls v).Perm (received s'.calls v)) : s.calls.Perm s'.calls := by
  rw [ran.blocks, ran'.blocks]
  exact List.Perm.flatMap (ran.visited_perm perm ran') fun v _ => (same v).map _

theorem tally_perm {node : Node γ} {items items' : List ι} (perm : items.Perm items') :
    tally lib node items = tally lib node items' := by
  rw [tally, tally, perm.length_eq, (perm.flatMap_right (yielded lib node)).length_eq,
    (perm.flatMap_right (failures lib node)).length_eq]

theorem flowing_same (linked : Linked nodes) (perm : nodes.Perm nodes') (flowing : Flowing lib nodes inputs s)
    (flowing' : Flowing lib nodes' inputs s') (ran : Ran lib nodes inputs s) (ran' : Ran lib nodes' inputs s')
    (same : ∀ v, (received s.calls v).Perm (received s'.calls v)) : Same nodes s s' := by
  have calls := calls_perm perm ran ran' same
  refine ⟨?_, ?_, fun v mem => ?_, same⟩
  · rw [flowing.outputs, flowing'.outputs, ofCall_perm linked perm]
    exact calls.flatMap_right _
  · rw [flowing.errors, flowing'.errors, ofCall_perm linked perm]
    exact calls.flatMap_right _
  · obtain ⟨node, here, rfl⟩ := List.mem_map.mp mem
    rw [flowing.executions node here, flowing'.executions node (perm.mem_iff.mp here), if_pos (ran.once.mem_iff.mpr mem),
      if_pos (ran'.once.mem_iff.mpr ((perm.map Node.id).mem_iff.mp mem)), tally_perm (same node.id)]

theorem roomy_perm (linked : Linked nodes) (perm : nodes.Perm nodes')
    (flowing' : Flowing lib nodes' inputs s') (ran' : Ran lib nodes' inputs s') (same : Same nodes s s')
    (calls : s.calls.Perm s'.calls) (roomy : Roomy lib nodes s) : Roomy lib nodes' s' := by
  refine ⟨fun v => ?_, same.outputs.length_eq ▸ roomy.outputs, same.errors.length_eq ▸ roomy.errors, fun call mem node found => ?_⟩
  · rw [flowing'.flow, ← ran'.routed, ← (same.received v).length_eq]
    have := roomy.items v
    rw [List.length_append] at this
    exact (Nat.le_add_right ..).trans this
  · exact roomy.calm call (calls.mem_iff.mpr mem) node ((nodeOf_perm linked perm).trans found)

/-- The result of a workflow does not depend on the order of its nodes. -/
theorem execute_order_independent (perm : nodes.Perm nodes') (acyclic : Acyclic (Edge nodes))
    (inputs : List (Option ι)) (returned : execute lib nodes inputs = .ok s) :
    Ran lib nodes inputs.reduceOption s ∧ ∃ s', execute lib nodes' inputs = .ok s' ∧ Same nodes s s' := by
  obtain ⟨⟨some_nodes, valid, linked⟩, handled, some_entry, objects, roomy, rfl, complete⟩ := execute_eq_ok.1 returned
  have linked' := linked_perm linked perm
  have after {nodes : List (Node γ)} (linked : Linked nodes) :=
    flood_flowing linked nodes.length (seeded_flowing lib linked.unique inputs.reduceOption)
  have done {nodes : List (Node γ)} (linked : Linked nodes) :=
    flood_done linked (seeded_flowing lib linked.unique inputs.reduceOption) (Nat.le_add_right nodes.length 0)
  have ran := flowing_ran linked (after linked) (done linked) complete
  have complete' : (flood lib nodes' nodes'.length (.seeded nodes' inputs.reduceOption)).run.visited.length = nodes'.length := by
    have sorting := (after linked').executing.sorting
    have once := (after linked').executing.once
    rw [done linked'] at sorting once
    have within := sorting.within
    rw [List.append_nil] at once within
    rw [edge_perm perm] at acyclic
    exact ((length_eq_iff_of_nodup once linked'.unique within).mpr
      ((sorting.all_done_iff fun p v edge => linked'.edge_within edge).mpr acyclic)).trans (List.length_map _)
  have ran' := flowing_ran linked' (after linked') (done linked') complete'
  have same := received_perm linked perm acyclic ran ran'
  have results := flowing_same linked perm (after linked) (after linked') ran ran' same
  have roomy' := roomy_perm linked perm (after linked') ran' results (calls_perm perm ran ran' same) roomy
  refine ⟨ran, _, execute_eq_ok.2 ⟨⟨?_, fun node mem => valid node (perm.mem_iff.mpr mem), linked'⟩,
    fun node mem => handled node (perm.mem_iff.mpr mem), ?_, objects, roomy', rfl, complete'⟩, results⟩
  · exact fun none => some_nodes (none ▸ perm).eq_nil
  · exact fun none => some_entry (none ▸ entryNodes_perm perm).eq_nil

/-- A number goes on as itself and its double; zero is an error. -/
def sampleLibrary : Library Unit Nat where
  validateNode _ := none
  handler _ := some fun item _ => if item = 0 then ⟨[], some ⟨"zero", false⟩⟩ else ⟨[some item, some (2 * item)], none⟩
  resolve config := .ok config
  withError item _ := item + 100
  bufferSize := 20

def sampleNodes : List (Node Unit) :=
  [⟨"source", (), "a", ["c"], ["c"]⟩, ⟨"source", (), "b", ["c"], []⟩, ⟨"sink", (), "c", [], []⟩]

theorem execute_order_independent_sample :
    ∃ s s', execute sampleLibrary sampleNodes [some 0, some 3] = .ok s ∧
      execute sampleLibrary sampleNodes.reverse [some 0, some 3] = .ok s' ∧
      s.outputs = [100, 200, 3, 6, 6, 12, 3, 6, 6, 12] ∧ Ran sampleLibrary sampleNodes [0, 3] s ∧ Same sampleNodes s s' := by
  have wf : WellFormed sampleNodes := ⟨by decide, by decide, by decide, by decide, by decide⟩
  have acyclic : Acyclic (Edge sampleNodes) :=
    (execution_complete_iff wf (rfl : loop (executeNext sampleNodes) 4 (.init sampleNodes) = some _)).mp rfl
  have outputs : (execute sampleLibrary sampleNodes [some 0, some 3]).toOption.map State.outputs =
      some [100, 200, 3, 6, 6, 12, 3, 6, 6, 12] := by decide
  cases returned : execute sampleLibrary sampleNodes [some 0, some 3] with
  | error error =>
    rw [returned] at outputs
    cases outputs
  | ok s =>
    rw [returned] at outputs
    obtain ⟨ran, s', returned', same⟩ := execute_order_independent (List.reverse_perm _).symm acyclic [some 0, some 3] returned
    exact ⟨s, s', rfl, returned', Option.some.inj outputs, ran, same⟩

end Order

end Arenyxa.Workflow.Flow
