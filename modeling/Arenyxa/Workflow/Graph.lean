import Arenyxa.Lib.Loop
import Mathlib.Algebra.GroupWithZero.Nat
import Mathlib.Data.List.Nodup

/-! The workflow graph: the checks of the visual model, and the node order it derives. -/

universe u

namespace Arenyxa.Workflow

open Loop

/-- A node; what its configuration holds is the node contract's matter. -/
structure Node (γ : Type u) where
  kind : String
  config : γ
  id : String
  nextIds : List String
  failureIds : List String

variable {γ : Type u}

/-- `[*next_ids, *failure_ids]` -/
def Node.targets (node : Node γ) : List String := node.nextIds ++ node.failureIds

def nodeIds (nodes : List (Node γ)) : List String := nodes.map Node.id

/-- The targets of a node, by its identifier. -/
def outgoing (nodes : List (Node γ)) (id : String) : List String :=
  ((nodes.find? fun node => node.id = id).map Node.targets).getD []

/-- The identifiers of the nodes that list a target. -/
def parents (nodes : List (Node γ)) (target : String) : List String :=
  (nodeIds nodes).filter fun id => target ∈ outgoing nodes id

def maxNodes : Nat := 1000

def maxEdges : Nat := 10000

inductive GraphError
  | nodeBudget
  | emptyId
  | duplicateId
  | noKind (id : String)
  | missingNode (id target : String)
  | edgeBudget
  | cycle

section Payload

-- `str.strip`
variable (strip : String → String)

def normalizeRow (row : Node γ) : Node γ :=
  { row with
    id := strip row.id
    kind := strip row.kind
    nextIds := row.nextIds.take 256
    failureIds := row.failureIds.take 256 }

/-- `_normalize_payload`, of rows that may be no objects. -/
def normalizePayload (rows : List (Option (Node γ))) : Except GraphError (List (Node γ)) :=
  if maxNodes < rows.length then .error .nodeBudget
  else .ok (rows.filterMap fun row => row.map (normalizeRow strip))

end Payload

def countTarget (known : List String) (id : String) (count : Nat) (target : String) :
    Except GraphError Nat :=
  if target ∈ known then .ok (count + 1) else .error (.missingNode id target)

def checkRow (known : List String) (count : Nat) (row : Node γ) : Except GraphError Nat :=
  if row.kind = "" then .error (.noKind row.id)
  else row.targets.foldlM (countTarget known row.id) count

/-- `_validate`, up to the order. -/
def checkRows (nodes : List (Node γ)) : Except GraphError Unit :=
  if "" ∈ nodeIds nodes then .error .emptyId
  else if ¬(nodeIds nodes).Nodup then .error .duplicateId
  else do
    let edges ← nodes.foldlM (checkRow (nodeIds nodes)) 0
    if maxEdges < edges then .error .edgeBudget else .ok ()

structure Levelling where
  queue : List String
  incoming : String → List String
  levels : String → Option Nat
  visited : Nat

/-- The loop body for one target of the current node. -/
def visitTarget (current : String) (s : Levelling) (target : String) : Levelling :=
  let left := (s.incoming target).filter fun id => id ≠ current
  { s with
    levels := Function.update s.levels target
      (some (max ((s.levels target).getD 0) ((s.levels current).getD 0 + 1)))
    incoming := Function.update s.incoming target left
    queue := if left = [] then s.queue ++ [target] else s.queue }

def visit (nodes : List (Node γ)) (s : Levelling) : Option Levelling :=
  match s.queue with
  | [] => none
  | current :: rest =>
    some ((outgoing nodes current).foldl (visitTarget current)
      { s with queue := rest, visited := s.visited + 1 })

def roots (nodes : List (Node γ)) : List String :=
  (nodeIds nodes).filter fun id => parents nodes id = []

def Levelling.init (nodes : List (Node γ)) : Levelling where
  queue := roots nodes
  incoming := parents nodes
  levels := fun id => if id ∈ roots nodes then some 0 else none
  visited := 0

/-- `_topological_levels`, which gives nothing when the fuel runs out. -/
def topologicalLevels (raiseOnCycle : Bool) (fuel : Nat) (nodes : List (Node γ)) :
    Option (Except GraphError (String → Option Nat)) :=
  (loop (visit nodes) fuel (.init nodes)).map fun s =>
    if s.visited = nodes.length then .ok s.levels
    else if raiseOnCycle then .error .cycle
    else .ok fun id => if id ∈ nodeIds nodes then some ((s.levels id).getD 0) else s.levels id

/-- `WorkflowGraphModel(payload)` -/
def workflowGraphModel (strip : String → String) (fuel : Nat) (rows : List (Option (Node γ))) :
    Option (Except GraphError (List (Node γ))) :=
  match normalizePayload strip rows with
  | .error error => some (.error error)
  | .ok nodes =>
    match checkRows nodes with
    | .error error => some (.error error)
    | .ok _ => (topologicalLevels true fuel nodes).map fun order => order.map fun _ => nodes

/-- An edge of the graph, by either list. -/
def Edge (nodes : List (Node γ)) (source target : String) : Prop :=
  ∃ node ∈ nodes, node.id = source ∧ (target ∈ node.nextIds ∨ target ∈ node.failureIds)

/-- What the payload has to be before its edges matter. -/
structure WellFormed (nodes : List (Node γ)) : Prop where
  some_ids : ∀ node ∈ nodes, node.id ≠ ""
  unique : (nodeIds nodes).Nodup
  some_kinds : ∀ node ∈ nodes, node.kind ≠ ""
  targets : ∀ node ∈ nodes, ∀ target ∈ node.targets, target ∈ nodeIds nodes
  edges : (nodes.map fun node => node.targets.length).sum ≤ maxEdges

variable {nodes : List (Node γ)}

theorem outgoing_of_mem (unique : (nodeIds nodes).Nodup) {node : Node γ} (member : node ∈ nodes) :
    outgoing nodes node.id = node.targets := by
  have found : nodes.find? (fun other => other.id = node.id) = some node := by
    cases found : nodes.find? fun other => other.id = node.id with
    | none => simpa using List.find?_eq_none.mp found node member
    | some other =>
      have named : other.id = node.id := of_decide_eq_true (List.find?_some found :)
      rw [List.inj_on_of_nodup_map unique (List.mem_of_find?_eq_some found) member named]
  rw [outgoing, found, Option.map_some, Option.getD_some]

theorem mem_outgoing_iff (unique : (nodeIds nodes).Nodup) {source target : String} :
    target ∈ outgoing nodes source ↔ Edge nodes source target := by
  constructor
  · intro h
    cases found : nodes.find? fun node => node.id = source with
    | none => simp [outgoing, found] at h
    | some node =>
      rw [outgoing, found, Option.map_some, Option.getD_some, Node.targets, List.mem_append] at h
      exact ⟨node, List.mem_of_find?_eq_some found, of_decide_eq_true (List.find?_some found :), h⟩
  · rintro ⟨node, member, rfl, h⟩
    rw [outgoing_of_mem unique member, Node.targets, List.mem_append]
    exact h

theorem mem_parents_iff (unique : (nodeIds nodes).Nodup) {source target : String} :
    source ∈ parents nodes target ↔ Edge nodes source target := by
  rw [parents, List.mem_filter, decide_eq_true_eq, mem_outgoing_iff unique]
  refine ⟨And.right, fun h => ⟨?_, h⟩⟩
  obtain ⟨node, member, rfl, -⟩ := h
  exact List.mem_map_of_mem member

/-- What the orders need of the nodes: identifiers of their own, and edges between them. -/
structure Linked (nodes : List (Node γ)) : Prop where
  unique : (nodeIds nodes).Nodup
  targets : ∀ node ∈ nodes, ∀ target ∈ node.targets, target ∈ nodeIds nodes

theorem Linked.edge_within (linked : Linked nodes) {source target : String} (edge : Edge nodes source target) :
    source ∈ nodeIds nodes ∧ target ∈ nodeIds nodes := by
  obtain ⟨node, member, rfl, listed⟩ := edge
  exact ⟨List.mem_map_of_mem member, linked.targets node member target (List.mem_append.mpr listed)⟩

theorem WellFormed.linked (wf : WellFormed nodes) : Linked nodes := ⟨wf.unique, wf.targets⟩

theorem WellFormed.edge_within (wf : WellFormed nodes) {source target : String}
    (edge : Edge nodes source target) : source ∈ nodeIds nodes ∧ target ∈ nodeIds nodes :=
  wf.linked.edge_within edge

theorem foldlM_countTarget {known : List String} {id : String} {targets : List String}
    (h : ∀ target ∈ targets, target ∈ known) (count : Nat) :
    targets.foldlM (countTarget known id) count = .ok (count + targets.length) := by
  induction targets generalizing count with
  | nil => rfl
  | cons target targets ih =>
    rw [List.foldlM_cons, countTarget, if_pos (h target List.mem_cons_self)]
    refine (ih (fun t ht => h t (List.mem_cons_of_mem _ ht)) (count + 1)).trans ?_
    rw [List.length_cons, Nat.add_assoc, Nat.add_comm 1]

theorem foldlM_checkRow {known : List String} {rows : List (Node γ)}
    (kinds : ∀ node ∈ rows, node.kind ≠ "")
    (targets : ∀ node ∈ rows, ∀ target ∈ node.targets, target ∈ known) (count : Nat) :
    rows.foldlM (checkRow known) count =
      .ok (count + (rows.map fun node => node.targets.length).sum) := by
  induction rows generalizing count with
  | nil => rfl
  | cons row rows ih =>
    rw [List.foldlM_cons, checkRow, if_neg (kinds row List.mem_cons_self),
      foldlM_countTarget (targets row List.mem_cons_self)]
    refine (ih (fun n hn => kinds n (List.mem_cons_of_mem _ hn))
      (fun n hn => targets n (List.mem_cons_of_mem _ hn)) _).trans ?_
    rw [List.map_cons, List.sum_cons, Nat.add_assoc]

theorem WellFormed.checked (wf : WellFormed nodes) : checkRows nodes = .ok () := by
  have some_ids : "" ∉ nodeIds nodes := by
    intro h
    obtain ⟨node, member, empty⟩ := List.mem_map.mp h
    exact wf.some_ids node member empty
  rw [checkRows, if_neg some_ids, if_neg (not_not_intro wf.unique),
    foldlM_checkRow wf.some_kinds wf.targets]
  exact if_neg (by have := wf.edges; omega)

end Arenyxa.Workflow
