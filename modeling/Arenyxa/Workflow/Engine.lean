import Arenyxa.Lib.Topological
import Arenyxa.Workflow.Graph

/-! The execution loop of the workflow engine on no inputs: what it executes, and when it reports
a cycle. -/

universe u

namespace Arenyxa.Workflow

open Loop Topological

variable {γ : Type u}

inductive ExecutionError
  | empty
  | contract (code : String)
  | duplicateId
  | missingNode (id target : String)
  | cycle (blocked : List String)

section Engine

-- `validate_workflow_node` with the handlers that are registered: the code it raises.
variable (validateNode : Node γ → Option String)

def checkContractNode (seen : List String) (node : Node γ) : Except ExecutionError (List String) :=
  match validateNode node with
  | some code => .error (.contract code)
  | none => if node.id ∈ seen then .error .duplicateId else .ok (seen ++ [node.id])

def validateWorkflowContract (nodes : List (Node γ)) : Except ExecutionError Unit :=
  if nodes = [] then .error .empty
  else do
    let ids ← nodes.foldlM (checkContractNode validateNode) []
    nodes.forM fun node => node.targets.forM fun target =>
      if target ∈ ids then .ok () else .error (.missingNode node.id target)

/-- How many edges lead to a node, each time it is listed. -/
def indegree (nodes : List (Node γ)) (id : String) : Nat :=
  (nodes.map fun node => node.targets.count id).sum

structure Execution where
  ready : List String
  remainingParents : String → Int
  visited : List String

def releaseChild (s : Execution) (child : String) : Execution :=
  let remaining := s.remainingParents child - 1
  { s with
    remainingParents := Function.update s.remainingParents child remaining
    ready := if remaining = 0 ∧ child ∉ s.visited then s.ready ++ [child] else s.ready }

/-- `visited.add` -/
def markVisited (visited : List String) (id : String) : List String :=
  if id ∈ visited then visited else visited ++ [id]

/-- A round of the loop: without inputs no node has items to handle. -/
def executeNext (nodes : List (Node γ)) (s : Execution) : Option Execution :=
  match s.ready with
  | [] => none
  | id :: rest =>
    some ((outgoing nodes id).foldl releaseChild
      { s with ready := rest, visited := markVisited s.visited id })

def entryNodes (nodes : List (Node γ)) : List String :=
  (nodeIds nodes).filter fun id => indegree nodes id = 0

def Execution.init (nodes : List (Node γ)) : Execution where
  ready := entryNodes nodes
  remainingParents := fun id => indegree nodes id
  visited := []

/-- `sorted(set(nodes) - visited)[:50]` -/
def blockedNodes (nodes : List (Node γ)) (visited : List String) : List String :=
  (((nodeIds nodes).filter fun id => id ∉ visited).mergeSort fun a b => a ≤ b).take 50

/-- `execute` on no inputs: the nodes that were completed, in order. -/
def execute (fuel : Nat) (nodes : List (Node γ)) : Option (Except ExecutionError (List String)) :=
  match validateWorkflowContract validateNode nodes with
  | .error error => some (.error error)
  | .ok _ =>
    if entryNodes nodes = [] then some (.error (.cycle []))
    else
      (loop (executeNext nodes) fuel (.init nodes)).map fun s =>
        if s.visited.length = nodes.length then .ok s.visited
        else .error (.cycle (blockedNodes nodes s.visited))

end Engine

variable {nodes : List (Node γ)}

/-- The edges to a node that come from nodes not done yet. -/
def openEdges (nodes : List (Node γ)) (done : List String) (id : String) : Nat :=
  ((nodes.filter fun node => node.id ∉ done).map fun node => node.targets.count id).sum

theorem releaseChildren (targets : List String) (s : Execution) :
    ∃ released : List String, (targets.foldl releaseChild s).ready = s.ready ++ released ∧
      released.Nodup ∧ (targets.foldl releaseChild s).visited = s.visited ∧
      (∀ v, (targets.foldl releaseChild s).remainingParents v =
        s.remainingParents v - targets.count v) ∧
      ∀ v, v ∈ released ↔ 0 < s.remainingParents v ∧ s.remainingParents v ≤ targets.count v ∧
        v ∉ s.visited := by
  induction targets generalizing s with
  | nil =>
    refine ⟨[], (List.append_nil _).symm, List.nodup_nil, rfl, fun v => (Int.sub_zero _).symm,
      fun v => ⟨fun h => (nomatch h), fun h => ?_⟩⟩
    have := h.2.1
    rw [List.count_nil] at this
    omega
  | cons target targets ih =>
    obtain ⟨later, ready, once, visited, remaining, released⟩ := ih (releaseChild s target)
    have step : ∀ v, (releaseChild s target).remainingParents v =
        if v = target then s.remainingParents target - 1 else s.remainingParents v := by
      intro v
      rw [releaseChild]
      by_cases same : v = target
      · rw [same, if_pos rfl]
        exact Function.update_self ..
      · rw [if_neg same]
        exact Function.update_of_ne same ..
    have kept : (releaseChild s target).visited = s.visited := rfl
    simp only [step, kept] at remaining released
    have queued : (releaseChild s target).ready =
        s.ready ++ if s.remainingParents target = 1 ∧ target ∉ s.visited then [target] else [] := by
      simp only [releaseChild]
      split
      next h => rw [if_pos ⟨by omega, h.2⟩]
      next h => rw [if_neg fun h' => h ⟨by omega, h'.2⟩, List.append_nil]
    have count : ∀ v, (target :: targets).count v =
        targets.count v + if v = target then 1 else 0 := by
      intro v
      rw [List.count_cons]
      by_cases same : v = target
      · simp [same]
      · simp [same, Ne.symm same]
    refine ⟨(if s.remainingParents target = 1 ∧ target ∉ s.visited then [target] else []) ++ later,
      ?_, ?_, visited, fun v => ?_, fun v => ?_⟩
    · rw [List.foldl_cons, ready, queued, List.append_assoc]
    · split
      next last =>
        rw [List.singleton_append, List.nodup_cons]
        refine ⟨fun again => ?_, once⟩
        have := ((released target).mp again).1
        rw [if_pos rfl] at this
        omega
      next => exact once
    · rw [List.foldl_cons, remaining, count]
      split
      next same =>
        rw [same]
        omega
      next => omega
    · rw [List.mem_append, released, count]
      by_cases same : v = target
      · subst same
        rw [if_pos rfl, if_pos rfl]
        split
        next last =>
          refine ⟨fun _ => ⟨by omega, by omega, last.2⟩, fun _ => .inl List.mem_cons_self⟩
        next more =>
          constructor
          · rintro (never | h)
            · cases never
            · exact ⟨by omega, by omega, h.2.2⟩
          · intro h
            have : s.remainingParents v ≠ 1 := fun one => more ⟨one, h.2.2⟩
            exact .inr ⟨by omega, by omega, h.2.2⟩
      · rw [if_neg same, if_neg same, Nat.add_zero]
        refine ⟨fun h => h.resolve_left fun first => ?_, .inr⟩
        split at first
        · exact same (List.mem_singleton.mp first)
        · cases first

section OpenEdges

variable {done : List String} {v : String}

theorem openEdges_nil : openEdges nodes [] v = indegree nodes v := by
  rw [openEdges, indegree, List.filter_eq_self.mpr]
  intro node _
  exact decide_eq_true List.not_mem_nil

theorem openEdges_concat (unique : (nodeIds nodes).Nodup) {current : String}
    (member : current ∈ nodeIds nodes) (fresh : current ∉ done) :
    openEdges nodes (done ++ [current]) v + (outgoing nodes current).count v =
      openEdges nodes done v := by
  obtain ⟨node, here, rfl⟩ := List.mem_map.mp member
  rw [outgoing_of_mem unique here]
  obtain ⟨front, back, rfl⟩ := List.append_of_mem here
  rw [nodeIds, List.map_append, List.map_cons, List.nodup_append] at unique
  obtain ⟨-, back_unique, apart⟩ := unique
  have others : ∀ other : Node γ, other.id ≠ node.id →
      decide (other.id ∉ done ++ [node.id]) = decide (other.id ∉ done) := by
    intro other differs
    simp [differs]
  have front_same : front.filter (fun n => n.id ∉ done ++ [node.id]) =
      front.filter fun n => n.id ∉ done :=
    List.filter_congr fun n hn => others n
      (apart _ (List.mem_map_of_mem hn) _ List.mem_cons_self)
  have back_same : back.filter (fun n => n.id ∉ done ++ [node.id]) =
      back.filter fun n => n.id ∉ done :=
    List.filter_congr fun n hn => others n fun same =>
      (List.nodup_cons.mp back_unique).1 (same ▸ List.mem_map_of_mem hn)
  have closed : decide (node.id ∉ done ++ [node.id]) = false := by simp
  have was_open : decide (node.id ∉ done) = true := decide_eq_true fresh
  rw [openEdges, openEdges, List.filter_append, List.filter_append, List.filter_cons,
    List.filter_cons, front_same, back_same, closed, was_open]
  simp only [Bool.false_eq_true, ↓reduceIte, List.map_append, List.map_cons, List.sum_append,
    List.sum_cons]
  omega

theorem openEdges_eq_zero_iff :
    openEdges nodes done v = 0 ↔ ∀ p, Edge nodes p v → p ∈ done := by
  rw [openEdges, List.sum_eq_zero_iff]
  constructor
  · rintro none_open p ⟨node, member, rfl, listed⟩
    by_contra outside
    have zero := none_open _ (List.mem_map_of_mem
      (List.mem_filter.mpr ⟨member, decide_eq_true outside⟩))
    exact List.count_eq_zero.mp zero (List.mem_append.mpr listed)
  · intro closed n hn
    obtain ⟨node, member, rfl⟩ := List.mem_map.mp hn
    obtain ⟨here, outside⟩ := List.mem_filter.mp member
    refine List.count_eq_zero.mpr fun listed => of_decide_eq_true outside ?_
    exact closed node.id ⟨node, here, rfl, List.mem_append.mp listed⟩

end OpenEdges

theorem mem_entryNodes_iff (v : String) :
    v ∈ entryNodes nodes ↔ v ∈ nodeIds nodes ∧ ∀ p, ¬Edge nodes p v := by
  rw [entryNodes, List.mem_filter, decide_eq_true_eq, ← openEdges_nil, openEdges_eq_zero_iff]
  exact and_congr_right fun _ =>
    ⟨fun h p edge => (nomatch h p edge), fun h p edge => absurd edge (h p)⟩

/-- The state of the loop: what is done was visited in that order, no node twice. -/
structure Executing (nodes : List (Node γ)) (s : Execution) : Prop where
  sorting : Sorting (Edge nodes) (nodeIds nodes) s.visited s.ready
  once : (s.visited ++ s.ready).Nodup
  remaining : ∀ v, s.remainingParents v = openEdges nodes s.visited v

theorem executing_init (unique : (nodeIds nodes).Nodup) : Executing nodes (.init nodes) where
  sorting := Sorting.start mem_entryNodes_iff
  once := unique.filter _
  remaining := fun _ => congrArg Nat.cast openEdges_nil.symm

theorem executeNext_executing (linked : Linked nodes) {s s' : Execution} (e : Executing nodes s)
    (next : executeNext nodes s = some s') :
    Executing nodes s' ∧ s'.visited.length = s.visited.length + 1 ∧
      s.visited.length < nodes.length := by
  have sorting := e.sorting
  have once := e.once
  rw [executeNext] at next
  cases waiting : s.ready with
  | nil =>
    rw [waiting] at next
    cases next
  | cons current rest =>
    rw [waiting] at next sorting once
    cases next
    have member : current ∈ nodeIds nodes :=
      sorting.within current (List.mem_append_right _ List.mem_cons_self)
    have fresh : current ∉ s.visited := fun old =>
      (List.nodup_append.mp once).2.2 current old current List.mem_cons_self rfl
    have few : s.visited.length < nodes.length := by
      have := (once.subperm sorting.within).length_le
      rw [nodeIds, List.length_map, List.length_append, List.length_cons] at this
      omega
    rw [show markVisited s.visited current = s.visited ++ [current] from if_neg fresh]
    obtain ⟨released, ready, released_once, visited, remaining, mem_released⟩ :=
      releaseChildren (outgoing nodes current)
        { s with ready := rest, visited := s.visited ++ [current] }
    simp only at visited mem_released ready
    have closes : ∀ v, openEdges nodes (s.visited ++ [current]) v +
        (outgoing nodes current).count v = openEdges nodes s.visited v :=
      fun v => openEdges_concat linked.unique member fresh
    have released_iff : ∀ v, v ∈ released ↔ Edge nodes current v ∧
        (∀ p, Edge nodes p v → p ∈ s.visited ++ [current]) ∧ v ∉ s.visited ++ [current] := by
      intro v
      rw [mem_released, e.remaining, ← openEdges_eq_zero_iff, ← mem_outgoing_iff linked.unique]
      have := closes v
      constructor
      · rintro ⟨some_open, all_here, unvisited⟩
        exact ⟨List.count_pos_iff.mp (by omega), by omega, unvisited⟩
      · rintro ⟨listed, all_done, unvisited⟩
        have := List.count_pos_iff.mpr listed
        exact ⟨by omega, by omega, unvisited⟩
    have round := @Topological.Sorting.round _ _ _ _ _ _ sorting released
      (fun v hv => ⟨(linked.edge_within ((released_iff v).mp hv).1).2, ((released_iff v).mp hv).2.1⟩)
      fun v _ edge all_done => by
        by_cases queued : v ∈ s.visited ++ current :: rest
        · exact .inl queued
        · refine .inr ((released_iff v).mpr ⟨edge, all_done, fun old => queued ?_⟩)
          rcases List.mem_append.mp old with old | here
          · exact List.mem_append_left _ old
          · rw [List.mem_singleton.mp here]
            exact List.mem_append_right _ List.mem_cons_self
    refine ⟨⟨?_, ?_, fun v => ?_⟩, ?_, few⟩
    · rw [visited, ready]
      exact round
    · rw [visited, ready, List.append_assoc, List.singleton_append, ← List.cons_append,
        ← List.append_assoc]
      refine List.nodup_append'.mpr ⟨once, released_once, fun v queued new => fresh ?_⟩
      exact sorting.parents v queued current ((released_iff v).mp new).1
    · rw [remaining, visited]
      have := closes v
      have := e.remaining v
      simp only
      omega
    · rw [visited, List.length_append, List.length_singleton]

theorem execution_terminates (wf : WellFormed nodes) :
    ∃ fuel s, loop (executeNext nodes) fuel (.init nodes) = some s :=
  loop_terminates Nat.lt_wfRel.wf (fun s => nodes.length - s.visited.length)
    (fun _ _ e next => (executeNext_executing wf.linked e next).1)
    (fun s s' e next => by
      obtain ⟨-, longer, few⟩ := executeNext_executing wf.linked e next
      show nodes.length - s'.visited.length < nodes.length - s.visited.length
      omega)
    (executing_init wf.unique)

theorem execution_complete_iff (wf : WellFormed nodes) {fuel : Nat} {s : Execution}
    (h : loop (executeNext nodes) fuel (.init nodes) = some s) :
    s.visited.length = nodes.length ↔ Acyclic (Edge nodes) := by
  obtain ⟨e, excess⟩ := loop_invariant (P := Executing nodes)
    (fun _ _ e next => (executeNext_executing wf.linked e next).1) (executing_init wf.unique) h
  have waiting : s.ready = [] := by
    rw [executeNext] at excess
    split at excess
    next empty => exact empty
    next => cases excess
  have sorting := e.sorting
  have once := e.once
  rw [waiting] at sorting once
  have within := sorting.within
  rw [List.append_nil] at once within
  rw [← sorting.all_done_iff fun p v edge => wf.edge_within edge, ← List.length_map (f := Node.id)]
  exact length_eq_iff_of_nodup once wf.unique within

end Arenyxa.Workflow
