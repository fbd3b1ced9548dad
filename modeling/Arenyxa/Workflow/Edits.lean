import Arenyxa.Distributed.Protocol
import Arenyxa.Lib.SortedSet
import Arenyxa.Workflow.Acyclicity

/-! Editing the workflow graph: the payload of the visual model, its edits, and whether what an edit leaves
can be saved and loaded again. -/

namespace Arenyxa.Workflow.Editing

open Distributed Loop SortedSet Topological

/-- A configuration, by its items. -/
abbrev Config (δ : Type) := List (String × δ)

/-- The payload of the model. -/
structure Payload (δ μ : Type) where
  schema : String
  name : String
  id : String
  version : String
  metadata : μ
  nodes : List (Node (Config δ))

/-- A payload to load; a text that is missing is empty, and the nodes may be no list. -/
structure Document (δ μ : Type) where
  schema : String
  name : String
  id : String
  version : String
  metadata : μ
  nodes : Option (List (Option (Node (Config δ))))

inductive EditError
  | nodesInvalid
  | graph (error : GraphError)
  | idInvalid
  | kindInvalid
  | nodeBudget
  | nodeExists (id : String)
  | nodeNotFound (id : String)
  | graphEmpty
  | selfConnection
  | unknownNode
  | kindEmpty

inductive Call (δ : Type)
  | addNode (id kind : String) (config : Config δ)
  | removeNode (id : String)
  | connect (source target edgeType : String)
  | disconnect (source target edgeType : String)
  | updateNode (id : String) (kind : Option String) (config : Option (Config δ))

section Model

-- `str.casefold`
variable {δ μ : Type} (casefold : String → String) (fuel : Nat) (m : Payload δ μ)

/-- `value or default` -/
def orDefault (value default : String) : String := if value = "" then default else value

/-- `WorkflowGraphModel(payload)` -/
def load (document : Document δ μ) : Option (Except EditError (Payload δ μ)) :=
  match document.nodes with
  | none => some (.error .nodesInvalid)
  | some rows =>
    (workflowGraphModel strip fuel rows).map fun result => (result.mapError .graph).map fun nodes =>
      { schema := truncate 128 (orDefault document.schema "arenyxa.workflow/v1")
        name := truncate 256 (orDefault document.name "Workflow")
        id := document.id
        version := orDefault document.version "1.0.0"
        metadata := document.metadata
        nodes }

def snapshot : Document δ μ where
  schema := m.schema
  name := m.name
  id := m.id
  version := m.version
  metadata := m.metadata
  nodes := some (m.nodes.map some)

/-- `_validate`; nothing where the fuel of the order runs out. -/
def validate {γ : Type} (nodes : List (Node γ)) : Option (Except GraphError Unit) :=
  match checkRows nodes with
  | .error error => some (.error error)
  | .ok _ => (topologicalLevels true fuel nodes).map fun order => order.map fun _ => ()

/-- The end of a call: the payload is what it is by then, whatever `_validate` says. -/
def validated (nodes : List (Node (Config δ))) : Option (Payload δ μ × Except EditError Unit) :=
  (validate fuel nodes).map fun result => ({ m with nodes }, result.mapError .graph)

def addNode (id kind : String) (config : Config δ) : Option (Payload δ μ × Except EditError Unit) :=
  if strip id = "" ∨ 128 < (strip id).length then some (m, .error .idInvalid)
  else if strip kind = "" ∨ 128 < (strip kind).length then some (m, .error .kindInvalid)
  else if maxNodes ≤ m.nodes.length then some (m, .error .nodeBudget)
  else if strip id ∈ nodeIds m.nodes then some (m, .error (.nodeExists (strip id)))
  else validated fuel m (m.nodes ++ [⟨strip kind, config, strip id, [], []⟩])

/-- The nodes without one of them, and without the edges to it. -/
def without {γ : Type} (target : String) (nodes : List (Node γ)) : List (Node γ) :=
  (nodes.filter fun node => node.id ≠ target).map fun node =>
    { node with
      nextIds := node.nextIds.filter (· ≠ target)
      failureIds := node.failureIds.filter (· ≠ target) }

def removeNode (id : String) : Option (Payload δ μ × Except EditError Unit) :=
  if strip id ∉ nodeIds m.nodes then some (m, .error (.nodeNotFound (strip id)))
  else if m.nodes.length ≤ 1 then some (m, .error .graphEmpty)
  else validated fuel m (without (strip id) m.nodes)

/-- An update of the row of a node. -/
def updateRow {γ : Type} (id : String) (f : Node γ → Node γ) (nodes : List (Node γ)) : List (Node γ) :=
  nodes.map fun node => if node.id = id then f node else node

/-- An update of the edges of a type. -/
def updateEdges {γ : Type} (edgeType : String) (f : List String → List String) (node : Node γ) : Node γ :=
  if casefold edgeType = "failure" then { node with failureIds := f node.failureIds } else { node with nextIds := f node.nextIds }

def connected {γ : Type} (source target edgeType : String) (nodes : List (Node γ)) : List (Node γ) :=
  updateRow source (updateEdges casefold edgeType fun edges => if target ∈ edges then edges else edges ++ [target]) nodes

/-- A connection that is refused is taken back. -/
def connect (source target edgeType : String) : Option (Payload δ μ × Except EditError Unit) :=
  if strip source = strip target then some (m, .error .selfConnection)
  else if strip source ∉ nodeIds m.nodes ∨ strip target ∉ nodeIds m.nodes then some (m, .error .unknownNode)
  else
    let nodes := connected casefold (strip source) (strip target) edgeType m.nodes
    (validate fuel nodes).map fun
      | .ok _ => ({ m with nodes }, .ok ())
      | .error error =>
        ({ m with nodes := updateRow (strip source) (updateEdges casefold edgeType (·.erase (strip target))) nodes },
          .error (.graph error))

def disconnected {γ : Type} (source target edgeType : String) (nodes : List (Node γ)) : List (Node γ) :=
  updateRow source (updateEdges casefold edgeType (·.filter (· ≠ target))) nodes

def disconnect (source target edgeType : String) : Option (Payload δ μ × Except EditError Unit) :=
  if source ∉ nodeIds m.nodes then some (m, .error (.nodeNotFound source))
  else validated fuel m (disconnected casefold source target edgeType m.nodes)

def updatedRow (kind : Option String) (config : Option (Config δ)) (node : Node (Config δ)) : Node (Config δ) :=
  { node with
    kind := (kind.map fun kind => truncate 128 (strip kind)).getD node.kind
    config := (config.map fun config => config.take 256).getD node.config }

def updateNode (id : String) (kind : Option String) (config : Option (Config δ)) :
    Option (Payload δ μ × Except EditError Unit) :=
  if id ∉ nodeIds m.nodes then some (m, .error (.nodeNotFound id))
  else if kind.map strip = some "" then some (m, .error .kindEmpty)
  else validated fuel m (updateRow id (updatedRow kind config) m.nodes)

/-- A call of an edit: the payload behind it, and what it raises. -/
def edit : Call δ → Option (Payload δ μ × Except EditError Unit)
  | .addNode id kind config => addNode fuel m id kind config
  | .removeNode id => removeNode fuel m id
  | .connect source target edgeType => connect casefold fuel m source target edgeType
  | .disconnect source target edgeType => disconnect casefold fuel m source target edgeType
  | .updateNode id kind config => updateNode fuel m id kind config

/-- The outcome of a call, with fuel enough. -/
def Edits (m : Payload δ μ) (call : Call δ) (m' : Payload δ μ) (result : Except EditError Unit) : Prop :=
  ∃ fuel, edit casefold fuel m call = some (m', result)

def Reloads (m : Payload δ μ) : Prop := ∃ fuel, load fuel (snapshot m) = some (.ok m)

/-- In a run of calls, one that raises leaves the snapshot as it was, and each leaves one that is loaded as
it is. -/
def Lawful : Payload δ μ → List (Call δ) → Prop
  | _, [] => True
  | m, call :: calls => ∀ m' result, Edits casefold m call m' result →
      ((∃ error, result = .error error) → snapshot m' = snapshot m) ∧ Reloads m' ∧ Lawful m' calls

/-- The nodes pass `_validate`. -/
def Accepted {γ : Type} (nodes : List (Node γ)) : Prop := ∃ fuel, validate fuel nodes = some (.ok ())

/-- What is left without a node or an edge is accepted, a new edge is one of 256 in its list, and a new kind
has no space at its 128th character. -/
def Careful (m : Payload δ μ) : Call δ → Prop
  | .addNode .. => True
  | .removeNode id => strip id ∈ nodeIds m.nodes → 1 < m.nodes.length → Accepted (without (strip id) m.nodes)
  | .connect source target edgeType =>
    strip source ≠ strip target → strip source ∈ nodeIds m.nodes → strip target ∈ nodeIds m.nodes →
      Accepted (connected casefold (strip source) (strip target) edgeType m.nodes) →
      ∀ node ∈ connected casefold (strip source) (strip target) edgeType m.nodes,
        node.nextIds.length ≤ 256 ∧ node.failureIds.length ≤ 256
  | .disconnect source target edgeType => Accepted (disconnected casefold source target edgeType m.nodes)
  | .updateNode id kind _ => id ∈ nodeIds m.nodes → ∀ text ∈ kind,
      strip (truncate 128 (strip text)) = truncate 128 (strip text)

def CarefulRun : Payload δ μ → List (Call δ) → Prop
  | _, [] => True
  | m, call :: calls => Careful casefold m call ∧ ∀ m' result, Edits casefold m call m' result → CarefulRun m' calls

end Model

section Order

variable {γ : Type} {nodes nodes' : List (Node γ)} {fuel : Nat}

/-- The order comes to the end of the nodes. -/
def Ordered (nodes : List (Node γ)) : Prop :=
  ∃ fuel s, loop (visit nodes) fuel (.init nodes) = some s ∧ s.visited = nodes.length

theorem foldlM_countTarget_ok {known targets : List String} {id : String} {count total : Nat}
    (h : targets.foldlM (countTarget known id) count = .ok total) : ∀ target ∈ targets, target ∈ known := by
  induction targets generalizing count with
  | nil => exact fun _ never => (nomatch never)
  | cons target targets ih =>
    rw [List.foldlM_cons, countTarget] at h
    split at h
    next its => exact List.forall_mem_cons.mpr ⟨its, ih h⟩
    next => cases h

theorem foldlM_checkRow_ok {known : List String} {rows : List (Node γ)} {count total : Nat}
    (h : rows.foldlM (checkRow known) count = .ok total) :
    ∀ node ∈ rows, node.kind ≠ "" ∧ ∀ target ∈ node.targets, target ∈ known := by
  induction rows generalizing count with
  | nil => exact fun _ never => (nomatch never)
  | cons row rows ih =>
    rw [List.foldlM_cons] at h
    obtain ⟨next, first, later⟩ := Outcome.bind_eq_ok.mp h
    rw [checkRow] at first
    split at first
    next => cases first
    next some_kind => exact List.forall_mem_cons.mpr ⟨⟨some_kind, foldlM_countTarget_ok first⟩, ih later⟩

theorem checkRows_eq_ok : checkRows nodes = .ok () ↔ WellFormed nodes := by
  refine ⟨fun h => ?_, WellFormed.checked⟩
  rw [checkRows] at h
  split at h
  next => cases h
  next some_ids =>
    split at h
    next => cases h
    next unique =>
      obtain ⟨edges, counted, few⟩ := Outcome.bind_eq_ok.mp h
      have rows := foldlM_checkRow_ok counted
      have kinds : ∀ node ∈ nodes, node.kind ≠ "" := fun node mem => (rows node mem).1
      have targets : ∀ node ∈ nodes, ∀ target ∈ node.targets, target ∈ nodeIds nodes := fun node mem => (rows node mem).2
      rw [foldlM_checkRow kinds targets] at counted
      cases counted
      refine ⟨fun node mem empty => some_ids (empty ▸ List.mem_map_of_mem mem), not_not.mp unique, kinds, targets, ?_⟩
      rw [Nat.zero_add] at few
      exact Nat.le_of_not_lt fun many => by
        rw [if_pos many] at few
        cases few

theorem validate_of_loop (wf : WellFormed nodes) {s : Levelling} (h : loop (visit nodes) fuel (.init nodes) = some s) :
    validate fuel nodes = some (if s.visited = nodes.length then .ok () else .error .cycle) := by
  rw [validate, wf.checked]
  simp only [topologicalLevels, h, Option.map_some]
  split <;> rfl

theorem accepted_iff : Accepted nodes ↔ WellFormed nodes ∧ Ordered nodes := by
  constructor
  · rintro ⟨fuel, h⟩
    have wf : WellFormed nodes := by
      refine checkRows_eq_ok.1 ?_
      rw [validate] at h
      split at h
      next => cases h
      next checked => exact checked
    refine ⟨wf, ?_⟩
    have h' := h
    rw [validate, wf.checked] at h'
    simp only [topologicalLevels, Option.map_map, Option.map_eq_some_iff] at h'
    obtain ⟨s, halts, -⟩ := h'
    rw [validate_of_loop wf halts] at h
    refine ⟨fuel, s, halts, ?_⟩
    by_contra short
    rw [if_neg short] at h
    cases h
  · rintro ⟨wf, fuel, s, halts, all⟩
    exact ⟨fuel, by rw [validate_of_loop wf halts, if_pos all]⟩

theorem validate_total (nodes : List (Node γ)) : ∃ fuel result, validate fuel nodes = some result := by
  cases checked : checkRows nodes with
  | error error => exact ⟨0, .error error, by rw [validate, checked]⟩
  | ok _ =>
    have wf := checkRows_eq_ok.1 checked
    obtain ⟨fuel, s, halts⟩ := levels_terminate wf
    exact ⟨fuel, _, validate_of_loop wf halts⟩

theorem validate_error {error : GraphError} (h : validate fuel nodes = some (.error error)) : ¬Accepted nodes := by
  intro accepted
  obtain ⟨wf, fuel', s, halts, all⟩ := accepted_iff.1 accepted
  have h' := h
  rw [validate, wf.checked] at h'
  simp only [topologicalLevels, Option.map_map, Option.map_eq_some_iff] at h'
  obtain ⟨s', halts', -⟩ := h'
  rw [validate_of_loop wf halts', loop_unique halts' halts, if_pos all] at h
  cases h

theorem ordered_congr (ids : nodeIds nodes = nodeIds nodes') (same : outgoing nodes = outgoing nodes')
    (ordered : Ordered nodes) : Ordered nodes' := by
  obtain ⟨fuel, s, halts, all⟩ := ordered
  have parents_same : parents nodes = parents nodes' := funext fun v => by rw [parents, parents, ids, same]
  have roots_same : roots nodes = roots nodes' := by rw [roots, roots, ids, parents_same]
  have init : Levelling.init nodes = Levelling.init nodes' := by rw [Levelling.init, Levelling.init, roots_same, parents_same]
  have steps : visit nodes = visit nodes' := funext fun s => by rw [visit, visit, same]
  have lengths := congrArg List.length ids
  rw [nodeIds, nodeIds, List.length_map, List.length_map] at lengths
  exact ⟨fuel, s, by rw [← steps, ← init, halts], all.trans lengths⟩

theorem visit_cons (nodes : List (Node γ)) (s : Levelling) {current : String} {rest : List String} (its : s.queue = current :: rest) :
    ∃ after, visit nodes s = some after ∧ after.visited = s.visited + 1 ∧
      after.queue = rest ++ (outgoing nodes current).filter (fun v => (s.incoming v).filter (· ≠ current) = []) ∧
      after.incoming = fun v => if v ∈ outgoing nodes current then (s.incoming v).filter (· ≠ current) else s.incoming v := by
  obtain ⟨queue, visited, incoming⟩ :=
    visitTargets current (outgoing nodes current) { s with queue := rest, visited := s.visited + 1 }
  exact ⟨_, by rw [visit, its], visited, queue, funext incoming⟩

theorem visit_nil {s : Levelling} (its : s.queue = []) : visit nodes s = none := by
  rw [visit, its]

theorem loop_counted {s s' t : Levelling} (incoming : s'.incoming = s.incoming) (queue : s'.queue = s.queue)
    (visited : s'.visited = s.visited + 1) (halts : loop (visit nodes) fuel s = some t) :
    ∃ t', loop (visit nodes) fuel s' = some t' ∧ t'.visited = t.visited + 1 := by
  induction fuel generalizing s s' with
  | zero => cases halts
  | succ fuel ih =>
    cases waiting : s.queue with
    | nil =>
      rw [loop_none (visit_nil waiting)] at halts
      obtain rfl := Option.some.inj halts
      exact ⟨s', loop_none (visit_nil (queue.trans waiting)), visited⟩
    | cons current rest =>
      obtain ⟨after, next, count, queued, left⟩ := visit_cons nodes s waiting
      obtain ⟨after', next', count', queued', left'⟩ := visit_cons nodes s' (queue.trans waiting)
      rw [loop_some next] at halts
      rw [incoming] at queued' left'
      obtain ⟨t', halts', last⟩ := ih (left'.trans left.symm) (queued'.trans queued.symm) (by rw [count', count, visited]) halts
      exact ⟨t', (loop_some next').trans halts', last⟩

theorem loop_beside {id : String} (alone : outgoing nodes id = []) (s s' : Levelling) {t : Levelling} {front back : List String}
    (incoming : s'.incoming = s.incoming) (split : s.queue = front ++ back) (queue : s'.queue = front ++ id :: back)
    (visited : s'.visited = s.visited) (halts : loop (visit nodes) fuel s = some t) :
    ∃ t', loop (visit nodes) (fuel + 1) s' = some t' ∧ t'.visited = t.visited + 1 := by
  induction fuel generalizing s s' front back with
  | zero => cases halts
  | succ fuel ih =>
    cases front with
    | nil =>
      obtain ⟨after', next', count', queued', left'⟩ := visit_cons nodes s' queue
      rw [alone] at queued' left'
      rw [loop_some next']
      refine loop_counted (left'.trans ?_) (queued'.trans ?_) (count'.trans (congrArg (· + 1) visited)) halts
      · rw [incoming]
        exact funext fun v => if_neg List.not_mem_nil
      · rw [split, List.filter_nil, List.append_nil, List.nil_append]
    | cons current front =>
      obtain ⟨after, next, count, queued, left⟩ := visit_cons nodes s split
      obtain ⟨after', next', count', queued', left'⟩ := visit_cons nodes s' queue
      rw [loop_some next] at halts
      rw [loop_some next']
      rw [incoming] at queued' left'
      refine ih _ _ (left'.trans left.symm) (queued.trans (List.append_assoc ..)) (queued'.trans ?_) (by rw [count', count, visited]) halts
      exact List.append_assoc front (id :: back) _

theorem ordered_concat {node : Node γ} (wf : WellFormed nodes) (fresh : node.id ∉ nodeIds nodes) (alone : node.targets = [])
    (ordered : Ordered nodes) : Ordered (nodes ++ [node]) := by
  have silent : ∀ v, v ∉ nodeIds nodes → outgoing nodes v = [] := fun v off => by
    have none : nodes.find? (fun other => other.id = v) = none := List.find?_eq_none.mpr fun other mem named =>
      off (of_decide_eq_true named ▸ List.mem_map_of_mem mem)
    rw [outgoing, none]
    rfl
  have same : outgoing (nodes ++ [node]) = outgoing nodes := by
    funext v
    rw [outgoing, outgoing, List.find?_append]
    cases found : nodes.find? fun other => other.id = v with
    | some other => rfl
    | none =>
      rw [Option.none_or, List.find?_cons]
      split
      next => exact alone
      next => rfl
  have untargeted (id : String) : node.id ∉ outgoing nodes id := fun listed =>
    fresh (wf.edge_within ((mem_outgoing_iff wf.unique).mp listed)).2
  have ids : nodeIds (nodes ++ [node]) = nodeIds nodes ++ [node.id] := List.map_append
  have parents_same : parents (nodes ++ [node]) = parents nodes := by
    funext v
    rw [parents, ids, same, List.filter_append, ← parents, List.filter_singleton, silent _ fresh]
    exact List.append_nil _
  have root : roots (nodes ++ [node]) = roots nodes ++ [node.id] := by
    have orphan : parents nodes node.id = [] := List.filter_eq_nil_iff.mpr fun id _ listed =>
      untargeted id (of_decide_eq_true listed)
    rw [roots, ids, parents_same, List.filter_append, List.filter_singleton, orphan]
    rfl
  obtain ⟨fuel, s, halts, all⟩ := ordered
  have steps : visit (nodes ++ [node]) = visit nodes := funext fun s => by rw [visit, visit, same]
  obtain ⟨t, halts', last⟩ := loop_beside (silent _ fresh) (.init nodes) (.init (nodes ++ [node])) parents_same
    (List.append_nil _).symm root rfl halts
  rw [← steps] at halts'
  exact ⟨fuel + 1, t, halts', by rw [last, all, List.length_append, List.length_singleton]⟩

theorem accepted_concat (node : Node γ) (accepted : Accepted nodes) (fresh : node.id ∉ nodeIds nodes) (some_id : node.id ≠ "")
    (some_kind : node.kind ≠ "") (alone : node.targets = []) : Accepted (nodes ++ [node]) := by
  obtain ⟨wf, ordered⟩ := accepted_iff.1 accepted
  have ids : nodeIds (nodes ++ [node]) = nodeIds nodes ++ [node.id] := List.map_append
  refine accepted_iff.2 ⟨⟨?_, ?_, ?_, ?_, ?_⟩, ordered_concat wf fresh alone ordered⟩
  · exact List.forall_mem_append.mpr ⟨wf.some_ids, List.forall_mem_singleton.mpr some_id⟩
  · rw [ids]
    exact List.nodup_append'.mpr ⟨wf.unique, List.nodup_singleton _, List.disjoint_singleton.mpr fresh⟩
  · exact List.forall_mem_append.mpr ⟨wf.some_kinds, List.forall_mem_singleton.mpr some_kind⟩
  · refine List.forall_mem_append.mpr ⟨fun other mem target listed => ?_, List.forall_mem_singleton.mpr fun target listed => ?_⟩
    · rw [ids]
      exact List.mem_append_left _ (wf.targets other mem target listed)
    · rw [alone] at listed
      cases listed
  · rw [List.map_append, List.sum_append, List.map_singleton, List.sum_singleton, alone]
    exact wf.edges

end Order

section Law

variable {δ μ : Type} {casefold : String → String} {fuel : Nat} {m m' : Payload δ μ} {document : Document δ μ}

theorem strip_toList (s : String) : (strip s).toList = trim isSpace s.toList := String.toList_ofList

theorem strip_strip (s : String) : strip (strip s) = strip s := by
  rw [← String.toList_inj, strip_toList, strip_toList, trim_idem]

theorem truncate_truncate (n : Nat) (s : String) : truncate n (truncate n s) = truncate n s := by
  rw [truncate, truncate, String.toList_ofList, List.take_take, Nat.min_self]

theorem orDefault_of_ne {value default : String} (some_text : value ≠ "") : orDefault value default = value := if_neg some_text

theorem truncate_ne_empty {n : Nat} {s : String} (pos : 0 < n) (some_text : s ≠ "") : truncate n s ≠ "" := by
  intro empty
  have none : s.toList.take n = [] := (String.toList_ofList).symm.trans (congrArg String.toList empty)
  rcases List.take_eq_nil_iff.mp none with rfl | nil
  · exact absurd pos (Nat.lt_irrefl 0)
  · exact some_text (String.toList_eq_nil_iff.mp nil)

theorem orDefault_ne_empty {value default : String} (some_default : default ≠ "") : orDefault value default ≠ "" := by
  rw [orDefault]
  split
  next => exact some_default
  next some_value => exact some_value

/-- A row that is loaded as it is. -/
structure Normal {γ : Type} (node : Node γ) : Prop where
  id : strip node.id = node.id
  kind : strip node.kind = node.kind
  nextIds : node.nextIds.length ≤ 256
  failureIds : node.failureIds.length ≤ 256

theorem normalizeRow_eq_self {γ : Type} {node : Node γ} : normalizeRow strip node = node ↔ Normal node := by
  constructor
  · intro same
    refine ⟨congrArg Node.id same, congrArg Node.kind same, ?_, ?_⟩
    · rw [← congrArg Node.nextIds same]
      exact List.length_take_le ..
    · rw [← congrArg Node.failureIds same]
      exact List.length_take_le ..
  · rintro ⟨id, kind, next, failure⟩
    rw [normalizeRow, id, kind, List.take_of_length_le next, List.take_of_length_le failure]

theorem normal_normalizeRow {γ : Type} (row : Node γ) : Normal (normalizeRow strip row) :=
  ⟨strip_strip _, strip_strip _, List.length_take_le .., List.length_take_le ..⟩

/-- The texts of the payload besides the nodes. -/
structure Headed (m : Payload δ μ) : Prop where
  schema : truncate 128 (orDefault m.schema "arenyxa.workflow/v1") = m.schema
  name : truncate 256 (orDefault m.name "Workflow") = m.name
  version : orDefault m.version "1.0.0" = m.version

/-- Nodes that are loaded as they are. -/
structure Settled {γ : Type} (nodes : List (Node γ)) : Prop where
  few : nodes.length ≤ maxNodes
  normal : ∀ node ∈ nodes, Normal node
  accepted : Accepted nodes

theorem workflowGraphModel_eq_validate {γ : Type} {rows : List (Option (Node γ))} (few : rows.length ≤ maxNodes) :
    workflowGraphModel strip fuel rows = (validate fuel (rows.filterMap fun row => row.map (normalizeRow strip))).map
      fun result => result.map fun _ => rows.filterMap fun row => row.map (normalizeRow strip) := by
  rw [workflowGraphModel, normalizePayload, if_neg (Nat.not_lt.mpr few), validate]
  dsimp only
  cases checkRows (rows.filterMap fun row => row.map (normalizeRow strip)) with
  | error error => rfl
  | ok _ =>
    simp only [Option.map_map]
    congr 1
    funext order
    cases order <;> rfl

theorem workflowGraphModel_eq_ok {γ : Type} {rows : List (Option (Node γ))} {nodes : List (Node γ)} :
    workflowGraphModel strip fuel rows = some (.ok nodes) ↔ rows.length ≤ maxNodes ∧
      nodes = rows.filterMap (fun row => row.map (normalizeRow strip)) ∧ validate fuel nodes = some (.ok ()) := by
  by_cases few : rows.length ≤ maxNodes
  · rw [workflowGraphModel_eq_validate few, Option.map_eq_some_iff]
    constructor
    · rintro ⟨result, valid, same⟩
      cases result with
      | error error => cases same
      | ok _ =>
        obtain rfl := Except.ok.inj same
        exact ⟨few, rfl, valid⟩
    · rintro ⟨-, rfl, valid⟩
      exact ⟨.ok (), valid, rfl⟩
  · refine ⟨fun h => ?_, fun h => absurd h.1 few⟩
    rw [workflowGraphModel, normalizePayload, if_pos (Nat.lt_of_not_le few)] at h
    cases h

theorem load_eq_ok (fuel : Nat) (m : Payload δ μ) {rows : List (Option (Node (Config δ)))} (listed : document.nodes = some rows) :
    load fuel document = some (.ok m) ↔ rows.length ≤ maxNodes ∧ validate fuel m.nodes = some (.ok ()) ∧
      m = { schema := truncate 128 (orDefault document.schema "arenyxa.workflow/v1")
            name := truncate 256 (orDefault document.name "Workflow")
            id := document.id
            version := orDefault document.version "1.0.0"
            metadata := document.metadata
            nodes := rows.filterMap fun row => row.map (normalizeRow strip) } := by
  rw [load, listed]
  simp only [Option.map_eq_some_iff]
  constructor
  · rintro ⟨result, h, same⟩
    cases result with
    | error error => cases same
    | ok nodes =>
      obtain ⟨few, rfl, valid⟩ := workflowGraphModel_eq_ok.1 h
      obtain rfl := Except.ok.inj same
      exact ⟨few, valid, rfl⟩
  · rintro ⟨few, valid, rfl⟩
    exact ⟨.ok _, workflowGraphModel_eq_ok.2 ⟨few, rfl, valid⟩, rfl⟩

theorem filterMap_some {γ : Type} (nodes : List (Node γ)) :
    (nodes.map some).filterMap (fun row => row.map (normalizeRow strip)) = nodes.map (normalizeRow strip) := by
  rw [List.filterMap_map]
  exact congrFun List.filterMap_eq_map nodes

theorem reloads_iff : Reloads m ↔ Headed m ∧ Settled m.nodes := by
  have rows : (snapshot m).nodes = some (m.nodes.map some) := rfl
  have loads (fuel : Nat) := load_eq_ok fuel m rows
  simp only [Reloads, loads, List.length_map, filterMap_some]
  constructor
  · rintro ⟨fuel, few, valid, same⟩
    have normal : m.nodes.map (normalizeRow strip) = m.nodes.map fun node => node :=
      (congrArg Payload.nodes same).symm.trans (List.map_id' _).symm
    exact ⟨⟨(congrArg Payload.schema same).symm, (congrArg Payload.name same).symm, (congrArg Payload.version same).symm⟩,
      few, fun node mem => normalizeRow_eq_self.1 (List.map_inj_left.mp normal node mem), fuel, valid⟩
  · rintro ⟨headed, few, normal, fuel, valid⟩
    refine ⟨fuel, few, valid, ?_⟩
    have kept : m.nodes.map (normalizeRow strip) = m.nodes :=
      (List.map_inj_left.mpr fun node mem => normalizeRow_eq_self.2 (normal node mem)).trans (List.map_id' _)
    rw [kept]
    simp only [snapshot, headed.schema, headed.name, headed.version]

theorem load_reloads (loaded : load fuel document = some (.ok m)) : Reloads m := by
  cases listed : document.nodes with
  | none =>
    rw [load, listed] at loaded
    cases loaded
  | some rows =>
    obtain ⟨few, valid, rfl⟩ := (load_eq_ok fuel m listed).mp loaded
    have schema : truncate 128 (orDefault document.schema "arenyxa.workflow/v1") ≠ "" :=
      truncate_ne_empty (by decide) (orDefault_ne_empty (by decide))
    have name : truncate 256 (orDefault document.name "Workflow") ≠ "" :=
      truncate_ne_empty (by decide) (orDefault_ne_empty (by decide))
    refine reloads_iff.2 ⟨⟨?_, ?_, ?_⟩, (List.length_filterMap_le _ _).trans few, fun node mem => ?_, fuel, valid⟩
    · show truncate 128 (orDefault _ _) = _
      rw [orDefault_of_ne schema, truncate_truncate]
    · show truncate 256 (orDefault _ _) = _
      rw [orDefault_of_ne name, truncate_truncate]
    · exact orDefault_of_ne (orDefault_ne_empty (by decide))
    · obtain ⟨row, -, its⟩ := List.mem_filterMap.mp mem
      obtain ⟨raw, -, rfl⟩ := Option.map_eq_some_iff.mp its
      exact normal_normalizeRow raw

/-- A call keeps the law. -/
def Kept (m m' : Payload δ μ) (result : Except EditError Unit) : Prop :=
  ((∃ error, result = .error error) → snapshot m' = snapshot m) ∧ Reloads m'

theorem kept_refused (reloads : Reloads m) (error : EditError) (m' : Payload δ μ) (result : Except EditError Unit)
    (h : ∃ _fuel : Nat, some (m, .error error) = some (m', result)) : Kept m m' result := by
  obtain ⟨_, its⟩ := h
  obtain ⟨rfl, rfl⟩ := Prod.mk.inj (Option.some.inj its)
  exact ⟨fun _ => rfl, reloads⟩

theorem nodes_of_snapshot (same : snapshot m' = snapshot m) : m'.nodes = m.nodes :=
  List.map_injective_iff.mpr (Option.some_injective _) (Option.some.inj (congrArg Document.nodes same))

theorem reloads_nodes (reloads : Reloads m) {nodes : List (Node (Config δ))} : Reloads { m with nodes } ↔ Settled nodes := by
  obtain ⟨⟨schema, name, version⟩, -⟩ := reloads_iff.1 reloads
  exact reloads_iff.trans ⟨And.right, fun settled => ⟨⟨schema, name, version⟩, settled⟩⟩

theorem kept_validated_iff (reloads : Reloads m) {nodes : List (Node (Config δ))} :
    (∀ m' result, (∃ fuel, validated fuel m nodes = some (m', result)) → Kept m m' result) ↔
      (Accepted nodes → Settled nodes) ∧ (¬Accepted nodes → nodes = m.nodes) := by
  constructor
  · intro keeps
    refine ⟨fun ⟨fuel, valid⟩ => ?_, fun refused => ?_⟩
    · exact (reloads_nodes reloads).mp (keeps _ (.ok ()) ⟨fuel, by rw [validated, valid]; rfl⟩).2
    · obtain ⟨fuel, result, valid⟩ := validate_total nodes
      cases result with
      | ok _ => exact absurd ⟨fuel, valid⟩ refused
      | error error =>
        have same := (keeps _ (.error (.graph error)) ⟨fuel, by rw [validated, valid]; rfl⟩).1 ⟨_, rfl⟩
        exact nodes_of_snapshot same
  · rintro ⟨settles, restores⟩ m' result ⟨fuel, h⟩
    obtain ⟨outcome, valid, same⟩ := Option.map_eq_some_iff.mp h
    obtain ⟨rfl, rfl⟩ := Prod.mk.inj same
    cases outcome with
    | ok _ => exact ⟨fun raised => (nomatch raised), (reloads_nodes reloads).mpr (settles ⟨fuel, valid⟩)⟩
    | error error =>
      obtain rfl := restores (validate_error valid)
      exact ⟨fun _ => rfl, reloads⟩

section Rows

variable {γ : Type} {nodes : List (Node γ)} {f g : Node γ → Node γ} {id : String}

theorem updateRow_updateRow (keeps : ∀ node, (f node).id = node.id) :
    updateRow id g (updateRow id f nodes) = updateRow id (fun node => g (f node)) nodes := by
  rw [updateRow, updateRow, updateRow, List.map_map]
  refine List.map_congr_left fun node _ => ?_
  by_cases its : node.id = id
  · simp only [Function.comp_apply, if_pos its, keeps]
  · simp only [Function.comp_apply, if_neg its]

theorem updateRow_eq_self (same : ∀ node ∈ nodes, node.id = id → f node = node) : updateRow id f nodes = nodes := by
  rw [updateRow]
  refine (List.map_congr_left fun node mem => ?_).trans (List.map_id' nodes)
  split
  next its => exact same node mem its
  next => rfl

theorem nodeIds_updateRow (nodes : List (Node γ)) (id : String) (keeps : ∀ node, (f node).id = node.id) : nodeIds (updateRow id f nodes) = nodeIds nodes := by
  rw [nodeIds, updateRow, List.map_map]
  refine List.map_congr_left fun node _ => ?_
  simp only [Function.comp_apply]
  split
  next => exact keeps node
  next => rfl

theorem forall_mem_updateRow {P : Node γ → Prop} (others : ∀ node ∈ nodes, P node)
    (its : ∀ node ∈ nodes, node.id = id → P (f node)) : ∀ node ∈ updateRow id f nodes, P node := by
  intro node mem
  obtain ⟨old, old_mem, rfl⟩ := List.mem_map.mp mem
  split
  next named => exact its old old_mem named
  next => exact others old old_mem

theorem outgoing_updateRow (ids : ∀ node, (f node).id = node.id) (targets : ∀ node, (f node).targets = node.targets) :
    outgoing (updateRow id f nodes) = outgoing nodes := by
  funext v
  rw [outgoing, outgoing, updateRow, List.find?_map]
  have same : (fun node : Node γ => decide (node.id = v)) ∘ (fun node => if node.id = id then f node else node) =
      fun node => decide (node.id = v) := by
    funext node
    simp only [Function.comp_apply]
    split
    next => rw [ids]
    next => rfl
  rw [same, Option.map_map]
  congr 2
  funext node
  simp only [Function.comp_apply]
  split
  next => exact targets node
  next => rfl

theorem accepted_updateRow (accepted : Accepted nodes) (ids : ∀ node, (f node).id = node.id)
    (targets : ∀ node, (f node).targets = node.targets) (kinds : ∀ node ∈ nodes, node.id = id → (f node).kind ≠ "") :
    Accepted (updateRow id f nodes) := by
  obtain ⟨wf, ordered⟩ := accepted_iff.1 accepted
  have same_ids := nodeIds_updateRow nodes id ids
  refine accepted_iff.2 ⟨⟨?_, ?_, ?_, ?_, ?_⟩, ordered_congr same_ids.symm (outgoing_updateRow ids targets).symm ordered⟩
  · exact forall_mem_updateRow wf.some_ids fun node mem _ => by
      rw [ids]
      exact wf.some_ids node mem
  · rw [same_ids]
    exact wf.unique
  · exact forall_mem_updateRow wf.some_kinds kinds
  · rw [same_ids]
    exact forall_mem_updateRow wf.targets fun node mem _ => by
      rw [targets]
      exact wf.targets node mem
  · have lengths : (updateRow id f nodes).map (fun node => node.targets.length) = nodes.map fun node => node.targets.length := by
      rw [updateRow, List.map_map]
      refine List.map_congr_left fun node _ => ?_
      simp only [Function.comp_apply]
      split
      next => rw [targets]
      next => rfl
    rw [lengths]
    exact wf.edges

end Rows

section Edges

variable {γ : Type} {edgeType : String} {f g : List String → List String} {node : Node γ}

/-- The edges of a type. -/
def edgesOf (casefold : String → String) (edgeType : String) (node : Node γ) : List String :=
  if casefold edgeType = "failure" then node.failureIds else node.nextIds

theorem updateEdges_id : (updateEdges casefold edgeType f node).id = node.id := by
  rw [updateEdges]
  split <;> rfl

theorem updateEdges_kind : (updateEdges casefold edgeType f node).kind = node.kind := by
  rw [updateEdges]
  split <;> rfl

theorem updateEdges_eq_self (same : f (edgesOf casefold edgeType node) = edgesOf casefold edgeType node) :
    updateEdges casefold edgeType f node = node := by
  rw [edgesOf] at same
  rw [updateEdges]
  split
  next failure =>
    rw [if_pos failure] at same
    rw [same]
  next normal =>
    rw [if_neg normal] at same
    rw [same]

theorem updateEdges_updateEdges : updateEdges casefold edgeType g (updateEdges casefold edgeType f node) =
    updateEdges casefold edgeType (fun edges => g (f edges)) node := by
  rw [updateEdges, updateEdges, updateEdges]
  split <;> rfl

theorem updateEdges_normal (normal : Normal node) (shorter : ∀ edges, (f edges).length ≤ edges.length) :
    Normal (updateEdges casefold edgeType f node) := by
  obtain ⟨id, kind, next, failure⟩ := normal
  rw [updateEdges]
  split
  next => exact ⟨id, kind, next, (shorter _).trans failure⟩
  next => exact ⟨id, kind, (shorter _).trans next, failure⟩

end Edges

theorem addNode_kept (reloads : Reloads m) (id kind : String) (config : Config δ) (m' : Payload δ μ)
    (result : Except EditError Unit) (h : ∃ fuel, addNode fuel m id kind config = some (m', result)) : Kept m m' result := by
  obtain ⟨-, few, normal, accepted⟩ := reloads_iff.1 reloads
  unfold addNode at h
  split at h
  next => exact kept_refused reloads _ m' result h
  next named =>
    split at h
    next => exact kept_refused reloads _ m' result h
    next kinded =>
      split at h
      next => exact kept_refused reloads _ m' result h
      next room =>
        split at h
        next => exact kept_refused reloads _ m' result h
        next fresh =>
          rw [not_or] at named kinded
          have grown := accepted_concat ⟨strip kind, config, strip id, [], []⟩ accepted fresh named.1 kinded.1 rfl
          refine (kept_validated_iff reloads).mpr ⟨fun _ => ⟨?_, ?_, grown⟩, fun refused => absurd grown refused⟩ m' result h
          · rw [List.length_append]
            exact Nat.lt_of_not_le room
          · exact List.forall_mem_append.mpr ⟨normal, List.forall_mem_singleton.mpr
              ⟨strip_strip _, strip_strip _, Nat.zero_le _, Nat.zero_le _⟩⟩

theorem settled_without {target : String} (settled : Settled m.nodes) (accepted : Accepted (without target m.nodes)) :
    Settled (without target m.nodes) := by
  refine ⟨?_, fun node mem => ?_, accepted⟩
  · rw [without, List.length_map]
    exact (List.length_filter_le ..).trans settled.few
  · obtain ⟨old, kept, rfl⟩ := List.mem_map.mp mem
    obtain ⟨id, kind, next, failure⟩ := settled.normal old (List.mem_filter.mp kept).1
    exact ⟨id, kind, (List.length_filter_le ..).trans next, (List.length_filter_le ..).trans failure⟩

theorem removeNode_kept_iff (reloads : Reloads m) (id : String) :
    (∀ m' result, (∃ fuel, removeNode fuel m id = some (m', result)) → Kept m m' result) ↔
      (strip id ∈ nodeIds m.nodes → 1 < m.nodes.length → Accepted (without (strip id) m.nodes)) := by
  have settled := (reloads_iff.1 reloads).2
  unfold removeNode
  split
  next unknown => exact iff_of_true (kept_refused reloads _) fun known => absurd known unknown
  next known =>
    rw [not_not] at known
    split
    next last => exact iff_of_true (kept_refused reloads _) fun _ more => absurd last (Nat.not_le.mpr more)
    next more =>
      rw [kept_validated_iff reloads]
      constructor
      · rintro ⟨-, restores⟩ - -
        by_contra refused
        rw [← restores refused] at known
        obtain ⟨node, mem, named⟩ := List.mem_map.mp known
        obtain ⟨old, kept, rfl⟩ := List.mem_map.mp mem
        exact of_decide_eq_true (List.mem_filter.mp kept).2 named
      · intro accepted
        have accepted := accepted known (Nat.lt_of_not_le more)
        exact ⟨settled_without settled, fun refused => absurd accepted refused⟩

theorem disconnect_kept_iff (reloads : Reloads m) (source target edgeType : String) :
    (∀ m' result, (∃ fuel, disconnect casefold fuel m source target edgeType = some (m', result)) → Kept m m' result) ↔
      Accepted (disconnected casefold source target edgeType m.nodes) := by
  have settled := (reloads_iff.1 reloads).2
  unfold disconnect
  split
  next unknown =>
    have same : disconnected casefold source target edgeType m.nodes = m.nodes := updateRow_eq_self fun node mem named =>
      absurd (named ▸ List.mem_map_of_mem mem) unknown
    rw [same]
    exact iff_of_true (kept_refused reloads _) settled.accepted
  next known =>
    rw [kept_validated_iff reloads]
    constructor
    · rintro ⟨-, restores⟩
      by_contra refused
      have accepted := settled.accepted
      rw [← restores refused] at accepted
      exact refused accepted
    · refine fun accepted => ⟨fun _ => ⟨?_, ?_, accepted⟩, fun refused => absurd accepted refused⟩
      · rw [disconnected, updateRow, List.length_map]
        exact settled.few
      · exact forall_mem_updateRow settled.normal fun node mem _ =>
          updateEdges_normal (settled.normal node mem) fun edges => List.length_filter_le ..

theorem updateNode_kept_iff (reloads : Reloads m) (id : String) (kind : Option String) (config : Option (Config δ)) :
    (∀ m' result, (∃ fuel, updateNode fuel m id kind config = some (m', result)) → Kept m m' result) ↔
      (id ∈ nodeIds m.nodes → ∀ text ∈ kind, strip (truncate 128 (strip text)) = truncate 128 (strip text)) := by
  have settled := (reloads_iff.1 reloads).2
  unfold updateNode
  split
  next unknown => exact iff_of_true (kept_refused reloads _) fun known => absurd known unknown
  next known =>
    rw [not_not] at known
    split
    next empty =>
      refine iff_of_true (kept_refused reloads _) fun _ text its => ?_
      rw [Option.mem_def.mp its] at empty
      rw [Option.some.inj empty]
      decide
    next some_kind =>
      have ids (node : Node (Config δ)) : (updatedRow kind config node).id = node.id := rfl
      have accepted : Accepted (updateRow id (updatedRow kind config) m.nodes) := by
        refine accepted_updateRow settled.accepted ids (fun _ => rfl) fun node mem _ => ?_
        cases kind with
        | none => exact (accepted_iff.1 settled.accepted).1.some_kinds node mem
        | some text => exact truncate_ne_empty (by decide) fun empty => some_kind (congrArg some empty)
      rw [kept_validated_iff reloads]
      constructor
      · rintro ⟨settles, -⟩ - text rfl
        obtain ⟨node, mem, named⟩ := List.mem_map.mp known
        have changed : updatedRow (some text) config node ∈ updateRow id (updatedRow (some text) config) m.nodes :=
          List.mem_map.mpr ⟨node, mem, if_pos named⟩
        exact ((settles accepted).normal _ changed).kind
      · refine fun plain => ⟨fun _ => ⟨?_, ?_, accepted⟩, fun refused => absurd accepted refused⟩
        · rw [updateRow, List.length_map]
          exact settled.few
        · refine forall_mem_updateRow settled.normal fun node mem _ => ?_
          obtain ⟨its_id, its_kind, next, failure⟩ := settled.normal node mem
          refine ⟨its_id, ?_, next, failure⟩
          cases kind with
          | none => exact its_kind
          | some text => exact plain known text rfl

theorem connect_restores (settled : Settled m.nodes) {source target edgeType : String}
    (refused : ¬Accepted (connected casefold source target edgeType m.nodes)) :
    updateRow source (updateEdges casefold edgeType (·.erase target)) (connected casefold source target edgeType m.nodes) = m.nodes := by
  have unique := (accepted_iff.1 settled.accepted).1.unique
  rw [connected, updateRow_updateRow fun node => updateEdges_id]
  refine updateRow_eq_self fun node mem named => ?_
  have fresh : target ∉ edgesOf casefold edgeType node := by
    intro listed
    refine refused ?_
    have same : connected casefold source target edgeType m.nodes = m.nodes := by
      refine updateRow_eq_self fun other other_mem other_named => updateEdges_eq_self ?_
      obtain rfl := List.inj_on_of_nodup_map unique other_mem mem (other_named.trans named.symm)
      exact if_pos listed
    rw [same]
    exact settled.accepted
  rw [updateEdges_updateEdges]
  refine updateEdges_eq_self ?_
  rw [if_neg fresh, List.erase_append_right _ fresh, List.erase_cons_head, List.append_nil]

theorem connected_texts (settled : Settled m.nodes) {source target edgeType : String} :
    ∀ node ∈ connected casefold source target edgeType m.nodes, strip node.id = node.id ∧ strip node.kind = node.kind := by
  have texts : ∀ node ∈ m.nodes, strip node.id = node.id ∧ strip node.kind = node.kind := fun node mem =>
    ⟨(settled.normal node mem).id, (settled.normal node mem).kind⟩
  refine forall_mem_updateRow texts fun node mem _ => ?_
  rw [updateEdges_id, updateEdges_kind]
  exact texts node mem

theorem connect_kept_iff (reloads : Reloads m) (source target edgeType : String) :
    (∀ m' result, (∃ fuel, connect casefold fuel m source target edgeType = some (m', result)) → Kept m m' result) ↔
      (strip source ≠ strip target → strip source ∈ nodeIds m.nodes → strip target ∈ nodeIds m.nodes →
        Accepted (connected casefold (strip source) (strip target) edgeType m.nodes) →
        ∀ node ∈ connected casefold (strip source) (strip target) edgeType m.nodes,
          node.nextIds.length ≤ 256 ∧ node.failureIds.length ≤ 256) := by
  have settled := (reloads_iff.1 reloads).2
  unfold connect
  split
  next loop => exact iff_of_true (kept_refused reloads _) fun other => absurd loop other
  next other =>
    split
    next unknown =>
      refine iff_of_true (kept_refused reloads _) fun _ known_source known_target => ?_
      exact absurd unknown (not_or.mpr ⟨not_not.mpr known_source, not_not.mpr known_target⟩)
    next known =>
      obtain ⟨known_source, known_target⟩ := not_or.mp known
      simp only
      constructor
      · rintro keeps - - - ⟨fuel, valid⟩ node mem
        have kept := (keeps _ (.ok ()) ⟨fuel, by rw [valid]; rfl⟩).2
        exact ⟨(((reloads_nodes reloads).mp kept).normal node mem).nextIds, (((reloads_nodes reloads).mp kept).normal node mem).failureIds⟩
      · rintro room m' result ⟨fuel, h⟩
        obtain ⟨outcome, valid, same⟩ := Option.map_eq_some_iff.mp h
        cases outcome with
        | ok _ =>
          obtain ⟨rfl, rfl⟩ := Prod.mk.inj same
          have bounds := room other (not_not.mp known_source) (not_not.mp known_target) ⟨fuel, valid⟩
          refine ⟨fun raised => (nomatch raised), (reloads_nodes reloads).mpr ⟨?_, fun node mem => ?_, fuel, valid⟩⟩
          · rw [connected, updateRow, List.length_map]
            exact settled.few
          · obtain ⟨id, kind⟩ := connected_texts settled node mem
            exact ⟨id, kind, (bounds node mem).1, (bounds node mem).2⟩
        | error error =>
          obtain ⟨rfl, rfl⟩ := Prod.mk.inj same
          have restored := connect_restores settled (validate_error valid)
          rw [restored]
          exact ⟨fun _ => rfl, reloads⟩

theorem kept_iff_careful (reloads : Reloads m) (call : Call δ) :
    (∀ m' result, Edits casefold m call m' result → Kept m m' result) ↔ Careful casefold m call := by
  cases call with
  | addNode id kind config => exact iff_of_true (addNode_kept reloads id kind config) trivial
  | removeNode id => exact removeNode_kept_iff reloads id
  | connect source target edgeType => exact connect_kept_iff reloads source target edgeType
  | disconnect source target edgeType => exact disconnect_kept_iff reloads source target edgeType
  | updateNode id kind config => exact updateNode_kept_iff reloads id kind config

theorem validated_total (m : Payload δ μ) (nodes : List (Node (Config δ))) :
    ∃ m' result fuel, validated fuel m nodes = some (m', result) := by
  obtain ⟨fuel, result, valid⟩ := validate_total nodes
  exact ⟨_, _, fuel, by rw [validated, valid]; rfl⟩

theorem edits_total (m : Payload δ μ) (call : Call δ) : ∃ m' result, Edits casefold m call m' result := by
  have refused (error : EditError) : ∃ (m' : Payload δ μ) (result : Except EditError Unit) (_fuel : Nat),
      some (m, .error error) = some (m', result) := ⟨_, _, 0, rfl⟩
  cases call with
  | addNode id kind config =>
    simp only [Edits, edit, addNode]
    split
    · exact refused _
    split
    · exact refused _
    split
    · exact refused _
    split
    · exact refused _
    exact validated_total m _
  | removeNode id =>
    simp only [Edits, edit, removeNode]
    split
    · exact refused _
    split
    · exact refused _
    exact validated_total m _
  | connect source target edgeType =>
    simp only [Edits, edit, connect]
    split
    · exact refused _
    split
    · exact refused _
    obtain ⟨fuel, result, valid⟩ := validate_total (connected casefold (strip source) (strip target) edgeType m.nodes)
    exact ⟨_, _, fuel, by rw [valid]; rfl⟩
  | disconnect source target edgeType =>
    simp only [Edits, edit, disconnect]
    split
    · exact refused _
    exact validated_total m _
  | updateNode id kind config =>
    simp only [Edits, edit, updateNode]
    split
    · exact refused _
    split
    · exact refused _
    exact validated_total m _

/-- Runs of edits are lawful exactly where each of their calls is careful. -/
theorem lawful_iff_careful (loaded : ∃ fuel, load fuel document = some (.ok m)) (calls : List (Call δ)) :
    (∀ (m : Payload δ μ) (call : Call δ), ∃ m' result, Edits casefold m call m' result) ∧ Reloads m ∧
      (Lawful casefold m calls ↔ CarefulRun casefold m calls) := by
  obtain ⟨fuel, loaded⟩ := loaded
  have reloads := load_reloads loaded
  refine ⟨edits_total, reloads, ?_⟩
  clear loaded
  induction calls generalizing m with
  | nil => exact Iff.rfl
  | cons call calls ih =>
    rw [Lawful, CarefulRun, ← kept_iff_careful reloads]
    constructor
    · intro lawful
      refine ⟨fun m' result edits => ⟨(lawful m' result edits).1, (lawful m' result edits).2.1⟩, fun m' result edits => ?_⟩
      obtain ⟨-, reloads', later⟩ := lawful m' result edits
      exact (ih reloads').mp later
    · rintro ⟨keeps, careful⟩ m' result edits
      obtain ⟨same, reloads'⟩ := keeps m' result edits
      exact ⟨same, reloads', (ih reloads').mpr (careful m' result edits)⟩

/-- The node c is settled after the node a, which lists b twice. -/
def sampleDocument : Document Unit Unit where
  schema := ""
  name := "sample"
  id := "w"
  version := ""
  metadata := ()
  nodes := some [some ⟨" source ", [], "a", ["b", "b"], []⟩, some ⟨"source", [], "c", ["b"], []⟩, none,
    some ⟨"sink", [], "b", [], []⟩]

def sample : Payload Unit Unit where
  schema := "arenyxa.workflow/v1"
  name := "sample"
  id := "w"
  version := "1.0.0"
  metadata := ()
  nodes := [⟨"source", [], "a", ["b", "b"], []⟩, ⟨"source", [], "c", ["b"], []⟩, ⟨"sink", [], "b", [], []⟩]

theorem sample_loaded : load 5 sampleDocument = some (.ok sample) := rfl

theorem lawful_iff_careful_sample : Lawful id sample [.removeNode "b"] := by
  refine (lawful_iff_careful ⟨5, sample_loaded⟩ [.removeNode "b"]).2.2.mpr ⟨fun _ _ => ⟨5, rfl⟩, fun _ _ _ => trivial⟩

/-- A removal leaves a graph that is refused, and a kind is clipped behind a space. -/
theorem removal_unlawful : (∃ fuel, load fuel sampleDocument = some (.ok sample)) ∧ ¬Lawful id sample [.removeNode "c"] ∧
    ¬Lawful id sample [.updateNode "a" (some ((String.ofList (List.replicate 127 'x')) ++ " y")) none] := by
  refine ⟨⟨5, sample_loaded⟩, fun lawful => ?_, fun lawful => ?_⟩
  · have same := (lawful _ _ ⟨5, rfl⟩).1 ⟨_, rfl⟩
    exact absurd (congrArg List.length (nodes_of_snapshot same)) (by decide)
  · have keeps := (kept_iff_careful (load_reloads sample_loaded) _).mp fun m' result edits =>
      ⟨(lawful m' result edits).1, (lawful m' result edits).2.1⟩
    have same := congrArg String.toList (keeps List.mem_cons_self _ rfl)
    rw [strip_toList, truncate, String.toList_ofList, strip_toList, String.toList_append, String.toList_ofList] at same
    exact absurd same (by decide)

end Law

end Arenyxa.Workflow.Editing
