import Arenyxa.Lib.Topological
import Arenyxa.Workflow.Engine
import Arenyxa.Workflow.Graph

/-! The order of the visual model: a target that the node settled last lists twice is queued
twice, and then counted twice. -/

universe u

namespace Arenyxa.Workflow

open Loop Topological

variable {γ : Type u}

/-- The targets that a node releases when it is settled, as often as it lists them. -/
def released (nodes : List (Node γ)) (done : List String) (current : String) : List String :=
  (outgoing nodes current).filter fun target =>
    (parents nodes target).all fun id => id ∈ done ++ [current]

/-- No node that is settled next lists a target twice that it releases. -/
def UntangledFrom (nodes : List (Node γ)) : Nat → List String → List String → Prop
  | fuel + 1, done, current :: rest =>
    (released nodes done current).Nodup ∧
      UntangledFrom nodes fuel (done ++ [current]) (rest ++ released nodes done current)
  | _, _, _ => True

/-- In Kahn's order, from the nodes without parents on, no node that is the last of a target's
parents lists the target twice. -/
def Untangled (nodes : List (Node γ)) : Prop := UntangledFrom nodes nodes.length [] (roots nodes)

variable {nodes : List (Node γ)}

theorem visitTarget_incoming (current : String) (s : Levelling) (target v : String) :
    ((visitTarget current s target).incoming v).filter (· ≠ current) =
      (s.incoming v).filter (· ≠ current) := by
  by_cases same : v = target
  · subst same
    simp only [visitTarget, Function.update_self, List.filter_filter, Bool.and_self]
  · simp only [visitTarget, Function.update_of_ne same]

theorem visitTargets (current : String) (targets : List String) (s : Levelling) :
    (targets.foldl (visitTarget current) s).queue =
        s.queue ++ targets.filter (fun v => (s.incoming v).filter (· ≠ current) = []) ∧
      (targets.foldl (visitTarget current) s).visited = s.visited ∧
      ∀ v, (targets.foldl (visitTarget current) s).incoming v =
        if v ∈ targets then (s.incoming v).filter (· ≠ current) else s.incoming v := by
  induction targets generalizing s with
  | nil => exact ⟨(List.append_nil _).symm, rfl, fun v => rfl⟩
  | cons target targets ih =>
    obtain ⟨queue, visited, incoming⟩ := ih (visitTarget current s target)
    simp only [visitTarget_incoming] at queue incoming
    refine ⟨?_, visited, fun v => ?_⟩
    · rw [List.foldl_cons, queue, List.filter_cons, visitTarget]
      split
      next empty => rw [if_pos (decide_eq_true empty), List.append_assoc, List.singleton_append]
      next waits => rw [if_neg fun h => waits (of_decide_eq_true h)]
    · rw [List.foldl_cons, incoming]
      by_cases later : v ∈ targets
      · rw [if_pos later, if_pos (List.mem_cons_of_mem _ later)]
      · rw [if_neg later]
        by_cases same : v = target
        · rw [if_pos (same ▸ List.mem_cons_self), same]
          exact Function.update_self ..
        · rw [if_neg fun h => (List.mem_cons.mp h).elim same later]
          exact Function.update_of_ne same ..

/-- The loop's state against the list of the visits so far. -/
structure Tracks (nodes : List (Node γ)) (s : Levelling) (done : List String) : Prop where
  incoming : ∀ v, s.incoming v = (parents nodes v).filter (· ∉ done)
  visited : s.visited = done.length

theorem visit_tracks {s s' : Levelling} {done : List String} (t : Tracks nodes s done)
    (unique : (nodeIds nodes).Nodup) (next : visit nodes s = some s') :
    ∃ current rest, s.queue = current :: rest ∧ Tracks nodes s' (done ++ [current]) ∧
      s'.queue = rest ++ released nodes done current := by
  rw [visit] at next
  cases waiting : s.queue with
  | nil =>
    rw [waiting] at next
    cases next
  | cons current rest =>
    rw [waiting] at next
    cases next
    obtain ⟨queue, visited, incoming⟩ := visitTargets current (outgoing nodes current)
      { s with queue := rest, visited := s.visited + 1 }
    have left : ∀ v, (s.incoming v).filter (· ≠ current) =
        (parents nodes v).filter (· ∉ done ++ [current]) := by
      intro v
      rw [t.incoming, List.filter_filter]
      congr 1
      funext id
      simp [not_or, and_comm]
    simp only [left] at queue incoming
    refine ⟨current, rest, rfl, ⟨fun v => ?_, ?_⟩, ?_⟩
    · rw [incoming]
      split
      next => rfl
      next unlisted =>
        -- A node that does not list the target is none of its parents.
        rw [t.incoming]
        refine List.filter_congr fun id member => ?_
        have other : id ≠ current := by
          rintro rfl
          exact unlisted ((mem_outgoing_iff unique).mpr ((mem_parents_iff unique).mp member))
        simp [other]
    · rw [visited, List.length_append, List.length_singleton, t.visited]
    · rw [queue, released]
      congr 2
      funext v
      rw [Bool.eq_iff_iff, decide_eq_true_eq, List.filter_eq_nil_iff, List.all_eq_true]
      simp only [decide_eq_true_eq, not_not]

theorem mem_released_iff (unique : (nodeIds nodes).Nodup) {done : List String}
    {current v : String} : v ∈ released nodes done current ↔
      Edge nodes current v ∧ ∀ p, Edge nodes p v → p ∈ done ++ [current] := by
  rw [released, List.mem_filter, mem_outgoing_iff unique, List.all_eq_true]
  simp only [mem_parents_iff unique, decide_eq_true_eq]

theorem mem_roots_iff (unique : (nodeIds nodes).Nodup) (v : String) :
    v ∈ roots nodes ↔ v ∈ nodeIds nodes ∧ ∀ p, ¬Edge nodes p v := by
  rw [roots, List.mem_filter, decide_eq_true_eq, List.eq_nil_iff_forall_not_mem]
  simp only [mem_parents_iff unique]

theorem roots_nodup (unique : (nodeIds nodes).Nodup) : (roots nodes).Nodup := unique.filter _

theorem sorting_visit (wf : WellFormed nodes) {done rest : List String} {current : String}
    (s : Sorting (Edge nodes) (nodeIds nodes) done (current :: rest)) :
    Sorting (Edge nodes) (nodeIds nodes) (done ++ [current])
      (rest ++ released nodes done current) := by
  refine s.round (fun v hv => ?_) fun v _ edge all_done => ?_
  · rw [mem_released_iff wf.unique] at hv
    exact ⟨(wf.edge_within hv.1).2, hv.2⟩
  · exact .inr ((mem_released_iff wf.unique).mpr ⟨edge, all_done⟩)

theorem sorting_start (unique : (nodeIds nodes).Nodup) :
    Sorting (Edge nodes) (nodeIds nodes) [] (roots nodes) := Sorting.start (mem_roots_iff unique)

theorem tracks_init : Tracks nodes (.init nodes) [] where
  incoming := fun _ => (List.filter_true _).symm
  visited := rfl

theorem levels_terminate (wf : WellFormed nodes) :
    ∃ fuel s, loop (Workflow.visit nodes) fuel (.init nodes) = some s := by
  have children := wellFounded_children (E := Edge nodes) fun p v edge => (wf.edge_within edge).1
  refine loop_terminates children.cutExpand (fun s => (s.queue : Multiset String))
    (P := fun s => ∃ done, Tracks nodes s done ∧
      Sorting (Edge nodes) (nodeIds nodes) done s.queue) ?_ ?_ ?_
  · rintro s s' ⟨done, t, sorting⟩ next
    obtain ⟨current, rest, waiting, t', queue⟩ := visit_tracks t wf.unique next
    rw [waiting] at sorting
    exact ⟨_, t', queue ▸ sorting_visit wf sorting⟩
  · rintro s s' ⟨done, t, sorting⟩ next
    obtain ⟨current, rest, waiting, -, queue⟩ := visit_tracks t wf.unique next
    rw [waiting] at sorting
    rw [waiting, queue]
    refine ⟨released nodes done current, current, fun c hc => ⟨?_, ?_⟩, ?_⟩
    · exact ((mem_released_iff wf.unique).mp hc).1
    · have sorting' := sorting_visit wf sorting
      exact sorting'.settles.acc c
        (List.mem_append_right _ (List.mem_append_right _ hc))
    · rw [← Multiset.cons_coe, ← Multiset.singleton_add, ← Multiset.coe_add, add_comm,
        ← add_assoc]
  · exact ⟨[], tracks_init, sorting_start wf.unique⟩

theorem disjoint_released (unique : (nodeIds nodes).Nodup) {done rest : List String}
    {current : String} (s : Sorting (Edge nodes) (nodeIds nodes) done (current :: rest))
    (fresh : (done ++ current :: rest).Nodup) :
    (done ++ current :: rest).Disjoint (released nodes done current) := by
  intro v queued new
  have listed := ((mem_released_iff unique).mp new).1
  have here := s.parents v queued current listed
  exact (List.nodup_append.mp fresh).2.2 current here current List.mem_cons_self rfl

theorem loop_visits (wf : WellFormed nodes) {fuel : Nat} :
    ∀ {s t : Levelling} {done : List String} {rounds : Nat}, Tracks nodes s done →
      Sorting (Edge nodes) (nodeIds nodes) done s.queue → loop (visit nodes) fuel s = some t →
      ∃ visits, t.visited = visits.length ∧ Sorting (Edge nodes) (nodeIds nodes) visits [] ∧
        done ++ s.queue <+: visits ∧
        ((done ++ s.queue).Nodup → nodes.length ≤ rounds + done.length →
          (UntangledFrom nodes rounds done s.queue ↔ visits.Nodup)) := by
  induction fuel with
  | zero => exact fun _ _ h => nomatch h
  | succ fuel ih =>
    intro s t done rounds tracks sorting h
    cases next : visit nodes s with
    | none =>
      rw [loop_none next] at h
      cases h
      have waiting : s.queue = [] := by
        rw [visit] at next
        split at next
        next empty => exact empty
        next => cases next
      rw [waiting] at sorting ⊢
      refine ⟨done, tracks.visited, sorting, by rw [List.append_nil], fun fresh _ => ?_⟩
      rw [List.append_nil] at fresh
      exact iff_of_true (by cases rounds <;> trivial) fresh
    | some s' =>
      rw [loop_some next] at h
      obtain ⟨current, rest, waiting, tracks', queue⟩ := visit_tracks tracks wf.unique next
      rw [waiting] at sorting ⊢
      have sorting' := sorting_visit wf sorting
      rw [← queue] at sorting'
      obtain ⟨visits, visited, sorted, queued, untangled⟩ :=
        @ih _ _ _ (rounds - 1) tracks' sorting' h
      have trace : done ++ [current] ++ s'.queue =
          (done ++ current :: rest) ++ released nodes done current := by
        rw [queue]
        simp
      rw [trace] at queued untangled
      refine ⟨visits, visited, sorted, (List.prefix_append _ _).trans queued, fun fresh enough => ?_⟩
      have few : (done ++ current :: rest).length ≤ nodes.length := by
        have := (fresh.subperm sorting.within).length_le
        rwa [nodeIds, List.length_map] at this
      rw [List.length_append, List.length_cons] at few
      cases rounds with
      | zero => omega
      | succ rounds =>
        rw [UntangledFrom, ← queue]
        have disjoint := disjoint_released wf.unique sorting fresh
        constructor
        · rintro ⟨once, later⟩
          refine (untangled (List.nodup_append'.mpr ⟨fresh, once, disjoint⟩) ?_).mp later
          rw [List.length_append, List.length_singleton]
          omega
        · intro visits_once
          have trace_once := visits_once.sublist queued.sublist
          refine ⟨(List.nodup_append'.mp trace_once).2.1, ?_⟩
          refine (untangled trace_once ?_).mpr visits_once
          rw [List.length_append, List.length_singleton]
          omega

theorem levels_visits (wf : WellFormed nodes) {fuel : Nat} {t : Levelling}
    (h : loop (visit nodes) fuel (.init nodes) = some t) :
    ∃ visits : List String, t.visited = visits.length ∧ (∀ v ∈ visits, v ∈ nodeIds nodes) ∧
      ((∀ v ∈ nodeIds nodes, v ∈ visits) ↔ Acyclic (Edge nodes)) ∧
      (Untangled nodes ↔ visits.Nodup) := by
  obtain ⟨visits, visited, sorted, -, untangled⟩ :=
    @loop_visits _ _ wf _ _ _ _ nodes.length tracks_init (sorting_start wf.unique) h
  have within := sorted.within
  rw [List.append_nil] at within
  exact ⟨visits, visited, within, sorted.all_done_iff fun p v edge => wf.edge_within edge,
    untangled (roots_nodup wf.unique) (Nat.le_add_right _ _)⟩

end Arenyxa.Workflow

/-! The two orders of the workflow graph against its cycles. -/

namespace Arenyxa.Workflow

open Loop Topological

variable {γ : Type u} {nodes : List (Node γ)}

theorem workflowGraphModel_eq {strip : String → String} {rows : List (Option (Node γ))}
    (normal : normalizePayload strip rows = .ok nodes) (wf : WellFormed nodes) (fuel : Nat) :
    workflowGraphModel strip fuel rows =
      (loop (visit nodes) fuel (.init nodes)).map fun s =>
        if s.visited = nodes.length then .ok nodes else .error .cycle := by
  rw [workflowGraphModel, normal]
  dsimp only
  rw [wf.checked]
  dsimp only
  rw [topologicalLevels, Option.map_map]
  congr 1
  funext s
  simp only [Function.comp_apply, ↓reduceIte]
  split <;> rfl

theorem accepted_iff {strip : String → String} {rows : List (Option (Node γ))}
    (normal : normalizePayload strip rows = .ok nodes) (wf : WellFormed nodes) {fuel : Nat}
    {s : Levelling} (h : loop (visit nodes) fuel (.init nodes) = some s) :
    (∃ fuel, workflowGraphModel strip fuel rows = some (.ok nodes)) ↔
      s.visited = nodes.length := by
  constructor
  · rintro ⟨fuel', accepted⟩
    rw [workflowGraphModel_eq normal wf] at accepted
    obtain ⟨s', h', result⟩ := Option.map_eq_some_iff.mp accepted
    rw [loop_unique h h']
    by_contra other
    rw [if_neg other] at result
    cases result
  · intro same
    refine ⟨fuel, ?_⟩
    rw [workflowGraphModel_eq normal wf, h, Option.map_some, if_pos same]

section Contract

variable {validateNode : Node γ → Option String}
  (registered : ∀ node ∈ nodes, validateNode node = none)

include registered

theorem foldlM_checkContractNode {seen : List String}
    (unique : (seen ++ nodeIds nodes).Nodup) :
    nodes.foldlM (checkContractNode validateNode) seen = .ok (seen ++ nodeIds nodes) := by
  induction nodes generalizing seen with
  | nil => exact congrArg Except.ok (List.append_nil seen).symm
  | cons node nodes ih =>
    have fresh : node.id ∉ seen := fun old =>
      (List.nodup_append.mp unique).2.2 _ old _ List.mem_cons_self rfl
    have same : seen ++ [node.id] ++ nodeIds nodes = seen ++ nodeIds (node :: nodes) := by
      rw [List.append_assoc, List.singleton_append]
      rfl
    rw [List.foldlM_cons, checkContractNode, registered node List.mem_cons_self]
    dsimp only
    rw [if_neg fresh]
    refine (ih (fun n hn => registered n (List.mem_cons_of_mem _ hn)) ?_).trans ?_
    · rw [same]
      exact unique
    · rw [same]

omit registered in
theorem forM_ok {α : Type*} {l : List α} {f : α → Except ExecutionError PUnit}
    (h : ∀ a ∈ l, f a = .ok ()) : l.forM f = .ok () := by
  induction l with
  | nil => rfl
  | cons a l ih =>
    have rest := ih fun b hb => h b (List.mem_cons_of_mem _ hb)
    show (f a >>= fun _ => l.forM f) = _
    rw [h a List.mem_cons_self]
    exact rest

theorem contract_ok (wf : WellFormed nodes) (some_nodes : nodes ≠ []) :
    validateWorkflowContract validateNode nodes = .ok () := by
  rw [validateWorkflowContract, if_neg some_nodes,
    foldlM_checkContractNode registered (by rw [List.nil_append]; exact wf.unique)]
  exact forM_ok fun node member => forM_ok fun target listed =>
    if_pos (wf.targets node member target listed)

theorem execute_cycle_iff (wf : WellFormed nodes) :
    (∃ fuel blocked, execute validateNode fuel nodes = some (.error (.cycle blocked))) ↔
      ¬Acyclic (Edge nodes) := by
  by_cases some_nodes : nodes = []
  · subst some_nodes
    constructor
    · rintro ⟨fuel, blocked, h⟩
      cases h
    · intro cyclic
      refine absurd (fun v cycle => ?_) cyclic
      obtain ⟨w, ⟨node, member, -⟩, -⟩ := Relation.TransGen.head'_iff.mp cycle
      cases member
  have ok := contract_ok registered wf some_nodes
  obtain ⟨fuel, s, h⟩ := execution_terminates wf
  have complete := execution_complete_iff wf h
  by_cases no_entry : entryNodes nodes = []
  · refine iff_of_true ⟨0, [], ?_⟩ fun acyclic => ?_
    · rw [execute, ok]
      exact if_pos no_entry
    · have start := (executing_init wf.unique).sorting
      rw [show (Execution.init nodes).ready = [] from no_entry] at start
      obtain ⟨node, member⟩ := List.exists_mem_of_ne_nil nodes some_nodes
      have := (start.all_done_iff fun p v edge => wf.edge_within edge).mpr acyclic node.id
        (List.mem_map_of_mem member)
      cases this
  · have result : ∀ fuel, execute validateNode fuel nodes =
        (loop (executeNext nodes) fuel (.init nodes)).map fun s =>
          if s.visited.length = nodes.length then .ok s.visited
          else .error (.cycle (blockedNodes nodes s.visited)) := by
      intro fuel
      rw [execute, ok]
      exact if_neg no_entry
    rw [← complete]
    constructor
    · rintro ⟨fuel', blocked, raised⟩ all
      rw [result] at raised
      obtain ⟨s', h', raised⟩ := Option.map_eq_some_iff.mp raised
      obtain rfl := loop_unique h h'
      rw [if_pos all] at raised
      cases raised
    · intro short
      refine ⟨fuel, blockedNodes nodes s.visited, ?_⟩
      rw [result, h, Option.map_some, if_neg short]

end Contract

/-- On payloads that are well formed the engine reports a cycle exactly where there is one, and
the visual model finishes. It accepts exactly the acyclic graphs as long as they are untangled,
and of the acyclic ones it rejects all that are not. -/
theorem validation_iff_acyclic (strip : String → String) (validateNode : Node γ → Option String)
    (rows : List (Option (Node γ))) (normal : normalizePayload strip rows = .ok nodes)
    (wf : WellFormed nodes) (registered : ∀ node ∈ nodes, validateNode node = none) :
    (Untangled nodes →
      ((∃ fuel, workflowGraphModel strip fuel rows = some (.ok nodes)) ↔ Acyclic (Edge nodes))) ∧
    (Acyclic (Edge nodes) →
      ((∃ fuel, workflowGraphModel strip fuel rows = some (.ok nodes)) ↔ Untangled nodes)) ∧
    (∃ fuel result, workflowGraphModel strip fuel rows = some result) ∧
    ((∃ fuel blocked, execute validateNode fuel nodes = some (.error (.cycle blocked))) ↔
      ¬Acyclic (Edge nodes)) := by
  obtain ⟨fuel, s, h⟩ := levels_terminate wf
  obtain ⟨visits, visited, within, all_iff, untangled_iff⟩ := levels_visits wf h
  have count : nodes.length = (nodeIds nodes).length := (List.length_map _).symm
  rw [accepted_iff normal wf h, visited, count]
  refine ⟨fun untangled => ?_, fun acyclic => ?_, ?_, execute_cycle_iff registered wf⟩
  · rw [length_eq_iff_of_nodup (untangled_iff.mp untangled) wf.unique within]
    exact all_iff
  · rw [length_eq_iff_of_covers wf.unique (all_iff.mpr acyclic) within]
    exact untangled_iff.symm
  · have result := workflowGraphModel_eq normal wf fuel
    rw [h, Option.map_some] at result
    exact ⟨fuel, _, result⟩

section Samples

def sampleNode (id : String) (nextIds : List String) : Node Unit := ⟨"source", (), id, nextIds, []⟩

theorem validation_sample :
    (Untangled [sampleNode "a" ["b"], sampleNode "b" []] →
      ((∃ fuel, workflowGraphModel id fuel [some (sampleNode "a" ["b"]), some (sampleNode "b" [])] =
          some (.ok [sampleNode "a" ["b"], sampleNode "b" []])) ↔
        Acyclic (Edge [sampleNode "a" ["b"], sampleNode "b" []]))) ∧
    (Acyclic (Edge [sampleNode "a" ["b"], sampleNode "b" []]) →
      ((∃ fuel, workflowGraphModel id fuel [some (sampleNode "a" ["b"]), some (sampleNode "b" [])] =
          some (.ok [sampleNode "a" ["b"], sampleNode "b" []])) ↔
        Untangled [sampleNode "a" ["b"], sampleNode "b" []])) ∧
    (∃ fuel result, workflowGraphModel id fuel
      [some (sampleNode "a" ["b"]), some (sampleNode "b" [])] = some result) ∧
    ((∃ fuel blocked, execute (fun _ => none) fuel [sampleNode "a" ["b"], sampleNode "b" []] =
        some (.error (.cycle blocked))) ↔
      ¬Acyclic (Edge [sampleNode "a" ["b"], sampleNode "b" []])) :=
  validation_iff_acyclic id (fun _ => none) [some (sampleNode "a" ["b"]), some (sampleNode "b" [])]
    rfl ⟨by decide, by decide, by decide, by decide, by decide⟩ fun _ _ => rfl

/-- A target listed twice. -/
def twice : List (Node Unit) := [sampleNode "a" ["b", "b"], sampleNode "b" []]

def twiceAndLoop : List (Node Unit) := twice ++ [sampleNode "c" ["c"]]

theorem twice_wellFormed : WellFormed twice :=
  ⟨by decide, by decide, by decide, by decide, by decide⟩

/-- The first graph has no cycle and is rejected for one; the second has one and is accepted. -/
theorem twice_rejected :
    Acyclic (Edge twice) ∧ workflowGraphModel id 4 (twice.map some) = some (.error .cycle) ∧
      ¬Acyclic (Edge twiceAndLoop) ∧
      workflowGraphModel id 4 (twiceAndLoop.map some) = some (.ok twiceAndLoop) := by
  refine ⟨?_, rfl, fun acyclic => ?_, rfl⟩
  · exact (execution_complete_iff twice_wellFormed
      (rfl : loop (executeNext twice) 3 (.init twice) = some _)).mp rfl
  · exact acyclic "c" (.single ⟨sampleNode "c" ["c"], by simp [twiceAndLoop], rfl, .inl (by decide)⟩)

end Samples

end Arenyxa.Workflow
