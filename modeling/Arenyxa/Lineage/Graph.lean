import Arenyxa.Lib.Dict
import Arenyxa.Lib.Outcome
import Arenyxa.Lib.Topological
import Arenyxa.Lib.Table
import Mathlib.Data.String.Basic

/-! The lineage graph around an object: a breadth-first search over the lineage tables that stops at a
depth, at a number of nodes, and at a number of edges for each node. -/

namespace Arenyxa.Lineage.Graph

open Paths (Reach)

inductive Direction
  | upstream | downstream | both
  deriving DecidableEq

structure LineageNode where
  id : String
  kind : String
  objectId : String
  label : String
  metadataJson : String

instance : Keyed LineageNode String := ⟨LineageNode.id⟩

structure LineageEdge where
  id : String
  fromNodeId : String
  toNodeId : String
  relation : String
  evidenceJson : String
  deriving DecidableEq

instance : Keyed LineageEdge String := ⟨LineageEdge.id⟩

/-- The tables `lineage_nodes` and `lineage_edges`; an edge refers to nodes. -/
structure LineageTables where
  nodes : Table LineageNode
  edges : Table LineageEdge
  ends : ∀ edge ∈ edges.rows, (nodes.get? edge.fromNodeId).isSome ∧ (nodes.get? edge.toNodeId).isSome

/-- A node as it is returned, with its metadata read. -/
structure NodeView (M : Type) where
  id : String
  kind : String
  objectId : String
  label : String
  metadata : M

/-- An edge as it is returned; the direction is the one in which it was last seen. -/
structure EdgeView (M : Type) where
  id : String
  fromNodeId : String
  toNodeId : String
  relation : String
  downstream : Bool
  evidence : M

/-- A row of `lineage_neighbors`: an edge with the node at its other end. -/
structure Neighbor (M : Type) where
  edge : EdgeView M
  kind : String
  objectId : String
  label : String
  metadata : M

structure LineageGraph (M : Type) where
  root : NodeView M
  nodes : List (NodeView M)
  edges : List (EdgeView M)
  truncated : Bool

section Store

variable {M : Type} (parse : String → M) (t : LineageTables)

def NodeView.ofRow (row : LineageNode) : NodeView M :=
  ⟨row.id, row.kind, row.objectId, row.label, parse row.metadataJson⟩

def EdgeView.ofRow (downstream : Bool) (row : LineageEdge) : EdgeView M :=
  ⟨row.id, row.fromNodeId, row.toNodeId, row.relation, downstream, parse row.evidenceJson⟩

def getLineageNode (casefold : String → String) (kind objectId : String) : Option LineageNode :=
  t.nodes.rows.find? fun row => row.kind = casefold kind ∧ row.objectId = objectId

/-- The edges that leave a node downstream or upstream, in the order of their ids, joined with the nodes
at their other ends. -/
def side (downstream : Bool) (nodeId : String) : List (Neighbor M) :=
  let near (edge : LineageEdge) := if downstream then edge.fromNodeId else edge.toNodeId
  let far (edge : LineageEdge) := if downstream then edge.toNodeId else edge.fromNodeId
  ((t.edges.rows.filter fun edge => near edge = nodeId).insertionSort fun a b => a.id ≤ b.id).filterMap fun edge =>
    (t.nodes.get? (far edge)).map fun node =>
      ⟨EdgeView.ofRow parse downstream edge, node.kind, node.objectId, node.label, parse node.metadataJson⟩

/-- `lineage_neighbors`: each query has the limit, and so has what they give together. -/
def lineageNeighbors (direction : Direction) (limit : Nat) (nodeId : String) : List (Neighbor M) :=
  let cap := max 1 (min 5000 limit)
  let queries := (if direction = .upstream then [] else [true]) ++ (if direction = .downstream then [] else [false])
  (queries.flatMap fun downstream => (side parse t downstream nodeId).take cap).take cap

end Store

section Search

variable {M : Type} (shown : String → List (Neighbor M)) (depthCap nodeCap : Nat)

/-- The local variables of `graph`. The queue is split at the cursor. -/
structure Search (M : Type) where
  passed : List (String × Nat)
  pending : List (String × Nat)
  seen : List String
  nodes : List (String × NodeView M)
  edges : List (String × EdgeView M)
  truncated : Bool

def Neighbor.id (neighbor : Neighbor M) : String :=
  if neighbor.edge.downstream then neighbor.edge.toNodeId else neighbor.edge.fromNodeId

def Neighbor.node (neighbor : Neighbor M) : NodeView M :=
  ⟨neighbor.id, neighbor.kind, neighbor.objectId, neighbor.label, neighbor.metadata⟩

def follow (depth : Nat) (s : Search M) (neighbor : Neighbor M) : Search M :=
  let s := { s with edges := Dict.put s.edges neighbor.edge.id neighbor.edge }
  if neighbor.id ∈ s.seen then s
  else if nodeCap ≤ s.seen.length then { s with truncated := true }
  else { s with
    seen := s.seen ++ [neighbor.id]
    nodes := Dict.put s.nodes neighbor.id neighbor.node
    pending := s.pending ++ [(neighbor.id, depth + 1)] }

def visit (s : Search M) (entry : String × Nat) : Search M :=
  if depthCap ≤ entry.2 then s else (shown entry.1).foldl (follow nodeCap entry.2) s

/-- The loop over the queue. -/
def explore : Nat → Search M → Search M
  | 0, s => s
  | fuel + 1, s =>
    match s.pending with
    | [] => s
    | entry :: rest =>
      explore fuel (visit shown depthCap nodeCap { s with passed := s.passed ++ [entry], pending := rest } entry)

def Search.start (root : NodeView M) : Search M :=
  ⟨[], [(root.id, 0)], [root.id], [(root.id, root)], [], false⟩

end Search

section Service

variable {M : Type} (parse : String → M) (t : LineageTables)

def depthCap (maxDepth : Int) : Nat := (max 0 (min 32 maxDepth)).toNat

def nodeCap (maxNodes : Int) : Nat := (max 1 (min 10000 maxNodes)).toNat

/-- `graph`; no entry of the queue is left behind `nodeCap` rounds. -/
def graph (casefold : String → String) (kind objectId : String) (direction : Direction) (maxDepth maxNodes : Int) :
    Except String (LineageGraph M) :=
  match getLineageNode t casefold kind objectId with
  | none => .error "LINEAGE_NODE_NOT_FOUND"
  | some row =>
    let root := NodeView.ofRow parse row
    let s := explore (lineageNeighbors parse t direction (nodeCap maxNodes)) (depthCap maxDepth) (nodeCap maxNodes)
      (nodeCap maxNodes) (.start root)
    .ok ⟨root, s.nodes.map Prod.snd, s.edges.map Prod.snd, s.truncated⟩

end Service

section Invariant

variable {M : Type} (shown : String → List (Neighbor M)) (depthCap nodeCap : Nat) (root : NodeView M)

/-- A node shows another one. -/
def Shows (v w : String) : Prop := ∃ neighbor ∈ shown v, neighbor.id = w

/-- What holds while the neighbors of a node are followed as well. -/
structure Base (s : Search M) : Prop where
  seen : s.seen = (s.passed ++ s.pending).map Prod.fst
  nodup : s.seen.Nodup
  few : s.seen.length ≤ nodeCap
  reached : ∀ entry ∈ s.passed ++ s.pending, entry.2 ≤ depthCap ∧ Reach (· = root.id) (Shows shown) entry.2 entry.1
  rooted : (root.id, 0) ∈ s.passed ++ s.pending
  names : Dict.keys s.nodes = s.seen
  views : ∀ item ∈ s.nodes, item.2.id = item.1 ∧ (item.2 = root ∨ ∃ v, ∃ neighbor ∈ shown v, item.2 = neighbor.node)
  edges : ∀ item ∈ s.edges, item.2.id = item.1 ∧ ∃ entry ∈ s.passed, entry.2 < depthCap ∧
    ∃ neighbor ∈ shown entry.1, neighbor.edge = item.2
  full : s.truncated = true → s.seen.length = nodeCap ∧
    ∃ w, w ∉ s.seen ∧ ∃ n ≤ depthCap, Reach (· = root.id) (Shows shown) n w

/-- A neighbor has been followed from a depth. -/
def Followed (s : Search M) (depth : Nat) (neighbor : Neighbor M) : Prop :=
  neighbor.edge.id ∈ Dict.keys s.edges ∧
    (s.truncated = true ∨ ∃ e ≤ depth + 1, (neighbor.id, e) ∈ s.passed ++ s.pending)

/-- The entries that are passed are closed under what they show, and the depths grow along the queue. -/
structure Inv (s : Search M) : Prop where
  base : Base shown depthCap nodeCap root s
  closed : ∀ entry ∈ s.passed, entry.2 < depthCap → ∀ neighbor ∈ shown entry.1, Followed s entry.2 neighbor
  sorted : s.pending.Pairwise fun a b => a.2 ≤ b.2
  level : ∀ first ∈ s.pending.head?, ∀ entry ∈ s.passed ++ s.pending, entry.2 ≤ first.2 + 1

variable {shown depthCap nodeCap root}

theorem mem_put {ν : Type} {d : List (String × ν)} {key : String} {value : ν} {item : String × ν}
    (mem : item ∈ Dict.put d key value) : item = (key, value) ∨ item ∈ d := by
  rw [Dict.put] at mem
  split at mem
  next =>
    obtain ⟨old, its, same⟩ := List.mem_map.mp mem
    split at same
    next => exact .inl same.symm
    next => exact .inr (same ▸ its)
  next => exact (List.mem_append.mp mem).elim .inr fun its => .inl (List.mem_singleton.mp its)

theorem keys_put_new {ν : Type} {d : List (String × ν)} {key : String} (value : ν) (absent : key ∉ Dict.keys d) :
    Dict.keys (Dict.put d key value) = Dict.keys d ++ [key] := by
  rw [Dict.put, if_neg absent, Dict.keys, List.map_append]
  rfl

theorem Base.entry_of_seen {s : Search M} (base : Base shown depthCap nodeCap root s) {v : String} (mem : v ∈ s.seen) :
    ∃ e, (v, e) ∈ s.passed ++ s.pending := by
  rw [base.seen] at mem
  obtain ⟨entry, its, rfl⟩ := List.mem_map.mp mem
  exact ⟨entry.2, its⟩

theorem start_inv (some_room : 1 ≤ nodeCap) : Inv shown depthCap nodeCap root (.start root) where
  base := {
    seen := rfl
    nodup := List.nodup_singleton _
    few := some_room
    reached := fun entry mem => by
      rw [List.mem_singleton.mp mem]
      exact ⟨Nat.zero_le _, .start rfl⟩
    rooted := List.mem_cons_self
    names := rfl
    views := fun item mem => by
      rw [List.mem_singleton.mp mem]
      exact ⟨rfl, .inl rfl⟩
    edges := fun item mem => (nomatch mem)
    full := fun h => (nomatch h) }
  closed := fun entry mem => (nomatch mem)
  sorted := List.pairwise_singleton _ _
  level := fun first mem entry mem' => by
    cases mem
    rw [List.mem_singleton.mp mem']
    exact Nat.le_succ _

/-- What has happened since an entry was passed, with the neighbors that are still to be followed. -/
structure Following (shown : String → List (Neighbor M)) (depthCap nodeCap : Nat) (root : NodeView M)
    (entry : String × Nat) (s₀ : Search M) (rest : List (Neighbor M)) (s : Search M) : Prop where
  base : Base shown depthCap nodeCap root s
  passed : s.passed = s₀.passed
  pending : ∃ new, s.pending = s₀.pending ++ new ∧ ∀ added ∈ new, added.2 = entry.2 + 1
  edges : ∀ key ∈ Dict.keys s₀.edges, key ∈ Dict.keys s.edges
  truncated : s₀.truncated = true → s.truncated = true
  closed : ∀ neighbor ∈ shown entry.1, neighbor ∈ rest ∨ Followed s entry.2 neighbor

theorem Followed.mono {s s' : Search M} {depth : Nat} {neighbor : Neighbor M} (followed : Followed s depth neighbor)
    (edges : ∀ key ∈ Dict.keys s.edges, key ∈ Dict.keys s'.edges) (truncated : s.truncated = true → s'.truncated = true)
    (entries : ∀ entry ∈ s.passed ++ s.pending, entry ∈ s'.passed ++ s'.pending) : Followed s' depth neighbor :=
  ⟨edges _ followed.1, followed.2.imp truncated fun ⟨e, le, mem⟩ => ⟨e, le, entries _ mem⟩⟩

theorem base_put {s : Search M} {entry : String × Nat} {neighbor : Neighbor M} (base : Base shown depthCap nodeCap root s)
    (passed : entry ∈ s.passed) (inside : entry.2 < depthCap) (mem : neighbor ∈ shown entry.1) :
    Base shown depthCap nodeCap root { s with edges := Dict.put s.edges neighbor.edge.id neighbor.edge } :=
  { base with
    edges := fun item its => by
      rcases mem_put its with rfl | its
      · exact ⟨rfl, entry, passed, inside, neighbor, mem, rfl⟩
      · exact base.edges item its }

theorem follow_step {entry : String × Nat} {s₀ s : Search M} {neighbor : Neighbor M} {rest : List (Neighbor M)}
    (passed : entry ∈ s₀.passed) (inside : entry.2 < depthCap)
    (level : ∀ other ∈ s₀.passed ++ s₀.pending, other.2 ≤ entry.2 + 1) (sub : ∀ other ∈ neighbor :: rest, other ∈ shown entry.1)
    (so_far : Following shown depthCap nodeCap root entry s₀ (neighbor :: rest) s) :
    Following shown depthCap nodeCap root entry s₀ rest (follow nodeCap entry.2 s neighbor) := by
  have mem : neighbor ∈ shown entry.1 := sub neighbor List.mem_cons_self
  have here : entry ∈ s.passed := so_far.passed ▸ passed
  have base := base_put so_far.base here inside mem
  obtain ⟨new, pending, depths⟩ := so_far.pending
  have recorded : neighbor.edge.id ∈ Dict.keys (Dict.put s.edges neighbor.edge.id neighbor.edge) :=
    Dict.mem_keys_put.mpr (.inl rfl)
  have kept : ∀ key ∈ Dict.keys s.edges, key ∈ Dict.keys (Dict.put s.edges neighbor.edge.id neighbor.edge) :=
    fun key its => Dict.mem_keys_put.mpr (.inr its)
  have rest_closed {s' : Search M} (own : Followed s' entry.2 neighbor)
      (mono : ∀ other, Followed s entry.2 other → Followed s' entry.2 other) :
      ∀ other ∈ shown entry.1, other ∈ rest ∨ Followed s' entry.2 other := by
    intro other its
    rcases so_far.closed other its with waiting | followed
    · rcases List.mem_cons.mp waiting with rfl | waiting
      · exact .inr own
      · exact .inl waiting
    · exact .inr (mono other followed)
  rw [follow]
  dsimp only
  split
  next seen =>
    obtain ⟨e, entries⟩ := so_far.base.entry_of_seen seen
    have low : e ≤ entry.2 + 1 := by
      rw [so_far.passed, pending, ← List.append_assoc] at entries
      rcases List.mem_append.mp entries with old | added
      · exact level _ old
      · exact (depths _ added).le
    exact ⟨base, so_far.passed, ⟨new, pending, depths⟩, fun key its => kept key (so_far.edges key its), so_far.truncated,
      rest_closed ⟨recorded, .inr ⟨e, low, entries⟩⟩ fun other followed => followed.mono kept id fun _ its => its⟩
  next unseen =>
    have reaches : Reach (· = root.id) (Shows shown) (entry.2 + 1) neighbor.id :=
      (so_far.base.reached entry (List.mem_append_left _ here)).2.step ⟨neighbor, mem, rfl⟩
    split
    next full =>
      have whole : s.seen.length = nodeCap := Nat.le_antisymm so_far.base.few full
      refine ⟨{ base with full := fun _ => ⟨whole, neighbor.id, unseen, entry.2 + 1, inside, reaches⟩ }, so_far.passed,
        ⟨new, pending, depths⟩, fun key its => kept key (so_far.edges key its), fun _ => rfl, ?_⟩
      exact rest_closed ⟨recorded, .inl rfl⟩ fun other followed => followed.mono kept (fun _ => rfl) fun _ its => its
    next room =>
      have absent : neighbor.id ∉ Dict.keys s.nodes := so_far.base.names ▸ unseen
      have more : ∀ other ∈ s.passed ++ s.pending, other ∈ s.passed ++ (s.pending ++ [(neighbor.id, entry.2 + 1)]) :=
        fun other its => List.append_assoc _ _ _ ▸ List.mem_append_left _ its
      have added : (neighbor.id, entry.2 + 1) ∈ s.passed ++ (s.pending ++ [(neighbor.id, entry.2 + 1)]) :=
        List.mem_append_right _ (List.mem_append_right _ List.mem_cons_self)
      refine ⟨⟨?_, ?_, ?_, ?_, more _ so_far.base.rooted, ?_, ?_, base.edges, ?_⟩, so_far.passed, ⟨new ++ [(neighbor.id, entry.2 + 1)], ?_, ?_⟩,
        fun key its => kept key (so_far.edges key its), so_far.truncated, ?_⟩
      · simp only [so_far.base.seen, List.map_append, List.map_cons, List.map_nil, List.append_assoc]
      · refine List.nodup_append.mpr ⟨so_far.base.nodup, List.nodup_singleton _, fun v its w single same => unseen ?_⟩
        rw [← List.mem_singleton.mp single, ← same]
        exact its
      · rw [List.length_append]
        exact Nat.lt_of_not_le room
      · intro other its
        rw [← List.append_assoc] at its
        rcases List.mem_append.mp its with its | its
        · exact so_far.base.reached other its
        · rw [List.mem_singleton.mp its]
          exact ⟨inside, reaches⟩
      · rw [keys_put_new _ absent, so_far.base.names]
      · intro item its
        rcases mem_put its with rfl | its
        · exact ⟨rfl, .inr ⟨entry.1, neighbor, mem, rfl⟩⟩
        · exact so_far.base.views item its
      · intro truncated
        have short := (so_far.base.full truncated).1
        omega
      · rw [pending, List.append_assoc]
      · intro other its
        rcases List.mem_append.mp its with its | its
        · exact depths other its
        · rw [List.mem_singleton.mp its]
      · exact rest_closed ⟨recorded, .inr ⟨entry.2 + 1, Nat.le_refl _, added⟩⟩
          fun other followed => followed.mono kept id more

theorem follow_all {entry : String × Nat} {s₀ : Search M} (passed : entry ∈ s₀.passed) (inside : entry.2 < depthCap)
    (level : ∀ other ∈ s₀.passed ++ s₀.pending, other.2 ≤ entry.2 + 1) (rest : List (Neighbor M)) {s : Search M}
    (sub : ∀ other ∈ rest, other ∈ shown entry.1) (so_far : Following shown depthCap nodeCap root entry s₀ rest s) :
    Following shown depthCap nodeCap root entry s₀ [] (rest.foldl (follow nodeCap entry.2) s) := by
  induction rest generalizing s with
  | nil => exact so_far
  | cons neighbor rest ih =>
    exact ih (fun other mem => sub other (List.mem_cons_of_mem _ mem)) (follow_step passed inside level sub so_far)

theorem visit_inv {s : Search M} {entry : String × Nat} {rest : List (String × Nat)} (next : s.pending = entry :: rest)
    (inv : Inv shown depthCap nodeCap root s) :
    Inv shown depthCap nodeCap root
      (visit shown depthCap nodeCap { s with passed := s.passed ++ [entry], pending := rest } entry) ∧
    (visit shown depthCap nodeCap { s with passed := s.passed ++ [entry], pending := rest } entry).passed =
      s.passed ++ [entry] := by
  have same : s.passed ++ [entry] ++ rest = s.passed ++ s.pending := by rw [next, List.append_assoc]; rfl
  have sorted := inv.sorted
  rw [next] at sorted
  obtain ⟨later, sorted⟩ := List.pairwise_cons.mp sorted
  have level : ∀ other ∈ s.passed ++ [entry] ++ rest, other.2 ≤ entry.2 + 1 := fun other mem =>
    inv.level entry (by rw [next]; rfl) other (same ▸ mem)
  have base : Base shown depthCap nodeCap root { s with passed := s.passed ++ [entry], pending := rest } := {
    inv.base with
    seen := by rw [same]; exact inv.base.seen
    reached := fun other mem => inv.base.reached other (same ▸ mem)
    rooted := same.symm ▸ inv.base.rooted
    edges := fun item mem => by
      obtain ⟨named, other, its, shows⟩ := inv.base.edges item mem
      exact ⟨named, other, List.mem_append_left _ its, shows⟩ }
  have kept {depth : Nat} {neighbor : Neighbor M} (followed : Followed s depth neighbor) :
      Followed { s with passed := s.passed ++ [entry], pending := rest } depth neighbor :=
    followed.mono (fun _ mem => mem) id fun other mem => same.symm ▸ mem
  rw [visit]
  split
  next deep =>
    refine ⟨⟨base, fun other mem inside neighbor shows => ?_, sorted, fun first is_first other mem => ?_⟩, rfl⟩
    · rcases List.mem_append.mp mem with mem | mem
      · exact kept (inv.closed other mem inside neighbor shows)
      · rw [List.mem_singleton.mp mem] at inside
        exact absurd inside (Nat.not_lt.mpr deep)
    · have ahead := later first (List.mem_of_mem_head? is_first)
      exact (level other mem).trans (Nat.succ_le_succ ahead)
  next shallow =>
    have inside : entry.2 < depthCap := Nat.lt_of_not_le shallow
    have here : entry ∈ s.passed ++ [entry] := List.mem_append_right _ List.mem_cons_self
    have all := follow_all here inside level (shown entry.1) (fun _ mem => mem)
      ⟨base, rfl, ⟨[], (List.append_nil _).symm, fun _ mem => (nomatch mem)⟩, fun _ mem => mem, id, fun _ mem => .inl mem⟩
    obtain ⟨new, pending, depths⟩ := all.pending
    refine ⟨⟨all.base, fun other mem inside' neighbor shows => ?_, ?_, fun first is_first other mem => ?_⟩, all.passed⟩
    · rw [all.passed] at mem
      rcases List.mem_append.mp mem with mem | mem
      · refine (kept (inv.closed other mem inside' neighbor shows)).mono all.edges all.truncated fun old its => ?_
        rw [all.passed, pending, ← List.append_assoc]
        exact List.mem_append_left _ its
      · rw [List.mem_singleton.mp mem] at shows ⊢
        exact (all.closed neighbor shows).resolve_left fun its => (nomatch its)
    · rw [pending]
      refine List.pairwise_append.mpr ⟨sorted, ?_, fun old mem added mem' => ?_⟩
      · exact List.pairwise_of_forall_mem_list fun a mem b mem' => (depths a mem).le.trans (depths b mem').ge
      · rw [depths added mem']
        exact level old (List.mem_append_right _ mem)
    · have low : entry.2 ≤ first.2 := by
        rw [pending] at is_first
        rcases List.mem_append.mp (List.mem_of_mem_head? is_first) with old | added
        · exact later first old
        · rw [depths first added]
          exact Nat.le_succ _
      rw [all.passed, pending, ← List.append_assoc] at mem
      rcases List.mem_append.mp mem with old | added
      · exact (level other old).trans (Nat.succ_le_succ low)
      · rw [depths other added]
        exact Nat.succ_le_succ low

theorem explore_inv (fuel : Nat) {s : Search M} (inv : Inv shown depthCap nodeCap root s) :
    Inv shown depthCap nodeCap root (explore shown depthCap nodeCap fuel s) := by
  fun_induction explore shown depthCap nodeCap fuel s with
  | case1 => exact inv
  | case2 => exact inv
  | case3 fuel s entry rest next ih => exact ih (visit_inv next inv).1

theorem explore_done (fuel : Nat) {s : Search M} (inv : Inv shown depthCap nodeCap root s)
    (enough : nodeCap ≤ s.passed.length + fuel) : (explore shown depthCap nodeCap fuel s).pending = [] := by
  have short {s : Search M} (inv : Inv shown depthCap nodeCap root s) : s.passed.length + s.pending.length ≤ nodeCap := by
    have few := inv.base.few
    rwa [inv.base.seen, List.length_map, List.length_append] at few
  fun_induction explore shown depthCap nodeCap fuel s with
  | case1 s =>
    have few := short inv
    exact List.eq_nil_of_length_eq_zero (by omega)
  | case2 fuel s done => exact done
  | case3 fuel s entry rest next ih =>
    obtain ⟨inv', passed⟩ := visit_inv next inv
    refine ih inv' ?_
    rw [passed, List.length_append, List.length_singleton]
    omega

theorem explored {s : Search M} (inv : Inv shown depthCap nodeCap root s) (done : s.pending = [])
    (whole : s.truncated = false) {v : String} {n : Nat} (reach : Reach (· = root.id) (Shows shown) n v)
    (inside : n ≤ depthCap) : ∃ e ≤ n, (v, e) ∈ s.passed := by
  have passed {entry : String × Nat} (mem : entry ∈ s.passed ++ s.pending) : entry ∈ s.passed := by
    rwa [done, List.append_nil] at mem
  induction reach with
  | start its =>
    rw [its]
    exact ⟨0, Nat.le_refl _, passed inv.base.rooted⟩
  | @step n u v _ shows ih =>
    obtain ⟨e, low, mem⟩ := ih (Nat.le_of_succ_le inside)
    obtain ⟨neighbor, its, rfl⟩ := shows
    obtain ⟨-, truncated | ⟨e', low', mem'⟩⟩ := inv.closed (u, e) mem (Nat.lt_of_le_of_lt low inside) neighbor its
    · rw [whole] at truncated
      cases truncated
    · exact ⟨e', low'.trans (Nat.succ_le_succ low), passed mem'⟩

end Invariant

section Tables

variable {M : Type} (parse : String → M) (t : LineageTables) (direction : Direction)

/-- An edge leaves a node downstream or upstream, as far as that is asked for. -/
def LeavesAs (downstream : Bool) (v : String) (edge : LineageEdge) : Prop :=
  if downstream then direction ≠ .upstream ∧ edge.fromNodeId = v else direction ≠ .downstream ∧ edge.toNodeId = v

def Leaves (v : String) (edge : LineageEdge) : Prop := ∃ downstream, LeavesAs direction downstream v edge

def farEnd (downstream : Bool) (edge : LineageEdge) : String := if downstream then edge.toNodeId else edge.fromNodeId

/-- One step along the direction. -/
def Steps (v w : String) : Prop :=
  ∃ edge ∈ t.edges.rows, ∃ downstream, LeavesAs direction downstream v edge ∧ farEnd downstream edge = w

variable {parse t direction}

theorem LeavesAs.nearEnd {downstream : Bool} {v : String} {edge : LineageEdge}
    (leaves : LeavesAs direction downstream v edge) : v = farEnd (!downstream) edge := by
  cases downstream with
  | true => exact leaves.2.symm
  | false => exact leaves.2.symm

theorem mem_lineageNeighbors {limit : Nat} {v : String} {neighbor : Neighbor M}
    (mem : neighbor ∈ lineageNeighbors parse t direction limit v) :
    ∃ downstream, ∃ edge ∈ t.edges.rows, LeavesAs direction downstream v edge ∧
      neighbor.edge = EdgeView.ofRow parse downstream edge ∧ neighbor.id = farEnd downstream edge ∧
      ∃ row ∈ t.nodes.rows, neighbor.node = NodeView.ofRow parse row := by
  obtain ⟨downstream, asked, mem⟩ := List.mem_flatMap.mp (List.mem_of_mem_take mem)
  obtain ⟨edge, listed, joined⟩ := List.mem_filterMap.mp (List.mem_of_mem_take mem)
  obtain ⟨here, near⟩ := List.mem_filter.mp ((List.mem_insertionSort _).mp listed)
  obtain ⟨row, found, rfl⟩ := Option.map_eq_some_iff.mp joined
  obtain ⟨mem_row, key⟩ := Table.get?_some_iff.mp found
  refine ⟨downstream, edge, here, ?_, rfl, ?_, row, mem_row, ?_⟩
  · cases downstream with
    | true =>
      refine ⟨fun its => ?_, of_decide_eq_true near⟩
      subst its
      exact absurd asked (by decide)
    | false =>
      refine ⟨fun its => ?_, of_decide_eq_true near⟩
      subst its
      exact absurd asked (by decide)
  · cases downstream <;> rfl
  · have named : row.id = if downstream then edge.toNodeId else edge.fromNodeId := key
    cases downstream with
    | true => exact congrArg (fun id => (⟨id, row.kind, row.objectId, row.label, parse row.metadataJson⟩ : NodeView M)) named.symm
    | false => exact congrArg (fun id => (⟨id, row.kind, row.objectId, row.label, parse row.metadataJson⟩ : NodeView M)) named.symm

theorem steps_of_shows {limit : Nat} {v w : String} (shows : Shows (lineageNeighbors parse t direction limit) v w) :
    Steps t direction v w := by
  obtain ⟨neighbor, mem, rfl⟩ := shows
  obtain ⟨downstream, edge, here, leaves, -, far, -⟩ := mem_lineageNeighbors mem
  exact ⟨edge, here, downstream, leaves, far.symm⟩

theorem reach_mono {α : Type} {start : α → Prop} {edge edge' : α → α → Prop} (sub : ∀ u v, edge u v → edge' u v) {n : Nat}
    {v : α} (reach : Reach start edge n v) : Reach start edge' n v := by
  induction reach with
  | start its => exact .start its
  | step _ its ih => exact ih.step (sub _ _ its)

end Tables

section Law

variable {M : Type} (parse : String → M) (t : LineageTables) (casefold : String → String) (kind objectId : String)
  (direction : Direction) (maxDepth maxNodes : Int) (root : LineageNode)

/-- What is asked of a lineage graph. -/
structure Complete (result : LineageGraph M) : Prop where
  distinct : (result.nodes.map NodeView.id).Nodup
  nodes : ∀ node ∈ result.nodes, (∃ row ∈ t.nodes.rows, node = NodeView.ofRow parse row) ∧
    ∃ n ≤ depthCap maxDepth, Reach (· = root.id) (Steps t direction) n node.id
  edges : ∀ edge ∈ result.edges, ∃ row ∈ t.edges.rows, ∃ downstream v, edge = EdgeView.ofRow parse downstream row ∧
    LeavesAs direction downstream v row ∧ ∃ n < depthCap maxDepth, Reach (· = root.id) (Steps t direction) n v
  few : (result.nodes.length : Int) ≤ maxNodes
  all : result.truncated = false →
    (∀ v, ∀ n ≤ depthCap maxDepth, Reach (· = root.id) (Steps t direction) n v → ∃ node ∈ result.nodes, node.id = v) ∧
    ∀ row ∈ t.edges.rows, ∀ v, ∀ n < depthCap maxDepth, Reach (· = root.id) (Steps t direction) n v →
      Leaves direction v row → ∃ edge ∈ result.edges, edge.id = row.id

/-- The edges that a node hands out to the search. -/
def handedOut (v : String) : List (Neighbor M) := lineageNeighbors parse t direction (nodeCap maxNodes) v

/-- More nodes than the search may return are within its depth. -/
def Overflows : Prop :=
  ∃ ids : List String, ids.Nodup ∧ nodeCap maxNodes < ids.length ∧
    ∀ v ∈ ids, ∃ n ≤ depthCap maxDepth, Reach (· = root.id) (Shows (handedOut parse t direction maxNodes)) n v

/-- No edge above the depth is cut off by the limit on the edges of a node, unless its other end hands it out. -/
def Uncut : Prop :=
  ∀ row ∈ t.edges.rows, ∀ v, ∀ n < depthCap maxDepth, Reach (· = root.id) (Steps t direction) n v →
    Leaves direction v row → ∃ w, ∃ m < depthCap maxDepth,
      Reach (· = root.id) (Shows (handedOut parse t direction maxNodes)) m w ∧
        ∃ neighbor ∈ handedOut parse t direction maxNodes w, neighbor.edge.id = row.id

variable {parse t casefold kind objectId direction maxDepth maxNodes root}

/-- The final state of the search around a root. -/
def searched (parse : String → M) (t : LineageTables) (direction : Direction) (maxDepth maxNodes : Int)
    (root : LineageNode) : Search M :=
  explore (handedOut parse t direction maxNodes) (depthCap maxDepth) (nodeCap maxNodes) (nodeCap maxNodes)
    (.start (.ofRow parse root))

theorem one_le_nodeCap (maxNodes : Int) : 1 ≤ nodeCap maxNodes := by
  rw [nodeCap]
  omega

theorem searched_inv (parse : String → M) (t : LineageTables) (direction : Direction) (maxDepth maxNodes : Int)
    (root : LineageNode) : Inv (handedOut parse t direction maxNodes) (depthCap maxDepth) (nodeCap maxNodes)
    (.ofRow parse root) (searched parse t direction maxDepth maxNodes root) :=
  explore_inv _ (start_inv (one_le_nodeCap maxNodes))

theorem searched_done : (searched parse t direction maxDepth maxNodes root).pending = [] :=
  explore_done _ (start_inv (one_le_nodeCap maxNodes)) (Nat.le_add_left _ _)

theorem nodes_seen : ((searched parse t direction maxDepth maxNodes root).nodes.map Prod.snd).map NodeView.id =
    (searched parse t direction maxDepth maxNodes root).seen := by
  have inv := searched_inv parse t direction maxDepth maxNodes root
  rw [← inv.base.names, Dict.keys, List.map_map]
  exact List.map_congr_left fun item mem => (inv.base.views item mem).1

theorem truncated_iff : (searched parse t direction maxDepth maxNodes root).truncated = true ↔
    Overflows parse t direction maxDepth maxNodes root := by
  have inv := searched_inv parse t direction maxDepth maxNodes root
  constructor
  · intro truncated
    obtain ⟨length, w, unseen, reaches⟩ := inv.base.full truncated
    refine ⟨w :: (searched parse t direction maxDepth maxNodes root).seen, List.nodup_cons.mpr ⟨unseen, inv.base.nodup⟩, ?_, ?_⟩
    · rw [List.length_cons, length]
      exact Nat.lt_succ_self _
    · refine List.forall_mem_cons.mpr ⟨reaches, fun v mem => ?_⟩
      obtain ⟨e, entry⟩ := inv.base.entry_of_seen mem
      exact ⟨e, inv.base.reached _ entry⟩
  · rintro ⟨ids, nodup, many, reaches⟩
    by_contra stopped
    have sub : ids ⊆ (searched parse t direction maxDepth maxNodes root).seen := by
      intro v mem
      obtain ⟨n, inside, reach⟩ := reaches v mem
      obtain ⟨e, -, entry⟩ := explored inv searched_done (Bool.not_eq_true _ ▸ stopped) reach inside
      rw [inv.base.seen]
      exact List.mem_map_of_mem (f := Prod.fst) (List.mem_append_left _ entry)
    have few := (List.subperm_of_subset nodup sub).length_le.trans inv.base.few
    omega

/-- The lineage graph is complete exactly where a node may be returned, and the nodes are too many and reported
so or no edge is cut off. -/
theorem graph_complete_iff (found : getLineageNode t casefold kind objectId = some root) :
    ∃ result, graph parse t casefold kind objectId direction maxDepth maxNodes = .ok result ∧
      (Complete parse t direction maxDepth maxNodes root result ↔
        1 ≤ maxNodes ∧ (Overflows parse t direction maxDepth maxNodes root ∨ Uncut parse t direction maxDepth maxNodes root)) := by
  have inv := searched_inv parse t direction maxDepth maxNodes root
  have mem_root : root ∈ t.nodes.rows := List.mem_of_find?_eq_some found
  let s := searched parse t direction maxDepth maxNodes root
  have passed {entry : String × Nat} (mem : entry ∈ s.passed ++ s.pending) : entry ∈ s.passed := by
    rwa [show s.pending = [] from searched_done, List.append_nil] at mem
  have seen_iff {v : String} : v ∈ s.seen ↔ ∃ node ∈ s.nodes.map Prod.snd, node.id = v := by
    rw [← show _ = s.seen from nodes_seen, List.mem_map]
  have steps {n : Nat} {v : String} (reach : Reach (· = root.id) (Shows (handedOut parse t direction maxNodes)) n v) :
      Reach (· = root.id) (Steps t direction) n v := reach_mono (fun _ _ => steps_of_shows) reach
  refine ⟨⟨.ofRow parse root, s.nodes.map Prod.snd, s.edges.map Prod.snd, s.truncated⟩, ?_, fun complete => ?_, ?_⟩
  · rw [graph, found]
    rfl
  · refine ⟨?_, or_iff_not_imp_left.mpr fun room row mem v n inside reach leaves => ?_⟩
    · have here : root.id ∈ s.seen := by
        rw [inv.base.seen]
        exact List.mem_map_of_mem (f := Prod.fst) inv.base.rooted
      obtain ⟨node, mem, -⟩ := seen_iff.mp here
      have some_node := List.length_pos_of_mem mem
      have few : ((s.nodes.map Prod.snd).length : Int) ≤ maxNodes := complete.few
      omega
    · have whole : s.truncated = false := Bool.eq_false_iff.mpr fun truncated => room (truncated_iff.1 truncated)
      obtain ⟨edge, mem_edge, named⟩ := (complete.all whole).2 row mem v n inside reach leaves
      obtain ⟨item, its, rfl⟩ := List.mem_map.mp mem_edge
      obtain ⟨-, entry, mem_entry, low, neighbor, handed, same⟩ := inv.base.edges item its
      refine ⟨entry.1, entry.2, low, (inv.base.reached entry (List.mem_append_left _ mem_entry)).2, neighbor, handed, ?_⟩
      rw [same, named]
  · rintro ⟨positive, cut⟩
    refine ⟨?_, fun node mem => ?_, fun edge mem => ?_, ?_, fun whole => ?_⟩
    · rw [show _ = s.seen from nodes_seen]
      exact inv.base.nodup
    · obtain ⟨e, entry⟩ := inv.base.entry_of_seen (seen_iff.mpr ⟨node, mem, rfl⟩)
      obtain ⟨inside, reach⟩ := inv.base.reached _ entry
      refine ⟨?_, e, inside, steps reach⟩
      obtain ⟨item, its, rfl⟩ := List.mem_map.mp mem
      rcases (inv.base.views item its).2 with is_root | ⟨v, neighbor, handed, same⟩
      · exact ⟨root, mem_root, is_root⟩
      · obtain ⟨-, -, -, -, -, -, row, mem_row, view⟩ := mem_lineageNeighbors handed
        exact ⟨row, mem_row, same.trans view⟩
    · obtain ⟨item, its, rfl⟩ := List.mem_map.mp mem
      obtain ⟨-, entry, mem_entry, low, neighbor, handed, same⟩ := inv.base.edges item its
      obtain ⟨downstream, row, mem_row, leaves, view, -⟩ := mem_lineageNeighbors handed
      exact ⟨row, mem_row, downstream, entry.1, same.symm.trans view, leaves, entry.2, low,
        steps (inv.base.reached entry (List.mem_append_left _ mem_entry)).2⟩
    · have count : (s.nodes.map Prod.snd).length = s.seen.length := by
        rw [← show (s.nodes.map Prod.snd).map NodeView.id = s.seen from nodes_seen, List.length_map (f := NodeView.id)]
      have cap : (nodeCap maxNodes : Int) ≤ maxNodes := by
        rw [nodeCap]
        omega
      show ((s.nodes.map Prod.snd).length : Int) ≤ maxNodes
      rw [count]
      have few : s.seen.length ≤ nodeCap maxNodes := inv.base.few
      omega
    · have uncut := cut.resolve_left fun overflows => Bool.false_ne_true (whole.symm.trans (truncated_iff.2 overflows))
      have edges_all (row : LineageEdge) (mem : row ∈ t.edges.rows) (v : String) (n : Nat) (inside : n < depthCap maxDepth)
          (reach : Reach (· = root.id) (Steps t direction) n v) (leaves : Leaves direction v row) :
          ∃ w, ∃ e < depthCap maxDepth, (w, e) ∈ s.passed ∧
            ∃ neighbor ∈ handedOut parse t direction maxNodes w, neighbor.edge.id = row.id := by
        obtain ⟨w, m, low, handed, neighbor, its, same⟩ := uncut row mem v n inside reach leaves
        obtain ⟨e, le, entry⟩ := explored inv searched_done whole handed low.le
        exact ⟨w, e, lt_of_le_of_lt le low, entry, neighbor, its, same⟩
      constructor
      · intro v n inside reach
        refine seen_iff.mp ?_
        rw [inv.base.seen]
        cases reach with
        | start its =>
          rw [its]
          exact List.mem_map_of_mem (f := Prod.fst) inv.base.rooted
        | @step n u v before step =>
          obtain ⟨row, mem, downstream, leaves, far⟩ := step
          obtain ⟨w, e, low, entry, neighbor, handed, same⟩ := edges_all row mem u n inside before ⟨downstream, leaves⟩
          obtain ⟨downstream', row', mem', leaves', view, far', -⟩ := mem_lineageNeighbors handed
          have own : row' = row := by
            rw [view] at same
            exact Table.eq_of_key t.edges.nodup mem' mem same
          rw [own] at leaves' far'
          rw [← far]
          by_cases way : downstream' = downstream
          · obtain ⟨-, truncated | ⟨e', -, its⟩⟩ := inv.closed (w, e) entry low neighbor handed
            · exact absurd (whole.symm.trans truncated) Bool.false_ne_true
            · rw [← way, ← far']
              exact List.mem_map_of_mem (f := Prod.fst) its
          · -- the edge is handed out at its other end
            rw [Bool.eq_not_of_ne (Ne.symm way), ← leaves'.nearEnd]
            exact List.mem_map_of_mem (f := Prod.fst) (List.mem_append_left _ entry)
      · intro row mem v n inside reach leaves
        obtain ⟨w, e, low, entry, neighbor, handed, same⟩ := edges_all row mem v n inside reach leaves
        have recorded := (inv.closed (w, e) entry low neighbor handed).1
        obtain ⟨item, its, key⟩ := List.mem_map.mp recorded
        refine ⟨item.2, List.mem_map_of_mem its, ?_⟩
        rw [(inv.base.edges item its).1, key, same]

end Law

section Parallel

/-- Two parallel edges stand before the one to a third node. -/
def parallelTables : LineageTables where
  nodes := ⟨[⟨"a", "run", "1", "", ""⟩, ⟨"b", "revision", "2", "", ""⟩, ⟨"c", "revision", "3", "", ""⟩], by decide⟩
  edges := ⟨[⟨"e1", "a", "b", "produced", ""⟩, ⟨"e2", "a", "b", "derived", ""⟩, ⟨"e3", "a", "c", "produced", ""⟩], by decide⟩
  ends := by decide

theorem graph_complete_parallel : ∃ result, graph (fun _ => ()) parallelTables id "run" "1" .downstream 1 2 = .ok result ∧
    (Complete (fun _ => ()) parallelTables .downstream 1 2 ⟨"a", "run", "1", "", ""⟩ result ↔
      1 ≤ (2 : Int) ∧ (Overflows (fun _ => ()) parallelTables .downstream 1 2 ⟨"a", "run", "1", "", ""⟩ ∨
        Uncut (fun _ => ()) parallelTables .downstream 1 2 ⟨"a", "run", "1", "", ""⟩)) :=
  graph_complete_iff rfl

/-- The third node is left out, and nothing says so. -/
theorem omitted_untold : ¬∀ (t : LineageTables) (kind objectId : String) (direction : Direction) (maxDepth maxNodes : Int)
    (root : LineageNode) (result : LineageGraph Unit), getLineageNode t id kind objectId = some root →
      graph (fun _ => ()) t id kind objectId direction maxDepth maxNodes = .ok result →
        Complete (fun _ => ()) t direction maxDepth maxNodes root result := by
  intro all
  have complete := all parallelTables "run" "1" .downstream 1 2 ⟨"a", "run", "1", "", ""⟩ _ rfl rfl
  have step : Steps parallelTables .downstream "a" "c" :=
    ⟨⟨"e3", "a", "c", "produced", ""⟩, by decide, true, ⟨by decide, rfl⟩, rfl⟩
  have first : Reach (· = "a") (Steps parallelTables .downstream) 0 "a" := .start rfl
  have reach : Reach (· = "a") (Steps parallelTables .downstream) 1 "c" := first.step step
  obtain ⟨node, mem, named⟩ := (complete.all rfl).1 "c" 1 (by decide) reach
  have listed : "c" ∈ ["a", "b"] := named ▸ List.mem_map_of_mem (f := NodeView.id) mem
  exact absurd listed (by decide)

end Parallel

end Arenyxa.Lineage.Graph
