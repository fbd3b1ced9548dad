import Mathlib.Data.Set.Card
import Mathlib.Logic.Hydra

/-! Sorting the nodes of a finite graph so that each comes after its parents, by releasing a node
once its parents are done. -/

universe u

namespace Arenyxa.Topological

variable {ι : Type u} (E : ι → ι → Prop)

def Acyclic : Prop := ∀ v, ¬Relation.TransGen E v v

/-- Every node comes after all of its parents. -/
inductive Settles : List ι → Prop
  | nil : Settles []
  | concat {trace : List ι} {v : ι} : Settles trace → (∀ p, E p v → p ∈ trace) →
      Settles (trace ++ [v])

variable {E} {trace done queue rest : List ι} {v : ι}

theorem Settles.append (h : Settles E trace) {more : List ι}
    (parents : ∀ v ∈ more, ∀ p, E p v → p ∈ trace) : Settles E (trace ++ more) := by
  induction more using List.reverseRecOn with
  | nil =>
    rw [List.append_nil]
    exact h
  | append_singleton more v ih =>
    rw [← List.append_assoc]
    refine (ih fun w hw => parents w (List.mem_append_left _ hw)).concat fun p hp => ?_
    exact List.mem_append_left _ (parents v (List.mem_append_right _ List.mem_cons_self) p hp)

theorem Settles.acc (h : Settles E trace) : ∀ v ∈ trace, Acc E v := by
  induction h with
  | nil => exact fun _ never => nomatch never
  | concat _ parents ih =>
    intro w hw
    rcases List.mem_append.mp hw with old | new
    · exact ih w old
    · rw [List.mem_singleton.mp new]
      exact ⟨_, fun p hp => ih p (parents p hp)⟩

theorem acc_irrefl (h : Acc E v) : ¬Relation.TransGen E v v := by
  intro cycle
  have closed : ∀ {w}, Acc (Relation.TransGen E) w → ¬Relation.TransGen E w w := by
    intro w acc
    induction acc with
    | intro w _ ih => exact fun loop => ih w loop loop
  exact closed h.transGen cycle

theorem length_eq_iff_of_nodup {ids : List ι} (once : trace.Nodup) (unique : ids.Nodup)
    (within : ∀ v ∈ trace, v ∈ ids) : trace.length = ids.length ↔ ∀ v ∈ ids, v ∈ trace := by
  refine ⟨fun same v hv => ?_, fun all => ?_⟩
  · exact ((once.subperm within).perm_of_length_le same.ge).mem_iff.mpr hv
  · exact le_antisymm (once.subperm within).length_le (unique.subperm all).length_le

theorem length_eq_iff_of_covers {ids : List ι} (unique : ids.Nodup)
    (all : ∀ v ∈ ids, v ∈ trace) (within : ∀ v ∈ trace, v ∈ ids) :
    trace.length = ids.length ↔ trace.Nodup := by
  refine ⟨fun same => ?_, fun once => (length_eq_iff_of_nodup once unique within).mpr all⟩
  exact ((unique.subperm all).perm_of_length_le same.le).nodup_iff.mp unique

section Finite

variable {ids : List ι} (within : ∀ p v, E p v → p ∈ ids)

include within

theorem ancestors_finite (v : ι) : {x | Relation.TransGen E x v}.Finite := by
  refine ids.finite_toSet.subset fun x hx => ?_
  obtain ⟨w, edge, -⟩ := Relation.TransGen.head'_iff.mp hx
  exact within x w edge

theorem ancestors_lt {p : ι} (edge : E p v) (off : ¬Relation.TransGen E p p) :
    {x | Relation.TransGen E x p}.ncard < {x | Relation.TransGen E x v}.ncard := by
  refine Set.ncard_lt_ncard ⟨fun x hx => Relation.TransGen.tail hx edge, fun sub => ?_⟩
    (ancestors_finite within v)
  exact off (sub (Relation.TransGen.single edge))

theorem Acyclic.wellFounded (acyclic : Acyclic E) : WellFounded E := by
  refine Subrelation.wf (fun {p v} edge => ?_)
    (InvImage.wf (fun v => {x | Relation.TransGen E x v}.ncard) Nat.lt_wfRel.wf)
  exact ancestors_lt within edge (acyclic p)

theorem wellFounded_children : WellFounded fun c p => E p c ∧ Acc E c := by
  refine Subrelation.wf (fun {c p} edge => ?_)
    (InvImage.wf (fun v => ids.length - {x | Relation.TransGen E x v}.ncard) Nat.lt_wfRel.wf)
  have fewer := ancestors_lt within edge.1 (acc_irrefl (edge.2.inv edge.1))
  have bound : {x | Relation.TransGen E x c}.ncard ≤ ids.length := by
    classical
    refine le_trans (Set.ncard_le_ncard (t := (ids.toFinset : Set ι)) ?_ (Finset.finite_toSet _)) ?_
    · intro x hx
      obtain ⟨w, first, -⟩ := Relation.TransGen.head'_iff.mp hx
      exact List.mem_toFinset.mpr (within x w first)
    · rw [Set.ncard_coe_finset]
      exact List.toFinset_card_le ids
  show ids.length - _ < ids.length - _
  omega

end Finite

/-- A sorting between two rounds: what is done, and what waits because its parents are done. -/
structure Sorting (E : ι → ι → Prop) (ids done queue : List ι) : Prop where
  within : ∀ v ∈ done ++ queue, v ∈ ids
  parents : ∀ v ∈ done ++ queue, ∀ p, E p v → p ∈ done
  settles : Settles E (done ++ queue)
  ready : ∀ v ∈ ids, (∀ p, E p v → p ∈ done) → v ∈ done ++ queue

section Rounds

variable {ids : List ι} {current : ι}

theorem Sorting.start {roots : List ι} (h : ∀ v, v ∈ roots ↔ v ∈ ids ∧ ∀ p, ¬E p v) :
    Sorting E ids [] roots where
  within := fun v hv => ((h v).mp hv).1
  parents := fun v hv p edge => absurd edge (((h v).mp hv).2 p)
  settles := Settles.append .nil fun v hv p edge => absurd edge (((h v).mp hv).2 p)
  ready := fun v hv none_left => (h v).mpr ⟨hv, fun p edge => nomatch none_left p edge⟩

theorem Sorting.round (s : Sorting E ids done (current :: rest)) {released : List ι}
    (sound : ∀ v ∈ released, v ∈ ids ∧ ∀ p, E p v → p ∈ done ++ [current])
    (complete : ∀ v ∈ ids, E current v → (∀ p, E p v → p ∈ done ++ [current]) →
      v ∈ done ++ (current :: rest) ∨ v ∈ released) :
    Sorting E ids (done ++ [current]) (rest ++ released) := by
  have same : (done ++ [current]) ++ (rest ++ released) = (done ++ current :: rest) ++ released := by
    simp
  refine ⟨fun v hv => ?_, fun v hv p edge => ?_, ?_, fun v hv all_done => ?_⟩
  · rw [same] at hv
    exact (List.mem_append.mp hv).elim (s.within v) fun new => (sound v new).1
  · rw [same] at hv
    rcases List.mem_append.mp hv with old | new
    · exact List.mem_append_left _ (s.parents v old p edge)
    · exact (sound v new).2 p edge
  · rw [same]
    refine s.settles.append fun v hv p edge => ?_
    rcases List.mem_append.mp ((sound v hv).2 p edge) with old | here
    · exact List.mem_append_left _ old
    · rw [List.mem_singleton.mp here]
      exact List.mem_append_right _ List.mem_cons_self
  · rw [same]
    by_cases edge : E current v
    · exact List.mem_append.mpr (complete v hv edge all_done)
    · refine List.mem_append_left _ (s.ready v hv fun p hp => ?_)
      rcases List.mem_append.mp (all_done p hp) with old | here
      · exact old
      · rw [List.mem_singleton.mp here] at hp
        exact absurd hp edge

theorem Sorting.all_done_iff (s : Sorting E ids done [])
    (edges : ∀ p v, E p v → p ∈ ids ∧ v ∈ ids) : (∀ v ∈ ids, v ∈ done) ↔ Acyclic E := by
  have ready := s.ready
  have settles := s.settles
  rw [List.append_nil] at ready settles
  constructor
  · intro all v cycle
    obtain ⟨w, edge, -⟩ := Relation.TransGen.head'_iff.mp cycle
    exact acc_irrefl (settles.acc v (all v (edges v w edge).1)) cycle
  · intro acyclic v hv
    have wf := acyclic.wellFounded fun p v edge => (edges p v edge).1
    induction v using wf.induction with
    | h v ih => exact ready v hv fun p edge => ih p edge (edges p v edge).1

end Rounds

end Arenyxa.Topological

/-! Reaching a vertex in so many edges, and its distance: the least such number. -/

namespace Arenyxa.Paths

variable {α : Type u} (start : α → Prop) (edge : α → α → Prop)

inductive Reach : Nat → α → Prop
  | start {v : α} (h : start v) : Reach 0 v
  | step {n : Nat} {u v : α} (h : Reach n u) (e : edge u v) : Reach (n + 1) v

def Distance (n : Nat) (v : α) : Prop := Reach start edge n v ∧ ∀ k < n, ¬ Reach start edge k v

variable {start edge} {n m : Nat} {u v : α}

theorem Distance.le (h : Distance start edge n v) (reached : Reach start edge m v) : n ≤ m :=
  Nat.le_of_not_lt fun less => h.2 m less reached

theorem Distance.unique (h : Distance start edge n v) (h' : Distance start edge m v) : n = m :=
  Nat.le_antisymm (h.le h'.1) (h'.le h.1)

theorem Distance.next (h : Distance start edge n u) (e : edge u v) (new : ¬ start v)
    (first : ∀ k < n, ∀ w, Reach start edge k w → ¬ edge w v) : Distance start edge (n + 1) v := by
  refine ⟨h.1.step e, fun k less reached => ?_⟩
  cases reached with
  | start h => exact new h
  | step nearer e => exact first _ (Nat.lt_of_succ_lt_succ less) _ nearer e

end Arenyxa.Paths
