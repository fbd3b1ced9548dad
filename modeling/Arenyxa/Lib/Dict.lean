import Mathlib.Data.List.Induction
import Mathlib.Data.List.Nodup

/-! Dictionaries that keep the order in which their keys were first put in. -/

universe u v

namespace Arenyxa.Dict

variable {κ : Type u} {ν : Type v} [BEq κ] [LawfulBEq κ]

def keys (d : List (κ × ν)) : List κ := d.map Prod.fst

variable {d e : List (κ × ν)} {key k : κ} {value : ν}

theorem lookup_append_of_mem (mem : k ∈ keys d) : (d ++ e).lookup k = d.lookup k := by
  induction d with
  | nil => exact absurd mem List.not_mem_nil
  | cons item d ih =>
    rw [List.cons_append, List.lookup_cons, List.lookup_cons]
    split
    next => rfl
    next other =>
      rcases List.mem_cons.mp mem with its | later
      · rw [its] at other
        simp at other
      · exact ih later

theorem lookup_append_of_not_mem (absent : k ∉ keys d) : (d ++ e).lookup k = e.lookup k := by
  induction d with
  | nil => rfl
  | cons item d ih =>
    rw [keys, List.map_cons, List.mem_cons, not_or] at absent
    rw [List.cons_append, List.lookup_cons, beq_eq_false_iff_ne.mpr absent.1]
    exact ih absent.2

theorem lookup_eq_none_iff : d.lookup k = none ↔ k ∉ keys d := by
  induction d with
  | nil => exact iff_of_true rfl List.not_mem_nil
  | cons item d ih =>
    rw [keys, List.map_cons, List.mem_cons, not_or, List.lookup_cons]
    by_cases same : k = item.1
    · rw [beq_iff_eq.mpr same]
      exact iff_of_false (Option.some_ne_none _) fun its => its.1 same
    · rw [beq_eq_false_iff_ne.mpr same]
      exact ih.trans (and_iff_right same).symm

variable [DecidableEq κ]

/-- `d[key] = value` -/
def put (d : List (κ × ν)) (key : κ) (value : ν) : List (κ × ν) :=
  if key ∈ keys d then d.map fun item => if item.1 = key then (key, value) else item else d ++ [(key, value)]

/-- The items of another dictionary put in one after the other. -/
def merge (d e : List (κ × ν)) : List (κ × ν) := e.foldl (fun d item => put d item.1 item.2) d

theorem lookup_replaced (mem : key ∈ keys d) :
    (d.map fun item => if item.1 = key then (key, value) else item).lookup k =
      if k = key then some value else d.lookup k := by
  induction d with
  | nil => exact absurd mem List.not_mem_nil
  | cons item d ih =>
    rw [List.map_cons, List.lookup_cons, List.lookup_cons]
    by_cases here : item.1 = key
    · rw [if_pos here]
      by_cases own : k = key
      · rw [beq_iff_eq.mpr own, if_pos own]
      · rw [beq_eq_false_iff_ne.mpr own, if_neg own, here, beq_eq_false_iff_ne.mpr own]
        by_cases later : key ∈ keys d
        · exact (ih later).trans (if_neg own)
        · have kept : (d.map fun item => if item.1 = key then (key, value) else item) = d := by
            refine (List.map_congr_left fun item mem => if_neg fun its => ?_).trans d.map_id
            exact later (its ▸ List.mem_map_of_mem mem)
          rw [kept]
    · rw [if_neg here]
      have later := (List.mem_cons.mp mem).resolve_left fun its => here its.symm
      by_cases own : k = key
      · rw [beq_eq_false_iff_ne.mpr (own ▸ Ne.symm here)]
        exact ih later
      · rw [ih later, if_neg own, if_neg own]

theorem lookup_put : (put d key value).lookup k = if k = key then some value else d.lookup k := by
  unfold put
  split
  next mem => exact lookup_replaced mem
  next absent =>
    by_cases own : k = key
    · rw [if_pos own, own, lookup_append_of_not_mem absent, List.lookup_cons, beq_self_eq_true]
    · rw [if_neg own]
      by_cases mem : k ∈ keys d
      · exact lookup_append_of_mem mem
      · rw [lookup_append_of_not_mem mem, lookup_eq_none_iff.2 mem, List.lookup_cons, beq_eq_false_iff_ne.mpr own,
          List.lookup_nil]

theorem lookup_merge (nodup : (keys e).Nodup) : (merge d e).lookup k = (e.lookup k).or (d.lookup k) := by
  induction e generalizing d with
  | nil => rfl
  | cons item e ih =>
    obtain ⟨fresh, nodup⟩ := List.nodup_cons.mp nodup
    have step : (merge d (item :: e)).lookup k = (e.lookup k).or ((put d item.1 item.2).lookup k) := ih nodup
    rw [step, lookup_put, List.lookup_cons]
    by_cases own : k = item.1
    · rw [if_pos own, beq_iff_eq.mpr own, lookup_eq_none_iff.2 (own ▸ fresh)]
      rfl
    · rw [if_neg own, beq_eq_false_iff_ne.mpr own]

/-- Where keys are put in more than once, the last value stays. -/
theorem lookup_merge_reverse : (merge d e).lookup k = (e.reverse.lookup k).or (d.lookup k) := by
  induction e using List.reverseRecOn with
  | nil => rfl
  | append_singleton e item ih =>
    have step : merge d (e ++ [item]) = put (merge d e) item.1 item.2 := List.foldl_append
    rw [step, lookup_put, List.reverse_append, List.reverse_singleton, List.singleton_append, List.lookup_cons]
    by_cases own : k = item.1
    · rw [if_pos own, beq_iff_eq.mpr own]
      rfl
    · rw [if_neg own, beq_eq_false_iff_ne.mpr own]
      exact ih

theorem nodup_put (nodup : (keys d).Nodup) : (keys (put d key value)).Nodup := by
  unfold put
  split
  next =>
    have kept : keys (d.map fun item => if item.1 = key then (key, value) else item) = keys d := by
      rw [keys, List.map_map]
      refine List.map_congr_left fun item _ => ?_
      by_cases own : item.1 = key <;> simp [own]
    rwa [kept]
  next absent =>
    rw [keys, List.map_append]
    refine List.nodup_append.mpr ⟨nodup, List.nodup_singleton _, fun k mem k' its same => absent ?_⟩
    rwa [same, show k' = key from List.mem_singleton.mp its] at mem

theorem nodup_merge (nodup : (keys d).Nodup) : (keys (merge d e)).Nodup :=
  List.foldlRecOn (motive := fun d => (keys d).Nodup) e _ nodup fun _ nodup _ _ => nodup_put nodup

theorem mem_keys_put : k ∈ keys (put d key value) ↔ k = key ∨ k ∈ keys d := by
  rw [← not_iff_not, ← lookup_eq_none_iff, lookup_put, not_or, ← lookup_eq_none_iff]
  split
  next own => exact iff_of_false (Option.some_ne_none _) fun its => its.1 own
  next other => exact (and_iff_right other).symm

theorem mem_keys_merge (nodup : (keys e).Nodup) : k ∈ keys (merge d e) ↔ k ∈ keys e ∨ k ∈ keys d := by
  rw [← not_iff_not, ← lookup_eq_none_iff, lookup_merge nodup, not_or, ← lookup_eq_none_iff, ← lookup_eq_none_iff,
    Option.or_eq_none_iff]

end Arenyxa.Dict
