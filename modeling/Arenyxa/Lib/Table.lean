import Mathlib.Algebra.GroupWithZero.Nat
import Mathlib.Data.List.Nodup

/-! Keyed tables: finite row lists on which the primary key is unique. Statements of a
storage layer (insert, update, delete, select) act on them, and each has one lemma for
point lookups and one for row counts. -/

universe u v

namespace Arenyxa

class Keyed (ρ : Type u) (κ : outParam (Type v)) where
  key : ρ → κ

open Keyed (key)

/-- The rows of a table in insertion order. -/
structure Table (ρ : Type u) {κ : Type v} [Keyed ρ κ] where
  rows : List ρ
  nodup : (rows.map key).Nodup

namespace Table

variable {ρ : Type u} {κ : Type v} [Keyed ρ κ]

def empty : Table ρ := ⟨[], List.nodup_nil⟩

/-- `UPDATE ... WHERE p`. -/
def updateWhere (t : Table ρ) (p : ρ → Bool) (f : ρ → ρ) (hf : ∀ r, key (f r) = key r) :
    Table ρ where
  rows := t.rows.map fun r => if p r then f r else r
  nodup := by
    have h : (t.rows.map fun r => if p r then f r else r).map key = t.rows.map key := by
      rw [List.map_map]
      apply List.map_congr_left
      intro r _
      by_cases hp : p r <;> simp [hp, hf]
    rw [h]
    exact t.nodup

/-- `DELETE ... WHERE NOT p`. -/
def filter (t : Table ρ) (p : ρ → Bool) : Table ρ where
  rows := t.rows.filter p
  nodup := (List.filter_sublist.map key).nodup t.nodup

theorem eq_of_key {l : List ρ} (h : (l.map key).Nodup) {a b : ρ} (ha : a ∈ l) (hb : b ∈ l)
    (hk : key a = key b) : a = b :=
  List.inj_on_of_nodup_map h ha hb hk

theorem countP_filter_of_imp {t : Table ρ} {p q : ρ → Bool}
    (h : ∀ r ∈ t.rows, q r → p r) : (t.filter p).rows.countP q = t.rows.countP q := by
  change (t.rows.filter p).countP q = _
  rw [List.countP_filter]
  apply List.countP_congr
  intro r hr
  constructor
  · intro hq
    exact (Bool.and_eq_true _ _ ▸ hq).1
  · intro hq
    simp [hq, h r hr hq]

theorem countP_updateWhere_of_iff {t : Table ρ} {p q : ρ → Bool} {f : ρ → ρ}
    {hf : ∀ r, key (f r) = key r} (h : ∀ r ∈ t.rows, p r → q (f r) = q r) :
    (t.updateWhere p f hf).rows.countP q = t.rows.countP q := by
  change (t.rows.map _).countP q = _
  rw [List.countP_map]
  apply List.countP_congr
  intro r hr
  by_cases hp : p r
  · simp [hp, h r hr hp]
  · simp [hp]

theorem map_updateWhere {β : Type*} {t : Table ρ} {p : ρ → Bool} {f : ρ → ρ}
    {hf : ∀ r, key (f r) = key r} {g : ρ → β} (hg : ∀ r, g (f r) = g r) :
    (t.updateWhere p f hf).rows.map g = t.rows.map g := by
  change (t.rows.map _).map g = _
  rw [List.map_map]
  apply List.map_congr_left
  intro r _
  by_cases hp : p r <;> simp [hp, hg]

variable [DecidableEq κ]

def get? (t : Table ρ) (k : κ) : Option ρ := t.rows.find? fun r => key r = k

/-- `INSERT`; a row whose key is taken is refused. -/
def insert (t : Table ρ) (r : ρ) : Table ρ :=
  if h : t.get? (key r) = none then
    { rows := t.rows ++ [r]
      nodup := by
        rw [List.map_append, List.nodup_append]
        refine ⟨t.nodup, List.nodup_singleton _, ?_⟩
        intro a ha b hb hab
        obtain ⟨x, hx, rfl⟩ := List.mem_map.mp ha
        have hn := List.find?_eq_none.mp h x hx
        simp_all }
  else t

/-- `UPDATE ... WHERE key = k`. -/
def modify (t : Table ρ) (k : κ) (f : ρ → ρ) (hf : ∀ r, key (f r) = key r) : Table ρ :=
  t.updateWhere (fun r => key r = k) f hf

theorem map_modify {β : Type*} {t : Table ρ} {k : κ} {f : ρ → ρ} {hf : ∀ r, key (f r) = key r}
    {g : ρ → β} (hg : ∀ r, g (f r) = g r) : (t.modify k f hf).rows.map g = t.rows.map g := by
  unfold modify
  exact map_updateWhere hg

theorem get?_some_iff {t : Table ρ} {k : κ} {r : ρ} :
    t.get? k = some r ↔ r ∈ t.rows ∧ key r = k := by
  constructor
  · intro h
    exact ⟨List.mem_of_find?_eq_some h, by simpa using List.find?_some h⟩
  · rintro ⟨hr, rfl⟩
    unfold get?
    cases h : t.rows.find? fun x => key x = key r with
    | none => simpa using List.find?_eq_none.mp h r hr
    | some x =>
      have hx : key x = key r := by simpa using List.find?_some h
      rw [eq_of_key t.nodup (List.mem_of_find?_eq_some h) hr hx]

theorem get?_key {t : Table ρ} {k : κ} {r : ρ} (h : t.get? k = some r) : key r = k :=
  (get?_some_iff.1 h).2

theorem mem_rows_iff {t : Table ρ} {r : ρ} : r ∈ t.rows ↔ t.get? (key r) = some r := by
  simp [get?_some_iff]

theorem get?_none_iff {t : Table ρ} {k : κ} : t.get? k = none ↔ ∀ r ∈ t.rows, key r ≠ k := by
  simp [get?, List.find?_eq_none]

@[simp] theorem get?_empty (k : κ) : (empty : Table ρ).get? k = none := rfl

@[simp] theorem get?_updateWhere {t : Table ρ} {p : ρ → Bool} {f : ρ → ρ}
    {hf : ∀ r, key (f r) = key r} {k : κ} :
    (t.updateWhere p f hf).get? k = (t.get? k).map fun r => if p r then f r else r := by
  unfold get? updateWhere
  rw [List.find?_map]
  congr 1
  congr 1
  funext r
  by_cases hp : p r <;> simp [hp, hf]

theorem get?_modify {t : Table ρ} {k i : κ} {f : ρ → ρ} {hf : ∀ r, key (f r) = key r} :
    (t.modify k f hf).get? i = if i = k then (t.get? i).map f else t.get? i := by
  rw [modify, get?_updateWhere]
  cases h : t.get? i with
  | none => simp
  | some r =>
    have hk := get?_key h
    by_cases hi : i = k <;> simp [hk, hi]

@[simp] theorem get?_modify_self {t : Table ρ} {k : κ} {f : ρ → ρ}
    {hf : ∀ r, key (f r) = key r} : (t.modify k f hf).get? k = (t.get? k).map f := by
  simp [get?_modify]

theorem get?_modify_ne {t : Table ρ} {k i : κ} {f : ρ → ρ} {hf : ∀ r, key (f r) = key r}
    (h : i ≠ k) : (t.modify k f hf).get? i = t.get? i := by
  simp [get?_modify, h]

theorem rows_insert {t : Table ρ} {r : ρ} (h : t.get? (key r) = none) :
    (t.insert r).rows = t.rows ++ [r] := by
  simp [insert, h]

theorem get?_insert {t : Table ρ} {r : ρ} {i : κ} (h : t.get? (key r) = none) :
    (t.insert r).get? i = if i = key r then some r else t.get? i := by
  unfold get? at *
  rw [rows_insert h, List.find?_append]
  by_cases hi : i = key r
  · subst hi
    simp [h]
  · have hr : ¬ key r = i := fun hk => hi hk.symm
    simp [hi, hr]

@[simp] theorem get?_filter {t : Table ρ} {p : ρ → Bool} {k : κ} :
    (t.filter p).get? k = (t.get? k).filter p := by
  cases h : t.get? k with
  | none =>
    rw [get?_none_iff] at h
    simp only [Option.filter_none, get?_none_iff]
    intro r hr
    exact h r (List.mem_of_mem_filter hr)
  | some r =>
    obtain ⟨hr, hk⟩ := get?_some_iff.1 h
    by_cases hp : p r
    · rw [Option.filter_some_pos hp, get?_some_iff]
      exact ⟨List.mem_filter.mpr ⟨hr, hp⟩, hk⟩
    · rw [Option.filter_some_neg (by simpa using hp), get?_none_iff]
      intro x hx hxk
      obtain ⟨hxm, hxp⟩ := List.mem_filter.mp hx
      have := eq_of_key t.nodup hxm hr (hxk.trans hk.symm)
      exact hp (this ▸ hxp)

theorem exists_split {t : Table ρ} {k : κ} {r : ρ} (h : t.get? k = some r) :
    ∃ l₁ l₂, t.rows = l₁ ++ r :: l₂ ∧ ∀ x ∈ l₁ ++ l₂, key x ≠ k := by
  obtain ⟨hr, hk⟩ := get?_some_iff.1 h
  obtain ⟨l₁, l₂, hl⟩ := List.append_of_mem hr
  have hn : ((l₁ ++ r :: l₂).map key).Nodup := hl ▸ t.nodup
  refine ⟨l₁, l₂, hl, ?_⟩
  intro x hx hxk
  rw [List.map_append, List.map_cons, List.nodup_middle, List.nodup_cons] at hn
  apply hn.1
  rw [← List.map_append, hk, ← hxk]
  exact List.mem_map_of_mem hx

theorem rows_modify {t : Table ρ} {k : κ} {f : ρ → ρ} {hf : ∀ r, key (f r) = key r}
    {r : ρ} {l₁ l₂ : List ρ} (rows : t.rows = l₁ ++ r :: l₂) (hr : key r = k)
    (side : ∀ x ∈ l₁ ++ l₂, key x ≠ k) : (t.modify k f hf).rows = l₁ ++ f r :: l₂ := by
  have keep : ∀ l : List ρ, (∀ x ∈ l, key x ≠ k) →
      l.map (fun x => if decide (key x = k) then f x else x) = l := by
    intro l hlk
    apply (List.map_congr_left (g := id) ?_).trans (List.map_id _)
    intro x hx
    simp [hlk x hx]
  change t.rows.map _ = _
  rw [rows, List.map_append, List.map_cons, keep l₁, keep l₂]
  · simp [hr]
  · exact fun x hx => side x (List.mem_append_right _ hx)
  · exact fun x hx => side x (List.mem_append_left _ hx)

theorem countP_modify {t : Table ρ} {k : κ} {f : ρ → ρ} {hf : ∀ r, key (f r) = key r}
    {r : ρ} (h : t.get? k = some r) (q : ρ → Bool) :
    (t.modify k f hf).rows.countP q + (if q r then 1 else 0) =
      t.rows.countP q + (if q (f r) then 1 else 0) := by
  obtain ⟨l₁, l₂, rows, side⟩ := exists_split h
  rw [rows_modify rows (get?_key h) side, rows]
  simp only [List.countP_append, List.countP_cons]
  omega

/-- The rows without the one of a key. -/
def erase (t : Table ρ) (k : κ) : Table ρ := t.filter fun r => key r ≠ k

theorem rows_erase {t : Table ρ} {k : κ} {r : ρ} {l₁ l₂ : List ρ}
    (rows : t.rows = l₁ ++ r :: l₂) (hr : key r = k) (side : ∀ x ∈ l₁ ++ l₂, key x ≠ k) :
    (t.erase k).rows = l₁ ++ l₂ := by
  change t.rows.filter _ = _
  have keep : (l₁ ++ l₂).filter (fun x => decide (key x ≠ k)) = l₁ ++ l₂ :=
    List.filter_eq_self.mpr fun x hx => decide_eq_true (side x hx)
  rw [List.filter_append] at keep
  rw [rows, List.filter_append, List.filter_cons_of_neg (by simp [hr]), keep]

theorem mem_erase {t : Table ρ} {k : κ} {r : ρ} :
    r ∈ (t.erase k).rows ↔ r ∈ t.rows ∧ key r ≠ k := by
  simp [erase, filter]

theorem get?_erase {t : Table ρ} {k i : κ} :
    (t.erase k).get? i = if i = k then none else t.get? i := by
  rw [erase, get?_filter]
  cases h : t.get? i with
  | none => simp
  | some r =>
    have := get?_key h
    by_cases hi : i = k <;> simp [Option.filter, this, hi]

theorem length_erase {t : Table ρ} {k : κ} {r : ρ} (h : t.get? k = some r) :
    (t.erase k).rows.length + 1 = t.rows.length := by
  obtain ⟨l₁, l₂, rows, side⟩ := exists_split h
  rw [rows_erase rows (get?_key h) side, rows]
  simp only [List.length_append, List.length_cons]
  omega

/-- `rows[key] = r` of a dictionary. -/
def assign (t : Table ρ) (r : ρ) : Table ρ :=
  if t.get? (key r) = none then t.insert r
  else t.updateWhere (fun x => key x = key r) (fun x => if key x = key r then r else x) (by
    intro x
    split
    next same => exact same.symm
    next => rfl)

theorem rows_assign_of_mem {t : Table ρ} {r : ρ} (h : t.get? (key r) ≠ none) :
    (t.assign r).rows = t.rows.map fun x => if key x = key r then r else x := by
  rw [assign, if_neg h]
  refine List.map_congr_left fun x _ => ?_
  by_cases same : key x = key r
  · simp [same]
  · simp [same]

theorem mem_assign {t : Table ρ} {r x : ρ} :
    x ∈ (t.assign r).rows ↔ x = r ∨ (x ∈ t.rows ∧ key x ≠ key r) := by
  by_cases h : t.get? (key r) = none
  · have absent := get?_none_iff.1 h
    rw [assign, if_pos h, rows_insert h, List.mem_append, List.mem_singleton, or_comm]
    exact or_congr_right ⟨fun mem => ⟨mem, absent x mem⟩, And.left⟩
  · rw [rows_assign_of_mem h, List.mem_map]
    constructor
    · rintro ⟨y, mem, rfl⟩
      by_cases same : key y = key r
      · exact .inl (by simp [same])
      · exact .inr (by simpa [same] using mem)
    · rintro (rfl | ⟨mem, other⟩)
      · obtain ⟨y, found⟩ := Option.ne_none_iff_exists'.mp h
        obtain ⟨mem, same⟩ := get?_some_iff.1 found
        exact ⟨y, mem, by simp [same]⟩
      · exact ⟨x, mem, by simp [other]⟩

theorem get?_assign {t : Table ρ} {r : ρ} {i : κ} :
    (t.assign r).get? i = if i = key r then some r else t.get? i := by
  split
  next same => exact get?_some_iff.2 ⟨mem_assign.2 (.inl rfl), same.symm⟩
  next other =>
    cases h : t.get? i with
    | none =>
      refine get?_none_iff.2 fun x mem => ?_
      rcases mem_assign.1 mem with rfl | ⟨mem, -⟩
      · exact fun same => other same.symm
      · exact get?_none_iff.1 h x mem
    | some x =>
      obtain ⟨mem, rfl⟩ := get?_some_iff.1 h
      exact get?_some_iff.2 ⟨mem_assign.2 (.inr ⟨mem, other⟩), rfl⟩

theorem length_assign_le (t : Table ρ) (r : ρ) : (t.assign r).rows.length ≤ t.rows.length + 1 := by
  by_cases h : t.get? (key r) = none
  · rw [assign, if_pos h, rows_insert h, List.length_append]
    exact Nat.le_refl _
  · rw [rows_assign_of_mem h, List.length_map]
    exact Nat.le_succ _

section Weights

variable {t : Table ρ} {k : κ} {r : ρ} (w : ρ → Nat)

/-- The total of a weight over the rows. -/
def total (t : Table ρ) (w : ρ → Nat) : Nat := (t.rows.map w).sum

omit [DecidableEq κ] in
@[simp] theorem total_empty : (empty : Table ρ).total w = 0 := rfl

theorem total_insert (h : t.get? (key r) = none) : (t.insert r).total w = t.total w + w r := by
  simp [total, rows_insert h]

theorem total_modify (f : ρ → ρ) (hf : ∀ r, key (f r) = key r) (h : t.get? k = some r) :
    (t.modify k f hf).total w + w r = t.total w + w (f r) := by
  obtain ⟨l₁, l₂, rows, side⟩ := exists_split h
  rw [total, total, rows_modify rows (get?_key h) side, rows]
  simp only [List.map_append, List.map_cons, List.sum_append, List.sum_cons]
  omega

theorem total_erase (h : t.get? k = some r) : (t.erase k).total w + w r = t.total w := by
  obtain ⟨l₁, l₂, rows, side⟩ := exists_split h
  rw [total, total, rows_erase rows (get?_key h) side, rows]
  simp only [List.map_append, List.map_cons, List.sum_append, List.sum_cons]
  omega

end Weights

theorem countP_insert {t : Table ρ} {r : ρ} (h : t.get? (key r) = none) (q : ρ → Bool) :
    (t.insert r).rows.countP q = t.rows.countP q + (if q r then 1 else 0) := by
  rw [rows_insert h, List.countP_append, List.countP_singleton]

/-- `rest` is still a faithful copy of rows of `t`: the rows a loop has read and not yet
processed. -/
def Current (t : Table ρ) (rest : List ρ) : Prop :=
  (rest.map key).Nodup ∧ ∀ r ∈ rest, t.get? (key r) = some r

theorem current_filter (t : Table ρ) (p : ρ → Bool) : t.Current (t.rows.filter p) := by
  refine ⟨(t.filter p).nodup, ?_⟩
  intro r hr
  exact mem_rows_iff.1 (List.mem_of_mem_filter hr)

theorem Current.sublist {t : Table ρ} {l l' : List ρ} (h : t.Current l) (hs : l'.Sublist l) :
    t.Current l' :=
  ⟨(hs.map key).nodup h.1, fun r hr => h.2 r (hs.subset hr)⟩

theorem Current.perm {t : Table ρ} {l l' : List ρ} (h : t.Current l) (hp : l'.Perm l) :
    t.Current l' :=
  ⟨(hp.map key).nodup_iff.mpr h.1, fun r hr => h.2 r (hp.subset hr)⟩

theorem Current.head {t : Table ρ} {r : ρ} {rest : List ρ} (h : t.Current (r :: rest)) :
    t.get? (key r) = some r := h.2 r List.mem_cons_self

theorem Current.tail {t t' : Table ρ} {r : ρ} {rest : List ρ} (h : t.Current (r :: rest))
    (ht : ∀ k, k ≠ key r → t'.get? k = t.get? k) : t'.Current rest := by
  obtain ⟨hn, hc⟩ := h
  rw [List.map_cons, List.nodup_cons] at hn
  refine ⟨hn.2, ?_⟩
  intro x hx
  rw [ht _ ?_]
  · exact hc x (List.mem_cons_of_mem _ hx)
  · intro hk
    exact hn.1 (hk ▸ List.mem_map_of_mem hx)

end Table

end Arenyxa
