import Arenyxa.Lib.Cursor
import Arenyxa.Lib.Dict
import Arenyxa.Lib.SortedSet

/-! The comparison of two dataset revisions. -/

namespace Arenyxa.Lineage

open Lib (Ascending lookup_of_mem)

open Dict (keys lookup_eq_none_iff)

open SortedSet (sortedSet mem_sortedSet)

/-- A dictionary with the order of its keys forgotten. -/
abbrev Object (V : Type) := { items : List (String × V) // Ascending items }

/-- The values of JSON under the equality of the language. -/
structure Values (V : Type) where
  null : V
  eq : V → V → Bool
  eq_null : eq null null = true

structure DatasetRevision (V : Type) where
  records : Object (Object V)
  schema : Object String

structure FieldChange (V : Type) where
  field : String
  before : V
  after : V

structure RevisionDiff (V : Type) where
  added : List (String × Object V)
  removed : List (String × Object V)
  modified : List (String × List (FieldChange V))
  schemaAdded : List (String × String)
  schemaRemoved : List (String × String)
  schemaChanged : List (String × (String × String))

/-- The items whose key the other dictionary has not. -/
def without {α β : Type} (items : List (String × α)) (other : List (String × β)) : List (String × α) :=
  items.filter fun item => item.1 ∉ keys other

variable {V : Type} (lib : Values V)

/-- `record.get(field_name)` -/
def get (record : Object V) (field : String) : V := (record.1.lookup field).getD lib.null

/-- The changes of a record that both revisions have. -/
def changes (old new : Object V) : List (FieldChange V) :=
  (sortedSet (keys old.1 ++ keys new.1)).filterMap fun field =>
    if lib.eq (get lib old field) (get lib new field) then none
    else some ⟨field, get lib old field, get lib new field⟩

def modified (before after : Object (Object V)) : List (String × List (FieldChange V)) :=
  before.1.filterMap fun item =>
    match after.1.lookup item.1 with
    | none => none
    | some new => if (changes lib item.2 new).isEmpty then none else some (item.1, changes lib item.2 new)

def schemaChanged (before after : Object String) : List (String × (String × String)) :=
  before.1.filterMap fun item =>
    match after.1.lookup item.1 with
    | none => none
    | some new => if item.2 = new then none else some (item.1, item.2, new)

def compare (before after : DatasetRevision V) : RevisionDiff V where
  added := without after.records.1 before.records.1
  removed := without before.records.1 after.records.1
  modified := modified lib before.records after.records
  schemaAdded := without after.schema.1 before.schema.1
  schemaRemoved := without before.schema.1 after.schema.1
  schemaChanged := schemaChanged before.schema after.schema

/-- Nothing is reported of the records. -/
def RevisionDiff.Empty (diff : RevisionDiff V) : Prop :=
  diff.added = [] ∧ diff.removed = [] ∧ diff.modified = []

/-- No identity is reported twice. -/
structure RevisionDiff.Apart (diff : RevisionDiff V) : Prop where
  added_removed : ∀ key ∈ keys diff.added, key ∉ keys diff.removed
  added_modified : ∀ key ∈ keys diff.added, key ∉ keys diff.modified
  removed_modified : ∀ key ∈ keys diff.removed, key ∉ keys diff.modified

/-- The diff of two revisions says what the second one holds. -/
structure Telling (before after : DatasetRevision V) : Prop where
  apart : (compare lib before after).Apart
  determined : ∀ other, compare lib before other = compare lib before after → other.records = after.records
  empty : (compare lib before after).Empty ↔ before.records = after.records

section Keys

variable {α β : Type} {items : List (String × α)} {other : List (String × β)} {key : String}

theorem mem_keys_without : key ∈ keys (without items other) ↔ key ∈ keys items ∧ key ∉ keys other := by
  constructor
  · intro mem
    obtain ⟨item, kept, rfl⟩ := List.mem_map.mp mem
    obtain ⟨here, absent⟩ := List.mem_filter.mp kept
    exact ⟨List.mem_map_of_mem here, of_decide_eq_true absent⟩
  · rintro ⟨mem, absent⟩
    obtain ⟨item, here, rfl⟩ := List.mem_map.mp mem
    exact List.mem_map_of_mem (List.mem_filter.mpr ⟨here, decide_eq_true absent⟩)

theorem without_eq_self (apart : ∀ key ∈ keys items, key ∉ keys other) : without items other = items :=
  List.filter_eq_self.mpr fun _ mem => decide_eq_true (apart _ (List.mem_map_of_mem mem))

theorem eq_nil_of_keys (none : ∀ key, key ∉ keys items) : items = [] := by
  cases items with
  | nil => rfl
  | cons item items => exact absurd List.mem_cons_self (none item.1)

theorem lookup_isSome : (∃ value, items.lookup key = some value) ↔ key ∈ keys items := by
  rw [← Option.isSome_iff_exists, ← not_iff_not, ← lookup_eq_none_iff, Option.not_isSome_iff_eq_none]

variable {lib} {before after : Object (Object V)}

theorem mem_keys_modified (mem : key ∈ keys (modified lib before after)) :
    key ∈ keys before.1 ∧ key ∈ keys after.1 := by
  obtain ⟨change, reported, rfl⟩ := List.mem_map.mp mem
  obtain ⟨item, here, change_of⟩ := List.mem_filterMap.mp reported
  split at change_of
  next => cases change_of
  next new found =>
    split at change_of
    next => cases change_of
    next =>
      cases change_of
      refine ⟨List.mem_map_of_mem here, ?_⟩
      by_contra absent
      rw [lookup_eq_none_iff.mpr absent] at found
      cases found

theorem modified_eq_nil (apart : ∀ key ∈ keys before.1, key ∉ keys after.1) :
    modified lib before after = [] := by
  refine eq_nil_of_keys fun key mem => ?_
  obtain ⟨mem, mem'⟩ := mem_keys_modified mem
  exact apart key mem mem'

end Keys

section Names

theorem lt_extended (s : String) : s < s ++ "x" := by
  rw [String.lt_iff_toList_lt, String.toList_append]
  have longer := List.Lex.append_left (· < ·) (List.Lex.nil : List.Lex (· < ·) [] ['x']) s.toList
  rw [List.append_nil] at longer
  exact longer

theorem exists_above (names : List String) : ∃ name, ∀ other ∈ names, other < name := by
  induction names with
  | nil => exact ⟨"", fun _ mem => (nomatch mem)⟩
  | cons first names ih =>
    obtain ⟨name, all⟩ := ih
    refine ⟨max first name ++ "x", fun other mem => ?_⟩
    rcases List.mem_cons.mp mem with rfl | mem
    · exact lt_of_le_of_lt (le_max_left _ _) (lt_extended _)
    · exact lt_of_le_of_lt ((all other mem).le.trans (le_max_right _ _)) (lt_extended _)

theorem pairwise_sortedSet (names : List String) : (sortedSet names).Pairwise (· < ·) := by
  have sorted : (sortedSet names).Pairwise (· ≤ ·) := List.pairwise_insertionSort _ _
  have nodup : (sortedSet names).Nodup := (List.perm_insertionSort _ _).nodup_iff.mpr (List.nodup_dedup _)
  exact (sorted.and nodup).imp fun both => lt_of_le_of_ne both.1 both.2

theorem eq_of_mem_iff {l l' : List String} (sorted : l.Pairwise (· < ·)) (sorted' : l'.Pairwise (· < ·))
    (same : ∀ name, name ∈ l ↔ name ∈ l') : l = l' := by
  have perm : l.Perm l' := (List.perm_ext_iff_of_nodup (sorted.imp ne_of_lt) (sorted'.imp ne_of_lt)).mpr same
  exact perm.eq_of_pairwise (fun _ _ _ _ less more => absurd less more.asymm) sorted sorted'

theorem sortedSet_concat {names : List String} {name : String} (last : ∀ other ∈ names, other < name) :
    sortedSet (names ++ [name]) = sortedSet names ++ [name] := by
  refine eq_of_mem_iff (pairwise_sortedSet _) ?_ fun other => by simp
  refine List.pairwise_append.mpr ⟨pairwise_sortedSet _, List.pairwise_singleton _ _, fun other mem a single => ?_⟩
  rw [List.mem_singleton.mp single]
  exact last other (mem_sortedSet.mp mem)

end Names

section Nulls

variable {lib} {before after old new : Object V} {name : String}

/-- A record with one more field, which is null, behind all others. -/
def widened (lib : Values V) (record : Object V) (name : String) (last : ∀ other ∈ keys record.1, other < name) :
    Object V :=
  ⟨record.1 ++ [(name, lib.null)], List.pairwise_append.mpr ⟨record.2, List.pairwise_singleton _ _,
    fun item mem other single => by
      rw [List.mem_singleton.mp single]
      exact last item.1 (List.mem_map_of_mem mem)⟩⟩

theorem get_absent (absent : name ∉ keys old.1) : get lib old name = lib.null := by
  rw [get, lookup_eq_none_iff.mpr absent]
  rfl

theorem get_widened (last : ∀ other ∈ keys new.1, other < name) (field : String) :
    get lib (widened lib new name last) field = get lib new field := by
  by_cases mem : field ∈ keys new.1
  · rw [get, get, widened, Dict.lookup_append_of_mem mem]
  · rw [get_absent mem, get, widened, Dict.lookup_append_of_not_mem mem, List.lookup_cons]
    cases field == name with
    | true => rfl
    | false => rfl

theorem changes_widened (last : ∀ other ∈ keys new.1, other < name)
    (last' : ∀ other ∈ keys old.1, other < name) :
    changes lib old (widened lib new name last) = changes lib old new := by
  have names : keys (widened lib new name last).1 = keys new.1 ++ [name] := List.map_append
  have above : ∀ other ∈ keys old.1 ++ keys new.1, other < name := fun other mem =>
    (List.mem_append.mp mem).elim (last' other) (last other)
  have silent : lib.eq (get lib old name) (get lib new name) = true := by
    rw [get_absent fun mem => lt_irrefl _ (last' name mem), get_absent fun mem => lt_irrefl _ (last name mem)]
    exact lib.eq_null
  rw [changes, changes, names, ← List.append_assoc, sortedSet_concat above, List.filterMap_append]
  simp only [get_widened, List.filterMap_cons, silent, if_pos, List.filterMap_nil, List.append_nil]

end Nulls

section Law

variable {lib} {before after : DatasetRevision V} {key : String}

/-- A revision with another record under one of its identities. -/
def putRecord (records : Object (Object V)) (key : String) (record : Object V) : Object (Object V) :=
  ⟨records.1.map fun item => if item.1 = key then (key, record) else item, by
    have same (item : String × Object V) : (if item.1 = key then (key, record) else item).1 = item.1 := by
      split
      next own => exact own.symm
      next => rfl
    refine List.pairwise_map.mpr (records.2.imp fun {a b} less => ?_)
    rw [same, same]
    exact less⟩

theorem keys_putRecord (records : Object (Object V)) (key : String) (record : Object V) :
    keys (putRecord records key record).1 = keys records.1 := by
  rw [putRecord, keys, keys, List.map_map]
  refine List.map_congr_left fun item _ => ?_
  by_cases own : item.1 = key <;> simp [own]

theorem without_congr {α β γ : Type} {items : List (String × α)} {other : List (String × β)}
    {other' : List (String × γ)} (same : keys other = keys other') : without items other = without items other' := by
  rw [without, without, same]

theorem without_putRecord {records : Object (Object V)} {record : Object V} {other : List (String × Object V)}
    (mem : key ∈ keys other) : without (putRecord records key record).1 other = without records.1 other := by
  rw [putRecord, without, List.filter_map, without]
  have kept : ∀ item ∈ records.1.filter fun item => item.1 ∉ keys other,
      (if item.1 = key then (key, record) else item) = item := by
    intro item new
    refine if_neg fun own => ?_
    exact of_decide_eq_true (List.mem_filter.mp new).2 (own ▸ mem)
  have same : (fun item : String × Object V => decide (item.1 ∉ keys other)) ∘
      (fun item => if item.1 = key then (key, record) else item) = fun item => decide (item.1 ∉ keys other) := by
    funext item
    by_cases own : item.1 = key <;> simp [own]
  rw [same]
  exact (List.map_congr_left kept).trans (List.map_id _)

theorem modified_putRecord {records others : Object (Object V)} {new record : Object V}
    (found : others.1.lookup key = some new)
    (same : ∀ old, records.1.lookup key = some old → changes lib old record = changes lib old new) :
    modified lib records (putRecord others key record) = modified lib records others := by
  have mem : key ∈ keys others.1 := by
    by_contra absent
    rw [lookup_eq_none_iff.mpr absent] at found
    cases found
  rw [modified, modified]
  refine List.filterMap_congr fun item here => ?_
  rw [putRecord, Dict.lookup_replaced mem]
  by_cases own : item.1 = key
  · have old : records.1.lookup key = some item.2 := by
      rw [← own]
      exact lookup_of_mem records.2 here
    rw [if_pos own, own, found]
    simp only [same item.2 old]
  · rw [if_neg own]

theorem not_determined (lib : Values V) (mem : key ∈ keys before.records.1) (mem' : key ∈ keys after.records.1) :
    ∃ other, compare lib before other = compare lib before after ∧ other.records ≠ after.records := by
  obtain ⟨old, found⟩ := lookup_isSome.2 mem
  obtain ⟨new, found'⟩ := lookup_isSome.2 mem'
  obtain ⟨name, last⟩ := exists_above (keys old.1 ++ keys new.1)
  have last_old : ∀ other ∈ keys old.1, other < name := fun other its => last other (List.mem_append_left _ its)
  have last_new : ∀ other ∈ keys new.1, other < name := fun other its => last other (List.mem_append_right _ its)
  let record := widened lib new name last_new
  refine ⟨⟨putRecord after.records key record, after.schema⟩, ?_, fun same => ?_⟩
  · have changed : modified lib before.records (putRecord after.records key record) =
        modified lib before.records after.records := by
      refine modified_putRecord found' fun other its => ?_
      cases found.symm.trans its
      exact changes_widened last_new last_old
    rw [compare, compare, without_putRecord mem, without_congr (keys_putRecord _ _ _), changed]
  · have replaced := congrArg (fun records : Object (Object V) => records.1.lookup key) same
    simp only [putRecord, Dict.lookup_replaced mem', if_pos, found', Option.some.injEq] at replaced
    have longer := congrArg (fun record : Object V => record.1.length) replaced
    simp [record, widened] at longer

theorem compare_apart (lib : Values V) (before after : DatasetRevision V) : (compare lib before after).Apart where
  added_removed _ mem mem' := (mem_keys_without.1 mem).2 (mem_keys_without.1 mem').1
  added_modified _ mem mem' := (mem_keys_without.1 mem).2 (mem_keys_modified mem').1
  removed_modified _ mem mem' := (mem_keys_without.1 mem).2 (mem_keys_modified mem').2

/-- The diff of two revisions tells the second one apart from all others exactly where they have no
identity in common. -/
theorem compare_tells_iff (lib : Values V) (before after : DatasetRevision V) :
    Telling lib before after ↔ ∀ key ∈ keys before.records.1, key ∉ keys after.records.1 := by
  constructor
  · intro tells key mem mem'
    obtain ⟨other, same, differs⟩ := not_determined lib mem mem'
    exact differs (tells.determined other same)
  · intro apart
    have apart' : ∀ key ∈ keys after.records.1, key ∉ keys before.records.1 := fun key mem mem' =>
      apart key mem' mem
    have added : without after.records.1 before.records.1 = after.records.1 := without_eq_self apart'
    have removed : without before.records.1 after.records.1 = before.records.1 := without_eq_self apart
    refine ⟨compare_apart lib before after, fun other same => ?_, ?_⟩
    · have gone : without before.records.1 other.records.1 = before.records.1 :=
        (congrArg RevisionDiff.removed same).trans removed
      have apart_other : ∀ key ∈ keys other.records.1, key ∉ keys before.records.1 := by
        intro key mem mem'
        rw [← gone] at mem'
        exact (mem_keys_without.1 mem').2 mem
      refine Subtype.ext ?_
      rw [← without_eq_self apart_other, ← added]
      exact congrArg RevisionDiff.added same
    · rw [RevisionDiff.Empty]
      show without _ _ = [] ∧ without _ _ = [] ∧ modified lib _ _ = [] ↔ _
      rw [added, removed, modified_eq_nil apart]
      constructor
      · rintro ⟨none_after, none_before, -⟩
        exact Subtype.ext (none_before.trans none_after.symm)
      · intro same
        have none_before : before.records.1 = [] := by
          refine eq_nil_of_keys fun key mem => apart key mem ?_
          rw [← same]
          exact mem
        exact ⟨same ▸ none_before, none_before, rfl⟩

/-- A field that is null on one side only is not reported. -/
theorem null_field_untold : ¬∀ before after : DatasetRevision (Option Nat), Telling ⟨none, (· == ·), rfl⟩ before after := by
  intro all
  let old : DatasetRevision (Option Nat) := ⟨⟨[("a", ⟨[("x", none)], by decide⟩)], by decide⟩, ⟨[], by decide⟩⟩
  let new : DatasetRevision (Option Nat) := ⟨⟨[("a", ⟨[], by decide⟩)], by decide⟩, ⟨[], by decide⟩⟩
  have same : old.records = new.records := (all old new).empty.mp ⟨by decide, by decide, List.isEmpty_iff.mp (by decide)⟩
  have fields := congrArg (fun records => records.1.map fun item => item.2.1.length) same
  exact absurd fields (by decide)

end Law

end Arenyxa.Lineage
