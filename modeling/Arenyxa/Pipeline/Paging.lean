import Arenyxa.Lib.Cursor
import Arenyxa.Pipeline.Immutability

/-! The records of a revision, read page by page. -/

namespace Arenyxa.Pipeline

open Lib Outcome Table

variable {ρ : Type}

/-- `json.loads`, which turns what `json.dumps` has written into a normal form. -/
structure Format (ρ : Type) extends Codec ρ where
  loads : String → Option ρ
  normal : ρ → ρ
  loads_dumps : ∀ {a text}, dumps a = some text → loads text = some (normal a)
  loads_dumpsSorted : ∀ {a text}, dumpsSorted a = some text → loads text = some (normal a)
  loads_dumpsCompact : ∀ {a text}, dumpsCompact a = some text → loads text = some (normal a)
  isObject_normal : ∀ a, isObject (normal a) = isObject a

def corrupt : StoreError := .arenyxa "DATASET_REVISION_CORRUPT"

section Reading

variable (f : Format ρ)

/-- The schema of a revision. The other column it parses is the text of a list of strings. -/
def getRevisionMetadata (id : String) (includeIncomplete : Bool) (s : Store) : Except StoreError (Option ρ) :=
  match s.revisions.get? id with
  | none => .ok none
  | some r =>
    if includeIncomplete = false ∧ r.buildState ≠ .ready then .ok none
    else match f.loads r.schemaJson with
      | none => .error corrupt
      | some schema => .ok (some schema)

/-- The rows in the order of their identities, each under its own. -/
def ordered (t : RecordTable) : List (String × RevisionRecord) :=
  (t.rows.map fun row => (row.identity, row)).insertionSort fun a b => a.1 ≤ b.1

def fetchPage (t : RecordTable) (lastIdentity : String) (pageSize : Nat) : List (String × RevisionRecord) :=
  (above (ordered t) lastIdentity).take pageSize

def readRow (row : String × RevisionRecord) : Except StoreError (String × ρ) :=
  match f.loads row.2.dataJson with
  | none => .error corrupt
  | some data => do
    require (f.isObject data = true) corrupt
    return (row.1, data)

theorem ordered_perm (t : RecordTable) : (ordered t).Perm (t.rows.map fun row => (row.identity, row)) :=
  List.perm_insertionSort _ _

theorem ordered_ascending (t : RecordTable) : Ascending (ordered t) := by
  have sorted : (ordered t).Pairwise fun a b => a.1 ≤ b.1 := List.pairwise_insertionSort _ _
  have nodup : ((ordered t).map Prod.fst).Nodup := by
    rw [((ordered_perm t).map Prod.fst).nodup_iff, List.map_map]
    exact t.nodup
  exact (sorted.and (List.pairwise_map.mp nodup)).imp fun ⟨le, ne⟩ => lt_of_le_of_ne le ne

theorem above_page {t : RecordTable} {lastIdentity : String} {pageSize : Nat} {row : String × RevisionRecord}
    (last : (fetchPage t lastIdentity pageSize).getLast? = some row) :
    above (ordered t) row.1 = (above (ordered t) lastIdentity).drop pageSize := by
  have ahead := (mem_above.mp (List.mem_of_mem_take (List.mem_of_getLast? last))).2
  rw [← above_last ((ordered_ascending t).above _) last, above_above ahead.le]

/-- The loop of `iter_revision_records`: what it yields, unless it raises. -/
def iterPages (t : RecordTable) (pageSize : Nat) (lastIdentity : String) : Except StoreError (List (String × ρ)) :=
  match _last : (fetchPage t lastIdentity pageSize).getLast? with
  | none => .ok []
  | some row => do
    let records ← (fetchPage t lastIdentity pageSize).mapM (readRow f)
    let later ← iterPages t pageSize row.1
    return records ++ later
termination_by (above (ordered t) lastIdentity).length
decreasing_by
  have page : fetchPage t lastIdentity pageSize ≠ [] := fun empty => by simp [empty] at _last
  rw [fetchPage, ne_eq, List.take_eq_nil_iff, not_or] at page
  rw [above_page _last, List.length_drop]
  have := List.length_pos_iff.mpr page.2
  omega

def iterRevisionRecords (id afterIdentity : String) (pageSize : Int) (includeIncomplete : Bool) (s : Store) :
    Except StoreError (List (String × ρ)) := do
  require (0 < pageSize) (.value "page_size must be a positive integer")
  match ← getRevisionMetadata f id includeIncomplete s, s.revisions.get? id with
  | some _, some r => iterPages f r.records (min pageSize 10000).toNat afterIdentity
  | _, _ => .error revisionNotFound

theorem iterPages_eq {t : RecordTable} {pageSize : Nat} (positive : 0 < pageSize) (lastIdentity : String) :
    iterPages f t pageSize lastIdentity = (above (ordered t) lastIdentity).mapM (readRow f) := by
  induction lastIdentity using iterPages.induct t pageSize with
  | case1 lastIdentity last =>
    have empty : above (ordered t) lastIdentity = [] := by
      rw [List.getLast?_eq_none_iff, fetchPage, List.take_eq_nil_iff] at last
      exact last.resolve_left positive.ne'
    rw [iterPages]
    split
    next => rw [empty]; rfl
    next row found => cases last.symm.trans found
  | case2 lastIdentity row last ih =>
    rw [iterPages]
    split
    next none => cases last.symm.trans none
    next found =>
      cases last.symm.trans found
      rw [ih, above_page last]
      conv_rhs => rw [← List.take_append_drop pageSize (above (ordered t) lastIdentity), List.mapM_append]
      rfl

end Reading

section Writing

variable (f : Format ρ)

/-- The records of a revision after others are written to it. -/
def stored (m : String → Option ρ) (records : List (String × ρ)) : String → Option ρ :=
  records.foldl (fun m record => Function.update m record.1 (some record.2)) m

/-- What the writers have stored in each revision, under each identity. -/
def record (m : String → String → Option ρ) : Op ρ → String → String → Option ρ
  | .saveRevision new => Function.update m new.id (stored (m new.id) new.records)
  | .appendRevisionRecords id records _ _ => Function.update m id (stored (m id) records)
  | _ => m

def recorded (log : List (Store × Op ρ × Reply)) : String → String → Option ρ :=
  log.foldl (fun m step => record m step.2.1) fun _ _ => none

/-- The rows of a revision hold the texts of its records. -/
def Reads (t : RecordTable) (m : String → Option ρ) : Prop :=
  ∀ identity, (t.get? identity).map (fun row => f.loads row.dataJson) = (m identity).map fun data => some (f.normal data)

def Carries (record : String × ρ) (row : RevisionRecord) : Prop :=
  row.identity = record.1 ∧ f.loads row.dataJson = some (f.normal record.2)

variable {f} {t t' : RecordTable} {m : String → Option ρ} {row : RevisionRecord}
  {write : RecordTable → RevisionRecord → Except StoreError RecordTable}

theorem get?_insertRow (h : insertRow t row = .ok t') (identity : String) :
    t'.get? identity = if identity = row.identity then some row else t.get? identity := by
  rw [insertRow] at h
  split at h
  next fresh =>
    cases h
    exact get?_insert fresh
  next => cases h

theorem Reads.step {record : String × ρ} (reads : Reads f t m) (either : write = insertRow ∨ write = upsertRow)
    (h : write t row = .ok t') (carries : Carries f record row) :
    Reads f t' (Function.update m record.1 (some record.2)) := by
  obtain ⟨own, text⟩ := carries
  intro other
  have written : (t'.get? other).map (fun row => f.loads row.dataJson) =
      if other = record.1 then some (f.loads row.dataJson) else (t.get? other).map fun row => f.loads row.dataJson := by
    rw [← own]
    rcases either with rfl | rfl
    · rw [get?_insertRow h]
      split <;> rfl
    · rw [upsertRow] at h
      split at h
      next fresh =>
        cases h
        rw [get?_insert fresh]
        change Option.map _ (if other = row.identity then _ else _) = _
        split <;> rfl
      next here =>
        cases h
        rw [get?_modify]
        split
        next same =>
          obtain ⟨old, found⟩ := Option.ne_none_iff_exists'.mp here
          rw [same, found]
          rfl
        next => rfl
  rw [written, Function.update_apply, text]
  split
  · rfl
  · exact reads other

theorem foldlM_reads {records : List (String × ρ)} {batch : List RevisionRecord}
    (either : write = insertRow ∨ write = upsertRow) (carries : List.Forall₂ (Carries f) records batch) :
    ∀ {t t' : RecordTable} {m}, Reads f t m → batch.foldlM write t = .ok t' → Reads f t' (stored m records) := by
  induction carries with
  | nil =>
    intro t t' m reads h
    cases h
    exact reads
  | cons fits _ ih =>
    intro t t' m reads h
    rw [List.foldlM_cons] at h
    obtain ⟨t₁, first, h⟩ := bind_eq_ok.mp h
    exact ih (reads.step either first fits) h

theorem writeBatches_reads {size : Nat} {encode : String × ρ → Except StoreError RevisionRecord}
    (either : write = insertRow ∨ write = upsertRow) (encodes : ∀ record row, encode record = .ok row → Carries f record row)
    (records : List (String × ρ)) {n : Nat} {batch : List RevisionRecord} {held : List (String × ρ)}
    (pending : List.Forall₂ (Carries f) held batch) (reads : Reads f t m)
    (h : writeBatches write size encode records batch t = .ok (t', n)) : Reads f t' (stored m (held ++ records)) := by
  induction records generalizing batch held t m n with
  | nil =>
    rw [List.append_nil]
    obtain ⟨t₁, done, h⟩ := bind_eq_ok.mp h
    cases h
    exact foldlM_reads either pending reads done
  | cons record rest ih =>
    rw [writeBatches] at h
    obtain ⟨row, encoded, h⟩ := bind_eq_ok.mp h
    have full : List.Forall₂ (Carries f) (held ++ [record]) (batch ++ [row]) :=
      List.rel_append pending (.cons (encodes record row encoded) .nil)
    rw [List.append_cons]
    split at h
    · obtain ⟨t₁, done, h⟩ := bind_eq_ok.mp h
      obtain ⟨⟨t₂, total⟩, later, h⟩ := bind_eq_ok.mp h
      cases h
      have last := ih .nil (foldlM_reads either full reads done) later
      rw [stored, stored, List.nil_append, ← List.foldl_append] at last
      exact last
    · exact ih full reads h

theorem encoded_eq_ok {text : Option String} {raw : String} : encoded text = .ok raw ↔ text = some raw := by
  cases text with
  | none => exact ⟨nofun, nofun⟩
  | some text => exact ⟨fun its => by cases its; rfl, fun its => by cases its; rfl⟩

theorem encodeRecord_carries (record : String × ρ) (row : RevisionRecord) (h : encodeRecord f.toCodec record = .ok row) :
    Carries f record row := by
  obtain ⟨_, -, h⟩ := bind_eq_ok.mp h
  obtain ⟨raw, text, h⟩ := bind_eq_ok.mp h
  cases h
  exact ⟨rfl, f.loads_dumpsCompact (encoded_eq_ok.1 text)⟩

end Writing

section Runs

variable {f : Format ρ} {s s' : Store} {m : String → String → Option ρ} {r r' : Revision} {id : String}

/-- The store holds what was written, and its schemas can be read. -/
structure Holds (f : Format ρ) (m : String → String → Option ρ) (s : Store) : Prop where
  absent : ∀ id, s.revisions.get? id = none → ∀ identity, m id identity = none
  present : ∀ id r, s.revisions.get? id = some r → Reads f r.records (m id) ∧ ∃ schema, f.loads r.schemaJson = some schema

theorem Holds.same (holds : Holds f m s) (same : s'.revisions = s.revisions) : Holds f m s' := by
  constructor <;> rw [same]
  · exact holds.absent
  · exact holds.present

theorem Holds.insert {n : String → Option ρ} (holds : Holds f m s) (h : insertRevision s r = .ok s')
    (reads : Reads f r.records n) (schema : ∃ schema, f.loads r.schemaJson = some schema) :
    Holds f (Function.update m r.id n) s' := by
  obtain ⟨_, fresh, h⟩ := bind_eq_ok.mp h
  cases h
  rw [require_eq_ok] at fresh
  have written (other : String) : (s.revisions.insert r).get? other = if other = r.id then some r else s.revisions.get? other :=
    get?_insert fresh
  constructor
  · intro other none identity
    change (s.revisions.insert r).get? other = _ at none
    rw [written] at none
    split at none
    · cases none
    next away =>
      rw [Function.update_of_ne away]
      exact holds.absent other none identity
  · intro other r' found
    change (s.revisions.insert r).get? other = _ at found
    rw [written] at found
    split at found
    next same =>
      cases found
      rw [same, Function.update_self]
      exact ⟨reads, schema⟩
    next away =>
      rw [Function.update_of_ne away]
      exact holds.present other r' found

theorem Holds.update {g : Revision → Revision} {n : String → Option ρ} (holds : Holds f m s)
    (here : s.revisions.get? id = some r) (hg : ∀ r, Keyed.key (g r) = Keyed.key r) (reads : Reads f (g r).records n)
    (schema : ∃ schema, f.loads (g r).schemaJson = some schema) :
    Holds f (Function.update m id n) (updateRevision s id g hg) := by
  have written (other : String) : (updateRevision s id g hg).revisions.get? other =
      if other = id then (s.revisions.get? other).map g else s.revisions.get? other :=
    (get?_modify : (s.revisions.modify id g hg).get? other = _)
  constructor
  · intro other none identity
    rw [written] at none
    split at none
    next same =>
      rw [same, here] at none
      cases none
    next away =>
      rw [Function.update_of_ne away]
      exact holds.absent other none identity
  · intro other r' found
    rw [written] at found
    split at found
    next same =>
      rw [same, here] at found
      cases found
      rw [same, Function.update_self]
      exact ⟨reads, schema⟩
    next away =>
      rw [Function.update_of_ne away]
      exact holds.present other r' found

/-- A change to a revision that keeps its records and its schema readable. -/
theorem Holds.keep {g : Revision → Revision} (holds : Holds f m s) (here : s.revisions.get? id = some r)
    (hg : ∀ r, Keyed.key (g r) = Keyed.key r) (records : (g r).records = r.records)
    (schema : ∃ schema, f.loads (g r).schemaJson = some schema) : Holds f m (updateRevision s id g hg) := by
  have kept := holds.update (n := m id) here hg (by rw [records]; exact (holds.present id r here).1) schema
  rwa [Function.update_eq_self] at kept

theorem Holds.recover (holds : Holds f m s) : Holds f m (recoverInterruptedPipelineState s) := by
  have written (id : String) : (recoverInterruptedPipelineState s).revisions.get? id =
      (s.revisions.get? id).map fun r => if r.buildState = .building then r.setState .interrupted else r := by
    refine (get?_updateWhere : (s.revisions.updateWhere (fun r => r.buildState = .building)
      (Revision.setState .interrupted) (Revision.key_setState .interrupted)).get? id = _).trans ?_
    simp only [decide_eq_true_eq]
  constructor
  · intro id none
    rw [written, Option.map_eq_none_iff] at none
    exact holds.absent id none
  · intro id r found
    rw [written, Option.map_eq_some_iff] at found
    obtain ⟨old, here, rfl⟩ := found
    split
    · exact holds.present id old here
    · exact holds.present id old here

/-- A committed call leaves in the store what it is recorded to write. -/
theorem Holds.step {op : Op ρ} {reply : Reply} (holds : Holds f m s) (h : op.exec f.toCodec s = .ok (reply, s')) :
    Holds f (record m op) s' := by
  cases op with
  | saveRevision new =>
    obtain ⟨t, done, h⟩ := bind_eq_ok.mp h
    cases h
    obtain ⟨schema, text, done⟩ := bind_eq_ok.mp done
    obtain ⟨⟨rows, _⟩, written, done⟩ := bind_eq_ok.mp done
    have fresh : s.revisions.get? new.id = none := by
      obtain ⟨_, fresh, -⟩ := bind_eq_ok.mp done
      exact require_eq_ok.mp fresh
    have empty : Reads f .empty (m new.id) := fun identity => by rw [holds.absent new.id fresh identity]; rfl
    have encodes (item : String × ρ) (row : RevisionRecord) (h : (do
        let raw ← encoded (f.dumpsSorted item.2)
        return (⟨item.1, raw, f.sha256 raw⟩ : RevisionRecord) : Except StoreError RevisionRecord) = .ok row) :
        Carries f item row := by
      obtain ⟨raw, text, h⟩ := bind_eq_ok.mp h
      cases h
      exact ⟨rfl, f.loads_dumpsSorted (encoded_eq_ok.1 text)⟩
    exact holds.insert done (writeBatches_reads (.inl rfl) encodes new.records .nil empty written)
      ⟨_, f.loads_dumps (encoded_eq_ok.1 text)⟩
  | beginRevisionBuild new =>
    obtain ⟨t, done, h⟩ := bind_eq_ok.mp h
    cases h
    obtain ⟨schema, text, done⟩ := bind_eq_ok.mp done
    have fresh : s.revisions.get? new.id = none := by
      obtain ⟨_, fresh, -⟩ := bind_eq_ok.mp done
      exact require_eq_ok.mp fresh
    have empty : Reads f .empty (m new.id) := fun identity => by rw [holds.absent new.id fresh identity]; rfl
    have kept := holds.insert done empty ⟨_, f.loads_dumps (encoded_eq_ok.1 text)⟩
    rwa [Function.update_eq_self] at kept
  | appendRevisionRecords id records replace batchSize =>
    obtain ⟨⟨n, t⟩, done, h⟩ := bind_eq_ok.mp h
    cases h
    obtain ⟨_, -, done⟩ := bind_eq_ok.mp done
    obtain ⟨r, here, done⟩ := bind_eq_ok.mp done
    obtain ⟨_, -, done⟩ := bind_eq_ok.mp done
    obtain ⟨⟨rows, total⟩, written, done⟩ := bind_eq_ok.mp done
    cases done
    rw [revision_eq_ok] at here
    obtain ⟨reads, schema⟩ := holds.present id r here
    have either : (if replace then upsertRow else insertRow) = insertRow ∨
        (if replace then upsertRow else insertRow) = upsertRow := by
      cases replace
      · exact .inl rfl
      · exact .inr rfl
    exact holds.update here _ (writeBatches_reads either encodeRecord_carries records .nil reads written) schema
  | setRevisionBuildState id state =>
    obtain ⟨t, done, h⟩ := bind_eq_ok.mp h
    cases h
    obtain ⟨_, -, done⟩ := bind_eq_ok.mp done
    split at done
    · cases done
    next r here =>
      obtain ⟨_, -, done⟩ := bind_eq_ok.mp done
      cases done
      exact holds.keep here _ rfl (holds.present id r here).2
  | finalizeRevisionBuild id schema name projectId =>
    obtain ⟨⟨n, t⟩, done, h⟩ := bind_eq_ok.mp h
    cases h
    obtain ⟨r, here, done⟩ := bind_eq_ok.mp done
    obtain ⟨_, -, done⟩ := bind_eq_ok.mp done
    obtain ⟨text, written, done⟩ := bind_eq_ok.mp done
    cases done
    exact (holds.keep (revision_eq_ok.mp here) (Revision.key_finalized text) rfl
      ⟨_, f.loads_dumpsSorted (encoded_eq_ok.1 written)⟩).same rfl
  | beginWorkflowExecution e =>
    obtain ⟨t, done, h⟩ := bind_eq_ok.mp h
    cases h
    obtain ⟨_, -, done⟩ := bind_eq_ok.mp done
    cases done
    exact holds.same rfl
  | finishWorkflowExecution id state =>
    obtain ⟨t, done, h⟩ := bind_eq_ok.mp h
    cases h
    obtain ⟨_, -, done⟩ := bind_eq_ok.mp done
    obtain ⟨_, -, done⟩ := bind_eq_ok.mp done
    cases done
    exact holds.same rfl
  | claimWorkflowExecutionForResume id =>
    obtain ⟨⟨won, t⟩, done, h⟩ := bind_eq_ok.mp h
    cases h
    rw [claimWorkflowExecutionForResume] at done
    split at done
    · cases done
    next e claimed =>
      split at done
      · split at done
        · cases done
        next r here =>
          obtain ⟨_, -, done⟩ := bind_eq_ok.mp done
          cases done
          exact (holds.keep here (Revision.key_setState .building) rfl (holds.present _ r here).2).same rfl
      · cases done
        exact holds
  | recoverInterruptedPipelineState =>
    cases h
    exact holds.recover

theorem holds_run (ops : List (Op ρ)) :
    Holds f (recorded ((store f.toCodec).commits .empty ops)) ((store f.toCodec).run .empty ops) := by
  have start : Holds f (fun _ _ => none : String → String → Option ρ) .empty := ⟨fun _ _ _ => rfl, nofun⟩
  refine Machine.run_induct (M := store f.toCodec)
    (P := fun ops s => Holds f (recorded ((store f.toCodec).commits .empty ops)) s) start ?_ ?_ ops
  · intro ops op reply s' holds h
    rw [Machine.commits_snoc_ok h, recorded, List.foldl_append]
    exact holds.step h
  · intro ops op e holds h
    rw [Machine.commits_snoc_error h]
    exact holds

/-- Each revision reads as what the committed calls have written to it, whatever its state, and nothing has been written to
one that is not there. -/
theorem revisions_hold_recorded (ops : List (Op ρ)) (id : String) :
    match ((store f.toCodec).run .empty ops).revisions.get? id with
    | none => ∀ identity, recorded ((store f.toCodec).commits .empty ops) id identity = none
    | some r => Reads f r.records (recorded ((store f.toCodec).commits .empty ops) id) := by
  have holds := holds_run (f := f) ops
  split
  next absent => exact holds.absent id absent
  next r present => exact (holds.present id r present).1

end Runs

section Exact

variable {α β : Type} {f : Format ρ} {t : RecordTable} {m : String → Option ρ}

/-- Every record is yielded once, in the order of the identities and as it was stored, and after any of them the rest. -/
def Exact (f : Format ρ) (m : String → Option ρ) (iterate : String → Except StoreError (List (String × ρ))) : Prop :=
  ∃ yielded, iterate "" = .ok yielded ∧ Ascending yielded ∧
    (∀ identity value, (identity, value) ∈ yielded ↔ ∃ data, m identity = some data ∧ value = f.normal data) ∧
    ∀ k x, yielded[k]? = some x → iterate x.1 = .ok (yielded.drop (k + 1))

theorem mapM_eq_ok {g : α → Except StoreError β} {l : List α} {ys : List β} :
    l.mapM g = .ok ys ↔ List.Forall₂ (fun a b => g a = .ok b) l ys := by
  induction l generalizing ys with
  | nil =>
    rw [List.mapM_nil]
    exact ⟨fun its => by cases its; exact .nil, fun its => by cases its; rfl⟩
  | cons a l ih =>
    rw [List.mapM_cons]
    constructor
    · intro h
      obtain ⟨b, first, h⟩ := bind_eq_ok.mp h
      obtain ⟨bs, rest, h⟩ := bind_eq_ok.mp h
      cases h
      exact .cons first (ih.mp rest)
    · rintro (_ | ⟨first, rest⟩)
      exact bind_eq_ok.mpr ⟨_, first, bind_eq_ok.mpr ⟨_, ih.mpr rest, rfl⟩⟩

theorem exists_of_mem {R : α → β → Prop} {l : List α} {ys : List β} (all : List.Forall₂ R l ys) :
    (∀ y ∈ ys, ∃ x ∈ l, R x y) ∧ ∀ x ∈ l, ∃ y ∈ ys, R x y := by
  induction all with
  | nil => exact ⟨nofun, nofun⟩
  | cons first _ ih =>
    constructor
    · rintro y (_ | ⟨_, mem⟩)
      · exact ⟨_, List.mem_cons_self, first⟩
      · obtain ⟨x, mem, related⟩ := ih.1 y mem
        exact ⟨x, List.mem_cons_of_mem _ mem, related⟩
    · rintro x (_ | ⟨_, mem⟩)
      · exact ⟨_, List.mem_cons_self, first⟩
      · obtain ⟨y, mem, related⟩ := ih.2 x mem
        exact ⟨y, List.mem_cons_of_mem _ mem, related⟩

theorem exists_forall₂ {R : α → β → Prop} {l : List α} (each : ∀ x ∈ l, ∃ y, R x y) : ∃ ys, List.Forall₂ R l ys := by
  induction l with
  | nil => exact ⟨[], .nil⟩
  | cons x l ih =>
    obtain ⟨y, first⟩ := each x List.mem_cons_self
    obtain ⟨ys, rest⟩ := ih fun x mem => each x (List.mem_cons_of_mem _ mem)
    exact ⟨y :: ys, .cons first rest⟩

theorem mem_ordered {x : String × RevisionRecord} : x ∈ ordered t ↔ t.get? x.1 = some x.2 := by
  rw [(ordered_perm t).mem_iff, List.mem_map]
  constructor
  · rintro ⟨row, mem, rfl⟩
    exact get?_some_iff.mpr ⟨mem, rfl⟩
  · intro found
    obtain ⟨mem, own⟩ := get?_some_iff.mp found
    exact ⟨x.2, mem, Prod.ext own rfl⟩

theorem Reads.mem (reads : Reads f t m) {identity : String} {data : ρ} :
    m identity = some data → ∃ row, (identity, row) ∈ ordered t ∧ f.loads row.dataJson = some (f.normal data) := by
  intro here
  have same := reads identity
  rw [here] at same
  obtain ⟨row, found, text⟩ := Option.map_eq_some_iff.mp same
  exact ⟨row, mem_ordered.2 found, text⟩

theorem Reads.text (reads : Reads f t m) {x : String × RevisionRecord} (mem : x ∈ ordered t) :
    ∃ data, m x.1 = some data ∧ f.loads x.2.dataJson = some (f.normal data) := by
  have same := reads x.1
  rw [mem_ordered.1 mem] at same
  obtain ⟨data, here, text⟩ := Option.map_eq_some_iff.mp same.symm
  exact ⟨data, here, text.symm⟩

theorem readRow_eq_ok {x : String × RevisionRecord} {y : String × ρ} :
    readRow f x = .ok y ↔ y.1 = x.1 ∧ f.loads x.2.dataJson = some y.2 ∧ f.isObject y.2 = true := by
  obtain ⟨identity, value⟩ := y
  rw [readRow]
  cases f.loads x.2.dataJson with
  | none => exact ⟨nofun, fun its => nomatch its.2.1⟩
  | some data =>
    constructor
    · intro h
      obtain ⟨_, object, h⟩ := bind_eq_ok.mp h
      cases h
      exact ⟨rfl, rfl, require_eq_ok.mp object⟩
    · rintro ⟨rfl, its, object⟩
      cases its
      exact bind_eq_ok.mpr ⟨(), require_eq_ok.mpr object, rfl⟩

/-- The records are yielded exactly unless one has the empty identity, from which the first page starts. -/
theorem exact_iff (reads : Reads f t m) {iterate : String → Except StoreError (List (String × ρ))}
    (pages : ∀ last, iterate last = (above (ordered t) last).mapM (readRow f)) :
    Exact f m iterate ↔ m "" = none ∧ ∀ identity data, m identity = some data → f.isObject data = true := by
  have sorted := ordered_ascending t
  constructor
  · rintro ⟨yielded, all, -, holds, -⟩
    rw [pages, mapM_eq_ok] at all
    have from_page := (exists_of_mem all).1
    constructor
    · by_contra some
      obtain ⟨data, here⟩ := Option.ne_none_iff_exists'.mp some
      obtain ⟨x, mem, row⟩ := from_page _ ((holds "" _).mpr ⟨data, here, rfl⟩)
      exact absurd (mem_above.mp mem).2 (by rw [← (readRow_eq_ok.1 row).1]; exact lt_irrefl _)
    · intro identity data here
      obtain ⟨x, -, row⟩ := from_page _ ((holds identity _).mpr ⟨data, here, rfl⟩)
      rw [← f.isObject_normal]
      exact (readRow_eq_ok.1 row).2.2
  · rintro ⟨named, objects⟩
    have readable : ∀ x ∈ above (ordered t) "", ∃ y, readRow f x = .ok y := fun x mem => by
      obtain ⟨data, here, text⟩ := reads.text (mem_above.mp mem).1
      exact ⟨(x.1, f.normal data), readRow_eq_ok.2 ⟨rfl, text, by rw [f.isObject_normal]; exact objects _ _ here⟩⟩
    obtain ⟨yielded, all⟩ := exists_forall₂ readable
    have keys : yielded.map Prod.fst = (above (ordered t) "").map Prod.fst := by
      refine (List.forall₂_eq_eq_eq ▸ List.forall₂_map_left_iff.mpr (List.forall₂_map_right_iff.mpr ?_) : _ = _)
      exact all.flip.imp fun y x row => (readRow_eq_ok.1 row).1
    refine ⟨yielded, (pages "").trans (mapM_eq_ok.2 all), ?_, fun identity value => ⟨fun mem => ?_, ?_⟩, fun k x here => ?_⟩
    · rw [Ascending, ← List.pairwise_map (R := (· < ·)), keys, List.pairwise_map]
      exact sorted.above ""
    · obtain ⟨x, mem, row⟩ := (exists_of_mem all).1 _ mem
      obtain ⟨data, here, text⟩ := reads.text (mem_above.mp mem).1
      obtain ⟨own, its, -⟩ := readRow_eq_ok.1 row
      change identity = x.1 at own
      exact ⟨data, by rw [own]; exact here, Option.some.inj (its.symm.trans text)⟩
    · rintro ⟨data, here, rfl⟩
      obtain ⟨row, mem, text⟩ := reads.mem here
      have ahead : "" < identity := empty_lt fun empty => by rw [empty, named] at here; cases here
      obtain ⟨y, mem, its⟩ := (exists_of_mem all).2 _ (mem_above.mpr ⟨mem, ahead⟩)
      obtain ⟨own, value, -⟩ := readRow_eq_ok.1 its
      have pair : y = (identity, f.normal data) := Prod.ext own (Option.some.inj (value.symm.trans text))
      rwa [← pair]
    · have taken : ((above (ordered t) "").take (k + 1)).getLast?.map Prod.fst = some x.1 := by
        rw [← List.getLast?_map, List.map_take, ← keys, ← List.map_take, List.getLast?_map, List.getLast?_take]
        simp [here]
      obtain ⟨row, last, same⟩ := Option.map_eq_some_iff.mp taken
      rw [pages, ← same, ← above_above (le_of_lt (mem_above.mp (List.mem_of_mem_take (List.mem_of_getLast? last))).2),
        above_last (sorted.above "") last]
      exact mapM_eq_ok.2 (List.forall₂_drop _ all)

theorem iterRevisionRecords_eq {s : Store} {id : String} {r : Revision} {pageSize : Int} {includeIncomplete : Bool}
    (positive : 0 < pageSize) (here : s.revisions.get? id = some r) (schema : ∃ schema, f.loads r.schemaJson = some schema)
    (shown : includeIncomplete = true ∨ r.buildState = .ready) (last : String) :
    iterRevisionRecords f id last pageSize includeIncomplete s = (above (ordered r.records) last).mapM (readRow f) := by
  obtain ⟨schema, parsed⟩ := schema
  have readable : ¬(includeIncomplete = false ∧ r.buildState ≠ .ready) := by
    rintro ⟨hidden, unready⟩
    rcases shown with shown | ready
    · exact absurd (hidden.symm.trans shown) (by decide)
    · exact unready ready
  have metadata : getRevisionMetadata f id includeIncomplete s = .ok (some schema) := by
    rw [getRevisionMetadata, here]
    simp only [if_neg readable, parsed]
  rw [iterRevisionRecords, require, if_pos positive, metadata, ← iterPages_eq f (by omega : 0 < (min pageSize 10000).toNat)]
  simp only [here, bind, Except.bind]

end Exact

section Whole

variable (f : Format ρ) (ops : List (Op ρ))

/-- After any calls, the pages of a revision hold each of its records once, in order, and a reader who starts after
any of them gets the rest, if and only if no identity is empty and all records are objects. -/
theorem iter_exact_iff {id : String} {r : Revision} {pageSize : Int} {includeIncomplete : Bool} (positive : 0 < pageSize)
    (here : ((store f.toCodec).run .empty ops).revisions.get? id = some r)
    (shown : includeIncomplete = true ∨ r.buildState = .ready) :
    Exact f (recorded ((store f.toCodec).commits .empty ops) id)
        (fun last => iterRevisionRecords f id last pageSize includeIncomplete ((store f.toCodec).run .empty ops)) ↔
      recorded ((store f.toCodec).commits .empty ops) id "" = none ∧
        ∀ identity data, recorded ((store f.toCodec).commits .empty ops) id identity = some data → f.isObject data = true := by
  obtain ⟨reads, schema⟩ := (holds_run ops).present id r here
  exact exact_iff reads (iterRevisionRecords_eq positive here schema shown)

/-- The texts of the empty object. -/
def braces : Format Unit where
  dumps _ := some "\x7b\x7d"
  dumpsSorted _ := some "\x7b\x7d"
  dumpsCompact _ := some "\x7b\x7d"
  isObject _ := true
  sha256 _ := "44136fa355b3678a1146ad16f7e8649e94fb4fc21fe77e8310c060f61caaff8a"
  loads _ := some ()
  normal := id
  loads_dumps _ := rfl
  loads_dumpsSorted _ := rfl
  loads_dumpsCompact _ := rfl
  isObject_normal _ := rfl

theorem iter_exact_pair :
    Exact braces (recorded ((store braces.toCodec).commits .empty [.saveRevision ⟨"r", "d", (), [("b", ()), ("a", ())]⟩]) "r")
        (fun last => iterRevisionRecords braces "r" last 1 false
          ((store braces.toCodec).run .empty [.saveRevision ⟨"r", "d", (), [("b", ()), ("a", ())]⟩])) ↔
      recorded ((store braces.toCodec).commits .empty [.saveRevision ⟨"r", "d", (), [("b", ()), ("a", ())]⟩]) "r" "" = none ∧
        ∀ identity data, recorded ((store braces.toCodec).commits .empty
          [.saveRevision ⟨"r", "d", (), [("b", ()), ("a", ())]⟩]) "r" identity = some data → braces.isObject data = true :=
  iter_exact_iff braces [.saveRevision ⟨"r", "d", (), [("b", ()), ("a", ())]⟩] (by decide) rfl (.inr rfl)

/-- The record under the empty identity is saved and never yielded. -/
theorem unnamed_record_lost : ∃ (ops : List (Op Unit)) (r : Revision), r.buildState = .ready ∧
    ((store braces.toCodec).run .empty ops).revisions.get? "r" = some r ∧
    ¬Exact braces (recorded ((store braces.toCodec).commits .empty ops) "r")
        (fun last => iterRevisionRecords braces "r" last 1 false ((store braces.toCodec).run .empty ops)) := by
  refine ⟨[.saveRevision ⟨"r", "d", (), [("", ())]⟩], _, ?_, rfl, ?_⟩
  · rfl
  · rintro ⟨yielded, all, -, holds, -⟩
    have pages : iterRevisionRecords braces "r" "" 1 false
        ((store braces.toCodec).run .empty [.saveRevision ⟨"r", "d", (), [("", ())]⟩]) = .ok [] :=
      (iterRevisionRecords_eq (by decide) rfl ⟨(), rfl⟩ (.inr rfl) "").trans rfl
    cases pages.symm.trans all
    exact nomatch (holds "" ()).mpr ⟨(), rfl, rfl⟩

end Whole

end Arenyxa.Pipeline
