import Arenyxa.Audit.Log
import Arenyxa.Lib.Outcome
import Mathlib.Logic.Equiv.List
import Mathlib.Tactic.DeriveEncodable

/-! What a verification of the audit file proves about it. -/

namespace Arenyxa.Audit

open Chain

def Row.previous (row : Row) : String := textOf row.metadata "previous_hash"

section Scans

variable (hash : Object → Object → String)

structure Sealed (row : Row) : Prop where
  algorithm : row.metadata.lookup "algorithm" = some (.str algorithm)
  some_hash : row.eventHash ≠ ""
  digest : row.eventHash = hash row.members row.metadata

/-- A file of sealed rows, linked from a digest on. -/
def IntactFrom (previous : String) (file : List Line) (rows : List Row) : Prop :=
  file = rows.map Line.row ∧ (∀ row ∈ rows, Sealed hash row) ∧
    Linked Row.previous Row.eventHash previous rows

def Intact (file : List Line) : Prop := ∃ rows, IntactFrom hash "" file rows

variable {hash} {previous : String} {index : Nat} {file : List Line} {rows : List Row} {row : Row}

theorem verifyRow_cases (row : Row) (previous : String) (index : Nat) :
    ((verifyRow hash row previous index).valid = true ∧
        (verifyRow hash row previous index).lastHash = row.eventHash ∧ Sealed hash row ∧
        row.previous = previous) ∨
      ((verifyRow hash row previous index).valid = false ∧
        ¬(Sealed hash row ∧ row.previous = previous)) := by
  rw [verifyRow]
  split
  next other => exact .inr ⟨rfl, fun h => other h.1.algorithm⟩
  next named =>
    split
    next broken => exact .inr ⟨rfl, fun h => broken h.2⟩
    next linked =>
      split
      next forged =>
        refine .inr ⟨rfl, fun h => ?_⟩
        exact forged.elim h.1.some_hash fun differs => differs h.1.digest
      next genuine =>
        rw [not_or] at genuine
        exact .inl ⟨rfl, rfl, ⟨not_not.mp named, genuine.1, not_not.mp genuine.2⟩, not_not.mp linked⟩

theorem scanFrom_cons_row (row : Row) (rest : List Line) :
    scanFrom hash previous index (.row row :: rest) =
      if (verifyRow hash row previous index).valid then
        scanFrom hash (verifyRow hash row previous index).lastHash (index + 1) rest
      else verifyRow hash row previous index := rfl

theorem intactFrom_cons_row {rest : List Line} :
    (∃ rows, IntactFrom hash previous (.row row :: rest) rows) ↔
      (Sealed hash row ∧ row.previous = previous) ∧
        ∃ rows, IntactFrom hash row.eventHash rest rows := by
  constructor
  · rintro ⟨rows, here, all_sealed, linked⟩
    cases rows with
    | nil => cases here
    | cons r rows =>
      rw [List.map_cons] at here
      injection here with first rest
      injection first with first
      subst first
      exact ⟨⟨all_sealed _ List.mem_cons_self, linked.1⟩, rows, rest,
        fun r hr => all_sealed r (List.mem_cons_of_mem _ hr), linked.2⟩
  · rintro ⟨⟨sealed_row, named⟩, rows, here, all_sealed, linked⟩
    refine ⟨row :: rows, congrArg _ here, fun r hr => ?_, named, linked⟩
    rcases List.mem_cons.mp hr with rfl | hr
    · exact sealed_row
    · exact all_sealed r hr

theorem scanFrom_valid_iff :
    (scanFrom hash previous index file).valid = true ↔
      ∃ rows, IntactFrom hash previous file rows := by
  induction file generalizing previous index with
  | nil => exact ⟨fun _ => ⟨[], rfl, fun _ h => (nomatch h), trivial⟩, fun _ => rfl⟩
  | cons line rest ih =>
    have refused : ∀ other : Line, (∀ row, other ≠ .row row) →
        ¬∃ rows, IntactFrom hash previous (other :: rest) rows := by
      rintro other no_row ⟨rows, here, -⟩
      cases rows with
      | nil => cases here
      | cons r rows =>
        injection here with first
        exact no_row r first
    cases line with
    | row row =>
      rw [scanFrom_cons_row, intactFrom_cons_row]
      rcases @verifyRow_cases hash row previous index with
        ⟨valid, last, genuine⟩ | ⟨invalid, forged⟩
      · rw [if_pos valid, last, ih]
        exact ⟨fun h => ⟨genuine, h⟩, And.right⟩
      · rw [invalid, if_neg Bool.false_ne_true, invalid]
        exact ⟨fun h => (nomatch h), fun h => absurd h.1 forged⟩
    | oversized => exact ⟨fun h => (nomatch h), fun h => absurd h (refused _ (fun _ => nofun))⟩
    | blank => exact ⟨fun h => (nomatch h), fun h => absurd h (refused _ (fun _ => nofun))⟩
    | invalid error => exact ⟨fun h => (nomatch h), fun h => absurd h (refused _ (fun _ => nofun))⟩
    | notObject => exact ⟨fun h => (nomatch h), fun h => absurd h (refused _ (fun _ => nofun))⟩
    | raising error => exact ⟨fun h => (nomatch h), fun h => absurd h (refused _ (fun _ => nofun))⟩

theorem scanFrom_lastHash (intact : IntactFrom hash previous file rows) :
    (scanFrom hash previous index file).lastHash = head Row.eventHash previous rows := by
  obtain ⟨rfl, all_sealed, linked⟩ := intact
  induction rows generalizing previous index with
  | nil => rfl
  | cons row rows ih =>
    rw [List.map_cons, scanFrom_cons_row, head_cons]
    rcases @verifyRow_cases hash row previous index with
      ⟨valid, last, -⟩ | ⟨-, forged⟩
    · rw [if_pos valid, last]
      exact ih (fun r hr => all_sealed r (List.mem_cons_of_mem _ hr)) linked.2
    · exact absurd ⟨all_sealed row List.mem_cons_self, linked.1⟩ forged

theorem scanPath_valid_iff : (scanPath hash file).valid = true ↔ Intact hash file :=
  scanFrom_valid_iff

end Scans

section Records

variable {hash : Object → Object → String} {lineBytes : Row → Nat}

theorem encodedRow_ok {event : AuditEvent} {previous channel primaryError : String} {row : Row}
    (some_hash : ∀ members metadata, hash members metadata ≠ "")
    (h : encodedRow hash lineBytes event previous channel primaryError = .ok row) :
    Sealed hash row ∧ row.previous = previous := by
  rw [encodedRow] at h
  split at h
  · cases h
  · cases h
    exact ⟨⟨rfl, some_hash _ _, rfl⟩, rfl⟩

/-- A log whose head in memory is the last digest of an intact file. -/
structure Log.Attached (hash : Object → Object → String) (log : Log) : Prop where
  intact : Intact hash log.primary
  current : log.lastHash = (scanPath hash log.primary).lastHash
  unbroken : log.integrityError = ""

/-- A record that is written to the primary file. -/
def Appends (hash : Object → Object → String) (lineBytes : Row → Nat) (log : Log)
    (event : AuditEvent) : Prop :=
  log.integrityError = "" ∧
    ∃ row, encodedRow hash lineBytes event log.lastHash "primary" "" = .ok row

theorem appendRecovery_primary (log : Log) (event : AuditEvent) (drawn : Drawn) :
    (appendRecovery hash lineBytes log event drawn).2.primary = log.primary ∧
      (appendRecovery hash lineBytes log event drawn).2.lastHash = log.lastHash ∧
      (appendRecovery hash lineBytes log event drawn).2.integrityError = log.integrityError := by
  have marked : ∀ after, markRecovery hash lineBytes log drawn = .ok after →
      after.primary = log.primary ∧ after.lastHash = log.lastHash ∧
        after.integrityError = log.integrityError := by
    intro after h
    rw [markRecovery] at h
    split at h
    · cases h
      exact ⟨rfl, rfl, rfl⟩
    · obtain ⟨marker, -, h⟩ := Outcome.bind_eq_ok.mp h
      cases h
      exact ⟨rfl, rfl, rfl⟩
  rw [appendRecovery]
  split
  · exact ⟨rfl, rfl, rfl⟩
  next after h =>
    split
    · exact marked after h
    · exact marked after h

theorem record_cases (log : Log) (event : AuditEvent) (drawn : Drawn) :
    (∃ row, encodedRow hash lineBytes event log.lastHash "primary" "" = .ok row ∧
        log.integrityError = "" ∧
        (record hash lineBytes log event drawn).2 =
          { log with primary := log.primary ++ [.row row], lastHash := row.eventHash,
                     mode := .normal }) ∨
      (¬Appends hash lineBytes log event ∧
        (record hash lineBytes log event drawn).2.primary = log.primary ∧
        (record hash lineBytes log event drawn).2.lastHash = log.lastHash ∧
        (record hash lineBytes log event drawn).2.integrityError = log.integrityError) := by
  rw [record]
  split
  next broken =>
    refine .inr ⟨fun h => broken h.1, ?_⟩
    cases log.failurePolicy with
    | failClosed => exact ⟨rfl, rfl, rfl⟩
    | failOperational => exact appendRecovery_primary log event drawn
  next unbroken =>
    rw [appendPrimary]
    cases encoded : encodedRow hash lineBytes event log.lastHash "primary" "" with
    | error error =>
      refine .inr ⟨fun h => ?_, rfl, rfl, rfl⟩
      obtain ⟨-, row, ok⟩ := h
      rw [encoded] at ok
      cases ok
    | ok row => exact .inl ⟨row, rfl, not_not.mp unbroken, rfl⟩

theorem scanPath_lastHash {file : List Line} {rows : List Row}
    (intact : IntactFrom hash "" file rows) :
    (scanPath hash file).lastHash = head Row.eventHash "" rows := scanFrom_lastHash intact

theorem intact_concat {file : List Line} {row : Row} (intact : Intact hash file) :
    Intact hash (file ++ [.row row]) ↔
      Sealed hash row ∧ row.previous = (scanPath hash file).lastHash := by
  obtain ⟨rows, here⟩ := intact
  rw [scanPath_lastHash here]
  obtain ⟨rfl, all_sealed, linked⟩ := here
  constructor
  · rintro ⟨rows', named, sealed', linked'⟩
    have same : rows' = rows ++ [row] := by
      apply (List.map_injective_iff.mpr fun a b h => Line.row.inj h)
      rw [← named, List.map_append]
      rfl
    subst same
    exact ⟨sealed' row (List.mem_append_right _ List.mem_cons_self), (linked_concat.mp linked').2⟩
  · rintro ⟨sealed_row, named⟩
    refine ⟨rows ++ [row], by rw [List.map_append]; rfl, fun r hr => ?_,
      linked_concat.mpr ⟨linked, named⟩⟩
    rcases List.mem_append.mp hr with old | new
    · exact all_sealed r old
    · rw [List.mem_singleton.mp new]
      exact sealed_row

theorem scanPath_concat {file : List Line} {row : Row} (intact : Intact hash (file ++ [.row row])) :
    (scanPath hash (file ++ [.row row])).lastHash = row.eventHash := by
  obtain ⟨rows, here⟩ := intact
  rw [scanPath_lastHash here]
  cases rows using List.reverseRecOn with
  | nil => simp [IntactFrom] at here
  | append_singleton rows last =>
    obtain ⟨named, -⟩ := here
    rw [List.map_append] at named
    have := List.append_inj_right' named rfl
    cases this
    exact head_concat

variable (some_hash : ∀ members metadata, hash members metadata ≠ "")

include some_hash

theorem record_attached {log : Log} (attached : log.Attached hash) (event : AuditEvent)
    (drawn : Drawn) : ((record hash lineBytes log event drawn).2).Attached hash := by
  rcases @record_cases hash lineBytes log event drawn with
    ⟨row, encoded, -, after⟩ | ⟨-, primary, lastHash, unbroken⟩
  · obtain ⟨sealed_row, named⟩ := encodedRow_ok some_hash encoded
    rw [attached.current] at named
    have intact := (intact_concat attached.intact).mpr ⟨sealed_row, named⟩
    rw [after]
    exact ⟨intact, (scanPath_concat intact).symm, attached.unbroken⟩
  · exact ⟨primary ▸ attached.intact, by rw [lastHash, primary, attached.current],
      unbroken.trans attached.unbroken⟩

omit some_hash in
theorem opened_attached {policy : AuditFailurePolicy} {primary recovery : List Line}
    (intact : Intact hash primary) :
    (Log.opened hash policy primary recovery).Attached hash := by
  have valid := scanPath_valid_iff.2 intact
  exact ⟨intact, if_pos valid, if_pos valid⟩

end Records

section Detection

variable (hash : Object → Object → String) (lineBytes : Row → Nat)

def recordAll (log : Log) (events : List (AuditEvent × Drawn)) : Log :=
  events.foldl (fun log e => (record hash lineBytes log e.1 e.2).2) log

/-- The log after its file was replaced. -/
def Log.replaced (log : Log) (file : List Line) : Log := { log with primary := file }

variable {hash lineBytes}

theorem verify_replaced (log : Log) (file : List Line) :
    (verify hash (log.replaced file)).1.1 = (scanPath hash file).valid := rfl

theorem recordAll_attached (some_hash : ∀ members metadata, hash members metadata ≠ "")
    {log : Log} (attached : log.Attached hash) (events : List (AuditEvent × Drawn)) :
    (recordAll hash lineBytes log events).Attached hash :=
  List.foldlRecOn events _ attached fun _ attached e _ =>
    record_attached some_hash attached e.1 e.2

theorem sealed_inj
    (inj : ∀ a b c d, hash a b = hash c d → a = c ∧ b = d) (r s : Row) (hr : Sealed hash r)
    (hs : Sealed hash s) (same : r.eventHash = s.eventHash) : r = s := by
  obtain ⟨members, metadata, digest⟩ := r
  obtain ⟨members', metadata', digest'⟩ := s
  obtain ⟨rfl, rfl⟩ := inj _ _ _ _ (hr.digest.symm.trans (same.trans hs.digest))
  obtain rfl : digest = digest' := same
  rfl

theorem intact_eq_of_lastHash_eq
    (inj : ∀ a b c d, hash a b = hash c d → a = c ∧ b = d) {file file' : List Line}
    (intact : Intact hash file) (intact' : Intact hash file')
    (same : (scanPath hash file).lastHash = (scanPath hash file').lastHash) : file = file' := by
  obtain ⟨rows, here⟩ := intact
  obtain ⟨rows', here'⟩ := intact'
  rw [scanPath_lastHash here, scanPath_lastHash here'] at same
  rw [here.1, here'.1, eq_of_head_eq (sealed_inj inj) (fun r hr => hr.some_hash) here.2.2 here'.2.2
    here.2.1 here'.2.1 same]

theorem intact_of_prefix {file file' : List Line} (intact : Intact hash file)
    (shorter : file' <+: file) : Intact hash file' := by
  obtain ⟨rows, rfl, all_sealed, linked⟩ := intact
  obtain ⟨kept, ⟨rest, rfl⟩, rfl⟩ := List.prefix_map_iff.mp shorter
  exact ⟨kept, rfl, fun r hr => all_sealed r (List.mem_append_left _ hr),
    (linked_append.mp linked).1⟩

theorem prefix_of_drawn
    (inj : ∀ a b c d, hash a b = hash c d → a = c ∧ b = d) {file file' : List Line}
    (intact : Intact hash file) (drawn : ∀ line ∈ file', line ∈ file) :
    Intact hash file' ↔ file' <+: file := by
  refine ⟨fun intact' => ?_, intact_of_prefix intact⟩
  obtain ⟨rows, rfl, all_sealed, linked⟩ := intact
  obtain ⟨rows', rfl, -, linked'⟩ := intact'
  refine List.IsPrefix.map Line.row (prefix_of_subset (sealed_inj inj) (fun r hr => hr.some_hash)
    linked linked' all_sealed fun r hr => ?_)
  obtain ⟨r', hr', same⟩ := List.mem_map.mp (drawn (.row r) (List.mem_map_of_mem hr))
  rwa [← Line.row.inj same]

end Detection

section Samples

instance encodableChar : Encodable Char :=
  .ofLeftInverse Char.toNat Char.ofNat Char.ofNat_toNat

instance encodableString : Encodable String :=
  .ofLeftInverse String.toList String.ofList fun _ => String.ofList_toList

deriving instance Encodable for Value

/-- A digest without collisions: as many letters as the number of the canonical row. -/
def unaryHash (members metadata : Object) : String :=
  String.ofList (List.replicate (Encodable.encode (members, metadata) + 1) 'h')

theorem unaryHash_inj (a b c d : Object) (same : unaryHash a b = unaryHash c d) :
    a = c ∧ b = d := by
  have letters := String.ofList_injective same
  have length := congrArg List.length letters
  rw [List.length_replicate, List.length_replicate, Nat.add_right_cancel_iff] at length
  exact Prod.mk.inj (Encodable.encode_injective length)

theorem unaryHash_some (members metadata : Object) : unaryHash members metadata ≠ "" := by
  intro empty
  have letters := congrArg (List.length ∘ String.toList) empty
  simp [unaryHash] at letters

def sampleEvent (id : String) : AuditEvent :=
  ⟨id, "alice", "project.read", "project:1", "allow", "personal", "", "2026-01-01", "", ""⟩

def sampleDrawn : Drawn := ⟨"audit_1", "2026-01-01", "audit.jsonl"⟩

/-- Two events on a new file. -/
def sampleLog : Log :=
  recordAll unaryHash (fun _ => 512) (Log.opened unaryHash .failClosed [] [])
    [(sampleEvent "audit_a", sampleDrawn), (sampleEvent "audit_b", sampleDrawn)]

end Samples

end Arenyxa.Audit

/-! Threads that record and verify on one log: a verification scans the file outside the lock and
takes its scan over under it. -/

namespace Arenyxa.Audit

/-- The log, and the scans that verifying threads have made and not yet taken over. -/
structure Shared where
  log : Log
  scans : List Scan

inductive Action
  | record (event : AuditEvent) (drawn : Drawn)
  | scan
  | adopt (thread : Nat)

section Runs

variable (hash : Object → Object → String) (lineBytes : Row → Nat)

def act (s : Shared) : Action → Shared
  | .record event drawn => { s with log := (record hash lineBytes s.log event drawn).2 }
  | .scan => { s with scans := s.scans ++ [scanPath hash s.log.primary] }
  | .adopt thread =>
    match s.scans[thread]? with
    | none => s
    | some scan => { log := adopt s.log scan, scans := s.scans.eraseIdx thread }

def interleave (s : Shared) (actions : List Action) : Shared := actions.foldl (act hash lineBytes) s

/-- Every row that a run writes to the primary file is chained to the file's last row. -/
def HeadCurrent (s : Shared) (actions : List Action) : Prop :=
  ∀ before event drawn after, actions = before ++ .record event drawn :: after →
    Appends hash lineBytes (interleave hash lineBytes s before).log event →
      (interleave hash lineBytes s before).log.lastHash =
        (scanPath hash (interleave hash lineBytes s before).log.primary).lastHash

variable {hash lineBytes} {s : Shared} {actions : List Action}

theorem interleave_concat (action : Action) :
    interleave hash lineBytes s (actions ++ [action]) =
      act hash lineBytes (interleave hash lineBytes s actions) action := by
  rw [interleave, List.foldl_append]
  rfl

theorem adopt_primary (log : Log) (scan : Scan) : (adopt log scan).primary = log.primary := by
  rw [adopt]
  split <;> rfl

theorem act_primary (action : Action) (other : ∀ event drawn, action ≠ .record event drawn) :
    (act hash lineBytes s action).log.primary = s.log.primary := by
  cases action with
  | record event drawn => exact absurd rfl (other event drawn)
  | scan => rfl
  | adopt thread =>
    rw [act]
    cases s.scans[thread]? with
    | none => rfl
    | some scan => exact adopt_primary s.log scan

theorem record_intact_iff (some_hash : ∀ members metadata, hash members metadata ≠ "")
    (intact : Intact hash s.log.primary) (event : AuditEvent) (drawn : Drawn) :
    Intact hash (act hash lineBytes s (.record event drawn)).log.primary ↔
      (Appends hash lineBytes s.log event →
        s.log.lastHash = (scanPath hash s.log.primary).lastHash) := by
  rw [act]
  rcases @record_cases hash lineBytes s.log event drawn with
    ⟨row, encoded, unbroken, after⟩ | ⟨kept, primary, -⟩
  · obtain ⟨sealed_row, named⟩ := encodedRow_ok some_hash encoded
    rw [after]
    refine (intact_concat intact).trans ⟨fun h _ => named.symm.trans h.2, fun current => ?_⟩
    exact ⟨sealed_row, named.trans (current ⟨unbroken, row, encoded⟩)⟩
  · simp only [primary]
    exact ⟨fun _ appends => absurd appends kept, fun _ => intact⟩

/-- Under interleaved verifications the primary file stays a chain exactly as long as every row
that is appended finds the file's own head in memory, not one that an older scan put there. -/
theorem primary_intact_iff (some_hash : ∀ members metadata, hash members metadata ≠ "")
    (start : (scanPath hash s.log.primary).valid = true) :
    (∀ reached, reached <+: actions →
        (scanPath hash (interleave hash lineBytes s reached).log.primary).valid = true) ↔
      HeadCurrent hash lineBytes s actions := by
  simp only [scanPath_valid_iff] at start ⊢
  constructor
  · rintro valid before event drawn after rfl
    have earlier := valid before (List.prefix_append _ _)
    have later := valid (before ++ [.record event drawn])
      ⟨after, by rw [List.append_assoc, List.singleton_append]⟩
    rw [interleave_concat] at later
    exact (record_intact_iff some_hash earlier event drawn).mp later
  · intro current reached shorter
    induction reached using List.reverseRecOn with
    | nil => exact start
    | append_singleton before action ih =>
      have intact := ih ((List.prefix_append before [action]).trans shorter)
      rw [interleave_concat]
      cases action with
      | record event drawn =>
        obtain ⟨after, rfl⟩ := shorter
        refine (record_intact_iff some_hash intact event drawn).mpr ?_
        exact current before event drawn after (by rw [List.append_assoc, List.singleton_append])
      | scan => exact intact
      | adopt thread =>
        rw [act_primary (.adopt thread) fun _ _ h => nomatch h]
        exact intact

end Runs

section Samples

def newLog : Shared := ⟨Log.opened unaryHash .failClosed [] [], []⟩

theorem primary_intact_sample :
    (∀ reached, reached <+: [.record (sampleEvent "audit_a") sampleDrawn, .scan, .adopt 0] →
        (scanPath unaryHash
          (interleave unaryHash (fun _ => 512) newLog reached).log.primary).valid = true) ↔
      HeadCurrent unaryHash (fun _ => 512) newLog
        [.record (sampleEvent "audit_a") sampleDrawn, .scan, .adopt 0] :=
  primary_intact_iff unaryHash_some rfl

/-- A scan made before the second record, taken over after it. -/
def staleScan : List Action :=
  [.record (sampleEvent "audit_a") sampleDrawn, .scan, .record (sampleEvent "audit_b") sampleDrawn,
    .adopt 0, .record (sampleEvent "audit_c") sampleDrawn]

/-- The canonical text of the row. -/
def plainHash (members metadata : Object) : String :=
  (members ++ metadata).foldl (fun text member => text ++ member.1 ++ ":" ++ member.2.text ++ ",") "#"

theorem staleScan_forks :
    (scanPath plainHash (interleave plainHash (fun _ => 512)
      ⟨Log.opened plainHash .failClosed [] [], []⟩ staleScan).log.primary).valid = false := by
  decide +kernel

end Samples

end Arenyxa.Audit
