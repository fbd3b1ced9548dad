import Arenyxa.Distributed.Transactions.Account
import Mathlib.Algebra.Field.Rat

/-! Runs of the queue from empty tables. -/

namespace Arenyxa.Distributed

open Outcome

/-- No name is drawn twice. -/
def FreshIds (ops : List Op) : Prop := (ops.filterMap Op.created?).Nodup

instance : DecidablePred FreshIds := fun ops =>
  inferInstanceAs (Decidable (ops.filterMap Op.created?).Nodup)

namespace Queue

/-- The tables after a run. -/
def reached (env : Env) (b : Backend) (ops : List Op) : Queue := (queueMachine env b).run .empty ops

/-- The committed operations of a run, each with the tables it found and what it returned. -/
def history (env : Env) (b : Backend) (ops : List Op) : List (Queue × Op × Result) :=
  (queueMachine env b).commits .empty ops

end Queue

section Runs

variable {env : Env} {b : Backend} {q : Queue} {op : Op} {r : Result × Queue}

theorem Sound.accounted (hs : Sound q.opened) (h : op.exec env b q = .ok r) :
    Accounted env b q op r :=
  (Op.exec_sat hs op).of_ok h

theorem Sound.benign (hs : Sound q.opened) {e : QueueError} (h : op.exec env b q = .error e) :
    Benign e :=
  (Op.exec_sat hs op).of_error h

theorem Sound.exec (hs : Sound q.opened) (h : op.exec env b q = .ok r) : Sound r.2.opened := by
  obtain ⟨ls, transaction, -⟩ := hs.accounted h
  exact transaction.sound hs

theorem Sound.run (hs : Sound q.opened) (env : Env) (b : Backend) (ops : List Op) :
    Sound ((queueMachine env b).run q ops).opened :=
  Machine.run_invariant (P := fun q : Queue => Sound q.opened) hs
    (fun _ _ _ _ hs h => hs.exec h) ops

theorem sound_reached (env : Env) (b : Backend) (ops : List Op) :
    Sound (Queue.reached env b ops).opened :=
  sound_empty.run env b ops

theorem Accounted.keep (h : Accounted env b q op r) {id : String} {P : Option Job → Prop}
    (keep : ∀ l o o', op.Emits env b q l → RowStep env.sha id l o o' → P o → P o')
    (start : P (q.job? id)) : P (r.2.job? id) := by
  obtain ⟨ls, transaction, account⟩ := h
  exact (transaction.row id).invariant (fun _ l _ hl step => keep l _ _ (account.emits l hl) step)
    start

theorem Accounted.job?_isSome (h : Accounted env b q op r) {id : String}
    (found : (r.2.job? id).isSome) : (q.job? id).isSome ∨ op.created? = some id := by
  refine h.keep (P := fun o => o.isSome →
    (q.job? id).isSome ∨ op.created? = some id) ?_ .inl found
  intro l o o' emits step hold some
  cases step with
  | entered named => exact .inr (named ▸ emits.entered)
  | moved | distrusted => exact hold rfl
  | erased => cases some
  | other => exact hold some

theorem Op.Emits.fresh {a : EnqueueArgs} {id : String} {l : Label} {o o' : Option Job}
    (emits : (Op.enqueue a).Emits env b q l) (step : RowStep env.sha id l o o')
    (fresh : ∀ row, o = some row → row.Fresh) : ∀ row, o' = some row → row.Fresh := by
  cases step with
  | entered _ new => rintro _ ⟨⟩; exact new
  | erased => intro row hrow; cases hrow
  | other => exact fresh
  | moved => simp [Op.Emits, Label.Prunes] at emits
  | distrusted => simp [Op.Emits, Label.Prunes] at emits

theorem Accounted.fresh {a : EnqueueArgs} {id : String} (h : Accounted env b q (.enqueue a) r)
    (absent : q.job? id = none) : ∀ row, r.2.job? id = some row → row.Fresh :=
  h.keep (fun _ _ _ emits step => emits.fresh step) (by simp [absent])

theorem mem_created_snoc {ops : List Op} {id : String} :
    id ∈ (ops ++ [op]).filterMap Op.created? ↔
      id ∈ ops.filterMap Op.created? ∨ op.created? = some id := by
  rw [List.filterMap_append, List.mem_append, List.mem_filterMap, List.mem_filterMap]
  simp

theorem mem_created_of_job? {ops : List Op} {id : String}
    (found : ((Queue.reached env b ops).job? id).isSome) : id ∈ ops.filterMap Op.created? := by
  revert found
  refine Machine.run_induct (M := queueMachine env b) (s := .empty)
    (P := fun ops q => (q.job? id).isSome → id ∈ ops.filterMap Op.created?) ?_ ?_ ?_ ops
  · intro found
    cases found
  · intro ops op o q' ih h found
    exact mem_created_snoc.2
      (((sound_reached env b ops).accounted h).job?_isSome found |>.imp_left ih)
  · intro ops op e ih _ found
    exact mem_created_snoc.2 (.inl (ih found))

theorem FreshIds.left {before after : List Op} (fresh : FreshIds (before ++ after)) :
    FreshIds before := by
  rw [FreshIds, List.filterMap_append] at fresh
  exact (List.nodup_append.mp fresh).1

theorem FreshIds.not_created {before after : List Op} {id : String}
    (fresh : FreshIds (before ++ after)) (drawn : id ∈ before.filterMap Op.created?) {op : Op}
    (hop : op ∈ after) : op.created? ≠ some id := by
  rw [FreshIds, List.filterMap_append] at fresh
  intro created
  exact List.disjoint_of_nodup_append fresh drawn (List.mem_filterMap.mpr ⟨op, hop, created⟩)

theorem FreshIds.eq_of_created {ops : List Op} (fresh : FreshIds ops) {op op' : Op} {id : String}
    (h : op ∈ ops) (h' : op' ∈ ops) (created : op.created? = some id)
    (created' : op'.created? = some id) : op = op' := by
  obtain ⟨before, after, rfl⟩ := List.append_of_mem h
  obtain h' | h' := List.mem_append.mp h'
  · have drawn : id ∈ before.filterMap Op.created? := List.mem_filterMap.mpr ⟨op', h', created'⟩
    exact absurd created (fresh.not_created drawn List.mem_cons_self)
  · obtain rfl | h' := List.mem_cons.mp h'
    · rfl
    · rw [List.append_cons] at fresh
      have drawn : id ∈ (before ++ [op]).filterMap Op.created? :=
        List.mem_filterMap.mpr ⟨op, List.mem_append_right _ List.mem_cons_self, created⟩
      exact absurd created' (fresh.not_created drawn h')

end Runs

section Sample

/-- SHA-256 on the texts the sample runs hash. -/
def sampleDigest (s : String) : String :=
  if s = "{}" then "44136fa355b3678a1146ad16f7e8649e94fb4fc21fe77e8310c060f61caaff8a"
  else if s = "token-a" then "a70bf50e531ce1a817561f2f5d5b6645d4e806becf58ccc5e8cf6b8045a090a8"
  else if s = "token-b" then "49e2bb7eab54cf09b409ffafd3fa8a8a955a60eb972faacaefbed3dbd3207132"
  else if s = "token-c" then "4618883cd3012ea499d728009f5cdd1d39a460cc3457b4cca2dd24aab8a3c922"
  else "e3b0c44298fc1c149afbf4c8996fb92427ae41e4649b934ca495991b7852b855"

def sampleSha : Sha256 where
  hexdigest := sampleDigest
  hexdigest_ne_empty s := by
    unfold sampleDigest
    split_ifs <;> decide
  hexdigest_plain s := by
    unfold sampleDigest isPlain
    split_ifs <;> exact all_toList_ofList (by decide)

def sampleEnv : Env := { sha := sampleSha, keyProblem := fun _ _ => none }

def sampleWorker (id : String) (slots : Int) : Op :=
  .registerWorker
    { workerId := id, publicKey := "key", resources := ⟨"{}"⟩, appCompatVersion := "1",
      maxSlots := slots, now := 100, utc := "2030-01-01" }

def sampleJob (id key mode : String) : Op :=
  .enqueue
    { kind := "echo", payload := ⟨"{}"⟩, resourceId := "site", permission := "run",
      idempotencyKey := key, sideEffectMode := mode, root := ⟨"1", "1", false⟩, jobId := id,
      utc := "2030-01-01" }

def sampleLease (worker token : String) : Op :=
  .leaseNext false worker 60 { token := token, now := 100, heartbeat := 100, utc := "2030-01-01" }

/-- A call ten seconds after the sample leases were granted. -/
def sampleCall (id worker token : String) : LeaseCall := ⟨id, worker, token, 110, 110, "2030-01-01"⟩

end Sample

end Arenyxa.Distributed
