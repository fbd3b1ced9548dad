import Arenyxa.Lib.Dict
import Mathlib.Tactic.Bound
import Mathlib.Tactic.Linarith
import Mathlib.Tactic.Positivity

/-! The throttle of password checks: a file of buckets with their failures, and the two ways to a check. -/

namespace Arenyxa.Enterprise.Throttle

structure Account where
  id : String
  username : String
  enabled : Bool
  /-- `verify_password` with the verifier of the account. -/
  verifies : String → Bool

/-- What is taken from the standard library. The digest is idealised as injective. -/
structure Library where
  strip : String → String
  casefold : String → String
  digest : String → String
  digest_injective : Function.Injective digest

def clip (t : String) : String := String.ofList (t.toList.take 128)

/-- The accounts of the vault. Their ids and their folded names are their own, and the names are not too long. -/
structure Directory (lib : Library) where
  accounts : List Account
  ids : accounts.Pairwise fun a b => a.id ≠ b.id
  names : accounts.Pairwise fun a b => lib.casefold a.username ≠ lib.casefold b.username
  short : ∀ account ∈ accounts, (lib.casefold account.username).toList.length ≤ 128

/-- The failures of a bucket, and the time until which it waits. -/
structure Failures where
  attempts : Nat
  retryAt : ℚ

abbrev Buckets := List (String × Failures)

inductive AuthError
  | throttleInvalid | rateLimited | authFailed | sessionInvalid | stepUpFailed

def maxBuckets : Nat := 256

def delay (attempts : Nat) : ℚ := if 3 ≤ attempts then min 30 (1 / 2 * 2 ^ (attempts - 2)) else 0

/-- `load_auth_throttle`: a time too far ahead is moved closer. -/
def load (entries : Buckets) (now : ℚ) : Except AuthError Buckets :=
  if maxBuckets < entries.length then .error .throttleInvalid
  else if entries.any fun entry => 16 < entry.2.attempts || entry.2.retryAt < 0 then .error .throttleInvalid
  else .ok (entries.map fun entry => (entry.1, ⟨entry.2.attempts, min entry.2.retryAt (now + 30)⟩))

/-- `save_auth_throttle` -/
def save (entries : Buckets) : Buckets :=
  (entries.drop (entries.length - maxBuckets)).map fun entry =>
    (entry.1, ⟨min 16 entry.2.attempts, max 0 entry.2.retryAt⟩)

section Methods

variable {lib : Library} (directory : Directory lib)

def bucketId (lib : Library) (username : String) : String := lib.digest (clip (lib.casefold (lib.strip username)))

/-- The bucket of the names under which the account is found. -/
def bucketOf (lib : Library) (account : Account) : String := lib.digest (clip (lib.casefold account.username))

def accountByUsername (username : String) : Option Account :=
  directory.accounts.find? fun account => lib.casefold account.username = lib.casefold (lib.strip username)

/-- The buckets after another failure. -/
def withFailure (entries : Buckets) (key : String) (now : ℚ) : Buckets :=
  let attempts := min 16 (((entries.lookup key).map Failures.attempts).getD 0 + 1)
  let moved := (entries.filter fun entry => entry.1 ≠ key) ++ [(key, ⟨attempts, now + delay attempts⟩)]
  moved.drop (moved.length - maxBuckets)

structure World where
  entries : Buckets
  /-- The account of the current session. -/
  session : Option String
  clock : ℚ

/-- A password of an account was checked: the time before the check, and the time when its failure was recorded. -/
structure Check where
  account : String
  passed : Bool
  asked : ℚ
  answered : ℚ
  deriving DecidableEq

/-- Each reading of the clock comes a while after the one before. -/
inductive Call
  | login (username password : String) (loading asking reloading recording : NNRat) (issued : Bool)
  | stepUp (password : String) (current : Bool) (asking : NNRat)
  | logout
  | restart

structure Outcome where
  result : Except AuthError Unit
  check : Option Check

/-- `_record_auth_failure`, after a check or instead of one. -/
def World.fail (w : World) (key : String) (reload record : ℚ) (check : Option Check) : World × Outcome :=
  match load w.entries reload with
  | .error e => ({ w with clock := record }, ⟨.error e, check⟩)
  | .ok entries =>
    ({ w with entries := save (withFailure entries key record), clock := record }, ⟨.error .authFailed, check⟩)

/-- The rest of a login that found the right password. The session may still not be issued. -/
def World.succeed (w : World) (account : Account) (key : String) (reload : ℚ) (issued : Bool) (check : Check) :
    World × Outcome :=
  match load w.entries reload with
  | .error e => ({ w with clock := reload }, ⟨.error e, some check⟩)
  | .ok entries =>
    let cleared := if key ∈ Dict.keys entries then save (entries.filter fun entry => entry.1 ≠ key) else w.entries
    let session := if issued then some account.id else w.session
    ({ entries := cleared, session := session, clock := reload },
      ⟨if issued then .ok () else .error .authFailed, some check⟩)

def World.step (w : World) : Call → World × Outcome
  | .login username password loading asking reloading recording issued =>
    let key := bucketId lib username
    let loaded := w.clock + loading
    let asked := loaded + asking
    let reloaded := asked + reloading
    let recorded := reloaded + recording
    match load w.entries loaded with
    | .error e => ({ w with clock := loaded }, ⟨.error e, none⟩)
    | .ok entries =>
      if asked < ((entries.lookup key).map Failures.retryAt).getD 0 then
        ({ w with clock := asked }, ⟨.error .rateLimited, none⟩)
      else
        match accountByUsername directory username with
        | none => w.fail key reloaded recorded none
        | some account =>
          if !account.enabled then w.fail key reloaded recorded none
          else if account.verifies password then
            w.succeed account key reloaded issued ⟨account.id, true, asked, reloaded⟩
          else w.fail key reloaded recorded (some ⟨account.id, false, asked, recorded⟩)
  | .stepUp password current asking =>
    let asked := w.clock + asking
    match w.session.bind fun id => directory.accounts.find? fun account => account.id = id with
    | none => ({ w with clock := asked }, ⟨.error .sessionInvalid, none⟩)
    | some account =>
      if !current then ({ w with clock := asked }, ⟨.error .sessionInvalid, none⟩)
      else if account.verifies password then
        ({ w with clock := asked }, ⟨.ok (), some ⟨account.id, true, asked, asked⟩⟩)
      else ({ w with clock := asked }, ⟨.error .stepUpFailed, some ⟨account.id, false, asked, asked⟩⟩)
  | .logout => ({ w with session := none }, ⟨.ok (), none⟩)
  | .restart => ({ w with session := none }, ⟨.ok (), none⟩)

end Methods

/-- The failed checks of an account since its last passed one, and the time of the last. -/
abbrev Ledger := String → Nat × ℚ

def Ledger.enter (ledger : Ledger) : Option Check → Ledger
  | none => ledger
  | some check =>
    Function.update ledger check.account
      (if check.passed then (0, check.answered) else ((ledger check.account).1 + 1, check.answered))

/-- The world with the ledger of the checks so far. -/
structure Watched where
  world : World
  ledger : Ledger

def Watched.step {lib : Library} (directory : Directory lib) (w : Watched) (call : Call) : Watched :=
  ⟨(w.world.step directory call).1, w.ledger.enter (w.world.step directory call).2.check⟩

def Watched.run {lib : Library} (directory : Directory lib) (w : Watched) (calls : List Call) : Watched :=
  calls.foldl (Watched.step directory) w

end Arenyxa.Enterprise.Throttle

/-! How long a password is not checked after failures. -/

namespace Arenyxa.Enterprise.Throttle

theorem delay_nonneg (n : Nat) : 0 ≤ delay n := by
  unfold delay
  split
  · positivity
  · exact le_rfl

theorem delay_le (n : Nat) : delay n ≤ 30 := by
  unfold delay
  split
  · exact min_le_left _ _
  · norm_num

theorem delay_mono {m n : Nat} (le : m ≤ n) : delay m ≤ delay n := by
  by_cases three : 3 ≤ m
  · have steps : (2 : ℚ) ^ (m - 2) ≤ 2 ^ (n - 2) := pow_le_pow_right₀ (by norm_num) (by omega)
    rw [delay, delay, if_pos three, if_pos (three.trans le)]
    exact min_le_min le_rfl (by linarith)
  · rw [delay, if_neg three]
    exact delay_nonneg n

/-- The entries are ones that are loaded and saved as they are. -/
structure Sane (entries : Buckets) (clock : ℚ) : Prop where
  nonneg : 0 ≤ clock
  few : entries.length ≤ maxBuckets
  bounds : ∀ entry ∈ entries, entry.2.attempts ≤ 16 ∧ 0 ≤ entry.2.retryAt ∧ entry.2.retryAt ≤ clock + 30

variable {entries : Buckets} {clock now : ℚ} {key k : String}

theorem Sane.mono (sane : Sane entries clock) (later : clock ≤ now) : Sane entries now where
  nonneg := sane.nonneg.trans later
  few := sane.few
  bounds entry mem := by
    obtain ⟨attempts, low, high⟩ := sane.bounds entry mem
    exact ⟨attempts, low, high.trans (by linarith)⟩

theorem Sane.filter (sane : Sane entries clock) (keep : String × Failures → Bool) :
    Sane (entries.filter keep) clock where
  nonneg := sane.nonneg
  few := (List.length_filter_le _ _).trans sane.few
  bounds entry mem := sane.bounds entry (List.mem_of_mem_filter mem)

theorem Sane.load_eq (sane : Sane entries clock) (later : clock ≤ now) : load entries now = .ok entries := by
  have within : ¬maxBuckets < entries.length := not_lt.mpr sane.few
  have fine : ¬(entries.any fun entry => 16 < entry.2.attempts || entry.2.retryAt < 0) = true := by
    rw [List.any_eq_true]
    rintro ⟨entry, mem, wild⟩
    obtain ⟨attempts, low, _⟩ := sane.bounds entry mem
    rw [Bool.or_eq_true, decide_eq_true_iff, decide_eq_true_iff] at wild
    rcases wild with many | negative
    · omega
    · linarith
  rw [load, if_neg within, if_neg fine]
  congr 1
  refine (List.map_congr_left fun entry mem => ?_).trans entries.map_id
  rw [min_eq_left (((sane.bounds entry mem).2.2).trans (by linarith))]
  rfl

theorem Sane.save_eq (sane : Sane entries clock) : save entries = entries := by
  rw [save, Nat.sub_eq_zero_of_le sane.few, List.drop_zero]
  refine (List.map_congr_left fun entry mem => ?_).trans entries.map_id
  obtain ⟨attempts, low, _⟩ := sane.bounds entry mem
  rw [min_eq_right attempts, max_eq_right low]
  rfl

/-- The attempts of a bucket, none where there is no bucket. -/
def attemptsOf (entries : Buckets) (key : String) : Nat := ((entries.lookup key).map Failures.attempts).getD 0

/-- The entry that another failure leaves. -/
def failed (entries : Buckets) (key : String) (now : ℚ) : Failures :=
  ⟨min 16 (attemptsOf entries key + 1), now + delay (min 16 (attemptsOf entries key + 1))⟩

theorem withFailure_eq (entries : Buckets) (key : String) (now : ℚ) :
    withFailure entries key now = ((entries.filter fun entry => entry.1 ≠ key).drop
      ((entries.filter fun entry => entry.1 ≠ key).length + 1 - maxBuckets)) ++ [(key, failed entries key now)] := by
  rw [withFailure, List.length_append, List.length_singleton, List.drop_append_of_le_length]
  · rfl
  · have some : 1 ≤ maxBuckets := by decide
    omega

theorem Sane.withFailure (sane : Sane entries clock) (later : clock ≤ now) :
    Sane (withFailure entries key now) now where
  nonneg := sane.nonneg.trans later
  few := by
    rw [Throttle.withFailure, List.length_drop]
    omega
  bounds entry mem := by
    rw [withFailure_eq, List.mem_append] at mem
    rcases mem with old | new
    · exact (sane.mono later).bounds entry (List.mem_of_mem_filter (List.mem_of_mem_drop old))
    · rw [List.mem_singleton.mp new]
      have nonneg := delay_nonneg (min 16 (attemptsOf entries key + 1))
      have bounded := delay_le (min 16 (attemptsOf entries key + 1))
      have start := sane.nonneg.trans later
      exact ⟨min_le_left _ _, add_nonneg start nonneg, add_le_add le_rfl bounded⟩

theorem lookup_filter_ne (entries : Buckets) (other : k ≠ key) :
    (entries.filter fun entry => entry.1 ≠ key).lookup k = entries.lookup k := by
  induction entries with
  | nil => rfl
  | cons entry entries ih =>
    by_cases here : entry.1 = key
    · rw [List.filter_cons_of_neg (by simpa using here), ih, List.lookup_cons,
        beq_eq_false_iff_ne.mpr (here ▸ other)]
    · rw [List.filter_cons_of_pos (by simpa using here), List.lookup_cons, List.lookup_cons, ih]

theorem not_mem_keys_filter (entries : Buckets) : key ∉ Dict.keys (entries.filter fun entry => entry.1 ≠ key) := by
  intro mem
  obtain ⟨entry, kept, its⟩ := List.mem_map.mp mem
  have other := (List.mem_filter.mp kept).2
  simp [its] at other

theorem lookup_withFailure_self (entries : Buckets) (key : String) (now : ℚ) :
    (withFailure entries key now).lookup key = some (failed entries key now) := by
  have absent : key ∉ Dict.keys ((entries.filter fun entry => entry.1 ≠ key).drop
      ((entries.filter fun entry => entry.1 ≠ key).length + 1 - maxBuckets)) := by
    intro mem
    obtain ⟨entry, kept, its⟩ := List.mem_map.mp mem
    exact not_mem_keys_filter entries (its ▸ List.mem_map_of_mem (List.mem_of_mem_drop kept))
  rw [withFailure_eq, Dict.lookup_append_of_not_mem absent, List.lookup_cons, beq_self_eq_true]

/-- There is room for the bucket, or the oldest one may go. -/
def Spares (protect : String → Prop) (entries : Buckets) (key : String) : Prop :=
  entries.length < maxBuckets ∨ key ∈ Dict.keys entries ∨ ∀ entry, entries.head? = some entry → ¬protect entry.1

theorem lookup_withFailure_other {protect : String → Prop} (now : ℚ) (few : entries.length ≤ maxBuckets)
    (other : k ≠ key) (spares : Spares protect entries key) (protects : protect k) :
    (withFailure entries key now).lookup k = entries.lookup k := by
  have whole : ∀ kept : Buckets, (kept ++ [(key, failed entries key now)]).lookup k = kept.lookup k := by
    intro kept
    by_cases mem : k ∈ Dict.keys kept
    · exact Dict.lookup_append_of_mem mem
    · rw [Dict.lookup_append_of_not_mem mem, Dict.lookup_eq_none_iff.mpr mem, List.lookup_cons,
        beq_eq_false_iff_ne.mpr other, List.lookup_nil]
  rw [withFailure_eq, whole]
  by_cases room : (entries.filter fun entry => entry.1 ≠ key).length + 1 ≤ maxBuckets
  · rw [Nat.sub_eq_zero_of_le room, List.drop_zero, lookup_filter_ne entries other]
  · have full : (entries.filter fun entry => entry.1 ≠ key).length = maxBuckets := by
      have less := (List.length_filter_le (fun entry : String × Failures => decide (entry.1 ≠ key)) entries).trans few
      omega
    have all : (entries.filter fun entry => entry.1 ≠ key) = entries := by
      refine List.filter_eq_self.mpr (List.length_filter_eq_length_iff.mp ?_)
      exact le_antisymm (List.length_filter_le _ _) (few.trans full.ge)
    rw [full, all, Nat.add_sub_cancel_left]
    rw [all] at full
    rcases entries with _ | ⟨first, rest⟩
    · cases full
    · have apart : ¬protect first.1 := by
        rcases spares with less | known | old
        · exact absurd full less.ne
        · exact absurd (all ▸ known) (not_mem_keys_filter (first :: rest))
        · exact old first rfl
      have differs : k ≠ first.1 := fun its => apart (its ▸ protects)
      rw [List.drop_one, List.tail_cons, List.lookup_cons, beq_eq_false_iff_ne.mpr differs]

section Ledgers

/-- The bucket has counted the failures of the ledger, and waits for them. -/
def Covers (entries : Buckets) (clock : ℚ) (key : String) (record : Nat × ℚ) : Prop :=
  1 ≤ record.1 → record.2 ≤ clock ∧ ∃ failures, entries.lookup key = some failures ∧
    min record.1 16 ≤ failures.attempts ∧ (3 ≤ record.1 → record.2 + delay (min record.1 16) ≤ failures.retryAt)

variable {entries' : Buckets} {record : Nat × ℚ}

theorem Covers.same (covers : Covers entries clock k record) (same : entries'.lookup k = entries.lookup k)
    (later : clock ≤ now) : Covers entries' now k record := by
  intro some
  obtain ⟨past, failures, found, rest⟩ := covers some
  exact ⟨past.trans later, failures, same.trans found, rest⟩

theorem Covers.withFailure (covers : Covers entries clock key record) (later : clock ≤ now) :
    Covers (withFailure entries key now) now key record := by
  intro some
  obtain ⟨past, failures, found, counted, _⟩ := covers some
  have attempts : attemptsOf entries key = failures.attempts := by
    rw [attemptsOf, found]
    rfl
  have more : min record.1 16 ≤ min 16 (attemptsOf entries key + 1) := by
    rw [attempts]
    omega
  refine ⟨past.trans later, _, lookup_withFailure_self entries key now, more, fun _ => ?_⟩
  exact add_le_add (past.trans later) (delay_mono more)

theorem Covers.counted (covers : Covers entries clock key record) :
    Covers (Throttle.withFailure entries key now) now key (record.1 + 1, now) := by
  intro _
  have more : min (record.1 + 1) 16 ≤ min 16 (attemptsOf entries key + 1) := by
    by_cases some : 1 ≤ record.1
    · obtain ⟨_, failures, found, counted, _⟩ := covers some
      have attempts : attemptsOf entries key = failures.attempts := by
        rw [attemptsOf, found]
        rfl
      rw [attempts]
      omega
    · omega
  exact ⟨le_rfl, _, lookup_withFailure_self entries key now, more, fun _ => add_le_add le_rfl (delay_mono more)⟩

theorem covers_reset (last : ℚ) : Covers entries clock key (0, last) := fun some =>
  absurd some (Nat.not_succ_le_zero 0)

end Ledgers

section Steps

variable {lib : Library} {directory : Directory lib} {w : Watched} {account account' : Account}

theorem clip_eq {t : String} (short : t.toList.length ≤ 128) : clip t = t := by
  rw [clip, List.take_of_length_le short, String.ofList_toList]

theorem bucketOf_inj (mem : account ∈ directory.accounts) (mem' : account' ∈ directory.accounts)
    (same : bucketOf lib account = bucketOf lib account') : account = account' := by
  have names := lib.digest_injective same
  rw [clip_eq (directory.short account mem), clip_eq (directory.short account' mem')] at names
  exact List.inj_on_of_nodup_map (List.pairwise_map.mpr directory.names) mem mem' names

theorem id_inj (mem : account ∈ directory.accounts) (mem' : account' ∈ directory.accounts)
    (same : account.id = account'.id) : account = account' :=
  List.inj_on_of_nodup_map (List.pairwise_map.mpr directory.ids) mem mem' same

theorem accountByUsername_some {username : String} (found : accountByUsername directory username = some account) :
    account ∈ directory.accounts ∧ bucketOf lib account = bucketId lib username := by
  unfold accountByUsername at found
  refine ⟨List.mem_of_find?_eq_some found, ?_⟩
  have names := List.find?_some found
  rw [decide_eq_true_iff] at names
  rw [bucketOf, bucketId, names]

/-- The key is the bucket of an account. -/
def Owned (directory : Directory lib) (key : String) : Prop :=
  ∃ account ∈ directory.accounts, bucketOf lib account = key

structure Kept (directory : Directory lib) (w : Watched) : Prop where
  sane : Sane w.world.entries w.world.clock
  covers : ∀ account ∈ directory.accounts,
    Covers w.world.entries w.world.clock (bucketOf lib account) (w.ledger account.id)

theorem Kept.wait (kept : Kept directory w) {session : Option String} (later : w.world.clock ≤ now) :
    Kept directory ⟨⟨w.world.entries, session, now⟩, w.ledger⟩ where
  sane := kept.sane.mono later
  covers account mem := (kept.covers account mem).same rfl later

theorem Kept.fail (kept : Kept directory w) {reload recorded : ℚ} (later : w.world.clock ≤ reload)
    (last : reload ≤ recorded) (spares : Spares (Owned directory) w.world.entries key) {check : Option Check}
    (own : ∀ c, check = some c → c.passed = false ∧ c.answered = recorded ∧
      ∃ account ∈ directory.accounts, account.id = c.account ∧ bucketOf lib account = key) :
    Kept directory ⟨(w.world.fail key reload recorded check).1, w.ledger.enter check⟩ := by
  have sane : Sane (withFailure w.world.entries key recorded) recorded := kept.sane.withFailure (later.trans last)
  rw [World.fail, kept.sane.load_eq later]
  dsimp only
  rw [sane.save_eq]
  refine ⟨?_, fun account mem => ?_⟩ <;> dsimp only
  · exact sane
  have before := kept.covers account mem
  by_cases here : bucketOf lib account = key
  · rw [here] at before ⊢
    rcases check with _ | c
    · exact before.withFailure (later.trans last)
    · obtain ⟨failed, answered, other, mem', id, bucket⟩ := own c rfl
      cases bucketOf_inj mem mem' (here.trans bucket.symm)
      rw [Ledger.enter, failed, answered, ← id, Function.update_self]
      exact before.counted
  · have unchanged := lookup_withFailure_other recorded kept.sane.few here spares ⟨account, mem, rfl⟩
    have same : (w.ledger.enter check) account.id = w.ledger account.id := by
      rcases check with _ | c
      · rfl
      · obtain ⟨_, _, other, mem', id, bucket⟩ := own c rfl
        refine Function.update_of_ne (fun its => here ?_) _ _
        rw [id_inj mem mem' (its.trans id.symm), bucket]
    rw [same]
    exact before.same unchanged (later.trans last)

theorem Kept.succeed (kept : Kept directory w) {reload : ℚ} (issued : Bool) (later : w.world.clock ≤ reload)
    (mem : account ∈ directory.accounts) (bucket : bucketOf lib account = key) (check : Check)
    (passed : check.passed = true) (id : check.account = account.id) :
    Kept directory ⟨(w.world.succeed account key reload issued check).1, w.ledger.enter (some check)⟩ ∧
      ∀ other ∈ directory.accounts, other.id ≠ check.account →
        (w.world.succeed account key reload issued check).1.entries.lookup (bucketOf lib other) =
          w.world.entries.lookup (bucketOf lib other) := by
  have sane := (kept.sane.mono later).filter (fun entry => decide (entry.1 ≠ key))
  rw [World.succeed, kept.sane.load_eq later]
  dsimp only
  rw [sane.save_eq]
  have others : ∀ other ∈ directory.accounts, other.id ≠ check.account →
      (if key ∈ Dict.keys w.world.entries then w.world.entries.filter fun entry => entry.1 ≠ key
        else w.world.entries).lookup (bucketOf lib other) = w.world.entries.lookup (bucketOf lib other) := by
    intro other mem' differs
    have apart : bucketOf lib other ≠ key := by
      intro same
      rw [bucketOf_inj mem' mem (same.trans bucket.symm), id] at differs
      exact differs rfl
    split
    · exact lookup_filter_ne _ apart
    · rfl
  refine ⟨⟨?_, fun other mem' => ?_⟩, others⟩
  · dsimp only
    split
    · exact sane
    · exact kept.sane.mono later
  · dsimp only
    by_cases own : other.id = check.account
    · rw [Ledger.enter, passed, own, Function.update_self]
      exact covers_reset _
    · have same : (w.ledger.enter (some check)) other.id = w.ledger other.id := Function.update_of_ne own _ _
      rw [same]
      exact (kept.covers other mem').same (others other mem' own) later

end Steps

end Arenyxa.Enterprise.Throttle
