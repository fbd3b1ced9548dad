import Arenyxa.Enterprise.Throttle

/-! A run of logins and step-ups: which passwords are checked, and when. -/

namespace Arenyxa.Enterprise.Throttle

variable {lib : Library} {directory : Directory lib} {w : Watched} {call : Call}

/-- A step-up checks a right password of an account that does not wait, and a failed login leaves the buckets of the
accounts in the table. -/
def Fair (directory : Directory lib) (w : World) : Call → Prop
  | .login username password _ _ _ _ _ => Spares (Owned directory) w.entries (bucketId lib username) ∨
      ∃ account, accountByUsername directory username = some account ∧ account.enabled = true ∧
        account.verifies password = true
  | .stepUp password current asking => ∀ id account, w.session = some id →
      (directory.accounts.find? fun account => account.id = id) = some account → current = true →
      account.verifies password = true ∧
        ∀ failures, w.entries.lookup (bucketOf lib account) = some failures → failures.retryAt ≤ w.clock + asking
  | _ => True

/-- The wait after failed checks has passed when a password is checked. -/
def Waited (ledger : Ledger) (check : Check) : Prop :=
  3 ≤ (ledger check.account).1 →
    (ledger check.account).2 + min 30 (1 / 2 * 2 ^ (min (ledger check.account).1 16 - 2)) ≤ check.asked

/-- What a call under the condition comes to. -/
structure Good (directory : Directory lib) (w : Watched) (call : Call) : Prop where
  kept : Kept directory (w.step directory call)
  waited : ∀ check, (w.world.step directory call).2.check = some check → Waited w.ledger check
  others : ∀ check, (w.world.step directory call).2.check = some check → check.passed = true →
    ∀ account ∈ directory.accounts, account.id ≠ check.account →
      (w.world.step directory call).1.entries.lookup (bucketOf lib account) =
        w.world.entries.lookup (bucketOf lib account)

theorem Kept.waited {account : Account} (kept : Kept directory w) (mem : account ∈ directory.accounts)
    {check : Check} (id : check.account = account.id)
    (due : ((w.world.entries.lookup (bucketOf lib account)).map Failures.retryAt).getD 0 ≤ check.asked) :
    Waited w.ledger check := by
  intro three
  rw [id] at three ⊢
  obtain ⟨_, failures, found, _, waits⟩ := kept.covers account mem (by omega)
  rw [found] at due
  have formula : delay (min (w.ledger account.id).1 16) =
      min 30 (1 / 2 * 2 ^ (min (w.ledger account.id).1 16 - 2)) := if_pos (by omega)
  rw [← formula]
  exact (waits three).trans due

theorem good_of_unchecked (unchecked : (w.world.step directory call).2.check = none)
    (kept : Kept directory ⟨(w.world.step directory call).1, w.ledger⟩) : Good directory w call where
  kept := by
    rw [Watched.step, unchecked]
    exact kept
  waited check its := nomatch unchecked.symm.trans its
  others check its := nomatch unchecked.symm.trans its

theorem fail_check (v : World) (key : String) (reload recorded : ℚ) (check : Option Check) :
    (v.fail key reload recorded check).2.check = check := by
  unfold World.fail
  split <;> rfl

theorem succeed_check (v : World) (account : Account) (key : String) (reload : ℚ) (issued : Bool) (check : Check) :
    (v.succeed account key reload issued check).2.check = some check := by
  unfold World.succeed
  split <;> rfl

theorem good_login (kept : Kept directory w) {username password : String}
    {loading asking reloading recording : NNRat} {issued : Bool}
    (fair : Fair directory w.world (.login username password loading asking reloading recording issued)) :
    Good directory w (.login username password loading asking reloading recording issued) := by
  have loaded : w.world.clock ≤ w.world.clock + loading := le_add_of_nonneg_right loading.2
  have asked := loaded.trans (le_add_of_nonneg_right asking.2)
  have reloaded := asked.trans (le_add_of_nonneg_right reloading.2)
  have recorded : w.world.clock + loading + asking + reloading ≤
      w.world.clock + loading + asking + reloading + recording := le_add_of_nonneg_right recording.2
  by_cases early : w.world.clock + loading + asking <
      ((w.world.entries.lookup (bucketId lib username)).map Failures.retryAt).getD 0
  · have limited : w.world.step directory (.login username password loading asking reloading recording issued) =
        ({ w.world with clock := w.world.clock + loading + asking }, ⟨.error .rateLimited, none⟩) := by
      rw [World.step, kept.sane.load_eq loaded]
      exact if_pos early
    refine good_of_unchecked ?_ ?_ <;> rw [limited]
    exact kept.wait asked
  have due := not_lt.mp early
  have entered : w.world.step directory (.login username password loading asking reloading recording issued) =
      (accountByUsername directory username).elim
        (w.world.fail (bucketId lib username) (w.world.clock + loading + asking + reloading)
          (w.world.clock + loading + asking + reloading + recording) none) fun account =>
        if !account.enabled then w.world.fail (bucketId lib username) (w.world.clock + loading + asking + reloading)
          (w.world.clock + loading + asking + reloading + recording) none
        else if account.verifies password then
          w.world.succeed account (bucketId lib username) (w.world.clock + loading + asking + reloading) issued
            ⟨account.id, true, w.world.clock + loading + asking, w.world.clock + loading + asking + reloading⟩
        else w.world.fail (bucketId lib username) (w.world.clock + loading + asking + reloading)
          (w.world.clock + loading + asking + reloading + recording) (some ⟨account.id, false,
            w.world.clock + loading + asking, w.world.clock + loading + asking + reloading + recording⟩) := by
    rw [World.step, kept.sane.load_eq loaded]
    refine (if_neg early).trans ?_
    cases accountByUsername directory username <;> rfl
  have spared : (∀ account, accountByUsername directory username = some account → account.enabled = true →
      account.verifies password ≠ true) → Spares (Owned directory) w.world.entries (bucketId lib username) :=
    fun wrong => fair.resolve_right fun right => right.elim fun account its => wrong account its.1 its.2.1 its.2.2
  have unchecked : Spares (Owned directory) w.world.entries (bucketId lib username) →
      w.world.step directory (.login username password loading asking reloading recording issued) =
        w.world.fail (bucketId lib username) (w.world.clock + loading + asking + reloading)
          (w.world.clock + loading + asking + reloading + recording) none →
      Good directory w (.login username password loading asking reloading recording issued) := by
    intro spares step
    refine good_of_unchecked ?_ ?_ <;> rw [step]
    · exact fail_check _ _ _ _ none
    · exact kept.fail reloaded recorded spares (by simp)
  rcases found : accountByUsername directory username with _ | account
  · rw [found] at entered
    exact unchecked (spared fun account its => by cases found.symm.trans its) entered
  obtain ⟨mem, bucket⟩ := accountByUsername_some found
  rw [found, Option.elim_some] at entered
  rcases enabled : account.enabled with _ | _
  · rw [enabled] at entered
    refine unchecked (spared fun other its on => ?_) entered
    cases found.symm.trans its
    cases enabled.symm.trans on
  rw [enabled, Bool.not_true, if_neg Bool.false_ne_true] at entered
  rcases right : account.verifies password with _ | _
  · rw [right, if_neg Bool.false_ne_true] at entered
    have spares := spared fun other its _ yes => by
      cases found.symm.trans its
      cases right.symm.trans yes
    constructor
    · rw [Watched.step, entered, fail_check]
      refine kept.fail reloaded recorded spares fun c its => ?_
      cases its
      exact ⟨rfl, rfl, account, mem, rfl, bucket⟩
    · intro check its
      rw [entered, fail_check] at its
      cases its
      exact kept.waited mem rfl (bucket ▸ due)
    · intro check its passed
      rw [entered, fail_check] at its
      cases its
      cases passed
  · rw [right, if_pos rfl] at entered
    obtain ⟨after, others⟩ := kept.succeed issued reloaded mem bucket ⟨account.id, true,
      w.world.clock + loading + asking, w.world.clock + loading + asking + reloading⟩ rfl rfl
    constructor
    · rw [Watched.step, entered, succeed_check]
      exact after
    · intro check its
      rw [entered, succeed_check] at its
      cases its
      exact kept.waited mem rfl (bucket ▸ due)
    · intro check its passed other mem' differs
      rw [entered, succeed_check] at its
      cases its
      rw [entered]
      exact others other mem' differs

theorem good_stepUp (kept : Kept directory w) {password : String} {current : Bool} {asking : NNRat}
    (fair : Fair directory w.world (.stepUp password current asking)) :
    Good directory w (.stepUp password current asking) := by
  have asked : w.world.clock ≤ w.world.clock + asking := le_add_of_nonneg_right asking.2
  have refused : w.world.step directory (.stepUp password current asking) =
      ({ w.world with clock := w.world.clock + asking }, ⟨.error .sessionInvalid, none⟩) →
      Good directory w (.stepUp password current asking) := by
    intro step
    refine good_of_unchecked ?_ ?_ <;> rw [step]
    exact kept.wait asked
  rcases found : w.world.session.bind fun id => directory.accounts.find? fun account => account.id = id with
    _ | account
  · refine refused ?_
    rw [World.step, found]
  rcases its : current with _ | _
  · rw [its] at refused
    refine refused ?_
    rw [World.step, found]
    rfl
  obtain ⟨id, session, which⟩ := Option.bind_eq_some_iff.mp found
  obtain ⟨right, idle⟩ := fair id account session which its
  have mem := List.mem_of_find?_eq_some which
  have passed : w.world.step directory (.stepUp password true asking) =
      ({ w.world with clock := w.world.clock + asking }, ⟨.ok (), some ⟨account.id, true, w.world.clock + asking,
        w.world.clock + asking⟩⟩) := by
    rw [World.step, found]
    dsimp only
    rw [Bool.not_true, if_neg Bool.false_ne_true, right, if_pos rfl]
  constructor
  · rw [Watched.step, passed]
    refine ⟨kept.sane.mono asked, fun other mem' => ?_⟩
    dsimp only
    by_cases own : other.id = account.id
    · rw [Ledger.enter, own, Function.update_self]
      exact covers_reset _
    · rw [Ledger.enter, Function.update_of_ne own]
      exact (kept.covers other mem').same rfl asked
  · intro check shown
    rw [passed] at shown
    cases shown
    refine kept.waited mem rfl ?_
    rcases bucket : w.world.entries.lookup (bucketOf lib account) with _ | failures
    · exact kept.sane.nonneg.trans asked
    · exact idle failures bucket
  · intro check shown _ other _ _
    rw [passed]

theorem Kept.good (kept : Kept directory w) (fair : Fair directory w.world call) : Good directory w call := by
  cases call with
  | login username password loading asking reloading recording issued => exact good_login kept fair
  | stepUp password current asking => exact good_stepUp kept fair
  | logout => exact good_of_unchecked rfl (kept.wait le_rfl)
  | restart => exact good_of_unchecked rfl (kept.wait le_rfl)

/-- Every call of the run meets the condition. -/
def AllFair (directory : Directory lib) (w : Watched) : List Call → Prop
  | [] => True
  | call :: calls => Fair directory w.world call ∧ AllFair directory (w.step directory call) calls

theorem Kept.run (kept : Kept directory w) {before after : List Call} (fair : AllFair directory w (before ++ after)) :
    Kept directory (w.run directory before) ∧ AllFair directory (w.run directory before) after := by
  induction before generalizing w with
  | nil => exact ⟨kept, fair⟩
  | cons call before ih => exact ih (kept.good fair.1).kept fair.2

/-- No failures so far, at some time. -/
def Watched.start (clock : NNRat) : Watched := ⟨⟨[], none, clock⟩, fun _ => (0, 0)⟩

theorem kept_start (directory : Directory lib) (clock : NNRat) : Kept directory (Watched.start clock) where
  sane := ⟨clock.2, Nat.zero_le _, fun _ mem => nomatch mem⟩
  covers _ _ := covers_reset 0

/-- In a run whose calls meet the condition no password is checked before the wait after its failures has passed, and a
passed check leaves the buckets of the other accounts. -/
theorem guessing_throttled (directory : Directory lib) (clock : NNRat) (calls : List Call)
    (fair : AllFair directory (Watched.start clock) calls) (before : List Call) (call : Call)
    (reached : before ++ [call] <+: calls) (check : Check)
    (checked : (((Watched.start clock).run directory before).world.step directory call).2.check = some check) :
    Waited ((Watched.start clock).run directory before).ledger check ∧
      (check.passed = true → ∀ account ∈ directory.accounts, account.id ≠ check.account →
        (((Watched.start clock).run directory before).world.step directory call).1.entries.lookup
          (bucketOf lib account) =
        ((Watched.start clock).run directory before).world.entries.lookup (bucketOf lib account)) := by
  obtain ⟨rest, rfl⟩ := reached
  rw [List.append_assoc] at fair
  obtain ⟨kept, fair⟩ := (kept_start directory clock).run fair
  have good := kept.good fair.1
  exact ⟨good.waited check checked, good.others check checked⟩

section Samples

def sampleLibrary : Library := ⟨id, id, id, fun _ _ same => same⟩

def alice : Account := ⟨"account_1", "alice", true, (· == "right")⟩

def sampleDirectory : Directory sampleLibrary where
  accounts := [alice]
  ids := List.pairwise_singleton _ _
  names := List.pairwise_singleton _ _
  short := List.forall_mem_singleton.mpr (by decide)

def attempt (password : String) (wait : NNRat) : Call := .login "alice" password wait 0 0 0 true

/-- Three wrong passwords, and the right one after the wait. -/
def sampleCalls : List Call := [attempt "1" 0, attempt "2" 0, attempt "3" 0, attempt "right" 1]

theorem sampleCalls_fair : AllFair sampleDirectory (Watched.start 0) sampleCalls :=
  ⟨.inl (.inl (by decide +kernel)), .inl (.inl (by decide +kernel)), .inl (.inl (by decide +kernel)),
    .inl (.inl (by decide +kernel)), trivial⟩

theorem guessing_throttled_sample :
    Waited ((Watched.start 0).run sampleDirectory (sampleCalls.take 3)).ledger ⟨"account_1", true, 1, 1⟩ :=
  (guessing_throttled sampleDirectory 0 sampleCalls sampleCalls_fair (sampleCalls.take 3) (attempt "right" 1)
    (List.prefix_refl _) ⟨"account_1", true, 1, 1⟩ (by decide +kernel)).1

/-- A login, and three wrong passwords at once for a step-up. -/
def guesses : List Call := [attempt "right" 0, .stepUp "1" true 0, .stepUp "2" true 0, .stepUp "3" true 0]

/-- The fourth password is checked without a wait. -/
theorem stepUp_unthrottled :
    (((Watched.start 0).run sampleDirectory guesses).world.step sampleDirectory (.stepUp "4" true 0)).2.check =
      some ⟨"account_1", false, 0, 0⟩ ∧
    ¬Waited ((Watched.start 0).run sampleDirectory guesses).ledger ⟨"account_1", false, 0, 0⟩ := by
  have failures : ((Watched.start 0).run sampleDirectory guesses).ledger "account_1" = (3, 0) := by decide +kernel
  refine ⟨by decide +kernel, fun waited => ?_⟩
  unfold Waited at waited
  rw [failures] at waited
  norm_num at waited

end Samples

end Arenyxa.Enterprise.Throttle
