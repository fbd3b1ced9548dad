import Arenyxa.Lib.Dict
import Arenyxa.Lib.Window
import Mathlib.Algebra.BigOperators.Group.List.Basic
import Mathlib.Data.List.DropRight
import Mathlib.Data.List.Perm.Subperm

/-! The limits on the rate of remote requests, and what a peer gains when other keys are sprayed in between. -/

namespace Arenyxa.Enterprise.Rates

open Windows

structure Request where
  now : ℚ
  key : String

/-- `key[:length] or "unknown"` -/
def clip (length : Nat) (key : String) : String :=
  let clipped := String.ofList (key.toList.take length)
  if clipped = "" then "unknown" else clipped

/-- The buckets, the one that was used last at the end. -/
abbrev Buckets := List (String × Window)

/-- `buckets[key] = window` and `move_to_end(key)` -/
def touch (buckets : Buckets) (key : String) (window : Window) : Buckets :=
  buckets.filter (·.1 ≠ key) ++ [(key, window)]

/-- `BoundedWindowRateLimiter` -/
structure Limiter where
  maxBuckets : Nat
  buckets : Buckets
  overflowWindow : Window
  overflowRejections : Nat

def Limiter.init (maxBuckets : Int) (now : ℚ) : Limiter := ⟨(max 1 maxBuckets).toNat, [], ⟨now, 0⟩, 0⟩

section Limiter

variable (limit : Int) (windowSeconds : ℚ)

def ceiling : Nat := (max 1 limit).toNat

def overflowCeiling (maxBuckets : Nat) : Nat := max (ceiling limit) (min (ceiling limit * 4) (ceiling limit + maxBuckets))

/-- `_prune_expired_locked` -/
def pruneExpired (buckets : Buckets) (now : ℚ) : Buckets := buckets.filter fun b => !b.2.lapsed (max 1 windowSeconds) now

def Limiter.allow (l : Limiter) (r : Request) : Bool × Limiter :=
  let key := clip 256 r.key
  match l.buckets.lookup key with
  | some existing =>
    let window := existing.hit (max 1 windowSeconds) r.now
    (window.count ≤ ceiling limit, { l with buckets := touch l.buckets key window })
  | none =>
    let live := pruneExpired windowSeconds l.buckets r.now
    if live.length < l.maxBuckets then (true, { l with buckets := live ++ [(key, ⟨r.now, 1⟩)] })
    else
      let window := l.overflowWindow.hit (max 1 windowSeconds) r.now
      let allowed := decide (window.count ≤ overflowCeiling limit l.maxBuckets)
      (allowed, { l with
        buckets := live
        overflowWindow := window
        overflowRejections := if allowed then l.overflowRejections else l.overflowRejections + 1 })

/-- The request has no bucket of its own and no room for one: the overflow window decides. -/
def Limiter.overflows (l : Limiter) (r : Request) : Bool :=
  l.buckets.lookup (clip 256 r.key) = none ∧ ¬(pruneExpired windowSeconds l.buckets r.now).length < l.maxBuckets

end Limiter

def maxRateBuckets : Nat := 512

def maxRequestsPerMinute : Nat := 180

/-- `while len(buckets) > MAX_RATE_BUCKETS: buckets.popitem(last=False)` -/
def dropOldest (buckets : Buckets) : Buckets := buckets.drop (buckets.length - maxRateBuckets)

/-- `OfficeCoordinatorService._allow_remote_request` -/
def allowRemoteRequest (buckets : Buckets) (r : Request) : Bool × Buckets :=
  let key := clip 128 r.key
  let window := ((buckets.lookup key).getD ⟨r.now, 0⟩).hit 60 r.now
  (window.count ≤ maxRequestsPerMinute, dropOldest (touch buckets key window))

section Credits

variable {buckets : Buckets} {key : String} {window : Window} {since till length now : ℚ} {n : Nat} {p : String → Bool}

/-- The credit of the buckets of some keys. -/
def credits (p : String → Bool) (since : ℚ) (limit : Nat) (buckets : Buckets) : Int :=
  (buckets.map fun b => if p b.1 then b.2.credit since limit else 0).sum

theorem credits_bounds (buckets : Buckets) : -((n * buckets.countP (p ·.1) : Nat) : Int) ≤ credits p since n buckets ∧
    credits p since n buckets ≤ (n * buckets.countP (p ·.1) : Nat) := by
  induction buckets with
  | nil => exact ⟨le_rfl, le_rfl⟩
  | cons b buckets ih =>
    have own := @Window.credit_bounds since n b.2
    rw [List.countP_cons, credits, List.map_cons, List.sum_cons]
    split
    next => rw [Nat.mul_succ]; push_cast at ih ⊢; simp only [credits] at ih; omega
    next => simpa [credits] using ih

theorem credits_append (buckets later : Buckets) :
    credits p since n (buckets ++ later) = credits p since n buckets + credits p since n later := by
  rw [credits, List.map_append, List.sum_append]
  rfl

theorem credits_singleton : credits p since n [(key, window)] = if p key then window.credit since n else 0 :=
  List.sum_singleton

/-- A key's bucket and the other buckets. -/
theorem perm_split (nodup : (Dict.keys buckets).Nodup) (found : buckets.lookup key = some window) :
    buckets.Perm (buckets.filter (·.1 ≠ key) ++ [(key, window)]) := by
  obtain ⟨before, after, rfl, others⟩ := List.lookup_eq_some_iff.mp found
  rw [Dict.keys, List.map_append, List.map_cons, List.nodup_middle, List.nodup_cons, ← List.map_append] at nodup
  have kept : (before ++ after).filter (·.1 ≠ key) = before ++ after :=
    List.filter_eq_self.mpr fun b mem => decide_eq_true fun same => nodup.1 (List.mem_map.mpr ⟨b, mem, same⟩)
  rw [List.filter_append] at kept
  rw [List.filter_append, List.filter_cons_of_neg (by simp), kept]
  exact List.perm_middle.trans (List.perm_append_singleton ..).symm

theorem credits_split (nodup : (Dict.keys buckets).Nodup) (found : buckets.lookup key = some window) :
    credits p since n buckets =
      credits p since n (buckets.filter (·.1 ≠ key)) + if p key then window.credit since n else 0 := by
  rw [← credits_singleton, ← credits_append, credits, ((perm_split nodup found).map _).sum_eq]
  rfl

theorem length_touch (nodup : (Dict.keys buckets).Nodup) (found : buckets.lookup key = some window) {next : Window} :
    (touch buckets key next).length = buckets.length := by
  rw [(perm_split nodup found).length_eq, touch, List.length_append, List.length_append]
  rfl

theorem nodup_touch (key : String) (window : Window) (nodup : (Dict.keys buckets).Nodup) : (Dict.keys (touch buckets key window)).Nodup := by
  rw [touch, Dict.keys, List.map_append]
  refine List.nodup_append.mpr ⟨nodup.sublist (List.filter_sublist.map _), List.nodup_singleton _, ?_⟩
  rintro _ mem k' its rfl
  obtain ⟨b, mem, same⟩ := List.mem_map.mp mem
  exact of_decide_eq_true (List.mem_filter.mp mem).2 (same.trans (List.mem_singleton.mp its))

/-- The buckets that are dropped had lapsed, and so no credit. -/
theorem credits_pruneExpired (short : till - since < max 1 length) (inside : now ≤ till) (buckets : Buckets) :
    credits p since n buckets ≤ credits p since n (pruneExpired length buckets now) := by
  induction buckets with
  | nil => exact le_rfl
  | cons b buckets ih =>
    have whole (rest : Buckets) : credits p since n (b :: rest) =
        (if p b.1 then b.2.credit since n else 0) + credits p since n rest := rfl
    rw [whole]
    cases lapsed : b.2.lapsed (max 1 length) now with
    | false =>
      have kept : pruneExpired length (b :: buckets) now = b :: pruneExpired length buckets now :=
        List.filter_cons_of_pos (by rw [lapsed]; rfl)
      rw [kept, whole]
      exact Int.add_le_add_left ih _
    | true =>
      have dropped : pruneExpired length (b :: buckets) now = pruneExpired length buckets now :=
        List.filter_cons_of_neg (by rw [lapsed]; exact Bool.false_ne_true)
      have past := Window.credit_lapsed (n := n) short inside lapsed
      rw [dropped]
      split <;> omega

end Credits

section Bounded

variable {k : Int} {windowSeconds since till : ℚ} {l : Limiter} {r : Request} {p : String → Bool}

/-- The keys are distinct and no more than there may be. -/
structure Limiter.Bounded (max : Nat) (l : Limiter) : Prop where
  max_eq : l.maxBuckets = max
  nodup : (Dict.keys l.buckets).Nodup
  few : l.buckets.length ≤ max

theorem Limiter.Bounded.allow {n : Nat} (h : l.Bounded n) : (l.allow k windowSeconds r).2.Bounded n := by
  have part : (pruneExpired windowSeconds l.buckets r.now).Sublist l.buckets := List.filter_sublist
  rw [Limiter.allow]
  split
  next existing found => exact ⟨h.max_eq, nodup_touch _ _ h.nodup, (length_touch h.nodup found).trans_le h.few⟩
  next absent =>
    dsimp only
    split
    next room =>
      refine ⟨h.max_eq, ?_, ?_⟩
      · rw [Dict.keys, List.map_append]
        refine List.nodup_append.mpr ⟨h.nodup.sublist (part.map _), List.nodup_singleton _, fun k mem k' its same => ?_⟩
        rw [same, List.mem_singleton.mp its] at mem
        exact Dict.lookup_eq_none_iff.mp absent ((part.map _).subset mem)
      · rw [List.length_append]
        exact h.max_eq ▸ room
    next => exact ⟨h.max_eq, h.nodup.sublist (part.map _), part.length_le.trans h.few⟩

theorem Limiter.allow_own {existing : Window} (found : l.buckets.lookup (clip 256 r.key) = some existing) :
    l.allow k windowSeconds r =
      (decide ((existing.hit (max 1 windowSeconds) r.now).count ≤ ceiling k),
        { l with buckets := touch l.buckets (clip 256 r.key) (existing.hit (max 1 windowSeconds) r.now) }) := by
  simp only [Limiter.allow, found]

theorem Limiter.allow_opens (absent : l.buckets.lookup (clip 256 r.key) = none)
    (room : (pruneExpired windowSeconds l.buckets r.now).length < l.maxBuckets) :
    l.allow k windowSeconds r =
      (true, { l with buckets := pruneExpired windowSeconds l.buckets r.now ++ [(clip 256 r.key, ⟨r.now, 1⟩)] }) := by
  simp only [Limiter.allow, absent, if_pos room]

/-- What a bucket of its own grants a request is paid by the credit of the buckets. -/
theorem Limiter.credits_allow (nodup : (Dict.keys l.buckets).Nodup) (short : till - since < max 1 windowSeconds)
    (started : since ≤ r.now) (inside : r.now ≤ till) :
    (if p (clip 256 r.key) && (l.allow k windowSeconds r).1 && !l.overflows windowSeconds r then 1 else 0) +
        credits p since (ceiling k) l.buckets ≤ credits p since (ceiling k) (l.allow k windowSeconds r).2.buckets := by
  have pruned := credits_pruneExpired (p := p) (n := ceiling k) short inside l.buckets
  cases found : l.buckets.lookup (clip 256 r.key) with
  | some existing =>
    have paid := Window.credit_hit (w := existing) (n := ceiling k) short started inside
    rw [allow_own found, credits_split nodup found, touch, credits_append, credits_singleton]
    cases p (clip 256 r.key) <;> simp [overflows, found]
    omega
  | none =>
    by_cases room : (pruneExpired windowSeconds l.buckets r.now).length < l.maxBuckets
    · have one : min 1 (ceiling k) = 1 := by rw [ceiling]; omega
      rw [allow_opens found room, credits_append, credits_singleton, Window.credit_open started, one]
      cases p (clip 256 r.key) <;> simp [overflows, found, room] <;> omega
    · have full : l.overflows windowSeconds r = true := decide_eq_true ⟨found, room⟩
      rw [full, Limiter.allow, found]
      simpa [room] using pruned

/-- What the overflow window grants is paid by its credit. -/
theorem Limiter.overflow_allow (short : till - since < max 1 windowSeconds) (started : since ≤ r.now) (inside : r.now ≤ till) :
    (if (l.allow k windowSeconds r).1 && l.overflows windowSeconds r then 1 else 0) +
        l.overflowWindow.credit since (overflowCeiling k l.maxBuckets) ≤
      (l.allow k windowSeconds r).2.overflowWindow.credit since (overflowCeiling k l.maxBuckets) := by
  have paid := Window.credit_hit (w := l.overflowWindow) (n := overflowCeiling k l.maxBuckets) short started inside
  cases found : l.buckets.lookup (clip 256 r.key) with
  | some existing => simp [allow_own found, overflows, found]
  | none =>
    by_cases room : (pruneExpired windowSeconds l.buckets r.now).length < l.maxBuckets
    · simp [allow_opens found room, overflows, found, room]
    · have full : l.overflows windowSeconds r = true := decide_eq_true ⟨found, room⟩
      rw [full, Limiter.allow, found]
      simpa [room] using paid

end Bounded

section Office

variable {buckets : Buckets} {others : List String} {key : String} {window : Window} {since till : ℚ} {r : Request}

/-- A key's bucket, where only some others have been used since. -/
def held (others : List String) (key : String) (buckets : Buckets) : Option Window :=
  match buckets.dropWhile (·.1 ≠ key) with
  | [] => none
  | own :: after => if ∀ b ∈ after, b.1 ∈ others then some own.2 else none

theorem held_split (found : held others key buckets = some window) :
    ∃ before after, buckets = before ++ (key, window) :: after ∧ (∀ b ∈ before, b.1 ≠ key) ∧ ∀ b ∈ after, b.1 ∈ others := by
  rw [held] at found
  split at found
  next => cases found
  next own after rest =>
    split at found
    next covered =>
      obtain ⟨key', window'⟩ := own
      have first := List.dropWhile_get_zero_not (fun b : String × Window => decide (b.1 ≠ key)) buckets (by rw [rest]; simp)
      simp only [rest, List.get_eq_getElem, List.getElem_cons_zero, decide_eq_true_eq, not_not] at first
      subst first
      cases found
      refine ⟨buckets.takeWhile (·.1 ≠ key'), after, ?_, fun b mem => ?_, covered⟩
      · rw [← rest]
        exact List.takeWhile_append_dropWhile.symm
      · simpa using List.mem_takeWhile_imp mem
    next => cases found

theorem held_append {before after : Buckets} (apart : ∀ b ∈ before, b.1 ≠ key) (covered : ∀ b ∈ after, b.1 ∈ others) :
    held others key (before ++ (key, window) :: after) = some window := by
  have rest : (before ++ (key, window) :: after).dropWhile (·.1 ≠ key) = (key, window) :: after := by
    rw [List.dropWhile_append_of_pos fun b mem => decide_eq_true (apart b mem), List.dropWhile_cons_of_neg (by simp)]
  rw [held, rest]
  exact if_pos covered

/-- The credit of a key's bucket, or the least where it may be dropped. -/
def keyCredit (since : ℚ) (others : List String) (key : String) (buckets : Buckets) : Int :=
  (held others key buckets).elim (-maxRequestsPerMinute : Int) (Window.credit since maxRequestsPerMinute)

theorem keyCredit_bounds : -(maxRequestsPerMinute : Int) ≤ keyCredit since others key buckets ∧
    keyCredit since others key buckets ≤ maxRequestsPerMinute := by
  rw [keyCredit]
  cases held others key buckets with
  | none => exact ⟨le_rfl, by simp only [Option.elim_none]; omega⟩
  | some window => exact Window.credit_bounds

structure Kept (buckets : Buckets) : Prop where
  nodup : (Dict.keys buckets).Nodup
  few : buckets.length ≤ maxRateBuckets

theorem dropOldest_sublist : (dropOldest buckets).Sublist buckets := List.drop_sublist ..

theorem length_dropOldest : (dropOldest buckets).length ≤ maxRateBuckets := by
  rw [dropOldest, List.length_drop]
  generalize maxRateBuckets = most
  omega

theorem dropOldest_append (before rest : Buckets) (few : rest.length ≤ maxRateBuckets) :
    ∃ n, dropOldest (before ++ rest) = before.drop n ++ rest := by
  unfold dropOldest
  generalize maxRateBuckets = most at few
  exact ⟨_, List.drop_append_of_le_length (by rw [List.length_append]; omega)⟩

theorem kept_dropOldest (nodup : (Dict.keys buckets).Nodup) : Kept (dropOldest buckets) :=
  ⟨nodup.sublist (dropOldest_sublist.map _), length_dropOldest⟩

theorem Kept.next (h : Kept buckets) : Kept (allowRemoteRequest buckets r).2 := by
  simp only [allowRemoteRequest]
  exact kept_dropOldest (nodup_touch _ _ h.nodup)

theorem keyCredit_own (few : others.length < maxRateBuckets) (own : clip 128 r.key = key) (short : till - since < 60)
    (started : since ≤ r.now) (inside : r.now ≤ till) :
    (if (allowRemoteRequest buckets r).1 then 1 else 0) + keyCredit since others key buckets ≤
      keyCredit since others key (allowRemoteRequest buckets r).2 := by
  obtain ⟨next, next_eq⟩ : ∃ next, ((buckets.lookup key).getD ⟨r.now, 0⟩).hit 60 r.now = next := ⟨_, rfl⟩
  have after : held others key (allowRemoteRequest buckets r).2 = some next := by
    obtain ⟨n, last⟩ := dropOldest_append (buckets.filter (·.1 ≠ key)) [(key, next)]
      (Nat.succ_le_of_lt (Nat.zero_lt_of_lt few))
    simp only [allowRemoteRequest, own, next_eq]
    rw [touch, last]
    refine held_append (fun b mem => ?_) fun b mem => absurd mem List.not_mem_nil
    exact of_decide_eq_true (List.mem_filter.mp (List.mem_of_mem_drop mem)).2
  have granted : (allowRemoteRequest buckets r).1 = decide (next.count ≤ maxRequestsPerMinute) := by
    simp only [allowRemoteRequest, own, next_eq]
  rw [keyCredit, keyCredit, after, granted]
  simp only [decide_eq_true_eq, Option.elim_some]
  cases found : held others key buckets with
  | none => exact Window.credit_granted (next_eq ▸ Window.count_hit)
  | some window =>
    obtain ⟨before, rest, rfl, apart, -⟩ := held_split found
    have looked : (before ++ (key, window) :: rest).lookup key = some window :=
      List.lookup_eq_some_iff.mpr ⟨before, rest, rfl, fun b mem => bne_iff_ne.mpr (Ne.symm (apart b mem))⟩
    rw [← next_eq, looked]
    exact Window.credit_hit short started inside

/-- Another request keeps a bucket that is held: those behind it are fewer than the buckets that are kept. -/
theorem keyCredit_other (h : Kept buckets) (few : others.length < maxRateBuckets) (other : clip 128 r.key ≠ key)
    (known : clip 128 r.key ∈ others) :
    keyCredit since others key buckets ≤ keyCredit since others key (allowRemoteRequest buckets r).2 := by
  rw [keyCredit]
  cases found : held others key buckets with
  | none => exact keyCredit_bounds.1
  | some window =>
    obtain ⟨before, after, rfl, apart, covered⟩ := held_split found
    obtain ⟨next, next_eq⟩ : ∃ next,
        (((before ++ (key, window) :: after).lookup (clip 128 r.key)).getD ⟨r.now, 0⟩).hit 60 r.now = next := ⟨_, rfl⟩
    have touched : touch (before ++ (key, window) :: after) (clip 128 r.key) next =
        before.filter (·.1 ≠ clip 128 r.key) ++ (key, window) :: touch after (clip 128 r.key) next := by
      rw [touch, touch, List.filter_append, List.filter_cons_of_pos (by simpa using Ne.symm other), List.append_assoc]
      rfl
    have covered' : ∀ b ∈ touch after (clip 128 r.key) next, b.1 ∈ others := by
      intro b mem
      rcases List.mem_append.mp mem with old | new
      · exact covered b (List.mem_of_mem_filter old)
      · exact List.mem_singleton.mp new ▸ known
    have within : (touch after (clip 128 r.key) next).length ≤ others.length := by
      have nodup := h.nodup
      rw [Dict.keys, List.map_append] at nodup
      have part := nodup_touch (clip 128 r.key) next
        (List.nodup_cons.mp (List.nodup_append.mp nodup).2.1).2
      have subset : Dict.keys (touch after (clip 128 r.key) next) ⊆ others := fun k mem => by
        obtain ⟨b, at_b, rfl⟩ := List.mem_map.mp mem
        exact covered' b at_b
      simpa [Dict.keys] using (List.subperm_of_subset part subset).length_le
    obtain ⟨n, kept⟩ := dropOldest_append (before.filter (·.1 ≠ clip 128 r.key))
      ((key, window) :: touch after (clip 128 r.key) next) (Nat.succ_le_of_lt (within.trans_lt few))
    simp only [allowRemoteRequest, next_eq, touched, kept]
    rw [keyCredit, held_append (fun b mem => apart b (List.mem_of_mem_filter (List.mem_of_mem_drop mem))) covered']

end Office

section Results

variable (limit : Int) (windowSeconds since till : ℚ)

/-- The requests of some keys that a limiter grants in an interval, by the overflow window or by their own buckets. -/
def grantedBy (overflow : Option Bool) (p : String → Bool) (served : List (Limiter × Request)) : Nat :=
  served.countP fun m => p (clip 256 m.2.key) && (m.1.allow limit windowSeconds m.2).1 &&
    overflow.all (m.1.overflows windowSeconds m.2 == ·) && (decide (since ≤ m.2.now) && decide (m.2.now ≤ till))

theorem grantedBy_none (p : String → Bool) (served : List (Limiter × Request)) :
    grantedBy limit windowSeconds since till none p served =
      grantedBy limit windowSeconds since till (some false) p served +
        grantedBy limit windowSeconds since till (some true) p served := by
  induction served with
  | nil => rfl
  | cons m served ih =>
    simp only [grantedBy, List.countP_cons] at ih ⊢
    rw [ih]
    cases m.1.overflows windowSeconds m.2 <;> simp <;> omega

variable {limit windowSeconds since till}

theorem grantedBy_own {maxBuckets : Nat} {p : String → Bool} {most : Nat} {l : Limiter} {requests : List Request}
    (sorted : requests.Pairwise fun a b => a.now ≤ b.now) (short : till - since < max 1 windowSeconds)
    (cap : ∀ l : Limiter, l.Bounded maxBuckets → l.buckets.countP (p ·.1) ≤ most) (h : l.Bounded maxBuckets) :
    grantedBy limit windowSeconds since till (some false) p (meets (fun l r => (l.allow limit windowSeconds r).2) l requests) ≤
      2 * (ceiling limit * most) := by
  refine (countP_meets_le (fun l => credits p since (ceiling limit) l.buckets) (Limiter.Bounded maxBuckets)
    (fun _ _ h => h.allow) (fun l h => ?_) requests sorted (fun l r _ h started inside => ?_) l h).1
  · have few : ((ceiling limit * l.buckets.countP (p ·.1) : Nat) : Int) ≤ (ceiling limit * most : Nat) :=
      Int.ofNat_le.mpr (Nat.mul_le_mul_left _ (cap l h))
    have bounds := @credits_bounds since (ceiling limit) p l.buckets
    omega
  · simpa using l.credits_allow (k := limit) (p := p) h.nodup short started inside

end Results

end Arenyxa.Enterprise.Rates
