import Mathlib.Data.Finset.Card
import Arenyxa.Lib.History
import Arenyxa.Network.Guard

/-! The budgets of the guard over whole runs of connections. -/

namespace Arenyxa.Network

open History

structure Grant where
  time : Int
  key : Text

/-- The guard, the contexts that are open, and every connection that it has granted. -/
structure World where
  guard : Guard
  opened : Nat
  grants : List Grant
  clock : Int

inductive Action
  | enter (host : Text) (answer : Option (List Address)) (now : Int)
  | exit

/-- The times of the grants to one host. -/
def timesOf (grants : List Grant) (key : Text) : List Int :=
  (grants.filter (·.key = key)).map Grant.time

/-- The distinct hosts that were granted a connection since a moment. -/
def hostsSince (grants : List Grant) (start : Int) : Finset Text :=
  ((grants.filter (start ≤ ·.time)).map Grant.key).toFinset

section Runs

variable (p : Policy) (casefold : Char → Text)

def World.created (begin : Int) : World := ⟨.created begin, 0, [], begin⟩

def World.enter (w : World) (host : Text) (answer : Option (List Address)) (now : Int) :
    World × Except Refusal (List Candidate) :=
  match w.guard.connectionCandidates p casefold host answer now with
  | (guard, .error refusal) => ({ w with guard := guard, clock := now }, .error refusal)
  | (guard, .ok candidates) =>
    (⟨guard, w.opened + 1, w.grants ++ [⟨now, normalizedHost casefold host⟩], now⟩, .ok candidates)

def World.step (w : World) : Action → World
  | .enter host answer now => (w.enter p casefold host answer now).1
  | .exit => if 0 < w.opened then { w with guard := w.guard.leave p, opened := w.opened - 1 } else w

/-- The events of a list of times that fall into the window are the ones it has counted. -/
structure Window.Counts (w : Window) (times : List Int) : Prop where
  count : w.count = times.countP (w.started ≤ ·)
  before : ∀ t ∈ times, t < w.started + seconds 60

structure World.Accounted (w : World) : Prop where
  active : w.guard.active = w.opened ∧ w.opened ≤ p.maxConcurrentConnections
  global : w.guard.global.count = (w.grants.map Grant.time).countP (w.guard.global.started ≤ ·) ∧
    w.guard.global.count ≤ p.maxGlobalConnectsPerMinute
  fanout : w.guard.fanout.count = (hostsSince w.grants w.guard.fanout.started).card ∧
    w.guard.fanout.count ≤ p.maxDistinctTargetsPerMinute
  targets : ∀ t ∈ w.guard.targets.rows,
    t.window.count = (timesOf w.grants t.key).countP (t.window.started ≤ ·) ∧
      t.window.count ≤ p.maxTargetConnectsPerMinute

/-- The condition on an entry, in the windows that it meets: a host that is still tracked from
before the window is counted in it or refused, and a host that is newly tracked is not refused. -/
def Guard.Ordered (g : Guard) (grants : List Grant) (key : Text) (now : Int) : Prop :=
  (∀ t, g.targets.get? key = some t → key ∈ hostsSince grants g.fanout.started ∨ g.full p ∨
    p.maxTargetConnectsPerMinute ≤ (t.window.roll now).count) ∧
  (g.targets.get? key = none → g.full p → (g.track p key now).2.isOk = false)

def World.Ordered (w : World) : Action → Prop
  | .enter host answer now => w.clock ≤ now ∧
      ((p.candidates casefold host answer).isOk → (w.guard.rollWindows p now).Ordered p w.grants
        (normalizedHost casefold host) now)
  | .exit => True

/-- What an entry leaves that takes nothing: windows that have at most been rolled. -/
structure Guard.Unspent (g g' : Guard) (now : Int) : Prop where
  active : g'.active = g.active
  global : g'.global = g.global ∨ g'.global = g.global.roll now
  fanout : g'.fanout = g.fanout ∨ g'.fanout = g.fanout.roll now
  targets : ∀ t ∈ g'.targets.rows, ∃ old ∈ g.targets.rows, old.key = t.key ∧
    (t.window = old.window ∨ t.window = old.window.roll now)

end Runs

section Windows

variable {w : Window} {times : List Int} {now : Int}

theorem Window.roll_of_expired (h : w.expired now = true) : w.roll now = ⟨now, 0, now⟩ := by
  rw [Window.roll, if_pos h]

theorem Window.roll_of_not_expired (h : w.expired now = false) :
    w.roll now = { w with lastSeen := now } := by
  rw [Window.roll, if_neg (by simp [h])]

theorem Window.roll_lastSeen (w : Window) (now : Int) : (w.roll now).lastSeen = now := by
  rw [Window.roll]
  split <;> rfl

theorem Window.lt_roll (w : Window) (now : Int) : now < (w.roll now).started + seconds 60 := by
  cases h : w.expired now with
  | true =>
    rw [Window.roll_of_expired h]
    exact lt_add_seconds _ (by decide)
  | false =>
    rw [Window.roll_of_not_expired h]
    exact lt_of_not_ge (by simpa [Window.expired] using h)

theorem Window.roll_started_le (h : w.started ≤ now) : (w.roll now).started ≤ now := by
  rw [Window.roll]
  split
  next => exact le_refl _
  next => exact h

theorem Window.Counts.roll (h : w.Counts times) : (w.roll now).Counts times := by
  cases expired : w.expired now with
  | true =>
    rw [Window.roll_of_expired expired]
    have passed : w.started + seconds 60 ≤ now := by simpa [Window.expired] using expired
    have older : ∀ t ∈ times, t < now := fun t mem => lt_of_lt_of_le (h.before t mem) passed
    refine ⟨?_, fun t mem => (older t mem).trans (lt_add_seconds _ (by decide))⟩
    refine (List.countP_eq_zero.mpr fun t mem => ?_).symm
    simpa using older t mem
  | false =>
    rw [Window.roll_of_not_expired expired]
    exact ⟨h.count, h.before⟩

theorem Window.roll_count_le : (w.roll now).count ≤ w.count := by
  rw [Window.roll]
  split
  next => exact Nat.zero_le _
  next => exact Nat.le_refl _

theorem Window.Counts.snoc (h : w.Counts times) (lower : w.started ≤ now)
    (upper : now < w.started + seconds 60) (lastSeen : Int) :
    ({ w with count := w.count + 1, lastSeen := lastSeen } : Window).Counts (times ++ [now]) := by
  refine ⟨?_, fun t mem => ?_⟩
  · have here : List.countP (fun t => decide (w.started ≤ t)) [now] = 1 := by simp [lower]
    show w.count + 1 = _
    rw [List.countP_append, here, h.count]
  · rcases List.mem_append.mp mem with old | new
    · exact h.before t old
    · rw [List.mem_singleton.mp new]
      exact upper

theorem Window.Counts.fresh (h : ∀ t ∈ times, t < now) : (Window.fresh now).Counts times :=
  ⟨(List.countP_eq_zero.mpr fun t mem => by
    show ¬ decide (now ≤ t) = true
    simpa using h t mem).symm,
    fun t mem => (h t mem).trans (lt_add_seconds _ (by decide))⟩

end Windows

section Grants

variable {grants : List Grant} {key other : Text} {now start : Int}

theorem timesOf_snoc : timesOf (grants ++ [⟨now, key⟩]) other =
    if other = key then timesOf grants other ++ [now] else timesOf grants other := by
  by_cases same : other = key
  · simp [timesOf, same]
  · have differs : key ≠ other := fun h => same h.symm
    simp [timesOf, same, differs]

theorem mem_timesOf {t : Int} : t ∈ timesOf grants key ↔ ⟨t, key⟩ ∈ grants := by
  simp only [timesOf, List.mem_map, List.mem_filter, decide_eq_true_eq]
  constructor
  · rintro ⟨⟨time, host⟩, ⟨mem, rfl⟩, rfl⟩
    exact mem
  · exact fun mem => ⟨_, ⟨mem, rfl⟩, rfl⟩

theorem mem_hostsSince : key ∈ hostsSince grants start ↔ ∃ t ∈ timesOf grants key, start ≤ t := by
  simp only [hostsSince, List.mem_toFinset, List.mem_map, List.mem_filter, decide_eq_true_eq,
    mem_timesOf]
  constructor
  · rintro ⟨⟨time, host⟩, ⟨mem, late⟩, rfl⟩
    exact ⟨time, mem, late⟩
  · rintro ⟨time, mem, late⟩
    exact ⟨_, ⟨mem, late⟩, rfl⟩

theorem hostsSince_snoc (h : start ≤ now) :
    hostsSince (grants ++ [⟨now, key⟩]) start = insert key (hostsSince grants start) := by
  ext host
  simp [hostsSince, h]

theorem hostsSince_eq_empty (h : ∀ x ∈ grants, x.time < start) : hostsSince grants start = ∅ := by
  rw [hostsSince, List.filter_eq_nil_iff.mpr fun x mem => by simpa using h x mem]
  rfl

end Grants

/-- What the guard keeps about the grants up to a reading of the clock. -/
structure Guard.Kept (p : Policy) (g : Guard) (grants : List Grant) (clock : Int) : Prop where
  times : ∀ x ∈ grants, x.time ≤ clock
  global : g.global.Counts (grants.map Grant.time) ∧ g.global.started ≤ clock ∧
    g.global.count ≤ p.maxGlobalConnectsPerMinute
  fanout : g.fanout.count = (hostsSince grants g.fanout.started).card ∧
    g.fanout.started ≤ clock ∧ clock < g.fanout.started + seconds 60 ∧
    g.fanout.count ≤ p.maxDistinctTargetsPerMinute
  tracked : ∀ key t, g.targets.get? key = some t → t.window.Counts (timesOf grants key) ∧
    t.window.count ≤ p.maxTargetConnectsPerMinute ∧ t.window.started ≤ clock ∧
    ∀ time ∈ timesOf grants key, time ≤ t.seen
  untracked : ∀ key, g.targets.get? key = none →
    ∀ time ∈ timesOf grants key, time + seconds 120 ≤ clock
  capacity : g.targets.rows.length ≤ p.maxTrackedTargets

section Stages

variable {p : Policy} {g : Guard} {grants : List Grant} {clock now : Int} {key : Text}

theorem get?_cleanupTargets {targets : Table Target} {most : Nat} (h : targets.rows.length ≤ most) :
    (cleanupTargets most now targets).get? key = (targets.get? key).filter fun t => !t.stale now := by
  have fewer : (targets.filter fun t => !t.stale now).rows.length - most = 0 :=
    Nat.sub_eq_zero_of_le ((List.length_filter_le _ _).trans h)
  rw [cleanupTargets, Table.get?_filter, Table.get?_filter, fewer, List.take_zero]
  generalize (targets.get? key).filter _ = kept
  cases kept with
  | none => rfl
  | some t => rfl

theorem length_cleanupTargets {targets : Table Target} {most : Nat} (h : targets.rows.length ≤ most) :
    (cleanupTargets most now targets).rows.length ≤ most :=
  (List.length_filter_le _ _).trans ((List.length_filter_le _ _).trans h)

theorem Guard.Kept.later (h : g.Kept p grants clock) (later : clock ≤ now)
    (open' : now < g.fanout.started + seconds 60) : g.Kept p grants now where
  times x mem := (h.times x mem).trans later
  global := ⟨h.global.1, h.global.2.1.trans later, h.global.2.2⟩
  fanout := ⟨h.fanout.1, h.fanout.2.1.trans later, open', h.fanout.2.2.2⟩
  tracked key t found :=
    have kept := h.tracked key t found
    ⟨kept.1, kept.2.1, kept.2.2.1.trans later, kept.2.2.2⟩
  untracked key absent time mem := (h.untracked key absent time mem).trans later
  capacity := h.capacity

theorem Guard.Kept.cleanup (h : g.Kept p grants now) :
    ({ g with targets := cleanupTargets p.maxTrackedTargets now g.targets } : Guard).Kept p grants
      now where
  times := h.times
  global := h.global
  fanout := h.fanout
  tracked key t found := by
    rw [get?_cleanupTargets h.capacity] at found
    exact h.tracked key t (Option.filter_eq_some_iff.mp found).1
  untracked key absent time mem := by
    rw [get?_cleanupTargets h.capacity] at absent
    cases found : g.targets.get? key with
    | none => exact h.untracked key found time mem
    | some t =>
      have stale : t.stale now = true := by simpa [found, Option.filter] using absent
      have old := (h.tracked key t found).2.2.2 time mem
      have passed : t.seen + seconds 120 ≤ now := by simpa [Target.stale, Target.seen] using stale
      omega
  capacity := length_cleanupTargets h.capacity

theorem Guard.Kept.rollFanout (h : g.Kept p grants clock) (later : clock ≤ now) :
    ({ g with fanout := g.fanout.roll now } : Guard).Kept p grants now := by
  cases expired : g.fanout.expired now with
  | true =>
    rw [Window.roll_of_expired expired]
    have passed : g.fanout.started + seconds 60 ≤ now := by simpa [Window.expired] using expired
    have older : ∀ x ∈ grants, x.time < now := fun x mem =>
      lt_of_le_of_lt (h.times x mem) (lt_of_lt_of_le h.fanout.2.2.1 passed)
    refine ⟨fun x mem => (h.times x mem).trans later, ⟨h.global.1, h.global.2.1.trans later,
      h.global.2.2⟩, ⟨?_, le_refl _, lt_add_seconds _ (by decide), Nat.zero_le _⟩, ?_, ?_,
      h.capacity⟩
    · rw [hostsSince_eq_empty older]
      rfl
    · intro key t found
      have kept := h.tracked key t found
      exact ⟨kept.1, kept.2.1, kept.2.2.1.trans later, kept.2.2.2⟩
    · exact fun key absent time mem => (h.untracked key absent time mem).trans later
  | false =>
    rw [Window.roll_of_not_expired expired]
    have kept := h.later later (lt_of_not_ge (by simpa [Window.expired] using expired))
    exact ⟨kept.times, kept.global, kept.fanout, kept.tracked, kept.untracked, kept.capacity⟩

theorem Guard.Kept.rollGlobal (h : g.Kept p grants now) :
    ({ g with global := g.global.roll now } : Guard).Kept p grants now :=
  ⟨h.times, ⟨h.global.1.roll, Window.roll_started_le h.global.2.1,
    Window.roll_count_le.trans h.global.2.2⟩, h.fanout, h.tracked, h.untracked, h.capacity⟩

theorem Guard.Kept.rollWindows (h : g.Kept p grants clock) (later : clock ≤ now) :
    (g.rollWindows p now).Kept p grants now := by
  have rolled := (h.rollFanout later).rollGlobal
  rw [Guard.rollWindows]
  split
  next => exact rolled.cleanup
  next => exact rolled

theorem Guard.Kept.makeRoom (h : g.Kept p grants now) : (g.makeRoom p now).Kept p grants now := by
  rw [Guard.makeRoom]
  split
  next => exact h.cleanup
  next => exact h

theorem Guard.Kept.setWindow (h : g.Kept p grants now) {t : Target} (found : g.targets.get? key = some t) :
    (g.setWindow key (t.window.roll now)).Kept p grants now := by
  have kept := h.tracked key t found
  have lookup (i : Text) : (g.setWindow key (t.window.roll now)).targets.get? i =
      if i = key then some ⟨key, t.window.roll now⟩ else g.targets.get? i := Table.get?_assign
  refine ⟨h.times, h.global, h.fanout, fun i r hit => ?_, fun i absent => ?_, ?_⟩
  · rw [lookup] at hit
    split at hit
    next same =>
      obtain rfl := Option.some_inj.mp hit
      subst same
      refine ⟨kept.1.roll, Window.roll_count_le.trans kept.2.1, Window.roll_started_le kept.2.2.1,
        fun time mem => ?_⟩
      show time ≤ max (t.window.roll now).lastSeen _
      rw [Window.roll_lastSeen]
      exact (h.times _ (mem_timesOf.1 mem)).trans (le_max_left _ _)
    next => exact h.tracked i r hit
  · rw [lookup] at absent
    split at absent
    next => cases absent
    next => exact h.untracked i absent
  · have present : g.targets.get? (Keyed.key (⟨key, t.window.roll now⟩ : Target)) ≠ none := by
      simp [found]
    show (g.targets.assign ⟨key, t.window.roll now⟩).rows.length ≤ _
    rw [Table.rows_assign_of_mem present, List.length_map]
    exact h.capacity

theorem Guard.Kept.grant (h : g.Kept p grants now) {g' : Guard} {w : Window}
    (window : w.Counts (timesOf grants key) ∧ w.started ≤ now ∧ now < w.started + seconds 60 ∧
      w.count < p.maxTargetConnectsPerMinute)
    (global : g'.global = { g.global with count := g.global.count + 1 })
    (room : now < g.global.started + seconds 60 ∧ g.global.count < p.maxGlobalConnectsPerMinute)
    (fanout : g'.fanout.started = g.fanout.started ∧
      g'.fanout.count = (insert key (hostsSince grants g.fanout.started)).card ∧
      g'.fanout.count ≤ p.maxDistinctTargetsPerMinute)
    (lookup : ∀ i, g'.targets.get? i =
      if i = key then some ⟨key, { w with count := w.count + 1, lastSeen := now }⟩
      else g.targets.get? i)
    (capacity : g'.targets.rows.length ≤ p.maxTrackedTargets) :
    g'.Kept p (grants ++ [⟨now, key⟩]) now := by
  refine ⟨fun x mem => ?_, ?_, ?_, fun i r hit => ?_, fun i absent => ?_, capacity⟩
  · rcases List.mem_append.mp mem with old | new
    · exact h.times x old
    · rw [List.mem_singleton.mp new]
  · rw [global, List.map_append]
    exact ⟨h.global.1.snoc h.global.2.1 room.1 _, h.global.2.1, room.2⟩
  · rw [fanout.1, hostsSince_snoc h.fanout.2.1]
    exact ⟨fanout.2.1, h.fanout.2.1, h.fanout.2.2.1, fanout.2.2⟩
  · rw [lookup] at hit
    rw [timesOf_snoc]
    split at hit
    next same =>
      obtain rfl := Option.some_inj.mp hit
      subst same
      rw [if_pos rfl]
      refine ⟨window.1.snoc window.2.1 window.2.2.1 now, window.2.2.2, window.2.1, fun time mem => ?_⟩
      refine le_trans ?_ (le_max_left _ _)
      rcases List.mem_append.mp mem with old | new
      · exact h.times _ (mem_timesOf.1 old)
      · exact (List.mem_singleton.mp new).le
    next other =>
      rw [if_neg other]
      exact h.tracked i r hit
  · rw [lookup] at absent
    split at absent
    next => cases absent
    next other =>
      rw [timesOf_snoc, if_neg other]
      exact h.untracked i absent

theorem mem_cleanupTargets {targets : Table Target} {most : Nat} {t : Target}
    (h : t ∈ (cleanupTargets most now targets).rows) : t ∈ targets.rows :=
  List.mem_of_mem_filter (List.mem_of_mem_filter h)

theorem Guard.rollWindows_unspent (p : Policy) (g : Guard) (now : Int) : g.Unspent (g.rollWindows p now) now where
  active := rfl
  global := .inr rfl
  fanout := .inr rfl
  targets t mem := by
    refine ⟨t, ?_, rfl, .inl rfl⟩
    rw [Guard.rollWindows] at mem
    simp only at mem
    split at mem
    next => exact mem_cleanupTargets mem
    next => exact mem

theorem Guard.Unspent.makeRoom {g' : Guard} (h : g.Unspent g' now) :
    g.Unspent (g'.makeRoom p now) now := by
  rw [Guard.makeRoom]
  split
  next => exact ⟨h.active, h.global, h.fanout, fun t mem => h.targets t (mem_cleanupTargets mem)⟩
  next => exact h

theorem Window.roll_roll {w : Window} : (w.roll now).roll now = w.roll now := by
  have running : (w.roll now).expired now = false := by
    simpa [Window.expired] using Window.lt_roll w now
  rw [Window.roll_of_not_expired running]
  cases h : w.roll now with
  | mk started count lastSeen =>
    have seen := Window.roll_lastSeen w now
    rw [h] at seen
    rw [show lastSeen = now from seen]

theorem Guard.Unspent.setWindow {g' : Guard} (h : g.Unspent g' now) {t : Target}
    (found : g'.targets.get? key = some t) :
    g.Unspent (g'.setWindow key (t.window.roll now)) now := by
  refine ⟨h.active, h.global, h.fanout, fun r mem => ?_⟩
  rcases Table.mem_assign.mp mem with rfl | ⟨mem, -⟩
  · obtain ⟨here, named⟩ := Table.get?_some_iff.mp found
    obtain ⟨old, before, same, window⟩ := h.targets t here
    refine ⟨old, before, same.trans named, .inr ?_⟩
    show t.window.roll now = old.window.roll now
    rcases window with window | window
    · rw [window]
    · rw [window, Window.roll_roll]
  · exact h.targets r mem

theorem Guard.makeRoom_get?_none (h : g.Kept p grants now) (absent : g.targets.get? key = none) :
    (g.makeRoom p now).targets.get? key = none := by
  rw [Guard.makeRoom]
  split
  next =>
    show (cleanupTargets p.maxTrackedTargets now g.targets).get? key = none
    rw [get?_cleanupTargets h.capacity, absent]
    rfl
  next => exact absent

theorem Guard.makeRoom_same (p : Policy) (g : Guard) (now : Int) : (g.makeRoom p now).active = g.active ∧
    (g.makeRoom p now).global = g.global ∧ (g.makeRoom p now).fanout = g.fanout := by
  rw [Guard.makeRoom]
  split
  next => exact ⟨rfl, rfl, rfl⟩
  next => exact ⟨rfl, rfl, rfl⟩

/-- What an entry under the lock comes to. -/
inductive Guard.Settled (p : Policy) (g g' : Guard) (grants : List Grant) (key : Text) (now : Int) :
    Except Refusal Unit → Prop
  | granted (kept : g'.Kept p (grants ++ [⟨now, key⟩]) now) (active : g'.active = g.active + 1)
      (room : g.active < p.maxConcurrentConnections) : Settled p g g' grants key now (.ok ())
  | refused (refusal : Refusal) (kept : g'.Kept p grants now) (unspent : g.Unspent g' now) :
      Settled p g g' grants key now (.error refusal)

theorem Guard.Kept.chargeTracked {base : Guard} (h : g.Kept p grants now)
    (open' : now < g.global.started + seconds 60) (unspent : base.Unspent g now) {t : Target}
    (found : g.targets.get? key = some t) (counted : key ∈ hostsSince grants g.fanout.started ∨
      g.full p ∨ p.maxTargetConnectsPerMinute ≤ (t.window.roll now).count) :
    Settled p base (g.charge p key t.window now).1 grants key now
      (g.charge p key t.window now).2 := by
  have kept := h.tracked key t found
  rcases g.charge_cases p key t.window now with ⟨refusal, same, -⟩ | ⟨room, rare, same⟩
  · rw [same]
    exact .refused refusal (h.setWindow found) (unspent.setWindow found)
  · have known : key ∈ hostsSince grants g.fanout.started := by
      rcases counted with known | full | often
      · exact known
      · cases room.symm.trans full
      · exact absurd often (Nat.not_le.mpr rare)
    obtain ⟨idle, spare⟩ := Guard.lt_of_not_full room
    rw [same]
    refine .granted (h.grant ⟨kept.1.roll, Window.roll_started_le kept.2.2.1, Window.lt_roll _ _, rare⟩
      rfl ⟨open', spare⟩ ⟨rfl, ?_, h.fanout.2.2.2⟩ (fun i => Table.get?_assign) ?_) ?_ ?_
    · rw [Finset.insert_eq_self.mpr known]
      exact h.fanout.1
    · have present : g.targets.get? (Keyed.key (⟨key, { t.window.roll now with
          count := (t.window.roll now).count + 1, lastSeen := now }⟩ : Target)) ≠ none := by
        simp [found]
      show (g.targets.assign _).rows.length ≤ _
      rw [Table.rows_assign_of_mem present, List.length_map]
      exact h.capacity
    · show g.active + 1 = base.active + 1
      rw [unspent.active]
    · rw [← unspent.active]
      exact idle

theorem Guard.Kept.chargeNew {base : Guard} (valid : p.Valid) (h : g.Kept p grants now)
    (open' : now < g.global.started + seconds 60) (active : g.active = base.active)
    (absent : g.targets.get? key = none) (fresh : g.fanout.count < p.maxDistinctTargetsPerMinute)
    (space : g.targets.rows.length < p.maxTrackedTargets) (room : g.full p = false) :
    Settled p base ((g.addTarget key now).charge p key (.fresh now) now).1 grants key now
      ((g.addTarget key now).charge p key (.fresh now) now).2 := by
  have inserted : ∀ i, (g.addTarget key now).targets.get? i =
      if i = key then some ⟨key, .fresh now⟩ else g.targets.get? i := fun i => Table.get?_insert absent
  have older : ∀ time ∈ timesOf grants key, time < now := fun time mem =>
    lt_of_lt_of_le (lt_add_seconds _ (by decide)) (h.untracked key absent time mem)
  have none' : ((Window.fresh now).roll now).count < p.maxTargetConnectsPerMinute :=
    Nat.lt_of_le_of_lt Window.roll_count_le (Nat.lt_of_lt_of_le Nat.zero_lt_one valid.target.1)
  rcases (g.addTarget key now).charge_cases p key (.fresh now) now with
    ⟨refusal, -, full | often⟩ | ⟨-, -, same⟩
  · cases room.symm.trans full
  · exact absurd often (Nat.not_le.mpr none')
  · obtain ⟨idle, spare⟩ := Guard.lt_of_not_full room
    rw [same]
    refine .granted (h.grant ⟨(Window.Counts.fresh older).roll, Window.roll_started_le (le_refl _),
      Window.lt_roll _ _, none'⟩ rfl ⟨open', spare⟩ ⟨rfl, ?_, fresh⟩ (fun i => ?_) ?_) ?_ ?_
    · have unseen : key ∉ hostsSince grants g.fanout.started := by
        intro seen
        obtain ⟨time, mem, late⟩ := mem_hostsSince.1 seen
        have early := h.untracked key absent time mem
        have within := h.fanout.2.2.1
        simp only [seconds] at early within
        omega
      rw [Finset.card_insert_of_notMem unseen, ← h.fanout.1]
      rfl
    · show ((g.addTarget key now).targets.assign _).get? i = _
      rw [Table.get?_assign, inserted]
      show (if i = key then _ else if i = key then _ else _) = if i = key then _ else _
      split <;> rfl
    · have present : (g.addTarget key now).targets.get? (Keyed.key (⟨key,
          { (Window.fresh now).roll now with
            count := ((Window.fresh now).roll now).count + 1, lastSeen := now }⟩ : Target)) ≠ none := by
        rw [inserted]
        simp
      show ((g.addTarget key now).targets.assign _).rows.length ≤ _
      rw [Table.rows_assign_of_mem present, List.length_map]
      show (g.targets.insert ⟨key, .fresh now⟩).rows.length ≤ _
      rw [Table.rows_insert absent, List.length_append]
      exact space
    · show g.active + 1 = base.active + 1
      rw [active]
    · rw [← active]
      exact idle

theorem Guard.Kept.admitHost (valid : p.Valid) (h : g.Kept p grants clock) (later : clock ≤ now)
    (ordered : (g.rollWindows p now).Ordered p grants key now) :
    Settled p g (g.admitHost p key now).1 grants key now (g.admitHost p key now).2 := by
  have rolled := h.rollWindows later
  have unspent := g.rollWindows_unspent p now
  have open' : now < (g.rollWindows p now).global.started + seconds 60 := Window.lt_roll _ _
  obtain ⟨counted, room⟩ := ordered
  rw [Guard.admitHost]
  rcases (g.rollWindows p now).track_cases p key now with
    ⟨t, found, same⟩ | ⟨absent, g', refusal, same, left⟩ | ⟨absent, fresh, space, same⟩
  · rw [same]
    exact rolled.chargeTracked open' unspent found (counted t found)
  · rw [same]
    rcases left with rfl | rfl
    · exact .refused refusal rolled unspent
    · exact .refused refusal rolled.makeRoom unspent.makeRoom
  · obtain ⟨active, global, fanout⟩ := (g.rollWindows p now).makeRoom_same p now
    have notFull : (g.rollWindows p now).full p = false := by
      by_contra full
      have refused := room absent (eq_true_of_ne_false full)
      rw [same] at refused
      cases refused
    rw [same]
    refine rolled.makeRoom.chargeNew valid ?_ (active.trans unspent.active)
      (Guard.makeRoom_get?_none rolled absent) ?_ space ?_
    · rw [global]
      exact open'
    · rw [fanout]
      exact fresh
    · rw [Guard.full, active, global]
      exact notFull

end Stages

section Worlds

variable {p : Policy} {casefold : Char → Text} {w : World}

/-- A reading of the clock is taken only by an entry that reaches the lock. -/
structure World.Kept (p : Policy) (w : World) : Prop where
  active : w.guard.active = w.opened ∧ w.opened ≤ p.maxConcurrentConnections
  guard : ∃ past, past ≤ w.clock ∧ w.guard.Kept p w.grants past

theorem created_kept (p : Policy) (begin : Int) : (World.created begin).Kept p where
  active := ⟨rfl, Nat.zero_le _⟩
  guard := ⟨begin, le_refl _,
    { times := nofun
      global := ⟨⟨rfl, nofun⟩, le_refl _, Nat.zero_le _⟩
      fanout := ⟨rfl, le_refl _, lt_add_seconds _ (by decide), Nat.zero_le _⟩
      tracked := fun _ _ found => by cases found
      untracked := nofun
      capacity := Nat.zero_le _ }⟩

theorem World.Kept.accounted (h : w.Kept p) : w.Accounted p := by
  obtain ⟨past, -, kept⟩ := h.guard
  refine ⟨h.active, ⟨kept.global.1.count, kept.global.2.2⟩, ⟨kept.fanout.1, kept.fanout.2.2.2⟩, ?_⟩
  intro t mem
  have window := kept.tracked t.key t (Table.mem_rows_iff.mp mem)
  exact ⟨window.1.count, window.2.1⟩

theorem World.enter_cases (w : World) (casefold : Char → Text) (enabled : p.enabled = true) (host : Text)
    (answer : Option (List Address)) (now : Int) :
    (∃ refusal, w.enter p casefold host answer now = ({ w with clock := now }, .error refusal)) ∨
    ((p.candidates casefold host answer).isOk = true ∧
      ((∃ refusal g, w.guard.admitHost p (normalizedHost casefold host) now = (g, .error refusal) ∧
        w.enter p casefold host answer now = ({ w with guard := g, clock := now }, .error refusal)) ∨
      (∃ candidates g, w.guard.admitHost p (normalizedHost casefold host) now = (g, .ok ()) ∧
        w.enter p casefold host answer now =
          (⟨g, w.opened + 1, w.grants ++ [⟨now, normalizedHost casefold host⟩], now⟩,
            .ok candidates)))) := by
  simp only [World.enter, Guard.connectionCandidates, enabled]
  cases p.candidates casefold host answer with
  | error refusal => exact .inl ⟨refusal, rfl⟩
  | ok addresses =>
    refine .inr ⟨rfl, ?_⟩
    rcases w.guard.admitHost p (normalizedHost casefold host) now with ⟨g, refusal | _⟩
    · exact .inl ⟨refusal, g, rfl, rfl⟩
    · exact .inr ⟨addresses.map .address, g, rfl, rfl⟩

theorem World.Kept.enter (valid : p.Valid) (enabled : p.enabled = true) (h : w.Kept p)
    {host : Text} {answer : Option (List Address)} {now : Int}
    (ordered : w.Ordered p casefold (.enter host answer now)) :
    (w.enter p casefold host answer now).1.Kept p ∧
      ((w.enter p casefold host answer now).2.isOk = false →
        w.guard.Unspent (w.enter p casefold host answer now).1.guard now) := by
  obtain ⟨later, windows⟩ := ordered
  obtain ⟨past, reached, kept⟩ := h.guard
  rcases w.enter_cases casefold enabled host answer now with
    ⟨refusal, same⟩ | ⟨found, ⟨refusal, g, admitted, same⟩ | ⟨candidates, g, admitted, same⟩⟩
  · rw [same]
    exact ⟨⟨h.active, past, reached.trans later, kept⟩, fun _ =>
      ⟨rfl, .inl rfl, .inl rfl, fun t mem => ⟨t, mem, rfl, .inl rfl⟩⟩⟩
  · have settled := kept.admitHost valid (reached.trans later) (windows found)
    rw [admitted] at settled
    rw [same]
    cases settled with
    | refused _ kept unspent =>
      refine ⟨⟨⟨?_, h.active.2⟩, now, le_refl _, kept⟩, fun _ => unspent⟩
      exact unspent.active.trans h.active.1
  · have settled := kept.admitHost valid (reached.trans later) (windows found)
    rw [admitted] at settled
    rw [same]
    cases settled with
    | granted kept active room =>
      refine ⟨⟨⟨?_, ?_⟩, now, le_refl _, kept⟩, nofun⟩
      · show g.active = w.opened + 1
        rw [active, h.active.1]
      · show w.opened + 1 ≤ p.maxConcurrentConnections
        rw [← h.active.1]
        exact room

theorem World.Kept.exit (h : w.Kept p) (enabled : p.enabled = true) :
    (w.step p casefold .exit).Kept p := by
  rw [World.step]
  split
  next some =>
    obtain ⟨past, reached, kept⟩ := h.guard
    rw [Guard.leave, if_pos enabled]
    refine ⟨⟨?_, (Nat.sub_le _ _).trans h.active.2⟩, past, reached, kept.times, kept.global, kept.fanout,
      kept.tracked, kept.untracked, kept.capacity⟩
    show w.guard.active - 1 = w.opened - 1
    rw [h.active.1]
  next => exact h

end Worlds

/-- In a history whose entries are in the condition, every budget is kept, and what a further
entry in the condition is refused it does not take. -/
theorem budgets_kept (p : Policy) (valid : p.Valid) (enabled : p.enabled = true)
    (casefold : Char → Text) (begin : Int) (actions : List Action)
    (ordered : Meets (World.step p casefold) (.created begin) (World.Ordered p casefold) actions) :
    let w := run (World.step p casefold) (.created begin) actions
    w.Accounted p ∧ ∀ host answer now, w.Ordered p casefold (.enter host answer now) →
      (w.enter p casefold host answer now).2.isOk = false →
        w.guard.Unspent (w.enter p casefold host answer now).1.guard now := by
  have kept : (run (World.step p casefold) (.created begin) actions).Kept p := by
    refine induct (I := fun _ w => w.Kept p) (created_kept p begin) (fun _ action ordered kept => ?_)
      actions ordered
    cases action with
    | enter host answer now => exact (kept.enter valid enabled ordered).1
    | exit => exact kept.exit enabled
  exact ⟨kept.accounted, fun _ _ _ ordered => (kept.enter valid enabled ordered).2⟩

/-- A policy that allows one distinct host in a minute. -/
def onePolicy : Policy := { maxDistinctTargetsPerMinute := 1, maxTrackedTargets := 2 }

def firstHost : Text := "10.0.0.1".toList

def secondHost : Text := "10.0.0.2".toList

def World.entered (hosts : List (Text × Int)) : World :=
  run (World.step onePolicy fun c => [c]) (.created 0) (hosts.map fun h => .enter h.1 none (seconds h.2))

theorem budgets_kept_first :
    (World.entered [(firstHost, 1)]).Accounted onePolicy := by
  refine (budgets_kept onePolicy ⟨by decide, by decide, by decide, by decide, by decide, by decide⟩ rfl
    (fun c => [c]) 0 [.enter firstHost none (seconds 1)] (meets_of_each ⟨⟨by decide, fun _ => ⟨?_, ?_⟩⟩,
      trivial⟩)).1
  · intro t found
    cases found
  · intro absent full
    revert full
    decide

/-- The first host is still tracked in the second minute, in which another one is new, so that two
hosts are granted where one is allowed. -/
theorem old_host_uncounted :
    let w := World.entered [(firstHost, 1), (firstHost, 61), (secondHost, 62)]
    onePolicy.Valid ∧ onePolicy.enabled = true ∧
      (hostsSince w.grants w.guard.fanout.started).card = 2 ∧
      w.guard.fanout.count = 1 ∧ ¬ w.Accounted onePolicy := by
  refine ⟨⟨by decide, by decide, by decide, by decide, by decide, by decide⟩, rfl, by decide +kernel,
    by decide +kernel, fun accounted => ?_⟩
  have counted := accounted.fanout.1
  revert counted
  decide +kernel

end Arenyxa.Network
