import Arenyxa.Distributed.Maintenance
import Arenyxa.Lib.History
import Arenyxa.Lib.Indexed
import Mathlib.Tactic.Linarith

/-! The lease time of the queues that are open on one database in one boot domain. They share no
more than the anchor in the database. -/

namespace Arenyxa.Distributed

open Function History

/-- A monotonic clock projected onto epoch seconds. -/
structure StableEpochClock where
  wallAnchor : ℚ
  monoAnchor : ℚ
  last : ℚ

namespace StableEpochClock

def created (wall mono : ℚ) : StableEpochClock := ⟨wall, mono, wall⟩

/-- A private clock with a durable anchor. -/
def anchored (anchor : ClockAnchor) : StableEpochClock := ⟨anchor.epoch, anchor.monotonic, anchor.epoch⟩

variable (c : StableEpochClock)

def candidate (mono : ℚ) : ℚ := c.wallAnchor + max 0 (mono - c.monoAnchor)

/-- The part of `stable_epoch` under the lock. -/
def clamp (candidate : ℚ) : ℚ × StableEpochClock :=
  (max candidate c.last, { c with last := max candidate c.last })

end StableEpochClock

/-- An open queue: its clock object, and whether it took the anchor that it found. -/
structure QueueInstance where
  clock : Nat
  anchored : Bool

/-- A call of `stable_epoch`: when the monotonic clock was read, and what came of it. -/
structure EpochCall where
  queue : Nat
  began : ℚ
  candidate : ℚ

structure EpochReading extends EpochCall where
  finished : ℚ
  value : ℚ

structure LeaseTime where
  /-- The monotonic clock of the boot domain. -/
  now : ℚ
  database : Queue
  /-- The clock objects of all processes, and how many there are. -/
  clocks : Nat → StableEpochClock
  made : Nat
  queues : List QueueInstance
  /-- The clock and the monotonic reading of a queue that holds the write lock to set the anchor. -/
  opening : Option (Nat × ℚ)
  calls : List EpochCall
  readings : List EpochReading

inductive TimeEvent
  | pass (seconds : ℚ)
  | create (wall : ℚ)
  /-- A clock object is read for something else. -/
  | glance (clock : Nat)
  | opens (clock : Nat)
  /-- The epoch is read, and the anchor is committed. -/
  | commit
  | abort
  | call (queue : Nat)
  | finish (call : Nat)
  /-- A statement on the other tables. -/
  | write (database : Queue)

namespace LeaseTime

def start (database : Queue) (now : ℚ) : LeaseTime :=
  ⟨now, database, fun _ => .created 0 0, 0, [], none, [], []⟩

variable (domain : String) (s : LeaseTime)

def step : TimeEvent → LeaseTime
  | .pass seconds => { s with now := s.now + max 0 seconds }
  | .create wall => { s with clocks := update s.clocks s.made (.created wall s.now), made := s.made + 1 }
  | .glance clock =>
    let read := (s.clocks clock).clamp ((s.clocks clock).candidate s.now)
    { s with clocks := update s.clocks clock read.2 }
  | .opens clock =>
    if clock < s.made ∧ s.opening = none then
      match s.database.leaseClockAnchor, s.database.anchored domain s.now with
      | some anchor, true =>
        { s with
          database := s.database.initializeLeaseClock .sqlite domain s.now 0
          clocks := update s.clocks s.made (.anchored anchor)
          made := s.made + 1
          queues := s.queues ++ [⟨s.made, true⟩] }
      | _, _ => { s with opening := some (clock, s.now) }
    else s
  | .commit =>
    match s.opening with
    | none => s
    | some (clock, mono) =>
      let read := (s.clocks clock).clamp ((s.clocks clock).candidate s.now)
      { s with
        database := s.database.initializeLeaseClock .sqlite domain mono read.1
        clocks := update s.clocks clock read.2
        queues := s.queues ++ [⟨clock, false⟩]
        opening := none }
  | .abort => { s with opening := none }
  | .call queue =>
    match s.queues[queue]? with
    | none => s
    | some q =>
      { s with calls := s.calls ++ [⟨queue, s.now, (s.clocks q.clock).candidate s.now⟩] }
  | .finish i =>
    match s.calls[i]? with
    | none => s
    | some call =>
      match s.queues[call.queue]? with
      | none => s
      | some q =>
        let read := (s.clocks q.clock).clamp call.candidate
        { s with
          clocks := update s.clocks q.clock read.2
          calls := s.calls.eraseIdx i
          readings := s.readings ++ [{ call with finished := s.now, value := read.1 }] }
  | .write database =>
    { s with database := { database with leaseClockAnchor := s.database.leaseClockAnchor } }

end LeaseTime

namespace StableEpochClock

variable {c c' : StableEpochClock} {t t' : ℚ}

theorem candidate_mono (later : t ≤ t') : c.candidate t ≤ c.candidate t' := by
  have : max 0 (t - c.monoAnchor) ≤ max 0 (t' - c.monoAnchor) := max_le_max_left 0 (by linarith)
  rw [candidate, candidate]
  linarith

theorem candidate_slope (later : t ≤ t') : c.candidate t' ≤ c.candidate t + (t' - t) := by
  have : max 0 (t' - c.monoAnchor) ≤ max 0 (t - c.monoAnchor) + (t' - t) := by
    refine max_le ?_ ?_
    · have := le_max_left 0 (t - c.monoAnchor)
      linarith
    · have := le_max_right 0 (t - c.monoAnchor)
      linarith
  rw [candidate, candidate]
  linarith

/-- The same projection, with no less as the last reading. -/
structure Advanced (c c' : StableEpochClock) : Prop where
  wall : c'.wallAnchor = c.wallAnchor
  mono : c'.monoAnchor = c.monoAnchor
  last : c.last ≤ c'.last

theorem Advanced.rfl : Advanced c c := ⟨Eq.refl _, Eq.refl _, le_refl _⟩

theorem Advanced.candidate (h : Advanced c c') (t : ℚ) : c'.candidate t = c.candidate t := by
  rw [StableEpochClock.candidate, StableEpochClock.candidate, h.wall, h.mono]

theorem clamp_advanced (x : ℚ) : Advanced c (c.clamp x).2 := ⟨Eq.refl _, Eq.refl _, le_max_right _ _⟩

/-- The epoch that the durable anchor gives to a monotonic reading. -/
def line (anchor : ClockAnchor) (t : ℚ) : ℚ := (anchored anchor).candidate t

theorem line_of_le {anchor : ClockAnchor} (reached : anchor.monotonic ≤ t) :
    line anchor t = anchor.epoch + (t - anchor.monotonic) := by
  show anchor.epoch + max 0 (t - anchor.monotonic) = _
  rw [max_eq_right (by linarith)]

end StableEpochClock

open StableEpochClock

namespace Queue

variable {q : Queue} {domain : String} {mono epoch : ℚ}

theorem anchored_iff : q.anchored domain mono = true ↔
    ∃ anchor, q.leaseClockAnchor = some anchor ∧ anchor.domain = domain ∧ anchor.monotonic ≤ mono := by
  rw [anchored]
  cases q.leaseClockAnchor with
  | none => simp
  | some anchor => simp

theorem leaseClockAnchor_initialize : (q.initializeLeaseClock .sqlite domain mono epoch).leaseClockAnchor =
    if q.anchored domain mono then q.leaseClockAnchor else some ⟨domain, mono, epoch⟩ := by
  have same : Queue.anchored { q with idempotencyBackfillComplete := false } domain mono =
      q.anchored domain mono := rfl
  simp only [initializeLeaseClock, same]
  split <;> rfl

end Queue

namespace LeaseTime

/-- The queues that are open keep to the line of the anchor. Only the first one, which has set the
anchor, may be behind it. -/
structure Follows (s : LeaseTime) (anchor : ClockAnchor) : Prop where
  queues : ∀ i q, s.queues[i]? = some q → q.clock < s.made ∧
    (s.clocks q.clock).candidate s.now ≤ line anchor s.now ∧
    (q.anchored = true → ∀ t, (s.clocks q.clock).candidate t = line anchor t) ∧
    (q.anchored = false → i = 0)
  calls : ∀ call ∈ s.calls, ∃ q, s.queues[call.queue]? = some q ∧ call.began ≤ s.now ∧
    call.candidate ≤ (s.clocks q.clock).candidate s.now ∧
    (q.anchored = true → line anchor call.began ≤ call.candidate)
  readings : ∀ r ∈ s.readings, ∃ q, s.queues[r.queue]? = some q ∧ r.finished ≤ s.now ∧
    r.value ≤ line anchor r.finished ∧ (q.anchored = true → line anchor r.began ≤ r.value) ∧
    r.value ≤ (s.clocks q.clock).last
  ordered : s.readings.Pairwise fun a b => a.queue = b.queue → a.value ≤ b.value

/-- Either no queue is open yet, or the anchor is set, and all keep to it. -/
structure Kept (domain : String) (s : LeaseTime) : Prop where
  clocks : ∀ c, (s.clocks c).last ≤ (s.clocks c).candidate s.now
  opening : ∀ clock mono, s.opening = some (clock, mono) → clock < s.made ∧ mono ≤ s.now ∧
    s.database.anchored domain mono = false ∧ s.queues = []
  follows : (s.queues = [] ∧ s.calls = [] ∧ s.readings = []) ∨
    ∃ anchor, s.database.leaseClockAnchor = some anchor ∧ anchor.domain = domain ∧
      anchor.monotonic ≤ s.now ∧ s.Follows anchor

variable {domain : String} {s : LeaseTime} {anchor : ClockAnchor}

theorem Follows.advance (h : s.Follows anchor) {clocks : Nat → StableEpochClock} {made : Nat}
    (more : s.made ≤ made) (advanced : ∀ c < s.made, Advanced (s.clocks c) (clocks c)) :
    Follows { s with clocks := clocks, made := made } anchor where
  queues i q found := by
    obtain ⟨valid, behind, own, first⟩ := h.queues i q found
    have same := (advanced q.clock valid).candidate
    refine ⟨Nat.lt_of_lt_of_le valid more, ?_, fun anchored t => ?_, first⟩
    · show (clocks q.clock).candidate s.now ≤ _
      rw [same]
      exact behind
    · show (clocks q.clock).candidate t = _
      rw [same, own anchored]
  calls call mem := by
    obtain ⟨q, found, began, candidate, ahead⟩ := h.calls call mem
    refine ⟨q, found, began, ?_, ahead⟩
    show _ ≤ (clocks q.clock).candidate s.now
    rw [(advanced q.clock (h.queues _ q found).1).candidate]
    exact candidate
  readings r mem := by
    obtain ⟨q, found, finished, below, ahead, last⟩ := h.readings r mem
    exact ⟨q, found, finished, below, ahead, last.trans (advanced q.clock (h.queues _ q found).1).last⟩
  ordered := h.ordered

theorem Follows.pass (h : s.Follows anchor) (reached : anchor.monotonic ≤ s.now) {now : ℚ}
    (later : s.now ≤ now) : Follows { s with now := now } anchor where
  queues i q found := by
    obtain ⟨valid, behind, own, first⟩ := h.queues i q found
    refine ⟨valid, ?_, own, first⟩
    have slope := candidate_slope (c := s.clocks q.clock) later
    rw [line_of_le reached] at behind
    show (s.clocks q.clock).candidate now ≤ line anchor now
    rw [line_of_le (reached.trans later)]
    linarith
  calls call mem := by
    obtain ⟨q, found, began, candidate, ahead⟩ := h.calls call mem
    exact ⟨q, found, began.trans later, candidate.trans (candidate_mono later), ahead⟩
  readings r mem := by
    obtain ⟨q, found, finished, rest⟩ := h.readings r mem
    exact ⟨q, found, finished.trans later, rest⟩
  ordered := h.ordered

theorem Follows.frame (h : s.Follows anchor) (database : Queue) (opening : Option (Nat × ℚ)) :
    Follows { s with database := database, opening := opening } anchor :=
  ⟨h.queues, h.calls, h.readings, h.ordered⟩

theorem Follows.opened (h : s.Follows anchor) {q : QueueInstance} (valid : q.clock < s.made)
    (anchored : q.anchored = true) (own : ∀ t, (s.clocks q.clock).candidate t = line anchor t) :
    Follows { s with queues := s.queues ++ [q] } anchor where
  queues i r found := by
    rcases Indexed.get_snoc found with old | ⟨-, rfl⟩
    · exact h.queues i r old
    · refine ⟨valid, (own s.now).le, fun _ => own, fun behind => ?_⟩
      rw [anchored] at behind
      cases behind
  calls call mem := by
    obtain ⟨r, found, rest⟩ := h.calls call mem
    exact ⟨r, Indexed.get_snoc_of_get found, rest⟩
  readings reading mem := by
    obtain ⟨r, found, rest⟩ := h.readings reading mem
    exact ⟨r, Indexed.get_snoc_of_get found, rest⟩
  ordered := h.ordered

theorem follows_first {q : QueueInstance} (queues : s.queues = [q]) (calls : s.calls = [])
    (readings : s.readings = []) (valid : q.clock < s.made)
    (behind : (s.clocks q.clock).candidate s.now ≤ line anchor s.now)
    (own : q.anchored = true → ∀ t, (s.clocks q.clock).candidate t = line anchor t) : s.Follows anchor where
  queues i r found := by
    rw [queues] at found
    cases i with
    | zero =>
      cases found
      exact ⟨valid, behind, own, fun _ => rfl⟩
    | succ i => cases found
  calls call mem := by
    rw [calls] at mem
    cases mem
  readings r mem := by
    rw [readings] at mem
    cases mem
  ordered := by
    rw [readings]
    exact List.Pairwise.nil

theorem Follows.nothing (h : s.Follows anchor) (none : s.queues = []) : s.calls = [] ∧ s.readings = [] := by
  refine ⟨List.eq_nil_iff_forall_not_mem.mpr fun call mem => ?_,
    List.eq_nil_iff_forall_not_mem.mpr fun r mem => ?_⟩
  · obtain ⟨q, found, -⟩ := h.calls call mem
    rw [none] at found
    cases found
  · obtain ⟨q, found, -⟩ := h.readings r mem
    rw [none] at found
    cases found

theorem Follows.call (h : s.Follows anchor) {i : Nat} {q : QueueInstance} (found : s.queues[i]? = some q) :
    Follows { s with calls := s.calls ++ [⟨i, s.now, (s.clocks q.clock).candidate s.now⟩] } anchor where
  queues := h.queues
  calls call mem := by
    rcases List.mem_append.mp mem with old | new
    · exact h.calls call old
    · obtain rfl := List.mem_singleton.mp new
      exact ⟨q, found, le_refl _, le_refl _, fun anchored => ((h.queues i q found).2.2.1 anchored _).ge⟩
  readings := h.readings
  ordered := h.ordered

theorem Follows.finish (h : s.Follows anchor) (clocks : ∀ c, (s.clocks c).last ≤ (s.clocks c).candidate s.now)
    {i : Nat} {call : EpochCall} {q : QueueInstance} (called : s.calls[i]? = some call)
    (found : s.queues[call.queue]? = some q) :
    Follows { s with
      clocks := update s.clocks q.clock ((s.clocks q.clock).clamp call.candidate).2
      calls := s.calls.eraseIdx i
      readings := s.readings ++ [{ call with
        finished := s.now, value := ((s.clocks q.clock).clamp call.candidate).1 }] } anchor := by
  obtain ⟨q', found', began, candidate, ahead⟩ := h.calls call (List.mem_of_getElem? called)
  obtain rfl := Option.some_inj.mp (found.symm.trans found')
  have behind := (h.queues _ q found).2.1
  have next : Follows { s with
      clocks := update s.clocks q.clock ((s.clocks q.clock).clamp call.candidate).2 } anchor := by
    refine h.advance (le_refl _) fun c _ => ?_
    by_cases same : c = q.clock
    · rw [same, update_self]
      exact clamp_advanced _
    · rw [update_of_ne same]
      exact Advanced.rfl
  refine ⟨next.queues, fun other mem => next.calls other (List.mem_of_mem_eraseIdx mem), fun r mem => ?_, ?_⟩
  · rcases List.mem_append.mp mem with old | new
    · exact next.readings r old
    · obtain rfl := List.mem_singleton.mp new
      refine ⟨q, found, le_refl _, max_le (candidate.trans behind) ((clocks _).trans behind),
        fun anchored => (ahead anchored).trans (le_max_left _ _), ?_⟩
      show max call.candidate (s.clocks q.clock).last ≤
        (update s.clocks q.clock ((s.clocks q.clock).clamp call.candidate).2 q.clock).last
      rw [update_self]
      exact le_refl _
  · refine List.pairwise_append.mpr ⟨h.ordered, List.pairwise_singleton _ _, fun a mem b new same => ?_⟩
    obtain rfl := List.mem_singleton.mp new
    obtain ⟨r, found', -, -, -, last⟩ := h.readings a mem
    rw [show a.queue = call.queue from same] at found'
    obtain rfl := Option.some_inj.mp (found.symm.trans found')
    exact last.trans (le_max_right _ _)

theorem anchored_eq (same : s.database.leaseClockAnchor = some anchor) (own : anchor.domain = domain)
    (reached : anchor.monotonic ≤ s.now) : s.database.anchored domain s.now = true :=
  Queue.anchored_iff.2 ⟨anchor, same, own, reached⟩

theorem update_clamp_last (clocks : ∀ c, (s.clocks c).last ≤ (s.clocks c).candidate s.now) {c : Nat}
    {x : ℚ} (below : x ≤ (s.clocks c).candidate s.now) (c' : Nat) :
    (update s.clocks c ((s.clocks c).clamp x).2 c').last ≤
      (update s.clocks c ((s.clocks c).clamp x).2 c').candidate s.now := by
  by_cases same : c' = c
  · rw [same, update_self]
    exact max_le below (clocks c)
  · rw [update_of_ne same]
    exact clocks c'

theorem update_clamp_advanced {c : Nat} (x : ℚ) (c' : Nat) :
    Advanced (s.clocks c') (update s.clocks c ((s.clocks c).clamp x).2 c') := by
  by_cases same : c' = c
  · rw [same, update_self]
    exact clamp_advanced x
  · rw [update_of_ne same]
    exact Advanced.rfl

theorem Kept.queues_anchored (h : Kept domain s) (some_queue : s.queues ≠ []) :
    s.database.anchored domain s.now = true := by
  rcases h.follows with ⟨none, -⟩ | ⟨anchor, set, own, reached, -⟩
  · exact absurd none some_queue
  · exact anchored_eq set own reached

theorem Kept.wait (h : Kept domain s) {clock : Nat} (valid : clock < s.made)
    (distrusted : s.database.anchored domain s.now = false) :
    Kept domain { s with opening := some (clock, s.now) } where
  clocks := h.clocks
  opening c mono waiting := by
    cases waiting
    refine ⟨valid, le_refl _, distrusted, ?_⟩
    by_contra some_queue
    rw [h.queues_anchored some_queue] at distrusted
    cases distrusted
  follows := h.follows.imp id fun ⟨anchor, stored, own, reached, follows⟩ =>
    ⟨anchor, stored, own, reached, follows.frame _ _⟩

theorem Kept.adopt (h : Kept domain s) (none : s.opening = none)
    (set : s.database.leaseClockAnchor = some anchor) (own : anchor.domain = domain)
    (reached : anchor.monotonic ≤ s.now) :
    Kept domain { s with
      database := s.database.initializeLeaseClock .sqlite domain s.now 0
      clocks := update s.clocks s.made (.anchored anchor)
      made := s.made + 1
      queues := s.queues ++ [⟨s.made, true⟩] } where
  clocks c := by
    show (update s.clocks s.made (.anchored anchor) c).last ≤
      (update s.clocks s.made (.anchored anchor) c).candidate s.now
    by_cases new : c = s.made
    · rw [new, update_self]
      exact le_add_of_nonneg_right (le_max_left _ _)
    · rw [update_of_ne new]
      exact h.clocks c
  opening c mono some_opening := by
    rw [show s.opening = some (c, mono) from some_opening] at none
    cases none
  follows := by
    have stays : (s.database.initializeLeaseClock .sqlite domain s.now 0).leaseClockAnchor = some anchor := by
      rw [Queue.leaseClockAnchor_initialize, if_pos (anchored_eq set own reached), set]
    have on_line (t : ℚ) : (update s.clocks s.made (.anchored anchor) s.made).candidate t = line anchor t := by
      rw [update_self]
      rfl
    have old (c : Nat) (made : c < s.made) :
        Advanced (s.clocks c) (update s.clocks s.made (.anchored anchor) c) := by
      rw [update_of_ne (Nat.ne_of_lt made)]
      exact Advanced.rfl
    refine .inr ⟨anchor, stays, own, reached, ?_⟩
    rcases h.follows with ⟨no_queues, no_calls, no_readings⟩ | ⟨anchor', set', -, -, follows⟩
    · have one : s.queues ++ [⟨s.made, true⟩] = [⟨s.made, true⟩] := by rw [no_queues, List.nil_append]
      exact follows_first one no_calls no_readings (Nat.lt_succ_self _) (on_line s.now).le fun _ => on_line
    · obtain rfl := Option.some_inj.mp (set.symm.trans set')
      have more := follows.advance (Nat.le_succ s.made) old
      have opened := more.opened (q := ⟨s.made, true⟩) (Nat.lt_succ_self _) rfl on_line
      exact opened.frame _ _

theorem Kept.opens (h : Kept domain s) (clock : Nat) : Kept domain (s.step domain (.opens clock)) := by
  rw [step]
  split
  next free =>
    split
    next anchor set trusted =>
      obtain ⟨anchor', set', own, reached⟩ := Queue.anchored_iff.1 trusted
      obtain rfl := Option.some_inj.mp (set.symm.trans set')
      exact h.adopt free.2 set own reached
    next distrusted =>
      refine h.wait free.1 ?_
      cases trusted : s.database.anchored domain s.now with
      | false => rfl
      | true =>
        obtain ⟨anchor, set, -⟩ := Queue.anchored_iff.1 trusted
        exact absurd trusted (distrusted anchor set)
  next => exact h

theorem Kept.set (h : Kept domain s) {clock : Nat} {mono : ℚ} (opening : s.opening = some (clock, mono)) :
    Kept domain { s with
      database := s.database.initializeLeaseClock .sqlite domain mono
        ((s.clocks clock).clamp ((s.clocks clock).candidate s.now)).1
      clocks := update s.clocks clock ((s.clocks clock).clamp ((s.clocks clock).candidate s.now)).2
      queues := s.queues ++ [⟨clock, false⟩]
      opening := none } where
  clocks := update_clamp_last h.clocks (le_refl _)
  opening := nofun
  follows := by
    obtain ⟨valid, past, distrusted, no_queues⟩ := h.opening clock mono opening
    have read := clamp_advanced (c := s.clocks clock) ((s.clocks clock).candidate s.now)
    have nothing : s.calls = [] ∧ s.readings = [] := by
      rcases h.follows with ⟨-, nothing⟩ | ⟨anchor, set, own, reached, follows⟩
      · exact nothing
      · exact follows.nothing no_queues
    have one : s.queues ++ [⟨clock, false⟩] = [⟨clock, false⟩] := by rw [no_queues, List.nil_append]
    refine .inr ⟨⟨domain, mono, ((s.clocks clock).clamp ((s.clocks clock).candidate s.now)).1⟩, ?_, rfl, past,
      follows_first one nothing.1 nothing.2 valid ?_ nofun⟩
    · rw [Queue.leaseClockAnchor_initialize, distrusted]
      rfl
    · show (update s.clocks clock _ clock).candidate s.now ≤ _
      rw [update_self, read.candidate, line_of_le past]
      have := le_max_left ((s.clocks clock).candidate s.now) (s.clocks clock).last
      show _ ≤ max _ _ + (s.now - mono)
      linarith

theorem Kept.pass (h : Kept domain s) {now : ℚ} (later : s.now ≤ now) : Kept domain { s with now := now } where
  clocks c := (h.clocks c).trans (candidate_mono later)
  opening clock mono opening := by
    obtain ⟨valid, past, rest⟩ := h.opening clock mono opening
    exact ⟨valid, past.trans later, rest⟩
  follows := h.follows.imp id fun ⟨anchor, stored, own, reached, follows⟩ =>
    ⟨anchor, stored, own, reached.trans later, follows.pass reached later⟩

theorem Kept.create (h : Kept domain s) (wall : ℚ) : Kept domain { s with
    clocks := update s.clocks s.made (.created wall s.now), made := s.made + 1 } where
  clocks c := by
    show (update s.clocks s.made (.created wall s.now) c).last ≤
      (update s.clocks s.made (.created wall s.now) c).candidate s.now
    by_cases new : c = s.made
    · rw [new, update_self]
      exact le_add_of_nonneg_right (le_max_left _ _)
    · rw [update_of_ne new]
      exact h.clocks c
  opening clock mono opening := by
    obtain ⟨valid, rest⟩ := h.opening clock mono opening
    exact ⟨Nat.lt_succ_of_lt valid, rest⟩
  follows := h.follows.imp id fun ⟨anchor, stored, own, reached, follows⟩ => by
    refine ⟨anchor, stored, own, reached, follows.advance (Nat.le_succ s.made) fun c made => ?_⟩
    rw [update_of_ne (Nat.ne_of_lt made)]
    exact Advanced.rfl

theorem Kept.glance (h : Kept domain s) (clock : Nat) : Kept domain { s with
    clocks := update s.clocks clock
      ((s.clocks clock).clamp ((s.clocks clock).candidate s.now)).2 } where
  clocks := update_clamp_last h.clocks (le_refl _)
  opening := h.opening
  follows := h.follows.imp id fun ⟨anchor, stored, own, reached, follows⟩ =>
    ⟨anchor, stored, own, reached, follows.advance (le_refl s.made) fun c _ => update_clamp_advanced _ c⟩

theorem Kept.call (h : Kept domain s) {i : Nat} {q : QueueInstance} (found : s.queues[i]? = some q) :
    Kept domain { s with calls := s.calls ++ [⟨i, s.now, (s.clocks q.clock).candidate s.now⟩] } where
  clocks := h.clocks
  opening := h.opening
  follows := by
    rcases h.follows with ⟨none, -⟩ | ⟨anchor, set, own, reached, follows⟩
    · rw [none] at found
      cases found
    · exact .inr ⟨anchor, set, own, reached, follows.call found⟩

theorem Kept.finish (h : Kept domain s) {i : Nat} {call : EpochCall} {q : QueueInstance}
    (called : s.calls[i]? = some call) (found : s.queues[call.queue]? = some q) :
    Kept domain { s with
      clocks := update s.clocks q.clock ((s.clocks q.clock).clamp call.candidate).2
      calls := s.calls.eraseIdx i
      readings := s.readings ++ [{ call with
        finished := s.now, value := ((s.clocks q.clock).clamp call.candidate).1 }] } := by
  rcases h.follows with ⟨none, -⟩ | ⟨anchor, set, own, reached, follows⟩
  · rw [none] at found
    cases found
  · obtain ⟨q', found', -, below, -⟩ := follows.calls call (List.mem_of_getElem? called)
    obtain rfl := Option.some_inj.mp (found.symm.trans found')
    exact ⟨update_clamp_last h.clocks below, h.opening,
      .inr ⟨anchor, set, own, reached, follows.finish h.clocks called found⟩⟩

theorem Kept.write (h : Kept domain s) (database : Queue) : Kept domain { s with
    database := { database with leaseClockAnchor := s.database.leaseClockAnchor } } where
  clocks := h.clocks
  opening := h.opening
  follows := h.follows.imp id fun ⟨anchor, stored, own, reached, follows⟩ =>
    ⟨anchor, stored, own, reached, follows.frame _ _⟩

theorem Kept.step (h : Kept domain s) (event : TimeEvent) : Kept domain (s.step domain event) := by
  cases event with
  | pass seconds => exact h.pass (le_add_of_nonneg_right (le_max_left _ _))
  | create wall => exact h.create wall
  | glance clock => exact h.glance clock
  | opens clock => exact h.opens clock
  | commit =>
    rw [LeaseTime.step]
    split
    next => exact h
    next clock mono opening => exact h.set opening
  | abort =>
    exact ⟨h.clocks, nofun, h.follows.imp id fun ⟨anchor, stored, own, reached, follows⟩ =>
      ⟨anchor, stored, own, reached, follows.frame _ _⟩⟩
  | call i =>
    rw [LeaseTime.step]
    split
    next => exact h
    next q found => exact h.call found
  | finish i =>
    rw [LeaseTime.step]
    split
    next => exact h
    next call called =>
      split
      next => exact h
      next q found => exact h.finish called found
  | write database => exact h.write database

theorem start_kept (database : Queue) (now : ℚ) : Kept domain (start database now) where
  clocks _ := le_add_of_nonneg_right (le_max_left _ _)
  opening := nofun
  follows := .inl ⟨rfl, rfl, rfl⟩

theorem run_kept (database : Queue) (now : ℚ) (events : List TimeEvent) :
    Kept domain (run (step domain) (start database now) events) := by
  refine induct (P := fun _ _ => True) (I := fun _ s => Kept domain s) (start_kept database now)
    (fun _ event _ h => h.step event) events ?_
  exact fun _ _ _ _ => trivial

/-- Whatever the wall clocks say when the queues of a database are opened, in one boot domain: a
queue with the durable anchor reads no earlier epoch than any queue has read before, what a queue
has seen expired is expired for every queue that was opened later, and no queue reads backwards. -/
theorem lease_time_forward (domain : String) (database : Queue) (now : ℚ) (events : List TimeEvent) :
    let s := run (step domain) (start database now) events
    (∀ earlier ∈ s.readings, ∀ later ∈ s.readings, earlier.finished ≤ later.began →
      ∀ q, s.queues[later.queue]? = some q → q.anchored = true → earlier.value ≤ later.value) ∧
    (∀ earlier ∈ s.readings, ∀ later ∈ s.readings, earlier.finished ≤ later.began →
      earlier.queue < later.queue → ∀ expires, expires ≤ earlier.value → expires ≤ later.value) ∧
    s.readings.Pairwise fun earlier later =>
      earlier.queue = later.queue → earlier.value ≤ later.value := by
  intro s
  have kept : Kept domain s := run_kept database now events
  rcases kept.follows with ⟨-, -, none⟩ | ⟨anchor, -, -, -, follows⟩
  · rw [none]
    exact ⟨nofun, nofun, List.Pairwise.nil⟩
  have forward (earlier : EpochReading) (mem : earlier ∈ s.readings) (later : EpochReading)
      (mem' : later ∈ s.readings) (order : earlier.finished ≤ later.began) (q : QueueInstance)
      (found : s.queues[later.queue]? = some q) (anchored : q.anchored = true) :
      earlier.value ≤ later.value := by
    obtain ⟨-, -, -, below, -⟩ := follows.readings earlier mem
    obtain ⟨q', found', -, -, ahead, -⟩ := follows.readings later mem'
    obtain rfl := Option.some_inj.mp (found.symm.trans found')
    calc earlier.value ≤ line anchor earlier.finished := below
      _ ≤ line anchor later.began := candidate_mono order
      _ ≤ later.value := ahead anchored
  refine ⟨forward, fun earlier mem later mem' order newer expires expired => ?_, follows.ordered⟩
  obtain ⟨q, found, -⟩ := follows.readings later mem'
  have anchored : q.anchored = true := by
    by_contra behind
    have first := (follows.queues later.queue q found).2.2.2 (Bool.eq_false_iff.mpr behind)
    omega
  exact expired.trans (forward earlier mem later mem' order q found anchored)

end LeaseTime

end Arenyxa.Distributed
