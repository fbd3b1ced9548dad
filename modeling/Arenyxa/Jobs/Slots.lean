import Arenyxa.Jobs.System

/-! Who owns the slots: every step keeps their number, whatever becomes of the jobs. -/

universe u

namespace Arenyxa.Jobs

variable {ν : Type u} {encode : ν → Option Nat}

/-- Who owns the slot of a job: its submission, then the registry of futures, then nobody. -/
structure Job.Sound (job : Job ν) : Prop where
  submitting : job.submitting = true → job.owned = false ∧ job.releases = 0
  owned : job.owned = true → job.releases = 0
  free : job.submitting = false → job.owned = false → job.releases = 1
  retiring : job.retiring.isSome = true → job.owned = true

/-- What a step does with the slot. -/
structure Slotted (job : Job ν) (stepped : Stepped ν) : Prop where
  sound : stepped.1.Sound
  freed : stepped.2 = true → job.releases = 0 ∧ stepped.1.releases = 1
  kept : stepped.2 = false → stepped.1.releases = job.releases

section Jobs

variable {job : Job ν}

theorem Job.Sound.untouched (h : job.Sound) {job' : Job ν} (submitting : job'.submitting = job.submitting)
    (owned : job'.owned = job.owned) (releases : job'.releases = job.releases)
    (retiring : job'.retiring = job.retiring) : Slotted job job'.same where
  sound :=
    { submitting := fun s => by
        obtain ⟨unowned, held⟩ := h.submitting (submitting.symm.trans s)
        exact ⟨owned.trans unowned, releases.trans held⟩
      owned := fun o => releases.trans (h.owned (owned.symm.trans o))
      free := fun s o => releases.trans (h.free (submitting.symm.trans s) (owned.symm.trans o))
      retiring := fun r => owned.trans (h.retiring ((congrArg Option.isSome retiring).symm.trans r)) }
  freed := nofun
  kept := fun _ => releases

theorem Job.Sound.same (h : job.Sound) : Slotted job job.same := h.untouched rfl rfl rfl rfl

theorem Job.Sound.acquired (id : String) : (Job.acquired id : Job ν).Sound where
  submitting := fun _ => ⟨rfl, rfl⟩
  owned := nofun
  free := nofun
  retiring := nofun

theorem Job.Sound.persist (h : job.Sound) : Slotted job job.persist := by
  rw [Job.persist]
  split
  · exact h.untouched rfl rfl rfl rfl
  · exact h.same

theorem Job.Sound.reject (h : job.Sound) (waits : job.submitting = true) (stopping : Bool)
    (text : String) : Slotted job (job.reject encode stopping text) := by
  obtain ⟨unowned, held⟩ := h.submitting waits
  have after : job.releases + 1 = 1 := by rw [held]
  refine ⟨⟨nofun, fun o => ?_, fun _ _ => after, fun r => ?_⟩,
    fun _ => ⟨held, after⟩, nofun⟩
  · exact absurd (unowned.symm.trans o) Bool.false_ne_true
  · exact h.retiring r

theorem Job.Sound.handOff (h : job.Sound) (accepting : Bool) :
    Slotted job (job.handOff encode accepting) := by
  rw [Job.handOff]
  split
  next waits =>
    split
    · obtain ⟨-, held⟩ := h.submitting waits.1
      exact ⟨⟨nofun, fun _ => held, fun _ => nofun,
        fun _ => rfl⟩, nofun, fun _ => rfl⟩
    · exact h.reject waits.1 true stoppingText
  next => exact h.same

theorem Job.Sound.interrupt (h : job.Sound) (text : String) :
    Slotted job (job.interrupt encode text) := by
  rw [Job.interrupt]
  split
  next waits => exact h.reject waits false text
  next => exact h.untouched rfl rfl rfl rfl

theorem Job.Sound.register (h : job.Sound) : Slotted job job.register := by
  rw [Job.register]
  split
  · exact h.untouched rfl rfl rfl rfl
  · exact h.same

theorem Job.Sound.start (h : job.Sound) : Slotted job (job.start encode) := by
  rw [Job.start]
  split
  · exact h.untouched rfl rfl rfl rfl
  · exact h.same

theorem Job.Sound.progress (h : job.Sound) (message : String) :
    Slotted job (job.progress encode message) := by
  rw [Job.progress]
  split
  · exact h.untouched rfl rfl rfl rfl
  · exact h.same

theorem persistTerminal_ok {job' : Job ν} (h : job.persistTerminal encode = .ok job') :
    ∃ update row, job.terminalUpdate = some update ∧
      updatePlatformJob encode job.row update = .ok (true, row) ∧
      job' = { job with row, terminalPersisted := true } := by
  rw [Job.persistTerminal] at h
  split at h
  · cases h
  next update here =>
    split at h
    · cases h
    · cases h
    · cases h
    next row accepted =>
      cases h
      exact ⟨update, row, here, accepted, rfl⟩

theorem Job.Sound.finish (h : job.Sound) (outcome : Outcome ν) (late : Bool)
    (auditError : Option (String × String)) :
    Slotted job (job.finish encode outcome late auditError) := by
  rw [Job.finish]
  split
  · dsimp only
    split
    · exact h.untouched rfl rfl rfl rfl
    · split
      next persisted =>
        obtain ⟨_, _, -, -, rfl⟩ := persistTerminal_ok persisted
        exact h.untouched rfl rfl rfl rfl
      next => exact h.untouched rfl rfl rfl rfl
  · exact h.same

theorem Job.Sound.cancel (h : job.Sound) : Slotted job job.cancel := by
  rw [Job.cancel]
  split
  · exact h.untouched rfl rfl rfl rfl
  · exact h.same

theorem Job.Sound.noteCancellation (h : job.Sound) : Slotted job (job.noteCancellation encode) :=
  h.untouched rfl rfl rfl rfl

theorem Job.Sound.cancelFuture (h : job.Sound) : Slotted job job.cancelFuture :=
  h.untouched rfl rfl rfl rfl

theorem Job.Sound.enterRetire (h : job.Sound) (caller : Caller) :
    Slotted job (job.enterRetire caller) := by
  rw [Job.enterRetire]
  split
  · split
    next => exact h.untouched rfl rfl rfl rfl
    next here =>
      rw [not_or, not_not] at here
      exact ⟨⟨h.submitting, h.owned, h.free, fun _ => here.1⟩, nofun,
        fun _ => rfl⟩
  · exact h.same

theorem settle_ok {settled : Job ν} (h : job.settle encode = .ok settled) :
    settled.submitting = job.submitting ∧ settled.releases = job.releases := by
  rw [Job.settle] at h
  split at h
  · split at h
    next persisted =>
      cases h
      obtain ⟨_, _, -, -, rfl⟩ := persistTerminal_ok persisted
      exact ⟨rfl, rfl⟩
    next => cases h
  · split at h
    · cases h
      exact ⟨rfl, rfl⟩
    · split at h
      next persisted =>
        cases h
        obtain ⟨_, _, -, -, rfl⟩ := persistTerminal_ok persisted
        exact ⟨rfl, rfl⟩
      next => cases h

theorem settle_error {unsettled : Job ν} (h : job.settle encode = .error unsettled) :
    unsettled.submitting = job.submitting ∧ unsettled.owned = job.owned ∧
      unsettled.releases = job.releases := by
  rw [Job.settle] at h
  split at h
  · split at h
    · cases h
    · cases h
      exact ⟨rfl, rfl, rfl⟩
  · split at h
    · cases h
    · split at h
      · cases h
      · cases h
        exact ⟨rfl, rfl, rfl⟩

theorem Job.Sound.leaveRetire (h : job.Sound) : Slotted job (job.leaveRetire encode) := by
  rw [Job.leaveRetire]
  split
  next here =>
    have owned := h.retiring here
    have held := h.owned owned
    have handed : job.submitting = false := by
      by_contra waits
      have := (h.submitting (Bool.not_eq_false _ ▸ waits)).1
      exact absurd (owned.symm.trans this) Bool.true_eq_false.mp
    split
    next settled ok =>
      obtain ⟨submitting, releases⟩ := settle_ok ok
      have after : settled.releases + 1 = 1 := by rw [releases, held]
      refine ⟨⟨fun s => ?_, nofun, fun _ _ => after,
        nofun⟩, fun _ => ⟨held, after⟩, nofun⟩
      have waits : job.submitting = true := submitting.symm.trans s
      exact absurd (handed.symm.trans waits) Bool.false_ne_true
    next unsettled failed =>
      obtain ⟨submitting, owned', releases⟩ := settle_error failed
      refine ⟨⟨fun s => ?_, fun _ => releases.trans held, fun _ o => ?_, nofun⟩,
        nofun, fun _ => releases⟩
      · have waits : job.submitting = true := submitting.symm.trans s
        exact absurd (handed.symm.trans waits) Bool.false_ne_true
      · have gone : job.owned = false := owned'.symm.trans o
        exact absurd (gone.symm.trans owned) Bool.false_ne_true
  next => exact h.same

end Jobs

/-- The slots that are taken are those that were not released, one for each job. -/
structure JobSystem.Accounted (s : JobSystem ν) : Prop where
  acquired : s.acquired = s.jobs.rows.countP fun job => job.releases = 0
  sound : ∀ job ∈ s.jobs.rows, job.Sound

section Systems

variable {s : JobSystem ν}

theorem mem_onJob {id : String} {step : Job ν → Stepped ν} {job' : Job ν}
    (h : job' ∈ (s.onJob id step).jobs.rows) :
    job' ∈ s.jobs.rows ∨
      ∃ job, s.jobs.get? id = some job ∧ job' = (step job).1.withId job.id := by
  rw [JobSystem.onJob] at h
  cases here : s.jobs.get? id with
  | none =>
    rw [here] at h
    exact .inl h
  | some job =>
    rw [here] at h
    obtain ⟨old, member, rfl⟩ := List.mem_map.mp h
    have named : job.id = id := Table.get?_key here
    split
    next same =>
      right
      have same' : old.id = id := of_decide_eq_true same
      exact ⟨job, rfl, congrArg _ (same'.trans named.symm)⟩
    next => exact .inl member

theorem Job.Sound.withId {job : Job ν} (h : job.Sound) (id : String) : (job.withId id).Sound :=
  ⟨h.submitting, h.owned, h.free, h.retiring⟩

theorem JobSystem.Accounted.onJob (a : s.Accounted) {id : String} {step : Job ν → Stepped ν}
    (slotted : ∀ job, job.Sound → Slotted job (step job)) : (s.onJob id step).Accounted := by
  refine ⟨?_, fun job' member => ?_⟩
  · rw [JobSystem.onJob]
    cases here : s.jobs.get? id with
    | none => exact a.acquired
    | some job =>
      have spec := slotted job (a.sound job (Table.get?_some_iff.mp here).1)
      have count : (s.jobs.modify id (fun old => (step job).1.withId old.id) fun _ => rfl).rows.countP
            (fun job => decide (job.releases = 0)) + (if decide (job.releases = 0) then 1 else 0) =
          s.jobs.rows.countP (fun job => decide (job.releases = 0)) +
            (if decide ((step job).1.releases = 0) then 1 else 0) :=
        Table.countP_modify here fun job => decide (job.releases = 0)
      have acquired := a.acquired
      simp only [decide_eq_true_eq] at count
      simp only
      cases freed : (step job).2 with
      | true =>
        obtain ⟨before, after⟩ := spec.freed freed
        rw [if_pos before, if_neg (by omega)] at count
        rw [if_pos rfl]
        omega
      | false =>
        rw [spec.kept freed] at count
        rw [if_neg Bool.false_ne_true]
        omega
  · rcases mem_onJob member with old | ⟨job, here, rfl⟩
    · exact a.sound job' old
    · have old := (Table.get?_some_iff.mp here).1
      exact (slotted job (a.sound job old)).sound.withId job.id

theorem JobSystem.Accounted.acquire (a : s.Accounted) (id : String) : (s.acquire id).Accounted := by
  rw [JobSystem.acquire]
  split
  next free =>
    have rows : (s.jobs.insert (.acquired id)).rows = _ := Table.rows_insert free.2.2.2
    have count : (s.jobs.insert (Job.acquired id)).rows.countP
        (fun job => decide (job.releases = 0)) = _ := Table.countP_insert free.2.2.2 _
    refine ⟨?_, fun job member => ?_⟩
    · have held : decide ((Job.acquired id : Job ν).releases = 0) = true := rfl
      simp only [count]
      rw [if_pos held, a.acquired]
    · rw [rows] at member
      rcases List.mem_append.mp member with old | new
      · exact a.sound job old
      · rw [List.mem_singleton.mp new]
        exact .acquired id
  next => exact a

theorem JobSystem.Accounted.beginShutdown (a : s.Accounted) : s.beginShutdown.Accounted := by
  rw [JobSystem.beginShutdown]
  split
  · exact ⟨a.acquired, a.sound⟩
  · refine ⟨?_, fun job member => ?_⟩
    · have count := @Table.countP_updateWhere_of_iff _ _ _ s.jobs Job.owned
        (fun job => decide (job.releases = 0)) (fun job => { job with cancelled := true })
        (fun _ => rfl) fun _ _ _ => rfl
      exact a.acquired.trans count.symm
    · obtain ⟨old, here, rfl⟩ := List.mem_map.mp member
      have sound := a.sound old here
      split
      · exact ⟨sound.submitting, sound.owned, sound.free, sound.retiring⟩
      · exact sound

theorem JobSystem.Accounted.perform (a : s.Accounted) (action : Action ν) :
    (perform encode s action).Accounted := by
  cases action with
  | submit =>
    rw [Jobs.perform]
    split
    · exact ⟨a.acquired, a.sound⟩
    · exact a
  | refuse => exact ⟨a.acquired, a.sound⟩
  | acquire id => exact a.acquire id
  | persist id => exact a.onJob fun _ => Job.Sound.persist
  | handOff id => exact a.onJob fun _ h => h.handOff s.accepting
  | interrupt id text => exact a.onJob fun _ h => h.interrupt text
  | register id => exact a.onJob fun _ => Job.Sound.register
  | start id => exact a.onJob fun _ => Job.Sound.start
  | progress id message => exact a.onJob fun _ h => h.progress message
  | finish id outcome late auditError => exact a.onJob fun _ h => h.finish outcome late auditError
  | cancel id => exact a.onJob fun _ => Job.Sound.cancel
  | noteCancellation id => exact a.onJob fun _ => Job.Sound.noteCancellation
  | callback id => exact a.onJob fun _ h => h.enterRetire .callback
  | retry id =>
    rw [Jobs.perform]
    split
    · have after : (s.onJob id (Job.enterRetire .shutdown)).Accounted :=
        a.onJob fun _ h => h.enterRetire .shutdown
      exact ⟨after.acquired, after.sound⟩
    · exact a
  | leaveRetire id =>
    rw [Jobs.perform, JobSystem.leaveRetire]
    have after : (s.onJob id (Job.leaveRetire encode)).Accounted :=
      a.onJob fun _ => Job.Sound.leaveRetire
    cases s.jobs.get? id with
    | none => exact a
    | some job =>
      dsimp only
      split
      · exact ⟨after.acquired, after.sound⟩
      · exact after
  | beginShutdown => exact a.beginShutdown
  | cancelFuture id =>
    rw [Jobs.perform]
    split
    · exact a.onJob fun _ => Job.Sound.cancelFuture
    · exact a
  | endShutdown raised =>
    rw [Jobs.perform, JobSystem.endShutdown]
    split
    · exact ⟨a.acquired, a.sound⟩
    · exact a
  | drain => exact a

theorem JobSystem.accounted_init (capacity : Nat) :
    (JobSystem.init capacity : JobSystem ν).Accounted where
  acquired := rfl
  sound := fun _ never => (List.not_mem_nil never).elim

theorem countP_owners {jobs : List (Job ν)} (sound : ∀ job ∈ jobs, job.Sound) :
    jobs.countP (fun job => job.releases = 0) =
      jobs.countP Job.owned + jobs.countP Job.submitting := by
  induction jobs with
  | nil => rfl
  | cons job rows ih =>
    have here := sound job List.mem_cons_self
    have rest := ih fun j hj => sound j (List.mem_cons_of_mem _ hj)
    rw [List.countP_cons, List.countP_cons, List.countP_cons, rest]
    cases owned : job.owned with
    | true =>
      have handed : job.submitting = false := by
        cases waits : job.submitting with
        | true => exact absurd (owned.symm.trans (here.submitting waits).1) Bool.true_eq_false.mp
        | false => rfl
      simp only [here.owned owned, handed, decide_true, if_true, Bool.false_eq_true, if_false]
      omega
    | false =>
      cases waits : job.submitting with
      | true =>
        simp only [(here.submitting waits).2, decide_true, if_true, Bool.false_eq_true, if_false]
        omega
      | false =>
        simp only [here.free waits owned, Nat.one_ne_zero, decide_false, Bool.false_eq_true, if_false]
        omega

theorem JobSystem.Accounted.owners (a : s.Accounted) :
    s.acquired = s.jobs.rows.countP Job.owned + s.jobs.rows.countP Job.submitting :=
  a.acquired.trans (countP_owners a.sound)

theorem Job.Sound.releases_le {job : Job ν} (h : job.Sound) : job.releases ≤ 1 := by
  cases owned : job.owned with
  | true => rw [h.owned owned]; exact Nat.zero_le 1
  | false =>
    cases waits : job.submitting with
    | true => rw [(h.submitting waits).2]; exact Nat.zero_le 1
    | false => exact Nat.le_of_eq (h.free waits owned)

end Systems

end Arenyxa.Jobs
