import Arenyxa.Jobs.Slots
import Mathlib.Data.List.Induction

/-! What becomes of a job: where every value that operations return can be persisted, each
retirement ends in a terminal row. -/

universe u

namespace Arenyxa.Jobs

variable {ν : Type u} {encode : ν → Option Nat}

/-- A value whose JSON text is within the persistence budget. -/
def Persistable (encode : ν → Option Nat) (value : ν) : Prop :=
  ∃ bytes, encode value = some bytes ∧ bytes ≤ maxResultBytes

def RowIn (row : Option (JobRow ν)) (state : JobState) : Prop := ∃ r, row = some r ∧ r.state = state

def RowTerminal (row : Option (JobRow ν)) : Prop := ∃ r, row = some r ∧ r.state.Terminal

/-- A job the executor has not finished: its row is in a state, and nothing retires it. -/
structure Job.Live (job : Job ν) (state : JobState) : Prop where
  owned : job.owned = true
  callback : job.callback = .unset ∨ job.callback = .added
  retiring : job.retiring = none
  update : job.terminalUpdate = none
  row : RowIn job.row state

/-- What a retirement can settle: a row that is still open, or a terminal update that is
persisted. -/
def Job.Settleable (job : Job ν) : Prop :=
  (job.terminalUpdate = none ∧ (RowIn job.row .queued ∨ RowIn job.row .running)) ∨
    (job.terminalUpdate ≠ none ∧ job.terminalPersisted = true ∧ RowTerminal job.row)

/-- Retired at most by the callback, and by it at most once. -/
def Job.Waiting (job : Job ν) : Prop :=
  (job.retiring = none ∧ (job.callback = .unset ∨ job.callback = .added)) ∨
    (job.retiring = some .callback ∧ job.callback = .called)

/-- The stages of a job. -/
inductive Job.Stage (job : Job ν) : Prop
  | outside (future : job.future = .unset) (unowned : job.owned = false)
      (callback : job.callback = .unset) (row : job.submitting = true → job.row = none ∨
        RowIn job.row .queued) (returned : job.submitting = false → job.inSubmit = false)
      (retiring : job.retiring = none) (update : job.terminalUpdate = none)
  | pending (future : job.future = .pending) (live : job.Live .queued)
  | running (future : job.future = .running) (live : job.Live .running)
  | ended (future : job.future.done = true) (owned : job.owned = true) (waiting : job.Waiting)
      (settleable : job.Settleable)
  | retired (future : job.future.done = true) (unowned : job.owned = false)
      (handed : job.submitting = false) (callback : job.callback = .ran)
      (retiring : job.retiring = none) (row : RowTerminal job.row)

structure Job.Healthy (job : Job ν) : Prop where
  sound : job.Sound
  stage : job.Stage
  kept : job.failedRetirement = false

theorem isPending_of_done {future : FutureState} (h : future.done = true) :
    future.isPending = false := by
  cases future with
  | pending => cases h
  | unset | running | cancelled | finished => rfl

theorem isRunning_of_done {future : FutureState} (h : future.done = true) :
    future.isRunning = false := by
  cases future with
  | running => cases h
  | unset | pending | cancelled | finished => rfl

theorem done_cancel {future : FutureState} (h : future.done = true) :
    future.cancel.done = true := by
  cases future with
  | unset | pending | running => cases h
  | cancelled | finished => rfl

section Rows

variable {row : Option (JobRow ν)} {state state' : JobState} {update : Update ν}

theorem checkResult_persistable {result : Option ν}
    (fits : ∀ value, result = some value → Persistable encode value) :
    checkResult encode result = .ok () := by
  cases result with
  | none => rfl
  | some value =>
    obtain ⟨bytes, text, small⟩ := fits value rfl
    have small' : ¬maxResultBytes < bytes := by omega
    simp only [checkResult, text, if_neg small']

theorem updatePlatformJob_accepted (here : RowIn row state) (expected : state ∈ update.expected)
    (fits : ∀ value, update.result = some value → Persistable encode value) :
    ∃ after, updatePlatformJob encode row update = .ok (true, after) ∧
      RowIn after (update.state.getD state) := by
  obtain ⟨r, rfl, rfl⟩ := here
  rw [updatePlatformJob, checkResult_persistable fits]
  dsimp only
  rw [if_pos (.inr expected)]
  exact ⟨_, rfl, _, rfl, rfl⟩

theorem updatedRow_accepted (here : RowIn row state) (expected : state ∈ update.expected)
    (fits : ∀ value, update.result = some value → Persistable encode value) :
    RowIn (updatedRow encode row update) (update.state.getD state) := by
  obtain ⟨after, accepted, there⟩ := updatePlatformJob_accepted here expected fits
  rw [updatedRow, accepted]
  exact there

theorem updatedRow_note (message : String) (expected : List JobState) {r : JobRow ν} :
    ∃ r', updatedRow encode (some r) (note message expected) = some r' ∧ r'.state = r.state := by
  rw [updatedRow, updatePlatformJob]
  have ok : checkResult encode (@note ν message expected).result = .ok () := rfl
  rw [ok]
  dsimp only
  by_cases matched : (@note ν message expected).expected = [] ∨
      r.state ∈ (@note ν message expected).expected
  · rw [if_pos matched]
    exact ⟨_, rfl, rfl⟩
  · rw [if_neg matched]
    exact ⟨_, rfl, rfl⟩

theorem RowIn.note (here : RowIn row state) (message : String) (expected : List JobState) :
    RowIn (updatedRow encode row (Jobs.note message expected)) state := by
  obtain ⟨r, rfl, rfl⟩ := here
  obtain ⟨r', after, same⟩ := @updatedRow_note _ encode message expected r
  exact ⟨r', after, same⟩

theorem RowTerminal.note (here : RowTerminal row) (message : String) (expected : List JobState) :
    RowTerminal (updatedRow encode row (Jobs.note message expected)) := by
  obtain ⟨r, rfl, terminal⟩ := here
  obtain ⟨r', after, same⟩ := @updatedRow_note _ encode message expected r
  exact ⟨r', after, same ▸ terminal⟩

end Rows

section Jobs

variable {job : Job ν}

theorem Job.Healthy.acquired (id : String) : (Job.acquired id : Job ν).Healthy where
  sound := .acquired id
  stage := .outside rfl rfl rfl (fun _ => .inl rfl) nofun rfl rfl
  kept := rfl

theorem Job.Healthy.of_submitting (h : job.Healthy) (waits : job.submitting = true) :
    job.future = .unset ∧ job.owned = false ∧ job.callback = .unset ∧
      (job.row = none ∨ RowIn job.row .queued) ∧ job.retiring = none ∧
      job.terminalUpdate = none := by
  have unowned := (h.sound.submitting waits).1
  have never : job.owned ≠ true := fun o => Bool.false_ne_true (unowned.symm.trans o)
  cases h.stage with
  | outside future unowned callback row _ retiring update =>
    exact ⟨future, unowned, callback, row waits, retiring, update⟩
  | pending _ live => exact absurd live.owned never
  | running _ live => exact absurd live.owned never
  | ended _ owned => exact absurd owned never
  | retired _ _ handed => exact absurd (handed.symm.trans waits) Bool.false_ne_true

theorem Job.Healthy.persist (h : job.Healthy) : job.persist.1.Healthy := by
  have sound := h.sound.persist.sound
  rw [Job.persist] at sound ⊢
  by_cases waits : job.submitting = true ∧ job.row.isNone = true
  · rw [if_pos waits] at sound ⊢
    obtain ⟨future, unowned, callback, -, retiring, update⟩ := h.of_submitting waits.1
    refine ⟨sound, .outside future unowned callback (fun _ => .inr ⟨_, rfl, rfl⟩) ?_ retiring
      update, h.kept⟩
    exact fun handed => absurd (handed.symm.trans waits.1) Bool.false_ne_true
  · rw [if_neg waits]
    exact h

theorem Job.Healthy.reject (h : job.Healthy) (waits : job.submitting = true) (stopping : Bool)
    (text : String) : (job.reject encode stopping text).1.Healthy := by
  obtain ⟨future, unowned, callback, -, retiring, update⟩ := h.of_submitting waits
  exact ⟨(h.sound.reject waits stopping text).sound,
    .outside future unowned callback nofun (fun _ => rfl) retiring update, h.kept⟩

theorem Job.Healthy.handOff (h : job.Healthy) (accepting : Bool) :
    (job.handOff encode accepting).1.Healthy := by
  have sound := (@Job.Sound.handOff _ encode _ h.sound accepting).sound
  rw [Job.handOff] at sound ⊢
  by_cases waits : job.submitting = true ∧ job.row.isSome = true
  · rw [if_pos waits] at sound ⊢
    cases accepting with
    | false => exact h.reject waits.1 true stoppingText
    | true =>
      obtain ⟨-, -, callback, row, retiring, update⟩ := h.of_submitting waits.1
      have queued : RowIn job.row .queued := by
        refine row.resolve_left fun missing => ?_
        rw [missing] at waits
        exact absurd waits.2 Bool.false_ne_true
      exact ⟨sound, .pending rfl ⟨rfl, .inl callback, retiring, update, queued⟩, h.kept⟩
  · rw [if_neg waits]
    exact h

theorem Job.Healthy.interrupt (h : job.Healthy) (text : String) :
    (job.interrupt encode text).1.Healthy := by
  have sound := (@Job.Sound.interrupt _ encode _ h.sound text).sound
  rw [Job.interrupt] at sound ⊢
  by_cases waits : job.submitting = true
  · rw [if_pos waits]
    exact h.reject waits false text
  · rw [if_neg waits] at sound ⊢
    refine ⟨sound, ?_, h.kept⟩
    cases h.stage with
    | outside future unowned callback row _ retiring update =>
      exact .outside future unowned callback row (fun _ => rfl) retiring update
    | pending future live => exact .pending future ⟨live.1, live.2, live.3, live.4, live.5⟩
    | running future live => exact .running future ⟨live.1, live.2, live.3, live.4, live.5⟩
    | ended future owned waiting settleable => exact .ended future owned waiting settleable
    | retired future unowned handed callback retiring row =>
      exact .retired future unowned handed callback retiring row

theorem Job.Healthy.register (h : job.Healthy) : job.register.1.Healthy := by
  have sound := h.sound.register.sound
  rw [Job.register] at sound ⊢
  by_cases adds : job.inSubmit = true ∧ ¬job.submitting = true ∧ job.callback = .unset
  · rw [if_pos adds] at sound ⊢
    refine ⟨sound, ?_, h.kept⟩
    cases h.stage with
    | outside _ _ _ _ returned =>
      have excess := returned (eq_false_of_ne_true adds.2.1)
      exact absurd (excess.symm.trans adds.1) Bool.false_ne_true
    | pending future live => exact .pending future ⟨live.1, .inr rfl, live.3, live.4, live.5⟩
    | running future live => exact .running future ⟨live.1, .inr rfl, live.3, live.4, live.5⟩
    | ended future owned waiting settleable =>
      refine .ended future owned (waiting.imp (fun w => ⟨w.1, .inr rfl⟩) fun w => ?_) settleable
      cases w.2.symm.trans adds.2.2
    | retired _ _ _ callback => cases callback.symm.trans adds.2.2
  · rw [if_neg adds]
    exact h

theorem Job.Healthy.start (h : job.Healthy) : (job.start encode).1.Healthy := by
  have sound := (@Job.Sound.start _ encode _ h.sound).sound
  rw [Job.start] at sound ⊢
  by_cases starts : job.future.isPending = true
  · rw [if_pos starts] at sound ⊢
    refine ⟨sound, ?_, h.kept⟩
    cases h.stage with
    | outside future =>
      rw [future] at starts
      cases starts
    | pending _ live =>
      exact .running rfl ⟨live.1, live.2, live.3, live.4,
        updatedRow_accepted live.row List.mem_cons_self (by simp)⟩
    | running future =>
      rw [future] at starts
      cases starts
    | ended future => exact absurd ((isPending_of_done future).symm.trans starts) Bool.false_ne_true
    | retired future => exact absurd ((isPending_of_done future).symm.trans starts) Bool.false_ne_true
  · rw [if_neg starts]
    exact h

theorem Job.Stage.note (stage : job.Stage) (message : String) (expected : List JobState) :
    Job.Stage { job with row := updatedRow encode job.row (Jobs.note message expected) } := by
  cases stage with
  | outside future unowned callback row returned retiring update =>
    refine .outside future unowned callback (fun waits => ?_) returned retiring update
    rcases row waits with missing | queued
    · left
      show updatedRow encode job.row _ = none
      rw [missing]
      rfl
    · exact .inr (queued.note message expected)
  | pending future live =>
    exact .pending future ⟨live.1, live.2, live.3, live.4, live.row.note message expected⟩
  | running future live =>
    exact .running future ⟨live.1, live.2, live.3, live.4, live.row.note message expected⟩
  | ended future owned waiting settleable =>
    refine .ended future owned waiting (settleable.imp (fun s => ⟨s.1, ?_⟩) fun s => ?_)
    · exact s.2.imp (·.note message expected) (·.note message expected)
    · exact ⟨s.1, s.2.1, s.2.2.note message expected⟩
  | retired future unowned handed callback retiring row =>
    exact .retired future unowned handed callback retiring (row.note message expected)

theorem Job.Healthy.progress (h : job.Healthy) (message : String) :
    (job.progress encode message).1.Healthy := by
  have sound := (@Job.Sound.progress _ encode _ h.sound message).sound
  rw [Job.progress] at sound ⊢
  by_cases reports : job.future.isRunning = true ∧ ¬job.cancelled = true
  · rw [if_pos reports] at sound ⊢
    exact ⟨sound, h.stage.note message _, h.kept⟩
  · rw [if_neg reports]
    exact h

theorem Job.Healthy.noteCancellation (h : job.Healthy) :
    (job.noteCancellation encode).1.Healthy :=
  ⟨(@Job.Sound.noteCancellation _ encode _ h.sound).sound, h.stage.note _ _, h.kept⟩

theorem Job.Stage.cancel (stage : job.Stage) (cancelled : Bool) :
    Job.Stage { job with cancelled := cancelled, future := job.future.cancel } := by
  cases stage with
  | outside future unowned callback row returned retiring update =>
    exact .outside (congrArg FutureState.cancel future) unowned callback row returned retiring update
  | pending future live =>
    exact .ended (congrArg (FutureState.done ∘ FutureState.cancel) future) live.owned
      (.inl ⟨live.retiring, live.callback⟩) (.inl ⟨live.update, .inl live.row⟩)
  | running future live =>
    exact .running (congrArg FutureState.cancel future) ⟨live.1, live.2, live.3, live.4, live.5⟩
  | ended future owned waiting settleable =>
    exact .ended (done_cancel future) owned waiting settleable
  | retired future unowned handed callback retiring row =>
    exact .retired (done_cancel future) unowned handed callback retiring row

theorem Job.Healthy.cancel (h : job.Healthy) : job.cancel.1.Healthy := by
  have sound := h.sound.cancel.sound
  rw [Job.cancel] at sound ⊢
  by_cases cancels : job.owned = true ∧
      (job.row.any fun row => row.state = .queued ∨ row.state = .running) = true
  · rw [if_pos cancels] at sound ⊢
    exact ⟨sound, h.stage.cancel true, h.kept⟩
  · rw [if_neg cancels]
    exact h

theorem Job.Healthy.cancelFuture (h : job.Healthy) : job.cancelFuture.1.Healthy :=
  ⟨h.sound.cancelFuture.sound, h.stage.cancel job.cancelled, h.kept⟩

theorem persistTerminal_accepted {update : Update ν} {state terminal : JobState}
    (here : job.terminalUpdate = some update) (row : RowIn job.row state)
    (expected : state ∈ update.expected) (reaches : update.state = some terminal)
    (fits : ∀ value, update.result = some value → Persistable encode value) :
    ∃ after, job.persistTerminal encode =
        .ok { job with row := after, terminalPersisted := true } ∧ RowIn after terminal := by
  obtain ⟨after, accepted, there⟩ := updatePlatformJob_accepted row expected fits
  rw [reaches] at there
  refine ⟨after, ?_, there⟩
  rw [Job.persistTerminal, here]
  dsimp only
  rw [accepted]

/-- Where an operation ends in success, its value can be persisted. -/
def Job.Fits (encode : ν → Option Nat) (job : Job ν) (outcome : Outcome ν) (late : Bool)
    (auditError : Option (String × String)) : Prop :=
  ∀ value, outcome.checked job late = .returned value → auditError = none →
    Persistable encode value

theorem terminal_expects {outcome : Outcome ν} {auditError : Option (String × String)}
    {update : Update ν} (h : outcome.terminal auditError = some update) :
    JobState.running ∈ update.expected ∧
      (∃ terminal : JobState, update.state = some terminal ∧ terminal.Terminal) ∧
      ∀ value, update.result = some value → outcome = .returned value ∧ auditError = none := by
  cases outcome with
  | returned value =>
    cases auditError with
    | none =>
      cases h
      exact ⟨List.mem_cons_self, ⟨_, rfl, nofun, nofun⟩, fun _ same => by cases same; exact ⟨rfl, rfl⟩⟩
    | some error =>
      cases h
      exact ⟨List.mem_cons_of_mem _ List.mem_cons_self, ⟨_, rfl, nofun, nofun⟩, nofun⟩
  | cancelled message =>
    cases h
    exact ⟨List.mem_cons_of_mem _ List.mem_cons_self, ⟨_, rfl, nofun, nofun⟩, nofun⟩
  | timedOut message =>
    cases h
    exact ⟨List.mem_cons_of_mem _ List.mem_cons_self, ⟨_, rfl, nofun, nofun⟩, nofun⟩
  | raised name message =>
    cases h
    exact ⟨List.mem_cons_of_mem _ List.mem_cons_self, ⟨_, rfl, nofun, nofun⟩, nofun⟩
  | interrupted name message => cases h

theorem Job.Healthy.finish (h : job.Healthy) {outcome : Outcome ν} {late : Bool}
    {auditError : Option (String × String)} (fits : job.Fits encode outcome late auditError) :
    (job.finish encode outcome late auditError).1.Healthy := by
  have sound := (@Job.Sound.finish _ encode _ h.sound outcome late auditError).sound
  rw [Job.finish] at sound ⊢
  by_cases runs : job.future.isRunning = true
  · have live : job.Live .running := by
      cases h.stage with
      | outside future =>
        rw [future] at runs
        cases runs
      | pending future =>
        rw [future] at runs
        cases runs
      | running _ live => exact live
      | ended future => exact absurd ((isRunning_of_done future).symm.trans runs) Bool.false_ne_true
      | retired future => exact absurd ((isRunning_of_done future).symm.trans runs) Bool.false_ne_true
    rw [if_pos runs] at sound ⊢
    dsimp only at sound ⊢
    cases terminal : (outcome.checked job late).terminal auditError with
    | none =>
      rw [terminal] at sound
      exact ⟨sound, .ended rfl live.owned (.inl ⟨live.retiring, live.callback⟩)
        (.inl ⟨live.update, .inr live.row⟩), h.kept⟩
    | some update =>
      rw [terminal] at sound
      obtain ⟨expected, ⟨state, reaches, final⟩, result⟩ := terminal_expects terminal
      obtain ⟨after, accepted, there⟩ := @persistTerminal_accepted _ encode
        (job.withUpdate update) _ _ _ rfl live.row expected reaches
        fun value same => fits value (result value same).1 (result value same).2
      dsimp only at sound ⊢
      rw [accepted] at sound ⊢
      obtain ⟨r, there, same⟩ := there
      exact ⟨sound, .ended rfl live.owned (.inl ⟨live.retiring, live.callback⟩)
        (.inr ⟨by rintro ⟨⟩, rfl, r, there, same ▸ final⟩), h.kept⟩
  · rw [if_neg runs]
    exact h

theorem Job.Healthy.callback (h : job.Healthy) : (job.enterRetire .callback).1.Healthy := by
  have sound := (h.sound.enterRetire .callback).sound
  rw [Job.enterRetire] at sound ⊢
  by_cases called : job.callable .callback = true
  · rw [if_pos called] at sound ⊢
    obtain ⟨done, added⟩ := Bool.and_eq_true_iff.mp called
    have added := of_decide_eq_true added
    cases h.stage with
    | outside future =>
      rw [future] at done
      cases done
    | pending future =>
      rw [future] at done
      cases done
    | running future =>
      rw [future] at done
      cases done
    | ended future owned waiting settleable =>
      have idle : job.retiring = none := by
        rcases waiting with w | w
        · exact w.1
        · cases w.2.symm.trans added
      have enters : ¬(¬job.owned = true ∨ job.retiring.isSome = true) := by
        rw [owned, idle]
        simp
      rw [if_neg enters] at sound ⊢
      exact ⟨sound, .ended future owned (.inr ⟨rfl, rfl⟩) settleable, rfl⟩
    | retired _ _ _ ran => cases ran.symm.trans added
  · rw [if_neg called]
    exact h

theorem retirement_expects (future : FutureState) :
    JobState.queued ∈ (future.retirement : Update ν).expected ∧
      JobState.running ∈ (future.retirement : Update ν).expected ∧
      (∃ terminal : JobState, (future.retirement : Update ν).state = some terminal ∧
        terminal.Terminal) ∧ (future.retirement : Update ν).result = none := by
  unfold FutureState.retirement
  split <;> exact ⟨List.mem_cons_self, List.mem_cons_of_mem _ List.mem_cons_self,
    ⟨_, rfl, nofun, nofun⟩, rfl⟩

theorem settle_settleable (s : job.Settleable) :
    ∃ settled, job.settle encode = .ok settled ∧ RowTerminal settled.row ∧
      settled.future = job.future ∧ settled.failedRetirement = job.failedRetirement ∧
      settled.submitting = job.submitting := by
  rcases s with ⟨missing, opens⟩ | ⟨given, persisted, row⟩
  · obtain ⟨queued, running, ⟨terminal, reaches, final⟩, result⟩ :=
      @retirement_expects ν job.future
    have accepted : ∀ state, RowIn job.row state →
        state ∈ (job.future.retirement : Update ν).expected →
        ∃ after, (job.withUpdate job.future.retirement).persistTerminal encode =
          .ok { job.withUpdate job.future.retirement with row := after, terminalPersisted := true } ∧
          RowIn after terminal := fun state here expected =>
      persistTerminal_accepted rfl here expected reaches fun value same => by
        rw [result] at same
        cases same
    obtain ⟨after, accepted, r, there, same⟩ :=
      opens.elim (accepted .queued · queued) (accepted .running · running)
    rw [Job.settle, missing]
    dsimp only
    rw [accepted]
    exact ⟨_, rfl, ⟨r, there, same ▸ final⟩, rfl, rfl, rfl⟩
  · obtain ⟨update, here⟩ := Option.ne_none_iff_exists'.mp given
    rw [Job.settle, here]
    dsimp only
    rw [if_pos persisted]
    exact ⟨job, rfl, row, rfl, rfl, rfl⟩

theorem Job.Healthy.leaveRetire (h : job.Healthy) :
    (job.leaveRetire encode).1.Healthy := by
  have sound := (@Job.Sound.leaveRetire _ encode _ h.sound).sound
  rw [Job.leaveRetire] at sound ⊢
  by_cases works : job.retiring.isSome = true
  · rw [if_pos works] at sound ⊢
    have idle : job.retiring ≠ none := Option.isSome_iff_ne_none.mp works
    cases h.stage with
    | outside _ _ _ _ _ retiring => exact absurd retiring idle
    | pending _ live => exact absurd live.retiring idle
    | running _ live => exact absurd live.retiring idle
    | ended future owned waiting settleable =>
      obtain ⟨settled, ok, row, same, kept, submitting⟩ := @settle_settleable _ encode _ settleable
      have retiring := (waiting.resolve_left fun w => idle w.1).1
      have handed : job.submitting = false := by
        cases waits : job.submitting with
        | true => exact absurd (owned.symm.trans (h.sound.submitting waits).1) Bool.true_eq_false.mp
        | false => rfl
      rw [ok] at sound ⊢
      refine ⟨sound, .retired ?_ rfl (submitting.trans handed) ?_ rfl row, kept.trans h.kept⟩
      · exact (congrArg FutureState.done same).trans future
      · show afterCall job.callback job.retiring = .ran
        rw [retiring]
        rfl
    | retired _ _ _ _ retiring => exact absurd retiring idle
  · rw [if_neg works]
    exact h

theorem Job.Healthy.withId (h : job.Healthy) (id : String) : (job.withId id).Healthy := by
  refine ⟨h.sound.withId id, ?_, h.kept⟩
  cases h.stage with
  | outside future unowned callback row returned retiring update =>
    exact .outside future unowned callback row returned retiring update
  | pending future live => exact .pending future ⟨live.1, live.2, live.3, live.4, live.5⟩
  | running future live => exact .running future ⟨live.1, live.2, live.3, live.4, live.5⟩
  | ended future owned waiting settleable => exact .ended future owned waiting settleable
  | retired future unowned handed callback retiring row =>
    exact .retired future unowned handed callback retiring row

end Jobs

section Systems

variable (encode)

/-- Operations that end in success return values that can be persisted. -/
def Fitting (s : JobSystem ν) : Action ν → Prop
  | .finish id outcome late auditError =>
    ∀ job, s.jobs.get? id = some job → job.Fits encode outcome late auditError
  | _ => True

def FittingRun (s : JobSystem ν) (actions : List (Action ν)) : Prop :=
  ∀ before action after, actions = before ++ action :: after →
    Fitting encode (performAll encode s before) action

variable {encode} {s : JobSystem ν}

structure JobSystem.Healthy (s : JobSystem ν) : Prop where
  jobs : ∀ job ∈ s.jobs.rows, job.Healthy
  retries : s.retries = []

theorem JobSystem.Healthy.onJob (h : s.Healthy) {id : String} {step : Job ν → Stepped ν}
    (keeps : ∀ job, s.jobs.get? id = some job → job.Healthy → (step job).1.Healthy) :
    ∀ job ∈ (s.onJob id step).jobs.rows, job.Healthy := by
  intro job' member
  rcases mem_onJob member with old | ⟨job, here, rfl⟩
  · exact h.jobs job' old
  · exact (keeps job here (h.jobs job (Table.get?_some_iff.mp here).1)).withId job.id

theorem retries_onJob (id : String) (step : Job ν → Stepped ν) :
    (s.onJob id step).retries = s.retries := by
  rw [JobSystem.onJob]
  cases s.jobs.get? id <;> rfl

theorem JobSystem.Healthy.step (h : s.Healthy) {id : String} {step : Job ν → Stepped ν}
    (keeps : ∀ job, job.Healthy → (step job).1.Healthy) : (s.onJob id step).Healthy :=
  ⟨h.onJob fun job _ => keeps job, (retries_onJob id step).trans h.retries⟩

theorem JobSystem.Healthy.failedRetirements (h : s.Healthy) : s.failedRetirements = [] := by
  rw [JobSystem.failedRetirements, List.map_eq_nil_iff, List.filter_eq_nil_iff]
  intro job member failed
  exact Bool.false_ne_true ((h.jobs job member).kept.symm.trans failed)

theorem JobSystem.Healthy.acquire (h : s.Healthy) (id : String) : (s.acquire id).Healthy := by
  rw [JobSystem.acquire]
  split
  next free =>
    have rows : (s.jobs.insert (.acquired id)).rows = _ := Table.rows_insert free.2.2.2
    refine ⟨fun job member => ?_, h.retries⟩
    rw [rows] at member
    rcases List.mem_append.mp member with old | new
    · exact h.jobs job old
    · rw [List.mem_singleton.mp new]
      exact .acquired id
  next => exact h

theorem JobSystem.Healthy.beginShutdown (h : s.Healthy) : s.beginShutdown.Healthy := by
  rw [JobSystem.beginShutdown]
  split
  · exact ⟨h.jobs, h.retries⟩
  · refine ⟨fun job member => ?_, h.failedRetirements⟩
    obtain ⟨old, here, rfl⟩ := List.mem_map.mp member
    have healthy := h.jobs old here
    split
    · have sound := healthy.sound
      refine ⟨⟨sound.submitting, sound.owned, sound.free, sound.retiring⟩, ?_, healthy.kept⟩
      cases healthy.stage with
      | outside future unowned callback row returned retiring update =>
        exact .outside future unowned callback row returned retiring update
      | pending future live => exact .pending future ⟨live.1, live.2, live.3, live.4, live.5⟩
      | running future live => exact .running future ⟨live.1, live.2, live.3, live.4, live.5⟩
      | ended future owned waiting settleable => exact .ended future owned waiting settleable
      | retired future unowned handed callback retiring row =>
        exact .retired future unowned handed callback retiring row
    · exact healthy

theorem JobSystem.Healthy.perform (h : s.Healthy) {action : Action ν}
    (fits : Fitting encode s action) : (perform encode s action).Healthy := by
  cases action with
  | submit =>
    rw [Jobs.perform]
    split
    · exact ⟨h.jobs, h.retries⟩
    · exact h
  | refuse => exact ⟨h.jobs, h.retries⟩
  | acquire id => exact h.acquire id
  | persist id => exact h.step fun _ => Job.Healthy.persist
  | handOff id => exact h.step fun _ healthy => healthy.handOff s.accepting
  | interrupt id text => exact h.step fun _ healthy => healthy.interrupt text
  | register id => exact h.step fun _ => Job.Healthy.register
  | start id => exact h.step fun _ => Job.Healthy.start
  | progress id message => exact h.step fun _ healthy => healthy.progress message
  | finish id outcome late auditError =>
    exact ⟨h.onJob fun job here healthy => healthy.finish (fits job here),
      (retries_onJob id _).trans h.retries⟩
  | cancel id => exact h.step fun _ => Job.Healthy.cancel
  | noteCancellation id => exact h.step fun _ => Job.Healthy.noteCancellation
  | callback id => exact h.step fun _ => Job.Healthy.callback
  | retry id =>
    have none_left : id ∉ s.retries := by
      rw [h.retries]
      exact List.not_mem_nil
    rw [Jobs.perform, if_neg none_left]
    exact h
  | leaveRetire id =>
    rw [Jobs.perform, JobSystem.leaveRetire]
    have after : (s.onJob id (Job.leaveRetire encode)).Healthy :=
      h.step fun _ => Job.Healthy.leaveRetire
    cases s.jobs.get? id with
    | none => exact h
    | some job =>
      dsimp only
      split
      · exact ⟨after.jobs, after.retries⟩
      · exact after
  | beginShutdown => exact h.beginShutdown
  | cancelFuture id =>
    rw [Jobs.perform]
    split
    · exact h.step fun _ => Job.Healthy.cancelFuture
    · exact h
  | endShutdown raised =>
    rw [Jobs.perform, JobSystem.endShutdown]
    split
    · exact ⟨h.jobs, h.retries⟩
    · exact h
  | drain => exact h

theorem performAll_concat (actions : List (Action ν)) (action : Action ν) :
    performAll encode s (actions ++ [action]) =
      perform encode (performAll encode s actions) action := by
  rw [performAll, List.foldl_append]
  rfl

theorem performAll_healthy (h : s.Healthy) (actions : List (Action ν))
    (fits : FittingRun encode s actions) : (performAll encode s actions).Healthy := by
  induction actions using List.reverseRecOn with
  | nil => exact h
  | append_singleton before action ih =>
    rw [performAll_concat]
    have earlier : FittingRun encode s before := by
      rintro front a back rfl
      exact fits front a (back ++ [action]) (by rw [List.append_assoc, List.cons_append])
    exact (ih earlier).perform (fits before action [] rfl)

theorem performAll_accounted (a : s.Accounted) (actions : List (Action ν)) :
    (performAll encode s actions).Accounted :=
  List.foldlRecOn actions _ a fun _ a action _ => a.perform action

theorem Job.Healthy.retired {job : Job ν} (h : job.Healthy) (ran : job.callback = .ran) :
    job.future.done = true ∧ RowTerminal job.row ∧ job.owned = false ∧ job.releases = 1 := by
  cases h.stage with
  | outside _ _ callback => exact absurd (callback.symm.trans ran) nofun
  | pending _ live =>
    rcases live.callback with c | c <;> exact absurd (c.symm.trans ran) nofun
  | running _ live =>
    rcases live.callback with c | c <;> exact absurd (c.symm.trans ran) nofun
  | ended _ _ waiting =>
    rcases waiting with ⟨-, c | c⟩ | ⟨-, c⟩ <;> exact absurd (c.symm.trans ran) nofun
  | retired future unowned handed _ _ row =>
    exact ⟨future, row, unowned, h.sound.free handed unowned⟩

end Systems

section Samples

/-- Values are their lengths: one operation returns two million bytes. -/
def bigResult : List (Action Nat) :=
  [.submit, .acquire "job_1", .persist "job_1", .handOff "job_1", .register "job_1", .start "job_1",
    .finish "job_1" (.returned 2000000) false none, .callback "job_1", .leaveRetire "job_1"]

end Samples

end Arenyxa.Jobs
