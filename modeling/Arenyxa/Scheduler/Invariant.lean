import Arenyxa.Scheduler.Service

/-! What every change of the scheduler keeps: the marks, the futures and the generations. -/

universe u

namespace Arenyxa.Scheduler

open Table

variable {κ : Type u}

namespace Service

/-- The invocation of a future that is not yet retired. -/
def work (s : Service κ) (future : Nat) : Option (Invocation κ) :=
  (s.works future).map Work.invocation

def Holds (s : Service κ) (i : Invocation κ) : Prop :=
  i ∈ s.callbacks ∨ ∃ future, s.work future = some i

/-- The definition from which it was selected is still the one of the schedule. -/
def Fresh (s : Service κ) (i : Invocation κ) : Prop :=
  s.generations i.schedule = some i.generation

structure Sound (s : Service κ) : Prop where
  generated : ∀ id, s.jobs.get? id = none ↔ s.generations id = none
  issued : ∀ id g, s.generations id = some g → g ≤ s.counter
  held : ∀ i, s.Holds i → i.generation ≤ s.counter ∧ i.ticket < s.selections
  defines : ∀ i job, s.Holds i → s.Fresh i → s.jobs.get? i.schedule = some job →
    job.enabled = true ∧ job.callback = i.callback
  numbered : ∀ f i, s.work f = some i → f < s.submitted
  registered : ∀ f i, s.work f = some i → s.futures i.schedule = some f
  owned : ∀ id f, s.futures id = some f → ∃ i, s.work f = some i ∧ i.schedule = id
  apart : (s.callbacks.map Invocation.schedule).Nodup
  unsubmitted : ∀ i ∈ s.callbacks, s.futures i.schedule = none
  marked : ∀ id, id ∈ s.running ↔ (∃ i ∈ s.callbacks, i.schedule = id) ∨ (s.futures id).isSome
  entered : ∀ e ∈ s.rescheduled, e.generation ≤ s.counter ∧
    ∀ job, s.jobs.get? e.schedule = some job → s.generations e.schedule = some e.generation →
      job.nextRun = e.nextRun
  stale : ∀ f ∈ s.cancelling, f < s.submitted ∧ ∀ i, s.work f = some i → ¬s.Fresh i

variable {s t : Service κ} {zones : String → Option Zone}

theorem created_sound : (created : Service κ).Sound where
  generated _ := ⟨fun _ => rfl, fun _ => rfl⟩
  issued := nofun
  held i held := by rcases held with held | ⟨_, held⟩ <;> cases held
  defines i _ held := by rcases held with held | ⟨_, held⟩ <;> cases held
  numbered := nofun
  registered := nofun
  owned := nofun
  apart := List.nodup_nil
  unsubmitted := nofun
  marked _ := by simp [created]
  entered := nofun
  stale := nofun

@[simp] theorem job_key (job : Job κ) : Keyed.key job = job.id := rfl

theorem get?_define (job : Job κ) (id : String) :
    (s.define job).jobs.get? id = if id = job.id then some job else s.jobs.get? id := get?_assign

theorem generations_define (job : Job κ) (id : String) :
    (s.define job).generations id = if id = job.id then some (s.counter + 1) else s.generations id :=
  Function.update_apply ..

theorem current_define {job : Job κ} {id : String} {g : Nat} (bound : g ≤ s.counter) :
    (s.define job).generations id = some g ↔ id ≠ job.id ∧ s.generations id = some g := by
  rw [generations_define]
  split
  next same => exact ⟨fun now => by cases Option.some.inj now; omega, fun old => absurd same old.1⟩
  next other => exact ⟨fun now => ⟨other, now⟩, And.right⟩

theorem Sound.define (h : s.Sound) (job : Job κ) : (s.define job).Sound where
  generated id := by
    rw [get?_define, generations_define]
    split
    · simp
    · exact h.generated id
  issued id g found := by
    rw [generations_define] at found
    split at found
    · cases found
      exact Nat.le_refl _
    · exact (h.issued id g found).trans (Nat.le_succ _)
  held i held := ⟨(h.held i held).1.trans (Nat.le_succ _), (h.held i held).2⟩
  defines i j held fresh found := by
    obtain ⟨other, fresh⟩ := (current_define (h.held i held).1).mp fresh
    rw [get?_define, if_neg other] at found
    exact h.defines i j held fresh found
  numbered := h.numbered
  registered := h.registered
  owned := h.owned
  apart := h.apart
  unsubmitted := h.unsubmitted
  marked := h.marked
  entered e mem := by
    obtain ⟨bound, agrees⟩ := h.entered e mem
    refine ⟨bound.trans (Nat.le_succ _), fun j found fresh => ?_⟩
    obtain ⟨other, fresh⟩ := (current_define bound).mp fresh
    rw [get?_define, if_neg other] at found
    exact agrees j found fresh
  stale f mem := ⟨(h.stale f mem).1, fun i found fresh => (h.stale f mem).2 i found
    ((current_define (h.held i (.inr ⟨f, found⟩)).1).mp fresh).2⟩

/-- A step that leaves all that the invariant speaks of, up to the stages. -/
structure Same (s t : Service κ) : Prop where
  jobs : t.jobs = s.jobs
  generations : t.generations = s.generations
  counter : t.counter = s.counter
  running : t.running = s.running
  futures : t.futures = s.futures
  callbacks : t.callbacks = s.callbacks
  work : ∀ f, t.work f = s.work f
  submitted : t.submitted = s.submitted
  selections : t.selections = s.selections

theorem Same.refl (s : Service κ) : Same s s := ⟨rfl, rfl, rfl, rfl, rfl, rfl, fun _ => rfl, rfl, rfl⟩

theorem Same.holds (same : Same s t) {i : Invocation κ} : t.Holds i ↔ s.Holds i := by
  simp only [Holds, same.callbacks, same.work]

theorem Same.fresh (same : Same s t) {i : Invocation κ} : t.Fresh i ↔ s.Fresh i := by
  rw [Fresh, Fresh, same.generations]

theorem Sound.same (h : s.Sound) (same : Same s t) (entered : ∀ e ∈ t.rescheduled, e ∈ s.rescheduled)
    (stale : ∀ f ∈ t.cancelling, f < s.submitted ∧ ∀ i, s.work f = some i → ¬s.Fresh i) : t.Sound where
  generated := by
    rw [same.jobs, same.generations]
    exact h.generated
  issued := by
    rw [same.generations, same.counter]
    exact h.issued
  held i held := by
    rw [same.counter, same.selections]
    exact h.held i (same.holds.mp held)
  defines i := by
    rw [same.holds, same.fresh, same.jobs]
    exact h.defines i
  numbered f i := by
    rw [same.work, same.submitted]
    exact h.numbered f i
  registered f i := by
    rw [same.work, same.futures]
    exact h.registered f i
  owned id f := by
    rw [same.futures, same.work]
    exact h.owned id f
  apart := by
    rw [same.callbacks]
    exact h.apart
  unsubmitted := by
    rw [same.callbacks, same.futures]
    exact h.unsubmitted
  marked := by
    rw [same.callbacks, same.running, same.futures]
    exact h.marked
  entered e mem := by
    rw [same.counter, same.jobs, same.generations]
    exact h.entered e (entered e mem)
  stale f mem := by
    rw [same.submitted]
    refine ⟨(stale f mem).1, fun i found => ?_⟩
    rw [same.fresh]
    exact (stale f mem).2 i (same.work f ▸ found)

/-- From one state on the generations and the tickets go up, and no definition comes back. -/
structure Later (s t : Service κ) : Prop where
  counter : s.counter ≤ t.counter
  current : ∀ id g, g ≤ s.counter → t.generations id = some g → s.generations id = some g
  selections : s.selections ≤ t.selections
  held : ∀ i, t.Holds i → s.Holds i ∨ s.selections ≤ i.ticket

theorem Same.later (same : Same s t) : Later s t where
  counter := same.counter.ge
  current _ _ _ := by
    rw [same.generations]
    exact id
  selections := same.selections.ge
  held _ held := .inl (same.holds.mp held)

theorem Later.refl (s : Service κ) : Later s s := (Same.refl s).later

theorem Later.trans {u : Service κ} (first : Later s t) (second : Later t u) : Later s u where
  counter := first.counter.trans second.counter
  current id g bound now :=
    first.current id g bound (second.current id g (bound.trans first.counter) now)
  selections := first.selections.trans second.selections
  held i held := (second.held i held).elim (first.held i) fun later => .inr (first.selections.trans later)

theorem Later.define (s : Service κ) (job : Job κ) : Later s (s.define job) where
  counter := Nat.le_succ _
  current _ _ bound now := ((current_define bound).mp now).2
  selections := le_refl _
  held _ := .inl

theorem Sound.cancelFuture (h : s.Sound) {id : String}
    (stale : ∀ i, s.Holds i → i.schedule = id → ¬s.Fresh i) : (s.cancelFuture id).Sound := by
  refine h.same { Same.refl s with } (fun _ mem => mem) fun f mem => ?_
  rcases List.mem_append.mp mem with mem | mem
  · obtain ⟨i, found, same⟩ := h.owned id f (Option.mem_toList.mp mem)
    refine ⟨h.numbered f i found, fun i' found' => ?_⟩
    cases found.symm.trans found'
    exact stale _ (.inr ⟨f, found⟩) same
  · exact h.stale f mem

theorem Sound.write (h : s.Sound) (holder : Holder) (executed : Option Int) (id : String)
    (nextRun : Int) : (s.write holder executed id nextRun).Sound :=
  h.same { Same.refl s with } (fun _ mem => mem) h.stale

theorem Sound.basedOn (h : s.Sound) (id : String) (nextRun : Int) : (s.basedOn id nextRun).Sound :=
  h.same { Same.refl s with } (fun _ mem => mem) h.stale

theorem Sound.stale_define (h : s.Sound) (job : Job κ) (i : Invocation κ) (held : (s.define job).Holds i)
    (same : i.schedule = job.id) : ¬(s.define job).Fresh i := fun fresh =>
  ((current_define (h.held i held).1).mp fresh).1 same

theorem generations_forget {id other : String} :
    (s.forget id).generations other = if other = id then none else s.generations other :=
  Function.update_apply ..

theorem current_forget {id other : String} {g : Nat} :
    (s.forget id).generations other = some g ↔ other ≠ id ∧ s.generations other = some g := by
  rw [generations_forget]
  split
  next same => exact ⟨nofun, fun old => absurd same old.1⟩
  next differ => exact ⟨fun now => ⟨differ, now⟩, And.right⟩

theorem get?_forget {id other : String} :
    (s.forget id).jobs.get? other = if other = id then none else s.jobs.get? other := get?_erase

theorem Sound.forget (h : s.Sound) (id : String) : (s.forget id).Sound :=
  { h with
    generated := fun i => by
      rw [get?_forget, generations_forget]
      split
      · exact ⟨fun _ => rfl, fun _ => rfl⟩
      · exact h.generated i
    issued := fun i g found => h.issued i g (current_forget.1 found).2
    defines := fun i j held fresh found => by
      obtain ⟨other, fresh⟩ := current_forget.1 fresh
      rw [get?_forget, if_neg other] at found
      exact h.defines i j held fresh found
    entered := fun e mem => ⟨(h.entered e mem).1, fun j found fresh => by
      obtain ⟨other, fresh⟩ := current_forget.1 fresh
      rw [get?_forget, if_neg other] at found
      exact (h.entered e mem).2 j found fresh⟩
    stale := fun f mem => ⟨(h.stale f mem).1, fun i found fresh =>
      (h.stale f mem).2 i found (current_forget.1 fresh).2⟩ }

theorem Later.forget (s : Service κ) (id : String) : Later s (s.forget id) where
  counter := le_refl _
  current _ _ _ now := (current_forget.1 now).2
  selections := le_refl _
  held _ := .inl

theorem collectOne_cases (zones : String → Option Zone) (now : Int) (s : Service κ) (job : Job κ) :
    s.collectOne zones now job = s ∨
      s.collectOne zones now job = s.define { job with enabled := false } ∨
      ∃ generation following, job.enabled = true ∧ s.generations job.id = some generation ∧
        s.collectOne zones now job = s.advance job following generation := by
  rw [collectOne]
  split
  next => exact .inl rfl
  next => exact .inl rfl
  next generation enabled found =>
    split
    next => exact .inr (.inl rfl)
    next =>
      split
      next =>
        split
        next => exact .inr (.inl rfl)
        next following _ => exact .inr (.inr ⟨generation, following, enabled, found, rfl⟩)
      next => exact .inl rfl

theorem get?_postpone (job : Job κ) (following : Int) (id : String) :
    (s.postpone job following).jobs.get? id =
      if id = job.id then some { job with nextRun := following } else s.jobs.get? id := get?_assign

theorem Sound.postpone (h : s.Sound) {job : Job κ} (found : s.jobs.get? job.id = some job)
    (following : Int) (unlisted : ∀ e ∈ s.rescheduled, e.schedule ≠ job.id) :
    (s.postpone job following).Sound :=
  { h with
    generated := fun id => by
      change _ ↔ s.generations id = none
      rw [get?_postpone]
      split
      next same =>
        subst same
        exact ⟨nofun, fun gone => by cases found.symm.trans ((h.generated _).mpr gone)⟩
      next => exact h.generated id
    defines := fun i j held fresh now => by
      rw [get?_postpone] at now
      split at now
      next same =>
        cases now
        exact h.defines i job held fresh (same ▸ found)
      next => exact h.defines i j held fresh now
    entered := fun e mem => ⟨(h.entered e mem).1, fun j now fresh => by
      rw [get?_postpone, if_neg (unlisted e mem)] at now
      exact (h.entered e mem).2 j now fresh⟩ }

theorem Sound.list (h : s.Sound) {e : Reschedule} (current : s.generations e.schedule = some e.generation)
    (agrees : ∀ job, s.jobs.get? e.schedule = some job → job.nextRun = e.nextRun) :
    Sound { s with rescheduled := s.rescheduled ++ [e] } :=
  { h with
    entered := fun e' mem => by
      rcases List.mem_append.mp mem with mem | mem
      · exact h.entered e' mem
      · cases List.mem_singleton.mp mem
        exact ⟨h.issued _ _ current, fun job found _ => agrees job found⟩ }

theorem holds_select {job : Job κ} {following : Int} {generation : Nat} {i : Invocation κ} :
    (s.select job following generation).Holds i ↔
      s.Holds i ∨ i = ⟨job.id, job.callback, following, generation, s.selections⟩ := by
  simp only [Holds, select, List.mem_append, List.mem_singleton, or_right_comm]
  rfl

theorem Sound.select (h : s.Sound) {job : Job κ} {following : Int} {generation : Nat}
    (found : s.jobs.get? job.id = some { job with nextRun := following }) (enabled : job.enabled = true)
    (current : s.generations job.id = some generation) (idle : job.id ∉ s.running) :
    (s.select job following generation).Sound := by
  have free : (∀ i ∈ s.callbacks, i.schedule ≠ job.id) ∧ s.futures job.id = none := by
    rw [h.marked, not_or] at idle
    exact ⟨fun i mem same => idle.1 ⟨i, mem, same⟩, Option.not_isSome_iff_eq_none.mp idle.2⟩
  exact
  { h with
    held := fun i held => by
      rcases holds_select.1 held with held | rfl
      · exact ⟨(h.held i held).1, (h.held i held).2.trans (Nat.lt_succ_self _)⟩
      · exact ⟨h.issued _ _ current, Nat.lt_succ_self _⟩
    defines := fun i j held fresh now => by
      rcases holds_select.1 held with held | rfl
      · exact h.defines i j held fresh now
      · cases found.symm.trans now
        exact ⟨enabled, rfl⟩
    apart := by
      rw [Service.select, List.map_append, List.nodup_append]
      refine ⟨h.apart, List.nodup_singleton _, ?_⟩
      intro id there other here same
      obtain ⟨i, mem, rfl⟩ := List.mem_map.mp there
      exact free.1 i mem (same.trans (List.mem_singleton.mp here))
    unsubmitted := fun i mem => by
      rcases List.mem_append.mp mem with mem | mem
      · exact h.unsubmitted i mem
      · cases List.mem_singleton.mp mem
        exact free.2
    marked := fun id => by
      have := h.marked id
      simp only [Service.select, Finset.mem_insert, List.mem_append, List.mem_singleton]
      grind }

theorem Sound.advance (h : s.Sound) {job : Job κ} (found : s.jobs.get? job.id = some job)
    (enabled : job.enabled = true) {generation : Nat} (current : s.generations job.id = some generation)
    (following : Int) (unlisted : ∀ e ∈ s.rescheduled, e.schedule ≠ job.id) :
    (s.advance job following generation).Sound := by
  have postponed := h.postpone found following unlisted
  have now : (s.postpone job following).jobs.get? job.id = some { job with nextRun := following } := by
    rw [get?_postpone, if_pos rfl]
  rw [Service.advance]
  split
  next =>
    refine postponed.list (e := ⟨job.id, following, generation⟩) current fun j there => ?_
    cases now.symm.trans there
    rfl
  next idle => exact postponed.select now enabled current idle

theorem Later.advance (s : Service κ) (job : Job κ) (following : Int) (generation : Nat) :
    Later s (s.advance job following generation) := by
  rw [Service.advance]
  split
  · exact { Later.refl s with }
  · exact
    { Later.refl s with
      selections := Nat.le_succ _
      held := fun i held => (holds_select.1 held).imp_right fun new => by
        rw [new]
        exact le_refl _ }

end Service

end Arenyxa.Scheduler
