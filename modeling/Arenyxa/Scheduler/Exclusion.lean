import Arenyxa.Scheduler.Invariant

/-! What holds of the scheduler in whatever order its threads take their steps. -/

universe u

namespace Arenyxa.Scheduler

open Table

variable {κ : Type u}

namespace Service

/-- It is selected, and its callback is not yet tried. -/
def Awaits (s : Service κ) (i : Invocation κ) : Prop :=
  i ∈ s.callbacks ∨ ∃ future stage, s.works future = some ⟨i, stage⟩ ∧ stage.awaited = true

/-- The last next run persisted since the schedule was defined or enabled, or else the one that it
was given then. -/
def lastNextRun (s : Service κ) (id : String) : Int := (s.persisted id).getD (s.defined id)

/-- The same, with the call that is under way. -/
def expected (s : Service κ) (id : String) : Int :=
  match s.writing with
  | none => s.lastNextRun id
  | some w => if w.schedule = id then w.nextRun else s.lastNextRun id

/-- Something is left that will persist the next run of the schedule. -/
def Pending (s : Service κ) (id : String) : Prop :=
  (∃ i, s.Awaits i ∧ i.schedule = id ∧ s.Fresh i) ∨
    ∃ e ∈ s.rescheduled, e.schedule = id ∧ s.generations id = some e.generation

def Settled (s : Service κ) : Prop :=
  ∀ id job, s.jobs.get? id = some job → job.enabled = true →
    s.expected id = job.nextRun ∨ s.Pending id

variable {s t : Service κ} {zones : String → Option Zone}

theorem created_settled : (created : Service κ).Settled := nofun

theorem Settled.step (h : s.Settled)
    (each : ∀ id job, t.jobs.get? id = some job → job.enabled = true →
      t.expected id = job.nextRun ∨ t.Pending id ∨
        (s.jobs.get? id = some job ∧ t.expected id = s.expected id ∧ (s.Pending id → t.Pending id))) :
    t.Settled := by
  intro id job found enabled
  rcases each id job found enabled with now | now | ⟨before, same, keeps⟩
  · exact .inl now
  · exact .inr now
  · rw [same]
    exact (h id job before enabled).imp_right keeps

theorem Pending.mono {id : String} (h : s.Pending id) (same : t.generations id = s.generations id)
    (awaits : ∀ i, s.Awaits i → t.Awaits i) (entries : ∀ e ∈ s.rescheduled, e ∈ t.rescheduled) :
    t.Pending id := by
  rcases h with ⟨i, awaited, rfl, fresh⟩ | ⟨e, mem, named, current⟩
  · exact .inl ⟨i, awaits i awaited, rfl, same.trans fresh⟩
  · exact .inr ⟨e, entries e mem, named, same.trans current⟩

theorem Settled.write (h : s.Settled) (free : s.writing = none) {id : String} {nextRun : Int}
    (right : ∀ job, s.jobs.get? id = some job → nextRun = job.nextRun) (holder : Holder)
    (executed : Option Int) : (s.write holder executed id nextRun).Settled := by
  refine h.step fun other job found enabled => ?_
  by_cases same : id = other
  · subst same
    exact .inl ((if_pos rfl).trans (right job found))
  · refine .inr (.inr ⟨found, (if_neg same).trans ?_, fun pending => pending⟩)
    rw [expected, free]
    rfl

theorem Pending.define {id : String} (h : s.Pending id) {job : Job κ} (other : id ≠ job.id) :
    (s.define job).Pending id :=
  h.mono ((generations_define job id).trans (if_neg other)) (fun _ awaited => awaited)
    fun _ mem => mem

theorem Settled.disable (h : s.Settled) {job : Job κ} (disabled : job.enabled = false) :
    (s.define job).Settled := by
  refine h.step fun id j found enabled => ?_
  rw [get?_define] at found
  split at found
  next =>
    cases found
    cases disabled.symm.trans enabled
  next other => exact .inr (.inr ⟨found, rfl, fun pending => pending.define other⟩)

theorem Settled.define (h : s.Settled) (free : s.writing = none) (job : Job κ) :
    ((s.define job).basedOn job.id job.nextRun).Settled := by
  have based (id : String) : ((s.define job).basedOn job.id job.nextRun).expected id =
      if id = job.id then job.nextRun else s.lastNextRun id := by
    have same : ((s.define job).basedOn job.id job.nextRun).writing = none := free
    rw [expected, same]
    simp only [lastNextRun, basedOn, Function.update_apply]
    split <;> rfl
  refine h.step fun id j found enabled => ?_
  rw [based]
  rw [show ((s.define job).basedOn job.id job.nextRun).jobs = (s.define job).jobs from rfl,
    get?_define] at found
  split at found
  next same =>
    cases found
    exact .inl (if_pos same)
  next other =>
    refine .inr (.inr ⟨found, ?_, fun pending => pending.define other⟩)
    rw [if_neg other, expected, free]

theorem Settled.redefine (h : s.Settled) (free : s.writing = none) (job : Job κ) :
    (((s.define job).basedOn job.id job.nextRun).write .caller none job.id job.nextRun).Settled := by
  refine (h.define free job).write free (fun j found => ?_) _ _
  have own : (s.define job).jobs.get? job.id = some job := (get?_define _ _).trans (if_pos rfl)
  cases own.symm.trans found
  rfl

theorem Settled.cancelFuture (h : s.Settled) (id : String) : (s.cancelFuture id).Settled := h

/-- What every step of the service leads to. -/
structure Kept (s t : Service κ) : Prop where
  sound : t.Sound
  settled : t.Settled
  later : Later s t

theorem Sound.add (h : s.Sound) (settled : s.Settled) {id : String} {rule : ScheduleRule} {callback : κ}
    {enabled : Bool} {nextRun : Option Int} {now : Int}
    (step : s.add zones id rule callback enabled nextRun now = some t) : Kept s t := by
  rw [Service.add] at step
  split at step
  · cases step
  next allowed =>
    have free : s.writing = none := by
      simpa using fun writing => allowed (.inr (.inr writing))
    split at step
    · cases step
    next dueAt _ =>
      have defined := (h.define ⟨id, rule, dueAt, callback, enabled⟩).basedOn id dueAt
      have later := Later.define s ⟨id, rule, dueAt, callback, enabled⟩
      split at step
      · cases step
        exact ⟨(defined.cancelFuture (h.stale_define _)).write ..,
          (settled.redefine free ⟨id, rule, dueAt, callback, enabled⟩).cancelFuture id, { later with }⟩
      · cases step
        exact ⟨defined, settled.define free ⟨id, rule, dueAt, callback, enabled⟩, { later with }⟩

theorem Sound.setEnabled (h : s.Sound) (settled : s.Settled) {id : String} {enabled : Bool} {now : Int}
    (step : s.setEnabled zones id enabled now = some t) : Kept s t := by
  rw [Service.setEnabled] at step
  split at step
  · cases step
  next free =>
    have free : s.writing = none := by simpa using free
    split at step
    · cases step
    next job found =>
      have same : job.id = id := get?_key found
      subst same
      split at step
      · cases step
        exact ⟨h, settled, .refl s⟩
      · cases step
        exact ⟨h, settled, .refl s⟩
      · cases step
        exact ⟨(h.define _).cancelFuture (h.stale_define _),
          (settled.disable rfl).cancelFuture job.id, { Later.define s _ with }⟩
      · split at step
        · cases step
        next nextRun _ =>
          cases step
          exact ⟨((h.define _).basedOn _ nextRun).write ..,
            settled.redefine free { job with nextRun := nextRun, enabled := true },
            { Later.define s _ with }⟩

theorem Settled.forget (h : s.Settled) (id : String) : (s.forget id).Settled := by
  refine h.step fun other job found enabled => ?_
  rw [get?_forget] at found
  split at found
  next => cases found
  next differ =>
    refine .inr (.inr ⟨found, rfl, fun pending => pending.mono ?_ (fun _ awaited => awaited)
      fun _ mem => mem⟩)
    exact (generations_forget).trans (if_neg differ)

theorem Sound.remove (h : s.Sound) (settled : s.Settled) {id : String} (step : s.remove id = some t) :
    Kept s t := by
  rw [Service.remove] at step
  split at step
  · cases step
  · cases step
    exact ⟨(h.forget id).cancelFuture fun i _ same fresh => (current_forget.mp fresh).1 same,
      (settled.forget id).cancelFuture id, { Later.forget s id with }⟩

theorem Settled.advance (h : s.Settled) {job : Job κ} {generation : Nat}
    (current : s.generations job.id = some generation) (following : Int) :
    (s.advance job following generation).Settled := by
  rw [Service.advance]
  split
  next =>
    refine h.step fun id j found enabled => ?_
    change (s.postpone job following).jobs.get? id = some j at found
    rw [get?_postpone] at found
    split at found
    next same =>
      exact .inr (.inl (.inr ⟨_, List.mem_append_right _ (List.mem_singleton.mpr rfl), same.symm,
        same ▸ current⟩))
    next =>
      exact .inr (.inr ⟨found, rfl, fun pending => pending.mono rfl (fun _ awaited => awaited)
        fun _ mem => List.mem_append_left _ mem⟩)
  next =>
    refine h.step fun id j found enabled => ?_
    change (s.postpone job following).jobs.get? id = some j at found
    rw [get?_postpone] at found
    split at found
    next same =>
      exact .inr (.inl (.inl ⟨_, .inl (List.mem_append_right _ (List.mem_singleton.mpr rfl)),
        same.symm, current⟩))
    next =>
      exact .inr (.inr ⟨found, rfl, fun pending => pending.mono rfl
        (fun _ awaited => awaited.imp_left (List.mem_append_left _)) fun _ mem => mem⟩)

theorem Current.collected (zones : String → Option Zone) (now : Int) {job : Job κ}
    {rest : List (Job κ)} (current : s.jobs.Current (job :: rest)) :
    (s.collectOne zones now job).jobs.Current rest := by
  refine current.tail fun id other => ?_
  rcases collectOne_cases zones now s job with same | same | ⟨_, following, -, -, same⟩
  · rw [same]
  · rw [same, get?_define]
    exact if_neg other
  · rw [same, advance]
    have left : (s.postpone job following).jobs.get? id = s.jobs.get? id :=
      (get?_postpone ..).trans (if_neg other)
    split <;> exact left

theorem mem_rescheduled_collectOne (zones : String → Option Zone) (now : Int) {job : Job κ}
    {e : Reschedule} (mem : e ∈ (s.collectOne zones now job).rescheduled) :
    e ∈ s.rescheduled ∨ e.schedule = job.id := by
  rcases collectOne_cases zones now s job with same | same | ⟨_, following, -, -, same⟩
  · exact .inl (same ▸ mem)
  · rw [same] at mem
    exact .inl mem
  · rw [same, advance] at mem
    split at mem
    · rcases List.mem_append.mp mem with mem | mem
      · exact .inl mem
      · exact .inr (List.mem_singleton.mp mem ▸ rfl)
    · exact .inl mem

theorem Sound.pass (zones : String → Option Zone) (now : Int) {rest : List (Job κ)} (h : s.Sound)
    (settled : s.Settled) (current : s.jobs.Current rest)
    (unlisted : ∀ e ∈ s.rescheduled, ∀ job ∈ rest, e.schedule ≠ job.id) :
    Kept s (rest.foldl (collectOne zones now) s) := by
  induction rest generalizing s with
  | nil => exact ⟨h, settled, .refl s⟩
  | cons job rest ih =>
    have further : ∀ e ∈ (s.collectOne zones now job).rescheduled, ∀ j ∈ rest, e.schedule ≠ j.id := by
      intro e mem j there same
      rcases mem_rescheduled_collectOne zones now mem with mem | named
      · exact unlisted e mem j (List.mem_cons_of_mem _ there) same
      · refine (List.nodup_cons.mp current.1).1 ?_
        exact List.mem_map.mpr ⟨j, there, (named.symm.trans same).symm⟩
    have one : Kept s (s.collectOne zones now job) := by
      rcases collectOne_cases zones now s job with same | same | ⟨g, following, enabled, found, same⟩
      · rw [same]
        exact ⟨h, settled, .refl s⟩
      · rw [same]
        exact ⟨h.define _, settled.disable rfl, .define s _⟩
      · rw [same]
        refine ⟨h.advance current.head enabled found following fun e mem => ?_,
          settled.advance found following, .advance s job following g⟩
        exact unlisted e mem job List.mem_cons_self
    have all := ih one.sound one.settled (Current.collected zones now current) further
    exact ⟨all.sound, all.settled, one.later.trans all.later⟩

theorem Sound.collect (h : s.Sound) (settled : s.Settled) {now : Int}
    (step : s.collect zones now = some t) : Kept s t := by
  rw [Service.collect] at step
  split at step
  next empty _ =>
    split at step
    · cases step
    · cases step
      refine h.pass zones now settled ⟨s.jobs.nodup, fun job mem => mem_rows_iff.mp mem⟩ ?_
      rw [empty]
      nofun
  next => cases step

theorem Pending.drop {id : String} {e : Reschedule} {rest : List Reschedule} (h : s.Pending id)
    (listed : s.rescheduled = e :: rest)
    (spent : ¬(e.schedule = id ∧ s.generations id = some e.generation)) :
    Pending { s with rescheduled := rest } id := by
  refine h.imp_right fun ⟨e', mem, named⟩ => ⟨e', ?_, named⟩
  rcases List.mem_cons.mp (listed ▸ mem) with rfl | mem
  · exact absurd named spent
  · exact mem

theorem Sound.reschedule (h : s.Sound) (settled : s.Settled) (step : s.reschedule = some t) :
    Kept s t := by
  rw [Service.reschedule] at step
  split at step
  · cases step
  next e rest listed =>
    have rests : ∀ e' ∈ rest, e' ∈ s.rescheduled := fun e' mem => listed ▸ List.mem_cons_of_mem _ mem
    have kept : Sound { s with rescheduled := rest } := h.same { Same.refl s with } rests h.stale
    split at step
    · cases step
    next free =>
      have free : s.writing = none := by simpa using free
      split at step
      next current =>
        cases step
        refine ⟨kept.write .., settled.step fun id job found enabled => ?_, { Later.refl s with }⟩
        by_cases same : e.schedule = id
        · subst same
          have right := (h.entered e (listed ▸ List.mem_cons_self)).2 job found current.2
          exact .inl ((if_pos rfl).trans right.symm)
        · refine .inr (.inr ⟨found, (if_neg same).trans ?_, fun pending =>
            pending.drop listed fun spent => same spent.1⟩)
          rw [expected, free]
          rfl
      next stale =>
        cases step
        refine ⟨kept, settled.step fun id job found enabled => .inr (.inr ⟨found, rfl, fun pending =>
          pending.drop listed ?_⟩), { Later.refl s with }⟩
        rintro ⟨rfl, current⟩
        have there : s.jobs.get? e.schedule = some job := found
        exact stale ⟨by rw [there]; rfl, current⟩

theorem work_accept {invocation : Invocation κ} {rest : List (Invocation κ)} {f : Nat} :
    (s.accept invocation rest).work f = if f = s.submitted then some invocation else s.work f := by
  have works : (s.accept invocation rest).works f =
      if f = s.submitted then some ⟨invocation, .queued⟩ else s.works f := Function.update_apply ..
  rw [work, works]
  split <;> rfl

theorem Sound.holds_accept (h : s.Sound) {invocation : Invocation κ} {rest : List (Invocation κ)}
    (listed : s.callbacks = invocation :: rest) {i : Invocation κ} :
    (s.accept invocation rest).Holds i ↔ s.Holds i := by
  have new (f : Nat) (found : s.work f = some i) : f ≠ s.submitted :=
    fun same => absurd (h.numbered f i found) (same ▸ lt_irrefl _)
  simp only [Holds, listed, List.mem_cons, work_accept]
  constructor
  · rintro (mem | ⟨f, found⟩)
    · exact .inl (.inr mem)
    · split at found
      · exact .inl (.inl (Option.some.inj found).symm)
      · exact .inr ⟨f, found⟩
  · rintro ((rfl | mem) | ⟨f, found⟩)
    · exact .inr ⟨s.submitted, if_pos rfl⟩
    · exact .inl mem
    · exact .inr ⟨f, (if_neg (new f found)).trans found⟩

theorem Sound.accept (h : s.Sound) {invocation : Invocation κ} {rest : List (Invocation κ)}
    (listed : s.callbacks = invocation :: rest) : (s.accept invocation rest).Sound := by
  have apart := h.apart
  rw [listed, List.map_cons, List.nodup_cons] at apart
  have other (i : Invocation κ) (mem : i ∈ rest) : i.schedule ≠ invocation.schedule :=
    fun same => apart.1 (same ▸ List.mem_map_of_mem mem)
  have free : s.futures invocation.schedule = none :=
    h.unsubmitted invocation (listed ▸ List.mem_cons_self)
  have futures (id : String) : (s.accept invocation rest).futures id =
      if id = invocation.schedule then some s.submitted else s.futures id := Function.update_apply ..
  exact
  { h with
    held := fun i held => h.held i ((h.holds_accept listed).mp held)
    defines := fun i j held => h.defines i j ((h.holds_accept listed).mp held)
    numbered := fun f i found => by
      rw [work_accept] at found
      split at found
      next same => exact same ▸ Nat.lt_succ_self _
      next => exact (h.numbered f i found).trans (Nat.lt_succ_self _)
    registered := fun f i found => by
      rw [work_accept] at found
      rw [futures]
      split at found
      next same =>
        cases found
        rw [if_pos rfl, same]
      next =>
        have before := h.registered f i found
        rw [if_neg fun same => by cases (same ▸ before).symm.trans free]
        exact before
    owned := fun id f found => by
      rw [futures] at found
      split at found
      next same =>
        cases found
        exact ⟨invocation, work_accept.trans (if_pos rfl), same.symm⟩
      next =>
        obtain ⟨i, before, named⟩ := h.owned id f found
        refine ⟨i, work_accept.trans ((if_neg fun same => ?_).trans before), named⟩
        exact absurd (h.numbered f i before) (same ▸ lt_irrefl _)
    apart := apart.2
    unsubmitted := fun i mem => by
      rw [futures, if_neg (other i mem)]
      exact h.unsubmitted i (listed ▸ List.mem_cons_of_mem _ mem)
    marked := fun id => by
      rw [futures]
      refine (h.marked id).trans ?_
      rw [listed]
      simp only [List.mem_cons, exists_eq_or_imp]
      split
      next same => exact ⟨fun _ => .inr rfl, fun _ => .inl (.inl same.symm)⟩
      next differ =>
        exact or_congr_left (or_iff_right fun same => differ same.symm)
    stale := fun f mem => ⟨(h.stale f mem).1.trans (Nat.lt_succ_self _), fun i found => by
      rw [work_accept, if_neg (h.stale f mem).1.ne] at found
      exact (h.stale f mem).2 i found⟩ }

theorem Sound.submit (h : s.Sound) (settled : s.Settled) (step : s.submit = some t) :
    Kept s t := by
  rw [Service.submit] at step
  split at step
  next invocation rest _ listed =>
    split at step
    · cases step
    · cases step
      refine ⟨h.accept listed, settled.step fun id job found enabled => .inr (.inr ⟨found, rfl,
        fun pending => pending.mono rfl (fun i awaited => ?_) fun _ mem => mem⟩),
        { Later.refl s with held := fun i held => .inl ((h.holds_accept listed).mp held) }⟩
      rcases awaited with mem | ⟨f, stage, found, waits⟩
      · rcases List.mem_cons.mp (listed ▸ mem) with rfl | mem
        · exact .inr ⟨s.submitted, .queued, Function.update_self .., rfl⟩
        · exact .inl mem
      · refine .inr ⟨f, stage, (Function.update_of_ne ?_ ..).trans found, waits⟩
        exact (h.numbered f i (by rw [work, found]; rfl)).ne
  next => cases step

theorem works_moveTo {f f' : Nat} {i : Invocation κ} {stage : Stage} :
    (s.moveTo f i stage).works f' = if f' = f then some ⟨i, stage⟩ else s.works f' :=
  Function.update_apply ..

theorem same_moveTo {f : Nat} {i : Invocation κ} {stage old : Stage}
    (found : s.works f = some ⟨i, old⟩) : Same s (s.moveTo f i stage) :=
  { Same.refl s with
    work := fun f' => by
      rw [work, works_moveTo]
      split
      next same => rw [same, work, found]; rfl
      next => rfl }

theorem Sound.moveTo (h : s.Sound) {f : Nat} {i : Invocation κ} {stage old : Stage}
    (found : s.works f = some ⟨i, old⟩) : (s.moveTo f i stage).Sound :=
  h.same (same_moveTo found) (fun _ mem => mem) h.stale

theorem Awaits.moveTo {f : Nat} {i j : Invocation κ} {stage old : Stage} (h : s.Awaits j)
    (found : s.works f = some ⟨i, old⟩) (kept : old.awaited = true → stage.awaited = true ∨ j ≠ i) :
    (s.moveTo f i stage).Awaits j := by
  refine h.imp_right fun ⟨f', stage', there, waits⟩ => ?_
  by_cases same : f' = f
  · subst same
    cases found.symm.trans there
    rcases kept waits with kept | other
    · exact ⟨f', stage, works_moveTo.trans (if_pos rfl), kept⟩
    · exact absurd rfl other
  · exact ⟨f', stage', works_moveTo.trans ((if_neg same).trans there), waits⟩

theorem Settled.moveTo (h : s.Settled) {f : Nat} {i : Invocation κ} {stage old : Stage}
    (found : s.works f = some ⟨i, old⟩)
    (kept : old.awaited = true → stage.awaited = true ∨
      ∀ job, s.jobs.get? i.schedule = some job → job.enabled = true → ¬s.Fresh i) :
    (s.moveTo f i stage).Settled := by
  refine h.step fun id job there enabled => .inr (.inr ⟨there, rfl, fun pending => ?_⟩)
  refine pending.imp_left fun ⟨j, awaited, named, fresh⟩ => ⟨j, ?_, named, fresh⟩
  refine awaited.moveTo found fun waits => (kept waits).imp_right fun outdated same => ?_
  subst same named
  exact outdated job there enabled fresh

theorem Sound.claim (h : s.Sound) (settled : s.Settled) {f : Nat} (step : s.claim f = some t) :
    Kept s t := by
  rw [Service.claim] at step
  split at step
  next i found =>
    cases step
    exact ⟨h.moveTo found, settled.moveTo found fun _ => .inl rfl, (same_moveTo found).later⟩
  next => cases step

theorem Settled.release (h : s.Settled) {w : Writing} (writing : s.writing = some w) :
    (s.release w).Settled := by
  refine h.step fun id job found _ => .inr (.inr ⟨found, ?_, fun pending => pending⟩)
  have last : (s.release w).lastNextRun id =
      if w.schedule = id then w.nextRun else s.lastNextRun id := by
    simp only [lastNextRun, Service.release, Function.update_apply, eq_comm]
    split <;> rfl
  rw [expected, expected, writing]
  exact last

theorem Sound.release (h : s.Sound) (w : Writing) : (s.release w).Sound :=
  h.same { Same.refl s with } (fun _ mem => mem) h.stale

theorem Sound.persist (h : s.Sound) (settled : s.Settled) (step : s.persist = some t) :
    Kept s t := by
  rw [Service.persist] at step
  split at step
  · cases step
  next w writing =>
    have released := settled.release writing
    split at step
    · cases step
      exact ⟨h.release w, released, { Later.refl s with }⟩
    · cases step
      exact ⟨h.release w, released, { Later.refl s with }⟩
    · split at step
      next i found =>
        cases step
        exact ⟨(h.release w).moveTo found, released.moveTo found nofun, { (same_moveTo found).later with }⟩
      next =>
        cases step
        exact ⟨h.release w, released, { Later.refl s with }⟩

theorem Sound.cancel (h : s.Sound) (settled : s.Settled) {f : Nat} (step : s.cancel f = some t) :
    Kept s t := by
  rw [Service.cancel] at step
  split at step
  next listed =>
    have left : Sound { s with cancelling := s.cancelling.erase f } :=
      h.same { Same.refl s with } (fun _ mem => mem) fun f' mem => h.stale f' (List.mem_of_mem_erase mem)
    have settled' : Settled { s with cancelling := s.cancelling.erase f } := settled
    split at step
    next i found =>
      cases step
      refine ⟨left.moveTo found, settled'.moveTo found fun _ => .inr fun _ _ _ => ?_,
        { (same_moveTo found).later with }⟩
      exact (h.stale f listed).2 i (by rw [work, found]; rfl)
    next =>
      cases step
      exact ⟨left, settled', { Later.refl s with }⟩
  next => cases step

theorem work_retire {f f' : Nat} {i : Invocation κ} :
    (s.retire f i).work f' = if f' = f then none else s.work f' := by
  have works : (s.retire f i).works f' = if f' = f then none else s.works f' :=
    Function.update_apply ..
  rw [work, works]
  split <;> rfl

theorem work_of_retire {f f' : Nat} {i j : Invocation κ} (there : (s.retire f i).work f' = some j) :
    f' ≠ f ∧ s.work f' = some j := by
  rw [work_retire] at there
  split at there
  next => cases there
  next other => exact ⟨other, there⟩

theorem Sound.retire (h : s.Sound) {f : Nat} {i : Invocation κ} (found : s.work f = some i) :
    (s.retire f i).Sound := by
  have registered := h.registered f i found
  have futures (id : String) : (s.retire f i).futures id =
      if id = i.schedule then none else s.futures id := Function.update_apply ..
  have holds {j : Invocation κ} (held : (s.retire f i).Holds j) : s.Holds j :=
    held.imp_right fun ⟨f', there⟩ => ⟨f', (work_of_retire there).2⟩
  -- Another future of the schedule would be registered in the place of this one.
  have alone {f' : Nat} {j : Invocation κ} (other : f' ≠ f) (there : s.work f' = some j) :
      j.schedule ≠ i.schedule := fun same =>
    other (Option.some.inj ((h.registered f' j there).symm.trans (same ▸ registered)))
  exact
  { h with
    held := fun j held => h.held j (holds held)
    defines := fun j job held => h.defines j job (holds held)
    numbered := fun f' j there => h.numbered f' j (work_of_retire there).2
    registered := fun f' j there => by
      obtain ⟨other, before⟩ := work_of_retire there
      rw [futures, if_neg (alone other before)]
      exact h.registered f' j before
    owned := fun id f' there => by
      rw [futures] at there
      split at there
      next => cases there
      next differ =>
        obtain ⟨j, before, named⟩ := h.owned id f' there
        refine ⟨j, work_retire.trans ((if_neg fun same => ?_).trans before), named⟩
        subst same
        cases found.symm.trans before
        exact differ named.symm
    unsubmitted := fun j mem => by
      rw [futures]
      split
      next => rfl
      next => exact h.unsubmitted j mem
    marked := fun id => by
      change id ∈ s.running.erase i.schedule ↔ _
      rw [Finset.mem_erase, h.marked id, futures]
      split
      next same =>
        subst same
        refine ⟨fun held => absurd rfl held.1, ?_⟩
        rintro (⟨j, mem, same⟩ | gone)
        · cases (same ▸ h.unsubmitted j mem).symm.trans registered
        · cases gone
      next differ => exact and_iff_right differ
    stale := fun f' mem => ⟨(h.stale f' mem).1, fun j there => (h.stale f' mem).2 j (work_of_retire there).2⟩ }

theorem Sound.callbackDone (h : s.Sound) (settled : s.Settled) {f : Nat}
    (step : s.callbackDone f = some t) : Kept s t := by
  rw [Service.callbackDone] at step
  split at step
  next i found =>
    have held : s.work f = some i := by
      rw [work, found]
      rfl
    rw [if_pos (h.registered f i held)] at step
    cases step
    have awaits (j : Invocation κ) (awaited : s.Awaits j) : (s.retire f i).Awaits j := by
      refine awaited.imp_right fun ⟨f', stage, before, waits⟩ => ⟨f', stage, ?_, waits⟩
      refine (Function.update_of_ne (fun same => ?_) ..).trans before
      subst same
      cases found.symm.trans before
      cases waits
    refine ⟨h.retire held, settled.step fun id job there _ => .inr (.inr ⟨there, rfl, fun pending =>
      pending.mono rfl awaits fun _ mem => mem⟩), { Later.refl s with held := fun j there => ?_ }⟩
    exact .inl (there.imp_right fun ⟨f', there⟩ => ⟨f', (work_of_retire there).2⟩)
  next => cases step

theorem add_outdates (h : s.Sound) {id : String} {rule : ScheduleRule} {callback : κ} {enabled : Bool}
    {nextRun : Option Int} {now : Int} (step : s.add zones id rule callback enabled nextRun now = some t)
    {i : Invocation κ} (held : t.Holds i) (named : i.schedule = id) : ¬t.Fresh i := by
  rw [Service.add] at step
  split at step
  · cases step
  split at step
  · cases step
  next dueAt _ =>
    split at step
    · cases step
      exact h.stale_define ⟨id, rule, dueAt, callback, enabled⟩ i held named
    · cases step
      exact h.stale_define ⟨id, rule, dueAt, callback, enabled⟩ i held named

theorem setEnabled_false {id : String} {now : Int} (step : s.setEnabled zones id false now = some t) :
    ∃ job, t.jobs.get? id = some job ∧ job.enabled = false := by
  rw [Service.setEnabled] at step
  split at step
  · cases step
  split at step
  · cases step
  next job found =>
    have same : job.id = id := get?_key found
    split at step
    next wrong => cases wrong
    next disabled _ =>
      cases step
      exact ⟨job, found, disabled⟩
    next =>
      cases step
      exact ⟨{ job with enabled := false }, (get?_define _ _).trans (if_pos same.symm), rfl⟩
    next wrong => cases wrong

variable [DecidableEq κ]

theorem Sound.outdated (h : s.Sound) {i : Invocation κ} (held : s.Holds i) (refused : s.current? i = none)
    (job : Job κ) (found : s.jobs.get? i.schedule = some job) (enabled : job.enabled = true) :
    ¬s.Fresh i := by
  intro fresh
  have same := (h.defines i job held fresh found).2
  have fresh : s.generations i.schedule = some i.generation := fresh
  simp [current?, found, enabled, same, fresh] at refused

theorem current?_some {i : Invocation κ} {job : Job κ} (h : s.current? i = some job) :
    s.jobs.get? i.schedule = some job ∧ job.enabled = true ∧ job.callback = i.callback ∧ s.Fresh i := by
  obtain ⟨found, h⟩ := Option.filter_eq_some_iff.mp h
  simp only [Bool.and_eq_true, decide_eq_true_eq] at h
  exact ⟨found, h.1.1, h.1.2, h.2⟩

theorem Sound.start (h : s.Sound) (settled : s.Settled) {f : Nat} {now : Int}
    (step : s.start f now = some t) : Kept s t := by
  rw [Service.start] at step
  split at step
  next i found =>
    cases step
    refine ⟨h.moveTo found, settled.moveTo found fun _ => ?_, (same_moveTo found).later⟩
    split
    next => exact .inl rfl
    next refused =>
      exact .inr (h.outdated (.inr ⟨f, by rw [work, found]; rfl⟩) (by simpa using refused))
  next => cases step

theorem Sound.finish (h : s.Sound) (settled : s.Settled) {f : Nat} (step : s.finish f = some t) :
    Kept s t := by
  rw [Service.finish] at step
  split at step
  next i attemptedAt found free =>
    split at step
    next job current =>
      cases step
      refine ⟨(h.moveTo found).write .., settled.step fun id j there enabled => ?_,
        { (same_moveTo found).later with }⟩
      by_cases same : i.schedule = id
      · subst same
        cases (current?_some current).1.symm.trans there
        exact .inl (if_pos rfl)
      · refine .inr (.inr ⟨there, (if_neg same).trans ?_, fun pending => ?_⟩)
        · rw [expected, free]
          rfl
        · refine pending.imp_left fun ⟨j, awaited, named, fresh⟩ => ⟨j, ?_, named, fresh⟩
          exact awaited.moveTo found fun _ => .inr fun equal => same (equal ▸ named)
    next refused =>
      cases step
      exact ⟨h.moveTo found, settled.moveTo found fun _ =>
        .inr (h.outdated (.inr ⟨f, by rw [work, found]; rfl⟩) refused), (same_moveTo found).later⟩
  next => cases step

theorem Sound.step (h : s.Sound) (settled : s.Settled) {a : Action κ} (step : Step zones s a t) :
    Kept s t := by
  cases a with
  | add => exact h.add settled step
  | setEnabled => exact h.setEnabled settled step
  | remove => exact h.remove settled step
  | collect => exact h.collect settled step
  | reschedule => exact h.reschedule settled step
  | submit => exact h.submit settled step
  | claim => exact h.claim settled step
  | start => exact h.start settled step
  | finish => exact h.finish settled step
  | persist => exact h.persist settled step
  | cancel => exact h.cancel settled step
  | callbackDone => exact h.callbackDone settled step

theorem Sound.path (h : s.Sound) (settled : s.Settled) {actions : List (Action κ)}
    (path : Path (Step zones) s actions t) : Kept s t := by
  induction path with
  | nil s => exact ⟨h, settled, .refl s⟩
  | cons first _ ih =>
    have one := h.step settled first
    have rest := ih one.sound one.settled
    exact ⟨rest.sound, rest.settled, one.later.trans rest.later⟩

/-- The action has removed or disabled the schedule, or replaced its definition. -/
def Revokes (a : Action κ) (after : Service κ) (id : String) : Prop :=
  (∃ rule callback enabled nextRun now, a = .add id rule callback enabled nextRun now) ∨
    a = .remove id ∨ (∃ now, a = .setEnabled id false now) ∨
    ∃ job, after.jobs.get? id = some job ∧ job.enabled = false

theorem Sound.revoked (h : s.Sound) (settled : s.Settled) {a : Action κ} (step : Step zones s a t)
    {id : String} (revokes : Revokes a t id) (i : Invocation κ) (held : t.Holds i)
    (named : i.schedule = id) : ¬t.Fresh i := by
  have sound := (h.step settled step).sound
  have disabled (off : ∃ job, t.jobs.get? id = some job ∧ job.enabled = false) : ¬t.Fresh i := by
    obtain ⟨job, found, off⟩ := off
    intro fresh
    cases off.symm.trans (sound.defines i job held fresh (named ▸ found)).1
  rcases revokes with ⟨rule, callback, enabled, nextRun, now, rfl⟩ | rfl | ⟨now, rfl⟩ | off
  · exact add_outdates h step held named
  · change s.remove id = some t at step
    rw [Service.remove] at step
    split at step
    · cases step
    · cases step
      exact fun fresh => (current_forget.mp fresh).1 named
  · exact disabled (setEnabled_false step)
  · exact disabled off

/-- In whatever order the threads take their steps, one schedule has one invocation at a time, none
starts from a definition that is gone, the mark of the schedule stands while there is one, and with
nothing left to do its next run is the persisted one. -/
theorem scheduler_fenced (zones : String → Option Zone) {actions : List (Action κ)} {s : Service κ}
    (path : Path (Step zones) created actions s) :
    (∀ f g i j stage stage', s.works f = some ⟨i, stage⟩ → s.works g = some ⟨j, stage'⟩ →
      stage.started = true → stage'.started = true → i.schedule = j.schedule → f = g) ∧
    (∀ earlier a rest id, ∀ r r' : Service κ, Path (Step zones) created earlier r → Step zones r a r' →
      Path (Step zones) r' rest s → Revokes a r' id → ∀ f now i, ∀ t : Service κ,
        Step zones s (.start f now) t → s.works f = some ⟨i, .claimed⟩ → i.schedule = id →
        i.ticket < r'.selections → t.works f = some ⟨i, .returned⟩) ∧
    (∀ id, id ∈ s.running ↔ (∃ i ∈ s.callbacks, i.schedule = id) ∨
      ∃ f i stage, s.works f = some ⟨i, stage⟩ ∧ i.schedule = id) ∧
    ∀ id job, s.jobs.get? id = some job → job.enabled = true → (∀ i, s.Holds i → i.schedule ≠ id) →
      (∀ e ∈ s.rescheduled, e.schedule ≠ id) → (∀ w, s.writing = some w → w.schedule ≠ id) →
        s.lastNextRun id = job.nextRun := by
  have kept := created_sound.path created_settled path
  have works {f : Nat} {i : Invocation κ} {stage : Stage} (found : s.works f = some ⟨i, stage⟩) :
      s.work f = some i := by
    rw [work, found]
    rfl
  refine ⟨fun f g i j stage stage' here there _ _ same => ?_,
    fun earlier a rest id r r' before step after revokes f now i t start claimed named old => ?_,
    fun id => ?_, fun id job found enabled idle unlisted free => ?_⟩
  · have first := kept.sound.registered f i (works here)
    have second := kept.sound.registered g j (works there)
    exact Option.some.inj (first.symm.trans (same ▸ second))
  · have early := created_sound.path created_settled before
    have revoked := early.sound.step early.settled step
    have later := (revoked.sound.path revoked.settled after).later
    have held : r'.Holds i :=
      (later.held i (.inr ⟨f, works claimed⟩)).resolve_right (not_le_of_gt old)
    have outdated := early.sound.revoked early.settled step revokes i held named
    have refused : s.current? i = none := by
      by_contra other
      obtain ⟨job, current⟩ := Option.ne_none_iff_exists'.mp other
      exact outdated (later.current _ _ (revoked.sound.held i held).1 (current?_some current).2.2.2)
    change s.start f now = some t at start
    rw [Service.start, claimed] at start
    cases start
    rw [works_moveTo, if_pos rfl, refused]
    rfl
  · rw [kept.sound.marked]
    refine or_congr_right ⟨fun found => ?_, fun ⟨f, i, stage, found, named⟩ => ?_⟩
    · obtain ⟨f, found⟩ := Option.isSome_iff_exists.mp found
      obtain ⟨i, here, named⟩ := kept.sound.owned id f found
      obtain ⟨w, there, rfl⟩ := Option.map_eq_some_iff.mp here
      exact ⟨f, w.invocation, w.stage, there, named⟩
    · rw [← named, kept.sound.registered f i (works found)]
      rfl
  · have expected : s.expected id = s.lastNextRun id := by
      rw [expected]
      split
      next => rfl
      next w writing => exact if_neg (free w writing)
    rw [← expected]
    refine (kept.settled id job found enabled).resolve_right ?_
    rintro (⟨i, awaited, named, -⟩ | ⟨e, mem, named, -⟩)
    · refine idle i (awaited.imp_right ?_) named
      exact fun ⟨f, stage, there, _⟩ => ⟨f, works there⟩
    · exact unlisted e mem named

def utcZone : Zone where
  date moment := (utc? moment).map fun moment => moment / 86400000000 + 1
  instant day hour minute :=
    if 0 ≤ hour ∧ 0 ≤ minute then some ((day - 1) * 86400000000 + (hour * 60 + minute) * 60000000)
    else none
  later := by
    intro moment today day hour minute candidate here further found
    simp only [utc?, Option.map_eq_some_iff, Option.ite_none_right_eq_some] at here found
    obtain ⟨_, ⟨-, same⟩, rfl⟩ := here
    obtain ⟨⟨hours, minutes⟩, same'⟩ := found
    cases same
    cases same'
    omega

def hourly : ScheduleRule := ⟨.interval, 60, 2, 0, [0, 1, 2, 3, 4, 5, 6], "UTC"⟩

/-- A schedule is removed while a worker holds its invocation. -/
theorem scheduler_fenced_removed :
    ∃ r s t : Service Nat,
      Path (Step fun _ => some utcZone) created
        [.add "hourly" hourly 7 true (some 0) 0, .collect 1, .submit, .claim 0] r ∧
      Step (fun _ => some utcZone) r (.remove "hourly") s ∧
      Step (fun _ => some utcZone) s (.start 0 2) t ∧
      t.works 0 = some ⟨⟨"hourly", 7, 3600000001, 1, 0⟩, .returned⟩ := by
  have path : Path (Step fun _ => some utcZone) (created : Service Nat)
      [.add "hourly" hourly 7 true (some 0) 0, .collect 1, .submit, .claim 0] _ :=
    .cons rfl (.cons rfl (.cons rfl (.cons rfl (.nil _))))
  refine ⟨_, _, _, path, rfl, rfl, ?_⟩
  have removed : Path (Step fun _ => some utcZone) (created : Service Nat)
      [.add "hourly" hourly 7 true (some 0) 0, .collect 1, .submit, .claim 0, .remove "hourly"] _ :=
    .cons rfl (.cons rfl (.cons rfl (.cons rfl (.cons rfl (.nil _)))))
  exact (scheduler_fenced (fun _ => some utcZone) removed).2.1 _ (.remove "hourly") _ "hourly" _ _ path
    rfl (.nil _) (.inr (.inl rfl)) 0 2 _ _ rfl rfl rfl (by decide)

end Service

end Arenyxa.Scheduler
