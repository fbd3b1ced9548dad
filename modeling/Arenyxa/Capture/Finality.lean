import Arenyxa.Capture.Controller

/-! A failed capture session: which steps can take it out of its failure, and that no other does. -/

namespace Arenyxa.Capture.Recording

open History Indexed

/-- A state that a failed session must not be given. -/
def CaptureState.barred : CaptureState → Bool
  | .completed => true
  | .cancelled => true
  | .paused => true
  | .capturing => true
  | _ => false

namespace Controller

/-- The step that gives the current session a barred state: a start, a pause, a resume or their rollbacks,
and the end of a stop that has met no failure. -/
inductive Assigns (s : Controller) : Move → CaptureState → Prop
  | start (idle : s.op = .idle) (prepared : s.current.any (·.state = .preparing)) :
    Assigns s (.begin (.start true)) .capturing
  | pause (pausing : s.op = .pausing) (ok : Bool) : Assigns s (.proceed ok) .paused
  | undoPause (undoing : s.op = .pauseUndoing) : Assigns s (.proceed true) .capturing
  | resume (resuming : s.op = .resuming) (ok : Bool) : Assigns s (.proceed ok) .capturing
  | undoResume (undoing : s.op = .resumeUndoing) : Assigns s (.proceed true) .paused
  | conclude (cancelled : Bool) (deciding : s.op = .deciding cancelled false)
    (noError : s.writerError = false ∧ s.sourceError = false) (ok : Bool) :
    Assigns s (.proceed ok) (finalState cancelled false)

/-- What a step does to one session. -/
inductive Touches (s : Controller) (move : Move) (i : Nat) (x : Session) : Session → Prop
  | kept (x' : Session) (state : x'.state = x.state) (stored : x'.stored = x.stored)
    (hasFailed : x'.hasFailed = x.hasFailed) : Touches s move i x x'
  | saved : Touches s move i x x.save
  | failed : Touches s move i x (x.set .failed)
  | prepared : Touches s move i x (x.set .preparing)
  | finalized : Touches s move i x (x.set .finalizing)
  | restored (previous : CaptureState) (op : s.op = .preparing i previous) (undone : move = .proceed false) :
    Touches s move i x (x.set previous)
  | assigned (st : CaptureState) (current : s.session = some i) (assigns : s.Assigns move st) :
    Touches s move i x (x.set st)

section Steps

variable {s s' : Controller} {move : Move} {i j k : Nat} {x : Session} {emit : Emit}

/-- Every session of the state stands in the next one, touched so. -/
def Follows (s : Controller) (move : Move) (s' : Controller) : Prop :=
  s'.sessions.length = s.sessions.length ∧
    ∀ i x, s.sessions[i]? = some x → ∃ x', s'.sessions[i]? = some x' ∧ s.Touches move i x x'

theorem Touches.refl : s.Touches move i x x := .kept x rfl rfl rfl

theorem follows_same (same : s'.sessions = s.sessions) : s.Follows move s' :=
  ⟨congrArg List.length same, fun _ x found => ⟨x, same ▸ found, .refl⟩⟩

theorem follows_modify {f : Session → Session} (sessions : s'.sessions = (s.modify j f).sessions)
    (touches : ∀ x, s.sessions[j]? = some x → s.Touches move j x (f x)) : s.Follows move s' := by
  rw [Follows, sessions, modify]
  split
  next y here =>
    refine ⟨List.length_set .., fun i x found => ?_⟩
    by_cases same : i = j
    · subst same
      rw [found] at here
      cases here
      exact ⟨f y, get_set_self found, touches y found⟩
    · exact ⟨x, (List.getElem?_set_ne (Ne.symm same)).trans found, .refl⟩
  next => exact ⟨rfl, fun _ x found => ⟨x, found, .refl⟩⟩

theorem follows_current {f : Session → Session} (sessions : s'.sessions = (s.modifyCurrent f).sessions)
    (touches : ∀ i x, s.session = some i → s.sessions[i]? = some x → s.Touches move i x (f x)) :
    s.Follows move s' := by
  cases current : s.session with
  | none =>
    rw [modifyCurrent, current] at sessions
    exact follows_same sessions
  | some j =>
    rw [modifyCurrent, current] at sessions
    exact follows_modify sessions fun x found => touches j x current found

theorem follows_markFailed (sessions : s'.sessions = s.markFailed.sessions) : s.Follows move s' :=
  follows_current sessions fun _ _ _ _ => .failed

theorem follows_save (sessions : s'.sessions = (s.modifyCurrent Session.save).sessions) :
    s.Follows move s' :=
  follows_current sessions fun _ _ _ _ => .saved

theorem follows_begin (idle : s.op = .idle) (call : Call) : s.Follows (.begin call) (s.begin call) := by
  cases call with
  | prepare i compiled =>
    simp only [begin]
    split
    next session found =>
      split
      next => exact follows_same rfl
      next => exact follows_modify rfl fun _ _ => .prepared
    next => exact follows_same rfl
  | start authorized =>
    simp only [begin]
    split
    next passes =>
      rw [Bool.and_eq_true] at passes
      obtain ⟨prepared, rfl⟩ := passes
      exact follows_current rfl fun i x current _ => .assigned .capturing current (.start idle prepared)
    next => exact follows_same rfl
  | pause adapter =>
    simp only [begin]
    split <;> exact follows_same rfl
  | resume adapter =>
    simp only [begin]
    split <;> exact follows_same rfl
  | stop cancelled =>
    simp only [begin]
    split
    next => exact follows_same rfl
    next =>
      split
      next => split <;> exact follows_same rfl
      next => exact follows_same rfl

theorem follows_proceed (ok : Bool) : s.Follows (.proceed ok) (s.proceed ok) := by
  rw [proceed]
  split
  next => exact follows_same rfl
  next i previous op =>
    split
    next => exact follows_modify rfl fun _ _ => .saved
    next fails =>
      exact follows_modify rfl fun _ _ => .restored previous op (by rw [Bool.eq_false_iff.mpr fails])
  next => exact follows_same rfl
  next => split <;> exact follows_same rfl
  next =>
    split
    next => exact follows_save rfl
    next => exact follows_current rfl fun _ _ _ _ => .prepared
  next => split <;> exact follows_same rfl
  next => exact follows_same rfl
  next => exact follows_same rfl
  next => exact follows_markFailed rfl
  next =>
    cases ok with
    | true => exact follows_save rfl
    | false => exact follows_same rfl
  next op => exact follows_current rfl fun _ _ current _ => .assigned .paused current (.pause op ok)
  next =>
    split
    next => exact follows_save rfl
    next => exact follows_same rfl
  next op =>
    split
    next passes =>
      subst passes
      exact follows_current rfl fun _ _ current _ => .assigned .capturing current (.undoPause op)
    next => exact follows_markFailed rfl
  next op => exact follows_current rfl fun _ _ current _ => .assigned .capturing current (.resume op ok)
  next =>
    split
    next => exact follows_save rfl
    next => exact follows_same rfl
  next op =>
    split
    next passes =>
      subst passes
      exact follows_current rfl fun _ _ current _ => .assigned .paused current (.undoResume op)
    next => exact follows_markFailed rfl
  next =>
    split
    next => exact follows_same rfl
    next => split <;> exact follows_same rfl
  next => exact follows_same rfl
  next =>
    split
    next => exact follows_same rfl
    next => exact follows_current rfl fun _ _ _ _ => .finalized
  next =>
    split
    next => exact follows_same rfl
    next => split <;> exact follows_same rfl
  next => exact follows_same rfl
  next cancelled failed op =>
    refine follows_current rfl fun i x current _ => ?_
    cases failure : s.writerError || s.sourceError || failed with
    | true => exact .failed
    | false =>
      simp only [Bool.or_eq_false_iff] at failure
      obtain ⟨noError, rfl⟩ := failure
      exact .assigned _ current (.conclude cancelled op noError ok)
  next =>
    split
    next => exact follows_save rfl
    next => exact follows_markFailed rfl

theorem follows_put (emit : Emit) : s.Follows move (s.put k emit) := by
  rw [put]
  split
  next => exact follows_same rfl
  next => exact follows_modify (j := emit.session) rfl fun x _ => .kept _ rfl rfl rfl

theorem follows_poll (failure : Bool) : s.Follows move (s.poll failure) := by
  rw [poll]
  split
  next => split <;> exact follows_same rfl
  next => split <;> exact follows_same rfl

theorem follows_count (last : Bool) : s.Follows move (s.count last) := by
  rw [count]
  split
  next => exact follows_current rfl fun _ _ _ _ => .kept _ rfl rfl rfl
  next => exact follows_same rfl

theorem follows_write (ok : Bool) : s.Follows move (s.write ok) := by
  rw [write]
  split
  next => exact follows_same rfl
  next => exact follows_markFailed rfl
  next => split <;> exact follows_same rfl
  next =>
    split
    next => exact follows_count false
    next => exact follows_same rfl
  next => exact follows_count true
  next =>
    rw [append]
    split
    next => exact follows_save rfl
    next => exact follows_current rfl fun _ _ _ _ => .kept _ rfl rfl rfl
  next =>
    split
    next =>
      split
      next => exact follows_save rfl
      next => exact follows_same rfl
    next => exact follows_same rfl
  next => exact follows_same rfl
  next => exact follows_same rfl
  next => exact follows_markFailed rfl
  next =>
    cases ok with
    | true => exact follows_save rfl
    | false => exact follows_same rfl
  next => exact follows_same rfl

theorem follows_step (s : Controller) (move : Move) (old : move ≠ .create) :
    s.Follows move (s.step move) := by
  cases move with
  | create => exact absurd rfl old
  | begin call =>
    simp only [step]
    split
    next idle => exact follows_begin idle call
    next => exact follows_same rfl
  | proceed ok => exact follows_proceed ok
  | emit event =>
    simp only [step, Controller.emit]
    split <;> exact follows_same rfl
  | check k =>
    simp only [step]
    split <;> exact follows_same rfl
  | filter k filtered =>
    simp only [step]
    split <;> exact follows_same rfl
  | fail k =>
    simp only [step]
    split
    next event session _ =>
      rw [fail]
      split
      next => exact follows_same rfl
      next =>
        split
        next => exact follows_same rfl
        next => exact follows_modify (j := session) rfl fun _ _ => .failed
    next => exact follows_same rfl
  | lock k =>
    simp only [step]
    split
    next =>
      rw [lock]
      split
      next => exact follows_same rfl
      next => split <;> exact follows_same rfl
    next => exact follows_same rfl
  | put k =>
    simp only [step]
    split
    next => exact follows_put _
    next => exact follows_same rfl
  | poll failure =>
    simp only [step]
    split
    next => exact follows_poll failure
    next => exact follows_same rfl
  | write ok => exact follows_write ok

end Steps

/-- A failed session is given no barred state, in memory or in its row. -/
def Stays (s : Controller) (move : Move) : Prop :=
  ∀ (i : Nat) (x x' : Session), s.sessions[i]? = some x → (s.step move).sessions[i]? = some x' → x.hasFailed = true →
    x'.state.barred = false ∧ (x'.stored = x.stored ∨ ∀ st ∈ x'.stored, st.barred = false)

/-- The session has not failed when a start, a pause, a resume or one of their rollbacks assigns its state,
and a stop that concludes on a failed session finds a recorded error or has met one itself. -/
def Undisturbed (s : Controller) : Move → Prop
  | .begin (.start true) =>
    s.op = .idle → ∀ x ∈ s.current, x.state = .preparing → x.hasFailed = false
  | .proceed ok => match s.op with
    | .pausing => ∀ x ∈ s.current, x.hasFailed = false
    | .resuming => ∀ x ∈ s.current, x.hasFailed = false
    | .pauseUndoing => ok = true → ∀ x ∈ s.current, x.hasFailed = false
    | .resumeUndoing => ok = true → ∀ x ∈ s.current, x.hasFailed = false
    | .deciding _ failed => ∀ x ∈ s.current, x.hasFailed = true →
        s.writerError = true ∨ s.sourceError = true ∨ failed = true
    | _ => True
  | _ => True

/-- What holds along a run whose steps are all undisturbed. -/
structure Sound (s : Controller) : Prop where
  stays : ∀ (i : Nat) (x : Session), s.sessions[i]? = some x → x.hasFailed = true → x.state.barred = false
  tail : s.acceptingStopTail = true →
    (∃ cancelled, s.op = .stoppingAdapter cancelled) ∨ ∃ cancelled failed, s.op = .finalizing cancelled failed
  preparing : ∀ i previous, s.op = .preparing i previous →
    s.writer.alive = false ∧ (∀ x ∈ s.current, x.state ≠ .capturing) ∧
      ∀ x : Session, s.sessions[i]? = some x → x.hasFailed = true → previous.barred = false

section Failed

variable {s s' : Controller} {move : Move} {i : Nat} {x x' : Session} {st : CaptureState}

theorem barred_finalState (cancelled : Bool) : (finalState cancelled false).barred = true := by
  cases cancelled <;> rfl

theorem Assigns.barred (h : s.Assigns move st) : st.barred = true := by
  cases h with
  | conclude cancelled => exact barred_finalState cancelled
  | _ => rfl

theorem current_of (session : s.session = some i) (found : s.sessions[i]? = some x) : s.current = some x := by
  rw [current, session]
  exact found

theorem Undisturbed.clear (h : s.Undisturbed move) (assigns : s.Assigns move st) :
    ∀ x ∈ s.current, x.hasFailed = false := by
  intro x here
  cases assigns with
  | start idle prepared =>
    rw [here] at prepared
    exact h idle x here (by simpa using prepared)
  | pause pausing ok =>
    simp only [Undisturbed, pausing] at h
    exact h x here
  | undoPause undoing =>
    simp only [Undisturbed, undoing] at h
    exact h trivial x here
  | resume resuming ok =>
    simp only [Undisturbed, resuming] at h
    exact h x here
  | undoResume undoing =>
    simp only [Undisturbed, undoing] at h
    exact h trivial x here
  | conclude cancelled deciding noError ok =>
    simp only [Undisturbed, deciding] at h
    by_contra failed
    rcases h x here (by simpa using failed) with error | error | error
    · rw [noError.1] at error
      cases error
    · rw [noError.2] at error
      cases error
    · cases error

@[simp] theorem hasFailed_set : (x.set st).hasFailed = (x.hasFailed || decide (st = .failed)) := rfl

theorem Sound.touched (h : s.Sound) (undisturbed : s.Undisturbed move) (found : s.sessions[i]? = some x)
    (touches : s.Touches move i x x') (failed : x'.hasFailed = true) : x'.state.barred = false := by
  cases touches with
  | kept _ state stored hasFailed =>
    rw [state]
    exact h.stays i x found (hasFailed ▸ failed)
  | saved => exact h.stays i x found failed
  | failed => rfl
  | prepared => rfl
  | finalized => rfl
  | restored previous op _ =>
    rw [hasFailed_set, Bool.or_eq_true] at failed
    rcases failed with before | now
    · exact (h.preparing i previous op).2.2 x found before
    · rw [of_decide_eq_true now]
      rfl
  | assigned st current assigns =>
    rw [hasFailed_set, undisturbed.clear assigns x (current_of current found), Bool.false_or,
      decide_eq_true_eq] at failed
    have barred := assigns.barred
    rw [failed] at barred
    cases barred

theorem Sound.stays_step (h : s.Sound) (undisturbed : s.Undisturbed move) : s.Stays move := by
  intro i x x' found found' failed
  by_cases old : move = .create
  · subst old
    rw [show (s.step .create).sessions[i]? = some x from get_snoc_of_get found] at found'
    cases found'
    exact ⟨h.stays i x found failed, .inl rfl⟩
  · obtain ⟨x₁, found₁, touches⟩ := (follows_step s move old).2 i x found
    rw [found'] at found₁
    cases found₁
    cases touches with
    | kept _ state stored hasFailed =>
      exact ⟨h.touched undisturbed found (.kept x' state stored hasFailed) (hasFailed ▸ failed), .inl stored⟩
    | saved =>
      have kept := h.stays i x found failed
      refine ⟨kept, .inr fun st here => ?_⟩
      cases here
      exact kept
    | failed => exact ⟨rfl, .inl rfl⟩
    | prepared => exact ⟨rfl, .inl rfl⟩
    | finalized => exact ⟨rfl, .inl rfl⟩
    | restored previous op _ => exact ⟨(h.preparing i previous op).2.2 x found failed, .inl rfl⟩
    | assigned st current assigns =>
      rw [undisturbed.clear assigns x (current_of current found)] at failed
      cases failed

/-- A step that is no part of a lifecycle call. -/
def Aside (move : Move) : Prop := (∀ call, move ≠ .begin call) ∧ ∀ ok, move ≠ .proceed ok

/-- It leaves the call in progress, the session and the tail flag alone. -/
def Beside (s s' : Controller) : Prop :=
  s'.op = s.op ∧ s'.session = s.session ∧ s'.acceptingStopTail = s.acceptingStopTail

theorem beside_modify {f : Session → Session} {j : Nat} : s.Beside (s.modify j f) := by
  rw [modify]
  split <;> exact ⟨rfl, rfl, rfl⟩

theorem beside_current {f : Session → Session} : s.Beside (s.modifyCurrent f) := by
  rw [modifyCurrent]
  split
  next => exact beside_modify
  next => exact ⟨rfl, rfl, rfl⟩

@[simp] theorem tail_modify {f : Session → Session} {j : Nat} :
    (s.modify j f).acceptingStopTail = s.acceptingStopTail := beside_modify.2.2

@[simp] theorem tail_current {f : Session → Session} :
    (s.modifyCurrent f).acceptingStopTail = s.acceptingStopTail := beside_current.2.2

theorem beside_count (last : Bool) : s.Beside (s.count last) := by
  rw [count]
  split
  next => exact beside_current
  next => exact ⟨rfl, rfl, rfl⟩

theorem beside_write (ok : Bool) : s.Beside (s.write ok) := by
  rw [write]
  split
  next => exact ⟨rfl, rfl, rfl⟩
  next => exact beside_current
  next => split <;> exact ⟨rfl, rfl, rfl⟩
  next =>
    split
    next => exact beside_count false
    next => exact ⟨rfl, rfl, rfl⟩
  next => exact beside_count true
  next =>
    rw [append]
    split
    next => exact beside_current
    next => exact beside_current
  next =>
    split
    next =>
      split
      next => exact beside_current
      next => exact ⟨rfl, rfl, rfl⟩
    next => exact ⟨rfl, rfl, rfl⟩
  next => exact ⟨rfl, rfl, rfl⟩
  next => exact ⟨rfl, rfl, rfl⟩
  next => exact beside_current
  next =>
    cases ok with
    | true => exact beside_current
    | false => exact ⟨rfl, rfl, rfl⟩
  next => exact ⟨rfl, rfl, rfl⟩

theorem beside_step (aside : Aside move) : s.Beside (s.step move) := by
  cases move with
  | create => exact ⟨rfl, rfl, rfl⟩
  | begin call => exact absurd rfl (aside.1 call)
  | proceed ok => exact absurd rfl (aside.2 ok)
  | emit event =>
    simp only [step, Controller.emit]
    split <;> exact ⟨rfl, rfl, rfl⟩
  | check k =>
    simp only [step]
    split <;> exact ⟨rfl, rfl, rfl⟩
  | filter k filtered =>
    simp only [step]
    split <;> exact ⟨rfl, rfl, rfl⟩
  | fail k =>
    simp only [step]
    split
    next =>
      rw [fail]
      split
      next => exact ⟨rfl, rfl, rfl⟩
      next =>
        split
        next => exact ⟨rfl, rfl, rfl⟩
        next => exact beside_modify
    next => exact ⟨rfl, rfl, rfl⟩
  | lock k =>
    simp only [step]
    split
    next =>
      rw [lock]
      split
      next => exact ⟨rfl, rfl, rfl⟩
      next => split <;> exact ⟨rfl, rfl, rfl⟩
    next => exact ⟨rfl, rfl, rfl⟩
  | put k =>
    simp only [step]
    split
    next =>
      rw [put]
      split
      next => exact ⟨rfl, rfl, rfl⟩
      next => exact beside_modify
    next => exact ⟨rfl, rfl, rfl⟩
  | poll failure =>
    simp only [step]
    split
    next =>
      rw [poll]
      split
      next => split <;> exact ⟨rfl, rfl, rfl⟩
      next => split <;> exact ⟨rfl, rfl, rfl⟩
    next => exact ⟨rfl, rfl, rfl⟩
  | write ok => exact beside_write ok

theorem Sound.no_tail (h : s.Sound) (stopping : ∀ cancelled, s.op ≠ .stoppingAdapter cancelled)
    (finalizing : ∀ cancelled failed, s.op ≠ .finalizing cancelled failed) : s.acceptingStopTail = false := by
  by_contra tail
  rcases h.tail (by simpa using tail) with ⟨cancelled, op⟩ | ⟨cancelled, failed, op⟩
  · exact stopping cancelled op
  · exact finalizing cancelled failed op

/-- The session with the index is as it was, up to its counts and its row. -/
def SameStates (s s' : Controller) : Prop :=
  ∀ (i : Nat) (x' : Session), s'.sessions[i]? = some x' → x' = .created ∧ s.sessions[i]? = none ∨
    ∃ x, s.sessions[i]? = some x ∧ x'.state = x.state ∧ x'.hasFailed = x.hasFailed

theorem same_states (same : s'.sessions = s.sessions) : s.SameStates s' :=
  fun _ x found => .inr ⟨x, same ▸ found, rfl, rfl⟩

theorem get_modify {f : Session → Session} {j : Nat} (found : (s.modify j f).sessions[i]? = some x') :
    ∃ x, s.sessions[i]? = some x ∧ (i = j ∧ x' = f x ∨ x' = x) := by
  rw [modify] at found
  split at found
  next y here =>
    by_cases same : i = j
    · subst same
      rw [get_set_self here] at found
      cases found
      exact ⟨y, here, .inl ⟨rfl, rfl⟩⟩
    · rw [List.getElem?_set_ne (Ne.symm same)] at found
      exact ⟨x', found, .inr rfl⟩
  next => exact ⟨x', found, .inr rfl⟩

theorem writer_modify {f : Session → Session} {j : Nat} : (s.modify j f).writer = s.writer := by
  rw [modify]
  split <;> rfl

theorem Sound.prepare_still (h : s.Sound) {previous : CaptureState} {j : Nat} (op : s.op = .preparing j previous)
    (aside : Aside move) : s.SameStates (s.step move) ∧ (s.step move).writer.alive = false := by
  obtain ⟨dead, inactive, -⟩ := h.preparing j previous op
  have tail := h.no_tail (by simp [op]) (by simp [op])
  cases move with
  | create =>
    refine ⟨fun i x' found => ?_, dead⟩
    rcases get_snoc found with before | ⟨rfl, rfl⟩
    · exact .inr ⟨x', before, rfl, rfl⟩
    · exact .inl ⟨rfl, List.getElem?_eq_none (Nat.le_refl _)⟩
  | begin call => exact absurd rfl (aside.1 call)
  | proceed ok => exact absurd rfl (aside.2 ok)
  | emit event =>
    simp only [step, Controller.emit]
    split <;> exact ⟨same_states rfl, dead⟩
  | check k =>
    simp only [step]
    split <;> exact ⟨same_states rfl, dead⟩
  | filter k filtered =>
    simp only [step]
    split <;> exact ⟨same_states rfl, dead⟩
  | fail k =>
    simp only [step]
    split
    next event session _ =>
      rw [fail]
      split
      next => exact ⟨same_states rfl, dead⟩
      next =>
        split
        next => exact ⟨same_states rfl, dead⟩
        next live =>
          exfalso
          simp only [ended, tail, Bool.not_false, Bool.and_true, Bool.or_eq_true, not_or, decide_eq_true_eq,
            not_not] at live
          obtain ⟨current, capturing, -⟩ := live
          obtain ⟨x, found, state⟩ := Option.map_eq_some_iff.mp capturing
          exact inactive x (current_of current found) state
    next => exact ⟨same_states rfl, dead⟩
  | lock k =>
    simp only [step]
    split
    next =>
      rw [lock]
      split
      next => exact ⟨same_states rfl, dead⟩
      next => split <;> exact ⟨same_states rfl, dead⟩
    next => exact ⟨same_states rfl, dead⟩
  | put k =>
    simp only [step]
    split
    next event session _ =>
      rw [put]
      split
      next => exact ⟨same_states rfl, dead⟩
      next =>
        refine ⟨fun i x' found => .inr ?_, (congrArg Writer.alive writer_modify).trans dead⟩
        obtain ⟨x, before, ⟨-, rfl⟩ | rfl⟩ := get_modify (j := session) found
        · exact ⟨x, before, rfl, rfl⟩
        · exact ⟨x', before, rfl, rfl⟩
    next => exact ⟨same_states rfl, dead⟩
  | poll failure =>
    simp only [step]
    split
    next looping =>
      rw [looping] at dead
      cases dead
    next => exact ⟨same_states rfl, dead⟩
  | write ok =>
    have idle : s.write ok = s := by
      rw [write]
      cases writer : s.writer with
      | absent => rfl
      | looping => rfl
      | finished => rfl
      | _ =>
        rw [writer] at dead
        cases dead
    rw [step, idle]
    exact ⟨same_states rfl, dead⟩

theorem begin_preparing {call : Call} {previous : CaptureState} (idle : s.op = .idle)
    (op : (s.begin call).op = .preparing i previous) :
    (s.current.any (·.state.active)) = false ∧ s.writer.alive = false ∧
      (∃ x, s.sessions[i]? = some x ∧ x.state = previous) ∧
        (s.begin call).sessions = (s.modify i (·.set .preparing)).sessions ∧
          (s.begin call).session = s.session ∧ (s.begin call).writer = s.writer := by
  cases call with
  | prepare j compiled =>
    cases found : s.sessions[j]? with
    | none =>
      simp only [begin, found, idle] at op
      cases op
    | some session =>
      simp only [begin, found] at op ⊢
      by_cases refused : ((s.current.any (·.state.active)) || s.writer.alive || !compiled) = true
      · rw [if_pos refused, idle] at op
        cases op
      · rw [if_neg refused] at op ⊢
        cases op
        simp only [Bool.or_eq_true, not_or, Bool.not_eq_true] at refused
        exact ⟨refused.1.1, refused.1.2, ⟨session, found, rfl⟩, rfl, beside_modify.2.1, writer_modify⟩
  | start authorized =>
    simp only [begin] at op
    split at op
    next => cases op
    next => rw [idle] at op; cases op
  | pause adapter =>
    simp only [begin] at op
    split at op
    next => cases op
    next => rw [idle] at op; cases op
  | resume adapter =>
    simp only [begin] at op
    split at op
    next => cases op
    next => rw [idle] at op; cases op
  | stop cancelled =>
    simp only [begin] at op
    split at op
    next => rw [idle] at op; cases op
    next =>
      split at op
      next =>
        split at op
        next => rw [idle] at op; cases op
        next => cases op
      next => rw [idle] at op; cases op

theorem tail_begin {call : Call} (tail : s.acceptingStopTail = false) :
    (s.begin call).acceptingStopTail = false := by
  cases call with
  | prepare j compiled =>
    simp only [begin]
    split
    next =>
      split
      next => exact tail
      next => exact beside_modify.2.2.trans tail
    next => exact tail
  | start authorized =>
    simp only [begin]
    split
    next => rfl
    next => exact tail
  | pause adapter =>
    simp only [begin]
    split <;> exact tail
  | resume adapter =>
    simp only [begin]
    split <;> exact tail
  | stop cancelled =>
    simp only [begin]
    split
    next => exact tail
    next =>
      split
      next => split <;> exact tail
      next => exact tail

theorem tail_proceed (h : s.Sound) (ok : Bool) (tail : (s.proceed ok).acceptingStopTail = true) :
    (∃ cancelled, (s.proceed ok).op = .stoppingAdapter cancelled) ∨
      ∃ cancelled failed, (s.proceed ok).op = .finalizing cancelled failed := by
  -- Only the two steps that may leave the flag set keep the call in such an operation.
  have other (stopping : ∀ cancelled, s.op ≠ .stoppingAdapter cancelled)
      (finalizing : ∀ cancelled failed, s.op ≠ .finalizing cancelled failed)
      (same : (s.proceed ok).acceptingStopTail = s.acceptingStopTail) : False := by
    rw [same, h.no_tail stopping finalizing] at tail
    cases tail
  cases op : s.op with
  | stoppingAdapter cancelled => exact .inr ⟨cancelled, !ok, by rw [proceed, op]⟩
  | finalizing cancelled failed =>
    simp only [proceed, op] at tail ⊢
    split at tail
    next held =>
      rw [if_pos held]
      exact .inr ⟨cancelled, failed, op⟩
    next => cases tail
  | stopping cancelled =>
    simp only [proceed, op] at tail ⊢
    split at tail
    next =>
      rw [h.no_tail (by simp [op]) (by simp [op])] at tail
      cases tail
    next free =>
      rw [if_neg free]
      split at tail
      next adapted =>
        rw [if_pos adapted]
        exact .inl ⟨cancelled, rfl⟩
      next => cases tail
  | draining i => simp only [proceed, op, Bool.false_eq_true] at tail
  | installing i =>
    refine (other (by simp [op]) (by simp [op]) ?_).elim
    simp only [proceed, op]
    split <;> rfl
  | joining cancelled failed =>
    refine (other (by simp [op]) (by simp [op]) ?_).elim
    simp only [proceed, op]
    split
    next => rfl
    next => split <;> rfl
  | _ =>
    refine (other (by simp [op]) (by simp [op]) ?_).elim
    cases ok <;> simp [proceed, op, markFailed, loseSource]

theorem proceed_not_preparing (ok : Bool) (previous : CaptureState) : (s.proceed ok).op ≠ .preparing i previous := by
  cases op : s.op with
  | stopping cancelled =>
    simp only [proceed, op]
    split
    next => simp [op]
    next => split <;> simp
  | installing i =>
    simp only [proceed, op]
    split
    next => simp [op]
    next => simp
  | finalizing cancelled failed =>
    simp only [proceed, op]
    split
    next => simp [op]
    next => simp
  | joining cancelled failed =>
    simp only [proceed, op]
    split
    next => simp
    next => split <;> simp [op]
  | _ => cases ok <;> simp [proceed, op]

theorem Sound.step (h : s.Sound) (undisturbed : s.Undisturbed move) : (s.step move).Sound where
  stays i x' found' failed := by
    by_cases old : move = .create
    · subst old
      rcases get_snoc found' with found | ⟨-, rfl⟩
      · exact h.stays i x' found failed
      · cases failed
    · obtain ⟨length, follows⟩ := follows_step s move old
      have within : i < s.sessions.length := length ▸ lt_of_get found'
      obtain ⟨x₁, found₁, touches⟩ := follows i s.sessions[i] (List.getElem?_eq_getElem within)
      rw [found'] at found₁
      cases found₁
      exact h.touched undisturbed (List.getElem?_eq_getElem within) touches failed
  tail := by
    intro tail
    by_cases aside : Aside move
    · obtain ⟨op, -, same⟩ := beside_step (s := s) aside
      rw [op]
      exact h.tail (same ▸ tail)
    · cases move with
      | begin call =>
        simp only [Controller.step] at tail ⊢
        split at tail
        next idle =>
          rw [tail_begin (h.no_tail (by simp [idle]) (by simp [idle]))] at tail
          cases tail
        next => exact h.tail tail
      | proceed ok => exact tail_proceed h ok tail
      | _ => exact absurd ⟨fun _ => nofun, fun _ => nofun⟩ aside
  preparing i previous := by
    intro op'
    by_cases aside : Aside move
    · obtain ⟨op, session, -⟩ := beside_step (s := s) aside
      rw [op] at op'
      obtain ⟨same, dead⟩ := h.prepare_still op' aside
      obtain ⟨-, inactive, before⟩ := h.preparing i previous op'
      refine ⟨dead, fun x' here => ?_, fun x' found failed => ?_⟩
      · obtain ⟨j, current, found⟩ := Option.bind_eq_some_iff.mp here
        rcases same j x' found with ⟨rfl, -⟩ | ⟨x, old, state, -⟩
        · nofun
        · rw [state]
          exact inactive x (current_of (session ▸ current) old)
      · rcases same i x' found with ⟨rfl, -⟩ | ⟨x, old, -, hasFailed⟩
        · cases failed
        · exact before x old (hasFailed ▸ failed)
    · cases move with
      | begin call =>
        simp only [Controller.step] at op' ⊢
        split at op'
        next idle =>
          obtain ⟨inactive, dead, ⟨x, found, state⟩, sessions, session, writer⟩ := begin_preparing idle op'
          refine ⟨writer ▸ dead, fun x' here => ?_, fun x' found' failed => ?_⟩
          · obtain ⟨j, current, found'⟩ := Option.bind_eq_some_iff.mp here
            rw [sessions] at found'
            obtain ⟨x₁, old, ⟨-, rfl⟩ | rfl⟩ := get_modify found'
            · nofun
            · intro capturing
              rw [current_of (session ▸ current) old, Option.any_some, capturing] at inactive
              cases inactive
          · rw [sessions] at found'
            obtain ⟨x₁, old, changed⟩ := get_modify found'
            have hasFailed : x₁.hasFailed = true := by
              rcases changed with ⟨-, rfl⟩ | rfl
              · simpa using failed
              · exact failed
            rw [found] at old
            cases old
            exact state ▸ h.stays i x found hasFailed
        next => exact h.preparing i previous op'
      | proceed ok => exact absurd op' (proceed_not_preparing ok previous)
      | _ => exact absurd ⟨fun _ => nofun, fun _ => nofun⟩ aside

theorem sound_start (queueCapacity flushSize : Int) : (start queueCapacity flushSize).Sound where
  stays i x found _ := by cases found
  tail tail := by cases tail
  preparing i previous op := by cases op

theorem Assigns.sets (assigns : s.Assigns move st) (session : s.session = some i) (found : s.sessions[i]? = some x) :
    ∃ x', (s.step move).sessions[i]? = some x' ∧ x'.state = st := by
  have set : ∀ st, (s.modifyCurrent (·.set st)).sessions[i]? = some (x.set st) := by
    intro st
    simp only [modifyCurrent, session, modify, found]
    exact get_set_self found
  cases assigns with
  | start idle prepared =>
    refine ⟨x.set .capturing, ?_, rfl⟩
    simp only [step, idle, begin, prepared, Bool.and_true, if_true]
    exact set .capturing
  | pause pausing ok =>
    refine ⟨x.set .paused, ?_, rfl⟩
    simp only [step, proceed, pausing]
    exact set .paused
  | undoPause undoing =>
    refine ⟨x.set .capturing, ?_, rfl⟩
    simp only [step, proceed, undoing, if_true]
    exact set .capturing
  | resume resuming ok =>
    refine ⟨x.set .capturing, ?_, rfl⟩
    simp only [step, proceed, resuming]
    exact set .capturing
  | undoResume undoing =>
    refine ⟨x.set .paused, ?_, rfl⟩
    simp only [step, proceed, undoing, if_true]
    exact set .paused
  | conclude cancelled deciding noError ok =>
    refine ⟨x.set (finalState cancelled false), ?_, rfl⟩
    simp only [step, proceed, deciding, noError, Bool.or_self]
    exact set (finalState cancelled false)

theorem Stays.clear (h : s.Stays move) (assigns : s.Assigns move st) : ∀ x ∈ s.current, x.hasFailed = false := by
  intro x here
  obtain ⟨i, session, found⟩ := Option.bind_eq_some_iff.mp here
  obtain ⟨x', found', state⟩ := assigns.sets session found
  by_contra failed
  have barred := (h i x x' found found' (by simpa using failed)).1
  rw [state, assigns.barred] at barred
  cases barred

theorem undisturbed_of (h : ∀ st, s.Assigns move st → ∀ x ∈ s.current, x.hasFailed = false) :
    s.Undisturbed move := by
  cases move with
  | begin call =>
    cases call with
    | start authorized =>
      cases authorized with
      | true =>
        intro idle x here prepared
        exact h _ (.start idle (by rw [Option.mem_def.mp here]; simp [prepared])) x here
      | false => trivial
    | _ => trivial
  | proceed ok =>
    cases op : s.op with
    | pausing =>
      simp only [Undisturbed, op]
      exact h _ (.pause op ok)
    | resuming =>
      simp only [Undisturbed, op]
      exact h _ (.resume op ok)
    | pauseUndoing =>
      simp only [Undisturbed, op]
      rintro rfl
      exact h _ (.undoPause op)
    | resumeUndoing =>
      simp only [Undisturbed, op]
      rintro rfl
      exact h _ (.undoResume op)
    | deciding cancelled failed =>
      simp only [Undisturbed, op]
      intro x here hasFailed
      by_contra none
      simp only [not_or, Bool.not_eq_true] at none
      obtain ⟨writer, source, rfl⟩ := none
      rw [h _ (.conclude cancelled op ⟨writer, source⟩ ok) x here] at hasFailed
      cases hasFailed
    | _ => simp only [Undisturbed, op]
  | _ => trivial

theorem sound_run {queueCapacity flushSize : Int} {moves : List Move}
    (undisturbed : Meets step (start queueCapacity flushSize) Undisturbed moves) :
    (run step (start queueCapacity flushSize) moves).Sound :=
  induct (I := fun _ s => s.Sound) (sound_start queueCapacity flushSize)
    (fun _ _ here h => h.step here) moves undisturbed

end Failed

end Controller

end Arenyxa.Capture.Recording
