import Arenyxa.Capture.Message
import Arenyxa.Lib.History

/-! The relay between the two ends of a tunnel: what was taken from the one end is what the other
end was sent, in the same order. -/

namespace Arenyxa.Capture

open Function History

inductive Side
  | left | right
  deriving DecidableEq

def Side.other : Side → Side
  | .left => .right
  | .right => .left

/-- Why the loop of the relay was left. -/
inductive Ending
  | drained | idle | unwaitable | exceptional

inductive RelayPhase
  /-- At the top of the loop. -/
  | waiting
  /-- Behind `select`: what it returned and was not served yet. -/
  | serving (readable writable : List Side)
  | returned (up down : Nat) (ending : Ending)

/-- `max_pending_per_direction` -/
def maxPendingPerDirection : Nat := 4 * 1024 * 1024

/-- The variables of `_relay`. -/
structure Relay where
  readable : Side → Bool
  writeOpen : Side → Bool
  pending : Side → Bytes
  up : Nat
  down : Nat
  lastActivity : Int
  phase : RelayPhase

/-- The relay, with what has happened at its two sockets. -/
structure Tunnel extends Relay where
  /-- The bytes that a side has sent into the tunnel, and those it was sent out of it. -/
  received : Side → Bytes
  accepted : Side → Bytes
  /-- The side has sent its last byte, or could not be read. -/
  ended : Side → Bool
  readFailed : Side → Bool
  writeFailed : Side → Bool
  shut : Side → Bool

inductive RelayEvent
  /-- The clock is read, and `select` returns these. -/
  | select (now : Int) (readable writable exceptional : List Side)
  /-- `none` stands for `BlockingIOError`, `some none` for another `OSError`. What is there may be
  more than `recv` asks for. -/
  | recv (now : Int) (available : Option (Option Bytes))
  /-- The socket has room for so many bytes. -/
  | send (now : Int) (room : Option (Option Nat))
  | close

namespace Tunnel

def opened (now : Int) : Tunnel where
  readable _ := true
  writeOpen _ := true
  pending _ := []
  up := 0
  down := 0
  lastActivity := now
  phase := .waiting
  received _ := []
  accepted _ := []
  ended _ := false
  readFailed _ := false
  writeFailed _ := false
  shut _ := false

variable (t : Tunnel)

def readWait : List Side :=
  [.left, .right].filter fun a => t.readable a && (t.pending a.other).length < maxPendingPerDirection

def writeWait : List Side := [.left, .right].filter fun a => t.pending a ≠ [] && t.writeOpen a

def exceptionalWait : List Side :=
  [.left, .right].filter fun a => a ∈ t.readWait || a ∈ t.writeWait

def returning (ending : Ending) : Tunnel := { t with phase := .returned t.up t.down ending }

/-- The sockets that `select` may return. -/
def Within (waited ready : List Side) : Prop := ready.Nodup ∧ ∀ a ∈ ready, a ∈ waited

instance : DecidableRel Within := fun _ _ => inferInstanceAs (Decidable (_ ∧ _))

def select (idleTimeout now : Int) (readable writable exceptional : List Side) : Tunnel :=
  if !t.readable .left && !t.readable .right && t.pending .left = [] && t.pending .right = [] then
    t.returning .drained
  else if max 0 (idleTimeout - (now - t.lastActivity)) ≤ 0 then t.returning .idle
  else if t.readWait = [] ∧ t.writeWait = [] then t.returning .unwaitable
  else if Within t.readWait readable ∧ Within t.writeWait writable ∧
      Within t.exceptionalWait exceptional then
    if exceptional ≠ [] then t.returning .exceptional
    else { t with phase := .serving readable writable }
  else t

def recv (source : Side) (now : Int) : Option (Option Bytes) → Tunnel
  | none => t
  | some none =>
    { t with
      readable := update t.readable source false
      readFailed := update t.readFailed source true }
  | some (some available) =>
    let capacity := maxPendingPerDirection - (t.pending source.other).length
    let data := available.take (min 65536 capacity)
    if data = [] then
      { t with
        readable := update t.readable source false
        ended := update t.ended source (t.ended source || available = []) }
    else
      { t with
        pending := update t.pending source.other (t.pending source.other ++ data)
        received := update t.received source (t.received source ++ data)
        lastActivity := now }

def counted (destination : Side) (sent : Nat) : Tunnel :=
  match destination with
  | .left => { t with down := t.down + sent }
  | .right => { t with up := t.up + sent }

def send (destination : Side) (now : Int) : Option (Option Nat) → Tunnel
  | none => t
  | some none =>
    { t with
      writeOpen := update t.writeOpen destination false
      pending := update t.pending destination []
      writeFailed := update t.writeFailed destination true }
  | some (some room) =>
    let sent := min room (t.pending destination).length
    if sent > 0 then
      { t with
        pending := update t.pending destination ((t.pending destination).drop sent)
        accepted := update t.accepted destination
          (t.accepted destination ++ (t.pending destination).take sent)
        lastActivity := now }.counted destination sent
    else t

/-- The end of the stream is passed on, whether or not `shutdown` raises. -/
def shutdown (destination : Side) : Tunnel :=
  if !t.readable destination.other && t.pending destination = [] && t.writeOpen destination then
    { t with
      writeOpen := update t.writeOpen destination false
      shut := update t.shut destination true }
  else t

/-- What cannot happen in a phase changes nothing. -/
def step (idleTimeout : Int) (event : RelayEvent) : Tunnel :=
  match t.phase, event with
  | .waiting, .select now readable writable exceptional =>
    t.select idleTimeout now readable writable exceptional
  | .serving (source :: readable) writable, .recv now available =>
    { t.recv source now available with phase := .serving readable writable }
  | .serving [] (destination :: writable), .send now room =>
    { t.send destination now room with phase := .serving [] writable }
  | .serving [] [], .close => { (t.shutdown .right).shutdown .left with phase := .waiting }
  | _, _ => t

/-- The bytes counted for a destination: `up` is what the right side was sent. -/
def count : Side → Nat
  | .left => t.down
  | .right => t.up

/-- What the phase says about the variables. A socket that `select` has returned stays good until
it is served. -/
def Served : RelayPhase → Prop
  | .waiting => True
  | .serving readable writable =>
    (readable.Nodup ∧ ∀ a ∈ readable, t.readable a = true ∧
      (t.pending a.other).length < maxPendingPerDirection) ∧
    (writable.Nodup ∧ ∀ a ∈ writable, t.writeOpen a = true)
  | .returned up down ending =>
    up = t.up ∧ down = t.down ∧ (ending = .drained ∨ ending = .unwaitable →
      (∀ a, t.writeFailed a = false) → ∀ a, t.readable a = false ∧ t.pending a.other = [])

end Tunnel

/-- One direction of a tunnel, from its source to its destination. -/
structure Flow where
  received : Bytes
  pending : Bytes
  accepted : Bytes
  count : Nat
  /-- Of the source. -/
  readable : Bool
  ended : Bool
  readFailed : Bool
  /-- Of the destination. -/
  writeOpen : Bool
  writeFailed : Bool
  shut : Bool

namespace Flow

variable (f : Flow)

def receive (data : Bytes) : Flow :=
  { f with pending := f.pending ++ data, received := f.received ++ data }

def send (sent : Nat) : Flow :=
  { f with
    pending := f.pending.drop sent
    accepted := f.accepted ++ f.pending.take sent
    count := f.count + sent }

def fail : Flow := { f with writeOpen := false, pending := [], writeFailed := true }

def shutdown : Flow :=
  if !f.readable && f.pending = [] && f.writeOpen then { f with writeOpen := false, shut := true }
  else f

/-- Nothing is lost or moved on the way. -/
structure Intact : Prop where
  inOrder : f.accepted <+: f.received
  conserved : f.writeFailed = false → f.received = f.accepted ++ f.pending
  bounded : f.pending.length ≤ maxPendingPerDirection
  counted : f.count = f.accepted.length
  reading : f.readable = false → f.ended = true ∨ f.readFailed = true
  writing : f.writeOpen = false → f.shut = true ∨ f.writeFailed = true
  broken : f.writeFailed = true → f.writeOpen = false
  closed : f.shut = true →
    f.writeOpen = false ∧ f.writeFailed = false ∧ f.readable = false ∧ f.pending = []

variable {f}

theorem Intact.unbroken (h : f.Intact) (going : f.writeOpen = true) : f.writeFailed = false := by
  cases failed : f.writeFailed with
  | false => rfl
  | true =>
    rw [h.broken failed] at going
    cases going

theorem Intact.receive {data : Bytes} (h : f.Intact) (going : f.readable = true)
    (short : f.pending.length + data.length ≤ maxPendingPerDirection) : (f.receive data).Intact where
  inOrder := h.inOrder.trans (List.prefix_append _ _)
  conserved fine := by
    show f.received ++ data = f.accepted ++ (f.pending ++ data)
    rw [h.conserved fine, List.append_assoc]
  bounded := by
    show (f.pending ++ data).length ≤ _
    rw [List.length_append]
    exact short
  counted := h.counted
  reading := h.reading
  writing := h.writing
  broken := h.broken
  closed shut := by
    obtain ⟨-, -, still, -⟩ := h.closed shut
    rw [going] at still
    cases still

theorem Intact.unreadable {ended readFailed : Bool} (h : f.Intact)
    (why : ended = true ∨ readFailed = true) :
    Intact { f with readable := false, ended := ended, readFailed := readFailed } where
  inOrder := h.inOrder
  conserved := h.conserved
  bounded := h.bounded
  counted := h.counted
  reading _ := why
  writing := h.writing
  broken := h.broken
  closed shut :=
    have ⟨unwritable, fine, _, sent⟩ := h.closed shut
    ⟨unwritable, fine, rfl, sent⟩

theorem Intact.send {sent : Nat} (h : f.Intact) (going : f.writeOpen = true)
    (sendable : sent ≤ f.pending.length) : (f.send sent).Intact where
  inOrder := by
    show f.accepted ++ f.pending.take sent <+: f.received
    rw [h.conserved (h.unbroken going)]
    exact (List.prefix_append_right_inj _).mpr (List.take_prefix _ _)
  conserved _ := by
    show f.received = f.accepted ++ f.pending.take sent ++ f.pending.drop sent
    rw [h.conserved (h.unbroken going), List.append_assoc, List.take_append_drop]
  bounded := by
    show (f.pending.drop sent).length ≤ _
    exact Nat.le_trans (List.drop_suffix _ _).length_le h.bounded
  counted := by
    show f.count + sent = (f.accepted ++ f.pending.take sent).length
    rw [List.length_append, List.length_take, Nat.min_eq_left sendable, h.counted]
  reading := h.reading
  writing := h.writing
  broken := h.broken
  closed shut := by
    obtain ⟨unwritable, -⟩ := h.closed shut
    rw [going] at unwritable
    cases unwritable

theorem Intact.fail (h : f.Intact) (going : f.writeOpen = true) : f.fail.Intact where
  inOrder := h.inOrder
  conserved fine := by cases fine
  bounded := Nat.zero_le _
  counted := h.counted
  reading := h.reading
  writing _ := .inr rfl
  broken _ := rfl
  closed shut := by
    obtain ⟨unwritable, -⟩ := h.closed shut
    rw [going] at unwritable
    cases unwritable

theorem Intact.shutdown (h : f.Intact) : f.shutdown.Intact := by
  rw [Flow.shutdown]
  split
  next now =>
    obtain ⟨⟨still, sent⟩, going⟩ : (f.readable = false ∧ f.pending = []) ∧ f.writeOpen = true := by
      simpa using now
    exact { h with
      writing := fun _ => .inl rfl
      broken := fun _ => rfl
      closed := fun _ => ⟨rfl, h.unbroken going, still, sent⟩ }
  next => exact h

end Flow

namespace Tunnel

variable (t : Tunnel)

def flow (source : Side) : Flow where
  received := t.received source
  pending := t.pending source.other
  accepted := t.accepted source.other
  count := t.count source.other
  readable := t.readable source
  ended := t.ended source
  readFailed := t.readFailed source
  writeOpen := t.writeOpen source.other
  writeFailed := t.writeFailed source.other
  shut := t.shut source.other

variable {t} {a source destination : Side} {now : Int}

theorem other_other (a : Side) : a.other.other = a := by cases a <;> rfl

theorem other_ne (ne : a ≠ source) : a.other ≠ source.other := fun same => ne (by
  rw [← other_other a, same, other_other])

theorem recv_flow_ne (ne : a ≠ source) (available : Option (Option Bytes)) :
    (t.recv source now available).flow a = t.flow a := by
  fun_cases recv t source now available with
  | case1 => rfl
  | case2 => simp [flow, count, update_of_ne ne]
  | case3 => simp [flow, count, update_of_ne ne]
  | case4 => simp [flow, count, update_of_ne ne, update_of_ne (other_ne ne)]

theorem recv_intact (h : (t.flow source).Intact) (going : t.readable source = true)
    (room : (t.pending source.other).length < maxPendingPerDirection)
    (available : Option (Option Bytes)) : ((t.recv source now available).flow source).Intact := by
  fun_cases recv t source now available with
  | case1 => exact h
  | case2 => simpa [flow, count] using h.unreadable (.inr rfl)
  | case3 available capacity data empty =>
    -- `recv` was asked for at least one byte, so nothing can only mean the end.
    have none_left : available = [] := by
      rcases List.take_eq_nil_iff.mp empty with none_asked | none_left
      · omega
      · exact none_left
    simpa [flow, count, none_left] using h.unreadable (.inl rfl)
  | case4 available capacity data nonempty =>
    have short : (t.flow source).pending.length + data.length ≤ maxPendingPerDirection := by
      have asked : data.length ≤ min 65536 capacity := List.length_take_le _ _
      show (t.pending source.other).length + data.length ≤ _
      omega
    simpa [flow, count, Flow.receive] using h.receive going short

theorem send_flow_ne (ne : a.other ≠ destination) (room : Option (Option Nat)) :
    (t.send destination now room).flow a = t.flow a := by
  fun_cases send t destination now room with
  | case1 => rfl
  | case2 => simp [flow, count, update_of_ne ne]
  | case3 room sent some_sent =>
    cases a <;> cases destination <;>
      first | exact absurd rfl ne | simp [flow, count, counted, Side.other]
  | case4 => rfl

theorem send_intact (h : (t.flow a).Intact) (going : t.writeOpen a.other = true)
    (room : Option (Option Nat)) : ((t.send a.other now room).flow a).Intact := by
  fun_cases send t a.other now room with
  | case1 => exact h
  | case2 => simpa [flow, count, Flow.fail] using h.fail going
  | case3 room sent some_sent =>
    have sendable : sent ≤ (t.flow a).pending.length := Nat.min_le_right _ _
    have sending : ((t.flow a).send sent).Intact := h.send going sendable
    cases a <;> simpa [flow, count, counted, Flow.send, Side.other] using sending
  | case4 => exact h

theorem shutdown_flow_ne (ne : a.other ≠ destination) :
    (t.shutdown destination).flow a = t.flow a := by
  fun_cases shutdown t destination with
  | case1 => simp [flow, count, update_of_ne ne]
  | case2 => rfl

theorem shutdown_flow : (t.shutdown a.other).flow a = (t.flow a).shutdown := by
  rw [shutdown, Flow.shutdown, other_other]
  show flow (if (!t.readable a && t.pending a.other = [] && t.writeOpen a.other) = true then _ else t) a =
    if (!t.readable a && t.pending a.other = [] && t.writeOpen a.other) = true then _ else t.flow a
  split
  next => simp [flow, count]
  next => rfl

theorem shutdown_intact (h : ∀ a, (t.flow a).Intact) (destination a : Side) :
    ((t.shutdown destination).flow a).Intact := by
  by_cases same : a.other = destination
  · rw [← same, shutdown_flow]
    exact (h a).shutdown
  · rw [shutdown_flow_ne same]
    exact h a

structure Inv (t : Tunnel) : Prop where
  intact : ∀ a, (t.flow a).Intact
  served : t.Served t.phase

theorem opened_inv (now : Int) : (opened now).Inv where
  intact a := {
    inOrder := List.prefix_rfl
    conserved := fun _ => rfl
    bounded := Nat.zero_le _
    counted := by cases a <;> rfl
    reading := nofun
    writing := nofun
    broken := nofun
    closed := nofun }
  served := trivial

theorem drained_of_unwaitable (h : ∀ a, (t.flow a).Intact) (read : t.readWait = [])
    (write : t.writeWait = []) (fine : ∀ a, t.writeFailed a = false) (a : Side) :
    t.readable a = false ∧ t.pending a.other = [] := by
  have both : ∀ b : Side, b ∈ ([.left, .right] : List Side) := fun b => by cases b <;> decide
  have sent : t.pending a.other = [] := by
    by_contra left_over
    have closed : t.writeOpen a.other = false := by
      have := List.filter_eq_nil_iff.mp write a.other (both _)
      simpa [left_over] using this
    rcases (h a).writing closed with shut | failed
    · exact left_over ((h a).closed shut).2.2.2
    · rw [show (t.flow a).writeFailed = false from fine a.other] at failed
      cases failed
  refine ⟨?_, sent⟩
  have := List.filter_eq_nil_iff.mp read a (both a)
  simpa [sent, maxPendingPerDirection] using this

theorem returning_inv (h : t.Inv) {ending : Ending}
    (drained : ending = .drained ∨ ending = .unwaitable → (∀ a, t.writeFailed a = false) →
      ∀ a, t.readable a = false ∧ t.pending a.other = []) : (t.returning ending).Inv where
  intact := h.intact
  served := ⟨rfl, rfl, drained⟩

theorem select_inv (h : t.Inv) (idleTimeout now : Int) (readable writable exceptional : List Side) :
    (t.select idleTimeout now readable writable exceptional).Inv := by
  fun_cases select t idleTimeout now readable writable exceptional with
  | case1 done =>
    refine returning_inv h fun _ _ a => ?_
    obtain ⟨⟨⟨left, right⟩, leftSent⟩, rightSent⟩ : ((t.readable .left = false ∧
        t.readable .right = false) ∧ t.pending .left = []) ∧ t.pending .right = [] := by
      simpa using done
    cases a
    · exact ⟨left, rightSent⟩
    · exact ⟨right, leftSent⟩
  | case2 => exact returning_inv h fun why => by rcases why with why | why <;> cases why
  | case3 _ _ unwaitable =>
    exact returning_inv h fun _ fine => drained_of_unwaitable h.intact unwaitable.1 unwaitable.2 fine
  | case4 => exact returning_inv h fun why => by rcases why with why | why <;> cases why
  | case5 _ _ _ within =>
    obtain ⟨⟨distinct, read⟩, ⟨distinct', written⟩, -⟩ := within
    refine ⟨h.intact, ⟨distinct, fun a mem => ?_⟩, distinct', fun a mem => ?_⟩
    · simpa using (List.mem_filter.mp (read a mem)).2
    · exact (Bool.and_eq_true_iff.mp (List.mem_filter.mp (written a mem)).2).2
  | case6 => exact h

theorem recv_writeOpen (available : Option (Option Bytes)) :
    (t.recv source now available).writeOpen = t.writeOpen := by
  fun_cases recv t source now available <;> rfl

theorem recv_inv {readable writable : List Side} (h : t.Inv)
    (phase : t.phase = .serving (source :: readable) writable) (available : Option (Option Bytes)) :
    Inv { t.recv source now available with phase := .serving readable writable } := by
  have served := h.served
  rw [phase] at served
  obtain ⟨⟨distinct, reading⟩, writing⟩ := served
  obtain ⟨fresh, distinct⟩ := List.nodup_cons.mp distinct
  obtain ⟨going, room⟩ := reading source List.mem_cons_self
  refine ⟨fun a => ?_, ⟨distinct, fun a mem => ?_⟩, ?_⟩
  · show ((t.recv source now available).flow a).Intact
    by_cases same : a = source
    · rw [same]
      exact recv_intact (h.intact source) going room available
    · rw [recv_flow_ne same]
      exact h.intact a
  · have ne : a ≠ source := fun same => fresh (same ▸ mem)
    have frame : (t.recv source now available).flow a = t.flow a := recv_flow_ne ne available
    have readable_eq : (t.recv source now available).readable a = t.readable a :=
      congrArg Flow.readable frame
    have pending_eq : (t.recv source now available).pending a.other = t.pending a.other :=
      congrArg Flow.pending frame
    show (t.recv source now available).readable a = true ∧
      ((t.recv source now available).pending a.other).length < _
    rw [readable_eq, pending_eq]
    exact reading a (List.mem_cons_of_mem source mem)
  · show writable.Nodup ∧ ∀ a ∈ writable, (t.recv source now available).writeOpen a = true
    rw [recv_writeOpen]
    exact writing

theorem send_inv {writable : List Side} (h : t.Inv)
    (phase : t.phase = .serving [] (destination :: writable)) (room : Option (Option Nat)) :
    Inv { t.send destination now room with phase := .serving [] writable } := by
  have served := h.served
  rw [phase] at served
  obtain ⟨-, distinct, writing⟩ := served
  obtain ⟨fresh, distinct⟩ := List.nodup_cons.mp distinct
  have going := writing destination List.mem_cons_self
  refine ⟨fun a => ?_, ⟨List.nodup_nil, nofun⟩, distinct, fun a mem => ?_⟩
  · show ((t.send destination now room).flow a).Intact
    by_cases same : a.other = destination
    · subst same
      exact send_intact (h.intact a) going room
    · rw [send_flow_ne same]
      exact h.intact a
  · have ne : a.other.other ≠ destination := by
      rw [other_other]
      exact fun same => fresh (same ▸ mem)
    have writeOpen_eq : (t.send destination now room).writeOpen a.other.other =
        t.writeOpen a.other.other := congrArg Flow.writeOpen (send_flow_ne ne room)
    rw [other_other] at writeOpen_eq
    show (t.send destination now room).writeOpen a = true
    rw [writeOpen_eq]
    exact writing a (List.mem_cons_of_mem destination mem)

theorem step_inv (idleTimeout : Int) (event : RelayEvent) (h : t.Inv) :
    (t.step idleTimeout event).Inv := by
  fun_cases step t idleTimeout event with
  | case1 now readable writable exceptional phase =>
    exact select_inv h idleTimeout now readable writable exceptional
  | case2 source readable writable now available phase => exact recv_inv h phase available
  | case3 destination writable now room phase => exact send_inv h phase room
  | case4 phase => exact ⟨shutdown_intact (shutdown_intact h.intact .right) .left, trivial⟩
  | case5 => exact h

theorem run_inv (idleTimeout start : Int) (events : List RelayEvent) :
    (run (fun t => step t idleTimeout) (opened start) events).Inv := by
  refine induct (P := fun _ _ => True) (I := fun _ t => Inv t) (opened_inv start)
    (fun _ event _ h => step_inv idleTimeout event h) events ?_
  exact fun _ _ _ _ => trivial

/-- Whatever `select`, the reads and the writes come to, the relay passes on what it was sent: each
destination has the first bytes of its source, the rest waits within the cap until a write fails,
the end of a stream follows its last byte, and the counts that are returned are those of the bytes. -/
theorem relay_intact (idleTimeout start : Int) (events : List RelayEvent) :
    let t := run (fun t => step t idleTimeout) (opened start) events
    (∀ source : Side, t.accepted source.other <+: t.received source ∧
      (t.writeFailed source.other = false →
        t.received source = t.accepted source.other ++ t.pending source.other) ∧
      (t.pending source.other).length ≤ 4 * 1024 * 1024 ∧
      (t.shut source.other = true → (t.ended source = true ∨ t.readFailed source = true) ∧
        t.accepted source.other = t.received source)) ∧
    ∀ up down ending, t.phase = .returned up down ending →
      up = (t.accepted .right).length ∧ down = (t.accepted .left).length ∧
      (ending ≠ .idle → ending ≠ .exceptional → (∀ a, t.writeFailed a = false) →
        ∀ source : Side, (t.ended source = true ∨ t.readFailed source = true) ∧
          t.accepted source.other = t.received source) := by
  intro t
  have h : t.Inv := run_inv idleTimeout start events
  have settled (source : Side) (fine : t.writeFailed source.other = false)
      (sent : t.pending source.other = []) : t.accepted source.other = t.received source := by
    have whole : t.received source = t.accepted source.other ++ t.pending source.other :=
      (h.intact source).conserved fine
    rw [whole, sent, List.append_nil]
  constructor
  · intro source
    have direction := h.intact source
    refine ⟨direction.inOrder, direction.conserved, direction.bounded, fun shut => ?_⟩
    obtain ⟨-, fine, still, sent⟩ := direction.closed shut
    exact ⟨direction.reading still, settled source fine sent⟩
  · intro up down ending phase
    have served := h.served
    rw [phase] at served
    obtain ⟨rfl, rfl, drained⟩ := served
    refine ⟨(h.intact .left).counted, (h.intact .right).counted, fun busy ordinary fine source => ?_⟩
    have why : ending = .drained ∨ ending = .unwaitable := by
      cases ending with
      | drained => exact .inl rfl
      | idle => exact absurd rfl busy
      | unwaitable => exact .inr rfl
      | exceptional => exact absurd rfl ordinary
    obtain ⟨still, sent⟩ := drained why fine source
    exact ⟨(h.intact source).reading still, settled source (fine _) sent⟩

-- A short write, and then both ends close.

end Tunnel

end Arenyxa.Capture
