import Arenyxa.Crawler.Cache

/-! When the two files of a cache entry are from one and the same `put`. -/

namespace Arenyxa.Crawler.Cache

open History

variable {lib : Library} {policies : Nat → CachePolicy} {d d' : Directory} {i : Nat} {call : Call}
  {stage : Stage} {choice : Choice} {p : CachePolicy}

namespace Directory

def ops (d : Directory) : List Op := d.calls.map Call.op

/-- The metadata and the body are those of one `put` for the key. -/
def OnePut (lib : Library) (ops : List Op) (k : String) (m : Metadata) (body : List UInt8) : Prop :=
  ∃ spec response createdAt, .put spec response createdAt ∈ ops ∧ key lib spec = k ∧
    metadata lib response createdAt = m ∧ response.body = body

/-- Every response that a `get` has returned is made of the metadata and the body of one `put` for its key. -/
def Unmixed (lib : Library) (d : Directory) : Prop :=
  ∀ c ∈ d.calls, ∀ spec response, c.op = .get spec → c.stage = .done (.returned (some response)) →
    ∃ m body, OnePut lib d.ops (key lib spec) m body ∧ response = respond spec m body

end Directory

/-- The key that the call is about. -/
def Op.key? (lib : Library) : Op → Option String
  | .get spec => some (key lib spec)
  | .put spec _ _ => some (key lib spec)
  | .clear => none

/-- The call stands between its two file operations on an entry. -/
def Stage.between : Stage → Bool
  | .replacingMeta => true
  | .readingBody _ => true
  | _ => false

namespace Directory

/-- The next file operation, on the entry of a key, comes between no other two, and the metadata of an entry
whose body was replaced are replaced, too. -/
def Calm (lib : Library) (d : Directory) (choice : Choice) (k : String) : Stage → Prop
  | .replacingBody => choice.ok = true →
    ∀ other ∈ d.calls, other.op.key? lib = some k → other.stage.between = false
  | .replacingMeta => choice.ok = false → d.metas.lookup k = none
  | .readingMeta => d.metas.lookup k ≠ none →
    ∀ other ∈ d.calls, other.op.key? lib = some k → other.stage ≠ .replacingMeta
  | .waiting | .listing | .unlinkingMeta _ | .unlinkingBody _ _ | .readingBody _ | .scanning
  | .clearing _ _ | .done _ => True

/-- Nothing comes between the two file operations of a `put` or `get` on an entry, and a `put` that replaced
the body over an entry replaces its metadata, too. -/
def Undisturbed (lib : Library) (d : Directory) : Move → Prop
  | .call _ _ => True
  | .next i choice => ∀ c ∈ d.calls[i]?, ∀ k ∈ c.op.key? lib, d.Calm lib choice k c.stage
  | .crash cache => ∀ c ∈ d.calls, c.cache = cache → c.stage = .replacingMeta →
    ∀ k ∈ c.op.key? lib, d.metas.lookup k = none

instance (choice : Choice) (k : String) : ∀ stage, Decidable (d.Calm lib choice k stage)
  | .replacingBody => inferInstanceAs (Decidable (_ → _))
  | .replacingMeta => inferInstanceAs (Decidable (_ → _))
  | .readingMeta => inferInstanceAs (Decidable (_ → _))
  | .waiting | .listing | .unlinkingMeta _ | .unlinkingBody _ _ | .readingBody _ | .scanning
  | .clearing _ _ | .done _ => isTrue trivial

instance : ∀ move, Decidable (d.Undisturbed lib move)
  | .call _ _ => isTrue trivial
  | .next i _ => inferInstanceAs (Decidable (∀ c ∈ d.calls[i]?, _))
  | .crash _ => inferInstanceAs (Decidable (∀ c ∈ d.calls, _))

end Directory

/-- The call has replaced the body file, and not yet the metadata. -/
def Call.Half (lib : Library) (k : String) (body : List UInt8) (c : Call) : Prop :=
  c.stage = .replacingMeta ∧ ∃ spec response createdAt, c.op = .put spec response createdAt ∧
    key lib spec = k ∧ response.body = body

/-- Neither between its file operations on an entry nor at its end with a response. -/
def Stage.Neutral (stage : Stage) : Prop :=
  stage.between = false ∧ ∀ response, stage ≠ .done (.returned (some response))

theorem Call.Half.key? {k : String} {body : List UInt8} (half : call.Half lib k body) :
    call.op.key? lib = some k := by
  obtain ⟨-, spec, response, createdAt, op, rfl, -⟩ := half
  rw [op]
  rfl

namespace Directory

/-- An entry that no `put` is replacing is whole, and so is one that a `get` is reading. -/
structure Sound (lib : Library) (d : Directory) : Prop where
  whole : ∀ k, (∀ c ∈ d.calls, ∀ body, ¬ c.Half lib k body) → ∀ m body,
    d.metas.lookup k = some m → d.bodies.lookup k = some body → OnePut lib d.ops k m.1 body
  half : ∀ c ∈ d.calls, ∀ k body, c.Half lib k body → ∀ body' ∈ d.bodies.lookup k, body' = body
  reading : ∀ c ∈ d.calls, ∀ m spec, c.stage = .readingBody m → c.op = .get spec →
    ∀ body ∈ d.bodies.lookup (key lib spec), OnePut lib d.ops (key lib spec) m body
  unmixed : d.Unmixed lib

theorem OnePut.mono {ops ops' : List Op} {k : String} {m : Metadata} {body : List UInt8}
    (one : OnePut lib ops k m body) (more : ∀ op ∈ ops, op ∈ ops') : OnePut lib ops' k m body := by
  obtain ⟨spec, response, createdAt, mem, rest⟩ := one
  exact ⟨spec, response, createdAt, more _ mem, rest⟩

theorem sound_empty : empty.Sound lib :=
  ⟨fun k _ _ _ found _ => absurd ((AList.lookup_empty k).symm.trans found) nofun,
    fun _ mem => absurd mem List.not_mem_nil, fun _ mem => absurd mem List.not_mem_nil,
    fun _ mem => absurd mem List.not_mem_nil⟩

theorem Sound.quiet (h : d.Sound lib) (ops : ∀ op ∈ d.ops, op ∈ d'.ops)
    (calls : ∀ c ∈ d'.calls, c ∈ d.calls ∨ c.stage.Neutral)
    (halves : ∀ c ∈ d.calls, ∀ k body, c.Half lib k body → c ∈ d'.calls ∨ d'.metas.lookup k = none)
    (metas : ∀ k m, d'.metas.lookup k = some m → d.metas.lookup k = some m)
    (bodies : ∀ k body, d'.bodies.lookup k = some body → d.bodies.lookup k = some body) : d'.Sound lib where
  whole k free m body found there := by
    refine (h.whole k (fun c mem body' half => ?_) m body (metas k m found) (bodies k body there)).mono ops
    rcases halves c mem k body' half with here | gone
    · exact free c here body' half
    · exact absurd (found.symm.trans gone) (by simp)
  half c mem k body half body' there := by
    rcases calls c mem with old | neutral
    · exact h.half c old k body half body' (bodies k body' there)
    · rw [half.1] at neutral
      exact absurd neutral.1 (by decide)
  reading c mem m spec at_stage op body there := by
    rcases calls c mem with old | neutral
    · exact (h.reading c old m spec at_stage op body (bodies _ body there)).mono ops
    · rw [at_stage] at neutral
      exact absurd neutral.1 Bool.noConfusion
  unmixed c mem spec response op ended := by
    rcases calls c mem with old | neutral
    · obtain ⟨m, body, one, rfl⟩ := h.unmixed c old spec response op ended
      exact ⟨m, body, one.mono ops, rfl⟩
    · exact absurd ended (neutral.2 response)

section Set

theorem mem_set {c : Call} (mem : c ∈ (d.set i call stage).calls) :
    c ∈ d.calls ∨ c = { call with stage := stage } :=
  List.mem_or_eq_of_mem_set mem

variable (found : d.calls[i]? = some call)

include found

theorem ops_set : (d.set i call stage).ops = d.ops := by
  rw [ops, set, List.map_set]
  refine List.ext_getElem? fun j => ?_
  rw [List.getElem?_set]
  split
  next same =>
    subst same
    rw [ops, List.getElem?_map, found]
    exact if_pos (by simpa using (List.getElem?_eq_some_iff.mp found).1)
  next => rfl

theorem mem_of_mem {c : Call} (mem : c ∈ d.calls) : c ∈ (d.set i call stage).calls ∨ c = call := by
  obtain ⟨j, at_j⟩ := List.getElem?_of_mem mem
  by_cases same : i = j
  · subst same
    exact .inr (Option.some.inj (at_j.symm.trans found))
  · exact .inl (List.mem_of_getElem? (i := j) ((List.getElem?_set_ne same).trans at_j))

theorem mem_set_self : { call with stage := stage } ∈ (d.set i call stage).calls :=
  List.mem_set (List.getElem?_eq_some_iff.mp found).1 _

theorem Sound.set (h : d.Sound lib) (neutral : stage.Neutral)
    (whole : ∀ k body, call.Half lib k body → d.metas.lookup k = none) :
    (d.set i call stage).Sound lib := by
  refine h.quiet (fun op mem => by rwa [ops_set found]) (fun c mem => ?_) (fun c mem k body half => ?_)
    (fun _ _ here => here) (fun _ _ here => here)
  · rcases mem_set mem with old | rfl
    · exact .inl old
    · exact .inr neutral
  · rcases mem_of_mem found mem with still | rfl
    · exact .inl still
    · exact .inr (whole k body half)

end Set

theorem Sound.unlink (h : d.Sound lib) (item : Item) : (d.unlink item).Sound lib := by
  have erased {β : Type} (l : AList fun _ : String => β) (k j : String) (v : β)
      (found : (l.erase k).lookup j = some v) : l.lookup j = some v := by
    by_cases same : j = k
    · subst same
      exact absurd found (by rw [AList.lookup_erase]; simp)
    · rwa [AList.lookup_erase_ne same] at found
  cases item with
  | metaFile k =>
    exact h.quiet (fun _ mem => mem) (fun _ mem => .inl mem) (fun _ mem _ _ _ => .inl mem)
      (erased d.metas k) (fun _ _ here => here)
  | bodyFile k =>
    exact h.quiet (fun _ mem => mem) (fun _ mem => .inl mem) (fun _ mem _ _ _ => .inl mem)
      (fun _ _ here => here) (erased d.bodies k)

section Entries

variable {spec : RequestSpec} {response : FetchResponse} {createdAt : ℚ}

theorem lookup_insert_cases {β : Type} {l : AList fun _ : String => β} {k j : String} {v w : β}
    (found : (l.insert k v).lookup j = some w) : j = k ∧ w = v ∨ j ≠ k ∧ l.lookup j = some w := by
  by_cases same : j = k
  · subst same
    exact .inl ⟨rfl, (Option.some.inj ((AList.lookup_insert _).symm.trans found)).symm⟩
  · exact .inr ⟨same, by rwa [AList.lookup_insert_ne same] at found⟩

theorem free_of_get (found : d.calls[i]? = some call) (op : call.op = .get spec) {k : String}
    (free : ∀ c ∈ (d.set i call stage).calls, ∀ body, ¬ c.Half lib k body) :
    ∀ c ∈ d.calls, ∀ body, ¬ c.Half lib k body := by
  intro c mem body half
  rcases mem_of_mem found mem with still | rfl
  · exact free c still body half
  · obtain ⟨-, spec', response', createdAt', op', -⟩ := half
    cases op.symm.trans op'

theorem Sound.unmixed_set (h : d.Sound lib) (running : ∀ r, stage ≠ .done (.returned (some r))) {c : Call}
    (mem : c ∈ (d.set i call stage).calls) {spec : RequestSpec} {r : FetchResponse} (get : c.op = .get spec)
    (ended : c.stage = .done (.returned (some r))) :
    ∃ m body, OnePut lib d.ops (key lib spec) m body ∧ r = respond spec m body := by
  rcases mem_set mem with old | rfl
  · exact h.unmixed c old spec r get ended
  · exact absurd ended (running r)

theorem Sound.replaceBody (h : d.Sound lib) (found : d.calls[i]? = some call)
    (op : call.op = .put spec response createdAt)
    (alone : ∀ other ∈ d.calls, other.op.key? lib = some (key lib spec) → other.stage.between = false) :
    Sound lib { d.set i call .replacingMeta with
      bodies := d.bodies.insert (key lib spec) response.body } := by
  have same_ops : (d.set i call .replacingMeta).ops = d.ops := ops_set found
  have is_half : Call.Half lib (key lib spec) response.body { call with stage := .replacingMeta } :=
    ⟨rfl, spec, response, createdAt, op, rfl, rfl⟩
  refine ⟨fun k free m body there here => ?_, fun c mem k body half body' here => ?_,
    fun c mem m spec' at_stage get body here => ?_, fun c mem spec' r get ended => ?_⟩
  · rcases lookup_insert_cases here with ⟨rfl, -⟩ | ⟨other, here⟩
    · exact absurd is_half (free _ (mem_set_self found) _)
    · refine (h.whole k (fun c mem body' half => ?_) m body there here).mono (by
        intro op mem
        rwa [← same_ops] at mem)
      rcases mem_of_mem found mem with still | rfl
      · exact free c still body' half
      · exact other (by simpa [op, Op.key?] using half.key?.symm)
  · rcases mem_set mem with old | rfl
    · rcases lookup_insert_cases here with ⟨rfl, rfl⟩ | ⟨other, here⟩
      · have free := alone c old half.key?
        rw [half.1] at free
        exact Bool.noConfusion free
      · exact h.half c old k body half body' here
    · obtain ⟨-, spec', response', createdAt', op', rfl, rfl⟩ := half
      cases op.symm.trans op'
      exact Option.some.inj (here.symm.trans (AList.lookup_insert _))
  · rcases mem_set mem with old | rfl
    · rcases lookup_insert_cases here with ⟨same, -⟩ | ⟨other, here⟩
      · have free := alone c old (by rw [get, ← same]; rfl)
        rw [at_stage] at free
        exact Bool.noConfusion free
      · refine (h.reading c old m spec' at_stage get body here).mono fun op mem => ?_
        rwa [← same_ops] at mem
    · cases at_stage
  · obtain ⟨m, body, one, rfl⟩ := h.unmixed_set (fun _ => Stage.noConfusion) mem get ended
    exact ⟨m, body, one.mono fun op mem => by rwa [← same_ops] at mem, rfl⟩

theorem Sound.replaceMeta (h : d.Sound lib) (found : d.calls[i]? = some call)
    (op : call.op = .put spec response createdAt) (at_stage : call.stage = .replacingMeta) (now : ℚ) :
    Sound lib { d.set i call .listing with
      metas := d.metas.insert (key lib spec) (metadata lib response createdAt, now) } := by
  have same_ops : (d.set i call .listing).ops = d.ops := ops_set found
  have kept {ops : List Op} (is : ops = d.ops) {k m body} (one : OnePut lib d.ops k m body) :
      OnePut lib ops k m body := is ▸ one
  have half : call.Half lib (key lib spec) response.body :=
    ⟨at_stage, spec, response, createdAt, op, rfl, rfl⟩
  refine ⟨fun k free m body there here => kept same_ops ?_, fun c mem k body half body' here => ?_,
    fun c mem m spec' reads get body here => kept same_ops ?_, fun c mem spec' r get ended => ?_⟩
  · rcases lookup_insert_cases there with ⟨rfl, rfl⟩ | ⟨other, there⟩
    · refine ⟨spec, response, createdAt, ?_, rfl, rfl,
        (h.half call (List.mem_of_getElem? found) _ _ half body here).symm⟩
      exact List.mem_map.mpr ⟨call, List.mem_of_getElem? found, op⟩
    · refine h.whole k (fun c mem body' half' => ?_) m body there here
      rcases mem_of_mem found mem with still | rfl
      · exact free c still body' half'
      · exact other (Option.some.inj (half'.key?.symm.trans half.key?))
  · rcases mem_set mem with old | rfl
    · exact h.half c old k body half body' here
    · exact Stage.noConfusion half.1
  · rcases mem_set mem with old | rfl
    · exact h.reading c old m spec' reads get body here
    · cases reads
  · obtain ⟨m, body, one, rfl⟩ := h.unmixed_set (fun _ => Stage.noConfusion) mem get ended
    exact ⟨m, body, kept same_ops one, rfl⟩

theorem Sound.readMeta (h : d.Sound lib) (found : d.calls[i]? = some call) (op : call.op = .get spec)
    {m : Metadata × ℚ} (there : d.metas.lookup (key lib spec) = some m)
    (alone : ∀ other ∈ d.calls, other.op.key? lib = some (key lib spec) → other.stage ≠ .replacingMeta) :
    (d.set i call (.readingBody m.1)).Sound lib := by
  have same_ops : (d.set i call (.readingBody m.1)).ops = d.ops := ops_set found
  have kept {ops : List Op} (is : ops = d.ops) {k m body} (one : OnePut lib d.ops k m body) :
      OnePut lib ops k m body := is ▸ one
  refine ⟨fun k free m' body there' here => kept same_ops ?_, fun c mem k body half body' here => ?_,
    fun c mem m' spec' reads get body here => kept same_ops ?_, fun c mem spec' r get ended => ?_⟩
  · exact h.whole k (free_of_get found op free) m' body there' here
  · rcases mem_set mem with old | rfl
    · exact h.half c old k body half body' here
    · exact Stage.noConfusion half.1
  · rcases mem_set mem with old | rfl
    · exact h.reading c old m' spec' reads get body here
    · cases reads
      cases op.symm.trans get
      exact h.whole _ (fun c mem body' half => alone c mem half.key? half.1) m body there here
  · obtain ⟨m', body, one, rfl⟩ := h.unmixed_set (fun _ => Stage.noConfusion) mem get ended
    exact ⟨m', body, kept same_ops one, rfl⟩

theorem Sound.readBody (h : d.Sound lib) (found : d.calls[i]? = some call) (op : call.op = .get spec)
    {m : Metadata} (reads : call.stage = .readingBody m) {body : List UInt8}
    (here : d.bodies.lookup (key lib spec) = some body) :
    (d.set i call (.done (.returned (some (respond spec m body))))).Sound lib := by
  have same_ops : (d.set i call (.done (.returned (some (respond spec m body))))).ops = d.ops := ops_set found
  have kept {ops : List Op} (is : ops = d.ops) {k m body} (one : OnePut lib d.ops k m body) :
      OnePut lib ops k m body := is ▸ one
  refine ⟨fun k free m' body there' here => kept same_ops ?_, fun c mem k body half body' here => ?_,
    fun c mem m' spec' reads get body here => kept same_ops ?_, fun c mem spec' r get ended => ?_⟩
  · exact h.whole k (free_of_get found op free) m' body there' here
  · rcases mem_set mem with old | rfl
    · exact h.half c old k body half body' here
    · exact Stage.noConfusion half.1
  · rcases mem_set mem with old | rfl
    · exact h.reading c old m' spec' reads get body here
    · cases reads
  · rcases mem_set mem with old | rfl
    · obtain ⟨m', body, one, rfl⟩ := h.unmixed c old spec' r get ended
      exact ⟨m', body, kept same_ops one, rfl⟩
    · cases ended
      cases op.symm.trans get
      exact ⟨m, body, kept same_ops (h.reading call (List.mem_of_getElem? found) m spec reads op body here), rfl⟩

end Entries

section Steps

theorem neutral_done {result : Result} (none : ∀ response, result ≠ .returned (some response)) :
    (Stage.done result).Neutral :=
  ⟨rfl, fun response ended => none response (Stage.done.inj ended)⟩

theorem Sound.pass (h : d.Sound lib) (found : d.calls[i]? = some call) (other : call.stage ≠ .replacingMeta)
    (neutral : stage.Neutral) : (d.set i call stage).Sound lib :=
  h.set found neutral fun _ _ half => absurd half.1 other

theorem Sound.acquire (h : d.Sound lib) (found : d.calls[i]? = some call) (other : call.stage ≠ .replacingMeta)
    (neutral : stage.Neutral) : (d.acquire i call stage).Sound lib := by
  unfold Directory.acquire
  split
  · exact h.pass found other neutral
  · exact h

theorem Sound.nextGet {spec : RequestSpec} (h : d.Sound lib) (found : d.calls[i]? = some call)
    (op : call.op = .get spec) (undisturbed : d.Undisturbed lib (.next i choice)) :
    (d.nextGet lib p i call spec choice).Sound lib := by
  have undisturbed := undisturbed call found (key lib spec) (by rw [op]; rfl)
  unfold Directory.nextGet
  split
  next at_stage =>
    have other : call.stage ≠ .replacingMeta := by rw [at_stage]; exact Stage.noConfusion
    split
    · exact h.pass found other (neutral_done (by simp))
    · exact h.acquire found other ⟨rfl, by simp⟩
  next at_stage =>
    have other : call.stage ≠ .replacingMeta := by rw [at_stage]; exact Stage.noConfusion
    rw [at_stage] at undisturbed
    split
    next m mtime there =>
      split
      · exact h.pass found other (neutral_done (by simp))
      · exact h.readMeta found op there (undisturbed (by rw [there]; simp))
    next => exact h.pass found other (neutral_done (by simp))
  next m at_stage =>
    have other : call.stage ≠ .replacingMeta := by rw [at_stage]; exact Stage.noConfusion
    split
    next body here =>
      split
      · exact h.pass found other (neutral_done (by simp))
      · exact h.readBody found op at_stage here
    next => exact h.pass found other (neutral_done (by simp))
  next => exact h

theorem Sound.nextPut {spec : RequestSpec} {response : FetchResponse} {createdAt : ℚ} (h : d.Sound lib)
    (found : d.calls[i]? = some call) (op : call.op = .put spec response createdAt)
    (undisturbed : d.Undisturbed lib (.next i choice)) :
    (d.nextPut lib p i call spec response createdAt choice).Sound lib := by
  have undisturbed := undisturbed call found (key lib spec) (by rw [op]; rfl)
  have other {stage : Stage} (at_stage : call.stage = stage) (is : stage ≠ .replacingMeta) :
      call.stage ≠ .replacingMeta := at_stage ▸ is
  unfold Directory.nextPut
  split
  next at_stage =>
    split
    · exact h.pass found (other at_stage (by simp)) (neutral_done (by simp))
    · exact h.acquire found (other at_stage (by simp)) ⟨rfl, by simp⟩
  next at_stage =>
    rw [at_stage] at undisturbed
    split
    next ok => exact h.replaceBody found op (undisturbed ok)
    next => exact h.pass found (other at_stage (by simp)) (neutral_done (by simp))
  next at_stage =>
    rw [at_stage] at undisturbed
    split
    next => exact h.replaceMeta found op at_stage choice.now
    next failed =>
      refine h.set found (neutral_done (by simp)) fun k body half => ?_
      have same : key lib spec = k := by
        obtain ⟨-, spec', response', createdAt', op', rfl, -⟩ := half
        cases op.symm.trans op'
        rfl
      exact same ▸ undisturbed (by simpa using failed)
  next at_stage =>
    split
    · exact h.pass found (other at_stage (by simp)) (neutral_done (by simp))
    · split
      · exact h.pass found (other at_stage (by simp)) ⟨rfl, by simp⟩
      · exact h
  next at_stage => exact h.pass found (other at_stage (by simp)) (neutral_done (by simp))
  next victim victims at_stage =>
    split
    · exact (h.pass found (other at_stage (by simp)) ⟨rfl, by simp⟩).unlink (.metaFile victim)
    · exact h.pass found (other at_stage (by simp)) ⟨rfl, by simp⟩
  next victim victims at_stage =>
    split
    · exact (h.pass found (other at_stage (by simp)) ⟨rfl, by simp⟩).unlink (.bodyFile victim)
    · exact h.pass found (other at_stage (by simp)) ⟨rfl, by simp⟩
  next => exact h

theorem Sound.nextClear (h : d.Sound lib) (found : d.calls[i]? = some call) :
    (d.nextClear p i call choice).Sound lib := by
  have other {stage : Stage} (at_stage : call.stage = stage) (is : stage ≠ .replacingMeta) :
      call.stage ≠ .replacingMeta := at_stage ▸ is
  unfold Directory.nextClear
  split
  next at_stage =>
    split
    · exact h.acquire found (other at_stage (by simp)) ⟨rfl, by simp⟩
    · exact h.pass found (other at_stage (by simp)) (neutral_done (by simp))
  next at_stage => exact h.pass found (other at_stage (by simp)) ⟨rfl, by simp⟩
  next at_stage => exact h.pass found (other at_stage (by simp)) (neutral_done (by simp))
  next item items count at_stage =>
    split
    · exact (h.pass found (other at_stage (by simp)) ⟨rfl, by simp⟩).unlink item
    · exact h.pass found (other at_stage (by simp)) ⟨rfl, by simp⟩
  next => exact h

theorem Sound.crash {cache : Nat} (h : d.Sound lib) (undisturbed : d.Undisturbed lib (.crash cache)) :
    (d.crash cache).Sound lib := by
  refine h.quiet (fun op mem => ?_) (fun c mem => ?_) (fun c mem k body half => ?_) (fun _ _ here => here)
    (fun _ _ here => here)
  · have same : (d.crash cache).ops = d.ops := by
      rw [ops, Directory.crash, List.map_map]
      refine List.map_congr_left fun c _ => ?_
      rw [Function.comp_apply]
      split <;> rfl
    rwa [same]
  · obtain ⟨old, there, rfl⟩ := List.mem_map.mp mem
    split
    · exact .inr (neutral_done (by simp))
    · exact .inl there
  · by_cases its : c.cache = cache
    · exact .inr (undisturbed c mem its half.1 k half.key?)
    · exact .inl (List.mem_map.mpr ⟨c, mem, if_neg fun both => its both.1⟩)

theorem Sound.step (h : d.Sound lib) {move : Move} (undisturbed : d.Undisturbed lib move) :
    (d.step lib policies move).Sound lib := by
  cases move with
  | call cache op =>
    refine h.quiet (fun op mem => ?_) (fun c mem => ?_) (fun c mem k body half => ?_) (fun _ _ here => here)
      (fun _ _ here => here)
    · rw [ops, Directory.step, List.map_append]
      exact List.mem_append_left _ mem
    · rcases List.mem_append.mp mem with old | new
      · exact .inl old
      · rw [List.mem_singleton.mp new]
        exact .inr ⟨rfl, by simp⟩
    · exact .inl (List.mem_append_left _ mem)
  | next i choice =>
    dsimp only [Directory.step]
    split
    next => exact h
    next call found =>
      split
      next op => exact h.nextGet found op undisturbed
      next op => exact h.nextPut found op undisturbed
      next => exact h.nextClear found
  | crash cache => exact h.crash undisturbed

end Steps

end Directory

/-- Where nothing comes between the two file operations of a `put` or `get` on an entry, no response of any
`get` is mixed. -/
theorem gets_unmixed (lib : Library) (policies : Nat → CachePolicy) (moves : List Move)
    (undisturbed : Meets (Directory.step lib policies) empty (Directory.Undisturbed lib) moves) :
    (run (Directory.step lib policies) empty moves).Unmixed lib :=
  (induct (I := fun _ d => Directory.Sound lib d) Directory.sound_empty (fun _ _ quiet sound => sound.step quiet)
    moves undisturbed).unmixed

/-- One cache that reads and writes; a key is the URL. -/
def sampleLibrary : Library := ⟨id, id, Identity.url⟩

def samplePolicies (_ : Nat) : CachePolicy := ⟨true, .readWrite, 3600, 2000, 4096⟩

def sampleSpec : RequestSpec := ⟨"http://a.example/", "GET", [], [], [], none⟩

def sampleResponse (status : Int) (body : List UInt8) : FetchResponse :=
  ⟨"http://a.example/", "http://a.example/", status, [], body, "utf-8", "text/plain", []⟩

/-- A call of a `put` that replaces both files. -/
def samplePut (i : Nat) (response : FetchResponse) : List Move :=
  [.call 0 (.put sampleSpec response 0), .next i {}, .next i {}, .next i {},
    .next i { listing := ["http://a.example/"] }, .next i {}]

def sampleGet (i : Nat) : List Move := [.call 0 (.get sampleSpec), .next i {}, .next i {}, .next i {}]

theorem gets_unmixed_sample :
    (run (Directory.step sampleLibrary samplePolicies) empty
      (samplePut 0 (sampleResponse 200 [1]) ++ sampleGet 1)).Unmixed sampleLibrary :=
  gets_unmixed sampleLibrary samplePolicies _ (meets_of_each (by decide +kernel))

/-- After a `put` whose metadata could not be written, a `get` returns the new body with the old metadata. -/
theorem failed_put_mixes :
    let moves := samplePut 0 (sampleResponse 404 [1]) ++
      [.call 0 (.put sampleSpec (sampleResponse 200 [2]) 0), .next 1 {}, .next 1 {}, .next 1 { ok := false }] ++
      sampleGet 2
    let d := run (Directory.step sampleLibrary samplePolicies) empty moves
    d.calls[2]? = some ⟨0, .get sampleSpec, .done (.returned (some (sampleResponse 404 [2])))⟩ ∧
      ¬ d.Unmixed sampleLibrary := by
  intro moves d
  have returned : d.calls[2]? =
      some ⟨0, .get sampleSpec, .done (.returned (some (sampleResponse 404 [2])))⟩ := by decide +kernel
  have ops : d.ops = [.put sampleSpec (sampleResponse 404 [1]) 0, .put sampleSpec (sampleResponse 200 [2]) 0,
      .get sampleSpec] := by decide +kernel
  refine ⟨returned, fun unmixed => ?_⟩
  obtain ⟨m, body, ⟨spec, response, createdAt, put, -, rfl, rfl⟩, same⟩ :=
    unmixed _ (List.mem_of_getElem? returned) _ _ rfl rfl
  have status : 404 = response.status := congrArg FetchResponse.status same
  have body : [2] = response.body := congrArg FetchResponse.body same
  rw [ops] at put
  simp only [List.mem_cons, Op.put.injEq, reduceCtorEq, List.not_mem_nil, or_false] at put
  rcases put with ⟨-, rfl, -⟩ | ⟨-, rfl, -⟩
  · exact absurd body (by decide)
  · exact absurd status (by decide)

end Arenyxa.Crawler.Cache
