import Arenyxa.Lib.Outcome
import Mathlib.Algebra.Group.Nat.Defs
import Mathlib.Data.List.Infix

/-! The file of the vault, and the handles that are open on it. Keys and seals are symbolic: a seal opens under what
it was made with. -/

namespace Arenyxa.Enterprise.VaultFile

structure Kdf where
  salt : Nat
  n : Nat
  deriving DecidableEq

/-- A data key sealed under the key of a passphrase. -/
structure Wrapped where
  passphrase : String
  kdf : Kdf
  enterpriseId : String
  nonce : Nat
  dataKey : Nat
  deriving DecidableEq

/-- A payload sealed under a data key. -/
structure Sealed (π : Type) where
  dataKey : Nat
  enterpriseId : String
  nonce : Nat
  plaintext : π

structure Envelope (π : Type) where
  enterpriseId : String
  kdf : Kdf
  wrappedKey : Wrapped
  payload : Sealed π

/-- What the payload is made of, as far as the file looks into it. -/
structure Format (π : Type) where
  valid : π → Bool
  enterpriseId : π → String
  /-- The payload with its `updated_at`. -/
  touch : String → π → π
  ensureBuiltinRoleCatalog : π → π
  /-- The file is within the bound on what is read. -/
  readable : Envelope π → Bool

inductive VaultError
  | missing | tooLarge | exists | passphraseInvalid | kdfInvalid | unlockFailed | integrity | invalid | keyCleared
  | write | handle

/-- The text that the binding digests. -/
abbrev Binding := String × Kdf × Wrapped

def Envelope.binding {π : Type} (envelope : Envelope π) : Binding :=
  (envelope.enterpriseId, envelope.kdf, envelope.wrappedKey)

/-- The data key is gone once the handle is closed. -/
structure Handle (π : Type) where
  payload : π
  dataKey : Option Nat
  binding : Option Binding

section Methods

variable {π : Type} (format : Format π)

def validatePassphrase (t : String) : Except VaultError Unit :=
  if t.length < 12 ∨ 1024 < t.length then .error .passphraseInvalid else .ok ()

/-- The work factor of a key derivation is a power of two in its range. -/
def validateWork (n : Nat) : Except VaultError Unit :=
  if n ∈ [2 ^ 14, 2 ^ 15, 2 ^ 16, 2 ^ 17, 2 ^ 18] then .ok () else .error .kdfInvalid

def readFile (file : Option (Envelope π)) : Except VaultError (Envelope π) :=
  match file with
  | none => .error .missing
  | some envelope => if format.readable envelope then .ok envelope else .error .tooLarge

/-- The data key, where the passphrase is the one it was wrapped with. -/
def unwrap (envelope : Envelope π) (passphrase : String) : Except VaultError Nat := do
  validateWork envelope.kdf.n
  validatePassphrase passphrase
  let wrapped := envelope.wrappedKey
  if wrapped.passphrase = passphrase ∧ wrapped.kdf = envelope.kdf ∧ wrapped.enterpriseId = envelope.enterpriseId then
    return wrapped.dataKey
  else throw .unlockFailed

/-- `open` -/
def openFile (file : Option (Envelope π)) (passphrase : String) : Except VaultError (Handle π) := do
  let envelope ← readFile format file
  let dataKey ← unwrap envelope passphrase
  let payload := envelope.payload.plaintext
  if envelope.payload.dataKey ≠ dataKey ∨ envelope.payload.enterpriseId ≠ envelope.enterpriseId then throw .integrity
  else if !format.valid payload then throw .invalid
  else if format.enterpriseId payload ≠ envelope.enterpriseId then throw .integrity
  else return ⟨format.ensureBuiltinRoleCatalog payload, some dataKey, some envelope.binding⟩

/-- `_write` where the file exists: the envelope that takes its place, or what remains of the handle. -/
def save (handle : Handle π) (file : Option (Envelope π)) (now : String) (nonce : Nat) (lands : Bool) :
    Handle π × Except VaultError (Envelope π) :=
  if !format.valid handle.payload then (handle, .error .invalid)
  else
    let touched := format.touch now handle.payload
    match handle.dataKey with
    | none => ({ handle with payload := touched }, .error .keyCleared)
    | some dataKey =>
      match readFile format file with
      | .error e => ({ handle with payload := touched }, .error e)
      | .ok existing =>
        if existing.enterpriseId ≠ format.enterpriseId handle.payload then (handle, .error .integrity)
        else if handle.binding ≠ some existing.binding then (handle, .error .integrity)
        else if !lands then (handle, .error .write)
        else
          let envelope := { existing with payload := ⟨dataKey, existing.enterpriseId, nonce, touched⟩ }
          (⟨touched, some dataKey, some envelope.binding⟩, .ok envelope)

def rewrapPassphrase (handle : Handle π) (file : Option (Envelope π)) (current new : String) (kdf : Kdf) (nonce : Nat)
    (lands : Bool) : Except VaultError (Handle π × Envelope π) := do
  validatePassphrase new
  let outer ← readFile format file
  if outer.enterpriseId ≠ format.enterpriseId handle.payload then throw .integrity
  else if handle.binding ≠ some outer.binding then throw .integrity
  else
    let oldKey ← unwrap outer current
    match handle.dataKey with
    | none => throw .keyCleared
    | some dataKey =>
      if oldKey ≠ dataKey then throw .integrity
      else
        validateWork kdf.n
        let wrapped : Wrapped := ⟨new, kdf, outer.enterpriseId, nonce, dataKey⟩
        if !lands then throw .write
        else
          let replacement := { outer with kdf := kdf, wrappedKey := wrapped }
          return ({ handle with binding := some replacement.binding }, replacement)

/-- `create`, for a payload and a data key that were made for it. -/
def create (file : Option (Envelope π)) (payload : π) (passphrase now : String) (dataKey : Nat) (kdf : Kdf)
    (nonce wrapNonce : Nat) (lands : Bool) : Except VaultError (Handle π × Envelope π) := do
  if file.isSome then throw .exists
  else if !format.valid payload then throw .invalid
  else
    let enterpriseId := format.enterpriseId payload
    let touched := format.touch now payload
    validateWork kdf.n
    validatePassphrase passphrase
    if !lands then throw .write
    else
      let envelope : Envelope π := ⟨enterpriseId, kdf, ⟨passphrase, kdf, enterpriseId, wrapNonce, dataKey⟩,
        ⟨dataKey, enterpriseId, nonce, touched⟩⟩
      return (⟨touched, some dataKey, some envelope.binding⟩, envelope)

/-- `restore`: the vault in a backup is opened before it takes the place of the file. -/
def restore (file : Option (Envelope π)) (source : Envelope π) (passphrase : String) (overwrite lands : Bool) :
    Except VaultError (Envelope π) := do
  if file.isSome && !overwrite then throw .exists
  else
    let _ ← openFile format (some source) passphrase
    if !lands then throw .write
    else return source

end Methods

/-- A handle with the payload that it read or wrote last, and with the number of payloads written to the file until
then. -/
structure Tracked (π : Type) where
  handle : Handle π
  seen : π
  point : Nat

structure World (π : Type) where
  file : Option (Envelope π)
  writes : Nat
  handles : List (Tracked π)

inductive Call (π : Type)
  | create (payload : π) (passphrase now : String) (dataKey : Nat) (kdf : Kdf) (nonce wrapNonce : Nat) (lands : Bool)
  | open (passphrase : String)
  | mutate (i : Nat) (edit : π → π)
  | save (i : Nat) (now : String) (nonce : Nat) (lands : Bool)
  | rewrapPassphrase (i : Nat) (current new : String) (kdf : Kdf) (nonce : Nat) (lands : Bool)
  | restore (source : Envelope π) (passphrase : String) (overwrite lands : Bool)
  | close (i : Nat)

section Stepping

variable {π : Type} (format : Format π)

/-- The file after a payload was written to it. -/
def World.write (w : World π) (envelope : Envelope π) (handles : List (Tracked π)) : World π :=
  ⟨some envelope, w.writes + 1, handles⟩

/-- The handle of a method, the rest of it as it was. -/
def World.put (w : World π) (i : Nat) (t : Tracked π) (handle : Handle π) : World π :=
  { w with handles := w.handles.set i { t with handle := handle } }

def World.step (w : World π) : Call π → World π × Except VaultError Unit
  | .create payload passphrase now dataKey kdf nonce wrapNonce lands =>
    match create format w.file payload passphrase now dataKey kdf nonce wrapNonce lands with
    | .error e => (w, .error e)
    | .ok (handle, envelope) =>
      (w.write envelope (w.handles ++ [⟨handle, envelope.payload.plaintext, w.writes + 1⟩]), .ok ())
  | .open passphrase =>
    match w.file, openFile format w.file passphrase with
    | some envelope, .ok handle =>
      ({ w with handles := w.handles ++ [⟨handle, envelope.payload.plaintext, w.writes⟩] }, .ok ())
    | _, .error e => (w, .error e)
    | none, .ok _ => (w, .error .missing)
  | .mutate i edit =>
    match w.handles[i]? with
    | none => (w, .error .handle)
    | some t => (w.put i t { t.handle with payload := edit t.handle.payload }, .ok ())
  | .save i now nonce lands =>
    match w.handles[i]? with
    | none => (w, .error .handle)
    | some t =>
      match save format t.handle w.file now nonce lands with
      | (handle, .error e) => (w.put i t handle, .error e)
      | (handle, .ok envelope) =>
        (w.write envelope (w.handles.set i ⟨handle, envelope.payload.plaintext, w.writes + 1⟩), .ok ())
  | .rewrapPassphrase i current new kdf nonce lands =>
    match w.handles[i]? with
    | none => (w, .error .handle)
    | some t =>
      match rewrapPassphrase format t.handle w.file current new kdf nonce lands with
      | .error e => (w, .error e)
      | .ok (handle, envelope) => ({ w.put i t handle with file := some envelope }, .ok ())
  | .restore source passphrase overwrite lands =>
    match restore format w.file source passphrase overwrite lands with
    | .error e => (w, .error e)
    | .ok envelope => (w.write envelope w.handles, .ok ())
  | .close i =>
    match w.handles[i]? with
    | none => (w, .error .handle)
    | some t => (w.put i t { t.handle with dataKey := none }, .ok ())

def World.run (w : World π) (calls : List (Call π)) : World π :=
  calls.foldl (fun w call => (w.step format call).1) w

end Stepping

end Arenyxa.Enterprise.VaultFile

/-! Which saves replace a payload that their handle has seen. -/

namespace Arenyxa.Enterprise.VaultFile

open Outcome

variable {π : Type} {format : Format π} {w w' : World π} {i : Nat}

theorem throw_else {ε ρ : Type} {refused : Prop} [Decidable refused] {e : ε} {rest : Except ε ρ} {a : ρ}
    (done : (if refused then throw e else rest) = .ok a) : ¬refused ∧ rest = .ok a := by
  split at done
  next => cases done
  next passed => exact ⟨passed, done⟩

theorem readFile_ok {file : Option (Envelope π)} {envelope : Envelope π}
    (done : readFile format file = .ok envelope) : file = some envelope := by
  unfold readFile at done
  split at done
  next => cases done
  next =>
    split at done
    next =>
      cases done
      rfl
    next => cases done

theorem save_ok {handle handle' : Handle π} {file : Option (Envelope π)} {now : String} {nonce : Nat} {lands : Bool}
    {envelope : Envelope π} (done : save format handle file now nonce lands = (handle', .ok envelope)) :
    ∃ existing, file = some existing ∧ handle.binding = some existing.binding := by
  unfold save at done
  split at done
  next => cases done
  next =>
    dsimp only at done
    split at done
    next => cases done
    next dataKey _ =>
      split at done
      next => cases done
      next existing found =>
        split at done
        next => cases done
        next =>
          split at done
          next => cases done
          next bound =>
            exact ⟨existing, readFile_ok found, not_not.mp bound⟩

theorem rewrapPassphrase_ok {handle handle' : Handle π} {file : Option (Envelope π)} {current new : String}
    {kdf : Kdf} {nonce : Nat} {lands : Bool} {envelope : Envelope π}
    (done : rewrapPassphrase format handle file current new kdf nonce lands = .ok (handle', envelope)) :
    ∃ existing, file = some existing ∧ envelope.payload = existing.payload := by
  obtain ⟨_, -, done⟩ := bind_eq_ok.mp done
  obtain ⟨outer, found, done⟩ := bind_eq_ok.mp done
  obtain ⟨-, done⟩ := throw_else done
  obtain ⟨-, done⟩ := throw_else done
  obtain ⟨oldKey, -, done⟩ := bind_eq_ok.mp done
  split at done
  next => cases done
  next =>
    obtain ⟨-, done⟩ := throw_else done
    obtain ⟨_, -, done⟩ := bind_eq_ok.mp done
    obtain ⟨-, done⟩ := throw_else done
    cases done
    exact ⟨outer, readFile_ok found, rfl⟩

/-- The file holds the payload. -/
def Holds (file : Option (Envelope π)) (payload : π) : Prop :=
  ∃ envelope, file = some envelope ∧ envelope.payload.plaintext = payload

/-- A handle whose last reading or writing is the last writing of the file has seen what the file holds. -/
structure Following (w : World π) (t : Tracked π) : Prop where
  earlier : t.point ≤ w.writes
  seen : t.point = w.writes → Holds w.file t.seen

def Follow (w : World π) : Prop := ∀ t ∈ w.handles, Following w t

/-- The binding of the handle is the one of the file. -/
def Bound (w : World π) (t : Tracked π) : Prop :=
  ∃ envelope, w.file = some envelope ∧ t.handle.binding = some envelope.binding

/-- A save that the binding lets pass comes from a handle behind which nobody else wrote. -/
def Current (w : World π) : Call π → Prop
  | .save i _ _ _ => ∀ t, w.handles[i]? = some t → Bound w t → t.point = w.writes
  | _ => True

theorem Following.mono {t : Tracked π} (following : Following w t) (later : w.writes < w'.writes) :
    Following w' t where
  earlier := following.earlier.trans later.le
  seen now := absurd now (following.earlier.trans_lt later).ne

theorem Follow.put {t : Tracked π} (follow : Follow w) (its : w.handles[i]? = some t) (handle : Handle π) :
    Follow (w.put i t handle) := by
  intro t' mem
  rcases List.mem_or_eq_of_mem_set mem with old | rfl
  · exact ⟨(follow t' old).earlier, (follow t' old).seen⟩
  · have here := follow t (List.mem_of_getElem? its)
    exact ⟨here.earlier, here.seen⟩

theorem Follow.write (follow : Follow w) (envelope : Envelope π) {handles : List (Tracked π)}
    (known : ∀ t ∈ handles, t ∈ w.handles ∨ t.seen = envelope.payload.plaintext ∧ t.point = w.writes + 1) :
    Follow (w.write envelope handles) := by
  intro t mem
  rcases known t mem with old | ⟨seen, now⟩
  · exact (follow t old).mono (Nat.lt_succ_self w.writes)
  · exact ⟨now.le, fun _ => ⟨envelope, rfl, seen.symm⟩⟩

theorem Follow.step (follow : Follow w) (call : Call π) : Follow (w.step format call).1 := by
  cases call with
  | create payload passphrase now dataKey kdf nonce wrapNonce lands =>
    rw [World.step]
    split
    next => exact follow
    next handle envelope _ =>
      refine follow.write envelope fun t mem => (List.mem_append.mp mem).imp_right fun own => ?_
      rw [List.mem_singleton.mp own]
      exact ⟨rfl, rfl⟩
  | «open» passphrase =>
    rw [World.step]
    split
    next envelope handle here _ =>
      intro t mem
      rcases List.mem_append.mp mem with old | own
      · exact ⟨(follow t old).earlier, (follow t old).seen⟩
      · rw [List.mem_singleton.mp own]
        exact ⟨le_rfl, fun _ => ⟨envelope, here, rfl⟩⟩
    next => exact follow
    next => exact follow
  | mutate j edit =>
    rw [World.step]
    split
    next => exact follow
    next t its => exact follow.put its _
  | save j now nonce lands =>
    rw [World.step]
    split
    next => exact follow
    next t its =>
      split
      next handle e _ => exact follow.put its handle
      next handle envelope _ =>
        refine follow.write envelope fun t mem => (List.mem_or_eq_of_mem_set mem).imp_right fun own => ?_
        rw [own]
        exact ⟨rfl, rfl⟩
  | rewrapPassphrase j current new kdf nonce lands =>
    rw [World.step]
    split
    next => exact follow
    next t its =>
      split
      next => exact follow
      next handle envelope done =>
        obtain ⟨existing, here, same⟩ := rewrapPassphrase_ok done
        intro t' mem
        obtain ⟨earlier, seen⟩ := follow.put its handle t' mem
        refine ⟨earlier, fun now => ?_⟩
        obtain ⟨found, there, holds⟩ := seen now
        cases here.symm.trans there
        exact ⟨envelope, rfl, same ▸ holds⟩
  | restore source passphrase overwrite lands =>
    rw [World.step]
    split
    next => exact follow
    next envelope _ => exact follow.write envelope fun t mem => .inl mem
  | close j =>
    rw [World.step]
    split
    next => exact follow
    next t its => exact follow.put its _

theorem Follow.run (follow : Follow w) (calls : List (Call π)) : Follow (w.run format calls) := by
  induction calls generalizing w with
  | nil => exact follow
  | cons call calls ih => exact ih (follow.step call)

/-- The handle has not seen the payload that was written last. -/
def Stale (w : World π) (i : Nat) : Prop := ∃ t, w.handles[i]? = some t ∧ t.point < w.writes

theorem save_returns {now : String} {nonce : Nat} {lands : Bool} (follow : Follow w)
    (current : Current w (.save i now nonce lands)) (done : (w.step format (.save i now nonce lands)).2 = .ok ()) :
    ∃ t, w.handles[i]? = some t ∧ t.point = w.writes ∧ Holds w.file t.seen := by
  rw [World.step] at done
  split at done
  next => cases done
  next t its =>
    split at done
    next => cases done
    next handle envelope saved =>
      have now := current t its (save_ok saved)
      exact ⟨t, its, now, (follow t (List.mem_of_getElem? its)).seen now⟩

theorem Stale.put {j : Nat} {t : Tracked π} (stale : Stale w i) (its : w.handles[j]? = some t) (handle : Handle π) :
    Stale (w.put j t handle) i := by
  obtain ⟨own, found, behind⟩ := stale
  by_cases same : j = i
  · subst same
    cases its.symm.trans found
    exact ⟨_, List.getElem?_set_self (List.getElem?_eq_some_iff.mp its).1, behind⟩
  · exact ⟨own, (List.getElem?_set_ne same).trans found, behind⟩

theorem Stale.append (stale : Stale w i) (more : List (Tracked π)) :
    ∃ t, (w.handles ++ more)[i]? = some t ∧ t.point < w.writes := by
  obtain ⟨own, found, behind⟩ := stale
  have within := (List.getElem?_eq_some_iff.mp found).1
  exact ⟨own, (List.getElem?_append_left within).trans found, behind⟩

theorem Stale.step {call : Call π} (stale : Stale w i) (current : Current w call) :
    Stale (w.step format call).1 i := by
  have later : ∀ {handles : List (Tracked π)} (envelope : Envelope π),
      (∃ t, handles[i]? = some t ∧ t.point < w.writes) → Stale (w.write envelope handles) i :=
    fun envelope ⟨t, found, behind⟩ => ⟨t, found, behind.trans (Nat.lt_succ_self w.writes)⟩
  cases call with
  | create payload passphrase now dataKey kdf nonce wrapNonce lands =>
    rw [World.step]
    split
    next => exact stale
    next handle envelope _ => exact later envelope (stale.append _)
  | «open» passphrase =>
    rw [World.step]
    split
    next envelope handle here _ => exact stale.append _
    next => exact stale
    next => exact stale
  | mutate j edit =>
    rw [World.step]
    split
    next => exact stale
    next t its => exact stale.put its _
  | save j now nonce lands =>
    rw [World.step]
    split
    next => exact stale
    next t its =>
      split
      next handle e _ => exact stale.put its handle
      next handle envelope saved =>
        have fresh := current t its (save_ok saved)
        obtain ⟨own, found, behind⟩ := stale
        have other : j ≠ i := by
          rintro rfl
          cases its.symm.trans found
          exact behind.ne fresh
        exact later envelope ⟨own, (List.getElem?_set_ne other).trans found, behind⟩
  | rewrapPassphrase j current new kdf nonce lands =>
    rw [World.step]
    split
    next => exact stale
    next t its =>
      split
      next => exact stale
      next handle envelope _ => exact stale.put its handle
  | restore source passphrase overwrite lands =>
    rw [World.step]
    split
    next => exact stale
    next envelope _ => exact later envelope stale
  | close j =>
    rw [World.step]
    split
    next => exact stale
    next t its => exact stale.put its _

/-- Every save of the run that the binding lets pass comes from a handle behind which nobody else wrote. -/
def AllCurrent (format : Format π) (w : World π) : List (Call π) → Prop
  | [] => True
  | call :: calls => Current w call ∧ AllCurrent format (w.step format call).1 calls

theorem Stale.run (stale : Stale w i) {calls : List (Call π)} (current : AllCurrent format w calls) :
    Stale (w.run format calls) i := by
  induction calls generalizing w with
  | nil => exact stale
  | cons call calls ih => exact ih (stale.step current.1) current.2

theorem allCurrent_append {calls calls' : List (Call π)} (current : AllCurrent format w (calls ++ calls')) :
    AllCurrent format w calls ∧ AllCurrent format (w.run format calls) calls' := by
  induction calls generalizing w with
  | nil => exact ⟨trivial, current⟩
  | cons call calls ih => exact ⟨⟨current.1, (ih current.2).1⟩, (ih current.2).2⟩

theorem restore_stale {source : Envelope π} {passphrase : String} {overwrite lands : Bool} (follow : Follow w)
    (done : (w.step format (.restore source passphrase overwrite lands)).2 = .ok ()) (within : i < w.handles.length) :
    Stale (w.step format (.restore source passphrase overwrite lands)).1 i := by
  rw [World.step] at done ⊢
  split at done
  next => cases done
  next envelope _ =>
    have here : w.handles[i]? = some w.handles[i] := List.getElem?_eq_getElem within
    exact ⟨_, here, Nat.lt_succ_of_le (follow _ (List.mem_of_getElem? here)).earlier⟩

/-- A file, and no handle on it. -/
def World.start (file : Option (Envelope π)) : World π := ⟨file, 0, []⟩

theorem follow_start (file : Option (Envelope π)) : Follow (World.start file) := fun _ mem => nomatch mem

/-- In a run in which nobody else writes behind the handles whose saves the binding lets pass, every save that returns
replaces the payload that its handle read or wrote last, and none returns for a handle from before a restore. -/
theorem save_replaces_seen (format : Format π) (file : Option (Envelope π)) (calls : List (Call π))
    (current : AllCurrent format (World.start file) calls) :
    (∀ before i now nonce lands, before ++ [.save i now nonce lands] <+: calls →
      (((World.start file).run format before).step format (.save i now nonce lands)).2 = .ok () →
      ∃ t, ((World.start file).run format before).handles[i]? = some t ∧
        Holds ((World.start file).run format before).file t.seen) ∧
    ∀ before source passphrase overwrite lands between i now nonce lands',
      before ++ .restore source passphrase overwrite lands :: between ++ [.save i now nonce lands'] <+: calls →
      (((World.start file).run format before).step format (.restore source passphrase overwrite lands)).2 = .ok () →
      i < ((World.start file).run format before).handles.length →
      (((World.start file).run format (before ++ .restore source passphrase overwrite lands :: between)).step format
        (.save i now nonce lands')).2 ≠ .ok () := by
  constructor
  · rintro before i now nonce lands ⟨rest, rfl⟩ done
    rw [List.append_assoc] at current
    have here := (allCurrent_append current).2.1
    obtain ⟨t, its, _, holds⟩ := save_returns ((follow_start file).run before) here done
    exact ⟨t, its, holds⟩
  · rintro before source passphrase overwrite lands between i now nonce lands' ⟨rest, rfl⟩ restored within done
    rw [List.append_assoc, List.append_assoc] at current
    obtain ⟨_, there⟩ := allCurrent_append current
    have stale := restore_stale ((follow_start file).run before) restored within
    obtain ⟨quiet, last⟩ := allCurrent_append there.2
    obtain ⟨own, found, behind⟩ := stale.run quiet
    have whole : (World.start file).run format (before ++ .restore source passphrase overwrite lands :: between) =
        World.run format (((World.start file).run format before).step format
          (.restore source passphrase overwrite lands)).1 between := List.foldl_append
    rw [whole] at done
    obtain ⟨t, its, fresh, _⟩ := save_returns ((((follow_start file).run before).step _).run between) last.1 done
    cases its.symm.trans found
    exact behind.ne fresh

section Samples

/-- Payloads are lists of the enabled accounts. -/
def sampleFormat : Format (List String) :=
  ⟨fun _ => true, fun _ => "enterprise_1", fun _ payload => payload, id, fun _ => true⟩

def samplePassphrase : String := "correct horse"

def sampleCreate : Call (List String) :=
  .create ["root", "mallory"] samplePassphrase "now" 7 ⟨1, 2 ^ 15⟩ 11 12 true

/-- The vault of a backup with a key envelope of its own. -/
def sampleBackup : Envelope (List String) :=
  ⟨"enterprise_1", ⟨2, 2 ^ 15⟩, ⟨samplePassphrase, ⟨2, 2 ^ 15⟩, "enterprise_1", 13, 7⟩,
    ⟨7, "enterprise_1", 14, ["root"]⟩⟩

/-- The handle that created the vault saves it, a backup is restored, and the handle saves again. -/
def sampleCalls : List (Call (List String)) :=
  [sampleCreate, .save 0 "later" 15 true, .restore sampleBackup samplePassphrase true true, .save 0 "last" 16 true]

theorem sampleCalls_current : AllCurrent sampleFormat (World.start none) sampleCalls := by
  refine ⟨trivial, fun t its _ => ?_, trivial, fun t its bound => ?_, trivial⟩
  · cases its
    rfl
  · cases its
    obtain ⟨envelope, file, same⟩ := bound
    cases file
    exact absurd same (by decide)

theorem save_replaces_seen_sample :
    (∃ t, ((World.start none).run sampleFormat [sampleCreate]).handles[0]? = some t ∧
      Holds ((World.start none).run sampleFormat [sampleCreate]).file t.seen) ∧
    (((World.start none).run sampleFormat [sampleCreate, .save 0 "later" 15 true,
      .restore sampleBackup samplePassphrase true true]).step sampleFormat (.save 0 "last" 16 true)).2 ≠ .ok () :=
  ⟨(save_replaces_seen sampleFormat none sampleCalls sampleCalls_current).1 [sampleCreate] 0 "later" 15 true
      (List.prefix_append [sampleCreate, .save 0 "later" 15 true] _) rfl,
    (save_replaces_seen sampleFormat none sampleCalls sampleCalls_current).2 [sampleCreate, .save 0 "later" 15 true]
      sampleBackup samplePassphrase true true [] 0 "last" 16 true (List.prefix_refl _) rfl (by decide)⟩

/-- Another handle disables an account, and the handle from before brings it back. -/
def undone : List (Call (List String)) :=
  [sampleCreate, .open samplePassphrase, .mutate 1 fun _ => ["root"], .save 1 "later" 15 true]

theorem save_undoes_unseen :
    (((World.start none).run sampleFormat undone).step sampleFormat (.save 0 "last" 16 true)).2 = .ok () ∧
    Holds ((World.start none).run sampleFormat undone).file ["root"] ∧
    Holds (((World.start none).run sampleFormat undone).step sampleFormat (.save 0 "last" 16 true)).1.file
      ["root", "mallory"] ∧
    ¬∃ t, ((World.start none).run sampleFormat undone).handles[0]? = some t ∧
      Holds ((World.start none).run sampleFormat undone).file t.seen := by
  refine ⟨rfl, ⟨_, rfl, rfl⟩, ⟨_, rfl, rfl⟩, ?_⟩
  rintro ⟨t, its, envelope, file, holds⟩
  cases its
  cases file
  exact absurd holds (by decide)

end Samples

end Arenyxa.Enterprise.VaultFile
