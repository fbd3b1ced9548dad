import Arenyxa.Lib.Retention
import Mathlib.Algebra.Order.Ring.Rat

/-! The challenge-response authentication of workers: the challenge and session tables of the
server, and an authentication as the steps that other calls come between. -/

namespace Arenyxa.Enterprise

def maxChallenges : Nat := 4096

def maxWorkerSessions : Nat := 4096

def challengeTtlSeconds : Rat := 120

def workerSessionTtlSeconds : Rat := 15 * 60

inductive Algorithm
  | ed25519 | ecdsaP256Sha256
  deriving DecidableEq

/-- A row of the worker registry, as far as the authentication reads it. -/
structure Worker where
  revoked : Bool
  publicKey : String
  algorithm : Algorithm
  protocol : Int

def schemaV1 : String := "arenyxa.enterprise-worker-challenge/v1"

def schemaV2 : String := "arenyxa.enterprise-worker-challenge/v2"

/-- An issued challenge, under its identity. The nonce is given by its base64 text. -/
structure Challenge where
  challengeId : String
  workerId : String
  nonce : String
  expiresAt : Rat
  createdAt : Rat
  protocol : Int
  algorithm : Algorithm
  schema : String

instance : Keyed Challenge String := ⟨Challenge.challengeId⟩

/-- A session, under the digest of its token. -/
structure Session where
  digest : String
  workerId : String
  protocol : Int
  createdAt : Rat
  expiresAt : Rat

instance : Keyed Session String := ⟨Session.digest⟩

/-- What `float` makes of a presented expiry. -/
inductive Expiry
  | finite (seconds : Rat)
  | nan
  | infinite

/-- The client's copy of a challenge. A field is `none` where its conversion raises. -/
structure Presented where
  schema : String
  challengeId : String
  workerId : String
  nonce : String
  expiresAt : Option Expiry
  protocol : Option Int
  algorithm : Option Algorithm

/-- The payload that a worker signs. Its canonical text has one field for each of these, and the
algorithm in the second version only. -/
structure Message where
  schema : String
  challengeId : String
  workerId : String
  nonce : String
  expiresAt : Rat
  protocol : Int
  algorithm : Option Algorithm
  deriving DecidableEq

structure Server where
  now : Rat
  workers : String → Option Worker
  challenges : Table Challenge
  sessions : Table Session

section Operations

def Server.cleanup (s : Server) : Server :=
  { s with
    challenges := s.challenges.filter fun challenge => s.now < challenge.expiresAt
    sessions := s.sessions.filter fun session => s.now < session.expiresAt }

def schemaOf : Algorithm → String
  | .ed25519 => schemaV1
  | .ecdsaP256Sha256 => schemaV2

/-- `create_worker_challenge` with the identity and the nonce that it draws. -/
def Server.createWorkerChallenge (s : Server) (workerId challengeId nonce : String) :
    Option (Challenge × Server) :=
  match s.workers workerId with
  | none => none
  | some worker =>
    if worker.revoked then none
    else
      let challenge : Challenge := {
        challengeId := challengeId
        workerId := workerId
        nonce := nonce
        expiresAt := s.now + challengeTtlSeconds
        createdAt := s.now
        protocol := worker.protocol
        algorithm := worker.algorithm
        schema := schemaOf worker.algorithm }
      let s := s.cleanup
      some (challenge, { s with
        challenges :=
          (s.challenges.evictOldest maxChallenges Challenge.createdAt).assign challenge })

/-- `_challenge_message`. The canonical text refuses what is no finite number. -/
def challengeMessage (presented : Presented) : Option Message :=
  match presented.expiresAt, presented.protocol with
  | some (.finite expiresAt), some protocol =>
    if presented.schema = schemaV2 then
      presented.algorithm.map fun algorithm =>
        ⟨presented.schema, presented.challengeId, presented.workerId, presented.nonce, expiresAt,
          protocol, some algorithm⟩
    else
      some ⟨presented.schema, presented.challengeId, presented.workerId, presented.nonce, expiresAt,
        protocol, none⟩
  | _, _ => none

/-- The message of a challenge as it was issued. -/
def Challenge.message (c : Challenge) : Message :=
  ⟨c.schema, c.challengeId, c.workerId, c.nonce, c.expiresAt, c.protocol,
    if c.schema = schemaV2 then some c.algorithm else none⟩

/-- The first step of `authenticate_worker`, under the lock. -/
def Server.takeChallenge (s : Server) (challengeId : String) : Option Challenge × Server :=
  let s := s.cleanup
  (s.challenges.get? challengeId, { s with challenges := s.challenges.erase challengeId })

/-- `abs(presented_expiry - expires_at) > 1e-6` does not hold. -/
def expiryBound (presented : Option Expiry) (expiresAt : Rat) : Bool :=
  match presented with
  | none => false
  | some (.finite seconds) => |seconds - expiresAt| ≤ 1 / 1000000
  | some .nan => true
  | some .infinite => false

/-- The comparisons of the presented challenge with the one that was issued. -/
def bindsTo (now : Rat) (c : Challenge) (presented : Presented) : Bool :=
  now < c.expiresAt && c.workerId = presented.workerId && presented.schema = c.schema &&
    (c.schema ≠ schemaV2 || presented.algorithm = some c.algorithm) &&
    c.nonce = presented.nonce && presented.protocol = some c.protocol &&
    expiryBound presented.expiresAt c.expiresAt

/-- The worker row is read again, and the signature is checked under its key. `admitted` is the
answer of the network policy. -/
def Server.verifyWorker (s : Server)
    (verifies : Algorithm → String → String → Message → Bool) (c : Challenge)
    (presented : Presented) (signature : String) (admitted : Bool) : Option Worker :=
  match s.workers c.workerId, challengeMessage presented with
  | some worker, some message =>
    if !worker.revoked && admitted && worker.algorithm = c.algorithm &&
        verifies worker.algorithm worker.publicKey signature message then some worker
    else none
  | _, _ => none

/-- The last step of `authenticate_worker`, with the digest of the token that it draws. -/
def Server.openSession (s : Server) (workerId : String) (worker : Worker) (digest : String) :
    Server :=
  let session : Session := {
    digest := digest
    workerId := workerId
    protocol := worker.protocol
    createdAt := s.now
    expiresAt := s.now + workerSessionTtlSeconds }
  let s := s.cleanup
  { s with sessions := (s.sessions.evictOldest maxWorkerSessions Session.createdAt).assign session }

/-- `_worker_session` -/
def Server.workerSession (s : Server) (digest : String) : Option Session × Server :=
  let s := s.cleanup
  (s.sessions.get? digest, s)

end Operations

section Steps

/-- An `authenticate_worker` between its steps. -/
inductive Authentication
  | presented (challenge : Presented) (signature : String) (found : Option Challenge)
  | bound (challenge : Presented) (signature : String) (issued : Challenge)
  | verified (issued : Challenge) (worker : Worker)
  | ended

/-- What was opened for whom, and for which challenge. -/
structure Opening where
  challengeId : String
  workerId : String
  digest : String
  deriving DecidableEq

/-- The server among its callers, with what the workers have signed so far. `issued` and `opened`
only record what happened. -/
structure World where
  server : Server
  calls : List Authentication
  signed : List (Algorithm × String × Message)
  issued : List Challenge
  opened : List Opening

inductive AuthAction
  | pass (seconds : Rat)
  | register (workerId : String) (worker : Option Worker)
  | sign (algorithm : Algorithm) (publicKey : String) (message : Message)
  | issue (workerId challengeId nonce : String)
  | present (challenge : Presented) (signature : String)
  | bind (call : Nat)
  | verify (call : Nat) (admitted : Bool)
  | insert (call : Nat) (token : String)
  | use (token : String)

variable (verifies : Algorithm → String → String → Message → Bool) (sha256 : String → String)

def World.step (w : World) : AuthAction → World
  | .pass seconds => { w with server := { w.server with now := w.server.now + max 0 seconds } }
  | .register workerId worker =>
    { w with server := { w.server with workers := Function.update w.server.workers workerId worker } }
  | .sign algorithm publicKey message =>
    { w with signed := (algorithm, publicKey, message) :: w.signed }
  | .issue workerId challengeId nonce =>
    match w.server.createWorkerChallenge workerId challengeId nonce with
    | none => w
    | some (challenge, server) => { w with server := server, issued := challenge :: w.issued }
  | .present challenge signature =>
    let taken := w.server.takeChallenge challenge.challengeId
    { w with
      server := taken.2
      calls := w.calls ++ [.presented challenge signature taken.1] }
  | .bind call =>
    match w.calls[call]? with
    | some (.presented challenge signature (some issued)) =>
      if bindsTo w.server.now issued challenge then
        { w with calls := w.calls.set call (.bound challenge signature issued) }
      else { w with calls := w.calls.set call .ended }
    | some (.presented _ _ none) => { w with calls := w.calls.set call .ended }
    | _ => w
  | .verify call admitted =>
    match w.calls[call]? with
    | some (.bound challenge signature issued) =>
      match w.server.verifyWorker verifies issued challenge signature admitted with
      | some worker => { w with calls := w.calls.set call (.verified issued worker) }
      | none => { w with calls := w.calls.set call .ended }
    | _ => w
  | .insert call token =>
    match w.calls[call]? with
    | some (.verified issued worker) =>
      { w with
        server := w.server.openSession issued.workerId worker (sha256 token)
        calls := w.calls.set call .ended
        opened := ⟨issued.challengeId, issued.workerId, sha256 token⟩ :: w.opened }
    | _ => w
  | .use token => { w with server := (w.server.workerSession (sha256 token)).2 }

def World.start (now : Rat) (workers : String → Option Worker) : World :=
  ⟨⟨now, workers, .empty, .empty⟩, [], [], [], []⟩

end Steps

end Arenyxa.Enterprise
