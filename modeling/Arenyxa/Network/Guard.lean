import Arenyxa.Lib.Table
import Mathlib.Data.List.DropRight
import Mathlib.Data.List.Sort

/-! Internet addresses as `ipaddress` reads, writes and classifies them. -/

namespace Arenyxa.Network

abbrev Text := List Char

inductive Address
  | v4 (value : BitVec 32)
  | v6 (value : BitVec 128) (scope : Option Text)
  deriving DecidableEq

/-- A network by its first address and the length of its prefix. -/
structure Block (w : Nat) where
  base : BitVec w
  length : Nat

def Block.contains {w : Nat} (n : Block w) (a : BitVec w) : Bool :=
  a >>> (w - n.length) == n.base >>> (w - n.length)

def octets (a b c d : Nat) : BitVec 32 := BitVec.ofNat 32 (((a * 256 + b) * 256 + c) * 256 + d)

/-- An address by its first hextets. -/
def hextets (parts : List Nat) : BitVec 128 :=
  BitVec.ofNat 128 ((parts ++ List.replicate (8 - parts.length) 0).foldl (fun n p => n * 65536 + p) 0)

namespace V4

def privateBlocks : List (Block 32) :=
  [⟨octets 0 0 0 0, 8⟩, ⟨octets 10 0 0 0, 8⟩, ⟨octets 127 0 0 0, 8⟩, ⟨octets 169 254 0 0, 16⟩,
    ⟨octets 172 16 0 0, 12⟩, ⟨octets 192 0 0 0, 24⟩, ⟨octets 192 0 0 170, 31⟩,
    ⟨octets 192 0 2 0, 24⟩, ⟨octets 192 168 0 0, 16⟩, ⟨octets 198 18 0 0, 15⟩,
    ⟨octets 198 51 100 0, 24⟩, ⟨octets 203 0 113 0, 24⟩, ⟨octets 240 0 0 0, 4⟩,
    ⟨octets 255 255 255 255, 32⟩]

def privateExceptions : List (Block 32) := [⟨octets 192 0 0 9, 32⟩, ⟨octets 192 0 0 10, 32⟩]

def isPrivate (a : BitVec 32) : Bool :=
  privateBlocks.any (·.contains a) && privateExceptions.all fun n => !n.contains a

def isMulticast (a : BitVec 32) : Bool := (⟨octets 224 0 0 0, 4⟩ : Block 32).contains a

def isLoopback (a : BitVec 32) : Bool := (⟨octets 127 0 0 0, 8⟩ : Block 32).contains a

def isLinkLocal (a : BitVec 32) : Bool := (⟨octets 169 254 0 0, 16⟩ : Block 32).contains a

def isUnspecified (a : BitVec 32) : Bool := a == 0

end V4

namespace V6

def privateBlocks : List (Block 128) :=
  [⟨1, 128⟩, ⟨0, 128⟩, ⟨hextets [0, 0, 0, 0, 0, 0xffff], 96⟩, ⟨hextets [0x64, 0xff9b, 1], 48⟩,
    ⟨hextets [0x100], 64⟩, ⟨hextets [0x2001], 23⟩, ⟨hextets [0x2001, 0xdb8], 32⟩,
    ⟨hextets [0x2002], 16⟩, ⟨hextets [0x3fff], 20⟩, ⟨hextets [0xfc00], 7⟩, ⟨hextets [0xfe80], 10⟩]

def privateExceptions : List (Block 128) :=
  [⟨hextets [0x2001, 1, 0, 0, 0, 0, 0, 1], 128⟩, ⟨hextets [0x2001, 1, 0, 0, 0, 0, 0, 2], 128⟩,
    ⟨hextets [0x2001, 3], 32⟩, ⟨hextets [0x2001, 4, 0x112], 48⟩, ⟨hextets [0x2001, 0x20], 28⟩,
    ⟨hextets [0x2001, 0x30], 28⟩]

def isPrivate (a : BitVec 128) : Bool :=
  privateBlocks.any (·.contains a) && privateExceptions.all fun n => !n.contains a

def isMulticast (a : BitVec 128) : Bool := (⟨hextets [0xff00], 8⟩ : Block 128).contains a

def isLoopback (a : BitVec 128) : Bool := a == 1

def isLinkLocal (a : BitVec 128) : Bool := (⟨hextets [0xfe80], 10⟩ : Block 128).contains a

def isUnspecified (a : BitVec 128) : Bool := a == 0

/-- `ipv4_mapped`: the address embedded in `::ffff:0:0/96`. -/
def mapped (a : BitVec 128) : Option (BitVec 32) :=
  if a >>> 32 == 0xffff then some (a.setWidth 32) else none

end V6

namespace Address

/-- A property of addresses; a mapped address is judged by the one that it embeds, and a scope is
not looked at. -/
def judged (four : BitVec 32 → Bool) (six : BitVec 128 → Bool) : Address → Bool
  | .v4 a => four a
  | .v6 a _ => match V6.mapped a with
    | some embedded => four embedded
    | none => six a

def isPrivate : Address → Bool := judged V4.isPrivate V6.isPrivate

def isMulticast : Address → Bool := judged V4.isMulticast V6.isMulticast

def isLoopback : Address → Bool := judged V4.isLoopback V6.isLoopback

def isLinkLocal : Address → Bool := judged V4.isLinkLocal V6.isLinkLocal

def isUnspecified : Address → Bool := judged V4.isUnspecified V6.isUnspecified

/-- The address that an address denotes. -/
def denoted : Address → Address
  | .v4 a => .v4 a
  | .v6 a _ => match V6.mapped a with
    | some embedded => .v4 embedded
    | none => .v6 a none

/-- The address is written by another spelling than the address that it denotes. -/
def veiled (a : Address) : Bool := a.denoted ≠ a

theorem judged_denoted (four : BitVec 32 → Bool) (six : BitVec 128 → Bool) (a : Address) :
    a.denoted.judged four six = a.judged four six := by
  cases a with
  | v4 a => rfl
  | v6 a scope =>
    cases h : V6.mapped a with
    | some embedded => simp [denoted, judged, h]
    | none => simp [denoted, judged, h]

end Address

section Reading

def digitValue (c : Char) : Nat :=
  if c.isDigit then c.toNat - '0'.toNat
  else if 'a' ≤ c ∧ c ≤ 'f' then c.toNat - 'a'.toNat + 10
  else c.toNat - 'A'.toNat + 10

def isHexDigit (c : Char) : Bool :=
  c.isDigit || ('a' ≤ c && c ≤ 'f') || ('A' ≤ c && c ≤ 'F')

def number (base : Nat) (digits : Text) : Nat :=
  digits.foldl (fun n c => n * base + digitValue c) 0

/-- `_parse_octet`: no sign, no leading zero, at most 255. -/
def parseOctet (text : Text) : Option Nat :=
  if text = [] ∨ !text.all Char.isDigit ∨ 3 < text.length then none
  else if text ≠ ['0'] ∧ text.head? = some '0' then none
  else if 255 < number 10 text then none
  else some (number 10 text)

def parseV4 (text : Text) : Option (BitVec 32) :=
  match (text.splitOn '.').mapM parseOctet with
  | some [a, b, c, d] => some (octets a b c d)
  | _ => none

def parseHextet (text : Text) : Option Nat :=
  if text = [] ∨ !text.all isHexDigit ∨ 4 < text.length then none else some (number 16 text)

/-- A dotted last part stands for two hextets. -/
def expandTail (parts : List Text) : Option (List Text) :=
  match parts.getLast? with
  | none => none
  | some last =>
    if last.contains '.' then
      match parseV4 last with
      | none => none
      | some a => some (parts.dropLast ++
          [Nat.toDigits 16 (a.toNat / 65536), Nat.toDigits 16 (a.toNat % 65536)])
    else some parts

/-- The positions of the empty parts that are neither first nor last. -/
def gaps (parts : List Text) : List Nat :=
  (List.range parts.length).filter fun i => 0 < i ∧ i + 1 < parts.length ∧ parts[i]? = some []

/-- The parts before and after the gap of `::`, of which an empty outermost part belongs to it. -/
def aroundGap (parts : List Text) (i : Nat) : Option (List Text × List Text) :=
  let before := parts.take i
  let after := parts.drop (i + 1)
  if before.head? = some [] ∧ 1 < before.length then none
  else if after.getLast? = some [] ∧ 1 < after.length then none
  else
    let before := if before.head? = some [] then [] else before
    let after := if after.getLast? = some [] then [] else after
    if 8 ≤ before.length + after.length then none else some (before, after)

/-- `_ip_int_from_string`. -/
def parseV6Value (text : Text) : Option (BitVec 128) :=
  let parts := text.splitOn ':'
  if parts.length < 3 then none
  else match expandTail parts with
    | none => none
    | some parts =>
      if 9 < parts.length then none
      else match gaps parts with
        | [] =>
          if parts.length ≠ 8 then none else (parts.mapM parseHextet).map hextets
        | [i] => match aroundGap parts i with
          | none => none
          | some (before, after) =>
            match before.mapM parseHextet, after.mapM parseHextet with
            | some before, some after =>
              some (hextets (before ++ List.replicate (8 - (before.length + after.length)) 0 ++ after))
            | _, _ => none
        | _ => none

def parseV6 (text : Text) : Option Address :=
  let value := text.takeWhile (· ≠ '%')
  match text.dropWhile (· ≠ '%') with
  | [] => (parseV6Value value).map (.v6 · none)
  | _ :: scope =>
    if scope = [] ∨ scope.contains '%' then none
    else (parseV6Value value).map (.v6 · (some scope))

/-- `ipaddress.ip_address`. -/
def ipAddress (text : Text) : Option Address :=
  match parseV4 text with
  | some a => some (.v4 a)
  | none => parseV6 text

end Reading

section Writing

def decimal (n : Nat) : Text := Nat.toDigits 10 n

def textV4 (a : BitVec 32) : Text :=
  let n := a.toNat
  [n / 16777216, n / 65536 % 256, n / 256 % 256, n % 256].map decimal
    |> List.intercalate ['.']

/-- The first longest run of zeros, as start and length. -/
def longestRun : List Nat → Nat → Nat × Nat → Nat × Nat → Nat × Nat
  | [], _, _, best => best
  | n :: rest, i, current, best =>
    if n = 0 then
      let current := (if current.2 = 0 then i else current.1, current.2 + 1)
      longestRun rest (i + 1) current (if best.2 < current.2 then current else best)
    else longestRun rest (i + 1) (0, 0) best

/-- `_compress_hextets`. -/
def compress (parts : List Nat) : List Text :=
  let (start, length) := longestRun parts 0 (0, 0) (0, 0)
  let texts := parts.map (Nat.toDigits 16)
  if length ≤ 1 then texts
  else
    (if start = 0 then [[]] else []) ++ texts.take start ++ [[]] ++ texts.drop (start + length) ++
      (if start + length = parts.length then [[]] else [])

def textV6 (a : BitVec 128) : Text :=
  match V6.mapped a with
  | some embedded => "::ffff:".toList ++ textV4 embedded
  | none =>
    let parts := (List.range 8).map fun i => a.toNat / 65536 ^ (7 - i) % 65536
    List.intercalate [':'] (compress parts)

/-- `str(address)`. -/
def Address.text : Address → Text
  | .v4 a => textV4 a
  | .v6 a none => textV6 a
  | .v6 a (some scope) => textV6 a ++ ['%'] ++ scope

end Writing

end Arenyxa.Network

/-! The network guard: what a policy lets through to a host, and the budgets of connections. -/

namespace Arenyxa.Network

/-- Readings of the clock are in nanoseconds. -/
def seconds (n : Int) : Int := 1000000000 * n

theorem lt_add_seconds (t : Int) {n : Int} (h : 0 < n) : t < t + seconds n := by
  simp only [seconds]
  omega

inductive Refusal
  | targetInvalid | protectedTarget | resolutionFailed | specialTarget | privateTarget
  | fanoutLimit | trackingLimit | concurrencyLimit | globalRate | targetRate
  deriving DecidableEq

structure Policy where
  enabled : Bool := true
  maxConcurrentConnections : Nat := 128
  maxGlobalConnectsPerMinute : Nat := 1200
  maxTargetConnectsPerMinute : Nat := 240
  maxDistinctTargetsPerMinute : Nat := 512
  maxTrackedTargets : Nat := 2048
  maxResolvedAddresses : Nat := 16
  blockCloudMetadata : Bool := true
  blockUnspecifiedOrMulticast : Bool := true
  blockPrivateOrLoopback : Bool := false
  protectedHosts : List Text := ["169.254.169.254".toList, "100.100.100.200".toList,
    "fd00:ec2::254".toList, "metadata.google.internal".toList, "metadata.google.internal.".toList]

/-- `NetworkGuardPolicy.validate`. -/
structure Policy.Valid (p : Policy) : Prop where
  concurrent : 1 ≤ p.maxConcurrentConnections ∧ p.maxConcurrentConnections ≤ 4096
  global : 1 ≤ p.maxGlobalConnectsPerMinute ∧ p.maxGlobalConnectsPerMinute ≤ 1000000
  target : 1 ≤ p.maxTargetConnectsPerMinute ∧ p.maxTargetConnectsPerMinute ≤ 100000
  distinct : 1 ≤ p.maxDistinctTargetsPerMinute ∧ p.maxDistinctTargetsPerMinute ≤ 100000
  tracked : p.maxDistinctTargetsPerMinute ≤ p.maxTrackedTargets ∧ p.maxTrackedTargets ≤ 1000000
  resolved : 1 ≤ p.maxResolvedAddresses ∧ p.maxResolvedAddresses ≤ 256

theorem default_valid : ({} : Policy).Valid := by
  constructor <;> decide

section Targets

/-- The characters that `str.strip` drops. -/
def isSpace (c : Char) : Bool :=
  (0x09 ≤ c.toNat && c.toNat ≤ 0x0d) || (0x1c ≤ c.toNat && c.toNat ≤ 0x20) ||
    (0x2000 ≤ c.toNat && c.toNat ≤ 0x200a) ||
    [0x85, 0xa0, 0x1680, 0x2028, 0x2029, 0x202f, 0x205f, 0x3000].contains c.toNat

def stripBy (p : Char → Bool) (text : Text) : Text := (text.dropWhile p).rdropWhile p

variable (casefold : Char → Text)

/-- `_normalized_host`; `casefold` is the full case folding of a character. -/
def normalizedHost (host : Text) : Text :=
  let normalized := ((stripBy isSpace host).rdropWhile (· == '.')).flatMap casefold
  if normalized = [] ∨ 253 < normalized.length then []
  else if normalized.any fun c => c.toNat < 33 || c.toNat == 127 then []
  else normalized

def Policy.protectedNames (p : Policy) : List Text := p.protectedHosts.map (normalizedHost casefold)

/-- `_protected`, of a name and of an address. -/
def Policy.protectedName (p : Policy) (normalized : Text) : Bool :=
  (p.protectedNames casefold).contains normalized

def Policy.protectedAddress (p : Policy) (normalized : Text) (a : Address) : Bool :=
  p.protectedName casefold normalized || p.protectedName casefold (a.text.flatMap casefold)

/-- The first addresses of a resolver's answer, each once. -/
def usable (most : Nat) : List Address → List Address → List Address
  | found, [] => found
  | found, a :: rest =>
    if found.contains a then usable most found rest
    else if most ≤ found.length + 1 then found ++ [a]
    else usable most (found ++ [a]) rest

/-- `_resolve`; a failed resolution answers `none`. -/
def Policy.resolve (p : Policy) (host : Text) (answer : Option (List Address)) :
    Except Refusal (List Address) :=
  let normalized := normalizedHost casefold host
  if normalized = [] then .error .targetInvalid
  else if p.blockCloudMetadata && p.protectedName casefold normalized then .error .protectedTarget
  else match ipAddress normalized with
    | some a => .ok [a]
    | none => match answer with
      | none => .error .resolutionFailed
      | some rows => match usable p.maxResolvedAddresses [] rows with
        | [] => .error .resolutionFailed
        | addresses => .ok addresses

/-- What `_validate_addresses` finds against one address. -/
def Policy.objection (p : Policy) (normalized : Text) (a : Address) : Option Refusal :=
  if p.blockCloudMetadata && p.protectedAddress casefold normalized a then some .protectedTarget
  else if p.blockUnspecifiedOrMulticast && (a.isUnspecified || a.isMulticast) then
    some .specialTarget
  else if p.blockPrivateOrLoopback && (a.isPrivate || a.isLoopback || a.isLinkLocal) then
    some .privateTarget
  else none

def Policy.validateAddresses (p : Policy) (normalized : Text) (addresses : List Address) :
    Except Refusal Unit :=
  match addresses.findSome? (p.objection casefold normalized) with
  | some refusal => .error refusal
  | none => .ok ()

/-- The addresses that `connection_candidates` finds before it takes the lock. -/
def Policy.candidates (p : Policy) (host : Text) (answer : Option (List Address)) :
    Except Refusal (List Address) := do
  let addresses ← p.resolve casefold host answer
  p.validateAddresses casefold (normalizedHost casefold host) addresses
  return addresses

end Targets

structure Window where
  started : Int
  count : Nat
  lastSeen : Int
  deriving DecidableEq

def Window.fresh (now : Int) : Window := ⟨now, 0, now⟩

/-- A minute has passed, and `_roll` starts a new window. -/
def Window.expired (w : Window) (now : Int) : Bool := w.started + seconds 60 ≤ now

def Window.roll (w : Window) (now : Int) : Window :=
  if w.expired now then ⟨now, 0, now⟩ else { w with lastSeen := now }

structure Target where
  key : Text
  window : Window
  deriving DecidableEq

instance : Keyed Target Text := ⟨Target.key⟩

@[simp] theorem target_key (t : Target) : Keyed.key t = t.key := rfl

structure Guard where
  active : Nat
  global : Window
  fanout : Window
  targets : Table Target

def Guard.created (now : Int) : Guard :=
  ⟨0, .fresh now, .fresh now, .empty⟩

def Target.stale (t : Target) (now : Int) : Bool :=
  max t.window.lastSeen t.window.started + seconds 120 ≤ now

/-- Where a target stands in the order of eviction. -/
def Target.seen (t : Target) : Int := max t.window.lastSeen t.window.started

/-- `_cleanup_targets`: the stale targets go, then the longest unseen ones beyond the capacity. -/
def cleanupTargets (most : Nat) (now : Int) (targets : Table Target) : Table Target :=
  let kept := targets.filter fun t => !t.stale now
  let evicted := (kept.rows.insertionSort fun a b => a.seen ≤ b.seen).take
    (kept.rows.length - most)
  kept.filter fun t => !evicted.contains t

section Admission

variable (p : Policy)

/-- The windows of the whole guard, and the targets that a new window drops. -/
def Guard.rollWindows (g : Guard) (now : Int) : Guard :=
  { g with
    global := g.global.roll now
    fanout := g.fanout.roll now
    targets := if g.global.expired now || g.fanout.expired now then
        cleanupTargets p.maxTrackedTargets now g.targets
      else g.targets }

/-- Room is made for a host that is not tracked, where the stale ones leave any. -/
def Guard.makeRoom (g : Guard) (now : Int) : Guard :=
  if p.maxTrackedTargets ≤ g.targets.rows.length then
    { g with targets := cleanupTargets p.maxTrackedTargets now g.targets }
  else g

/-- A new host takes one of the distinct targets of the minute. -/
def Guard.addTarget (g : Guard) (key : Text) (now : Int) : Guard :=
  { g with
    targets := g.targets.insert ⟨key, .fresh now⟩
    fanout := { g.fanout with count := g.fanout.count + 1 } }

/-- The window of the host, which is tracked from now on. -/
def Guard.track (g : Guard) (key : Text) (now : Int) : Guard × Except Refusal Window :=
  match g.targets.get? key with
  | some t => (g, .ok t.window)
  | none =>
    if p.maxDistinctTargetsPerMinute ≤ g.fanout.count then (g, .error .fanoutLimit)
    else if p.maxTrackedTargets ≤ (g.makeRoom p now).targets.rows.length then
      (g.makeRoom p now, .error .trackingLimit)
    else ((g.makeRoom p now).addTarget key now, .ok (.fresh now))

def Guard.setWindow (g : Guard) (key : Text) (w : Window) : Guard :=
  { g with targets := g.targets.assign ⟨key, w⟩ }

/-- The connection is counted everywhere, or refused. -/
def Guard.charge (g : Guard) (key : Text) (w : Window) (now : Int) :
    Guard × Except Refusal Unit :=
  let w := w.roll now
  if p.maxConcurrentConnections ≤ g.active then (g.setWindow key w, .error .concurrencyLimit)
  else if p.maxGlobalConnectsPerMinute ≤ g.global.count then (g.setWindow key w, .error .globalRate)
  else if p.maxTargetConnectsPerMinute ≤ w.count then (g.setWindow key w, .error .targetRate)
  else
    ({ g.setWindow key { w with count := w.count + 1, lastSeen := now } with
        active := g.active + 1
        global := { g.global with count := g.global.count + 1 } }, .ok ())

/-- The part of `connection_candidates` under the lock. -/
def Guard.admitHost (g : Guard) (key : Text) (now : Int) : Guard × Except Refusal Unit :=
  match (g.rollWindows p now).track p key now with
  | (g, .error refusal) => (g, .error refusal)
  | (g, .ok w) => g.charge p key w now

/-- What is handed out: an address, or the host as it was given. -/
inductive Candidate
  | address (a : Address)
  | host (text : Text)
  deriving DecidableEq

variable (casefold : Char → Text)

/-- The entry of `connection_candidates`. -/
def Guard.connectionCandidates (g : Guard) (host : Text) (answer : Option (List Address))
    (now : Int) : Guard × Except Refusal (List Candidate) :=
  if !p.enabled then (g, .ok [.host host])
  else match p.candidates casefold host answer with
    | .error refusal => (g, .error refusal)
    | .ok addresses => match g.admitHost p (normalizedHost casefold host) now with
      | (g, .error refusal) => (g, .error refusal)
      | (g, .ok ()) => (g, .ok (addresses.map .address))

/-- The exit of the context, `finally`. -/
def Guard.leave (g : Guard) : Guard :=
  if p.enabled then { g with active := g.active - 1 } else g

end Admission

/-- No concurrent connection and no connection of the minute is left. -/
def Guard.full (p : Policy) (g : Guard) : Bool :=
  p.maxConcurrentConnections ≤ g.active || p.maxGlobalConnectsPerMinute ≤ g.global.count

section Cases

variable {p : Policy} {g : Guard}

theorem Guard.track_cases (p : Policy) (g : Guard) (key : Text) (now : Int) :
    (∃ t, g.targets.get? key = some t ∧ g.track p key now = (g, .ok t.window)) ∨
    (g.targets.get? key = none ∧ ∃ g' refusal, g.track p key now = (g', .error refusal) ∧
      (g' = g ∨ g' = g.makeRoom p now)) ∨
    (g.targets.get? key = none ∧ g.fanout.count < p.maxDistinctTargetsPerMinute ∧
      (g.makeRoom p now).targets.rows.length < p.maxTrackedTargets ∧
      g.track p key now = ((g.makeRoom p now).addTarget key now, .ok (.fresh now))) := by
  cases found : g.targets.get? key with
  | some t => exact .inl ⟨t, rfl, by rw [Guard.track, found]⟩
  | none =>
    refine .inr ?_
    by_cases spent : p.maxDistinctTargetsPerMinute ≤ g.fanout.count
    · refine .inl ⟨rfl, g, .fanoutLimit, ?_, .inl rfl⟩
      simp only [Guard.track, found, if_pos spent]
    · by_cases crowded : p.maxTrackedTargets ≤ (g.makeRoom p now).targets.rows.length
      · refine .inl ⟨rfl, g.makeRoom p now, .trackingLimit, ?_, .inr rfl⟩
        simp only [Guard.track, found, if_neg spent, if_pos crowded]
      · refine .inr ⟨rfl, Nat.lt_of_not_le spent, Nat.lt_of_not_le crowded, ?_⟩
        simp only [Guard.track, found, if_neg spent, if_neg crowded]

theorem Guard.charge_cases (p : Policy) (g : Guard) (key : Text) (w : Window) (now : Int) :
    (∃ refusal, g.charge p key w now = (g.setWindow key (w.roll now), .error refusal) ∧
      (g.full p ∨ p.maxTargetConnectsPerMinute ≤ (w.roll now).count)) ∨
    (g.full p = false ∧ (w.roll now).count < p.maxTargetConnectsPerMinute ∧
      g.charge p key w now =
        ({ g.setWindow key { w.roll now with count := (w.roll now).count + 1, lastSeen := now } with
            active := g.active + 1
            global := { g.global with count := g.global.count + 1 } }, .ok ())) := by
  by_cases busy : p.maxConcurrentConnections ≤ g.active
  · refine .inl ⟨.concurrencyLimit, ?_, .inl (by simp [Guard.full, busy])⟩
    simp only [Guard.charge, if_pos busy]
  · by_cases spent : p.maxGlobalConnectsPerMinute ≤ g.global.count
    · refine .inl ⟨.globalRate, ?_, .inl (by simp [Guard.full, spent])⟩
      simp only [Guard.charge, if_neg busy, if_pos spent]
    · by_cases often : p.maxTargetConnectsPerMinute ≤ (w.roll now).count
      · refine .inl ⟨.targetRate, ?_, .inr often⟩
        simp only [Guard.charge, if_neg busy, if_neg spent, if_pos often]
      · refine .inr ⟨by simp [Guard.full, busy, spent], Nat.lt_of_not_le often, ?_⟩
        simp only [Guard.charge, if_neg busy, if_neg spent, if_neg often]

theorem Guard.lt_of_not_full (h : g.full p = false) :
    g.active < p.maxConcurrentConnections ∧ g.global.count < p.maxGlobalConnectsPerMinute := by
  simpa [Guard.full] using h

end Cases

end Arenyxa.Network
