import Arenyxa.Lib.SortedSet
import Mathlib.Data.String.Basic

/-! Zero-trust policies: parsing a policy mapping, and evaluating an access context. -/

namespace Arenyxa.ZeroTrust

open SortedSet

abbrev Text := List Char

instance lawfulText : LawfulBEq Text := inferInstance

/-- `str.isspace` -/
def isSpace (c : Char) : Bool :=
  (9 ≤ c.val && c.val ≤ 13) || (0x1C ≤ c.val && c.val ≤ 0x20) ||
    [0x85, 0xA0, 0x1680, 0x2028, 0x2029, 0x202F, 0x205F, 0x3000].contains c.val ||
    (0x2000 ≤ c.val && c.val ≤ 0x200A)

def strip (text : Text) : Text := trim isSpace text

def lower : List Char := "abcdefghijklmnopqrstuvwxyz0123456789".toList

/-- What the policy takes from Python's built-ins beyond `strip`. -/
structure Builtins where
  /-- `str.casefold` folds each character by itself. -/
  fold : Char → Text
  /-- `int` on a text, `none` where it raises. -/
  parseInt : Text → Option Int
  /-- `str` of a list. -/
  listText : List Text → Text
  fold_fold : ∀ c, (fold c).flatMap fold = fold c
  fold_ne_nil : ∀ c, fold c ≠ []
  fold_space : ∀ c, isSpace c = false → ∀ d ∈ fold c, isSpace d = false
  fold_lower : ∀ c ∈ lower, fold c = [c]

/-- The module `ipaddress`. A network is named by its text, and has an address. -/
structure IpAddress where
  Network : Type
  Address : Type
  ipNetwork : Text → Option Network
  ipAddress : Text → Option Address
  text : Network → Text
  contains : Network → Address → Bool
  network_text : ∀ s n, ipNetwork s = some n → ipNetwork (text n) = some n
  text_plain : ∀ s n, ipNetwork s = some n → strip (text n) = text n ∧ text n ≠ []
  inhabited : ∀ s n, ipNetwork s = some n →
    ∃ t a, strip t = t ∧ ipAddress t = some a ∧ contains n a = true

/-- A Python value. Of a list, tuple or set only the texts of the items matter, and its own;
of a value of another type also what `bool`, `int` and iteration make of it. -/
inductive Value
  | bool (b : Bool)
  | int (n : Int)
  | string (s : Text)
  | sequence (items : List Text) (shown : Text)
  | other (shown : Text) (truth : Bool) (number : Option Int) (items : Option (List Text))

abbrev Mapping := List (String × Value)

namespace Value

def text : Value → Text
  | bool b => (if b then "True" else "False").toList
  | int n => (toString n).toList
  | string s => s
  | sequence _ shown => shown
  | other shown _ _ _ => shown

def truth : Value → Bool
  | bool b => b
  | int n => n ≠ 0
  | string s => s ≠ []
  | sequence items _ => items ≠ []
  | other _ truth _ _ => truth

/-- `value is True` -/
def isTrue : Value → Bool
  | bool b => b
  | _ => false

/-- The texts of the items that an iteration gives. -/
def items : Value → Option (List Text)
  | string s => some (s.map fun c => [c])
  | sequence items _ => some items
  | other _ _ _ items => items
  | _ => none

end Value

section Policy

variable (py : Builtins) (ip : IpAddress)

def casefold (text : Text) : Text := text.flatMap py.fold

def Value.number : Value → Option Int
  | .bool b => some (if b then 1 else 0)
  | .int n => some n
  | .string s => py.parseInt s
  | .sequence _ _ => none
  | .other _ _ number _ => number

/-- The items of `_tuple_values`, or `none` for a value of the wrong type. -/
def listed : Value → Option (List Text)
  | .string s => some (s.splitOn ',')
  | .sequence items _ => some items
  | _ => none

def tupleValues (value : Value) : List Text :=
  sortedSet ((((listed value).getD []).map strip).filter (· ≠ []))

def validCidrs (value : Value) : List Text :=
  sortedSet ((tupleValues value).filterMap fun item => (ip.ipNetwork item).map ip.text)

def defaultNetworkTrust : List Text := ["trusted".toList, "private".toList, "unknown".toList]

def transports : List Text := ["tls13".toList, "tls12".toList, "local".toList]

structure Policy where
  enabled : Bool
  requireManagedDevice : Bool
  requireCompliantDevice : Bool
  requireMfa : Bool
  allowedNetworkTrust : List Text
  maxRiskScore : Int
  maxAuthAgeSeconds : Int
  allowedSourceCidrs : List Text
  requiredPermissions : List Text
  allowedWorkerIds : List Text
  allowedServerIds : List Text
  requireServerRelay : Bool
  denyPeerToPeer : Bool
  requiredTransport : Text
  deriving DecidableEq

def truthOf (m : Mapping) (key : String) : Bool := ((m.lookup key).map Value.truth).getD false

/-- `int(raw.get(key, default))`, `none` where it raises. -/
def numberOf (m : Mapping) (key : String) (default : Int) : Option Int :=
  match m.lookup key with
  | none => some default
  | some value => value.number py

def textOf (m : Mapping) (key : String) : Text := ((m.lookup key).map Value.text).getD []

def valuesOf (m : Mapping) (key : String) : List Text :=
  ((m.lookup key).map tupleValues).getD []

def clamp (limit n : Int) : Int := max 0 (min limit n)

def networkTrustOf (m : Mapping) : List Text :=
  let allowed := (m.lookup "allowed_network_trust").getD
    (.sequence defaultNetworkTrust (py.listText defaultNetworkTrust))
  let items := (tupleValues allowed).map (casefold py)
  sortedSet (if items = [] then defaultNetworkTrust else items)

def transportOf (m : Mapping) : Text :=
  let transport := casefold py (strip (textOf m "required_transport"))
  if transport ∈ transports then transport else []

def cidrsOf (m : Mapping) : List Text :=
  ((m.lookup "allowed_source_cidrs").map (validCidrs ip)).getD []

def maxRisk : Int := 100

def maxAuthAge : Int := 7 * 24 * 60 * 60

def fromMapping (m : Mapping) : Option Policy := do
  let risk ← numberOf py m "max_risk_score" 100
  let age ← numberOf py m "max_auth_age_seconds" (24 * 60 * 60)
  return {
    enabled := truthOf m "enabled"
    requireManagedDevice := truthOf m "require_managed_device"
    requireCompliantDevice := truthOf m "require_compliant_device"
    requireMfa := truthOf m "require_mfa"
    allowedNetworkTrust := networkTrustOf py m
    maxRiskScore := clamp maxRisk risk
    maxAuthAgeSeconds := clamp maxAuthAge age
    allowedSourceCidrs := cidrsOf ip m
    requiredPermissions := valuesOf m "required_permissions"
    allowedWorkerIds := valuesOf m "allowed_worker_ids"
    allowedServerIds := valuesOf m "allowed_server_ids"
    requireServerRelay := truthOf m "require_server_relay"
    denyPeerToPeer := truthOf m "deny_peer_to_peer"
    requiredTransport := transportOf py m
  }

def Policy.asDict (p : Policy) : Mapping :=
  let list items := Value.sequence items (py.listText items)
  [("enabled", .bool p.enabled),
    ("require_managed_device", .bool p.requireManagedDevice),
    ("require_compliant_device", .bool p.requireCompliantDevice),
    ("require_mfa", .bool p.requireMfa),
    ("allowed_network_trust", list p.allowedNetworkTrust),
    ("max_risk_score", .int p.maxRiskScore),
    ("max_auth_age_seconds", .int p.maxAuthAgeSeconds),
    ("allowed_source_cidrs", list p.allowedSourceCidrs),
    ("required_permissions", list p.requiredPermissions),
    ("allowed_worker_ids", list p.allowedWorkerIds),
    ("allowed_server_ids", list p.allowedServerIds),
    ("require_server_relay", .bool p.requireServerRelay),
    ("deny_peer_to_peer", .bool p.denyPeerToPeer),
    ("required_transport", .string p.requiredTransport)]

structure Decision where
  allowed : Bool
  code : String
  reasons : List String
  riskScore : Int
  deriving DecidableEq

def sourceAllowed (source : Text) (networks : List Text) : Bool :=
  if networks = [] then true
  else match ip.ipAddress (strip source) with
    | none => false
    | some address => networks.any fun cidr =>
      match ip.ipNetwork cidr with
      | none => false
      | some network => ip.contains network address

/-- `actual.get(key) is True` -/
def flag (c : Mapping) (key : String) : Bool := ((c.lookup key).map Value.isTrue).getD false

/-- The risk score of a context; without a readable one it is the highest. -/
def riskOf (c : Mapping) : Int := ((numberOf py c "risk_score" 100).map (clamp maxRisk)).getD 100

/-- The age of the authentication; without a readable one it is over the limit. -/
def ageOf (limit : Int) (c : Mapping) : Int :=
  match c.lookup "auth_age_seconds" with
  | none => max 0 (limit + 1)
  | some value => ((value.number py).map (max 0)).getD (limit + 1)

def trustOf (c : Mapping) : Text :=
  let trust := casefold py (strip (((c.lookup "network_trust").map Value.text).getD
    "unknown".toList))
  if trust = [] then "unknown".toList else trust

/-- The supplied permissions, `none` where the iteration raises. -/
def suppliedOf (c : Mapping) : Option (List Text) :=
  match c.lookup "permissions" with
  | none => some []
  | some value => value.items.map fun items => items.filter (· ≠ [])

def denial (reason : String) (denied : Bool) : List String := if denied then [reason] else []

/-- The reasons to deny a context with the supplied permissions. -/
def denials (p : Policy) (c : Mapping) (supplied : List Text) : List String :=
  let worker := textOf c "worker_id"
  let server := textOf c "server_id"
  let transport := casefold py (strip (textOf c "transport"))
  denial "risk_score" (p.maxRiskScore < riskOf py c) ++
  denial "managed_device" (p.requireManagedDevice && !flag c "managed_device") ++
  denial "device_compliant" (p.requireCompliantDevice && !flag c "device_compliant") ++
  denial "mfa_verified" (p.requireMfa && !flag c "mfa_verified") ++
  denial "network_trust" (trustOf py c ∉ p.allowedNetworkTrust) ++
  denial "auth_age" (p.maxAuthAgeSeconds < ageOf py p.maxAuthAgeSeconds c) ++
  denial "source_ip" (p.allowedSourceCidrs ≠ [] &&
    !sourceAllowed ip (textOf c "source_ip") p.allowedSourceCidrs) ++
  denial "permissions" (p.requiredPermissions.any (· ∉ supplied)) ++
  denial "worker_id" (p.allowedWorkerIds ≠ [] && worker ∉ p.allowedWorkerIds) ++
  denial "server_id" (p.allowedServerIds ≠ [] && server ∉ p.allowedServerIds) ++
  denial "server_relay" (p.requireServerRelay && !flag c "via_server_relay") ++
  denial "peer_to_peer" (p.denyPeerToPeer && flag c "peer_to_peer") ++
  denial "transport" (p.requiredTransport ≠ [] && transport ≠ p.requiredTransport)

/-- `evaluate`, `none` where it raises. -/
def evaluate (p : Policy) (c : Mapping) : Option Decision :=
  if !p.enabled then some ⟨true, "ZERO_TRUST_DISABLED", [], 0⟩
  else do
    let supplied ← suppliedOf c
    let reasons := denials py ip p c supplied
    if reasons ≠ [] then
      return ⟨false, "ZERO_TRUST_CONTEXT_DENIED", sortedSet reasons, riskOf py c⟩
    else return ⟨true, "ZERO_TRUST_ALLOW", [], riskOf py c⟩

end Policy

end Arenyxa.ZeroTrust

/-! What a policy mapping says, and when the parsed policy enforces all of it. -/

namespace Arenyxa.ZeroTrust

open SortedSet

variable {py : Builtins} {ip : IpAddress} {p : Policy} {m c : Mapping} {value : Value} {e : Text}

section Normal

theorem strip_strip (text : Text) : strip (strip text) = strip text := trim_idem

/-- An entry of a list, or of a text with commas. White space around it does not belong to it,
and a blank entry is none. -/
def Entry (value : Value) (e : Text) : Prop :=
  ∃ items, listed value = some items ∧ ∃ item ∈ items, strip item = e ∧ e ≠ []

theorem mem_tupleValues : e ∈ tupleValues value ↔ Entry value e := by
  rw [tupleValues, mem_sortedSet, List.mem_filter, List.mem_map, Entry]
  cases listed value with
  | none => simp
  | some items => simp [and_assoc, ← exists_and_right]

theorem mem_validCidrs {cidr : Text} : cidr ∈ validCidrs ip value ↔
    ∃ e n, Entry value e ∧ ip.ipNetwork e = some n ∧ ip.text n = cidr := by
  simp only [validCidrs, mem_sortedSet, List.mem_filterMap, mem_tupleValues, Option.map_eq_some_iff]
  constructor
  · rintro ⟨e, entry, n, network, rfl⟩
    exact ⟨e, n, entry, network, rfl⟩
  · rintro ⟨e, n, entry, network, rfl⟩
    exact ⟨e, entry, n, network, rfl⟩

/-- A list that `tupleValues` gives back as it is. -/
def Plain (l : List Text) : Prop := sortedSet l = l ∧ ∀ e ∈ l, strip e = e ∧ e ≠ []

theorem tupleValues_plain (value : Value) : Plain (tupleValues value) := by
  refine ⟨sortedSet_idem, fun e he => ?_⟩
  obtain ⟨_, _, item, _, rfl, nonempty⟩ := mem_tupleValues.1 he
  exact ⟨strip_strip item, nonempty⟩

theorem Plain.tupleValues {l : List Text} (plain : Plain l) (shown : Text) :
    tupleValues (.sequence l shown) = l := by
  have stripped : l.map strip = l :=
    (List.map_congr_left fun e he => (plain.2 e he).1).trans (List.map_id l)
  have kept : l.filter (· ≠ []) = l :=
    List.filter_eq_self.mpr fun e he => decide_eq_true (plain.2 e he).2
  rw [ZeroTrust.tupleValues, listed, Option.getD_some, stripped, kept, plain.1]

theorem plain_nil : Plain [] := ⟨sortedSet_eq_nil.mpr rfl, nofun⟩

theorem valuesOf_plain (m : Mapping) (key : String) : Plain (valuesOf m key) := by
  rw [valuesOf]
  cases m.lookup key with
  | none => exact plain_nil
  | some value => exact tupleValues_plain value

theorem casefold_casefold (text : Text) : casefold py (casefold py text) = casefold py text := by
  rw [casefold, casefold, List.flatMap_assoc]
  exact congrArg (fun f => text.flatMap f) (funext py.fold_fold)

theorem casefold_ne_nil (nonempty : e ≠ []) : casefold py e ≠ [] := by
  obtain ⟨a, l, rfl⟩ := List.exists_cons_of_ne_nil nonempty
  rw [casefold, List.flatMap_cons]
  exact List.append_ne_nil_of_left_ne_nil (py.fold_ne_nil a) _

theorem casefold_lower (plain : ∀ d ∈ e, d ∈ lower) : casefold py e = e := by
  induction e with
  | nil => rfl
  | cons d e ih =>
    rw [casefold, List.flatMap_cons, py.fold_lower d (plain d List.mem_cons_self), ← casefold,
      ih fun a ha => plain a (List.mem_cons_of_mem d ha)]
    rfl

theorem strip_casefold (stripped : strip e = e) : strip (casefold py e) = casefold py e := by
  obtain ⟨head, last⟩ := trim_ends stripped
  refine trim_eq_self (fun d hd => ?_) (fun d hd => ?_)
  · cases e with
    | nil => cases hd
    | cons a l =>
      rw [casefold, List.flatMap_cons, List.head?_append_of_ne_nil _ (py.fold_ne_nil a)] at hd
      exact py.fold_space a (head a rfl) d (List.mem_of_mem_head? hd)
  · rcases List.eq_nil_or_concat' e with rfl | ⟨l, a, rfl⟩
    · cases hd
    · rw [casefold, List.flatMap_append, List.getLast?_append_of_ne_nil _ (by simp [py.fold_ne_nil])]
        at hd
      refine py.fold_space a (last a (by simp)) d ?_
      simpa using List.mem_of_mem_getLast? hd

theorem folded_of_all {values : List Text}
    (h : (values.all fun e => e.all fun d => lower.elem d) = true) : ∀ e ∈ values, ∀ d ∈ e, d ∈ lower :=
  fun e he d hd => List.mem_of_elem_eq_true (List.all_eq_true.mp (List.all_eq_true.mp h e he) d hd)

theorem folded_defaults : ∀ e ∈ defaultNetworkTrust, ∀ d ∈ e, d ∈ lower :=
  folded_of_all (by decide +kernel)

theorem folded_transports : ∀ e ∈ transports, ∀ d ∈ e, d ∈ lower :=
  folded_of_all (by decide +kernel)

/-- What every policy has that was parsed. -/
structure Policy.Normal (py : Builtins) (ip : IpAddress) (p : Policy) : Prop where
  trust : Plain p.allowedNetworkTrust
  folded : ∀ e ∈ p.allowedNetworkTrust, casefold py e = e
  some_trust : p.allowedNetworkTrust ≠ []
  risk : 0 ≤ p.maxRiskScore ∧ p.maxRiskScore ≤ maxRisk
  age : 0 ≤ p.maxAuthAgeSeconds ∧ p.maxAuthAgeSeconds ≤ maxAuthAge
  cidrs : Plain p.allowedSourceCidrs
  networks : ∀ e ∈ p.allowedSourceCidrs, ∃ n, ip.ipNetwork e = some n ∧ ip.text n = e
  permissions : Plain p.requiredPermissions
  workers : Plain p.allowedWorkerIds
  servers : Plain p.allowedServerIds
  transport : p.requiredTransport = [] ∨ p.requiredTransport ∈ transports

theorem networkTrustOf_normal (m : Mapping) : Plain (networkTrustOf py m) ∧
    (∀ e ∈ networkTrustOf py m, casefold py e = e) ∧ networkTrustOf py m ≠ [] := by
  have defaults : (∀ e ∈ defaultNetworkTrust, strip e = e ∧ e ≠ []) ∧ defaultNetworkTrust ≠ [] := by
    decide +kernel
  rw [networkTrustOf]
  generalize (m.lookup "allowed_network_trust").getD _ = allowed
  by_cases lost : (tupleValues allowed).map (casefold py) = []
  · rw [if_pos lost]
    refine ⟨⟨sortedSet_idem, fun e he => defaults.1 e (mem_sortedSet.mp he)⟩, fun e he => ?_, ?_⟩
    · exact casefold_lower (folded_defaults e (mem_sortedSet.mp he))
    · exact fun empty => defaults.2 (sortedSet_eq_nil.mp empty)
  · rw [if_neg lost]
    refine ⟨⟨sortedSet_idem, fun e he => ?_⟩, fun e he => ?_, fun empty => ?_⟩
    · obtain ⟨item, entry, rfl⟩ := List.mem_map.mp (mem_sortedSet.mp he)
      obtain ⟨stripped, nonempty⟩ := (tupleValues_plain allowed).2 item entry
      exact ⟨strip_casefold stripped, casefold_ne_nil nonempty⟩
    · obtain ⟨item, -, rfl⟩ := List.mem_map.mp (mem_sortedSet.mp he)
      exact casefold_casefold item
    · exact lost (sortedSet_eq_nil.mp empty)

theorem validCidrs_normal (value : Value) : Plain (validCidrs ip value) ∧
    ∀ e ∈ validCidrs ip value, ∃ n, ip.ipNetwork e = some n ∧ ip.text n = e := by
  refine ⟨⟨sortedSet_idem, fun e he => ?_⟩, fun e he => ?_⟩
  · obtain ⟨entry, n, -, network, rfl⟩ := mem_validCidrs.1 he
    exact ip.text_plain entry n network
  · obtain ⟨entry, n, -, network, rfl⟩ := mem_validCidrs.1 he
    exact ⟨n, ip.network_text entry n network, rfl⟩

theorem cidrsOf_normal (m : Mapping) : Plain (cidrsOf ip m) ∧
    ∀ e ∈ cidrsOf ip m, ∃ n, ip.ipNetwork e = some n ∧ ip.text n = e := by
  rw [cidrsOf]
  cases m.lookup "allowed_source_cidrs" with
  | none => exact ⟨plain_nil, nofun⟩
  | some value => exact validCidrs_normal value

theorem clamp_bounds {limit n : Int} (h : 0 ≤ limit) : 0 ≤ clamp limit n ∧ clamp limit n ≤ limit := by
  rw [clamp]
  omega

theorem clamp_of_bounds {limit n : Int} (h : 0 ≤ n ∧ n ≤ limit) : clamp limit n = n := by
  rw [clamp]
  omega

theorem transportOf_normal (m : Mapping) : transportOf py m = [] ∨ transportOf py m ∈ transports := by
  rw [transportOf]
  by_cases known : casefold py (strip (textOf m "required_transport")) ∈ transports
  · rw [if_pos known]
    exact .inr known
  · rw [if_neg known]
    exact .inl rfl

theorem fromMapping_eq_some (h : fromMapping py ip m = some p) :
    ∃ risk age, numberOf py m "max_risk_score" 100 = some risk ∧
      numberOf py m "max_auth_age_seconds" (24 * 60 * 60) = some age ∧
      p = ⟨truthOf m "enabled", truthOf m "require_managed_device",
        truthOf m "require_compliant_device", truthOf m "require_mfa", networkTrustOf py m,
        clamp maxRisk risk, clamp maxAuthAge age, cidrsOf ip m, valuesOf m "required_permissions",
        valuesOf m "allowed_worker_ids", valuesOf m "allowed_server_ids",
        truthOf m "require_server_relay", truthOf m "deny_peer_to_peer", transportOf py m⟩ := by
  rw [fromMapping] at h
  cases risk : numberOf py m "max_risk_score" 100 with
  | none =>
    rw [risk] at h
    cases h
  | some r =>
    cases age : numberOf py m "max_auth_age_seconds" (24 * 60 * 60) with
    | none =>
      rw [risk, age] at h
      cases h
    | some a =>
      rw [risk, age] at h
      exact ⟨r, a, rfl, rfl, (Option.some.inj h).symm⟩

theorem fromMapping_normal (h : fromMapping py ip m = some p) : p.Normal py ip := by
  obtain ⟨risk, age, -, -, rfl⟩ := fromMapping_eq_some h
  have trust := @networkTrustOf_normal py m
  have cidrs := @cidrsOf_normal ip m
  exact {
    trust := trust.1
    folded := trust.2.1
    some_trust := trust.2.2
    risk := clamp_bounds (by decide)
    age := clamp_bounds (by decide)
    cidrs := cidrs.1
    networks := cidrs.2
    permissions := valuesOf_plain m _
    workers := valuesOf_plain m _
    servers := valuesOf_plain m _
    transport := transportOf_normal m
  }

end Normal

section Roundtrip

theorem validCidrs_sequence {l : List Text} (plain : Plain l)
    (networks : ∀ e ∈ l, ∃ n, ip.ipNetwork e = some n ∧ ip.text n = e) (shown : Text) :
    validCidrs ip (.sequence l shown) = l := by
  rw [validCidrs, plain.tupleValues, List.filterMap_congr (g := some), List.filterMap_some, plain.1]
  intro e he
  obtain ⟨n, network, text⟩ := networks e he
  rw [network, Option.map_some, text]

theorem fromMapping_asDict (normal : p.Normal py ip) :
    fromMapping py ip (p.asDict py) = some p := by
  have trust : networkTrustOf py (p.asDict py) = p.allowedNetworkTrust := by
    have items : (tupleValues (.sequence p.allowedNetworkTrust
        (py.listText p.allowedNetworkTrust))).map (casefold py) = p.allowedNetworkTrust := by
      rw [normal.trust.tupleValues]
      exact (List.map_congr_left normal.folded).trans (List.map_id _)
    have found : (p.asDict py).lookup "allowed_network_trust" =
        some (.sequence p.allowedNetworkTrust (py.listText p.allowedNetworkTrust)) := rfl
    rw [networkTrustOf, found, Option.getD_some, items, if_neg normal.some_trust, normal.trust.1]
  have transport : transportOf py (p.asDict py) = p.requiredTransport := by
    have stripped : ∀ e ∈ [] :: transports, strip e = e := by decide +kernel
    have known : p.requiredTransport ∈ [] :: transports := List.mem_cons.mpr normal.transport
    have folded : casefold py p.requiredTransport = p.requiredTransport := by
      rcases normal.transport with empty | listed
      · rw [empty]
        rfl
      · exact casefold_lower (folded_transports _ listed)
    have named : textOf (p.asDict py) "required_transport" = p.requiredTransport := rfl
    rw [transportOf, named, stripped _ known, folded]
    rcases normal.transport with empty | listed
    · rw [empty]
      rfl
    · exact if_pos listed
  have cidrs : cidrsOf ip (p.asDict py) = p.allowedSourceCidrs :=
    validCidrs_sequence normal.cidrs normal.networks _
  have permissions : valuesOf (p.asDict py) "required_permissions" = p.requiredPermissions :=
    normal.permissions.tupleValues _
  have workers : valuesOf (p.asDict py) "allowed_worker_ids" = p.allowedWorkerIds :=
    normal.workers.tupleValues _
  have servers : valuesOf (p.asDict py) "allowed_server_ids" = p.allowedServerIds :=
    normal.servers.tupleValues _
  have risk : numberOf py (p.asDict py) "max_risk_score" 100 = some p.maxRiskScore := rfl
  have age : numberOf py (p.asDict py) "max_auth_age_seconds" (24 * 60 * 60) =
      some p.maxAuthAgeSeconds := rfl
  rw [fromMapping, risk, age, trust, transport, cidrs, permissions, workers, servers]
  simp only [Option.bind_eq_bind, Option.bind_some, clamp_of_bounds normal.risk,
    clamp_of_bounds normal.age]
  rfl

end Roundtrip

end Arenyxa.ZeroTrust
