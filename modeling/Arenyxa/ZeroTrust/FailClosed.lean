import Arenyxa.ZeroTrust.Policy

/-! When a parsed policy is fail-closed: what it admits satisfies all that its mapping says. -/

namespace Arenyxa.ZeroTrust

open SortedSet

variable {py : Builtins} {ip : IpAddress} {p : Policy} {m c : Mapping}

section Literal

variable (py : Builtins) (ip : IpAddress) (m c : Mapping)

/-- The restrictions of the mapping `m`, read literally, in the context `c`. A restriction that
names nothing in a value that is not empty cannot be satisfied. -/
structure Satisfies : Prop where
  managedDevice : truthOf m "require_managed_device" = true → flag c "managed_device" = true
  compliantDevice : truthOf m "require_compliant_device" = true → flag c "device_compliant" = true
  mfa : truthOf m "require_mfa" = true → flag c "mfa_verified" = true
  networkTrust : ∀ value, m.lookup "allowed_network_trust" = some value →
    ∃ e, Entry value e ∧ trustOf py c = casefold py e
  risk : ∀ value n, m.lookup "max_risk_score" = some value → value.number py = some n →
    riskOf py c ≤ n
  authAge : ∀ value n, m.lookup "max_auth_age_seconds" = some value → value.number py = some n →
    ∃ seen age, c.lookup "auth_age_seconds" = some seen ∧ seen.number py = some age ∧ max 0 age ≤ n
  source : ∀ value, m.lookup "allowed_source_cidrs" = some value → value.truth = true →
    ∃ e network address, Entry value e ∧ ip.ipNetwork e = some network ∧
      ip.ipAddress (strip (textOf c "source_ip")) = some address ∧
      ip.contains network address = true
  permissions : ∀ value, m.lookup "required_permissions" = some value → value.truth = true →
    (listed value).isSome = true ∧
      ∀ e, Entry value e → ∃ supplied, suppliedOf c = some supplied ∧ e ∈ supplied
  worker : ∀ value, m.lookup "allowed_worker_ids" = some value → value.truth = true →
    Entry value (textOf c "worker_id")
  server : ∀ value, m.lookup "allowed_server_ids" = some value → value.truth = true →
    Entry value (textOf c "server_id")
  serverRelay : truthOf m "require_server_relay" = true → flag c "via_server_relay" = true
  peerToPeer : truthOf m "deny_peer_to_peer" = true → flag c "peer_to_peer" = false
  transport : ∀ value, m.lookup "required_transport" = some value → value.truth = true →
    casefold py (strip (textOf c "transport")) = casefold py (strip value.text)

/-- No restriction of the mapping is lost when it is parsed. -/
structure Kept : Prop where
  networkTrust : ∀ value, m.lookup "allowed_network_trust" = some value → ∃ e, Entry value e
  risk : ∀ value n, m.lookup "max_risk_score" = some value → value.number py = some n → 0 ≤ n
  authAge : ∀ value n, m.lookup "max_auth_age_seconds" = some value → value.number py = some n →
    0 ≤ n
  source : ∀ value, m.lookup "allowed_source_cidrs" = some value → value.truth = true →
    ∃ e network, Entry value e ∧ ip.ipNetwork e = some network
  permissions : ∀ value, m.lookup "required_permissions" = some value → value.truth = true →
    (listed value).isSome = true
  worker : ∀ value, m.lookup "allowed_worker_ids" = some value → value.truth = true →
    ∃ e, Entry value e
  server : ∀ value, m.lookup "allowed_server_ids" = some value → value.truth = true →
    ∃ e, Entry value e
  transport : ∀ value, m.lookup "required_transport" = some value → value.truth = true →
    casefold py (strip value.text) ∈ transports

end Literal

section Admission

variable (py : Builtins) (ip : IpAddress)

/-- What an enabled policy asks of a context. -/
structure Policy.Admits (p : Policy) (c : Mapping) : Prop where
  risk : riskOf py c ≤ p.maxRiskScore
  managedDevice : p.requireManagedDevice = true → flag c "managed_device" = true
  compliantDevice : p.requireCompliantDevice = true → flag c "device_compliant" = true
  mfa : p.requireMfa = true → flag c "mfa_verified" = true
  networkTrust : trustOf py c ∈ p.allowedNetworkTrust
  authAge : ageOf py p.maxAuthAgeSeconds c ≤ p.maxAuthAgeSeconds
  source : p.allowedSourceCidrs ≠ [] →
    sourceAllowed ip (textOf c "source_ip") p.allowedSourceCidrs = true
  permissions : ∃ supplied, suppliedOf c = some supplied ∧ ∀ e ∈ p.requiredPermissions, e ∈ supplied
  worker : p.allowedWorkerIds ≠ [] → textOf c "worker_id" ∈ p.allowedWorkerIds
  server : p.allowedServerIds ≠ [] → textOf c "server_id" ∈ p.allowedServerIds
  serverRelay : p.requireServerRelay = true → flag c "via_server_relay" = true
  peerToPeer : p.denyPeerToPeer = true → flag c "peer_to_peer" = false
  transport : p.requiredTransport ≠ [] →
    casefold py (strip (textOf c "transport")) = p.requiredTransport

variable {py ip}

theorem denial_eq_nil {reason : String} {denied : Bool} : denial reason denied = [] ↔ denied = false := by
  cases denied with
  | true => simp [denial]
  | false => simp [denial]

theorem denials_eq_nil {supplied : List Text} (h : suppliedOf c = some supplied) :
    denials py ip p c supplied = [] ↔ p.Admits py ip c := by
  simp only [denials, List.append_eq_nil_iff, denial_eq_nil, decide_eq_false_iff_not, not_lt,
    Bool.and_eq_false_imp, Bool.not_eq_false', List.any_eq_false, decide_eq_true_eq, not_not,
    and_assoc]
  constructor
  · rintro ⟨risk, managed, compliant, mfa, trust, age, source, permissions, worker, server, relay,
      peer, transport⟩
    exact ⟨risk, managed, compliant, mfa, trust, age, source, ⟨supplied, h, permissions⟩, worker,
      server, relay, peer, transport⟩
  · intro a
    obtain ⟨l, same, permissions⟩ := a.permissions
    cases h.symm.trans same
    exact ⟨a.risk, a.managedDevice, a.compliantDevice, a.mfa, a.networkTrust, a.authAge, a.source,
      permissions, a.worker, a.server, a.serverRelay, a.peerToPeer, a.transport⟩

theorem evaluate_allowed_iff (enabled : p.enabled = true) :
    (∃ d, evaluate py ip p c = some d ∧ d.allowed = true) ↔ p.Admits py ip c := by
  rw [evaluate, enabled]
  simp only [Bool.not_true, Bool.false_eq_true, ↓reduceIte]
  cases supplied : suppliedOf c with
  | none =>
    refine iff_of_false (fun ⟨d, h, _⟩ => by cases h) fun admitted => ?_
    obtain ⟨l, some_supplied, -⟩ := admitted.permissions
    exact nomatch supplied.symm.trans some_supplied
  | some l =>
    rw [← denials_eq_nil supplied]
    simp only [Option.bind_eq_bind, Option.bind_some]
    by_cases denied : denials py ip p c l = []
    · rw [if_neg (not_not.mpr denied)]
      exact iff_of_true ⟨_, rfl, rfl⟩ denied
    · rw [if_pos denied]
      refine iff_of_false (fun ⟨d, h, allowed⟩ => ?_) denied
      cases h
      cases allowed

theorem sourceAllowed_iff {source : Text} {networks : List Text} (restricted : networks ≠ []) :
    sourceAllowed ip source networks = true ↔ ∃ address, ip.ipAddress (strip source) = some address ∧
      ∃ cidr ∈ networks, ∃ n, ip.ipNetwork cidr = some n ∧ ip.contains n address = true := by
  rw [sourceAllowed, if_neg restricted]
  cases ip.ipAddress (strip source) with
  | none => simp
  | some address =>
    simp only [List.any_eq_true, Option.some.injEq, exists_eq_left']
    refine exists_congr fun cidr => and_congr_right fun _ => ?_
    cases ip.ipNetwork cidr with
    | none => simp
    | some n => simp

end Admission

section Parsing

theorem mem_valuesOf {key : String} {value : Value} {e : Text} (here : m.lookup key = some value) :
    e ∈ valuesOf m key ↔ Entry value e := by
  rw [valuesOf, here]
  exact mem_tupleValues

theorem mem_cidrsOf {value : Value} {cidr : Text}
    (here : m.lookup "allowed_source_cidrs" = some value) : cidr ∈ cidrsOf ip m ↔
      ∃ e n, Entry value e ∧ ip.ipNetwork e = some n ∧ ip.text n = cidr := by
  rw [cidrsOf, here]
  exact mem_validCidrs

theorem mem_networkTrustOf {value : Value} {e : Text}
    (here : m.lookup "allowed_network_trust" = some value) (some_entry : ∃ e, Entry value e) :
    e ∈ networkTrustOf py m ↔ ∃ item, Entry value item ∧ e = casefold py item := by
  obtain ⟨first, entry⟩ := some_entry
  have nonempty : (tupleValues value).map (casefold py) ≠ [] :=
    List.ne_nil_of_mem (List.mem_map_of_mem (mem_tupleValues.mpr entry))
  rw [networkTrustOf, here, Option.getD_some, if_neg nonempty, mem_sortedSet, List.mem_map]
  simp only [mem_tupleValues, eq_comm]

theorem Kept.satisfies (kept : Kept py ip m) (parsed : fromMapping py ip m = some p)
    (admitted : p.Admits py ip c) : Satisfies py ip m c := by
  obtain ⟨risk, age, risk_read, age_read, rfl⟩ := fromMapping_eq_some parsed
  refine ⟨admitted.managedDevice, admitted.compliantDevice, admitted.mfa, ?_, ?_, ?_, ?_, ?_, ?_, ?_,
    admitted.serverRelay, admitted.peerToPeer, ?_⟩
  · intro value here
    exact (mem_networkTrustOf here (kept.networkTrust value here)).mp admitted.networkTrust
  · intro value n here number
    rw [numberOf, here] at risk_read
    obtain rfl : n = risk := Option.some.inj (number.symm.trans risk_read)
    have := kept.risk value n here number
    have bound : riskOf py c ≤ clamp maxRisk n := admitted.risk
    rw [clamp] at bound
    omega
  · intro value n here number
    rw [numberOf, here] at age_read
    obtain rfl : n = age := Option.some.inj (number.symm.trans age_read)
    have := kept.authAge value n here number
    have bound : ageOf py (clamp maxAuthAge n) c ≤ clamp maxAuthAge n := admitted.authAge
    rw [ageOf] at bound
    cases seen : c.lookup "auth_age_seconds" with
    | none =>
      rw [seen] at bound
      simp only at bound
      omega
    | some v =>
      rw [seen] at bound
      cases number : v.number py with
      | none =>
        simp only [number, Option.map_none, Option.getD_none] at bound
        omega
      | some a =>
        simp only [number, Option.map_some, Option.getD_some, clamp] at bound
        exact ⟨v, a, rfl, number, by omega⟩
  · intro value here stated
    obtain ⟨e, n, entry, network⟩ := kept.source value here stated
    have restricted : cidrsOf ip m ≠ [] :=
      List.ne_nil_of_mem ((mem_cidrsOf here).mpr ⟨e, n, entry, network, rfl⟩)
    obtain ⟨address, read, cidr, listed, n', network', inside⟩ :=
      (sourceAllowed_iff restricted).mp (admitted.source restricted)
    obtain ⟨e', m', entry', valid, rfl⟩ := (mem_cidrsOf here).mp listed
    cases network'.symm.trans (ip.network_text e' m' valid)
    exact ⟨e', n', address, entry', valid, read, inside⟩
  · intro value here stated
    obtain ⟨supplied, read, all⟩ := admitted.permissions
    exact ⟨kept.permissions value here stated, fun e entry =>
      ⟨supplied, read, all e ((mem_valuesOf here).mpr entry)⟩⟩
  · intro value here stated
    obtain ⟨e, entry⟩ := kept.worker value here stated
    exact (mem_valuesOf here).mp
      (admitted.worker (List.ne_nil_of_mem ((mem_valuesOf here).mpr entry)))
  · intro value here stated
    obtain ⟨e, entry⟩ := kept.server value here stated
    exact (mem_valuesOf here).mp
      (admitted.server (List.ne_nil_of_mem ((mem_valuesOf here).mpr entry)))
  · intro value here stated
    have known := kept.transport value here stated
    have named : textOf m "required_transport" = value.text := by rw [textOf, here]; rfl
    have parsed : transportOf py m = casefold py (strip value.text) := by
      rw [transportOf, named]
      exact if_pos known
    have some_transport : transportOf py m ≠ [] := by
      rw [parsed]
      exact fun empty => absurd (empty ▸ known) (by decide)
    exact (admitted.transport some_transport).trans parsed

/-- A context that gives an enabled policy no reason to deny it. -/
def openContext (p : Policy) (source transport : Text) : Mapping :=
  [("risk_score", .int 0), ("managed_device", .bool true), ("device_compliant", .bool true),
    ("mfa_verified", .bool true), ("network_trust", .string (p.allowedNetworkTrust.headD [])),
    ("auth_age_seconds", .int 0), ("source_ip", .string source),
    ("permissions", .sequence p.requiredPermissions []),
    ("worker_id", .string (p.allowedWorkerIds.headD [])),
    ("server_id", .string (p.allowedServerIds.headD [])), ("via_server_relay", .bool true),
    ("transport", .string transport)]

theorem headD_mem {l : List Text} (h : l ≠ []) : l.headD [] ∈ l := by
  obtain ⟨a, l, rfl⟩ := List.exists_cons_of_ne_nil h
  exact List.mem_cons_self

theorem exists_source (normal : p.Normal py ip) : ∃ source, p.allowedSourceCidrs ≠ [] →
    sourceAllowed ip source p.allowedSourceCidrs = true := by
  by_cases restricted : p.allowedSourceCidrs = []
  · exact ⟨[], fun h => absurd restricted h⟩
  · have first := headD_mem restricted
    obtain ⟨n, network, -⟩ := normal.networks _ first
    obtain ⟨source, address, stripped, read, inside⟩ := ip.inhabited _ n network
    refine ⟨source, fun h => (sourceAllowed_iff h).mpr ⟨address, ?_, _, first, n, network, inside⟩⟩
    rw [stripped]
    exact read

theorem admits_openContext (normal : p.Normal py ip) {source transport : Text}
    (from_source : p.allowedSourceCidrs ≠ [] →
      sourceAllowed ip source p.allowedSourceCidrs = true)
    (over_transport : p.requiredTransport ≠ [] →
      casefold py (strip transport) = p.requiredTransport) :
    p.Admits py ip (openContext p source transport) where
  risk := normal.risk.1
  managedDevice := fun _ => rfl
  compliantDevice := fun _ => rfl
  mfa := fun _ => rfl
  networkTrust := by
    have first := headD_mem normal.some_trust
    obtain ⟨stripped, nonempty⟩ := normal.trust.2 _ first
    have read : trustOf py (openContext p source transport) = p.allowedNetworkTrust.headD [] := by
      show (if casefold py (strip (p.allowedNetworkTrust.headD [])) = [] then _ else _) = _
      rw [stripped, normal.folded _ first, if_neg nonempty]
      show casefold py (strip (p.allowedNetworkTrust.headD [])) = _
      rw [stripped, normal.folded _ first]
    rw [read]
    exact first
  authAge := normal.age.1
  source := from_source
  permissions := by
    refine ⟨p.requiredPermissions, congrArg some ?_, fun _ => id⟩
    exact List.filter_eq_self.mpr fun e he => decide_eq_true (normal.permissions.2 e he).2
  worker := headD_mem
  server := headD_mem
  serverRelay := fun _ => rfl
  peerToPeer := fun _ => rfl
  transport := over_transport

theorem Kept.of_satisfies (parsed : fromMapping py ip m = some p)
    (closed : ∀ c, p.Admits py ip c → Satisfies py ip m c) : Kept py ip m := by
  have normal := fromMapping_normal parsed
  obtain ⟨source, from_source⟩ := exists_source normal
  have admits : ∀ transport, (p.requiredTransport ≠ [] →
      casefold py (strip transport) = p.requiredTransport) →
      Satisfies py ip m (openContext p source transport) :=
    fun transport h => closed _ (admits_openContext normal from_source h)
  have read : ∀ e ∈ transports, casefold py (strip e) = e := by
    intro e he
    have stripped : ∀ e ∈ transports, strip e = e := by decide +kernel
    rw [stripped e he, casefold_lower (folded_transports e he)]
  have required : ∀ e ∈ transports, p.requiredTransport = e →
      Satisfies py ip m (openContext p source e) :=
    fun e he same => admits e fun _ => (read e he).trans same.symm
  have some_context : ∃ transport, Satisfies py ip m (openContext p source transport) := by
    rcases normal.transport with free | listed
    · exact ⟨[], admits [] fun h => absurd free h⟩
    · exact ⟨_, required _ listed rfl⟩
  obtain ⟨transport, s⟩ := some_context
  refine ⟨?_, ?_, ?_, ?_, ?_, ?_, ?_, ?_⟩
  · intro value here
    obtain ⟨e, entry, -⟩ := s.networkTrust value here
    exact ⟨e, entry⟩
  · exact fun value n here number => s.risk value n here number
  · intro value n here number
    obtain ⟨seen, age, found, known, bound⟩ := s.authAge value n here number
    omega
  · intro value here stated
    obtain ⟨e, network, -, entry, valid, -⟩ := s.source value here stated
    exact ⟨e, network, entry, valid⟩
  · exact fun value here stated => (s.permissions value here stated).1
  · exact fun value here stated => ⟨_, s.worker value here stated⟩
  · exact fun value here stated => ⟨_, s.server value here stated⟩
  · intro value here stated
    rcases normal.transport with free | listed
    · -- Without a requirement two transports are admitted, and the mapping names at most one.
      have first := (admits "tls13".toList fun h => absurd free h).transport value here stated
      have second := (admits "tls12".toList fun h => absurd free h).transport value here stated
      have same : casefold py (strip "tls13".toList) = casefold py (strip "tls12".toList) :=
        first.trans second.symm
      rw [read _ (by decide), read _ (by decide)] at same
      exact absurd same (by decide +kernel)
    · have named := (required _ listed rfl).transport value here stated
      rw [show textOf (openContext p source p.requiredTransport) "transport" =
        p.requiredTransport from rfl, read _ listed] at named
      exact named ▸ listed

end Parsing

/-- The built-ins on lower-case texts that are no numbers. -/
def lowerBuiltins : Builtins where
  fold c := [c]
  parseInt _ := none
  listText items :=
    '[' :: List.intercalate ", ".toList (items.map fun item => '\'' :: item ++ ['\'']) ++ [']']
  fold_fold _ := rfl
  fold_ne_nil _ := List.cons_ne_nil _ _
  fold_space _ h _ hd := List.mem_singleton.mp hd ▸ h
  fold_lower _ _ := rfl

/-- One network, an address in it and one outside. -/
def oneNetwork : IpAddress where
  Network := Unit
  Address := Bool
  ipNetwork s := if s = "10.0.0.0/8".toList then some () else none
  ipAddress s :=
    if s = "10.0.0.1".toList then some true
    else if s = "203.0.113.20".toList then some false else none
  text _ := "10.0.0.0/8".toList
  contains _ inside := inside
  network_text _ _ _ := if_pos rfl
  text_plain _ _ _ := by decide
  inhabited _ _ _ := ⟨"10.0.0.1".toList, true, by decide, if_pos rfl, rfl⟩

def sourcePolicy (cidr : String) : Mapping :=
  [("enabled", .bool true), ("allowed_source_cidrs", .sequence [cidr.toList] (lowerBuiltins.listText [cidr.toList]))]

def sourceContext (source : String) : Mapping :=
  [("risk_score", .int 0), ("auth_age_seconds", .int 0), ("source_ip", .string source.toList)]

theorem sourcePolicy_kept : Kept lowerBuiltins oneNetwork (sourcePolicy "10.0.0.0/8") where
  networkTrust := nofun
  risk := nofun
  authAge := nofun
  source := fun value here _ => by
    cases here
    exact ⟨"10.0.0.0/8".toList, (), ⟨_, rfl, _, List.mem_cons_self, by decide⟩, rfl⟩
  permissions := nofun
  worker := nofun
  server := nofun
  transport := nofun

/-- The policy of one network and no other restriction. -/
def oneNetworkPolicy : Policy :=
  { enabled := true, requireManagedDevice := false, requireCompliantDevice := false,
    requireMfa := false, allowedNetworkTrust := sortedSet defaultNetworkTrust,
    maxRiskScore := 100, maxAuthAgeSeconds := 86400,
    allowedSourceCidrs := ["10.0.0.0/8".toList], requiredPermissions := [],
    allowedWorkerIds := [], allowedServerIds := [], requireServerRelay := false,
    denyPeerToPeer := false, requiredTransport := [] }

end Arenyxa.ZeroTrust
