import Arenyxa.Network.Guard

/-! Which addresses the guard hands out under a policy. -/

namespace Arenyxa.Network

section Denotation

variable (casefold : Char → Text) (p : Policy)

/-- The address denoted is one that the protected hosts name. -/
def Policy.Protects (a : Address) : Prop :=
  ∃ host ∈ p.protectedHosts, ∃ named, ipAddress (normalizedHost casefold host) = some named ∧
    named.denoted = a

/-- What the policy says no candidate may denote. -/
def Policy.Forbids (a : Address) : Prop :=
  (p.blockCloudMetadata ∧ p.Protects casefold a) ∨
    (p.blockUnspecifiedOrMulticast ∧ (a.isUnspecified ∨ a.isMulticast)) ∨
    (p.blockPrivateOrLoopback ∧ (a.isPrivate ∨ a.isLoopback ∨ a.isLinkLocal))

def Candidate.denoted : Candidate → Option Address
  | .address a => some a.denoted
  | .host text => (ipAddress text).map Address.denoted

/-- The protected hosts that are addresses are written as `str` writes them. -/
def Policy.Canonical : Prop :=
  ∀ host ∈ p.protectedHosts, ∀ named, ipAddress (normalizedHost casefold host) = some named →
    named.veiled = false ∧ normalizedHost casefold host = named.text.flatMap casefold

/-- The addresses that the host or the resolver gives pass the check. -/
def Policy.Passes (host : Text) (addresses : List Address) : Prop :=
  ∀ a ∈ addresses, p.objection casefold (normalizedHost casefold host) a = none

/-- The condition: a protected address that is veiled, or that the policy spells in another way, comes
with an address that is refused, and a guard that is switched off is not asked for an address that
the policy forbids. -/
def Policy.Unveiled (host : Text) (answer : Option (List Address)) : Prop :=
  if p.enabled then
    p.blockCloudMetadata → ∀ addresses, p.resolve casefold host answer = .ok addresses →
      ∀ a ∈ addresses, a.veiled ∨ ¬ p.Canonical casefold → p.Protects casefold a.denoted →
        ¬ p.Passes casefold host addresses
  else ∀ a, ipAddress host = some a → ¬ p.Forbids casefold a.denoted

/-- No candidate that is handed out, whatever the state of the guard and the clock, denotes a
forbidden address. -/
def Policy.Safe (host : Text) (answer : Option (List Address)) : Prop :=
  ∀ (g : Guard) (now : Int) (candidates : List Candidate),
    (g.connectionCandidates p casefold host answer now).2 = .ok candidates →
      ∀ c ∈ candidates, ∀ a, c.denoted = some a → ¬ p.Forbids casefold a

end Denotation

section Checks

variable {casefold : Char → Text} {p : Policy} {host : Text} {answer : Option (List Address)}

theorem validateAddresses_ok {normalized : Text} {addresses : List Address} :
    p.validateAddresses casefold normalized addresses = .ok () ↔
      ∀ a ∈ addresses, p.objection casefold normalized a = none := by
  rw [Policy.validateAddresses, ← List.findSome?_eq_none_iff]
  cases addresses.findSome? (p.objection casefold normalized) with
  | none => exact ⟨fun _ => rfl, fun _ => rfl⟩
  | some refusal => exact ⟨nofun, nofun⟩

theorem candidates_ok {addresses : List Address} : p.candidates casefold host answer = .ok addresses ↔
    p.resolve casefold host answer = .ok addresses ∧ p.Passes casefold host addresses := by
  rw [Policy.Passes, ← validateAddresses_ok, Policy.candidates]
  cases p.resolve casefold host answer with
  | error refusal => exact ⟨nofun, fun h => by cases h.1⟩
  | ok found =>
    show (do p.validateAddresses casefold (normalizedHost casefold host) found; return found) = _ ↔ _
    constructor
    · intro h
      cases checked : p.validateAddresses casefold (normalizedHost casefold host) found with
      | error refusal =>
        rw [checked] at h
        cases h
      | ok _ =>
        rw [checked] at h
        cases h
        exact ⟨rfl, checked⟩
    · rintro ⟨same, checked⟩
      cases same
      rw [checked]
      rfl

theorem objection_none {normalized : Text} {a : Address}
    (h : p.objection casefold normalized a = none) :
    (p.blockCloudMetadata → p.protectedName casefold (a.text.flatMap casefold) = false) ∧
      (p.blockUnspecifiedOrMulticast → a.isUnspecified = false ∧ a.isMulticast = false) ∧
      (p.blockPrivateOrLoopback →
        a.isPrivate = false ∧ a.isLoopback = false ∧ a.isLinkLocal = false) := by
  rw [Policy.objection] at h
  split at h
  next => cases h
  next metadata =>
    split at h
    next => cases h
    next special =>
      split at h
      next => cases h
      next secluded =>
        refine ⟨fun on => ?_, fun on => by simpa [on] using special,
          fun on => by simpa [on, and_assoc] using secluded⟩
        have unnamed : p.protectedAddress casefold normalized a = false := by simpa [on] using metadata
        exact (Bool.or_eq_false_iff.mp unnamed).2

theorem protectedName_of_protects {a : Address} (canonical : p.Canonical casefold)
    (plain : a.veiled = false) (h : p.Protects casefold a.denoted) :
    p.protectedName casefold (a.text.flatMap casefold) = true := by
  obtain ⟨protectedHost, mem, named, found, same⟩ := h
  obtain ⟨unveiled, spelled⟩ := canonical protectedHost mem named found
  have own : ∀ b : Address, b.veiled = false → b.denoted = b := fun b h => by
    simpa [Address.veiled] using h
  rw [own a plain, own named unveiled] at same
  subst same
  rw [Policy.protectedName, ← spelled, List.contains_iff_mem]
  exact List.mem_map_of_mem mem

theorem Policy.Passes.forbids {addresses : List Address} (h : p.Passes casefold host addresses)
    {a : Address} (mem : a ∈ addresses) (forbidden : p.Forbids casefold a.denoted) :
    p.blockCloudMetadata = true ∧ p.Protects casefold a.denoted ∧
      (a.veiled = true ∨ ¬ p.Canonical casefold) := by
  obtain ⟨unnamed, ordinary, distant⟩ := objection_none (h a mem)
  rcases forbidden with ⟨on, names⟩ | ⟨on, special⟩ | ⟨on, secluded⟩
  · refine ⟨on, names, ?_⟩
    by_contra plain
    obtain ⟨unveiled, canonical⟩ := not_or.mp plain
    have named := protectedName_of_protects (not_not.mp canonical) (eq_false_of_ne_true unveiled) names
    cases (unnamed on).symm.trans named
  · obtain ⟨specified, unicast⟩ := ordinary on
    rcases special with h | h
    · cases specified.symm.trans ((Address.judged_denoted _ _ a).symm.trans h)
    · cases unicast.symm.trans ((Address.judged_denoted _ _ a).symm.trans h)
  · obtain ⟨«public», outside, routed⟩ := distant on
    rcases secluded with h | h | h
    · cases «public».symm.trans ((Address.judged_denoted _ _ a).symm.trans h)
    · cases outside.symm.trans ((Address.judged_denoted _ _ a).symm.trans h)
    · cases routed.symm.trans ((Address.judged_denoted _ _ a).symm.trans h)

theorem created_admits (valid : p.Valid) (key : Text) :
    ((Guard.created 0).admitHost p key 0).2 = .ok () := by
  have unrolled : (Guard.created 0).rollWindows p 0 = Guard.created 0 := rfl
  have fresh : ¬ p.maxDistinctTargetsPerMinute ≤ (Guard.created 0).fanout.count :=
    Nat.not_le.mpr valid.distinct.1
  have space : ¬ p.maxTrackedTargets ≤ (Guard.created 0).targets.rows.length :=
    Nat.not_le.mpr (valid.distinct.1.trans valid.tracked.1)
  have roomy : (Guard.created 0).makeRoom p 0 = Guard.created 0 := by
    rw [Guard.makeRoom, if_neg space]
  have tracked : (Guard.created 0).track p key 0 =
      ((Guard.created 0).addTarget key 0, .ok (.fresh 0)) := by
    show (if _ then _ else if _ then _ else _) = _
    rw [if_neg fresh, roomy, if_neg space]
  have idle : ((Guard.created 0).addTarget key 0).full p = false :=
    Bool.or_eq_false_iff.mpr ⟨decide_eq_false (Nat.not_le.mpr valid.concurrent.1),
      decide_eq_false (Nat.not_le.mpr valid.global.1)⟩
  rw [Guard.admitHost, unrolled, tracked]
  rcases ((Guard.created 0).addTarget key 0).charge_cases p key (.fresh 0) 0 with
    ⟨refusal, -, full | often⟩ | ⟨-, -, same⟩
  · cases idle.symm.trans full
  · exact absurd often (Nat.not_le.mpr valid.target.1)
  · show (Guard.charge p ((Guard.created 0).addTarget key 0) key (.fresh 0) 0).2 = .ok ()
    rw [same]

theorem safe_iff_of_enabled (valid : p.Valid) (enabled : p.enabled = true) :
    p.Safe casefold host answer ↔
      ∀ addresses, p.candidates casefold host answer = .ok addresses →
        ∀ a ∈ addresses, ¬ p.Forbids casefold a.denoted := by
  constructor
  · intro safe addresses found a mem
    refine safe (.created 0) 0 (addresses.map .address) ?_ (.address a) (List.mem_map_of_mem mem) _ rfl
    have admitted := created_admits valid (normalizedHost casefold host)
    rw [Guard.connectionCandidates, enabled, found]
    rcases h : (Guard.created 0).admitHost p (normalizedHost casefold host) 0 with ⟨g, outcome⟩
    rw [h] at admitted
    cases admitted
    simp only [Bool.not_true, Bool.false_eq_true, if_false]
  · intro safe g now candidates granted c mem a denotes
    rw [Guard.connectionCandidates, enabled] at granted
    cases found : p.candidates casefold host answer with
    | error refusal =>
      rw [found] at granted
      cases granted
    | ok addresses =>
      rw [found] at granted
      simp only [Bool.not_true, Bool.false_eq_true, if_false] at granted
      rcases h : g.admitHost p (normalizedHost casefold host) now with ⟨g', refusal | _⟩
      · rw [h] at granted
        cases granted
      · rw [h] at granted
        cases granted
        obtain ⟨b, given, rfl⟩ := List.mem_map.mp mem
        cases denotes
        exact safe addresses found b given

end Checks

end Arenyxa.Network
