import Arenyxa.Security.Kernel

/-! The verdict of the rules: it does not depend on their order, and another deny rule only denies more. -/

namespace Arenyxa.Security

variable {V : Type} {lib : Library V}

/-- A decision was made, and it allows. -/
def Allows (result : Except String AuthorizationDecision) : Prop :=
  ∃ decision, result = .ok decision ∧ decision.allowed

def flag (result : Except String AuthorizationDecision) : Option Bool :=
  result.toOption.map AuthorizationDecision.allowed

theorem allows_iff_flag {result : Except String AuthorizationDecision} : Allows result ↔ flag result = some true := by
  rcases result with e | decision
  · exact iff_of_false (fun allows => nomatch allows) nofun
  · exact ⟨fun ⟨_, its, allowed⟩ => Except.ok.inj its ▸ congrArg some allowed,
      fun its => ⟨_, rfl, Option.some.inj its⟩⟩

theorem flag_ext : ∀ a b : Option Bool, (a = some true ↔ b = some true) → (a = none ↔ b = none) → a = b := by
  rintro (_ | _ | _) (_ | _ | _) <;> simp

/-- The rule is one of the domain, and its patterns and conditions match. -/
structure Applies (lib : Library V) (question : Question V) (rule : PolicyRule V) : Prop where
  trustDomain : rule.trustDomain = question.trustDomain
  capability : ∃ pat ∈ rule.capabilities, fnmatchcase question.capability pat = true
  resource : ∃ pat ∈ rule.resources, fnmatchcase question.resource pat = true
  conditions : conditionsMatch lib question.context rule.conditions = .ok true

theorem ruleMatches_iff {question : Question V} {rule : PolicyRule V} :
    ruleMatches lib question rule = .ok true ↔ Applies lib question rule := by
  unfold ruleMatches
  constructor
  · intro its
    split at its
    next => cases its
    next domain =>
      split at its
      next => cases its
      next capability =>
        split at its
        next => cases its
        next resource =>
          refine ⟨not_not.mp domain, ?_, ?_, its⟩
          · simpa using capability
          · simpa using resource
  · rintro ⟨domain, capability, resource, conditions⟩
    rw [if_neg (not_not.mpr domain), if_neg (by simpa using capability), if_neg (by simpa using resource), conditions]

/-- Every rule has a verdict, one that applies allows, and none that applies denies. -/
structure Admits (lib : Library V) (question : Question V) (rules : List (PolicyRule V)) : Prop where
  settled : ∀ rule ∈ rules, ∃ verdict, ruleMatches lib question rule = .ok verdict
  allowing : ∃ rule ∈ rules, Applies lib question rule ∧ rule.effect = .allow
  denying : ∀ rule ∈ rules, Applies lib question rule → rule.effect ≠ .deny

theorem Admits.of_subset {question : Question V} {rules rules' : List (PolicyRule V)}
    (admits : Admits lib question rules) (fewer : rules' ⊆ rules)
    (allowing : ∀ rule ∈ rules, rule.effect = .allow → rule ∈ rules') : Admits lib question rules' where
  settled rule mem := admits.settled rule (fewer mem)
  allowing := by
    obtain ⟨rule, mem, applies, effect⟩ := admits.allowing
    exact ⟨rule, allowing rule mem effect, applies, effect⟩
  denying rule mem := admits.denying rule (fewer mem)

theorem matched_cases (question : Question V) (rules : List (PolicyRule V)) :
    (∃ e, matched lib question rules = .error e ∧
      ¬∀ rule ∈ rules, ∃ verdict, ruleMatches lib question rule = .ok verdict) ∨
    ∃ allow deny, matched lib question rules = .ok (allow, deny) ∧
      (∀ rule ∈ rules, ∃ verdict, ruleMatches lib question rule = .ok verdict) ∧
      (allow ≠ [] ↔ ∃ rule ∈ rules, Applies lib question rule ∧ rule.effect = .allow) ∧
      (deny ≠ [] ↔ ∃ rule ∈ rules, Applies lib question rule ∧ rule.effect = .deny) := by
  induction rules with
  | nil => exact .inr ⟨[], [], rfl, by simp⟩
  | cons rule rules ih =>
    unfold matched
    rcases verdict : ruleMatches lib question rule with e | applies
    · exact .inl ⟨e, rfl, fun all => by
        obtain ⟨_, its⟩ := all rule List.mem_cons_self
        rw [verdict] at its
        cases its⟩
    rcases ih with ⟨e, failed, unsettled⟩ | ⟨allow, deny, found, settled, allowing, denying⟩
    · rw [failed]
      exact .inl ⟨e, rfl, fun all => unsettled fun r mem => all r (List.mem_cons_of_mem rule mem)⟩
    rw [found]
    have all : ∀ r ∈ rule :: rules, ∃ verdict, ruleMatches lib question r = .ok verdict :=
      List.forall_mem_cons.mpr ⟨⟨applies, verdict⟩, settled⟩
    cases applies with
    | false =>
      have apart : ¬Applies lib question rule := fun its => by
        rw [ruleMatches_iff.2 its] at verdict
        cases verdict
      refine .inr ⟨allow, deny, rfl, all, ?_, ?_⟩
      · rw [allowing, List.exists_mem_cons_iff]
        exact (or_iff_right fun its => apart its.1).symm
      · rw [denying, List.exists_mem_cons_iff]
        exact (or_iff_right fun its => apart its.1).symm
    | true =>
      have its := ruleMatches_iff.1 verdict
      rcases effect : rule.effect with _ | _
      · refine .inr ⟨rule.id :: allow, deny, rfl, all, ?_, ?_⟩
        · exact iff_of_true (List.cons_ne_nil _ _) ⟨rule, List.mem_cons_self, its, effect⟩
        · rw [denying, List.exists_mem_cons_iff]
          exact (or_iff_right fun here => by rw [effect] at here; cases here.2).symm
      · refine .inr ⟨allow, rule.id :: deny, rfl, all, ?_, ?_⟩
        · rw [allowing, List.exists_mem_cons_iff]
          exact (or_iff_right fun here => by rw [effect] at here; cases here.2).symm
        · exact iff_of_true (List.cons_ne_nil _ _) ⟨rule, List.mem_cons_self, its, effect⟩

section Evaluated

variable {rules rules' : List (PolicyRule V)} {granted : List String} {question : Question V}

theorem evaluate_allows_iff :
    Allows (evaluate lib rules granted question) ↔ question.capability ∈ granted ∧ Admits lib question rules := by
  rw [allows_iff_flag]
  unfold evaluate
  split
  next absent => exact iff_of_false nofun fun its => absent its.1
  next carried =>
    rw [and_iff_right (not_not.mp carried)]
    rcases @matched_cases V lib question rules with
      ⟨e, failed, unsettled⟩ | ⟨allow, deny, found, settled, allowing, denying⟩
    · rw [failed]
      exact iff_of_false nofun fun admits => unsettled admits.settled
    · rw [found]
      dsimp only
      split
      next denied =>
        obtain ⟨rule, mem, applies, effect⟩ := denying.mp denied
        exact iff_of_false nofun fun admits => admits.denying rule mem applies effect
      next free =>
        have none : ∀ rule ∈ rules, Applies lib question rule → rule.effect ≠ .deny := fun rule mem applies effect =>
          free (denying.mpr ⟨rule, mem, applies, effect⟩)
        split
        next some => exact iff_of_true rfl ⟨settled, allowing.mp some, none⟩
        next nothing => exact iff_of_false nofun fun admits => nothing (allowing.mpr admits.allowing)

theorem evaluate_error_iff : flag (evaluate lib rules granted question) = none ↔
    question.capability ∈ granted ∧ ¬∀ rule ∈ rules, ∃ verdict, ruleMatches lib question rule = .ok verdict := by
  unfold evaluate
  split
  next absent => exact iff_of_false nofun fun its => absent its.1
  next carried =>
    rw [and_iff_right (not_not.mp carried)]
    rcases @matched_cases V lib question rules with ⟨e, failed, unsettled⟩ | ⟨allow, deny, found, settled, _, _⟩
    · rw [failed]
      exact iff_of_true rfl unsettled
    · rw [found]
      refine iff_of_false ?_ (not_not.mpr settled)
      dsimp only
      split_ifs <;> nofun

theorem evaluate_flag_congr (same : ∀ rule, rule ∈ rules ↔ rule ∈ rules') :
    flag (evaluate lib rules granted question) = flag (evaluate lib rules' granted question) := by
  have admits : Admits lib question rules ↔ Admits lib question rules' :=
    ⟨fun its => its.of_subset (fun _ mem => (same _).mpr mem) fun _ mem _ => (same _).mp mem,
      fun its => its.of_subset (fun _ mem => (same _).mp mem) fun _ mem _ => (same _).mpr mem⟩
  have true_iff : flag (evaluate lib rules granted question) = some true ↔
      flag (evaluate lib rules' granted question) = some true := by
    rw [← allows_iff_flag, ← allows_iff_flag, evaluate_allows_iff, evaluate_allows_iff, admits]
  have none_iff : flag (evaluate lib rules granted question) = none ↔
      flag (evaluate lib rules' granted question) = none := by
    rw [evaluate_error_iff, evaluate_error_iff]
    simp only [same]
  exact flag_ext _ _ true_iff none_iff

end Evaluated

section Adding

variable {rules rules' added : List (PolicyRule V)} {rule : PolicyRule V}

theorem add_eq (done : add rules rule = .ok rules') : rules'.Perm (rules ++ [rule]) := by
  unfold add at done
  split at done
  next => cases done
  next =>
    split at done
    next => cases done
    next =>
      cases done
      exact List.perm_insertionSort before _

theorem add_ok_iff : (∃ rules', add rules rule = .ok rules') ↔
    (rule.capabilities ≠ [] ∧ rule.resources ≠ []) ∧ rule.id ∉ rules.map PolicyRule.id := by
  unfold add
  rw [← not_or]
  split
  next nameless => exact iff_of_false nofun fun its => its.1 nameless
  next named =>
    rw [and_iff_right named]
    split
    next known => exact iff_of_false nofun fun its => its known
    next new => exact iff_of_true ⟨_, rfl⟩ new

/-- The rules added one after the other. -/
def addAll (rules : List (PolicyRule V)) : List (PolicyRule V) → Except String (List (PolicyRule V))
  | [] => .ok rules
  | rule :: more =>
    match add rules rule with
    | .error e => .error e
    | .ok rules' => addAll rules' more

/-- The rules that can be added are those with patterns and with new ids of their own. -/
def Addable (rules more : List (PolicyRule V)) : Prop :=
  (∀ rule ∈ more, (rule.capabilities ≠ [] ∧ rule.resources ≠ []) ∧ rule.id ∉ rules.map PolicyRule.id) ∧
    (more.map PolicyRule.id).Nodup

theorem Addable.perm {more more' : List (PolicyRule V)} (addable : Addable rules more) (perm : more.Perm more') :
    Addable rules more' :=
  ⟨fun rule mem => addable.1 rule (perm.mem_iff.mpr mem), (perm.map _).nodup_iff.mp addable.2⟩

theorem addAll_eq {more : List (PolicyRule V)} (done : addAll rules more = .ok added) :
    added.Perm (rules ++ more) := by
  induction more generalizing rules with
  | nil =>
    cases done
    rw [List.append_nil]
  | cons rule more ih =>
    unfold addAll at done
    split at done
    next => cases done
    next rules' here =>
      have step := (ih done).trans ((add_eq here).append_right more)
      rwa [List.append_assoc] at step

theorem addable_cons {more : List (PolicyRule V)} (done : add rules rule = .ok rules') :
    Addable rules (rule :: more) ↔ Addable rules' more := by
  obtain ⟨named, new⟩ := add_ok_iff.1 ⟨rules', done⟩
  have ids : ∀ id, id ∈ rules'.map PolicyRule.id ↔ id ∈ rules.map PolicyRule.id ∨ id = rule.id := by
    intro id
    rw [((add_eq done).map _).mem_iff, List.map_append, List.mem_append]
    exact or_congr_right List.mem_singleton
  unfold Addable
  rw [List.forall_mem_cons, List.map_cons, List.nodup_cons]
  constructor
  · rintro ⟨⟨_, rest⟩, apart, nodup⟩
    refine ⟨fun r mem => ⟨(rest r mem).1, fun known => ?_⟩, nodup⟩
    rcases (ids r.id).mp known with old | own
    · exact (rest r mem).2 old
    · exact apart (own ▸ List.mem_map_of_mem mem)
  · rintro ⟨rest, nodup⟩
    refine ⟨⟨⟨named, new⟩, fun r mem => ⟨(rest r mem).1, fun known => ?_⟩⟩, fun known => ?_, nodup⟩
    · exact (rest r mem).2 ((ids r.id).mpr (.inl known))
    · obtain ⟨r, mem, own⟩ := List.mem_map.mp known
      exact (rest r mem).2 ((ids r.id).mpr (.inr own))

theorem addAll_ok_iff {more : List (PolicyRule V)} :
    (∃ added, addAll rules more = .ok added) ↔ Addable rules more := by
  induction more generalizing rules with
  | nil => exact iff_of_true ⟨rules, rfl⟩ ⟨fun _ mem => (nomatch mem), List.nodup_nil⟩
  | cons rule more ih =>
    unfold addAll
    rcases done : add rules rule with e | rules'
    · refine iff_of_false nofun fun addable => ?_
      obtain ⟨_, ran⟩ := add_ok_iff.2 (addable.1 rule List.mem_cons_self)
      rw [done] at ran
      cases ran
    · exact ih.trans (addable_cons done).symm

end Adding

end Arenyxa.Security
