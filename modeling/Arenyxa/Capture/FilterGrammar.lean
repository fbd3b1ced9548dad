import Arenyxa.Capture.FilterTokens

/-! The grammar of the filter language, and what of it the parser accepts. -/

namespace Arenyxa.Capture.Filter

open Outcome Registry

section Trees

mutual

inductive Literal
  | token (t : Token)
  | list (items : Items)

/-- The items of a list, each with the comma or the bracket behind it. -/
inductive Items
  | nil
  | last (item : Literal)
  | comma (item : Literal) (rest : Items)

end

mutual

inductive Disjunction
  | one (c : Conjunction)
  | or (c : Conjunction) (rest : Disjunction)

inductive Conjunction
  | one (f : Factor)
  | and (f : Factor) (rest : Conjunction)

inductive Factor
  | group (inner : Disjunction)
  | comparison (field operator : Token) (expected : Literal)

end

def punct (s : String) : Token := ⟨.word, text s⟩

mutual

def Literal.tokens : Literal → List Token
  | .token t => [t]
  | .list items => punct "[" :: items.tokens

def Items.tokens : Items → List Token
  | .nil => [punct "]"]
  | .last item => item.tokens ++ [punct "]"]
  | .comma item rest => item.tokens ++ punct "," :: rest.tokens

end

mutual

def Disjunction.tokens : Disjunction → List Token
  | .one c => c.tokens
  | .or c rest => c.tokens ++ punct "||" :: rest.tokens

def Conjunction.tokens : Conjunction → List Token
  | .one f => f.tokens
  | .and f rest => f.tokens ++ punct "&&" :: rest.tokens

def Factor.tokens : Factor → List Token
  | .group inner => punct "(" :: (inner.tokens ++ [punct ")"])
  | .comparison field operator expected => field :: operator :: expected.tokens

end

/-- A word that is no punctuation. -/
def Token.isName (t : Token) : Prop := t.kind = .word ∧ t.value ∉ punctuation

mutual

/-- The literals of the grammar. -/
def Literal.Proper : Literal → Prop
  | .token t => t.kind = .number ∨ (t.kind = .string ∧ (loads t.value).isSome) ∨ t.isName
  | .list items => items.Proper

def Items.Proper : Items → Prop
  | .nil => True
  | .last item => item.Proper
  | .comma item rest => item.Proper ∧ rest ≠ .nil ∧ rest.Proper

end

mutual

/-- The expressions of the grammar. -/
def Disjunction.Proper : Disjunction → Prop
  | .one c => c.Proper
  | .or c rest => c.Proper ∧ rest.Proper

def Conjunction.Proper : Conjunction → Prop
  | .one f => f.Proper
  | .and f rest => f.Proper ∧ rest.Proper

def Factor.Proper : Factor → Prop
  | .group inner => inner.Proper
  | .comparison field operator expected =>
    field.isName ∧ (supportedOperators.lookup operator.value).isSome ∧ expected.Proper

end

/-- The expressions of the filter language, by the grammar. -/
def InGrammar (py : Builtins) (s : Text) : Prop :=
  ∃ (tree : Disjunction) (behind : Text), Lexes py s tree.tokens behind ∧ tree.Proper

mutual

/-- The literals that the parser reads: any token, and a comma behind the last item too. -/
def Literal.Read : Literal → Prop
  | .token t => ¬((t.kind = .op ∨ t.kind = .word) ∧ t.value = text "[")
  | .list items => items.Read

def Items.Read : Items → Prop
  | .nil => True
  | .last item => item.Read ∧ peek "]" item.tokens = false
  | .comma item rest => (item.Read ∧ peek "]" item.tokens = false) ∧ rest.Read

end

mutual

/-- The expressions that the parser reads: any token is a field, but for a parenthesis. -/
def Disjunction.Read : Disjunction → Prop
  | .one c => c.Read
  | .or c rest => c.Read ∧ rest.Read

def Conjunction.Read : Conjunction → Prop
  | .one f => f.Read
  | .and f rest => f.Read ∧ rest.Read

def Factor.Read : Factor → Prop
  | .group inner => inner.Read
  | .comparison field operator expected =>
    field.value ≠ text "(" ∧ (supportedOperators.lookup operator.value).isSome ∧ expected.Read

end

variable (py : Builtins)

mutual

/-- The value of a literal, where `int` and `json.loads` have one. -/
def Literal.value : Literal → Option Json
  | .token t => (convert py t).toOption
  | .list items => items.values.map .arr

def Items.values : Items → Option (List Json)
  | .nil => some []
  | .last item => item.value.map fun value => [value]
  | .comma item rest => item.value.bind fun value => rest.values.map fun values => value :: values

end

mutual

def Disjunction.Converts : Disjunction → Prop
  | .one c => c.Converts
  | .or c rest => c.Converts ∧ rest.Converts

def Conjunction.Converts : Conjunction → Prop
  | .one f => f.Converts
  | .and f rest => f.Converts ∧ rest.Converts

def Factor.Converts : Factor → Prop
  | .group inner => inner.Converts
  | .comparison _ _ expected => (expected.value py).isSome

end

mutual

/-- The truth value of a tree, from the left as far as it matters. -/
def Disjunction.eval : Disjunction → Predicate
  | .one c, event => c.eval event
  | .or c rest, event => do
    if ← c.eval event then return true else rest.eval event

def Conjunction.eval : Conjunction → Predicate
  | .one f, event => f.eval event
  | .and f rest, event => do
    if ← f.eval event then rest.eval event else return false

def Factor.eval : Factor → Predicate
  | .group inner, event => inner.eval event
  | .comparison field operator expected, event =>
    match supportedOperators.lookup operator.value, expected.value py with
    | some op, some value => evaluate py op (event.field field.value) value
    | _, _ => .error .typeError

end

end Trees

section Parsing

variable {py : Builtins} {fuel : Nat} {tokens rest : List Token} {t : Token}

theorem token_eq_punct {s : String} (lexeme : Lexeme py t) (value : t.value = text s) (mem : text s ∈ punctuation) : t = punct s := by
  obtain ⟨c, after, head, kind, -⟩ := lexeme_head lexeme
  obtain ⟨c', after', head', small, other, no_quote, op, -⟩ := punctuation_head (text s) mem
  rw [value, head'] at head
  obtain ⟨rfl, -⟩ := List.cons.inj head
  rw [kindOf, not_isDigit small other, if_neg Bool.false_ne_true, if_neg no_quote, if_neg op] at kind
  obtain ⟨kind', value'⟩ := t
  rw [punct, Token.mk.injEq]
  exact ⟨kind.symm, value⟩

theorem peek_cons {s : String} : peek s (t :: tokens) = true ↔ t.value = text s := by
  rw [peek, List.head?_cons, Option.any_some, beq_iff_eq]

theorem exists_of_peek {s : String} (lexemes : ∀ t ∈ tokens, Lexeme py t) (mem : text s ∈ punctuation) (h : peek s tokens = true) :
    tokens = punct s :: tokens.tail := by
  cases tokens with
  | nil => cases h
  | cons t tokens => rw [token_eq_punct (lexemes t List.mem_cons_self) (peek_cons.1 h) mem, List.tail_cons]

theorem take_eq_ok {s : String} (lexemes : ∀ t ∈ tokens, Lexeme py t) (mem : text s ∈ punctuation)
    (h : take s tokens = .ok rest) : tokens = punct s :: rest := by
  cases tokens with
  | nil => cases h
  | cons t tokens =>
    rw [take] at h
    split at h
    next value =>
      obtain rfl := Except.ok.inj h
      rw [token_eq_punct (lexemes t List.mem_cons_self) value mem]
    next => cases h

theorem peek_literal {s : String} {l : Literal} : peek s (l.tokens ++ rest) = peek s l.tokens := by
  cases l <;> rfl

mutual

theorem literal_sound (fuel : Nat) {tokens rest : List Token} {value : Json} (lexemes : ∀ t ∈ tokens, Lexeme py t)
    (h : literal py fuel tokens = .ok (value, rest)) :
    ∃ l : Literal, l.Read ∧ l.value py = some value ∧ tokens = l.tokens ++ rest := by
  cases fuel with
  | zero => cases h
  | succ fuel =>
    cases tokens with
    | nil => cases h
    | cons t tokens =>
      rw [literal] at h
      split at h
      next bracket =>
        have its := token_eq_punct (lexemes t List.mem_cons_self) bracket.2 (by decide)
        obtain ⟨its', read, values, valued, rfl, rfl⟩ := items_sound fuel (fun u mem => lexemes u (List.mem_cons_of_mem _ mem)) h
        refine ⟨.list its', read, ?_, ?_⟩
        · rw [Literal.value, valued]
          rfl
        · rw [its]
          rfl
      next other =>
        obtain ⟨value', converted, same⟩ := bind_eq_ok.mp h
        obtain ⟨rfl, rfl⟩ := Prod.mk.inj (Except.ok.inj same)
        exact ⟨.token t, other, by rw [Literal.value, converted]; rfl, rfl⟩

theorem items_sound (fuel : Nat) {values : List Json} {tokens rest : List Token} {value : Json} (lexemes : ∀ t ∈ tokens, Lexeme py t)
    (h : items py fuel values tokens = .ok (value, rest)) :
    ∃ its : Items, its.Read ∧ ∃ more, its.values py = some more ∧ value = .arr (values ++ more) ∧ tokens = its.tokens ++ rest := by
  cases fuel with
  | zero => cases h
  | succ fuel =>
    rw [items] at h
    split at h
    next closed =>
      obtain ⟨rfl, rfl⟩ := Prod.mk.inj (Except.ok.inj h)
      exact ⟨.nil, trivial, [], rfl, by rw [List.append_nil], exists_of_peek lexemes (by decide) closed⟩
    next opened =>
      obtain ⟨⟨item, behind⟩, first, later⟩ := bind_eq_ok.mp h
      obtain ⟨l, read, valued, rfl⟩ := literal_sound fuel lexemes first
      have behind_lexemes : ∀ t ∈ behind, Lexeme py t := fun t mem => lexemes t (List.mem_append_right _ mem)
      have starts : peek "]" l.tokens = false := by
        rw [peek_literal] at opened
        exact Bool.not_eq_true _ ▸ opened
      dsimp only at later
      split at later
      next comma =>
        have split := exists_of_peek behind_lexemes (by decide) comma
        obtain ⟨its, read', more, valued', rfl, tail⟩ :=
          items_sound fuel (fun t mem => behind_lexemes t (List.mem_of_mem_tail mem)) later
        refine ⟨.comma l its, ⟨⟨read, starts⟩, read'⟩, item :: more, ?_, ?_, ?_⟩
        · rw [Items.values, valued, valued']
          rfl
        · rw [List.append_assoc]
          rfl
        · rw [split, tail, Items.tokens, List.append_assoc, List.cons_append]
      next =>
        split at later
        next closed =>
          cases fuel with
          | zero => cases later
          | succ fuel =>
            rw [items, if_pos closed] at later
            obtain ⟨rfl, rfl⟩ := Prod.mk.inj (Except.ok.inj later)
            refine ⟨.last l, ⟨read, starts⟩, [item], by rw [Items.values, valued]; rfl, rfl, ?_⟩
            rw [Items.tokens, List.append_assoc]
            exact congrArg _ (exists_of_peek behind_lexemes (by decide) closed)
        next => cases later

end

theorem allOf_singleton (f : Predicate) : allOf [f] = f := by
  funext event
  rw [allOf]
  cases f event with
  | error error => rfl
  | ok value => cases value <;> rfl

theorem anyOf_singleton (f : Predicate) : anyOf [f] = f := by
  funext event
  rw [anyOf]
  cases f event with
  | error error => rfl
  | ok value => cases value <;> rfl

variable (py) in
/-- The predicates that `conjunction` collects. -/
def Conjunction.predicates : Conjunction → List Predicate
  | .one f => [f.eval py]
  | .and f rest => f.eval py :: rest.predicates

variable (py) in
def Disjunction.predicates : Disjunction → List Predicate
  | .one c => [c.eval py]
  | .or c rest => c.eval py :: rest.predicates

theorem allOf_predicates (c : Conjunction) : allOf (c.predicates py) = c.eval py := by
  cases c with
  | one f =>
    rw [Conjunction.predicates, allOf_singleton]
    funext event
    rw [Conjunction.eval]
  | and f rest =>
    have ih := allOf_predicates rest
    funext event
    rw [Conjunction.predicates, allOf, Conjunction.eval, ih]

theorem anyOf_predicates (d : Disjunction) : anyOf (d.predicates py) = d.eval py := by
  cases d with
  | one c =>
    rw [Disjunction.predicates, anyOf_singleton]
    funext event
    rw [Disjunction.eval]
  | or c rest =>
    have ih := anyOf_predicates rest
    funext event
    rw [Disjunction.predicates, anyOf, Disjunction.eval, ih]

mutual

theorem factor_sound (fuel : Nat) {tokens rest : List Token} {f : Predicate} (lexemes : ∀ t ∈ tokens, Lexeme py t)
    (h : factor py fuel tokens = .ok (f, rest)) :
    ∃ tree : Factor, tree.Read ∧ tree.Converts py ∧ f = tree.eval py ∧ tokens = tree.tokens ++ rest := by
  cases fuel with
  | zero => cases h
  | succ fuel =>
    rw [factor] at h
    split at h
    next opened =>
      obtain ⟨⟨inner, behind⟩, first, later⟩ := bind_eq_ok.mp h
      obtain ⟨behind', closed, same⟩ := bind_eq_ok.mp later
      obtain ⟨rfl, rfl⟩ := Prod.mk.inj (Except.ok.inj same)
      have split := exists_of_peek lexemes (by decide) opened
      obtain ⟨tree, read, converts, rfl, tail⟩ := disjunction_sound fuel (fun t mem => lexemes t (List.mem_of_mem_tail mem)) first
      have behind_lexemes : ∀ t ∈ behind, Lexeme py t := fun t mem =>
        lexemes t (List.mem_of_mem_tail (tail ▸ List.mem_append_right _ mem))
      refine ⟨.group tree, read, converts, ?_, ?_⟩
      · funext event
        rw [Factor.eval]
      · rw [split, tail, take_eq_ok behind_lexemes (by decide) closed, Factor.tokens, List.cons_append, List.append_assoc]
        rfl
    next unopened =>
      cases tokens with
      | nil => cases h
      | cons field tokens =>
        cases tokens with
        | nil => cases h
        | cons operator tokens =>
          rw [predicate] at h
          cases supported : supportedOperators.lookup operator.value with
          | none =>
            rw [supported] at h
            cases h
          | some op =>
            rw [supported] at h
            obtain ⟨⟨value, behind⟩, first, same⟩ := bind_eq_ok.mp h
            obtain ⟨rfl, rfl⟩ := Prod.mk.inj (Except.ok.inj same)
            have expected_lexemes : ∀ t ∈ tokens, Lexeme py t := fun t mem =>
              lexemes t (List.mem_cons_of_mem _ (List.mem_cons_of_mem _ mem))
            obtain ⟨l, read, valued, rfl⟩ := literal_sound fuel expected_lexemes first
            refine ⟨.comparison field operator l, ⟨fun bracket => unopened (peek_cons.2 bracket), ?_, read⟩, ?_, ?_, rfl⟩
            · rw [supported]
              rfl
            · rw [Factor.Converts, valued]
              rfl
            · funext event
              rw [Factor.eval, supported, valued]

theorem conjunction_sound (fuel : Nat) {tokens rest : List Token} {f : Predicate} (lexemes : ∀ t ∈ tokens, Lexeme py t)
    (h : conjunction py fuel tokens = .ok (f, rest)) :
    ∃ tree : Conjunction, tree.Read ∧ tree.Converts py ∧ f = tree.eval py ∧ tokens = tree.tokens ++ rest := by
  cases fuel with
  | zero => cases h
  | succ fuel =>
    rw [conjunction] at h
    obtain ⟨⟨f₁, behind⟩, first, later⟩ := bind_eq_ok.mp h
    obtain ⟨tree, read, converts, rfl, rfl⟩ := factor_sound fuel lexemes first
    have behind_lexemes : ∀ t ∈ behind, Lexeme py t := fun t mem => lexemes t (List.mem_append_right _ mem)
    obtain ⟨rfl, rfl⟩ | ⟨more, read', converts', rfl, rfl⟩ := conjuncts_sound fuel behind_lexemes later
    · exact ⟨.one tree, read, converts, allOf_predicates (.one tree), rfl⟩
    · refine ⟨.and tree more, ⟨read, read'⟩, ⟨converts, converts'⟩, allOf_predicates (.and tree more), ?_⟩
      rw [Conjunction.tokens, List.append_assoc, List.cons_append]

theorem conjuncts_sound (fuel : Nat) {functions : List Predicate} {tokens rest : List Token} {f : Predicate}
    (lexemes : ∀ t ∈ tokens, Lexeme py t) (h : conjuncts py fuel functions tokens = .ok (f, rest)) :
    (f = allOf functions ∧ rest = tokens) ∨ ∃ tree : Conjunction, tree.Read ∧ tree.Converts py ∧
      f = allOf (functions ++ tree.predicates py) ∧ tokens = punct "&&" :: (tree.tokens ++ rest) := by
  cases fuel with
  | zero => cases h
  | succ fuel =>
    rw [conjuncts] at h
    split at h
    next follows =>
      obtain ⟨⟨f₁, behind⟩, first, later⟩ := bind_eq_ok.mp h
      have split := exists_of_peek lexemes (by decide) follows
      obtain ⟨tree, read, converts, rfl, tail⟩ := factor_sound fuel (fun t mem => lexemes t (List.mem_of_mem_tail mem)) first
      have behind_lexemes : ∀ t ∈ behind, Lexeme py t := fun t mem =>
        lexemes t (List.mem_of_mem_tail (tail ▸ List.mem_append_right _ mem))
      refine .inr ?_
      obtain ⟨rfl, rfl⟩ | ⟨more, read', converts', rfl, rfl⟩ := conjuncts_sound fuel behind_lexemes later
      · exact ⟨.one tree, read, converts, rfl, by rw [split, tail, Conjunction.tokens]⟩
      · refine ⟨.and tree more, ⟨read, read'⟩, ⟨converts, converts'⟩, ?_, ?_⟩
        · rw [List.append_assoc]
          rfl
        · rw [split, tail, Conjunction.tokens, List.append_assoc, List.cons_append]
    next =>
      obtain ⟨rfl, rfl⟩ := Prod.mk.inj (Except.ok.inj h)
      exact .inl ⟨rfl, rfl⟩

theorem disjunction_sound (fuel : Nat) {tokens rest : List Token} {f : Predicate} (lexemes : ∀ t ∈ tokens, Lexeme py t)
    (h : disjunction py fuel tokens = .ok (f, rest)) :
    ∃ tree : Disjunction, tree.Read ∧ tree.Converts py ∧ f = tree.eval py ∧ tokens = tree.tokens ++ rest := by
  cases fuel with
  | zero => cases h
  | succ fuel =>
    rw [disjunction] at h
    obtain ⟨⟨f₁, behind⟩, first, later⟩ := bind_eq_ok.mp h
    obtain ⟨tree, read, converts, rfl, rfl⟩ := conjunction_sound fuel lexemes first
    have behind_lexemes : ∀ t ∈ behind, Lexeme py t := fun t mem => lexemes t (List.mem_append_right _ mem)
    obtain ⟨rfl, rfl⟩ | ⟨more, read', converts', rfl, rfl⟩ := disjuncts_sound fuel behind_lexemes later
    · exact ⟨.one tree, read, converts, anyOf_predicates (.one tree), rfl⟩
    · refine ⟨.or tree more, ⟨read, read'⟩, ⟨converts, converts'⟩, anyOf_predicates (.or tree more), ?_⟩
      rw [Disjunction.tokens, List.append_assoc, List.cons_append]

theorem disjuncts_sound (fuel : Nat) {functions : List Predicate} {tokens rest : List Token} {f : Predicate}
    (lexemes : ∀ t ∈ tokens, Lexeme py t) (h : disjuncts py fuel functions tokens = .ok (f, rest)) :
    (f = anyOf functions ∧ rest = tokens) ∨ ∃ tree : Disjunction, tree.Read ∧ tree.Converts py ∧
      f = anyOf (functions ++ tree.predicates py) ∧ tokens = punct "||" :: (tree.tokens ++ rest) := by
  cases fuel with
  | zero => cases h
  | succ fuel =>
    rw [disjuncts] at h
    split at h
    next follows =>
      obtain ⟨⟨f₁, behind⟩, first, later⟩ := bind_eq_ok.mp h
      have split := exists_of_peek lexemes (by decide) follows
      obtain ⟨tree, read, converts, rfl, tail⟩ := conjunction_sound fuel (fun t mem => lexemes t (List.mem_of_mem_tail mem)) first
      have behind_lexemes : ∀ t ∈ behind, Lexeme py t := fun t mem =>
        lexemes t (List.mem_of_mem_tail (tail ▸ List.mem_append_right _ mem))
      refine .inr ?_
      obtain ⟨rfl, rfl⟩ | ⟨more, read', converts', rfl, rfl⟩ := disjuncts_sound fuel behind_lexemes later
      · exact ⟨.one tree, read, converts, rfl, by rw [split, tail, Disjunction.tokens]⟩
      · refine ⟨.or tree more, ⟨read, read'⟩, ⟨converts, converts'⟩, ?_, ?_⟩
        · rw [List.append_assoc]
          rfl
        · rw [split, tail, Disjunction.tokens, List.append_assoc, List.cons_append]
    next =>
      obtain ⟨rfl, rfl⟩ := Prod.mk.inj (Except.ok.inj h)
      exact .inl ⟨rfl, rfl⟩

end

theorem peek_own {s : String} : peek s (punct s :: rest) = true := peek_cons.2 rfl

theorem tokens_pos (l : Literal) : 0 < l.tokens.length := by
  cases l with
  | token t => exact Nat.one_pos
  | list items => exact Nat.succ_pos _

mutual

theorem literal_complete (l : Literal) (fuel : Nat) (rest : List Token) {value : Json} (read : l.Read)
    (valued : l.value py = some value) (enough : 2 * l.tokens.length ≤ fuel) :
    literal py fuel (l.tokens ++ rest) = .ok (value, rest) := by
  have pos := tokens_pos l
  obtain ⟨n, rfl⟩ : ∃ n, fuel = n + 1 := ⟨fuel - 1, by omega⟩
  cases l with
  | token t =>
    rw [Literal.value] at valued
    cases converted : convert py t with
    | error error =>
      rw [converted] at valued
      cases valued
    | ok value' =>
      rw [converted] at valued
      obtain rfl := Option.some.inj valued
      rw [Literal.tokens, List.cons_append, literal, if_neg read, converted]
      rfl
  | list its =>
    obtain ⟨values, valued', rfl⟩ := Option.map_eq_some_iff.mp valued
    rw [Literal.tokens, List.length_cons] at enough
    rw [Literal.tokens, List.cons_append, literal, if_pos ⟨.inr rfl, rfl⟩]
    exact items_complete its n [] rest read valued' (by omega)

theorem items_complete (its : Items) (fuel : Nat) (before : List Json) {values : List Json} (rest : List Token) (read : its.Read)
    (valued : its.values py = some values) (enough : 2 * its.tokens.length ≤ fuel) :
    items py fuel before (its.tokens ++ rest) = .ok (.arr (before ++ values), rest) := by
  cases its with
  | nil =>
    rw [Items.tokens, List.length_singleton] at enough
    obtain ⟨n, rfl⟩ : ∃ n, fuel = n + 1 := ⟨fuel - 1, by omega⟩
    obtain rfl := Option.some.inj valued
    rw [Items.tokens, List.singleton_append, items, if_pos peek_own, List.append_nil]
    rfl
  | last item =>
    have pos := tokens_pos item
    rw [Items.tokens, List.length_append, List.length_singleton] at enough
    obtain ⟨n, rfl⟩ : ∃ n, fuel = n + 2 := ⟨fuel - 2, by omega⟩
    obtain ⟨value, valued', rfl⟩ := Option.map_eq_some_iff.mp valued
    have opened : ¬peek "]" (item.tokens ++ punct "]" :: rest) = true := by
      rw [peek_literal, read.2]
      decide
    have first := literal_complete item (n + 1) (punct "]" :: rest) read.1 valued' (by omega)
    rw [Items.tokens, List.append_assoc, List.singleton_append, items, if_neg opened, first]
    dsimp only [bind, Except.bind]
    rw [if_neg (by rw [peek_cons]; exact (by decide : ¬text "]" = text ",")), if_pos peek_own, items, if_pos peek_own]
    rfl
  | comma item more =>
    rw [Items.tokens, List.length_append, List.length_cons] at enough
    obtain ⟨n, rfl⟩ : ∃ n, fuel = n + 1 := ⟨fuel - 1, by omega⟩
    obtain ⟨value, valued', later⟩ := Option.bind_eq_some_iff.mp valued
    obtain ⟨values', valued'', rfl⟩ := Option.map_eq_some_iff.mp later
    obtain ⟨⟨read', starts⟩, read''⟩ := read
    have opened : ¬peek "]" (item.tokens ++ (punct "," :: (more.tokens ++ rest))) = true := by
      rw [peek_literal, starts]
      decide
    have first := literal_complete item n (punct "," :: (more.tokens ++ rest)) read' valued' (by omega)
    rw [Items.tokens, List.append_assoc, List.cons_append, items, if_neg opened, first]
    dsimp only [bind, Except.bind]
    rw [if_pos peek_own, List.tail_cons, items_complete more n _ rest read'' valued'' (by omega), List.append_assoc]
    rfl

end

theorem Factor.tokens_pos (f : Factor) : 0 < f.tokens.length := by
  cases f <;> exact Nat.succ_pos _

theorem Conjunction.tokens_pos (c : Conjunction) : 0 < c.tokens.length := by
  cases c with
  | one f => exact f.tokens_pos
  | and f rest =>
    rw [Conjunction.tokens, List.length_append]
    exact Nat.add_pos_left f.tokens_pos _

theorem peek_punct {s s' : String} (other : text s ≠ text s') : ¬peek s' (punct s :: rest) = true := by
  rw [peek_cons]
  exact other

mutual

theorem factor_complete (f : Factor) (fuel : Nat) (rest : List Token) (read : f.Read) (converts : f.Converts py)
    (enough : 4 * f.tokens.length ≤ fuel + 3) : factor py fuel (f.tokens ++ rest) = .ok (f.eval py, rest) := by
  have pos := f.tokens_pos
  obtain ⟨n, rfl⟩ : ∃ n, fuel = n + 1 := ⟨fuel - 1, by omega⟩
  cases f with
  | group inner =>
    rw [Factor.tokens, List.length_cons, List.length_append, List.length_singleton] at enough
    have first := disjunction_complete inner n (punct ")" :: rest) read converts
      (peek_punct (by decide)) (peek_punct (by decide)) (by omega)
    rw [Factor.tokens, List.cons_append, List.append_assoc, List.singleton_append, factor, if_pos peek_own, List.tail_cons, first]
    refine congrArg (fun f => Except.ok (f, rest)) (funext fun event => ?_)
    rw [Factor.eval]
  | comparison field operator expected =>
    obtain ⟨some_name, supported, read'⟩ := read
    obtain ⟨op, its⟩ := Option.isSome_iff_exists.mp supported
    obtain ⟨value, valued⟩ := Option.isSome_iff_exists.mp converts
    rw [Factor.tokens, List.length_cons, List.length_cons] at enough
    have last := literal_complete expected n rest read' valued (by omega)
    rw [Factor.tokens, List.cons_append, List.cons_append, factor, if_neg (by rw [peek_cons]; exact some_name), predicate, its]
    dsimp only
    rw [last]
    refine congrArg (fun f => Except.ok (f, rest)) (funext fun event => ?_)
    rw [Factor.eval, its, valued]

theorem conjunction_complete (c : Conjunction) (fuel : Nat) (rest : List Token) (read : c.Read) (converts : c.Converts py)
    (ends : ¬peek "&&" rest = true) (enough : 4 * c.tokens.length ≤ fuel + 2) :
    conjunction py fuel (c.tokens ++ rest) = .ok (c.eval py, rest) := by
  have pos := c.tokens_pos
  obtain ⟨n, rfl⟩ : ∃ n, fuel = n + 2 := ⟨fuel - 2, by omega⟩
  cases c with
  | one f =>
    rw [Conjunction.tokens] at enough pos
    have first := factor_complete f (n + 1) rest read converts (by omega)
    rw [conjunction, Conjunction.tokens, first]
    dsimp only [bind, Except.bind]
    rw [conjuncts, if_neg ends, ← allOf_predicates (.one f)]
    rfl
  | and f more =>
    rw [Conjunction.tokens, List.length_append, List.length_cons] at enough
    have first := factor_complete f (n + 1) (punct "&&" :: (more.tokens ++ rest)) read.1 converts.1 (by omega)
    rw [conjunction, Conjunction.tokens, List.append_assoc, List.cons_append, first]
    dsimp only [bind, Except.bind]
    rw [conjuncts_complete more (n + 1) _ rest read.2 converts.2 ends (by omega), ← allOf_predicates (.and f more)]
    rfl

theorem conjuncts_complete (c : Conjunction) (fuel : Nat) (functions : List Predicate) (rest : List Token) (read : c.Read)
    (converts : c.Converts py) (ends : ¬peek "&&" rest = true) (enough : 4 * c.tokens.length ≤ fuel + 2) :
    conjuncts py fuel functions (punct "&&" :: (c.tokens ++ rest)) = .ok (allOf (functions ++ c.predicates py), rest) := by
  have pos := c.tokens_pos
  obtain ⟨n, rfl⟩ : ∃ n, fuel = n + 2 := ⟨fuel - 2, by omega⟩
  rw [conjuncts, if_pos peek_own, List.tail_cons]
  cases c with
  | one f =>
    rw [Conjunction.tokens] at enough pos
    have first := factor_complete f (n + 1) rest read converts (by omega)
    rw [Conjunction.tokens, first]
    dsimp only [bind, Except.bind]
    rw [conjuncts, if_neg ends]
    rfl
  | and f more =>
    rw [Conjunction.tokens, List.length_append, List.length_cons] at enough
    have first := factor_complete f (n + 1) (punct "&&" :: (more.tokens ++ rest)) read.1 converts.1 (by omega)
    rw [Conjunction.tokens, List.append_assoc, List.cons_append, first]
    dsimp only [bind, Except.bind]
    rw [conjuncts_complete more (n + 1) _ rest read.2 converts.2 ends (by omega), List.append_assoc]
    rfl

theorem disjunction_complete (d : Disjunction) (fuel : Nat) (rest : List Token) (read : d.Read) (converts : d.Converts py)
    (ends : ¬peek "&&" rest = true) (ends' : ¬peek "||" rest = true) (enough : 4 * d.tokens.length ≤ fuel + 1) :
    disjunction py fuel (d.tokens ++ rest) = .ok (d.eval py, rest) := by
  cases d with
  | one c =>
    have pos := c.tokens_pos
    rw [Disjunction.tokens] at enough
    obtain ⟨n, rfl⟩ : ∃ n, fuel = n + 2 := ⟨fuel - 2, by omega⟩
    have first := conjunction_complete c (n + 1) rest read converts ends (by omega)
    rw [disjunction, Disjunction.tokens, first]
    dsimp only [bind, Except.bind]
    rw [disjuncts, if_neg ends', ← anyOf_predicates (.one c)]
    rfl
  | or c more =>
    rw [Disjunction.tokens, List.length_append, List.length_cons] at enough
    obtain ⟨n, rfl⟩ : ∃ n, fuel = n + 1 := ⟨fuel - 1, by omega⟩
    have first := conjunction_complete c n (punct "||" :: (more.tokens ++ rest)) read.1 converts.1
      (peek_punct (by decide)) (by omega)
    rw [disjunction, Disjunction.tokens, List.append_assoc, List.cons_append, first]
    dsimp only [bind, Except.bind]
    rw [disjuncts_complete more n _ rest read.2 converts.2 ends ends' (by omega), ← anyOf_predicates (.or c more)]
    rfl

theorem disjuncts_complete (d : Disjunction) (fuel : Nat) (functions : List Predicate) (rest : List Token) (read : d.Read)
    (converts : d.Converts py) (ends : ¬peek "&&" rest = true) (ends' : ¬peek "||" rest = true)
    (enough : 4 * d.tokens.length ≤ fuel + 1) :
    disjuncts py fuel functions (punct "||" :: (d.tokens ++ rest)) = .ok (anyOf (functions ++ d.predicates py), rest) := by
  cases d with
  | one c =>
    have pos := c.tokens_pos
    rw [Disjunction.tokens] at enough
    obtain ⟨n, rfl⟩ : ∃ n, fuel = n + 2 := ⟨fuel - 2, by omega⟩
    have first := conjunction_complete c (n + 1) rest read converts ends (by omega)
    rw [disjuncts, if_pos peek_own, List.tail_cons, Disjunction.tokens, first]
    dsimp only [bind, Except.bind]
    rw [disjuncts, if_neg ends']
    rfl
  | or c more =>
    rw [Disjunction.tokens, List.length_append, List.length_cons] at enough
    obtain ⟨n, rfl⟩ : ∃ n, fuel = n + 1 := ⟨fuel - 1, by omega⟩
    have first := conjunction_complete c n (punct "||" :: (more.tokens ++ rest)) read.1 converts.1
      (peek_punct (by decide)) (by omega)
    rw [disjuncts, if_pos peek_own, List.tail_cons, Disjunction.tokens, List.append_assoc, List.cons_append, first]
    dsimp only [bind, Except.bind]
    rw [disjuncts_complete more n _ rest read.2 converts.2 ends ends' (by omega), List.append_assoc]
    rfl

end

end Parsing

section Unique

variable {py : Builtins}

mutual

theorem Literal.tokens_inj (l l' : Literal) {rest rest' : List Token} (read : l.Read) (read' : l'.Read)
    (same : l.tokens ++ rest = l'.tokens ++ rest') : l = l' ∧ rest = rest' := by
  cases l with
  | token t =>
    cases l' with
    | token t' =>
      obtain ⟨rfl, rfl⟩ := List.cons.inj same
      exact ⟨rfl, rfl⟩
    | list its' =>
      obtain ⟨rfl, -⟩ := List.cons.inj same
      exact absurd ⟨.inr rfl, rfl⟩ read
  | list its =>
    cases l' with
    | token t' =>
      obtain ⟨rfl, -⟩ := List.cons.inj same
      exact absurd ⟨.inr rfl, rfl⟩ read'
    | list its' =>
      obtain ⟨rfl, rfl⟩ := its.tokens_inj its' read read' (List.cons.inj same).2
      exact ⟨rfl, rfl⟩

theorem Items.tokens_inj (its its' : Items) {rest rest' : List Token} (read : its.Read) (read' : its'.Read)
    (same : its.tokens ++ rest = its'.tokens ++ rest') : its = its' ∧ rest = rest' := by
  have closes {item : Literal} {before behind : List Token} (starts : peek "]" item.tokens = false)
      (split : punct "]" :: before = item.tokens ++ behind) : False := by
    have own : peek "]" (punct "]" :: before) = true := peek_own
    rw [split, peek_literal, starts] at own
    cases own
  cases its with
  | nil =>
    cases its' with
    | nil => exact ⟨rfl, (List.cons.inj same).2⟩
    | last item' =>
      rw [Items.tokens, Items.tokens, List.append_assoc] at same
      exact (closes read'.2 same).elim
    | comma item' more' =>
      rw [Items.tokens, Items.tokens, List.append_assoc] at same
      exact (closes read'.1.2 same).elim
  | last item =>
    cases its' with
    | nil =>
      rw [Items.tokens, Items.tokens, List.append_assoc] at same
      exact (closes read.2 same.symm).elim
    | last item' =>
      rw [Items.tokens, Items.tokens, List.append_assoc, List.append_assoc] at same
      obtain ⟨rfl, behind⟩ := item.tokens_inj item' read.1 read'.1 same
      exact ⟨rfl, (List.cons.inj behind).2⟩
    | comma item' more' =>
      rw [Items.tokens, Items.tokens, List.append_assoc, List.append_assoc] at same
      obtain ⟨-, behind⟩ := item.tokens_inj item' read.1 read'.1.1 same
      cases (List.cons.inj behind).1
  | comma item more =>
    cases its' with
    | nil =>
      rw [Items.tokens, Items.tokens, List.append_assoc] at same
      exact (closes read.1.2 same.symm).elim
    | last item' =>
      rw [Items.tokens, Items.tokens, List.append_assoc, List.append_assoc] at same
      obtain ⟨-, behind⟩ := item.tokens_inj item' read.1.1 read'.1 same
      cases (List.cons.inj behind).1
    | comma item' more' =>
      rw [Items.tokens, Items.tokens, List.append_assoc, List.append_assoc] at same
      obtain ⟨rfl, behind⟩ := item.tokens_inj item' read.1.1 read'.1.1 same
      obtain ⟨rfl, last⟩ := more.tokens_inj more' read.2 read'.2 (List.cons.inj behind).2
      exact ⟨rfl, last⟩

end

mutual

theorem Factor.tokens_inj (f f' : Factor) {rest rest' : List Token} (read : f.Read) (read' : f'.Read)
    (same : f.tokens ++ rest = f'.tokens ++ rest') : f = f' ∧ rest = rest' := by
  cases f with
  | group inner =>
    cases f' with
    | group inner' =>
      rw [Factor.tokens, Factor.tokens, List.cons_append, List.cons_append, List.append_assoc, List.append_assoc] at same
      obtain ⟨rfl, behind⟩ := inner.tokens_inj inner' read read' (peek_punct (by decide)) (peek_punct (by decide))
        (peek_punct (by decide)) (peek_punct (by decide)) (List.cons.inj same).2
      exact ⟨rfl, (List.cons.inj behind).2⟩
    | comparison field' operator' expected' =>
      obtain ⟨rfl, -⟩ := List.cons.inj same
      exact absurd rfl read'.1
  | comparison field operator expected =>
    cases f' with
    | group inner' =>
      obtain ⟨rfl, -⟩ := List.cons.inj same
      exact absurd rfl read.1
    | comparison field' operator' expected' =>
      obtain ⟨rfl, behind⟩ := List.cons.inj same
      obtain ⟨rfl, behind'⟩ := List.cons.inj behind
      obtain ⟨rfl, last⟩ := expected.tokens_inj expected' read.2.2 read'.2.2 behind'
      exact ⟨rfl, last⟩

theorem Conjunction.tokens_inj (c c' : Conjunction) {rest rest' : List Token} (read : c.Read) (read' : c'.Read)
    (ends : ¬peek "&&" rest = true) (ends' : ¬peek "&&" rest' = true) (same : c.tokens ++ rest = c'.tokens ++ rest') :
    c = c' ∧ rest = rest' := by
  cases c with
  | one f =>
    cases c' with
    | one f' =>
      obtain ⟨rfl, last⟩ := f.tokens_inj f' read read' same
      exact ⟨rfl, last⟩
    | and f' more' =>
      rw [Conjunction.tokens, Conjunction.tokens, List.append_assoc] at same
      obtain ⟨-, rfl⟩ := f.tokens_inj f' read read'.1 same
      exact absurd peek_own ends
  | and f more =>
    cases c' with
    | one f' =>
      rw [Conjunction.tokens, Conjunction.tokens, List.append_assoc] at same
      obtain ⟨-, rfl⟩ := f.tokens_inj f' read.1 read' same
      exact absurd peek_own ends'
    | and f' more' =>
      rw [Conjunction.tokens, Conjunction.tokens, List.append_assoc, List.append_assoc] at same
      obtain ⟨rfl, behind⟩ := f.tokens_inj f' read.1 read'.1 same
      obtain ⟨rfl, last⟩ := more.tokens_inj more' read.2 read'.2 ends ends' (List.cons.inj behind).2
      exact ⟨rfl, last⟩

theorem Disjunction.tokens_inj (d d' : Disjunction) {rest rest' : List Token} (read : d.Read) (read' : d'.Read)
    (ends : ¬peek "&&" rest = true) (ends' : ¬peek "&&" rest' = true) (stops : ¬peek "||" rest = true)
    (stops' : ¬peek "||" rest' = true) (same : d.tokens ++ rest = d'.tokens ++ rest') : d = d' ∧ rest = rest' := by
  have bar {behind : List Token} : ¬peek "&&" (punct "||" :: behind) = true := peek_punct (by decide)
  cases d with
  | one c =>
    cases d' with
    | one c' =>
      obtain ⟨rfl, last⟩ := c.tokens_inj c' read read' ends ends' same
      exact ⟨rfl, last⟩
    | or c' more' =>
      rw [Disjunction.tokens, Disjunction.tokens, List.append_assoc] at same
      obtain ⟨-, rfl⟩ := c.tokens_inj c' read read'.1 ends bar same
      exact absurd peek_own stops
  | or c more =>
    cases d' with
    | one c' =>
      rw [Disjunction.tokens, Disjunction.tokens, List.append_assoc] at same
      obtain ⟨-, rfl⟩ := c.tokens_inj c' read.1 read' bar ends' same
      exact absurd peek_own stops'
    | or c' more' =>
      rw [Disjunction.tokens, Disjunction.tokens, List.append_assoc, List.append_assoc] at same
      obtain ⟨rfl, behind⟩ := c.tokens_inj c' read.1 read'.1 bar bar same
      obtain ⟨rfl, last⟩ := more.tokens_inj more' read.2 read'.2 ends ends' stops stops' (List.cons.inj behind).2
      exact ⟨rfl, last⟩

end

mutual

theorem Literal.Proper.read (l : Literal) (proper : l.Proper) (lexemes : ∀ t ∈ l.tokens, Lexeme py t) :
    l.Read ∧ peek "]" l.tokens = false := by
  cases l with
  | list its => exact ⟨Items.Proper.read its proper fun t mem => lexemes t (List.mem_cons_of_mem _ mem), rfl⟩
  | token t =>
    have lexeme := lexemes t List.mem_cons_self
    have not_punct {s : String} (mem : text s ∈ punctuation) : t.value ≠ text s := by
      intro its
      obtain rfl := token_eq_punct lexeme its mem
      rcases proper with kind | ⟨kind, -⟩ | name
      · cases kind
      · cases kind
      · exact name.2 mem
    refine ⟨fun bracket => not_punct (by decide) bracket.2, ?_⟩
    rw [Literal.tokens, ← Bool.not_eq_true, peek_cons]
    exact not_punct (by decide)

theorem Items.Proper.read (its : Items) (proper : its.Proper) (lexemes : ∀ t ∈ its.tokens, Lexeme py t) : its.Read := by
  cases its with
  | nil => trivial
  | last item => exact Literal.Proper.read item proper fun t mem => lexemes t (List.mem_append_left _ mem)
  | comma item more =>
    refine ⟨Literal.Proper.read item proper.1 fun t mem => lexemes t (List.mem_append_left _ mem), ?_⟩
    exact Items.Proper.read more proper.2.2 fun t mem => lexemes t (List.mem_append_right _ (List.mem_cons_of_mem _ mem))

end

mutual

theorem Factor.Proper.read (f : Factor) (proper : f.Proper) (lexemes : ∀ t ∈ f.tokens, Lexeme py t) : f.Read := by
  cases f with
  | group inner =>
    exact Disjunction.Proper.read inner proper fun t mem => lexemes t (List.mem_cons_of_mem _ (List.mem_append_left _ mem))
  | comparison field operator expected =>
    have behind : ∀ t ∈ expected.tokens, Lexeme py t := fun t mem => lexemes t (List.mem_cons_of_mem _ (List.mem_cons_of_mem _ mem))
    exact ⟨fun bracket => proper.1.2 (bracket ▸ by decide), proper.2.1, (Literal.Proper.read expected proper.2.2 behind).1⟩

theorem Conjunction.Proper.read (c : Conjunction) (proper : c.Proper) (lexemes : ∀ t ∈ c.tokens, Lexeme py t) : c.Read := by
  cases c with
  | one f => exact Factor.Proper.read f proper lexemes
  | and f more =>
    exact ⟨Factor.Proper.read f proper.1 fun t mem => lexemes t (List.mem_append_left _ mem),
      Conjunction.Proper.read more proper.2 fun t mem => lexemes t (List.mem_append_right _ (List.mem_cons_of_mem _ mem))⟩

theorem Disjunction.Proper.read (d : Disjunction) (proper : d.Proper) (lexemes : ∀ t ∈ d.tokens, Lexeme py t) : d.Read := by
  cases d with
  | one c => exact Conjunction.Proper.read c proper lexemes
  | or c more =>
    exact ⟨Conjunction.Proper.read c proper.1 fun t mem => lexemes t (List.mem_append_left _ mem),
      Disjunction.Proper.read more proper.2 fun t mem => lexemes t (List.mem_append_right _ (List.mem_cons_of_mem _ mem))⟩

end

end Unique

section Exact

variable (py : Builtins)

mutual

/-- The truth value of a tree; a comparison that raises is not true. -/
def Disjunction.truth : Disjunction → NetworkEvent → Bool
  | .one c, event => c.truth event
  | .or c rest, event => c.truth event || rest.truth event

def Conjunction.truth : Conjunction → NetworkEvent → Bool
  | .one f, event => f.truth event
  | .and f rest, event => f.truth event && rest.truth event

def Factor.truth : Factor → NetworkEvent → Bool
  | .group inner, event => inner.truth event
  | .comparison field operator expected, event =>
    match Factor.eval py (.comparison field operator expected) event with
    | .ok value => value
    | .error _ => false

end

/-- What the parser reads of a text is of the grammar exactly where `int` and `json.loads` convert its literals
and no white space is behind it. -/
def Plain (s : Text) : Prop :=
  ∀ (tree : Disjunction) (behind : Text), Lexes py s tree.tokens behind → tree.Read →
    (tree.Proper ↔ tree.Converts py ∧ behind = [])

variable {py}

mutual

theorem Disjunction.eval_truth (d : Disjunction) {event : NetworkEvent} {value : Bool} (h : d.eval py event = .ok value) :
    d.truth py event = value := by
  cases d with
  | one c =>
    rw [Disjunction.eval] at h
    rw [Disjunction.truth, c.eval_truth h]
  | or c rest =>
    rw [Disjunction.eval] at h
    obtain ⟨first, its, later⟩ := bind_eq_ok.mp h
    rw [Disjunction.truth, c.eval_truth its]
    cases first with
    | true => exact Except.ok.inj later
    | false => rw [Bool.false_or, rest.eval_truth later]

theorem Conjunction.eval_truth (c : Conjunction) {event : NetworkEvent} {value : Bool} (h : c.eval py event = .ok value) :
    c.truth py event = value := by
  cases c with
  | one f =>
    rw [Conjunction.eval] at h
    rw [Conjunction.truth, f.eval_truth h]
  | and f rest =>
    rw [Conjunction.eval] at h
    obtain ⟨first, its, later⟩ := bind_eq_ok.mp h
    rw [Conjunction.truth, f.eval_truth its]
    cases first with
    | true => rw [Bool.true_and, rest.eval_truth later]
    | false => exact Except.ok.inj later

theorem Factor.eval_truth (f : Factor) {event : NetworkEvent} {value : Bool} (h : f.eval py event = .ok value) :
    f.truth py event = value := by
  cases f with
  | group inner =>
    rw [Factor.eval] at h
    rw [Factor.truth, inner.eval_truth h]
  | comparison field operator expected => rw [Factor.truth, h]

end

theorem Disjunction.tokens_ne_nil (d : Disjunction) : d.tokens ≠ [] := by
  cases d with
  | one c => exact List.ne_nil_of_length_pos c.tokens_pos
  | or c rest =>
    rw [Disjunction.tokens]
    exact List.append_ne_nil_of_right_ne_nil _ (List.cons_ne_nil _ _)

theorem tree_unique {s : Text} {tree tree' : Disjunction} {behind behind' : Text} (lexes : Lexes py s tree.tokens behind)
    (read : tree.Read) (lexes' : Lexes py s tree'.tokens behind') (read' : tree'.Read) : tree = tree' ∧ behind = behind' := by
  obtain ⟨same, rfl⟩ := lexes_unique lexes lexes'
  have none {s : String} : ¬peek s [] = true := Bool.false_ne_true
  exact ⟨(tree.tokens_inj tree' read read' none none none none (congrArg (· ++ []) same)).1, rfl⟩

theorem compile_iff {s : Text} {p : Predicate} : compile py s = .ok p ↔
    ((∀ c ∈ s, isSpace c = true) ∧ p = fun _ => .ok true) ∨
      ∃ tree : Disjunction, Lexes py s tree.tokens [] ∧ tree.Read ∧ tree.Converts py ∧ p = tree.eval py := by
  have all_iff : s.all isSpace = true ↔ ∀ c ∈ s, isSpace c = true := List.all_eq_true
  have no_tree (spaces : ∀ c ∈ s, isSpace c = true) {tree : Disjunction} {behind : Text} : ¬Lexes py s tree.tokens behind :=
    fun lexes => tree.tokens_ne_nil (lexes_unique lexes (.blank spaces)).1
  rw [compile]
  split
  next blank =>
    constructor
    · exact fun h => .inl ⟨all_iff.mp blank, (Except.ok.inj h).symm⟩
    · rintro (⟨-, rfl⟩ | ⟨tree, lexes, -⟩)
      · rfl
      · exact absurd lexes (no_tree (all_iff.mp blank))
  next some_token =>
    constructor
    · intro h
      obtain ⟨tokens, tokenized, h⟩ := bind_eq_ok.mp h
      obtain ⟨⟨f, rest⟩, parsed, h⟩ := bind_eq_ok.mp h
      obtain ⟨_, done, same⟩ := bind_eq_ok.mp h
      obtain rfl := Except.ok.inj same
      have lexes := (tokenize_iff s.length s.length (Nat.le_refl _)).mp tokenized
      obtain ⟨tree, read, converts, rfl, split⟩ := disjunction_sound _ (lexes_lexemes lexes) parsed
      rw [require_eq_ok.mp done, List.append_nil] at split
      exact .inr ⟨tree, split ▸ lexes, read, converts, rfl⟩
    · rintro (⟨blank, -⟩ | ⟨tree, lexes, read, converts, rfl⟩)
      · exact absurd (all_iff.mpr blank) some_token
      · have parsed := disjunction_complete tree (4 * tree.tokens.length) [] read converts Bool.false_ne_true
          Bool.false_ne_true (Nat.le_succ _)
        rw [List.append_nil] at parsed
        refine bind_eq_ok.mpr ⟨_, (tokenize_iff s.length s.length (Nat.le_refl _)).mpr lexes, ?_⟩
        refine bind_eq_ok.mpr ⟨_, parsed, ?_⟩
        exact bind_eq_ok.mpr ⟨(), require_eq_ok.mpr rfl, rfl⟩

theorem inGrammar_iff {s : Text} : InGrammar py s ↔
    ∃ (tree : Disjunction) (behind : Text), Lexes py s tree.tokens behind ∧ tree.Read ∧ tree.Proper := by
  constructor
  · rintro ⟨tree, behind, lexes, proper⟩
    exact ⟨tree, behind, lexes, Disjunction.Proper.read tree proper (lexes_lexemes lexes), proper⟩
  · rintro ⟨tree, behind, lexes, -, proper⟩
    exact ⟨tree, behind, lexes, proper⟩

/-- A predicate of an expression of the grammar has the truth value of its tree, and the expressions that compile are
those of the grammar where the text is plain. -/
theorem compile_exact_iff (s : Text) :
    (∀ p, compile py s = .ok p → ∀ (tree : Disjunction) (behind : Text), Lexes py s tree.tokens behind → tree.Proper →
      p = tree.eval py ∧ ∀ event value, p event = .ok value → tree.truth py event = value) ∧
    (((∃ p, compile py s = .ok p) ↔ (∀ c ∈ s, isSpace c = true) ∨ InGrammar py s) ↔ Plain py s) := by
  constructor
  · intro p compiled tree behind lexes proper
    have read := Disjunction.Proper.read tree proper (lexes_lexemes lexes)
    have same : p = tree.eval py := by
      rcases compile_iff.1 compiled with ⟨spaces, -⟩ | ⟨tree', lexes', read', -, rfl⟩
      · exact absurd (lexes_unique lexes (.blank spaces)).1 tree.tokens_ne_nil
      · rw [(tree_unique lexes read lexes' read').1]
    exact ⟨same, fun event value h => tree.eval_truth (by rw [← same, h])⟩
  · rw [inGrammar_iff]
    simp only [compile_iff, exists_or]
    constructor
    · intro exact tree behind lexes read
      have not_blank : ¬∀ c ∈ s, isSpace c = true := fun spaces =>
        tree.tokens_ne_nil (lexes_unique lexes (.blank spaces)).1
      constructor
      · intro proper
        obtain ⟨p, spaces, -⟩ | ⟨p, tree', lexes', read', converts, -⟩ := exact.mpr (.inr ⟨tree, behind, lexes, read, proper⟩)
        · exact absurd spaces not_blank
        · obtain ⟨rfl, rfl⟩ := tree_unique lexes read lexes' read'
          exact ⟨converts, rfl⟩
      · rintro ⟨converts, rfl⟩
        obtain spaces | ⟨tree', behind', lexes', read', proper⟩ := exact.mp (.inr ⟨_, tree, lexes, read, converts, rfl⟩)
        · exact absurd spaces not_blank
        · obtain ⟨rfl, -⟩ := tree_unique lexes read lexes' read'
          exact proper
    · intro plain
      constructor
      · rintro (⟨p, spaces, -⟩ | ⟨p, tree, lexes, read, converts, -⟩)
        · exact .inl spaces
        · exact .inr ⟨tree, [], lexes, read, (plain tree [] lexes read).mpr ⟨converts, rfl⟩⟩
      · rintro (spaces | ⟨tree, behind, lexes, read, proper⟩)
        · exact .inl ⟨_, spaces, rfl⟩
        · obtain ⟨converts, rfl⟩ := (plain tree behind lexes read).mp proper
          exact .inr ⟨_, tree, lexes, read, converts, rfl⟩

/-- The tables of characters on ASCII. -/
def ascii : Builtins where
  decimal c := if 48 ≤ c ∧ c ≤ 57 then some (c - 48) else none
  alnum c := (48 ≤ c && c ≤ 57) || (65 ≤ c && c ≤ 90) || (97 ≤ c && c ≤ 122)
  float _ := some 0
  repr _ := []
  decimal_ascii c _ := by
    rw [Bool.eq_iff_iff]
    by_cases digit : 48 ≤ c ∧ c ≤ 57 <;> simp [digit]
  decimal_space c space := by
    refine if_neg fun digit => ?_
    have all : ∀ d < 58, 48 ≤ d → isSpace d = false := by decide
    rw [all c (by omega) digit.1] at space
    cases space

/-- An expression of the grammar is refused for the space behind it, and a parenthesis is read as a field. -/
theorem compile_inexact :
    (InGrammar ascii (text "bytes == 1 ") ∧ ¬∃ p, compile ascii (text "bytes == 1 ") = .ok p) ∧
      (∃ p, compile ascii (text ") == 1") = .ok p) ∧
        ¬((∀ c ∈ text ") == 1", isSpace c = true) ∨ InGrammar ascii (text ") == 1")) := by
  refine ⟨⟨?_, ?_⟩, ⟨_, rfl⟩, ?_⟩
  · refine ⟨.one (.one (.comparison ⟨.word, text "bytes"⟩ ⟨.op, text "=="⟩ (.token ⟨.number, text "1"⟩))), text " ", ?_,
      ⟨rfl, by decide⟩, by decide, .inl rfl⟩
    refine lexes_cons_iff.mpr ⟨text " == 1 ", rfl, lexes_cons_iff.mpr ⟨text " 1 ", rfl, lexes_cons_iff.mpr ⟨text " ", rfl, ?_⟩⟩⟩
    exact .blank (by decide)
  · rintro ⟨p, h⟩
    cases h
  · rintro (spaces | grammatical)
    · exact absurd spaces (by decide)
    · obtain ⟨tree, behind, lexes, read, proper⟩ := inGrammar_iff.1 grammatical
      have lexes' : Lexes ascii (text ") == 1") (Disjunction.tokens (.one (.one (.comparison (punct ")") ⟨.op, text "=="⟩
          (.token ⟨.number, text "1"⟩))))) [] :=
        lexes_cons_iff.mpr ⟨text " == 1", rfl, lexes_cons_iff.mpr ⟨text " 1", rfl, lexes_cons_iff.mpr ⟨[], rfl, .blank (by decide)⟩⟩⟩
      obtain ⟨rfl, -⟩ := tree_unique lexes read lexes' ⟨by decide, by decide, by rintro ⟨kind | kind, -⟩ <;> cases kind⟩
      exact proper.1.2 (by decide)

end Exact

end Arenyxa.Capture.Filter
