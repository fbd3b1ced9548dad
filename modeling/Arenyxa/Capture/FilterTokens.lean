import Arenyxa.Capture.Filter

/-! The tokens of filter expressions: what the regular expression matches, and what `tokenize` reads. -/

namespace Arenyxa.Capture.Filter

open Outcome Registry

section Lexemes

variable (py : Builtins)

/-- The end of a string token. -/
inductive Quoted : Text → Prop
  | close : Quoted [34]
  | escape {c : Nat} {rest : Text} : c ≠ 10 → Quoted rest → Quoted (92 :: c :: rest)
  | plain {c : Nat} {rest : Text} : c ≠ 34 → c ≠ 92 → Quoted rest → Quoted (c :: rest)

def Digits (s : Text) : Prop := s ≠ [] ∧ ∀ c ∈ s, isDigit py c = true

/-- The texts that the tokens of a kind have. -/
def Lexeme (t : Token) : Prop :=
  match t.kind with
  | .number => ∃ whole, Digits py whole ∧ (t.value = whole ∨ ∃ fraction, Digits py fraction ∧ t.value = whole ++ 46 :: fraction)
  | .string => ∃ body, t.value = 34 :: body ∧ Quoted body
  | .op => t.value ∈ operators
  | .word => t.value ∈ punctuation ∨ ∃ c rest, t.value = c :: rest ∧ isLetter c = true ∧ ∀ c ∈ rest, isWordChar py c = true

/-- What follows does not make the token longer. -/
def Ends (t : Token) (rest : Text) : Prop :=
  match t.kind with
  | .number => (∀ c ∈ rest.head?, isDigit py c = false) ∧
      (46 ∉ t.value → ∀ c after, rest = 46 :: c :: after → isDigit py c = false)
  | .string => True
  | .op => ∀ u ∈ operators, u <+: t.value ++ rest → u.length ≤ t.value.length
  | .word => t.value ∉ punctuation → ∀ c ∈ rest.head?, isWordChar py c = false

/-- A text as tokens with white space between them, and what white space is behind the last. -/
inductive Lexes : Text → List Token → Text → Prop
  | blank {space : Text} : (∀ c ∈ space, isSpace c = true) → Lexes space [] space
  | token {space rest behind : Text} {t : Token} {tokens : List Token} : (∀ c ∈ space, isSpace c = true) → Lexeme py t →
      Ends py t rest → Lexes rest tokens behind → Lexes (space ++ (t.value ++ rest)) (t :: tokens) behind

end Lexemes

section Matches

variable {py : Builtins} {s rest : Text} {t : Token}

theorem span_append {p : Nat → Bool} {front back : Text} (all : ∀ c ∈ front, p c = true) (ends : ∀ c ∈ back.head?, p c = false) :
    (front ++ back).takeWhile p = front ∧ (front ++ back).dropWhile p = back := by
  rw [List.takeWhile_append_of_pos all, List.dropWhile_append_of_pos all]
  cases back with
  | nil => exact ⟨List.append_nil _, rfl⟩
  | cons c back =>
    have stops := ends c rfl
    rw [List.takeWhile_cons_of_neg (by rw [stops]; decide), List.dropWhile_cons_of_neg (by rw [stops]; decide)]
    exact ⟨List.append_nil _, rfl⟩

theorem head_dropWhile {p : Nat → Bool} (l : Text) : ∀ c ∈ (l.dropWhile p).head?, p c = false := by
  intro c its
  have := List.head?_dropWhile_not p l
  rw [Option.mem_def.mp its] at this
  exact this

theorem isDigit_ascii {c : Nat} (small : c < 128) : isDigit py c = (48 ≤ c && c ≤ 57) := py.decimal_ascii c small

theorem number_iff : number py s = some (t, rest) ↔ t.kind = .number ∧ s = t.value ++ rest ∧ Lexeme py t ∧ Ends py t rest := by
  have point : isDigit py 46 = false := isDigit_ascii (by decide)
  constructor
  · intro h
    rw [number] at h
    have parts := List.takeWhile_append_dropWhile (p := isDigit py) (l := s)
    have digits : ∀ c ∈ s.takeWhile (isDigit py), isDigit py c = true := fun c => List.mem_takeWhile_imp
    split at h
    next => cases h
    next some_digits =>
      split at h
      next pointed =>
        obtain ⟨rfl, rfl⟩ := Prod.mk.inj (Option.some.inj h)
        have tail : s.dropWhile (isDigit py) = 46 :: (s.dropWhile (isDigit py)).tail := by
          rw [List.cons_head?_tail]
          exact pointed.1
        have parts' := List.takeWhile_append_dropWhile (p := isDigit py) (l := (s.dropWhile (isDigit py)).tail)
        refine ⟨rfl, ?_, ⟨_, ⟨some_digits, digits⟩, .inr ⟨_, ⟨pointed.2, fun c => List.mem_takeWhile_imp⟩, rfl⟩⟩, ?_, ?_⟩
        · rw [List.append_assoc, List.cons_append, parts', ← tail, parts]
        · exact head_dropWhile _
        · exact fun none => absurd (List.mem_append_right _ List.mem_cons_self) none
      next pointless =>
        obtain ⟨rfl, rfl⟩ := Prod.mk.inj (Option.some.inj h)
        refine ⟨rfl, parts.symm, ⟨_, ⟨some_digits, digits⟩, .inl rfl⟩, head_dropWhile _, fun _ c after its => ?_⟩
        rw [its] at pointless
        by_contra digit
        refine pointless ⟨rfl, ?_⟩
        rw [List.tail_cons, List.takeWhile_cons_of_pos (Bool.not_eq_false _ ▸ digit)]
        exact List.cons_ne_nil _ _
  · rintro ⟨kind, rfl, lexeme, ends⟩
    obtain ⟨kind', value⟩ := t
    subst kind
    obtain ⟨whole, ⟨some_digits, digits⟩, rfl | ⟨fraction, ⟨some_fraction, fractional⟩, rfl⟩⟩ := lexeme
    · obtain ⟨taken, dropped⟩ := span_append digits ends.1
      rw [number, taken, dropped, if_neg some_digits, if_neg]
      rintro ⟨pointed, more⟩
      cases rest with
      | nil => cases pointed
      | cons c rest =>
        obtain rfl := Option.some.inj pointed
        have no_point : 46 ∉ value := fun its => by
          rw [digits 46 its] at point
          cases point
        cases rest with
        | nil => exact more rfl
        | cons d rest =>
          refine more ?_
          rw [List.tail_cons, List.takeWhile_cons_of_neg]
          rw [ends.2 no_point d rest rfl]
          decide
    · have pointed : ∀ c ∈ (46 :: fraction ++ rest).head?, isDigit py c = false := by
        intro c its
        obtain rfl := Option.some.inj its
        exact point
      obtain ⟨taken, dropped⟩ := span_append digits pointed
      obtain ⟨taken', dropped'⟩ := span_append fractional ends.1
      rw [List.append_assoc, number, taken, dropped, if_neg some_digits]
      rw [List.cons_append, List.tail_cons, taken', dropped', if_pos ⟨rfl, some_fraction⟩]

theorem stringBody_iff {body : Text} : stringBody s = some (body, rest) ↔ s = body ++ rest ∧ Quoted body := by
  constructor
  · intro h
    fun_induction stringBody s generalizing body rest with
    | case1 after =>
      obtain ⟨rfl, rfl⟩ := Prod.mk.inj (Option.some.inj h)
      exact ⟨rfl, .close⟩
    | case2 after => cases h
    | case3 c after visible ih =>
      obtain ⟨⟨inner, last⟩, its, same⟩ := Option.map_eq_some_iff.mp h
      obtain ⟨rfl, rfl⟩ := Prod.mk.inj same
      obtain ⟨rfl, quoted⟩ := ih its
      exact ⟨rfl, .escape visible quoted⟩
    | case4 => cases h
    | case5 c after no_quote no_escape no_end ih =>
      obtain ⟨⟨inner, last⟩, its, same⟩ := Option.map_eq_some_iff.mp h
      obtain ⟨rfl, rfl⟩ := Prod.mk.inj same
      obtain ⟨rfl, quoted⟩ := ih its
      refine ⟨rfl, .plain no_quote ?_ quoted⟩
      rintro rfl
      cases quoted with
      | close => exact no_escape _ _ rfl rfl
      | escape _ _ => exact no_escape _ _ rfl rfl
      | plain _ _ _ => exact no_escape _ _ rfl rfl
    | case6 => cases h
  · rintro ⟨rfl, quoted⟩
    induction quoted with
    | close => rfl
    | escape visible _ ih => rw [List.cons_append, List.cons_append, stringBody, if_neg visible, ih]; rfl
    | plain no_quote no_escape _ ih =>
      rw [List.cons_append, stringBody, ih]
      · rfl
      · exact no_quote
      · exact fun _ _ its => absurd its no_escape
      · exact fun its => absurd its no_escape

theorem string_iff : string s = some (t, rest) ↔ t.kind = .string ∧ s = t.value ++ rest ∧ Lexeme py t ∧ Ends py t rest := by
  constructor
  · intro h
    unfold string at h
    split at h
    next after =>
      obtain ⟨⟨body, last⟩, its, same⟩ := Option.map_eq_some_iff.mp h
      obtain ⟨rfl, rfl⟩ := Prod.mk.inj same
      obtain ⟨rfl, quoted⟩ := stringBody_iff.1 its
      exact ⟨rfl, rfl, ⟨body, rfl, quoted⟩, trivial⟩
    next => cases h
  · rintro ⟨kind, rfl, lexeme, -⟩
    obtain ⟨kind', value⟩ := t
    subst kind
    obtain ⟨body, rfl, quoted⟩ := lexeme
    rw [List.cons_append, string, stringBody_iff.2 ⟨rfl, quoted⟩]
    rfl

theorem oneOf_iff {kind : Kind} {texts : List Text} (shorter : texts.Pairwise fun u v => v.length ≤ u.length) :
    oneOf kind texts s = some (t, rest) ↔ t.kind = kind ∧ s = t.value ++ rest ∧ t.value ∈ texts ∧
      ∀ u ∈ texts, u <+: s → u.length ≤ t.value.length := by
  have found {u : Text} (its : texts.find? (fun t => t.isPrefixOf s) = some u) :
      u ∈ texts ∧ u <+: s ∧ ∀ v ∈ texts, v <+: s → v.length ≤ u.length := by
    obtain ⟨matched, front, back, split, unmatched⟩ := List.find?_eq_some_iff_append.mp its
    refine ⟨List.mem_of_find?_eq_some its, List.isPrefixOf_iff_prefix.mp matched, fun v mem matches' => ?_⟩
    rw [split, List.mem_append, List.mem_cons] at mem
    rcases mem with before | rfl | after
    · have none := unmatched v before
      rw [List.isPrefixOf_iff_prefix.mpr matches'] at none
      cases none
    · exact Nat.le_refl _
    · rw [split] at shorter
      exact (List.pairwise_cons.mp (List.pairwise_append.mp shorter).2.1).1 v after
  constructor
  · intro h
    obtain ⟨u, its, same⟩ := Option.map_eq_some_iff.mp h
    obtain ⟨rfl, rfl⟩ := Prod.mk.inj same
    obtain ⟨mem, ⟨after, rfl⟩, longest⟩ := found its
    refine ⟨rfl, ?_, mem, longest⟩
    rw [List.drop_left]
  · rintro ⟨rfl, rfl, mem, longest⟩
    have matched : t.value <+: t.value ++ rest := List.prefix_append _ _
    have some_match : (texts.find? fun u => u.isPrefixOf (t.value ++ rest)).isSome := by
      rw [List.find?_isSome]
      exact ⟨t.value, mem, List.isPrefixOf_iff_prefix.mpr matched⟩
    obtain ⟨u, its⟩ := Option.isSome_iff_exists.mp some_match
    obtain ⟨mem', matched', longest'⟩ := found its
    have same : u = t.value := by
      have longer := longest u mem' matched'
      have shorter' := longest' t.value mem matched
      exact (List.prefix_of_prefix_length_le matched' matched longer).eq_of_length (Nat.le_antisymm longer shorter')
    rw [oneOf, its, same]
    simp only [Option.map_some, List.drop_left]

theorem op_iff : oneOf .op operators s = some (t, rest) ↔ t.kind = .op ∧ s = t.value ++ rest ∧ Lexeme py t ∧ Ends py t rest := by
  rw [oneOf_iff (by decide)]
  constructor
  · rintro ⟨kind, rfl, mem, longest⟩
    refine ⟨kind, rfl, ?_, ?_⟩
    · rw [Lexeme, kind]
      exact mem
    · rw [Ends, kind]
      exact longest
  · rintro ⟨kind, rfl, mem, longest⟩
    rw [Lexeme, kind] at mem
    rw [Ends, kind] at longest
    exact ⟨kind, rfl, mem, longest⟩

theorem isLetter_punctuation : ∀ u ∈ punctuation, ∀ c ∈ u.head?, isLetter c = false := by decide

theorem word_iff : word py s = some (t, rest) ↔ t.kind = .word ∧ s = t.value ++ rest ∧ Lexeme py t ∧ Ends py t rest := by
  have ends_of {u : Text} (mem : u ∈ punctuation) : ∀ v ∈ punctuation, v <+: u ++ rest → v.length ≤ u.length := by
    have heads : ∀ v ∈ punctuation, ∀ u ∈ punctuation, v.head? = u.head? → v.length ≤ u.length := by decide
    have some_head : ∀ v ∈ punctuation, v ≠ [] := by decide
    refine fun v mem' ⟨after, same⟩ => heads v mem' u mem ?_
    have := congrArg List.head? same
    rwa [List.head?_append_of_ne_nil _ (some_head v mem'), List.head?_append_of_ne_nil _ (some_head u mem)] at this
  constructor
  · intro h
    unfold word at h
    split at h
    next c after =>
      split at h
      next letter =>
        obtain ⟨rfl, rfl⟩ := Prod.mk.inj (Option.some.inj h)
        refine ⟨rfl, ?_, .inr ⟨c, _, rfl, letter, fun d => List.mem_takeWhile_imp⟩, fun _ => head_dropWhile _⟩
        rw [List.cons_append, List.takeWhile_append_dropWhile]
      next =>
        obtain ⟨kind, split, mem, -⟩ := (oneOf_iff (by decide)).mp h
        refine ⟨kind, split, ?_, ?_⟩
        · rw [Lexeme, kind]
          exact .inl mem
        · rw [Ends, kind]
          exact fun other => absurd mem other
    next => cases h
  · rintro ⟨kind, rfl, lexeme, ends⟩
    obtain ⟨kind', value⟩ := t
    subst kind
    rcases lexeme with mem | ⟨c, letters, rfl, letter, all⟩
    · have matched : oneOf .word punctuation (value ++ rest) = some (⟨.word, value⟩, rest) :=
        (oneOf_iff (by decide)).mpr ⟨rfl, rfl, mem, ends_of mem⟩
      cases value with
      | nil => exact absurd mem (by decide)
      | cons c value =>
        rw [List.cons_append] at matched ⊢
        rw [word, if_neg (by rw [isLetter_punctuation _ mem c rfl]; decide)]
        exact matched
    · have other : c :: letters ∉ punctuation := fun mem => by
        rw [isLetter_punctuation _ mem c rfl] at letter
        cases letter
      obtain ⟨taken, dropped⟩ := span_append all (ends other)
      rw [List.cons_append, word, if_pos letter, taken, dropped]

/-- The kind of a token by its first character. -/
def kindOf (py : Builtins) (c : Nat) : Kind :=
  if isDigit py c then .number else if c = 34 then .string else if c ∈ [61, 33, 62, 60] then .op else .word

theorem isLetter_iff {c : Nat} : isLetter c = true ↔ (65 ≤ c ∧ c ≤ 90) ∨ (97 ≤ c ∧ c ≤ 122) ∨ c = 95 := by
  simp [isLetter, or_assoc]

theorem not_isDigit {c : Nat} (small : c < 128) (other : c < 48 ∨ 57 < c) : isDigit py c = false := by
  rw [isDigit_ascii small, Bool.and_eq_false_iff, decide_eq_false_iff_not, decide_eq_false_iff_not]
  omega

theorem operators_head : ∀ u ∈ operators, ∃ c after, u = c :: after ∧ c < 128 ∧ (c < 48 ∨ 57 < c) ∧ c ≠ 34 ∧
    c ∈ [61, 33, 62, 60] ∧ isSpace c = false := by
  intro u mem
  simp only [operators, List.mem_cons, List.not_mem_nil, or_false] at mem
  rcases mem with rfl | rfl | rfl | rfl | rfl | rfl <;> exact ⟨_, _, rfl, by decide⟩

theorem punctuation_head : ∀ u ∈ punctuation, ∃ c after, u = c :: after ∧ c < 128 ∧ (c < 48 ∨ 57 < c) ∧ c ≠ 34 ∧
    c ∉ [61, 33, 62, 60] ∧ isSpace c = false := by
  intro u mem
  simp only [punctuation, List.mem_cons, List.not_mem_nil, or_false] at mem
  rcases mem with rfl | rfl | rfl | rfl | rfl | rfl | rfl <;> exact ⟨_, _, rfl, by decide⟩

theorem digits_head {whole : Text} (digits : Digits py whole) : ∃ c after, whole = c :: after ∧ isDigit py c = true := by
  obtain ⟨some_digits, all⟩ := digits
  obtain ⟨c, after, rfl⟩ := List.exists_cons_of_ne_nil some_digits
  exact ⟨c, after, rfl, all c List.mem_cons_self⟩

theorem isDigit_not_space {c : Nat} (digit : isDigit py c = true) : isSpace c = false := by
  by_contra space
  rw [isDigit, py.decimal_space c (Bool.not_eq_false _ ▸ space)] at digit
  cases digit

theorem lexeme_head (lexeme : Lexeme py t) : ∃ c after, t.value = c :: after ∧ kindOf py c = t.kind ∧ isSpace c = false := by
  obtain ⟨kind, value⟩ := t
  cases kind with
  | number =>
    obtain ⟨whole, digits, rfl | ⟨fraction, -, rfl⟩⟩ := lexeme
    · obtain ⟨c, after, rfl, digit⟩ := digits_head digits
      exact ⟨c, after, rfl, if_pos digit, isDigit_not_space digit⟩
    · obtain ⟨c, after, rfl, digit⟩ := digits_head digits
      exact ⟨c, after ++ 46 :: fraction, rfl, if_pos digit, isDigit_not_space digit⟩
  | string =>
    obtain ⟨body, rfl, -⟩ := lexeme
    refine ⟨34, body, rfl, ?_, by decide⟩
    rw [kindOf, not_isDigit (by decide) (by decide), if_neg Bool.false_ne_true, if_pos rfl]
  | op =>
    obtain ⟨c, after, rfl, small, other, no_quote, op, space⟩ := operators_head value lexeme
    refine ⟨c, after, rfl, ?_, space⟩
    rw [kindOf, not_isDigit small other, if_neg Bool.false_ne_true, if_neg no_quote, if_pos op]
  | word =>
    rcases lexeme with mem | ⟨c, letters, rfl, letter, -⟩
    · obtain ⟨c, after, rfl, small, other, no_quote, op, space⟩ := punctuation_head value mem
      refine ⟨c, after, rfl, ?_, space⟩
      rw [kindOf, not_isDigit small other, if_neg Bool.false_ne_true, if_neg no_quote, if_neg op]
    · have range := isLetter_iff.1 letter
      refine ⟨c, letters, rfl, ?_, ?_⟩
      · have op : c ∉ [61, 33, 62, 60] := by
          simp only [List.mem_cons, List.not_mem_nil, or_false]
          omega
        rw [kindOf, not_isDigit (by omega) (by omega), if_neg Bool.false_ne_true, if_neg (by omega), if_neg op]
      · rw [isSpace]
        simp only [Bool.or_eq_false_iff, Bool.and_eq_false_iff, decide_eq_false_iff_not, List.contains_eq_mem]
        refine ⟨⟨⟨by omega, by omega⟩, by omega⟩, ?_⟩
        simp only [List.mem_cons, List.not_mem_nil, or_false]
        omega

theorem same_kind {t' : Token} {rest' : Text} (lexeme : Lexeme py t) (lexeme' : Lexeme py t')
    (same : t.value ++ rest = t'.value ++ rest') : t.kind = t'.kind := by
  obtain ⟨c, after, value, kind, -⟩ := lexeme_head lexeme
  obtain ⟨c', after', value', kind', -⟩ := lexeme_head lexeme'
  rw [value, value', List.cons_append, List.cons_append, List.cons.injEq] at same
  rw [← kind, ← kind', same.1]

theorem tokenMatch_iff : tokenMatch py s = some (t, rest) ↔
    ∃ space, (∀ c ∈ space, isSpace c = true) ∧ s = space ++ (t.value ++ rest) ∧ Lexeme py t ∧ Ends py t rest := by
  have matches_iff (s : Text) : ((number py s).or <| (string s).or <| (oneOf .op operators s).or <| word py s) = some (t, rest) ↔
      s = t.value ++ rest ∧ Lexeme py t ∧ Ends py t rest := by
    have none_of {m : Option (Token × Text)} {kind : Kind}
        (m_iff : ∀ t' rest', m = some (t', rest') ↔ t'.kind = kind ∧ s = t'.value ++ rest' ∧ Lexeme py t' ∧ Ends py t' rest')
        (its : s = t.value ++ rest) (lexeme : Lexeme py t) (other : t.kind ≠ kind) : m = none := by
      cases found : m with
      | none => rfl
      | some pair =>
        obtain ⟨kind', its', lexeme', -⟩ := (m_iff pair.1 pair.2).mp found
        exact absurd ((same_kind lexeme lexeme' (its.symm.trans its')).trans kind') other
    constructor
    · intro h
      rcases Option.or_eq_some_iff.mp h with first | ⟨-, h⟩
      · exact (number_iff.1 first).2
      rcases Option.or_eq_some_iff.mp h with first | ⟨-, h⟩
      · exact (string_iff.1 first).2
      rcases Option.or_eq_some_iff.mp h with first | ⟨-, h⟩
      · exact (op_iff.1 first).2
      · exact (word_iff.1 h).2
    · rintro ⟨its, lexeme, ends⟩
      have numbers := none_of (fun _ _ => number_iff) its lexeme
      have strings := none_of (fun _ _ => string_iff) its lexeme
      have ops := none_of (fun _ _ => op_iff) its lexeme
      cases kind : t.kind with
      | number => rw [number_iff.2 ⟨kind, its, lexeme, ends⟩]; rfl
      | string =>
        rw [numbers (by rw [kind]; decide), string_iff.2 ⟨kind, its, lexeme, ends⟩]
        rfl
      | op =>
        rw [numbers (by rw [kind]; decide), strings (by rw [kind]; decide), op_iff.2 ⟨kind, its, lexeme, ends⟩]
        rfl
      | word =>
        rw [numbers (by rw [kind]; decide), strings (by rw [kind]; decide), ops (by rw [kind]; decide),
          word_iff.2 ⟨kind, its, lexeme, ends⟩]
        rfl
  rw [tokenMatch, matches_iff]
  constructor
  · rintro ⟨its, lexeme, ends⟩
    refine ⟨s.takeWhile isSpace, fun c => List.mem_takeWhile_imp, ?_, lexeme, ends⟩
    rw [← its, List.takeWhile_append_dropWhile]
  · rintro ⟨space, spaces, rfl, lexeme, ends⟩
    obtain ⟨c, after, value, -, visible⟩ := lexeme_head lexeme
    refine ⟨(span_append spaces fun d its => ?_).2, lexeme, ends⟩
    rw [value] at its
    obtain rfl := Option.some.inj its
    exact visible

theorem tokenMatch_shorter (h : tokenMatch py s = some (t, rest)) : rest.length < s.length := by
  obtain ⟨space, -, rfl, lexeme, -⟩ := tokenMatch_iff.1 h
  obtain ⟨c, after, value, -, -⟩ := lexeme_head lexeme
  rw [value, List.length_append, List.length_append, List.length_cons]
  omega

theorem tokenMatch_space (spaces : ∀ c ∈ s, isSpace c = true) : tokenMatch py s = none := by
  cases found : tokenMatch py s with
  | none => rfl
  | some pair =>
    obtain ⟨space, -, rfl, lexeme, -⟩ := tokenMatch_iff.1 found
    obtain ⟨c, after, value, -, visible⟩ := lexeme_head lexeme
    have mem : c ∈ space ++ (pair.1.value ++ pair.2) := by
      rw [value]
      exact List.mem_append_right _ List.mem_cons_self
    rw [spaces c mem] at visible
    cases visible

theorem lexes_nil_iff {behind : Text} : Lexes py s [] behind ↔ (∀ c ∈ s, isSpace c = true) ∧ behind = s := by
  constructor
  · rintro ⟨spaces⟩
    exact ⟨spaces, rfl⟩
  · rintro ⟨spaces, rfl⟩
    exact .blank spaces

theorem lexes_cons_iff {tokens : List Token} {behind : Text} :
    Lexes py s (t :: tokens) behind ↔ ∃ rest, tokenMatch py s = some (t, rest) ∧ Lexes py rest tokens behind := by
  constructor
  · intro h
    cases h with
    | token spaces lexeme ends later => exact ⟨_, tokenMatch_iff.2 ⟨_, spaces, rfl, lexeme, ends⟩, later⟩
  · rintro ⟨rest, found, later⟩
    obtain ⟨space, spaces, rfl, lexeme, ends⟩ := tokenMatch_iff.1 found
    exact .token spaces lexeme ends later

theorem lexes_unique {tokens tokens' : List Token} {behind behind' : Text} (h : Lexes py s tokens behind)
    (h' : Lexes py s tokens' behind') : tokens = tokens' ∧ behind = behind' := by
  induction tokens generalizing s tokens' with
  | nil =>
    obtain ⟨spaces, rfl⟩ := lexes_nil_iff.1 h
    cases tokens' with
    | nil => exact ⟨rfl, (lexes_nil_iff.1 h').2.symm⟩
    | cons t' tokens' =>
      obtain ⟨rest, found, -⟩ := lexes_cons_iff.1 h'
      rw [tokenMatch_space spaces] at found
      cases found
  | cons t tokens ih =>
    obtain ⟨rest, found, later⟩ := lexes_cons_iff.1 h
    cases tokens' with
    | nil =>
      rw [tokenMatch_space (lexes_nil_iff.1 h').1] at found
      cases found
    | cons t' tokens' =>
      obtain ⟨rest', found', later'⟩ := lexes_cons_iff.1 h'
      rw [found] at found'
      obtain ⟨rfl, rfl⟩ := Prod.mk.inj (Option.some.inj found')
      obtain ⟨rfl, same⟩ := ih later later'
      exact ⟨rfl, same⟩

theorem lexes_empty_iff {tokens : List Token} {behind : Text} : Lexes py [] tokens behind ↔ tokens = [] ∧ behind = [] := by
  constructor
  · exact fun h => lexes_unique h (.blank fun _ never => (nomatch never))
  · rintro ⟨rfl, rfl⟩
    exact .blank fun _ never => (nomatch never)

theorem lexes_lexemes {tokens : List Token} {behind : Text} (h : Lexes py s tokens behind) : ∀ t ∈ tokens, Lexeme py t := by
  induction h with
  | blank => exact fun _ never => (nomatch never)
  | token _ lexeme _ _ ih => exact List.forall_mem_cons.mpr ⟨lexeme, ih⟩

theorem tokenize_iff {tokens : List Token} (length fuel : Nat) (enough : s.length ≤ fuel) :
    tokenize py length fuel s = .ok tokens ↔ Lexes py s tokens [] := by
  induction fuel generalizing s tokens with
  | zero =>
    obtain rfl := List.length_eq_zero_iff.mp (Nat.le_zero.mp enough)
    rw [tokenize, lexes_empty_iff]
    exact ⟨fun h => ⟨(Except.ok.inj h).symm, rfl⟩, fun h => congrArg Except.ok h.1.symm⟩
  | succ fuel ih =>
    cases s with
    | nil =>
      rw [tokenize, lexes_empty_iff]
      exact ⟨fun h => ⟨(Except.ok.inj h).symm, rfl⟩, fun h => congrArg Except.ok h.1.symm⟩
    | cons c s =>
      rw [tokenize]
      · cases found : tokenMatch py (c :: s) with
        | none =>
          refine ⟨fun h => (nomatch h), fun h => ?_⟩
          cases tokens with
          | nil => cases (lexes_nil_iff.1 h).2
          | cons t tokens =>
            obtain ⟨rest, found', -⟩ := lexes_cons_iff.1 h
            rw [found] at found'
            cases found'
        | some pair =>
          have shorter := tokenMatch_shorter found
          rw [List.length_cons] at enough shorter
          simp only [bind_eq_ok, ih (show pair.2.length ≤ fuel by omega)]
          constructor
          · rintro ⟨later, lexes, same⟩
            obtain rfl := Except.ok.inj same
            exact lexes_cons_iff.2 ⟨_, found, lexes⟩
          · intro h
            cases tokens with
            | nil => cases (lexes_nil_iff.1 h).2
            | cons t tokens =>
              obtain ⟨rest, found', later⟩ := lexes_cons_iff.1 h
              rw [found] at found'
              obtain rfl := Option.some.inj found'
              exact ⟨tokens, later, rfl⟩
      · exact List.cons_ne_nil _ _

end Matches

end Arenyxa.Capture.Filter
