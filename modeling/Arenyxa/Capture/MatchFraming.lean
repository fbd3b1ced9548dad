import Arenyxa.Capture.MatchReplace

/-! What the match-and-replace rules leave of the framing of a message. -/

namespace Arenyxa.Capture

open Outcome Replace HttpError

section Framing

variable {headers : List Header} {body : Bytes} {sense : Sense}

/-- How the framing headers describe a body. -/
inductive Sense
  | length | chunked | neither
  deriving DecidableEq

/-- The framing headers describe the body: all lengths are its length, or the body is one chunked message behind the
only coding, or there is nothing. -/
inductive FramedAs (headers : List Header) (body : Bytes) : Sense → Prop
  | length (sized : contentLength headers = .ok (some body.length))
    (uncoded : headerValues headers "Transfer-Encoding" = []) : FramedAs headers body .length
  | chunked (coded : transferCodings headers = .ok [chunked]) (unsized : headerValues headers "Content-Length" = [])
    (whole : checkChunkedBody true body = .ok ()) : FramedAs headers body .chunked
  | neither (unsized : headerValues headers "Content-Length" = [])
    (uncoded : headerValues headers "Transfer-Encoding" = []) (empty : body = []) : FramedAs headers body .neither

theorem FramedAs.accepted (framed : FramedAs headers body sense) : (messageFraming headers).isOk = true := by
  cases framed with
  | length sized uncoded =>
    rw [messageFraming_of (transferCodings_none uncoded) sized (.inl rfl)]
    rfl
  | chunked coded unsized whole =>
    rw [messageFraming_of coded (contentLength_none unsized) (.inr rfl)]
    rfl
  | neither unsized uncoded empty =>
    rw [messageFraming_of (transferCodings_none uncoded) (contentLength_none unsized) (.inl rfl)]
    rfl

theorem infix_stripBy (p : UInt8 → Bool) (text : Bytes) : stripBy p text <:+: text :=
  (List.rdropWhile_prefix p _).isInfix.trans (List.dropWhile_suffix p).isInfix

theorem infix_casefold {a b : Bytes} (inside : a <:+: b) : casefold a <:+: casefold b := by
  obtain ⟨before, after, rfl⟩ := inside
  refine ⟨casefold before, casefold after, ?_⟩
  simp only [casefold, List.flatMap_append]

theorem infix_chunked (coded : transferCodings headers = .ok [chunked]) :
    chunked <:+: casefold (firstValue headers "Transfer-Encoding") := by
  rw [transferCodings] at coded
  obtain ⟨_, -, coded⟩ := bind_eq_ok.mp coded
  obtain ⟨_, -, coded⟩ := bind_eq_ok.mp coded
  have codings : (fieldParts headers "Transfer-Encoding").map codingName = [chunked] := Except.ok.inj coded
  obtain ⟨part, parts, name⟩ := List.map_eq_singleton_iff.mp codings
  rw [firstValue]
  cases values : headerValues headers "Transfer-Encoding" with
  | nil =>
    rw [fieldParts, values] at parts
    cases parts
  | cons v vs =>
    rw [fieldParts, values, List.flatMap_cons] at parts
    obtain ⟨x, xs, split⟩ := List.exists_cons_of_ne_nil (List.splitOn_ne_nil 44 v)
    rw [split, List.map_cons, List.cons_append] at parts
    obtain ⟨first, rest⟩ := List.cons.inj parts
    have single : xs = [] := List.map_eq_nil_iff.mp (List.append_eq_nil_iff.mp rest).1
    have whole : v = x := by
      have joined : [44].intercalate (v.splitOn 44) = v := List.intercalate_splitOn 44
      rw [split, single] at joined
      simpa using joined.symm
    rw [← name, ← first, codingName, List.headD_cons, ← whole]
    exact infix_casefold ((infix_stripBy _ _).trans ((List.takeWhile_prefix _).isInfix.trans (infix_stripBy _ _)))

theorem FramedAs.transferChunked (framed : FramedAs headers body sense) :
    transferChunked headers = decide (sense = .chunked) := by
  have absent : ∀ {headers : List Header}, headerValues headers "Transfer-Encoding" = [] →
      Capture.transferChunked headers = false := by
    intro headers uncoded
    rw [Capture.transferChunked, firstValue, uncoded]
    decide
  cases framed with
  | length sized uncoded => rw [absent uncoded]; rfl
  | chunked coded unsized whole => exact decide_eq_true (infix_chunked coded)
  | neither unsized uncoded empty => rw [absent uncoded]; rfl

end Framing

section Rules

variable {lib : RuleLibrary} {rules : List ProxyMatchReplaceRule} {rule : ProxyMatchReplaceRule} {s : Rewriting}
  {isChunked : Bool}

/-- A value after all rules. -/
def editedValue (lib : RuleLibrary) (rules : List ProxyMatchReplaceRule) (name : Bytes) (value : List Nat) :
    List Nat :=
  rules.foldl (fun value rule => rule.editValue lib name value) value

/-- A body after all rules. -/
def editedBody (rules : List ProxyMatchReplaceRule) (body : Bytes) : Bytes :=
  rules.foldl (fun body rule => rule.editBody body) body

def Field.edited (lib : RuleLibrary) (rules : List ProxyMatchReplaceRule) (f : Field) : Field :=
  ⟨f.name, editedValue lib rules f.name f.value⟩

theorem applyRule_fields : (applyRule lib isChunked s rule).fields =
    s.fields.map fun f => ⟨f.name, rule.editValue lib f.name f.value⟩ := by
  rw [applyRule]
  split
  · rfl
  next body =>
    have same : (s.fields.map fun f => Field.mk f.name (rule.editValue lib f.name f.value)) = s.fields := by
      refine (List.map_congr_left fun f _ => ?_).trans (List.map_id _)
      rw [ProxyMatchReplaceRule.editValue, if_neg (by simp [body])]
      rfl
    rw [same]
    split <;> rfl

theorem applyRule_body : (applyRule lib isChunked s rule).body =
    if isChunked then s.body else rule.editBody s.body := by
  rw [applyRule]
  split
  next header =>
    have same : rule.editBody s.body = s.body := if_neg (by simp [header])
    rw [same, ite_self]
  · split <;> rfl

theorem applyRule_unapplied (none : (applyRule lib isChunked s rule).applied = []) :
    s.applied = [] ∧ (applyRule lib isChunked s rule).fields = s.fields ∧
      (applyRule lib isChunked s rule).body = s.body := by
  have header : ∀ fields, (if fields ≠ s.fields then s.applied ++ [rule.id] else s.applied) = [] →
      s.applied = [] ∧ fields = s.fields := by
    intro fields empty
    split at empty
    · exact absurd empty (by simp)
    next same => exact ⟨empty, not_not.mp same⟩
  have body : ∀ body, (if body ≠ s.body then s.applied ++ [rule.id] else s.applied) = [] →
      s.applied = [] ∧ body = s.body := by
    intro body empty
    split at empty
    · exact absurd empty (by simp)
    next same => exact ⟨empty, not_not.mp same⟩
  rw [applyRule] at none ⊢
  cases scope : rule.scope with
  | header =>
    rw [scope] at none
    obtain ⟨unapplied, same⟩ := header _ none
    exact ⟨unapplied, same, rfl⟩
  | body =>
    rw [scope] at none
    cases isChunked with
    | true => exact ⟨none, rfl, rfl⟩
    | false =>
      obtain ⟨unapplied, same⟩ := body _ none
      exact ⟨unapplied, rfl, same⟩

theorem foldl_applyRule :
    (rules.foldl (applyRule lib isChunked) s).fields = s.fields.map (Field.edited lib rules) ∧
      (rules.foldl (applyRule lib isChunked) s).body = (if isChunked then s.body else editedBody rules s.body) ∧
      ((rules.foldl (applyRule lib isChunked) s).applied = [] →
        (rules.foldl (applyRule lib isChunked) s).fields = s.fields ∧
          (rules.foldl (applyRule lib isChunked) s).body = s.body) := by
  induction rules generalizing s with
  | nil => exact ⟨(List.map_id _).symm, (ite_self _).symm, fun _ => ⟨rfl, rfl⟩⟩
  | cons rule rules ih =>
    obtain ⟨fields, body, unapplied⟩ := @ih (applyRule lib isChunked s rule)
    have kept : ∀ rules s, (List.foldl (applyRule lib isChunked) s rules).applied = [] → s.applied = [] := by
      intro rules
      induction rules with
      | nil => exact fun _ none => none
      | cons rule rules ih => exact fun s none => (applyRule_unapplied (ih _ none)).1
    rw [List.foldl_cons]
    refine ⟨?_, ?_, fun none => ?_⟩
    · rw [fields, applyRule_fields, List.map_map]
      rfl
    · rw [body, applyRule_body]
      cases isChunked <;> rfl
    · obtain ⟨same, same'⟩ := unapplied none
      obtain ⟨-, first, first'⟩ := applyRule_unapplied (kept _ _ none)
      exact ⟨same.trans first, same'.trans first'⟩

theorem editedBody_nil : editedBody rules [] = [] := by
  induction rules with
  | nil => rfl
  | cons rule rules ih =>
    have same : rule.editBody [] = [] := by
      rw [ProxyMatchReplaceRule.editBody]
      split <;> rfl
    rw [editedBody, List.foldl_cons, same]
    exact ih

theorem editedValue_oneLine (valid : ∀ rule ∈ rules, rule.validate lib = .ok ()) {name : Bytes} {value : List Nat}
    (oneLine : 13 ∉ value) : 13 ∉ editedValue lib rules name value := by
  induction rules generalizing value with
  | nil => exact oneLine
  | cons rule rules ih =>
    obtain ⟨own, rest⟩ := List.forall_mem_cons.mp valid
    rw [editedValue, List.foldl_cons]
    refine ih rest fun mem => ?_
    rw [ProxyMatchReplaceRule.editValue] at mem
    split at mem
    next here =>
      rcases mem_replaceFrom 0 _ mem with inserted | before
      · rw [ProxyMatchReplaceRule.validate] at own
        obtain ⟨_, -, own⟩ := bind_eq_ok.mp own
        obtain ⟨_, -, own⟩ := bind_eq_ok.mp own
        obtain ⟨_, -, own⟩ := bind_eq_ok.mp own
        obtain ⟨_, -, own⟩ := bind_eq_ok.mp own
        obtain ⟨_, -, own⟩ := bind_eq_ok.mp own
        obtain ⟨_, breaks, -⟩ := bind_eq_ok.mp own
        rw [require_eq_ok] at breaks
        exact (breaks here.1).1 inserted
      · exact oneLine before
    next => exact oneLine mem

end Rules

section Fields

variable {fields out : List Field} {encoded : List Header} {n : Nat}

theorem isLength_iff {f : Field} : f.isLength = true ↔ casefold f.name = casefold (ascii "Content-Length") := by
  rw [Field.isLength, decide_eq_true_eq, lengthName]

theorem mapM_encode (ok : fields.mapM Field.encode = .ok encoded) :
    encoded = fields.map (fun f => ⟨f.name, f.value.map UInt8.ofNat⟩) ∧ ∀ f ∈ fields, ∀ c ∈ f.value, c < 256 := by
  induction fields generalizing encoded with
  | nil =>
    cases ok
    exact ⟨rfl, fun f mem => absurd mem List.not_mem_nil⟩
  | cons f fields ih =>
    rw [List.mapM_cons] at ok
    obtain ⟨h, first, ok⟩ := bind_eq_ok.mp ok
    obtain ⟨rest, later, ok⟩ := bind_eq_ok.mp ok
    cases ok
    obtain ⟨rfl, small⟩ := ih later
    rw [Field.encode] at first
    obtain ⟨_, range, first⟩ := bind_eq_ok.mp first
    rw [require_eq_ok] at range
    cases first
    refine ⟨rfl, List.forall_mem_cons.mpr ⟨fun c mem => ?_, small⟩⟩
    simpa using List.all_eq_true.mp range c mem

/-- The length that goes out. -/
def lengthField (n : Nat) : Field := (lengthHeader (decimal n)).field

theorem normalizeLength_spec {saw : Bool} (ok : normalizeLength n saw fields = .ok out) :
    (∀ f, f.isLength = false → (f ∈ out ↔ f ∈ fields)) ∧
      (out.filter fun f => !f.isLength) = (fields.filter fun f => !f.isLength) ∧
      out.filter Field.isLength = (if saw = false ∧ fields.any Field.isLength then [lengthField n] else []) ∧
      (saw = false → fields.any Field.isLength = true → (decimal n).length ≤ maxIntDigits) := by
  have own : (lengthField n).isLength = true := by
    rw [isLength_iff]
    rfl
  induction fields generalizing saw out with
  | nil =>
    cases ok
    exact ⟨fun _ _ => Iff.rfl, rfl, by simp, fun _ none => by simp at none⟩
  | cons f fields ih =>
    rw [normalizeLength] at ok
    cases length : f.isLength with
    | true =>
      rw [if_pos length] at ok
      have other : ∀ g : Field, g.isLength = false → (g ∈ fields ↔ g ∈ f :: fields) := by
        intro g its
        rw [List.mem_cons, or_iff_right]
        rintro rfl
        rw [length] at its
        cases its
      cases saw with
      | true =>
        obtain ⟨mem, rest, lengths, short⟩ := ih ok
        refine ⟨fun g its => (mem g its).trans (other g its), ?_, ?_, nofun⟩
        · rw [rest, List.filter_cons_of_neg (by simp [length])]
        · rw [lengths]
          simp
      | false =>
        rw [if_neg Bool.false_ne_true] at ok
        obtain ⟨digits, text, ok⟩ := bind_eq_ok.mp ok
        obtain ⟨rest, later, ok⟩ := bind_eq_ok.mp ok
        cases ok
        rw [decimalText] at text
        obtain ⟨_, short, text⟩ := bind_eq_ok.mp text
        rw [require_eq_ok] at short
        cases text
        obtain ⟨mem, same, lengths, -⟩ := ih later
        change (∀ g : Field, g.isLength = false → (g ∈ lengthField n :: rest ↔ g ∈ f :: fields)) ∧
          (lengthField n :: rest).filter _ = _ ∧ (lengthField n :: rest).filter _ = _ ∧ _
        refine ⟨fun g its => ?_, ?_, ?_, fun _ _ => short⟩
        · rw [← other g its, ← mem g its, List.mem_cons, or_iff_right]
          rintro rfl
          rw [own] at its
          cases its
        · rw [List.filter_cons_of_neg (by simp [own]), same, List.filter_cons_of_neg (by simp [length])]
        · rw [List.filter_cons_of_pos own, lengths]
          simp [length, lengthField]
    | false =>
      rw [if_neg (by simp [length])] at ok
      obtain ⟨rest, later, ok⟩ := bind_eq_ok.mp ok
      cases ok
      obtain ⟨mem, same, lengths, short⟩ := ih later
      refine ⟨fun g its => ?_, ?_, ?_, fun unseen some => short unseen ?_⟩
      · rw [List.mem_cons, List.mem_cons, mem g its]
      · rw [List.filter_cons_of_pos (by simp [length]), List.filter_cons_of_pos (by simp [length]), same]
      · rw [List.filter_cons_of_neg (by simp [length]), lengths, List.any_cons, length, Bool.false_or]
      · simpa [length] using some

end Fields

section Messages

variable {lib : RuleLibrary} {rules : List ProxyMatchReplaceRule} {headers out : List Header} {h : Header}
  {raw start body result : Bytes} {sense : Sense} {applied : List String}

/-- A header after all rules, its value taken modulo 256. -/
def Header.edited (lib : RuleLibrary) (rules : List ProxyMatchReplaceRule) (h : Header) : Header :=
  ⟨h.name, (editedValue lib rules h.name h.field.value).map UInt8.ofNat⟩

/-- No control character but tabs. -/
def Printable (value : List Nat) : Prop := ∀ c ∈ value, (32 ≤ c ∧ c ≠ 127) ∨ c = 9

instance (value : List Nat) : Decidable (Printable value) := inferInstanceAs (Decidable (∀ _ ∈ _, _))

/-- The rules put no control character into a value that goes out, and leave a chunked message chunked. -/
def KeepsHeaders (lib : RuleLibrary) (rules : List ProxyMatchReplaceRule) (headers : List Header) (sense : Sense) :
    Prop :=
  (∀ h ∈ headers, sense = .chunked ∨ h.field.isLength = false →
    Printable (editedValue lib rules h.name h.field.value)) ∧
  (sense = .chunked →
    transferCodings ((headers.map (Header.edited lib rules)).map Header.trimmed) = .ok [chunked])

/-- The message has the start line, as many headers besides lengths, and an accepted framing that describes this body
in the same sense. -/
def KeepsMessage (start : Bytes) (headers : List Header) (sense : Sense) (body result : Bytes) : Prop :=
  ∃ headers', parseRawMessage result = .ok (start, headers', body) ∧
    (headers'.filter fun h => !h.field.isLength).length = (headers.filter fun h => !h.field.isLength).length ∧
    (messageFraming headers').isOk = true ∧ FramedAs headers' body sense

theorem printable_iff {value : List Nat} (small : ∀ c ∈ value, c < 256) :
    (value.map UInt8.ofNat).all (fun b => !isControl b || b == 9) = true ↔ Printable value := by
  have each : ∀ c < 256, (!isControl (UInt8.ofNat c) || UInt8.ofNat c == 9) = true ↔ (32 ≤ c ∧ c ≠ 127) ∨ c = 9 := by
    decide +kernel
  rw [List.all_map, List.all_eq_true]
  exact forall₂_congr fun c mem => each c (small c mem)

theorem field_small (h : Header) : ∀ c ∈ h.field.value, c < 256 := by
  intro c mem
  obtain ⟨b, -, rfl⟩ := List.mem_map.mp mem
  exact b.toNat_lt

theorem field_bytes (h : Header) : h.field.value.map UInt8.ofNat = h.value := by
  rw [Header.field, List.map_map]
  exact (List.map_congr_left fun b _ => UInt8.ofNat_toNat).trans (List.map_id _)

theorem parsed_printable (parsed : h.Parsed) : Printable h.field.value := by
  rw [← printable_iff (field_small h), field_bytes]
  exact parsed.printable

theorem sendable_of_parse (started : start ≠ []) (plain : start.any isControl = false)
    (tokens : ∀ h ∈ out, h.name ≠ [] ∧ h.name.all isToken = true ∧ OneLine h.value) {x : Bytes × List Header × Bytes}
    (parsed : parseRawMessage (assembleMessage start out body) = .ok x) : ∀ h ∈ out, h.Sendable := by
  have lines : ∀ h ∈ out, OneLine h.line ∧ h.line ≠ [] := by
    intro h mem
    obtain ⟨named, token, oneLine⟩ := tokens h mem
    refine ⟨fun b hb => ?_, by simp [Header.line, named]⟩
    rcases List.mem_append.mp hb with hb | hb
    · rcases List.mem_append.mp hb with hb | hb
      · exact (isToken_facts (List.all_eq_true.mp token b hb)).2.2.2.1
      · have : ∀ b ∈ ascii ": ", b ≠ 13 := by decide +kernel
        exact this b hb
    · exact oneLine b hb
  have each : ∀ (out : List Header) (parsed : List Header), (out.map Header.line).mapM parseHeaderLine = .ok parsed →
      ∀ h ∈ out, ∃ h', parseHeaderLine h.line = .ok h' := by
    intro out
    induction out with
    | nil => exact fun _ _ h mem => absurd mem List.not_mem_nil
    | cons h out ih =>
      intro parsed ok
      rw [List.map_cons, List.mapM_cons] at ok
      obtain ⟨first, own, ok⟩ := bind_eq_ok.mp ok
      obtain ⟨rest, later, ok⟩ := bind_eq_ok.mp ok
      exact List.forall_mem_cons.mpr ⟨⟨first, own⟩, ih rest later⟩
  intro h mem
  obtain ⟨named, token, -⟩ := tokens h mem
  refine ⟨named, token, ?_⟩
  rw [parse_assembled_lines body started plain lines] at parsed
  split at parsed
  next =>
    cases mapped : (out.map Header.line).mapM parseHeaderLine with
    | error e =>
      rw [mapped] at parsed
      cases parsed
    | ok headers =>
      obtain ⟨h', own⟩ := each out headers mapped h mem
      rw [parseHeaderLine] at own
      obtain ⟨_, -, own⟩ := bind_eq_ok.mp own
      obtain ⟨_, -, own⟩ := bind_eq_ok.mp own
      obtain ⟨_, printable, -⟩ := bind_eq_ok.mp own
      rw [require_eq_ok] at printable
      have line : h.line = h.name ++ 58 :: 32 :: h.value := by
        simp [Header.line, ascii]
      have colonless : ∀ c ∈ h.name, (decide (c ≠ 58)) = true := fun c hc =>
        decide_eq_true (isToken_facts (List.all_eq_true.mp token c hc)).1
      rw [line, List.dropWhile_append_of_pos colonless] at printable
      simpa [isControl] using printable
  next => cases parsed

theorem keeps_unchanged (parsed : parseRawMessage raw = .ok (start, headers, body))
    (framed : FramedAs headers body sense)
    (same : (headers.map Header.field).map (Field.edited lib rules) = headers.map Header.field) :
    KeepsMessage start headers sense body raw ∧ KeepsHeaders lib rules headers sense := by
  have each : ∀ h ∈ headers, editedValue lib rules h.name h.field.value = h.field.value := by
    intro h mem
    rw [List.map_map, List.map_inj_left] at same
    exact congrArg Field.value (same h mem)
  have taken := parseRawMessage_taken parsed
  refine ⟨⟨headers, parsed, rfl, framed.accepted, framed⟩, fun h mem _ => ?_, fun is_chunked => ?_⟩
  · rw [each h mem]
    exact parsed_printable (taken.parsed h mem)
  · subst is_chunked
    cases framed with
    | chunked coded =>
      have kept : (headers.map (Header.edited lib rules)).map Header.trimmed = headers := by
        rw [List.map_map]
        refine (List.map_congr_left fun h mem => ?_).trans (List.map_id _)
        rw [Function.comp_apply, Header.edited, each h mem, field_bytes]
        exact (taken.parsed h mem).stripped
      rw [kept, coded]

/-- What goes out against the headers of the message. -/
structure Sent (lib : RuleLibrary) (rules : List ProxyMatchReplaceRule) (headers out : List Header) (sense : Sense)
    (body : Bytes) : Prop where
  tokens : ∀ h ∈ out, h.name ≠ [] ∧ h.name.all isToken = true ∧ OneLine h.value
  sendable : (∀ h ∈ out, h.Sendable) ↔ ∀ h ∈ headers, sense = .chunked ∨ h.field.isLength = false →
    Printable (editedValue lib rules h.name h.field.value)
  count : out.length ≤ headers.length
  others : (out.filter fun h => !h.field.isLength).length = (headers.filter fun h => !h.field.isLength).length
  framed : FramedAs (out.map Header.trimmed) body sense ↔ (sense = .chunked →
    transferCodings ((headers.map (Header.edited lib rules)).map Header.trimmed) = .ok [chunked])

theorem filter_trimmed (out : List Header) : ((out.map Header.trimmed).filter fun h => !h.field.isLength).length =
    (out.filter fun h => !h.field.isLength).length := by
  rw [List.filter_map, List.length_map]
  rfl

theorem Sent.keeps (sent : Sent lib rules headers out sense body) (taken : TakenApart start headers) :
    KeepsMessage start headers sense body (assembleMessage start out body) ↔
      KeepsHeaders lib rules headers sense := by
  have parse : (∀ h ∈ out, h.Sendable) → parseRawMessage (assembleMessage start out body) =
      .ok (start, out.map Header.trimmed, body) := fun sendable =>
    (parse_assembled body taken.started taken.plain sendable).trans (if_pos (sent.count.trans taken.count))
  constructor
  · rintro ⟨headers', parsed, -, -, framed⟩
    have sendable := sendable_of_parse taken.started taken.plain sent.tokens parsed
    cases (parse sendable).symm.trans parsed
    exact ⟨sent.sendable.mp sendable, sent.framed.mp framed⟩
  · rintro ⟨printable, coded⟩
    have framed := sent.framed.mpr coded
    exact ⟨_, parse (sent.sendable.mpr printable), (filter_trimmed out).trans sent.others, framed.accepted, framed⟩

theorem headerValues_eq_nil {name : String} :
    headerValues headers name = [] ↔ ∀ h ∈ headers, casefold h.name ≠ casefold (ascii name) := by
  rw [headerValues, List.map_eq_nil_iff, List.filter_eq_nil_iff]
  exact forall₂_congr fun h _ => not_congr decide_eq_true_iff

theorem edited_facts (taken : TakenApart start headers) (valid : ∀ rule ∈ rules, rule.validate lib = .ok ())
    (mem : h ∈ headers) (small : ∀ c ∈ editedValue lib rules h.name h.field.value, c < 256) :
    ((h.edited lib rules).name ≠ [] ∧ (h.edited lib rules).name.all isToken = true ∧
      OneLine (h.edited lib rules).value) ∧
      ((h.edited lib rules).Sendable ↔ Printable (editedValue lib rules h.name h.field.value)) := by
  have parsed := taken.parsed h mem
  have oneLine : 13 ∉ h.field.value := by
    intro inside
    rcases parsed_printable parsed 13 inside with range | tab
    · omega
    · omega
  refine ⟨⟨parsed.named, parsed.token, ?_⟩, fun sendable => (printable_iff small).mp sendable.printable,
    fun printable => ⟨parsed.named, parsed.token, (printable_iff small).mpr printable⟩⟩
  rintro b inside rfl
  obtain ⟨c, code, its⟩ := List.mem_map.mp inside
  have value : c = 13 := by
    have same := congrArg UInt8.toNat its
    rw [UInt8.toNat_ofNat_of_lt' (small c code)] at same
    exact same
  exact editedValue_oneLine valid oneLine (value ▸ code)

theorem sent_chunked (taken : TakenApart start headers) (valid : ∀ rule ∈ rules, rule.validate lib = .ok ())
    (framed : FramedAs headers body .chunked)
    (small : ∀ h ∈ headers, ∀ c ∈ editedValue lib rules h.name h.field.value, c < 256) :
    Sent lib rules headers (headers.map (Header.edited lib rules)) .chunked body := by
  cases framed with
  | chunked coded unsized whole =>
    refine ⟨fun h' mem' => ?_, ⟨fun all h mem _ => ?_, fun all h' mem' => ?_⟩, (List.length_map _).le, ?_, ?_, ?_⟩
    · obtain ⟨h, mem, rfl⟩ := List.mem_map.mp mem'
      exact (edited_facts taken valid mem (small h mem)).1
    · exact (edited_facts taken valid mem (small h mem)).2.mp (all _ (List.mem_map_of_mem mem))
    · obtain ⟨h, mem, rfl⟩ := List.mem_map.mp mem'
      exact (edited_facts taken valid mem (small h mem)).2.mpr (all h mem (.inl rfl))
    · rw [List.filter_map, List.length_map]
      rfl
    · rintro (_ | ⟨coded', -, -⟩ | _) _
      exact coded'
    · intro coded'
      refine .chunked (coded' rfl) (headerValues_eq_nil.2 fun h' mem' => ?_) whole
      obtain ⟨h₁, mem₁, rfl⟩ := List.mem_map.mp mem'
      obtain ⟨h, mem, rfl⟩ := List.mem_map.mp mem₁
      exact headerValues_eq_nil.1 unsized h mem

theorem sent_normalized (taken : TakenApart start headers) (valid : ∀ rule ∈ rules, rule.validate lib = .ok ())
    (framed : FramedAs headers raw sense) (plain : sense ≠ .chunked) (bodiless : sense = .neither → body = [])
    {fields : List Field}
    (normal : normalizeLength body.length false ((headers.map Header.field).map (Field.edited lib rules)) =
      .ok fields)
    (small : ∀ f ∈ fields, ∀ c ∈ f.value, c < 256) :
    Sent lib rules headers (fields.map fun f => ⟨f.name, f.value.map UInt8.ofNat⟩) sense body := by
  obtain ⟨mem, same, lengths, short⟩ := normalizeLength_spec normal
  have any_length : ((headers.map Header.field).map (Field.edited lib rules)).any Field.isLength =
      headers.any fun h => h.field.isLength := by
    rw [List.any_map, List.any_map]
    rfl
  rw [any_length] at lengths short
  have other : ∀ f ∈ fields, f.isLength = false → ∃ h ∈ headers, f = h.field.edited lib rules := by
    intro f inside its
    obtain ⟨h₁, mem₁, rfl⟩ := List.mem_map.mp ((mem f its).mp inside)
    obtain ⟨h, here, rfl⟩ := List.mem_map.mp mem₁
    exact ⟨h, here, rfl⟩
  have length : ∀ f ∈ fields, f.isLength = true → f = lengthField body.length := by
    intro f inside its
    have there := List.mem_filter.mpr ⟨inside, its⟩
    rw [lengths] at there
    split at there
    · exact List.mem_singleton.mp there
    · exact absurd there List.not_mem_nil
  have written : (⟨(lengthField body.length).name, (lengthField body.length).value.map UInt8.ofNat⟩ : Header) =
      lengthHeader (decimal body.length) :=
    congrArg (Header.mk _) (field_bytes _)
  have sendable := lengthHeader_sendable body.length
  have others : (((headers.map Header.field).map (Field.edited lib rules)).filter fun f => !f.isLength).length =
      (headers.filter fun h => !h.field.isLength).length := by
    rw [List.filter_map, List.filter_map, List.length_map, List.length_map]
    rfl
  have each : ∀ f ∈ fields, f.isLength = false → ∀ h ∈ headers, f = h.field.edited lib rules →
      ∀ c ∈ editedValue lib rules h.name h.field.value, c < 256 := by
    rintro f inside - h - rfl
    exact small _ inside
  have coding_free : ∀ f ∈ fields, casefold f.name ≠ casefold (ascii "Transfer-Encoding") := by
    have uncoded : headerValues headers "Transfer-Encoding" = [] := by
      cases framed with
      | length _ uncoded => exact uncoded
      | chunked => exact absurd rfl plain
      | neither _ uncoded => exact uncoded
    intro f inside
    cases its : f.isLength with
    | false =>
      obtain ⟨h, here, rfl⟩ := other f inside its
      exact headerValues_eq_nil.1 uncoded h here
    | true =>
      rw [isLength_iff.1 its, lengthName]
      exact codingName_ne.symm
  have uncoded : headerValues ((fields.map fun f => Header.mk f.name (f.value.map UInt8.ofNat)).map Header.trimmed)
      "Transfer-Encoding" = [] := by
    refine headerValues_eq_nil.2 fun h' mem' => ?_
    obtain ⟨h₁, mem₁, rfl⟩ := List.mem_map.mp mem'
    obtain ⟨f, inside, rfl⟩ := List.mem_map.mp mem₁
    exact coding_free f inside
  have values : headerValues ((fields.map fun f => Header.mk f.name (f.value.map UInt8.ofNat)).map Header.trimmed)
      "Content-Length" = if headers.any fun h => h.field.isLength then [decimal body.length] else [] := by
    have named : (fun h : Header => decide (casefold h.name = casefold (ascii "Content-Length"))) ∘
        (Header.trimmed ∘ fun f : Field => Header.mk f.name (f.value.map UInt8.ofNat)) = Field.isLength := by
      funext f
      rw [Field.isLength, ← lengthName]
      rfl
    rw [headerValues, List.map_map, List.filter_map, named, lengths]
    cases headers.any fun h => h.field.isLength with
    | false => rfl
    | true =>
      have trimmed := lengthHeader_trimmed body.length
      simp only [and_self, ↓reduceIte, List.map_cons, List.map_nil, Function.comp_apply, written, trimmed]
      rfl
  refine ⟨fun h' mem' => ?_, ⟨fun all h here its => ?_, fun all h' mem' => ?_⟩, ?_, ?_,
    ⟨fun _ is_chunked => absurd is_chunked plain, fun _ => ?_⟩⟩
  · obtain ⟨f, inside, rfl⟩ := List.mem_map.mp mem'
    cases its : f.isLength with
    | false =>
      obtain ⟨h, here, same⟩ := other f inside its
      have range := each f inside its h here same
      subst same
      exact (edited_facts taken valid here range).1
    | true =>
      rw [length f inside its, written]
      exact ⟨sendable.named, sendable.token, oneLine_of_printable sendable.printable⟩
  · have unsized := its.resolve_left plain
    have inside := (mem (h.field.edited lib rules) unsized).mpr (List.mem_map_of_mem (List.mem_map_of_mem here))
    exact (edited_facts taken valid here (each _ inside unsized h here rfl)).2.mp (all _ (List.mem_map_of_mem inside))
  · obtain ⟨f, inside, rfl⟩ := List.mem_map.mp mem'
    cases its : f.isLength with
    | false =>
      obtain ⟨h, here, same⟩ := other f inside its
      have range := each f inside its h here same
      subst same
      exact (edited_facts taken valid here range).2.mpr (all h here (.inr its))
    | true =>
      rw [length f inside its, written]
      exact sendable
  · have split := List.length_eq_length_filter_add (l := fields) Field.isLength
    have split' := List.length_eq_length_filter_add (l := headers) fun h => h.field.isLength
    rw [lengths, same, others] at split
    rw [List.length_map, split, split']
    refine Nat.add_le_add_right ?_ _
    split
    next some =>
      obtain ⟨h, here, its⟩ := List.any_eq_true.mp some.2
      exact List.length_pos_of_mem (List.mem_filter.mpr ⟨here, its⟩)
    next => exact Nat.zero_le _
  · rw [List.filter_map, List.length_map, ← others, ← same]
    rfl
  · have any_iff : (headers.any fun h => h.field.isLength) = true ↔ headerValues headers "Content-Length" ≠ [] := by
      rw [Ne, headerValues_eq_nil, List.any_eq_true]
      push Not
      exact exists_congr fun h => and_congr_right fun _ => isLength_iff
    cases framed with
    | length sized =>
      have some := any_iff.mpr (sized_values sized)
      rw [some] at values
      exact .length (contentLength_decimal (short rfl some) values) uncoded
    | chunked => exact absurd rfl plain
    | neither unsized =>
      rw [Bool.eq_false_iff.mpr fun some => any_iff.mp some unsized] at values
      exact .neither values uncoded (bodiless rfl)

theorem applyRules_iff {maxMessageBytes : Nat} (valid : ∀ rule ∈ rules, rule.validate lib = .ok ())
    (parsed : parseRawMessage raw = .ok (start, headers, body)) (framed : FramedAs headers body sense)
    (returned : applyRules lib rules maxMessageBytes raw = .ok (result, applied)) :
    KeepsMessage start headers sense (if sense = .chunked then body else editedBody rules body) result ↔
      KeepsHeaders lib rules headers sense := by
  rw [applyRules] at returned
  have unchanged : (headers.map Header.field).map (Field.edited lib rules) = headers.map Header.field →
      (if sense = .chunked then body else editedBody rules body) = body → result = raw →
      (KeepsMessage start headers sense (if sense = .chunked then body else editedBody rules body) result ↔
        KeepsHeaders lib rules headers sense) := by
    rintro fields same rfl
    rw [same]
    exact iff_of_true (keeps_unchanged parsed framed fields).1 (keeps_unchanged parsed framed fields).2
  split at returned
  next none =>
    cases returned
    subst none
    exact unchanged (List.map_id _) (ite_self _) rfl
  have flag := framed.transferChunked
  obtain ⟨_, first, returned⟩ := bind_eq_ok.mp returned
  cases parsed.symm.trans first
  dsimp only at returned
  obtain ⟨fields, body', none⟩ :=
    @foldl_applyRule lib rules ⟨headers.map Header.field, body, []⟩ (transferChunked headers)
  generalize rules.foldl (applyRule lib (transferChunked headers)) ⟨headers.map Header.field, body, []⟩ = s
    at returned fields body' none
  have expected : s.body = if sense = .chunked then body else editedBody rules body := by
    rw [body', flag]
    by_cases its : sense = .chunked <;> simp [its]
  split at returned
  next unapplied =>
    cases returned
    obtain ⟨same, same'⟩ := none unapplied
    exact unchanged (fields.symm.trans same) (expected.symm.trans same') rfl
  obtain ⟨_, -, returned⟩ := bind_eq_ok.mp returned
  obtain ⟨outgoing, normal, returned⟩ := bind_eq_ok.mp returned
  obtain ⟨out, encoded, returned⟩ := bind_eq_ok.mp returned
  obtain ⟨_, -, returned⟩ := bind_eq_ok.mp returned
  cases returned
  obtain ⟨rfl, small⟩ := mapM_encode encoded
  have taken := parseRawMessage_taken parsed
  rw [← expected]
  refine Sent.keeps ?_ taken
  rw [outgoingFields, flag] at normal
  by_cases its : sense = .chunked
  · subst its
    rw [if_pos (decide_eq_true rfl)] at normal
    cases normal
    rw [fields] at small ⊢
    rw [expected, if_pos rfl, List.map_map, List.map_map]
    exact sent_chunked taken valid framed fun h mem =>
      small _ (List.mem_map_of_mem (List.mem_map_of_mem mem))
  · rw [if_neg (by simpa using its)] at normal
    obtain ⟨normalized, normal, added⟩ := bind_eq_ok.mp normal
    have bodiless : sense = .neither → s.body = [] := by
      rintro rfl
      cases framed with
      | neither _ _ empty =>
        rw [expected, if_neg its, empty, editedBody_nil]
    have settled : ¬ (s.body ≠ [] ∧ s.fields.all (fun f => !f.isLength) = true) := by
      rintro ⟨some, unsized⟩
      cases framed with
      | length sized =>
        refine sized_values sized (headerValues_eq_nil.2 fun h mem length => ?_)
        have edited : h.field.edited lib rules ∈ s.fields := by
          rw [fields]
          exact List.mem_map_of_mem (List.mem_map_of_mem mem)
        have its := List.all_eq_true.mp unsized _ edited
        rw [Bool.not_eq_true', ← Bool.not_eq_true, isLength_iff] at its
        exact its length
      | chunked => exact its rfl
      | neither => exact some (bodiless rfl)
    rw [if_neg settled] at added
    cases added
    rw [fields] at normal
    exact sent_normalized taken valid framed its bodiless normal small

/-- The rules that match a message keep its framing, exactly where they put no control character into a value that
goes out and leave a chunked message chunked. -/
theorem match_replace_framing (lib : RuleLibrary) (rules : List ProxyMatchReplaceRule) (maxMessageBytes : Nat)
    (raw start : Bytes) (headers : List Header) (body : Bytes) (sense : Sense) (phase : RewritePhase)
    (method host target : String) (result : Bytes) (applied : List String)
    (valid : ∀ rule ∈ rules, rule.validate lib = .ok ()) (parsed : parseRawMessage raw = .ok (start, headers, body))
    (framed : FramedAs headers body sense)
    (returned : applyMatchReplace lib rules maxMessageBytes raw phase method host target = .ok (result, applied)) :
    let matching := rules.filter fun rule => rule.matchesMessage lib phase method host target
    KeepsMessage start headers sense (if sense = .chunked then body else editedBody matching body) result ↔
      KeepsHeaders lib matching headers sense :=
  applyRules_iff (fun rule mem => valid rule (List.mem_of_mem_filter mem)) parsed framed returned

/-- Texts are in lower case, and patterns without a special character match the same text only. -/
def plainRules : RuleLibrary := { sampleTexts with isAlpha := fun _ => true }

def headerRule («match» replacement : String) : ProxyMatchReplaceRule :=
  ⟨"1", true, .request, .header, "*", "*", "*", "*", «match», replacement⟩

def sampleHeaders : List Header := [⟨ascii "Host", ascii "a.test"⟩, ⟨ascii "Content-Length", ascii "5"⟩]

theorem match_replace_sample :
    let matching := [headerRule "a.test" "b.test"].filter fun rule =>
      rule.matchesMessage plainRules .request "POST" "a.test" "/"
    KeepsMessage (ascii "POST / HTTP/1.1") sampleHeaders .length
        (if Sense.length = .chunked then ascii "hello" else editedBody matching (ascii "hello"))
        (ascii "POST / HTTP/1.1\r\nHost: b.test\r\nContent-Length: 5\r\n\r\nhello") ↔
      KeepsHeaders plainRules matching sampleHeaders .length :=
  match_replace_framing plainRules [headerRule "a.test" "b.test"] 4096
    (ascii "POST / HTTP/1.1\r\nHost: a.test\r\nContent-Length: 5\r\n\r\nhello") (ascii "POST / HTTP/1.1")
    sampleHeaders (ascii "hello") .length .request "POST" "a.test" "/"
    (ascii "POST / HTTP/1.1\r\nHost: b.test\r\nContent-Length: 5\r\n\r\nhello") ["1"] (by decide)
    (by decide +kernel) (.length (by decide +kernel) (by decide +kernel)) (by decide +kernel)

/-- A rule takes the coding away from a chunked message. -/
theorem match_replace_unframed : ∃ result applied,
    applyMatchReplace plainRules [headerRule "chunked" "gzip"] 4096 chunkedMessage .request "POST" "a.test" "/" =
        .ok (result, applied) ∧
      FramedAs [⟨ascii "Transfer-Encoding", ascii "chunked"⟩] chunkedBody .chunked ∧
      ¬ KeepsMessage (ascii "POST / HTTP/1.1") [⟨ascii "Transfer-Encoding", ascii "chunked"⟩] .chunked chunkedBody
        result := by
  refine ⟨ascii "POST / HTTP/1.1\r\nTransfer-Encoding: gzip\r\n\r\n5\r\nhello\r\n0\r\n\r\n", ["1"],
    by decide +kernel, .chunked (by decide +kernel) (by decide +kernel) (by decide +kernel), ?_⟩
  rintro ⟨headers, parsed, -, accepted, -⟩
  have read : parseRawMessage (ascii "POST / HTTP/1.1\r\nTransfer-Encoding: gzip\r\n\r\n5\r\nhello\r\n0\r\n\r\n") =
      .ok (ascii "POST / HTTP/1.1", [⟨ascii "Transfer-Encoding", ascii "gzip"⟩], chunkedBody) := by decide +kernel
  cases read.symm.trans parsed
  exact absurd accepted (by decide +kernel)

end Messages

end Arenyxa.Capture
