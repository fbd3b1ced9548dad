import Arenyxa.Capture.Message

/-! An assembled message parses back into its start line, its headers and its body, and a parsed
message assembles into one with the same parts. -/

namespace Arenyxa.Capture

open Outcome Search HttpError

/-- A text that stays on its line. -/
def OneLine (text : Bytes) : Prop := ∀ b ∈ text, b ≠ 13

/-- A header that `parseHeaderLine` accepts when it is written out. -/
structure Header.Sendable (h : Header) : Prop where
  named : h.name ≠ []
  token : h.name.all isToken = true
  printable : h.value.all (fun b => !isControl b || b == 9) = true

/-- A header as it is read back. -/
def Header.trimmed (h : Header) : Header :=
  ⟨h.name, stripBy (fun b => b == 32 || b == 9) h.value⟩

theorem isToken_facts {b : UInt8} (h : isToken b = true) :
    b ≠ 58 ∧ b ≠ 32 ∧ b ≠ 9 ∧ b ≠ 13 ∧ isControl b = false := by
  have all : ∀ n < 256, isToken (UInt8.ofNat n) = true → UInt8.ofNat n ≠ 58 ∧
      UInt8.ofNat n ≠ 32 ∧ UInt8.ofNat n ≠ 9 ∧ UInt8.ofNat n ≠ 13 ∧
      isControl (UInt8.ofNat n) = false := by decide +kernel
  rw [← UInt8.ofNat_toNat (x := b)] at h ⊢
  exact all b.toNat b.toNat_lt h

section Lines

variable {l rest : Bytes}

theorem find?_headEnd_skip (h : OneLine l) :
    find? headEnd (l ++ rest) = (find? headEnd rest).map (l.length + ·) := by
  induction l with
  | nil => simp
  | cons b l ih =>
    have here : b ≠ 13 := h b List.mem_cons_self
    rw [List.cons_append, find?_cons_of_not, ih fun c hc => h c (List.mem_cons_of_mem b hc)]
    · rw [Option.map_map]
      congr 1
      funext n
      simp only [Function.comp, List.length_cons]
      omega
    · rintro ⟨m, hm⟩
      exact here (List.cons.inj hm).1.symm

theorem splitLines_line (h : OneLine l) : splitLines (l ++ crlf ++ rest) = l :: splitLines rest := by
  induction l with
  | nil => rfl
  | cons b l ih =>
    have here : b ≠ 13 := h b List.mem_cons_self
    have next := ih fun c hc => h c (List.mem_cons_of_mem b hc)
    rw [List.cons_append, List.cons_append, splitLines, next]
    intro rest' same
    exact absurd same here

/-- The lines of a head. -/
def headText (lines : List Bytes) : Bytes := lines.flatMap (· ++ crlf)

theorem headText_cons (line : Bytes) (lines : List Bytes) :
    headText (line :: lines) = line ++ crlf ++ headText lines := rfl

theorem splitLines_headText {lines : List Bytes} (h : ∀ line ∈ lines, OneLine line) :
    splitLines (headText lines ++ crlf) = lines ++ [[], []] := by
  induction lines with
  | nil => rfl
  | cons line lines ih =>
    rw [headText_cons, List.append_assoc, splitLines_line (h line List.mem_cons_self),
      ih fun l hl => h l (List.mem_cons_of_mem line hl)]
    rfl

theorem headEnd_suffix {lines : List Bytes} (nonempty : lines ≠ []) :
    headEnd <:+ headText lines ++ crlf := by
  refine ⟨headText lines.dropLast ++ lines.getLast nonempty, ?_⟩
  conv_rhs => rw [← List.dropLast_append_getLast nonempty]
  simp [headText, headEnd]

theorem find?_headText {lines : List Bytes} (nonempty : lines ≠ [])
    (h : ∀ line ∈ lines, OneLine line ∧ line ≠ []) (body : Bytes) :
    ∃ marker, find? headEnd (headText lines ++ crlf ++ body) = some marker ∧
      marker + 4 = (headText lines ++ crlf).length := by
  induction lines with
  | nil => exact absurd rfl nonempty
  | cons line lines ih =>
    obtain ⟨one, -⟩ := h line List.mem_cons_self
    have shape : headText (line :: lines) ++ crlf ++ body =
        line ++ (crlf ++ (headText lines ++ crlf ++ body)) := by
      simp only [headText_cons, List.append_assoc]
    rw [shape, find?_headEnd_skip one]
    cases lines with
    | nil =>
      have here : headEnd <+: crlf ++ (headText [] ++ crlf ++ body) := ⟨body, rfl⟩
      refine ⟨line.length, ?_, by simp [headText, crlf]⟩
      rw [show crlf ++ (headText [] ++ crlf ++ body) = 13 :: 10 :: 13 :: 10 :: body from rfl] at here ⊢
      rw [find?_cons_of_starts here]
      rfl
    | cons next lines =>
      obtain ⟨marker, found, full⟩ := ih (by simp) fun l hl => h l (List.mem_cons_of_mem line hl)
      obtain ⟨oneNext, some_next⟩ := h next (List.mem_cons_of_mem _ List.mem_cons_self)
      refine ⟨line.length + (marker + 2), ?_, ?_⟩
      · obtain ⟨b, tail, rfl⟩ := List.exists_cons_of_ne_nil some_next
        have first : b ≠ 13 := oneNext b List.mem_cons_self
        rw [show crlf ++ (headText ((b :: tail) :: lines) ++ crlf ++ body) =
          13 :: 10 :: (headText ((b :: tail) :: lines) ++ crlf ++ body) from rfl,
          find?_cons_of_not, find?_cons_of_not, found]
        · rfl
        · rintro ⟨m, hm⟩
          exact absurd (List.cons.inj hm).1 (by decide)
        · rintro ⟨m, hm⟩
          have := (List.cons.inj (List.cons.inj (List.cons.inj hm).2).2).1
          exact first this.symm
      · rw [headText_cons, List.append_assoc, List.length_append, List.length_append, ← full]
        simp only [crlf, List.length_cons, List.length_nil]
        omega

end Lines

section Headers

variable {h : Header}

theorem oneLine_of_printable {text : Bytes}
    (printable : text.all (fun b => !isControl b || b == 9) = true) : OneLine text := by
  intro b hb
  rintro rfl
  have := List.all_eq_true.mp printable 13 hb
  revert this
  decide

theorem Header.Sendable.line (sendable : h.Sendable) : OneLine h.line ∧ h.line ≠ [] := by
  constructor
  · intro b hb
    rcases List.mem_append.mp hb with hb | hb
    · rcases List.mem_append.mp hb with hb | hb
      · exact (isToken_facts (List.all_eq_true.mp sendable.token b hb)).2.2.2.1
      · have : ∀ b ∈ ascii ": ", b ≠ 13 := by decide +kernel
        exact this b hb
    · exact oneLine_of_printable sendable.printable b hb
  · simp [Header.line, sendable.named]

theorem Header.Sendable.parse (sendable : h.Sendable) :
    parseHeaderLine h.line = .ok h.trimmed := by
  obtain ⟨b, name, shape⟩ := List.exists_cons_of_ne_nil sendable.named
  have first := isToken_facts
    (List.all_eq_true.mp sendable.token b (by rw [shape]; exact List.mem_cons_self))
  have line : h.line = h.name ++ 58 :: 32 :: h.value := by
    simp [Header.line, ascii]
  have token : ∀ c ∈ h.name, (decide (c ≠ 58)) = true := by
    intro c hc
    exact decide_eq_true (isToken_facts (List.all_eq_true.mp sendable.token c hc)).1
  have name_eq : h.line.takeWhile (· ≠ 58) = h.name := by
    rw [line, List.takeWhile_append_of_pos token]
    simp
  have value_eq : (h.line.dropWhile (· ≠ 58)).drop 1 = 32 :: h.value := by
    rw [line, List.dropWhile_append_of_pos token]
    simp
  have colon : h.line.contains 58 = true := by
    rw [line]
    simp
  have start : h.line.head? = some b := by
    rw [line, shape]
    rfl
  have printable : (32 :: h.value).all (fun b => !isControl b || b == 9) = true := by
    rw [List.all_cons, sendable.printable]
    decide
  have spaced : stripBy (fun b => b == 32 || b == 9) (32 :: h.value) =
      stripBy (fun b => b == 32 || b == 9) h.value := by
    simp [stripBy]
  simp only [parseHeaderLine, name_eq, value_eq, colon, start, printable, spaced, require, bind,
    Except.bind, Header.trimmed, sendable.token]
  rw [if_pos ⟨by simp [first.2.1], by simp [first.2.2.1]⟩]
  simp [sendable.named]
  rfl

theorem parse_lines {headers : List Header} (sendable : ∀ h ∈ headers, h.Sendable) :
    (headers.map Header.line).mapM parseHeaderLine = .ok (headers.map Header.trimmed) := by
  induction headers with
  | nil => rfl
  | cons h headers ih =>
    rw [List.map_cons, List.mapM_cons, (sendable h List.mem_cons_self).parse,
      ih fun h' hh => sendable h' (List.mem_cons_of_mem h hh)]
    rfl

/-- The most headers that a head can carry: its start line and the two empty texts behind the
last terminator count as lines. -/
def maxHeaders : Nat := 1023

theorem parse_assembled_lines {start : Bytes} {headers : List Header} (body : Bytes)
    (started : start ≠ []) (plain : start.any isControl = false)
    (each : ∀ h ∈ headers, OneLine h.line ∧ h.line ≠ []) :
    parseRawMessage (assembleMessage start headers body) =
      if headers.length ≤ maxHeaders then
        ((headers.map Header.line).mapM parseHeaderLine).map fun parsed => (start, parsed, body)
      else .error (valueError "HTTP header count exceeded the safety limit") := by
  have lines : ∀ line ∈ start :: headers.map Header.line, OneLine line ∧ line ≠ [] := by
    intro line hl
    rcases List.mem_cons.mp hl with rfl | hl
    · refine ⟨fun b hb => ?_, started⟩
      rintro rfl
      have := List.any_eq_false.mp plain 13 hb
      revert this
      decide
    · obtain ⟨h, hh, rfl⟩ := List.mem_map.mp hl
      exact each h hh
  obtain ⟨marker, found, full⟩ := find?_headText (by simp) lines body
  have whole : assembleMessage start headers body =
      headText (start :: headers.map Header.line) ++ crlf ++ body := rfl
  rw [parseRawMessage, whole, found]
  simp only
  rw [full, List.take_left, List.drop_left, parseHead,
    splitLines_headText fun line hl => (lines line hl).1]
  have named : ∀ line ∈ headers.map Header.line, decide (line ≠ []) = true := fun line hl =>
    decide_eq_true (lines line (List.mem_cons_of_mem start hl)).2
  have kept : (start :: headers.map Header.line ++ [[], []]).tail.filter (· ≠ []) =
      headers.map Header.line := by
    rw [List.cons_append, List.tail_cons, List.filter_append, List.filter_eq_self.mpr named]
    simp
  have count : (start :: headers.map Header.line ++ [[], []]).length ≤ maxHeadLines ↔
      headers.length ≤ maxHeaders := by
    simp only [List.cons_append, List.length_cons, List.length_append, List.length_map,
      List.length_nil, maxHeadLines, maxHeaders]
    omega
  have first : (start :: headers.map Header.line ++ [[], []]).headD [] = start := rfl
  generalize start :: headers.map Header.line ++ [[], []] = all at kept count first ⊢
  simp only [first, kept, count, headEnd_suffix (List.cons_ne_nil _ _),
    plain, eq_true started, require, bind, Except.bind, Bool.not_false, ↓reduceIte]
  by_cases fits : headers.length ≤ maxHeaders
  · rw [if_pos fits, if_pos fits]
    cases (headers.map Header.line).mapM parseHeaderLine <;> rfl
  · rw [if_neg fits, if_neg fits]

theorem parse_assembled {start : Bytes} {headers : List Header} (body : Bytes)
    (started : start ≠ []) (plain : start.any isControl = false)
    (sendable : ∀ h ∈ headers, h.Sendable) :
    parseRawMessage (assembleMessage start headers body) =
      if headers.length ≤ maxHeaders then .ok (start, headers.map Header.trimmed, body)
      else .error (valueError "HTTP header count exceeded the safety limit") := by
  rw [parse_assembled_lines body started plain fun h mem => (sendable h mem).line, parse_lines sendable]
  rfl

-- White space around the value of a header is not read back.

end Headers

section Strip

variable {p : UInt8 → Bool} {text : Bytes}

theorem stripBy_idem : stripBy p (stripBy p text) = stripBy p text := by
  have front : (stripBy p text).dropWhile p = stripBy p text := by
    rw [List.dropWhile_eq_self_iff]
    intro nonempty
    have part : stripBy p text <+: text.dropWhile p := List.rdropWhile_prefix p _
    have long : 0 < (text.dropWhile p).length := Nat.lt_of_lt_of_le nonempty part.length_le
    have first := List.dropWhile_get_zero_not p text long
    rw [part.getElem nonempty]
    exact first
  rw [stripBy, front]
  exact List.rdropWhile_idempotent p _

theorem mem_of_mem_stripBy {b : UInt8} (h : b ∈ stripBy p text) : b ∈ text :=
  (List.dropWhile_suffix p).subset ((List.rdropWhile_prefix p _).subset h)

theorem stripBy_eq_self (h : ∀ b ∈ text, p b = false) : stripBy p text = text := by
  have front : text.dropWhile p = text := by
    rw [List.dropWhile_eq_self_iff]
    intro nonempty
    rw [h _ (List.getElem_mem nonempty)]
    exact Bool.false_ne_true
  rw [stripBy, front, List.rdropWhile_eq_self_iff]
  intro nonempty
  rw [h _ (List.getLast_mem nonempty)]
  exact Bool.false_ne_true

end Strip

section Parsed

/-- A header as `parseHead` returns it. -/
structure Header.Parsed (h : Header) : Prop extends h.Sendable where
  stripped : h.trimmed = h

theorem parseHeaderLine_parsed {line : Bytes} {h : Header}
    (parsed : parseHeaderLine line = .ok h) : h.Parsed := by
  rw [parseHeaderLine] at parsed
  obtain ⟨_, -, parsed⟩ := bind_eq_ok.mp parsed
  obtain ⟨_, named, parsed⟩ := bind_eq_ok.mp parsed
  obtain ⟨_, printable, parsed⟩ := bind_eq_ok.mp parsed
  rw [require_eq_ok] at named printable
  cases parsed
  refine { named := named.2.1, token := named.2.2, printable := ?_, stripped := ?_ }
  · exact List.all_eq_true.mpr fun b hb =>
      List.all_eq_true.mp printable b (mem_of_mem_stripBy hb)
  · exact congrArg (Header.mk _) stripBy_idem

theorem mapM_parsed {lines : List Bytes} {headers : List Header}
    (parsed : lines.mapM parseHeaderLine = .ok headers) : ∀ h ∈ headers, h.Parsed := by
  induction lines generalizing headers with
  | nil =>
    cases parsed
    exact fun h hh => nomatch hh
  | cons line lines ih =>
    rw [List.mapM_cons] at parsed
    obtain ⟨first, hfirst, parsed⟩ := bind_eq_ok.mp parsed
    obtain ⟨rest, hrest, parsed⟩ := bind_eq_ok.mp parsed
    cases parsed
    intro h hh
    rcases List.mem_cons.mp hh with rfl | hh
    · exact parseHeaderLine_parsed hfirst
    · exact ih hrest h hh

theorem parseHead_parsed {head start : Bytes} {headers : List Header}
    (parsed : parseHead head = .ok (start, headers)) : ∀ h ∈ headers, h.Parsed := by
  rw [parseHead] at parsed
  obtain ⟨_, -, parsed⟩ := bind_eq_ok.mp parsed
  obtain ⟨_, -, parsed⟩ := bind_eq_ok.mp parsed
  obtain ⟨_, -, parsed⟩ := bind_eq_ok.mp parsed
  obtain ⟨_, -, parsed⟩ := bind_eq_ok.mp parsed
  obtain ⟨headers', mapped, parsed⟩ := bind_eq_ok.mp parsed
  cases parsed
  exact mapM_parsed mapped

end Parsed

section Parsing

variable {raw start head body : Bytes} {headers : List Header}

theorem splitLines_ne_nil (l : Bytes) : splitLines l ≠ [] := by
  induction l using splitLines.induct with
  | case1 => exact List.cons_ne_nil _ _
  | case2 => exact List.cons_ne_nil _ _
  | case3 b rest last none_left some_line => exact absurd none_left some_line
  | case4 b rest last line lines shape => simp [splitLines, shape]

theorem splitLines_append (l rest : Bytes) : splitLines (l ++ crlf ++ rest) = splitLines l ++ splitLines rest := by
  induction l using splitLines.induct with
  | case1 => rfl
  | case2 l ih =>
    exact congrArg ([] :: ·) ih
  | case3 b l last none_left => exact absurd none_left (splitLines_ne_nil l)
  | case4 b l last line lines shape ih =>
    have later : ∀ rest', b = 13 → l ++ crlf ++ rest = 10 :: rest' → False := by
      intro rest' return_ feed
      cases l with
      | nil => exact absurd (List.cons.inj feed).1 (by decide)
      | cons c l => exact last l return_ (by rw [(List.cons.inj feed).1])
    rw [List.cons_append, List.cons_append, splitLines, ih, splitLines, shape]
    · rfl
    · exact last
    · exact later

theorem mapM_length {lines : List Bytes} (parsed : lines.mapM parseHeaderLine = .ok headers) :
    headers.length = lines.length := by
  induction lines generalizing headers with
  | nil =>
    cases parsed
    rfl
  | cons line lines ih =>
    rw [List.mapM_cons] at parsed
    obtain ⟨first, -, parsed⟩ := bind_eq_ok.mp parsed
    obtain ⟨rest, hrest, parsed⟩ := bind_eq_ok.mp parsed
    cases parsed
    rw [List.length_cons, List.length_cons, ih hrest]

/-- What is known of a message that was taken apart. -/
structure TakenApart (start : Bytes) (headers : List Header) : Prop where
  started : start ≠ []
  plain : start.any isControl = false
  parsed : ∀ h ∈ headers, h.Parsed
  count : headers.length ≤ maxHeaders

theorem parseHead_taken (parsed : parseHead head = .ok (start, headers)) : TakenApart start headers := by
  have each := parseHead_parsed parsed
  rw [parseHead] at parsed
  obtain ⟨_, ended, parsed⟩ := bind_eq_ok.mp parsed
  obtain ⟨_, started, parsed⟩ := bind_eq_ok.mp parsed
  obtain ⟨_, plain, parsed⟩ := bind_eq_ok.mp parsed
  obtain ⟨_, short, parsed⟩ := bind_eq_ok.mp parsed
  obtain ⟨headers', mapped, parsed⟩ := bind_eq_ok.mp parsed
  rw [require_eq_ok] at ended started plain short
  cases parsed
  refine ⟨started, by simpa using plain, each, ?_⟩
  rw [mapM_length mapped]
  obtain ⟨before, rfl⟩ := ended
  have shape : splitLines (before ++ headEnd) = splitLines before ++ [[], []] := by
    rw [headEnd, ← List.append_assoc, splitLines_append]
    rfl
  rw [shape, List.length_append] at short
  rw [shape, List.tail_append_of_ne_nil (splitLines_ne_nil before), List.filter_append]
  have tail := List.length_filter_le (fun line => decide (line ≠ [])) (splitLines before).tail
  rw [List.length_tail] at tail
  simp only [maxHeadLines, List.length_cons, List.length_nil] at short
  have blank : ([[], []] : List Bytes).filter (fun line => decide (line ≠ [])) = [] := by decide
  rw [blank, List.append_nil, maxHeaders]
  omega

theorem parseRawMessage_taken (parsed : parseRawMessage raw = .ok (start, headers, body)) :
    TakenApart start headers := by
  rw [parseRawMessage] at parsed
  split at parsed
  next => cases parsed
  next =>
    obtain ⟨⟨start', headers'⟩, head, parsed⟩ := bind_eq_ok.mp parsed
    cases parsed
    exact parseHead_taken head

end Parsing

section Again

variable {start : Bytes} {headers : List Header}

theorem TakenApart.trimmed (taken : TakenApart start headers) :
    headers.map Header.trimmed = headers := by
  conv_rhs => rw [← List.map_id headers]
  exact List.map_congr_left fun h mem => (taken.parsed h mem).stripped

theorem TakenApart.parse_assembled (taken : TakenApart start headers) (body : Bytes) :
    parseRawMessage (assembleMessage start headers body) = .ok (start, headers, body) := by
  have sendable : ∀ h ∈ headers, h.Sendable := fun h mem => (taken.parsed h mem).toSendable
  rw [Capture.parse_assembled body taken.started taken.plain sendable, if_pos taken.count,
    taken.trimmed]

/-- What was taken apart and put together again comes apart into the same start line, the same
headers and the same body. -/
theorem parse_reassembled (raw start body : Bytes) (headers : List Header)
    (parsed : parseRawMessage raw = .ok (start, headers, body)) :
    parseRawMessage (assembleMessage start headers body) = .ok (start, headers, body) :=
  (parseRawMessage_taken parsed).parse_assembled body

/-- Tabs inside a value, white space around it, an empty value, an empty line in the body. -/
theorem parse_reassembled_spaced :
    parseRawMessage (assembleMessage (ascii "GET / HTTP/1.1")
      [⟨ascii "A", ascii "x\ty"⟩, ⟨ascii "B", []⟩] (ascii "1\r\n\r\n2")) =
        .ok (ascii "GET / HTTP/1.1", [⟨ascii "A", ascii "x\ty"⟩, ⟨ascii "B", []⟩],
          ascii "1\r\n\r\n2") :=
  parse_reassembled (ascii "GET / HTTP/1.1\r\nA:  x\ty \r\nB:\r\n\r\n1\r\n\r\n2") _ _ _
    (by decide +kernel)

end Again

end Arenyxa.Capture
