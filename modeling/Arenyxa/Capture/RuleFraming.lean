import Arenyxa.Capture.Reader
import Arenyxa.Capture.RequestFraming
import Arenyxa.Lib.Search

/-! The intercept rules: the first rule that matches a message decides what happens to it. -/

namespace Arenyxa.Capture

open Outcome Replace HttpError

inductive InterceptAction
  | allow | block | modify | pause
  deriving DecidableEq

inductive InterceptPhase
  | request | response | both
  deriving DecidableEq

structure InterceptRule where
  id : String
  name : String
  action : InterceptAction
  phase : InterceptPhase := .both
  enabled : Bool := true
  hostPattern : String := "*"
  urlPattern : String := "*"
  methodPattern : String := "*"
  headerPattern : String := "*"
  bodyPattern : String := "*"
  replacement : String := ""

structure InterceptDecision where
  action : InterceptAction
  raw : Bytes
  ruleId : String
  ruleName : String
  deriving DecidableEq

/-- What the standard library makes of texts; `decodeUtf8` puts a replacement character for what is no UTF-8. -/
structure TextLibrary where
  casefold : String → String
  upper : String → String
  fnmatchcase : String → String → Bool
  decodeUtf8 : Bytes → String

/-- `text.encode("utf-8")` -/
def utf8 (text : String) : Bytes := text.toList.flatMap String.utf8EncodeChar

/-- The headers as a pattern sees them: one a line. -/
def headerText (headers : List Header) : String :=
  truncated (64 * 1024) ("\n".intercalate (headers.map fun h => latin1 h.line))
where
  truncated (n : Nat) (text : String) : String := String.ofList (text.toList.take n)

namespace InterceptRule

def «matches» (lib : TextLibrary) (rule : InterceptRule) (phase : InterceptPhase) (method host url : String)
    (raw : Bytes) : Bool :=
  let parsed := match parseRawMessage raw with
    | .ok (_, headers, body) => (headers, body)
    | .error _ => ([], [])
  let globs (text pattern : String) : Bool := lib.fnmatchcase (lib.casefold text) (lib.casefold pattern)
  rule.enabled && (rule.phase = phase || rule.phase = .both) && globs host rule.hostPattern &&
    globs url rule.urlPattern && lib.fnmatchcase (lib.upper method) (lib.upper rule.methodPattern) &&
    (rule.headerPattern = "*" || globs (headerText parsed.1) rule.headerPattern) &&
    (rule.bodyPattern = "*" || globs (lib.decodeUtf8 (parsed.2.take (1024 * 1024))) rule.bodyPattern)

/-- The text that is replaced; none stands for the whole body. -/
def needle (rule : InterceptRule) : Bytes :=
  if rule.bodyPattern = "" ∨ rule.bodyPattern = "*" then [] else utf8 rule.bodyPattern

/-- The body with each occurrence of the pattern replaced. -/
def updated (rule : InterceptRule) (body : Bytes) : Bytes :=
  if rule.needle = [] then utf8 rule.replacement else replaceAll rule.needle (utf8 rule.replacement) body

end InterceptRule

/-- The headers written so far, with whether the length is among them. -/
structure Normalized where
  headers : List Header
  lengthWritten : Bool

/-- The first length field takes the new length, and the others are dropped. -/
def normalizeHeader (length : Except HttpError Bytes) (s : Normalized) (h : Header) : Except HttpError Normalized :=
  if casefold h.name = ascii "content-length" then
    if s.lengthWritten then .ok s
    else do
      let digits ← length
      return ⟨s.headers ++ [lengthHeader digits], true⟩
  else .ok { s with headers := s.headers ++ [h] }

/-- `_modify`; an error is the one of the conversion of a length to a text. -/
def InterceptRule.modify (rule : InterceptRule) (raw : Bytes) : Except HttpError Bytes :=
  if rule.replacement = "" then .ok raw
  else
    match parseRawMessage raw with
    | .error _ => .ok raw
    | .ok (start, headers, body) => do
      let updated := rule.updated body
      let length := decimalText updated.length
      let normalized ← headers.foldlM (normalizeHeader length) ⟨[], false⟩
      if updated ≠ [] ∧ normalized.lengthWritten = false then do
        let digits ← length
        return assembleMessage start (normalized.headers ++ [lengthHeader digits]) updated
      else return assembleMessage start normalized.headers updated

/-- The decision of the first rule that matches. -/
def evaluate (lib : TextLibrary) (rules : List InterceptRule) (phase : InterceptPhase) (method host url : String)
    (raw : Bytes) : Except HttpError (Option InterceptDecision) :=
  match rules.find? fun rule => rule.matches lib phase method host url raw with
  | none => .ok none
  | some rule => do
    let output ← if rule.action = .modify then rule.modify raw else .ok raw
    return some ⟨rule.action, output, rule.id, rule.name⟩

end Arenyxa.Capture

/-! What a rule that rewrites a body leaves of the framing of the message. -/

namespace Arenyxa.Capture

open Outcome Search Replace HttpError

section Payloads

variable {headers : List Header} {body payload payload' : Bytes} {framing : Bool × Option Nat}

/-- The data of the chunks at the beginning of a text, no more than `fuel` of them. -/
def chunkData : (fuel : Nat) → Bytes → Bytes
  | 0, _ => []
  | fuel + 1, text =>
    match find? crlf text with
    | none => []
    | some n =>
      match chunkSize (text.take n) with
      | .ok (size + 1) =>
        (text.drop (n + 2)).take (size + 1) ++ chunkData fuel (text.drop (n + 2 + (size + 1) + 2))
      | _ => []

/-- The framing headers describe the body, which stands for the payload. -/
inductive Describes (headers : List Header) (body : Bytes) : (payload : Bytes) → Prop
  | length (sized : contentLength headers = .ok (some body.length)) : Describes headers body body
  | chunked {codings : List Bytes} (coded : transferCodings headers = .ok codings) (some_coding : codings ≠ [])
    (whole : checkChunkedBody true body = .ok ()) : Describes headers body (chunkData body.length body)
  | neither (unsized : headerValues headers "Content-Length" = [])
    (uncoded : headerValues headers "Transfer-Encoding" = []) (empty : body = []) : Describes headers body []

theorem sized_values {n : Nat} (sized : contentLength headers = .ok (some n)) :
    headerValues headers "Content-Length" ≠ [] := by
  intro unsized
  cases (contentLength_none unsized).symm.trans sized

theorem coded_values {codings : List Bytes} (coded : transferCodings headers = .ok codings)
    (some_coding : codings ≠ []) : headerValues headers "Transfer-Encoding" ≠ [] := by
  intro uncoded
  cases (transferCodings_none uncoded).symm.trans coded
  exact some_coding rfl

theorem unsized_of_coded (framed : messageFraming headers = .ok framing)
    (coded : headerValues headers "Transfer-Encoding" ≠ []) : headerValues headers "Content-Length" = [] := by
  obtain ⟨isChunked, length⟩ := framing
  obtain ⟨chunked, unsized⟩ := messageFraming_spec framed
  exact unsized (chunked.mpr coded)

theorem Describes.unique (h : Describes headers body payload) (h' : Describes headers body payload')
    (framed : messageFraming headers = .ok framing) : payload' = payload := by
  cases h with
  | length sized =>
    cases h' with
    | length => rfl
    | chunked coded some_coding =>
      exact absurd (unsized_of_coded framed (coded_values coded some_coding)) (sized_values sized)
    | neither unsized => exact absurd unsized (sized_values sized)
  | chunked coded some_coding =>
    cases h' with
    | length sized => exact absurd (unsized_of_coded framed (coded_values coded some_coding)) (sized_values sized)
    | chunked => rfl
    | neither _ uncoded => exact absurd uncoded (coded_values coded some_coding)
  | neither unsized uncoded =>
    cases h' with
    | length sized => exact absurd unsized (sized_values sized)
    | chunked coded some_coding => exact absurd uncoded (coded_values coded some_coding)
    | neither => rfl

theorem Describes.of_coded (h : Describes headers body payload)
    (coded : headerValues headers "Transfer-Encoding" ≠ []) :
    headerValues headers "Content-Length" ≠ [] ∨ body ≠ [] := by
  cases h with
  | length sized => exact .inl (sized_values sized)
  | chunked _ _ whole => exact .inr (checkChunkedBody_spec whole).2
  | neither _ uncoded => exact absurd uncoded coded

theorem Describes.of_uncoded (h : Describes headers body payload)
    (uncoded : headerValues headers "Transfer-Encoding" = []) :
    payload = body ∧ (headerValues headers "Content-Length" = [] → body = []) := by
  cases h with
  | length sized => exact ⟨rfl, fun unsized => absurd unsized (sized_values sized)⟩
  | chunked coded some_coding => exact absurd uncoded (coded_values coded some_coding)
  | neither _ _ empty => exact ⟨empty.symm, fun _ => empty⟩

end Payloads

section Rewriting

variable {n : Nat} {headers done : List Header} {s : Normalized} {h : Header}

theorem lengthHeader_parsed (n : Nat) : (lengthHeader (decimal n)).Parsed :=
  { lengthHeader_sendable n with stripped := lengthHeader_trimmed n }

theorem lengthName : casefold (ascii "Content-Length") = ascii "content-length" := by decide +kernel

theorem codingName_ne : casefold (ascii "Transfer-Encoding") ≠ ascii "content-length" := by decide +kernel

theorem headerValues_lengthHeader (digits : Bytes) :
    headerValues [lengthHeader digits] "Content-Length" = [digits] ∧
      headerValues [lengthHeader digits] "Transfer-Encoding" = [] := by
  have named : (lengthHeader digits).name = ascii "Content-Length" := rfl
  rw [headerValues_singleton, headerValues_singleton, named, if_pos rfl, if_neg]
  · exact ⟨rfl, rfl⟩
  · rw [lengthName]
    exact codingName_ne.symm

/-- The headers written so far against the part `done` of the headers of the message. -/
structure Rewritten (n : Nat) (done : List Header) (s : Normalized) : Prop where
  parsed : ∀ h ∈ s.headers, h.Parsed
  codings : headerValues s.headers "Transfer-Encoding" = headerValues done "Transfer-Encoding"
  length : headerValues s.headers "Content-Length" = if s.lengthWritten then [decimal n] else []
  written : s.lengthWritten = true ↔ headerValues done "Content-Length" ≠ []
  short : s.lengthWritten = true → (decimal n).length ≤ maxIntDigits
  count : s.headers.length ≤ done.length
  same : s.lengthWritten = false → s.headers.length = done.length

theorem Rewritten.next (inv : Rewritten n done s) (parsed : h.Parsed) :
    Sat (normalizeHeader (decimalText n) s h) (Rewritten n (done ++ [h])) (fun _ => True) := by
  rw [normalizeHeader]
  have count : (done ++ [h]).length = done.length + 1 := by simp
  by_cases length : casefold h.name = ascii "content-length"
  · have sized : headerValues (done ++ [h]) "Content-Length" ≠ [] := by
      rw [headerValues_append, headerValues_singleton, lengthName, if_pos length]
      simp
    have coded : headerValues (done ++ [h]) "Transfer-Encoding" = headerValues done "Transfer-Encoding" := by
      rw [headerValues_append, headerValues_singleton, length, if_neg codingName_ne.symm, List.append_nil]
    rw [if_pos length]
    cases written : s.lengthWritten with
    | true =>
      exact { inv with
        codings := inv.codings.trans coded.symm
        written := iff_of_true written sized
        count := inv.count.trans (by omega)
        same := fun unwritten => absurd unwritten (by simp [written]) }
    | false =>
      rw [if_neg Bool.false_ne_true]
      cases text : decimalText n with
      | error => trivial
      | ok digits =>
        rw [decimalText] at text
        obtain ⟨_, short, text⟩ := bind_eq_ok.mp text
        rw [require_eq_ok] at short
        cases text
        obtain ⟨lengths, codings⟩ := headerValues_lengthHeader (decimal n)
        refine { parsed := ?_, codings := ?_, length := ?_, written := iff_of_true rfl sized,
                 short := fun _ => short, count := ?_, same := by rintro ⟨⟩ }
        · intro h' mem
          obtain mem | mem := List.mem_append.mp mem
          · exact inv.parsed h' mem
          · rw [List.mem_singleton.mp mem]
            exact lengthHeader_parsed n
        · rw [coded, headerValues_append, codings, List.append_nil]
          exact inv.codings
        · rw [headerValues_append, lengths, inv.length, written]
          rfl
        · rw [List.length_append, List.length_singleton, count]
          exact Nat.succ_le_succ inv.count
  · have values (name : String) : headerValues (s.headers ++ [h]) name =
        headerValues s.headers name ++ headerValues [h] name := headerValues_append ..
    have unsized : headerValues [h] "Content-Length" = [] := by
      rw [headerValues_singleton, lengthName, if_neg length]
    rw [if_neg length]
    refine { parsed := ?_, codings := ?_, length := ?_, written := ?_, short := inv.short, count := ?_,
             same := fun unwritten => ?_ }
    · intro h' mem
      obtain mem | mem := List.mem_append.mp mem
      · exact inv.parsed h' mem
      · rw [List.mem_singleton.mp mem]
        exact parsed
    · rw [values, headerValues_append, inv.codings]
    · rw [values, unsized, List.append_nil, inv.length]
    · rw [headerValues_append, unsized, List.append_nil]
      exact inv.written
    · rw [List.length_append, List.length_singleton, count]
      exact Nat.succ_le_succ inv.count
    · rw [List.length_append, List.length_singleton, count, inv.same unwritten]

theorem foldlM_rewritten {rest : List Header} (inv : Rewritten n done s) (parsed : ∀ h ∈ rest, h.Parsed) :
    Sat (rest.foldlM (normalizeHeader (decimalText n)) s) (Rewritten n (done ++ rest)) (fun _ => True) := by
  induction rest generalizing done s with
  | nil =>
    rw [List.append_nil]
    exact inv
  | cons h rest ih =>
    rw [List.foldlM_cons, sat_bind]
    refine (inv.next (parsed h List.mem_cons_self)).mono (fun s' inv' => ?_) fun _ _ => trivial
    rw [List.append_cons]
    exact ih inv' fun h' mem => parsed h' (List.mem_cons_of_mem h mem)

/-- The headers that go out with a rewritten body. -/
structure Outgoing (n : Nat) (headers out : List Header) (declares : Prop) : Prop where
  parsed : ∀ h ∈ out, h.Parsed
  codings : headerValues out "Transfer-Encoding" = headerValues headers "Transfer-Encoding"
  sized : declares → headerValues out "Content-Length" = [decimal n] ∧ (decimal n).length ≤ maxIntDigits
  unsized : ¬ declares → headerValues out "Content-Length" = []
  kept : headerValues headers "Content-Length" ≠ [] ∨ ¬ declares → out.length ≤ headers.length
  grown : headerValues headers "Content-Length" = [] → declares → out.length = headers.length + 1

theorem InterceptRule.modify_ok {rule : InterceptRule} {raw start body output : Bytes}
    (parsed : parseRawMessage raw = .ok (start, headers, body)) (replaces : rule.replacement ≠ "")
    (modified : rule.modify raw = .ok output) :
    ∃ out, output = assembleMessage start out (rule.updated body) ∧
      Outgoing (rule.updated body).length headers out
        (headerValues headers "Content-Length" ≠ [] ∨ rule.updated body ≠ []) := by
  have taken := parseRawMessage_taken parsed
  rw [modify, if_neg replaces, parsed] at modified
  obtain ⟨s, folded, modified⟩ := bind_eq_ok.mp modified
  have empty : Rewritten (rule.updated body).length [] ⟨[], false⟩ :=
    ⟨nofun, rfl, rfl, by simp [headerValues], nofun, Nat.le_refl 0, fun _ => rfl⟩
  have inv := (foldlM_rewritten empty taken.parsed).of_ok folded
  rw [List.nil_append] at inv
  cases written : s.lengthWritten with
  | true =>
    rw [if_neg (by simp [written])] at modified
    cases modified
    have before := inv.written.mp written
    have lengths := inv.length
    rw [if_pos written] at lengths
    exact ⟨s.headers, rfl, inv.parsed, inv.codings, fun _ => ⟨lengths, inv.short written⟩,
      fun silent => absurd (.inl before) silent, fun _ => inv.count, fun unsized => absurd unsized before⟩
  | false =>
    have unsized : headerValues headers "Content-Length" = [] := by
      by_contra before
      rw [inv.written.mpr before] at written
      cases written
    have lengths := inv.length
    rw [written, if_neg Bool.false_ne_true] at lengths
    by_cases updated : rule.updated body = []
    · rw [if_neg (by simp [updated])] at modified
      cases modified
      have silent : ¬ (headerValues headers "Content-Length" ≠ [] ∨ rule.updated body ≠ []) := by
        simp [unsized, updated]
      exact ⟨s.headers, rfl, inv.parsed, inv.codings, fun declares => absurd declares silent, fun _ => lengths,
        fun _ => inv.count, fun _ declares => absurd declares silent⟩
    · rw [if_pos ⟨updated, written⟩] at modified
      obtain ⟨digits, text, modified⟩ := bind_eq_ok.mp modified
      cases modified
      rw [decimalText] at text
      obtain ⟨_, short, text⟩ := bind_eq_ok.mp text
      rw [require_eq_ok] at short
      cases text
      obtain ⟨added, codings⟩ := headerValues_lengthHeader (decimal (rule.updated body).length)
      have declares : headerValues headers "Content-Length" ≠ [] ∨ rule.updated body ≠ [] := .inr updated
      refine ⟨_, rfl, ?_, ?_, fun _ => ⟨?_, short⟩, fun silent => absurd declares silent, ?_, fun _ _ => ?_⟩
      · intro h mem
        obtain mem | mem := List.mem_append.mp mem
        · exact inv.parsed h mem
        · rw [List.mem_singleton.mp mem]
          exact lengthHeader_parsed _
      · rw [headerValues_append, codings, List.append_nil]
        exact inv.codings
      · rw [headerValues_append, added, lengths]
        rfl
      · rintro (before | silent)
        · exact absurd unsized before
        · exact absurd declares silent
      · rw [List.length_append, List.length_singleton, inv.same written]

end Rewriting

section Rules

variable {rule : InterceptRule} {headers : List Header} {raw start body payload output : Bytes}

theorem utf8_eq_nil {text : String} : utf8 text = [] ↔ text = "" := by
  constructor
  · intro empty
    have none_left := List.flatMap_eq_nil_iff.mp empty
    by_contra some_text
    obtain ⟨c, rest, shape⟩ := List.exists_cons_of_ne_nil fun h => some_text (String.toList_eq_nil_iff.mp h)
    have length := congrArg List.length (none_left c (by rw [shape]; exact List.mem_cons_self))
    rw [String.length_utf8EncodeChar] at length
    exact absurd length c.utf8Size_pos.ne'
  · rintro rfl
    rfl

/-- The pattern of the rule occurs; the one for a whole body occurs in a body that is not empty. -/
def InterceptRule.Occurs (rule : InterceptRule) (payload : Bytes) : Prop :=
  if rule.needle = [] then payload ≠ [] else rule.needle <:+: payload

/-- The rule leaves a message with a framing that describes the rewritten payload: an empty replacement with headers
that were accepted and without an occurrence, or another one without a transfer coding and with room for a length. -/
def InterceptRule.KeepsFraming (rule : InterceptRule) (headers : List Header) (payload : Bytes) : Prop :=
  if rule.replacement = "" then (messageFraming headers).isOk ∧ ¬ rule.Occurs payload
  else headerValues headers "Transfer-Encoding" = [] ∧
    (headerValues headers "Content-Length" ≠ [] ∨ headers.length < maxHeaders ∨ rule.needle ≠ [])

/-- The message has the start line, and an accepted framing that describes a body for this payload. -/
def Consistent (start payload output : Bytes) : Prop :=
  ∃ headers body framing, parseRawMessage output = .ok (start, headers, body) ∧
    messageFraming headers = .ok framing ∧ Describes headers body payload

theorem InterceptRule.updated_eq_self_iff (empty : rule.replacement = "") :
    rule.updated payload = payload ↔ ¬ rule.Occurs payload := by
  rw [updated, Occurs, empty, utf8_eq_nil.2 rfl]
  split
  next => exact eq_comm.trans not_not.symm
  next some_needle => exact deleteAll_eq_self_iff some_needle

theorem InterceptRule.modify_empty_iff (parsed : parseRawMessage raw = .ok (start, headers, body))
    (described : Describes headers body payload) (empty : rule.replacement = "") :
    Consistent start (rule.updated payload) raw ↔ rule.KeepsFraming headers payload := by
  rw [KeepsFraming, if_pos empty, ← updated_eq_self_iff empty]
  constructor
  · rintro ⟨headers', body', framing, parsed', framed, described'⟩
    cases parsed.symm.trans parsed'
    exact ⟨by rw [framed]; rfl, described.unique described' framed⟩
  · rintro ⟨accepted, same⟩
    cases framed : messageFraming headers with
    | error e =>
      rw [framed] at accepted
      cases accepted
    | ok framing =>
      refine ⟨headers, body, framing, parsed, framed, ?_⟩
      rw [same]
      exact described

theorem InterceptRule.updated_ne_nil (replaces : rule.replacement ≠ "") (some_body : rule.needle = [] ∨ body ≠ []) :
    rule.updated body ≠ [] := by
  have some_new : utf8 rule.replacement ≠ [] := fun empty => replaces (utf8_eq_nil.1 empty)
  rw [updated]
  split
  next => exact some_new
  next some_needle => exact replaceAll_ne_nil some_new (some_body.resolve_left some_needle)

theorem InterceptRule.modify_iff (parsed : parseRawMessage raw = .ok (start, headers, body))
    (described : Describes headers body payload) (replaces : rule.replacement ≠ "")
    (modified : rule.modify raw = .ok output) :
    Consistent start (rule.updated payload) output ↔ rule.KeepsFraming headers payload := by
  have taken := parseRawMessage_taken parsed
  obtain ⟨out, rfl, outgoing⟩ := rule.modify_ok parsed replaces modified
  have again := parse_assembled (rule.updated body) taken.started taken.plain fun h mem =>
    (outgoing.parsed h mem).toSendable
  have trimmed : out.map Header.trimmed = out :=
    (List.map_congr_left fun h mem => (outgoing.parsed h mem).stripped).trans (List.map_id _)
  rw [trimmed] at again
  rw [KeepsFraming, if_neg replaces]
  constructor
  · rintro ⟨headers', body', framing, parsed', framed, -⟩
    rw [again] at parsed'
    split at parsed'
    on_goal 2 => cases parsed'
    next fits =>
      cases parsed'
      have uncoded : headerValues headers "Transfer-Encoding" = [] := by
        by_contra coded
        have declares : headerValues headers "Content-Length" ≠ [] ∨ rule.updated body ≠ [] :=
          (described.of_coded coded).imp_right fun some_body => updated_ne_nil replaces (.inr some_body)
        have sized := (outgoing.sized declares).1
        rw [unsized_of_coded framed (by rwa [outgoing.codings])] at sized
        cases sized
      refine ⟨uncoded, ?_⟩
      by_contra crowded
      simp only [not_or, not_not, not_lt] at crowded
      obtain ⟨unsized, full, whole⟩ := crowded
      have grown := outgoing.grown unsized (.inr (updated_ne_nil replaces (.inl whole)))
      omega
  · rintro ⟨uncoded, room⟩
    obtain ⟨rfl, bodiless⟩ := described.of_uncoded uncoded
    have codings := transferCodings_none (outgoing.codings.trans uncoded)
    have fits : out.length ≤ maxHeaders := by
      by_cases unsized : headerValues headers "Content-Length" = []
      · by_cases updated : rule.updated payload = []
        · exact (outgoing.kept (.inr (by simp [unsized, updated]))).trans taken.count
        · have grown := outgoing.grown unsized (.inr updated)
          rcases room with sized | short | some_needle
          · exact absurd unsized sized
          · omega
          · refine absurd ?_ updated
            rw [InterceptRule.updated, if_neg some_needle, bodiless unsized]
            rfl
      · exact (outgoing.kept (.inl unsized)).trans taken.count
    rw [if_pos fits] at again
    by_cases declares : headerValues headers "Content-Length" ≠ [] ∨ rule.updated payload ≠ []
    · obtain ⟨sized, short⟩ := outgoing.sized declares
      have length := contentLength_decimal short sized
      exact ⟨out, _, _, again, messageFraming_of codings length (.inl rfl), .length length⟩
    · have unsized := outgoing.unsized declares
      have empty : rule.updated payload = [] := by
        by_contra updated
        exact declares (.inr updated)
      refine ⟨out, _, _, again, messageFraming_of codings (contentLength_none unsized) (.inl rfl), ?_⟩
      have neither : Describes out (rule.updated payload) [] :=
        .neither unsized (outgoing.codings.trans uncoded) empty
      rwa [empty] at neither ⊢

/-- A message that a rule rewrites keeps its start line and a framing that describes its body, which is the rewritten
payload, exactly where an empty replacement meets accepted headers and no occurrence, or another replacement meets no
transfer coding and has room for the length. -/
theorem modified_consistent_iff (lib : TextLibrary) (rules : List InterceptRule) (phase : InterceptPhase)
    (method host url : String) (raw start : Bytes) (headers : List Header) (body payload : Bytes)
    (parsed : parseRawMessage raw = .ok (start, headers, body)) (described : Describes headers body payload)
    (rule : InterceptRule) (found : rules.find? (fun rule => rule.matches lib phase method host url raw) = some rule)
    (decision : InterceptDecision) (decided : evaluate lib rules phase method host url raw = .ok (some decision))
    (modifies : decision.action = .modify) :
    Consistent start (rule.updated payload) decision.raw ↔ rule.KeepsFraming headers payload := by
  rw [evaluate, found] at decided
  dsimp only at decided
  split at decided
  on_goal 2 =>
    next other =>
      cases decided
      exact absurd modifies other
  obtain ⟨output, modified, decided⟩ := bind_eq_ok.mp decided
  cases decided
  by_cases empty : rule.replacement = ""
  · rw [InterceptRule.modify, if_pos empty] at modified
    cases modified
    exact rule.modify_empty_iff parsed described empty
  · exact rule.modify_iff parsed described empty modified

/-- Patterns without a special character match the same text only, and texts have lower case already. -/
def sampleTexts : TextLibrary where
  casefold := id
  upper := id
  fnmatchcase text pattern := pattern = "*" || text = pattern
  decodeUtf8 := latin1

def sampleRule (body replacement : String) : InterceptRule :=
  { id := "1", name := "rewrite", action := .modify, bodyPattern := body, replacement := replacement }

theorem rewritten_length_consistent :
    Consistent (ascii "POST / HTTP/1.1") (ascii "goodbye")
      (ascii "POST / HTTP/1.1\r\nHost: a.test\r\nContent-Length: 7\r\n\r\ngoodbye") :=
  (modified_consistent_iff sampleTexts [sampleRule "hello" "goodbye"] .request "POST" "a.test" "http://a.test/"
    (ascii "POST / HTTP/1.1\r\nHost: a.test\r\nContent-Length: 5\r\n\r\nhello") (ascii "POST / HTTP/1.1")
    [⟨ascii "Host", ascii "a.test"⟩, ⟨ascii "Content-Length", ascii "5"⟩] (ascii "hello") (ascii "hello")
    (by decide +kernel) (.length (by decide +kernel)) (sampleRule "hello" "goodbye") rfl
    ⟨.modify, ascii "POST / HTTP/1.1\r\nHost: a.test\r\nContent-Length: 7\r\n\r\ngoodbye", "1", "rewrite"⟩
    (by decide +kernel) rfl).mpr ⟨by decide +kernel, .inl (by decide +kernel)⟩

def chunkedMessage : Bytes :=
  ascii "POST / HTTP/1.1\r\nTransfer-Encoding: chunked\r\n\r\n5\r\nhello\r\n0\r\n\r\n"

def chunkedBody : Bytes := ascii "5\r\nhello\r\n0\r\n\r\n"

def rewrittenMessage : Bytes :=
  ascii "POST / HTTP/1.1\r\nTransfer-Encoding: chunked\r\nContent-Length: 3\r\n\r\nbye"

def rewrittenHeaders : List Header :=
  [⟨ascii "Transfer-Encoding", ascii "chunked"⟩, ⟨ascii "Content-Length", ascii "3"⟩]

/-- A rule that puts "bye" for the body of a chunked message sends it with both framing headers. -/
theorem chunked_rewrite_unframed :
    let headers : List Header := [⟨ascii "Transfer-Encoding", ascii "chunked"⟩]
    parseRawMessage chunkedMessage = .ok (ascii "POST / HTTP/1.1", headers, chunkedBody) ∧
      Describes headers chunkedBody (ascii "hello") ∧
      evaluate sampleTexts [sampleRule "*" "bye"] .request "POST" "a.test" "http://a.test/" chunkedMessage =
        .ok (some ⟨.modify, rewrittenMessage, "1", "rewrite"⟩) ∧
      ¬ Consistent (ascii "POST / HTTP/1.1") (ascii "bye") rewrittenMessage := by
  refine ⟨by decide +kernel, ?_, by decide +kernel, ?_⟩
  · have data : chunkData chunkedBody.length chunkedBody = ascii "hello" := by decide +kernel
    rw [← data]
    exact .chunked (show transferCodings _ = .ok [chunked] by decide +kernel) (by decide +kernel) (by decide +kernel)
  · rintro ⟨out, body, framing, parsed, framed, -⟩
    have read : parseRawMessage rewrittenMessage =
        .ok (ascii "POST / HTTP/1.1", rewrittenHeaders, ascii "bye") := by decide +kernel
    have refused : messageFraming rewrittenHeaders =
        .error (valueError "Transfer-Encoding and Content-Length cannot be combined") := by decide +kernel
    rw [read] at parsed
    cases parsed
    rw [refused] at framed
    cases framed

end Rules

end Arenyxa.Capture
