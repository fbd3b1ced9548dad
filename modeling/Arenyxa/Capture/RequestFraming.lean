import Arenyxa.Capture.Extent
import Arenyxa.Capture.Reader
import Arenyxa.Capture.Roundtrip

/-! What the receiver of a forwarded request takes for its body. -/

namespace Arenyxa.Capture

open Outcome Segments HttpError

section Decimal

theorem decimal_digits (n : Nat) : ∀ b ∈ decimal n, 48 ≤ b ∧ b ≤ 57 := by
  induction n using Nat.strongRecOn with
  | ind n ih =>
    have digit : ∀ d < 10, 48 ≤ UInt8.ofNat (48 + d) ∧ UInt8.ofNat (48 + d) ≤ 57 := by decide
    intro b hb
    rw [decimal] at hb
    split at hb
    next small =>
      rw [List.mem_singleton.mp hb]
      exact digit n small
    next large =>
      rcases List.mem_append.mp hb with hb | hb
      · exact ih (n / 10) (by omega) b hb
      · rw [List.mem_singleton.mp hb]
        exact digit (n % 10) (Nat.mod_lt n (by decide))

theorem ofDecimal_decimal (n : Nat) : ofDecimal (decimal n) = n := by
  induction n using Nat.strongRecOn with
  | ind n ih =>
    have digit : ∀ d < 10, (UInt8.ofNat (48 + d)).toNat - 48 = d := by decide
    rw [decimal]
    split
    next small =>
      simp only [ofDecimal, List.foldl_cons, List.foldl_nil, digit n small]
      omega
    next large =>
      have rest := ih (n / 10) (by omega)
      rw [ofDecimal] at rest ⊢
      rw [List.foldl_append, rest]
      simp only [List.foldl_cons, List.foldl_nil, digit (n % 10) (Nat.mod_lt n (by decide))]
      omega

theorem decimal_ne_nil (n : Nat) : decimal n ≠ [] := by
  rw [decimal]
  split <;> simp

end Decimal

section Fields

variable {headers : List Header} {h : Header}

@[simp] theorem headerValues_append (hs hs' : List Header) (name : String) :
    headerValues (hs ++ hs') name = headerValues hs name ++ headerValues hs' name := by
  simp [headerValues]

theorem headerValues_singleton (h : Header) (name : String) :
    headerValues [h] name = if casefold h.name = casefold (ascii name) then [h.value] else [] := by
  by_cases same : casefold h.name = casefold (ascii name) <;> simp [headerValues, same]

theorem fieldParts_eq_nil {name : String} :
    fieldParts headers name = [] ↔ headerValues headers name = [] := by
  rw [fieldParts, List.flatMap_eq_nil_iff]
  constructor
  · intro none_left
    by_contra values
    obtain ⟨v, rest, shape⟩ := List.exists_cons_of_ne_nil values
    have empty := none_left v (by rw [shape]; exact List.mem_cons_self)
    exact List.splitOn_ne_nil 44 v (List.map_eq_nil_iff.mp empty)
  · intro empty v hv
    rw [empty] at hv
    cases hv

theorem contentLength_decimal {n : Nat} (short : (decimal n).length ≤ maxIntDigits)
    (values : headerValues headers "Content-Length" = [decimal n]) :
    contentLength headers = .ok (some n) := by
  have digits := decimal_digits n
  have no_comma : (44 : UInt8) ∉ decimal n := fun h => absurd (digits 44 h).1 (by decide)
  have unspaced : strip (decimal n) = decimal n := by
    refine stripBy_eq_self fun b hb => ?_
    have all : ∀ d < 58, 48 ≤ d → isSpace (UInt8.ofNat d) = false := by decide
    have low : 48 ≤ b.toNat := UInt8.le_iff_toNat_le.mp (digits b hb).1
    have high : b.toNat ≤ 57 := UInt8.le_iff_toNat_le.mp (digits b hb).2
    rw [← UInt8.ofNat_toNat (x := b)]
    exact all b.toNat (by omega) low
  have parts : fieldParts headers "Content-Length" = [decimal n] := by
    rw [fieldParts, values]
    simp [List.splitOn_eq_singleton no_comma, unspaced]
  have isDec : isDecimal (decimal n) = true := by
    simp only [isDecimal, isDigit, Bool.and_eq_true, List.all_eq_true, decide_eq_true_eq]
    exact ⟨decimal_ne_nil n, digits⟩
  rw [contentLength, parts]
  simp [require, isDec, short, ofDecimal_decimal, bind, Except.bind, pure, Except.pure]

theorem contentLength_none (values : headerValues headers "Content-Length" = []) :
    contentLength headers = .ok none := by
  rw [contentLength, fieldParts_eq_nil.2 values]

theorem transferCodings_none (values : headerValues headers "Transfer-Encoding" = []) :
    transferCodings headers = .ok [] := by
  rw [transferCodings, fieldParts_eq_nil.2 values]
  rfl

theorem transferCodings_congr {headers' : List Header}
    (same : headerValues headers' "Transfer-Encoding" = headerValues headers "Transfer-Encoding") :
    transferCodings headers' = transferCodings headers := by
  rw [transferCodings, transferCodings, fieldParts, fieldParts, same]

theorem messageFraming_spec {isChunked : Bool} {length : Option Nat}
    (h : messageFraming headers = .ok (isChunked, length)) :
    (isChunked = true ↔ headerValues headers "Transfer-Encoding" ≠ []) ∧
      (isChunked = true → headerValues headers "Content-Length" = []) := by
  rw [messageFraming] at h
  obtain ⟨codings, hc, h⟩ := bind_eq_ok.mp h
  obtain ⟨length', hl, h⟩ := bind_eq_ok.mp h
  obtain ⟨_, apart, h⟩ := bind_eq_ok.mp h
  rw [require_eq_ok] at apart
  cases h
  have present : codings ≠ [] ↔ headerValues headers "Transfer-Encoding" ≠ [] := by
    rw [transferCodings] at hc
    obtain ⟨_, -, hc⟩ := bind_eq_ok.mp hc
    obtain ⟨_, -, hc⟩ := bind_eq_ok.mp hc
    cases hc
    rw [ne_eq, List.map_eq_nil_iff, fieldParts_eq_nil]
  refine ⟨by rw [decide_eq_true_iff]; exact present, fun chunked => ?_⟩
  have without : length = none := apart.resolve_left (of_decide_eq_true chunked)
  subst without
  rw [← fieldParts_eq_nil]
  cases parts : fieldParts headers "Content-Length" with
  | nil => rfl
  | cons first rest =>
    rw [contentLength, parts] at hl
    obtain ⟨_, -, hl⟩ := bind_eq_ok.mp hl
    obtain ⟨_, -, hl⟩ := bind_eq_ok.mp hl
    obtain ⟨_, -, hl⟩ := bind_eq_ok.mp hl
    cases hl

end Fields

section Filter

variable {dropped : List Bytes} {isChunked : Bool} {n : Nat} {authority : Except HttpError Bytes}

instance lawfulBytes : LawfulBEq Bytes := inferInstance

/-- The headers that are not removed hop by hop. -/
def kept (dropped : List Bytes) (headers : List Header) : List Header :=
  headers.filter fun h => casefold h.name ∉ dropped

/-- The kept headers that the proxy passes on as they are. -/
def passedOn (dropped : List Bytes) (headers : List Header) : List Header :=
  (kept dropped headers).filter fun h =>
    casefold h.name ≠ ascii "host" && casefold h.name ≠ ascii "content-length"

/-- The filtered headers against the part `done` of the request's headers. -/
structure FilterInv (dropped : List Bytes) (n : Nat) (done : List Header) (s : Filtered) :
    Prop where
  sendable : ∀ h ∈ s.headers, h.Sendable
  codings : headerValues (s.headers.map Header.trimmed) "Transfer-Encoding" =
    headerValues (kept dropped done) "Transfer-Encoding"
  length : headerValues (s.headers.map Header.trimmed) "Content-Length" =
    if s.sawContentLength then [decimal n] else []
  saw : s.sawContentLength = true ↔ headerValues (kept dropped done) "Content-Length" ≠ []
  short : s.sawContentLength = true → (decimal n).length ≤ maxIntDigits
  count : s.headers.length = (passedOn dropped done).length +
    (if s.seenHost then 1 else 0) + (if s.sawContentLength then 1 else 0)

theorem decimal_printable (n : Nat) :
    (decimal n).all (fun b => !isControl b || b == 9) = true := by
  refine List.all_eq_true.mpr fun b hb => ?_
  have all : ∀ d < 58, 48 ≤ d →
      (!isControl (UInt8.ofNat d) || UInt8.ofNat d == 9) = true := by decide
  have low : 48 ≤ b.toNat := UInt8.le_iff_toNat_le.mp (decimal_digits n b hb).1
  have high : b.toNat ≤ 57 := UInt8.le_iff_toNat_le.mp (decimal_digits n b hb).2
  rw [← UInt8.ofNat_toNat (x := b)]
  exact all b.toNat (by omega) low

theorem lengthHeader_sendable (n : Nat) : (lengthHeader (decimal n)).Sendable where
  named := by show ascii "Content-Length" ≠ []; decide
  token := by show (ascii "Content-Length").all isToken = true; decide
  printable := decimal_printable n

theorem lengthHeader_trimmed (n : Nat) :
    (lengthHeader (decimal n)).trimmed = lengthHeader (decimal n) := by
  refine congrArg (Header.mk _) (stripBy_eq_self fun b hb => ?_)
  have low := (decimal_digits n b hb).1
  simp only [Bool.or_eq_false_iff, beq_eq_false_iff_ne]
  constructor
  · rintro rfl
    exact absurd low (by decide)
  · rintro rfl
    exact absurd low (by decide)

theorem hostHeader_sendable {a : Bytes} (printable : a.all (fun b => !isControl b || b == 9) = true) :
    (hostHeader a).Sendable where
  named := by show ascii "Host" ≠ []; decide
  token := by show (ascii "Host").all isToken = true; decide
  printable := printable

theorem filterHeader_inv {done : List Header} {s : Filtered} {h : Header}
    (parsed : h.Parsed) (plain : isChunked = true → casefold h.name ≠ ascii "content-length")
    (printable : ∀ a, authority = .ok a → a.all (fun b => !isControl b || b == 9) = true)
    (inv : FilterInv dropped n done s) :
    Sat (filterHeader dropped authority (decimalText n) isChunked s h)
      (FilterInv dropped n (done ++ [h])) (fun _ => True) := by
  rw [filterHeader]
  by_cases gone : casefold h.name ∈ dropped
  · have same : kept dropped (done ++ [h]) = kept dropped done := by simp [kept, gone]
    rw [if_pos gone]
    exact { inv with
      codings := by rw [same]; exact inv.codings
      saw := by rw [same]; exact inv.saw
      count := by rw [passedOn, same]; exact inv.count }
  have grown : kept dropped (done ++ [h]) = kept dropped done ++ [h] := by simp [kept, gone]
  rw [if_neg gone]
  by_cases host : casefold h.name = ascii "host"
  · have passed : passedOn dropped (done ++ [h]) = passedOn dropped done := by
      simp [passedOn, grown, host]
    have te : headerValues (kept dropped (done ++ [h])) "Transfer-Encoding" =
        headerValues (kept dropped done) "Transfer-Encoding" := by
      rw [grown, headerValues_append, headerValues_singleton, host, if_neg (by decide +kernel),
        List.append_nil]
    have cl : headerValues (kept dropped (done ++ [h])) "Content-Length" =
        headerValues (kept dropped done) "Content-Length" := by
      rw [grown, headerValues_append, headerValues_singleton, host, if_neg (by decide +kernel),
        List.append_nil]
    rw [if_pos host]
    cases seen : s.seenHost with
    | true =>
      exact { inv with
        codings := by rw [te]; exact inv.codings
        saw := by rw [cl]; exact inv.saw
        count := by rw [passed]; exact inv.count }
    | false =>
      rw [if_neg Bool.false_ne_true]
      cases named : authority with
      | error e => trivial
      | ok a =>
        have fresh := hostHeader_sendable (printable a named)
        refine { sendable := ?_, codings := ?_, length := ?_, saw := ?_, short := inv.short,
                 count := ?_ }
        · intro h' hh
          rcases List.mem_append.mp hh with hh | hh
          · exact inv.sendable h' hh
          · rw [List.mem_singleton.mp hh]
            exact fresh
        · rw [te, List.map_append, headerValues_append, inv.codings]
          exact List.append_nil _
        · rw [List.map_append, headerValues_append, inv.length]
          exact List.append_nil _
        · rw [cl]
          exact inv.saw
        · have := inv.count
          rw [seen, if_neg Bool.false_ne_true] at this
          rw [passed, List.length_append, this]
          simp only [List.length_singleton, ↓reduceIte]
          omega
  rw [if_neg host]
  by_cases length : casefold h.name = ascii "content-length"
  · have passed : passedOn dropped (done ++ [h]) = passedOn dropped done := by
      simp [passedOn, grown, length]
    have te : headerValues (kept dropped (done ++ [h])) "Transfer-Encoding" =
        headerValues (kept dropped done) "Transfer-Encoding" := by
      rw [grown, headerValues_append, headerValues_singleton, length, if_neg (by decide +kernel),
        List.append_nil]
    have cl : headerValues (kept dropped (done ++ [h])) "Content-Length" ≠ [] := by
      rw [grown, headerValues_append, headerValues_singleton, length, if_pos (by decide +kernel)]
      simp
    have unchunked : isChunked = false := by
      cases isChunked with
      | false => rfl
      | true => exact absurd length (plain rfl)
    rw [if_pos length, unchunked, Bool.or_false]
    cases saw : s.sawContentLength with
    | true =>
      exact { inv with
        codings := by rw [te]; exact inv.codings
        saw := ⟨fun _ => cl, fun _ => saw⟩
        count := by rw [passed]; exact inv.count }
    | false =>
      rw [if_neg Bool.false_ne_true]
      cases written : decimalText n with
      | error e => trivial
      | ok digits =>
        rw [decimalText] at written
        obtain ⟨_, short, written⟩ := bind_eq_ok.mp written
        rw [require_eq_ok] at short
        cases written
        refine { sendable := ?_, codings := ?_, length := ?_, saw := ⟨fun _ => cl, fun _ => rfl⟩,
                 short := fun _ => short, count := ?_ }
        · intro h' hh
          rcases List.mem_append.mp hh with hh | hh
          · exact inv.sendable h' hh
          · rw [List.mem_singleton.mp hh]
            exact lengthHeader_sendable n
        · rw [te, List.map_append, headerValues_append, inv.codings]
          exact List.append_nil _
        · rw [List.map_append, headerValues_append, inv.length, saw, if_neg Bool.false_ne_true,
            List.map_singleton, lengthHeader_trimmed]
          rfl
        · have := inv.count
          rw [saw, if_neg Bool.false_ne_true] at this
          rw [passed, List.length_append, this]
          rfl
  · have passed : passedOn dropped (done ++ [h]) = passedOn dropped done ++ [h] := by
      simp [passedOn, grown, host, length]
    have cl : casefold (ascii "Content-Length") = ascii "content-length" := by decide +kernel
    rw [if_neg length]
    refine { sendable := ?_, codings := ?_, length := ?_, saw := ?_, short := inv.short,
             count := ?_ }
    · intro h' hh
      rcases List.mem_append.mp hh with hh | hh
      · exact inv.sendable h' hh
      · rw [List.mem_singleton.mp hh]
        exact parsed.toSendable
    · rw [grown, headerValues_append, List.map_append, headerValues_append, inv.codings,
        List.map_singleton, parsed.stripped]
    · rw [List.map_append, headerValues_append, inv.length, List.map_singleton, parsed.stripped,
        headerValues_singleton, cl, if_neg length, List.append_nil]
    · rw [grown, headerValues_append, headerValues_singleton, cl, if_neg length, List.append_nil]
      exact inv.saw
    · have := inv.count
      rw [passed, List.length_append, List.length_append, this]
      simp only [List.length_singleton]
      omega

theorem foldlM_inv (printable : ∀ a, authority = .ok a →
      a.all (fun b => !isControl b || b == 9) = true)
    {rest : List Header} {done : List Header} {s : Filtered} (parsed : ∀ h ∈ rest, h.Parsed)
    (plain : isChunked = true → ∀ h ∈ rest, casefold h.name ≠ ascii "content-length")
    (inv : FilterInv dropped n done s) :
    Sat (rest.foldlM (filterHeader dropped authority (decimalText n) isChunked) s)
      (FilterInv dropped n (done ++ rest)) (fun _ => True) := by
  induction rest generalizing done s with
  | nil =>
    rw [List.append_nil]
    exact inv
  | cons h rest ih =>
    rw [List.foldlM_cons, sat_bind]
    refine (filterHeader_inv (parsed h List.mem_cons_self)
      (fun chunked => plain chunked h List.mem_cons_self) printable inv).mono (fun s hs => ?_)
      (fun _ _ => trivial)
    have next := ih (fun h' hh => parsed h' (List.mem_cons_of_mem h hh))
      (fun chunked h' hh => plain chunked h' (List.mem_cons_of_mem h hh)) hs
    rw [List.append_assoc] at next
    exact next

end Filter

section Authority

variable {ipVersion : Bytes → Option Nat} {idna : Bytes → Except HttpError Bytes}

/-- An IDNA name has control characters only where the host has. -/
def PlainNames (idna : Bytes → Except HttpError Bytes) : Prop :=
  ∀ host text, idna host = .ok text → host.any isControl = false → text.any isControl = false

theorem printable_of_plain {text : Bytes} (h : text.any isControl = false) :
    text.all (fun b => !isControl b || b == 9) = true := by
  refine List.all_eq_true.mpr fun b hb => ?_
  rw [Bool.eq_false_iff.mpr (List.any_eq_false.mp h b hb)]
  rfl

theorem formatAuthority_printable (plain : PlainNames idna) {host a : Bytes} {port default : Int}
    (h : formatAuthority ipVersion idna host port default = .ok a) :
    a.all (fun b => !isControl b || b == 9) = true := by
  rw [formatAuthority] at h
  obtain ⟨⟨normalized, port'⟩, validated, h⟩ := bind_eq_ok.mp h
  obtain ⟨name, named, h⟩ := bind_eq_ok.mp h
  have host_plain : normalized.any isControl = false := by
    rw [validatedHostPort] at validated
    obtain ⟨_, hosted, validated⟩ := bind_eq_ok.mp validated
    obtain ⟨_, -, validated⟩ := bind_eq_ok.mp validated
    rw [require_eq_ok] at hosted
    cases validated
    refine List.any_eq_false.mpr fun b hb => ?_
    have := List.any_eq_false.mp (Bool.not_eq_true' _ ▸ hosted.2) b hb
    simp only [Bool.or_eq_true, decide_eq_true_eq, not_or] at this
    simp only [isControl, Bool.or_eq_true, decide_eq_true_eq, not_or]
    exact ⟨fun low => this.1 (UInt8.le_of_lt low), this.2⟩
  have name_plain : name.all (fun b => !isControl b || b == 9) = true := by
    rw [authorityHost] at named
    split at named
    next => exact printable_of_plain (plain _ _ named host_plain)
    next version _ =>
      cases named
      split
      next =>
        rw [List.all_append, List.all_cons, printable_of_plain host_plain]
        decide
      next => exact printable_of_plain host_plain
  cases h
  split
  next => exact name_plain
  next =>
    rw [List.all_append, List.all_cons, name_plain, decimal_printable]
    decide

end Authority

section Forwarded

variable {ipVersion : Bytes → Option Nat} {idna : Bytes → Except HttpError Bytes}

/-- The names the proxy removes: those of its own list and those the sender lists. -/
def removed (headers : List Header) : List Bytes :=
  hopByHop ++ (fieldParts headers "Connection").map casefold

/-- Whether the forwarded request has a `Content-Length`. -/
def declaresLength (headers : List Header) (body : Bytes) : Bool :=
  headerValues (kept (removed headers) headers) "Content-Length" ≠ [] ||
    (headerValues headers "Transfer-Encoding" = [] && body ≠ [])

/-- How many headers the forwarded request has: `Host` and `Connection` are always there. -/
def forwardedCount (headers : List Header) (body : Bytes) : Nat :=
  (passedOn (removed headers) headers).length + 2 + if declaresLength headers body then 1 else 0

/-- The sender lists its own `Transfer-Encoding` among the connection options. -/
def hidesChunked (headers : List Header) : Bool :=
  headerValues headers "Transfer-Encoding" ≠ [] && ascii "transfer-encoding" ∈ removed headers

theorem headerValues_kept (dropped : List Bytes) (headers : List Header) (name : String) :
    headerValues (kept dropped headers) name =
      if casefold (ascii name) ∈ dropped then [] else headerValues headers name := by
  induction headers with
  | nil => split <;> rfl
  | cons h headers ih =>
    rw [← List.singleton_append, headerValues_append, headerValues_singleton]
    by_cases gone : casefold h.name ∈ dropped
    · have same : kept dropped ([h] ++ headers) = kept dropped headers := by simp [kept, gone]
      rw [same, ih]
      split
      next => rfl
      next stays =>
        rw [if_neg, List.nil_append]
        intro here
        exact stays (here ▸ gone)
    · have grown : kept dropped ([h] ++ headers) = [h] ++ kept dropped headers := by
        simp [kept, gone]
      rw [grown, headerValues_append, headerValues_singleton, ih]
      by_cases here : casefold (ascii name) ∈ dropped
      · rw [if_pos here, if_pos here, if_neg, List.nil_append]
        intro same
        exact gone (same ▸ here)
      · rw [if_neg here, if_neg here]

/-- What the receiver finds in the headers of a forwarded request. -/
structure ForwardedHeaders (headers : List Header) (body : Bytes) (sent : List Header) :
    Prop where
  sendable : ∀ h ∈ sent, h.Sendable
  codings : headerValues (sent.map Header.trimmed) "Transfer-Encoding" =
    if hidesChunked headers then [] else headerValues headers "Transfer-Encoding"
  length : headerValues (sent.map Header.trimmed) "Content-Length" =
    if declaresLength headers body then [decimal body.length] else []
  short : declaresLength headers body = true → (decimal body.length).length ≤ maxIntDigits
  count : sent.length = forwardedCount headers body

theorem withHost_spec {dropped : List Bytes} {n : Nat} {headers hosted : List Header}
    {authority : Except HttpError Bytes} {filtered : Filtered}
    (printable : ∀ a, authority = .ok a → a.all (fun b => !isControl b || b == 9) = true)
    (inv : FilterInv dropped n headers filtered) (named : withHost authority filtered = .ok hosted) :
    (∀ h ∈ hosted, h.Sendable) ∧
      headerValues (hosted.map Header.trimmed) "Transfer-Encoding" =
        headerValues (filtered.headers.map Header.trimmed) "Transfer-Encoding" ∧
      headerValues (hosted.map Header.trimmed) "Content-Length" =
        headerValues (filtered.headers.map Header.trimmed) "Content-Length" ∧
      hosted.length = (passedOn dropped headers).length + 1 +
        (if filtered.sawContentLength then 1 else 0) := by
  have count := inv.count
  rw [withHost] at named
  cases seen : filtered.seenHost with
  | true =>
    rw [seen, if_pos rfl] at named count
    cases named
    exact ⟨inv.sendable, rfl, rfl, count⟩
  | false =>
    rw [seen, if_neg Bool.false_ne_true] at named count
    obtain ⟨a, written, named⟩ := bind_eq_ok.mp named
    cases named
    refine ⟨fun h hh => ?_, rfl, rfl, ?_⟩
    · rcases List.mem_cons.mp hh with rfl | hh
      · exact hostHeader_sendable (printable a written)
      · exact inv.sendable h hh
    · rw [List.length_cons, count]
      omega

theorem forwardHeaders_spec (plain : PlainNames idna) {headers sent : List Header}
    {body host scheme : Bytes} {port : Int} (parsed : ∀ h ∈ headers, h.Parsed)
    (h : forwardHeaders ipVersion idna headers body host port scheme = .ok sent) :
    ForwardedHeaders headers body sent := by
  rw [forwardHeaders] at h
  obtain ⟨⟨isChunked, length⟩, framing, h⟩ := bind_eq_ok.mp h
  obtain ⟨_, -, h⟩ := bind_eq_ok.mp h
  obtain ⟨_, -, h⟩ := bind_eq_ok.mp h
  obtain ⟨options, listed, h⟩ := bind_eq_ok.mp h
  obtain ⟨filtered, folded, h⟩ := bind_eq_ok.mp h
  obtain ⟨hosted, named, built⟩ := bind_eq_ok.mp h
  obtain ⟨chunked_iff, unsized⟩ := messageFraming_spec framing
  have options_eq : options = (fieldParts headers "Connection").map casefold := by
    rw [connectionOptions] at listed
    obtain ⟨_, -, listed⟩ := bind_eq_ok.mp listed
    cases listed
    rfl
  subst options_eq
  have printable : ∀ a, formatAuthority ipVersion idna host port (defaultPort scheme) = .ok a →
      a.all (fun b => !isControl b || b == 9) = true := fun a => formatAuthority_printable plain
  have unsized' : isChunked = true →
      ∀ h ∈ headers, casefold h.name ≠ ascii "content-length" := by
    intro chunked h hh same
    have empty := unsized chunked
    rw [headerValues, List.map_eq_nil_iff, List.filter_eq_nil_iff] at empty
    exact empty h hh (decide_eq_true (same.trans (by decide +kernel)))
  have start : FilterInv (removed headers) body.length [] ⟨[], false, false⟩ :=
    ⟨by simp, rfl, rfl, by simp [kept, headerValues], by simp, rfl⟩
  have inv := (foldlM_inv printable parsed unsized' start).of_ok folded
  rw [List.nil_append] at inv
  obtain ⟨sendable, codings, length, count⟩ := withHost_spec printable inv named
  have declared : declaresLength headers body =
      (filtered.sawContentLength || (!isChunked && body ≠ [])) := by
    have sized := inv.saw
    simp only [declaresLength]
    congr 1
    · rw [Bool.eq_iff_iff, decide_eq_true_iff]
      exact sized.symm
    · congr 1
      rw [Bool.eq_iff_iff, decide_eq_true_iff, Bool.not_eq_true', ← Bool.not_eq_true, chunked_iff,
        not_not]
  have hidden : headerValues (kept (removed headers) headers) "Transfer-Encoding" =
      if hidesChunked headers then [] else headerValues headers "Transfer-Encoding" := by
    rw [headerValues_kept, show casefold (ascii "Transfer-Encoding") = ascii "transfer-encoding" by
      decide]
    by_cases listed : ascii "transfer-encoding" ∈ removed headers
    · by_cases coded : headerValues headers "Transfer-Encoding" = []
      · simp [hidesChunked, coded]
      · simp [hidesChunked, coded, listed]
    · simp [hidesChunked, listed]
  have closed : ∀ h ∈ hosted ++ [closeHeader], h.Sendable := by
    intro h hh
    rcases List.mem_append.mp hh with hh | hh
    · exact sendable h hh
    · rw [List.mem_singleton.mp hh]
      exact ⟨by decide +kernel, by decide +kernel, by decide +kernel⟩
  have codings' : headerValues ((hosted ++ [closeHeader]).map Header.trimmed) "Transfer-Encoding" =
      if hidesChunked headers then [] else headerValues headers "Transfer-Encoding" := by
    rw [List.map_append, headerValues_append, codings, inv.codings, hidden]
    exact List.append_nil _
  have length' : headerValues ((hosted ++ [closeHeader]).map Header.trimmed) "Content-Length" =
      if filtered.sawContentLength then [decimal body.length] else [] := by
    rw [List.map_append, headerValues_append, length, inv.length]
    exact List.append_nil _
  rw [withLength] at built
  cases missing : !isChunked && body ≠ [] && !filtered.sawContentLength with
  | false =>
    rw [missing, if_neg Bool.false_ne_true] at built
    cases built
    have same : declaresLength headers body = filtered.sawContentLength := by
      rw [declared]
      revert missing
      cases filtered.sawContentLength <;> cases (!isChunked && decide (body ≠ [])) <;> simp
    refine ⟨closed, codings', by rw [same]; exact length', by rw [same]; exact inv.short, ?_⟩
    rw [List.length_append, count, forwardedCount, same]
    simp only [List.length_singleton]
    omega
  | true =>
    rw [missing, if_pos rfl] at built
    obtain ⟨digits, written, built⟩ := bind_eq_ok.mp built
    rw [decimalText] at written
    obtain ⟨_, short, written⟩ := bind_eq_ok.mp written
    rw [require_eq_ok] at short
    cases written
    cases built
    rw [Bool.and_eq_true, Bool.not_eq_true'] at missing
    have same : declaresLength headers body = true := by
      rw [declared, missing.1, Bool.or_true]
    refine ⟨?_, ?_, ?_, fun _ => short, ?_⟩
    · intro h hh
      rcases List.mem_append.mp hh with hh | hh
      · exact closed h hh
      · rw [List.mem_singleton.mp hh]
        exact lengthHeader_sendable body.length
    · rw [List.map_append, headerValues_append, codings']
      exact List.append_nil _
    · rw [List.map_append, headerValues_append, length', missing.2, same, List.map_singleton,
        lengthHeader_trimmed]
      rfl
    · rw [List.length_append, List.length_append, count, forwardedCount, same, missing.2]
      rfl

theorem messageFraming_of {headers : List Header} {codings : List Bytes} {length : Option Nat}
    (hc : transferCodings headers = .ok codings) (hl : contentLength headers = .ok length)
    (apart : codings = [] ∨ length = none) :
    messageFraming headers = .ok (codings ≠ [], length) := by
  rw [messageFraming, hc, hl]
  simp only [bind, Except.bind, require, apart, ↓reduceIte]
  rfl

theorem checkChunkedBody_spec {body : Bytes} (h : checkChunkedBody true body = .ok ()) :
    readChunked Feed.exhausted body body.length = .ok body ∧ body ≠ [] := by
  have read : readChunked Feed.exhausted body body.length = .ok body := by
    rw [checkChunkedBody, if_pos rfl] at h
    split at h
    next => cases h
    next => cases h
    next encodedBody read =>
      rw [require_eq_ok] at h
      rw [read, h]
  refine ⟨read, ?_⟩
  rintro rfl
  have refused : (readChunked Feed.exhausted [] (0 : Nat)).toBool = false := by decide +kernel
  rw [List.length_nil] at read
  rw [read] at refused
  cases refused

/-- A receiver that goes by the headers of a request takes exactly the rest for its body. -/
def Framed (r : Bytes) : Prop :=
  ∃ start headers body isChunked length,
    parseRawMessage r = .ok (start, headers, body) ∧
    messageFraming headers = .ok (isChunked, length) ∧
    ((isChunked = true ∧ length = none ∧
        readChunked Feed.exhausted body body.length = .ok body) ∨
      (isChunked = false ∧ length = some body.length) ∨
      (isChunked = false ∧ length = none ∧ body = []))

theorem startLine_plain {method target version : Bytes}
    (h : checkRequestLine method version = .ok ()) (plain : target.any isControl = false) :
    startLine method target version ≠ [] ∧
      (startLine method target version).any isControl = false := by
  rw [checkRequestLine] at h
  obtain ⟨_, named, h⟩ := bind_eq_ok.mp h
  rw [require_eq_ok] at named h
  have method_plain : method.any isControl = false := by
    refine List.any_eq_false.mpr fun b hb => ?_
    rw [(isToken_facts (List.all_eq_true.mp named.2.2 b hb)).2.2.2.2]
    exact Bool.false_ne_true
  have version_plain : version.any isControl = false := by
    rcases h with rfl | rfl <;> decide
  constructor
  · simp [startLine, named.1]
  · simp only [startLine, List.any_append, List.any_cons, method_plain, plain, version_plain]
    decide

/-- A forwarded request is framed as it is meant, unless the sender has the proxy drop the
`Transfer-Encoding` of a chunked body or the headers added on the way are too many. -/
theorem forwarded_framed_iff (ipVersion : Bytes → Option Nat)
    (idna : Bytes → Except HttpError Bytes) (plainNames : PlainNames idna)
    (head start : Bytes) (headers : List Header) (parsed : parseHead head = .ok (start, headers))
    (method target version body host : Bytes) (port : Int) (scheme r : Bytes)
    (plainTarget : target.any isControl = false)
    (h : normalizeForwardRequest ipVersion idna method target version headers body host port
      scheme = .ok r) :
    Framed r ↔ hidesChunked headers = false ∧ forwardedCount headers body ≤ maxHeaders := by
  rw [normalizeForwardRequest] at h
  obtain ⟨_, line, h⟩ := bind_eq_ok.mp h
  obtain ⟨sent, forwarded, h⟩ := bind_eq_ok.mp h
  cases h
  obtain ⟨started, plain⟩ := startLine_plain line plainTarget
  have spec := forwardHeaders_spec plainNames (parseHead_parsed parsed) forwarded
  rw [forwardHeaders] at forwarded
  obtain ⟨⟨isChunked, length⟩, framing, forwarded⟩ := bind_eq_ok.mp forwarded
  obtain ⟨_, checked, -⟩ := bind_eq_ok.mp forwarded
  obtain ⟨chunked_iff, unsized⟩ := messageFraming_spec framing
  have back := parse_assembled body started plain spec.sendable
  rw [spec.count] at back
  by_cases fits : forwardedCount headers body ≤ maxHeaders
  swap
  · rw [if_neg fits] at back
    refine iff_of_false ?_ (fun both => fits both.2)
    rintro ⟨_, _, _, _, _, again, -⟩
    rw [back] at again
    cases again
  rw [if_pos fits] at back
  have codings := spec.codings
  have sized := spec.length
  cases hidden : hidesChunked headers with
  | true =>
    -- The receiver finds no framing at all, but a chunked body is never empty.
    rw [hidden, if_pos rfl] at codings
    rw [hidesChunked, Bool.and_eq_true, decide_eq_true_iff] at hidden
    have chunked := chunked_iff.mpr hidden.1
    subst chunked
    have undeclared : declaresLength headers body = false := by
      simp [declaresLength, headerValues_kept, unsized rfl, hidden.1]
    rw [undeclared, if_neg Bool.false_ne_true] at sized
    have none_left := messageFraming_of (transferCodings_none codings) (contentLength_none sized)
      (.inl rfl)
    refine iff_of_false ?_ (fun both => nomatch both.1)
    rintro ⟨_, _, _, _, _, again, framed, cases⟩
    rw [back] at again
    cases again
    rw [none_left] at framed
    cases framed
    rcases cases with ⟨chunked, -⟩ | ⟨-, size⟩ | ⟨-, -, empty⟩
    · simp at chunked
    · cases size
    · exact (checkChunkedBody_spec checked).2 empty
  | false =>
    rw [hidden, if_neg Bool.false_ne_true] at codings
    refine iff_of_true ?_ ⟨rfl, fits⟩
    cases isChunked with
    | true =>
      have coded := chunked_iff.mp rfl
      have undeclared : declaresLength headers body = false := by
        simp [declaresLength, headerValues_kept, unsized rfl, coded]
      rw [undeclared, if_neg Bool.false_ne_true] at sized
      rw [messageFraming] at framing
      obtain ⟨names, named, framing⟩ := bind_eq_ok.mp framing
      obtain ⟨length', -, framing⟩ := bind_eq_ok.mp framing
      obtain ⟨_, -, framing⟩ := bind_eq_ok.mp framing
      have some_coding : names ≠ [] := of_decide_eq_true (congrArg Prod.fst (Except.ok.inj framing))
      have kept_framing := messageFraming_of ((transferCodings_congr codings).trans named)
        (contentLength_none sized) (.inr rfl)
      refine ⟨_, _, body, _, _, back, kept_framing, .inl ⟨decide_eq_true some_coding, rfl, ?_⟩⟩
      exact (checkChunkedBody_spec checked).1
    | false =>
      have uncoded : headerValues headers "Transfer-Encoding" = [] := by
        by_contra coded
        exact Bool.false_ne_true (chunked_iff.mpr coded)
      rw [uncoded] at codings
      cases declared : declaresLength headers body with
      | true =>
        rw [declared, if_pos rfl] at sized
        have kept_framing := messageFraming_of (transferCodings_none codings)
          (contentLength_decimal (spec.short declared) sized) (.inl rfl)
        exact ⟨_, _, body, _, _, back, kept_framing, .inr (.inl ⟨by simp, rfl⟩)⟩
      | false =>
        rw [declared, if_neg Bool.false_ne_true] at sized
        have kept_framing := messageFraming_of (transferCodings_none codings)
          (contentLength_none sized) (.inl rfl)
        have empty : body = [] := by
          simp only [declaresLength, uncoded, Bool.or_eq_false_iff, decide_true, Bool.true_and,
            decide_eq_false_iff_not, not_not] at declared
          exact declared.2
        exact ⟨_, _, body, _, _, back, kept_framing, .inr (.inr ⟨by simp, rfl, empty⟩)⟩

def sampleHead : Bytes := ascii "POST / HTTP/1.1\r\nHost: a.test\r\n\r\n"

def sampleRequest : Bytes :=
  ascii "POST / HTTP/1.1\r\nHost: a.test\r\nConnection: close\r\nContent-Length: 2\r\n\r\nhi"

theorem sampleRequest_framed : Framed sampleRequest :=
  (forwarded_framed_iff (fun _ => none) .ok
    (fun host text same plain => Except.ok.inj same ▸ plain)
    sampleHead (ascii "POST / HTTP/1.1") [⟨ascii "Host", ascii "a.test"⟩] (by decide +kernel)
    (ascii "POST") (ascii "/") (ascii "HTTP/1.1") (ascii "hi") (ascii "a.test") 80 (ascii "http")
    sampleRequest (by decide +kernel) (by decide +kernel)).mpr ⟨by decide +kernel, by decide +kernel⟩

def smuggledHeaders : List Header :=
  [⟨ascii "Host", ascii "a.test"⟩, ⟨ascii "Transfer-Encoding", ascii "chunked"⟩,
    ⟨ascii "Connection", ascii "transfer-encoding"⟩]

def smuggledRequest : Bytes :=
  ascii "POST / HTTP/1.1\r\nHost: a.test\r\nConnection: close\r\n\r\n0\r\n\r\n"

/-- A chunked request whose sender lists `Transfer-Encoding` as a connection option goes out
with its body and without any framing. -/
theorem smuggledRequest_unframed :
    normalizeForwardRequest (fun _ => none) .ok (ascii "POST") (ascii "/") (ascii "HTTP/1.1")
        smuggledHeaders (ascii "0\r\n\r\n") (ascii "a.test") 80 (ascii "http") =
      .ok smuggledRequest ∧ ¬Framed smuggledRequest := by
  refine ⟨by decide +kernel, ?_⟩
  rintro ⟨start, headers, body, isChunked, length, parsed, framing, framed⟩
  have read : parseRawMessage smuggledRequest = .ok (ascii "POST / HTTP/1.1",
      [⟨ascii "Host", ascii "a.test"⟩, ⟨ascii "Connection", ascii "close"⟩],
      ascii "0\r\n\r\n") := by decide +kernel
  have unframed : messageFraming
      [⟨ascii "Host", ascii "a.test"⟩, ⟨ascii "Connection", ascii "close"⟩] =
      .ok (false, none) := by decide +kernel
  rw [read] at parsed
  cases parsed
  rw [unframed] at framing
  cases framing
  rcases framed with ⟨chunked, -⟩ | ⟨-, size⟩ | ⟨-, -, empty⟩
  · cases chunked
  · cases size
  · exact absurd empty (by decide +kernel)

end Forwarded

end Arenyxa.Capture
