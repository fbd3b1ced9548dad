import Arenyxa.Capture.Extent
import Arenyxa.Capture.Roundtrip
import Mathlib.Algebra.GroupWithZero.Nat

/-! The grammar of a chunked body, and that the reader accepts what is derived from it and nothing
else. -/

namespace Arenyxa.Capture

open Outcome Search Segments HttpError

/-- A chunk-size line: hexadecimal digits, perhaps between spaces, and perhaps an extension. -/
structure SizeLine (line : Bytes) (size : Nat) : Prop where
  short : line.length ≤ 8192
  printable : line.any isControl = false
  shape : ∃ before digits after extension, line = before ++ digits ++ after ++ extension ∧
    (∀ b ∈ before ++ after, b = 32) ∧ (extension = [] ∨ extension.head? = some 59) ∧
    digits ≠ [] ∧ digits.length ≤ 16 ∧ digits.all hexDigits.contains = true ∧ ofHex digits = size

structure Chunk where
  line : Bytes
  data : Bytes

def Chunk.encode (c : Chunk) : Bytes := c.line ++ (crlf ++ (c.data ++ crlf))

/-- A trailer line: a header field that may come so late. -/
def TrailerLine (line : Bytes) : Prop :=
  ∃ name value, line = name ++ 58 :: value ∧ name ≠ [] ∧ name.all isToken = true ∧
    value.all (fun b => !isControl b || b == 9) = true ∧ casefold name ∉ forbiddenTrailerFields

/-- The parts of a chunked body. -/
structure ChunkedBody where
  chunks : List Chunk
  last : Bytes
  trailers : List Bytes

namespace ChunkedBody

def encodeTrailers (trailers : List Bytes) : Bytes := trailers.flatMap (· ++ crlf) ++ crlf

def encode (m : ChunkedBody) : Bytes :=
  m.chunks.flatMap Chunk.encode ++ (m.last ++ (crlf ++ encodeTrailers m.trailers))

/-- The length of the data. -/
def size (m : ChunkedBody) : Nat := (m.chunks.map fun c => c.data.length).sum

/-- Which lines state a size is left open. -/
structure WellFormed (States : Bytes → Nat → Prop) (m : ChunkedBody) : Prop where
  chunks : ∀ c ∈ m.chunks, States c.line c.data.length ∧ c.data ≠ []
  last : States m.last 0
  few : m.trailers.length ≤ maxTrailers
  trailers : ∀ t ∈ m.trailers, TrailerLine t

end ChunkedBody

section Breaks

variable {text rest : Bytes} {n : Nat}

theorem find?_crlf_append (unbroken : find? crlf text = none) (rest : Bytes) :
    find? crlf (text ++ (crlf ++ rest)) = some text.length := by
  induction text with
  | nil => exact find?_cons_of_starts ⟨rest, rfl⟩
  | cons b text ih =>
    rw [find?] at unbroken
    split at unbroken
    next => cases unbroken
    next absent =>
      rw [List.cons_append, find?_cons_of_not, ih (Option.map_eq_none_iff.mp unbroken)]
      · rfl
      · rintro ⟨m, hm⟩
        obtain ⟨rfl, second⟩ := List.cons.inj hm
        cases text with
        | nil => exact absurd (List.cons.inj second).1 (by decide)
        | cons c text =>
          obtain ⟨rfl, -⟩ := List.cons.inj second
          exact absent ⟨text, rfl⟩

theorem find?_crlf_of_printable (printable : text.any isControl = false) : find? crlf text = none := by
  induction text with
  | nil => rfl
  | cons b text ih =>
    rw [List.any_cons, Bool.or_eq_false_iff] at printable
    rw [find?_cons_of_not, ih printable.2]
    · rfl
    · rintro ⟨m, hm⟩
      obtain ⟨rfl, -⟩ := List.cons.inj hm
      exact absurd printable.1 (by decide)

theorem split_of_find? (found : find? crlf text = some n) :
    find? crlf (text.take n) = none ∧ text = text.take n ++ (crlf ++ text.drop (n + 2)) := by
  induction text generalizing n with
  | nil => cases found
  | cons b text ih =>
    by_cases here : crlf <+: b :: text
    · rw [find?_cons_of_starts here] at found
      cases found
      obtain ⟨m, hm⟩ := here
      rw [← hm]
      exact ⟨rfl, rfl⟩
    · rw [find?_cons_of_not here] at found
      obtain ⟨k, hk, rfl⟩ := Option.map_eq_some_iff.mp found
      obtain ⟨unbroken, split⟩ := ih hk
      refine ⟨?_, congrArg (b :: ·) split⟩
      rw [List.take_succ_cons, find?_cons_of_not, unbroken]
      · rfl
      · rintro ⟨m, hm⟩
        refine here ⟨m ++ text.drop k, ?_⟩
        rw [← List.append_assoc, hm, List.cons_append, List.take_append_drop]

theorem take_break (found : find? crlf text = some n) : text.take (n + 2) = text.take n ++ crlf := by
  obtain ⟨-, split⟩ := split_of_find? found
  have inside := find?_add_length_le found
  have long : (text.take n ++ crlf).length = n + 2 := by
    rw [List.length_append, List.length_take, Nat.min_eq_left (by omega)]
    rfl
  conv_lhs => rw [split, ← List.append_assoc]
  exact List.take_left' long

theorem take_line (found : find? crlf text = some n) (k : Nat) :
    text.take (n + 2 + k) = text.take n ++ (crlf ++ (text.drop (n + 2)).take k) := by
  rw [List.take_add, take_break found, List.append_assoc]

theorem drop_line (line rest : Bytes) : (line ++ (crlf ++ rest)).drop (line.length + 2) = rest := by
  rw [← List.append_assoc, List.drop_left']
  exact List.length_append

theorem splitLines_unbroken (unbroken : find? crlf text = none) : splitLines text = [text] := by
  induction text using splitLines.induct with
  | case1 => rfl
  | case2 rest ih => rw [find?_cons_of_starts ⟨rest, rfl⟩] at unbroken; cases unbroken
  | case3 b rest last none_left => exact absurd none_left (splitLines_ne_nil rest)
  | case4 b rest last line lines shape ih =>
    rw [find?] at unbroken
    split at unbroken
    next => cases unbroken
    next =>
      rw [ih (Option.map_eq_none_iff.mp unbroken)] at shape
      cases shape
      rw [splitLines, ih (Option.map_eq_none_iff.mp unbroken)]
      exact last

end Breaks

section Lines

variable {line text : Bytes} {size : Nat}

theorem dropWhile_ne_cons {a b : UInt8} {rest : Bytes} (h : line.dropWhile (· ≠ a) = b :: rest) : b = a := by
  have first := List.head?_dropWhile_not (fun b : UInt8 => decide (b ≠ a)) line
  rw [h] at first
  simpa using first

theorem stripBy_parts (p : UInt8 → Bool) (text : Bytes) :
    ∃ before after, text = before ++ stripBy p text ++ after ∧ ∀ b ∈ before ++ after, p b = true := by
  refine ⟨text.takeWhile p, (text.dropWhile p).rtakeWhile p, ?_, fun b mem => ?_⟩
  · rw [stripBy, List.append_assoc, List.rdropWhile_append_rtakeWhile, List.takeWhile_append_dropWhile]
  · rcases List.mem_append.mp mem with mem | mem
    · exact List.mem_takeWhile_imp mem
    · exact List.mem_rtakeWhile_imp mem

theorem stripBy_surrounded {p : UInt8 → Bool} {before after : Bytes} (space : ∀ b ∈ before ++ after, p b = true)
    (solid : ∀ b ∈ text, p b = false) : stripBy p (before ++ text ++ after) = stripBy p text := by
  have front : (before ++ text ++ after).dropWhile p = (text ++ after).dropWhile p := by
    rw [List.append_assoc, List.dropWhile_append_of_pos fun b mem => space b (List.mem_append_left _ mem)]
  cases text with
  | nil =>
    have gone : ([] ++ after : Bytes).dropWhile p = [] :=
      List.dropWhile_eq_nil_iff.mpr fun b mem => space b (List.mem_append_right _ mem)
    rw [stripBy, front, gone]
    rfl
  | cons b text =>
    have stays : (b :: text ++ after).dropWhile p = b :: text ++ after := by
      rw [List.cons_append, List.dropWhile_cons_of_neg]
      rw [solid b List.mem_cons_self]
      exact Bool.false_ne_true
    have back : (b :: text ++ after).rdropWhile p = (b :: text).rdropWhile p := by
      rw [List.rdropWhile, List.reverse_append, List.dropWhile_append_of_pos]
      · rfl
      · exact fun c mem => space c (List.mem_append_right _ (List.mem_reverse.mp mem))
    rw [stripBy, front, stays, back, stripBy, List.dropWhile_cons_of_neg]
    rw [solid b List.mem_cons_self]
    exact Bool.false_ne_true

theorem hexDigit_facts {b : UInt8} (h : hexDigits.contains b = true) : b ≠ 59 ∧ isAsciiSpace b = false := by
  have all : ∀ n < 256, hexDigits.contains (UInt8.ofNat n) = true →
      UInt8.ofNat n ≠ 59 ∧ isAsciiSpace (UInt8.ofNat n) = false := by decide +kernel
  rw [← UInt8.ofNat_toNat (x := b)] at h ⊢
  exact all b.toNat b.toNat_lt h

theorem space_of_printable {b : UInt8} (space : isAsciiSpace b = true) (printable : isControl b = false) :
    b = 32 := by
  have all : ∀ n < 256, isAsciiSpace (UInt8.ofNat n) = true → isControl (UInt8.ofNat n) = false →
      UInt8.ofNat n = 32 := by decide +kernel
  rw [← UInt8.ofNat_toNat (x := b)] at space printable ⊢
  exact all b.toNat b.toNat_lt space printable

theorem SizeLine.of_chunkSize (ok : chunkSize line = .ok size) : SizeLine line size := by
  rw [chunkSize] at ok
  obtain ⟨_, short, ok⟩ := bind_eq_ok.mp ok
  obtain ⟨_, printable, ok⟩ := bind_eq_ok.mp ok
  obtain ⟨_, digits, ok⟩ := bind_eq_ok.mp ok
  rw [require_eq_ok] at short printable digits
  cases ok
  have printable : line.any isControl = false := by simpa using printable
  obtain ⟨before, after, split, space⟩ := stripBy_parts isAsciiSpace (line.takeWhile (· ≠ 59))
  have whole : line = before ++ stripBy isAsciiSpace (line.takeWhile (· ≠ 59)) ++ after ++
      line.dropWhile (· ≠ 59) := by
    rw [← split, List.takeWhile_append_dropWhile]
  refine ⟨short, printable, before, _, after, line.dropWhile (· ≠ 59), whole, fun b mem => ?_, ?_,
    digits.1, digits.2.1, digits.2.2, rfl⟩
  · refine space_of_printable (space b mem) ?_
    have inside : b ∈ line := by
      rw [whole]
      rcases List.mem_append.mp mem with mem | mem <;> simp [mem]
    exact Bool.eq_false_iff.mpr (List.any_eq_false.mp printable b inside)
  · cases rest : line.dropWhile (· ≠ 59) with
    | nil => exact .inl rfl
    | cons b rest' =>
      exact .inr (congrArg some (dropWhile_ne_cons rest))

theorem SizeLine.chunkSize (h : SizeLine line size) : chunkSize line = .ok size := by
  obtain ⟨before, digits, after, extension, whole, space, follows, some_digits, few, hex, stated⟩ := h.shape
  have solid : ∀ b ∈ digits, b ≠ 59 ∧ isAsciiSpace b = false := fun b mem =>
    hexDigit_facts (List.all_eq_true.mp hex b mem)
  have stated_part : line.takeWhile (· ≠ 59) = before ++ digits ++ after := by
    have keeps : ∀ b ∈ before ++ digits ++ after, decide (b ≠ 59) = true := by
      intro b mem
      rcases List.mem_append.mp mem with mem | mem
      · rcases List.mem_append.mp mem with mem | mem
        · rw [space b (List.mem_append_left _ mem)]
          decide
        · exact decide_eq_true (solid b mem).1
      · rw [space b (List.mem_append_right _ mem)]
        decide
    have stops : extension.takeWhile (fun b => decide (b ≠ 59)) = [] := by
      rcases follows with none | starts
      · rw [none]
        rfl
      · cases extension with
        | nil => rfl
        | cons b extension =>
          cases starts
          rfl
    rw [whole, List.takeWhile_append_of_pos keeps, stops, List.append_nil]
  have stripped : stripBy isAsciiSpace (before ++ digits ++ after) = digits := by
    rw [stripBy_surrounded _ fun b mem => (solid b mem).2, stripBy_eq_self fun b mem => (solid b mem).2]
    intro b mem
    rw [space b mem]
    decide
  simp only [Capture.chunkSize, stated_part, stripped, require, h.short, h.printable, some_digits, few, hex,
    stated, bind, Except.bind, ne_eq, not_false_eq_true, and_self, Bool.not_false, if_true]
  rfl

end Lines

section Trailers

variable {line text : Bytes} {left n : Nat}

theorem TrailerLine.oneLine (h : TrailerLine line) : OneLine line := by
  obtain ⟨name, value, rfl, -, token, printable, -⟩ := h
  intro b mem
  rcases List.mem_append.mp mem with mem | mem
  · exact (isToken_facts (List.all_eq_true.mp token b mem)).2.2.2.1
  · rcases List.mem_cons.mp mem with rfl | mem
    · decide
    · exact oneLine_of_printable printable b mem

theorem TrailerLine.ne_nil (h : TrailerLine line) : line ≠ [] := by
  obtain ⟨name, value, rfl, -⟩ := h
  simp

theorem find?_crlf_of_oneLine (one : OneLine line) : find? crlf line = none := by
  induction line with
  | nil => rfl
  | cons b line ih =>
    rw [find?_cons_of_not, ih fun c mem => one c (List.mem_cons_of_mem b mem)]
    · rfl
    · rintro ⟨m, hm⟩
      exact one b List.mem_cons_self (List.cons.inj hm).1.symm

theorem checkTrailer_eq (unbroken : find? crlf line = none) (some_line : line ≠ []) :
    checkTrailer line = (parseHeaderLine line).bind fun field =>
      require (casefold field.name ∉ forbiddenTrailerFields)
        (valueError ("Forbidden HTTP trailer field: " ++ latin1 (casefold field.name))) := by
  have shape : trailerHead line =
      ascii "TRAILER / HTTP/1.1" ++ crlf ++ (line ++ crlf ++ ([] ++ crlf ++ [])) := by
    have opening : ascii "TRAILER / HTTP/1.1\r\n" = ascii "TRAILER / HTTP/1.1" ++ crlf := by
      decide +kernel
    rw [trailerHead, opening]
    simp [headEnd]
  have lines : splitLines (trailerHead line) = [ascii "TRAILER / HTTP/1.1", line, [], []] := by
    have first : splitLines (ascii "TRAILER / HTTP/1.1") = [ascii "TRAILER / HTTP/1.1"] := by
      decide +kernel
    rw [shape, splitLines_append, splitLines_append, splitLines_append, first,
      splitLines_unbroken unbroken]
    rfl
  have ended : headEnd <:+ trailerHead line := ⟨_, rfl⟩
  have started : ascii "TRAILER / HTTP/1.1" ≠ [] := by decide +kernel
  have plain : (ascii "TRAILER / HTTP/1.1").any isControl = false := by decide +kernel
  have kept : [line, [], []].filter (· ≠ []) = [line] := by simp [some_line]
  have few : [ascii "TRAILER / HTTP/1.1", line, [], []].length ≤ maxHeadLines := by
    show 4 ≤ 1026
    decide
  have one : [line].mapM parseHeaderLine = (parseHeaderLine line).bind fun field => .ok [field] := by
    rw [List.mapM_cons]
    rfl
  simp only [checkTrailer, parseHead, lines, List.headD_cons, List.tail_cons, kept, one, ended, started,
    plain, few, require, bind, Except.bind, ne_eq, not_false_eq_true, Bool.not_false, ↓reduceIte]
  cases parseHeaderLine line <;> rfl

theorem parseHeaderLine_shape {h : Header} (ok : parseHeaderLine line = .ok h) :
    ∃ value, line = h.name ++ 58 :: value ∧ h.name ≠ [] ∧ h.name.all isToken = true ∧
      value.all (fun b => !isControl b || b == 9) = true := by
  rw [parseHeaderLine] at ok
  obtain ⟨_, -, ok⟩ := bind_eq_ok.mp ok
  obtain ⟨_, named, ok⟩ := bind_eq_ok.mp ok
  obtain ⟨_, printable, ok⟩ := bind_eq_ok.mp ok
  rw [require_eq_ok] at named printable
  cases ok
  refine ⟨(line.dropWhile (· ≠ 58)).drop 1, ?_, named.2.1, named.2.2, printable⟩
  have colon : (58 : UInt8) ∈ line := List.contains_iff_mem.mp named.1
  have split := (List.takeWhile_append_dropWhile (p := (· ≠ 58)) (l := line)).symm
  cases rest : line.dropWhile (· ≠ 58) with
  | nil => exact absurd (List.dropWhile_eq_nil_iff.mp rest 58 colon) (by decide)
  | cons b rest' =>
    rw [rest, dropWhile_ne_cons rest] at split
    exact split

theorem parseHeaderLine_of_shape {name value : Bytes} (some_name : name ≠ [])
    (token : name.all isToken = true) (printable : value.all (fun b => !isControl b || b == 9) = true) :
    ∃ h, parseHeaderLine (name ++ 58 :: value) = .ok h ∧ h.name = name := by
  have keeps : ∀ b ∈ name, decide (b ≠ 58) = true := fun b mem =>
    decide_eq_true (isToken_facts (List.all_eq_true.mp token b mem)).1
  have before : (name ++ 58 :: value).takeWhile (· ≠ 58) = name := by
    rw [List.takeWhile_append_of_pos keeps]
    simp
  have behind : ((name ++ 58 :: value).dropWhile (· ≠ 58)).drop 1 = value := by
    rw [List.dropWhile_append_of_pos keeps]
    simp
  have colon : (name ++ 58 :: value).contains 58 = true := by simp
  obtain ⟨b, name', rfl⟩ := List.exists_cons_of_ne_nil some_name
  have first := isToken_facts (List.all_eq_true.mp token b List.mem_cons_self)
  have unfolded : (b :: name' ++ 58 :: value).head? ≠ some 32 ∧
      (b :: name' ++ 58 :: value).head? ≠ some 9 :=
    ⟨fun same => first.2.1 (Option.some_inj.mp same), fun same => first.2.2.1 (Option.some_inj.mp same)⟩
  refine ⟨⟨b :: name', stripBy (fun b => b == 32 || b == 9) value⟩, ?_, rfl⟩
  simp only [parseHeaderLine, before, behind, colon, unfolded, some_name, token, printable, require, bind,
    Except.bind, ne_eq, not_false_eq_true, and_self, ↓reduceIte]
  rfl

theorem checkTrailer_eq_ok (unbroken : find? crlf line = none) (some_line : line ≠ []) :
    checkTrailer line = .ok () ↔ TrailerLine line := by
  rw [checkTrailer_eq unbroken some_line]
  constructor
  · intro ok
    obtain ⟨h, parsed, allowed⟩ := bind_eq_ok.mp ok
    obtain ⟨value, shape, some_name, token, printable⟩ := parseHeaderLine_shape parsed
    exact ⟨h.name, value, shape, some_name, token, printable, require_eq_ok.mp allowed⟩
  · rintro ⟨name, value, rfl, some_name, token, printable, allowed⟩
    obtain ⟨h, parsed, rfl⟩ := parseHeaderLine_of_shape some_name token printable
    rw [parsed]
    exact require_eq_ok.mpr allowed

open ChunkedBody

theorem encodeTrailers_cons (line : Bytes) (lines : List Bytes) :
    encodeTrailers (line :: lines) = line ++ (crlf ++ encodeTrailers lines) := by
  simp [encodeTrailers]

theorem trailers_of_extent (ok : trailersExtent left text = .ok n) :
    ∃ trailers, text.take n = encodeTrailers trailers ∧ trailers.length ≤ left ∧
      ∀ t ∈ trailers, TrailerLine t := by
  induction left generalizing text n with
  | zero =>
    rw [trailersExtent.eq_def] at ok
    dsimp only at ok
    split at ok
    next => cases ok
    next found =>
      cases ok
      exact ⟨[], take_break found, le_refl _, nofun⟩
    next => cases ok
  | succ left ih =>
    rw [trailersExtent.eq_def] at ok
    dsimp only at ok
    split at ok
    next => cases ok
    next found =>
      cases ok
      exact ⟨[], take_break found, Nat.zero_le _, nofun⟩
    next k found =>
      obtain ⟨_, checked, ok⟩ := bind_eq_ok.mp ok
      obtain ⟨m, more, ok⟩ := bind_eq_ok.mp ok
      cases ok
      obtain ⟨unbroken, -⟩ := split_of_find? found
      have long : (text.take (k + 1)).length = k + 1 := by
        have := find?_add_length_le found
        rw [List.length_take]
        omega
      have some_line : text.take (k + 1) ≠ [] := List.ne_nil_of_length_pos (by omega)
      obtain ⟨trailers, same, few, each⟩ := ih more
      refine ⟨text.take (k + 1) :: trailers, ?_, Nat.succ_le_succ few, ?_⟩
      · rw [encodeTrailers_cons, ← same]
        exact take_line found m
      · intro t mem
        rcases List.mem_cons.mp mem with rfl | mem
        · exact (checkTrailer_eq_ok unbroken some_line).mp checked
        · exact each t mem

theorem trailersExtent_encode {trailers : List Bytes} (few : trailers.length ≤ left)
    (each : ∀ t ∈ trailers, TrailerLine t) (rest : Bytes) :
    trailersExtent left (encodeTrailers trailers ++ rest) = .ok (encodeTrailers trailers).length := by
  induction trailers generalizing left with
  | nil =>
    have found : find? crlf (encodeTrailers [] ++ rest) = some 0 := find?_cons_of_starts ⟨rest, rfl⟩
    rw [trailersExtent.eq_def]
    dsimp only
    rw [found]
    rfl
  | cons line trailers ih =>
    obtain ⟨left, rfl⟩ : ∃ k, left = k + 1 := ⟨left - 1, by
      rw [List.length_cons] at few
      omega⟩
    have here := each line List.mem_cons_self
    have unbroken := find?_crlf_of_oneLine here.oneLine
    have more := ih (Nat.le_of_succ_le_succ few) fun t mem => each t (List.mem_cons_of_mem line mem)
    have shape : encodeTrailers (line :: trailers) ++ rest =
        line ++ (crlf ++ (encodeTrailers trailers ++ rest)) := by
      rw [encodeTrailers_cons]
      simp only [List.append_assoc]
    obtain ⟨k, long⟩ : ∃ k, line.length = k + 1 := ⟨line.length - 1, by
      have := List.length_pos_of_ne_nil here.ne_nil
      omega⟩
    have found := find?_crlf_append unbroken (encodeTrailers trailers ++ rest)
    rw [long] at found
    have taken : (line ++ (crlf ++ (encodeTrailers trailers ++ rest))).take (k + 1) = line := by
      rw [← long, List.take_left]
    have dropped := drop_line line (encodeTrailers trailers ++ rest)
    rw [long] at dropped
    rw [trailersExtent.eq_def, shape]
    dsimp only
    rw [found]
    simp only [taken, dropped, (checkTrailer_eq_ok unbroken here.ne_nil).mpr here, more, bind, Except.bind,
      pure, Except.pure]
    rw [encodeTrailers_cons, List.length_append, List.length_append, long]
    simp only [crlf, List.length_cons, List.length_nil]
    congr 1
    omega

end Trailers

section Chunks

open ChunkedBody

variable {limit : Int} {decoded n : Nat} {text : Bytes} {m : ChunkedBody}

theorem SizeLine.unbroken {line : Bytes} {size : Nat} (h : SizeLine line size) : find? crlf line = none :=
  find?_crlf_of_printable h.printable

theorem chunks_of_extent (ok : chunksExtent limit decoded text = .ok n) :
    ∃ m, WellFormed SizeLine m ∧ text.take n = m.encode ∧ (decoded + m.size : Int) ≤ limit := by
  induction h : (limit - decoded).toNat using Nat.strongRecOn generalizing decoded text n with
  | ind budget ih =>
    rw [chunksExtent] at ok
    cases found : find? crlf text with
    | none => simp [found] at ok
    | some k =>
      simp only [found] at ok
      obtain ⟨size, stated, ok⟩ := bind_eq_ok.mp ok
      have line := SizeLine.of_chunkSize stated
      by_cases long : limit < size ∨ limit < decoded + size
      · simp only [long, ↓reduceDIte, reduceCtorEq] at ok
      simp only [long, ↓reduceDIte] at ok
      by_cases last : size = 0
      · simp only [last, ↓reduceDIte] at ok
        obtain ⟨j, more, ok⟩ := bind_eq_ok.mp ok
        cases ok
        obtain ⟨trailers, same, few, each⟩ := trailers_of_extent more
        rw [last] at line
        refine ⟨⟨[], text.take k, trailers⟩, ⟨by simp, line, few, each⟩, ?_, ?_⟩
        · rw [take_line found, same]
          rfl
        · show (decoded + (0 : Nat) : Int) ≤ limit
          omega
      · simp only [last, ↓reduceDIte] at ok
        obtain ⟨_, reaches, ok⟩ := bind_eq_ok.mp ok
        obtain ⟨_, closed, ok⟩ := bind_eq_ok.mp ok
        obtain ⟨j, more, ok⟩ := bind_eq_ok.mp ok
        rw [require_eq_ok] at reaches closed
        cases ok
        have here : ((text.drop (k + 2)).take size).length = size := by
          rw [List.length_take, List.length_drop]
          omega
        have some_data : (text.drop (k + 2)).take size ≠ [] := List.ne_nil_of_length_pos (by omega)
        obtain ⟨m, wellFormed, same, fits⟩ := ih _ (by omega) more rfl
        refine ⟨⟨⟨text.take k, (text.drop (k + 2)).take size⟩ :: m.chunks, m.last, m.trailers⟩,
          ⟨fun c mem => ?_, wellFormed.last, wellFormed.few, wellFormed.trailers⟩, ?_, ?_⟩
        · rcases List.mem_cons.mp mem with rfl | mem
          · refine ⟨?_, some_data⟩
            show SizeLine (text.take k) ((text.drop (k + 2)).take size).length
            rw [here]
            exact line
          · exact wellFormed.chunks c mem
        · have terminator : ((text.drop (k + 2)).drop size).take 2 = crlf := by
            rw [List.drop_drop, ← closed, slice]
            congr 1
            omega
          have behind : ((text.drop (k + 2)).drop size).drop 2 = text.drop (k + 2 + size + 2) := by
            rw [List.drop_drop, List.drop_drop]
            congr 1
          have whole : text.take (k + 2 + (size + (2 + j))) = text.take k ++ (crlf ++
              ((text.drop (k + 2)).take size ++ (crlf ++ m.encode))) := by
            rw [take_line found, List.take_add, List.take_add, terminator, behind, same]
          rw [show k + 2 + size + 2 + j = k + 2 + (size + (2 + j)) by omega, whole]
          simp [ChunkedBody.encode, Chunk.encode]
        · have size_eq : ChunkedBody.size ⟨⟨text.take k, (text.drop (k + 2)).take size⟩ :: m.chunks,
              m.last, m.trailers⟩ = size + m.size := by
            rw [ChunkedBody.size, List.map_cons, List.sum_cons, here]
            rfl
          rw [size_eq]
          omega

theorem chunksExtent_encode (wellFormed : WellFormed SizeLine m) (fits : (decoded + m.size : Int) ≤ limit)
    (rest : Bytes) : chunksExtent limit decoded (m.encode ++ rest) = .ok m.encode.length := by
  obtain ⟨chunks, last, trailers⟩ := m
  induction chunks generalizing decoded with
  | nil =>
    have line : SizeLine last 0 := wellFormed.last
    have shape : ChunkedBody.encode ⟨[], last, trailers⟩ ++ rest =
        last ++ (crlf ++ (encodeTrailers trailers ++ rest)) := by
      simp [ChunkedBody.encode]
    have within : ¬(limit < (0 : Nat) ∨ limit < decoded + (0 : Nat)) := by
      have : (0 : Int) ≤ ChunkedBody.size ⟨[], last, trailers⟩ := Int.natCast_nonneg _
      omega
    rw [chunksExtent, shape, find?_crlf_append line.unbroken]
    simp only [List.take_left, line.chunkSize, drop_line, within,
      trailersExtent_encode wellFormed.few wellFormed.trailers, bind, Except.bind, pure, Except.pure,
      ↓reduceDIte]
    simp [ChunkedBody.encode, crlf]
    omega
  | cons c chunks ih =>
    obtain ⟨line, some_data⟩ := wellFormed.chunks c List.mem_cons_self
    have some_size : ¬c.data.length = 0 := fun none => some_data (List.length_eq_zero_iff.mp none)
    have size_eq : ChunkedBody.size ⟨c :: chunks, last, trailers⟩ =
        c.data.length + ChunkedBody.size ⟨chunks, last, trailers⟩ := rfl
    have later : WellFormed SizeLine ⟨chunks, last, trailers⟩ :=
      ⟨fun d mem => wellFormed.chunks d (List.mem_cons_of_mem c mem), wellFormed.last, wellFormed.few,
        wellFormed.trailers⟩
    have fits' : ((decoded + c.data.length : Nat) + ChunkedBody.size ⟨chunks, last, trailers⟩ : Int) ≤
        limit := by
      rw [size_eq] at fits
      omega
    have more := ih later fits'
    generalize tail_eq : ChunkedBody.encode ⟨chunks, last, trailers⟩ = tail at more
    have encoded : ChunkedBody.encode ⟨c :: chunks, last, trailers⟩ =
        c.line ++ (crlf ++ (c.data ++ (crlf ++ tail))) := by
      rw [← tail_eq]
      simp [ChunkedBody.encode, Chunk.encode]
    have shape : c.line ++ (crlf ++ (c.data ++ (crlf ++ tail))) ++ rest =
        c.line ++ (crlf ++ (c.data ++ (crlf ++ (tail ++ rest)))) := by
      simp only [List.append_assoc]
    have within : ¬(limit < c.data.length ∨ limit < decoded + c.data.length) := by
      rw [size_eq] at fits
      omega
    have reaches : c.line.length + 2 + c.data.length + 2 ≤
        (c.line ++ (crlf ++ (c.data ++ (crlf ++ (tail ++ rest))))).length := by
      simp only [List.length_append, crlf, List.length_cons, List.length_nil]
      omega
    have closed : slice (c.line ++ (crlf ++ (c.data ++ (crlf ++ (tail ++ rest)))))
        (c.line.length + 2 + c.data.length) (c.line.length + 2 + c.data.length + 2) = crlf := by
      rw [slice, ← List.drop_drop, drop_line, List.drop_left, Nat.add_sub_cancel_left]
      rfl
    have behind : (c.line ++ (crlf ++ (c.data ++ (crlf ++ (tail ++ rest))))).drop
        (c.line.length + 2 + c.data.length + 2) = tail ++ rest := by
      rw [Nat.add_assoc (c.line.length + 2), ← List.drop_drop, drop_line, drop_line]
    rw [chunksExtent, encoded, shape, find?_crlf_append line.unbroken]
    simp only [List.take_left, line.chunkSize, within, some_size, reaches, closed, behind, more, require,
      bind, Except.bind, pure, Except.pure, ↓reduceDIte, ↓reduceIte]
    simp only [List.length_append, crlf, List.length_cons, List.length_nil]
    congr 1
    omega

theorem size_le_length (m : ChunkedBody) : m.size ≤ m.encode.length := by
  have data (chunks : List Chunk) :
      (chunks.map fun c => c.data.length).sum ≤ (chunks.flatMap Chunk.encode).length := by
    induction chunks with
    | nil => exact Nat.zero_le _
    | cons c chunks ih =>
      rw [List.map_cons, List.sum_cons, List.flatMap_cons, Chunk.encode]
      simp only [List.length_append]
      omega
  have := data m.chunks
  rw [ChunkedBody.size, ChunkedBody.encode, List.length_append]
  omega

end Chunks

section Exactly

open ChunkedBody

variable {sock : Socket} {initial r : Bytes} {limit : Int} {m : ChunkedBody}

theorem readChunked_encode (wellFormed : WellFormed SizeLine m) (short : m.encode.length ≤ limit)
    (alone : initial ++ sock.stream = m.encode) : readChunked sock initial limit = .ok m.encode := by
  have within : initial.length ≤ limit := by
    rw [← alone, List.length_append] at short
    omega
  have valid : 0 ≤ limit := by omega
  have extent : chunksExtent limit 0 (m.encode ++ []) = .ok m.encode.length := by
    have := size_le_length m
    exact chunksExtent_encode wellFormed (by omega) []
  rw [List.append_nil] at extent
  have follows : Follows limit (initial ++ sock.stream) _ (readChunks limit 0 0 initial sock) :=
    readChunks_follows 0 (Nat.zero_le initial.length) within
  rw [alone, List.drop_zero, extent] at follows
  have accepted : readChunked sock initial limit = readChunks limit 0 0 initial sock := by
    simp only [readChunked, require, valid, within, if_true]
    rfl
  rw [accepted]
  rcases follows.agrees with same | ⟨-, long, -⟩
  · refine Eq.trans same ?_
    show Except.ok (m.encode.take (0 + m.encode.length)) = _
    rw [Nat.zero_add, List.take_length]
  · omega

theorem derived_of_readChunked (ok : readChunked sock initial limit = .ok r) :
    r <+: initial ++ sock.stream ∧ ∃ m, WellFormed SizeLine m ∧ r = m.encode ∧ (m.size : Int) ≤ limit := by
  rw [readChunked] at ok
  obtain ⟨_, -, ok⟩ := bind_eq_ok.mp ok
  obtain ⟨_, within, ok⟩ := bind_eq_ok.mp ok
  rw [require_eq_ok] at within
  have follows : Follows limit (initial ++ sock.stream) _ (readChunks limit 0 0 initial sock) :=
    readChunks_follows 0 (Nat.zero_le initial.length) within
  rw [ok] at follows
  rcases follows.agrees with same | ⟨excess, -⟩
  · obtain ⟨k, mapped, rfl⟩ := map_eq_ok.mp same.symm
    obtain ⟨n, extent, rfl⟩ := map_eq_ok.mp mapped
    rw [List.drop_zero] at extent
    obtain ⟨m, wellFormed, derived, fits⟩ := chunks_of_extent extent
    refine ⟨List.take_prefix _ _, m, wellFormed, ?_, by omega⟩
    rw [Nat.zero_add]
    exact derived
  · cases excess

/-- The reader of a chunked body returns one message of the grammar, as it came and within the
limit, and reads it again as it is; and each message of the grammar within the limit is read when it
arrives alone. -/
theorem readChunked_exactly :
    (∀ (sock : Socket) (initial : Bytes) (limit : Int) (r : Bytes), readChunked sock initial limit = .ok r →
      r <+: initial ++ sock.stream ∧
      (∃ m, WellFormed SizeLine m ∧ r = m.encode ∧ (m.size : Int) ≤ limit) ∧
      readChunked Feed.exhausted r r.length = .ok r) ∧
    (∀ (m : ChunkedBody) (limit : Int), WellFormed SizeLine m → m.encode.length ≤ limit →
      ∀ (sock : Socket) (initial : Bytes), initial ++ sock.stream = m.encode →
        readChunked sock initial limit = .ok m.encode) := by
  refine ⟨fun sock initial limit r ok => ?_, fun m limit wellFormed short sock initial alone =>
    readChunked_encode wellFormed short alone⟩
  obtain ⟨part, m, wellFormed, rfl, fits⟩ := derived_of_readChunked ok
  refine ⟨part, ⟨m, wellFormed, rfl, fits⟩, readChunked_encode wellFormed (Int.le_refl _) ?_⟩
  rw [Feed.stream_exhausted, List.append_nil]

theorem extended_wellFormed : WellFormed SizeLine ⟨[], ascii "0;x", []⟩ :=
  ⟨nofun, ⟨by decide +kernel, by decide +kernel, [], ascii "0", [], ascii ";x", by decide +kernel, nofun,
    .inr (by decide +kernel), by decide +kernel, by decide +kernel, by decide +kernel, by decide +kernel⟩,
    Nat.zero_le _, nofun⟩

/-- A chunk-size line that is nothing but digits. -/
structure HexLine (line : Bytes) (size : Nat) : Prop where
  some_digits : line ≠ []
  few : line.length ≤ 16
  hex : line.all hexDigits.contains = true
  stated : ofHex line = size

theorem first_line {States : Bytes → Nat → Prop} (wellFormed : WellFormed States m) :
    ∃ line size rest, States line size ∧ m.encode = line ++ (crlf ++ rest) := by
  obtain ⟨chunks, last, trailers⟩ := m
  cases chunks with
  | nil => exact ⟨last, 0, encodeTrailers trailers, wellFormed.last, rfl⟩
  | cons c chunks =>
    refine ⟨c.line, c.data.length, c.data ++ (crlf ++ ChunkedBody.encode ⟨chunks, last, trailers⟩),
      (wellFormed.chunks c List.mem_cons_self).1, ?_⟩
    simp [ChunkedBody.encode, Chunk.encode]

/-- A size line may carry an extension, which the reader keeps. -/
theorem readChunked_extended :
    ¬ ∀ (sock : Socket) (initial : Bytes) (limit : Int) (r : Bytes), readChunked sock initial limit = .ok r →
      ∃ m, WellFormed HexLine m ∧ r = m.encode := by
  intro claimed
  have ok : readChunked Feed.exhausted (ascii "0;x\r\n\r\n") 7 = .ok (ascii "0;x\r\n\r\n") :=
    readChunked_encode extended_wellFormed (by decide +kernel) (by decide +kernel)
  obtain ⟨m, wellFormed, same⟩ := claimed _ _ _ _ ok
  obtain ⟨line, size, rest, states, shape⟩ := first_line wellFormed
  rw [shape] at same
  have second : (line ++ (crlf ++ rest))[1]? = some 59 := by
    rw [← same]
    decide +kernel
  have hex := states.hex
  match line, states.some_digits with
  | [b], _ => exact absurd second (by simp [crlf])
  | b :: c :: line, _ =>
    obtain rfl := Option.some_inj.mp second
    rw [List.all_cons, List.all_cons, Bool.and_eq_true, Bool.and_eq_true] at hex
    exact absurd hex.2.1 (by decide +kernel)

end Exactly

end Arenyxa.Capture
