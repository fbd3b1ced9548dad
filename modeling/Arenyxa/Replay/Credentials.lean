import Arenyxa.Replay.Draft
import Mathlib.Data.List.Forall2

/-! What two captured requests with different credentials have in common, and the slots of a draft. -/

namespace Arenyxa.Replay

open Registry (Text text)

variable {lib : Library}

section Urls

/-- Two parts of a query that differ at most in the value of a sensitive parameter. -/
def SamePiece (lib : Library) (p p' : Text) : Prop :=
  p = p' ∨ ∃ name v v', p = name ++ equals :: v ∧ p' = name ++ equals :: v' ∧ equals ∉ name ∧
    lib.sensitiveParameter (lib.unquote (clean name)) = true

/-- What stands around a query. -/
structure Frame where
  before : Text
  after : Text
  no_query : questionMark ∉ before
  no_fragment : hash ∉ before
  fragment : after = [] ∨ after.head? = some hash

/-- The URL with a query of these parts. -/
def Frame.url (f : Frame) (pieces : List Text) : Text :=
  f.before ++ questionMark :: ([ampersand].intercalate pieces ++ f.after)

/-- The parts of a query. -/
def Pieces (pieces : List Text) : Prop := pieces ≠ [] ∧ ∀ p ∈ pieces, ampersand ∉ p ∧ hash ∉ p

/-- Two URLs that differ at most in the values of sensitive parameters. -/
inductive SameUrl (lib : Library) : Text → Text → Prop
  | same (url : Text) : SameUrl lib url url
  | query (f : Frame) {pieces pieces' : List Text} (parts : Pieces pieces) (parts' : Pieces pieces')
      (same : List.Forall₂ (SamePiece lib) pieces pieces') : SameUrl lib (f.url pieces) (f.url pieces')

/-- The text of a URL has a sensitive parameter with a value. -/
def Carries (lib : Library) (url : Text) : Prop :=
  ∃ (f : Frame) (as bs : List Text) (name v : Text), Pieces (as ++ (name ++ equals :: v) :: bs) ∧
    url = f.url (as ++ (name ++ equals :: v) :: bs) ∧ equals ∉ name ∧
    lib.sensitiveParameter (lib.unquote (clean name)) = true

variable {url url' : Text}

theorem Pieces.hash_free {pieces : List Text} (parts : Pieces pieces) : hash ∉ [ampersand].intercalate pieces := by
  have each : ∀ p ∈ pieces, hash ∉ p := fun p mem => (parts.2 p mem).2
  clear parts
  induction pieces with
  | nil => simp
  | cons p pieces ih =>
    obtain ⟨own, rest⟩ := List.forall_mem_cons.mp each
    cases pieces with
    | nil => simpa using own
    | cons q pieces =>
      rw [List.intercalate_cons_cons, List.mem_append, List.mem_append]
      rintro ((here | separator) | later)
      · exact own here
      · simp [hash, ampersand] at separator
      · exact ih rest later

theorem Frame.urlsplit (f : Frame) {pieces : List Text} (parts : Pieces pieces) :
    lib.urlsplit (f.url pieces) = (lib.around f.before f.after).map fun parts =>
      { parts with query := clean ([ampersand].intercalate pieces) } :=
  lib.urlsplit_query _ _ _ f.no_query f.no_fragment parts.hash_free f.fragment

/-- Parameters of the same names, whose values are the same where they are not sensitive. -/
def SamePair (lib : Library) (a b : Text × Text) : Prop :=
  a.1 = b.1 ∧ (lib.sensitiveParameter a.1 = false → a.2 = b.2)

theorem clean_intercalate (pieces : List Text) :
    clean ([ampersand].intercalate pieces) = [ampersand].intercalate (pieces.map clean) := by
  induction pieces with
  | nil => rfl
  | cons p pieces ih =>
    cases pieces with
    | nil => simp
    | cons q pieces =>
      rw [List.map_cons] at ih ⊢
      rw [List.map_cons, List.intercalate_cons_cons, List.intercalate_cons_cons, ← ih, clean, clean, clean,
        List.filter_append, List.filter_append]
      rfl

theorem clean_valued (name v : Text) : clean (name ++ equals :: v) = clean name ++ equals :: clean v := by
  rw [clean, List.filter_append, List.filter_cons_of_pos (by decide)]
  rfl

theorem parsePiece_same {p p' : Text} (same : SamePiece lib p p') :
    (clean p = [] ↔ clean p' = []) ∧ SamePair lib (parsePiece lib (clean p)) (parsePiece lib (clean p')) := by
  rcases same with rfl | ⟨name, v, v', rfl, rfl, plain, sensitive⟩
  · exact ⟨Iff.rfl, rfl, fun _ => rfl⟩
  · have named : ∀ v, (parsePiece lib (clean (name ++ equals :: v))).1 = lib.unquote (clean name) := by
      intro v
      have other : ∀ c ∈ clean name, decide (c ≠ equals) = true := fun c mem =>
        decide_eq_true fun its : c = equals => plain (its ▸ (List.mem_filter.mp mem).1)
      rw [clean_valued, parsePiece]
      dsimp only
      rw [List.takeWhile_append_of_pos other, List.takeWhile_cons_of_neg (by simp), List.append_nil]
    refine ⟨by simp [clean_valued], (named v).trans (named v').symm, fun public_ => ?_⟩
    rw [named, sensitive] at public_
    cases public_

theorem parseQsl_same {pieces pieces' : List Text} (parts : Pieces pieces) (parts' : Pieces pieces')
    (same : List.Forall₂ (SamePiece lib) pieces pieces') :
    List.Forall₂ (SamePair lib) (parseQsl lib (clean ([ampersand].intercalate pieces)))
      (parseQsl lib (clean ([ampersand].intercalate pieces'))) := by
  have split : ∀ {pieces : List Text}, Pieces pieces →
      (clean ([ampersand].intercalate pieces)).splitOn ampersand = pieces.map clean := by
    intro pieces parts
    rw [clean_intercalate]
    refine List.splitOn_intercalate ampersand (fun p mem => ?_) (by simpa using parts.1)
    obtain ⟨q, q_mem, rfl⟩ := List.mem_map.mp mem
    exact fun inside => (parts.2 q q_mem).1 (List.mem_filter.mp inside).1
  rw [parseQsl, parseQsl, split parts, split parts']
  clear parts parts' split
  induction same with
  | nil => exact .nil
  | @cons p p' pieces pieces' first rest ih =>
    obtain ⟨empty, pair⟩ := parsePiece_same first
    rw [List.map_cons, List.map_cons]
    by_cases none : clean p = []
    · rw [List.filter_cons_of_neg (by simpa using none), List.filter_cons_of_neg (by simpa using empty.mp none)]
      exact ih
    · rw [List.filter_cons_of_pos (by simpa using none),
        List.filter_cons_of_pos (by simpa using fun its => none (empty.mpr its))]
      exact .cons pair ih

theorem foldl_same {pairs pairs' : Dict} (same : List.Forall₂ (SamePair lib) pairs pairs') (s : Sanitized) :
    pairs.foldl (sanitizePair lib) s = pairs'.foldl (sanitizePair lib) s := by
  induction same generalizing s with
  | nil => rfl
  | @cons a b pairs pairs' first rest ih =>
    have step : sanitizePair lib s a = sanitizePair lib s b := by
      obtain ⟨name, value⟩ := a
      obtain ⟨name', value'⟩ := b
      obtain ⟨rfl, plain⟩ := first
      rw [sanitizePair, sanitizePair]
      cases sensitive : lib.sensitiveParameter name with
      | true => rfl
      | false =>
        obtain rfl : value = value' := plain sensitive
        rfl
    rw [List.foldl_cons, List.foldl_cons, step, ih]

theorem sanitizeUrlQuery_same (same : SameUrl lib url url') (splits : (lib.urlsplit url).isSome = true) :
    sanitizeUrlQuery lib url' = sanitizeUrlQuery lib url := by
  cases same with
  | same => rfl
  | query f parts parts' same =>
    rw [f.urlsplit parts, Option.isSome_map] at splits
    obtain ⟨around, its⟩ := Option.isSome_iff_exists.mp splits
    rw [sanitizeUrlQuery, sanitizeUrlQuery, f.urlsplit parts, f.urlsplit parts', its]
    simp only [Option.map_some]
    rw [foldl_same (parseQsl_same parts parts' same)]

theorem same_or_carries {pieces pieces' : List Text} (same : List.Forall₂ (SamePiece lib) pieces pieces') :
    pieces = pieces' ∨ ∃ as bs name v, pieces = as ++ (name ++ equals :: v) :: bs ∧ equals ∉ name ∧
      lib.sensitiveParameter (lib.unquote (clean name)) = true := by
  induction same with
  | nil => exact .inl rfl
  | @cons p p' pieces pieces' first rest ih =>
    rcases first with rfl | ⟨name, v, v', rfl, -, plain, sensitive⟩
    · rcases ih with rfl | ⟨as, bs, name, v, rfl, plain, sensitive⟩
      · exact .inl rfl
      · exact .inr ⟨p :: as, bs, name, v, rfl, plain, sensitive⟩
    · exact .inr ⟨[], pieces, name, v, rfl, plain, sensitive⟩

theorem splits_of_private
    (all : ∀ url', SameUrl lib url url' → (sanitizeUrlQuery lib url').url = (sanitizeUrlQuery lib url).url) :
    (lib.urlsplit url).isSome = true ∨ ¬ Carries lib url := by
  by_contra fails
  obtain ⟨unsplit, carries⟩ := not_or.mp fails
  obtain ⟨f, as, bs, name, v, parts, rfl, plain, sensitive⟩ := not_not.mp carries
  have none : lib.around f.before f.after = none := by
    rw [f.urlsplit parts, Option.isSome_map] at unsplit
    exact Option.not_isSome_iff_eq_none.mp unsplit
  have parts' : Pieces (as ++ (name ++ equals :: (v ++ [0x61])) :: bs) := by
    refine ⟨by simp, fun p mem => ?_⟩
    rcases List.mem_append.mp mem with old | later
    · exact parts.2 p (List.mem_append_left _ old)
    · rcases List.mem_cons.mp later with rfl | old
      · have own := parts.2 _ (List.mem_append_right _ List.mem_cons_self)
        constructor
        · simpa [ampersand, equals] using own.1
        · simpa [hash, equals] using own.2
      · exact parts.2 p (List.mem_append_right _ (List.mem_cons_of_mem _ old))
  have same : List.Forall₂ (SamePiece lib) (as ++ (name ++ equals :: v) :: bs)
      (as ++ (name ++ equals :: (v ++ [0x61])) :: bs) := by
    refine List.rel_append (List.forall₂_same.mpr fun p _ => .inl rfl) ?_
    exact .cons (.inr ⟨name, v, _, rfl, rfl, plain, sensitive⟩) (List.forall₂_same.mpr fun p _ => .inl rfl)
  have changed := all _ (.query f parts parts' same)
  rw [sanitizeUrlQuery, sanitizeUrlQuery, f.urlsplit parts, f.urlsplit parts', none] at changed
  have lists := congrArg (List.splitOn ampersand)
    (List.append_cancel_right (List.cons.inj (List.append_cancel_left changed)).2)
  rw [List.splitOn_intercalate ampersand (fun p mem => (parts.2 p mem).1) parts.1,
    List.splitOn_intercalate ampersand (fun p mem => (parts'.2 p mem).1) parts'.1] at lists
  have values := List.append_cancel_left (List.cons.inj (List.append_cancel_left lists)).1
  simpa using congrArg List.length values

theorem sanitizeUrlQuery_private (private_ : (lib.urlsplit url).isSome = true ∨ ¬ Carries lib url)
    (same : SameUrl lib url url') : sanitizeUrlQuery lib url' = sanitizeUrlQuery lib url := by
  rcases private_ with splits | plain
  · exact sanitizeUrlQuery_same same splits
  · cases same with
    | same => rfl
    | query f parts parts' same =>
      rcases same_or_carries same with rfl | ⟨as, bs, name, v, rfl, own, sensitive⟩
      · rfl
      · exact absurd ⟨f, as, bs, name, v, parts, rfl, own, sensitive⟩ plain

theorem SameUrl.empty (same : SameUrl lib url url') : url' = [] ↔ url = [] := by
  cases same with
  | same => exact Iff.rfl
  | query f => simp [Frame.url]

end Urls

section Headers

variable {headers headers' : Dict}

/-- Headers of the same names, whose values are the same where they are not sensitive. -/
def SameHeader (lib : Library) (a b : Text × Text) : Prop := a.1 = b.1 ∧ (¬ SensitiveHeader lib a.1 → a.2 = b.2)

def SameHeaders (lib : Library) (headers headers' : Dict) : Prop := List.Forall₂ (SameHeader lib) headers headers'

theorem sanitizeHeaders_same (same : SameHeaders lib headers headers') :
    sanitizeHeaders lib headers' = sanitizeHeaders lib headers := by
  have each : ∀ a b, SameHeader lib a b → sanitizeHeader lib b = sanitizeHeader lib a ∧
      ∀ refs, referHeader lib refs b = referHeader lib refs a := by
    rintro ⟨name, value⟩ ⟨name', value'⟩ ⟨rfl, plain⟩
    refine ⟨?_, fun refs => rfl⟩
    rw [sanitizeHeader, sanitizeHeader]
    by_cases sensitive : SensitiveHeader lib name
    · rw [if_pos sensitive, if_pos sensitive]
    · obtain rfl : value = value' := plain sensitive
      rfl
  have kept : headers'.filterMap (sanitizeHeader lib) = headers.filterMap (sanitizeHeader lib) := by
    induction same with
    | nil => rfl
    | cons first rest ih => rw [List.filterMap_cons, List.filterMap_cons, (each _ _ first).1, ih]
  have refs : ∀ refs, headers'.foldl (referHeader lib) refs = headers.foldl (referHeader lib) refs := by
    clear kept
    induction same with
    | nil => exact fun _ => rfl
    | cons first rest ih =>
      intro refs
      rw [List.foldl_cons, List.foldl_cons, (each _ _ first).2, ih]
  rw [sanitizeHeaders, sanitizeHeaders, kept, refs]

end Headers

end Arenyxa.Replay
