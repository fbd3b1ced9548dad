import Mathlib.Data.List.Infix

/-! Records in sequence, each with its own encoding, and such a sequence cut at any item; and records
that are cut off the front of a buffer as it fills, no more than so many at a time. -/

universe u v

namespace Arenyxa.Records

variable {ρ : Type u} {α : Type v} (encode : ρ → List α)

/-- The records that are complete in the first `k` items. -/
def complete : List ρ → Nat → List ρ
  | [], _ => []
  | r :: rs, k =>
    if (encode r).length ≤ k then r :: complete rs (k - (encode r).length) else []

/-- What the first `k` items hold of the record after the complete ones. -/
def part : List ρ → Nat → List α
  | [], _ => []
  | r :: rs, k =>
    if (encode r).length ≤ k then part rs (k - (encode r).length) else (encode r).take k

theorem take_flatMap (rs : List ρ) (k : Nat) :
    (rs.flatMap encode).take k = (complete encode rs k).flatMap encode ++ part encode rs k := by
  induction rs generalizing k with
  | nil => exact List.take_nil
  | cons r rs ih =>
    rw [List.flatMap_cons, List.take_append, complete, part]
    split
    next whole => rw [ih, List.take_of_length_le whole, List.flatMap_cons, List.append_assoc]
    next short =>
      rw [Nat.sub_eq_zero_of_le (Nat.le_of_not_le short), List.take_zero, List.append_nil]
      rfl

theorem part_cases (rs : List ρ) (k : Nat) :
    (part encode rs k = [] ∧ ∃ rest, rs = complete encode rs k ++ rest) ∨
    ∃ r rest j, rs = complete encode rs k ++ r :: rest ∧ part encode rs k = (encode r).take j ∧
      0 < j ∧ j < (encode r).length := by
  induction rs generalizing k with
  | nil => exact .inl ⟨rfl, [], rfl⟩
  | cons r rs ih =>
    rw [complete, part]
    split
    next whole =>
      rcases ih (k - (encode r).length) with ⟨none, rest, split⟩ | ⟨r', rest, j, split, cut, inside⟩
      · exact .inl ⟨none, rest, congrArg (r :: ·) split⟩
      · exact .inr ⟨r', rest, j, congrArg (r :: ·) split, cut, inside⟩
    next short =>
      cases k with
      | zero => exact .inl ⟨List.take_zero, r :: rs, rfl⟩
      | succ k => exact .inr ⟨r, rs, k + 1, rfl, rfl, k.succ_pos, Nat.lt_of_not_le short⟩

theorem complete_prefix (rs : List ρ) (k : Nat) : complete encode rs k <+: rs := by
  rcases part_cases encode rs k with ⟨-, rest, split⟩ | ⟨r, rest, -, split, -⟩
  · exact ⟨rest, split.symm⟩
  · exact ⟨r :: rest, split.symm⟩

variable {encode} in
theorem complete_none {rs : List ρ} {k : Nat} (inside : ∀ r ∈ rs.head?, k < (encode r).length) :
    complete encode rs k = [] := by
  cases rs with
  | nil => rfl
  | cons r rs => rw [complete, if_neg (not_le.mpr (inside r rfl))]

section Cut

variable (size : List α → Option Nat)

/-- The records that are complete at the front of a buffer, at most so many, and what is left. The
head of a record gives its size. -/
def cut : Nat → List α → List (List α) × List α
  | 0, l => ([], l)
  | k + 1, l =>
    match size l with
    | none => ([], l)
    | some n =>
      if n ≤ l.length then (l.take n :: (cut k (l.drop n)).1, (cut k (l.drop n)).2) else ([], l)

/-- All records that are complete, and the rest. -/
def cutAll (l : List α) : List (List α) × List α := cut size (l.length + 1) l

/-- A buffer gets more items, and at most `cap` records are cut off it. -/
def drain (cap : Nat) (s : List (List α) × List α) (chunk : List α) : List (List α) × List α :=
  (s.1 ++ (cut size cap (s.2 ++ chunk)).1, (cut size cap (s.2 ++ chunk)).2)

/-- Once a head is there it stays, and no record is empty. -/
structure Headed : Prop where
  stable : ∀ l m n, size l = some n → size (l ++ m) = some n
  pos : ∀ l n, size l = some n → 0 < n

variable {size} {l m : List α} {j k : Nat}

attribute [local simp] cut in
theorem cut_flatten (k : Nat) (l : List α) : (cut size k l).1.flatten ++ (cut size k l).2 = l := by
  fun_induction cut size k l with
  | case1 => rfl
  | case2 => rfl
  | case3 k l n head whole ih => rw [List.flatten_cons, List.append_assoc, ih, List.take_append_drop]
  | case4 => rfl

theorem length_cut_le (k : Nat) (l : List α) : (cut size k l).1.length ≤ k := by
  fun_induction cut size k l with
  | case1 => exact Nat.le_refl 0
  | case2 => exact Nat.zero_le _
  | case3 k l n head whole ih => exact Nat.succ_le_succ ih
  | case4 => exact Nat.zero_le _

theorem cut_add (j k : Nat) (l : List α) : cut size (j + k) l =
    ((cut size j l).1 ++ (cut size k (cut size j l).2).1, (cut size k (cut size j l).2).2) := by
  fun_induction cut size j l with
  | case1 l => rw [Nat.zero_add]; rfl
  | case2 j l none => rw [Nat.succ_add, cut, none]; cases k <;> simp [cut, none]
  | case3 j l n head whole ih => rw [Nat.succ_add, cut, head]; simp [whole, ih]
  | case4 j l n head short => rw [Nat.succ_add, cut, head]; cases k <;> simp [cut, head, short]

theorem cut_stop (few : (cut size j l).1.length < j) (k : Nat) :
    cut size (j + k) l = cut size j l := by
  fun_induction cut size j l with
  | case1 => exact absurd few (Nat.lt_irrefl 0)
  | case2 j l none => rw [Nat.succ_add, cut, none]
  | case3 j l n head whole ih =>
    rw [Nat.succ_add, cut, head]
    simp only [whole, ih (Nat.lt_of_succ_lt_succ few), if_true]
  | case4 j l n head short => rw [Nat.succ_add, cut, head]; simp only [short, if_false]

theorem cut_length (k : Nat) (l : List α) : cut size (cut size k l).1.length l = cut size k l := by
  fun_induction cut size k l with
  | case1 => rfl
  | case2 => rfl
  | case3 k l n head whole ih =>
    rw [List.length_cons, cut, head]
    simp only [whole, ih, if_true]
  | case4 => rfl

theorem cut_append (headed : Headed size) (full : (cut size j l).1.length = j) (m : List α) :
    cut size j (l ++ m) = ((cut size j l).1, (cut size j l).2 ++ m) := by
  fun_induction cut size j l with
  | case1 => rfl
  | case2 => cases full
  | case3 j l n head whole ih =>
    have longer : n ≤ (l ++ m).length := by
      rw [List.length_append]
      omega
    rw [cut, headed.stable l m n head]
    simp only [longer, List.take_append_of_le_length whole, List.drop_append_of_le_length whole,
      ih (Nat.succ.inj full), if_true]
  | case4 => cases full

theorem length_cut_lt (headed : Headed size) (l : List α) : (cutAll size l).1.length < l.length + 1 := by
  have most : ∀ k l, (cut size k l).1.length ≤ l.length := by
    intro k l
    fun_induction cut size k l with
    | case1 | case2 | case4 => exact Nat.zero_le _
    | case3 k l n head whole ih =>
      have := headed.pos l n head
      rw [List.length_drop] at ih
      rw [List.length_cons]
      omega
  exact Nat.lt_succ_of_le (most _ l)

theorem cut_eq_take (headed : Headed size) (k : Nat) (l : List α) :
    (cut size k l).1 = (cutAll size l).1.take k := by
  have all : ∀ n, (cut size (l.length + 1 + n) l) = cutAll size l := fun n =>
    cut_stop (length_cut_lt headed l) n
  have more : cut size (k + (l.length + 1)) l = cutAll size l := by
    rw [Nat.add_comm]
    exact all k
  rw [← more, cut_add]
  rcases Nat.lt_or_eq_of_le (length_cut_le k l) with few | full
  · have same : cut size (k + (l.length + 1)) l = _ := cut_add k (l.length + 1) l
    rw [cut_stop few] at same
    have first : (cut size k l).1 = (cut size k l).1 ++ (cut size (l.length + 1) (cut size k l).2).1 :=
      congrArg Prod.fst same
    rw [← first, List.take_of_length_le (Nat.le_of_lt few)]
  · rw [List.take_left' full]

theorem cut_eq_all_iff (headed : Headed size) :
    cut size k l = cutAll size l ↔ (cutAll size l).1.length ≤ k := by
  constructor
  · intro same
    rw [← same]
    exact length_cut_le k l
  · intro enough
    have first := cut_eq_take headed k l
    rw [List.take_of_length_le enough] at first
    rw [← cut_length k l, first, cutAll, cut_length]

theorem drain_cut (headed : Headed size) {cap : Nat} {s : List (List α) × List α}
    (so_far : s = cut size s.1.length l) (chunk : List α) :
    drain size cap s chunk = cut size (s.1.length + cap) (l ++ chunk) := by
  have full : (cut size s.1.length l).1.length = s.1.length := by rw [← so_far]
  rw [cut_add, cut_append headed full, ← so_far]
  rfl

variable {cap : Nat} {chunks : List (List α)}

theorem drain_run (headed : Headed size) (cap : Nat) (chunks : List (List α)) :
    let s := chunks.foldl (drain size cap) ([], [])
    s = cut size s.1.length chunks.flatten ∧
    ∀ x, x ≤ s.1.length ↔ ∀ before after, chunks = before ++ after →
      x ≤ (cutAll size before.flatten).1.length + cap * after.length := by
  induction chunks using List.reverseRecOn with
  | nil =>
    refine ⟨rfl, fun x => ⟨fun none before after split => ?_, fun all => ?_⟩⟩
    · exact Nat.le_trans none (Nat.zero_le _)
    · have empty := all [] [] rfl
      have few : (cutAll size ([] : List α)).1.length < 1 := length_cut_lt headed []
      simp only [List.flatten_nil, List.length_nil, Nat.mul_zero, Nat.add_zero] at empty
      exact Nat.le_trans empty (Nat.le_of_lt_succ few)
  | append_singleton chunks chunk ih =>
    obtain ⟨so_far, ih⟩ := ih
    simp only [List.foldl_append, List.foldl_cons, List.foldl_nil]
    generalize chunks.foldl (drain size cap) ([], []) = s at so_far ih ⊢
    have next : drain size cap s chunk = cut size (s.1.length + cap) (chunks ++ [chunk]).flatten := by
      rw [List.flatten_append, List.flatten_singleton]
      exact drain_cut headed so_far chunk
    rw [next]
    refine ⟨(cut_length _ _).symm, fun x => ?_⟩
    rw [cut_eq_take headed, List.length_take, Nat.le_min, ← Nat.sub_le_iff_le_add, ih]
    constructor
    · rintro ⟨early, now⟩ before after split
      rcases List.eq_nil_or_concat' after with rfl | ⟨after, last, rfl⟩
      · rw [List.append_nil] at split
        rw [← split]
        exact Nat.le_trans now (Nat.le_add_right _ _)
      · rw [← List.append_assoc] at split
        obtain ⟨rfl, -⟩ := List.append_inj' split rfl
        have := early before after rfl
        rw [List.length_append, List.length_singleton, Nat.mul_succ]
        omega
    · intro all
      refine ⟨fun before after split => ?_, ?_⟩
      · have := all before (after ++ [chunk]) (by rw [split, List.append_assoc])
        rw [List.length_append, List.length_singleton, Nat.mul_succ] at this
        omega
      · have := all (chunks ++ [chunk]) [] (List.append_nil _).symm
        simpa using this

theorem drained_iff (headed : Headed size) :
    chunks.foldl (drain size cap) ([], []) = cutAll size chunks.flatten ↔
      ∀ before after, chunks = before ++ after → (cutAll size chunks.flatten).1.length ≤
        (cutAll size before.flatten).1.length + cap * after.length := by
  obtain ⟨so_far, least⟩ := drain_run headed cap chunks
  rw [← least]
  generalize chunks.foldl (drain size cap) ([], []) = s at so_far ⊢
  rw [← cut_eq_all_iff headed, ← so_far]

end Cut

end Arenyxa.Records

/-! Readers that take one record after another off the front of their input, and may yield an item for it. -/

universe w x y

namespace Arenyxa.Records

/-- One pass of a reader: it fails, it is at the end, or it goes on with less of its input. -/
structure Reader (α : Type u) (σ : Type v) (π : Type w) (ε : Type x) where
  next : σ → List α → Except ε (Option (Option π × σ × List α))
  shrinks : ∀ {s input item s' rest}, next s input = .ok (some (item, s', rest)) → rest.length < input.length

variable {α : Type u} {σ : Type v} {π : Type w} {ε : Type x} {ρ : Type y}

/-- The items that are yielded, `limit` of them at most, and the error that ends them. -/
def Reader.read (reader : Reader α σ π ε) (limit : Nat) (s : σ) (input : List α) : List π × Option ε :=
  if limit = 0 then ([], none)
  else match _pass : reader.next s input with
    | .error e => ([], some e)
    | .ok none => ([], none)
    | .ok (some (none, s, rest)) => reader.read limit s rest
    | .ok (some (some item, s, rest)) =>
      let (items, error) := reader.read (limit - 1) s rest
      (item :: items, error)
termination_by input.length
decreasing_by all_goals exact reader.shrinks _pass

/-- What records mean: the item that each yields, and the state after it. -/
def yields (meaning : σ → ρ → Option π × σ) : σ → List ρ → List π
  | _, [] => []
  | s, r :: rs => (meaning s r).1.toList ++ yields meaning (meaning s r).2 rs

def after (meaning : σ → ρ → Option π × σ) (s : σ) (rs : List ρ) : σ := rs.foldl (fun s r => (meaning s r).2) s

/-- Each record is fit for the state that it is read in. -/
def Fits (meaning : σ → ρ → Option π × σ) (Fit : σ → ρ → Prop) : σ → List ρ → Prop
  | _, [] => True
  | s, r :: rs => Fit s r ∧ Fits meaning Fit (meaning s r).2 rs

variable {reader : Reader α σ π ε} {limit : Nat} {s : σ} {input rest : List α} {meaning : σ → ρ → Option π × σ}
  {Fit : σ → ρ → Prop} {encode : ρ → List α}

theorem fits_append {rs more : List ρ} :
    Fits meaning Fit s (rs ++ more) ↔ Fits meaning Fit s rs ∧ Fits meaning Fit (after meaning s rs) more := by
  induction rs generalizing s with
  | nil => exact ⟨fun h => ⟨trivial, h⟩, And.right⟩
  | cons r rs ih => exact (and_congr_right fun _ => ih).trans and_assoc.symm

@[simp] theorem Reader.read_zero : reader.read 0 s input = ([], none) := by
  rw [read, if_pos rfl]

theorem Reader.read_ends (pass : reader.next s input = .ok none) : reader.read limit s input = ([], none) := by
  rw [read]
  split
  next => rfl
  next => split <;> first | rfl | (rename_i h; cases pass.symm.trans h)

theorem Reader.read_fails {e : ε} (pass : reader.next s input = .error e) :
    reader.read (limit + 1) s input = ([], some e) := by
  rw [read, if_neg limit.succ_ne_zero]
  split
  next h => cases pass.symm.trans h; rfl
  all_goals next h => cases pass.symm.trans h

theorem Reader.read_skips {s' : σ} (pass : reader.next s input = .ok (some (none, s', rest))) :
    reader.read (limit + 1) s input = reader.read (limit + 1) s' rest := by
  rw [read, if_neg limit.succ_ne_zero]
  split
  next h => cases pass.symm.trans h
  next h => cases pass.symm.trans h
  next h => cases pass.symm.trans h; rfl
  next h => cases pass.symm.trans h

theorem Reader.read_yields {s' : σ} {item : π} (pass : reader.next s input = .ok (some (some item, s', rest))) :
    reader.read (limit + 1) s input =
      (item :: (reader.read limit s' rest).1, (reader.read limit s' rest).2) := by
  rw [read, if_neg limit.succ_ne_zero]
  split
  next h => cases pass.symm.trans h
  next h => cases pass.symm.trans h
  next h => cases pass.symm.trans h
  next h => cases pass.symm.trans h; rfl

theorem yields_append {rs more : List ρ} :
    yields meaning s (rs ++ more) = yields meaning s rs ++ yields meaning (after meaning s rs) more := by
  induction rs generalizing s with
  | nil => rfl
  | cons r rs ih =>
    rw [List.cons_append, yields, yields, ih, List.append_assoc]
    rfl

theorem yields_complete (encode : ρ → List α) (rs : List ρ) (k : Nat) :
    yields meaning s (complete encode rs k) <+: yields meaning s rs := by
  obtain ⟨rest, split⟩ := complete_prefix encode rs k
  conv_rhs => rw [← split]
  rw [yields_append]
  exact List.prefix_append _ _

theorem Reader.read_records
    (reads : ∀ s r more, Fit s r →
      reader.next s (encode r ++ more) = .ok (some ((meaning s r).1, (meaning s r).2, more)))
    {rs : List ρ} (fits : Fits meaning Fit s rs) (tail : List α) (Ends : Option ε → Prop) (early : Ends none)
    (last : ∀ limit, ∃ e, reader.read limit (after meaning s rs) tail = ([], e) ∧ Ends e) (limit : Nat) :
    ∃ e, reader.read limit s (rs.flatMap encode ++ tail) = ((yields meaning s rs).take limit, e) ∧ Ends e := by
  induction rs generalizing s limit with
  | nil =>
    obtain ⟨e, ended, so⟩ := last limit
    exact ⟨e, by rw [List.flatMap_nil, List.nil_append, yields, List.take_nil, ← ended]; rfl, so⟩
  | cons r rs ih =>
    rw [List.flatMap_cons, List.append_assoc, yields]
    cases limit with
    | zero => exact ⟨none, read_zero.trans (by rw [List.take_zero]), early⟩
    | succ limit =>
      have pass := reads s r (rs.flatMap encode ++ tail) fits.1
      cases yielded : (meaning s r).1 with
      | none =>
        obtain ⟨e, rest, so⟩ := ih fits.2 last (limit + 1)
        exact ⟨e, (read_skips (yielded ▸ pass)).trans rest, so⟩
      | some item =>
        obtain ⟨e, rest, so⟩ := ih fits.2 last limit
        refine ⟨e, (read_yields (yielded ▸ pass)).trans ?_, so⟩
        rw [rest]
        rfl

variable (reader meaning Fit encode) in
theorem Reader.read_exact
    (reads : ∀ s r more, Fit s r →
      reader.next s (encode r ++ more) = .ok (some ((meaning s r).1, (meaning s r).2, more)))
    (ends : ∀ s, reader.next s [] = .ok none)
    (fails : ∀ s r j, Fit s r → 0 < j → j < (encode r).length →
      ∃ e, reader.next s ((encode r).take j) = .error e)
    {rs : List ρ} (fits : Fits meaning Fit s rs) (limit : Nat) :
    reader.read limit s (rs.flatMap encode) = ((yields meaning s rs).take limit, none) ∧
      ∀ k, (reader.read limit s ((rs.flatMap encode).take k)).1 =
        (yields meaning s (complete encode rs k)).take limit := by
  have at_end : ∀ s limit, reader.read limit s [] = ([], none) := fun s limit => read_ends (ends s)
  refine ⟨?_, fun k => ?_⟩
  · obtain ⟨e, result, rfl⟩ := read_records reads fits [] (· = none) rfl (fun limit => ⟨_, at_end _ limit, rfl⟩) limit
    rwa [List.append_nil] at result
  · rw [take_flatMap]
    rcases part_cases encode rs k with ⟨none, rest, split⟩ | ⟨r, rest, j, split, cut, some, short⟩
    · have whole := fits
      rw [split, fits_append] at whole
      obtain ⟨e, result, -⟩ := read_records reads whole.1 (part encode rs k) (fun _ => True) trivial
        (fun limit => none ▸ ⟨_, at_end _ limit, trivial⟩) limit
      rw [result]
    · have whole := fits
      rw [split, fits_append] at whole
      have last : ∀ limit, ∃ e, reader.read limit (after meaning s (complete encode rs k)) (part encode rs k) =
          ([], e) ∧ True := by
        intro limit
        rw [cut]
        cases limit with
        | zero => exact ⟨_, read_zero, trivial⟩
        | succ limit =>
          obtain ⟨e, pass⟩ := fails _ r j whole.2.1 some short
          exact ⟨_, read_fails pass, trivial⟩
      obtain ⟨e, result, -⟩ := read_records reads whole.1 (part encode rs k) (fun _ => True) trivial last limit
      rw [result]

end Arenyxa.Records
