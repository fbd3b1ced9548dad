import Mathlib.Data.List.Infix

/-! Chains of rows, each naming the digest of the row before it. -/

universe u v w

namespace Arenyxa.Chain

variable {ρ : Type u} {δ : Type v} (prev own : ρ → δ)

/-- Each row names the digest before it, from a starting digest on. -/
def Linked : δ → List ρ → Prop
  | _, [] => True
  | h, r :: rs => prev r = h ∧ Linked (own r) rs

/-- The digest that the next row has to name. -/
def head (h : δ) (rs : List ρ) : δ := rs.foldl (fun _ r => own r) h

variable {prev own} {h : δ} {r : ρ} {rs rs' : List ρ}

@[simp] theorem head_nil : head own h [] = h := rfl

@[simp] theorem head_cons : head own h (r :: rs) = head own (own r) rs := rfl

@[simp] theorem head_append : head own h (rs ++ rs') = head own (head own h rs) rs' :=
  List.foldl_append

theorem head_concat : head own h (rs ++ [r]) = own r := by
  rw [head_append, head_cons, head_nil]

theorem linked_append :
    Linked prev own h (rs ++ rs') ↔ Linked prev own h rs ∧ Linked prev own (head own h rs) rs' := by
  induction rs generalizing h with
  | nil => exact ⟨fun l => ⟨trivial, l⟩, And.right⟩
  | cons r rs ih =>
    rw [List.cons_append, Linked, Linked, ih, head_cons]
    exact and_assoc.symm

theorem linked_concat :
    Linked prev own h (rs ++ [r]) ↔ Linked prev own h rs ∧ prev r = head own h rs := by
  rw [linked_append, Linked, Linked]
  exact ⟨fun l => ⟨l.1, l.2.1⟩, fun l => ⟨l.1, l.2, trivial⟩⟩

section Committing

-- Digests of sealed rows commit to the rows, and none is the digest a chain starts from.
variable {Sealed : ρ → Prop} (inj : ∀ a b, Sealed a → Sealed b → own a = own b → a = b)
  (fresh : ∀ a, Sealed a → own a ≠ h)

include inj fresh

theorem eq_of_head_eq (l : Linked prev own h rs) (l' : Linked prev own h rs')
    (s : ∀ a ∈ rs, Sealed a) (s' : ∀ a ∈ rs', Sealed a)
    (same : head own h rs = head own h rs') : rs = rs' := by
  induction rs using List.reverseRecOn generalizing rs' with
  | nil =>
    cases rs' using List.reverseRecOn with
    | nil => rfl
    | append_singleton rs' r' =>
      rw [head_concat, head_nil] at same
      exact absurd same.symm (fresh r' (s' r' (List.mem_append_right _ List.mem_cons_self)))
  | append_singleton rs r ih =>
    have sealed_r := s r (List.mem_append_right _ List.mem_cons_self)
    cases rs' using List.reverseRecOn with
    | nil =>
      rw [head_concat, head_nil] at same
      exact absurd same (fresh r sealed_r)
    | append_singleton rs' r' =>
      rw [head_concat, head_concat] at same
      obtain rfl := inj r r' sealed_r (s' r' (List.mem_append_right _ List.mem_cons_self)) same
      rw [linked_concat] at l l'
      rw [ih l.1 l'.1 (fun a ha => s a (List.mem_append_left _ ha))
        (fun a ha => s' a (List.mem_append_left _ ha)) (l.2.symm.trans l'.2)]

theorem prefix_of_subset (l : Linked prev own h rs) (l' : Linked prev own h rs')
    (s : ∀ a ∈ rs, Sealed a) (drawn : ∀ a ∈ rs', a ∈ rs) : rs' <+: rs := by
  induction rs' using List.reverseRecOn with
  | nil => exact List.nil_prefix
  | append_singleton rs' r ih =>
    rw [linked_concat] at l'
    obtain ⟨front, back, here⟩ :=
      List.append_of_mem (drawn r (List.mem_append_right _ List.mem_cons_self))
    have parts := l
    rw [here, linked_append, Linked] at parts
    have earlier : front = rs' := eq_of_head_eq inj fresh parts.1 l'.1
      (fun a ha => s a (here ▸ List.mem_append_left _ ha))
      (fun a ha => s a (drawn a (List.mem_append_left _ ha)))
      (parts.2.1.symm.trans l'.2)
    rw [here, earlier]
    exact ⟨back, by rw [List.append_assoc, List.singleton_append]⟩

end Committing

/-- How an append that is to be durable ends. -/
inductive Ending (ε : Type w)
  | done
  /-- Nothing is written. -/
  | unwritten (error : ε)
  /-- The whole row is written, and its sync fails. -/
  | unsynced (error : ε)
  deriving DecidableEq

/-- A file's rows and the head that their writer remembers. -/
structure Writer (ρ : Type u) (δ : Type v) where
  rows : List ρ
  head : δ

section Writing

variable {ε : Type w}

def Ending.writes : Ending ε → Bool
  | .done | .unsynced _ => true
  | .unwritten _ => false

def Ending.error : Ending ε → Option ε
  | .done => none
  | .unwritten error | .unsynced error => some error

def Ending.unsure : Ending ε → Bool
  | .unsynced _ => true
  | .done | .unwritten _ => false

/-- Once a row is written that the writer does not know of, no other is. -/
def Unforked (appends : List (Ending ε)) : Prop :=
  appends.Pairwise fun earlier later => earlier.unsure = true → later.writes = false

instance (appends : List (Ending ε)) : Decidable (Unforked appends) := inferInstanceAs (Decidable (List.Pairwise _ _))

theorem unforked_cons {first : Ending ε} {rest : List (Ending ε)} :
    Unforked (first :: rest) ↔ (first.unsure = true → ∀ later ∈ rest, later.writes = false) ∧ Unforked rest :=
  List.pairwise_cons.trans (and_congr_left' ⟨fun h unsure later mem => h later mem unsure,
    fun h later mem unsure => h unsure later mem⟩)

theorem unforked_of_unwritten {appends : List (Ending ε)} (unwritten : ∀ a ∈ appends, a.writes = false) :
    Unforked appends := List.pairwise_of_forall_mem_list fun _ _ later mem _ => unwritten later mem

variable (own) in
/-- The row is made from the remembered head, which moves on where the append is done. -/
def Writer.append (w : Writer ρ δ) (a : (δ → ρ) × Ending ε) : Writer ρ δ :=
  match a.2 with
  | .done => ⟨w.rows ++ [a.1 w.head], own (a.1 w.head)⟩
  | .unwritten _ => w
  | .unsynced _ => ⟨w.rows ++ [a.1 w.head], w.head⟩

variable {w : Writer ρ δ} {a : (δ → ρ) × Ending ε} {appends : List ((δ → ρ) × Ending ε)}

theorem Writer.append_rows :
    (w.append own a).rows = if a.2.writes then w.rows ++ [a.1 w.head] else w.rows := by
  rcases a with ⟨row, done | unwritten | unsynced⟩ <;> rfl

theorem Writer.prefix_foldl : w.rows <+: (appends.foldl (Writer.append own) w).rows := by
  induction appends generalizing w with
  | nil => exact List.prefix_rfl
  | cons a appends ih =>
    refine List.IsPrefix.trans ?_ ih
    rw [append_rows]
    split
    · exact List.prefix_append _ _
    · exact List.prefix_rfl

theorem Writer.forall_rows_foldl {p : ρ → Prop} (rows : ∀ row ∈ w.rows, p row)
    (made : ∀ a ∈ appends, ∀ d, p (a.1 d)) :
    ∀ row ∈ (appends.foldl (Writer.append own) w).rows, p row := by
  induction appends generalizing w with
  | nil => exact rows
  | cons a appends ih =>
    refine ih (fun row mem => ?_) fun b mem => made b (List.mem_cons_of_mem _ mem)
    rw [append_rows] at mem
    split at mem
    · rcases List.mem_append.mp mem with old | new
      · exact rows row old
      · rw [List.mem_singleton.mp new]
        exact made a List.mem_cons_self _
    · exact rows row mem

theorem Writer.linked_of_foldl (linked : Linked prev own h (appends.foldl (Writer.append own) w).rows) :
    Linked prev own h w.rows := by
  obtain ⟨rest, same⟩ := @prefix_foldl _ _ own _ w appends
  rw [← same] at linked
  exact (linked_append.1 linked).1

variable (names : ∀ a ∈ appends, ∀ d, prev (a.1 d) = d)

include names

theorem Writer.linked_foldl_stale (linked : Linked prev own h w.rows) (stale : w.head ≠ Chain.head own h w.rows) :
    Linked prev own h (appends.foldl (Writer.append own) w).rows ↔
      ∀ outcome ∈ appends.map Prod.snd, outcome.writes = false := by
  induction appends generalizing w with
  | nil => exact iff_of_true linked fun _ h => nomatch h
  | cons a appends ih =>
    rw [List.map_cons, List.forall_mem_cons, List.foldl_cons]
    have kept (unwritten : a.2.writes = false) : w.append own a = w := by
      rcases a with ⟨row, done | error | error⟩
      · cases unwritten
      · rfl
      · cases unwritten
    cases writes : a.2.writes with
    | false =>
      rw [kept writes, ih (fun b mem => names b (List.mem_cons_of_mem _ mem)) linked stale]
      exact ⟨fun rest => ⟨rfl, rest⟩, And.right⟩
    | true =>
      refine iff_of_false (fun later => ?_) fun h => nomatch h.1
      have forked := linked_of_foldl later
      rw [append_rows, if_pos writes, linked_concat, names a List.mem_cons_self] at forked
      exact stale forked.2

theorem Writer.linked_foldl_iff (unfixed : ∀ a ∈ appends, ∀ d, own (a.1 d) ≠ d) (linked : Linked prev own h w.rows)
    (current : w.head = Chain.head own h w.rows) :
    Linked prev own h (appends.foldl (Writer.append own) w).rows ↔ Unforked (appends.map Prod.snd) := by
  induction appends generalizing w with
  | nil => exact iff_of_true linked .nil
  | cons a appends ih =>
    have names_rest := fun b mem => names b (List.mem_cons_of_mem a mem)
    have unfixed_rest := fun b mem => unfixed b (List.mem_cons_of_mem a mem)
    have extended : Linked prev own h (w.rows ++ [a.1 w.head]) :=
      linked_concat.2 ⟨linked, (names a List.mem_cons_self _).trans current⟩
    rw [List.map_cons, unforked_cons, List.foldl_cons]
    rcases a with ⟨row, done | error | error⟩
    · have current' : own (row w.head) = Chain.head own h (w.rows ++ [row w.head]) := head_concat.symm
      refine (ih names_rest unfixed_rest extended current').trans ?_
      exact (and_iff_right fun unsure => nomatch unsure).symm
    · refine (ih names_rest unfixed_rest linked current).trans ?_
      exact (and_iff_right fun unsure => nomatch unsure).symm
    · have stale : w.head ≠ Chain.head own h (w.rows ++ [row w.head]) := by
        rw [head_concat]
        exact (unfixed _ List.mem_cons_self _).symm
      refine (linked_foldl_stale names_rest extended stale).trans ?_
      exact ⟨fun unwritten => ⟨fun _ => unwritten, unforked_of_unwritten unwritten⟩, fun unforked => unforked.1 rfl⟩

end Writing

end Arenyxa.Chain
