import Mathlib.Data.List.Basic

/-! How a POSIX shell reads the words of one simple command, over code points. Only what the shell would neither
expand nor give another meaning is read; there is no reading where it would. -/

namespace Arenyxa.Shell

abbrev Word := List Nat

def blank (c : Nat) : Bool := c == 0x20 || c == 0x09

def newline : Nat := 0x0a

def quote : Nat := 0x22

def apostrophe : Nat := 0x27

def backslash : Nat := 0x5c

def dollar : Nat := 0x24

def backquote : Nat := 0x60

def letter (c : Nat) : Bool := (0x41 ≤ c && c ≤ 0x5a) || (0x61 ≤ c && c ≤ 0x7a)

def digit (c : Nat) : Bool := 0x30 ≤ c && c ≤ 0x39

/-- What follows a dollar sign that begins an expansion: a name, a special parameter, a brace or a parenthesis. -/
def expansion (c : Nat) : Bool :=
  letter c || digit c || [0x5f, 0x7b, 0x28, 0x40, 0x2a, 0x23, 0x3f, 0x2d, 0x24, 0x21].contains c

def expands : List Nat → Bool
  | [] => false
  | c :: _ => expansion c

/-- What a backslash escapes within double quotes. -/
def escapable (c : Nat) : Bool := c == dollar || c == backquote || c == quote || c == backslash

/-- Operators, and what begins a pattern or a substitution, outside quotes. -/
def special (c : Nat) : Bool :=
  [0x3b, 0x26, 0x7c, 0x3c, 0x3e, 0x28, 0x29, 0x0a, 0x60, 0x2a, 0x3f, 0x5b].contains c

/-- What begins a comment or the name of a home directory, at the start of a word. -/
def leading (c : Nat) : Bool := c == 0x23 || c == 0x7e

/-- Where in a text the shell is; an escape is behind a backslash. -/
inductive Mode
  | between | bare | double | single
  | betweenEscape | bareEscape | doubleEscape

/-- The words of the rest of a text, with the word that is being read. -/
def read : Mode → Word → List Nat → Option (List Word)
  | .between, _, [] => some []
  | .bare, w, [] => some [w]
  | .double, _, [] => none
  | .single, _, [] => none
  | .betweenEscape, _, [] => none
  | .bareEscape, _, [] => none
  | .doubleEscape, _, [] => none
  | .betweenEscape, w, c :: s => if c = newline then read .between w s else read .bare [c] s
  | .bareEscape, w, c :: s => if c = newline then read .bare w s else read .bare (w ++ [c]) s
  | .doubleEscape, w, c :: s =>
    if c = newline then read .double w s
    else if escapable c then read .double (w ++ [c]) s
    else read .double (w ++ [backslash, c]) s
  | .double, w, c :: s =>
    if c = quote then read .bare w s
    else if c = backquote ∨ (c = dollar ∧ expands s) then none
    else if c = backslash then read .doubleEscape w s
    else read .double (w ++ [c]) s
  | .single, w, c :: s => if c = apostrophe then read .bare w s else read .single (w ++ [c]) s
  | .between, w, c :: s =>
    if blank c then read .between w s
    else if c = quote then read .double [] s
    else if c = apostrophe then read .single [] s
    else if c = backslash then read .betweenEscape w s
    else if special c ∨ leading c ∨ (c = dollar ∧ (expands s ∨ s.head? = some quote ∨ s.head? = some apostrophe)) then
      none
    else read .bare [c] s
  | .bare, w, c :: s =>
    if blank c then (read .between [] s).map (w :: ·)
    else if c = quote then read .double w s
    else if c = apostrophe then read .single w s
    else if c = backslash then read .bareEscape w s
    else if special c ∨ (c = dollar ∧ (expands s ∨ s.head? = some quote ∨ s.head? = some apostrophe)) then none
    else read .bare (w ++ [c]) s

def word (s : String) : Word := s.toList.map Char.toNat

def reserved : List Word :=
  ["if", "then", "else", "elif", "fi", "do", "done", "case", "esac", "while", "until", "for", "in", "!", "\x7b",
    "\x7d"].map word

/-- The arguments of the simple command that the text is: no assignment and no reserved word comes first. -/
def command (s : List Nat) : Option (List Word) :=
  match read .between [] s with
  | some (name :: arguments) => if 0x3d ∈ name ∨ name ∈ reserved then none else some (name :: arguments)
  | _ => none

variable {w cs s : List Nat}

/-- Characters that stand for themselves in every mode. -/
def plain (c : Nat) : Bool := letter c || digit c || c == 0x2d

theorem plain_cases {c : Nat} (h : plain c = true) :
    blank c = false ∧ c ≠ quote ∧ c ≠ apostrophe ∧ c ≠ backslash ∧ c ≠ dollar ∧ c ≠ backquote ∧ c ≠ newline ∧
      escapable c = false ∧ special c = false ∧ leading c = false := by
  simp only [plain, letter, digit, Bool.or_eq_true, Bool.and_eq_true, decide_eq_true_eq, beq_iff_eq] at h
  simp only [blank, quote, apostrophe, backslash, dollar, backquote, newline, escapable, special, leading,
    List.contains_eq_mem, List.mem_cons, List.not_mem_nil, Bool.or_eq_false_iff, beq_eq_false_iff_ne,
    decide_eq_false_iff_not, ne_eq, or_false]
  omega

attribute [local simp] read in
theorem read_bare_plain (all : ∀ c ∈ cs, plain c = true) : read .bare w (cs ++ s) = read .bare (w ++ cs) s := by
  induction cs generalizing w with
  | nil => rw [List.nil_append, List.append_nil]
  | cons c cs ih =>
    obtain ⟨own, rest⟩ := List.forall_mem_cons.mp all
    obtain ⟨nb, nq, na, nbs, nd, -, -, -, ns, -⟩ := plain_cases own
    rw [List.cons_append, read, if_neg (by simp [nb]), if_neg nq, if_neg na, if_neg nbs, if_neg (by simp [ns, nd]),
      ih rest, List.append_assoc]
    rfl

theorem read_word (some : cs ≠ []) (all : ∀ c ∈ cs, plain c = true) :
    read .between w (cs ++ s) = read .bare cs s := by
  cases cs with
  | nil => exact absurd rfl some
  | cons c cs =>
    obtain ⟨own, rest⟩ := List.forall_mem_cons.mp all
    obtain ⟨nb, nq, na, nbs, nd, -, -, -, ns, nl⟩ := plain_cases own
    rw [List.cons_append, read, if_neg (by simp [nb]), if_neg nq, if_neg na, if_neg nbs,
      if_neg (by simp [ns, nd, nl]), read_bare_plain rest]
    rfl

theorem read_double_plain (all : ∀ c ∈ cs, plain c = true) :
    read .double w (cs ++ s) = read .double (w ++ cs) s := by
  induction cs generalizing w with
  | nil => rw [List.nil_append, List.append_nil]
  | cons c cs ih =>
    obtain ⟨own, rest⟩ := List.forall_mem_cons.mp all
    obtain ⟨-, nq, -, nbs, nd, nbq, -, -, -, -⟩ := plain_cases own
    rw [List.cons_append, read, if_neg nq, if_neg (by simp [nbq, nd]), if_neg nbs, ih rest, List.append_assoc]
    rfl

theorem read_double_escape (some : cs ≠ []) (all : ∀ c ∈ cs, plain c = true) :
    read .double w (backslash :: (cs ++ s)) = read .double (w ++ backslash :: cs) s := by
  cases cs with
  | nil => exact absurd rfl some
  | cons c cs =>
    obtain ⟨-, -, -, -, -, -, nn, ne, -, -⟩ := plain_cases (all c List.mem_cons_self)
    have rest : ∀ c ∈ cs, plain c = true := fun c mem => all c (List.mem_cons_of_mem _ mem)
    rw [read, if_neg (by decide), if_neg (by simp [backslash, backquote, dollar]), if_pos rfl, List.cons_append, read,
      if_neg nn, if_neg (by simp [ne]), read_double_plain rest, List.append_assoc]
    rfl

theorem read_bare_end : read .bare w [] = some [w] := by
  rw [read]

theorem read_bare_blank : read .bare w (0x20 :: s) = (read .between [] s).map (w :: ·) := by
  rw [read, if_pos (by decide)]

end Arenyxa.Shell
