import Mathlib.Data.List.Induction
import Mathlib.Algebra.Order.Ring.Nat

/-! Unsigned words of a fixed width, in either byte order. -/

namespace Arenyxa.Words

/-- The value of a word with its most significant byte first. -/
def value (bytes : List UInt8) : Nat := bytes.foldl (fun n b => 256 * n + b.toNat) 0

/-- The lowest `width` bytes of a number, the most significant one first. -/
def word : Nat → Nat → List UInt8
  | 0, _ => []
  | width + 1, n => word width (n / 256) ++ [UInt8.ofNat n]

@[simp] theorem length_word (width n : Nat) : (word width n).length = width := by
  induction width generalizing n with
  | zero => rfl
  | succ width ih => rw [word, List.length_append, ih]; rfl

theorem value_concat (bytes : List UInt8) (b : UInt8) :
    value (bytes ++ [b]) = 256 * value bytes + b.toNat := by
  rw [value, List.foldl_append]
  rfl

theorem value_word {width n : Nat} (fits : n < 256 ^ width) : value (word width n) = n := by
  induction width generalizing n with
  | zero => rw [Nat.pow_zero, Nat.lt_one_iff] at fits; rw [fits]; rfl
  | succ width ih =>
    rw [word, value_concat, ih (Nat.div_lt_of_lt_mul (by rwa [Nat.pow_succ'] at fits)),
      UInt8.toNat_ofNat']
    exact Nat.div_add_mod n 256

theorem value_word_mod (width n : Nat) : value (word width n) = n % 256 ^ width := by
  induction width generalizing n with
  | zero => exact (Nat.mod_one n).symm
  | succ width ih =>
    have split : n % 256 ^ (width + 1) = n % 256 + 256 * (n / 256 % 256 ^ width) := by rw [Nat.pow_succ', Nat.mod_mul]
    rw [word, value_concat, ih, UInt8.toNat_ofNat', split]
    exact Nat.add_comm ..

theorem word_cons (width n : Nat) : word (width + 1) n = UInt8.ofNat (n / 256 ^ width) :: word width n := by
  induction width generalizing n with
  | zero => rw [word, word, Nat.pow_zero, Nat.div_one]; rfl
  | succ width ih => rw [word, ih, Nat.div_div_eq_div_mul, ← Nat.pow_succ']; rfl

theorem foldl_value (start : Nat) (bytes : List UInt8) :
    bytes.foldl (fun n b => 256 * n + b.toNat) start = 256 ^ bytes.length * start + value bytes := by
  induction bytes using List.reverseRecOn with
  | nil => exact (Nat.one_mul _).symm
  | append_singleton bytes b ih =>
    rw [List.foldl_append, ih, value_concat, List.length_append, List.length_singleton, Nat.pow_succ', Nat.mul_assoc,
      ← Nat.add_assoc, ← Nat.mul_add]
    rfl

/-- Which end of a word stands first. -/
inductive ByteOrder
  | big
  | little
  deriving DecidableEq

namespace ByteOrder

def arrange : ByteOrder → List UInt8 → List UInt8
  | big, bytes => bytes
  | little, bytes => bytes.reverse

def value (order : ByteOrder) (bytes : List UInt8) : Nat := Words.value (order.arrange bytes)

def word (order : ByteOrder) (width n : Nat) : List UInt8 := order.arrange (Words.word width n)

variable (order : ByteOrder)

@[simp] theorem arrange_arrange (bytes : List UInt8) :
    order.arrange (order.arrange bytes) = bytes := by
  cases order
  · rfl
  · exact List.reverse_reverse bytes

@[simp] theorem length_word (width n : Nat) : (order.word width n).length = width := by
  cases order
  · exact Words.length_word width n
  · exact (List.length_reverse ..).trans (Words.length_word width n)

theorem value_word {width n : Nat} (fits : n < 256 ^ width) :
    order.value (order.word width n) = n := by
  rw [value, word, arrange_arrange, Words.value_word fits]

end ByteOrder

end Arenyxa.Words
