import Mathlib.Data.List.Lex
import Mathlib.Algebra.Order.Ring.Rat

/-! The values of JSON documents. -/

namespace Arenyxa.Registry

/-- The code points of a text, lone surrogates included. -/
abbrev Text := List Nat

instance lawfulText : LawfulBEq Text := inferInstance

def text (s : String) : Text := s.toList.map Char.toNat

theorem text_injective : Function.Injective text := fun _ _ same =>
  String.ext (List.map_injective_iff.mpr (fun _ _ => Char.toNat_inj.mp) same)

theorem text_ne {s : String} (some : s ≠ "") : text s ≠ [] := by
  rwa [text, Ne, List.map_eq_nil_iff, String.toList_eq_nil_iff]

inductive Json
  | null
  | bool (value : Bool)
  | int (value : Int)
  | float (value : ℚ)
  /-- Not a number, or an infinity. -/
  | special (name : Text)
  | str (value : Text)
  | arr (items : List Json)
  | obj (fields : List (Text × Json))

abbrev Row := List (Text × Json)

/-- The truth of a value. -/
def Json.truth : Json → Bool
  | .null => false
  | .bool b => b
  | .int n => n ≠ 0
  | .float q => q ≠ 0
  | .special _ => true
  | .str t => t ≠ []
  | .arr items => !items.isEmpty
  | .obj fields => !fields.isEmpty

/-- `row.get(key)` -/
def get (row : Row) (key : String) : Option Json := row.lookup (text key)

end Arenyxa.Registry
