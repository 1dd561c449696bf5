/-
Numbers written with hexadecimal digits, and the characters they stand for.

* **`Text.hexNumber?`** reads a number;
* **`Text.charOf?`** is the character with a number.
-/
import EnumTables.Text.Basic

namespace EnumTables.Text

/-- The value of a hexadecimal digit. -/
def hexValue? (c : Char) : Option Nat :=
  if c.isDigit then some (c.toNat - '0'.toNat)
  else if 'a' ≤ c ∧ c ≤ 'f' then some (c.toNat - 'a'.toNat + 10)
  else if 'A' ≤ c ∧ c ≤ 'F' then some (c.toNat - 'A'.toNat + 10)
  else none

/-- The number that hexadecimal digits stand for. -/
def hexNumber? (digits : Text) : Option Nat :=
  digits.foldl (fun n? c =>
    match n?, hexValue? c with
    | some n, some d => some (16 * n + d)
    | _, _ => none) (some 0)

/-- The character with a number, unless it is a surrogate or too large. -/
def charOf? (n : Nat) : Option Char :=
  if n.isValidChar then some (Char.ofNat n) else none

/-- A character has its own number. -/
theorem charOf?_toNat (c : Char) : charOf? c.toNat = some c := by
  have hvalid : c.toNat.isValidChar := c.valid
  rw [charOf?, if_pos hvalid, Char.ofNat_toNat]

end EnumTables.Text
