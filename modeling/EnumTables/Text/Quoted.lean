/-
A path between quotes, as log messages show it.

* **`Text.quotedBytes`** puts the bytes of a path between double quotes.  A double
  quote, the backslash, the tab, the line ends and NUL are written with a backslash
  and a letter or sign, a hidden character by its number in braces.  What is not
  UTF-8 is written in hex digits, byte by byte.
-/
import EnumTables.Text.Hidden
import EnumTables.Text.Utf8

namespace EnumTables.Text

/-- How a character stands between quotes. -/
def quotedChar (c : Char) : Text :=
  match c with
  | '\x00' => ['\\', '0']
  | '\t' => ['\\', 't']
  | '\r' => ['\\', 'r']
  | '\n' => ['\\', 'n']
  | '\\' => ['\\', '\\']
  | '"' => ['\\', '"']
  | c =>
    if isHidden c then ['\\', 'u', '{'] ++ Nat.toDigits 16 c.toNat ++ ['}'] else [c]

/-- The character at the front of bytes, if they begin with one. -/
def leadingChar? (bs : Bytes) : Option Char :=
  [1, 2, 3, 4].findSome? fun n =>
    match Utf8.decode? (bs.take n) with
    | some [c] => some c
    | _ => none

/-- How bytes stand between quotes. -/
def quotedFrom : Bytes → Text
  | [] => []
  | b :: bs =>
    match leadingChar? (b :: bs) with
    | some c => quotedChar c ++ quotedFrom (bs.drop (c.utf8Size - 1))
    | none => ['\\', 'x'] ++ (Nat.toDigits 16 b.toNat).map Char.toUpper ++ quotedFrom bs
termination_by bs => bs.length
decreasing_by
  all_goals simp only [List.length_drop, List.length_cons]; omega

/-- Bytes between double quotes. -/
def quotedBytes (bs : Bytes) : Text :=
  '"' :: quotedFrom bs ++ ['"']

end EnumTables.Text
