/-
JSON values made of strings, arrays and objects, and their text.

* **`Json.pretty`** writes a value with one item or field to a line, two
  spaces deeper for each level, and an empty array or object as `[]` or a
  pair of braces;
* **`Json.quote`** writes a string.  The quote, the backslash and the
  characters below the space are escaped, five of these by a letter and the
  others by number; nothing else is.
-/
import EnumTables.Text.Basic

namespace EnumTables

/-- A value of the JSON data model, as far as documents need it. -/
inductive Json where
  | string (s : Text)
  | array (items : List Json)
  | object (fields : List (Text × Json))

namespace Json

/-- How a character stands inside a string. -/
def escape (c : Char) : Text :=
  match c with
  | '"' => ['\\', '"']
  | '\\' => ['\\', '\\']
  | '\n' => ['\\', 'n']
  | '\r' => ['\\', 'r']
  | '\t' => ['\\', 't']
  | '\x08' => ['\\', 'b']
  | '\x0c' => ['\\', 'f']
  | c =>
    if c.toNat < 0x20 then
      ['\\', 'u', '0', '0', Nat.digitChar (c.toNat / 16), Nat.digitChar (c.toNat % 16)]
    else [c]

/-- A string with its quotes. -/
def quote (s : Text) : Text :=
  '"' :: s.flatMap escape ++ ['"']

/-- A line end and the indentation of a level. -/
def newline (depth : Nat) : Text :=
  '\n' :: List.replicate (2 * depth) ' '

mutual

/-- The text of a value that stands `depth` levels deep. -/
def prettyAt (depth : Nat) : Json → Text
  | .string s => quote s
  | .array [] => ['[', ']']
  | .array (item :: items) =>
    '[' :: newline (depth + 1) ++ prettyAt (depth + 1) item ++
      prettyItems (depth + 1) items ++ newline depth ++ [']']
  | .object [] => ['{', '}']
  | .object ((key, value) :: fields) =>
    '{' :: newline (depth + 1) ++ quote key ++ [':', ' '] ++ prettyAt (depth + 1) value ++
      prettyFields (depth + 1) fields ++ newline depth ++ ['}']

/-- The items of an array after the first. -/
def prettyItems (depth : Nat) : List Json → Text
  | [] => []
  | item :: items =>
    ',' :: newline depth ++ prettyAt depth item ++ prettyItems depth items

/-- The fields of an object after the first. -/
def prettyFields (depth : Nat) : List (Text × Json) → Text
  | [] => []
  | (key, value) :: fields =>
    ',' :: newline depth ++ quote key ++ [':', ' '] ++ prettyAt depth value ++
      prettyFields depth fields

end

/-- The text of a value, without a final line end. -/
def pretty (value : Json) : Text :=
  prettyAt 0 value

end Json

end EnumTables
