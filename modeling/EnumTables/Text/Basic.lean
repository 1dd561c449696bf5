/-
Text as a list of characters.

All text of this library is a `List Char`, so that every reading of it is a
recursion on its characters.  Positions are counted in bytes of the UTF-8
encoding.

* **`isBlank`** is the Unicode property White_Space;
* **`Text.size`** is the length in bytes, **`Text.slice`** the piece between
  two byte positions;
* **`Text.through`** cuts a text after the first occurrence of a mark;
* **`Text.trim`** removes blanks from both ends;
* **`Text.lines`** are the lines of a text;
* **`Text.slice_append`** says that a slice taken at the ends of a piece is
  that piece.
-/

namespace EnumTables

/-- A text, character by character. -/
abbrev Text := List Char

/-- The Unicode property White_Space. -/
def isBlank (c : Char) : Bool :=
  let n := c.toNat
  (9 ≤ n && n ≤ 13) || n == 0x20 || n == 0x85 || n == 0xA0 || n == 0x1680 ||
    (0x2000 ≤ n && n ≤ 0x200A) || n == 0x2028 || n == 0x2029 || n == 0x202F ||
    n == 0x205F || n == 0x3000

namespace Text

/-- Number of bytes of the UTF-8 encoding. -/
def size : Text → Nat
  | [] => 0
  | c :: cs => c.utf8Size + size cs

/-- The text from byte position `n` on. -/
def dropBytes : Nat → Text → Text
  | _, [] => []
  | 0, cs => cs
  | n, c :: cs => dropBytes (n - c.utf8Size) cs

/-- The first `n` bytes of a text. -/
def takeBytes : Nat → Text → Text
  | _, [] => []
  | 0, _ => []
  | n, c :: cs => c :: takeBytes (n - c.utf8Size) cs

/-- The text between two byte positions. -/
def slice (cs : Text) (start stop : Nat) : Text :=
  takeBytes (stop - start) (dropBytes start cs)

/-- The text without its leading blanks. -/
def trimStart (cs : Text) : Text :=
  cs.dropWhile isBlank

/-- The text without its trailing blanks. -/
def trimEnd (cs : Text) : Text :=
  (cs.reverse.dropWhile isBlank).reverse

/-- The text without blanks at either end. -/
def trim (cs : Text) : Text :=
  trimEnd (trimStart cs)

/-- Cuts a text right after the first occurrence of `mark`.  A text without
the mark is not cut: the first part is then all of it. -/
def through (mark : Text) : Text → Text × Text
  | [] => ([], [])
  | c :: cs =>
    if mark.isPrefixOf (c :: cs) then (mark, (c :: cs).drop mark.length)
    else
      let (front, rest) := through mark cs
      (c :: front, rest)

/-- The text without `lead` in front, unchanged if it does not start so. -/
def withoutLead (lead cs : Text) : Text :=
  if lead.isPrefixOf cs then cs.drop lead.length else cs

/-- The text without `tail` at the end, unchanged if it does not end so. -/
def withoutTail (tail cs : Text) : Text :=
  if tail.isSuffixOf cs then cs.take (cs.length - tail.length) else cs

/-- The pieces between the occurrences of `sep`; one more than there are
occurrences. -/
def splitOn {α : Type} [DecidableEq α] (sep : α) : List α → List (List α)
  | [] => [[]]
  | c :: cs =>
    if c = sep then [] :: splitOn sep cs
    else
      match splitOn sep cs with
      | [] => [[c]]
      | piece :: pieces => (c :: piece) :: pieces

/-- The pieces joined with `sep` between neighbours. -/
def join {α : Type} (sep : List α) : List (List α) → List α
  | [] => []
  | [piece] => piece
  | piece :: pieces => piece ++ sep ++ join sep pieces

/-- The lines of a text, without the line feeds that end them.  A carriage
return in front of a line feed is dropped with it.  No line starts after the
last line feed if nothing stands there. -/
def lines (cs : Text) : List Text :=
  let pieces := splitOn '\n' cs
  pieces.dropLast.map (withoutTail ['\r']) ++ pieces.getLast?.toList.filter (· ≠ [])

/-- A number in decimal. -/
def ofNat (n : Nat) : Text :=
  Nat.toDigits 10 n

/-- The bytes of two texts in a row add up. -/
theorem size_append (cs ds : Text) : size (cs ++ ds) = size cs + size ds := by
  induction cs with
  | nil => simp [size]
  | cons c cs ih => simp only [List.cons_append, size, ih, Nat.add_assoc]

/-- Dropping the bytes of the first of two texts leaves the second. -/
theorem dropBytes_append (cs ds : Text) : dropBytes (size cs) (cs ++ ds) = ds := by
  induction cs with
  | nil => cases ds <;> simp [size, dropBytes]
  | cons c cs ih =>
    have hpos := c.utf8Size_pos
    rw [List.cons_append, size, dropBytes]
    · rw [Nat.add_sub_cancel_left, ih]
    · omega

/-- Taking the bytes of the first of two texts gives that text. -/
theorem takeBytes_append (cs ds : Text) : takeBytes (size cs) (cs ++ ds) = cs := by
  induction cs with
  | nil => cases ds <;> simp [size, takeBytes]
  | cons c cs ih =>
    have hpos := c.utf8Size_pos
    rw [List.cons_append, size, takeBytes]
    · rw [Nat.add_sub_cancel_left, ih]
    · omega

/-- The slice between the ends of two consecutive texts is the second. -/
theorem slice_append (cs ds es : Text) :
    slice (cs ++ ds ++ es) (size cs) (size cs + size ds) = ds := by
  rw [slice, Nat.add_sub_cancel_left, List.append_assoc, dropBytes_append, takeBytes_append]

/-- Cutting loses nothing. -/
theorem through_append (mark cs : Text) :
    (through mark cs).1 ++ (through mark cs).2 = cs := by
  induction cs with
  | nil => rfl
  | cons c cs ih =>
    rw [through]
    split
    · rename_i h
      obtain ⟨rest, hrest⟩ := List.isPrefixOf_iff_prefix.mp h
      simp [← hrest]
    · simpa using ih

end Text

end EnumTables
