/-
The smallest parts of a pattern.

A pattern is a regular expression.  Here it is only asked whether a pattern is
well-formed, so reading a part of it gives little more than the text after it.

Two flags change how a pattern is read: blanks and comments may count for
nothing, and the pattern may speak of bytes instead of characters.  A pattern
of bytes must not match what is not UTF-8, so it has no parts that take in
bytes above ASCII one by one.

* **`Mode`** is the state of these flags;
* **`Mode.skip`** passes over what counts for nothing;
* **`escape?`** reads what a backslash begins, **`atom?`** any part that is
  neither bracketed nor repeated.

No part is written with braces: a pattern in a filter has no closing brace, so
an opening one is never matched.
-/
import EnumTables.Text.Hex

namespace EnumTables.Pattern

/-- How a pattern is to be read. -/
structure Mode where
  /-- Blanks and comments count for nothing. -/
  loose : Bool
  /-- The pattern speaks of characters, not of bytes. -/
  unicode : Bool
  deriving DecidableEq, Repr

/-- A part of a pattern. -/
inductive Atom where
  | char (c : Char)
  /-- Any character of a kind. -/
  | kind
  /-- A place between characters. -/
  | place
  deriving DecidableEq, Repr

/-- The text after blanks and comments; a comment goes to the end of its
line. -/
def skipLoose (inComment : Bool) : Text → Text
  | [] => []
  | c :: cs =>
    if inComment then skipLoose (c ≠ '\n') cs
    else if isBlank c then skipLoose false cs
    else if c = '#' then skipLoose true cs
    else c :: cs

namespace Mode

/-- The mode a pattern starts in. -/
def initial : Mode :=
  ⟨false, true⟩

/-- The text after what counts for nothing. -/
def skip (mode : Mode) (cs : Text) : Text :=
  if mode.loose then skipLoose false cs else cs

end Mode

/-- Passing over blanks and comments does not make a text longer. -/
theorem skipLoose_length_le (inComment : Bool) (cs : Text) :
    (skipLoose inComment cs).length ≤ cs.length := by
  induction cs generalizing inComment with
  | nil => simp [skipLoose]
  | cons c cs ih =>
    rw [skipLoose]
    split
    · exact Nat.le_succ_of_le (ih _)
    · split
      · exact Nat.le_succ_of_le (ih _)
      · split
        · exact Nat.le_succ_of_le (ih _)
        · exact Nat.le_refl _

/-- Passing over what counts for nothing does not make a text longer. -/
theorem Mode.skip_length_le (mode : Mode) (cs : Text) :
    (mode.skip cs).length ≤ cs.length := by
  rw [Mode.skip]
  split
  · exact skipLoose_length_le false cs
  · exact Nat.le_refl _

/-- A number of exactly `k` hexadecimal digits, which continues `n`, and the
text after it. -/
def hexDigits? (mode : Mode) : Nat → Nat → Text → Option (Nat × Text)
  | 0, n, cs => some (n, cs)
  | k + 1, n, cs =>
    match mode.skip cs with
    | [] => none
    | c :: rest =>
      match Text.hexValue? c with
      | none => none
      | some d => hexDigits? mode k (16 * n + d) rest

/-- A character written as a number of `k` hexadecimal digits. -/
def hexChar? (mode : Mode) (k : Nat) (cs : Text) : Option (Char × Text) :=
  match hexDigits? mode k 0 cs with
  | none => none
  | some (n, rest) => (Text.charOf? n).map fun c => (c, rest)

/-- The letters of the general categories. -/
def categories : Text :=
  "CLMNPSZclmnpsz".toList

/-- The characters of a general category, which is named by one letter. -/
def category? (mode : Mode) (cs : Text) : Option (Atom × Text) :=
  match mode.skip cs with
  | [] => none
  | c :: rest => if mode.unicode && categories.contains c then some (.kind, rest) else none

/-- What a backslash begins, and the text after it.  The backslash has been
read.  A number of two digits is a byte in a pattern of bytes.  Where words
begin and end is only known for bytes. -/
def escape? (mode : Mode) : Text → Option (Atom × Text)
  | [] => none
  | c :: cs =>
    let char (d : Char) : Option (Atom × Text) := some (.char d, cs)
    match c with
    | 'x' =>
      match hexChar? mode 2 cs with
      | none => none
      | some (d, rest) => if mode.unicode || d.toNat < 128 then some (.char d, rest) else none
    | 'u' => (hexChar? mode 4 cs).map fun (d, rest) => (.char d, rest)
    | 'U' => (hexChar? mode 8 cs).map fun (d, rest) => (.char d, rest)
    | 'p' => category? mode cs
    | 'P' => category? mode cs
    | 'a' => char '\x07'
    | 'f' => char '\x0c'
    | 't' => char '\t'
    | 'n' => char '\n'
    | 'r' => char '\r'
    | 'v' => char '\x0b'
    | c =>
      if "dsw".toList.contains c then some (.kind, cs)
      else if "DSW".toList.contains c then if mode.unicode then some (.kind, cs) else none
      else if "Az".toList.contains c then some (.place, cs)
      else if "bB<>".toList.contains c then if mode.unicode then none else some (.place, cs)
      else if c.toNat < 128 && !c.isAlphanum then char c
      else none

/-- A part that is neither bracketed nor repeated, and the text after it. -/
def atom? (mode : Mode) : Text → Option (Atom × Text)
  | [] => none
  | '\\' :: cs => escape? mode cs
  | '.' :: cs => if mode.unicode then some (.kind, cs) else none
  | '^' :: cs => some (.place, cs)
  | '$' :: cs => some (.place, cs)
  | '{' :: _ => none
  | c :: cs => some (.char c, cs)

/-- How deep parts that stand side by side are nested, from the depths of the
parts.  A single part adds nothing. -/
def depthOf : List Nat → Nat
  | [] => 0
  | [d] => d
  | d :: ds => 1 + ds.foldl max d

end EnumTables.Pattern
