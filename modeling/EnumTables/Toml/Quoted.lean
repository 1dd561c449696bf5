/-
Quoted strings of TOML: four ways to write a text, and reading them back.

A basic string stands between double quotes and has escapes, a literal string
stands between single quotes and has none; either may be written with three
quotes and then span several lines.

* **`Quoted.read?`** reads a string of any style;
* **`Quoted.write`** writes a text in the plainest style that can hold it.

Writing prefers a basic string without escapes, then a literal string, then a
basic string over several lines, then a literal one over several lines, and
falls back to escapes only where none of these can hold the text.
-/
import EnumTables.Text.Hex

namespace EnumTables.Toml.Quoted

/-! ### Reading -/

/-- A character that may stand for itself in a string or a comment: the tab,
or any character that is not a control character. -/
def isPlain (c : Char) : Bool :=
  c == '\t' || (0x20 ≤ c.toNat && c.toNat != 0x7F)

/-- The character that an escape stands for, and the text after it.  The
backslash has been read. -/
def escape? : Text → Option (Char × Text)
  | 'b' :: cs => some ('\x08', cs)
  | 't' :: cs => some ('\t', cs)
  | 'n' :: cs => some ('\n', cs)
  | 'f' :: cs => some ('\x0c', cs)
  | 'r' :: cs => some ('\r', cs)
  | '"' :: cs => some ('"', cs)
  | '\\' :: cs => some ('\\', cs)
  | 'u' :: a :: b :: c :: d :: cs =>
    ((Text.hexNumber? [a, b, c, d]).bind Text.charOf?).map fun x => (x, cs)
  | 'U' :: a :: b :: c :: d :: e :: f :: g :: h :: cs =>
    ((Text.hexNumber? [a, b, c, d, e, f, g, h]).bind Text.charOf?).map fun x => (x, cs)
  | _ => none

/-- The text after blanks and line ends. -/
def skipLines : Text → Text
  | ' ' :: cs => skipLines cs
  | '\t' :: cs => skipLines cs
  | '\n' :: cs => skipLines cs
  | '\r' :: '\n' :: cs => skipLines cs
  | cs => cs

/-- The text after a line end that a backslash hides, with all blanks and line
ends behind it.  The backslash has been read. -/
def hiddenLineEnd? : Text → Option Text
  | ' ' :: cs => hiddenLineEnd? cs
  | '\t' :: cs => hiddenLineEnd? cs
  | '\n' :: cs => some (skipLines cs)
  | '\r' :: '\n' :: cs => some (skipLines cs)
  | _ => none

/-- An escape has at least one character. -/
theorem escape?_length_lt {cs rest : Text} {c : Char}
    (h : escape? cs = some (c, rest)) : rest.length < cs.length := by
  unfold escape? at h
  split at h <;> simp only [Option.map_eq_some_iff, Option.some.injEq, Prod.mk.injEq,
    reduceCtorEq] at h
  case h_8 =>
    obtain ⟨_, _, _, rfl⟩ := h
    simp only [List.length_cons]
    omega
  case h_9 =>
    obtain ⟨_, _, _, rfl⟩ := h
    simp only [List.length_cons]
    omega
  all_goals
    obtain ⟨_, rfl⟩ := h
    simp only [List.length_cons]
    omega

/-- Skipping lines adds nothing. -/
theorem skipLines_length_le (cs : Text) : (skipLines cs).length ≤ cs.length := by
  fun_induction skipLines cs <;> simp only [List.length_cons, Nat.le_refl] <;> omega

/-- A hidden line end has at least one character. -/
theorem hiddenLineEnd?_length_lt {cs rest : Text}
    (h : hiddenLineEnd? cs = some rest) : rest.length < cs.length := by
  fun_induction hiddenLineEnd? cs with
  | case1 cs ih => exact Nat.lt_succ_of_lt (ih h)
  | case2 cs ih => exact Nat.lt_succ_of_lt (ih h)
  | case3 cs =>
    have := skipLines_length_le cs
    cases h
    simp only [List.length_cons]
    omega
  | case4 cs =>
    have := skipLines_length_le cs
    cases h
    simp only [List.length_cons]
    omega
  | case5 => simp at h

/-- Puts a character in front of a string that has been read. -/
def prepend (c : Char) (read : Option (Text × Text)) : Option (Text × Text) :=
  read.map fun (s, rest) => (c :: s, rest)

/-- The rest of a basic string, and the text after it. -/
def basicTail (cs : Text) : Option (Text × Text) :=
  match cs with
  | [] => none
  | '"' :: r => some ([], r)
  | '\\' :: r =>
    match _h : escape? r with
    | none => none
    | some (c, r') => prepend c (basicTail r')
  | c :: r => if isPlain c then prepend c (basicTail r) else none
termination_by cs.length
decreasing_by
  · have := escape?_length_lt _h
    simp only [List.length_cons]
    omega
  · simp

/-- The rest of a literal string, and the text after it. -/
def literalTail : Text → Option (Text × Text)
  | [] => none
  | '\'' :: r => some ([], r)
  | c :: r => if isPlain c then prepend c (literalTail r) else none

/-- The end of a string with three quotes, of which three have been read.  Up
to two more belong to the string. -/
def closing (quote : Char) : Text → Text × Text
  | [] => ([], [])
  | [a] => if a = quote then ([quote], []) else ([], [a])
  | a :: b :: r =>
    if a = quote then
      if b = quote then ([quote, quote], r) else ([quote], b :: r)
    else ([], a :: b :: r)

/-- The rest of a basic string over several lines, and the text after it. -/
def longBasicTail (cs : Text) : Option (Text × Text) :=
  match cs with
  | [] => none
  | '"' :: '"' :: '"' :: r => some (closing '"' r)
  | '"' :: r => prepend '"' (longBasicTail r)
  | '\\' :: r =>
    match _h : escape? r with
    | some (c, r') => prepend c (longBasicTail r')
    | none =>
      match _h' : hiddenLineEnd? r with
      | some r' => longBasicTail r'
      | none => none
  | '\n' :: r => prepend '\n' (longBasicTail r)
  | '\r' :: '\n' :: r => prepend '\n' (longBasicTail r)
  | c :: r => if isPlain c then prepend c (longBasicTail r) else none
termination_by cs.length
decreasing_by
  · simp
  · have := escape?_length_lt _h
    simp only [List.length_cons]
    omega
  · have := hiddenLineEnd?_length_lt _h'
    simp only [List.length_cons]
    omega
  · simp
  · simp only [List.length_cons]
    omega
  · simp

/-- The rest of a literal string over several lines, and the text after it. -/
def longLiteralTail : Text → Option (Text × Text)
  | [] => none
  | '\'' :: '\'' :: '\'' :: r => some (closing '\'' r)
  | '\n' :: r => prepend '\n' (longLiteralTail r)
  | '\r' :: '\n' :: r => prepend '\n' (longLiteralTail r)
  | c :: r => if isPlain c then prepend c (longLiteralTail r) else none

/-- The text without a line end in front. -/
def dropLineEnd : Text → Text
  | '\n' :: cs => cs
  | '\r' :: '\n' :: cs => cs
  | cs => cs

/-- A string on one line, and the text after it. -/
def readShort? : Text → Option (Text × Text)
  | '"' :: cs => basicTail cs
  | '\'' :: cs => literalTail cs
  | _ => none

/-- A string of any style, and the text after it.  A line end right after
three opening quotes does not belong to the string. -/
def read? : Text → Option (Text × Text)
  | '"' :: '"' :: '"' :: cs => longBasicTail (dropLineEnd cs)
  | '\'' :: '\'' :: '\'' :: cs => longLiteralTail (dropLineEnd cs)
  | cs => readShort? cs

/-! ### Writing -/

/-- How a string is written. -/
inductive Style where
  | basic
  | literal
  | longBasic
  | longLiteral
  deriving DecidableEq, Repr

/-- Length of the longest run of a character, where a run of `run` of them
stands in front of the text. -/
def longestRun (c : Char) (run : Nat) : Text → Nat
  | [] => run
  | d :: cs =>
    if d = c then longestRun c (run + 1) cs else max run (longestRun c 0 cs)

/-- A control character that only an escape can write: not the tab and not the
line feed. -/
def needsEscape (c : Char) : Bool :=
  !isPlain c && c != '\n'

/-- The plainest style that can hold a text. -/
def style (s : Text) : Style :=
  let controls := s.any needsEscape
  let backslash := s.contains '\\'
  let lines := s.contains '\n'
  let double := longestRun '"' 0 s
  let single := longestRun '\'' 0 s
  if !controls && !backslash && double == 0 && !lines then .basic
  else if !controls && single == 0 && !lines then .literal
  else if !controls && !backslash && double ≤ 2 then .longBasic
  else if !controls && single ≤ 2 then .longLiteral
  else if lines then .longBasic
  else .basic

/-- A control character by its number, with four digits. -/
def byNumber (c : Char) : Text :=
  let digit (n : Nat) : Char := (Nat.digitChar n).toUpper
  let n := c.toNat
  ['\\', 'u', digit (n / 4096 % 16), digit (n / 256 % 16), digit (n / 16 % 16), digit (n % 16)]

/-- The inside of a basic string.  With `long` it may span lines, and up to
two quotes in a row stand for themselves; `run` of them stand in front. -/
def escaped (long : Bool) (run : Nat) : Text → Text
  | [] => []
  | c :: cs =>
    if c = '"' then
      if long && run < 2 then '"' :: escaped long (run + 1) cs
      else '\\' :: '"' :: escaped long 0 cs
    else if c = '\n' then
      if long then '\n' :: escaped long 0 cs else '\\' :: 'n' :: escaped long 0 cs
    else if c = '\x08' then '\\' :: 'b' :: escaped long 0 cs
    else if c = '\t' then '\\' :: 't' :: escaped long 0 cs
    else if c = '\x0c' then '\\' :: 'f' :: escaped long 0 cs
    else if c = '\r' then '\\' :: 'r' :: escaped long 0 cs
    else if c = '\\' then '\\' :: '\\' :: escaped long 0 cs
    else if isPlain c then c :: escaped long 0 cs
    else byNumber c ++ escaped long 0 cs

/-- The line end after three opening quotes, written for a text with more than
one line. -/
def firstLineEnd (s : Text) : Text :=
  if s.contains '\n' then ['\n'] else []

/-- A text in a given style. -/
def writeAs (s : Text) : Style → Text
  | .basic => '"' :: escaped false 0 s ++ ['"']
  | .literal => '\'' :: s ++ ['\'']
  | .longBasic =>
    ['"', '"', '"'] ++ firstLineEnd s ++ escaped true 0 s ++ ['"', '"', '"']
  | .longLiteral =>
    ['\'', '\'', '\''] ++ firstLineEnd s ++ s ++ ['\'', '\'', '\'']

/-- A text in the plainest style that can hold it. -/
def write (s : Text) : Text :=
  writeAs s (style s)

end EnumTables.Toml.Quoted
