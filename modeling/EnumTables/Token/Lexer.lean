/-
Cutting source text into tokens.

`lex` skips blanks and cuts one token after the other until the text ends.
Every text is accepted: an unterminated comment or text block runs to the end
of the text, an unterminated string or character to the end of its line.

* **`cut`** takes a nonblank first character and what follows it, and gives
  the class of the token, its text and the rest;
* **`cut_append`** says that the two pieces make up the text again, and
  **`cut_text_ne_nil`** that a token is never empty;
* **`Token.read?`** is one step of the stream, **`lexFrom`** the whole of it.

The rest after a token is strictly shorter than the text before it, which is
the measure by which `lexFrom` ends.
-/
import EnumTables.Text.Letter
import EnumTables.Token.Basic

namespace EnumTables

/-- A character that may start a word. -/
def isWordStart (c : Char) : Bool :=
  Text.isLetter c || c == '_' || c == '$'

/-- A character that may continue a word. -/
def isWordChar (c : Char) : Bool :=
  Text.isLetter c || Text.isNumeral c || c == '_' || c == '$'

namespace Lexer

/-- The part of a string or character literal after its opening quote.  It
ends with the next quote that no backslash stands before, before the next
such line end, or with the text. -/
def quotedTail (quote : Char) : Text → Text × Text
  | [] => ([], [])
  | ['\\'] => (['\\'], [])
  | '\\' :: c :: cs =>
    let (front, rest) := quotedTail quote cs
    ('\\' :: c :: front, rest)
  | c :: cs =>
    if c = '\n' then ([], c :: cs)
    else if c = quote then ([c], cs)
    else
      let (front, rest) := quotedTail quote cs
      (c :: front, rest)

/-- The class of a block comment, by what follows its `/*`. -/
def blockKind : Text → TokenKind
  | '*' :: '/' :: _ => .comment
  | '*' :: _ => .docComment
  | _ => .comment

/-- Cuts the token off a text that starts with the nonblank character `c`:
its class, its text and the rest. -/
def cut (c : Char) (cs : Text) : TokenKind × Text × Text :=
  match c, cs with
  | '/', '*' :: r =>
    let (front, rest) := Text.through ['*', '/'] r
    (blockKind r, '/' :: '*' :: front, rest)
  | '/', '/' :: r =>
    (.comment, '/' :: '/' :: r.takeWhile (· ≠ '\n'), r.dropWhile (· ≠ '\n'))
  | '"', '"' :: '"' :: r =>
    let (front, rest) := Text.through ['"', '"', '"'] r
    (.literal, '"' :: '"' :: '"' :: front, rest)
  | '"', r =>
    let (front, rest) := quotedTail '"' r
    (.literal, '"' :: front, rest)
  | '\'', r =>
    let (front, rest) := quotedTail '\'' r
    (.literal, '\'' :: front, rest)
  | '{', r => (.openBrace, ['{'], r)
  | '}', r => (.closeBrace, ['}'], r)
  | '(', r => (.openParen, ['('], r)
  | ')', r => (.closeParen, [')'], r)
  | ',', r => (.comma, [','], r)
  | ';', r => (.semicolon, [';'], r)
  | '@', r => (.at, ['@'], r)
  | c, r =>
    if c.isDigit then
      (.literal, c :: r.takeWhile isWordChar, r.dropWhile isWordChar)
    else if isWordStart c then
      (.ident, c :: r.takeWhile isWordChar, r.dropWhile isWordChar)
    else
      (.other, [c], r)

/-- A literal's tail and the rest make up the text. -/
theorem quotedTail_append (quote : Char) (cs : Text) :
    (quotedTail quote cs).1 ++ (quotedTail quote cs).2 = cs := by
  fun_induction quotedTail quote cs <;> simp_all

/-- Cutting loses nothing. -/
theorem cut_append (c : Char) (cs : Text) :
    (cut c cs).2.1 ++ (cut c cs).2.2 = c :: cs := by
  fun_cases cut c cs <;> simp_all
  case case1 r front rest h =>
    have := Text.through_append ['*', '/'] r
    rwa [h] at this
  case case3 r front rest h =>
    have := Text.through_append ['"', '"', '"'] r
    rwa [h] at this
  case case4 front rest h =>
    have := quotedTail_append '"' cs
    rwa [h] at this
  case case5 front rest h =>
    have := quotedTail_append '\'' cs
    rwa [h] at this

/-- A token is never empty. -/
theorem cut_text_ne_nil (c : Char) (cs : Text) : (cut c cs).2.1 ≠ [] := by
  fun_cases cut c cs <;> simp

/-- What stands after a token is no longer than what stood after its first
character. -/
theorem cut_rest_length_le (c : Char) (cs : Text) :
    (cut c cs).2.2.length ≤ cs.length := by
  have happ := congrArg List.length (cut_append c cs)
  have hpos := List.length_pos_iff.mpr (cut_text_ne_nil c cs)
  simp only [List.length_append, List.length_cons] at happ
  omega

end Lexer

/-- The first token of a text that starts at byte position `offset`, and the
text after it. -/
def Token.read? (offset : Nat) (cs : Text) : Option (Token × Text) :=
  match cs.dropWhile isBlank with
  | [] => none
  | c :: r =>
    let start := offset + Text.size (cs.takeWhile isBlank)
    let (kind, text, rest) := Lexer.cut c r
    some (⟨kind, text, start, start + Text.size text⟩, rest)

/-- Reading a token consumes text. -/
theorem Token.read?_length_lt {offset : Nat} {cs : Text} {t : Token} {rest : Text}
    (h : Token.read? offset cs = some (t, rest)) : rest.length < cs.length := by
  unfold Token.read? at h
  split at h
  · simp at h
  · rename_i c r hdrop
    simp only [Option.some.injEq, Prod.mk.injEq] at h
    have hle := Lexer.cut_rest_length_le c r
    have hsuf := (List.dropWhile_suffix (l := cs) isBlank).length_le
    rw [hdrop, List.length_cons] at hsuf
    rw [h.2] at hle
    omega

/-- The tokens of a text that starts at byte position `offset`. -/
def lexFrom (offset : Nat) (cs : Text) : List Token :=
  match _h : Token.read? offset cs with
  | none => []
  | some (t, rest) => t :: lexFrom t.stop rest
termination_by cs.length
decreasing_by exact Token.read?_length_lt _h

/-- All tokens of a text. -/
def lex (cs : Text) : List Token :=
  lexFrom 0 cs

end EnumTables
