/-
Tokens of Java-style source text.

A token is a piece of the source with its class and its byte span.  The
classes tell apart what delimits enum declarations and nothing more: comments,
literals, words, and the brackets and separators.  Comments and literals are
opaque, so a brace inside `"{"` or `/* } */` takes no part in nesting.
-/
import EnumTables.Text.Basic

namespace EnumTables

/-- The class of a token. -/
inductive TokenKind where
  /-- A block comment that opens with `/**` and is not `/**/`. -/
  | docComment
  /-- Any other block comment, or a line comment. -/
  | comment
  /-- A word that starts with a letter, `_` or `$`. -/
  | ident
  /-- A string, character, text block or number. -/
  | literal
  | openBrace
  | closeBrace
  | openParen
  | closeParen
  | comma
  | semicolon
  | at
  /-- Any other single character. -/
  | other
  deriving DecidableEq, Repr

namespace TokenKind

/-- Documentation comments count as comments too. -/
def isComment : TokenKind → Bool
  | docComment => true
  | comment => true
  | _ => false

end TokenKind

/-- A piece of the source: its class, its text and its byte span. -/
structure Token where
  kind : TokenKind
  text : Text
  /-- Byte position of the first character. -/
  start : Nat
  /-- Byte position after the last character. -/
  stop : Nat
  deriving DecidableEq, Repr

namespace Token

/-- The word `name`. -/
def isIdent (name : Text) (t : Token) : Bool :=
  t.kind == .ident && t.text == name

/-- Whether the token is anything but a comment. -/
def isSignificant (t : Token) : Bool :=
  !t.kind.isComment

end Token

end EnumTables
