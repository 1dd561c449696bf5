/-
A position in a source text from which tokens are read one by one.

A cursor holds the text still to be read and its byte position.  Reading is
done on demand: nothing is cut before it is asked for.  A copy of a cursor is
an independent position in the same text, which is all that looking ahead
and going back need.

* **`Cursor.next`** reads one token;
* **`Cursor.nextSignificant`**, **`Cursor.peekSignificant`** skip comments;
* **`Cursor.closeGroup`** reads through a matching closer;
* **`Cursor.tokens`** are the tokens still to come.
-/
import EnumTables.Token.Lexer

namespace EnumTables

/-- A position in a source text. -/
structure Cursor where
  /-- The whole text. -/
  source : Text
  /-- What is still to be read. -/
  rest : Text
  /-- Byte position of `rest` in `source`. -/
  offset : Nat
  deriving DecidableEq, Repr

namespace Cursor

/-- The position in front of a text. -/
def ofText (source : Text) : Cursor :=
  ⟨source, source, 0⟩

/-- The tokens still to come. -/
def tokens (c : Cursor) : List Token :=
  lexFrom c.offset c.rest

/-- The next token and the position after it. -/
def next? (c : Cursor) : Option (Token × Cursor) :=
  match Token.read? c.offset c.rest with
  | none => none
  | some (t, rest) => some (t, ⟨c.source, rest, t.stop⟩)

/-- Reading a token consumes text. -/
theorem next?_length_lt {c d : Cursor} {t : Token} (h : c.next? = some (t, d)) :
    d.rest.length < c.rest.length := by
  unfold next? at h
  split at h
  · simp at h
  · rename_i u rest hread
    simp only [Option.some.injEq, Prod.mk.injEq] at h
    rw [← h.2]
    exact Token.read?_length_lt hread

/-- Reads one token. -/
def next (c : Cursor) : Option Token × Cursor :=
  match c.next? with
  | none => (none, c)
  | some (t, d) => (some t, d)

/-- Reads through the next token that is not a comment. -/
def nextSignificant (c : Cursor) : Option Token × Cursor :=
  match _h : c.next? with
  | none => (none, c)
  | some (t, d) => if t.isSignificant then (some t, d) else d.nextSignificant
termination_by c.rest.length
decreasing_by exact next?_length_lt _h

/-- The next token that is not a comment; nothing is read. -/
def peekSignificant (c : Cursor) : Option Token :=
  c.nextSignificant.1

/-- Reads through the closer of a group whose opener has been read, with
`depth` inner groups still open. -/
def closeGroupFrom (opener closer : TokenKind) (depth : Nat) (c : Cursor) :
    Option Token × Cursor :=
  match _h : c.next? with
  | none => (none, c)
  | some (t, d) =>
    if t.kind = opener then closeGroupFrom opener closer (depth + 1) d
    else if t.kind = closer then
      match depth with
      | 0 => (some t, d)
      | n + 1 => closeGroupFrom opener closer n d
    else closeGroupFrom opener closer depth d
termination_by c.rest.length
decreasing_by all_goals exact next?_length_lt _h

/-- Reads through the closer of the group that was opened last. -/
def closeGroup (opener closer : TokenKind) (c : Cursor) : Option Token × Cursor :=
  closeGroupFrom opener closer 0 c

end Cursor

end EnumTables
