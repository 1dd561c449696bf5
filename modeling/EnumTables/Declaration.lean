/-
Enum declarations in a source text.

A declaration starts with the word `enum`, a name and either an opening brace
or an `implements` clause up to one.  Its body is the text up to the matching
closing brace, or to the end of the text.  The search goes on right after the
opening brace, so declarations inside a body are found too, after the outer
one.  A keyword that starts no declaration is passed over.

* **`Header`** is what stands in front of a body, **`Header.find?`** the next
  one in a list of significant tokens;
* **`Search`** is a search under way, **`Search.next?`** its next step;
* **`declarations`** is the result of the whole search.
-/
import EnumTables.Token.Group
import EnumTables.Token.Lexer

namespace EnumTables

/-- The front of a declaration: its name and the opening brace of its body. -/
structure Header where
  name : Token
  openBrace : Token
  deriving DecidableEq, Repr

namespace Header

/-- A token that an `implements` clause may hold. -/
def isClauseToken (t : Token) : Bool :=
  match t.kind with
  | .ident => true
  | .comma => true
  | .other => t.text ∈ [['.'], ['<'], ['>'], ['?']]
  | _ => false

/-- The opening brace behind an optional `implements` clause, and the tokens
after it.  Anything else in front of the brace means that there is none. -/
def brace? (inClause : Bool) : List Token → Option (Token × List Token)
  | [] => none
  | t :: ts =>
    if t.kind = .openBrace then some (t, ts)
    else if inClause then
      if isClauseToken t then brace? true ts else none
    else if t.isIdent "implements".toList then brace? true ts
    else none

/-- The header whose keyword has just been read, and the tokens after it. -/
def ofTokens? : List Token → Option (Header × List Token)
  | [] => none
  | name :: ts =>
    if name.kind = .ident then
      match brace? false ts with
      | some (openBrace, rest) => some (⟨name, openBrace⟩, rest)
      | none => none
    else none

/-- The first header in a list of significant tokens, and the tokens after
its brace. -/
def find? : List Token → Option (Header × List Token)
  | [] => none
  | t :: ts =>
    if t.isIdent "enum".toList then
      match ofTokens? ts with
      | some found => some found
      | none => find? ts
    else find? ts

/-- A brace is one of the tokens. -/
theorem brace?_length_lt {inClause : Bool} {ts rest : List Token} {t : Token}
    (h : brace? inClause ts = some (t, rest)) : rest.length < ts.length := by
  induction ts generalizing inClause with
  | nil => simp [brace?] at h
  | cons u us ih =>
    rw [brace?] at h
    split at h
    · simp only [Option.some.injEq, Prod.mk.injEq] at h
      simp [h.2]
    · simp only [List.length_cons]
      split at h
      · split at h
        · have := ih h
          omega
        · simp at h
      · split at h
        · have := ih h
          omega
        · simp at h

/-- A header consumes tokens. -/
theorem ofTokens?_length_lt {ts rest : List Token} {header : Header}
    (h : ofTokens? ts = some (header, rest)) : rest.length < ts.length := by
  cases ts with
  | nil => simp [ofTokens?] at h
  | cons t ts =>
    rw [ofTokens?] at h
    split at h
    · split at h
      · rename_i brace rest' hbrace
        simp only [Option.some.injEq, Prod.mk.injEq] at h
        have := brace?_length_lt hbrace
        rw [h.2] at this
        simp only [List.length_cons]
        omega
      · simp at h
    · simp at h

/-- A header that is found consumes tokens. -/
theorem find?_length_lt {ts rest : List Token} {header : Header}
    (h : find? ts = some (header, rest)) : rest.length < ts.length := by
  induction ts with
  | nil => simp [find?] at h
  | cons t ts ih =>
    simp only [List.length_cons]
    rw [find?] at h
    split at h
    · split at h
      · rename_i found hfound
        rw [h] at hfound
        have := ofTokens?_length_lt hfound
        omega
      · have := ih h
        omega
    · have := ih h
      omega

end Header

/-- One enum declaration of a source text. -/
structure Declaration where
  name : Text
  /-- The text between the braces. -/
  body : Text
  /-- How many declarations were found before this one. -/
  index : Nat
  deriving DecidableEq, Repr

/-- A search for declarations: the source, the significant tokens still to be
looked at, and the number of declarations found so far. -/
structure Search where
  source : Text
  rest : List Token
  found : Nat
  deriving DecidableEq, Repr

namespace Search

/-- The search of a whole text. -/
def ofText (source : Text) : Search :=
  ⟨source, (lex source).filter Token.isSignificant, 0⟩

/-- The next declaration, and the search after it. -/
def next? (s : Search) : Option (Declaration × Search) :=
  match Header.find? s.rest with
  | none => none
  | some (header, rest) =>
    let bodyEnd := groupEnd .openBrace .closeBrace (Text.size s.source) rest
    let body := Text.slice s.source header.openBrace.stop bodyEnd
    some (⟨header.name.text, body, s.found⟩, ⟨s.source, rest, s.found + 1⟩)

/-- A step of the search consumes tokens. -/
theorem next?_length_lt {s r : Search} {d : Declaration}
    (h : s.next? = some (d, r)) : r.rest.length < s.rest.length := by
  unfold next? at h
  split at h
  · simp at h
  · rename_i header rest hfind
    simp only [Option.some.injEq, Prod.mk.injEq] at h
    rw [← h.2]
    exact Header.find?_length_lt hfind

/-- The declarations still to come. -/
def all (s : Search) : List Declaration :=
  match _h : s.next? with
  | none => []
  | some (d, r) => d :: r.all
termination_by s.rest.length
decreasing_by exact next?_length_lt _h

end Search

/-- The enum declarations of a text, in source order. -/
def declarations (source : Text) : List Declaration :=
  (Search.ofText source).all

end EnumTables
