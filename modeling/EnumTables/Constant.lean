/-
The constants of an enum body.

A body starts with a list of constants, each with an optional documentation
comment and annotations in front, and an optional argument list and class
body behind it.  The list ends at the first semicolon outside of these.

* **`Constant.ofBody`** reads the constants of a body, documented or not;
* **`DocumentedConstant`** is a constant that has a comment, with its place
  among all constants of the body;
* **`documentedOf`** and **`undocumentedOf`** divide the constants.

A documentation comment belongs to the constant that follows it.  Ordinary
comments and annotations may stand between the two; any other token in
between takes the comment away, and of several comments the last counts.
-/
import EnumTables.Comment
import EnumTables.Token.Group
import EnumTables.Token.Lexer

namespace EnumTables

/-- A constant as it is declared. -/
structure Constant where
  /-- Inner text of the documentation comment. -/
  doc : Option Text
  name : Text
  /-- The text between the parentheses of the argument list. -/
  arguments : Option Text
  deriving DecidableEq, Repr

namespace Constant

/-- The tokens after the rest of a qualified name and an optional argument
list in parentheses. -/
def qualifiedRest (ts : List Token) : List Token :=
  match _h : significant? ts with
  | none => ts
  | some (t, rest) =>
    if t.kind = .other ∧ t.text = ['.'] then
      match _h' : significant? rest with
      | none => []
      | some (_, rest') => qualifiedRest rest'
    else if t.kind = .openParen then (closeGroup .openParen .closeParen 0 rest).2
    else ts
termination_by ts.length
decreasing_by
  have := significant?_length_lt _h
  have := significant?_length_lt _h'
  omega

/-- The tokens after an annotation whose `@` has been read.  An `@` without a
name is skipped alone. -/
def annotationRest (ts : List Token) : List Token :=
  match significant? ts with
  | none => ts
  | some (t, rest) => if t.kind = .ident then qualifiedRest rest else ts

/-- The argument text after a constant's name, if there is an argument list,
and the tokens after it.  An unclosed list runs to the end of the body. -/
def readArguments (body : Text) (ts : List Token) : Option Text × List Token :=
  match significant? ts with
  | none => (none, ts)
  | some (t, rest) =>
    if t.kind = .openParen then
      let stop := groupEnd .openParen .closeParen (Text.size body) rest
      (some (Text.slice body t.stop stop), (closeGroup .openParen .closeParen 0 rest).2)
    else (none, ts)

/-- The tokens after an optional class body. -/
def classBodyRest (ts : List Token) : List Token :=
  match significant? ts with
  | none => ts
  | some (t, rest) =>
    if t.kind = .openBrace then (closeGroup .openBrace .closeBrace 0 rest).2 else ts

/-- Skipping a qualified name adds no tokens. -/
theorem qualifiedRest_length_le (ts : List Token) :
    (qualifiedRest ts).length ≤ ts.length := by
  fun_induction qualifiedRest ts with
  | case1 => simp
  | case2 => simp
  | case3 ts t rest h _ t' rest' h' ih =>
    have := significant?_length_lt h
    have := significant?_length_lt h'
    omega
  | case4 ts t rest h _ _ =>
    have := significant?_length_lt h
    have := closeGroup_length_le .openParen .closeParen 0 rest
    omega
  | case5 => simp

/-- Skipping an annotation adds no tokens. -/
theorem annotationRest_length_le (ts : List Token) :
    (annotationRest ts).length ≤ ts.length := by
  unfold annotationRest
  split
  · simp
  · rename_i t rest h
    have := significant?_length_lt h
    have := qualifiedRest_length_le rest
    split <;> omega

/-- Reading arguments adds no tokens. -/
theorem readArguments_length_le (body : Text) (ts : List Token) :
    (readArguments body ts).2.length ≤ ts.length := by
  unfold readArguments
  split
  · simp
  · rename_i t rest h
    have := significant?_length_lt h
    have := closeGroup_length_le .openParen .closeParen 0 rest
    split
    · simp only
      omega
    · simp

/-- Skipping a class body adds no tokens. -/
theorem classBodyRest_length_le (ts : List Token) :
    (classBodyRest ts).length ≤ ts.length := by
  unfold classBodyRest
  split
  · simp
  · rename_i t rest h
    have := significant?_length_lt h
    have := closeGroup_length_le .openBrace .closeBrace 0 rest
    split <;> omega

/-- The constants in a list of tokens of `body`, where `doc` is the comment
that waits for a constant. -/
def ofTokens (body : Text) (doc : Option Text) : List Token → List Constant
  | [] => []
  | t :: ts =>
    match t.kind with
    | .docComment => ofTokens body (some (Comment.inner t.text)) ts
    | .comment => ofTokens body doc ts
    | .at => ofTokens body doc (annotationRest ts)
    | .ident =>
      let arguments := (readArguments body ts).1
      let rest := classBodyRest (readArguments body ts).2
      ⟨doc, t.text, arguments⟩ :: ofTokens body none rest
    | .semicolon => []
    | _ => ofTokens body none ts
termination_by ts => ts.length
decreasing_by
  all_goals simp only [List.length_cons]
  all_goals try omega
  · have := annotationRest_length_le ts
    omega
  · have := readArguments_length_le body ts
    have := classBodyRest_length_le (readArguments body ts).2
    omega

/-- The constants of an enum body, in source order. -/
def ofBody (body : Text) : List Constant :=
  ofTokens body none (lex body)

end Constant

/-- A constant with a documentation comment. -/
structure DocumentedConstant where
  name : Text
  /-- The text between the parentheses of the argument list. -/
  argument : Option Text
  /-- Inner text of the documentation comment. -/
  comment : Text
  /-- Place among all constants of the body. -/
  position : Nat
  deriving DecidableEq, Repr

namespace DocumentedConstant

/-- The argument without blanks around it; none if that leaves nothing. -/
def value (c : DocumentedConstant) : Option Text :=
  match c.argument with
  | none => none
  | some argument => if Text.trim argument = [] then none else some (Text.trim argument)

theorem value_eq (c : DocumentedConstant) :
    c.value = (c.argument.map Text.trim).filter (· ≠ []) := by
  rw [value]
  cases c.argument with
  | none => rfl
  | some argument => by_cases h : Text.trim argument = [] <;> simp [Option.filter, h]

/-- The comment as a description on one line. -/
def description (c : DocumentedConstant) : Text :=
  Comment.normalize c.comment

/-- The documented form of the constant at a position, if it has a comment. -/
def ofConstant? (c : Constant) (position : Nat) : Option DocumentedConstant :=
  match c.doc with
  | none => none
  | some comment => some ⟨c.name, c.arguments, comment, position⟩

end DocumentedConstant

/-- The documented constants among all constants of a body. -/
def documentedOf (cs : List Constant) : List DocumentedConstant :=
  cs.zipIdx.filterMap fun (c, i) => DocumentedConstant.ofConstant? c i

/-- The names of the constants without a comment. -/
def undocumentedOf (cs : List Constant) : List Text :=
  (cs.filter fun c => c.doc.isNone).map Constant.name

end EnumTables
