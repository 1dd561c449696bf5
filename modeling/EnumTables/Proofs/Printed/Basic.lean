/-
Enums as they are printed.

An abstract enum is a name, an optional clause of interfaces, a list of
constants and an optional section of members.  What stands between brackets
is kept as text: it may be any text that the brackets around it are meant to
hold, and the types below carry the proof of that.

* **`Arguments`**, **`Block`** — a text that goes between parentheses, or
  between braces;
* **`Enumeration.print`** — the text of an enum;
* **`print`** — the text of a list of enums;
* **`Enumeration.table?`** — the table that an enum stands for, read off its
  constants.

Blanks between the parts are up to a `Layout`.
-/
import EnumTables.Document
import EnumTables.Proofs.Declaration.Header
import EnumTables.Proofs.Token.Balance
import EnumTables.Proofs.Token.Stream

namespace EnumTables

namespace Printed

/-- A sign behind the text is a token of its own, and the text has the tokens
that it has alone. -/
def Closable (sign : Char) (kind : TokenKind) (text : Text) : Prop :=
  ∃ t, t.kind = kind ∧ lex (text ++ [sign]) = lex text ++ [t]

/-- A word other than the keyword. -/
structure Name where
  head : Char
  tail : Text
  head_isWordStart : isWordStart head = true
  tail_isWordChar : tail.all isWordChar = true
  ne_keyword : head :: tail ≠ "enum".toList

def Name.text (name : Name) : Text :=
  name.head :: name.tail

/-- The text of an argument list, without its parentheses. -/
structure Arguments where
  text : Text
  closable : Closable ')' .closeParen text
  parens : Balanced .openParen .closeParen (lex text)
  braces : Balanced .openBrace .closeBrace (lex text)
  keywordless : Keywordless (lex text)

/-- The text of a class body or of a section of members. -/
structure Block where
  text : Text
  closable : Closable '}' .closeBrace text
  braces : Balanced .openBrace .closeBrace (lex text)
  keywordless : Keywordless (lex text)

/-- The text of a documentation comment, without its delimiters. -/
structure Doc where
  text : Text
  not_slash : ¬ ['/'] <+: text
  not_end : ¬ ['*', '/'] <:+: text

/-- The names of interfaces, with the signs between them. -/
structure Clause where
  text : Text
  tokens : ∀ t ∈ lex text, Header.ClauseToken t
  keywordless : Keywordless (lex text)

structure Annotation where
  head : Name
  tail : List Name
  arguments : Option Arguments

structure Constant where
  doc : Option Doc
  annotations : List Annotation
  name : Name
  arguments : Option Arguments
  classBody : Option Block

structure Enumeration where
  name : Name
  interfaces : Option Clause
  constants : List Constant
  members : Option Block

/-- The blanks between the parts of a text. -/
structure Layout where
  /-- Between words. -/
  space : Text
  /-- In front of a brace and of what separates or ends constants. -/
  pad : Text
  /-- In front of enums and constants. -/
  line : Text
  space_ne_nil : space ≠ []
  space_blank : Text.Blank space
  pad_blank : Text.Blank pad
  line_blank : Text.Blank line

def Arguments.print (arguments : Arguments) : Text :=
  '(' :: (arguments.text ++ [')'])

def Block.print (block : Block) : Text :=
  '{' :: (block.text ++ ['}'])

def Doc.print (doc : Doc) : Text :=
  '/' :: '*' :: '*' :: (doc.text ++ ['*', '/'])

/-- An optional part of a text; nothing is printed where it is absent. -/
def printOption {α : Type} (part : α → Text) : Option α → Text
  | none => []
  | some a => part a

/-- The rest of a qualified name. -/
def printSelectors (names : List Name) : Text :=
  names.flatMap fun name => '.' :: name.text

def Annotation.print (a : Annotation) : Text :=
  '@' :: (a.head.text ++ (printSelectors a.tail ++ printOption Arguments.print a.arguments))

/-- The part of a header between its name and its brace. -/
def printInterfaces (l : Layout) (interfaces : Option Clause) : Text :=
  printOption (fun clause => l.space ++ ("implements".toList ++ (l.space ++ clause.text)))
    interfaces

namespace Constant

def print (l : Layout) (c : Constant) : Text :=
  printOption (fun doc => doc.print ++ l.line) c.doc ++
    (c.annotations.flatMap (fun a => a.print ++ l.space) ++
      (c.name.text ++
        (printOption Arguments.print c.arguments ++
          printOption (fun block => l.pad ++ block.print) c.classBody)))

/-- The constant as it is declared. -/
def declared (c : Constant) : EnumTables.Constant :=
  ⟨c.doc.map Doc.text, c.name.text, c.arguments.map Arguments.text⟩

/-- The argument text without blanks around it, if that leaves anything. -/
def value (c : Constant) : Option Text :=
  (c.arguments.map fun arguments => Text.trim arguments.text).filter (· ≠ [])

/-- The row of a constant; only a documented one has a row. -/
def row? (c : Constant) : Option Row :=
  c.doc.map fun doc => ⟨c.name.text, c.value, Comment.normalize doc.text⟩

end Constant

namespace Enumeration

/-- What stands behind the last constant of an enum, up to its closing brace. -/
def bodyTail (l : Layout) (e : Enumeration) : Text :=
  l.pad ++ printOption (fun members => ';' :: members.text) e.members

/-- The text between the braces of an enum. -/
def body (l : Layout) (e : Enumeration) : Text :=
  l.line ++
    (Text.join (l.pad ++ ',' :: l.line) (e.constants.map (Constant.print l)) ++ e.bodyTail l)

/-- The text in front of the body. -/
def header (l : Layout) (e : Enumeration) : Text :=
  "enum".toList ++
    (l.space ++ (e.name.text ++ (printInterfaces l e.interfaces ++ (l.pad ++ ['{']))))

def print (l : Layout) (e : Enumeration) : Text :=
  e.header l ++ (e.body l ++ ['}'])

/-- The documented constants of an enum, with their places among all of its
constants. -/
def documented (e : Enumeration) : List DocumentedConstant :=
  e.constants.zipIdx.filterMap fun (c, i) =>
    c.doc.map fun doc => ⟨c.name.text, c.arguments.map Arguments.text, doc.text, i⟩

/-- The table of an enum: a row for each documented constant, and a column
for values if a row has one. -/
def table? (e : Enumeration) : Option Table :=
  match e.constants.filterMap Constant.row? with
  | [] => none
  | row :: rows =>
    some ⟨e.name.text,
      if (row :: rows).any fun r => r.value.isSome then .namedValued else .namedOnly,
      row :: rows⟩

end Enumeration

/-- The text of a list of enums. -/
def print (l : Layout) (es : List Enumeration) : Text :=
  es.flatMap (fun e => l.line ++ e.print l) ++ l.line

end Printed

end EnumTables
