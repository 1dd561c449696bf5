/-
Reading TOML documents.

A document is read statement by statement: a comment, an empty line, a header
or a key with its value.  What a statement says goes into the table of the
document at once, so two statements that contradict each other are found when
the second is read.

* **`key?`** reads a dotted key, **`value?`** a value;
* **`statement?`** reads one statement;
* **`read?`** reads a document; it gives nothing for a text that is not TOML.

Values may be nested and keys may be dotted up to a fixed depth, by which the
recursion of `value?` ends.
-/
import EnumTables.Toml.Quoted
import EnumTables.Toml.Scalar

namespace EnumTables.Toml

/-- Arrays and inline tables may be nested, and keys may have parts, up to but
not including this number. -/
def depthLimit : Nat := 80

/-- A space or a tab. -/
def isSpace (c : Char) : Bool :=
  c == ' ' || c == '\t'

/-- The text after spaces and tabs. -/
def skipSpace (cs : Text) : Text :=
  cs.dropWhile isSpace

/-- The text after the end of a line, in front of which there may be spaces
and a comment.  The end of the document ends a line too. -/
def lineEnd? (inComment : Bool) : Text → Option Text
  | [] => some []
  | '\n' :: cs => some cs
  | '\r' :: '\n' :: cs => some cs
  | c :: cs =>
    if inComment then
      if Quoted.isPlain c then lineEnd? true cs else none
    else if c = '#' then lineEnd? true cs
    else if isSpace c then lineEnd? false cs
    else none

/-- The text after spaces, line ends and comments, as they may stand between
the items of an array. -/
def skipLoose? (inComment : Bool) : Text → Option Text
  | [] => if inComment then none else some []
  | '\n' :: cs => skipLoose? false cs
  | '\r' :: '\n' :: cs => skipLoose? false cs
  | c :: cs =>
    if inComment then
      if Quoted.isPlain c then skipLoose? true cs else none
    else if c = '#' then skipLoose? true cs
    else if isSpace c then skipLoose? false cs
    else some (c :: cs)

/-- A character of a key without quotes. -/
def isKeyChar (c : Char) : Bool :=
  c.isAlphanum || c == '_' || c == '-'

/-- One part of a key, and the text after it. -/
def keyPart? (cs : Text) : Option (Text × Text) :=
  match cs with
  | '"' :: _ => Quoted.readShort? cs
  | '\'' :: _ => Quoted.readShort? cs
  | _ =>
    match cs.takeWhile isKeyChar with
    | [] => none
    | part => some (part, cs.dropWhile isKeyChar)

/-- The parts of a key, at most `limit` of them, and the text after it. -/
def keyParts? : Nat → Text → Option (List Text × Text)
  | 0, _ => none
  | limit + 1, cs =>
    match keyPart? (skipSpace cs) with
    | none => none
    | some (part, rest) =>
      match skipSpace rest with
      | '.' :: rest' =>
        (keyParts? limit rest').map fun (parts, rest'') => (part :: parts, rest'')
      | rest' => some ([part], rest')

/-- A dotted key with spaces around its parts, and the text after it. -/
def key? (cs : Text) : Option (List Text × Text) :=
  keyParts? (depthLimit - 1) cs

/-- The items of an array after its bracket or after a comma, and the text
after the array. -/
def items? (item? : Text → Option (Value × Text)) (cs : Text) :
    Option (List Value × Text) :=
  match skipLoose? false cs with
  | none => none
  | some [] => none
  | some (']' :: rest) => some ([], rest)
  | some start =>
    match item? start with
    | none => none
    | some (item, rest) =>
      match skipLoose? false rest with
      | some (']' :: rest') => some ([item], rest')
      | some (',' :: rest') =>
        if _h : rest'.length < cs.length then
          (items? item? rest').map fun (items, rest'') => (item :: items, rest'')
        else none
      | _ => none
termination_by cs.length

/-- A key with its value, and the text after it. -/
def keyValue? (item? : Text → Option (Value × Text)) (cs : Text) :
    Option (List Text × Value × Text) :=
  match key? cs with
  | some (key, '=' :: rest) =>
    (item? (skipSpace rest)).map fun (value, rest') => (key, value, rest')
  | _ => none

/-- The entries of an inline table, of which there is at least one, added to
`entries`, and the text after the table. -/
def fields? (item? : Text → Option (Value × Text)) (entries : Table) (cs : Text) :
    Option (Table × Text) :=
  match keyValue? item? cs with
  | none => none
  | some (key, value, rest) =>
    match entries.insert key value with
    | none => none
    | some entries' =>
      match skipSpace rest with
      | '}' :: rest' => some (entries', rest')
      | ',' :: rest' =>
        if _h : rest'.length < cs.length then fields? item? entries' rest' else none
      | _ => none
termination_by cs.length

/-- A value in which others may be nested `depth` levels deep, and the text
after it. -/
def valueAt? (depth : Nat) (cs : Text) : Option (Value × Text) :=
  match cs with
  | '"' :: _ => (Quoted.read? cs).map fun (s, rest) => (.string s, rest)
  | '\'' :: _ => (Quoted.read? cs).map fun (s, rest) => (.string s, rest)
  | '[' :: r =>
    match depth with
    | 0 => none
    | d + 1 => (items? (valueAt? d) r).map fun (items, rest) => (.array items, rest)
  | '{' :: r =>
    match depth with
    | 0 => none
    | d + 1 =>
      match skipSpace r with
      | '}' :: rest => some (.table .inline [], rest)
      | _ => (fields? (valueAt? d) [] r).map fun (entries, rest) =>
        (.table .inline entries, rest)
  | _ => Scalar.scalar? cs

/-- A value, and the text after it. -/
def value? (cs : Text) : Option (Value × Text) :=
  valueAt? (depthLimit - 1) cs

/-- A document while it is read: its table, and the header in effect. -/
structure Draft where
  root : Table
  header : List Text

/-- Takes in the statement that the text starts with; no spaces stand in front
of it. -/
def statement? (draft : Draft) (cs : Text) : Option (Draft × Text) :=
  match cs with
  | '#' :: r => (lineEnd? true r).map fun rest => (draft, rest)
  | '\n' :: r => some (draft, r)
  | '\r' :: '\n' :: r => some (draft, r)
  | '[' :: '[' :: r => do
    let (path, rest) ← key? r
    match rest with
    | ']' :: ']' :: rest =>
      let rest ← lineEnd? false rest
      let root ← draft.root.append path
      return (⟨root, path⟩, rest)
    | _ => none
  | '[' :: r => do
    let (path, rest) ← key? r
    match rest with
    | ']' :: rest =>
      let rest ← lineEnd? false rest
      let root ← draft.root.define path
      return (⟨root, path⟩, rest)
    | _ => none
  | _ => do
    let (key, value, rest) ← keyValue? value? cs
    let rest ← lineEnd? false rest
    let root ← draft.root.update (fun entries => entries.insert key value) draft.header
    return (⟨root, draft.header⟩, rest)

/-- Takes in all statements of a text. -/
def statements? (draft : Draft) (cs : Text) : Option Table :=
  match skipSpace cs with
  | [] => some draft.root
  | start =>
    match statement? draft start with
    | none => none
    | some (draft', rest) =>
      if _h : rest.length < cs.length then statements? draft' rest else none
termination_by cs.length

/-- The text without a byte order mark in front. -/
def dropByteOrderMark : Text → Text
  | c :: cs => if c.toNat = 0xFEFF then cs else c :: cs
  | [] => []

/-- The table that a document describes. -/
def read? (cs : Text) : Option Table :=
  statements? ⟨[], []⟩ (dropByteOrderMark cs)

end EnumTables.Toml
