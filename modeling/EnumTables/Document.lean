/-
The document of one source file.

A document holds the tables of all enums of a file that have documented
constants, in source order.

* **`SourceFile.nameOf`** names a file by its path;
* **`SourceFile.document`** makes the document of a file;
* **`SourceFile.artifact`** names the Markdown file it is written to;
* **`Document.markdown`**, **`Document.json`** are its two texts,
  **`Document.render`** the one that is asked for.
-/
import EnumTables.Declaration
import EnumTables.Json
import EnumTables.Path
import EnumTables.Table

namespace EnumTables

/-- A source file: its name and its text. -/
structure SourceFile where
  name : Text
  text : Text
  deriving DecidableEq, Repr

/-- The tables of one source file. -/
structure Document where
  source : Text
  tables : List Table
  deriving DecidableEq, Repr

namespace Declaration

/-- The constants that a declaration's body lists. -/
def constants (d : Declaration) : List Constant :=
  Constant.ofBody d.body

/-- The table of a declaration, if it has documented constants. -/
def table? (d : Declaration) : Option Table :=
  Table.ofConstants? d.name (documentedOf d.constants)

end Declaration

namespace SourceFile

/-- What the file at a path is called: the last component of the path, with U+FFFD
for what is not UTF-8. -/
def nameOf (path : Path) : Text :=
  (path.fileName?.map Utf8.decodeLossy).getD path.text

/-- The document of a source file. -/
def document (file : SourceFile) : Document :=
  ⟨file.name, (declarations file.text).filterMap Declaration.table?⟩

/-- The name of the Markdown file for a source file. -/
def artifact (file : SourceFile) : Path :=
  Path.withExtension "md".toList (.mk file.name)

end SourceFile

namespace Document

/-- A document without tables is not written. -/
def isEmpty (d : Document) : Bool :=
  d.tables.isEmpty

/-- A table under the heading that names its source. -/
def titled (source : Text) (table : Table) : Text :=
  "##  ".toList ++ source ++ ['\n', '\n'] ++ table.markdown

/-- The Markdown text: a section for each table, with an empty line between
neighbours. -/
def markdown (d : Document) : Text :=
  Text.join ['\n'] (d.tables.map (titled d.source))

end Document

/-- A row in structured output; an absent value has no field. -/
def Row.toJson (row : Row) : Json :=
  .object <|
    [("constant".toList, .string row.constant)] ++
    (match row.value with
      | none => []
      | some value => [("value".toList, .string value)]) ++
    [("comment".toList, .string row.comment)]

/-- A table in structured output. -/
def Table.toJson (table : Table) : Json :=
  .object [
    ("enum_name".toList, .string table.enumName),
    ("schema".toList, .string table.schema.name),
    ("rows".toList, .array (table.rows.map Row.toJson))]

/-- A document in structured output. -/
def Document.toJson (d : Document) : Json :=
  .object [
    ("source".toList, .string d.source),
    ("tables".toList, .array (d.tables.map Table.toJson))]

/-- The JSON text of a document, without a final line end. -/
def Document.json (d : Document) : Text :=
  d.toJson.pretty

/-- A text that a document can be shown as. -/
inductive Format where
  | markdown
  | json
  deriving DecidableEq, Repr

/-- The text of a document in a format; it ends with a line end. -/
def Document.render (d : Document) : Format → Text
  | .markdown => d.markdown
  | .json => d.json ++ ['\n']

end EnumTables
