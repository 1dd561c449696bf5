/-
The table of one enum.

A table has a row for each documented constant.  Whether it has a column for
values is decided once for all rows: it has one as soon as any constant has a
value.

* **`Table.ofConstants?`** makes the table of an enum; an enum without
  documented constants has none;
* **`Table.markdown`** is its Markdown text.
-/
import EnumTables.Constant

namespace EnumTables

/-- The columns of a table. -/
inductive Schema where
  /-- Constant and comment. -/
  | namedOnly
  /-- Constant, value and comment. -/
  | namedValued
  deriving DecidableEq, Repr

namespace Schema

/-- A value column is there as soon as one constant has a value. -/
def ofConstants (constants : List DocumentedConstant) : Schema :=
  if constants.any fun c => c.value.isSome then .namedValued else .namedOnly

/-- The titles of the columns after the first, whose title is the enum's
name. -/
def titles : Schema → List Text
  | namedOnly => ["Comment".toList]
  | namedValued => ["Enum Value".toList, "Comment".toList]

/-- How many columns a table has. -/
def columnCount (schema : Schema) : Nat :=
  schema.titles.length + 1

/-- The name of the schema in structured output. -/
def name : Schema → Text
  | namedOnly => "named_only".toList
  | namedValued => "named_valued".toList

end Schema

/-- A row of a table. -/
structure Row where
  constant : Text
  value : Option Text
  comment : Text
  deriving DecidableEq, Repr

namespace Row

/-- The row of a documented constant. -/
def ofConstant (c : DocumentedConstant) : Row :=
  ⟨c.name, c.value, c.description⟩

/-- The cells of a row under a schema; an absent value leaves its cell
empty. -/
def cells (schema : Schema) (row : Row) : List Text :=
  match schema with
  | .namedOnly => [row.constant, row.comment]
  | .namedValued => [row.constant, row.value.getD [], row.comment]

end Row

/-- The table of one enum. -/
structure Table where
  enumName : Text
  schema : Schema
  rows : List Row
  deriving DecidableEq, Repr

namespace Table

/-- The table of an enum; none without documented constants. -/
def ofConstants? (enumName : Text) (constants : List DocumentedConstant) : Option Table :=
  match constants with
  | [] => none
  | _ => some ⟨enumName, Schema.ofConstants constants, constants.map Row.ofConstant⟩

/-- One line of a Markdown table. -/
def line (cells : List Text) : Text :=
  '|' :: cells.flatMap (fun cell => ' ' :: cell ++ [' ', '|']) ++ ['\n']

/-- The Markdown text: a line of titles, a line of dashes and a line for each
row. -/
def markdown (table : Table) : Text :=
  line (table.enumName :: table.schema.titles) ++
    line (List.replicate table.schema.columnCount ['-', '-', '-']) ++
    table.rows.flatMap fun row => line (row.cells table.schema)

end Table

end EnumTables
