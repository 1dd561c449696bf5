/-
TOML values and the rules by which a document builds its tables.

A table remembers how it came about, since that decides what may still be
added to it: a table under a header is defined once, a table that only a
longer header mentions may get its own header later, a table made by dotted
keys is extended by dotted keys alone, and an inline table is finished.

* **`Value`** is a value; numbers and booleans are all `scalar`, because no
  setting has such a value, and of a date or time only the kind is kept;
* **`Table.insert`** adds a key and its value, **`Table.define`** a table
  header, **`Table.append`** a header of an array of tables;
* **`Table.update`** changes the table that a header has named.

Each of them gives nothing when the addition is not allowed.
-/
import EnumTables.Text.Basic

namespace EnumTables.Toml

/-- How a table came about. -/
inductive Origin where
  /-- It has a header of its own. -/
  | header
  /-- It is only mentioned by the header of a table inside it. -/
  | implied
  /-- It was made by a dotted key. -/
  | dotted
  /-- It was written as a value. -/
  | inline
  deriving DecidableEq, Repr

/-- A TOML value. -/
inductive Value where
  | string (s : Text)
  /-- A number or a boolean. -/
  | scalar
  /-- A date, a time or both. -/
  | dateTime
  | array (items : List Value)
  | table (origin : Origin) (entries : List (Text × Value))
  /-- An array of tables, each of them with a header. -/
  | tables (elements : List (List (Text × Value)))

/-- The entries of a table, in the order of their first mention. -/
abbrev Table := List (Text × Value)

namespace Table

/-- The value of a key. -/
def get? (key : Text) (entries : Table) : Option Value :=
  List.lookup key entries

/-- Replaces the value of a key, or adds the key at the end. -/
def set (key : Text) (value : Value) : Table → Table
  | [] => [(key, value)]
  | (k, v) :: rest =>
    if k = key then (key, value) :: rest else (k, v) :: set key value rest

/-- Applies a change to the last element of a list, if there is one. -/
def changeLast {α : Type} (f : α → Option α) : List α → Option (List α)
  | [] => none
  | [a] => (f a).map fun b => [b]
  | a :: as => (changeLast f as).map fun bs => a :: bs

/-- Applies a change to the table at the end of a path of headers.  Tables on
the way that are missing become implied ones; an array of tables leads to its
last element. -/
def update (change : Table → Option Table) : List Text → Table → Option Table
  | [], entries => change entries
  | key :: path, entries =>
    match entries.get? key with
    | none =>
      (update change path []).map fun inner => entries.set key (.table .implied inner)
    | some (.table .inline _) => none
    | some (.table origin inner) =>
      (update change path inner).map fun inner' => entries.set key (.table origin inner')
    | some (.tables elements) =>
      (changeLast (update change path) elements).map fun elements' =>
        entries.set key (.tables elements')
    | some _ => none

/-- Adds a value under a key that must be new. -/
def addNew (key : Text) (value : Value) (entries : Table) : Option Table :=
  match entries.get? key with
  | none => some (entries ++ [(key, value)])
  | some _ => none

/-- Adds a value under a key inside the tables that `path` names.  A table
that is missing becomes a dotted one.  A table with a header, or an inline
one, may not be entered, and the key itself may only go into a dotted table:
`ready` says whether the table at hand is one. -/
def insertAt (key : Text) (value : Value) : List Text → Bool → Table → Option Table
  | [], ready, entries => if ready then entries.addNew key value else none
  | step :: path, _, entries =>
    match entries.get? step with
    | none =>
      (insertAt key value path true []).map fun inner => entries.set step (.table .dotted inner)
    | some (.table .dotted inner) =>
      (insertAt key value path true inner).map fun inner' =>
        entries.set step (.table .dotted inner')
    | some (.table .implied inner) =>
      (insertAt key value path false inner).map fun inner' =>
        entries.set step (.table .implied inner')
    | some (.tables elements) =>
      (changeLast (insertAt key value path false) elements).map fun elements' =>
        entries.set step (.tables elements')
    | some _ => none

/-- Adds a value under a key, which may be a dotted one. -/
def insert (key : List Text) (value : Value) (entries : Table) : Option Table :=
  match key.getLast? with
  | none => none
  | some last => insertAt last value key.dropLast true entries

/-- Gives the table under a key its header.  It must be new or implied. -/
def addHeader (key : Text) (entries : Table) : Option Table :=
  match entries.get? key with
  | none => some (entries ++ [(key, .table .header [])])
  | some (.table .implied inner) => some (entries.set key (.table .header inner))
  | some _ => none

/-- Adds an empty element to the array of tables under a key.  The key must be
new or such an array. -/
def addElement (key : Text) (entries : Table) : Option Table :=
  match entries.get? key with
  | none => some (entries ++ [(key, .tables [[]])])
  | some (.tables elements) => some (entries.set key (.tables (elements ++ [[]])))
  | some _ => none

/-- Takes in the header of a table. -/
def define (path : List Text) (entries : Table) : Option Table :=
  match path.getLast? with
  | none => none
  | some last => update (addHeader last) path.dropLast entries

/-- Takes in the header of an element of an array of tables. -/
def append (path : List Text) (entries : Table) : Option Table :=
  match path.getLast? with
  | none => none
  | some last => update (addElement last) path.dropLast entries

end Table

end EnumTables.Toml
