/-
What a run reports while it works.

* **`Event`** lists the reports;
* **`Event.level`** says how important one is, **`Event.origin`** which part
  of the program it comes from, **`Event.message`** how it reads;
* **`Event.line`** is how it stands in the log, **`Event.note`** the same
  without the origin;
* **`SourceFile.events`** are the reports of making a document.
-/
import EnumTables.Config.Basic
import EnumTables.Document

namespace EnumTables

/-- Importance of a report, the most important first. -/
inductive Level where
  | error
  | warn
  | info
  | debug
  | trace
  deriving DecidableEq, Repr

namespace Level

/-- How much a filter has to let through before it shows this level. -/
def verbosity : Level → Nat
  | error => 1
  | warn => 2
  | info => 3
  | debug => 4
  | trace => 5

/-- The word in front of a message. -/
def label : Level → Text
  | error => "ERROR".toList
  | warn => "WARN".toList
  | info => "INFO".toList
  | debug => "DEBUG".toList
  | trace => "TRACE".toList

end Level

/-- A report of a run. -/
inductive Event where
  | started
  | configLoaded (config : Config)
  | scanning (base : Path)
  | outputTo (dir : Path)
  | discovered (count : Nat) (root : Path)
  | notUtf8 (path : Path)
  | constantSkipped (name : Text)
  | enumSkipped (enumName source : Text)
  /-- A scanned file has nothing to write. -/
  | nothingToWrite (path : Path)
  /-- A previewed file has nothing to show. -/
  | nothingToShow (path : Path)
  | overwrites (path : Path)
  | written (target : Path)
  | finished (scanned files tables : Nat)
  | initialized (dir : Path)
  deriving DecidableEq, Repr

namespace Event

/-- How important a report is. -/
def level : Event → Level
  | started => .info
  | configLoaded _ => .debug
  | scanning _ => .info
  | outputTo _ => .debug
  | discovered _ _ => .debug
  | notUtf8 _ => .warn
  | constantSkipped _ => .debug
  | enumSkipped _ _ => .debug
  | nothingToWrite _ => .debug
  | nothingToShow _ => .info
  | overwrites _ => .warn
  | written _ => .info
  | finished _ _ _ => .info
  | initialized _ => .info

/-- The part of the program a report comes from, as log filters name it. -/
def origin : Event → Text
  | started => "enumdoc".toList
  | discovered _ _ => "enumdoc::core::scanner".toList
  | notUtf8 _ => "enumdoc::core::scanner".toList
  | constantSkipped _ => "enumdoc::core::constants".toList
  | enumSkipped _ _ => "enumdoc::core::document".toList
  | _ => "enumdoc::core::engine".toList

/-- How a report reads. -/
def message : Event → Text
  | started => "Starting enumdoc v0.1.0".toList
  | configLoaded config => "Loaded configuration: ".toList ++ config.describe
  | scanning base => "🔍 Scanning ".toList ++ base.text ++ " for enum declarations".toList
  | outputTo dir => "Output: ".toList ++ dir.text
  | discovered count root =>
    "Discovered ".toList ++ Text.ofNat count ++ " source files in ".toList ++ root.text
  | notUtf8 path => path.text ++ " is not valid UTF-8, decoding lossily".toList
  | constantSkipped name => "Skipping undocumented constant ".toList ++ name
  | enumSkipped enumName source =>
    "No documented constants in enum ".toList ++ enumName ++ " of ".toList ++ source
  | nothingToWrite path => "No documented enums in ".toList ++ path.text
  | nothingToShow path => "No documented enums in ".toList ++ path.text
  | overwrites path =>
    path.text ++ " overwrites output of an earlier file with the same name".toList
  | written target => "Markdown file generated: ".toList ++ target.text
  | finished scanned files tables =>
    "🎉 ".toList ++ Text.ofNat scanned ++ " source files scanned, ".toList ++
      Text.ofNat files ++ " markdown files written (".toList ++ Text.ofNat tables ++
      " tables)".toList
  | initialized dir => "Initialized enumdoc in: ".toList ++ dir.text

/-- How a character of a message stands in the log.  One that could steer a
terminal is written by its number. -/
def logChar (c : Char) : Text :=
  let n := c.toNat
  if n ∈ [0x07, 0x08, 0x0C, 0x1B, 0x7F] then
    ['\\', 'x', Nat.digitChar (n / 16), Nat.digitChar (n % 16)]
  else if 0x80 ≤ n ∧ n ≤ 0x9F then
    ['\\', 'u', '{', Nat.digitChar (n / 16), Nat.digitChar (n % 16), '}']
  else [c]

/-- The message as the log shows it. -/
def shownMessage (e : Event) : Text :=
  e.message.flatMap logChar

/-- The entry of the log for a report.  It goes on over several lines if the
message does. -/
def line (e : Event) : Text :=
  e.level.label ++ ' ' :: e.origin ++ ": ".toList ++ e.shownMessage

/-- The entry of a log that leaves origins out. -/
def note (e : Event) : Text :=
  e.level.label ++ ' ' :: e.shownMessage

end Event

/-- The reports of reading the documented constants of a body. -/
def Constant.events (constants : List Constant) : List Event :=
  (undocumentedOf constants).map Event.constantSkipped

/-- The reports of making a declaration's table. -/
def Declaration.events (source : Text) (d : Declaration) : List Event :=
  Constant.events d.constants ++
    (if d.table?.isNone then [Event.enumSkipped d.name source] else [])

/-- The reports of making a file's document. -/
def SourceFile.events (file : SourceFile) : List Event :=
  (declarations file.text).flatMap (Declaration.events file.name)

end EnumTables
