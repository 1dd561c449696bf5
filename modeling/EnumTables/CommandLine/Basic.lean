/-
Command lines: what they can ask for, and how they are written.

* **`Invocation`** is what a command line asks for;
* **`UsageError`** is why none can be read off it, requests for help among
  them;
* **`Parameter`** lists the options, **`Level.long?`** and **`Level.short?`**
  say which of them are known where.

The options `--config` and `--verbose` are known everywhere; all others belong
to one command.
-/
import EnumTables.Document

namespace EnumTables

/-- A command with its settings. -/
inductive Command where
  | generate (source output : Option Path)
  | preview (file : Path) (format : Format)
  | init (path : Option Path) (force : Bool)
  deriving DecidableEq, Repr

/-- What a command line asks for. -/
structure Invocation where
  config : Option Path
  verbose : Bool
  command : Command
  deriving DecidableEq, Repr

/-- Why a command line leads to no command. -/
inductive UsageError where
  /-- A value is missing, empty or not one of those allowed. -/
  | invalidValue
  | unknownArgument
  | invalidSubcommand
  /-- A value is given to an option that takes none. -/
  | tooManyValues
  | missingRequiredArgument
  | missingSubcommand
  /-- An option is given twice. -/
  | argumentConflict
  | displayHelp
  | displayVersion
  /-- There are no arguments at all. -/
  | displayHelpOnMissing
  deriving DecidableEq, Repr

namespace UsageError

/-- The exit code of a run that ends with this. -/
def exitCode : UsageError → Nat
  | displayHelp => 0
  | displayVersion => 0
  | _ => 2

end UsageError

namespace CommandLine

/-- Something that a command line can set. -/
inductive Parameter where
  | config
  | verbose
  | help
  | version
  | source
  | output
  | file
  | format
  | path
  | force
  deriving DecidableEq, Repr

namespace Parameter

/-- Whether the parameter has a value. -/
def takesValue : Parameter → Bool
  | config | source | output | file | format | path => true
  | verbose | help | version | force => false

end Parameter

/-- The place of an argument: in front of the command, or behind it. -/
inductive Level where
  | top
  | generate
  | preview
  | init
  deriving DecidableEq, Repr

namespace Level

/-- The command with a name. -/
def ofName? (name : Text) : Option Level :=
  List.lookup name [
    ("generate".toList, generate), ("preview".toList, preview), ("init".toList, init)]

/-- The options of a level, each with its letter if it has one. -/
def options : Level → List (Parameter × Option Char × Text)
  | top => common ++ [(.version, some 'V', "version".toList)]
  | generate => common ++
    [(.source, some 's', "source".toList), (.output, some 'o', "output".toList)]
  | preview => common ++ [(.format, some 'f', "format".toList)]
  | init => common ++ [(.path, some 'p', "path".toList), (.force, none, "force".toList)]
where
  /-- The options that every level has. -/
  common : List (Parameter × Option Char × Text) := [
    (.config, some 'c', "config".toList), (.verbose, some 'v', "verbose".toList),
    (.help, some 'h', "help".toList)]

/-- The option with a letter. -/
def short? (level : Level) (c : Char) : Option Parameter :=
  (level.options.find? fun o => o.2.1 == some c).map (·.1)

/-- The option with a name. -/
def long? (level : Level) (name : Text) : Option Parameter :=
  (level.options.find? fun o => o.2.2 == name).map (·.1)

/-- Whether a level takes a file as an argument without an option. -/
def takesFile : Level → Bool
  | preview => true
  | _ => false

end Level

/-- The format with a name. -/
def formatOf? (name : Text) : Option Format :=
  List.lookup name [("markdown".toList, .markdown), ("json".toList, .json)]

end CommandLine

end EnumTables
