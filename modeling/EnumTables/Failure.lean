/-
Why a command fails, and how a failure reads.

* **`Failure`** lists the failures;
* **`Failure.message`** is what a failure says, **`Failure.cause?`** what it
  gives as its causes;
* **`Failure.report`** is the text shown at the end of a failed run.
-/
import EnumTables.IoError
import EnumTables.Path

namespace EnumTables

/-- What is wrong with a configuration. -/
inductive ConfigFault where
  /-- The file is not TOML, or a setting has a value of the wrong kind. -/
  | malformed
  /-- The file that was asked for is not there. -/
  | missing (path : Path)
  /-- The file to be written is already there. -/
  | present (path : Path)
  /-- A directory that is no text has no place in a file. -/
  | notUtf8
  deriving DecidableEq, Repr

namespace ConfigFault

/-- How a fault reads. -/
def message : ConfigFault → Text
  | malformed => "TOML parse error".toList
  | missing path => "config file not found: ".toList ++ path.text
  | present path => path.text ++ " already exists, use --force to overwrite".toList
  | notUtf8 => "path contains invalid UTF-8 characters".toList

end ConfigFault

/-- What the operating system refuses before a run has begun. -/
inductive IoFault where
  /-- A configuration file cannot be read or written. -/
  | configFile (cause : IoError)
  /-- A relative output directory is seen from the working directory, and there
  is none. -/
  | outputDir (cause : IoError)
  deriving DecidableEq, Repr

/-- Why a command fails. -/
inductive Failure where
  | config (fault : ConfigFault)
  | io (fault : IoFault)
  /-- A directory cannot be searched. -/
  | search (path : Path) (cause : IoError)
  /-- The base directory of a run cannot be searched, because of a path in
  it. -/
  | scan (base path : Path) (cause : IoError)
  | read (path : Path) (cause : IoError)
  | write (path : Path) (cause : IoError)
  /-- The directory for a configuration file cannot be made; without a path it
  is the working directory, and there is none. -/
  | makeDir (path : Option Path) (cause : IoError)
  deriving DecidableEq, Repr

namespace Failure

/-- The message of a search that failed. -/
def searchMessage (path : Path) (cause : IoError) : Text :=
  "File system error: IO error for operation on ".toList ++ path.text ++ ": ".toList ++
    cause.message

/-- The message of a fault that is not one of a run. -/
def ioMessage (cause : IoError) : Text :=
  "IO error: ".toList ++ cause.message

/-- What a failure says first. -/
def message : Failure → Text
  | config fault => "Configuration error: ".toList ++ fault.message
  | io (.configFile cause) => ioMessage cause
  | io (.outputDir _) => "Failed to resolve output directory".toList
  | search path cause => searchMessage path cause
  | scan base _ _ => "Failed to scan ".toList ++ base.text
  | read path cause =>
    "Failed to read ".toList ++ path.text ++ ": ".toList ++ cause.message
  | write path cause =>
    "Failed to write ".toList ++ path.text ++ ": ".toList ++ cause.message
  | makeDir (some path) _ => "Failed to create ".toList ++ path.text
  | makeDir none _ => "Failed to resolve current directory".toList

/-- What a failure gives as its cause, as the cause of that and so on. -/
def cause? : Failure → Array Text
  | config _ => #[]
  | io (.configFile cause) => #[cause.message]
  | io (.outputDir cause) => #[ioMessage cause, cause.message]
  | search _ _ => #[]
  | scan _ path cause => #[searchMessage path cause]
  | read _ cause => #[cause.message]
  | write _ cause => #[cause.message]
  | makeDir _ cause => #[cause.message]

/-- A text behind a label.  Its other lines are indented as far as the label
goes. -/
def labelled (label cs : Text) : Text :=
  label ++ cs.flatMap fun c =>
    if c = '\n' then '\n' :: List.replicate label.length ' ' else [c]

/-- The list of causes; several are numbered. -/
def causeList : List Text → Text
  | [] => []
  | [cause] => "\n\nCaused by:\n".toList ++ labelled "    ".toList cause
  | causes =>
    "\n\nCaused by:".toList ++ causes.zipIdx.flatMap fun (cause, i) =>
      '\n' :: labelled ("    ".toList ++ Nat.toDigits 10 i ++ ": ".toList) cause

/-- What is shown at the end of a failed run, without a final line end. -/
def report (failure : Failure) : Text :=
  "Error: ".toList ++ failure.message ++ causeList failure.cause?.toList

end Failure

end EnumTables
