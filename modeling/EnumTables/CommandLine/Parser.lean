/-
Reading command lines.

Arguments are read from left to right, first those in front of the command and
then those behind it.  A value that stands in an argument of its own is only
looked at when the next argument has been recognised, or at the end; until
then it is pending.  So of two mistakes not always the first is reported: an
unknown option comes before a bad value that is still pending.

* **`Matches`** is what has been read of one level, **`Matches.accept`** takes
  in an option, **`Matches.settle`** the pending one;
* **`scan`** reads the arguments of a level;
* **`parse`** reads a whole command line.
-/
import EnumTables.CommandLine.Basic

namespace EnumTables.CommandLine

/-- What has been read of a level. -/
structure Matches where
  /-- The parameters in effect; a flag has an empty value. -/
  given : List (Parameter × Text)
  /-- The parameter whose value has not been looked at, with its value if that
  has been read. -/
  pending : Option (Parameter × Option Text)
  /-- Whether the next argument is the value of the pending parameter. -/
  awaiting : Bool
  /-- Whether `--` has been read, after which nothing is an option. -/
  trailing : Bool
  /-- Whether the file has been read. -/
  hasFile : Bool
  deriving DecidableEq, Repr

namespace Matches

/-- Nothing has been read. -/
def empty : Matches :=
  ⟨[], none, false, false, false⟩

/-- The value of a parameter. -/
def get? (m : Matches) (p : Parameter) : Option Text :=
  m.given.lookup p

/-- Whether a parameter is in effect. -/
def has (m : Matches) (p : Parameter) : Bool :=
  (m.get? p).isSome

/-- Whether a parameter can have a value: a format must be known, and nothing
else may be empty. -/
def isValid (p : Parameter) (value : Text) : Bool :=
  match p with
  | .format => (formatOf? value).isSome
  | _ => value != []

/-- Takes in a parameter with its value; help and the version end the reading
at once. -/
def accept (m : Matches) (p : Parameter) (value : Option Text) : Except UsageError Matches :=
  match p with
  | .help => .error .displayHelp
  | .version => .error .displayVersion
  | _ =>
    if p.takesValue then
      match value with
      | none => .error .invalidValue
      | some v =>
        if m.has p then .error .argumentConflict
        else if isValid p v then .ok { m with given := (p, v) :: m.given }
        else .error .invalidValue
    else if m.has p then .error .argumentConflict
    else .ok { m with given := (p, []) :: m.given }

/-- Takes in the pending parameter. -/
def settle (m : Matches) : Except UsageError Matches :=
  match m.pending with
  | none => .ok m
  | some (p, value) => accept { m with pending := none } p value

/-- Takes in a parameter that is complete, after the pending one. -/
def complete (m : Matches) (p : Parameter) (value : Option Text) : Except UsageError Matches := do
  let m ← m.settle
  let m ← m.accept p value
  return { m with awaiting := false }

/-- Waits for the value of a parameter in the next argument. -/
def await (m : Matches) (p : Parameter) : Except UsageError Matches := do
  let m ← m.settle
  return { m with pending := some (p, none), awaiting := true }

end Matches

/-- Reads the letters of an argument with one dash.  The letters after one
that takes a value are its value. -/
def readShort (level : Level) (m : Matches) : Text → Except UsageError Matches
  | [] => .ok m
  | c :: cs =>
    match level.short? c with
    | none => .error .unknownArgument
    | some p =>
      if p.takesValue then
        match cs with
        | [] => m.await p
        | '=' :: value => m.complete p (some value)
        | value => m.complete p (some value)
      else
        match m.complete p none with
        | .error e => .error e
        | .ok m' => readShort level m' cs

/-- Reads an argument with two dashes. -/
def readLong (level : Level) (m : Matches) (cs : Text) : Except UsageError Matches :=
  let name := cs.takeWhile (· ≠ '=')
  let value : Option Text :=
    match cs.dropWhile (· ≠ '=') with
    | [] => none
    | _ :: v => some v
  match level.long? name with
  | none => .error .unknownArgument
  | some p =>
    if p.takesValue then
      match value with
      | none => m.await p
      | some v => m.complete p (some v)
    else
      match value with
      | none => m.complete p none
      | some _ => .error .tooManyValues

/-- The name of the command that shows help. -/
def helpName : Text := "help".toList

/-- Whether a word names a command, the one that shows help among them. -/
def isCommandName (name : Text) : Bool :=
  (Level.ofName? name).isSome || name = helpName

/-- Reads an argument that is neither an option nor a value of one. -/
def readPlain (level : Level) (m : Matches) (arg : Text) : Except UsageError Matches :=
  if level.takesFile && !m.hasFile then do
    let m ← m.settle
    return { m with pending := some (.file, some arg), awaiting := false, hasFile := true }
  else if level = .top && !(m.trailing && isCommandName arg) then .error .invalidSubcommand
  else .error .unknownArgument

/-- Reads one argument that names no command. -/
def readArgument (level : Level) (m : Matches) (arg : Text) : Except UsageError Matches :=
  if m.trailing then readPlain level m arg
  else
    match arg with
    | ['-', '-'] => .ok { m with trailing := true }
    | '-' :: '-' :: cs => readLong level m cs
    | '-' :: c :: cs => readShort level m (c :: cs)
    | _ =>
      if m.awaiting then
        .ok { m with pending := m.pending.map fun p => (p.1, some arg), awaiting := false }
      else readPlain level m arg

/-- Reads the arguments of a level.  In front of the command this ends with
the command; its name and the arguments behind it are then left over. -/
def scan (level : Level) (m : Matches) : List Text →
    Except UsageError (Matches × Option (Text × List Text))
  | [] => .ok (m, none)
  | arg :: args =>
    if level = .top && !m.trailing && !m.awaiting && isCommandName arg then
      .ok (m, some (arg, args))
    else
      match readArgument level m arg with
      | .error e => .error e
      | .ok m' => scan level m' args

/-- What the command that shows help leads to: it takes the name of one
command at most. -/
def helpOutcome : List Text → UsageError
  | [] => .displayHelp
  | [name] => if isCommandName name then .displayHelp else .invalidSubcommand
  | _ => .invalidSubcommand

/-- A value as a path. -/
def pathOf? (m : Matches) (p : Parameter) : Option Path :=
  (m.get? p).map Path.mk

/-- The command that has been read at a level. -/
def commandOf (level : Level) (m : Matches) : Except UsageError Command :=
  match level with
  | .top => .error .missingSubcommand
  | .generate => .ok (.generate (pathOf? m .source) (pathOf? m .output))
  | .init => .ok (.init (pathOf? m .path) (m.has .force))
  | .preview =>
    match pathOf? m .file with
    | none => .error .missingRequiredArgument
    | some file =>
      .ok (.preview file (((m.get? .format).bind formatOf?).getD .markdown))

/-- Reads the arguments behind the name of a command. -/
def readCommand (level : Level) (args : List Text) : Except UsageError (Matches × Command) := do
  let (m, _) ← scan level .empty args
  let m ← m.settle
  return (m, ← commandOf level m)

/-- Reads a command line.  An option given behind the command takes precedence
over the same one in front of it. -/
def parse (args : List Text) : Except UsageError Invocation := do
  let (top, command) ← scan .top .empty args
  match command with
  | none =>
    let top ← top.settle
    if top.given.isEmpty then throw .displayHelpOnMissing else throw .missingSubcommand
  | some (name, args) =>
    match Level.ofName? name with
    | none => throw (helpOutcome args)
    | some level =>
      let (inner, command) ← readCommand level args
      let top ← top.settle
      return ⟨(pathOf? inner .config).or (pathOf? top .config),
        inner.has .verbose || top.has .verbose, command⟩

end EnumTables.CommandLine
