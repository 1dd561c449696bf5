/-
The whole program: from a command line and a file system to what is printed
and the file system afterwards.

* **`Command.run`** runs one command;
* **`Program.run`** reads the command line, loads the configuration, runs the
  command and gives an **`Outcome`**.

A command line that cannot be read ends the program before anything is done.
The configuration is loaded for every command, also for one that does not use
it.
-/
import EnumTables.CommandLine.Help
import EnumTables.CommandLine.Parser
import EnumTables.Event.Filter
import EnumTables.Run.Commands

namespace EnumTables

/-- What a run of the program leads to. -/
structure Outcome where
  exitCode : Nat
  stdout : Text
  /-- The events that are shown, in order. -/
  log : List Event
  /-- What else is printed on the standard error stream. -/
  stderr : Text
  files : FileSystem

/-- Runs a command and gives what it prints. -/
def Command.run (config : Config) : Command → Run Text
  | .generate source output => do
    let _ ← Run.generate config source output
    return []
  | .preview file format => do
    return (← Run.preview file format).getD []
  | .init path force => do
    let _ ← Run.init path force
    return []

namespace Program

/-- Does what a command line asks for and gives what it prints. -/
def execute (invocation : Invocation) : Run Text := do
  Run.log .started
  let config ← Config.start invocation.config
  invocation.command.run config

/-- Runs the program with its arguments and the log filter that is set, if
any. -/
def run (args : List Text) (filterSetting : Option Text) (files : FileSystem) : Outcome :=
  match CommandLine.parse args with
  | .error e => ⟨e.exitCode, e.stdout, [], e.stderr, files⟩
  | .ok invocation =>
    let filter := Filter.ofSetting filterSetting invocation.verbose
    match (execute invocation).run ⟨files, []⟩ with
    | .ok stdout world => ⟨0, stdout, world.log.filter filter.shows, [], world.files⟩
    | .error failure world =>
      ⟨1, [], world.log.filter filter.shows, failure.report ++ ['\n'], world.files⟩

end Program

end EnumTables
