/-
Running a command against a file system.

A run changes a file system, reports events and gives a result or fails.  What
it has changed and reported before a failure stays.

* **`World`** is what a run works on, **`Run`** a run;
* **`Run.log`** adds to the log, **`Run.attempt`** turns the outcome of a
  file operation into one of the run.
-/
import EnumTables.Event.Basic
import EnumTables.Failure
import EnumTables.FileSystem.Basic

namespace EnumTables

/-- A file system, and the events reported so far. -/
structure World where
  files : FileSystem
  log : List Event
  deriving DecidableEq, Repr

/-- A run that gives an `α` or fails. -/
abbrev Run (α : Type) := EStateM Failure World α

namespace Run

/-- Adds events to the log. -/
def logAll (events : List Event) : Run Unit :=
  modify fun w => { w with log := w.log ++ events }

/-- Adds an event to the log. -/
def log (event : Event) : Run Unit :=
  logAll [event]

/-- The file system as it is. -/
def files : Run FileSystem :=
  return (← get).files

/-- Goes on with the value of a file operation, or fails. -/
def attempt {ε α : Type} (failure : ε → Failure) (outcome : Except ε α) : Run α :=
  match outcome with
  | .ok a => pure a
  | .error e => throw (failure e)

/-- Goes on with a changed file system, or fails. -/
def change (failure : IoError → Failure) (outcome : Except IoError FileSystem) : Run Unit := do
  let fs ← attempt failure outcome
  modify fun w => { w with files := fs }

/-- Makes a directory with its parents, or fails. -/
def createDirAll (failure : IoError → Failure) (dir : Path) : Run Unit := do
  let (outcome, fs) := (← files).createDirAll dir
  modify fun w => { w with files := fs }
  attempt failure outcome

end Run

end EnumTables
