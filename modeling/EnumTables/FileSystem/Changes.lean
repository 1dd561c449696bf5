/-
What differs between two states of a file system.

* **`FileSystem.changes`** lists the files and directories that are new or
  have another content;
* **`FileSystem.relativePath?`** is the path of a location as seen from the
  working directory.
-/
import EnumTables.FileSystem.Discovery

namespace EnumTables.FileSystem

/-- The path from the working directory to a location below it. -/
def relativePath? (fs : FileSystem) (loc : Location) : Option Path :=
  if fs.workDir.isPrefixOf loc && loc != fs.workDir then
    some ⟨Text.join [Path.slash] (loc.drop fs.workDir.length)⟩
  else none

/-- Whether an entry is new or different.  Links are passed over. -/
def isChange (before : FileSystem) (e : Location × Entry) : Bool :=
  match e.2 with
  | .link _ => false
  | entry => before.get? e.1 != some entry

/-- The files and directories that a later state has and an earlier one has
not, or has with another content. -/
def changes (before after : FileSystem) : List (Location × Entry) :=
  after.entries.filter (isChange before)

end EnumTables.FileSystem
