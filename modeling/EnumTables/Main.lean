/-
The command line program.

The program itself is a function on file systems.  Around it this module takes
a picture of the part of the disk that a command can see, runs the program on
the picture, prints what it prints and brings the disk up to date.  The file
operations used here take names as strings, so a file whose name is not UTF-8 has no
place in a picture.

* **`Disk.picture`** reads the disk, **`Disk.update`** writes it;
* **`main`** is the program.
-/
import EnumTables.FileSystem.Changes
import EnumTables.Program

namespace EnumTables.Disk

/-- The place of a location on the disk. -/
def place (loc : Location) : IO.FS.DirEntry :=
  ⟨"/", String.ofList (Text.join ['/'] (loc.map Utf8.decodeLossy))⟩

/-- What stands at a location on the disk.  The content of a file is only read
if it is asked for; if it cannot be read, the file is sealed.  A link counts as
leading straight to where it ends. -/
def look (withContent : Bool) (loc : Location) : IO (Option Entry) := do
  let file := (place loc).path
  try
    match (← file.symlinkMetadata).type with
    | .dir => return some .directory
    | .symlink => return some (.link (.mk (← IO.FS.realPath file).toString.toList))
    | _ =>
      if withContent then
        try return some (.file (← IO.FS.readBinFile file).toList)
        catch _ => return some (.sealedFile [])
      else return some (.file [])
  catch _ => return none

/-- Adds what stands at a location to a picture. -/
def add (withContent : Bool) (loc : Location) (fs : FileSystem) : IO FileSystem := do
  match ← look withContent loc with
  | none => return fs
  | some entry => return if loc = [] then fs else fs.set loc entry

mutual

/-- Adds everything that steps from a location lead through to a picture, and
with `below` also everything in the directory at their end. -/
partial def addAlong (below : Bool) (here : Location) (names : List Bytes) (fs : FileSystem) :
    IO FileSystem := do
  let fs ← add names.isEmpty here fs
  match fs.get? here, names with
  | some (.link target), _ =>
    addAlong below [] (FileSystem.steps target ++ names) fs
  | some .directory, [] => if below then addBelow here fs else return fs
  | some .directory, name :: rest =>
    if name = [] ∨ name = [Path.dot] then addAlong below here rest fs
    else if name = [Path.dot, Path.dot] then addAlong below here.dropLast rest fs
    else addAlong below (here ++ [name]) rest fs
  | _, _ => return fs

/-- Adds everything in a directory to a picture.  If it cannot be listed, it is
sealed. -/
partial def addBelow (dir : Location) (fs : FileSystem) : IO FileSystem := do
  let mut fs := fs
  let listing ← try some <$> (place dir).path.readDir catch _ => pure none
  let some children := listing | return fs.set dir .sealedDirectory
  for child in children do
    let name := Utf8.encode child.fileName.toList
    let loc := dir ++ [name]
    let isSource := Path.extension? ⟨name⟩ == some FileSystem.sourceExtension
    fs ← add isSource loc fs
    match fs.get? loc with
    | some .directory => fs ← addBelow loc fs
    | some (.link _) => fs ← addAlong false loc [] fs
    | _ => pure ()
  return fs

end

/-- Adds what a path leads through to a picture. -/
def addPath (below : Bool) (p : Path) (fs : FileSystem) : IO FileSystem :=
  addAlong below (FileSystem.startOf p fs.workDir) (FileSystem.steps p) fs

/-- The part of the disk that a command line can see. -/
def picture (args : List Text) : IO FileSystem := do
  let workDir : Path := .mk (← IO.currentDir).toString.toList
  let start : FileSystem := ⟨[], FileSystem.steps workDir⟩
  match CommandLine.parse args with
  | .error _ => return start
  | .ok invocation =>
    let mut fs ← addPath false workDir start
    for p in invocation.config.toList ++ Config.candidates do
      fs ← addPath false p fs
    match invocation.command with
    | .preview file _ => addPath false file fs
    | .init path _ => addPath false ((path.getD workDir).join Config.fileName) fs
    | .generate source output =>
      let config :=
        match (Config.loadOrDefault invocation.config).run ⟨fs, []⟩ with
        | .ok config _ => config.withOverrides workDir source output
        | .error _ _ => Config.default
      fs ← addPath true config.baseDir fs
      addPath true config.resolvedOutputDir fs

/-- Writes what is new or different. -/
def update (before after : FileSystem) : IO Unit := do
  for (loc, entry) in before.changes after do
    let file := (place loc).path
    match entry with
    | .directory => IO.FS.createDirAll file
    | .file content => IO.FS.writeBinFile file (ByteArray.mk content.toArray)
    | .link _ | .sealedFile _ | .sealedDirectory => pure ()

end EnumTables.Disk

open EnumTables in
/-- Runs the program with the arguments of the command line. -/
def main (args : List String) : IO UInt32 := do
  let args := args.map String.toList
  let setting := (← IO.getEnv "RUST_LOG").map String.toList
  let files ← Disk.picture args
  let outcome := Program.run args setting files
  for event in outcome.log do
    IO.eprintln (String.ofList event.line)
  Disk.update files outcome.files
  IO.print (String.ofList outcome.stdout)
  IO.eprint (String.ofList outcome.stderr)
  return outcome.exitCode.toUInt32
