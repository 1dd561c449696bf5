/-
The three commands: `generate`, `preview` and `init`.

* **`Run.discover`** lists the source files below a directory,
  **`Run.readSource`** reads one;
* **`Run.generate`** writes a Markdown file for each source file with
  documented enums and gives a **`Report`**;
* **`Run.preview`** gives the text for one file and writes nothing;
* **`Run.init`** writes a configuration file;
* **`Config.inEffect`** applies the directories of the command line;
* **`Config.start`** loads the configuration that a command runs with.

`generate` goes through the files in the order in which they are found.  Files
are written one by one, so a failure leaves those before it written.
-/
import EnumTables.Config.Load
import EnumTables.FileSystem.Discovery

namespace EnumTables

/-- What `generate` has done. -/
structure Report where
  /-- How many source files were read. -/
  scanned : Nat
  /-- The Markdown files, in the order they were written. -/
  written : List Path
  /-- How many tables they hold. -/
  tables : Nat
  deriving DecidableEq, Repr

/-- The configuration with the directories of a command line.  The working
directory has to be there if a relative output directory is seen from it. -/
def Config.inEffect (fs : FileSystem) (source output : Option Path) (c : Config) :
    Except IoError Config :=
  if output.all Path.isAbsolute then .ok (c.withOverrides fs.workPath source output)
  else fs.currentDir.map fun workDir => c.withOverrides workDir source output

namespace Run

/-- The source files below a directory. -/
def discover (failure : Path → IoError → Failure) (root : Path) : Run (List Path) := do
  let found ← attempt (fun (path, cause) => failure path cause) ((← files).discover root)
  log (.discovered found.length root)
  return found

/-- Reads a source file.  What is not UTF-8 is replaced. -/
def readSource (path : Path) : Run SourceFile := do
  let content ← attempt (.read path) ((← files).readFile path)
  match Utf8.decode? content with
  | some text => return ⟨SourceFile.nameOf path, text⟩
  | none =>
    log (.notUtf8 path)
    return ⟨SourceFile.nameOf path, Utf8.decodeLossy content⟩

/-- Writes the document of the source file at `path` into the output
directory, which is made if it is not there, and gives the path written. -/
def writeDocument (outputDir path : Path) (written : List Path) (file : SourceFile) :
    Run Path := do
  if !(← files).pathExists outputDir then
    createDirAll (.write outputDir) outputDir
  let target := outputDir.join file.artifact
  if written.any target.same then
    log (.overwrites path)
  change (.write target)
    ((← files).writeFile target (Utf8.encode file.document.markdown))
  log (.written target)
  return target

/-- Goes through source files, adding to a report. -/
def generateEach (outputDir : Path) : List Path → Report → Run Report
  | [], done => return done
  | path :: paths, done => do
    let file ← readSource path
    logAll file.events
    let scanned := done.scanned + 1
    if file.document.isEmpty then
      log (.nothingToWrite path)
      generateEach outputDir paths { done with scanned }
    else
      let target ← writeDocument outputDir path done.written file
      generateEach outputDir paths
        ⟨scanned, done.written ++ [target], done.tables + file.document.tables.length⟩

/-- Writes a Markdown file for each source file with documented enums. -/
def generate (config : Config) (source output : Option Path) : Run Report := do
  let config ← attempt (.io ∘ .outputDir) (config.inEffect (← files) source output)
  let outputDir := config.resolvedOutputDir
  log (.scanning config.baseDir)
  log (.outputTo outputDir)
  let found ← discover (.scan config.baseDir) config.baseDir
  let done ← generateEach outputDir found ⟨0, [], 0⟩
  log (.finished done.scanned done.written.length done.tables)
  return done

/-- The text for one source file; none without documented enums. -/
def preview (path : Path) (format : Format) : Run (Option Text) := do
  let file ← readSource path
  logAll file.events
  if file.document.isEmpty then
    log (.nothingToShow path)
    return none
  else
    return some (file.document.render format)

/-- Writes the default configuration into a directory, the working directory
if none is given, and gives the path written.  A file that is there is only
replaced with `force`. -/
def init (dir : Option Path) (force : Bool) : Run Path := do
  let dir ← attempt (.makeDir none) (dir.elim (← files).currentDir .ok)
  let target := dir.join Config.fileName
  if (← files).pathExists target && !force then
    throw (.config (.present target))
  else
    createDirAll (.makeDir (some dir)) dir
    Config.default.save target
    log (.initialized dir)
    return target

end Run

/-- Loads the configuration of a run. -/
def Config.start (path : Option Path) : Run Config := do
  let config ← Config.loadOrDefault path
  Run.log (.configLoaded config)
  return config

end EnumTables
