/-
The configuration of a run: which directory is scanned and where the Markdown
files go.

* **`Config.resolvedOutputDir`** is the output directory in effect;
* **`Config.withOverrides`** applies the directories of the command line;
* **`Config.candidates`** are the files looked for when none is named.
-/
import EnumTables.Path
import EnumTables.Text.Quoted

namespace EnumTables

/-- The directory to scan, and the output directory if one is set. -/
structure Config where
  baseDir : Path
  outputDir : Option Path
  deriving DecidableEq, Repr

namespace Config

/-- The configuration in effect when nothing is set. -/
def default : Config :=
  ⟨.ofString ".", none⟩

/-- The file that `init` writes. -/
def fileName : Path :=
  Path.ofString "enumdoc.toml"

/-- The files looked for, in this order, when no file is named. -/
def candidates : List Path :=
  [fileName, Path.ofString ".enumdoc.toml"]

/-- The output directory in effect.  A relative one is seen from the base
directory, and so is the default. -/
def resolvedOutputDir (c : Config) : Path :=
  c.baseDir.join (c.outputDir.getD (Path.ofString "md"))

/-- Applies the directories of a command line.  A relative output directory
is seen from the working directory, not from the base directory. -/
def withOverrides (workDir : Path) (source output : Option Path) (c : Config) : Config :=
  ⟨source.getD c.baseDir,
    match output with
    | none => c.outputDir
    | some dir => some (workDir.join dir)⟩

/-- Whether the directories are texts, so that they can be written to a file. -/
def isUtf8 (c : Config) : Bool :=
  c.baseDir.isUtf8 && c.outputDir.all Path.isUtf8

/-- The configuration as log messages show it. -/
def describe (c : Config) : Text :=
  "Config \x7b project: ProjectConfig \x7b base_dir: ".toList ++ Text.quotedBytes c.baseDir.bytes ++
    ", output_dir: ".toList ++
    (match c.outputDir with
      | none => "None".toList
      | some dir => "Some(".toList ++ Text.quotedBytes dir.bytes ++ [')']) ++
    " \x7d \x7d".toList

end Config

end EnumTables
