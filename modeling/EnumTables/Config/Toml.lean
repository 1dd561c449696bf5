/-
The configuration file.

The settings are in the table `project`: `base_dir` and `output_dir`, both of
them strings.  A missing setting has its default and other keys are ignored.
The table may also be written as an array of the two values in this order, or
as a date, which has no setting in it.

* **`Config.ofToml?`** reads a configuration file, **`Config.toToml`** writes
  one.
-/
import EnumTables.Config.Basic
import EnumTables.Toml.Reader

namespace EnumTables.Config

/-- A setting that is a path; the outer option tells a value of the wrong
kind. -/
def path? : Option Toml.Value → Option (Option Path)
  | none => some none
  | some (.string s) => some (some (.mk s))
  | some _ => none

/-- The configuration with two settings, each of them present or not. -/
def ofSettings? (base output : Option Toml.Value) : Option Config := do
  let baseDir ← path? base
  let outputDir ← path? output
  return ⟨baseDir.getD default.baseDir, outputDir⟩

/-- The configuration that the value of `project` describes. -/
def ofProject? : Option Toml.Value → Option Config
  | none => some default
  | some (.table _ entries) =>
    ofSettings? (Toml.Table.get? "base_dir".toList entries)
      (Toml.Table.get? "output_dir".toList entries)
  | some (.array items) => ofSettings? items[0]? items[1]?
  | some .dateTime => some default
  | some (.tables []) => some default
  | some _ => none

/-- The configuration that a file describes, unless it is not TOML or a
setting is not a string. -/
def ofToml? (content : Text) : Option Config :=
  match Toml.read? content with
  | none => none
  | some root => ofProject? (Toml.Table.get? "project".toList root)

/-- A line with a setting. -/
def settingLine (key : Text) (path : Path) : Text :=
  key ++ " = ".toList ++ Toml.Quoted.write path.text ++ ['\n']

/-- The file that describes a configuration. -/
def toToml (c : Config) : Text :=
  "[project]\n".toList ++ settingLine "base_dir".toList c.baseDir ++
    (match c.outputDir with
      | none => []
      | some dir => settingLine "output_dir".toList dir)

end EnumTables.Config
