/-
Configuration files on disk.

* **`Config.load`** reads one file, **`Config.save`** writes one;
* **`Config.loadOrDefault`** reads the file that is named, or else the first
  candidate that is there, or else gives the default.
-/
import EnumTables.Config.Toml
import EnumTables.Run.Basic
import EnumTables.Text.Utf8

namespace EnumTables.Config

/-- Reads a configuration file. -/
def load (path : Path) : Run Config := do
  let content ← Run.attempt (.io ∘ .configFile) ((← Run.files).readFile path)
  match Utf8.decode? content with
  | none => throw (.io (.configFile .notUtf8))
  | some text =>
    match ofToml? text with
    | none => throw (.config .malformed)
    | some config => return config

/-- Writes a configuration file, whose directories have to be texts. -/
def save (path : Path) (config : Config) : Run Unit := do
  if config.isUtf8 then
    Run.change (.io ∘ .configFile) ((← Run.files).writeFile path (Utf8.encode config.toToml))
  else throw (.config .notUtf8)

/-- Reads the file that is named, which has to be there, or else the first
candidate that is there. -/
def loadOrDefault (path : Option Path) : Run Config := do
  let fs ← Run.files
  match path with
  | some p => if fs.pathExists p then load p else throw (.config (.missing p))
  | none =>
    match candidates.find? fs.pathExists with
    | some p => load p
    | none => return default

end EnumTables.Config
