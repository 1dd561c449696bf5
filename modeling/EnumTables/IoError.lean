/-
Why an operation on a file fails.

* **`IoError`** lists the causes, **`IoError.message`** is what they read like.
-/
import EnumTables.Text.Basic

namespace EnumTables

/-- The cause of a failed operation on a file. -/
inductive IoError where
  | notFound
  | permissionDenied
  | alreadyExists
  | notDirectory
  | isDirectory
  | nameTooLong
  | tooManyLinks
  /-- The path has a NUL character, which no file name can have. -/
  | nulInPath
  /-- The file was to be read as text and is not UTF-8. -/
  | notUtf8
  deriving DecidableEq, Repr

namespace IoError

/-- The words of the operating system for a cause, with its number. -/
def message : IoError → Text
  | notFound => "No such file or directory (os error 2)".toList
  | permissionDenied => "Permission denied (os error 13)".toList
  | alreadyExists => "File exists (os error 17)".toList
  | notDirectory => "Not a directory (os error 20)".toList
  | isDirectory => "Is a directory (os error 21)".toList
  | nameTooLong => "File name too long (os error 36)".toList
  | tooManyLinks => "Too many levels of symbolic links (os error 40)".toList
  | nulInPath => "file name contained an unexpected NUL byte".toList
  | notUtf8 => "stream did not contain valid UTF-8".toList

end IoError

end EnumTables
