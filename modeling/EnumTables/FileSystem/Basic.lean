/-
A file system as a value.

A file system is a finite list of entries, each at a location: the names on
the way from the root to it.  Paths are looked up in it by the rules of an
operating system: `.` and `..` are followed step by step, symbolic links are
replaced by their targets, and everything on the way must be a directory.

* **`FileSystem.resolve`** finds the location that a path names, which may be
  free if only its last component is missing;
* **`FileSystem.stat`**, **`FileSystem.readFile`** look at what is there;
* **`FileSystem.writeFile`**, **`FileSystem.makeDir`**,
  **`FileSystem.createDirAll`** change it;
* **`FileSystem.currentDir`** is the path of the working directory;
* **`FileSystem.get?_set`** says that a change at one location shows at that
  location alone.

A location on the list is expected to have all its parents on the list as
directories.  The root is always there.

Some things are left out.  Rights are all or nothing: an entry is open to every use, or
it is sealed, and what lies in a sealed directory is not on the list, since no
command can see or change it.  An entry has one location; there are no hard
links.  A file is written as a whole or not at all, so the disk is never full,
and nothing else changes the entries in the meantime.  Of a working directory
that has been removed nothing is found any more, not even the directory above.
-/
import EnumTables.IoError
import EnumTables.Path

namespace EnumTables

/-- The names on the way from the root to an entry. -/
abbrev Location := List Bytes

/-- What stands at a location. -/
inductive Entry where
  | file (content : Bytes)
  | directory
  /-- A symbolic link, with the path it leads to. -/
  | link (target : Path)
  /-- A file that may not be opened. -/
  | sealedFile (content : Bytes)
  /-- A directory that may not be entered or listed. -/
  | sealedDirectory
  deriving DecidableEq, Repr

namespace Entry

/-- Whether an entry is a file. -/
def isFile : Entry → Bool
  | file _ | sealedFile _ => true
  | directory | link _ | sealedDirectory => false

/-- Whether an entry is a directory. -/
def isDirectory : Entry → Bool
  | directory | sealedDirectory => true
  | file _ | link _ | sealedFile _ => false

theorem isFile_or_isDirectory_or_link (entry : Entry) :
    entry.isFile = true ∨ entry.isDirectory = true ∨ ∃ target, entry = link target := by
  cases entry <;> simp [isFile, isDirectory]

theorem ne_link_of_isDirectory {entry : Entry} (h : entry.isDirectory = true) (target : Path) :
    entry ≠ link target := by
  rintro rfl
  cases h

theorem ne_link_of_isFile {entry : Entry} (h : entry.isFile = true) (target : Path) :
    entry ≠ link target := by
  rintro rfl
  cases h

theorem isDirectory_of_isFile {entry : Entry} (h : entry.isFile = true) :
    entry.isDirectory = false := by
  cases entry <;> first | rfl | cases h

/-- Whether a path may take its next step from an entry.  A slash at the end of
a path asks for a directory, and not to enter it. -/
def enter : Entry → Bytes → Except IoError Unit
  | directory, _ => .ok ()
  | sealedDirectory, [] => .ok ()
  | sealedDirectory, _ :: _ => .error .permissionDenied
  | file _, _ | link _, _ | sealedFile _, _ => .error .notDirectory

theorem isDirectory_of_enter {entry : Entry} {name : Bytes} (h : entry.enter name = .ok ()) :
    entry.isDirectory = true := by
  cases entry <;> first | rfl | cases h

/-- A directory that may not be entered allows no step with a name. -/
theorem eq_directory_of_enter {entry : Entry} {name : Bytes} (h : entry.enter name = .ok ())
    (hname : name ≠ []) : entry = .directory := by
  cases entry with
  | directory => rfl
  | sealedDirectory =>
    obtain ⟨c, cs, rfl⟩ := List.exists_cons_of_ne_nil hname
    cases h
  | _ => cases h

end Entry

/-- A file system and the location of the working directory. -/
structure FileSystem where
  entries : List (Location × Entry)
  workDir : Location
  deriving DecidableEq, Repr

namespace FileSystem

/-! ### Entries -/

/-- The entry at a location. -/
def get? (fs : FileSystem) (loc : Location) : Option Entry :=
  if loc = [] then some .directory else fs.entries.lookup loc

/-- Puts an entry in its place in a list of entries. -/
def setIn (loc : Location) (entry : Entry) : List (Location × Entry) → List (Location × Entry)
  | [] => [(loc, entry)]
  | (l, e) :: rest =>
    if l = loc then (loc, entry) :: rest else (l, e) :: setIn loc entry rest

/-- Puts an entry at a location, in place of what stands there. -/
def set (loc : Location) (entry : Entry) (fs : FileSystem) : FileSystem :=
  { fs with entries := setIn loc entry fs.entries }

/-- What stands on the list after an entry has been put there. -/
theorem lookup_setIn (loc other : Location) (entry : Entry) (entries : List (Location × Entry)) :
    (setIn loc entry entries).lookup other =
      if other = loc then some entry else entries.lookup other := by
  induction entries with
  | nil =>
    by_cases h : other = loc
    · simp [setIn, h]
    · have hne : (other == loc) = false := beq_eq_false_iff_ne.mpr h
      simp [setIn, List.lookup_cons, h, hne]
  | cons e rest ih =>
    obtain ⟨l, old⟩ := e
    by_cases h : other = l
    · subst h
      by_cases hl : other = loc <;> simp [setIn, hl]
    · have hne : (other == l) = false := beq_eq_false_iff_ne.mpr h
      by_cases hl : l = loc
      · subst hl
        simp [setIn, List.lookup_cons, h, hne]
      · simp [setIn, List.lookup_cons, hl, hne, ih]

/-- Putting an entry at a location changes what stands there and nothing
else. -/
theorem get?_set {loc : Location} (hloc : loc ≠ []) (other : Location) (entry : Entry)
    (fs : FileSystem) :
    (fs.set loc entry).get? other = if other = loc then some entry else fs.get? other := by
  by_cases hroot : other = []
  · subst hroot
    simp [get?, Ne.symm hloc]
  · simp [get?, hroot, set, lookup_setIn]

/-- A location at which nothing can be, since every entry has a name. -/
def nowhere : Location := [[]]

/-- Removes the entry at a location and everything below it.  A working directory
that is removed is nowhere, even if another one is made in its place. -/
def removeAt (loc : Location) (fs : FileSystem) : FileSystem where
  entries := fs.entries.filter fun e => !loc.isPrefixOf e.1
  workDir := if loc.isPrefixOf fs.workDir then nowhere else fs.workDir

/-- The path of the location of the working directory. -/
def workPath (fs : FileSystem) : Path :=
  ⟨Path.slash :: Text.join [Path.slash] fs.workDir⟩

/-- The path of the working directory, if it is still there. -/
def currentDir (fs : FileSystem) : Except IoError Path :=
  match fs.get? fs.workDir with
  | none => .error .notFound
  | some _ => .ok fs.workPath

/-! ### Paths -/

/-- The longest name an entry may have, in bytes. -/
def maxNameSize : Nat := 255

/-- The size from which on a path is too long, in bytes. -/
def pathSizeLimit : Nat := 4096

/-- How many symbolic links a path may lead through. -/
def maxLinks : Nat := 40

/-- The steps of a path.  A slash at the end asks for a directory; it counts
as a last step without a name. -/
def steps (p : Path) : List Bytes :=
  (Text.splitOn Path.slash p.bytes).filter (· ≠ []) ++
    (if p.bytes.getLast? = some Path.slash then [[]] else [])

/-- What a path is looked up for. -/
inductive Purpose where
  /-- To find the entry itself, even if it is a link. -/
  | entry
  /-- To find what the path leads to in the end. -/
  | target
  /-- To write a file there; then no slash may stand at the end. -/
  | writing
  deriving DecidableEq, Repr

/-- Where the steps of a path start. -/
def startOf (p : Path) (here : Location) : Location :=
  if p.isAbsolute then [] else here

/-- The location that steps lead to from a directory, as far as the first
symbolic link on the way; `through` goes on from there.  Only the last step may
lead to a location where nothing stands. -/
def followFrom (fs : FileSystem) (purpose : Purpose)
    (through : Path → Location → List Bytes → Except IoError Location) :
    Location → List Bytes → Except IoError Location
  | here, [] => .ok here
  | here, name :: rest =>
    match fs.get? here with
    | none => .error .notFound
    | some entry =>
      match entry.enter name with
      | .error e => .error e
      | .ok () =>
        if purpose = .writing ∧ rest = [[]] then .error .isDirectory
        else if name = [] ∨ name = [Path.dot] then followFrom fs purpose through here rest
        else if name = [Path.dot, Path.dot] then
          followFrom fs purpose through here.dropLast rest
        else if maxNameSize < name.length then .error .nameTooLong
        else
          match fs.get? (here ++ [name]) with
          | none => if rest = [] then .ok (here ++ [name]) else .error .notFound
          | some (.link target) =>
            if rest = [] ∧ purpose = .entry then .ok (here ++ [name])
            else through target here rest
          | some _ => followFrom fs purpose through (here ++ [name]) rest

/-- The location that steps lead to from a directory, through at most `links`
symbolic links. -/
def resolveFrom (fs : FileSystem) (purpose : Purpose) :
    Nat → Location → List Bytes → Except IoError Location
  | 0 => followFrom fs purpose fun _ _ _ => .error .tooManyLinks
  | links + 1 => followFrom fs purpose fun target here rest =>
      resolveFrom fs purpose links (startOf target here) (steps target ++ rest)

/-- The location that a path names. -/
def resolve (fs : FileSystem) (purpose : Purpose) (p : Path) : Except IoError Location :=
  if p.bytes.contains 0 then .error .nulInPath
  else if p.bytes = [] then .error .notFound
  else if pathSizeLimit ≤ p.bytes.length then .error .nameTooLong
  else resolveFrom fs purpose maxLinks (startOf p fs.workDir) (steps p)

/-! ### Looking -/

/-- The entry that a path names. -/
def stat (fs : FileSystem) (purpose : Purpose) (p : Path) : Except IoError Entry :=
  match fs.resolve purpose p with
  | .error e => .error e
  | .ok loc =>
    match fs.get? loc with
    | none => .error .notFound
    | some entry => .ok entry

/-- Whether a path leads to anything. -/
def pathExists (fs : FileSystem) (p : Path) : Bool :=
  match fs.stat .target p with
  | .ok _ => true
  | .error _ => false

/-- Whether a path leads to a directory. -/
def isDir (fs : FileSystem) (p : Path) : Bool :=
  match fs.stat .target p with
  | .ok entry => entry.isDirectory
  | .error _ => false

/-- Whether a path leads to a file. -/
def isFile (fs : FileSystem) (p : Path) : Bool :=
  match fs.stat .target p with
  | .ok entry => entry.isFile
  | .error _ => false

/-- The content of a file. -/
def readFile (fs : FileSystem) (p : Path) : Except IoError Bytes :=
  match fs.stat .target p with
  | .error e => .error e
  | .ok (.file content) => .ok content
  | .ok (.sealedFile _) => .error .permissionDenied
  | .ok .sealedDirectory => .error .permissionDenied
  | .ok _ => .error .isDirectory

/-! ### Changing -/

/-- The path without slashes at its end, unless it is the root. -/
def withoutSlashes (p : Path) : Path :=
  match p.bytes.reverse.dropWhile (· = Path.slash) with
  | [] => p
  | cs => ⟨cs.reverse⟩

/-- Writes a file, in place of its old content if it is there. -/
def writeFile (fs : FileSystem) (p : Path) (content : Bytes) :
    Except IoError FileSystem :=
  match fs.resolve .writing p with
  | .error e => .error e
  | .ok loc =>
    match fs.get? loc with
    | some .directory => .error .isDirectory
    | some .sealedDirectory => .error .isDirectory
    | some (.sealedFile _) => .error .permissionDenied
    | _ => .ok (fs.set loc (.file content))

/-- Makes a directory where nothing stands.  Slashes at the end of the path make
it longer and count for nothing else. -/
def makeDir (fs : FileSystem) (p : Path) : Except IoError FileSystem :=
  if pathSizeLimit ≤ p.bytes.length ∧ 0 ∉ p.bytes then .error .nameTooLong
  else
    match fs.resolve .entry (withoutSlashes p) with
    | .error e => .error e
    | .ok loc =>
      match fs.get? loc with
      | none => .ok (fs.set loc .directory)
      | some _ => .error .alreadyExists

/-- Makes a directory, or accepts the one that is there. -/
def ensureDir (fs : FileSystem) (p : Path) : Except IoError FileSystem :=
  match fs.makeDir p with
  | .ok fs' => .ok fs'
  | .error e => if fs.isDir p then .ok fs else .error e

/-- Makes a directory and those of its parents that are missing.  The file
system is given also when this fails, since some of them may have been made.
Parents are made only if they are what is missing. -/
def createDirAll (fs : FileSystem) (p : Path) : Except IoError Unit × FileSystem :=
  if p.bytes = [] then (.ok (), fs)
  else
    match fs.ensureDir p with
    | .ok fs' => (.ok (), fs')
    | .error .notFound =>
      match _h : p.parent? with
      | none => (.error .notFound, fs)
      | some parent =>
        match fs.createDirAll parent with
        | (.error e, fs') => (.error e, fs')
        | (.ok (), fs') =>
          match fs'.ensureDir p with
          | .ok fs'' => (.ok (), fs'')
          | .error e => (.error e, fs')
    | .error e => (.error e, fs)
termination_by p.bytes.length
decreasing_by exact Path.parent?_length_lt _h

/-- Makes a symbolic link where nothing stands. -/
def makeLink (fs : FileSystem) (p target : Path) : Except IoError FileSystem :=
  match fs.resolve .entry p with
  | .error e => .error e
  | .ok loc =>
    match fs.get? loc with
    | none => .ok (fs.set loc (.link target))
    | some _ => .error .alreadyExists

/-- Removes a file, a link or a directory with everything in it. -/
def remove (fs : FileSystem) (p : Path) : Except IoError FileSystem :=
  match fs.resolve .entry p with
  | .error e => .error e
  | .ok loc =>
    match fs.get? loc with
    | none => .error .notFound
    | some _ => .ok (fs.removeAt loc)

end FileSystem

end EnumTables
