/-
Finding the source files below a directory.

The walk goes down from a root, depth first, and takes the entries of each
directory in the order of their names.  It enters no symbolic link except the
root itself; a link to a file counts as a file.

Every directory is entered, and every file looked at, by its whole path, so
the length of the path and the links in the root part count each time.  A
directory that cannot be entered ends the walk; what cannot be looked at is no
file.

* **`FileSystem.openDir`** enters a directory;
* **`FileSystem.children`** are the entries of a directory in this order;
* **`FileSystem.discover`** are the source files below a root.
-/
import EnumTables.FileSystem.Basic

namespace EnumTables

/-- Whether one name comes before another, byte by byte, or is equal to it. -/
def nameLe : Bytes → Bytes → Bool
  | [], _ => true
  | _ :: _, [] => false
  | b :: bs, c :: cs => b < c || (b == c && nameLe bs cs)

namespace FileSystem

/-- The name and the entry of an entry that lies directly in a directory. -/
def childOf? (dir : Location) (e : Location × Entry) : Option (Bytes × Entry) :=
  match e.1.getLast? with
  | none => none
  | some name => if e.1 = dir ++ [name] then some (name, e.2) else none

/-- Puts a child among others that are sorted by name. -/
def insertChild (child : Bytes × Entry) : List (Bytes × Entry) → List (Bytes × Entry)
  | [] => [child]
  | next :: rest =>
    if nameLe child.1 next.1 then child :: next :: rest else next :: insertChild child rest

/-- The entries of a directory, sorted by name. -/
def children (fs : FileSystem) (dir : Location) : List (Bytes × Entry) :=
  (fs.entries.filterMap (childOf? dir)).foldr insertChild []

/-- How deep the deepest entry lies. -/
def depth (fs : FileSystem) : Nat :=
  fs.entries.foldl (fun d e => max d e.1.length) 0

/-- The extension of source files. -/
def sourceExtension : Bytes := "java".toList

/-- Whether a path leads to a source file. -/
def isSource (fs : FileSystem) (p : Path) : Bool :=
  fs.isFile p && p.extension? == some sourceExtension

/-- The location of a directory that is to be listed. -/
def openDir (fs : FileSystem) (p : Path) : Except IoError Location :=
  match fs.resolve .target p with
  | .error e => .error e
  | .ok loc =>
    match fs.get? loc with
    | none => .error .notFound
    | some .directory => .ok loc
    | some .sealedDirectory => .error .permissionDenied
    | some _ => .error .notDirectory

/-- The source files in and below a directory whose path is given, going at
most `fuel` levels down, or the directory that cannot be entered. -/
def walk (fs : FileSystem) : Nat → Path → Except (Path × IoError) (List Path)
  | 0, _ => .ok []
  | fuel + 1, path =>
    match fs.openDir path with
    | .error e => .error (path, e)
    | .ok dir => do
      let found ← (fs.children dir).mapM fun (name, entry) =>
        let childPath := path.join ⟨name⟩
        if entry.isDirectory then walk fs fuel childPath
        else .ok (if fs.isSource childPath then [childPath] else [])
      return found.flatten

/-- The source files below a root, which may also be a source file itself, or
the path that could not be followed. -/
def discover (fs : FileSystem) (root : Path) : Except (Path × IoError) (List Path) :=
  match fs.stat .entry root with
  | .error e => .error (root, e)
  | .ok _ =>
    match fs.stat .target root with
    | .error e => .error (root, e)
    | .ok entry =>
      if entry.isDirectory then fs.walk (fs.depth + 1) root
      else .ok (if fs.isSource root then [root] else [])

end FileSystem

end EnumTables
