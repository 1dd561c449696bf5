/-
Paths as bytes.

A path is what names a file: names separated by slashes, absolute if it starts
with one.  Names are bytes, and any bytes but the slash and NUL can stand in
them; most are the bytes of a text.  Nothing here looks at a file system.  A
path is kept as it was written, since messages show it so; two are the same
path when their components agree.

* **`Path.mk`** is the path with the bytes of a text, **`Path.text`** shows a
  path, with U+FFFD for what is not UTF-8;
* **`Path.join`** appends a path, unless that path is absolute;
* **`Path.fileName?`**, **`Path.stem?`**, **`Path.extension?`** take the last
  component apart;
* **`Path.withExtension`** replaces an extension;
* **`Path.parent?`** is the path without its last component;
* **`Path.same`** compares two paths by their components.

Slashes and `.` components at the end of a path do not count as part of it;
`Path.bare` removes them.
-/
import EnumTables.Text.Utf8

namespace EnumTables

/-- What names a file. -/
structure Path where
  ofBytes ::
  bytes : Bytes
  deriving DecidableEq, Repr

namespace Path

/-- The byte that separates names. -/
@[match_pattern]
abbrev slash : UInt8 := 0x2F

/-- The byte in front of an extension. -/
@[match_pattern]
abbrev dot : UInt8 := 0x2E

@[simp]
theorem slash_ne_dot : slash ≠ dot := by decide

@[simp]
theorem dot_ne_slash : dot ≠ slash := by decide

@[simp]
theorem zero_ne_slash : 0 ≠ slash := by decide

/-- A path given by a text. -/
def mk (cs : Text) : Path :=
  ofBytes (Utf8.encode cs)

/-- The text that a path is shown as. -/
def text (p : Path) : Text :=
  Utf8.decodeLossy p.bytes

/-- Whether the path is the path of a text. -/
def isUtf8 (p : Path) : Bool :=
  (Utf8.decode? p.bytes).isSome

/-- A path written in the source of this library. -/
def ofString (s : String) : Path :=
  mk s.toList

/-- Whether the path starts at the root. -/
def isAbsolute (p : Path) : Bool :=
  p.bytes.head? == some slash

/-- A component of a path. -/
inductive Component where
  /-- The slash an absolute path starts with. -/
  | root
  /-- A `.` at the start of a path. -/
  | current
  /-- The component `..`. -/
  | parent
  | name (n : Bytes)
  deriving DecidableEq, Repr

/-- The component that a piece between slashes stands for.  Empty pieces and
`.` stand for none. -/
def Component.ofPiece? : Bytes → Option Component
  | [] => none
  | [dot] => none
  | [dot, dot] => some .parent
  | piece => some (.name piece)

/-- The components of a path. -/
def components (p : Path) : List Component :=
  match p.bytes with
  | slash :: cs => .root :: (Text.splitOn slash cs).filterMap Component.ofPiece?
  | cs =>
    match Text.splitOn slash cs with
    | [dot] :: pieces => .current :: pieces.filterMap Component.ofPiece?
    | pieces => pieces.filterMap Component.ofPiece?

/-- Whether two paths have the same components. -/
def same (p q : Path) : Bool :=
  p.components == q.components

/-- The path `q` seen from `p`: appended with a slash between the two, or `q`
itself if it is absolute. -/
def join (p q : Path) : Path :=
  if q.isAbsolute || p.bytes = [] then q
  else if p.bytes.getLast? = some slash then ⟨p.bytes ++ q.bytes⟩
  else ⟨p.bytes ++ slash :: q.bytes⟩

/-- Removes slashes and `.` components from the end of a path whose bytes are
given from its end. -/
def bareReversed : Bytes → Bytes
  | slash :: cs => bareReversed cs
  | dot :: slash :: cs => bareReversed cs
  | cs => cs

/-- The path without slashes and `.` components at its end. -/
def bare (p : Path) : Bytes :=
  (bareReversed p.bytes.reverse).reverse

/-- The bytes of the last component, and what stands in front of it. -/
def splitLast (p : Path) : Bytes × Bytes :=
  let fromEnd := bareReversed p.bytes.reverse
  ((fromEnd.takeWhile (· ≠ slash)).reverse, (fromEnd.dropWhile (· ≠ slash)).reverse)

/-- The last component, if it is a name. -/
def fileName? (p : Path) : Option Bytes :=
  match p.splitLast.1 with
  | [] => none
  | [dot] => none
  | [dot, dot] => none
  | name => some name

/-- Divides a file name at its last dot.  A name without a dot, or with its
only dot in front, has no extension. -/
def splitName (name : Bytes) : Bytes × Option Bytes :=
  let fromEnd := name.reverse
  match fromEnd.dropWhile (· ≠ dot) with
  | [] => (name, none)
  | [_] => (name, none)
  | _ :: stem => (stem.reverse, some (fromEnd.takeWhile (· ≠ dot)).reverse)

/-- The file name without its extension. -/
def stem? (p : Path) : Option Bytes :=
  p.fileName?.map fun name => (splitName name).1

/-- What stands after the last dot of the file name. -/
def extension? (p : Path) : Option Bytes :=
  p.fileName?.bind fun name => (splitName name).2

/-- Ends the path after the stem of its file name and adds an extension.  A
path without a file name stays as it is. -/
def setExtension (extension : Bytes) (p : Path) : Path :=
  match p.stem? with
  | none => p
  | some stem => ⟨p.splitLast.2 ++ stem ++ dot :: extension⟩

/-- The path with another extension.  The old extension is first cut off the
end of the path, so a name that this turns into `..` is left at that. -/
def withExtension (extension : Bytes) (p : Path) : Path :=
  match p.extension? with
  | none => setExtension extension p
  | some old =>
    setExtension extension ⟨p.bytes.take (p.bytes.length - old.length)⟩

/-- The path without its last component.  The root and the empty path have no
parent. -/
def parent? (p : Path) : Option Path :=
  match bareReversed p.bytes.reverse with
  | [] => none
  | _ :: cs =>
    match cs.dropWhile (· ≠ slash) with
    | [] => some ⟨[]⟩
    | rest =>
      match bareReversed rest with
      | [] => some ⟨[slash]⟩
      | cs' => some ⟨cs'.reverse⟩

/-- Removing the end of a path makes it no longer. -/
theorem bareReversed_length_le (cs : Bytes) :
    (bareReversed cs).length ≤ cs.length := by
  fun_induction bareReversed cs with
  | case1 cs ih => exact Nat.le_succ_of_le ih
  | case2 cs ih => exact Nat.le_succ_of_le (Nat.le_succ_of_le ih)
  | case3 => exact Nat.le_refl _

/-- A parent is shorter. -/
theorem parent?_length_lt {p q : Path} (h : p.parent? = some q) :
    q.bytes.length < p.bytes.length := by
  have hp := bareReversed_length_le p.bytes.reverse
  rw [List.length_reverse] at hp
  unfold parent? at h
  split at h
  · simp at h
  · rename_i c cs heq
    rw [heq, List.length_cons] at hp
    have hdrop := (List.dropWhile_suffix (l := cs) (· ≠ slash)).length_le
    split at h
    · cases h
      simp only [List.length_nil]
      omega
    · rename_i rest hne
      have hpos := List.length_pos_iff.mpr hne
      have hrest := bareReversed_length_le (cs.dropWhile (· ≠ slash))
      split at h
      · cases h
        simp only [List.length_cons, List.length_nil]
        omega
      · rename_i cs' _
        cases h
        simp only [List.length_reverse]
        omega

end Path

end EnumTables
