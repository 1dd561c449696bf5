/-
Sets of characters in a pattern, written between brackets.

A set holds characters, ranges, kinds of characters and other sets; the
operators `&&`, `--` and `~~` combine what stands on their sides.  In a
pattern of bytes a set has only ASCII in it and is never negated.

* **`set?`** reads a set and gives how deep it is nested.
-/
import EnumTables.Pattern.Atom

namespace EnumTables.Pattern

/-- A set that is being read. -/
structure SetFrame where
  /-- The depth of what stands in front of the last operator. -/
  left : Option Nat
  /-- The depths of the items after it. -/
  items : List Nat
  deriving DecidableEq, Repr

namespace SetFrame

/-- How deep a set is nested inside its brackets. -/
def depth (f : SetFrame) : Nat :=
  match f.left with
  | none => depthOf f.items
  | some d => 1 + max d (depthOf f.items)

/-- The set with one more item. -/
def add (d : Nat) (f : SetFrame) : SetFrame :=
  { f with items := d :: f.items }

/-- The set after an operator. -/
def operator (f : SetFrame) : SetFrame :=
  ⟨some f.depth, []⟩

end SetFrame

/-- The names of the kinds of ASCII characters. -/
def asciiKinds : List Text :=
  ["alnum".toList, "alpha".toList, "ascii".toList, "blank".toList, "cntrl".toList,
    "digit".toList, "graph".toList, "lower".toList, "print".toList, "punct".toList,
    "space".toList, "upper".toList, "word".toList, "xdigit".toList]

/-- A kind of ASCII characters between colons, whether it is negated, and the
text after its bracket.  The opening bracket has been read. -/
def asciiKind? : Text → Option (Bool × Text)
  | ':' :: cs =>
    let (negated, cs) :=
      match cs with
      | '^' :: rest => (true, rest)
      | _ => (false, cs)
    match cs.dropWhile (· ≠ ':') with
    | ':' :: ']' :: rest =>
      if asciiKinds.contains (cs.takeWhile (· ≠ ':')) then some (negated, rest) else none
    | _ => none
  | _ => none

/-- The dashes that a set begins with, as items of depth 0, and the text after
them. -/
def dashes (mode : Mode) (cs : Text) : List Nat × Text :=
  match cs with
  | '-' :: rest =>
    let (items, rest') := dashes mode (mode.skip rest)
    (0 :: items, rest')
  | _ => ([], cs)
termination_by cs.length
decreasing_by
  have := mode.skip_length_le rest
  simp only [List.length_cons]
  omega

/-- The beginning of a set, and the text after it.  Dashes, or else one closing
bracket, stand for themselves there.  The opening bracket has been read. -/
def openSet? (mode : Mode) (cs : Text) : Option (SetFrame × Text) :=
  let start (cs : Text) : SetFrame × Text :=
    match dashes mode cs with
    | ([], ']' :: rest) => (⟨none, [0]⟩, mode.skip rest)
    | (items, rest) => (⟨none, items⟩, rest)
  match mode.skip cs with
  | '^' :: rest => if mode.unicode then some (start (mode.skip rest)) else none
  | cs => some (start cs)

/-- Whether a part may be an item of a set. -/
def Atom.isItem (mode : Mode) : Atom → Bool
  | .char c => mode.unicode || c.toNat < 128
  | .kind => true
  | .place => false

/-- A character or an escape in a set, and the text after it. -/
def setAtom? (mode : Mode) : Text → Option (Atom × Text)
  | [] => none
  | '\\' :: cs => escape? mode cs
  | c :: cs => some (.char c, cs)

/-- The next character that counts, by which a dash is told from a range.
Within a comment the first character that is not blank is taken. -/
def peek? (mode : Mode) (cs : Text) : Option Char :=
  if mode.loose then
    match cs.dropWhile isBlank with
    | [] => cs.head?
    | '#' :: rest => (rest.dropWhile isBlank).head?.or cs.head?
    | c :: _ => some c
  else cs.head?

/-- The text after an item of a set or a range. -/
def setItem? (mode : Mode) (cs : Text) : Option Text :=
  match setAtom? mode cs with
  | none => none
  | some (a, rest) =>
    let single (rest : Text) : Option Text := if a.isItem mode then some rest else none
    match mode.skip rest with
    | '-' :: more =>
      let next := peek? mode more
      if next = some ']' ∨ next = some '-' then single ('-' :: more)
      else
        match a, setAtom? mode (mode.skip more) with
        | .char c, some (.char d, rest') =>
          if (Atom.char c).isItem mode && (Atom.char d).isItem mode && c.toNat ≤ d.toNat then
            some rest'
          else none
        | _, _ => none
    | rest => single rest

/-- Reads on in a set inside others: its depth with all that it is part of,
and the text after the outermost one.  Every step reads a character, so the
number of characters bounds the number of steps. -/
def sets? (mode : Mode) : Nat → SetFrame → List SetFrame → Text → Option (Nat × Text)
  | 0, _, _, _ => none
  | fuel + 1, frame, outer, cs =>
    match mode.skip cs with
    | [] => none
    | '[' :: rest =>
      match asciiKind? rest with
      | some (negated, rest') =>
        if negated && !mode.unicode then none else sets? mode fuel (frame.add 0) outer rest'
      | none =>
        match openSet? mode rest with
        | none => none
        | some (inner, rest') => sets? mode fuel inner (frame :: outer) rest'
    | ']' :: rest =>
      match outer with
      | [] => some (1 + frame.depth, rest)
      | parent :: outer' => sets? mode fuel (parent.add (1 + frame.depth)) outer' rest
    | '&' :: '&' :: rest => sets? mode fuel frame.operator outer rest
    | '-' :: '-' :: rest => sets? mode fuel frame.operator outer rest
    | '~' :: '~' :: rest => sets? mode fuel frame.operator outer rest
    | start =>
      match setItem? mode start with
      | none => none
      | some rest => sets? mode fuel (frame.add 0) outer rest

/-- How deep a set is nested, and the text after it.  The opening bracket has
been read. -/
def set? (mode : Mode) (cs : Text) : Option (Nat × Text) :=
  match openSet? mode cs with
  | none => none
  | some (frame, rest) => sets? mode (rest.length + 1) frame [] rest

end EnumTables.Pattern
