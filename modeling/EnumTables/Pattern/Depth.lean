/-
How deep a pattern is nested, and whether it is well-formed.

A pattern is made of alternatives, each a row of parts; a part may be repeated
or stand in a group.  A group may have a name, which no other group has, and
may begin with flags that hold inside it; flags alone hold up to the end of
the group they stand in.

* **`depth?`** is the depth of a pattern, or nothing if the pattern is not
  well-formed;
* **`isValid`** also bounds the depth.

The depth counts groups, sets and repetitions, and also rows and lists of
alternatives with more than one element.
-/
import EnumTables.Pattern.Set
import EnumTables.Text.Letter

namespace EnumTables.Pattern

/-- The deepest nesting that is allowed. -/
def maxDepth : Nat := 250

/-- A group that is being read. -/
structure Frame where
  /-- The depths of the alternatives before the current one. -/
  branches : List Nat
  /-- The depths of the parts of the current alternative, the last one first;
  flags are a part without depth. -/
  parts : List (Option Nat)
  deriving DecidableEq, Repr

namespace Frame

/-- A group of which nothing has been read. -/
def empty : Frame :=
  ⟨[], []⟩

/-- The depth of the current alternative. -/
def branch (f : Frame) : Nat :=
  depthOf (f.parts.map fun part => part.getD 0)

/-- How deep a group is nested inside its parentheses. -/
def depth (f : Frame) : Nat :=
  depthOf (f.branch :: f.branches)

/-- The group with one more part. -/
def add (part : Option Nat) (f : Frame) : Frame :=
  { f with parts := part :: f.parts }

/-- The group after the sign that begins an alternative. -/
def alternative (f : Frame) : Frame :=
  ⟨f.branch :: f.branches, []⟩

/-- The group with its last part repeated; flags cannot be. -/
def repeated? (f : Frame) : Option Frame :=
  match f.parts with
  | some d :: parts => some { f with parts := some (1 + d) :: parts }
  | _ => none

end Frame

/-- What an opening parenthesis begins. -/
inductive Opening where
  /-- Flags that hold from here on. -/
  | flags (mode : Mode)
  /-- A group with the mode inside it. -/
  | group (mode : Mode) (name : Option Text)
  deriving DecidableEq, Repr

/-- Sets or clears the flag with a letter.  The other flags do not change how
a pattern is read. -/
def Mode.withFlag (mode : Mode) (flag : Char) (value : Bool) : Mode :=
  if flag = 'x' then { mode with loose := value }
  else if flag = 'u' then { mode with unicode := value }
  else mode

/-- Flags up to a colon, which begins a group, or a parenthesis.  A dash clears
the flags behind it; it stands there at most once and not at the end.  No flag
is given twice. -/
def flags? (mode : Mode) (value dangling : Bool) (seen : List Char) :
    Text → Option (Opening × Text)
  | [] => none
  | ':' :: cs => if dangling then none else some (.group mode none, cs)
  | ')' :: cs => if dangling || seen.isEmpty then none else some (.flags mode, cs)
  | '-' :: cs => if value then flags? mode false true seen cs else none
  | c :: cs =>
    if "imsUuRx".toList.contains c && !seen.contains c then
      flags? (mode.withFlag c value) value false (c :: seen) cs
    else none

/-- Whether a text can be the name of a group. -/
def isName : Text → Bool
  | [] => false
  | c :: cs =>
    (c == '_' || Text.isLetter c) &&
      cs.all fun d => Text.isLetter d || Text.isNumeral d || "_.[]".toList.contains d

/-- A group whose name is to be read, and the text after the name.  The names
of the groups before it are given. -/
def named? (mode : Mode) (names : List Text) (cs : Text) : Option (Opening × Text) :=
  let name := cs.takeWhile (· ≠ '>')
  match cs.dropWhile (· ≠ '>') with
  | [] => none
  | _ :: rest =>
    if isName name && !names.contains name then some (.group mode (some name), rest) else none

/-- What an opening parenthesis begins, and the text after it.  The parenthesis
has been read. -/
def opening? (mode : Mode) (names : List Text) (cs : Text) : Option (Opening × Text) :=
  match mode.skip cs with
  | '?' :: 'P' :: '<' :: rest => named? mode names rest
  | '?' :: '<' :: rest => named? mode names rest
  | '?' :: rest => flags? mode true false [] rest
  | rest => some (.group mode none, rest)

/-- The text after a sign of repetition, which a question mark may follow. -/
def afterRepetition : Text → Text
  | '?' :: cs => cs
  | cs => cs

/-- Reads on in a group inside others, each of them with the mode outside of
it: the depth of the whole pattern.  Every step but the last reads a
character, so the number of characters bounds the number of steps. -/
def groups? : Nat → Mode → List Text → Frame → List (Frame × Mode) → Text → Option Nat
  | 0, _, _, _, _, _ => none
  | fuel + 1, mode, names, frame, outer, cs =>
    match mode.skip cs with
    | [] => if outer.isEmpty then some frame.depth else none
    | '(' :: rest =>
      match opening? mode names rest with
      | none => none
      | some (.flags mode', rest') => groups? fuel mode' names (frame.add none) outer rest'
      | some (.group mode' name, rest') =>
        groups? fuel mode' (name.toList ++ names) Frame.empty ((frame, mode) :: outer) rest'
    | ')' :: rest =>
      match outer with
      | [] => none
      | (parent, mode') :: outer' =>
        groups? fuel mode' names (parent.add (some (1 + frame.depth))) outer' rest
    | '|' :: rest => groups? fuel mode names frame.alternative outer rest
    | '[' :: rest =>
      match set? mode rest with
      | none => none
      | some (d, rest') => groups? fuel mode names (frame.add (some d)) outer rest'
    | c :: rest =>
      if "?*+".toList.contains c then
        match frame.repeated? with
        | none => none
        | some frame' => groups? fuel mode names frame' outer (afterRepetition rest)
      else
        match atom? mode (c :: rest) with
        | none => none
        | some (_, rest') => groups? fuel mode names (frame.add (some 0)) outer rest'

/-- How deep a pattern is nested, if it is well-formed. -/
def depth? (cs : Text) : Option Nat :=
  groups? (cs.length + 1) Mode.initial [] Frame.empty [] cs

/-- Whether a text is a pattern. -/
def isValid (cs : Text) : Bool :=
  match depth? cs with
  | none => false
  | some d => d ≤ maxDepth

end EnumTables.Pattern
