/-
Which events of a run are shown.

A filter is a list of directives separated by commas.  A directive names a
level, or the beginning of an origin, or both as `origin=level`.  Of the
directives that concern an event the most specific one decides: the one with
the longest origin, and of directives for the same origin the last.

A directive may also speak of spans and fields, in brackets.  A run has no
spans, so a directive that asks for one concerns no event; every event has one
field, its message.  A directive may ask for a value of a field, by a number
or a pattern, but no message is looked at.

The signs of a directive are looked for in its text without blanks at the
ends.  Its pieces are then cut out of the text with the blanks, at the same
byte positions, so blanks in front of a directive shift its pieces and blanks
behind it belong to the last one.

* **`Filter.parse?`** reads a filter;
* **`Filter.shows`** says whether an event passes it;
* **`Filter.ofSetting`** is the filter of a run.
-/
import EnumTables.Event.Basic
import EnumTables.Pattern.Depth

namespace EnumTables

/-- A directive of a filter. -/
structure Directive where
  /-- How the origin of an event has to begin. -/
  origin : Option Text
  /-- Whether the directive asks for a span, or for a field with a certain
  value, which no event has. -/
  impossible : Bool
  /-- The fields an event must have. -/
  fields : List Text
  /-- The most verbose level shown, where 0 shows nothing. -/
  verbosity : Nat
  deriving DecidableEq, Repr

namespace Directive

/-- The directive that shows everything up to a level. -/
def ofVerbosity (n : Nat) : Directive :=
  ⟨none, false, [], n⟩

/-- The number that decimal digits stand for. -/
def number? (cs : Text) : Option Nat :=
  if cs ≠ [] ∧ cs.all Char.isDigit then
    some (cs.foldl (fun n c => 10 * n + (c.toNat - '0'.toNat)) 0)
  else none

/-- The level that a word or a number from 0 to 5 names.  Case does not
matter. -/
def verbosity? (cs : Text) : Option Nat :=
  match number? (Text.withoutLead ['+'] cs) with
  | some n => if n ≤ 5 then some n else none
  | none =>
    List.lookup (cs.map Char.toLower) [
      ("off".toList, 0), ("error".toList, 1), ("warn".toList, 2), ("info".toList, 3),
      ("debug".toList, 4), ("trace".toList, 5)]

/-- The level after an equals sign; nothing there means every level. -/
def verbosityAfter? (cs : Text) : Option Nat :=
  if cs = [] then some 5 else verbosity? cs

/-- A character a directive may start with, besides a bracket. -/
def isStart (c : Char) : Bool :=
  Text.isLetter c || Text.isNumeral c || c == '-' || c == ':' || c == '_'

/-- Whether a text is a decimal number, with or without a sign, a fraction and
an exponent, or one of the words for infinity and for what is no number. -/
def isNumber (cs : Text) : Bool :=
  let unsigned :=
    match cs with
    | '+' :: rest => rest
    | '-' :: rest => rest
    | _ => cs
  let whole := unsigned.takeWhile Char.isDigit
  let (fraction, rest) :=
    match unsigned.dropWhile Char.isDigit with
    | '.' :: rest => (rest.takeWhile Char.isDigit, rest.dropWhile Char.isDigit)
    | rest => ([], rest)
  let exponent (cs : Text) : Bool := cs ≠ [] && cs.all Char.isDigit
  ["inf".toList, "infinity".toList, "nan".toList].contains (unsigned.map Char.toLower) ||
    (whole ++ fraction ≠ [] &&
      (match rest.map Char.toLower with
        | [] => true
        | 'e' :: '+' :: cs => exponent cs
        | 'e' :: '-' :: cs => exponent cs
        | 'e' :: cs => exponent cs
        | _ => false))

/-- A field as a directive names it: its name, and whether a value is asked
for.  Nothing is given if the value is neither a number nor a pattern.  What
stands after a second equals sign is ignored. -/
def field? (cs : Text) : Option (Text × Bool) :=
  match Text.splitOn '=' cs with
  | name :: value :: _ =>
    if isNumber value || Pattern.isValid value then some (name, true) else none
  | _ => some (cs, false)

/-- The rest of a directive after its closing bracket, which ends at position
`pos`.  The pieces are cut out of `whole`. -/
def afterBracket? (whole : Text) (origin : Option Text) (impossible : Bool)
    (fields : List Text) (pos : Nat) : Text → Option Directive
  | [] => some ⟨origin, impossible, fields, 5⟩
  | '=' :: _ =>
    (verbosityAfter? (Text.dropBytes (pos + 1) whole)).map fun n =>
      ⟨origin, impossible, fields, n⟩
  | _ => none

/-- The rest of a directive after its opening bracket, which ends at position
`pos`: the name of a span, and a field in braces. -/
def inBracket? (whole : Text) (origin : Option Text) (pos : Nat) (cs : Text) :
    Option Directive :=
  let isEnd (c : Char) : Bool := c == ']' || c == '{'
  let span := cs.takeWhile fun c => !isEnd c
  let spanEnd := pos + Text.size span
  match cs.dropWhile fun c => !isEnd c with
  | ']' :: rest => afterBracket? whole origin true [] (spanEnd + 1) rest
  | '{' :: rest =>
    let field := rest.takeWhile (· ≠ '}')
    let fieldEnd := spanEnd + 1 + Text.size field
    match rest.dropWhile (· ≠ '}') with
    | '}' :: ']' :: rest' =>
      if field = [] then none
      else
        match field? (Text.slice whole (spanEnd + 1) fieldEnd) with
        | none => none
        | some (name, valued) =>
          afterBracket? whole origin (span ≠ [] || valued) [name] (fieldEnd + 2) rest'
    | _ => none
  | _ => none

/-- Reads one directive. -/
def parse? (whole : Text) : Option Directive :=
  let cs := Text.trim whole
  match cs with
  | [] => none
  | '[' :: rest => inBracket? whole none 1 rest
  | c :: _ =>
    if isStart c then
      let isMark (c : Char) : Bool := c == '=' || c == '['
      let pos := Text.size (cs.takeWhile fun c => !isMark c)
      let origin := Text.slice whole 0 pos
      match cs.dropWhile fun c => !isMark c with
      | '=' :: _ =>
        (verbosityAfter? (Text.dropBytes (pos + 1) whole)).map fun n =>
          ⟨some origin, false, [], n⟩
      | '[' :: rest => inBracket? whole (some origin) (pos + 1) rest
      | _ =>
        match verbosity? whole with
        | some n => some (ofVerbosity n)
        | none => some ⟨some whole, false, [], 5⟩
    else none

/-- Whether a directive concerns an event. -/
def concerns (d : Directive) (e : Event) : Bool :=
  !d.impossible && d.fields.all (· == "message".toList) &&
    (match d.origin with
      | none => true
      | some origin => origin.isPrefixOf e.origin)

/-- How specific a directive is: first by its origin, then by its fields. -/
def specificity (d : Directive) : Nat × Nat :=
  match d.origin with
  | none => (0, d.fields.length)
  | some origin => (Text.size origin + 1, d.fields.length)

/-- Whether one directive is less specific than another, or as specific. -/
def isBelow (d other : Directive) : Bool :=
  d.specificity.1 < other.specificity.1 ||
    (d.specificity.1 == other.specificity.1 && d.specificity.2 ≤ other.specificity.2)

end Directive

/-- A filter for the events of a run. -/
abbrev Filter := List Directive

namespace Filter

/-- The filter that a text describes.  Without any directive it shows errors
alone. -/
def parse? (cs : Text) : Option Filter :=
  match ((Text.splitOn ',' cs).filter (· ≠ [])).mapM Directive.parse? with
  | none => none
  | some [] => some [Directive.ofVerbosity Level.error.verbosity]
  | some directives => some directives

/-- The most specific directive of two, the later one if there is a tie. -/
def moreSpecific (best : Option Directive) (d : Directive) : Option Directive :=
  match best with
  | none => some d
  | some b => if b.isBelow d then some d else some b

/-- Whether an event passes the filter. -/
def shows (filter : Filter) (e : Event) : Bool :=
  match (filter.filter (·.concerns e)).foldl moreSpecific none with
  | none => false
  | some d => e.level.verbosity ≤ d.verbosity

/-- The filter of a run: the one that is set, unless it cannot be read, or
else everything up to `info`, or up to `debug` if the run is verbose. -/
def ofSetting (setting : Option Text) (verbose : Bool) : Filter :=
  let fallback := [Directive.ofVerbosity (if verbose then Level.debug else Level.info).verbosity]
  match setting with
  | none => fallback
  | some cs => (parse? cs).getD fallback

end Filter

end EnumTables
