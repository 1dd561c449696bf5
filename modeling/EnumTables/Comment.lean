/-
Documentation comments and the descriptions made from them.

* **`Comment.inner`** is the text between the delimiters of a documentation
  comment;
* **`Comment.normalize`** turns such a text into a description on one line:
  every `/` and `*` is deleted, which also removes the markers in front of
  continuation lines, runs of blanks become one space, and the ends are
  trimmed.
-/
import EnumTables.Text.Basic

namespace EnumTables.Comment

/-- The text of a documentation comment without its delimiters.  The closing
one may be missing. -/
def inner (comment : Text) : Text :=
  Text.withoutTail ['*', '/'] (Text.withoutLead ['/', '*', '*'] comment)

/-- A character that comment delimiters are made of. -/
def isDelimiter (c : Char) : Bool :=
  c == '/' || c == '*'

/-- Every run of blanks becomes one space.  With `inRun` the text is the
continuation of a run whose space is already written. -/
def collapse (inRun : Bool) : Text → Text
  | [] => []
  | c :: cs =>
    if isBlank c then
      if inRun then collapse true cs else ' ' :: collapse true cs
    else c :: collapse false cs

/-- The description that a raw comment text stands for. -/
def normalize (raw : Text) : Text :=
  Text.trim (collapse false (raw.filter fun c => !isDelimiter c))

end EnumTables.Comment
