/-
Reading ahead in a list of tokens.

* **`significant?`** takes the next token that is not a comment;
* **`closeGroup`** reads through the closer that matches an opener already
  read, skipping nested groups of the same kind.

`closeGroup` counts the inner groups that are still open, so its count starts
at zero and never has to go below it.
-/
import EnumTables.Token.Basic

namespace EnumTables

/-- The next token that is not a comment, and the tokens after it. -/
def significant? : List Token → Option (Token × List Token)
  | [] => none
  | t :: ts => if t.isSignificant then some (t, ts) else significant? ts

/-- Reads through the closer of a group whose opener has been read, with
`depth` inner groups still open.  Gives the closer, if there is one, and the
tokens after it; without a closer all tokens are consumed.  A token of the
opening kind always opens, also when the two kinds are the same. -/
def closeGroup (opener closer : TokenKind) : Nat → List Token → Option Token × List Token
  | _, [] => (none, [])
  | depth, t :: ts =>
    if t.kind = opener then closeGroup opener closer (depth + 1) ts
    else if t.kind = closer then
      match depth with
      | 0 => (some t, ts)
      | d + 1 => closeGroup opener closer d ts
    else closeGroup opener closer depth ts

/-- Where a group whose opener has been read ends: the start of its closer,
or `limit` if it is never closed. -/
def groupEnd (opener closer : TokenKind) (limit : Nat) (ts : List Token) : Nat :=
  match (closeGroup opener closer 0 ts).1 with
  | some t => t.start
  | none => limit

/-- Reading a token consumes one. -/
theorem significant?_length_lt {ts rest : List Token} {t : Token}
    (h : significant? ts = some (t, rest)) : rest.length < ts.length := by
  induction ts with
  | nil => simp [significant?] at h
  | cons u us ih =>
    rw [significant?] at h
    split at h
    · simp only [Option.some.injEq, Prod.mk.injEq] at h
      simp [h.2]
    · have := ih h
      simp only [List.length_cons]
      omega

/-- Closing a group adds no tokens. -/
theorem closeGroup_length_le (opener closer : TokenKind) (depth : Nat)
    (ts : List Token) :
    (closeGroup opener closer depth ts).2.length ≤ ts.length := by
  fun_induction closeGroup opener closer depth ts <;>
    simp only [List.length_cons, List.length_nil] <;> omega

end EnumTables
