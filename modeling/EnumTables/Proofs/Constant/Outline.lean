/-
The outline of an enum body.

The top level of a body is what no annotation, argument list and class body
covers.  `Outline ts items` says that `items` are the tokens of `ts` at the top
level.  It is stated without the reader of constants, with one relation for each
part that is covered:

* **`Group`** — an optional group in brackets, closed or not;
* **`Selectors`** — the rest of a qualified name and an optional argument list;
* **`Annotation`** — what belongs to an `@`.

A list of tokens has one outline (**`exists_outline`**, **`Outline.unique`**), and
every reader goes on behind the part that its relation describes
(**`Group.readArguments_eq`**, **`Group.classBodyRest_eq`**,
**`Annotation.annotationRest_eq`**).  What every other token does to the comment
that waits for a constant is **`Token.waiting`**.
-/
import EnumTables.Proofs.Constant.Names
import EnumTables.Proofs.Declaration.Comments
import EnumTables.Proofs.Printed.Constants
import EnumTables.Proofs.Token.Balance

namespace EnumTables

/-- `Group opener closer ts group rest`: in front of `rest` the tokens `ts` hold
a group, or none.  The group is given by its opener and, if it is closed, its
closer; a group that is never closed takes all tokens. -/
inductive Group (opener closer : TokenKind) :
    List Token → Option (Token × Option Token) → List Token → Prop
  | absent {ts : List Token} (h : ∀ t us, significant? ts = some (t, us) → t.kind ≠ opener) :
      Group opener closer ts none ts
  | closed {ts inner rest : List Token} {o c : Token}
      (h : significant? ts = some (o, inner ++ c :: rest)) (ho : o.kind = opener)
      (hinner : Balanced opener closer inner) (hc : c.kind = closer) :
      Group opener closer ts (some (o, some c)) rest
  | unclosed {ts inner : List Token} {o : Token} (h : significant? ts = some (o, inner))
      (ho : o.kind = opener) (hinner : Nested opener closer 0 inner) :
      Group opener closer ts (some (o, none)) []

/-- The text between the brackets of a group.  A group that is never closed runs
to the end of the body. -/
def groupText (body : Text) : Token × Option Token → Text
  | (o, some c) => Text.slice body o.stop c.start
  | (o, none) => Text.slice body o.stop (Text.size body)

/-- The token is a single dot. -/
def Token.IsDot (t : Token) : Prop :=
  t.kind = .other ∧ t.text = ['.']

/-- Dots with a token behind each of them, and then an optional argument
list. -/
inductive Selectors : List Token → List Token → Prop
  | list {ts rest : List Token} {group : Option (Token × Option Token)}
      (hdot : ∀ t us, significant? ts = some (t, us) → ¬ t.IsDot)
      (h : Group .openParen .closeParen ts group rest) : Selectors ts rest
  | dot {ts us vs rest : List Token} {t name : Token} (h : significant? ts = some (t, us))
      (ht : t.IsDot) (hname : significant? us = some (name, vs)) (hrest : Selectors vs rest) :
      Selectors ts rest
  | last {ts us : List Token} {t : Token} (h : significant? ts = some (t, us)) (ht : t.IsDot)
      (hname : significant? us = none) : Selectors ts []

/-- What belongs to an `@` in front of the tokens: a name and what follows it,
or nothing. -/
inductive Annotation : List Token → List Token → Prop
  | named {ts us rest : List Token} {name : Token} (h : significant? ts = some (name, us))
      (hname : name.kind = .ident) (hrest : Selectors us rest) : Annotation ts rest
  | bare {ts : List Token} (h : ∀ t us, significant? ts = some (t, us) → t.kind ≠ .ident) :
      Annotation ts ts

/-- A token of a list and the tokens behind it. -/
structure Item where
  token : Token
  after : List Token

/-- `items` are the tokens of the list at the top level, in order.  An annotation
covers what belongs to it, a constant its argument list and its class body. -/
inductive Outline : List Token → List Item → Prop
  | nil : Outline [] []
  | annotated {t : Token} {ts rest : List Token} {items : List Item} (ht : t.kind = .at)
      (h : Annotation ts rest) (hrest : Outline rest items) : Outline (t :: ts) (⟨t, ts⟩ :: items)
  | constant {t : Token} {ts mid rest : List Token} {arguments classBody}
      {items : List Item} (ht : t.kind = .ident)
      (harguments : Group .openParen .closeParen ts arguments mid)
      (hbody : Group .openBrace .closeBrace mid classBody rest) (hrest : Outline rest items) :
      Outline (t :: ts) (⟨t, ts⟩ :: items)
  | other {t : Token} {ts : List Token} {items : List Item} (hat : t.kind ≠ .at)
      (hident : t.kind ≠ .ident) (hrest : Outline ts items) : Outline (t :: ts) (⟨t, ts⟩ :: items)

section

variable {ts rest : List Token}

/-! ### Groups -/

theorem exists_group (opener closer : TokenKind) (hne : opener ≠ closer) (ts : List Token) :
    ∃ group rest, Group opener closer ts group rest := by
  cases h : significant? ts with
  | none => exact ⟨none, ts, .absent (by simp [h])⟩
  | some found =>
    obtain ⟨o, us⟩ := found
    by_cases ho : o.kind = opener
    · rcases nested_or_exists_closer hne 0 us with hnested | ⟨inner, c, rest, rfl, hc, hn, hcount⟩
      · exact ⟨_, _, .unclosed h ho hnested⟩
      · exact ⟨_, _, .closed h ho ⟨hn, by omega⟩ hc⟩
    · refine ⟨none, ts, .absent ?_⟩
      intro t vs hsig
      obtain ⟨rfl, -⟩ := Prod.mk.inj (Option.some.inj (h.symm.trans hsig))
      exact ho

/-- The reader of arguments reads the group in parentheses. -/
theorem Group.readArguments_eq {group : Option (Token × Option Token)}
    (h : Group .openParen .closeParen ts group rest) (body : Text) :
    Constant.readArguments body ts = (group.map (groupText body), rest) := by
  rw [Constant.readArguments]
  cases h with
  | absent h =>
    split
    · rfl
    · rename_i t us hsig
      rw [if_neg (h t us hsig)]
      rfl
  | closed h ho hinner hc =>
    simp only [h, if_pos ho, groupEnd, hinner.closeGroup_eq (by decide) hc]
    rfl
  | unclosed h ho hinner =>
    simp only [h, if_pos ho, groupEnd, closeGroup_of_nested (by decide) hinner]
    rfl

/-- What stands behind a group, as the readers find it. -/
theorem Group.rest_eq {opener closer : TokenKind} {group : Option (Token × Option Token)}
    (hne : opener ≠ closer) (h : Group opener closer ts group rest) :
    (match significant? ts with
      | none => ts
      | some (t, us) => if t.kind = opener then (closeGroup opener closer 0 us).2 else ts) =
    rest := by
  cases h with
  | absent h =>
    split
    · rfl
    · rename_i t us hsig
      rw [if_neg (h t us hsig)]
  | closed h ho hinner hc => simp only [h, if_pos ho, hinner.closeGroup_eq hne hc]
  | unclosed h ho hinner => simp only [h, if_pos ho, closeGroup_of_nested hne hinner]

/-- The reader of class bodies passes over the group in braces. -/
theorem Group.classBodyRest_eq {group : Option (Token × Option Token)}
    (h : Group .openBrace .closeBrace ts group rest) : Constant.classBodyRest ts = rest :=
  h.rest_eq (by decide)

/-! ### Annotations -/

theorem exists_selectors (ts : List Token) : ∃ rest, Selectors ts rest := by
  induction hn : ts.length using Nat.strongRecOn generalizing ts with
  | ind n ih =>
    by_cases hdot : ∀ t us, significant? ts = some (t, us) → ¬ t.IsDot
    · obtain ⟨group, rest, h⟩ := exists_group .openParen .closeParen (by decide) ts
      exact ⟨rest, .list hdot h⟩
    · push Not at hdot
      obtain ⟨t, us, h, ht⟩ := hdot
      cases hname : significant? us with
      | none => exact ⟨[], .last h ht hname⟩
      | some found =>
        obtain ⟨name, vs⟩ := found
        have hus := significant?_length_lt h
        have hvs := significant?_length_lt hname
        obtain ⟨rest, hrest⟩ := ih vs.length (by omega) vs rfl
        exact ⟨rest, .dot h ht hname hrest⟩

/-- The reader of qualified names passes over dots and argument list. -/
theorem Selectors.qualifiedRest_eq (h : Selectors ts rest) : Constant.qualifiedRest ts = rest := by
  induction h with
  | @list ts rest group hdot h =>
    rw [Thinned.qualifiedRest_eq, ← h.rest_eq (by decide)]
    cases hsig : significant? ts with
    | none => rfl
    | some found => exact if_neg (hdot found.1 found.2 hsig)
  | dot h ht hname _ ih =>
    rw [Thinned.qualifiedRest_eq]
    simp only [h, hname, ih]
    exact if_pos ht
  | last h ht hname =>
    rw [Thinned.qualifiedRest_eq]
    simp only [h, hname]
    exact if_pos ht

theorem exists_annotation (ts : List Token) : ∃ rest, Annotation ts rest := by
  by_cases hname : ∀ t us, significant? ts = some (t, us) → t.kind ≠ .ident
  · exact ⟨ts, .bare hname⟩
  · push Not at hname
    obtain ⟨t, us, h, ht⟩ := hname
    obtain ⟨rest, hrest⟩ := exists_selectors us
    exact ⟨rest, .named h ht hrest⟩

/-- The reader of annotations passes over what belongs to an `@`. -/
theorem Annotation.annotationRest_eq (h : Annotation ts rest) :
    Constant.annotationRest ts = rest := by
  rw [Constant.annotationRest]
  cases h with
  | named h hname hrest => simp only [h, if_pos hname, hrest.qualifiedRest_eq]
  | bare h =>
    split
    · rfl
    · rename_i t us hsig
      rw [if_neg (h t us hsig)]

/-! ### Waiting comments -/

/-- The documentation comment that waits for a constant behind a token, where
`doc` waits in front of it. -/
def Token.waiting (t : Token) (doc : Option Text) : Option Text :=
  match t.kind with
  | .docComment => some (Comment.inner t.text)
  | .comment => doc
  | .at => doc
  | _ => none

/-- The reader of constants goes on behind a token that covers nothing. -/
theorem Constant.ofTokens_waiting {t : Token} (hat : t.kind ≠ .at) (hident : t.kind ≠ .ident)
    (hsemicolon : t.kind ≠ .semicolon) (body : Text) (doc : Option Text) (ts : List Token) :
    Constant.ofTokens body doc (t :: ts) = Constant.ofTokens body (t.waiting doc) ts := by
  rw [Constant.ofTokens, Token.waiting]
  split <;> simp_all

/-! ### Outlines -/

/-- Every list of tokens has an outline. -/
theorem exists_outline (ts : List Token) : ∃ items, Outline ts items := by
  induction hn : ts.length using Nat.strongRecOn generalizing ts with
  | ind n ih =>
    -- what an annotation or a constant covers is a suffix of the tokens behind it
    rcases ts with _ | ⟨t, ts⟩
    · exact ⟨[], .nil⟩
    rw [List.length_cons] at hn
    by_cases hat : t.kind = .at
    · obtain ⟨rest, h⟩ := exists_annotation ts
      have hle := Constant.annotationRest_length_le ts
      rw [h.annotationRest_eq] at hle
      obtain ⟨items, hitems⟩ := ih rest.length (by omega) rest rfl
      exact ⟨_, .annotated hat h hitems⟩
    by_cases hident : t.kind = .ident
    · obtain ⟨arguments, mid, harguments⟩ := exists_group .openParen .closeParen (by decide) ts
      obtain ⟨classBody, rest, hbody⟩ := exists_group .openBrace .closeBrace (by decide) mid
      have hmid := Constant.readArguments_length_le [] ts
      have hrest := Constant.classBodyRest_length_le mid
      simp only [harguments.readArguments_eq] at hmid
      rw [hbody.classBodyRest_eq] at hrest
      obtain ⟨items, hitems⟩ := ih rest.length (by omega) rest rfl
      exact ⟨_, .constant hident harguments hbody hitems⟩
    · obtain ⟨items, hitems⟩ := ih ts.length (by omega) ts rfl
      exact ⟨_, .other hat hident hitems⟩

/-- A list of tokens has no two outlines. -/
theorem Outline.unique {items items' : List Item} (h : Outline ts items) (h' : Outline ts items') :
    items' = items := by
  induction h generalizing items' with
  | nil =>
    cases h'
    rfl
  | annotated ht h _ ih =>
    cases h' with
    | annotated _ h' hrest =>
      obtain rfl := h.annotationRest_eq.symm.trans h'.annotationRest_eq
      rw [ih hrest]
    | constant ht' => exact absurd (ht.symm.trans ht') (by decide)
    | other hat => exact absurd ht hat
  | constant ht harguments hbody _ ih =>
    cases h' with
    | annotated ht' => exact absurd (ht.symm.trans ht') (by decide)
    | constant _ harguments' hbody' hrest =>
      have hmid := (harguments.readArguments_eq []).symm.trans (harguments'.readArguments_eq [])
      obtain ⟨-, rfl⟩ := Prod.mk.inj hmid
      obtain rfl := hbody.classBodyRest_eq.symm.trans hbody'.classBodyRest_eq
      rw [ih hrest]
    | other _ hident => exact absurd ht hident
  | other hat hident _ ih =>
    cases h' with
    | annotated ht => exact absurd ht hat
    | constant ht => exact absurd ht hident
    | other _ _ hrest => rw [ih hrest]

end

end EnumTables
