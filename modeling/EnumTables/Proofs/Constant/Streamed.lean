/-
Constants read from a cursor.

The reader of constants works on the list of all tokens of a body.  Here it is
written once more on a cursor, which looks at the next significant token before it
reads it.  What an annotation, an argument list and a class body cover is skipped by
moving the cursor, and each of these leaves the tokens that its reader on the list
leaves:

* **`Cursor.tokens_qualifiedRest`**, **`Cursor.tokens_annotationRest`**,
  **`Cursor.readArguments_eq`** and **`Cursor.tokens_classBodyRest`** — one statement
  for each reader;
* **`Cursor.constantsFrom_eq`** — all constants of a body.
-/
import EnumTables.Proofs.Constant.Outline
import EnumTables.Proofs.Token.Remaining

namespace EnumTables

namespace Cursor

/-- Skips the rest of a qualified name and an optional argument list. -/
def qualifiedRest (c : Cursor) : Cursor :=
  match _h : c.peekSignificant with
  | none => c
  | some t =>
    if t.kind = .other ∧ t.text = ['.'] then
      qualifiedRest c.nextSignificant.2.nextSignificant.2
    else if t.kind = .openParen then (c.nextSignificant.2.closeGroup .openParen .closeParen).2
    else c
termination_by c.rest.length
decreasing_by
  exact (nextSignificant_reaches _).length_le.trans_lt (length_lt_of_peekSignificant _h)

/-- Skips what belongs to an annotation whose `@` has been read. -/
def annotationRest (c : Cursor) : Cursor :=
  match c.peekSignificant with
  | none => c
  | some t => if t.kind = .ident then c.nextSignificant.2.qualifiedRest else c

/-- Reads an optional argument list, and gives the text in its parentheses. -/
def readArguments (c : Cursor) : Option Text × Cursor :=
  match c.peekSignificant with
  | none => (none, c)
  | some t =>
    if t.kind = .openParen then
      let (closer, d) := c.nextSignificant.2.closeGroup .openParen .closeParen
      let stop := closer.elim (Text.size c.source) Token.start
      (some (Text.slice c.source t.stop stop), d)
    else (none, c)

/-- Skips an optional class body. -/
def classBodyRest (c : Cursor) : Cursor :=
  match c.peekSignificant with
  | none => c
  | some t =>
    if t.kind = .openBrace then (c.nextSignificant.2.closeGroup .openBrace .closeBrace).2 else c

/-! ### Skipping goes on in the same text -/

theorem qualifiedRest_reaches (c : Cursor) : c.Reaches c.qualifiedRest := by
  fun_induction qualifiedRest c with
  | case1 c h => exact Reaches.refl c
  | case2 c t h hdot ih =>
    exact (nextSignificant_reaches c).trans ((nextSignificant_reaches _).trans ih)
  | case3 c t h hdot hopen =>
    exact (nextSignificant_reaches c).trans (closeGroup_leads _ _ _).reaches
  | case4 c t h hdot hopen => exact Reaches.refl c

theorem annotationRest_reaches (c : Cursor) : c.Reaches c.annotationRest := by
  rw [annotationRest]
  split
  · exact Reaches.refl c
  · split_ifs
    · exact (nextSignificant_reaches c).trans (qualifiedRest_reaches _)
    · exact Reaches.refl c

theorem readArguments_reaches (c : Cursor) : c.Reaches c.readArguments.2 := by
  rw [readArguments]
  split
  · exact Reaches.refl c
  · split_ifs
    · exact (nextSignificant_reaches c).trans (closeGroup_leads _ _ _).reaches
    · exact Reaches.refl c

theorem classBodyRest_reaches (c : Cursor) : c.Reaches c.classBodyRest := by
  rw [classBodyRest]
  split
  · exact Reaches.refl c
  · split_ifs
    · exact (nextSignificant_reaches c).trans (closeGroup_leads _ _ _).reaches
    · exact Reaches.refl c

/-- The constants still to come, where `doc` is the comment that waits for one. -/
def constantsFrom (doc : Option Text) (c : Cursor) : List Constant :=
  match _h : c.next with
  | (none, _) => []
  | (some t, d) =>
    match t.kind with
    | .docComment => constantsFrom (some (Comment.inner t.text)) d
    | .comment => constantsFrom doc d
    | .at => constantsFrom doc d.annotationRest
    | .ident =>
      let arguments := d.readArguments.1
      let rest := d.readArguments.2.classBodyRest
      ⟨doc, t.text, arguments⟩ :: constantsFrom none rest
    | .semicolon => []
    | _ => constantsFrom none d
termination_by c.rest.length
decreasing_by
  all_goals have hlt := next?_length_lt (next?_of_next _h)
  all_goals try exact hlt
  · exact (annotationRest_reaches d).length_le.trans_lt hlt
  · exact ((readArguments_reaches d).trans (classBodyRest_reaches _)).length_le.trans_lt hlt

/-! ### Each reader on the tokens still to come -/

theorem tokens_qualifiedRest (c : Cursor) :
    c.qualifiedRest.tokens = Constant.qualifiedRest c.tokens := by
  fun_induction qualifiedRest c with
  | case1 c h =>
    have hnone := (significant?_of_none (nextSignificant_of_peekSignificant h)).1
    rw [Thinned.qualifiedRest_eq, hnone]
  | case2 c t h hdot ih =>
    have hsome := significant?_of_some (nextSignificant_of_peekSignificant h)
    rw [Thinned.qualifiedRest_eq, hsome, ih]
    simp only [if_pos hdot]
    -- behind the dot there may be no token left
    cases hname : c.nextSignificant.2.nextSignificant with
    | mk name? d =>
      rcases name? with _ | name
      · obtain ⟨hnone, htokens⟩ := significant?_of_none hname
        rw [hnone, htokens, Thinned.qualifiedRest_eq]
        rfl
      · rw [significant?_of_some hname]
  | case3 c t h hdot hopen =>
    have hsome := significant?_of_some (nextSignificant_of_peekSignificant h)
    rw [Thinned.qualifiedRest_eq, hsome]
    simp only [if_neg hdot, if_pos hopen]
    exact congrArg Prod.snd (closeGroup_eq _ _ _)
  | case4 c t h hdot hopen =>
    have hsome := significant?_of_some (nextSignificant_of_peekSignificant h)
    rw [Thinned.qualifiedRest_eq, hsome]
    simp only [if_neg hdot, if_neg hopen]

theorem tokens_annotationRest (c : Cursor) :
    c.annotationRest.tokens = Constant.annotationRest c.tokens := by
  rw [annotationRest, Constant.annotationRest]
  cases h : c.peekSignificant with
  | none => rw [(significant?_of_none (nextSignificant_of_peekSignificant h)).1]
  | some t =>
    rw [significant?_of_some (nextSignificant_of_peekSignificant h)]
    by_cases hident : t.kind = .ident
    · simp only [if_pos hident]
      exact tokens_qualifiedRest _
    · simp only [if_neg hident]

theorem readArguments_eq (c : Cursor) :
    (c.readArguments.1, c.readArguments.2.tokens) = Constant.readArguments c.source c.tokens := by
  rw [readArguments, Constant.readArguments]
  cases h : c.peekSignificant with
  | none => rw [(significant?_of_none (nextSignificant_of_peekSignificant h)).1]
  | some t =>
    rw [significant?_of_some (nextSignificant_of_peekSignificant h)]
    by_cases hopen : t.kind = .openParen
    · have hgroup := closeGroup_eq .openParen .closeParen c.nextSignificant.2
      simp only [if_pos hopen, groupEnd_eq_elim, ← hgroup]
    · simp only [if_neg hopen]

theorem tokens_classBodyRest (c : Cursor) :
    c.classBodyRest.tokens = Constant.classBodyRest c.tokens := by
  rw [classBodyRest, Constant.classBodyRest]
  cases h : c.peekSignificant with
  | none => rw [(significant?_of_none (nextSignificant_of_peekSignificant h)).1]
  | some t =>
    rw [significant?_of_some (nextSignificant_of_peekSignificant h)]
    by_cases hopen : t.kind = .openBrace
    · simp only [if_pos hopen]
      exact congrArg Prod.snd (closeGroup_eq _ _ _)
    · simp only [if_neg hopen]

/-- **The constants read from a cursor** are those among the tokens still to
come. -/
theorem constantsFrom_eq (doc : Option Text) (c : Cursor) :
    c.constantsFrom doc = Constant.ofTokens c.source doc c.tokens := by
  have htoken : ∀ {c d : Cursor} {t : Token}, c.next = (some t, d) →
      c.tokens = t :: d.tokens ∧ d.source = c.source := by
    intro c d t h
    have hnext := next?_of_next h
    exact ⟨tokens_of_next?_eq_some hnext, (next?_reaches hnext).1.1⟩
  fun_induction constantsFrom doc c with
  | case1 doc c d h =>
    have hhead := congrArg Prod.fst (next_eq c)
    rw [h] at hhead
    rw [List.head?_eq_none_iff.mp hhead.symm, Constant.ofTokens]
  | case2 doc c t d h hkind ih =>
    obtain ⟨htokens, hsource⟩ := htoken h
    rw [htokens, ← hsource, Constant.ofTokens_docComment hkind, ih]
  | case3 doc c t d h hkind ih =>
    obtain ⟨htokens, hsource⟩ := htoken h
    rw [htokens, ← hsource, Constant.ofTokens_waiting (by simp [hkind]) (by simp [hkind])
      (by simp [hkind]), Token.waiting, hkind, ih]
  | case4 doc c t d h hkind ih =>
    obtain ⟨htokens, hsource⟩ := htoken h
    rw [htokens, ← hsource, Constant.ofTokens_at hkind, ih, tokens_annotationRest,
      (annotationRest_reaches d).1]
  | case5 doc c t d h hkind arguments rest ih =>
    obtain ⟨htokens, hsource⟩ := htoken h
    have hrest : d.Reaches rest := (readArguments_reaches d).trans (classBodyRest_reaches _)
    rw [htokens, ← hsource, Constant.ofTokens_ident hkind, ← readArguments_eq d, ih, hrest.1,
      tokens_classBodyRest]
  | case6 doc c t d h hkind =>
    obtain ⟨htokens, -⟩ := htoken h
    rw [htokens, Constant.ofTokens_semicolon hkind]
  | case7 doc c t d h hdoc hcomment hat hident hsemicolon ih =>
    obtain ⟨htokens, hsource⟩ := htoken h
    have hwaiting : t.waiting doc = none := by
      unfold Token.waiting
      split <;> simp_all
    rw [htokens, ← hsource, Constant.ofTokens_waiting hat hident hsemicolon, hwaiting, ih]

/-- The constants of a body, read from the cursor in front of it. -/
theorem constantsFrom_ofText (body : Text) :
    (ofText body).constantsFrom none = Constant.ofBody body :=
  constantsFrom_eq none (ofText body)

end Cursor

end EnumTables
