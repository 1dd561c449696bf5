/-
The document of printed enums is the document of the enums.

Behind the header of a printed enum the search finds a body without keywords,
so the next header is that of the next enum; and the braces of the body match
up, so it ends where it was printed to end.

* **`Enumeration.lexFrom_header`** — the tokens of a printed header are a header;
* **`Enumeration.all_print_append`** — the search behind one printed enum;
* **`all_print`** — the headers of a printed text are those of its enums;
* **`declarations_print`** — and so are the declarations;
* **`document_print`** — from printed text to tables.
-/
import EnumTables.Proofs.Printed.Constants

namespace EnumTables

/-- A token of a clause ends in front of a character that continues no
word. -/
theorem Lexer.Cuts.append_of_clauseToken {c : Char} {w rest b : Text} {k : TokenKind} {n : Nat}
    (h : Cuts c w k rest) (ht : Header.ClauseToken (Token.atByte n k (c :: w)))
    (hb : Text.Stops isWordChar b) : Cuts c w k (rest ++ b) := by
  have hcomment : k.isComment = false := ht.isComment_eq_false
  have hliteral : k ≠ .literal := ht.ne_literal
  -- of the forms that a clause may hold only a word looks at what follows
  cases h with
  | sign h => exact .sign h
  | word hc hfront hrest => exact .word hc hfront (Text.stops_append hrest hb)
  | lone h => exact .lone h
  | slash h => simp [Header.ClauseToken, Token.atByte] at ht
  | block h =>
    rw [isComment_blockKind] at hcomment
    exact absurd hcomment (by decide)
  | line _ _ => exact absurd hcomment (by decide)
  | textBlock _ => exact absurd rfl hliteral
  | string _ _ => exact absurd rfl hliteral
  | character _ => exact absurd rfl hliteral
  | number _ _ _ => exact absurd rfl hliteral

theorem seam_of_clauseTokens {cs rest : Text} {n : Nat}
    (h : ∀ t ∈ lexFrom n cs, Header.ClauseToken t) (hrest : Text.Stops isWordChar rest) :
    Seam cs rest := by
  induction cs using lex_induction generalizing n with
  | blank gap hgap => exact seam_of_blank hgap rest
  | token gap c w k rest' hgap hc hcuts ih =>
    rw [lexFrom_token hgap hc hcuts] at h
    refine seam_of_cuts hgap hc hcuts ?_ (ih fun t ht => h t (List.mem_cons_of_mem _ ht))
    exact hcuts.append_of_clauseToken (h _ List.mem_cons_self) hrest

namespace Printed

theorem printInterfaces_stops (l : Layout) (interfaces : Option Clause) :
    Text.Stops isWordChar (printInterfaces l interfaces) := by
  cases interfaces with
  | none => exact Text.stops_nil _
  | some clause => exact l.space_stops _

/-- The tokens of a printed clause are a clause. -/
theorem lexFrom_printInterfaces (l : Layout) (interfaces : Option Clause) {rest : Text}
    (hrest : Text.Stops isWordChar rest) (n : Nat) :
    ∃ clause, Header.Clause clause ∧ (∀ t ∈ clause, t.isSignificant = true) ∧
      lexFrom n (printInterfaces l interfaces ++ rest) =
        clause ++ lexFrom (n + Text.size (printInterfaces l interfaces)) rest := by
  cases interfaces with
  | none => exact ⟨[], .none, by simp, rfl⟩
  | some clause =>
    have hprint : printInterfaces l (some clause) ++ rest =
        l.space ++ ('i' :: ("mplements".toList ++ (l.space ++ (clause.text ++ rest)))) := by
      simp [printInterfaces, printOption]
    have hclause : ∀ m, ∀ t ∈ lexFrom m clause.text, Header.ClauseToken t := by
      intro m t ht
      rw [lexFrom_eq_map_lex] at ht
      obtain ⟨u, hu, rfl⟩ := List.mem_map.mp ht
      exact clause.tokens u hu
    have hword : ∀ m more, lexFrom m ('i' :: ("mplements".toList ++ (l.space ++ more))) =
        Token.atByte m .ident "implements".toList ::
          lexFrom (m + Text.size "implements".toList) (l.space ++ more) := fun m more =>
      lexFrom_word (by decide +kernel) (by decide +kernel) (l.space_stops more) m
    have hsize : n + Text.size (printInterfaces l (some clause)) =
        n + Text.size l.space + Text.size "implements".toList + Text.size l.space +
          Text.size clause.text := by
      simp only [printInterfaces, printOption, Text.size_append]
      omega
    rw [hprint, lexFrom_blank_append l.space_blank, hword, lexFrom_blank_append l.space_blank,
      seam_of_clauseTokens (hclause 0) hrest, hsize]
    refine ⟨_, .some ?_ (hclause _), ?_, List.cons_append.symm⟩
    · rfl
    · intro t ht
      rcases List.mem_cons.mp ht with rfl | ht
      · rfl
      · exact Header.ClauseToken.isSignificant (hclause _ t ht)

/-- The tokens of a printed header are a header. -/
theorem Enumeration.lexFrom_header (l : Layout) (e : Enumeration) (n : Nat) (rest : Text) :
    ∃ name brace hs, Header.Spells ⟨name, brace⟩ hs ∧ name.text = e.name.text ∧
      brace.stop = n + Text.size (e.header l) ∧ (∀ t ∈ hs, t.isSignificant = true) ∧
      lexFrom n (e.header l ++ rest) = hs ++ lexFrom (n + Text.size (e.header l)) rest := by
  have hopener : Lexer.signKind? '{' = some .openBrace := rfl
  have hbrace : Text.Stops isWordChar (l.pad ++ '{' :: rest) := l.pad_stops (by decide +kernel) rest
  have hkeyword : ∀ more, lexFrom n ('e' :: ("num".toList ++ (l.space ++ more))) =
      Token.atByte n .ident "enum".toList ::
        lexFrom (n + Text.size "enum".toList) (l.space ++ more) := fun more =>
    lexFrom_word (by decide +kernel) (by decide +kernel) (l.space_stops more) n
  have hprint : e.header l ++ rest = 'e' :: ("num".toList ++ (l.space ++ (e.name.text ++
      (printInterfaces l e.interfaces ++ (l.pad ++ '{' :: rest))))) := by
    simp [header]
  obtain ⟨clause, hclause, hsignificant, hlex⟩ := lexFrom_printInterfaces l e.interfaces hbrace
    (n + Text.size "enum".toList + Text.size l.space + Text.size e.name.text)
  have hsize : n + Text.size (e.header l) =
      n + Text.size "enum".toList + Text.size l.space + Text.size e.name.text +
        Text.size (printInterfaces l e.interfaces) + Text.size l.pad + Text.size ['{'] := by
    simp only [header, Text.size_append]
    omega
  rw [hprint, hkeyword, lexFrom_blank_append l.space_blank,
    e.name.lexFrom_text (Text.stops_append (printInterfaces_stops l e.interfaces) hbrace), hlex,
    lexFrom_blank_append l.pad_blank, lexFrom_sign hopener, hsize]
  refine ⟨Token.atByte (n + Text.size "enum".toList + Text.size l.space) .ident e.name.text,
    Token.atByte _ .openBrace ['{'], Token.atByte n .ident "enum".toList :: _ :: (clause ++ [_]),
    .intro rfl rfl hclause rfl, rfl, rfl, ?_, ?_⟩
  · intro t ht
    simp only [List.mem_cons, List.mem_append, List.not_mem_nil, or_false] at ht
    rcases ht with rfl | rfl | ht | rfl
    · rfl
    · rfl
    · exact hsignificant t ht
    · rfl
  · simp only [List.cons_append, List.append_assoc, List.nil_append]

/-- The tokens of a body in front of its closing brace that are no comments. -/
theorem Enumeration.significant_body (l : Layout) (e : Enumeration) (n : Nat) :
    Balanced .openBrace .closeBrace ((lexFrom n (e.body l)).filter Token.isSignificant) ∧
      Keywordless ((lexFrom n (e.body l)).filter Token.isSignificant) := by
  refine ⟨((e.body_piece l).braces.lexFrom n).filter ?_ ?_, ?_⟩
  · intro t ht
    rw [Token.isSignificant, ht]
    rfl
  · intro t ht
    rw [Token.isSignificant, ht]
    rfl
  · intro t ht
    exact (e.body_piece l).keywordless.lexFrom n t (List.mem_filter.mp ht).1

/-- **One printed enum.**  The search finds its header, whose body ends where
it was printed to end, and then whatever stands behind the enum. -/
theorem Enumeration.all_print_append (l : Layout) (e : Enumeration) (n : Nat) (rest : Text) :
    ∃ header ts, Header.all ((lexFrom n (e.print l ++ rest)).filter Token.isSignificant) =
        (header, ts) ::
          Header.all ((lexFrom (n + Text.size (e.print l)) rest).filter Token.isSignificant) ∧
      header.name.text = e.name.text ∧
      header.openBrace.stop = n + Text.size (e.header l) ∧
      ∀ limit, groupEnd .openBrace .closeBrace limit ts =
        n + Text.size (e.header l) + Text.size (e.body l) := by
  have hcloser : Lexer.signKind? '}' = some .closeBrace := rfl
  have hprint : e.print l ++ rest = e.header l ++ (e.body l ++ '}' :: rest) := by
    simp [print]
  have hsize : n + Text.size (e.print l) =
      n + Text.size (e.header l) + Text.size (e.body l) + Text.size ['}'] := by
    simp only [print, Text.size_append]
    omega
  have hseam : Seam (e.body l) ('}' :: rest) :=
    (e.body_piece l).seam _ (Text.stops_cons.mpr (by decide))
  obtain ⟨name, brace, hs, hspells, hname, hstop, hsignificant, hlex⟩ :=
    e.lexFrom_header l n (e.body l ++ '}' :: rest)
  obtain ⟨hbraces, hkeywordless⟩ := e.significant_body l (n + Text.size (e.header l))
  -- the tokens behind the header: the body, its closing brace and the rest
  rw [hprint, hlex, hseam, lexFrom_sign hcloser, ← hsize, List.filter_append,
    List.filter_eq_self.mpr hsignificant, List.filter_append, List.filter_cons_of_pos rfl,
    Header.all_of_find?_eq_some (hspells.find?_eq _)]
  refine ⟨⟨name, brace⟩, _, congrArg _ ?_, hname, hstop, ?_⟩
  · rw [Header.all_append_of_keywordless hkeywordless, ← List.singleton_append,
      Header.all_append_of_keywordless]
    exact Keywordless.cons (show TokenKind.closeBrace ≠ .ident by decide) Keywordless.nil
  · intro limit
    rw [groupEnd, hbraces.closeGroup_eq (by decide) rfl]
    rfl

/-- **The headers of a printed text are those of its enums.**  The text may
stand behind another one. -/
theorem all_print (l : Layout) (es : List Enumeration) (pre : Text) :
    (Header.all ((lexFrom (Text.size pre) (print l es)).filter Token.isSignificant)).map
        (fun h => h.1.declaration (pre ++ print l es) h.2) =
      es.map fun e k => ⟨e.name.text, e.body l, k⟩ := by
  induction es generalizing pre with
  | nil =>
    have hblank : print l [] = l.line := rfl
    rw [hblank, lexFrom_of_blank l.line_blank, List.filter_nil, Header.all_of_find?_eq_none rfl]
    rfl
  | cons e es ih =>
    have hprint : print l (e :: es) = l.line ++ (e.print l ++ print l es) := by
      simp [print]
    obtain ⟨header, ts, hall, hname, hstart, hstop⟩ := e.all_print_append l
      (Text.size pre + Text.size l.line) (print l es)
    -- the other enums stand behind all of this one
    have hnext := ih (pre ++ l.line ++ e.print l)
    have hsource : pre ++ l.line ++ e.print l ++ print l es = pre ++ print l (e :: es) := by
      rw [hprint]
      simp
    rw [hsource] at hnext
    simp only [Text.size_append] at hnext
    have hbody : Text.slice (pre ++ print l (e :: es)) header.openBrace.stop
        (groupEnd .openBrace .closeBrace (Text.size (pre ++ print l (e :: es))) ts) = e.body l := by
      have hslice := Text.slice_append (pre ++ l.line ++ e.header l) (e.body l)
        ('}' :: print l es)
      simp only [Text.size_append] at hslice
      rw [hstart, hstop, hprint, Enumeration.print]
      simpa using hslice
    rw [hprint, lexFrom_blank_append l.line_blank, hall, ← hprint, List.map_cons, hnext,
      List.map_cons]
    refine congrArg₂ List.cons ?_ rfl
    funext k
    rw [Header.declaration, hname, hbody]

theorem declarations_print (l : Layout) (es : List Enumeration) :
    declarations (print l es) = es.mapIdx fun k e => ⟨e.name.text, e.body l, k⟩ := by
  have hall := all_print l es []
  rw [declarations_eq]
  refine List.ext_getElem? fun k => ?_
  have hk := congrArg (fun ds => ds[k]?.map (· k)) hall
  simp only [List.getElem?_map, Option.map_map] at hk
  rw [List.getElem?_mapIdx, List.getElem?_mapIdx]
  exact hk

/-- The documented constants that are read off a printed body. -/
theorem Enumeration.documentedOf_print (l : Layout) (e : Enumeration) :
    documentedOf (EnumTables.Constant.ofBody (e.body l)) = e.documented := by
  rw [e.ofBody_print l, documentedOf, List.zipIdx_map, List.filterMap_map]
  refine List.filterMap_congr ?_
  rintro ⟨c, i⟩ -
  rcases hdoc : c.doc with _ | doc <;>
    simp [DocumentedConstant.ofConstant?, Constant.declared, hdoc]

/-- A documented constant has the row of its constant. -/
theorem Constant.row?_eq (c : Constant) (i : Nat) :
    c.row? = (c.doc.map fun doc =>
      DocumentedConstant.mk c.name.text (c.arguments.map Arguments.text) doc.text i).map
        Row.ofConstant := by
  have hvalue : ∀ doc : Doc, c.value =
      (DocumentedConstant.mk c.name.text (c.arguments.map Arguments.text) doc.text i).value := by
    intro doc
    rw [value, DocumentedConstant.value_eq, Option.map_map]
    rfl
  rw [row?, Option.map_map]
  refine Option.map_congr fun doc _ => ?_
  rw [hvalue doc]
  rfl

theorem Enumeration.map_row_documented (e : Enumeration) :
    e.documented.map Row.ofConstant = e.constants.filterMap Constant.row? := by
  have hfst := List.zipIdx_map_fst 0 e.constants
  rw [documented, List.map_filterMap]
  nth_rewrite 2 [← hfst]
  rw [List.filterMap_map]
  refine List.filterMap_congr ?_
  rintro ⟨c, i⟩ -
  exact (c.row?_eq i).symm

/-- The table of a printed enum is the table of the enum. -/
theorem Enumeration.table?_print (l : Layout) (e : Enumeration) (k : Nat) :
    (Declaration.mk e.name.text (e.body l) k).table? = e.table? := by
  have hrows := e.map_row_documented
  rw [Declaration.table?, Declaration.constants, e.documentedOf_print l, table?, ← hrows]
  cases e.documented with
  | nil => rfl
  | cons d ds =>
    simp only [Table.ofConstants?, Schema.ofConstants, List.map_cons, List.any_cons, List.any_map]
    rfl

/-- What is made of each declaration of a printed text, if its place does not
matter. -/
theorem map_declarations_print {α : Type} (l : Layout) (es : List Enumeration)
    {f : Declaration → α} {g : Enumeration → α}
    (h : ∀ e k, f ⟨e.name.text, Enumeration.body l e, k⟩ = g e) :
    (declarations (print l es)).map f = es.map g := by
  rw [declarations_print]
  refine List.ext_getElem? fun k => ?_
  rw [List.getElem?_map, List.getElem?_mapIdx, List.getElem?_map, Option.map_map]
  exact Option.map_congr fun e _ => h e k

/-- **Printed enums are read back.**  The declarations of the text are the
enums, in order; the constants of each are those that were printed, each with
its own comment and arguments, and the documented ones know their places; and
the document has the table of each enum that has documented constants. -/
theorem document_print (l : Layout) (es : List Enumeration) (file : Text) :
    declarations (print l es) = es.mapIdx (fun k e => ⟨e.name.text, e.body l, k⟩) ∧
    (declarations (print l es)).map Declaration.constants =
      es.map (fun e => e.constants.map Constant.declared) ∧
    (declarations (print l es)).map (fun d => documentedOf d.constants) =
      es.map Enumeration.documented ∧
    SourceFile.document ⟨file, print l es⟩ = ⟨file, es.filterMap Enumeration.table?⟩ := by
  refine ⟨declarations_print l es, ?_, ?_, ?_⟩
  · exact map_declarations_print l es fun e _ => e.ofBody_print l
  · exact map_declarations_print l es fun e _ => e.documentedOf_print l
  · have htables := map_declarations_print l es fun e k => e.table?_print l k
    have hsome := congrArg (List.filterMap id) htables
    rw [List.filterMap_map, List.filterMap_map] at hsome
    exact congrArg (Document.mk file) hsome

/-- An enum with every part that can be printed. -/
def sample : Enumeration where
  name := ⟨'E', [], by decide +kernel, by decide, by decide⟩
  interfaces := some ⟨"a.I<?>".toList, by decide +kernel, by decide +kernel⟩
  constants := [
    { doc := some ⟨" one\n * \x7b ".toList, by decide, by decide⟩
      annotations := [⟨⟨'D', [], by decide +kernel, by decide, by decide⟩, [],
        some ⟨"\")\"".toList, ⟨⟨.closeParen, [')'], 3, 4⟩, rfl, by decide +kernel⟩,
          by decide +kernel, by decide +kernel, by decide +kernel⟩⟩]
      name := ⟨'A', [], by decide +kernel, by decide, by decide⟩
      arguments := some ⟨" (1) ".toList, ⟨⟨.closeParen, [')'], 5, 6⟩, rfl, by decide +kernel⟩,
        by decide +kernel, by decide +kernel, by decide +kernel⟩
      classBody := some ⟨"\x7b\x7d //\n".toList,
        ⟨⟨.closeBrace, ['}'], 6, 7⟩, rfl, by decide +kernel⟩, by decide +kernel, by decide +kernel⟩ },
    { doc := none
      annotations := []
      name := ⟨'B', [], by decide +kernel, by decide, by decide⟩
      arguments := none
      classBody := none }]
  members := some ⟨" int x; ".toList, ⟨⟨.closeBrace, ['}'], 8, 9⟩, rfl, by decide +kernel⟩,
    by decide +kernel, by decide +kernel⟩

/-- One blank in every place. -/
def spaced : Layout :=
  ⟨[' '], [' '], [' '], by decide, by decide, by decide, by decide⟩

theorem document_print_sample :
    print spaced [sample] =
      " enum E implements a.I<?> \x7b /** one\n * \x7b */ @D(\")\") A( (1) ) ".toList ++
        "\x7b\x7b\x7d //\n\x7d , B ; int x; \x7d ".toList ∧
    SourceFile.document ⟨['f'], print spaced [sample]⟩ =
      ⟨['f'], [⟨['E'], .namedValued, [⟨['A'], some "(1)".toList, "one \x7b".toList⟩]⟩]⟩ := by
  refine ⟨by decide +kernel, ?_⟩
  rw [(document_print spaced [sample] ['f']).2.2.2]
  decide +kernel

end Printed

end EnumTables
