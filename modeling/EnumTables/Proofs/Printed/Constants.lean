/-
The constants of a printed body are the constants that were printed.

Reading a constant looks ahead: behind a name for an argument list, behind
that for a class body, and inside of an annotation for more of its name.
`Leads` says what a look ahead finds in a text.  The lemmas follow the parts
of a constant from its comment to its class body, each for any text behind
the part, and the tokens left over are those of that text.

* **`readArguments_print`**, **`classBodyRest_print`**, **`qualifiedRest_print`** —
  the optional parts of a constant;
* **`ofTokens_print`** — one constant;
* **`ofBody_print`** — a whole body.
-/
import EnumTables.Proofs.Printed.Pieces

namespace EnumTables

/-- The first token of the text that is no comment is of one of the classes
`ks`, if there is one. -/
def Leads (ks : List TokenKind) (cs : Text) : Prop :=
  ∀ n t us, significant? (lexFrom n cs) = some (t, us) → t.kind ∈ ks

theorem significant?_cons {t : Token} {ts : List Token} (h : t.kind.isComment = false) :
    significant? (t :: ts) = some (t, ts) := by
  rw [significant?, Token.isSignificant, h]
  rfl

namespace Leads

variable {ks : List TokenKind} {cs : Text}

theorem of_blank (h : Text.Blank cs) : Leads ks cs := by
  intro n t us hsig
  rw [lexFrom_of_blank h] at hsig
  simp [significant?] at hsig

theorem blank_append {gap : Text} (hgap : Text.Blank gap) (h : Leads ks cs) :
    Leads ks (gap ++ cs) := by
  intro n t us hsig
  rw [lexFrom_blank_append hgap] at hsig
  exact h _ t us hsig

theorem of_cons {c : Char} {cs : Text} {k : TokenKind} {w : Text} {us : Nat → List Token}
    (h : ∀ n, lexFrom n (c :: cs) = Token.atByte n k (c :: w) :: us n) (hk : k ∈ ks)
    (hcomment : k.isComment = false) : Leads ks (c :: cs) := by
  intro n t vs hsig
  rw [h, significant?_cons hcomment] at hsig
  rw [← (Prod.mk.inj (Option.some.inj hsig)).1]
  exact hk

theorem mono {ks' : List TokenKind} (h : Leads ks cs) (hks : ks ⊆ ks') : Leads ks' cs :=
  fun n t us hsig => hks (h n t us hsig)

theorem sign {c : Char} {k : TokenKind} (h : Lexer.signKind? c = some k) (hk : k ∈ ks)
    (hcomment : k.isComment = false) (rest : Text) : Leads ks (c :: rest) :=
  of_cons (fun n => lexFrom_sign h n rest) hk hcomment

end Leads

namespace Constant

variable {ks : List TokenKind} {cs : Text}

theorem readArguments_of_leads (h : Leads ks cs) (hks : .openParen ∉ ks) (body : Text) (n : Nat) :
    readArguments body (lexFrom n cs) = (none, lexFrom n cs) := by
  rw [readArguments]
  split
  · rfl
  · rename_i t us hsig
    have hkind : t.kind ≠ .openParen := by
      intro hkind
      exact hks (hkind ▸ h n t us hsig)
    rw [if_neg hkind]

theorem classBodyRest_of_leads (h : Leads ks cs) (hks : .openBrace ∉ ks) (n : Nat) :
    classBodyRest (lexFrom n cs) = lexFrom n cs := by
  rw [classBodyRest]
  split
  · rfl
  · rename_i t us hsig
    have hkind : t.kind ≠ .openBrace := by
      intro hkind
      exact hks (hkind ▸ h n t us hsig)
    rw [if_neg hkind]

theorem qualifiedRest_of_leads (h : Leads ks cs) (hparen : .openParen ∉ ks) (hother : .other ∉ ks)
    (n : Nat) : qualifiedRest (lexFrom n cs) = lexFrom n cs := by
  rw [qualifiedRest]
  split
  · rfl
  · rename_i t us hsig
    have hmem := h n t us hsig
    have hdot : ¬ (t.kind = .other ∧ t.text = ['.']) := by
      rintro ⟨hkind, -⟩
      exact hother (hkind ▸ hmem)
    have hkind : t.kind ≠ .openParen := by
      intro hkind
      exact hparen (hkind ▸ hmem)
    rw [if_neg hdot, if_neg hkind]

section

variable {body : Text} {doc : Option Text} {t : Token} {ts : List Token}

theorem readArguments_group {u : Token} {inner : List Token} (ht : t.kind = .openParen)
    (hinner : Balanced .openParen .closeParen inner) (hu : u.kind = .closeParen) :
    readArguments body (t :: (inner ++ u :: ts)) =
      (some (Text.slice body t.stop u.start), ts) := by
  have hclose := hinner.closeGroup_eq (by decide) hu ts
  rw [readArguments, significant?_cons (by rw [ht]; rfl)]
  simp only [if_pos ht, groupEnd, hclose]

theorem classBodyRest_group {u : Token} {inner : List Token} (ht : t.kind = .openBrace)
    (hinner : Balanced .openBrace .closeBrace inner) (hu : u.kind = .closeBrace) :
    classBodyRest (t :: (inner ++ u :: ts)) = ts := by
  rw [classBodyRest, significant?_cons (by rw [ht]; rfl)]
  simp only [if_pos ht, hinner.closeGroup_eq (by decide) hu ts]

/-- One step along a qualified name. -/
theorem qualifiedRest_cons (ht : t.kind.isComment = false) :
    qualifiedRest (t :: ts) =
      if t.kind = .other ∧ t.text = ['.'] then
        match significant? ts with
        | none => []
        | some (_, rest) => qualifiedRest rest
      else if t.kind = .openParen then (closeGroup .openParen .closeParen 0 ts).2
      else t :: ts := by
  have hsig := @significant?_cons t ts ht
  rw [qualifiedRest]
  split
  · rename_i h
    rw [hsig] at h
    exact absurd h (by simp)
  · rename_i u us h
    rw [hsig] at h
    obtain ⟨rfl, rfl⟩ := Prod.mk.inj (Option.some.inj h)
    refine ite_congr rfl (fun _ => ?_) (fun _ => rfl)
    split
    · rename_i h
      rw [h]
    · rename_i h
      rw [h]

theorem qualifiedRest_group {u : Token} {inner : List Token} (ht : t.kind = .openParen)
    (hinner : Balanced .openParen .closeParen inner) (hu : u.kind = .closeParen) :
    qualifiedRest (t :: (inner ++ u :: ts)) = ts := by
  have hdot : ¬ (t.kind = .other ∧ t.text = ['.']) := by
    rw [ht]
    simp
  rw [qualifiedRest_cons (by rw [ht]; rfl), if_neg hdot, if_pos ht,
    hinner.closeGroup_eq (by decide) hu ts]

theorem qualifiedRest_dot {u : Token} (ht : t.kind = .other) (hdot : t.text = ['.'])
    (hu : u.kind.isComment = false) : qualifiedRest (t :: u :: ts) = qualifiedRest ts := by
  rw [qualifiedRest_cons (by rw [ht]; rfl), if_pos ⟨ht, hdot⟩, significant?_cons hu]

theorem annotationRest_ident (ht : t.kind = .ident) :
    annotationRest (t :: ts) = qualifiedRest ts := by
  rw [annotationRest, significant?_cons (by rw [ht]; rfl)]
  simp only [if_pos ht]

theorem ofTokens_docComment (h : t.kind = .docComment) :
    ofTokens body doc (t :: ts) = ofTokens body (some (Comment.inner t.text)) ts := by
  rw [ofTokens]
  simp only [h]

theorem ofTokens_at (h : t.kind = .at) :
    ofTokens body doc (t :: ts) = ofTokens body doc (annotationRest ts) := by
  rw [ofTokens]
  simp only [h]

theorem ofTokens_ident (h : t.kind = .ident) :
    ofTokens body doc (t :: ts) = ⟨doc, t.text, (readArguments body ts).1⟩ ::
      ofTokens body none (classBodyRest (readArguments body ts).2) := by
  rw [ofTokens]
  simp only [h]

theorem ofTokens_comma (h : t.kind = .comma) :
    ofTokens body doc (t :: ts) = ofTokens body none ts := by
  rw [ofTokens]
  simp only [h]

theorem ofTokens_semicolon (h : t.kind = .semicolon) : ofTokens body doc (t :: ts) = [] := by
  rw [ofTokens]
  simp only [h]

end

end Constant

/-- What stands between the delimiters of a documentation comment. -/
theorem Comment.inner_delimited (text : Text) :
    inner ('/' :: '*' :: '*' :: (text ++ ['*', '/'])) = text := by
  have hlead : Text.withoutLead ['/', '*', '*'] ('/' :: '*' :: '*' :: (text ++ ['*', '/'])) =
      text ++ ['*', '/'] := rfl
  have hsuffix : ['*', '/'].isSuffixOf (text ++ ['*', '/']) = true :=
    List.isSuffixOf_iff_suffix.mpr (List.suffix_append _ _)
  rw [inner, hlead, Text.withoutTail, if_pos hsuffix, List.length_append, Nat.add_sub_cancel,
    List.take_left]

namespace Printed

theorem Name.lexFrom_text (name : Name) {rest : Text} (h : Text.Stops isWordChar rest) (n : Nat) :
    lexFrom n (name.text ++ rest) =
      Token.atByte n .ident name.text :: lexFrom (n + Text.size name.text) rest :=
  lexFrom_word name.head_isWordStart name.tail_isWordChar h n

theorem Name.leads {ks : List TokenKind} (name : Name) (hks : .ident ∈ ks) {rest : Text}
    (h : Text.Stops isWordChar rest) : Leads ks (name.text ++ rest) :=
  Leads.of_cons (fun n => name.lexFrom_text h n) hks rfl

theorem Doc.inner_print (doc : Doc) : Comment.inner doc.print = doc.text :=
  Comment.inner_delimited doc.text

/-- An argument list is read as it was printed, and the text behind it is
left. -/
theorem readArguments_print {ks : List TokenKind} {pre rest : Text} (arguments : Option Arguments)
    (hrest : Leads ks rest) (hks : .openParen ∉ ks) :
    EnumTables.Constant.readArguments (pre ++ (printOption Arguments.print arguments ++ rest))
        (lexFrom (Text.size pre) (printOption Arguments.print arguments ++ rest)) =
      (arguments.map Arguments.text,
        lexFrom (Text.size (pre ++ printOption Arguments.print arguments)) rest) := by
  cases arguments with
  | none =>
    rw [printOption, List.nil_append, List.append_nil]
    exact Constant.readArguments_of_leads hrest hks _ _
  | some arguments =>
    have hopener : Lexer.signKind? '(' = some .openParen := rfl
    have hbody : pre ++ (arguments.print ++ rest) =
        pre ++ ['('] ++ arguments.text ++ ')' :: rest := by
      simp [Arguments.print]
    rw [printOption, hbody, Arguments.print, arguments.closable.lexFrom_group hopener rfl,
      Constant.readArguments_group rfl (arguments.parens.lexFrom _) rfl]
    simp only [Token.atByte, ← Text.size_append]
    rw [Text.size_append (pre ++ ['(']), Text.slice_append]
    rfl

/-- A class body is skipped. -/
theorem classBodyRest_print {ks : List TokenKind} {rest : Text} (l : Layout)
    (block : Option Block) (hrest : Leads ks rest) (hks : .openBrace ∉ ks) (n : Nat) :
    EnumTables.Constant.classBodyRest
        (lexFrom n (printOption (fun block => l.pad ++ block.print) block ++ rest)) =
      lexFrom (n + Text.size (printOption (fun block => l.pad ++ block.print) block)) rest := by
  cases block with
  | none => exact Constant.classBodyRest_of_leads hrest hks n
  | some block =>
    have hopener : Lexer.signKind? '{' = some .openBrace := rfl
    rw [printOption, List.append_assoc, lexFrom_blank_append l.pad_blank, Block.print,
      block.closable.lexFrom_group hopener rfl,
      Constant.classBodyRest_group rfl (block.braces.lexFrom _) rfl, Text.size_append,
      Nat.add_assoc]

/-- What stands behind the first word of an annotation is skipped. -/
theorem qualifiedRest_print {ks : List TokenKind} {rest : Text} (names : List Name)
    (arguments : Option Arguments) (hstops : Text.Stops isWordChar rest) (hrest : Leads ks rest)
    (hparen : .openParen ∉ ks) (hother : .other ∉ ks) (n : Nat) :
    EnumTables.Constant.qualifiedRest
        (lexFrom n (printSelectors names ++ (printOption Arguments.print arguments ++ rest))) =
      lexFrom (n + Text.size (printSelectors names ++ printOption Arguments.print arguments))
        rest := by
  induction names generalizing n with
  | nil =>
    cases arguments with
    | none => exact Constant.qualifiedRest_of_leads hrest hparen hother n
    | some arguments =>
      have hopener : Lexer.signKind? '(' = some .openParen := rfl
      have hnone : printSelectors [] = [] := rfl
      rw [hnone, List.nil_append, List.nil_append, printOption, Arguments.print,
        arguments.closable.lexFrom_group hopener rfl,
        Constant.qualifiedRest_group rfl (arguments.parens.lexFrom _) rfl]
  | cons name names ih =>
    have hprint : ∀ cs, printSelectors (name :: names) ++ cs =
        '.' :: ([] ++ (name.text ++ (printSelectors names ++ cs))) := by
      intro cs
      simp [printSelectors]
    have hstops' : Text.Stops isWordChar
        (printSelectors names ++ (printOption Arguments.print arguments ++ rest)) :=
      Text.stops_append (selectors_stops names) (Text.stops_append (arguments_stops _) hstops)
    rw [hprint, lexFrom_cuts (by decide) (dot_cuts _), name.lexFrom_text hstops',
      Constant.qualifiedRest_dot rfl rfl rfl, ih, hprint]
    congr 1
    simp only [List.nil_append, Text.size, Text.size_append]
    omega

section

variable {rest : Text} (body : Text) (doc : Option Text) (n : Nat)

/-- An annotation is skipped, and the comment in front of it waits on. -/
theorem ofTokens_annotation (a : Annotation) (hstops : Text.Stops isWordChar rest)
    (hrest : Leads [.at, .ident] rest) :
    EnumTables.Constant.ofTokens body doc (lexFrom n (a.print ++ rest)) =
      EnumTables.Constant.ofTokens body doc (lexFrom (n + Text.size a.print) rest) := by
  have hat : Lexer.signKind? '@' = some .at := rfl
  have hprint : a.print ++ rest = '@' :: (a.head.text ++
      (printSelectors a.tail ++ (printOption Arguments.print a.arguments ++ rest))) := by
    unfold Annotation.print
    simp
  have hstops' : Text.Stops isWordChar
      (printSelectors a.tail ++ (printOption Arguments.print a.arguments ++ rest)) :=
    Text.stops_append (selectors_stops a.tail) (Text.stops_append (arguments_stops _) hstops)
  rw [hprint, lexFrom_sign hat, Constant.ofTokens_at rfl, a.head.lexFrom_text hstops',
    Constant.annotationRest_ident rfl,
    qualifiedRest_print a.tail a.arguments hstops hrest (by decide) (by decide)]
  congr 2
  unfold Annotation.print
  simp only [Text.size, Text.size_append]
  omega

theorem annotations_leads (l : Layout) (as : List Annotation) (hrest : Leads [.at, .ident] rest) :
    Leads [.at, .ident] (as.flatMap (fun a => a.print ++ l.space) ++ rest) := by
  cases as with
  | nil => exact hrest
  | cons a as =>
    have hat : Lexer.signKind? '@' = some .at := rfl
    rw [List.flatMap_cons, List.append_assoc, List.append_assoc]
    exact Leads.sign hat (by decide) rfl _

theorem ofTokens_annotations (l : Layout) (as : List Annotation)
    (hrest : Leads [.at, .ident] rest) :
    EnumTables.Constant.ofTokens body doc
        (lexFrom n (as.flatMap (fun a => a.print ++ l.space) ++ rest)) =
      EnumTables.Constant.ofTokens body doc
        (lexFrom (n + Text.size (as.flatMap fun a => a.print ++ l.space)) rest) := by
  induction as generalizing n with
  | nil => rfl
  | cons a as ih =>
    -- an annotation without arguments is told from what follows by its first token
    have hleads := annotations_leads l as hrest
    rw [List.flatMap_cons, List.append_assoc, List.append_assoc,
      ofTokens_annotation body doc n a (l.space_stops _) (hleads.blank_append l.space_blank),
      lexFrom_blank_append l.space_blank, ih]
    congr 2
    simp only [Text.size_append]
    omega

/-- A comment waits for the constant behind it. -/
theorem ofTokens_doc (l : Layout) (d : Option Doc) :
    EnumTables.Constant.ofTokens body none
        (lexFrom n (printOption (fun doc => doc.print ++ l.line) d ++ rest)) =
      EnumTables.Constant.ofTokens body (d.map Doc.text)
        (lexFrom (n + Text.size (printOption (fun doc => doc.print ++ l.line) d)) rest) := by
  cases d with
  | none => rfl
  | some d =>
    -- the comment is one token, whatever stands behind it
    have hlex := lexFrom_cuts (by decide) (d.cuts (l.line ++ rest)) n
    have hprint : d.print ++ l.line ++ rest =
        '/' :: ('*' :: '*' :: (d.text ++ ['*', '/']) ++ (l.line ++ rest)) := by
      simp [Doc.print]
    rw [printOption, hprint, hlex, Constant.ofTokens_docComment rfl,
      lexFrom_blank_append l.line_blank, Text.size_append, ← Nat.add_assoc]
    exact congrArg (fun text => EnumTables.Constant.ofTokens body (some text) _) d.inner_print

end

theorem classBody_leads {rest : Text} (l : Layout) (block : Option Block)
    (hrest : Leads [.comma, .semicolon] rest) :
    Leads [.openBrace, .comma, .semicolon]
      (printOption (fun block => l.pad ++ block.print) block ++ rest) := by
  cases block with
  | none => exact hrest.mono (List.subset_cons_self _ _)
  | some block =>
    have hopener : Lexer.signKind? '{' = some .openBrace := rfl
    rw [printOption, List.append_assoc]
    exact (Leads.sign hopener (by decide) rfl _).blank_append l.pad_blank

/-- **A printed constant is read back,** and the text behind it is left. -/
theorem ofTokens_print {pre rest : Text} (l : Layout) (c : Constant)
    (hstops : Text.Stops isWordChar rest) (hrest : Leads [.comma, .semicolon] rest) :
    EnumTables.Constant.ofTokens (pre ++ (c.print l ++ rest)) none
        (lexFrom (Text.size pre) (c.print l ++ rest)) =
      c.declared :: EnumTables.Constant.ofTokens (pre ++ (c.print l ++ rest)) none
        (lexFrom (Text.size (pre ++ c.print l)) rest) := by
  have hleads := classBody_leads l c.classBody hrest
  have hafter : Text.Stops isWordChar (printOption Arguments.print c.arguments ++
      (printOption (fun block => l.pad ++ block.print) c.classBody ++ rest)) :=
    Text.stops_append (arguments_stops _) (Text.stops_append (Constant.classBody_stops l _) hstops)
  -- the text in front of the argument list and behind it
  have hprint : c.print l ++ rest =
      printOption (fun doc => doc.print ++ l.line) c.doc ++
        (c.annotations.flatMap (fun a => a.print ++ l.space) ++ (c.name.text ++
          (printOption Arguments.print c.arguments ++
            (printOption (fun block => l.pad ++ block.print) c.classBody ++ rest)))) := by
    simp [Constant.print]
  have hbody : pre ++ (c.print l ++ rest) =
      pre ++ printOption (fun doc => doc.print ++ l.line) c.doc ++
        c.annotations.flatMap (fun a => a.print ++ l.space) ++ c.name.text ++
          (printOption Arguments.print c.arguments ++
            (printOption (fun block => l.pad ++ block.print) c.classBody ++ rest)) := by
    rw [hprint]
    simp
  have hstop : Text.size (pre ++ c.print l) =
      Text.size (pre ++ printOption (fun doc => doc.print ++ l.line) c.doc ++
        c.annotations.flatMap (fun a => a.print ++ l.space) ++ c.name.text ++
          printOption Arguments.print c.arguments) +
        Text.size (printOption (fun block => l.pad ++ block.print) c.classBody) := by
    simp only [Constant.print, Text.size_append]
    omega
  rw [hstop, hbody, hprint, ofTokens_doc,
    ofTokens_annotations _ _ _ l c.annotations (c.name.leads (by decide) hafter),
    c.name.lexFrom_text hafter, Constant.ofTokens_ident rfl]
  simp only [← Text.size_append]
  rw [readArguments_print c.arguments hleads (by decide),
    classBodyRest_print l c.classBody hrest (by decide)]
  simp only [Text.size_append]
  rfl

namespace Enumeration

variable (l : Layout) (e : Enumeration)

theorem bodyTail_leads : Leads [.comma, .semicolon] (e.bodyTail l) := by
  have hsemicolon : Lexer.signKind? ';' = some .semicolon := rfl
  refine Leads.blank_append l.pad_blank ?_
  cases e.members with
  | none => exact Leads.of_blank Text.blank_nil
  | some members => exact Leads.sign hsemicolon (by decide) rfl _

/-- There are no constants behind the last one. -/
theorem ofTokens_bodyTail (body : Text) (n : Nat) :
    EnumTables.Constant.ofTokens body none (lexFrom n (e.bodyTail l)) = [] := by
  have hsemicolon : Lexer.signKind? ';' = some .semicolon := rfl
  rw [bodyTail, lexFrom_blank_append l.pad_blank]
  cases e.members with
  | none =>
    rw [printOption, lexFrom_nil, EnumTables.Constant.ofTokens]
  | some members =>
    rw [printOption, lexFrom_sign hsemicolon, Constant.ofTokens_semicolon rfl]

/-- Constants with commas between them are read back one by one. -/
theorem ofTokens_join {pre : Text} (cs : List Constant) :
    EnumTables.Constant.ofTokens
        (pre ++ (Text.join (l.pad ++ ',' :: l.line) (cs.map (Constant.print l)) ++ e.bodyTail l))
        none
        (lexFrom (Text.size pre)
          (Text.join (l.pad ++ ',' :: l.line) (cs.map (Constant.print l)) ++ e.bodyTail l)) =
      cs.map Constant.declared := by
  have hcomma : Lexer.signKind? ',' = some .comma := rfl
  induction cs generalizing pre with
  | nil => exact e.ofTokens_bodyTail l _ _
  | cons c cs ih =>
    -- behind the last constant there is the end of the list, behind all others a comma
    cases cs with
    | nil =>
      have hprint := @ofTokens_print pre (e.bodyTail l) l c (e.bodyTail_stops l)
        (e.bodyTail_leads l)
      rw [e.ofTokens_bodyTail l] at hprint
      exact hprint
    | cons d cs =>
      have hleads : ∀ more, Leads [.comma, .semicolon] (l.pad ++ ',' :: more) := fun more =>
        (Leads.sign hcomma (by decide) rfl more).blank_append l.pad_blank
      have hstops : ∀ more, Text.Stops isWordChar (l.pad ++ ',' :: more) := fun more =>
        l.pad_stops (by decide +kernel) more
      have hjoin : Text.join (l.pad ++ ',' :: l.line) ((c :: d :: cs).map (Constant.print l)) ++
          e.bodyTail l = c.print l ++ (l.pad ++ ',' :: (l.line ++
            (Text.join (l.pad ++ ',' :: l.line) ((d :: cs).map (Constant.print l)) ++
              e.bodyTail l))) := by
        simp [Text.join]
      have hnext := @ih (pre ++ c.print l ++ l.pad ++ [','] ++ l.line)
      have hbody : ∀ more, pre ++ (c.print l ++ (l.pad ++ ',' :: (l.line ++ more))) =
          pre ++ c.print l ++ l.pad ++ [','] ++ l.line ++ more := by
        intro more
        simp
      rw [hjoin, ofTokens_print l c (hstops _) (hleads _), lexFrom_blank_append l.pad_blank,
        lexFrom_sign hcomma, Constant.ofTokens_comma rfl, lexFrom_blank_append l.line_blank, hbody]
      simp only [← Text.size_append]
      rw [hnext]
      rfl

/-- **The constants of a printed body are those of the enum.** -/
theorem ofBody_print :
    EnumTables.Constant.ofBody (e.body l) = e.constants.map Constant.declared := by
  have hlex : lex (e.body l) = lexFrom (Text.size l.line)
      (Text.join (l.pad ++ ',' :: l.line) (e.constants.map (Constant.print l)) ++
        e.bodyTail l) := by
    rw [lex, body, lexFrom_blank_append l.line_blank, Nat.zero_add]
  rw [EnumTables.Constant.ofBody, hlex]
  exact e.ofTokens_join l e.constants

end Enumeration

end Printed

end EnumTables
