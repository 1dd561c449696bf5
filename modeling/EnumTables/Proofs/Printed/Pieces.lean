/-
Printed text, lexed piece by piece.

Every part of a printed enum is a piece: it has the same tokens wherever it
is printed, as long as the character behind it does not run into its last
token.  A word needs a character behind it that continues no word; the text
of a group needs its closer; all else may stand in front of anything.

* **`Piece.append`** — pieces in a row are a piece;
* **`Name.piece`**, **`Doc.piece`**, **`Arguments.piece`**, **`Block.piece`** —
  the pieces that are printed;
* **`Constant.piece`**, **`Enumeration.body_piece`** — what is made of them.

Braces match up in a piece and it holds no keyword, so that the search for
declarations passes over it.
-/
import EnumTables.Proofs.Printed.Basic
import EnumTables.Proofs.Token.Seam

namespace EnumTables

theorem Balanced.lexFrom {opener closer : TokenKind} {cs : Text}
    (h : Balanced opener closer (lex cs)) (n : Nat) : Balanced opener closer (lexFrom n cs) := by
  rw [lexFrom_eq_map_lex]
  exact h.map fun _ => rfl

theorem Keywordless.lexFrom {cs : Text} (h : Keywordless (lex cs)) (n : Nat) :
    Keywordless (lexFrom n cs) := by
  intro t ht
  rw [lexFrom_eq_map_lex] at ht
  obtain ⟨u, hu, rfl⟩ := List.mem_map.mp ht
  exact h u hu

/-- A text that keeps its tokens in front of every text that does not start
with a character of `p`. -/
structure Piece (p : Char → Bool) (a : Text) : Prop where
  seam : ∀ rest, Text.Stops p rest → Seam a rest
  braces : Balanced .openBrace .closeBrace (lex a)
  keywordless : Keywordless (lex a)

/-- The class of no character: anything may stand behind the piece. -/
def noChar (_ : Char) : Bool :=
  false

theorem stops_noChar (cs : Text) : Text.Stops noChar cs :=
  fun _ _ => rfl

namespace Piece

variable {p q : Char → Bool} {a b : Text}

theorem append (ha : Piece p a) (hb : Piece q b)
    (h : ∀ rest, Text.Stops q rest → Text.Stops p (b ++ rest)) : Piece q (a ++ b) := by
  have hseam : Seam a b := by
    have hstops := h [] (Text.stops_nil q)
    rw [List.append_nil] at hstops
    exact ha.seam b hstops
  have hlex : lex (a ++ b) = lex a ++ lexFrom (0 + Text.size a) b := hseam 0
  refine ⟨?_, ?_, ?_⟩
  · intro rest hrest
    exact (ha.seam _ (h rest hrest)).append (hb.seam rest hrest)
  · rw [hlex]
    exact ha.braces.append (hb.braces.lexFrom _)
  · rw [hlex]
    exact ha.keywordless.append (hb.keywordless.lexFrom _)

/-- Behind a piece that anything may follow. -/
theorem append_any (ha : Piece noChar a) (hb : Piece q b) : Piece q (a ++ b) :=
  ha.append hb fun _ _ => stops_noChar _

/-- A piece that starts with no character of `p`. -/
theorem append_stops (ha : Piece p a) (hb : Piece p b) (h : Text.Stops p b) : Piece p (a ++ b) :=
  ha.append hb fun _ hrest => Text.stops_append h hrest

theorem mono (ha : Piece p a) (h : ∀ c, q c = false → p c = false) : Piece q a :=
  ⟨fun rest hrest => ha.seam rest fun c hc => h c (hrest c hc), ha.braces, ha.keywordless⟩

theorem of_noChar (ha : Piece noChar a) : Piece q a :=
  ha.mono fun _ _ => rfl

theorem of_blank (h : Text.Blank a) : Piece p a := by
  refine ⟨fun rest _ => seam_of_blank h rest, ?_, ?_⟩
  · rw [lex, lexFrom_of_blank h]
    exact Balanced.nil
  · rw [lex, lexFrom_of_blank h]
    exact Keywordless.nil

theorem nil : Piece p [] :=
  of_blank Text.blank_nil

/-- A single token. -/
theorem of_cuts {c : Char} {w : Text} {k : TokenKind} (hc : isBlank c = false)
    (h : ∀ rest, Text.Stops p rest → Lexer.Cuts c w k rest)
    (hopen : k ≠ .openBrace) (hclose : k ≠ .closeBrace)
    (hkeyword : k = .ident → c :: w ≠ "enum".toList) : Piece p (c :: w) := by
  have hcuts := h [] (Text.stops_nil p)
  have hlex : lex (c :: w) = [Token.atByte 0 k (c :: w)] := by
    have hstep := lexFrom_cuts hc hcuts 0
    rwa [List.append_nil, lexFrom_nil] at hstep
  refine ⟨?_, ?_, ?_⟩
  · intro rest hrest
    have hseam := seam_of_cuts Text.blank_nil hc hcuts (h rest hrest)
      (seam_of_blank Text.blank_nil rest)
    rwa [List.nil_append, List.append_nil] at hseam
  · rw [hlex]
    exact Balanced.singleton hopen hclose
  · rw [hlex]
    intro t ht
    rw [List.mem_singleton.mp ht, Token.isIdent, Bool.and_eq_false_imp]
    intro hident
    exact beq_eq_false_iff_ne.mpr (hkeyword (eq_of_beq hident))

theorem of_sign {c : Char} {k : TokenKind} (h : Lexer.signKind? c = some k)
    (hk : k ≠ .openBrace ∧ k ≠ .closeBrace ∧ k ≠ .ident) : Piece noChar [c] :=
  of_cuts (Lexer.plain_of_signKind? h).1 (fun _ _ => .sign h) hk.1 hk.2.1 fun hident =>
    absurd hident hk.2.2

theorem option {α : Type} {part : α → Text} (h : ∀ x, Piece p (part x)) (o : Option α) :
    Piece p (Printed.printOption part o) := by
  cases o with
  | none => exact nil
  | some x => exact h x

theorem flatMap {α : Type} {part : α → Text} (h : ∀ x, Piece noChar (part x)) (xs : List α) :
    Piece noChar (xs.flatMap part) := by
  induction xs with
  | nil => exact nil
  | cons x xs ih => exact (h x).append_any ih

end Piece

namespace Printed

/-- In front of its closer, a text that can be closed keeps its tokens. -/
theorem Closable.seam {sign : Char} {kind : TokenKind} {text : Text}
    (h : Closable sign kind text) (rest : Text) (hrest : Text.Stops (· != sign) rest) :
    Seam text rest := by
  obtain ⟨t, -, hlex⟩ := h
  have hsign : Seam text [sign] := seam_of_isPrefix ⟨[t], hlex.symm⟩
  refine hsign.of_startsLike ?_
  intro c hc
  have heq := hrest c hc
  rw [bne_eq_false_iff_eq] at heq
  rw [heq]
  rfl

/-- The tokens of a text between brackets. -/
theorem Closable.lexFrom_group {opener closer : Char} {k k' : TokenKind} {text : Text}
    (h : Closable closer k' text) (hopener : Lexer.signKind? opener = some k)
    (hcloser : Lexer.signKind? closer = some k') (n : Nat) (rest : Text) :
    lexFrom n (opener :: (text ++ [closer]) ++ rest) =
      Token.atByte n k [opener] ::
        (lexFrom (n + Text.size [opener]) text ++
          Token.atByte (n + Text.size [opener] + Text.size text) k' [closer] ::
            lexFrom (n + Text.size (opener :: (text ++ [closer]))) rest) := by
  have hstops : Text.Stops (· != closer) (closer :: rest) := Text.stops_cons.mpr (by simp)
  have happend : opener :: (text ++ [closer]) ++ rest = opener :: (text ++ closer :: rest) := by
    simp
  have hsize : n + Text.size (opener :: (text ++ [closer])) =
      n + Text.size [opener] + Text.size text + Text.size [closer] := by
    simp only [Text.size, Text.size_append]
    omega
  rw [happend, lexFrom_sign hopener, h.seam _ hstops, lexFrom_sign hcloser, hsize]

namespace Name

theorem cuts (name : Name) {rest : Text} (h : Text.Stops isWordChar rest) :
    Lexer.Cuts name.head name.tail .ident rest :=
  .word name.head_isWordStart (List.all_eq_true.mp name.tail_isWordChar) h

theorem isBlank_head (name : Name) : isBlank name.head = false :=
  isBlank_of_isWordStart name.head_isWordStart

theorem piece (name : Name) : Piece isWordChar name.text :=
  Piece.of_cuts name.isBlank_head (fun _ hrest => name.cuts hrest) (by decide) (by decide)
    fun _ => name.ne_keyword

end Name

theorem dot_cuts (rest : Text) : Lexer.Cuts '.' [] .other rest :=
  .lone (by decide +kernel)

theorem dot_piece : Piece noChar ['.'] :=
  Piece.of_cuts (by decide) (fun rest _ => dot_cuts rest) (by decide) (by decide) (by simp)

theorem selectors_stops (names : List Name) : Text.Stops isWordChar (printSelectors names) := by
  cases names with
  | nil => exact Text.stops_nil _
  | cons name names => exact Text.stops_cons.mpr (by decide +kernel)

theorem selectors_piece (names : List Name) : Piece isWordChar (printSelectors names) := by
  induction names with
  | nil => exact Piece.nil
  | cons name names ih =>
    have hname := dot_piece.append_any (name.piece.append_stops ih (selectors_stops names))
    have hprint : printSelectors (name :: names) =
        ['.'] ++ (name.text ++ printSelectors names) := rfl
    rwa [hprint]

/-- A comment ends at the first delimiter behind its text. -/
theorem through_of_not_infix {text : Text} (h : ¬ ['*', '/'] <:+: text) (rest : Text) :
    Text.through ['*', '/'] (text ++ '*' :: '/' :: rest) = (text ++ ['*', '/'], rest) := by
  induction text with
  | nil => exact Text.through_cons_of_isPrefix ⟨rest, rfl⟩
  | cons c text ih =>
    have hpre : ¬ ['*', '/'] <+: c :: (text ++ '*' :: '/' :: rest) := by
      -- a `*` that ends the text is not the one in front of the `/`
      intro hpre
      obtain ⟨rfl, hslash⟩ := List.cons_prefix_cons.mp hpre
      cases text with
      | nil => exact absurd (List.cons_prefix_cons.mp hslash).1 (by decide)
      | cons d text =>
        obtain ⟨rfl, -⟩ := List.cons_prefix_cons.mp hslash
        exact h ⟨[], text, rfl⟩
    have htext : ¬ ['*', '/'] <:+: text := fun hinfix => h (List.infix_cons hinfix)
    rw [List.cons_append, Text.through_cons_of_not_isPrefix hpre, ih htext]
    rfl

namespace Doc

theorem star_not_infix (doc : Doc) : ¬ ['*', '/'] <:+: '*' :: doc.text := by
  intro h
  -- a delimiter that starts at the `*` of the opening one
  rcases List.infix_cons_iff.mp h with hpre | hinfix
  · exact doc.not_slash (List.cons_prefix_cons.mp hpre).2
  · exact doc.not_end hinfix

theorem blockKind_eq (doc : Doc) (cs : Text) :
    Lexer.blockKind ('*' :: (doc.text ++ '*' :: cs)) = .docComment := by
  have hslash := doc.not_slash
  cases htext : doc.text with
  | nil => rfl
  | cons c text =>
    rw [htext] at hslash
    have hc : c ≠ '/' := by
      rintro rfl
      exact hslash ⟨text, rfl⟩
    rw [List.cons_append, Lexer.blockKind_cons_cons, if_pos ⟨rfl, hc⟩]

theorem cuts (doc : Doc) (rest : Text) :
    Lexer.Cuts '/' ('*' :: '*' :: (doc.text ++ ['*', '/'])) .docComment rest := by
  have hthrough := through_of_not_infix doc.star_not_infix rest
  have happend : '*' :: (doc.text ++ ['*', '/']) ++ rest =
      '*' :: doc.text ++ '*' :: '/' :: rest := by simp
  have hcuts := @Lexer.Cuts.block ('*' :: (doc.text ++ ['*', '/'])) rest (happend ▸ hthrough)
  rw [happend] at hcuts
  rw [← doc.blockKind_eq ('/' :: rest)]
  exact hcuts

theorem piece (doc : Doc) : Piece noChar doc.print :=
  Piece.of_cuts (by decide) (fun rest _ => doc.cuts rest) (by decide) (by decide) (by simp)

end Doc

namespace Arguments

theorem text_piece (arguments : Arguments) : Piece (· != ')') arguments.text :=
  ⟨arguments.closable.seam, arguments.braces, arguments.keywordless⟩

theorem piece (arguments : Arguments) : Piece noChar arguments.print := by
  have hopen : Piece noChar ['('] :=
    Piece.of_sign (k := .openParen) rfl (by decide)
  have hclose : Piece noChar [')'] :=
    Piece.of_sign (k := .closeParen) rfl (by decide)
  refine hopen.append_any (arguments.text_piece.append hclose ?_)
  intro rest _
  exact Text.stops_cons.mpr (by decide)

end Arguments

namespace Block

theorem text_piece (block : Block) : Piece (· != '}') block.text :=
  ⟨block.closable.seam, block.braces, block.keywordless⟩

theorem piece (block : Block) : Piece noChar block.print := by
  have hopener : Lexer.signKind? '{' = some .openBrace := rfl
  have hlex := block.closable.lexFrom_group hopener rfl 0 []
  rw [List.append_nil, lexFrom_nil] at hlex
  -- its braces do not match up one by one, so it is no row of pieces
  refine ⟨?_, ?_, ?_⟩
  · intro rest _
    have hclose : Seam block.text (['}'] ++ rest) :=
      block.text_piece.seam _ (Text.stops_cons.mpr (by decide))
    exact (seam_of_sign hopener _).append (hclose.append (seam_of_sign (c := '}') rfl rest))
  · rw [lex, print, hlex]
    exact (block.braces.lexFrom _).enclose (by decide) rfl rfl
  · rw [lex, print, hlex]
    refine Keywordless.cons (by decide) ((block.keywordless.lexFrom _).append ?_)
    exact Keywordless.cons (show TokenKind.closeBrace ≠ .ident by decide) Keywordless.nil

end Block

theorem arguments_stops (arguments : Option Arguments) :
    Text.Stops isWordChar (printOption Arguments.print arguments) := by
  cases arguments with
  | none => exact Text.stops_nil _
  | some arguments => exact Text.stops_cons.mpr (by decide +kernel)

namespace Annotation

theorem piece (a : Annotation) : Piece isWordChar a.print := by
  have hat : Piece noChar ['@'] :=
    Piece.of_sign (k := .at) rfl (by decide)
  have harguments : Piece isWordChar (printOption Arguments.print a.arguments) :=
    Piece.option (fun arguments => arguments.piece.of_noChar) a.arguments
  refine hat.append_any (a.head.piece.append_stops
    ((selectors_piece a.tail).append_stops harguments (arguments_stops _)) ?_)
  exact Text.stops_append (selectors_stops a.tail) (arguments_stops _)

end Annotation

namespace Layout

variable (l : Layout)

theorem space_stops (rest : Text) : Text.Stops isWordChar (l.space ++ rest) := by
  have hblank := l.space_blank.stops
  obtain ⟨c, cs, hspace⟩ := List.exists_cons_of_ne_nil l.space_ne_nil
  rw [hspace] at hblank ⊢
  exact Text.stops_cons.mpr (Text.stops_cons.mp hblank)

theorem pad_stops {c : Char} (hc : isWordChar c = false) (rest : Text) :
    Text.Stops isWordChar (l.pad ++ c :: rest) :=
  Text.stops_append l.pad_blank.stops (Text.stops_cons.mpr hc)

/-- A word keeps its token in front of the space behind it. -/
theorem append_space {a : Text} (h : Piece isWordChar a) : Piece noChar (a ++ l.space) :=
  h.append (Piece.of_blank l.space_blank) fun rest _ => l.space_stops rest

end Layout

namespace Constant

theorem classBody_stops (l : Layout) (block : Option Block) :
    Text.Stops isWordChar (printOption (fun block => l.pad ++ block.print) block) := by
  cases block with
  | none => exact Text.stops_nil _
  | some block => exact l.pad_stops (by decide +kernel) _

theorem piece (l : Layout) (c : Constant) : Piece isWordChar (c.print l) := by
  have hdoc : Piece noChar (printOption (fun doc => doc.print ++ l.line) c.doc) :=
    Piece.option (fun doc => doc.piece.append_any (Piece.of_blank l.line_blank)) c.doc
  have hannotations : Piece noChar (c.annotations.flatMap fun a => a.print ++ l.space) :=
    Piece.flatMap (fun a => l.append_space a.piece) c.annotations
  have harguments : Piece isWordChar (printOption Arguments.print c.arguments) :=
    Piece.option (fun arguments => arguments.piece.of_noChar) c.arguments
  have hclassBody : Piece isWordChar
      (printOption (fun block => l.pad ++ block.print) c.classBody) :=
    Piece.option (fun block => (Piece.of_blank l.pad_blank).append_any block.piece.of_noChar)
      c.classBody
  refine hdoc.append_any (hannotations.append_any (c.name.piece.append_stops
    (harguments.append_stops hclassBody (classBody_stops l _)) ?_))
  exact Text.stops_append (arguments_stops _) (classBody_stops l _)

/-- Constants with commas between them. -/
theorem join_piece (l : Layout) (cs : List Constant) :
    Piece isWordChar (Text.join (l.pad ++ ',' :: l.line) (cs.map (Constant.print l))) := by
  have hcomma : Piece noChar (l.pad ++ ',' :: l.line) := by
    refine (Piece.of_blank l.pad_blank).append_any ?_
    have hsign : Piece noChar [','] :=
      Piece.of_sign (k := .comma) rfl (by decide)
    exact hsign.append_any (Piece.of_blank l.line_blank)
  have hstops : ∀ rest, Text.Stops isWordChar (l.pad ++ ',' :: l.line ++ rest) := by
    intro rest
    rw [List.append_assoc]
    exact l.pad_stops (by decide +kernel) _
  induction cs with
  | nil => exact Piece.nil
  | cons c cs ih =>
    cases cs with
    | nil => exact c.piece l
    | cons d cs =>
      exact ((c.piece l).append hcomma fun rest _ => hstops rest).append_any ih

end Constant

namespace Enumeration

variable (l : Layout) (e : Enumeration)

theorem bodyTail_stops : Text.Stops isWordChar (e.bodyTail l) := by
  refine Text.stops_append l.pad_blank.stops ?_
  cases e.members with
  | none => exact Text.stops_nil _
  | some members => exact Text.stops_cons.mpr (by decide +kernel)

theorem bodyTail_piece : Piece (· != '}') (e.bodyTail l) := by
  have hsemicolon : Piece noChar [';'] :=
    Piece.of_sign (k := .semicolon) rfl (by decide)
  refine (Piece.of_blank l.pad_blank).append_any ?_
  exact Piece.option (fun members => hsemicolon.append_any members.text_piece) e.members

/-- A body keeps its tokens in front of the brace that ends it. -/
theorem body_piece : Piece (· != '}') (e.body l) := by
  refine (Piece.of_blank l.line_blank).append_any ((Constant.join_piece l e.constants).append
    (e.bodyTail_piece l) ?_)
  intro rest hrest
  refine Text.stops_append (e.bodyTail_stops l) ?_
  intro c hc
  rw [bne_eq_false_iff_eq.mp (hrest c hc)]
  decide +kernel

end Enumeration

end Printed

end EnumTables
