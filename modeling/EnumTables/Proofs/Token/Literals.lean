/-
Literals as single tokens.

A string or a character ends with its first quote that no backslash stands
before, a text block with the first three quotes in a row.  The two are found
in different ways, and only the first way knows backslashes.

* **`Escaped`**, **`Blocked`** — what may stand between the delimiters of a
  literal, with a backslash and the character behind it as a unit;
* **`Escaped.cuts`** — a string or a character is cut off as one token;
* **`Text.through_eq_iff`** — where a search for a mark ends;
* **`readsWhole_block_iff`** — which text blocks are one token;
* **`Blocked.mark_isInfix`** — a text block is left early only at an escaped
  quote in front of two more;
* **`literals_are_single_tokens`** — the literals that are one token, and that
  nothing inside of such a literal counts for the nesting around it.
-/
import EnumTables.Proofs.Token.Seam
import EnumTables.Proofs.Token.Balance

namespace EnumTables

/-- A text of characters in `p` and of pairs of a backslash and any
character. -/
inductive Escaped (p : Char → Prop) : Text → Prop
  | nil : Escaped p []
  | char {c : Char} {cs : Text} (hc : c ≠ '\\') (hp : p c) (h : Escaped p cs) :
      Escaped p (c :: cs)
  | pair (c : Char) {cs : Text} (h : Escaped p cs) : Escaped p ('\\' :: c :: cs)

/-- What may stand in a text block behind `run` quotes without a backslash:
the quotes never get three in a row, and the text does not end in one. -/
inductive Blocked : Nat → Text → Prop
  | nil : Blocked 0 []
  | char {run : Nat} {c : Char} {cs : Text} (hc : c ≠ '\\') (hquote : c ≠ '"')
      (h : Blocked 0 cs) : Blocked run (c :: cs)
  | quote {run : Nat} {cs : Text} (hrun : run < 2) (h : Blocked (run + 1) cs) :
      Blocked run ('"' :: cs)
  | pair {run : Nat} (c : Char) {cs : Text} (h : Blocked 0 cs) : Blocked run ('\\' :: c :: cs)

/-- The token that a text starts with is all of `literal`, in front of
`rest`. -/
def ReadsWhole (literal rest : Text) : Prop :=
  (lex (literal ++ rest)).head? = some (Token.atByte 0 .literal literal)

instance (literal rest : Text) : Decidable (ReadsWhole literal rest) :=
  inferInstanceAs (Decidable (_ = _))

/-! ### Strings and characters -/

/-- A string or a character is read up to the quote that ends it. -/
theorem Escaped.quotedTail_eq {quote : Char} {content : Text}
    (h : Escaped (fun c => c ≠ quote ∧ c ≠ '\n') content) (hquote : quote ≠ '\\')
    (hline : quote ≠ '\n') (rest : Text) :
    Lexer.quotedTail quote (content ++ quote :: rest) = (content ++ [quote], rest) := by
  induction h with
  | nil =>
    rw [List.nil_append, Lexer.quotedTail_cons hquote, if_neg hline, if_pos rfl, List.nil_append]
  | char hc hp _ ih =>
    rw [List.cons_append, Lexer.quotedTail_cons hc, if_neg hp.2, if_neg hp.1, ih, List.cons_append]
  | pair c _ ih =>
    rw [List.cons_append, List.cons_append, Lexer.quotedTail, ih]
    rfl

/-- Two quotes open a text block only if a third one follows. -/
theorem Escaped.not_opens_block {content rest : Text}
    (h : Escaped (fun c => c ≠ '"' ∧ c ≠ '\n') content)
    (hopen : content = [] → ¬ ['"'] <+: rest) :
    ¬ ['"', '"'] <+: content ++ '"' :: rest := by
  intro hpre
  cases h with
  | nil => exact hopen rfl (List.cons_prefix_cons.mp hpre).2
  | char _ hp _ => exact hp.1 (List.cons_prefix_cons.mp hpre).1.symm
  | pair c _ => exact absurd (List.cons_prefix_cons.mp hpre).1 (by decide)

/-- A string or a character is cut off as one token. -/
theorem Escaped.cuts {quote : Char} {content rest : Text} (hquote : quote = '"' ∨ quote = '\'')
    (h : Escaped (fun c => c ≠ quote ∧ c ≠ '\n') content)
    (hopen : quote = '"' → content = [] → ¬ ['"'] <+: rest) :
    Lexer.Cuts quote (content ++ [quote]) .literal rest := by
  have happend : content ++ [quote] ++ rest = content ++ quote :: rest := by simp
  rcases hquote with rfl | rfl
  · refine .string ?_ ?_
    · rw [happend]
      exact h.not_opens_block (hopen rfl)
    · rw [happend]
      exact h.quotedTail_eq (by decide) (by decide) rest
  · refine .character ?_
    rw [happend]
    exact h.quotedTail_eq (by decide) (by decide) rest

/-! ### Text blocks -/

/-- A search for `mark` ends at the mark behind `content` exactly if the mark
does not come up before, not even with a part of the mark behind. -/
theorem Text.through_eq_iff {mark : Text} (hmark : mark ≠ []) (content rest : Text) :
    through mark (content ++ (mark ++ rest)) = (content ++ mark, rest) ↔
      ¬ mark <:+: content ++ mark.dropLast := by
  have hlast : mark.dropLast.length + 1 = mark.length := by
    have hpos := List.length_pos_iff.mpr hmark
    rw [List.length_dropLast]
    omega
  induction content with
  | nil =>
    refine iff_of_true ?_ ?_
    · have hpre := List.prefix_append mark rest
      obtain ⟨m, ms, rfl⟩ := List.exists_cons_of_ne_nil hmark
      rw [List.nil_append, List.nil_append]
      rw [List.cons_append] at hpre ⊢
      rw [through_cons_of_isPrefix hpre, ← List.cons_append, List.drop_left]
    · intro hinfix
      have hle := hinfix.length_le
      rw [List.nil_append] at hle
      omega
  | cons c content ih =>
    have hfront : c :: (content ++ mark.dropLast) <+: c :: (content ++ (mark ++ rest)) := by
      refine List.cons_prefix_cons.mpr ⟨rfl, (List.prefix_append_right_inj content).mpr ?_⟩
      exact (List.dropLast_prefix mark).trans (List.prefix_append mark rest)
    by_cases hpre : mark <+: c :: (content ++ (mark ++ rest))
    · -- the search ends at `c`, where a mark fits into the content and a part of the mark
      refine iff_of_false ?_ (not_not_intro ?_)
      · intro h
        rw [List.cons_append, through_cons_of_isPrefix hpre] at h
        have hlength := congrArg List.length (Prod.mk.inj h).1
        simp only [List.length_cons, List.length_append] at hlength
        omega
      · refine (List.prefix_of_prefix_length_le hpre hfront ?_).isInfix
        simp only [List.length_cons, List.length_append]
        omega
    · have hnot : ¬ mark <+: c :: (content ++ mark.dropLast) := fun h => hpre (h.trans hfront)
      rw [List.cons_append, through_cons_of_not_isPrefix hpre, List.cons_append,
        List.cons_append, List.infix_cons_iff, or_iff_right hnot]
      simpa only [Prod.mk.injEq, List.cons.injEq, true_and, Prod.ext_iff] using ih

/-! ### The first token -/

/-- A literal that is read whole is a character and a rest that are cut off as
one token. -/
theorem readsWhole_cons_iff {c : Char} (hc : isBlank c = false) (w rest : Text) :
    ReadsWhole (c :: w) rest ↔ Lexer.Cuts c w .literal rest := by
  constructor
  · intro h
    obtain ⟨ts, hts⟩ := List.head?_eq_some_iff.mp h
    obtain ⟨rest', hrest, hcuts, -⟩ := cuts_of_head_lexFrom Text.blank_nil hc hts
    obtain rfl := List.append_cancel_left hrest
    exact hcuts
  · intro h
    rw [ReadsWhole, lex, List.cons_append, lexFrom_cuts hc h, List.head?_cons]

/-- A literal that is read whole starts with a character that is no blank. -/
theorem ReadsWhole.exists_cuts {literal rest : Text} (h : ReadsWhole literal rest) :
    ∃ c w, literal = c :: w ∧ isBlank c = false ∧ Lexer.Cuts c w .literal rest := by
  generalize hcs : literal ++ rest = cs
  rw [ReadsWhole, hcs] at h
  cases Lexer.begins cs with
  | blank gap hgap =>
    rw [lex, lexFrom_of_blank hgap] at h
    exact absurd h (by simp)
  | token gap c w k r hgap hc hcuts =>
    rw [lex, lexFrom_token hgap hc hcuts, List.head?_cons, Option.some.injEq] at h
    obtain ⟨rfl, rfl, hsize, -⟩ := Token.mk.inj h
    -- the token starts at position zero, so there is no gap
    rcases eq_or_ne gap [] with rfl | hne
    · obtain rfl := List.append_cancel_left (hcs : (c :: w) ++ rest = (c :: w) ++ r)
      exact ⟨c, w, rfl, hc, hcuts⟩
    · have hpos := Text.size_pos_of_ne_nil hne
      omega

/-- The tokens behind a literal that is read whole are those of the text behind
it. -/
theorem ReadsWhole.lexFrom_eq {literal rest : Text} (h : ReadsWhole literal rest) (n : Nat) :
    lexFrom n (literal ++ rest) =
      Token.atByte n .literal literal :: lexFrom (n + Text.size literal) rest := by
  obtain ⟨c, w, rfl, hc, hcuts⟩ := h.exists_cuts
  rw [List.cons_append, lexFrom_cuts hc hcuts]

/-- Nothing inside of a literal opens or closes a group. -/
theorem ReadsWhole.closeGroup_eq {literal rest : Text} (h : ReadsWhole literal rest)
    {opener closer : TokenKind} (hopener : opener ≠ .literal) (hcloser : closer ≠ .literal)
    (n depth : Nat) :
    closeGroup opener closer depth (lexFrom n (literal ++ rest)) =
      closeGroup opener closer depth (lexFrom (n + Text.size literal) rest) := by
  rw [h.lexFrom_eq, closeGroup_cons_other hopener.symm hcloser.symm]

/-- A text block is the first token exactly if its three quotes do not come up
before. -/
theorem readsWhole_block_iff (content rest : Text) :
    ReadsWhole (['"', '"', '"'] ++ content ++ ['"', '"', '"']) rest ↔
      ¬ ['"', '"', '"'] <:+: content ++ ['"', '"'] := by
  have hthrough := Text.through_eq_iff (List.cons_ne_nil '"' ['"', '"']) content rest
  rw [← List.append_assoc] at hthrough
  refine Iff.trans (readsWhole_cons_iff (by decide) _ rest) (Iff.trans ?_ hthrough)
  constructor
  · intro h
    cases h with
    | textBlock h => exact h
    | string hopen _ => exact absurd ⟨_, rfl⟩ hopen
    | number hc _ _ => exact absurd hc (by decide)
  · exact fun h => .textBlock h

/-- Fewer than three quotes in front of another character are no part of three
in a row. -/
theorem mark_isInfix_of_run {run : Nat} (hrun : run < 3) {c : Char} (hc : c ≠ '"') {cs : Text}
    (h : ['"', '"', '"'] <:+: List.replicate run '"' ++ c :: cs) : ['"', '"', '"'] <:+: cs := by
  induction run with
  | zero =>
    rcases List.infix_cons_iff.mp h with hpre | hcs
    · exact absurd (List.cons_prefix_cons.mp hpre).1.symm hc
    · exact hcs
  | succ run ih =>
    rcases List.infix_cons_iff.mp h with hpre | hcs
    · -- the second or third of the quotes would be `c`
      obtain ⟨-, hpre⟩ := List.cons_prefix_cons.mp hpre
      rcases run with _ | _ | run
      · exact absurd (List.cons_prefix_cons.mp hpre).1.symm hc
      · obtain ⟨-, hpre⟩ := List.cons_prefix_cons.mp hpre
        exact absurd (List.cons_prefix_cons.mp hpre).1.symm hc
      · omega
    · exact ih (by omega) hcs

/-- **A text block is left early only at an escaped quote.**  Behind the
escaped quote stand two more, of the content or of the closing delimiter. -/
theorem Blocked.mark_isInfix {run : Nat} {content : Text} (h : Blocked run content)
    (hrun : run < 3)
    (hmark : ['"', '"', '"'] <:+: List.replicate run '"' ++ (content ++ ['"', '"'])) :
    ['\\', '"', '"', '"'] <:+: content ++ ['"', '"'] := by
  induction h with
  | nil => exact absurd hmark (by decide)
  | char hc hquote _ ih =>
    exact List.infix_cons (ih (by omega) (mark_isInfix_of_run hrun hquote hmark))
  | quote hlt _ ih =>
    rw [List.cons_append, List.append_cons, ← List.replicate_succ'] at hmark
    exact List.infix_cons (ih (by omega) hmark)
  | @pair run c cs _ ih =>
    have hcs : ['"', '"', '"'] <:+: c :: (cs ++ ['"', '"']) :=
      mark_isInfix_of_run hrun (by decide) hmark
    rcases List.infix_cons_iff.mp hcs with hpre | hinfix
    · exact (List.cons_prefix_cons.mpr ⟨rfl, hpre⟩).isInfix
    · exact List.infix_cons (List.infix_cons (ih (by omega) hinfix))

theorem Blocked.mark_isInfix_iff {content : Text} (h : Blocked 0 content) :
    ['"', '"', '"'] <:+: content ++ ['"', '"'] ↔
      ['\\', '"', '"', '"'] <:+: content ++ ['"', '"'] :=
  ⟨h.mark_isInfix (by omega), (List.suffix_cons _ _).isInfix.trans⟩

/-- **Literals are single tokens.**  A string or a character of escaped content
is one token, and so is a text block of such content unless an escaped quote
stands right in front of two more quotes.  Nothing inside of a literal that is
one token counts for the nesting around it. -/
theorem literals_are_single_tokens (content rest : Text) :
    (∀ quote, (quote = '"' ∨ quote = '\'') →
      Escaped (fun c => c ≠ quote ∧ c ≠ '\n') content →
      (quote = '"' → content = [] → ¬ ['"'] <+: rest) →
        ReadsWhole (quote :: (content ++ [quote])) rest) ∧
    (Blocked 0 content →
      (ReadsWhole (['"', '"', '"'] ++ content ++ ['"', '"', '"']) rest ↔
        ¬ ['\\', '"', '"', '"'] <:+: content ++ ['"', '"'])) ∧
    ∀ literal, ReadsWhole literal rest → ∀ n,
      lexFrom n (literal ++ rest) =
        Token.atByte n .literal literal :: lexFrom (n + Text.size literal) rest ∧
      ∀ opener closer depth, opener ≠ .literal → closer ≠ .literal →
        closeGroup opener closer depth (lexFrom n (literal ++ rest)) =
          closeGroup opener closer depth (lexFrom (n + Text.size literal) rest) := by
  refine ⟨?_, ?_, ?_⟩
  · intro quote hquote hcontent hopen
    have hblank : isBlank quote = false := by
      rcases hquote with rfl | rfl <;> decide
    exact (readsWhole_cons_iff hblank _ rest).mpr (hcontent.cuts hquote hopen)
  · intro hcontent
    rw [readsWhole_block_iff, hcontent.mark_isInfix_iff]
  · intro literal h n
    refine ⟨h.lexFrom_eq n, ?_⟩
    intro opener closer depth hopener hcloser
    exact h.closeGroup_eq hopener hcloser n depth

/-- A string of a brace, an escaped quote and a comment opener, and a text block
of a brace. -/
theorem literals_are_single_tokens_braces :
    ReadsWhole ['"', '\x7b', '\\', '"', '/', '*', '"'] [';'] ∧
    ReadsWhole ['"', '"', '"', '\n', '\x7d', '"', '"', '"'] [';', '\x7d'] ∧
    closeGroup .openBrace .closeBrace 0
        (lexFrom 0 (['"', '"', '"', '\n', '\x7d', '"', '"', '"'] ++ [';', '\x7d'])) =
      closeGroup .openBrace .closeBrace 0 (lexFrom (0 + 8) [';', '\x7d']) := by
  have hstring : Escaped (fun c => c ≠ '"' ∧ c ≠ '\n') ['\x7b', '\\', '"', '/', '*'] :=
    .char (by decide) (by decide) (.pair '"' (.char (by decide) (by decide)
      (.char (by decide) (by decide) .nil)))
  have hblock : Blocked 0 ['\n', '\x7d'] :=
    .char (by decide) (by decide) (.char (by decide) (by decide) .nil)
  obtain ⟨hquoted, -, -⟩ := literals_are_single_tokens ['\x7b', '\\', '"', '/', '*'] [';']
  obtain ⟨-, hblocks, hnesting⟩ := literals_are_single_tokens ['\n', '\x7d'] [';', '\x7d']
  have hwhole := (hblocks hblock).mpr (by decide)
  exact ⟨hquoted '"' (.inl rfl) hstring (by decide), hwhole,
    (hnesting _ hwhole 0).2 .openBrace .closeBrace 0 (by decide) (by decide)⟩

/-- **An escaped quote can end a text block.**  The text block of a line end, an
escaped quote and two more quotes is read up to those quotes; the brace that
stands behind them opens a group. -/
theorem escaped_quote_ends_block :
    Blocked 0 ['\n', '\\', '"', '"', '"', '\x7b'] ∧
    ¬ ReadsWhole (['"', '"', '"'] ++ ['\n', '\\', '"', '"', '"', '\x7b'] ++ ['"', '"', '"']) [] ∧
    (lex (['"', '"', '"'] ++ ['\n', '\\', '"', '"', '"', '\x7b'] ++ ['"', '"', '"'])).map
      (·.kind) = [.literal, .openBrace, .literal] := by
  refine ⟨?_, ?_, ?_⟩
  · exact .char (by decide) (by decide) (.pair '"' (.quote (by decide) (.quote (by decide)
      (.char (by decide) (by decide) .nil))))
  · rw [readsWhole_block_iff]
    decide
  · decide +kernel

end EnumTables
