/-
A text without its ordinary comments.

`blankComments` replaces every comment that is no documentation by one space.
The other tokens stay: a space ends a token wherever the start of a comment
does, so no two neighbours of a comment become one token.

* **`Lexer.Cuts.before_space`** — a token in front of a comment is cut the same
  in front of a space;
* **`Seam.blankComments_append`** — comments are replaced piece by piece;
* **`thinned_lex`** — the tokens of the new text are those of the old one
  without the comments, at corresponding positions;
* **`slice_blankComments`** — between corresponding positions the new text is
  what the old one becomes there.
-/
import EnumTables.Proofs.Token.Seam

namespace EnumTables

/-! ### Tokens in front of a space -/

namespace Lexer

/-- What stands behind a literal may be replaced, unless the line ends there. -/
theorem quotedTail_append_of_ne_newline {quote d : Char} {front rest : Text} (hd : d ≠ '\n')
    (h : quotedTail quote (front ++ d :: rest) = (front, d :: rest)) (rest' : Text) :
    quotedTail quote (front ++ rest') = (front, rest') := by
  generalize hcs : front ++ d :: rest = cs at h
  fun_induction quotedTail quote cs generalizing front with
  | case1 => simp at hcs
  | case2 => simp at h
  | case3 c cs front' rest'' hq ih =>
    obtain ⟨rfl, rfl⟩ := Prod.mk.inj h
    simp only [List.cons_append, List.cons.injEq, true_and] at hcs
    rw [List.cons_append, List.cons_append, quotedTail, ih hcs hq]
  | case4 cs _ _ => exact absurd (List.cons.inj (Prod.mk.inj h).2).1.symm hd
  | case5 cs hnil hcons hline =>
    obtain ⟨rfl, rfl⟩ := Prod.mk.inj h
    rw [List.singleton_append, quotedTail_cons (hcons d rest · rfl), if_neg hline, if_pos rfl]
  | case6 c cs hnil hcons hline hquote front' rest'' hq ih =>
    obtain ⟨rfl, rfl⟩ := Prod.mk.inj h
    obtain ⟨_, rfl⟩ := List.cons.inj hcs
    have hback : c ≠ '\\' := by
      intro hc
      cases hcs' : front' ++ d :: rest with
      | nil => simp at hcs'
      | cons e es => exact hcons e es hc hcs'
    rw [List.cons_append, quotedTail_cons hback, if_neg hline, if_neg hquote, ih rfl hq]

/-- A comment in front of something is closed, so what stands behind it may be
replaced. -/
theorem cuts_block_of_ne_nil {front rest : Text} (hrest : rest ≠ [])
    (h : Text.through ['*', '/'] (front ++ rest) = (front, rest)) (rest' : Text) :
    Cuts '/' ('*' :: front) (blockKind (front ++ rest)) rest' := by
  have hlen := (Text.suffix_of_through h hrest).length_le
  rw [blockKind_append hlen, ← blockKind_append hlen rest']
  exact .block (Text.through_append_of_through (by simp) h hrest rest')

/-- **A space ends a token where a comment does.** -/
theorem Cuts.before_space {c : Char} {w rest : Text} {k : TokenKind} (h : Cuts c w k ('/' :: rest))
    (hk : k ≠ .comment) (rest' : Text) : Cuts c w k (' ' :: rest') := by
  have hspace : isWordChar ' ' = false := isWordChar_of_isBlank (by decide)
  cases h with
  | block h => exact cuts_block_of_ne_nil (by simp) h _
  | line _ _ => exact absurd rfl hk
  | textBlock h => exact .textBlock (Text.through_append_of_through (by simp) h (by simp) _)
  | string hopen h =>
    refine .string ?_ (quotedTail_append_of_ne_newline (by decide) h _)
    -- of two quotes in `w ++ ' ' :: rest'` both are in `w`
    intro hpre
    rcases w with _ | ⟨a, _ | ⟨b, w⟩⟩
    · exact absurd (List.cons_prefix_cons.mp hpre).1 (by decide)
    · obtain ⟨rfl, hpre'⟩ := List.cons_prefix_cons.mp hpre
      exact absurd (List.cons_prefix_cons.mp hpre').1 (by decide)
    · obtain ⟨rfl, hpre'⟩ := List.cons_prefix_cons.mp hpre
      obtain ⟨rfl, _⟩ := List.cons_prefix_cons.mp hpre'
      exact hopen ⟨w ++ '/' :: rest, rfl⟩
  | character h => exact .character (quotedTail_append_of_ne_newline (by decide) h _)
  | sign h => exact .sign h
  | number hc hfront _ => exact .number hc hfront (Text.stops_cons.mpr hspace)
  | word hc hfront _ => exact .word hc hfront (Text.stops_cons.mpr hspace)
  | slash h => exact absurd (Text.stops_cons.mp h) (by decide)
  | lone h => exact .lone h

theorem Cuts.eq_slash_of_comment {c : Char} {w rest : Text} (h : Cuts c w .comment rest) :
    c = '/' := by
  generalize hk : TokenKind.comment = k at h
  cases h with
  | block _ => rfl
  | line _ _ => rfl
  | slash _ => rfl
  | sign h =>
    subst hk
    unfold signKind? at h
    split at h <;> simp at h
  | _ => cases hk

end Lexer

/-! ### Replacing comments -/

/-- The text from byte position `n` on, where each comment among the tokens is
replaced by a space. -/
def blankFrom (src : Text) : Nat → List Token → Text
  | n, [] => Text.slice src n (Text.size src)
  | n, t :: ts =>
    Text.slice src n t.start ++
      ((if t.kind = .comment then [' '] else t.text) ++ blankFrom src t.stop ts)

/-- The text with each comment that is no documentation replaced by one
space. -/
def blankComments (src : Text) : Text :=
  blankFrom src 0 (lex src)

example : blankComments "a/**/b /* \x7d */(\"/*\") /** c */ // d".toList =
    "a b  (\"/*\") /** c */  ".toList := by
  decide +kernel

theorem blankFrom_map_shift (pre cs : Text) (n : Nat) (ts : List Token) :
    blankFrom (pre ++ cs) (Text.size pre + n) (ts.map (Token.shift (Text.size pre))) =
      blankFrom cs n ts := by
  induction ts generalizing n with
  | nil => rw [List.map_nil, blankFrom, blankFrom, Text.size_append, Text.slice_append_add]
  | cons t ts ih =>
    have hgap := Text.slice_append_add pre cs n t.start
    rw [List.map_cons, blankFrom, blankFrom, ← ih, ← hgap]
    rfl

theorem blankComments_of_blank {gap : Text} (h : Text.Blank gap) : blankComments gap = gap := by
  have hslice := Text.slice_append [] gap []
  rw [blankComments, lex, lexFrom_of_blank h, blankFrom]
  simpa [Text.size] using hslice

/-- Replacing comments, token by token. -/
theorem blankComments_token {gap w rest : Text} {c : Char} {k : TokenKind}
    (hgap : Text.Blank gap) (hc : isBlank c = false) (h : Lexer.Cuts c w k rest) :
    blankComments (gap ++ c :: (w ++ rest)) =
      gap ++ ((if k = .comment then [' '] else c :: w) ++ blankComments rest) := by
  have hsplit : gap ++ c :: (w ++ rest) = gap ++ c :: w ++ rest := by simp
  have hfront : Text.slice (gap ++ c :: (w ++ rest)) 0 (Text.size gap) = gap := by
    have hslice := Text.slice_append [] gap (c :: (w ++ rest))
    rwa [Text.size, Nat.zero_add, List.nil_append] at hslice
  have hback := blankFrom_map_shift (gap ++ c :: w) rest 0 (lex rest)
  rw [← lexFrom_eq_map_lex, Nat.add_zero, Text.size_append, ← hsplit] at hback
  rw [blankComments, lex, lexFrom_token hgap hc h, blankFrom, Nat.zero_add, Token.atByte, hfront,
    hback, blankComments]

theorem blankComments_blank_append {gap : Text} (h : Text.Blank gap) (cs : Text) :
    blankComments (gap ++ cs) = gap ++ blankComments cs := by
  cases Lexer.begins cs with
  | blank gap' hgap' =>
    rw [blankComments_of_blank hgap', blankComments_of_blank (Text.blank_append.mpr ⟨h, hgap'⟩)]
  | token gap' c w k rest hgap' hc hcuts =>
    rw [← List.append_assoc, blankComments_token (Text.blank_append.mpr ⟨h, hgap'⟩) hc hcuts,
      blankComments_token hgap' hc hcuts, List.append_assoc]

/-- **Comments are replaced piece by piece.** -/
theorem Seam.blankComments_append {a b : Text} (h : Seam a b) :
    blankComments (a ++ b) = blankComments a ++ blankComments b := by
  induction a using lex_induction with
  | blank gap hgap => rw [blankComments_blank_append hgap, blankComments_of_blank hgap]
  | token gap c w k rest hgap hc hcuts ih =>
    obtain ⟨hcuts', hseam⟩ := (seam_token_iff hgap hc hcuts).mp h
    have hassoc : gap ++ c :: (w ++ rest) ++ b = gap ++ c :: (w ++ (rest ++ b)) := by simp
    rw [hassoc, blankComments_token hgap hc hcuts', blankComments_token hgap hc hcuts, ih hseam]
    simp only [List.append_assoc]

/-- A text starts like before, or with a space in place of a comment. -/
theorem startsLike_blankComments (cs : Text) :
    Text.StartsLike (blankComments cs) cs ∨
      ∃ r r', cs = '/' :: r ∧ blankComments cs = ' ' :: r' := by
  cases Lexer.begins cs with
  | blank gap hgap =>
    rw [blankComments_of_blank hgap]
    exact .inl fun _ hc => hc
  | token gap c w k rest hgap hc hcuts =>
    rw [blankComments_token hgap hc hcuts]
    cases gap with
    | cons d gap => exact .inl (Text.startsLike_cons d _ _)
    | nil =>
      split_ifs with hk
      · subst hk
        obtain rfl := hcuts.eq_slash_of_comment
        exact .inr ⟨_, _, rfl, rfl⟩
      · exact .inl (Text.startsLike_cons c _ _)

/-- A token that is no comment is cut the same in the new text. -/
theorem Lexer.Cuts.blanked {c : Char} {w rest : Text} {k : TokenKind} (h : Cuts c w k rest)
    (hk : k ≠ .comment) : Cuts c w k (blankComments rest) := by
  rcases startsLike_blankComments rest with hlike | ⟨r, r', rfl, hblank⟩
  · exact h.of_startsLike hlike
  · rw [hblank]
    exact h.before_space hk r'

/-! ### Corresponding positions -/

/-- The position `n` of a text has become `n'`: both stand behind the same
piece, and no token lies across its end. -/
def Corresponds (src : Text) (n n' : Nat) : Prop :=
  ∃ a b, src = a ++ b ∧ Seam a b ∧ n = Text.size a ∧ n' = Text.size (blankComments a)

theorem corresponds_size (src : Text) :
    Corresponds src (Text.size src) (Text.size (blankComments src)) :=
  ⟨src, [], (List.append_nil src).symm, seam_nil src, rfl, rfl⟩

/-- **Between corresponding positions** the new text is what the old one
becomes there. -/
theorem slice_blankComments {src : Text} {n n' m m' : Nat} (hn : Corresponds src n n')
    (hm : Corresponds src m m') :
    Text.slice (blankComments src) n' m' = blankComments (Text.slice src n m) := by
  obtain ⟨a, b, rfl, hab, rfl, rfl⟩ := hn
  obtain ⟨c, d, hcd, hseam, rfl, rfl⟩ := hm
  rcases List.append_eq_append_iff.mp hcd with ⟨e, rfl, rfl⟩ | ⟨e, rfl, rfl⟩
  · have hae : Seam a e := hab.of_startsLike (Text.startsLike_of_isPrefix (List.prefix_append e d))
    rw [hab.blankComments_append, (hab.of_append hseam).blankComments_append,
      hae.blankComments_append, Text.size_append, Text.size_append, ← List.append_assoc,
      ← List.append_assoc, Text.slice_append, Text.slice_append]
  · -- the second position is in front of the first, so both slices are empty
    have hce : Seam c e :=
      hseam.of_startsLike (Text.startsLike_of_isPrefix (List.prefix_append e b))
    have hempty : ∀ cs start stop, stop ≤ start → Text.slice cs start stop = [] := by
      intro cs start stop hle
      rw [Text.slice, Nat.sub_eq_zero_of_le hle]
      cases Text.dropBytes start cs <;> rfl
    rw [hempty _ _ _ (by rw [hce.blankComments_append, Text.size_append]; omega),
      hempty _ _ _ (by rw [Text.size_append]; omega), blankComments_of_blank Text.blank_nil]

/-! ### The tokens that stay -/

/-- The token `t` of a text has become the token `u`. -/
structure Token.Becomes (src : Text) (t u : Token) : Prop where
  kind : u.kind = t.kind
  text : u.text = t.text
  start : Corresponds src t.start u.start
  stop : Corresponds src t.stop u.stop

/-- Some comments of the first list are left out of the second; all other
tokens are related one by one. -/
inductive Thinned (R : Token → Token → Prop) : List Token → List Token → Prop
  | nil : Thinned R [] []
  | skip {t : Token} {ts us : List Token} (ht : t.kind = .comment) (h : Thinned R ts us) :
      Thinned R (t :: ts) us
  | keep {t u : Token} {ts us : List Token} (htu : R t u) (h : Thinned R ts us) :
      Thinned R (t :: ts) (u :: us)

/-- The tokens of a text behind a seam, and what has become of them. -/
theorem thinned_lexFrom {pre cs : Text} (h : Seam pre cs) :
    Thinned (Token.Becomes (pre ++ cs)) (lexFrom (Text.size pre) cs)
      (lexFrom (Text.size (blankComments pre)) (blankComments cs)) := by
  induction cs using lex_induction generalizing pre with
  | blank gap hgap =>
    rw [blankComments_of_blank hgap, lexFrom_of_blank hgap, lexFrom_of_blank hgap]
    exact .nil
  | token gap c w k rest hgap hc hcuts ih =>
    obtain ⟨hend, hone, hafter⟩ := h.token hgap hc hcuts
    have hsplit : pre ++ (gap ++ c :: (w ++ rest)) = pre ++ (gap ++ c :: w) ++ rest := by simp
    -- the token is the last one of the piece in front of the rest
    have hblank : blankComments (pre ++ (gap ++ c :: w)) =
        blankComments pre ++ (gap ++ if k = .comment then [' '] else c :: w) := by
      have htoken := blankComments_token hgap hc hend
      rw [blankComments_of_blank Text.blank_nil, List.append_nil, List.append_nil] at htoken
      rw [hone.blankComments_append, htoken]
    have hrest := ih hafter
    simp only [← hsplit, hblank, Text.size_append, ← Nat.add_assoc] at hrest
    rw [blankComments_token hgap hc hcuts, lexFrom_token hgap hc hcuts]
    split_ifs at hrest hblank ⊢ with hk
    · -- in place of the comment there is a blank
      have hspace : Text.Blank (gap ++ [' ']) := Text.blank_append.mpr ⟨hgap, by decide⟩
      rw [← List.append_assoc gap, lexFrom_blank_append hspace, Text.size_append, ← Nat.add_assoc]
      exact .skip hk hrest
    · rw [List.cons_append, lexFrom_token hgap hc (hcuts.blanked hk)]
      refine .keep ⟨rfl, rfl, ?_, ?_⟩ hrest
      · have hgapseam : Seam pre gap :=
          h.of_startsLike (Text.startsLike_of_isPrefix (List.prefix_append gap _))
        refine ⟨pre ++ gap, c :: (w ++ rest), by simp, h.append (seam_of_blank hgap _), ?_, ?_⟩
        · exact (Text.size_append pre gap).symm
        · rw [hgapseam.blankComments_append, blankComments_of_blank hgap, Text.size_append]
          rfl
      · refine ⟨_, rest, hsplit, hafter, ?_, ?_⟩
        · simp only [Token.atByte, Text.size_append, Nat.add_assoc]
        · simp only [hblank, Token.atByte, Text.size_append, Nat.add_assoc]

/-- **The tokens of a text without its comments** are its tokens but the
comments. -/
theorem thinned_lex (src : Text) :
    Thinned (Token.Becomes src) (lex src) (lex (blankComments src)) := by
  have h := thinned_lexFrom (seam_of_blank Text.blank_nil src)
  rwa [blankComments_of_blank Text.blank_nil] at h

end EnumTables
