/-
The forms a token can take.

`Cuts c w k rest` says that a token of class `k`, spelled `c :: w`, is cut off
in front of `rest`.  It has one constructor for each form of token and is the
graph of the function `cut`:

* **`Cuts.cut_eq`** and **`exists_cuts`** — `cut` returns exactly the pieces
  of a form;
* **`Cuts.of_startsLike`** — how a token ends depends on one character behind
  it: the text after that character may be replaced, and the token is cut the
  same at the end of the text.

The last is all that is needed to cut a text in pieces and to lex the pieces
on their own.  It does not let a text follow where none stood: a token that
reaches the end of the text may be unterminated.
-/
import EnumTables.Token.Lexer
import Mathlib.Data.List.TakeWhile
import Mathlib.Tactic.Common

namespace EnumTables

/-- A blank is no part of a word. -/
theorem isWordChar_of_isBlank {c : Char} (h : isBlank c = true) : isWordChar c = false := by
  have hcodes : ∀ n ∈ [9, 10, 11, 12, 13, 0x20, 0x85, 0xA0, 0x1680, 0x2000, 0x2001, 0x2002,
      0x2003, 0x2004, 0x2005, 0x2006, 0x2007, 0x2008, 0x2009, 0x200A, 0x2028, 0x2029, 0x202F,
      0x205F, 0x3000], isWordChar (Char.ofNat n) = false := by decide +kernel
  have hmem := hcodes c.toNat
  rw [Char.ofNat_toNat] at hmem
  apply hmem
  simp only [isBlank, Bool.or_eq_true, Bool.and_eq_true, decide_eq_true_eq, beq_iff_eq] at h
  simp only [List.mem_cons, List.not_mem_nil, or_false]
  omega

theorem isWordChar_of_isWordStart {c : Char} (h : isWordStart c = true) :
    isWordChar c = true := by
  simp only [isWordStart, isWordChar, Bool.or_eq_true] at h ⊢
  rcases h with (h | h) | h
  · exact .inl (.inl (.inl h))
  · exact .inl (.inr h)
  · exact .inr h

theorem isBlank_of_isWordStart {c : Char} (h : isWordStart c = true) : isBlank c = false := by
  by_contra hblank
  have hword := isWordChar_of_isWordStart h
  rw [isWordChar_of_isBlank (by simpa using hblank)] at hword
  exact Bool.false_ne_true hword

/-- A digit continues a word and does not start one. -/
theorem isWordChar_of_isDigit {c : Char} (h : c.isDigit = true) :
    isWordChar c = true ∧ isWordStart c = false := by
  have hcodes : ∀ n ∈ List.range' 48 10,
      isWordChar (Char.ofNat n) = true ∧ isWordStart (Char.ofNat n) = false := by decide +kernel
  have hmem := hcodes c.toNat
  rw [Char.ofNat_toNat] at hmem
  apply hmem
  have hle := Char.isDigit_iff_toNat.mp h
  simp only [List.mem_range'_1]
  exact ⟨hle.1, Nat.lt_succ_of_le hle.2⟩

namespace Text

/-- The text is empty or starts with a character outside of `p`. -/
def Stops (p : Char → Bool) (cs : Text) : Prop :=
  ∀ c, cs.head? = some c → p c = false

theorem stops_nil (p : Char → Bool) : Stops p [] := by
  intro c hc
  simp at hc

theorem stops_cons {p : Char → Bool} {c : Char} {cs : Text} :
    Stops p (c :: cs) ↔ p c = false := by
  simp [Stops]

theorem stops_dropWhile (p : Char → Bool) (cs : Text) : Stops p (cs.dropWhile p) := by
  intro c hc
  have h := List.head?_dropWhile_not p cs
  rw [hc] at h
  exact h

theorem stops_append {p : Char → Bool} {cs ds : Text} (hcs : Stops p cs) (hds : Stops p ds) :
    Stops p (cs ++ ds) := by
  cases cs with
  | nil => exact hds
  | cons c cs => exact stops_cons.mpr (stops_cons.mp hcs)

/-- The text is empty or starts with the first character of `ds`. -/
def StartsLike (cs ds : Text) : Prop :=
  ∀ c, cs.head? = some c → ds.head? = some c

theorem StartsLike.stops {p : Char → Bool} {cs ds : Text} (h : StartsLike cs ds)
    (hds : Stops p ds) : Stops p cs :=
  fun c hc => hds c (h c hc)

theorem StartsLike.eq_nil {cs : Text} (h : StartsLike cs []) : cs = [] := by
  cases cs with
  | nil => rfl
  | cons c cs => exact absurd (h c rfl) (by simp)

theorem startsLike_nil (ds : Text) : StartsLike [] ds := by
  intro c hc
  simp at hc

theorem startsLike_cons (c : Char) (cs ds : Text) : StartsLike (c :: cs) (c :: ds) :=
  fun _ h => h

theorem StartsLike.append_left {cs ds : Text} (h : StartsLike cs ds) (front : Text) :
    StartsLike (front ++ cs) (front ++ ds) := by
  cases front with
  | nil => exact h
  | cons c front => exact startsLike_cons c (front ++ cs) (front ++ ds)

theorem startsLike_of_isPrefix {cs ds : Text} (h : cs <+: ds) : StartsLike cs ds := by
  obtain ⟨es, rfl⟩ := h
  cases cs with
  | nil => exact startsLike_nil _
  | cons c cs => exact startsLike_cons c cs (cs ++ es)

theorem takeWhile_append_of_stops {p : Char → Bool} {front rest : Text}
    (hfront : ∀ c ∈ front, p c = true) (hrest : Stops p rest) :
    (front ++ rest).takeWhile p = front := by
  rw [List.takeWhile_append_of_pos hfront]
  cases rest with
  | nil => simp
  | cons c cs => simp [stops_cons.mp hrest]

theorem dropWhile_append_of_stops {p : Char → Bool} {front rest : Text}
    (hfront : ∀ c ∈ front, p c = true) (hrest : Stops p rest) :
    (front ++ rest).dropWhile p = rest := by
  rw [List.dropWhile_append_of_pos hfront]
  cases rest with
  | nil => simp
  | cons c cs => simp [stops_cons.mp hrest]

theorem through_cons_of_isPrefix {mark : Text} {c : Char} {cs : Text} (h : mark <+: c :: cs) :
    through mark (c :: cs) = (mark, (c :: cs).drop mark.length) := by
  rw [through, if_pos (List.isPrefixOf_iff_prefix.mpr h)]

theorem through_cons_of_not_isPrefix {mark : Text} {c : Char} {cs : Text}
    (h : ¬ mark <+: c :: cs) :
    through mark (c :: cs) = (c :: (through mark cs).1, (through mark cs).2) := by
  rw [through, if_neg (fun hpre => h (List.isPrefixOf_iff_prefix.mp hpre))]

/-- A text that is cut in front of something is cut behind the mark. -/
theorem suffix_of_through {mark front rest : Text}
    (h : through mark (front ++ rest) = (front, rest)) (hrest : rest ≠ []) :
    mark <:+ front := by
  induction front with
  | nil =>
    obtain ⟨c, cs, rfl⟩ := List.exists_cons_of_ne_nil hrest
    by_cases hpre : mark <+: c :: cs
    · rw [List.nil_append, through_cons_of_isPrefix hpre] at h
      obtain ⟨rfl, -⟩ := Prod.mk.inj h
      exact List.suffix_refl _
    · rw [List.nil_append, through_cons_of_not_isPrefix hpre] at h
      exact absurd (Prod.mk.inj h).1 (List.cons_ne_nil _ _)
  | cons c front ih =>
    by_cases hpre : mark <+: c :: (front ++ rest)
    · rw [List.cons_append, through_cons_of_isPrefix hpre] at h
      obtain ⟨rfl, -⟩ := Prod.mk.inj h
      exact List.suffix_refl _
    · rw [List.cons_append, through_cons_of_not_isPrefix hpre, Prod.mk.injEq,
        List.cons_inj_right] at h
      exact (ih (Prod.ext h.1 h.2)).trans (List.suffix_cons c front)

/-- What stands behind a closing mark may be replaced. -/
theorem through_append_of_through {mark front rest : Text} (hmark : mark ≠ [])
    (h : through mark (front ++ rest) = (front, rest)) (hrest : rest ≠ []) (rest' : Text) :
    through mark (front ++ rest') = (front, rest') := by
  induction front with
  | nil => exact absurd (List.suffix_nil.mp (suffix_of_through h hrest)) hmark
  | cons c front ih =>
    by_cases hpre : mark <+: c :: (front ++ rest)
    · rw [List.cons_append, through_cons_of_isPrefix hpre] at h
      have hfront := (Prod.mk.inj h).1
      rw [List.cons_append, through_cons_of_isPrefix (hfront ▸ List.prefix_append _ _), hfront]
      simp
    · rw [List.cons_append, through_cons_of_not_isPrefix hpre, Prod.mk.injEq,
        List.cons_inj_right] at h
      have hfront : through mark (front ++ rest) = (front, rest) := Prod.ext h.1 h.2
      have hpre' : ¬ mark <+: c :: (front ++ rest') := by
        -- the mark closes `front`, so a mark at `c` would lie in front of `rest'`
        intro hmark'
        have hlen := (suffix_of_through hfront hrest).length_le
        have hshort : mark <+: c :: front :=
          List.prefix_of_prefix_length_le hmark' (List.prefix_append (c :: front) rest')
            (Nat.le_succ_of_le hlen)
        exact hpre (hshort.trans (List.prefix_append (c :: front) rest))
      rw [List.cons_append, through_cons_of_not_isPrefix hpre', ih hfront]

theorem through_append_of_startsLike {mark front rest rest' : Text} (hmark : mark ≠ [])
    (h : through mark (front ++ rest) = (front, rest)) (hlike : StartsLike rest' rest) :
    through mark (front ++ rest') = (front, rest') := by
  by_cases hrest : rest = []
  · rw [hrest] at h hlike
    rw [hlike.eq_nil, h]
  · exact through_append_of_through hmark h hrest rest'

end Text

namespace Lexer

theorem quotedTail_cons {quote c : Char} (hc : c ≠ '\\') (cs : Text) :
    quotedTail quote (c :: cs) =
      if c = '\n' then ([], c :: cs)
      else if c = quote then ([c], cs)
      else (c :: (quotedTail quote cs).1, (quotedTail quote cs).2) := by
  rw [quotedTail]
  · intro h
    exact absurd h hc
  · intro d ds h
    exact absurd h hc

/-- What stands behind a literal may be replaced by a text that starts like
it. -/
theorem quotedTail_append_of_startsLike {quote : Char} {front rest rest' : Text}
    (h : quotedTail quote (front ++ rest) = (front, rest))
    (hlike : Text.StartsLike rest' rest) :
    quotedTail quote (front ++ rest') = (front, rest') := by
  generalize hcs : front ++ rest = cs at h
  fun_induction quotedTail quote cs generalizing front with
  | case1 =>
    obtain ⟨rfl, rfl⟩ := Prod.mk.inj h
    rw [hlike.eq_nil]
    rfl
  | case2 =>
    obtain ⟨rfl, rfl⟩ := Prod.mk.inj h
    rw [hlike.eq_nil]
    rfl
  | case3 c cs front' rest'' hq ih =>
    obtain ⟨rfl, rfl⟩ := Prod.mk.inj h
    simp only [List.cons_append, List.cons.injEq, true_and] at hcs
    rw [List.cons_append, List.cons_append, quotedTail, ih hcs hq]
  | case4 cs _ _ =>
    obtain ⟨rfl, rfl⟩ := Prod.mk.inj h
    cases rest' with
    | nil => rfl
    | cons r rest' =>
      rw [← Option.some.inj (hlike r rfl)]
      simp [quotedTail]
  | case5 cs hnil hcons hline =>
    obtain ⟨rfl, rfl⟩ := Prod.mk.inj h
    have hback : quote ≠ '\\' := by
      intro hc
      cases cs with
      | nil => exact hnil hc rfl
      | cons d ds => exact hcons d ds hc rfl
    rw [List.singleton_append, quotedTail_cons hback, if_neg hline, if_pos rfl]
  | case6 c cs hnil hcons hline hquote front' rest'' hq ih =>
    obtain ⟨rfl, rfl⟩ := Prod.mk.inj h
    obtain ⟨_, rfl⟩ := List.cons.inj hcs
    have hback : c ≠ '\\' := by
      intro hc
      cases hcs' : front' ++ rest'' with
      | nil => exact hnil hc hcs'
      | cons d ds => exact hcons d ds hc hcs'
    rw [List.cons_append, quotedTail_cons hback, if_neg hline, if_neg hquote, ih rfl hq]

/-- The class of a token that is a single sign. -/
def signKind? (c : Char) : Option TokenKind :=
  match c with
  | '{' => some .openBrace
  | '}' => some .closeBrace
  | '(' => some .openParen
  | ')' => some .closeParen
  | ',' => some .comma
  | ';' => some .semicolon
  | '@' => some .at
  | _ => none

/-- A character that is a token of its own without a class of its own. -/
def isLone (c : Char) : Bool :=
  c != '/' && c != '"' && c != '\'' && (signKind? c).isNone && !c.isDigit && !isWordStart c

/-- A token of class `k`, spelled `c :: w`, is cut off in front of `rest`. -/
inductive Cuts : Char → Text → TokenKind → Text → Prop
  | block {front rest : Text} (h : Text.through ['*', '/'] (front ++ rest) = (front, rest)) :
      Cuts '/' ('*' :: front) (blockKind (front ++ rest)) rest
  | line {front rest : Text} (hfront : ∀ c ∈ front, decide (c ≠ '\n') = true)
      (hrest : Text.Stops (fun c => decide (c ≠ '\n')) rest) : Cuts '/' ('/' :: front) .comment rest
  | textBlock {front rest : Text}
      (h : Text.through ['"', '"', '"'] (front ++ rest) = (front, rest)) :
      Cuts '"' ('"' :: '"' :: front) .literal rest
  | string {front rest : Text} (hopen : ¬ ['"', '"'] <+: front ++ rest)
      (h : quotedTail '"' (front ++ rest) = (front, rest)) : Cuts '"' front .literal rest
  | character {front rest : Text}
      (h : quotedTail '\'' (front ++ rest) = (front, rest)) : Cuts '\'' front .literal rest
  | sign {c : Char} {k : TokenKind} {rest : Text} (h : signKind? c = some k) : Cuts c [] k rest
  | number {c : Char} {front rest : Text} (hc : c.isDigit = true)
      (hfront : ∀ x ∈ front, isWordChar x = true) (hrest : Text.Stops isWordChar rest) :
      Cuts c front .literal rest
  | word {c : Char} {front rest : Text} (hc : isWordStart c = true)
      (hfront : ∀ x ∈ front, isWordChar x = true) (hrest : Text.Stops isWordChar rest) :
      Cuts c front .ident rest
  | slash {rest : Text} (h : Text.Stops (fun c => c = '*' || c = '/') rest) :
      Cuts '/' [] .other rest
  | lone {c : Char} {rest : Text} (h : isLone c = true) : Cuts c [] .other rest

theorem cut_of_signKind? {c : Char} {k : TokenKind} (h : signKind? c = some k) (cs : Text) :
    cut c cs = (k, [c], cs) := by
  unfold signKind? at h
  split at h <;> simp_all [cut]

/-- The characters that open no comment and no literal and are no sign. -/
theorem cut_of_plain {c : Char} {cs : Text}
    (hslash : c = '/' → Text.Stops (fun c => c = '*' || c = '/') cs) (hquote : c ≠ '"')
    (hapostrophe : c ≠ '\'') (hsign : signKind? c = none) :
    cut c cs =
      if c.isDigit then (.literal, c :: cs.takeWhile isWordChar, cs.dropWhile isWordChar)
      else if isWordStart c then (.ident, c :: cs.takeWhile isWordChar, cs.dropWhile isWordChar)
      else (.other, [c], cs) := by
  unfold cut
  split <;> simp_all [signKind?, Text.stops_cons]

/-- A sign is neither a blank nor a part of a word. -/
theorem plain_of_signKind? {c : Char} {k : TokenKind} (h : signKind? c = some k) :
    isBlank c = false ∧ isWordChar c = false := by
  have hmem : c ∈ ['{', '}', '(', ')', ',', ';', '@'] := by
    unfold signKind? at h
    split at h <;> simp_all
  have hplain : ['{', '}', '(', ')', ',', ';', '@'].all
      (fun c => !isBlank c && !isWordChar c) = true := by
    decide +kernel
  simpa using List.all_eq_true.mp hplain c hmem

theorem signKind?_of_isWordChar {c : Char} (h : isWordChar c = true) : signKind? c = none := by
  cases hsign : signKind? c with
  | none => rfl
  | some k =>
    rw [(plain_of_signKind? hsign).2] at h
    exact absurd h Bool.false_ne_true

/-- A character of a word opens no comment and no literal and is no sign. -/
theorem cut_of_isWordChar {c : Char} (h : isWordChar c = true) (cs : Text) :
    cut c cs =
      if c.isDigit then (.literal, c :: cs.takeWhile isWordChar, cs.dropWhile isWordChar)
      else if isWordStart c then (.ident, c :: cs.takeWhile isWordChar, cs.dropWhile isWordChar)
      else (.other, [c], cs) := by
  apply cut_of_plain
  · rintro rfl
    exact absurd h (by decide)
  · rintro rfl
    exact absurd h (by decide)
  · rintro rfl
    exact absurd h (by decide)
  · exact signKind?_of_isWordChar h

/-- The form of a token is what `cut` returns. -/
theorem Cuts.cut_eq {c : Char} {w : Text} {k : TokenKind} {rest : Text} (h : Cuts c w k rest) :
    cut c (w ++ rest) = (k, c :: w, rest) := by
  cases h with
  | block h => simp [cut, h]
  | line hfront hrest =>
    rw [List.cons_append, cut, Text.takeWhile_append_of_stops hfront hrest,
      Text.dropWhile_append_of_stops hfront hrest]
  | textBlock h => simp [cut, h]
  | string hopen h =>
    rw [cut, h]
    intro r hr
    exact hopen ⟨r, hr.symm⟩
  | character h => simp [cut, h]
  | sign h => exact cut_of_signKind? h rest
  | number hc hfront hrest =>
    rw [cut_of_isWordChar (isWordChar_of_isDigit hc).1, if_pos hc,
      Text.takeWhile_append_of_stops hfront hrest, Text.dropWhile_append_of_stops hfront hrest]
  | word hc hfront hrest =>
    have hdigit : ¬ c.isDigit = true := by
      intro hdigit
      rw [(isWordChar_of_isDigit hdigit).2] at hc
      exact Bool.false_ne_true hc
    rw [cut_of_isWordChar (isWordChar_of_isWordStart hc), if_neg hdigit, if_pos hc,
      Text.takeWhile_append_of_stops hfront hrest, Text.dropWhile_append_of_stops hfront hrest]
  | slash h =>
    rw [List.nil_append, cut_of_plain (fun _ => h) (by decide) (by decide) (by decide)]
    rfl
  | lone h =>
    simp only [isLone, Bool.and_eq_true, bne_iff_ne, Option.isNone_iff_eq_none,
      Bool.not_eq_true'] at h
    obtain ⟨⟨⟨⟨⟨hslash, hquote⟩, hapostrophe⟩, hsign⟩, hdigit⟩, hstart⟩ := h
    rw [List.nil_append, cut_of_plain (fun h => absurd h hslash) hquote hapostrophe hsign, hdigit,
      hstart]
    rfl

theorem exists_cuts_slash (cs : Text) : ∃ w k rest, cs = w ++ rest ∧ Cuts '/' w k rest := by
  by_cases hstar : ['*'] <+: cs
  · obtain ⟨r, rfl⟩ := hstar
    have hr := Text.through_append ['*', '/'] r
    refine ⟨'*' :: _, _, _, congrArg ('*' :: ·) hr.symm, .block ?_⟩
    rw [hr]
  by_cases hline : ['/'] <+: cs
  · obtain ⟨r, rfl⟩ := hline
    refine ⟨'/' :: r.takeWhile (fun c => decide (c ≠ '\n')), _, _, ?_,
      .line (fun _ => List.mem_takeWhile_imp) (Text.stops_dropWhile _ r)⟩
    exact congrArg ('/' :: ·) List.takeWhile_append_dropWhile.symm
  · refine ⟨[], _, cs, rfl, .slash ?_⟩
    intro c hc
    obtain ⟨r, rfl⟩ := List.head?_eq_some_iff.mp hc
    have hne : c ≠ '*' ∧ c ≠ '/' := by
      constructor
      · rintro rfl
        exact hstar ⟨r, rfl⟩
      · rintro rfl
        exact hline ⟨r, rfl⟩
    simp [hne]

theorem exists_cuts_quote (cs : Text) : ∃ w k rest, cs = w ++ rest ∧ Cuts '"' w k rest := by
  by_cases hopen : ['"', '"'] <+: cs
  · obtain ⟨r, rfl⟩ := hopen
    have hr := Text.through_append ['"', '"', '"'] r
    refine ⟨'"' :: '"' :: _, _, _, congrArg ('"' :: '"' :: ·) hr.symm, .textBlock ?_⟩
    rw [hr]
  · have hr := quotedTail_append '"' cs
    refine ⟨_, _, _, hr.symm, .string ?_ ?_⟩
    · rwa [hr]
    · rw [hr]

/-- A token can be cut off every text that starts with a nonblank
character. -/
theorem exists_cuts (c : Char) (cs : Text) : ∃ w k rest, cs = w ++ rest ∧ Cuts c w k rest := by
  by_cases hslash : c = '/'
  · subst hslash
    exact exists_cuts_slash cs
  by_cases hquote : c = '"'
  · subst hquote
    exact exists_cuts_quote cs
  by_cases hapostrophe : c = '\''
  · subst hapostrophe
    have hr := quotedTail_append '\'' cs
    refine ⟨_, _, _, hr.symm, .character ?_⟩
    rw [hr]
  cases hsign : signKind? c with
  | some k => exact ⟨[], k, cs, rfl, .sign hsign⟩
  | none =>
    -- a digit continues a word too, so numbers come before words
    by_cases hdigit : c.isDigit = true
    · exact ⟨_, _, _, List.takeWhile_append_dropWhile.symm,
        .number hdigit (fun _ => List.mem_takeWhile_imp) (Text.stops_dropWhile isWordChar cs)⟩
    by_cases hstart : isWordStart c = true
    · exact ⟨_, _, _, List.takeWhile_append_dropWhile.symm,
        .word hstart (fun _ => List.mem_takeWhile_imp) (Text.stops_dropWhile isWordChar cs)⟩
    · exact ⟨[], _, cs, rfl, .lone (by simp_all [isLone])⟩

theorem blockKind_cons_cons (a b : Char) (cs : Text) :
    blockKind (a :: b :: cs) = if a = '*' ∧ b ≠ '/' then .docComment else .comment := by
  by_cases ha : a = '*'
  · by_cases hb : b = '/'
    · simp [ha, hb, blockKind]
    · simp [ha, hb, blockKind]
  · simp [ha, blockKind]

theorem isComment_blockKind (cs : Text) : (blockKind cs).isComment = true := by
  unfold blockKind
  split <;> rfl

theorem blockKind_append {front : Text} (h : 2 ≤ front.length) (rest : Text) :
    blockKind (front ++ rest) = blockKind front := by
  match front, h with
  | a :: b :: front, _ =>
    rw [List.cons_append, List.cons_append, blockKind_cons_cons, blockKind_cons_cons]

/-- What stands behind a token may be replaced by a text that starts like
it. -/
theorem Cuts.of_startsLike {c : Char} {w : Text} {k : TokenKind} {rest rest' : Text}
    (h : Cuts c w k rest) (hlike : Text.StartsLike rest' rest) : Cuts c w k rest' := by
  cases h with
  | @block front rest h =>
    have hclass : blockKind (front ++ rest) = blockKind (front ++ rest') := by
      -- a comment in front of something is closed, so its class is settled inside of it
      by_cases hrest : rest = []
      · subst hrest
        rw [hlike.eq_nil]
      · have hlen := (Text.suffix_of_through h hrest).length_le
        rw [blockKind_append hlen, blockKind_append hlen]
    rw [hclass]
    exact .block (Text.through_append_of_startsLike (by simp) h hlike)
  | line hfront hrest => exact .line hfront (hlike.stops hrest)
  | textBlock h => exact .textBlock (Text.through_append_of_startsLike (by simp) h hlike)
  | string hopen h =>
    refine .string ?_ (quotedTail_append_of_startsLike h hlike)
    -- of two quotes in `w ++ rest'` the second is at the latest the head of `rest`
    intro hpre
    rcases w with _ | ⟨a, _ | ⟨b, w⟩⟩
    · obtain ⟨r, rfl⟩ := hpre
      obtain ⟨rs, rfl⟩ := List.head?_eq_some_iff.mp (hlike '"' rfl)
      simp [quotedTail] at h
    · obtain ⟨rfl, r, rfl⟩ := List.cons_prefix_cons.mp hpre
      obtain ⟨rs, rfl⟩ := List.head?_eq_some_iff.mp (hlike '"' rfl)
      exact hopen ⟨rs, rfl⟩
    · obtain ⟨rfl, hpre'⟩ := List.cons_prefix_cons.mp hpre
      obtain ⟨rfl, _⟩ := List.cons_prefix_cons.mp hpre'
      exact hopen ⟨w ++ rest, rfl⟩
  | character h => exact .character (quotedTail_append_of_startsLike h hlike)
  | sign h => exact .sign h
  | number hc hfront hrest => exact .number hc hfront (hlike.stops hrest)
  | word hc hfront hrest => exact .word hc hfront (hlike.stops hrest)
  | slash h => exact .slash (hlike.stops h)
  | lone h => exact .lone h

end Lexer

end EnumTables
