/-
The tokens of a text, one after the other.

Lexing is a recursion with two cases: the text is blank, or it is a blank
gap, a token and a rest.  `lex_induction` is that recursion as an induction
principle, and every fact about `lexFrom` below follows it:

* **`lexFrom_token`** — one step: the tokens of a gap, a token and a rest;
* **`lexFrom_add`** — the position of the text moves the tokens and changes
  nothing else about them.
-/
import EnumTables.Proofs.Token.Cuts

namespace EnumTables

/-- The text holds nothing but blanks. -/
def Text.Blank (cs : Text) : Prop :=
  ∀ c ∈ cs, isBlank c = true

instance (cs : Text) : Decidable (Text.Blank cs) :=
  List.decidableBAll _ cs

namespace Text

theorem blank_nil : Blank [] := by
  intro c hc
  simp at hc

theorem blank_append {cs ds : Text} : Blank (cs ++ ds) ↔ Blank cs ∧ Blank ds := by
  simp only [Blank, List.mem_append]
  constructor
  · intro h
    exact ⟨fun c hc => h c (.inl hc), fun c hc => h c (.inr hc)⟩
  · rintro ⟨hcs, hds⟩ c (hc | hc)
    · exact hcs c hc
    · exact hds c hc

/-- A word ends in front of blanks. -/
theorem Blank.stops {cs : Text} (h : Blank cs) : Stops isWordChar cs := by
  intro c hc
  exact isWordChar_of_isBlank (h c (List.mem_of_mem_head? hc))

theorem Blank.dropWhile_append {gap : Text} (h : Blank gap) (cs : Text) :
    (gap ++ cs).dropWhile isBlank = cs.dropWhile isBlank :=
  List.dropWhile_append_of_pos h

theorem Blank.takeWhile_append {gap : Text} (h : Blank gap) (cs : Text) :
    (gap ++ cs).takeWhile isBlank = gap ++ cs.takeWhile isBlank :=
  List.takeWhile_append_of_pos h

end Text

/-- The token at a position that is read off a text. -/
def Token.atByte (n : Nat) (k : TokenKind) (text : Text) : Token :=
  ⟨k, text, n, n + Text.size text⟩

/-- The token as it stands in a text that is put behind `n` bytes. -/
def Token.shift (n : Nat) (t : Token) : Token :=
  ⟨t.kind, t.text, n + t.start, n + t.stop⟩

/-- How a text begins: it is blank, or there is a token behind a blank gap. -/
inductive Lexer.Begins : Text → Prop
  | blank (gap : Text) (hgap : Text.Blank gap) : Begins gap
  | token (gap : Text) (c : Char) (w : Text) (k : TokenKind) (rest : Text)
    (hgap : Text.Blank gap) (hc : isBlank c = false) (hcuts : Cuts c w k rest) :
    Begins (gap ++ c :: (w ++ rest))

theorem Lexer.begins (cs : Text) : Begins cs := by
  have hsplit := List.takeWhile_append_dropWhile (p := isBlank) (l := cs)
  have hgap : Text.Blank (cs.takeWhile isBlank) := fun _ => List.mem_takeWhile_imp
  cases hdrop : cs.dropWhile isBlank with
  | nil =>
    rw [hdrop, List.append_nil] at hsplit
    rw [← hsplit]
    exact .blank _ hgap
  | cons c ds =>
    obtain ⟨w, k, rest, rfl, hcuts⟩ := exists_cuts c ds
    have hc : isBlank c = false := Text.stops_dropWhile isBlank cs c (by rw [hdrop]; rfl)
    rw [hdrop] at hsplit
    rw [← hsplit]
    exact .token _ c w k rest hgap hc hcuts

/-- **Induction along the tokens of a text.** -/
@[elab_as_elim]
theorem lex_induction {motive : Text → Prop}
    (blank : ∀ gap, Text.Blank gap → motive gap)
    (token : ∀ gap c w k rest, Text.Blank gap → isBlank c = false → Lexer.Cuts c w k rest →
      motive rest → motive (gap ++ c :: (w ++ rest)))
    (cs : Text) : motive cs := by
  -- a token is never empty, so the rest is shorter than the text
  induction hn : cs.length using Nat.strongRecOn generalizing cs with
  | ind n ih =>
    cases Lexer.begins cs with
    | blank _ hgap => exact blank _ hgap
    | token gap c w k rest hgap hc hcuts =>
      refine token gap c w k rest hgap hc hcuts (ih rest.length ?_ rest rfl)
      rw [← hn]
      simp only [List.length_append, List.length_cons]
      omega

theorem Token.read?_of_blank {gap : Text} (h : Text.Blank gap) (n : Nat) :
    Token.read? n gap = none := by
  have hdrop := h.dropWhile_append []
  rw [List.append_nil] at hdrop
  rw [Token.read?, hdrop]
  rfl

/-- Reading takes the token behind a gap and leaves the rest. -/
theorem Token.read?_token {gap rest w : Text} {c : Char} {k : TokenKind} (hgap : Text.Blank gap)
    (hc : isBlank c = false) (h : Lexer.Cuts c w k rest) (n : Nat) :
    Token.read? n (gap ++ c :: (w ++ rest)) =
      some (Token.atByte (n + Text.size gap) k (c :: w), rest) := by
  rw [Token.read?, hgap.dropWhile_append, hgap.takeWhile_append]
  simp only [List.dropWhile_cons, List.takeWhile_cons, hc, h.cut_eq, List.append_nil,
    Bool.false_eq_true, if_false]
  rfl

theorem lexFrom_of_blank {gap : Text} (h : Text.Blank gap) (n : Nat) : lexFrom n gap = [] := by
  rw [lexFrom]
  split
  · rfl
  · rename_i h'
    rw [Token.read?_of_blank h] at h'
    exact absurd h' (by simp)

/-- One step of lexing. -/
theorem lexFrom_token {gap rest w : Text} {c : Char} {k : TokenKind} (hgap : Text.Blank gap)
    (hc : isBlank c = false) (h : Lexer.Cuts c w k rest) (n : Nat) :
    lexFrom n (gap ++ c :: (w ++ rest)) =
      Token.atByte (n + Text.size gap) k (c :: w) ::
        lexFrom (n + Text.size gap + Text.size (c :: w)) rest := by
  rw [lexFrom]
  split
  · rename_i h'
    rw [Token.read?_token hgap hc h] at h'
    exact absurd h' (by simp)
  · rename_i t rest' h'
    rw [Token.read?_token hgap hc h] at h'
    obtain ⟨rfl, rfl⟩ := Prod.mk.inj (Option.some.inj h')
    rfl

/-- A token at the very start of a text. -/
theorem lexFrom_cuts {c : Char} {w rest : Text} {k : TokenKind} (hc : isBlank c = false)
    (h : Lexer.Cuts c w k rest) (n : Nat) :
    lexFrom n (c :: (w ++ rest)) =
      Token.atByte n k (c :: w) :: lexFrom (n + Text.size (c :: w)) rest :=
  lexFrom_token Text.blank_nil hc h n

theorem lexFrom_sign {c : Char} {k : TokenKind} (h : Lexer.signKind? c = some k) (n : Nat)
    (rest : Text) :
    lexFrom n (c :: rest) = Token.atByte n k [c] :: lexFrom (n + Text.size [c]) rest :=
  lexFrom_cuts (Lexer.plain_of_signKind? h).1 (.sign h) n

/-- A word in front of a text that does not continue it. -/
theorem lexFrom_word {c : Char} {w rest : Text} (hc : isWordStart c = true)
    (hw : w.all isWordChar = true) (hrest : Text.Stops isWordChar rest) (n : Nat) :
    lexFrom n (c :: (w ++ rest)) =
      Token.atByte n .ident (c :: w) :: lexFrom (n + Text.size (c :: w)) rest :=
  lexFrom_cuts (isBlank_of_isWordStart hc) (.word hc (List.all_eq_true.mp hw) hrest) n

theorem lexFrom_nil (n : Nat) : lexFrom n [] = [] :=
  lexFrom_of_blank Text.blank_nil n

/-- A gap in front of a text only moves its tokens. -/
theorem lexFrom_blank_append {gap : Text} (h : Text.Blank gap) (n : Nat) (cs : Text) :
    lexFrom n (gap ++ cs) = lexFrom (n + Text.size gap) cs := by
  cases Lexer.begins cs with
  | blank gap' hgap' =>
    rw [lexFrom_of_blank hgap', lexFrom_of_blank (Text.blank_append.mpr ⟨h, hgap'⟩)]
  | token gap' c w k rest hgap' hc hcuts =>
    rw [← List.append_assoc, lexFrom_token (Text.blank_append.mpr ⟨h, hgap'⟩) hc hcuts,
      lexFrom_token hgap' hc hcuts, Text.size_append, ← Nat.add_assoc]

/-- The position of a text moves its tokens. -/
theorem lexFrom_add (m n : Nat) (cs : Text) :
    lexFrom (m + n) cs = (lexFrom n cs).map (Token.shift m) := by
  induction cs using lex_induction generalizing n with
  | blank gap hgap => rw [lexFrom_of_blank hgap, lexFrom_of_blank hgap, List.map_nil]
  | token gap c w k rest hgap hc hcuts ih =>
    rw [lexFrom_token hgap hc hcuts, lexFrom_token hgap hc hcuts, List.map_cons, ← ih]
    simp only [Token.atByte, Token.shift, Nat.add_assoc]

theorem lexFrom_eq_map_lex (n : Nat) (cs : Text) :
    lexFrom n cs = (lex cs).map (Token.shift n) := by
  rw [lex, ← lexFrom_add, Nat.add_zero]

end EnumTables
