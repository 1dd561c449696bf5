/-
Lexing loses nothing.

The tokens of a text are pieces of it, in order and without overlap, and what
stands between them is blank.  Every position that lexing computes lies
between two characters, so no slice is taken inside a character.

* **`Token.Within`** — the token is a piece of the text at its position;
* **`within_of_mem_lexFrom`**, **`pairwise_lexFrom`**, **`blank_of_mem_gaps`** —
  the tokens are pieces, in order, and the gaps between them blank;
* **`exists_mem_lexFrom`** — a nonblank character lies in a token;
* **`Cursor.read_eq`** — reading one token after the other returns the tokens
  of `lex` and then nothing more;
* **`lex_partition`** — all of this for a whole text.

The statements about `lexFrom` speak of a text `pre ++ cs` of which `cs` is
lexed, so that positions are sizes of prefixes.
-/
import EnumTables.Proofs.Token.Stream
import EnumTables.Token.Cursor

namespace EnumTables

namespace Text

/-- The byte position lies between two characters, or at an end. -/
def IsBoundary (cs : Text) (n : Nat) : Prop :=
  ∃ front, front <+: cs ∧ size front = n

theorem isBoundary_size (front back : Text) : IsBoundary (front ++ back) (size front) :=
  ⟨front, List.prefix_append front back, rfl⟩

theorem IsBoundary.le_size {cs : Text} {n : Nat} (h : IsBoundary cs n) : n ≤ size cs := by
  obtain ⟨front, ⟨back, rfl⟩, rfl⟩ := h
  rw [size_append]
  omega

theorem size_pos_of_ne_nil {cs : Text} (h : cs ≠ []) : 0 < size cs := by
  obtain ⟨c, ds, rfl⟩ := List.exists_cons_of_ne_nil h
  have hpos := c.utf8Size_pos
  rw [size]
  omega

theorem dropBytes_append_add (pre cs : Text) (n : Nat) :
    dropBytes (size pre + n) (pre ++ cs) = dropBytes n cs := by
  induction pre with
  | nil => rw [size, Nat.zero_add, List.nil_append]
  | cons c pre ih =>
    have hpos := c.utf8Size_pos
    rw [List.cons_append, size, dropBytes]
    · rw [Nat.add_assoc, Nat.add_sub_cancel_left, ih]
    · omega

theorem slice_append_add (pre cs : Text) (start stop : Nat) :
    slice (pre ++ cs) (size pre + start) (size pre + stop) = slice cs start stop := by
  rw [slice, dropBytes_append_add, Nat.add_sub_add_left, slice]

/-- A text of a gap, a word and a rest is cut in the gap, inside the word or in
the rest. -/
theorem cut_cases {gap word rest front back : Text} (h : gap ++ (word ++ rest) = front ++ back) :
    (∃ m, gap = front ++ m ∧ back = m ++ (word ++ rest)) ∨
    (∃ m m', word = m ++ m' ∧ m ≠ [] ∧ m' ≠ [] ∧ front = gap ++ m ∧ back = m' ++ rest) ∨
    (∃ m, front = gap ++ word ++ m ∧ rest = m ++ back) := by
  rcases List.append_eq_append_iff.mp h with ⟨m, rfl, hm⟩ | ⟨m, rfl, hm⟩
  · rcases List.append_eq_append_iff.mp hm with ⟨m', rfl, hrest⟩ | ⟨m', rfl, hback⟩
    · exact .inr (.inr ⟨m', by rw [List.append_assoc], hrest⟩)
    · by_cases hm : m = []
      · subst hm
        exact .inl ⟨[], by simp, by simpa using hback⟩
      by_cases hm' : m' = []
      · subst hm'
        exact .inr (.inr ⟨[], by simp, by simpa using hback.symm⟩)
      · exact .inr (.inl ⟨m, m', rfl, hm, hm', rfl, hback⟩)
  · exact .inl ⟨m, rfl, hm⟩

end Text

/-- The token is a piece of the text, at its position. -/
def Token.Within (src : Text) (t : Token) : Prop :=
  t.text ≠ [] ∧ ∃ front back, src = front ++ t.text ++ back ∧ t.start = Text.size front ∧
    t.stop = Text.size front + Text.size t.text

namespace Token.Within

variable {src : Text} {t : Token}

theorem start_lt_stop (h : t.Within src) : t.start < t.stop := by
  obtain ⟨hne, front, back, -, hstart, hstop⟩ := h
  have hpos := Text.size_pos_of_ne_nil hne
  omega

theorem text_eq (h : t.Within src) : t.text = Text.slice src t.start t.stop := by
  obtain ⟨-, front, back, hsrc, hstart, hstop⟩ := h
  rw [hsrc, hstart, hstop, Text.slice_append]

theorem isBoundary_add_size (h : t.Within src) {lead : Text} (hlead : lead <+: t.text) :
    Text.IsBoundary src (t.start + Text.size lead) := by
  obtain ⟨-, front, back, hsrc, hstart, -⟩ := h
  obtain ⟨tail, htail⟩ := hlead
  have hboundary := Text.isBoundary_size (front ++ lead) (tail ++ back)
  rw [Text.size_append, ← List.append_assoc, List.append_assoc front, htail, ← hsrc, ← hstart]
    at hboundary
  exact hboundary

theorem isBoundary_start (h : t.Within src) : Text.IsBoundary src t.start :=
  h.isBoundary_add_size List.nil_prefix

theorem isBoundary_stop (h : t.Within src) : Text.IsBoundary src t.stop := by
  have hboundary := h.isBoundary_add_size (List.prefix_refl t.text)
  obtain ⟨-, front, back, -, hstart, hstop⟩ := h
  rwa [hstart, ← hstop] at hboundary

end Token.Within

/-- The byte at position `n` belongs to the token. -/
def Token.Covers (n : Nat) (t : Token) : Prop :=
  t.start ≤ n ∧ n < t.stop

/-- The pieces of a text in front of, between and behind tokens, from byte
position `n` on. -/
def gaps (src : Text) : Nat → List Token → List Text
  | n, [] => [Text.slice src n (Text.size src)]
  | n, t :: ts => Text.slice src n t.start :: gaps src t.stop ts

theorem within_of_mem_lexFrom (pre cs : Text) :
    ∀ t ∈ lexFrom (Text.size pre) cs, t.Within (pre ++ cs) := by
  induction cs using lex_induction generalizing pre with
  | blank gap hgap =>
    intro t ht
    rw [lexFrom_of_blank hgap] at ht
    simp at ht
  | token gap c w k rest hgap hc hcuts ih =>
    intro t ht
    rw [lexFrom_token hgap hc hcuts, ← Text.size_append, ← Text.size_append] at ht
    rcases List.mem_cons.mp ht with rfl | ht
    · refine ⟨List.cons_ne_nil c w, pre ++ gap, rest, ?_, rfl, rfl⟩
      simp [Token.atByte]
    · have hrest := ih (pre ++ gap ++ c :: w) t ht
      simpa using hrest

/-- Tokens stand behind the position at which lexing starts. -/
theorem le_start_of_mem_lexFrom {n : Nat} {cs : Text} {t : Token} (ht : t ∈ lexFrom n cs) :
    n ≤ t.start := by
  rw [lexFrom_eq_map_lex] at ht
  obtain ⟨u, -, rfl⟩ := List.mem_map.mp ht
  exact Nat.le_add_right n u.start

theorem pairwise_lexFrom (n : Nat) (cs : Text) :
    (lexFrom n cs).Pairwise fun t u => t.stop ≤ u.start := by
  induction cs using lex_induction generalizing n with
  | blank gap hgap =>
    rw [lexFrom_of_blank hgap]
    exact List.Pairwise.nil
  | token gap c w k rest hgap hc hcuts ih =>
    rw [lexFrom_token hgap hc hcuts]
    exact List.Pairwise.cons (fun u hu => le_start_of_mem_lexFrom hu) (ih _)

theorem blank_of_mem_gaps (pre cs : Text) :
    ∀ gap ∈ gaps (pre ++ cs) (Text.size pre) (lexFrom (Text.size pre) cs), Text.Blank gap := by
  induction cs using lex_induction generalizing pre with
  | blank gap hgap =>
    intro g hg
    have hslice := Text.slice_append pre gap []
    rw [lexFrom_of_blank hgap, gaps, List.mem_singleton, Text.size_append] at hg
    rw [List.append_nil] at hslice
    rw [hg, hslice]
    exact hgap
  | token gap c w k rest hgap hc hcuts ih =>
    intro g hg
    rw [lexFrom_token hgap hc hcuts, gaps, Token.atByte, ← Text.size_append,
      ← Text.size_append] at hg
    rcases List.mem_cons.mp hg with rfl | hg
    · rw [Text.size_append, ← List.append_assoc, Text.slice_append]
      exact hgap
    · have hrest := ih (pre ++ gap ++ c :: w) g
      simp only [List.append_assoc, List.cons_append] at hrest hg
      exact hrest hg

/-- Tokens in order cover no byte twice. -/
theorem eq_of_covers {ts : List Token} (h : ts.Pairwise fun t u => t.stop ≤ u.start)
    {i j : Fin ts.length} {n : Nat} (hi : (ts.get i).Covers n) (hj : (ts.get j).Covers n) :
    i = j := by
  simp only [Token.Covers, List.get_eq_getElem] at hi hj
  rcases Nat.lt_trichotomy i.val j.val with hlt | heq | hlt
  · have := List.pairwise_iff_getElem.mp h i j i.isLt j.isLt hlt
    omega
  · exact Fin.ext heq
  · have := List.pairwise_iff_getElem.mp h j i j.isLt i.isLt hlt
    omega

/-- A nonblank character lies in a token. -/
theorem exists_mem_lexFrom {cs front back : Text} {c : Char} (hcs : cs = front ++ c :: back)
    (hc : isBlank c = false) (n : Nat) :
    ∃ t ∈ lexFrom n cs, t.Covers (n + Text.size front) := by
  have hnot : ∀ {gap : Text}, Text.Blank gap → c ∉ gap := by
    intro gap hgap hmem
    rw [hgap c hmem] at hc
    exact absurd hc (by decide)
  induction cs using lex_induction generalizing front n with
  | blank gap hgap => exact absurd (by rw [hcs]; simp) (hnot hgap)
  | token gap d w k rest hgap hd hcuts ih =>
    rw [lexFrom_token hgap hd hcuts]
    have hcut : gap ++ (d :: w ++ rest) = front ++ c :: back := hcs
    -- the character is in the gap, in the token or in the rest; a gap holds blanks only
    rcases Text.cut_cases hcut with
      ⟨m, rfl, hback⟩ | ⟨m, m', hword, -, hm', rfl, -⟩ | ⟨m, rfl, hrest⟩
    · cases m with
      | nil =>
        -- the character is the first one of the token
        have hpos := Text.size_pos_of_ne_nil (List.cons_ne_nil d w)
        refine ⟨_, List.mem_cons_self, ?_⟩
        simp only [Token.Covers, Token.atByte, List.append_nil]
        omega
      | cons x m =>
        obtain ⟨rfl, -⟩ := List.cons.inj hback
        exact absurd (by simp) (hnot hgap)
    · have hpos := Text.size_pos_of_ne_nil hm'
      refine ⟨_, List.mem_cons_self, ?_⟩
      simp only [Token.Covers, Token.atByte, hword, Text.size_append]
      omega
    · obtain ⟨t, ht, hle, hlt⟩ := ih hrest (n + Text.size gap + Text.size (d :: w))
      refine ⟨t, List.mem_cons_of_mem _ ht, ?_⟩
      simp only [Token.Covers, Text.size_append] at hle hlt ⊢
      omega

/-- The number of tokens is at most that of the characters. -/
theorem length_lexFrom_le (n : Nat) (cs : Text) : (lexFrom n cs).length ≤ cs.length := by
  induction cs using lex_induction generalizing n with
  | blank gap hgap =>
    rw [lexFrom_of_blank hgap]
    exact Nat.zero_le _
  | token gap c w k rest hgap hc hcuts ih =>
    have hrest := ih (n + Text.size gap + Text.size (c :: w))
    rw [lexFrom_token hgap hc hcuts]
    simp only [List.length_cons, List.length_append]
    omega

namespace Cursor

/-- What the read number `n` from a cursor returns, all reads before it
done. -/
def read : Nat → Cursor → Option Token
  | 0, c => c.next.1
  | n + 1, c => read n c.next.2

theorem tokens_eq (c : Cursor) :
    c.tokens = match c.next? with
      | none => []
      | some (t, d) => t :: d.tokens := by
  rw [tokens, lexFrom, next?]
  split <;> rename_i h <;> rw [h]
  rfl

/-- Reads return the tokens of the text in order, and nothing after the
last. -/
theorem read_eq (n : Nat) (c : Cursor) : read n c = c.tokens[n]? := by
  induction n generalizing c with
  | zero =>
    rw [read, next, tokens_eq]
    cases c.next? with
    | none => rfl
    | some found => rfl
  | succ n ih =>
    rw [read, ih, next, tokens_eq c]
    cases hnext : c.next? with
    | none =>
      -- a read at the end leaves the cursor where it is
      rw [tokens_eq, hnext]
      rfl
    | some found => rfl

end Cursor

/-- **Lexing is a lossless partition.**  The tokens of a text are nonempty
pieces of it, at positions between characters (where a comment or text block
opens, also behind its opening), in order and without overlap; outside of
them the text is blank; a nonblank character lies in exactly one of them; and
reading token after token returns them all and then ends. -/
theorem lex_partition (src : Text) :
    (∀ t ∈ lex src, t.start < t.stop ∧ t.text = Text.slice src t.start t.stop) ∧
    (∀ t ∈ lex src, Text.IsBoundary src t.start ∧ Text.IsBoundary src t.stop ∧
      (['/', '*'] <+: t.text → Text.IsBoundary src (t.start + 2)) ∧
      (['"', '"', '"'] <+: t.text → Text.IsBoundary src (t.start + 3))) ∧
    (lex src).Pairwise (fun t u => t.stop ≤ u.start) ∧
    (∀ gap ∈ gaps src 0 (lex src), ∀ c ∈ gap, isBlank c = true) ∧
    (∀ front c back, src = front ++ c :: back → isBlank c = false →
      ∃! i : Fin (lex src).length, ((lex src).get i).Covers (Text.size front)) ∧
    (∀ n, Cursor.read n (Cursor.ofText src) = (lex src)[n]?) ∧
    (lex src).length ≤ src.length := by
  have hwithin : ∀ t ∈ lex src, t.Within src := within_of_mem_lexFrom [] src
  have hordered : (lex src).Pairwise fun t u => t.stop ≤ u.start := pairwise_lexFrom 0 src
  refine ⟨?_, ?_, hordered, ?_, ?_, ?_, length_lexFrom_le 0 src⟩
  · intro t ht
    exact ⟨(hwithin t ht).start_lt_stop, (hwithin t ht).text_eq⟩
  · intro t ht
    exact ⟨(hwithin t ht).isBoundary_start, (hwithin t ht).isBoundary_stop,
      (hwithin t ht).isBoundary_add_size, (hwithin t ht).isBoundary_add_size⟩
  · exact blank_of_mem_gaps [] src
  · intro front c back hsrc hc
    obtain ⟨t, ht, hcovers⟩ := exists_mem_lexFrom hsrc hc 0
    obtain ⟨i, rfl⟩ := List.get_of_mem ht
    rw [Nat.zero_add] at hcovers
    exact ⟨i, hcovers, fun j hj => eq_of_covers hordered hj hcovers⟩
  · intro n
    exact Cursor.read_eq n (Cursor.ofText src)

/-- A comment without an end, between characters of two bytes. -/
theorem lex_partition_unclosed_comment :
    (⟨.comment, "/* é".toList, 3, 8⟩ : Token) ∈ lex "ü /* é".toList ∧
    "/* é".toList = Text.slice "ü /* é".toList 3 8 ∧
    Text.IsBoundary "ü /* é".toList (3 + 2) ∧
    ∃! i : Fin (lex "ü /* é".toList).length, ((lex "ü /* é".toList).get i).Covers 6 := by
  obtain ⟨hpieces, hboundaries, -, -, hcovers, -⟩ := lex_partition "ü /* é".toList
  have hmem : (⟨.comment, "/* é".toList, 3, 8⟩ : Token) ∈ lex "ü /* é".toList := by
    decide +kernel
  refine ⟨hmem, (hpieces _ hmem).2, (hboundaries _ hmem).2.2.1 ?_, ?_⟩
  · decide
  · exact hcovers "ü /* ".toList 'é' [] rfl (by decide)

end EnumTables
