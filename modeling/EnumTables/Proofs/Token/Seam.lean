/-
Texts that are lexed piece by piece.

Between two texts is a seam if no token of the two in a row lies across it.
The tokens of the whole are then those of the first text followed by those of
the second, at their positions.

* **`seam_token_iff`** — a seam, token by token: the last token of the first
  text must end there, and how it ends is seen from one character;
* **`Seam.of_startsLike`** — the text behind a seam may be replaced after its
  first character, or dropped;
* **`Seam.append`** — seams of texts in a row;
* **`exists_seam_before`**, **`exists_seam_after`** — a text has a seam in front
  of each of its tokens and behind it;
* **`filter_lex_between`** — the piece between two seams, lexed on its own, has
  the tokens that lie there.
-/
import EnumTables.Proofs.Token.Partition

namespace EnumTables

/-- No token of `a ++ b` lies across the end of `a`. -/
def Seam (a b : Text) : Prop :=
  ∀ n, lexFrom n (a ++ b) = lexFrom n a ++ lexFrom (n + Text.size a) b

theorem seam_of_blank {gap : Text} (h : Text.Blank gap) (b : Text) : Seam gap b := by
  intro n
  rw [lexFrom_blank_append h, lexFrom_of_blank h, List.nil_append]

theorem seam_nil (a : Text) : Seam a [] := by
  intro n
  rw [List.append_nil, lexFrom_nil, List.append_nil]

/-- The first token of a text determines how it is cut. -/
theorem cuts_of_head_lexFrom {gap cs w : Text} {c : Char} {k : TokenKind} {n : Nat}
    {ts : List Token} (hgap : Text.Blank gap) (hc : isBlank c = false)
    (h : lexFrom n (gap ++ c :: cs) = Token.atByte (n + Text.size gap) k (c :: w) :: ts) :
    ∃ rest, cs = w ++ rest ∧ Lexer.Cuts c w k rest ∧
      ts = lexFrom (n + Text.size gap + Text.size (c :: w)) rest := by
  obtain ⟨w', k', rest, rfl, hcuts⟩ := Lexer.exists_cuts c cs
  rw [lexFrom_token hgap hc hcuts] at h
  obtain ⟨hhead, htail⟩ := List.cons.inj h
  simp only [Token.atByte, Token.mk.injEq, List.cons.injEq, true_and] at hhead
  obtain ⟨rfl, rfl, -⟩ := hhead
  exact ⟨rest, rfl, hcuts, htail.symm⟩

/-- A seam behind a token, if the token ends there and the rest has a seam. -/
theorem seam_of_cuts {gap w rest b : Text} {c : Char} {k : TokenKind} (hgap : Text.Blank gap)
    (hc : isBlank c = false) (h : Lexer.Cuts c w k rest) (hcuts : Lexer.Cuts c w k (rest ++ b))
    (hseam : Seam rest b) : Seam (gap ++ c :: (w ++ rest)) b := by
  intro n
  have hassoc : gap ++ c :: (w ++ rest) ++ b = gap ++ c :: (w ++ (rest ++ b)) := by simp
  rw [hassoc, lexFrom_token hgap hc hcuts, lexFrom_token hgap hc h, hseam, List.cons_append]
  simp only [Text.size_append, Text.size, Nat.add_assoc]

/-- If lexing the whole starts with the tokens of the first text, there is a
seam behind it. -/
theorem seam_of_isPrefix {a b : Text} {n : Nat} (h : lexFrom n a <+: lexFrom n (a ++ b)) :
    Seam a b := by
  induction a using lex_induction generalizing n with
  | blank gap hgap => exact seam_of_blank hgap b
  | token gap c w k rest hgap hc hcuts ih =>
    -- the two lists have the same first token, so both texts are cut at the same place
    obtain ⟨ts, hts⟩ := h
    rw [List.append_assoc, List.cons_append, lexFrom_token hgap hc hcuts, List.cons_append] at hts
    obtain ⟨rest', hrest', hcuts', htail⟩ := cuts_of_head_lexFrom hgap hc hts.symm
    rw [List.append_assoc] at hrest'
    obtain rfl := List.append_cancel_left hrest'
    exact seam_of_cuts hgap hc hcuts hcuts' (ih ⟨ts, htail⟩)

/-- A seam behind a text ends its tokens one by one. -/
theorem seam_token_iff {gap w rest b : Text} {c : Char} {k : TokenKind} (hgap : Text.Blank gap)
    (hc : isBlank c = false) (h : Lexer.Cuts c w k rest) :
    Seam (gap ++ c :: (w ++ rest)) b ↔ Lexer.Cuts c w k (rest ++ b) ∧ Seam rest b := by
  constructor
  · intro hseam
    have hts := hseam 0
    rw [List.append_assoc, List.cons_append, lexFrom_token hgap hc h, List.cons_append] at hts
    obtain ⟨rest', hrest', hcuts, htail⟩ := cuts_of_head_lexFrom hgap hc hts
    rw [List.append_assoc] at hrest'
    obtain rfl := List.append_cancel_left hrest'
    exact ⟨hcuts, seam_of_isPrefix ⟨_, htail⟩⟩
  · rintro ⟨hcuts, hseam⟩
    exact seam_of_cuts hgap hc h hcuts hseam

theorem seam_of_sign {c : Char} {k : TokenKind} (h : Lexer.signKind? c = some k) (rest : Text) :
    Seam [c] rest := by
  intro n
  rw [List.singleton_append, lexFrom_sign h, lexFrom_sign h, lexFrom_nil]
  rfl

namespace Seam

/-- The text behind a seam may be replaced by one that starts like it. -/
theorem of_startsLike {a b b' : Text} (h : Seam a b) (hlike : Text.StartsLike b' b) :
    Seam a b' := by
  induction a using lex_induction with
  | blank gap hgap => exact seam_of_blank hgap b'
  | token gap c w k rest hgap hc hcuts ih =>
    obtain ⟨hcuts', hseam⟩ := (seam_token_iff hgap hc hcuts).mp h
    refine (seam_token_iff hgap hc hcuts).mpr ⟨hcuts'.of_startsLike ?_, ih hseam⟩
    exact hlike.append_left rest

/-- Two seams in a row. -/
theorem append {a b c : Text} (hab : Seam a (b ++ c)) (hbc : Seam b c) : Seam (a ++ b) c := by
  have hb : Seam a b := hab.of_startsLike (Text.startsLike_of_isPrefix (List.prefix_append b c))
  intro n
  rw [List.append_assoc, hab, hbc, hb, List.append_assoc, Text.size_append, Nat.add_assoc]

/-- The text in front of two seams may be dropped. -/
theorem of_append {a b c : Text} (hab : Seam a (b ++ c)) (h : Seam (a ++ b) c) : Seam b c := by
  have hb : Seam a b := hab.of_startsLike (Text.startsLike_of_isPrefix (List.prefix_append b c))
  have htokens := h 0
  rw [List.append_assoc, hab, hb, List.append_assoc] at htokens
  exact seam_of_isPrefix ⟨_, (List.append_cancel_left htokens).symm⟩

end Seam

/-- A text has a seam in front of each of its tokens. -/
theorem exists_seam_before {n : Nat} {cs : Text} {ts us : List Token} {t : Token}
    (h : lexFrom n cs = ts ++ t :: us) :
    ∃ a b, cs = a ++ b ∧ Seam a b ∧ lexFrom n a = ts ∧ t.start = n + Text.size a ∧
      lexFrom (n + Text.size a) b = t :: us := by
  induction cs using lex_induction generalizing n ts with
  | blank gap hgap =>
    rw [lexFrom_of_blank hgap] at h
    simp at h
  | token gap c w k rest hgap hc hcuts ih =>
    have hstep := lexFrom_token hgap hc hcuts n
    cases ts with
    | nil =>
      refine ⟨gap, c :: (w ++ rest), rfl, seam_of_blank hgap _, lexFrom_of_blank hgap n, ?_, ?_⟩
      · rw [hstep, List.nil_append] at h
        rw [← (List.cons.inj h).1]
        rfl
      · rw [← lexFrom_blank_append hgap, h, List.nil_append]
    | cons s ts =>
      -- the seam lies in the rest, and the first token is cut the same in front of it
      rw [hstep, List.cons_append] at h
      obtain ⟨rfl, hrest⟩ := List.cons.inj h
      obtain ⟨a, b, rfl, hseam, ha, hstart, hb⟩ := ih hrest
      have hcuts' : Lexer.Cuts c w k a :=
        hcuts.of_startsLike (Text.startsLike_of_isPrefix (List.prefix_append a b))
      have hsize : n + Text.size (gap ++ c :: (w ++ a)) =
          n + Text.size gap + Text.size (c :: w) + Text.size a := by
        simp only [Text.size_append, Text.size]
        omega
      refine ⟨gap ++ c :: (w ++ a), b, by simp, seam_of_cuts hgap hc hcuts' hcuts hseam, ?_, ?_, ?_⟩
      · rw [lexFrom_token hgap hc hcuts', ha]
      · rw [hstart, hsize]
      · rw [hsize, hb]

/-- A seam in front of a token, moved behind it. -/
theorem Seam.token {a gap w rest : Text} {c : Char} {k : TokenKind} (hgap : Text.Blank gap)
    (hc : isBlank c = false) (hcuts : Lexer.Cuts c w k rest)
    (h : Seam a (gap ++ c :: (w ++ rest))) :
    Lexer.Cuts c w k [] ∧ Seam a (gap ++ c :: w) ∧ Seam (a ++ (gap ++ c :: w)) rest := by
  have hend : Lexer.Cuts c w k [] := hcuts.of_startsLike (Text.startsLike_nil rest)
  have hafter : Seam (gap ++ c :: w) rest := by
    have hone := seam_of_cuts hgap hc hend hcuts (seam_of_blank Text.blank_nil rest)
    rwa [List.append_nil] at hone
  have hbefore : Seam a (gap ++ c :: w ++ rest) := by
    rwa [List.append_assoc, List.cons_append]
  exact ⟨hend, hbefore.of_startsLike (Text.startsLike_of_isPrefix (List.prefix_append _ rest)),
    hbefore.append hafter⟩

/-- A text has a seam behind each of its tokens. -/
theorem exists_seam_after {n : Nat} {cs : Text} {ts us : List Token} {t : Token}
    (h : lexFrom n cs = ts ++ t :: us) :
    ∃ a b, cs = a ++ b ∧ Seam a b ∧ lexFrom n a = ts ++ [t] ∧ t.stop = n + Text.size a ∧
      lexFrom (n + Text.size a) b = us := by
  obtain ⟨a, b, rfl, hseam, ha, -, hb⟩ := exists_seam_before h
  cases Lexer.begins b with
  | blank gap hgap =>
    rw [lexFrom_of_blank hgap] at hb
    simp at hb
  | token gap c w k rest hgap hc hcuts =>
    rw [lexFrom_token hgap hc hcuts] at hb
    obtain ⟨rfl, rfl⟩ := List.cons.inj hb
    obtain ⟨hend, hone, hafter⟩ := hseam.token hgap hc hcuts
    have hsize : n + Text.size (a ++ (gap ++ c :: w)) =
        n + Text.size a + Text.size gap + Text.size (c :: w) := by
      rw [Text.size_append, Text.size_append]
      omega
    have htoken := lexFrom_token hgap hc hend (n + Text.size a)
    rw [List.append_nil, lexFrom_nil] at htoken
    refine ⟨a ++ (gap ++ c :: w), rest, by simp, hafter, ?_, ?_, ?_⟩
    · rw [hone, ha, htoken]
    · rw [hsize]
      rfl
    · rw [hsize]

/-- Tokens lie within the text they are read from. -/
theorem span_of_mem_lexFrom {n : Nat} {cs : Text} {t : Token} (h : t ∈ lexFrom n cs) :
    n ≤ t.start ∧ t.start < t.stop ∧ t.stop ≤ n + Text.size cs := by
  rw [lexFrom_eq_map_lex] at h
  obtain ⟨u, hu, rfl⟩ := List.mem_map.mp h
  have hwithin := within_of_mem_lexFrom [] cs u hu
  have hlt := hwithin.start_lt_stop
  have hle : u.stop ≤ Text.size cs := hwithin.isBoundary_stop.le_size
  simp only [Token.shift]
  omega

/-- The tokens between two seams. -/
theorem filter_lex_between {a b c : Text} (hab : Seam a (b ++ c)) (hbc : Seam b c) :
    (lex (a ++ (b ++ c))).filter
        (fun t => Text.size a ≤ t.start ∧ t.stop ≤ Text.size a + Text.size b) =
      (lex b).map (Token.shift (Text.size a)) := by
  rw [lex, hab, hbc, List.filter_append, List.filter_append, Nat.zero_add]
  have hfront : (lexFrom 0 a).filter
      (fun t => Text.size a ≤ t.start ∧ t.stop ≤ Text.size a + Text.size b) = [] := by
    rw [List.filter_eq_nil_iff]
    intro t ht
    have hspan := span_of_mem_lexFrom ht
    rw [decide_eq_true_eq]
    omega
  have hback : (lexFrom (Text.size a + Text.size b) c).filter
      (fun t => Text.size a ≤ t.start ∧ t.stop ≤ Text.size a + Text.size b) = [] := by
    rw [List.filter_eq_nil_iff]
    intro t ht
    have hspan := span_of_mem_lexFrom ht
    rw [decide_eq_true_eq]
    omega
  have hinner : (lexFrom (Text.size a) b).filter
      (fun t => Text.size a ≤ t.start ∧ t.stop ≤ Text.size a + Text.size b) =
        lexFrom (Text.size a) b := by
    rw [List.filter_eq_self]
    intro t ht
    have hspan := span_of_mem_lexFrom ht
    rw [decide_eq_true_eq]
    exact ⟨hspan.1, hspan.2.2⟩
  rw [hfront, hback, hinner, List.nil_append, List.append_nil, lexFrom_eq_map_lex]

end EnumTables
