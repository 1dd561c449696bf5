/-
Declarations of two texts in a row.

A text is complete if its last token is a closing brace and each of its
declarations is closed.  What follows a complete text changes nothing in it,
and is read as if nothing stood in front: no token lies across the end of the
text, no header can start in it and end behind it, and no body of it is open.
Surplus closing braces do no harm.

* **`Complete.seam`** — no token lies across the end of a complete text;
* **`Complete.all_append`** — nor does a header;
* **`declarations_append`** — the declarations of a complete text and any
  other, and the tables of the two.
-/
import EnumTables.Document
import EnumTables.Proofs.Declaration.Parts

namespace EnumTables

/-- The last token of the text is a closing brace, and behind the opening brace
of each declaration is the one that matches it. -/
structure Complete (cs : Text) : Prop where
  ends : ∃ t, (lex cs).getLast? = some t ∧ t.kind = .closeBrace
  closed : ∀ h ∈ Header.all (significant cs), Closed h.2

theorem Token.shift_zero : Token.shift 0 = id := by
  funext t
  simp only [Token.shift, Nat.zero_add, id_eq]

theorem Header.shift_zero (header : Header) : header.shift 0 = header := by
  simp only [Header.shift, Token.shift_zero, id_eq]

theorem Declaration.renumber_zero : Declaration.renumber 0 = id := by
  funext d
  simp only [Declaration.renumber, Nat.zero_add, id_eq]

/-- A text without tokens is blank. -/
theorem blank_of_lexFrom_eq_nil {n : Nat} {cs : Text} (h : lexFrom n cs = []) :
    Text.Blank cs := by
  cases Lexer.begins cs with
  | blank gap hgap => exact hgap
  | token gap c w k rest hgap hc hcuts =>
    rw [lexFrom_token hgap hc hcuts] at h
    exact absurd h (by simp)

/-- A closing brace is cut off in front of any text. -/
theorem Lexer.Cuts.closeBrace_any {c : Char} {w rest : Text} (h : Cuts c w .closeBrace rest)
    (rest' : Text) : Cuts c w .closeBrace rest' := by
  generalize hk : TokenKind.closeBrace = k at h
  cases h with
  | @block front rest h =>
    have hcomment := isComment_blockKind (front ++ rest)
    rw [← hk] at hcomment
    exact absurd hcomment (by decide)
  | sign h => exact .sign h
  | _ => cases hk

/-- A text with a single token, a closing brace, has a seam in front of every
other. -/
theorem seam_of_lexFrom_eq_closeBrace {n : Nat} {b : Text} {t : Token} (h : lexFrom n b = [t])
    (ht : t.kind = .closeBrace) (cs : Text) : Seam b cs := by
  cases Lexer.begins b with
  | blank gap hgap => exact seam_of_blank hgap cs
  | token gap c w k rest hgap hc hcuts =>
    rw [lexFrom_token hgap hc hcuts] at h
    obtain ⟨rfl, hrest⟩ := List.cons.inj h
    obtain rfl : k = .closeBrace := ht
    exact seam_of_cuts hgap hc hcuts (hcuts.closeBrace_any _)
      (seam_of_blank (blank_of_lexFrom_eq_nil hrest) cs)

namespace Complete

variable {cs : Text}

/-- **No token lies across the end of a complete text.** -/
theorem seam (h : Complete cs) (ds : Text) : Seam cs ds := by
  obtain ⟨t, hlast, ht⟩ := h.ends
  obtain ⟨ts, hts⟩ := List.getLast?_eq_some_iff.mp hlast
  obtain ⟨a, b, rfl, hseam, -, -, hb⟩ := exists_seam_before hts
  -- the tokens in front of the brace see the same first character behind them
  have hlike : Text.StartsLike (b ++ ds) b := by
    cases b with
    | nil =>
      rw [lexFrom_nil] at hb
      exact absurd hb (by simp)
    | cons c b => exact Text.startsLike_cons c (b ++ ds) b
  exact (hseam.of_startsLike hlike).append (seam_of_lexFrom_eq_closeBrace hb ht ds)

/-- **No header lies across the end of a complete text.** -/
theorem all_append (h : Complete cs) (us : List Token) :
    Header.all (significant cs ++ us) =
      (Header.all (significant cs)).map (fun h => (h.1, h.2 ++ us)) ++ Header.all us := by
  obtain ⟨t, hlast, ht⟩ := h.ends
  obtain ⟨ts, hts⟩ := List.getLast?_eq_some_iff.mp hlast
  have hsig : t.isSignificant = true := by
    rw [Token.isSignificant, ht]
    rfl
  have hcs : significant cs = ts.filter Token.isSignificant ++ [t] := by
    rw [significant, hts, List.filter_append, List.filter_cons_of_pos hsig, List.filter_nil]
  rw [hcs, List.append_assoc, List.singleton_append, Header.all_append_closer ht,
    Header.all_append_closer ht, Header.all_nil, List.append_nil, List.map_map]
  refine congrArg (· ++ Header.all us) (List.map_congr_left fun h _ => ?_)
  simp

end Complete

/-- The significant tokens on both sides of a seam. -/
theorem Seam.significant_append {a b : Text} (h : Seam a b) :
    significant (a ++ b) = significant a ++ (significant b).map (Token.shift (Text.size a)) := by
  rw [significant, lex, h, List.filter_append, Nat.zero_add, filter_lexFrom (Text.size a)]
  rfl

/-- The declarations of a complete text and any text behind it. -/
theorem Complete.declarations_eq_append {cs : Text} (h : Complete cs) (ds : Text) :
    declarations (cs ++ ds) =
      declarations cs ++ (declarations ds).map (Declaration.renumber (declarations cs).length) := by
  have hlength : (declarations cs).length = (Header.all (significant cs)).length := by
    rw [declarations_eq, List.length_mapIdx]
  have hfront := mapIdx_declaration_part [] ds ((significant ds).map (Token.shift (Text.size cs)))
    (fun header hmem => .inl (h.closed header hmem)) 0
  have hback := mapIdx_declaration_part cs (b := ds) [] []
    (fun _ _ => .inr ⟨rfl, rfl⟩) (declarations cs).length
  simp only [Text.size, Header.shift_zero, Token.shift_zero, Declaration.renumber_zero,
    List.map_id, Nat.zero_add, List.nil_append] at hfront
  simp only [List.append_nil] at hback
  rw [declarations_eq, (h.seam ds).significant_append, h.all_append, List.mapIdx_append,
    Header.all_map_shift, hfront, ← hback, List.length_map, ← hlength]
  simp only [Nat.add_comm]

/-- **Declarations distribute over texts in a row.**  In front of any text, an
empty or complete text keeps its declarations, and the other text keeps its
own, numbered on; so the tables of the two, under one name, follow one
another. -/
theorem declarations_append (s₁ s₂ : Text) (h : s₁ = [] ∨ Complete s₁) :
    declarations (s₁ ++ s₂) =
      declarations s₁ ++
        (declarations s₂).map (fun d => ⟨d.name, d.body, (declarations s₁).length + d.index⟩) ∧
    ∀ name, (SourceFile.mk name (s₁ ++ s₂)).document =
      ⟨name, (SourceFile.mk name s₁).document.tables ++
        (SourceFile.mk name s₂).document.tables⟩ := by
  have hall : declarations (s₁ ++ s₂) =
      declarations s₁ ++ (declarations s₂).map (Declaration.renumber (declarations s₁).length) := by
    rcases h with rfl | h
    · have hnone : declarations [] = [] := by
        rw [declarations_eq, significant, lex, lexFrom_nil, List.filter_nil, Header.all_nil,
          List.mapIdx_nil]
      rw [hnone, List.nil_append, List.nil_append, List.length_nil, Declaration.renumber_zero,
        List.map_id]
    · exact h.declarations_eq_append s₂
  refine ⟨hall, fun name => ?_⟩
  -- a table is made of the name and the body of a declaration
  simp only [SourceFile.document, hall, List.filterMap_append, List.filterMap_map]
  rfl

/-- A complete text with a brace too many at either end. -/
def surplusBraces : Text :=
  "\x7d enum A \x7b /** a */ B \x7d \x7d".toList

/-- A text behind it whose comment and body have no end. -/
theorem declarations_append_surplusBraces :
    Complete surplusBraces ∧
    declarations (surplusBraces ++ "enum C \x7b /* ".toList) =
      [⟨['A'], " /** a */ B ".toList, 0⟩, ⟨['C'], " /* ".toList, 1⟩] := by
  have hends : (lex surplusBraces).getLast? = some ⟨.closeBrace, ['}'], 24, 25⟩ := by
    decide +kernel
  have hclosed : ∀ h ∈ Header.all (significant surplusBraces), Closed h.2 := by
    decide +kernel
  have hcomplete : Complete surplusBraces := ⟨⟨_, hends, rfl⟩, hclosed⟩
  refine ⟨hcomplete, ?_⟩
  rw [(declarations_append surplusBraces "enum C \x7b /* ".toList (.inr hcomplete)).1]
  decide +kernel

end EnumTables
