/-
Names are words of the text.

Every reader of tokens goes on with a suffix of what it was given: none of them
makes a token up or goes back.  So the name of a declaration and the name of a
constant are the text of a token that stands in the source, and that token is a
word.

* **`closeGroup_suffix`**, **`annotationRest_suffix`**, **`readArguments_suffix`**,
  **`classBodyRest_suffix`** — one lemma for each reader;
* **`exists_token_of_mem_ofTokens`** — a constant has its name from a token;
* **`isWord_name_of_mem_ofBody`**, **`isWord_name_of_mem_declarations`** — names are
  words.
-/
import EnumTables.Constant
import EnumTables.Proofs.Declaration.Body

namespace EnumTables

/-- A character that may start a word, and then characters that may go on with
it. -/
def IsWord (w : Text) : Prop :=
  ∃ c cs, w = c :: cs ∧ isWordStart c = true ∧ ∀ d ∈ cs, isWordChar d = true

theorem IsWord.isWordChar_of_mem {w : Text} (h : IsWord w) {c : Char} (hc : c ∈ w) :
    isWordChar c = true := by
  obtain ⟨d, ds, rfl, hd, hds⟩ := h
  rcases List.mem_cons.mp hc with rfl | hc
  · exact isWordChar_of_isWordStart hd
  · exact hds c hc

/-- A token of the class of words is spelled as a word. -/
theorem Lexer.Cuts.isWord {c : Char} {w rest : Text} {k : TokenKind} (h : Cuts c w k rest)
    (hk : k = .ident) : IsWord (c :: w) := by
  cases h with
  | @block front =>
    have hcomment := isComment_blockKind (front ++ rest)
    rw [hk] at hcomment
    exact absurd hcomment (by decide)
  | line => simp at hk
  | textBlock => simp at hk
  | string => simp at hk
  | character => simp at hk
  | sign hsign =>
    -- no single sign is a word
    rw [hk] at hsign
    unfold signKind? at hsign
    split at hsign <;> simp at hsign
  | number => simp at hk
  | word hc hfront => exact ⟨c, w, rfl, hc, hfront⟩
  | slash => simp at hk
  | lone => simp at hk

/-- The text of a word token is a word. -/
theorem isWord_of_mem_lexFrom {n : Nat} {cs : Text} {t : Token} (h : t ∈ lexFrom n cs)
    (ht : t.kind = .ident) : IsWord t.text := by
  induction cs using lex_induction generalizing n with
  | blank gap hgap =>
    rw [lexFrom_of_blank hgap] at h
    simp at h
  | token gap c w k rest hgap hc hcuts ih =>
    rw [lexFrom_token hgap hc hcuts] at h
    rcases List.mem_cons.mp h with rfl | h
    · exact hcuts.isWord ht
    · exact ih h

/-! ### Readers go on with a suffix -/

section

variable {ts rest : List Token} {t : Token}

theorem significant?_suffix (h : significant? ts = some (t, rest)) : t :: rest <:+ ts := by
  induction ts with
  | nil => simp [significant?] at h
  | cons u us ih =>
    rw [significant?] at h
    split_ifs at h
    · obtain ⟨rfl, rfl⟩ := Prod.mk.inj (Option.some.inj h)
      exact List.suffix_rfl
    · exact (ih h).trans (List.suffix_cons u us)

theorem significant?_rest_suffix (h : significant? ts = some (t, rest)) : rest <:+ ts :=
  (List.suffix_cons t rest).trans (significant?_suffix h)

theorem closeGroup_suffix (opener closer : TokenKind) (depth : Nat) (ts : List Token) :
    (closeGroup opener closer depth ts).2 <:+ ts := by
  fun_induction closeGroup opener closer depth ts with
  | case1 => exact List.suffix_rfl
  | case2 depth t ts _ ih => exact ih.trans (List.suffix_cons t ts)
  | case3 t ts => exact List.suffix_cons t ts
  | case4 t ts _ _ d ih => exact ih.trans (List.suffix_cons t ts)
  | case5 depth t ts _ _ ih => exact ih.trans (List.suffix_cons t ts)

namespace Constant

theorem qualifiedRest_suffix (ts : List Token) : qualifiedRest ts <:+ ts := by
  fun_induction qualifiedRest ts with
  | case1 => exact List.suffix_rfl
  | case2 => exact List.nil_suffix
  | case3 ts t rest h _ t' rest' h' ih =>
    exact ih.trans ((significant?_rest_suffix h').trans (significant?_rest_suffix h))
  | case4 ts t rest h _ _ =>
    exact (closeGroup_suffix _ _ 0 rest).trans (significant?_rest_suffix h)
  | case5 => exact List.suffix_rfl

theorem annotationRest_suffix (ts : List Token) : annotationRest ts <:+ ts := by
  rw [annotationRest]
  split
  · exact List.suffix_rfl
  · rename_i t rest h
    split_ifs
    · exact (qualifiedRest_suffix rest).trans (significant?_rest_suffix h)
    · exact List.suffix_rfl

theorem readArguments_suffix (body : Text) (ts : List Token) :
    (readArguments body ts).2 <:+ ts := by
  rw [readArguments]
  split
  · exact List.suffix_rfl
  · rename_i t rest h
    split_ifs
    · exact (closeGroup_suffix _ _ 0 rest).trans (significant?_rest_suffix h)
    · exact List.suffix_rfl

theorem classBodyRest_suffix (ts : List Token) : classBodyRest ts <:+ ts := by
  rw [classBodyRest]
  split
  · exact List.suffix_rfl
  · rename_i t rest h
    split_ifs
    · exact (closeGroup_suffix _ _ 0 rest).trans (significant?_rest_suffix h)
    · exact List.suffix_rfl

/-- A constant has its name from a token. -/
theorem exists_token_of_mem_ofTokens {body : Text} {doc : Option Text} {ts : List Token}
    {c : Constant} (h : c ∈ ofTokens body doc ts) :
    ∃ t ∈ ts, t.kind = .ident ∧ t.text = c.name := by
  -- what is left after a step is a suffix, so a token found there is one of `ts`
  have later : ∀ {t : Token} {us ts : List Token}, us <:+ ts →
      (∃ u ∈ us, u.kind = .ident ∧ u.text = c.name) →
      ∃ u ∈ t :: ts, u.kind = .ident ∧ u.text = c.name := by
    rintro t us ts hsuf ⟨u, hu, hname⟩
    exact ⟨u, List.mem_cons_of_mem t (hsuf.subset hu), hname⟩
  induction doc, ts using ofTokens.induct body with
  | case1 doc => simp [ofTokens] at h
  | case2 doc t ts hkind ih =>
    simp only [ofTokens, hkind] at h
    exact later List.suffix_rfl (ih h)
  | case3 doc t ts hkind ih =>
    simp only [ofTokens, hkind] at h
    exact later List.suffix_rfl (ih h)
  | case4 doc t ts hkind ih =>
    simp only [ofTokens, hkind] at h
    exact later (annotationRest_suffix ts) (ih h)
  | case5 doc t ts hkind rest =>
    rename_i ih
    simp only [ofTokens, hkind] at h
    rcases List.mem_cons.mp h with rfl | h
    · exact ⟨t, List.mem_cons_self, hkind, rfl⟩
    · exact later ((classBodyRest_suffix _).trans (readArguments_suffix body ts)) (ih h)
  | case6 doc t ts hkind => simp [ofTokens, hkind] at h
  | case7 doc t ts hdoc hcomment hat hident hsemicolon ih =>
    have hother : ofTokens body doc (t :: ts) = ofTokens body none ts := by
      rw [ofTokens]
      split <;> simp_all
    rw [hother] at h
    exact later List.suffix_rfl (ih h)

/-- **The name of a constant is a word.** -/
theorem isWord_name_of_mem_ofBody {body : Text} {c : Constant} (h : c ∈ ofBody body) :
    IsWord c.name := by
  obtain ⟨t, ht, hkind, hname⟩ := exists_token_of_mem_ofTokens h
  exact hname ▸ isWord_of_mem_lexFrom ht hkind

end Constant

end

/-- The name of a header that the search finds is one of the tokens. -/
theorem Header.name_mem_of_mem_all {ts rest : List Token} {header : Header}
    (h : (header, rest) ∈ all ts) : header.name ∈ ts ∧ header.name.kind = .ident := by
  fun_induction all ts with
  | case1 => simp at h
  | case2 ts header' rest' hfind ih =>
    obtain ⟨pre, hs, rfl, hspells, -⟩ := find?_eq_some hfind
    rcases List.mem_cons.mp h with heq | hmem
    · obtain ⟨rfl, rfl⟩ := Prod.mk.inj heq
      cases hspells with
      | @intro keyword name brace clause _ hname => exact ⟨by simp, hname⟩
    · obtain ⟨hname, hkind⟩ := ih hmem
      exact ⟨by simp [hname], hkind⟩

/-- **The name of a declaration is a word.** -/
theorem isWord_name_of_mem_declarations {src : Text} {d : Declaration}
    (h : d ∈ declarations src) : IsWord d.name := by
  rw [declarations_eq, List.mem_mapIdx] at h
  obtain ⟨k, hk, rfl⟩ := h
  obtain ⟨hname, hkind⟩ := Header.name_mem_of_mem_all (List.getElem_mem hk)
  exact isWord_of_mem_lexFrom (List.mem_filter.mp hname).1 hkind

end EnumTables
