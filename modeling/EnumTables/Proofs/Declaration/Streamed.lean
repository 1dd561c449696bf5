/-
Declarations read from a cursor.

The search for declarations looks through the list of all significant tokens.  Here
it is written once more on a cursor, which cuts no token before it is asked for:
what follows a keyword is read on a copy, the search goes on from that copy if a
brace was found and from the keyword if not, and the body is delimited on another
copy.  Both searches find the same, since each reader does on a cursor what it does
on the tokens still to come:

* **`Cursor.significant`** are the tokens still to come that are no comments;
* **`Cursor.seekBrace?_eq`**, **`Cursor.header?_eq`**, **`Cursor.nextHeader?_eq`** and
  **`Cursor.nextDeclaration?_eq`** — one statement for each reader;
* **`Cursor.declarationsFrom_eq`** — the whole search.
-/
import EnumTables.Proofs.Declaration.Header
import EnumTables.Proofs.Token.Remaining

namespace EnumTables

/-- Comments neither open nor close a group. -/
theorem closeGroup_filter {opener closer : TokenKind} (ho : opener.isComment = false)
    (hc : closer.isComment = false) (depth : Nat) (ts : List Token) :
    (closeGroup opener closer depth (ts.filter Token.isSignificant)).1 =
      (closeGroup opener closer depth ts).1 := by
  have hsignificant : ∀ {t : Token} {k : TokenKind}, t.kind = k → k.isComment = false →
      t.isSignificant = true := by
    intro t k ht hk
    rw [Token.isSignificant, ht, hk]
    rfl
  fun_induction closeGroup opener closer depth ts with
  | case1 => rfl
  | case2 depth t ts ht ih =>
    rw [List.filter_cons_of_pos (hsignificant ht ho), closeGroup_cons_opener ht, ih]
  | case3 t ts hto htc =>
    rw [List.filter_cons_of_pos (hsignificant htc hc), closeGroup, if_neg hto, if_pos htc]
  | case4 t ts hto htc d ih =>
    rw [List.filter_cons_of_pos (hsignificant htc hc), closeGroup, if_neg hto, if_pos htc, ih]
  | case5 depth t ts hto htc ih =>
    by_cases ht : t.isSignificant
    · rw [List.filter_cons_of_pos ht, closeGroup_cons_other hto htc, ih]
    · rw [List.filter_cons_of_neg ht, ih]

namespace Cursor

/-- The tokens still to come that are no comments. -/
def significant (c : Cursor) : List Token :=
  c.tokens.filter Token.isSignificant

section

variable {c d : Cursor} {t : Token}

theorem significant_of_none (h : c.nextSignificant = (none, d)) : c.significant = [] := by
  rw [significant, filter_eq_of_significant?, (significant?_of_none h).1]

theorem significant_of_some (h : c.nextSignificant = (some t, d)) :
    c.significant = t :: d.significant := by
  rw [significant, filter_eq_of_significant?, significant?_of_some h]
  rfl

end

/-- Reads through an optional clause to the opening brace behind it.  Anything else
in front of the brace means that there is none. -/
def seekBrace? (inClause : Bool) (c : Cursor) : Option (Token × Cursor) :=
  match _h : c.nextSignificant with
  | (none, _) => none
  | (some t, d) =>
    if t.kind = .openBrace then some (t, d)
    else if t.isIdent "implements".toList ∧ inClause = false then seekBrace? true d
    else if (t.kind = .ident ∨ t.kind = .comma) ∧ inClause = true then seekBrace? inClause d
    else if t.kind = .other ∧ inClause = true ∧ t.text ∈ [['.'], ['<'], ['>'], ['?']] then
      seekBrace? inClause d
    else none
termination_by c.rest.length
decreasing_by all_goals exact length_lt_of_nextSignificant _h

/-- Reads a header whose keyword has been read. -/
def header? (c : Cursor) : Option (Header × Cursor) :=
  match c.nextSignificant with
  | (none, _) => none
  | (some name, d) =>
    if name.kind = .ident then
      match d.seekBrace? false with
      | none => none
      | some (openBrace, e) => some (⟨name, openBrace⟩, e)
    else none

/-- Reads through the next header.  A keyword without a header is passed over. -/
def nextHeader? (c : Cursor) : Option (Header × Cursor) :=
  match _h : c.nextSignificant with
  | (none, _) => none
  | (some t, d) =>
    if t.isIdent "enum".toList then
      match d.header? with
      | some found => some found
      | none => nextHeader? d
    else nextHeader? d
termination_by c.rest.length
decreasing_by all_goals exact length_lt_of_nextSignificant _h

/-- The next declaration, and the cursor behind its opening brace. -/
def nextDeclaration? (found : Nat) (c : Cursor) : Option (Declaration × Cursor) :=
  match c.nextHeader? with
  | none => none
  | some (header, d) =>
    let bodyEnd :=
      (d.closeGroup .openBrace .closeBrace).1.elim (Text.size c.source) Token.start
    some (⟨header.name.text, Text.slice c.source header.openBrace.stop bodyEnd, found⟩, d)

/-! ### Each reader on the tokens still to come -/

theorem seekBrace?_eq (inClause : Bool) (c : Cursor) :
    (c.seekBrace? inClause).map (Prod.map id significant) =
      Header.brace? inClause c.significant := by
  fun_induction seekBrace? inClause c with
  | case1 inClause c d h =>
    rw [significant_of_none h]
    rfl
  | case2 inClause c t d h hbrace =>
    rw [significant_of_some h, Header.brace?, if_pos hbrace]
    rfl
  | case3 inClause c t d h hbrace hword ih =>
    obtain ⟨hword, rfl⟩ := hword
    rw [significant_of_some h, Header.brace?, if_neg hbrace, if_neg Bool.false_ne_true,
      if_pos hword, ih]
  | case4 inClause c t d h hbrace hword hname ih =>
    obtain ⟨hname, rfl⟩ := hname
    have htoken : Header.isClauseToken t = true :=
      Header.isClauseToken_iff.mpr (hname.imp_right Or.inl)
    rw [significant_of_some h, Header.brace?, if_neg hbrace, if_pos rfl, if_pos htoken, ih]
  | case5 inClause c t d h hbrace hword hname hsign ih =>
    obtain ⟨hkind, rfl, htext⟩ := hsign
    have htoken : Header.isClauseToken t = true :=
      Header.isClauseToken_iff.mpr (.inr (.inr ⟨hkind, by simpa using htext⟩))
    rw [significant_of_some h, Header.brace?, if_neg hbrace, if_pos rfl, if_pos htoken, ih]
  | case6 inClause c t d h hbrace hword hname hsign =>
    rw [significant_of_some h, Header.brace?, if_neg hbrace]
    rcases inClause with _ | _
    · rw [if_neg Bool.false_ne_true, if_neg fun hident => hword ⟨hident, rfl⟩]
      rfl
    · have htoken : ¬ Header.isClauseToken t = true := by
        rw [Header.isClauseToken_iff]
        rintro (hkind | hkind | ⟨hkind, htext⟩)
        · exact hname ⟨.inl hkind, rfl⟩
        · exact hname ⟨.inr hkind, rfl⟩
        · exact hsign ⟨hkind, rfl, by simpa using htext⟩
      rw [if_pos rfl, if_neg htoken]
      rfl

theorem seekBrace?_reaches {inClause : Bool} {c d : Cursor} {t : Token}
    (h : c.seekBrace? inClause = some (t, d)) : c.Reaches d := by
  fun_induction seekBrace? inClause c with
  | case1 => exact absurd h (by simp)
  | case2 inClause c u e hread hbrace =>
    obtain ⟨rfl, rfl⟩ := Prod.mk.inj (Option.some.inj h)
    exact reaches_of_nextSignificant hread
  | case3 inClause c u e hread hbrace hword ih =>
    exact (reaches_of_nextSignificant hread).trans (ih h)
  | case4 inClause c u e hread hbrace hword hname ih =>
    exact (reaches_of_nextSignificant hread).trans (ih h)
  | case5 inClause c u e hread hbrace hword hname hsign ih =>
    exact (reaches_of_nextSignificant hread).trans (ih h)
  | case6 => exact absurd h (by simp)

theorem header?_eq (c : Cursor) :
    c.header?.map (Prod.map id significant) = Header.ofTokens? c.significant := by
  fun_cases header? c with
  | case1 d h =>
    rw [significant_of_none h]
    rfl
  | case2 name d h hname hbrace =>
    have hlist := seekBrace?_eq false d
    rw [hbrace] at hlist
    rw [significant_of_some h, Header.ofTokens?, if_pos hname, ← hlist]
    rfl
  | case3 name d h hname openBrace e hbrace =>
    have hlist := seekBrace?_eq false d
    rw [hbrace] at hlist
    rw [significant_of_some h, Header.ofTokens?, if_pos hname, ← hlist]
    rfl
  | case4 name d h hname =>
    rw [significant_of_some h, Header.ofTokens?, if_neg hname]
    rfl

theorem header?_reaches {c d : Cursor} {header : Header} (h : c.header? = some (header, d)) :
    c.Reaches d := by
  rw [header?] at h
  split at h
  · exact absurd h (by simp)
  · rename_i name e hread
    split_ifs at h
    split at h
    · exact absurd h (by simp)
    · rename_i openBrace e' hbrace
      obtain ⟨rfl, rfl⟩ := Prod.mk.inj (Option.some.inj h)
      exact (reaches_of_nextSignificant hread).trans (seekBrace?_reaches hbrace)

theorem nextHeader?_eq (c : Cursor) :
    c.nextHeader?.map (Prod.map id significant) = Header.find? c.significant := by
  fun_induction nextHeader? c with
  | case1 c d h =>
    rw [significant_of_none h]
    rfl
  | case2 c t d h hkeyword found hfound =>
    have hlist := header?_eq d
    rw [hfound] at hlist
    rw [significant_of_some h, Header.find?, if_pos hkeyword, ← hlist]
    rfl
  | case3 c t d h hkeyword hfound ih =>
    have hlist := header?_eq d
    rw [hfound] at hlist
    rw [significant_of_some h, Header.find?, if_pos hkeyword, ← hlist, ih]
    rfl
  | case4 c t d h hkeyword ih =>
    rw [significant_of_some h, Header.find?, if_neg hkeyword, ih]

/-- A header that is read is behind the cursor. -/
theorem nextHeader?_reaches {c d : Cursor} {header : Header}
    (h : c.nextHeader? = some (header, d)) :
    c.Reaches d ∧ d.rest.length < c.rest.length := by
  fun_induction nextHeader? c with
  | case1 => exact absurd h (by simp)
  | case2 c t e hread hkeyword found hfound =>
    obtain rfl : found = (header, d) := Option.some.inj h
    have hreaches := header?_reaches hfound
    have hlt := length_lt_of_nextSignificant hread
    exact ⟨(reaches_of_nextSignificant hread).trans hreaches, hreaches.length_le.trans_lt hlt⟩
  | case3 c t e hread hkeyword hfound ih =>
    obtain ⟨hreaches, hlt⟩ := ih h
    exact ⟨(reaches_of_nextSignificant hread).trans hreaches,
      hlt.trans (length_lt_of_nextSignificant hread)⟩
  | case4 c t e hread hkeyword ih =>
    obtain ⟨hreaches, hlt⟩ := ih h
    exact ⟨(reaches_of_nextSignificant hread).trans hreaches,
      hlt.trans (length_lt_of_nextSignificant hread)⟩

/-- The group of a brace ends at the same token, comments or not. -/
theorem groupEnd_significant (limit : Nat) (c : Cursor) :
    groupEnd .openBrace .closeBrace limit c.significant =
      (c.closeGroup .openBrace .closeBrace).1.elim limit Token.start := by
  have hlist : (c.closeGroup .openBrace .closeBrace).1 =
      (EnumTables.closeGroup .openBrace .closeBrace 0 c.tokens).1 :=
    congrArg Prod.fst (closeGroup_eq .openBrace .closeBrace c)
  rw [groupEnd_eq_elim, significant, closeGroup_filter rfl rfl, hlist]

theorem nextDeclaration?_eq (found : Nat) (c : Cursor) :
    (c.nextDeclaration? found).map
        (Prod.map id fun d => Search.mk c.source d.significant (found + 1)) =
      (Search.mk c.source c.significant found).next? := by
  have hlist := nextHeader?_eq c
  rw [nextDeclaration?, Search.next?]
  cases h : c.nextHeader? with
  | none =>
    rw [h] at hlist
    rw [← hlist]
    rfl
  | some answer =>
    obtain ⟨header, d⟩ := answer
    rw [h] at hlist
    rw [← hlist]
    simp only [Option.map_some, Prod.map_apply, id_eq, groupEnd_significant]

theorem nextDeclaration?_reaches {found : Nat} {c e : Cursor} {d : Declaration}
    (h : c.nextDeclaration? found = some (d, e)) :
    c.Reaches e ∧ e.rest.length < c.rest.length := by
  rw [nextDeclaration?] at h
  split at h
  · exact absurd h (by simp)
  · rename_i header e' hheader
    obtain ⟨-, rfl⟩ := Prod.mk.inj (Option.some.inj h)
    exact nextHeader?_reaches hheader

/-- The declarations still to come, numbered from `found` on. -/
def declarationsFrom (found : Nat) (c : Cursor) : List Declaration :=
  match _h : c.nextDeclaration? found with
  | none => []
  | some (d, e) => d :: declarationsFrom (found + 1) e
termination_by c.rest.length
decreasing_by exact (nextDeclaration?_reaches _h).2

/-- **The declarations read from a cursor** are those that a search finds among the
tokens still to come. -/
theorem declarationsFrom_eq (found : Nat) (c : Cursor) :
    c.declarationsFrom found = (Search.mk c.source c.significant found).all := by
  fun_induction declarationsFrom found c with
  | case1 found c h =>
    have hlist := nextDeclaration?_eq found c
    rw [h] at hlist
    exact (Search.all_of_next?_eq_none hlist.symm).symm
  | case2 found c d e h ih =>
    have hlist := nextDeclaration?_eq found c
    rw [h] at hlist
    have hsource : e.source = c.source := (nextDeclaration?_reaches h).1.1
    rw [Search.all_of_next?_eq_some hlist.symm, ih, hsource]
    rfl

/-- The declarations of a text, read from the cursor in front of it. -/
theorem declarationsFrom_ofText (src : Text) :
    (ofText src).declarationsFrom 0 = declarations src :=
  declarationsFrom_eq 0 (ofText src)

end Cursor

end EnumTables
