/-
The tokens of a body, with the file around it and without.

A body is lexed twice: inside of its file, to find the brace that ends it, and
on its own, to find its constants.  Cutting it out changes what lexing sees
behind the last token, so that the two agree is a property of every form of
token; `Seam` has it.

* **`lex_slice_tokens`** — the slice from one token to another has the tokens
  from the one to the other;
* **`Header.exists_of_mem_all`** — where a header that the search finds stands;
* **`exists_body_parts`**, **`exists_body_seams`** — a body lies between two
  seams, with its tokens behind the opening brace;
* **`lex_slice_agrees`** — both for a whole text.
-/
import EnumTables.Proofs.Declaration.Header
import EnumTables.Proofs.Token.Balance
import EnumTables.Proofs.Token.Seam

namespace EnumTables

/-- A list of tokens around one of them. -/
theorem split_of_getElem? {ts : List Token} {i : Nat} {t : Token} (h : ts[i]? = some t) :
    ts = ts.take i ++ t :: ts.drop (i + 1) := by
  obtain ⟨hi, rfl⟩ := List.getElem?_eq_some_iff.mp h
  rw [List.getElem_cons_drop, List.take_append_drop]

/-- The slice from token `i` to token `j` has just these tokens. -/
theorem lex_slice_tokens {src : Text} {i j : Nat} {t u : Token} (hij : i ≤ j)
    (ht : (lex src)[i]? = some t) (hu : (lex src)[j]? = some u) :
    (lex (Text.slice src t.start u.stop)).map (Token.shift t.start) =
      ((lex src).drop i).take (j + 1 - i) := by
  obtain ⟨a, b, rfl, -, -, hstart, hb⟩ := exists_seam_before (split_of_getElem? ht)
  replace hb : lexFrom (0 + Text.size a) b = (lex (a ++ b)).drop i := by
    rw [hb, List.drop_eq_getElem?_toList_append (i := i), ht]
    rfl
  -- token `j` of the text is token `j - i` behind `a`
  have hu' : (lexFrom (0 + Text.size a) b)[j - i]? = some u := by
    rw [hb, List.getElem?_drop, Nat.add_sub_cancel' hij, hu]
  obtain ⟨b, c, rfl, -, hbtokens, hstop, -⟩ := exists_seam_after (split_of_getElem? hu')
  have hslice : Text.slice (a ++ (b ++ c)) t.start u.stop = b := by
    rw [hstart, hstop, Nat.zero_add, ← List.append_assoc, Text.slice_append]
  have hcount : j + 1 - i = j - i + 1 := by omega
  rw [hslice, hstart, ← lexFrom_eq_map_lex, hbtokens, hcount, List.take_add_one, ← hb, hu']
  rfl

namespace Header

/-- The brace of a header that the search finds is one of the tokens, and the
tokens behind it are those that the header comes with. -/
theorem exists_of_mem_all {ts rest : List Token} {header : Header}
    (h : (header, rest) ∈ all ts) :
    ∃ front, ts = front ++ header.openBrace :: rest ∧ header.openBrace.kind = .openBrace := by
  fun_induction all ts with
  | case1 => simp at h
  | case2 ts header' rest' hfind ih =>
    obtain ⟨pre, hs, rfl, hspells, -⟩ := find?_eq_some hfind
    rcases List.mem_cons.mp h with heq | hmem
    · obtain ⟨rfl, rfl⟩ := Prod.mk.inj heq
      cases hspells with
      | @intro keyword name brace clause _ _ _ hbrace =>
        exact ⟨pre ++ keyword :: name :: clause, by simp, hbrace⟩
    · obtain ⟨front, rfl, hbrace⟩ := ih hmem
      exact ⟨pre ++ (hs ++ front), by simp, hbrace⟩

end Header

/-- A token of a filtered list stands in the list itself. -/
theorem split_of_filter {p : Token → Bool} {ts front rest : List Token} {t : Token}
    (h : ts.filter p = front ++ t :: rest) :
    ∃ us vs, ts = us ++ t :: vs ∧ us.filter p = front ∧ vs.filter p = rest := by
  obtain ⟨us, ws, rfl, hus, hws⟩ := List.filter_eq_append_iff.mp h
  obtain ⟨xs, vs, rfl, hxs, -, hvs⟩ := List.filter_eq_cons_iff.mp hws
  refine ⟨us ++ xs, vs, by simp, ?_, hvs⟩
  rw [List.filter_append, hus, List.filter_eq_nil_iff.mpr hxs, List.append_nil]

/-- The significant tokens of a text at a byte position. -/
theorem filter_lexFrom (n : Nat) (cs : Text) :
    (lexFrom n cs).filter Token.isSignificant = (significant cs).map (Token.shift n) := by
  rw [lexFrom_eq_map_lex, List.filter_map, significant]
  rfl

/-- **What stands behind an opening brace**: the body `b` with its tokens, and
then the closing brace that matches or nothing at all. -/
theorem exists_body_parts {src : Text} {front rest : List Token} {brace : Token}
    (h : significant src = front ++ brace :: rest) :
    ∃ a b c us, src = a ++ (b ++ c) ∧ Seam a (b ++ c) ∧ Seam b c ∧ brace ∈ lex src ∧
      brace.stop = Text.size a ∧
      groupEnd .openBrace .closeBrace (Text.size src) rest = Text.size a + Text.size b ∧
      rest = (significant b).map (Token.shift (Text.size a)) ++ us ∧
      ((Nested .openBrace .closeBrace 0 rest ∧ c = [] ∧ us = []) ∨
        ∃ t vs, us = t :: vs ∧ t.kind = .closeBrace ∧ t.start = Text.size a + Text.size b ∧
          Balanced .openBrace .closeBrace ((significant b).map (Token.shift (Text.size a)))) := by
  have hne : TokenKind.openBrace ≠ .closeBrace := by decide
  obtain ⟨us, vs, hsrc, -, rfl⟩ := split_of_filter h
  have hmem : brace ∈ lex src := by
    rw [hsrc]
    simp
  obtain ⟨a, b, rfl, hseam, -, hstop, hb⟩ := exists_seam_after hsrc
  rw [Nat.zero_add] at hstop hb
  rcases nested_or_exists_closer hne 0 (vs.filter Token.isSignificant) with
    hnested | ⟨inner, t, rest, hrest, ht, hinner, hcount⟩
  · -- nothing closes the body: it is all that stands behind the brace
    refine ⟨a, b, [], [], by rw [List.append_nil], by rwa [List.append_nil], seam_nil b, hmem,
      hstop, ?_, ?_, .inl ⟨hnested, rfl, rfl⟩⟩
    · rw [groupEnd, closeGroup_of_nested hne hnested, Text.size_append]
    · rw [← hb, filter_lexFrom, List.append_nil]
  · obtain ⟨ws, xs, rfl, hws, -⟩ := split_of_filter hrest
    obtain ⟨b, c, rfl, hseam', hbtokens, hstart, -⟩ := exists_seam_before hb
    rw [← hbtokens, filter_lexFrom] at hws
    refine ⟨a, b, c, t :: rest, rfl, hseam, hseam', hmem, hstop, ?_, ?_,
      .inr ⟨t, rest, rfl, ht, hstart, ?_⟩⟩
    · rw [groupEnd, hrest, closeGroup_append_closer hne hinner hcount ht]
      exact hstart
    · rw [hrest, hws]
    · rw [hws]
      exact ⟨hinner, by omega⟩

/-- **A body lies between two seams.**  The first is behind the brace that
opens it, the second in front of the one that ends it or at the end of the
text. -/
theorem exists_body_seams {src : Text} {front rest : List Token} {brace : Token}
    (h : significant src = front ++ brace :: rest) :
    ∃ a b c, src = a ++ (b ++ c) ∧ Seam a (b ++ c) ∧ Seam b c ∧ brace ∈ lex src ∧
      brace.stop = Text.size a ∧
      groupEnd .openBrace .closeBrace (Text.size src) rest = Text.size a + Text.size b := by
  obtain ⟨a, b, c, us, hsrc, hab, hbc, hmem, hstart, hstop, -⟩ := exists_body_parts h
  exact ⟨a, b, c, hsrc, hab, hbc, hmem, hstart, hstop⟩

/-- **Lexing a slice agrees with lexing the whole.**  The slice from a token to
a later one has the tokens from the one to the other; and the body of a
declaration has the tokens that lie between its opening brace and its end. -/
theorem lex_slice_agrees (src : Text) :
    (∀ (i j : Nat) (t u : Token), i ≤ j → (lex src)[i]? = some t → (lex src)[j]? = some u →
      (lex (Text.slice src t.start u.stop)).map (Token.shift t.start) =
        ((lex src).drop i).take (j + 1 - i)) ∧
    (declarations src).length = (Header.all (significant src)).length ∧
    ∀ (k : Nat) (d : Declaration), (declarations src)[k]? = some d →
      ∃ header rest start stop, (Header.all (significant src))[k]? = some (header, rest) ∧
        header.openBrace ∈ lex src ∧ header.openBrace.kind = .openBrace ∧
        start = header.openBrace.stop ∧
        stop = groupEnd .openBrace .closeBrace (Text.size src) rest ∧
        d.name = header.name.text ∧ d.body = Text.slice src start stop ∧
        start ≤ stop ∧
        (lex d.body).map (Token.shift start) =
          (lex src).filter fun t => start ≤ t.start ∧ t.stop ≤ stop := by
  refine ⟨fun i j t u hij ht hu => lex_slice_tokens hij ht hu, ?_, ?_⟩
  · rw [declarations_eq, List.length_mapIdx]
  · intro k d hd
    rw [declarations_eq, List.getElem?_mapIdx, Option.map_eq_some_iff] at hd
    obtain ⟨⟨header, rest⟩, hheader, rfl⟩ := hd
    obtain ⟨front, hfront, hbrace⟩ := Header.exists_of_mem_all (List.mem_of_getElem? hheader)
    obtain ⟨a, b, c, hsrc, hab, hbc, hmem, hstart, hstop⟩ := exists_body_seams hfront
    have hbody : Text.slice src header.openBrace.stop
        (groupEnd .openBrace .closeBrace (Text.size src) rest) = b := by
      rw [hstart, hstop, hsrc, ← List.append_assoc, Text.slice_append]
    refine ⟨header, rest, _, _, hheader, hmem, hbrace, rfl, rfl, rfl, rfl, ?_, ?_⟩
    · omega
    · rw [Header.declaration, hbody, hstart, hstop, hsrc, filter_lex_between hab hbc]

/-- A body that runs to the end of the text: its brace is inside of a
comment, and the last comment has no end. -/
def unclosedBody : Text :=
  "enum A \x7b B //\x7d\n /* ".toList

theorem lex_slice_agrees_unclosed :
    (lex unclosedBody)[2]? = some ⟨.openBrace, ['{'], 7, 8⟩ ∧
    (lex unclosedBody)[4]? = some ⟨.comment, "//\x7d".toList, 11, 14⟩ ∧
    (lex "\x7b B //\x7d".toList).map (Token.shift 7) = ((lex unclosedBody).drop 2).take 3 ∧
    ∃ d, (declarations unclosedBody)[0]? = some d ∧
      ∃ start stop, d.body = Text.slice unclosedBody start stop ∧
        (lex d.body).map (Token.shift start) =
          (lex unclosedBody).filter fun t => start ≤ t.start ∧ t.stop ≤ stop := by
  obtain ⟨hslice, -, hbody⟩ := lex_slice_agrees unclosedBody
  have hfirst : (lex unclosedBody)[2]? = some ⟨.openBrace, ['{'], 7, 8⟩ := by
    decide +kernel
  have hlast : (lex unclosedBody)[4]? = some ⟨.comment, "//\x7d".toList, 11, 14⟩ := by
    decide +kernel
  have hdeclaration : (declarations unclosedBody)[0]? =
      some ⟨['A'], " B //\x7d\n /* ".toList, 0⟩ := by
    decide +kernel
  obtain ⟨header, rest, start, stop, -, -, -, -, -, -, hslice', -, htokens⟩ :=
    hbody 0 _ hdeclaration
  exact ⟨hfirst, hlast, hslice 2 4 _ _ (by decide) hfirst hlast, _, hdeclaration, start, stop,
    hslice', htokens⟩

end EnumTables
