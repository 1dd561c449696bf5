/-
The headers of a part of a text.

A header holds no closing brace, so the search for headers never looks across
one: behind a closing brace it starts afresh.  The search looks at the classes
and the texts of tokens and not at their positions, so the headers of a part
that is lexed on its own are those that the part has inside of the whole.

* **`Header.all_append_closer`** — a closing brace divides the headers;
* **`Token.Alike`** — tokens that no reader of headers tells apart;
* **`Header.all_rel`** — tokens that look alike have headers that look alike;
* **`groupEnd_part`**, **`Header.declaration_part`** — a declaration of a part is
  the same in the whole, if it is closed in the part or the whole ends with it;
* **`mapIdx_declaration_part`** — all declarations of a part, as they are found
  in the whole.
-/
import EnumTables.Proofs.Declaration.Body
import Mathlib.Data.List.Forall2

namespace EnumTables

/-- The class of a comment or a literal, of which readers see the class alone. -/
def TokenKind.isOpaque : TokenKind → Bool
  | docComment => true
  | comment => true
  | literal => true
  | _ => false

/-- Two tokens of one class, and of one spelling if it is seen. -/
structure Token.Alike (t u : Token) : Prop where
  kind : u.kind = t.kind
  text : t.kind.isOpaque = false → u.text = t.text

namespace Header

/-! ### Closing braces -/

theorem Spells.kind_ne_closeBrace {header : Header} {hs : List Token} (h : Spells header hs) :
    ∀ t ∈ hs, t.kind ≠ .closeBrace := by
  cases h with
  | @intro keyword name brace clause hkeyword hname hclause hbrace =>
    have hmiddle : ∀ t ∈ clause, t.kind ≠ .closeBrace := by
      intro t ht
      cases hclause with
      | none => simp at ht
      | some hword hts =>
        rcases List.mem_cons.mp ht with rfl | ht
        · rw [kind_of_isIdent hword]
          decide
        · rcases hts t ht with h | h | ⟨h, -⟩ <;> rw [h] <;> decide
    intro t ht
    simp only [List.mem_cons, List.mem_append, List.not_mem_nil, or_false] at ht
    rcases ht with rfl | rfl | ht | rfl
    · rw [kind_of_isIdent hkeyword]
      decide
    · rw [hname]
      decide
    · exact hmiddle t ht
    · rw [hbrace]
      decide

/-- A header in front of which a closing brace stands ends before it. -/
theorem Spells.isPrefix_of_append_closer {header : Header} {hs ts us : List Token} {t : Token}
    (h : Spells header hs) (ht : t.kind = .closeBrace) (hpre : hs <+: ts ++ t :: us) :
    hs <+: ts := by
  obtain ⟨rest, hrest⟩ := hpre
  rcases List.append_eq_append_iff.mp hrest with ⟨m, rfl, -⟩ | ⟨m, rfl, hm⟩
  · exact List.prefix_append hs m
  · rcases m with _ | ⟨u, m⟩
    · rw [List.append_nil]
    · obtain ⟨rfl, -⟩ := List.cons.inj hm
      exact absurd ht (h.kind_ne_closeBrace t (by simp))

theorem starts_append_closer {ts us : List Token} {t : Token} (ht : t.kind = .closeBrace) :
    Starts (ts ++ t :: us) ↔ Starts ts := by
  constructor
  · rintro ⟨header, hs, hspells, hpre⟩
    exact ⟨header, hs, hspells, hspells.isPrefix_of_append_closer ht hpre⟩
  · rintro ⟨header, hs, hspells, hpre⟩
    exact ⟨header, hs, hspells, hpre.trans (List.prefix_append ts (t :: us))⟩

/-- The search stops at the first header in front of a closing brace, and else
goes on behind it. -/
theorem find?_append_closer {t : Token} (ht : t.kind = .closeBrace) (ts us : List Token) :
    find? (ts ++ t :: us) =
      match find? ts with
      | some (header, rest) => some (header, rest ++ t :: us)
      | none => find? us := by
  induction ts with
  | nil =>
    have hstarts : ¬ Starts ([] ++ t :: us) := by
      rw [starts_append_closer ht]
      exact find?_eq_none rfl 0
    exact find?_cons_of_not_starts hstarts
  | cons u ts ih =>
    by_cases hstarts : Starts (u :: ts)
    · obtain ⟨header, hs, hspells, rest, hrest⟩ := hstarts
      rw [← hrest, List.append_assoc, hspells.find?_eq, hspells.find?_eq]
    · rw [find?_cons_of_not_starts hstarts, ← ih]
      exact find?_cons_of_not_starts ((starts_append_closer ht).not.mpr hstarts)

/-- **A closing brace divides the headers.**  Those in front of it are found as
if nothing stood behind it, and those behind it as if nothing stood in front. -/
theorem all_append_closer {t : Token} (ht : t.kind = .closeBrace) (ts us : List Token) :
    all (ts ++ t :: us) = (all ts).map (fun h => (h.1, h.2 ++ t :: us)) ++ all us := by
  have hfind := find?_append_closer ht ts us
  fun_induction all ts with
  | case1 ts hnone =>
    rw [hnone] at hfind
    exact all_eq_of_find?_eq hfind
  | case2 ts header rest hsome ih =>
    rw [hsome] at hfind
    rw [all_of_find?_eq_some hfind, ih (find?_append_closer ht rest us)]
    rfl

/-- The headers that are found after one of them are those of the tokens behind
its brace. -/
theorem drop_all {ts rest : List Token} {header : Header} {k : Nat}
    (h : (all ts)[k]? = some (header, rest)) : (all ts).drop (k + 1) = all rest := by
  fun_induction all ts generalizing k with
  | case1 => simp at h
  | case2 ts header' rest' hfind ih =>
    rcases k with _ | k
    · obtain ⟨rfl, rfl⟩ := Prod.mk.inj (Option.some.inj h)
      rfl
    · exact ih h

/-! ### Tokens that look alike -/

section

variable {R : Token → Token → Prop} {ts us : List Token}

/-- The tokens of two headers, and those behind them, are related one by one. -/
def Related (R : Token → Token → Prop) (h k : Header × List Token) : Prop :=
  R h.1.name k.1.name ∧ R h.1.openBrace k.1.openBrace ∧ List.Forall₂ R h.2 k.2

theorem isIdent_congr {t u : Token} (h : t.Alike u) (name : Text) :
    u.isIdent name = t.isIdent name := by
  by_cases hkind : t.kind = .ident
  · rw [Token.isIdent, Token.isIdent, h.kind, h.text (by rw [hkind]; rfl)]
  · have hbeq : (t.kind == .ident) = false := beq_eq_false_iff_ne.mpr hkind
    rw [Token.isIdent, Token.isIdent, h.kind, hbeq, Bool.false_and, Bool.false_and]

theorem isClauseToken_congr {t u : Token} (h : t.Alike u) :
    isClauseToken u = isClauseToken t := by
  rw [isClauseToken, isClauseToken, h.kind]
  -- only the signs of a clause are told apart by their text
  cases hkind : t.kind with
  | other => rw [h.text (by rw [hkind]; rfl)]
  | _ => rfl

theorem brace?_rel (hR : ∀ t u, R t u → t.Alike u)
    (h : List.Forall₂ R ts us) (inClause : Bool) :
    Option.Rel (fun p q => R p.1 q.1 ∧ List.Forall₂ R p.2 q.2) (brace? inClause ts)
      (brace? inClause us) := by
  induction h generalizing inClause with
  | nil => exact .none
  | @cons t u ts us htu hrest ih =>
    have hlook := hR t u htu
    rw [brace?, brace?, hlook.kind, isClauseToken_congr hlook, isIdent_congr hlook]
    split_ifs
    · exact .some ⟨htu, hrest⟩
    · exact ih true
    · exact .none
    · exact ih true
    · exact .none

theorem ofTokens?_rel (hR : ∀ t u, R t u → t.Alike u)
    (h : List.Forall₂ R ts us) : Option.Rel (Related R) (ofTokens? ts) (ofTokens? us) := by
  cases h with
  | nil => exact .none
  | @cons t u ts us htu hrest =>
    rw [ofTokens?, ofTokens?, (hR t u htu).kind]
    split_ifs
    · have hrel := brace?_rel hR hrest false
      generalize brace? false ts = found, brace? false us = found' at hrel ⊢
      cases hrel with
      | none => exact .none
      | some hbrace => exact .some ⟨htu, hbrace⟩
    · exact .none

theorem find?_rel (hR : ∀ t u, R t u → t.Alike u)
    (h : List.Forall₂ R ts us) : Option.Rel (Related R) (find? ts) (find? us) := by
  induction h with
  | nil => exact .none
  | @cons t u ts us htu hrest ih =>
    rw [find?, find?, isIdent_congr (hR t u htu)]
    split_ifs
    · have hrel := ofTokens?_rel hR hrest
      generalize ofTokens? ts = found, ofTokens? us = found' at hrel ⊢
      cases hrel with
      | none => exact ih
      | some hfound => exact .some hfound
    · exact ih

/-- **Tokens that look alike have headers that look alike.** -/
theorem all_rel (hR : ∀ t u, R t u → t.Alike u)
    (h : List.Forall₂ R ts us) : List.Forall₂ (Related R) (all ts) (all us) := by
  have hfind := find?_rel hR h
  fun_induction all ts generalizing us with
  | case1 ts hnone =>
    rw [hnone] at hfind
    cases hus : find? us with
    | none =>
      rw [all_of_find?_eq_none hus]
      exact .nil
    | some found =>
      rw [hus] at hfind
      cases hfind
  | case2 ts header rest hsome ih =>
    rw [hsome] at hfind
    cases hus : find? us with
    | none =>
      rw [hus] at hfind
      cases hfind
    | some found =>
      rw [hus] at hfind
      obtain ⟨header', rest'⟩ := found
      cases hfind with
      | some hrelated =>
        rw [all_of_find?_eq_some hus]
        exact .cons hrelated (ih hrelated.2.2 (find?_rel hR hrelated.2.2))

end

/-- The header in a text that is put behind `n` bytes. -/
def shift (n : Nat) (header : Header) : Header :=
  ⟨header.name.shift n, header.openBrace.shift n⟩

theorem all_map_shift (n : Nat) (ts : List Token) :
    all (ts.map (Token.shift n)) =
      (all ts).map fun h => (h.1.shift n, h.2.map (Token.shift n)) := by
  have hts : List.Forall₂ (fun t u => Token.shift n t = u) ts (ts.map (Token.shift n)) := by
    rw [List.forall₂_map_right_iff]
    exact List.forall₂_same.mpr fun _ _ => rfl
  have hall := all_rel (by rintro t u rfl; exact ⟨rfl, fun _ => rfl⟩) hts
  -- related lists are equal here, since each token is related to one only
  have heq : ∀ h k, Related (fun t u => Token.shift n t = u) h k →
      (h.1.shift n, h.2.map (Token.shift n)) = k := by
    rintro ⟨⟨name, brace⟩, rest⟩ ⟨⟨name', brace'⟩, rest'⟩ ⟨rfl, rfl, hrest⟩
    rw [← List.forall₂_map_left_iff, List.forall₂_eq_eq_eq] at hrest
    exact congrArg (Prod.mk _) hrest
  have hmap := hall.imp heq
  rw [← List.forall₂_map_left_iff, List.forall₂_eq_eq_eq] at hmap
  exact hmap.symm

end Header

/-! ### Bodies in a part of a text -/

theorem closeGroup_map_shift (opener closer : TokenKind) (n depth : Nat) (ts : List Token) :
    (closeGroup opener closer depth (ts.map (Token.shift n))).1 =
      (closeGroup opener closer depth ts).1.map (Token.shift n) := by
  induction ts generalizing depth with
  | nil => rfl
  | cons t ts ih =>
    have hkind : (Token.shift n t).kind = t.kind := rfl
    cases depth with
    | zero =>
      rw [List.map_cons, closeGroup, closeGroup, hkind]
      split_ifs
      · exact ih 1
      · rfl
      · exact ih 0
    | succ depth =>
      rw [List.map_cons, closeGroup, closeGroup, hkind]
      split_ifs
      · exact ih (depth + 1 + 1)
      · exact ih depth
      · exact ih (depth + 1)

theorem groupEnd_map_shift (opener closer : TokenKind) (n limit : Nat) (ts : List Token) :
    groupEnd opener closer (n + limit) (ts.map (Token.shift n)) =
      n + groupEnd opener closer limit ts := by
  rw [groupEnd, groupEnd, closeGroup_map_shift]
  cases (closeGroup opener closer 0 ts).1 <;> rfl

/-- Among the tokens behind an opening brace is the one that matches it. -/
def Closed (ts : List Token) : Prop :=
  ∃ inner t rest, ts = inner ++ t :: rest ∧ t.kind = .closeBrace ∧
    Balanced .openBrace .closeBrace inner

theorem nested_or_closed (ts : List Token) :
    Nested .openBrace .closeBrace 0 ts ∨ Closed ts := by
  have hne : TokenKind.openBrace ≠ .closeBrace := by decide
  rcases nested_or_exists_closer hne 0 ts with h | ⟨inner, t, rest, hts, ht, hinner, hcount⟩
  · exact .inl h
  · exact .inr ⟨inner, t, rest, hts, ht, hinner, by omega⟩

theorem closed_iff {ts : List Token} :
    Closed ts ↔ (closeGroup .openBrace .closeBrace 0 ts).1.isSome = true := by
  constructor
  · rintro ⟨inner, t, rest, rfl, ht, hinner⟩
    rw [hinner.closeGroup_eq (by decide) ht]
    rfl
  · intro hsome
    rcases nested_or_closed ts with hnested | hclosed
    · rw [closeGroup_of_nested (by decide) hnested] at hsome
      exact absurd hsome (by decide)
    · exact hclosed

instance (ts : List Token) : Decidable (Closed ts) :=
  decidable_of_iff _ closed_iff.symm

/-- Where a body ends that is closed does not depend on what stands behind. -/
theorem Closed.groupEnd_append {ts : List Token} (h : Closed ts) (us : List Token)
    (limit limit' : Nat) :
    groupEnd .openBrace .closeBrace limit (ts ++ us) =
      groupEnd .openBrace .closeBrace limit' ts := by
  obtain ⟨inner, t, rest, rfl, ht, hinner⟩ := h
  rw [groupEnd, groupEnd, List.append_assoc, List.cons_append,
    hinner.closeGroup_eq (by decide) ht, hinner.closeGroup_eq (by decide) ht]

theorem Closed.map_shift {ts : List Token} (h : Closed ts) (n : Nat) :
    Closed (ts.map (Token.shift n)) := by
  obtain ⟨inner, t, rest, rfl, ht, hinner⟩ := h
  exact ⟨inner.map (Token.shift n), t.shift n, rest.map (Token.shift n), by simp, ht,
    hinner.map fun _ => rfl⟩

/-- Where the body of a part `b` of a text ends in the whole, if it is closed in
the part or the whole ends with the part. -/
theorem groupEnd_part {a b c : Text} {rest us : List Token}
    (hend : Closed rest ∨ c = [] ∧ us = []) :
    groupEnd .openBrace .closeBrace (Text.size (a ++ (b ++ c)))
        (rest.map (Token.shift (Text.size a)) ++ us) =
      Text.size a + groupEnd .openBrace .closeBrace (Text.size b) rest := by
  rw [← groupEnd_map_shift]
  rcases hend with hclosed | ⟨rfl, rfl⟩
  · exact (hclosed.map_shift _).groupEnd_append us _ _
  · rw [List.append_nil, List.append_nil, Text.size_append]

/-- A declaration of a part is the same in the whole. -/
theorem Header.declaration_part {a b c : Text} {header : Header} {rest us : List Token}
    (hmem : (header, rest) ∈ all (significant b)) (hend : Closed rest ∨ c = [] ∧ us = [])
    (index : Nat) :
    (header.shift (Text.size a)).declaration (a ++ (b ++ c))
        (rest.map (Token.shift (Text.size a)) ++ us) index =
      header.declaration b rest index := by
  obtain ⟨front, hfront, -⟩ := exists_of_mem_all hmem
  obtain ⟨a', b', c', rfl, -, -, -, hstart', hstop'⟩ := exists_body_seams hfront
  rw [declaration, declaration, groupEnd_part hend, hstop', Header.shift]
  simp only [Token.shift]
  rw [hstart', Text.slice_append_add]
  have hinner : Text.slice (a' ++ (b' ++ c') ++ c) (Text.size a') (Text.size a' + Text.size b') =
      Text.slice (a' ++ (b' ++ c')) (Text.size a') (Text.size a' + Text.size b') := by
    rw [← List.append_assoc a' b' c', Text.slice_append, List.append_assoc (a' ++ b') c' c,
      Text.slice_append]
  rw [hinner]

/-- The declaration with `n` more declarations in front. -/
def Declaration.renumber (n : Nat) (d : Declaration) : Declaration :=
  ⟨d.name, d.body, n + d.index⟩

/-- **The declarations of a part `b` of a text**, as they are found in the
whole: each header has moved, and `us` stands behind its tokens. -/
theorem mapIdx_declaration_part (a : Text) {b : Text} (c : Text) (us : List Token)
    (hend : ∀ h ∈ Header.all (significant b), Closed h.2 ∨ c = [] ∧ us = []) (n : Nat) :
    ((Header.all (significant b)).map fun h =>
        (h.1.shift (Text.size a), h.2.map (Token.shift (Text.size a)) ++ us)).mapIdx
          (fun k h => h.1.declaration (a ++ (b ++ c)) h.2 (n + k)) =
      (declarations b).map (Declaration.renumber n) := by
  refine List.ext_getElem? fun k => ?_
  rw [declarations_eq, List.getElem?_mapIdx, List.getElem?_map, List.getElem?_map,
    List.getElem?_mapIdx]
  cases hk : (Header.all (significant b))[k]? with
  | none => rfl
  | some h =>
    have hmem := List.mem_of_getElem? hk
    simp only [Option.map_some, Header.declaration_part hmem (hend h hmem)]
    rfl

end EnumTables
