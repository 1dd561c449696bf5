/-
What comments and literals contain does not matter.

Braces, keywords and quotes may stand inside of a comment or a literal.  Readers
see the class of such a token and not its text, so a text in which another
comment or literal is put in the place of one has the same declarations and the
same constants.  Only the texts that are cut out of it may differ: the bodies,
the documentation and the arguments.

* **`alike_lex_replaceSpan`** — the tokens of the two texts look alike;
* **`declarations_alike`**, **`ofBody_alike`** — what texts have in common whose
  tokens look alike;
* **`contents_invisible`** — a text in which a comment or a literal is
  replaced.
-/
import EnumTables.Proofs.Constant.Names
import EnumTables.Proofs.Declaration.Comments
import EnumTables.Proofs.Token.Replaced

namespace EnumTables

theorem Token.Alike.refl (t : Token) : t.Alike t :=
  ⟨rfl, fun _ => rfl⟩

/-- A token that has moved looks as it did. -/
theorem Token.alike_move (m n : Nat) (t : Token) : t.Alike (t.move m n) :=
  ⟨rfl, fun _ => rfl⟩

/-- **One comment or literal in place of another** makes no token look
different. -/
theorem alike_lex_replaceSpan {src u : Text} {i : Nat} {t v : Token} {vs : List Token}
    (ht : (lex src)[i]? = some t) (hhidden : t.kind.isOpaque = true)
    (hhead : u.head? = t.text.head?) (hfirst : lex (u ++ Text.dropBytes t.stop src) = v :: vs)
    (hkind : v.kind = t.kind) (htext : v.text = u) :
    List.Forall₂ Token.Alike (lex src) (lex (src.replaceSpan t.start t.stop u)) := by
  rw [lex_replaceSpan ht hhead hfirst hkind htext]
  have hfront := List.forall₂_same.mpr fun x (_ : x ∈ (lex src).take i) => Token.Alike.refl x
  have hreplaced : t.Alike (Token.atByte t.start t.kind u) :=
    ⟨rfl, fun hseen => absurd (hhidden.symm.trans hseen) (by decide)⟩
  have hback : List.Forall₂ Token.Alike ((lex src).drop (i + 1))
      (((lex src).drop (i + 1)).map (Token.move t.stop (t.start + Text.size u))) := by
    rw [List.forall₂_map_right_iff]
    exact List.forall₂_same.mpr fun x _ => Token.alike_move _ _ x
  have hsplit : List.Forall₂ Token.Alike ((lex src).take i ++ t :: (lex src).drop (i + 1)) _ :=
    List.rel_append hfront (List.Forall₂.cons hreplaced hback)
  rwa [← split_of_getElem? ht] at hsplit

theorem isSome_eq_of_rel {α β : Type} {R : α → β → Prop} {a : Option α} {b : Option β}
    (h : Option.Rel R a b) : a.isSome = b.isSome := by
  cases h <;> rfl

section

variable {src src' : Text} (h : List.Forall₂ Token.Alike (lex src) (lex src'))

include h

/-- Texts whose tokens look alike have declarations of the same names. -/
theorem declarations_alike :
    (declarations src').map (fun d => (d.name, d.index)) =
      (declarations src).map (fun d => (d.name, d.index)) := by
  have htokens := (Thinned.of_forall₂ h).filter fun _ _ h => h.kind
  have hheaders := Header.all_rel (fun _ _ h => h) htokens
  have hwords : ∀ found ∈ Header.all (significant src), found.1.name.kind = .ident :=
    fun found hfound => (Header.name_mem_of_mem_all hfound).2
  -- both lists give the names of the headers in `src'`, numbered from zero
  have hnames : (declarations src').map (fun d => (d.name, d.index)) =
      (Header.all (significant src')).mapIdx fun k h => (h.1.name.text, k) := by
    have hsame : List.Forall₂ (· = ·) (Header.all (significant src'))
        (Header.all (significant src')) := by
      rw [List.forall₂_eq_eq_eq]
    rw [declarations_eq]
    refine map_mapIdx_of_forall₂ hsame ?_
    rintro k found _ rfl
    rfl
  rw [hnames, declarations_eq]
  refine (map_mapIdx_of_forall₂ ((List.forall₂_and_left _ _).mpr ⟨hwords, hheaders⟩) ?_).symm
  rintro k ⟨header, rest⟩ ⟨header', rest'⟩ ⟨hword, hname, -⟩
  have hseen : header.name.kind.isOpaque = false := by
    rw [hword]
    rfl
  exact congrArg (Prod.mk · k) (hname.text hseen).symm

/-- Texts whose tokens look alike have constants of the same names, documented
and with arguments in the same places. -/
theorem ofBody_alike :
    (Constant.ofBody src').map (fun c => (c.name, c.doc.isSome, c.arguments.isSome)) =
      (Constant.ofBody src).map (fun c => (c.name, c.doc.isSome, c.arguments.isSome)) := by
  have hconstants : List.Forall₂ (Constant.Related (fun _ _ => True) fun _ _ => True)
      (Constant.ofBody src) (Constant.ofBody src') :=
    Thinned.ofTokens_rel (fun _ _ h => h) (fun _ _ _ _ _ _ => trivial) (fun _ _ _ _ => trivial)
      (Thinned.of_forall₂ h) .none
  have hlook : List.Forall₂ (· = ·)
      ((Constant.ofBody src).map fun c => (c.name, c.doc.isSome, c.arguments.isSome))
      ((Constant.ofBody src').map fun c => (c.name, c.doc.isSome, c.arguments.isSome)) := by
    rw [List.forall₂_map_left_iff, List.forall₂_map_right_iff]
    refine hconstants.imp fun c d hcd => ?_
    rw [hcd.name, isSome_eq_of_rel hcd.doc, isSome_eq_of_rel hcd.arguments]
  rw [List.forall₂_eq_eq_eq] at hlook
  exact hlook.symm

end

/-- **What comments and literals contain does not matter.**  In the place of a
comment or literal `t` stands `u`, which starts with the same character and is a
token of the same class there.  Then the text has the same tokens but for this
one, those behind it moved; its declarations have the same names and indices; and
its constants have the same names, with documentation and arguments where they
were. -/
theorem contents_invisible (src u : Text) (i : Nat) (t v : Token) (vs : List Token)
    (ht : (lex src)[i]? = some t)
    (hkind : t.kind = .comment ∨ t.kind = .docComment ∨ t.kind = .literal)
    (hhead : u.head? = t.text.head?)
    (hfirst : lex (u ++ Text.dropBytes t.stop src) = v :: vs ∧ v.kind = t.kind ∧ v.text = u) :
    lex (src.replaceSpan t.start t.stop u) =
      (lex src).take i ++ ⟨t.kind, u, t.start, t.start + Text.size u⟩ ::
        ((lex src).drop (i + 1)).map (Token.move t.stop (t.start + Text.size u)) ∧
    (declarations (src.replaceSpan t.start t.stop u)).map (fun d => (d.name, d.index)) =
      (declarations src).map (fun d => (d.name, d.index)) ∧
    (Constant.ofBody (src.replaceSpan t.start t.stop u)).map
        (fun c => (c.name, c.doc.isSome, c.arguments.isSome)) =
      (Constant.ofBody src).map (fun c => (c.name, c.doc.isSome, c.arguments.isSome)) := by
  obtain ⟨hlex, hsame, htext⟩ := hfirst
  have hhidden : t.kind.isOpaque = true := by
    rcases hkind with hkind | hkind | hkind <;> rw [hkind] <;> rfl
  have halike := alike_lex_replaceSpan ht hhidden hhead hlex hsame htext
  exact ⟨lex_replaceSpan ht hhead hlex hsame htext, declarations_alike halike,
    ofBody_alike halike⟩

/-- A keyword with a brace in place of a brace, in the documentation of a
constant. -/
theorem contents_invisible_keyword :
    (lex "enum A \x7b /** \x7d */ B \x7d".toList)[3]? =
      some ⟨.docComment, "/** \x7d */".toList, 9, 17⟩ ∧
    (declarations "enum A \x7b /** enum C \x7b */ B \x7d".toList).map
        (fun d => (d.name, d.index)) =
      (declarations "enum A \x7b /** \x7d */ B \x7d".toList).map (fun d => (d.name, d.index)) := by
  have ht : (lex "enum A \x7b /** \x7d */ B \x7d".toList)[3]? =
      some ⟨.docComment, "/** \x7d */".toList, 9, 17⟩ := by decide +kernel
  have hlex : lex ("/** enum C \x7b */".toList ++
      Text.dropBytes 17 "enum A \x7b /** \x7d */ B \x7d".toList) =
      [⟨.docComment, "/** enum C \x7b */".toList, 0, 15⟩, ⟨.ident, ['B'], 16, 17⟩,
        ⟨.closeBrace, ['}'], 18, 19⟩] := by decide +kernel
  exact ⟨ht, (contents_invisible _ "/** enum C \x7b */".toList 3 _ _ _ ht (.inr (.inl rfl)) rfl
    ⟨hlex, rfl, rfl⟩).2.1⟩

end EnumTables
