/-
Ordinary comments are invisible.

Every reader of tokens passes over comments, each in its own way: some take the
next significant token, some count brackets, and the reader of constants has a
case for them.  For each of them there is a lemma: on a list from which comments
have been left out it does what it does on the list itself.  From these follows
that the declarations and constants of a text do not change when each comment
is replaced by a space.

* **`Thinned.significant?_cases`**, **`Thinned.closeGroup_rel`** — the readers of
  tokens;
* **`Thinned.ofTokens_rel`** — the reader of constants;
* **`declarations_blankComments`**, **`ofBody_blankComments`** — a text with and
  without comments;
* **`comments_invisible`** — both together.
-/
import EnumTables.Constant
import EnumTables.Proofs.Declaration.Parts
import EnumTables.Proofs.Token.Blanked

namespace EnumTables

/-- The images of lists that are related one by one. -/
theorem map_mapIdx_of_forall₂ {α β γ δ : Type} {R : α → β → Prop} {l : List α} {l' : List β}
    (h : List.Forall₂ R l l') {f : Nat → α → γ} {g : Nat → β → δ} {e : γ → δ}
    (hfg : ∀ k a b, R a b → e (f k a) = g k b) : (l.mapIdx f).map e = l'.mapIdx g := by
  induction h generalizing f g with
  | nil => rfl
  | cons hab _ ih =>
    rw [List.mapIdx_cons, List.mapIdx_cons, List.map_cons, hfg 0 _ _ hab,
      ih fun k a b hab => hfg (k + 1) a b hab]

/-- Constants of one name, whose comments and arguments are related. -/
structure Constant.Related (D A : Text → Text → Prop) (c d : Constant) : Prop where
  doc : Option.Rel D c.doc d.doc
  name : d.name = c.name
  arguments : Option.Rel A c.arguments d.arguments

namespace Thinned

section

variable {R : Token → Token → Prop} {ts us : List Token}

theorem of_forall₂ (h : List.Forall₂ R ts us) : Thinned R ts us := by
  induction h with
  | nil => exact .nil
  | cons htu _ ih => exact .keep htu ih

theorem isSignificant_of_comment {t : Token} (h : t.kind = .comment) : t.isSignificant = false := by
  rw [Token.isSignificant, h]
  rfl

theorem isSignificant_congr {t u : Token} (h : u.kind = t.kind) :
    u.isSignificant = t.isSignificant := by
  rw [Token.isSignificant, Token.isSignificant, h]

/-- The significant tokens are related one by one. -/
theorem filter (hR : ∀ t u, R t u → u.kind = t.kind) (h : Thinned R ts us) :
    List.Forall₂ R (ts.filter Token.isSignificant) (us.filter Token.isSignificant) := by
  induction h with
  | nil => exact .nil
  | skip ht _ ih => rwa [List.filter_cons, isSignificant_of_comment ht]
  | @keep t u ts us htu _ ih =>
    rw [List.filter_cons, List.filter_cons, isSignificant_congr (hR t u htu)]
    split_ifs
    · exact .cons htu ih
    · exact ih

/-- The next significant token. -/
theorem significant?_cases (hR : ∀ t u, R t u → u.kind = t.kind) (h : Thinned R ts us) :
    (significant? ts = none ∧ significant? us = none) ∨
      ∃ t u ts' us', significant? ts = some (t, ts') ∧ significant? us = some (u, us') ∧ R t u ∧
        Thinned R ts' us' := by
  induction h with
  | nil => exact .inl ⟨rfl, rfl⟩
  | skip ht _ ih =>
    rw [significant?, isSignificant_of_comment ht]
    exact ih
  | @keep t u ts us htu hrest ih =>
    rw [significant?, significant?, isSignificant_congr (hR t u htu)]
    split_ifs
    · exact .inr ⟨t, u, ts, us, rfl, rfl, htu, hrest⟩
    · exact ih

/-- Reading through a closer. -/
theorem closeGroup_rel (hR : ∀ t u, R t u → u.kind = t.kind) {opener closer : TokenKind}
    (ho : opener ≠ .comment) (hc : closer ≠ .comment) (h : Thinned R ts us) (depth : Nat) :
    Option.Rel R (closeGroup opener closer depth ts).1
        (closeGroup opener closer depth us).1 ∧
      Thinned R (closeGroup opener closer depth ts).2
        (closeGroup opener closer depth us).2 := by
  induction h generalizing depth with
  | nil => exact ⟨.none, .nil⟩
  | skip ht _ ih =>
    rw [closeGroup_cons_other (by rw [ht]; exact ho.symm) (by rw [ht]; exact hc.symm)]
    exact ih depth
  | @keep t u ts us htu hrest ih =>
    have hkind := hR t u htu
    cases depth with
    | zero =>
      rw [closeGroup, closeGroup, hkind]
      split_ifs
      · exact ih 1
      · exact ⟨.some htu, hrest⟩
      · exact ih 0
    | succ depth =>
      rw [closeGroup, closeGroup, hkind]
      split_ifs
      · exact ih (depth + 1 + 1)
      · exact ih depth
      · exact ih (depth + 1)

end

/-! ### Constants -/

theorem qualifiedRest_eq (ts : List Token) :
    Constant.qualifiedRest ts =
      match significant? ts with
      | none => ts
      | some (t, rest) =>
        if t.kind = .other ∧ t.text = ['.'] then
          match significant? rest with
          | none => []
          | some (_, rest') => Constant.qualifiedRest rest'
        else if t.kind = .openParen then (closeGroup .openParen .closeParen 0 rest).2
        else ts := by
  rw [Constant.qualifiedRest]
  split
  · rename_i h
    rw [h]
  · rename_i t rest h
    rw [h]
    refine ite_congr rfl (fun _ => ?_) (fun _ => rfl)
    split
    · rename_i h'
      rw [h']
    · rename_i h'
      rw [h']

/-- Any other token takes a waiting documentation comment away. -/
theorem ofTokens_other {t : Token} (body : Text) (doc : Option Text) (ts : List Token)
    (h : t.kind ∉ [.docComment, .comment, .at, .ident, .semicolon]) :
    Constant.ofTokens body doc (t :: ts) = Constant.ofTokens body none ts := by
  rw [Constant.ofTokens]
  split <;> simp_all

section

variable {R : Token → Token → Prop} {ts us : List Token} (hR : ∀ t u, R t u → t.Alike u)

include hR

theorem isDot_congr {t u : Token} (htu : R t u) :
    (u.kind = .other ∧ u.text = ['.']) ↔ t.kind = .other ∧ t.text = ['.'] := by
  rw [(hR t u htu).kind]
  refine and_congr_right fun hkind => ?_
  rw [(hR t u htu).text (by rw [hkind]; rfl)]

theorem qualifiedRest_rel (h : Thinned R ts us) :
    Thinned R (Constant.qualifiedRest ts) (Constant.qualifiedRest us) := by
  have hkind : ∀ t u, R t u → u.kind = t.kind := fun t u htu => (hR t u htu).kind
  -- each dot of the name is followed by fewer tokens
  induction hn : ts.length using Nat.strongRecOn generalizing ts us with
  | ind n ih =>
    subst hn
    rw [qualifiedRest_eq ts, qualifiedRest_eq us]
    rcases h.significant?_cases hkind with ⟨hts, hus⟩ | ⟨t, u, ts', us', hts, hus, htu, hrest⟩
    · rwa [hts, hus]
    have hlt := significant?_length_lt hts
    rw [hts, hus]
    simp only [isDot_congr hR htu]
    rw [hkind t u htu]
    split_ifs
    · rcases hrest.significant?_cases hkind with
        ⟨hts', hus'⟩ | ⟨t', u', ts'', us'', hts', hus', -, hrest'⟩
      · rw [hts', hus']
        exact .nil
      · have hlt' := significant?_length_lt hts'
        rw [hts', hus']
        exact ih _ (by omega) hrest' rfl
    · exact (hrest.closeGroup_rel hkind (by decide) (by decide) 0).2
    · exact h

theorem annotationRest_rel (h : Thinned R ts us) :
    Thinned R (Constant.annotationRest ts) (Constant.annotationRest us) := by
  have hkind : ∀ t u, R t u → u.kind = t.kind := fun t u htu => (hR t u htu).kind
  rw [Constant.annotationRest, Constant.annotationRest]
  rcases h.significant?_cases hkind with ⟨hts, hus⟩ | ⟨t, u, ts', us', hts, hus, htu, hrest⟩
  · rwa [hts, hus]
  rw [hts, hus]
  simp only [hkind t u htu]
  split_ifs
  · exact qualifiedRest_rel hR hrest
  · exact h

theorem classBodyRest_rel (h : Thinned R ts us) :
    Thinned R (Constant.classBodyRest ts) (Constant.classBodyRest us) := by
  have hkind : ∀ t u, R t u → u.kind = t.kind := fun t u htu => (hR t u htu).kind
  rw [Constant.classBodyRest, Constant.classBodyRest]
  rcases h.significant?_cases hkind with ⟨hts, hus⟩ | ⟨t, u, ts', us', hts, hus, htu, hrest⟩
  · rwa [hts, hus]
  rw [hts, hus]
  simp only [hkind t u htu]
  split_ifs
  · exact (hrest.closeGroup_rel hkind (by decide) (by decide) 0).2
  · exact h

variable {src src' : Text} {D A : Text → Text → Prop}
  (harguments : ∀ t u ts us, R t u → Thinned R ts us →
    A (Text.slice src t.stop (groupEnd .openParen .closeParen (Text.size src) ts))
      (Text.slice src' u.stop (groupEnd .openParen .closeParen (Text.size src') us)))

include harguments

/-- Arguments stay, and their texts are related. -/
theorem readArguments_rel (h : Thinned R ts us) :
    Option.Rel A (Constant.readArguments src ts).1 (Constant.readArguments src' us).1 ∧
      Thinned R (Constant.readArguments src ts).2 (Constant.readArguments src' us).2 := by
  have hkind : ∀ t u, R t u → u.kind = t.kind := fun t u htu => (hR t u htu).kind
  rw [Constant.readArguments, Constant.readArguments]
  rcases h.significant?_cases hkind with ⟨hts, hus⟩ | ⟨t, u, ts', us', hts, hus, htu, hrest⟩
  · rw [hts, hus]
    exact ⟨.none, h⟩
  rw [hts, hus]
  simp only [hkind t u htu]
  split_ifs
  · exact ⟨.some (harguments t u ts' us' htu hrest),
      (hrest.closeGroup_rel hkind (by decide) (by decide) 0).2⟩
  · exact ⟨.none, h⟩

/-- **The constants among tokens without comments**: the same names in the same
order, with comments and arguments where they were. -/
theorem ofTokens_rel
    (hdoc : ∀ t u, R t u → t.kind = .docComment → D (Comment.inner t.text) (Comment.inner u.text))
    (h : Thinned R ts us) {doc doc' : Option Text} (hwaits : Option.Rel D doc doc') :
    List.Forall₂ (Constant.Related D A) (Constant.ofTokens src doc ts)
      (Constant.ofTokens src' doc' us) := by
  have hkinds : ∀ t u, R t u → u.kind = t.kind := fun t u htu => (hR t u htu).kind
  induction doc, ts using Constant.ofTokens.induct src generalizing us doc' with
  | case1 doc =>
    cases h
    rw [Constant.ofTokens, Constant.ofTokens]
    exact .nil
  | case2 doc t ts hkind ih =>
    cases h with
    | skip ht _ => exact absurd (hkind.symm.trans ht) (by decide)
    | @keep _ u _ us htu h =>
      rw [Constant.ofTokens, Constant.ofTokens]
      simp only [hkinds t u htu, hkind]
      exact ih h (.some (hdoc t u htu hkind))
  | case3 doc t ts hkind ih =>
    rw [Constant.ofTokens]
    simp only [hkind]
    cases h with
    | skip _ h => exact ih h hwaits
    | @keep _ u _ us htu h =>
      rw [Constant.ofTokens]
      simp only [hkinds t u htu, hkind]
      exact ih h hwaits
  | case4 doc t ts hkind ih =>
    cases h with
    | skip ht _ => exact absurd (hkind.symm.trans ht) (by decide)
    | @keep _ u _ us htu h =>
      rw [Constant.ofTokens, Constant.ofTokens]
      simp only [hkinds t u htu, hkind]
      exact ih (annotationRest_rel hR h) hwaits
  | case5 doc t ts hkind rest =>
    rename_i ih
    cases h with
    | skip ht _ => exact absurd (hkind.symm.trans ht) (by decide)
    | @keep _ u _ us htu h =>
      obtain ⟨hargs, hrest⟩ := readArguments_rel hR harguments h
      rw [Constant.ofTokens, Constant.ofTokens]
      simp only [hkinds t u htu, hkind]
      have hname : u.text = t.text := (hR t u htu).text (by rw [hkind]; rfl)
      exact .cons ⟨hwaits, hname, hargs⟩ (ih (classBodyRest_rel hR hrest) .none)
  | case6 doc t ts hkind =>
    cases h with
    | skip ht _ => exact absurd (hkind.symm.trans ht) (by decide)
    | @keep _ u _ us htu h =>
      rw [Constant.ofTokens, Constant.ofTokens]
      simp only [hkinds t u htu, hkind]
      exact .nil
  | case7 doc t ts hnodoc hcomment hat hident hsemicolon ih =>
    cases h with
    | skip ht _ => exact absurd ht hcomment
    | @keep _ u _ us htu h =>
      have hother : t.kind ∉ [.docComment, .comment, .at, .ident, .semicolon] := by
        simp only [List.mem_cons, List.not_mem_nil, or_false]
        rintro (hk | hk | hk | hk | hk)
        · exact hnodoc hk
        · exact hcomment hk
        · exact hat hk
        · exact hident hk
        · exact hsemicolon hk
      rw [ofTokens_other _ _ _ hother, ofTokens_other _ _ _ (hkinds t u htu ▸ hother)]
      exact ih h .none

end

/-- Where a group ends. -/
theorem groupEnd_corresponds {src : Text} {ts us : List Token} {opener closer : TokenKind}
    (ho : opener ≠ .comment) (hc : closer ≠ .comment) (h : Thinned (Token.Becomes src) ts us) :
    Corresponds src (groupEnd opener closer (Text.size src) ts)
      (groupEnd opener closer (Text.size (blankComments src)) us) := by
  have hrel := (h.closeGroup_rel (fun _ _ h => h.kind) ho hc 0).1
  rw [groupEnd, groupEnd]
  generalize (closeGroup opener closer 0 ts).1 = found,
    (closeGroup opener closer 0 us).1 = found' at hrel ⊢
  cases hrel with
  | none => exact corresponds_size src
  | some hbecomes => exact hbecomes.start

end Thinned

theorem Token.Becomes.alike {src : Text} {t u : Token} (h : t.Becomes src u) : t.Alike u :=
  ⟨h.kind, fun _ => h.text⟩

/-- The declarations of a text whose comments are replaced. -/
theorem declarations_blankComments (src : Text) :
    declarations (blankComments src) =
      (declarations src).map fun d => ⟨d.name, blankComments d.body, d.index⟩ := by
  have htokens := (thinned_lex src).filter fun _ _ h => h.kind
  have hheaders := Header.all_rel (fun _ _ h => h.alike) htokens
  rw [declarations_eq, declarations_eq]
  refine (map_mapIdx_of_forall₂ hheaders ?_).symm
  rintro k ⟨header, rest⟩ ⟨header', rest'⟩ ⟨hname, hbrace, hrest⟩
  have hopen : TokenKind.openBrace ≠ .comment := by decide
  have hclose : TokenKind.closeBrace ≠ .comment := by decide
  have hend := (Thinned.of_forall₂ hrest).groupEnd_corresponds hopen hclose
  exact congrArg₂ (Declaration.mk · · k) hname.text.symm
    (slice_blankComments hbrace.stop hend).symm

/-- A constant of one of two related lists determines that of the other. -/
theorem Constant.Related.eq_of_blank {c d : Constant}
    (h : Related (· = ·) (fun a b => blankComments a = b) c d) :
    (⟨c.doc, c.name, c.arguments.map blankComments⟩ : Constant) = d := by
  obtain ⟨doc, name, arguments⟩ := c
  obtain ⟨doc', name', arguments'⟩ := d
  obtain ⟨hdoc, rfl, harguments⟩ := h
  cases hdoc <;> cases harguments <;> simp_all

/-- The constants of a body whose comments are replaced. -/
theorem ofBody_blankComments (body : Text) :
    Constant.ofBody (blankComments body) =
      (Constant.ofBody body).map fun c => ⟨c.doc, c.name, c.arguments.map blankComments⟩ := by
  have hopen : TokenKind.openParen ≠ .comment := by decide
  have hclose : TokenKind.closeParen ≠ .comment := by decide
  have harguments (t u : Token) (ts us : List Token) (htu : t.Becomes body u)
      (h : Thinned (Token.Becomes body) ts us) :=
    (slice_blankComments htu.stop (h.groupEnd_corresponds hopen hclose)).symm
  have hconstants : List.Forall₂ (Constant.Related (· = ·) fun a b => blankComments a = b)
      (Constant.ofBody body) (Constant.ofBody (blankComments body)) :=
    Thinned.ofTokens_rel (fun _ _ h => h.alike) harguments
      (fun t u htu _ => congrArg Comment.inner htu.text.symm) (thinned_lex body) .none
  have hmap := hconstants.imp fun _ _ => Constant.Related.eq_of_blank
  rw [← List.forall₂_map_left_iff, List.forall₂_eq_eq_eq] at hmap
  exact hmap.symm

/-- **Ordinary comments are invisible.**  A text with a space in place of each
comment has the same declarations, in whose bodies the comments are replaced;
and a body with a space in place of each comment has the same constants, in
whose arguments the comments are replaced. -/
theorem comments_invisible (s b : Text) :
    declarations (blankComments s) =
      (declarations s).map (fun d => ⟨d.name, blankComments d.body, d.index⟩) ∧
    Constant.ofBody (blankComments b) =
      (Constant.ofBody b).map (fun c => ⟨c.doc, c.name, c.arguments.map blankComments⟩) :=
  ⟨declarations_blankComments s, ofBody_blankComments b⟩

end EnumTables
