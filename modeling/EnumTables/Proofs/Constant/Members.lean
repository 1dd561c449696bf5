/-
The members of an enum have no part in its constants.

Behind the first semicolon at the top level of a body stand fields and methods.
No reader of tokens looks past a semicolon that it leaves at the top level: what
it read in front of it is the same if another text follows the semicolon, or if
the body ends there.

* **`Ends`** — tokens that are empty or start with a semicolon;
* **`Group.cut`**, **`Selectors.cut`**, **`Annotation.cut`** — the parts that are
  covered, with other tokens from the semicolon on;
* **`Outline.settled`** — the constants in front of a semicolon;
* **`members_invisible`** — the constants of two bodies that agree up to a
  semicolon.
-/
import EnumTables.Event.Basic
import EnumTables.Proofs.Constant.Outline

namespace EnumTables

/-- There are no tokens, or the first one is a semicolon. -/
def Ends (zs : List Token) : Prop :=
  ∀ t, zs.head? = some t → t.kind = .semicolon

theorem ends_nil : Ends [] := by
  intro t ht
  simp at ht

theorem ends_cons {s : Token} (hs : s.kind = .semicolon) (vs : List Token) : Ends (s :: vs) := by
  intro t ht
  rw [← Option.some.inj ht]
  exact hs

section

variable {ts us mid rest zs vs : List Token} {t s : Token}

/-! ### Looking ahead -/

theorem significant?_append (h : significant? ts = some (t, us)) (zs : List Token) :
    significant? (ts ++ zs) = some (t, us ++ zs) := by
  induction ts with
  | nil => simp [significant?] at h
  | cons u ts ih =>
    rw [significant?] at h
    rw [List.cons_append, significant?]
    split_ifs at h ⊢
    · obtain ⟨rfl, rfl⟩ := Prod.mk.inj (Option.some.inj h)
      rfl
    · exact ih h

/-- A look ahead finds a token of the first list, or it finds a semicolon. -/
theorem Ends.significant?_append (hzs : Ends zs) (h : significant? (ts ++ zs) = some (t, us)) :
    (∃ vs, significant? ts = some (t, vs)) ∨ t.kind = .semicolon := by
  induction ts with
  | nil =>
    rcases zs with _ | ⟨z, zs⟩
    · simp [significant?] at h
    · have hz : z.kind = .semicolon := hzs z rfl
      rw [List.nil_append, significant?_cons (by rw [hz]; rfl)] at h
      rw [← (Prod.mk.inj (Option.some.inj h)).1]
      exact .inr hz
  | cons u ts ih =>
    rw [List.cons_append, significant?] at h
    rw [significant?]
    split_ifs at h ⊢
    · rw [← (Prod.mk.inj (Option.some.inj h)).1]
      exact .inl ⟨ts, rfl⟩
    · exact ih h

/-- The tokens of a look ahead, without some tokens at their end. -/
theorem significant?_cut (h : significant? ts = some (t, us ++ zs)) :
    ∃ ts', ts = ts' ++ zs ∧ significant? ts' = some (t, us) := by
  induction ts with
  | nil => simp [significant?] at h
  | cons u ts ih =>
    rw [significant?] at h
    split_ifs at h with hu
    · obtain ⟨rfl, rfl⟩ := Prod.mk.inj (Option.some.inj h)
      exact ⟨u :: us, rfl, by rw [significant?, if_pos hu]⟩
    · obtain ⟨ts', rfl, hts'⟩ := ih h
      exact ⟨u :: ts', rfl, by rw [significant?, if_neg hu, hts']⟩

/-- What the first token of a look ahead is not, as long as that is no
semicolon. -/
theorem Ends.not_of_significant? {p : Token → Prop} (hzs : Ends zs)
    (hp : ∀ t, p t → t.kind ≠ .semicolon)
    (hvs : ∀ t us, significant? (ts ++ vs) = some (t, us) → ¬ p t)
    (h : significant? (ts ++ zs) = some (t, us)) : ¬ p t := by
  rcases hzs.significant?_append h with ⟨ws, hts⟩ | hsemicolon
  · exact hvs t _ (EnumTables.significant?_append hts vs)
  · exact fun ht => hp t ht hsemicolon

/-! ### The parts that are covered -/

/-- A group, with other tokens from the semicolon on that stands behind it. -/
theorem Group.cut {opener closer : TokenKind} {group : Option (Token × Option Token)}
    (h : Group opener closer ts group (mid ++ s :: vs)) (hopener : opener ≠ .semicolon) :
    ∃ us, ts = us ++ s :: vs ∧
      (∀ zs, Ends zs → Group opener closer (us ++ zs) group (mid ++ zs)) ∧
      ∀ o c, group = some (o, c) → ∃ c', c = some c' ∧ o ∈ us ∧ c' ∈ us := by
  generalize hrest : mid ++ s :: vs = rest at h
  cases h with
  | absent h =>
    subst hrest
    refine ⟨mid, rfl, ?_, by simp⟩
    intro zs hzs
    refine .absent fun t us hsig => ?_
    refine hzs.not_of_significant? (p := fun t => t.kind = opener) ?_ h hsig
    intro t ht
    rwa [ht]
  | @closed inner _ o c h ho hinner hc =>
    subst hrest
    rw [← List.cons_append, ← List.append_assoc] at h
    obtain ⟨us, rfl, hus⟩ := significant?_cut h
    refine ⟨us, rfl, ?_, ?_⟩
    · intro zs _
      have hzs := significant?_append hus zs
      rw [List.append_assoc, List.cons_append] at hzs
      exact .closed hzs ho hinner hc
    · intro o' c' hgroup
      obtain ⟨rfl, rfl⟩ := Prod.mk.inj (Option.some.inj hgroup)
      have hsub := (significant?_suffix hus).subset
      exact ⟨c, rfl, hsub (by simp), hsub (by simp)⟩
  | unclosed h ho hinner => simp at hrest

theorem Token.IsDot.kind_ne_semicolon (h : t.IsDot) : t.kind ≠ .semicolon := by
  rw [h.1]
  decide

/-- Dots and an argument list, with other tokens from the semicolon on that
stands behind them. -/
theorem Selectors.cut (h : Selectors ts (mid ++ s :: vs)) :
    ∃ us, ts = us ++ s :: vs ∧ ∀ zs, Ends zs → Selectors (us ++ zs) (mid ++ zs) := by
  generalize hrest : mid ++ s :: vs = rest at h
  induction h with
  | list hdot h =>
    subst hrest
    obtain ⟨us, rfl, hus, -⟩ := h.cut (by decide)
    refine ⟨us, rfl, fun zs hzs => .list ?_ (hus zs hzs)⟩
    intro t ws hsig
    exact hzs.not_of_significant? (fun _ => Token.IsDot.kind_ne_semicolon) hdot hsig
  | dot h ht hname _ ih =>
    obtain ⟨us, rfl, hus⟩ := ih hrest
    obtain ⟨us', rfl, hname'⟩ := significant?_cut hname
    obtain ⟨us'', rfl, h'⟩ := significant?_cut h
    refine ⟨us'', rfl, fun zs hzs => ?_⟩
    exact .dot (significant?_append h' zs) ht (significant?_append hname' zs) (hus zs hzs)
  | last h ht hname => simp at hrest

/-- What belongs to an `@`, with other tokens from the semicolon on that stands
behind it. -/
theorem Annotation.cut (h : Annotation ts (mid ++ s :: vs)) :
    ∃ us, ts = us ++ s :: vs ∧ ∀ zs, Ends zs → Annotation (us ++ zs) (mid ++ zs) := by
  generalize hrest : mid ++ s :: vs = rest at h
  cases h with
  | named h hname hselectors =>
    subst hrest
    obtain ⟨us, rfl, hus⟩ := hselectors.cut
    obtain ⟨us', rfl, h'⟩ := significant?_cut h
    exact ⟨us', rfl, fun zs hzs => .named (significant?_append h' zs) hname (hus zs hzs)⟩
  | bare h =>
    subst hrest
    refine ⟨mid, rfl, fun zs hzs => .bare fun t us hsig => ?_⟩
    refine hzs.not_of_significant? (p := fun t => t.kind = .ident) ?_ h hsig
    intro t ht
    rw [ht]
    decide

/-! ### Constants -/

/-- The two bodies hold the same texts between the tokens. -/
def SameBetween (us : List Token) (a b : Text) : Prop :=
  ∀ o ∈ us, ∀ c ∈ us, Text.slice b o.stop c.start = Text.slice a o.stop c.start

variable {a b : Text}

theorem SameBetween.mono {us' : List Token} (h : SameBetween us a b) (hsub : us' ⊆ us) :
    SameBetween us' a b :=
  fun o ho c hc => h o (hsub ho) c (hsub hc)

/-- A semicolon ends the constants. -/
theorem Ends.ofTokens_eq (hzs : Ends zs) (body : Text) (doc : Option Text) :
    Constant.ofTokens body doc zs = [] := by
  rcases zs with _ | ⟨z, zs⟩
  · rw [Constant.ofTokens]
  · exact Constant.ofTokens_semicolon (hzs z rfl)

/-- The constants that are read from the tokens do not depend on the body beyond
what stands between these, and not on what ends them. -/
def Settled (us : List Token) : Prop :=
  ∀ a b doc zs zs', SameBetween us a b → Ends zs → Ends zs' →
    Constant.ofTokens b doc (us ++ zs) = Constant.ofTokens a doc (us ++ zs')

theorem settled_nil : Settled [] := by
  intro a b doc zs zs' _ hzs hzs'
  rw [List.nil_append, List.nil_append, hzs.ofTokens_eq, hzs'.ofTokens_eq]

theorem Settled.annotated (h : Settled mid) (ht : t.kind = .at)
    (hrest : ∀ zs, Ends zs → Annotation (us ++ zs) (mid ++ zs)) : Settled (t :: us) := by
  intro a b doc zs zs' hsame hzs hzs'
  have hsuffix := Constant.annotationRest_suffix (us ++ [])
  rw [(hrest [] ends_nil).annotationRest_eq, List.append_nil, List.append_nil] at hsuffix
  rw [List.cons_append, List.cons_append, Constant.ofTokens_at ht, Constant.ofTokens_at ht,
    (hrest zs hzs).annotationRest_eq, (hrest zs' hzs').annotationRest_eq]
  exact h a b doc zs zs' (hsame.mono (List.subset_cons_of_subset t hsuffix.subset)) hzs hzs'

theorem Settled.constant {us' : List Token} {arguments classBody : Option (Token × Option Token)}
    (h : Settled us') (ht : t.kind = .ident)
    (harguments : ∀ zs, Ends zs →
      Group .openParen .closeParen (us ++ zs) arguments (mid ++ zs))
    (hclosed : ∀ o c, arguments = some (o, c) → ∃ c', c = some c' ∧ o ∈ us ∧ c' ∈ us)
    (hbody : ∀ zs, Ends zs → Group .openBrace .closeBrace (mid ++ zs) classBody (us' ++ zs)) :
    Settled (t :: us) := by
  intro a b doc zs zs' hsame hzs hzs'
  have hmid := Constant.readArguments_suffix a (us ++ [])
  have hus' := Constant.classBodyRest_suffix (mid ++ [])
  rw [(harguments [] ends_nil).readArguments_eq, List.append_nil, List.append_nil] at hmid
  rw [(hbody [] ends_nil).classBodyRest_eq, List.append_nil, List.append_nil] at hus'
  have htext : arguments.map (groupText b) = arguments.map (groupText a) := by
    rcases arguments with _ | ⟨o, c⟩
    · rfl
    · obtain ⟨c, rfl, ho, hc⟩ := hclosed o c rfl
      exact congrArg some (hsame o (List.mem_cons_of_mem t ho) c (List.mem_cons_of_mem t hc))
  rw [List.cons_append, List.cons_append, Constant.ofTokens_ident ht, Constant.ofTokens_ident ht,
    (harguments zs hzs).readArguments_eq, (harguments zs' hzs').readArguments_eq,
    (hbody zs hzs).classBodyRest_eq, (hbody zs' hzs').classBodyRest_eq, htext]
  rw [h a b none zs zs' (hsame.mono (List.subset_cons_of_subset t (hus'.trans hmid).subset)) hzs
    hzs']

theorem Settled.other (h : Settled us) (hat : t.kind ≠ .at) (hident : t.kind ≠ .ident) :
    Settled (t :: us) := by
  intro a b doc zs zs' hsame hzs hzs'
  rw [List.cons_append, List.cons_append]
  by_cases hsemicolon : t.kind = .semicolon
  · rw [Constant.ofTokens_semicolon hsemicolon, Constant.ofTokens_semicolon hsemicolon]
  · rw [Constant.ofTokens_waiting hat hident hsemicolon,
      Constant.ofTokens_waiting hat hident hsemicolon]
    exact h a b _ zs zs' (hsame.mono (List.subset_cons_self t us)) hzs hzs'

/-- **The constants in front of a semicolon.**  They are the same whatever stands
from the semicolon on, and if nothing stands there. -/
theorem Outline.settled {items : List Item} (h : Outline ts items) (hitem : ⟨s, vs⟩ ∈ items)
    (hs : s.kind = .semicolon) : ∃ us, ts = us ++ s :: vs ∧ Settled us := by
  induction h with
  | nil => simp at hitem
  | annotated ht h _ ih =>
    rcases List.mem_cons.mp hitem with heq | hitem
    · obtain ⟨rfl, rfl⟩ := Item.mk.inj heq
      exact absurd (hs.symm.trans ht) (by decide)
    · obtain ⟨us, rfl, hus⟩ := ih hitem
      obtain ⟨us', rfl, hrest⟩ := h.cut
      exact ⟨_ :: us', rfl, hus.annotated ht hrest⟩
  | constant ht harguments hbody _ ih =>
    rcases List.mem_cons.mp hitem with heq | hitem
    · obtain ⟨rfl, rfl⟩ := Item.mk.inj heq
      exact absurd (hs.symm.trans ht) (by decide)
    · -- from the back to the front: the class body, then the argument list
      obtain ⟨us, rfl, hus⟩ := ih hitem
      obtain ⟨mid, rfl, hbody', -⟩ := hbody.cut (by decide)
      obtain ⟨us', rfl, harguments', hclosed⟩ := harguments.cut (by decide)
      exact ⟨_ :: us', rfl, hus.constant ht harguments' hclosed hbody'⟩
  | other hat hident _ ih =>
    rcases List.mem_cons.mp hitem with heq | hitem
    · obtain ⟨rfl, rfl⟩ := Item.mk.inj heq
      exact ⟨[], rfl, settled_nil⟩
    · obtain ⟨us, rfl, hus⟩ := ih hitem
      exact ⟨_ :: us, rfl, hus.other hat hident⟩

end

/-! ### Bodies -/

/-- A piece of a text is the same piece of a longer text. -/
theorem Text.slice_append_left {cs : Text} {m n : Nat} (hm : IsBoundary cs m)
    (hn : IsBoundary cs n) (ds : Text) : slice (cs ++ ds) m n = slice cs m n := by
  obtain ⟨f, ⟨x, rfl⟩, rfl⟩ := hm
  obtain ⟨g, hg, rfl⟩ := hn
  rcases List.prefix_or_prefix_of_prefix hg (List.prefix_append f x) with hgf | ⟨y, rfl⟩
  · -- the piece ends before it starts
    obtain ⟨r, rfl⟩ := hgf
    have htake : ∀ ts : Text, takeBytes 0 ts = [] := by
      intro ts
      cases ts <;> rfl
    have hzero : size g - size (g ++ r) = 0 := by
      rw [size_append]
      omega
    rw [slice, slice, hzero, htake, htake]
  · obtain ⟨z, rfl⟩ := (List.prefix_append_right_inj f).mp hg
    have hassoc : f ++ (y ++ z) ++ ds = f ++ y ++ (z ++ ds) := by simp
    rw [hassoc, size_append, slice_append, ← List.append_assoc, slice_append]

/-- A token of the class of semicolons is spelled as one. -/
theorem Lexer.Cuts.eq_semicolon {c : Char} {w rest : Text} {k : TokenKind} (h : Cuts c w k rest)
    (hk : k = .semicolon) : c = ';' := by
  cases h with
  | @block front rest h =>
    have hcomment := isComment_blockKind (front ++ rest)
    rw [hk] at hcomment
    exact absurd hcomment (by decide)
  | sign h =>
    rw [hk] at h
    unfold signKind? at h
    split at h <;> simp_all
  | _ => cases hk

/-- A text whose first token is a semicolon at its very start. -/
theorem startsLike_of_semicolon {n : Nat} {b : Text} {s : Token} {vs : List Token}
    (h : lexFrom n b = s :: vs) (hs : s.kind = .semicolon) (hstart : s.start = n) (q : Text) :
    Text.StartsLike (';' :: q) b := by
  cases Lexer.begins b with
  | blank gap hgap =>
    rw [lexFrom_of_blank hgap] at h
    exact absurd h (by simp)
  | token gap c w k rest hgap hc hcuts =>
    rw [lexFrom_token hgap hc hcuts] at h
    obtain ⟨rfl, -⟩ := List.cons.inj h
    rcases eq_or_ne gap [] with rfl | hne
    · obtain rfl := hcuts.eq_semicolon hs
      exact Text.startsLike_cons ';' q (w ++ rest)
    · have hpos := Text.size_pos_of_ne_nil hne
      simp only [Token.atByte] at hstart
      omega

/-- The texts between the tokens of a text stay the same when it goes on. -/
theorem sameBetween_append (a c : Text) : SameBetween (lex a) a (a ++ c) := by
  intro o ho t ht
  have ho' := within_of_mem_lexFrom [] a o ho
  have ht' := within_of_mem_lexFrom [] a t ht
  exact Text.slice_append_left ho'.isBoundary_stop ht'.isBoundary_start c

/-- **The members of an enum have no part in its constants.**  A text that
follows a semicolon at the top level of a body changes nothing about the
constants, and leaving it out, the semicolon included, does neither. -/
theorem members_invisible {body : Text} {items : List Item} (h : Outline (lex body) items)
    {item : Item} (hitem : item ∈ items) (hkind : item.token.kind = .semicolon) (q : Text) :
    Constant.ofBody (Text.takeBytes item.token.start body ++ ';' :: q) =
      Constant.ofBody (Text.takeBytes item.token.start body) ∧
    documentedOf (Constant.ofBody (Text.takeBytes item.token.start body ++ ';' :: q)) =
      documentedOf (Constant.ofBody (Text.takeBytes item.token.start body)) ∧
    Constant.events (Constant.ofBody (Text.takeBytes item.token.start body ++ ';' :: q)) =
      Constant.events (Constant.ofBody (Text.takeBytes item.token.start body)) := by
  obtain ⟨us, hus, hsettled⟩ := h.settled hitem hkind
  obtain ⟨a, b, rfl, hseam, rfl, hstart, hb⟩ := exists_seam_before hus
  have htake : Text.takeBytes item.token.start (a ++ b) = a := by
    rw [hstart, Nat.zero_add, Text.takeBytes_append]
  -- both texts have the tokens of `a`, and then none or a semicolon
  have hseam' : Seam a (';' :: q) := hseam.of_startsLike (startsLike_of_semicolon hb hkind hstart q)
  have hends : Ends (lexFrom (0 + Text.size a) (';' :: q)) := by
    rw [lexFrom_sign rfl]
    exact ends_cons rfl _
  have hconstants : Constant.ofBody (a ++ ';' :: q) = Constant.ofBody a := by
    have hcut := hsettled a (a ++ ';' :: q) none _ [] (sameBetween_append a _) hends ends_nil
    rwa [List.append_nil, ← hseam'] at hcut
  rw [htake, hconstants]
  exact ⟨rfl, rfl, rfl⟩

/-- A constant whose class body holds a semicolon too, and members that open a
brace and a comment. -/
theorem members_invisible_classBody :
    Constant.ofBody (Text.takeBytes 4 ['A', '\x7b', ';', '\x7d', ';', 'x'] ++
        ';' :: ['\x7b', '/', '*']) =
      Constant.ofBody (Text.takeBytes 4 ['A', '\x7b', ';', '\x7d', ';', 'x']) := by
  let brace : Token := ⟨.openBrace, ['\x7b'], 1, 2⟩
  let members : List Token := [⟨.semicolon, [';'], 4, 5⟩, ⟨.ident, ['x'], 5, 6⟩]
  let classBody : List Token :=
    [⟨.semicolon, [';'], 2, 3⟩] ++ ⟨.closeBrace, ['\x7d'], 3, 4⟩ :: members
  have hlex : lex ['A', '\x7b', ';', '\x7d', ';', 'x'] =
      ⟨.ident, ['A'], 0, 1⟩ :: brace :: classBody := by
    decide +kernel
  have hlook : significant? (brace :: classBody) = some (brace, classBody) :=
    significant?_cons rfl
  have harguments :
      Group .openParen .closeParen (brace :: classBody) none (brace :: classBody) := by
    refine .absent fun t us hsig => ?_
    rw [← (Prod.mk.inj (Option.some.inj (hlook.symm.trans hsig))).1]
    decide
  have hbody : Group .openBrace .closeBrace (brace :: classBody) _ members :=
    .closed hlook rfl (by decide) rfl
  have hmembers : Outline members _ :=
    .other (by decide) (by decide)
      (.constant rfl (.absent (by simp [significant?])) (.absent (by simp [significant?])) .nil)
  have h : Outline (⟨.ident, ['A'], 0, 1⟩ :: brace :: classBody) _ :=
    .constant rfl harguments hbody hmembers
  rw [← hlex] at h
  exact (members_invisible h (.tail _ (.head _)) rfl ['\x7b', '/', '*']).1

end EnumTables
