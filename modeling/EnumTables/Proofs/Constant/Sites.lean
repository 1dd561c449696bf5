/-
Where the constants stand in a body.

The comment, the name and the arguments of a constant are pieces of the body, taken
from tokens that follow each other.  The reader of constants never goes back, so the
pieces are in the order of the constants, and none is used twice.

* **`Span.Holds`** — a piece of a text at its byte positions;
* **`Site`** — the spans of a constant, **`Site.Shows`** what stands there;
* **`exists_comment_of_followed`** — a documentation comment in front of something is
  closed, and not before its end;
* **`Group.exists_span`** — the span of an argument list;
* **`Outline.exists_sites`** — the spans of all constants, from any place on.
-/
import EnumTables.Proofs.Constant.Outline
import EnumTables.Proofs.Token.Literals

namespace EnumTables

/-- A piece of a text, by its byte positions. -/
structure Span where
  start : Nat
  stop : Nat

namespace Span

/-- One span stands in front of another; they may touch. -/
def Before (s s' : Span) : Prop :=
  s.stop ≤ s'.start

/-- The spans follow each other from a byte position on. -/
def InOrder : Nat → List Span → Prop
  | _, [] => True
  | n, s :: ss => n ≤ s.start ∧ s.start ≤ s.stop ∧ InOrder s.stop ss

theorem InOrder.pairwise {n : Nat} {ss : List Span} (h : InOrder n ss) :
    ss.Pairwise Before ∧ ∀ s ∈ ss, n ≤ s.start := by
  induction ss generalizing n with
  | nil => exact ⟨.nil, fun s hs => absurd hs List.not_mem_nil⟩
  | cons s ss ih =>
    obtain ⟨hle, hspan, hrest⟩ := h
    obtain ⟨hpairwise, hbound⟩ := ih hrest
    refine ⟨List.pairwise_cons.mpr ⟨hbound, hpairwise⟩, ?_⟩
    intro s' hs'
    rcases List.mem_cons.mp hs' with rfl | hs'
    · exact hle
    · have := hbound s' hs'
      omega

/-- The piece stands in the text at the span. -/
def Holds (src : Text) (s : Span) (piece : Text) : Prop :=
  ∃ front back, src = front ++ piece ++ back ∧ s.start = Text.size front ∧
    s.stop = Text.size front + Text.size piece

end Span

/-- The spans of a constant: of what its comment says, of its name and of its
arguments. -/
structure Site where
  doc : Option Span
  name : Span
  arguments : Option Span

namespace Site

/-- The spans in their order. -/
def spans (s : Site) : List Span :=
  s.doc.toList ++ s.name :: s.arguments.toList

theorem inOrder {s : Site} {n : Nat} {later : List Span}
    (hdoc : ∀ d ∈ s.doc, n ≤ d.start ∧ d.start ≤ d.stop ∧ d.stop ≤ s.name.start)
    (hn : n ≤ s.name.start) (hname : s.name.start ≤ s.name.stop)
    (harguments : ∀ a ∈ s.arguments, s.name.stop ≤ a.start ∧ a.start ≤ a.stop ∧
      Span.InOrder a.stop later)
    (hlater : Span.InOrder s.name.stop later) : Span.InOrder n (s.spans ++ later) := by
  obtain ⟨doc, name, arguments⟩ := s
  have hrest : Span.InOrder name.stop (arguments.toList ++ later) := by
    cases arguments with
    | none => exact hlater
    | some a => exact harguments a rfl
  cases doc with
  | none => exact ⟨hn, hname, hrest⟩
  | some d =>
    obtain ⟨hstart, hspan, hstop⟩ := hdoc d rfl
    exact ⟨hstart, hspan, hstop, hname, hrest⟩

end Site

/-- The text is that of a documentation comment in the body, closed for the first time
at its end. -/
def IsComment (body : Text) (t : Token) (text : Text) : Prop :=
  t ∈ lex body ∧ t.kind = .docComment ∧ t.text = "/**".toList ++ text ++ "*/".toList ∧
    ¬ "*/".toList <:+: text

/-- The constant stands at the site: its comment between the delimiters of a
documentation comment, its name as a word, and its arguments anywhere. -/
structure Site.Shows (body : Text) (s : Site) (c : Constant) : Prop where
  doc : Option.Rel (fun span text => span.Holds body text ∧
    ∃ t, IsComment body t text ∧ t.start + 3 = span.start) s.doc c.doc
  name : s.name.Holds body c.name ∧
    ∃ t ∈ lex body, t.kind = .ident ∧ s.name = ⟨t.start, t.stop⟩
  arguments : Option.Rel (Span.Holds body) s.arguments c.arguments

/-! ### Pieces -/

/-- Between two boundaries stands a piece. -/
theorem Text.IsBoundary.holds {src : Text} {m n : Nat} (hm : IsBoundary src m)
    (hn : IsBoundary src n) (hle : m ≤ n) : Span.Holds src ⟨m, n⟩ (slice src m n) := by
  obtain ⟨front, hfront, rfl⟩ := hm
  obtain ⟨long, hlong, rfl⟩ := hn
  have hprefix : front <+: long := by
    rcases List.prefix_or_prefix_of_prefix hfront hlong with h | ⟨rest, rfl⟩
    · exact h
    · -- the longer one has no more bytes
      rw [size_append] at hle
      by_cases hrest : rest = []
      · rw [hrest, List.append_nil]
      · have hpos := size_pos_of_ne_nil hrest
        omega
  obtain ⟨piece, rfl⟩ := hprefix
  obtain ⟨back, rfl⟩ := hlong
  rw [size_append, slice_append]
  exact ⟨front, back, rfl, rfl, rfl⟩

theorem Token.Within.holds {src : Text} {t : Token} (h : t.Within src) :
    Span.Holds src ⟨t.start, t.stop⟩ t.text := by
  obtain ⟨-, front, back, hsrc, hstart, hstop⟩ := h
  exact ⟨front, back, hsrc, hstart, hstop⟩

/-- What a documentation comment says stands between its delimiters. -/
theorem IsComment.holds {body text : Text} {t : Token} (h : IsComment body t text) :
    t.start + 3 ≤ t.stop - 2 ∧ Span.Holds body ⟨t.start + 3, t.stop - 2⟩ text := by
  obtain ⟨ht, -, htext, -⟩ := h
  obtain ⟨-, front, back, hbody, hstart, hstop⟩ := within_of_mem_lexFrom [] body t ht
  have hlead : Text.size "/**".toList = 3 := by decide
  have htail : Text.size "*/".toList = 2 := by decide
  have hsize : t.stop = t.start + (3 + Text.size text + 2) := by
    rw [hstop, hstart, htext, Text.size_append, Text.size_append, hlead, htail]
  have hspan : t.stop - 2 = t.start + 3 + Text.size text := by omega
  refine ⟨by omega, front ++ "/**".toList, "*/".toList ++ back, ?_, ?_, ?_⟩
  · rw [List.nil_append] at hbody
    rw [hbody, htext]
    simp only [List.append_assoc]
  · rw [Text.size_append, hlead, hstart]
  · rw [Text.size_append, hlead, ← hstart]
    exact hspan

/-! ### Closed comments -/

/-- A documentation comment that something follows is closed. -/
theorem Lexer.Cuts.exists_comment {c : Char} {w rest : Text} {k : TokenKind}
    (h : Cuts c w k rest) (hk : k = .docComment) (hrest : rest ≠ []) :
    ∃ text, c :: w = "/**".toList ++ text ++ "*/".toList ∧ ¬ "*/".toList <:+: text := by
  cases h with
  | @block front rest h =>
    obtain ⟨content, rfl⟩ := Text.suffix_of_through h hrest
    rw [blockKind_append (by simp)] at hk
    -- a comment that says nothing at all is no documentation comment
    obtain ⟨text, rfl⟩ : ∃ text, content = '*' :: text := by
      match content with
      | [] => simp [blockKind] at hk
      | [a] =>
        rw [List.singleton_append, blockKind_cons_cons] at hk
        split at hk
        · rename_i ha
          exact ⟨[], by rw [ha.1]⟩
        · cases hk
      | a :: b :: more =>
        rw [List.cons_append, List.cons_append, blockKind_cons_cons] at hk
        split at hk
        · rename_i ha
          exact ⟨b :: more, by rw [ha.1]⟩
        · cases hk
    refine ⟨text, by simp, ?_⟩
    rw [List.append_assoc] at h
    have hopen := (Text.through_eq_iff (by simp) _ _).mp h
    intro hin
    exact hopen (hin.trans ⟨['*'], ['*'], by simp⟩)
  | line => cases hk
  | textBlock => cases hk
  | string => cases hk
  | character => cases hk
  | sign hsign =>
    rw [hk] at hsign
    unfold signKind? at hsign
    split at hsign <;> simp at hsign
  | number => cases hk
  | word => cases hk
  | slash => cases hk
  | lone => cases hk

/-- **A documentation comment that does not reach the end** of the text is closed, and
its text has no closing delimiter before that. -/
theorem exists_comment_of_followed {n : Nat} {cs : Text} {t : Token} (h : t ∈ lexFrom n cs)
    (hk : t.kind = .docComment) (hstop : t.stop < n + Text.size cs) :
    ∃ text, t.text = "/**".toList ++ text ++ "*/".toList ∧ ¬ "*/".toList <:+: text := by
  induction cs using lex_induction generalizing n with
  | blank gap hgap =>
    rw [lexFrom_of_blank hgap] at h
    cases h
  | token gap c w k rest hgap hc hcuts ih =>
    rw [lexFrom_token hgap hc hcuts] at h
    rw [Text.size_append, ← List.cons_append, Text.size_append] at hstop
    rcases List.mem_cons.mp h with rfl | h
    · refine hcuts.exists_comment hk ?_
      rintro rfl
      simp only [Token.atByte, Text.size] at hstop
      omega
    · exact ih h (by omega)

/-! ### The spans of the constants -/

section

variable {body : Text} {ts mid : List Token} {n : Nat}

theorem before_of_sublist {t u : Token} (h : [t, u].Sublist (lex body)) : t.stop ≤ u.start := by
  have hpairwise := (pairwise_lexFrom 0 body).sublist h
  exact List.rel_of_pairwise_cons hpairwise (List.mem_singleton_self u)

/-- **The span of an argument list** is in front of what the reader goes on with.  A
list that is never closed has all the rest of the body. -/
theorem Group.exists_span {group : Option (Token × Option Token)}
    (h : Group .openParen .closeParen ts group mid) (hsub : ts.Sublist (lex body))
    (hn : ∀ t ∈ ts, n ≤ t.start) :
    ∃ span : Option Span, Option.Rel (Span.Holds body) span (group.map (groupText body)) ∧
      ∀ s ∈ span, n ≤ s.start ∧ s.start ≤ s.stop ∧ ∀ t ∈ mid, s.stop ≤ t.start := by
  have hwithin : ∀ t ∈ lex body, t.Within body := within_of_mem_lexFrom [] body
  cases h with
  | absent h => exact ⟨none, .none, by simp⟩
  | @closed inner _ o c h ho hinner hc =>
    have hsuffix := (significant?_suffix h).sublist
    have hall := hsuffix.trans hsub
    have ho' := hwithin o (hall.subset List.mem_cons_self)
    have hc' := hwithin c (hall.subset (by simp))
    have hle : o.stop ≤ c.start := by
      refine before_of_sublist (List.Sublist.trans ?_ hall)
      exact .cons_cons o (List.singleton_sublist.mpr (by simp))
    refine ⟨some ⟨o.stop, c.start⟩, .some (ho'.isBoundary_stop.holds hc'.isBoundary_start hle), ?_⟩
    rintro s ⟨⟩
    refine ⟨?_, hle, ?_⟩
    · exact (hn o (hsuffix.subset List.mem_cons_self)).trans ho'.start_lt_stop.le
    · intro t ht
      have hbefore : c.stop ≤ t.start := by
        refine before_of_sublist (List.Sublist.trans ?_ hall)
        have hpair : [c, t].Sublist (c :: mid) := .cons_cons c (List.singleton_sublist.mpr ht)
        exact (hpair.trans (List.sublist_append_right inner _)).trans (List.sublist_cons_self o _)
      exact hc'.start_lt_stop.le.trans hbefore
  | @unclosed inner o h ho hinner =>
    have hmem := (significant?_suffix h).subset List.mem_cons_self
    have ho' := hwithin o (hsub.subset hmem)
    have hend : Text.IsBoundary body (Text.size body) := ⟨body, List.prefix_refl body, rfl⟩
    have hle := ho'.isBoundary_stop.le_size
    refine ⟨some ⟨o.stop, Text.size body⟩, .some (ho'.isBoundary_stop.holds hend hle), ?_⟩
    rintro s ⟨⟩
    exact ⟨(hn o hmem).trans ho'.start_lt_stop.le, hle, by simp⟩

/-- **The span of a comment** that waits for a name. -/
theorem exists_doc_span {doc : Option Token} {t : Token} (hdoc : ∀ d ∈ doc, d.kind = .docComment)
    (hsub : (doc.toList ++ [t]).Sublist (lex body)) :
    ∃ span : Option Span, Option.Rel (fun span text => span.Holds body text ∧
        ∃ d, IsComment body d text ∧ d.start + 3 = span.start) span
        (doc.map fun d => Comment.inner d.text) ∧
      ∀ s ∈ span, (∃ d ∈ doc, d.start ≤ s.start) ∧ s.start ≤ s.stop ∧ s.stop ≤ t.start := by
  cases doc with
  | none => exact ⟨none, .none, by simp⟩
  | some d =>
    have hd : d ∈ lex body := hsub.subset (by simp)
    have hbefore : d.stop ≤ t.start := before_of_sublist hsub
    -- the name behind the comment keeps it from reaching the end
    have hname := span_of_mem_lexFrom (hsub.subset (by simp) : t ∈ lex body)
    obtain ⟨text, htext, hopen⟩ := exists_comment_of_followed hd (hdoc d rfl) (by omega)
    have hcomment : IsComment body d text := ⟨hd, hdoc d rfl, htext, hopen⟩
    obtain ⟨hle, hholds⟩ := hcomment.holds
    have hinner : Comment.inner d.text = text := by
      rw [htext]
      exact Comment.inner_delimited text
    refine ⟨some ⟨d.start + 3, d.stop - 2⟩, ?_, ?_⟩
    · rw [Option.map_some, hinner]
      exact .some ⟨hholds, d, hcomment, rfl⟩
    · rintro s ⟨⟩
      refine ⟨⟨d, rfl, Nat.le_add_right d.start 3⟩, hle, ?_⟩
      show d.stop - 2 ≤ t.start
      omega

/-- The documentation comment that waits behind a token, where `doc` waits in front of
it. -/
def Token.pending (t : Token) (doc : Option Token) : Option Token :=
  match t.kind with
  | .docComment => some t
  | .comment => doc
  | .at => doc
  | _ => none

theorem Token.waiting_map (t : Token) (doc : Option Token) :
    t.waiting (doc.map fun d => Comment.inner d.text) =
      (t.pending doc).map fun d => Comment.inner d.text := by
  rw [waiting, pending]
  cases t.kind <;> rfl

theorem Token.pending_kind {t : Token} {doc : Option Token}
    (hdoc : ∀ d ∈ doc, d.kind = .docComment) : ∀ d ∈ t.pending doc, d.kind = .docComment := by
  rw [pending]
  split
  · rename_i hkind
    rintro d ⟨⟩
    exact hkind
  · exact hdoc
  · exact hdoc
  · simp

theorem Token.pending_sublist (t : Token) (doc : Option Token) (ts : List Token) :
    ((t.pending doc).toList ++ ts).Sublist (doc.toList ++ t :: ts) := by
  rw [pending]
  split
  · exact List.sublist_append_right _ _
  · exact .append (.refl _) (List.sublist_cons_self t ts)
  · exact .append (.refl _) (List.sublist_cons_self t ts)
  · exact (List.sublist_cons_self t ts).trans (List.sublist_append_right _ _)

/-- **The spans of the constants** are in the order of the body.  `doc` is the comment
that waits in front of the tokens. -/
theorem Outline.exists_sites {items : List Item} (h : Outline ts items) {doc : Option Token}
    (hdoc : ∀ d ∈ doc, d.kind = .docComment) (hsub : (doc.toList ++ ts).Sublist (lex body)) :
    ∃ sites : List Site, List.Forall₂ (Site.Shows body) sites
        (Constant.ofTokens body (doc.map fun d => Comment.inner d.text) ts) ∧
      ∀ n, (∀ t ∈ doc.toList ++ ts, n ≤ t.start) → Span.InOrder n (sites.flatMap Site.spans) := by
  induction h generalizing doc with
  | nil =>
    rw [Constant.ofTokens]
    exact ⟨[], .nil, fun n _ => trivial⟩
  | @annotated t ts rest items ht h _ ih =>
    have hrest : rest.Sublist ts := h.annotationRest_eq ▸
      (Constant.annotationRest_suffix ts).sublist
    have hless : (doc.toList ++ rest).Sublist (doc.toList ++ t :: ts) :=
      .append (.refl _) (hrest.cons t)
    obtain ⟨sites, hshows, horder⟩ := ih hdoc (hless.trans hsub)
    rw [Constant.ofTokens_at ht, h.annotationRest_eq]
    exact ⟨sites, hshows, fun n hn => horder n fun u hu => hn u (hless.subset hu)⟩
  | @constant t ts mid rest arguments classBody items ht harguments hbody _ ih =>
    have hmid : mid.Sublist ts := by
      have hsuffix := Constant.readArguments_suffix body ts
      rw [harguments.readArguments_eq] at hsuffix
      exact hsuffix.sublist
    have hrest : rest.Sublist mid := hbody.classBodyRest_eq ▸
      (Constant.classBodyRest_suffix mid).sublist
    have hname : (t :: ts).Sublist (lex body) := (List.sublist_append_right _ _).trans hsub
    have hts : ts.Sublist (lex body) := (List.sublist_cons_self t ts).trans hname
    have ht' : t ∈ lex body := hname.subset List.mem_cons_self
    have hwithin := within_of_mem_lexFrom [] body t ht'
    -- what stands behind the name is behind its last byte
    have hbehind : ∀ u ∈ ts, t.stop ≤ u.start := fun u hu =>
      before_of_sublist ((List.Sublist.cons_cons t (List.singleton_sublist.mpr hu)).trans hname)
    have hnone : ∀ d ∈ (none : Option Token), d.kind = .docComment := by simp
    obtain ⟨sites, hshows, horder⟩ := ih hnone ((hrest.trans hmid).trans hts)
    obtain ⟨span, hspan, hspanBounds⟩ := harguments.exists_span hts hbehind
    have hdocs : (doc.toList ++ [t]).Sublist (lex body) :=
      (List.Sublist.append (.refl _) (List.singleton_sublist.mpr List.mem_cons_self)).trans hsub
    rw [Constant.ofTokens_ident ht, harguments.readArguments_eq, hbody.classBodyRest_eq]
    obtain ⟨docSpan, hdocSpan, hdocBounds⟩ := exists_doc_span hdoc hdocs
    refine ⟨⟨docSpan, ⟨t.start, t.stop⟩, span⟩ :: sites,
      .cons ⟨hdocSpan, ⟨hwithin.holds, t, ht', ht, rfl⟩, hspan⟩ hshows, ?_⟩
    intro n hn
    have hlater (m : Nat) (hm : ∀ u ∈ mid, m ≤ u.start) :
        Span.InOrder m (sites.flatMap Site.spans) :=
      horder m fun u hu => hm u (hrest.subset hu)
    rw [List.flatMap_cons]
    refine Site.inOrder ?_ (hn t (by simp)) (Nat.le_of_lt hwithin.start_lt_stop) ?_ ?_
    · intro d hd
      obtain ⟨⟨comment, hcomment, hstart⟩, hspan⟩ := hdocBounds d hd
      have hmem : comment ∈ doc.toList := Option.mem_toList.mpr hcomment
      exact ⟨Nat.le_trans (hn comment (List.mem_append_left _ hmem)) hstart, hspan⟩
    · intro a ha
      obtain ⟨hstart, hle, hmid⟩ := hspanBounds a ha
      exact ⟨hstart, hle, hlater a.stop hmid⟩
    · exact hlater t.stop fun u hu => hbehind u (hmid.subset hu)
  | @other t ts items hat hident _ ih =>
    by_cases hsemicolon : t.kind = .semicolon
    · rw [Constant.ofTokens_semicolon hsemicolon]
      exact ⟨[], .nil, fun n _ => trivial⟩
    · have hless := t.pending_sublist doc ts
      obtain ⟨sites, hshows, horder⟩ := ih (Token.pending_kind hdoc) (hless.trans hsub)
      rw [Constant.ofTokens_waiting hat hident hsemicolon, Token.waiting_map]
      exact ⟨sites, hshows, fun n hn => horder n fun u hu => hn u (hless.subset hu)⟩

end

end EnumTables
