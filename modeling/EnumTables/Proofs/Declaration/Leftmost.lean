/-
The declarations of a text are its leftmost headers.

Headers of a text can overlap: in `enum A implements enum B {` there are two.
Of overlapping headers the one that starts first counts, and a keyword inside
of it starts no declaration.  `Leftmost` says this of a list of headers
without a search: the headers follow one another, and every header of the
text is one of them or starts inside of one.

* **`Leftmost.unique`** — there is only one such list;
* **`exists_leftmost`** — the search finds it;
* **`bodyEnd_groupEnd`** — a body ends at the first brace that closes more than
  was opened;
* **`declarations_eq_leftmost`** — the declarations are these headers with these
  bodies.
-/
import EnumTables.Proofs.Declaration.Header
import EnumTables.Proofs.Token.Balance

namespace EnumTables

namespace Header

/-- A header in a list of tokens, with the places of its keyword and of its
opening brace. -/
structure Occurrence where
  header : Header
  first : Nat
  last : Nat
  deriving DecidableEq, Repr

/-- The header stands in the list at these places. -/
def Occurs (ts : List Token) (o : Occurrence) : Prop :=
  ∃ hs, Spells o.header hs ∧ hs <+: ts.drop o.first ∧ o.last + 1 = o.first + hs.length

/-- **The leftmost headers.**  They follow one another, and every other header
of the list starts between the keyword and the brace of one of them. -/
structure Leftmost (ts : List Token) (os : List Occurrence) : Prop where
  occurs : ∀ o ∈ os, Occurs ts o
  ordered : os.Pairwise fun o p => o.last < p.first
  complete : ∀ o, Occurs ts o → o ∈ os ∨ ∃ p ∈ os, p.first < o.first ∧ o.first < p.last

theorem Spells.two_le_length {header : Header} {hs : List Token} (h : Spells header hs) :
    2 ≤ hs.length := by
  cases h
  simp only [List.length_cons]
  omega

namespace Occurs

variable {ts : List Token} {o p : Occurrence}

theorem first_lt_last (h : Occurs ts o) : o.first < o.last := by
  obtain ⟨hs, hspells, -, hlast⟩ := h
  have := hspells.two_le_length
  omega

theorem starts (h : Occurs ts o) : Starts (ts.drop o.first) := by
  obtain ⟨hs, hspells, hpre, -⟩ := h
  exact ⟨o.header, hs, hspells, hpre⟩

/-- At one place there is one header. -/
theorem eq_of_first_eq (ho : Occurs ts o) (hp : Occurs ts p) (h : o.first = p.first) : o = p := by
  obtain ⟨hs, hspells, hpre, hlast⟩ := ho
  obtain ⟨hs', hspells', hpre', hlast'⟩ := hp
  rw [← h] at hpre'
  obtain ⟨hheader, rfl⟩ := hspells.unique hspells' hpre hpre'
  rcases o with ⟨header, first, last⟩
  rcases p with ⟨header', first', last'⟩
  simp only [Occurrence.mk.injEq] at hheader h hlast hlast' ⊢
  exact ⟨hheader, h, by omega⟩

end Occurs

namespace Leftmost

variable {ts : List Token} {os ps : List Occurrence}

/-- Leftmost headers do not overlap. -/
theorem eq_or_last_lt (h : Leftmost ts os) {o p : Occurrence} (ho : o ∈ os) (hp : p ∈ os)
    (hle : o.first ≤ p.first) : o = p ∨ o.last < p.first := by
  obtain ⟨i, hi, rfl⟩ := List.getElem_of_mem ho
  obtain ⟨j, hj, rfl⟩ := List.getElem_of_mem hp
  rcases Nat.lt_trichotomy i j with hij | rfl | hij
  · exact .inr (List.pairwise_iff_getElem.mp h.ordered i j hi hj hij)
  · exact .inl rfl
  · have hlt := List.pairwise_iff_getElem.mp h.ordered j i hj hi hij
    have hwide := (h.occurs _ hp).first_lt_last
    omega

/-- A header of one leftmost list is in every other one. -/
theorem subset (hos : Leftmost ts os) (hps : Leftmost ts ps) : ∀ o ∈ os, o ∈ ps := by
  intro o
  induction hn : o.first using Nat.strongRecOn generalizing os ps o with
  | ind n ih =>
    subst hn
    intro ho
    rcases hps.complete o (hos.occurs o ho) with hmem | ⟨p, hp, hlt, hinside⟩
    · exact hmem
    · -- the header of `ps` around `o` starts earlier, so it is in `os` too and overlaps `o`
      have hp' : p ∈ os := ih p.first hlt hps hos p rfl hp
      rcases hos.eq_or_last_lt hp' ho (Nat.le_of_lt hlt) with rfl | hlast
      · omega
      · omega

theorem pairwise_first_lt (h : Leftmost ts os) : os.Pairwise fun o p => o.first < p.first := by
  refine h.ordered.imp_of_mem ?_
  intro o p ho _ hlt
  exact Nat.lt_trans (h.occurs o ho).first_lt_last hlt

/-- There is one list of leftmost headers only. -/
theorem unique (hos : Leftmost ts os) (hps : Leftmost ts ps) : os = ps := by
  have hnodup : ∀ {qs : List Occurrence}, Leftmost ts qs → qs.Nodup := by
    intro qs hqs
    refine hqs.pairwise_first_lt.imp ?_
    rintro o p hlt rfl
    exact Nat.lt_irrefl _ hlt
  -- lists with the same members in the same order are equal
  have hperm : os.Perm ps := (List.perm_ext_iff_of_nodup (hnodup hos) (hnodup hps)).mpr
    fun o => ⟨hos.subset hps o, hps.subset hos o⟩
  refine hperm.eq_of_pairwise ?_ hos.pairwise_first_lt hps.pairwise_first_lt
  intro o p _ _ hlt hgt
  omega

end Leftmost

/-- The occurrence in a list that has `n` more tokens in front. -/
def Occurrence.shift (n : Nat) (o : Occurrence) : Occurrence :=
  ⟨o.header, n + o.first, n + o.last⟩

theorem occurs_shift_iff {pre ts : List Token} {o : Occurrence} :
    Occurs (pre ++ ts) (o.shift pre.length) ↔ Occurs ts o := by
  have hdrop : (pre ++ ts).drop (pre.length + o.first) = ts.drop o.first := by
    rw [List.drop_append]
    simp
  refine exists_congr fun hs => and_congr_right fun _ => ?_
  simp only [Occurrence.shift, hdrop]
  refine and_congr_right fun _ => ?_
  omega

/-- A header behind the tokens `pre` is one of the tokens behind them. -/
theorem Occurs.exists_shift {pre ts : List Token} {o : Occurrence} (h : Occurs (pre ++ ts) o)
    (hle : pre.length ≤ o.first) : ∃ p, Occurs ts p ∧ o = p.shift pre.length := by
  have hlast := h.first_lt_last
  have ho : o = (Occurrence.mk o.header (o.first - pre.length) (o.last - pre.length)).shift
      pre.length := by
    rcases o with ⟨header, first, last⟩
    simp only [Occurrence.shift, Occurrence.mk.injEq, true_and] at hle hlast ⊢
    omega
  exact ⟨_, occurs_shift_iff.mp (ho ▸ h), ho⟩

/-- No header starts at the brace of another. -/
theorem Spells.not_starts_brace {header : Header} {hs : List Token} (h : Spells header hs)
    (rest : List Token) : ¬ Starts ((hs ++ rest).drop (hs.length - 1)) := by
  cases h with
  | @intro keyword name brace clause _ _ _ hbrace =>
    have hdrop : (keyword :: name :: (clause ++ [brace]) ++ rest).drop
        ((keyword :: name :: (clause ++ [brace])).length - 1) = brace :: rest := by
      simp
    rw [hdrop]
    rintro ⟨header', hs', hspells', hpre⟩
    cases hspells' with
    | intro hkeyword _ _ _ =>
      obtain ⟨rfl, -⟩ := List.cons_prefix_cons.mp hpre
      rw [kind_of_isIdent hkeyword] at hbrace
      exact absurd hbrace (by decide)

/-- The first header of a list and the leftmost headers behind it are the
leftmost headers of the list. -/
theorem Leftmost.cons {pre hs rest : List Token} {header : Header} {os : List Occurrence}
    (hspells : Spells header hs) (hnone : ∀ n < pre.length, ¬ Starts ((pre ++ (hs ++ rest)).drop n))
    (hos : Leftmost rest os) :
    Leftmost (pre ++ (hs ++ rest))
      (⟨header, pre.length, pre.length + hs.length - 1⟩ ::
        os.map (Occurrence.shift (pre ++ hs).length)) := by
  have htwo := hspells.two_le_length
  have hfirst : Occurs (pre ++ (hs ++ rest)) ⟨header, pre.length, pre.length + hs.length - 1⟩ := by
    refine ⟨hs, hspells, ?_, ?_⟩
    · rw [List.drop_left]
      exact List.prefix_append hs rest
    · simp only
      omega
  refine ⟨?_, ?_, ?_⟩
  · intro o ho
    rcases List.mem_cons.mp ho with rfl | ho
    · exact hfirst
    · obtain ⟨p, hp, rfl⟩ := List.mem_map.mp ho
      rw [← List.append_assoc]
      exact occurs_shift_iff.mpr (hos.occurs p hp)
  · refine List.Pairwise.cons ?_ ?_
    · intro o ho
      obtain ⟨p, -, rfl⟩ := List.mem_map.mp ho
      simp only [Occurrence.shift, List.length_append]
      omega
    · refine List.pairwise_map.mpr (hos.ordered.imp ?_)
      intro o p hlt
      exact Nat.add_lt_add_left hlt _
  · intro o ho
    -- `o` starts in front of the first header, with it, inside of it, at its brace or behind it
    have hbrace : o.first ≠ pre.length + hs.length - 1 := by
      intro heq
      have hstarts := ho.starts
      rw [heq, Nat.add_sub_assoc (by omega), ← List.drop_drop, List.drop_left] at hstarts
      exact hspells.not_starts_brace rest hstarts
    rcases Nat.lt_trichotomy o.first pre.length with hlt | heq | hgt
    · exact absurd ho.starts (hnone o.first hlt)
    · rw [ho.eq_of_first_eq hfirst heq]
      exact .inl List.mem_cons_self
    by_cases hinside : o.first < pre.length + hs.length - 1
    · exact .inr ⟨_, List.mem_cons_self, hgt, hinside⟩
    · rw [← List.append_assoc] at ho
      obtain ⟨p, hp, rfl⟩ := ho.exists_shift (by rw [List.length_append]; omega)
      rcases hos.complete p hp with hmem | ⟨q, hq, hqp, hpq⟩
      · exact .inl (List.mem_cons_of_mem _ (List.mem_map_of_mem hmem))
      · refine .inr ⟨_, List.mem_cons_of_mem _ (List.mem_map_of_mem hq), ?_⟩
        simp only [Occurrence.shift]
        omega

/-- The search finds the leftmost headers. -/
theorem exists_leftmost (ts : List Token) :
    ∃ os, Leftmost ts os ∧
      all ts = os.map fun o => (o.header, ts.drop (o.last + 1)) := by
  fun_induction all ts with
  | case1 ts hfind =>
    refine ⟨[], ⟨by simp, List.Pairwise.nil, ?_⟩, rfl⟩
    intro o ho
    exact absurd ho.starts (find?_eq_none hfind o.first)
  | case2 ts header rest hfind ih =>
    obtain ⟨os, hos, hall⟩ := ih
    obtain ⟨pre, hs, rfl, hspells, hnone⟩ := find?_eq_some hfind
    have htwo := hspells.two_le_length
    refine ⟨_, Leftmost.cons hspells hnone hos, ?_⟩
    rw [hall, List.map_cons, List.map_map]
    have hdrop : ∀ n, (pre ++ (hs ++ rest)).drop (pre.length + hs.length + n) = rest.drop n := by
      intro n
      rw [← List.append_assoc, ← List.length_append, ← List.drop_drop, List.drop_left]
    refine congrArg₂ List.cons ?_ ?_
    · have hsize : pre.length + hs.length - 1 + 1 = pre.length + hs.length + 0 := by omega
      rw [hsize, hdrop, List.drop_zero]
    · refine List.map_congr_left fun o _ => ?_
      have hsize : (pre ++ hs).length + o.last + 1 = pre.length + hs.length + (o.last + 1) := by
        rw [List.length_append]
        omega
      simp only [Function.comp_apply, Occurrence.shift, hsize, hdrop]

end Header

/-- The token at place `m` is a closing brace with which more braces are closed
than were opened. -/
def Closes (ts : List Token) (m : Nat) (t : Token) : Prop :=
  ts[m]? = some t ∧ t.kind = .closeBrace ∧
    count .openBrace (ts.take (m + 1)) < count .closeBrace (ts.take (m + 1))

/-- The byte position at which the body in front of the tokens `ts` ends: the
first token that closes it, or the end of the text. -/
def BodyEnd (limit : Nat) (ts : List Token) (stop : Nat) : Prop :=
  (∃ m t, Closes ts m t ∧ (∀ l u, Closes ts l u → m ≤ l) ∧ stop = t.start) ∨
    (∀ m t, ¬ Closes ts m t) ∧ stop = limit

theorem Closes.not_nested {ts : List Token} {m : Nat} {t : Token} (h : Closes ts m t) :
    ¬ Nested .openBrace .closeBrace 0 (ts.take (m + 1)) := by
  intro hnested
  have hle := hnested _ (List.prefix_refl _)
  have hlt := h.2.2
  omega

/-- Closing a group finds the end of a body. -/
theorem bodyEnd_groupEnd (limit : Nat) (ts : List Token) :
    BodyEnd limit ts (groupEnd .openBrace .closeBrace limit ts) := by
  have hne : TokenKind.openBrace ≠ .closeBrace := by decide
  rw [groupEnd]
  rcases nested_or_exists_closer hne 0 ts with hnested | ⟨inner, t, rest, rfl, ht, hinner, hcount⟩
  · rw [closeGroup_of_nested hne hnested]
    refine .inr ⟨?_, rfl⟩
    intro m t hcloses
    exact hcloses.not_nested (hnested.of_isPrefix (List.take_prefix _ ts))
  · rw [closeGroup_append_closer hne hinner hcount ht]
    refine .inl ⟨inner.length, t, ⟨?_, ht, ?_⟩, ?_, rfl⟩
    · rw [List.getElem?_append_right (Nat.le_refl _), Nat.sub_self]
      rfl
    · have htake : (inner ++ t :: rest).take (inner.length + 1) = inner ++ [t] := by
        rw [List.take_append, List.take_of_length_le (by omega), Nat.add_sub_cancel_left]
        rfl
      rw [htake, count_append, count_append, count_cons, count_cons, if_pos ht,
        if_neg (by rw [ht]; decide), count_nil, count_nil]
      omega
    · intro l u hcloses
      -- an earlier one would lie in the nested tokens
      by_contra hlt
      refine hcloses.not_nested (hinner.of_isPrefix ?_)
      rw [List.take_append_of_le_length (by omega)]
      exact List.take_prefix _ inner

/-- **The declarations of a text are its leftmost headers.**  There is one list
of leftmost headers among its significant tokens, and for each of them, in
order, there is a declaration with its name, its place in the list and the
body that its brace opens. -/
theorem declarations_eq_leftmost (source : Text) :
    ∃ os : List Header.Occurrence, Header.Leftmost (significant source) os ∧
      (∀ ps, Header.Leftmost (significant source) ps → ps = os) ∧
      (declarations source).length = os.length ∧
      ∀ (k : Nat) (o : Header.Occurrence), os[k]? = some o →
        ∃ stop, BodyEnd (Text.size source) ((significant source).drop (o.last + 1)) stop ∧
          (declarations source)[k]? =
            some ⟨o.header.name.text, Text.slice source o.header.openBrace.stop stop, k⟩ := by
  obtain ⟨os, hos, hall⟩ := Header.exists_leftmost (significant source)
  have hdeclarations := declarations_eq source
  rw [hall] at hdeclarations
  refine ⟨os, hos, fun ps hps => hps.unique hos, ?_, ?_⟩
  · rw [hdeclarations, List.length_mapIdx, List.length_map]
  · intro k o ho
    refine ⟨_, bodyEnd_groupEnd _ _, ?_⟩
    rw [hdeclarations, List.getElem?_mapIdx, List.getElem?_map, ho]
    rfl

/-- Of its three keywords the second starts a declaration: the first has no
header, and the third lies inside of the second's. -/
def threeKeywords : Text :=
  "enum enum A implements enum B \x7b \x7d".toList

theorem declarations_eq_leftmost_of_three_keywords :
    ∃ os o, Header.Leftmost (significant threeKeywords) os ∧ os = [o] ∧
      o.header.name.text = ['A'] ∧
      ∃ stop,
        BodyEnd (Text.size threeKeywords) ((significant threeKeywords).drop (o.last + 1)) stop ∧
        Text.slice threeKeywords o.header.openBrace.stop stop = [' '] := by
  obtain ⟨os, hos, -, hlength, hdeclaration⟩ := declarations_eq_leftmost threeKeywords
  have hall : declarations threeKeywords = [⟨['A'], [' '], 0⟩] := by
    decide +kernel
  rw [hall] at hlength hdeclaration
  obtain ⟨o, rfl⟩ := List.length_eq_one_iff.mp hlength.symm
  obtain ⟨stop, hstop, hfirst⟩ := hdeclaration 0 o rfl
  obtain ⟨hname, hbody, -⟩ := Declaration.mk.inj (Option.some.inj hfirst)
  exact ⟨[o], o, hos, rfl, hname.symm, stop, hstop, hbody.symm⟩

end EnumTables
