/-
The closer of a group.

Behind an opener the closer is the first token at which more tokens of the
closing class than of the opening class have been read.  `ClosesFirst` says this
with the numbers of tokens alone, and reading through a closer finds just this
token:

* **`ClosesFirst.balanced`** — the tokens in front of the closer match up;
* **`nested_or_exists_closesFirst`** — without a closer every prefix has at least
  as many opening as closing tokens;
* **`Cursor.closeGroupCounting`** reads with a counter that may be any integer, so
  that **`closeGroupCounting_eq`** says something: the counter is never below
  zero;
* **`Cursor.closeGroup_eq_some_iff`**, **`Cursor.closeGroup_eq_none_iff`** and
  **`Cursor.closeGroup_of_balanced`** — when a token is returned, and which;
* **`closeGroup_finds`** — all of this for a cursor.
-/
import EnumTables.Proofs.Token.Remaining

namespace EnumTables

/-- `t` is the first token of `ts` at which more tokens close than open.  In front
of it stand the tokens `inner`, behind it the tokens `rest`. -/
structure ClosesFirst (opener closer : TokenKind) (ts inner : List Token) (t : Token)
    (rest : List Token) : Prop where
  split : ts = inner ++ t :: rest
  exceeds : count opener (inner ++ [t]) < count closer (inner ++ [t])
  first : ∀ p, p <+: inner → ¬ count opener p < count closer p

theorem nested_zero_iff {opener closer : TokenKind} {ts : List Token} :
    Nested opener closer 0 ts ↔ ∀ p, p <+: ts → count closer p ≤ count opener p := by
  rw [Nested]
  simp only [Nat.zero_add]

namespace ClosesFirst

variable {opener closer : TokenKind} {ts inner rest : List Token} {t : Token}

theorem nested (h : ClosesFirst opener closer ts inner t rest) : Nested opener closer 0 inner :=
  nested_zero_iff.mpr fun p hp => Nat.not_lt.mp (h.first p hp)

/-- In front of the closer as many tokens close as open, and it is a closing
token. -/
theorem even_and_kind (h : ClosesFirst opener closer ts inner t rest) :
    count opener inner = count closer inner ∧ t.kind = closer := by
  have hle : count closer inner ≤ count opener inner :=
    nested_zero_iff.mp h.nested inner (List.prefix_refl inner)
  have hlt := h.exceeds
  rw [count_append, count_append, count_cons, count_cons, count_nil, count_nil] at hlt
  split_ifs at hlt with hopener hcloser hcloser
  all_goals first
    | exact ⟨by omega, hcloser⟩
    | omega

theorem balanced (h : ClosesFirst opener closer ts inner t rest) :
    Balanced opener closer inner :=
  ⟨h.nested, h.even_and_kind.1⟩

theorem of_balanced (hne : opener ≠ closer) (hinner : Balanced opener closer inner)
    (ht : t.kind = closer) (rest : List Token) :
    ClosesFirst opener closer (inner ++ t :: rest) inner t rest := by
  have heven := hinner.even
  refine ⟨rfl, ?_, ?_⟩
  · rw [count_append, count_append, count_cons, count_cons, if_pos ht,
      if_neg (by rw [ht]; exact hne.symm), count_nil, count_nil]
    omega
  · intro p hp
    exact Nat.not_lt.mpr (nested_zero_iff.mp hinner.nested p hp)

theorem closeGroup_eq (hne : opener ≠ closer) (h : ClosesFirst opener closer ts inner t rest) :
    closeGroup opener closer 0 ts = (some t, rest) := by
  rw [h.split]
  exact h.balanced.closeGroup_eq hne h.even_and_kind.2 rest

theorem not_nested (h : ClosesFirst opener closer ts inner t rest) :
    ¬ Nested opener closer 0 ts := by
  intro hnested
  have hpre : inner ++ [t] <+: ts := by
    rw [h.split]
    exact ⟨rest, by rw [List.append_assoc]; rfl⟩
  have hle := nested_zero_iff.mp hnested (inner ++ [t]) hpre
  have hlt := h.exceeds
  omega

end ClosesFirst

/-- Tokens are nested, or a first one of them closes too much. -/
theorem nested_or_exists_closesFirst {opener closer : TokenKind} (hne : opener ≠ closer)
    (ts : List Token) :
    Nested opener closer 0 ts ∨ ∃ inner t rest, ClosesFirst opener closer ts inner t rest := by
  rcases nested_or_exists_closer hne 0 ts with hnested | ⟨inner, t, rest, rfl, ht, hinner, hcount⟩
  · exact .inl hnested
  · have hbalanced : Balanced opener closer inner := ⟨hinner, by omega⟩
    exact .inr ⟨inner, t, rest, ClosesFirst.of_balanced hne hbalanced ht rest⟩

/-- The values that a counter takes along a list of tokens, one after each token:
it goes up at an opening token and down at a closing one. -/
def depths (opener closer : TokenKind) (start : Int) (ts : List Token) : List Int :=
  ts.inits.tail.map fun p => start + count opener p - count closer p

section

variable {opener closer : TokenKind} {start : Int} {t : Token} {ts : List Token}

theorem depths_nil : depths opener closer start [] = [] := rfl

theorem depths_cons : depths opener closer start (t :: ts) =
    (start + count opener [t] - count closer [t]) ::
      depths opener closer (start + count opener [t] - count closer [t]) ts := by
  have hcons : ∀ (k : TokenKind) (p : List Token), count k (t :: p) = count k [t] + count k p :=
    fun k p => count_append k [t] p
  rw [depths, depths, List.inits_cons, List.tail_cons, List.map_map]
  cases ts with
  | nil => rfl
  | cons u us =>
    rw [List.inits_cons, List.tail_cons, List.map_cons, List.map_map, List.map_map]
    refine congrArg₂ List.cons rfl (List.map_congr_left fun p _ => ?_)
    simp only [Function.comp_apply]
    rw [hcons opener (u :: p), hcons closer (u :: p)]
    omega

theorem depths_cons_opener (hne : opener ≠ closer) (ht : t.kind = opener) :
    depths opener closer start (t :: ts) = (start + 1) :: depths opener closer (start + 1) ts := by
  have hopener : count opener [t] = 1 := by
    rw [count_cons, count_nil, if_pos ht]
  have hcloser : count closer [t] = 0 := by
    rw [count_cons, count_nil, if_neg (by rw [ht]; exact hne)]
  rw [depths_cons, hopener, hcloser]
  simp

theorem depths_cons_closer (hne : opener ≠ closer) (ht : t.kind = closer) :
    depths opener closer start (t :: ts) = (start - 1) :: depths opener closer (start - 1) ts := by
  have hopener : count opener [t] = 0 := by
    rw [count_cons, count_nil, if_neg (by rw [ht]; exact hne.symm)]
  have hcloser : count closer [t] = 1 := by
    rw [count_cons, count_nil, if_pos ht]
  rw [depths_cons, hopener, hcloser]
  simp

theorem depths_cons_other (ho : t.kind ≠ opener) (hc : t.kind ≠ closer) :
    depths opener closer start (t :: ts) = start :: depths opener closer start ts := by
  have hopener : count opener [t] = 0 := by
    rw [count_cons, count_nil, if_neg ho]
  have hcloser : count closer [t] = 0 := by
    rw [count_cons, count_nil, if_neg hc]
  rw [depths_cons, hopener, hcloser]
  simp

end

namespace Cursor

/-- Reads through a closer with the counter of open groups in sight: the values of
the counter, one after each token that is read, and then what is returned.  The
counter is an integer, and nothing but the order of the tokens keeps it from
going below zero. -/
def closeGroupCounting (opener closer : TokenKind) (depth : Int) (c : Cursor) :
    List Int × Option Token × Cursor :=
  match _h : c.next? with
  | none => ([], none, c)
  | some (t, d) =>
    if t.kind = opener then
      let (depths, answer) := closeGroupCounting opener closer (depth + 1) d
      ((depth + 1) :: depths, answer)
    else if t.kind = closer then
      if depth - 1 = 0 then ([depth - 1], some t, d)
      else
        let (depths, answer) := closeGroupCounting opener closer (depth - 1) d
        ((depth - 1) :: depths, answer)
    else
      let (depths, answer) := closeGroupCounting opener closer depth d
      (depth :: depths, answer)
termination_by c.rest.length
decreasing_by all_goals exact next?_length_lt _h

section

variable {opener closer : TokenKind} {c d : Cursor} {t : Token}

theorem closeGroupCounting_end (h : c.next? = none) (depth : Int) :
    c.closeGroupCounting opener closer depth = ([], none, c) := by
  rw [closeGroupCounting]
  split
  · rfl
  · rename_i h'
    rw [h] at h'
    exact absurd h' (by simp)

theorem closeGroupCounting_step (h : c.next? = some (t, d)) (depth : Int) :
    c.closeGroupCounting opener closer depth =
      if t.kind = opener then
        ((depth + 1) :: (d.closeGroupCounting opener closer (depth + 1)).1,
          (d.closeGroupCounting opener closer (depth + 1)).2)
      else if t.kind = closer then
        if depth - 1 = 0 then ([depth - 1], some t, d)
        else
          ((depth - 1) :: (d.closeGroupCounting opener closer (depth - 1)).1,
            (d.closeGroupCounting opener closer (depth - 1)).2)
      else
        (depth :: (d.closeGroupCounting opener closer depth).1,
          (d.closeGroupCounting opener closer depth).2) := by
  rw [closeGroupCounting]
  split
  · rename_i h'
    rw [h] at h'
    exact absurd h' (by simp)
  · rename_i h'
    rw [h] at h'
    obtain ⟨rfl, rfl⟩ := Prod.mk.inj (Option.some.inj h')
    rfl

end

/-- The counter behind every token that is read is what the tokens up to there
make of it, and it is never below zero: a closing token is only counted while a
group is open.  In front of `depth` inner groups it starts one higher. -/
theorem closeGroupCounting_eq {opener closer : TokenKind} (hne : opener ≠ closer) (depth : Nat)
    (c : Cursor) :
    ∃ read, c.tokens = read ++ (c.closeGroupFrom opener closer depth).2.tokens ∧
      c.closeGroupCounting opener closer (depth + 1) =
        (depths opener closer (depth + 1) read, c.closeGroupFrom opener closer depth) ∧
      ∀ n ∈ depths opener closer (depth + 1) read, 0 ≤ n := by
  fun_induction closeGroupFrom opener closer depth c with
  | case1 depth c h =>
    refine ⟨[], rfl, closeGroupCounting_end h _, ?_⟩
    intro n hn
    exact absurd hn (by simp [depths_nil])
  | case2 depth c t d h ho ih =>
    obtain ⟨read, htokens, hcounting, hnonneg⟩ := ih
    refine ⟨t :: read, by rw [tokens_of_next?_eq_some h, htokens, List.cons_append], ?_⟩
    rw [closeGroupCounting_step h, if_pos ho, depths_cons_opener hne ho]
    rw [show ((depth : Int) + 1) + 1 = ((depth + 1 : Nat) : Int) + 1 by omega, hcounting]
    exact ⟨rfl, List.forall_mem_cons.mpr ⟨by omega, hnonneg⟩⟩
  | case3 c t d h ho hc =>
    refine ⟨[t], by rw [tokens_of_next?_eq_some h, List.singleton_append], ?_⟩
    rw [closeGroupCounting_step h, if_neg ho, if_pos hc, if_pos (by omega),
      depths_cons_closer hne hc, depths_nil]
    exact ⟨rfl, List.forall_mem_cons.mpr ⟨by omega, by simp⟩⟩
  | case4 c t d h ho hc n ih =>
    obtain ⟨read, htokens, hcounting, hnonneg⟩ := ih
    refine ⟨t :: read, by rw [tokens_of_next?_eq_some h, htokens, List.cons_append], ?_⟩
    rw [closeGroupCounting_step h, if_neg ho, if_pos hc, if_neg (by omega),
      depths_cons_closer hne hc]
    rw [show ((n + 1 : Nat) : Int) + 1 - 1 = (n : Int) + 1 by omega, hcounting]
    exact ⟨rfl, List.forall_mem_cons.mpr ⟨by omega, hnonneg⟩⟩
  | case5 depth c t d h ho hc ih =>
    obtain ⟨read, htokens, hcounting, hnonneg⟩ := ih
    refine ⟨t :: read, by rw [tokens_of_next?_eq_some h, htokens, List.cons_append], ?_⟩
    rw [closeGroupCounting_step h, if_neg ho, if_neg hc, depths_cons_other ho hc, hcounting]
    exact ⟨rfl, List.forall_mem_cons.mpr ⟨by omega, hnonneg⟩⟩

/-! ### What a cursor reads through -/

section

variable {opener closer : TokenKind} {c : Cursor}

theorem closeGroup_of_closesFirst (hne : opener ≠ closer) {inner rest : List Token} {t : Token}
    (h : ClosesFirst opener closer c.tokens inner t rest) :
    (c.closeGroup opener closer).1 = some t ∧ (c.closeGroup opener closer).2.tokens = rest :=
  Prod.mk.inj ((closeGroup_eq opener closer c).trans (h.closeGroup_eq hne))

theorem closeGroup_of_nested_tokens (hne : opener ≠ closer) (h : Nested opener closer 0 c.tokens) :
    (c.closeGroup opener closer).1 = none ∧ (c.closeGroup opener closer).2.tokens = [] :=
  Prod.mk.inj ((closeGroup_eq opener closer c).trans (closeGroup_of_nested hne h))

/-- Balanced tokens in front of a closer are skipped. -/
theorem closeGroup_of_balanced (hne : opener ≠ closer) {xs ys : List Token} {t : Token}
    (hxs : Balanced opener closer xs) (ht : t.kind = closer) (htokens : c.tokens = xs ++ t :: ys) :
    (c.closeGroup opener closer).1 = some t ∧ (c.closeGroup opener closer).2.tokens = ys := by
  have hcloses := ClosesFirst.of_balanced hne hxs ht ys
  rw [← htokens] at hcloses
  exact closeGroup_of_closesFirst hne hcloses

theorem closeGroup_eq_some_iff (hne : opener ≠ closer) {t : Token} :
    (c.closeGroup opener closer).1 = some t ↔
      ∃ inner rest, ClosesFirst opener closer c.tokens inner t rest := by
  constructor
  · intro ht
    rcases nested_or_exists_closesFirst hne c.tokens with h | ⟨inner, u, rest, h⟩
    · rw [(closeGroup_of_nested_tokens hne h).1] at ht
      exact absurd ht (by simp)
    · obtain rfl : u = t := Option.some.inj ((closeGroup_of_closesFirst hne h).1.symm.trans ht)
      exact ⟨inner, rest, h⟩
  · rintro ⟨inner, rest, h⟩
    exact (closeGroup_of_closesFirst hne h).1

theorem closeGroup_eq_none_iff (hne : opener ≠ closer) :
    (c.closeGroup opener closer).1 = none ↔ Nested opener closer 0 c.tokens := by
  constructor
  · intro hnone
    rcases nested_or_exists_closesFirst hne c.tokens with h | ⟨inner, t, rest, h⟩
    · exact h
    · rw [(closeGroup_of_closesFirst hne h).1] at hnone
      exact absurd hnone (by simp)
  · exact fun h => (closeGroup_of_nested_tokens hne h).1

end

end Cursor

/-- **Reading through a closer finds the matching one.**  What is returned is the
first token at which more tokens close than open.  It closes; in front of it the
tokens are balanced, and reading goes on right behind it.  Nothing is returned just
if every prefix has at least as many opening as closing tokens, and then all tokens
are consumed.  The counter starts at one, follows the tokens that are read and is
never below zero.  Balanced tokens in front of a closer are skipped as a whole, and
so is a group among them. -/
theorem closeGroup_finds {opener closer : TokenKind} (hne : opener ≠ closer) (c : Cursor) :
    (∀ t, (c.closeGroup opener closer).1 = some t ↔
      ∃ inner rest, ClosesFirst opener closer c.tokens inner t rest) ∧
    (∀ inner t rest, ClosesFirst opener closer c.tokens inner t rest →
      t.kind = closer ∧ Balanced opener closer inner ∧
        (c.closeGroup opener closer).2.tokens = rest ∧
        c.Reaches (c.closeGroup opener closer).2 ∧
        (c.closeGroup opener closer).2.offset = t.stop) ∧
    ((c.closeGroup opener closer).1 = none ↔
      ∀ p, p <+: c.tokens → count closer p ≤ count opener p) ∧
    ((c.closeGroup opener closer).1 = none → (c.closeGroup opener closer).2.tokens = []) ∧
    (∃ read, c.tokens = read ++ (c.closeGroup opener closer).2.tokens ∧
      c.closeGroupCounting opener closer 1 =
        (depths opener closer 1 read, c.closeGroup opener closer) ∧
      ∀ n ∈ depths opener closer 1 read, 0 ≤ n) ∧
    (∀ xs t ys, Balanced opener closer xs → t.kind = closer → c.tokens = xs ++ t :: ys →
      (c.closeGroup opener closer).1 = some t ∧ (c.closeGroup opener closer).2.tokens = ys) ∧
    (∀ before o inside e behind t ys, Balanced opener closer before → o.kind = opener →
      Balanced opener closer inside → e.kind = closer → Balanced opener closer behind →
      t.kind = closer → c.tokens = before ++ (o :: (inside ++ [e])) ++ behind ++ t :: ys →
      (c.closeGroup opener closer).1 = some t ∧ (c.closeGroup opener closer).2.tokens = ys) := by
  have hleads := Cursor.closeGroup_leads opener closer c
  refine ⟨fun t => Cursor.closeGroup_eq_some_iff hne, ?_, ?_, ?_,
    Cursor.closeGroupCounting_eq hne 0 c, ?_, ?_⟩
  · intro inner t rest h
    obtain ⟨hanswer, hrest⟩ := Cursor.closeGroup_of_closesFirst hne h
    exact ⟨h.even_and_kind.2, h.balanced, hrest, hleads.reaches, hleads.behind t hanswer⟩
  · rw [← nested_zero_iff]
    exact Cursor.closeGroup_eq_none_iff hne
  · intro hnone
    have hnested := (Cursor.closeGroup_eq_none_iff hne).mp hnone
    exact (Cursor.closeGroup_of_nested_tokens hne hnested).2
  · exact fun xs t ys => Cursor.closeGroup_of_balanced hne
  · intro before o inside e behind t ys hbefore ho hinside he hbehind ht htokens
    have hgroup := hinside.enclose hne ho he
    exact Cursor.closeGroup_of_balanced hne ((hbefore.append hgroup).append hbehind) ht htokens

/-- A group inside of one whose opener has been read. -/
def innerBraces : Text :=
  "a \x7b b \x7d c \x7d tail".toList

theorem closeGroup_finds_innerBraces :
    TokenKind.openBrace ≠ .closeBrace ∧
    ∃ inner t rest, ClosesFirst .openBrace .closeBrace (Cursor.ofText innerBraces).tokens inner t
        rest ∧ Balanced .openBrace .closeBrace inner ∧ inner.length = 5 ∧ t.start = 10 ∧
      rest.map Token.text = ["tail".toList] ∧
      ((Cursor.ofText innerBraces).closeGroup .openBrace .closeBrace).2.offset = 11 := by
  have hne : TokenKind.openBrace ≠ .closeBrace := by decide
  obtain ⟨hiff, hcloser, -⟩ := closeGroup_finds hne (Cursor.ofText innerBraces)
  have hanswer : ((Cursor.ofText innerBraces).closeGroup .openBrace .closeBrace).1 =
      some ⟨.closeBrace, ['\x7d'], 10, 11⟩ := by
    decide +kernel
  obtain ⟨inner, rest, h⟩ := (hiff _).mp hanswer
  obtain ⟨-, hbalanced, hrest, -, hoffset⟩ := hcloser _ _ _ h
  refine ⟨hne, inner, _, rest, h, hbalanced, ?_, rfl, ?_, hoffset⟩
  · have hlength := congrArg List.length h.split
    have htokens : (Cursor.ofText innerBraces).tokens.length = 7 := by
      decide +kernel
    have hbehind : rest.length = 1 := by
      rw [← hrest]
      decide +kernel
    rw [List.length_append, List.length_cons] at hlength
    omega
  · rw [← hrest]
    decide +kernel

end EnumTables
