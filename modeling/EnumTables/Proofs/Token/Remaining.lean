/-
The tokens still to come from a cursor.

Whatever is read from a cursor depends on the tokens still to come alone, and
reading goes on with a suffix of them.  Each operation has one statement here,
which says what it does to that list:

* **`Cursor.next_eq`** — the next token is the head of the list;
* **`Cursor.nextSignificant_eq`** — skipping comments is **`readSignificant`**;
* **`Cursor.closeGroup_eq`** — reading through a closer is `closeGroup`.

The text is the other side of it.  **`Cursor.Reaches`** says that a cursor is
further on in the same text, at the byte position that its offset tells; every
operation leads to such a cursor, and right behind the token that it returns.
-/
import EnumTables.Proofs.Token.Balance
import EnumTables.Proofs.Token.Partition

namespace EnumTables

/-- Reads through the next token that is not a comment.  Without one all tokens
are consumed. -/
def readSignificant (ts : List Token) : Option Token × List Token :=
  match significant? ts with
  | none => (none, [])
  | some (t, rest) => (some t, rest)

/-- A comment in front is passed over. -/
theorem readSignificant_cons {t : Token} (ts : List Token) :
    readSignificant (t :: ts) = if t.isSignificant then (some t, ts) else readSignificant ts := by
  rw [readSignificant, significant?]
  split_ifs <;> rfl

/-- The token read is the first significant one of the list. -/
theorem filter_eq_of_significant? (ts : List Token) :
    ts.filter Token.isSignificant =
      match significant? ts with
      | none => []
      | some (t, rest) => t :: rest.filter Token.isSignificant := by
  induction ts with
  | nil => rfl
  | cons t ts ih =>
    rw [significant?]
    split_ifs with ht
    · exact List.filter_cons_of_pos ht
    · rw [List.filter_cons_of_neg ht, ih]

/-- A group ends at its closer, if it has one. -/
theorem groupEnd_eq_elim (opener closer : TokenKind) (limit : Nat) (ts : List Token) :
    groupEnd opener closer limit ts = (closeGroup opener closer 0 ts).1.elim limit Token.start := by
  rw [groupEnd]
  cases (closeGroup opener closer 0 ts).1 with
  | none => rfl
  | some t => rfl

namespace Cursor

/-- The second cursor is at the first one's position or further on in the same
text. -/
def Reaches (c d : Cursor) : Prop :=
  d.source = c.source ∧ ∃ front, c.rest = front ++ d.rest ∧ d.offset = c.offset + Text.size front

namespace Reaches

variable {c d e : Cursor}

theorem refl (c : Cursor) : c.Reaches c :=
  ⟨rfl, [], rfl, rfl⟩

theorem trans (h : c.Reaches d) (h' : d.Reaches e) : c.Reaches e := by
  obtain ⟨hsource, front, hrest, hoffset⟩ := h
  obtain ⟨hsource', front', hrest', hoffset'⟩ := h'
  refine ⟨hsource'.trans hsource, front ++ front', ?_, ?_⟩
  · rw [hrest, hrest', List.append_assoc]
  · rw [hoffset', hoffset, Text.size_append, Nat.add_assoc]

theorem length_le (h : c.Reaches d) : d.rest.length ≤ c.rest.length := by
  obtain ⟨-, front, hrest, -⟩ := h
  rw [hrest, List.length_append]
  omega

/-- A cursor in a text is given by its byte position, which stands between two
characters. -/
theorem eq_dropBytes {src : Text} (h : (ofText src).Reaches c) :
    Text.IsBoundary src c.offset ∧ c = ⟨src, Text.dropBytes c.offset src, c.offset⟩ := by
  obtain ⟨hsource, front, hrest, hoffset⟩ := h
  have hsrc : src = front ++ c.rest := hrest
  have hfront : c.offset = Text.size front := hoffset.trans (Nat.zero_add _)
  have hdrop : Text.dropBytes c.offset src = c.rest := by
    rw [hfront, hsrc, Text.dropBytes_append]
  refine ⟨?_, ?_⟩
  · rw [hfront, hsrc]
    exact Text.isBoundary_size front c.rest
  · rw [hdrop]
    show c = ⟨src, c.rest, c.offset⟩
    rw [show src = c.source from hsource.symm]

end Reaches

/-! ### One token -/

section

variable {c d : Cursor} {t : Token}

theorem next?_of_blank {gap : Text} (hgap : Text.Blank gap) (src : Text) (n : Nat) :
    (Cursor.mk src gap n).next? = none := by
  rw [next?, Token.read?_of_blank hgap]

theorem next?_token {gap rest w : Text} {a : Char} {k : TokenKind} (hgap : Text.Blank gap)
    (ha : isBlank a = false) (h : Lexer.Cuts a w k rest) (src : Text) (n : Nat) :
    (Cursor.mk src (gap ++ a :: (w ++ rest)) n).next? =
      some (Token.atByte (n + Text.size gap) k (a :: w),
        ⟨src, rest, n + Text.size gap + Text.size (a :: w)⟩) := by
  rw [next?, Token.read?_token hgap ha h]
  rfl

theorem next?_reaches (h : c.next? = some (t, d)) : c.Reaches d ∧ d.offset = t.stop := by
  obtain ⟨src, cs, n⟩ := c
  cases Lexer.begins cs with
  | blank gap hgap =>
    rw [next?_of_blank hgap] at h
    exact absurd h (by simp)
  | token gap a w k rest hgap ha hcuts =>
    rw [next?_token hgap ha hcuts] at h
    obtain ⟨rfl, rfl⟩ := Prod.mk.inj (Option.some.inj h)
    -- what is passed over is the gap and the token itself
    refine ⟨⟨rfl, gap ++ a :: w, ?_, ?_⟩, rfl⟩
    · rw [List.append_assoc]
      rfl
    · rw [Text.size_append, ← Nat.add_assoc]

theorem tokens_of_next?_eq_none (h : c.next? = none) : c.tokens = [] := by
  rw [tokens_eq, h]

theorem tokens_of_next?_eq_some (h : c.next? = some (t, d)) : c.tokens = t :: d.tokens := by
  rw [tokens_eq, h]

end

/-- What a read from the first cursor gives: a cursor further on, and right behind
the token if there is one. -/
structure Leads (c : Cursor) (answer : Option Token × Cursor) : Prop where
  reaches : c.Reaches answer.2
  behind : ∀ t ∈ answer.1, answer.2.offset = t.stop

namespace Leads

variable {c d : Cursor} {t : Token}

theorem stay (c : Cursor) : c.Leads (none, c) :=
  ⟨Reaches.refl c, fun t ht => absurd ht (by simp)⟩

theorem token (h : c.next? = some (t, d)) : c.Leads (some t, d) := by
  obtain ⟨hreaches, hoffset⟩ := next?_reaches h
  refine ⟨hreaches, fun u hu => ?_⟩
  obtain rfl : t = u := Option.some.inj hu
  exact hoffset

/-- A token in front of the read may be skipped. -/
theorem behind_token {answer : Option Token × Cursor} (hd : d.Leads answer)
    (h : c.next? = some (t, d)) : c.Leads answer :=
  ⟨(next?_reaches h).1.trans hd.reaches, hd.behind⟩

end Leads

/-- Reading a token drops it. -/
theorem next_eq (c : Cursor) : (c.next.1, c.next.2.tokens) = (c.tokens.head?, c.tokens.tail) := by
  rw [next]
  cases h : c.next? with
  | none =>
    rw [tokens_of_next?_eq_none h]
    rfl
  | some found =>
    obtain ⟨t, d⟩ := found
    rw [tokens_of_next?_eq_some h]
    rfl

theorem next?_of_next {c d : Cursor} {t : Token} (h : c.next = (some t, d)) :
    c.next? = some (t, d) := by
  rw [next] at h
  split at h
  · exact absurd (congrArg Prod.fst h) (by simp)
  · rename_i u e hread
    obtain ⟨hu, rfl⟩ := Prod.mk.inj h
    rw [hread, ← Option.some.inj hu]

theorem next_leads (c : Cursor) : c.Leads c.next := by
  rw [next]
  cases h : c.next? with
  | none => exact Leads.stay c
  | some found => exact Leads.token h

/-! ### The next token that is not a comment -/

/-- Skipping comments drops them and the token behind them. -/
theorem nextSignificant_eq (c : Cursor) :
    (c.nextSignificant.1, c.nextSignificant.2.tokens) = readSignificant c.tokens := by
  fun_induction nextSignificant c with
  | case1 c h =>
    rw [tokens_of_next?_eq_none h]
    rfl
  | case2 c t d h ht => rw [tokens_of_next?_eq_some h, readSignificant_cons, if_pos ht]
  | case3 c t d h ht ih => rw [tokens_of_next?_eq_some h, readSignificant_cons, if_neg ht, ih]

theorem nextSignificant_leads (c : Cursor) : c.Leads c.nextSignificant := by
  fun_induction nextSignificant c with
  | case1 c h => exact Leads.stay c
  | case2 c t d h ht => exact Leads.token h
  | case3 c t d h ht ih => exact ih.behind_token h

theorem nextSignificant_reaches (c : Cursor) : c.Reaches c.nextSignificant.2 :=
  (nextSignificant_leads c).reaches

theorem reaches_of_nextSignificant {c d : Cursor} {t : Token}
    (h : c.nextSignificant = (some t, d)) : c.Reaches d := by
  have hreaches := nextSignificant_reaches c
  rwa [h] at hreaches

theorem peekSignificant_eq (c : Cursor) : c.peekSignificant = (readSignificant c.tokens).1 := by
  rw [← nextSignificant_eq]
  rfl

theorem significant?_of_none {c d : Cursor} (h : c.nextSignificant = (none, d)) :
    significant? c.tokens = none ∧ d.tokens = [] := by
  have heq := nextSignificant_eq c
  rw [h, readSignificant] at heq
  split at heq
  · rename_i hnone
    exact ⟨hnone, congrArg Prod.snd heq⟩
  · exact absurd (congrArg Prod.fst heq) (by simp)

theorem significant?_of_some {c d : Cursor} {t : Token} (h : c.nextSignificant = (some t, d)) :
    significant? c.tokens = some (t, d.tokens) := by
  have heq := nextSignificant_eq c
  rw [h, readSignificant] at heq
  split at heq
  · exact absurd (congrArg Prod.fst heq) (by simp)
  · rename_i u rest hsome
    obtain ⟨hu, hrest⟩ := Prod.mk.inj heq
    obtain rfl : t = u := Option.some.inj hu
    rw [hsome, ← hrest]

/-- A token that is seen ahead is the one that is read next. -/
theorem nextSignificant_of_peekSignificant {c : Cursor} {t? : Option Token}
    (h : c.peekSignificant = t?) : c.nextSignificant = (t?, c.nextSignificant.2) := by
  rw [← h]
  rfl

/-- A token that is not a comment is behind the cursor that reads it. -/
theorem length_lt_of_nextSignificant {c d : Cursor} {t : Token}
    (h : c.nextSignificant = (some t, d)) : d.rest.length < c.rest.length := by
  fun_induction nextSignificant c with
  | case1 c hnext => simp at h
  | case2 c u e hnext hu =>
    obtain ⟨-, rfl⟩ := Prod.mk.inj h
    exact next?_length_lt hnext
  | case3 c u e hnext hu ih => exact (ih h).trans (next?_length_lt hnext)

theorem length_lt_of_peekSignificant {c : Cursor} {t : Token} (h : c.peekSignificant = some t) :
    c.nextSignificant.2.rest.length < c.rest.length :=
  length_lt_of_nextSignificant (nextSignificant_of_peekSignificant h)

/-! ### The closer of a group -/

theorem closeGroupFrom_eq (opener closer : TokenKind) (depth : Nat) (c : Cursor) :
    ((c.closeGroupFrom opener closer depth).1, (c.closeGroupFrom opener closer depth).2.tokens) =
      EnumTables.closeGroup opener closer depth c.tokens := by
  fun_induction closeGroupFrom opener closer depth c with
  | case1 depth c h =>
    rw [tokens_of_next?_eq_none h, EnumTables.closeGroup]
  | case2 depth c t d h ho ih => rw [tokens_of_next?_eq_some h, closeGroup_cons_opener ho, ih]
  | case3 c t d h ho hc =>
    rw [tokens_of_next?_eq_some h, EnumTables.closeGroup, if_neg ho, if_pos hc]
  | case4 c t d h ho hc n ih =>
    rw [tokens_of_next?_eq_some h, EnumTables.closeGroup, if_neg ho, if_pos hc, ih]
  | case5 depth c t d h ho hc ih => rw [tokens_of_next?_eq_some h, closeGroup_cons_other ho hc, ih]

theorem closeGroupFrom_leads (opener closer : TokenKind) (depth : Nat) (c : Cursor) :
    c.Leads (c.closeGroupFrom opener closer depth) := by
  fun_induction closeGroupFrom opener closer depth c with
  | case1 depth c h => exact Leads.stay c
  | case2 depth c t d h ho ih => exact ih.behind_token h
  | case3 c t d h ho hc => exact Leads.token h
  | case4 c t d h ho hc n ih => exact ih.behind_token h
  | case5 depth c t d h ho hc ih => exact ih.behind_token h

/-- Reading through a closer drops everything up to it, or all tokens. -/
theorem closeGroup_eq (opener closer : TokenKind) (c : Cursor) :
    ((c.closeGroup opener closer).1, (c.closeGroup opener closer).2.tokens) =
      EnumTables.closeGroup opener closer 0 c.tokens :=
  closeGroupFrom_eq opener closer 0 c

theorem closeGroup_leads (opener closer : TokenKind) (c : Cursor) :
    c.Leads (c.closeGroup opener closer) :=
  closeGroupFrom_leads opener closer 0 c

end Cursor

end EnumTables
