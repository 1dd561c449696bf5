/-
The headers of a text, as a grammar.

A header is the keyword, a name and an opening brace, with an `implements`
clause in front of the brace or none.  `Spells` says which tokens these are,
without a word about how they are looked for.

* **`Header.ofTokens?_eq_some_iff`** — what is read behind a keyword is what
  the grammar says;
* **`Header.find?_eq_some`**, **`Header.find?_eq_none`** — the search stops at
  the first header of a list, and passes over none;
* **`Header.all`** — the headers that a search finds, each with the tokens
  behind its brace;
* **`Search.all_eq`** — the declarations of a search are those of its headers.
-/
import EnumTables.Declaration
import Mathlib.Data.List.Basic
import Mathlib.Tactic.Common

namespace EnumTables

/-- The word `enum` is not among the tokens. -/
def Keywordless (ts : List Token) : Prop :=
  ∀ t ∈ ts, t.isIdent "enum".toList = false

instance (ts : List Token) : Decidable (Keywordless ts) :=
  List.decidableBAll _ ts

namespace Keywordless

theorem nil : Keywordless [] := by
  intro t ht
  simp at ht

theorem cons {t : Token} {ts : List Token} (ht : t.kind ≠ .ident) (hts : Keywordless ts) :
    Keywordless (t :: ts) := by
  intro u hu
  rcases List.mem_cons.mp hu with rfl | hu
  · rw [Token.isIdent, beq_eq_false_iff_ne.mpr ht, Bool.false_and]
  · exact hts u hu

theorem append {ts us : List Token} (hts : Keywordless ts) (hus : Keywordless us) :
    Keywordless (ts ++ us) := by
  intro t ht
  rcases List.mem_append.mp ht with ht | ht
  · exact hts t ht
  · exact hus t ht

end Keywordless

namespace Header

/-- A token that the clause in a header may hold. -/
def ClauseToken (t : Token) : Prop :=
  t.kind = .ident ∨ t.kind = .comma ∨
    t.kind = .other ∧ (t.text = ['.'] ∨ t.text = ['<'] ∨ t.text = ['>'] ∨ t.text = ['?'])

/-- The tokens between the name and the brace of a header. -/
inductive Clause : List Token → Prop
  | none : Clause []
  | some {word : Token} {ts : List Token} (hword : word.isIdent "implements".toList = true)
      (hts : ∀ t ∈ ts, ClauseToken t) : Clause (word :: ts)

/-- The tokens from the keyword to the opening brace of a header. -/
inductive Spells : Header → List Token → Prop
  | intro {keyword name brace : Token} {clause : List Token}
      (hkeyword : keyword.isIdent "enum".toList = true) (hname : name.kind = .ident)
      (hclause : Clause clause) (hbrace : brace.kind = .openBrace) :
      Spells ⟨name, brace⟩ (keyword :: name :: (clause ++ [brace]))

theorem isClauseToken_iff {t : Token} : isClauseToken t = true ↔ ClauseToken t := by
  unfold isClauseToken ClauseToken
  split <;> simp_all

instance (t : Token) : Decidable (ClauseToken t) :=
  decidable_of_iff _ isClauseToken_iff

theorem ClauseToken.kind_ne {t : Token} (h : ClauseToken t) : t.kind ≠ .openBrace := by
  rcases h with h | h | ⟨h, -⟩ <;> rw [h] <;> decide

theorem ClauseToken.isComment_eq_false {t : Token} (h : ClauseToken t) :
    t.kind.isComment = false := by
  rcases h with h | h | ⟨h, -⟩ <;> rw [h] <;> rfl

theorem ClauseToken.ne_literal {t : Token} (h : ClauseToken t) : t.kind ≠ .literal := by
  rcases h with h | h | ⟨h, -⟩ <;> rw [h] <;> decide

theorem ClauseToken.isSignificant {t : Token} (h : ClauseToken t) : t.isSignificant = true := by
  rw [Token.isSignificant, h.isComment_eq_false]
  rfl

theorem kind_of_isIdent {name : Text} {t : Token} (h : t.isIdent name = true) :
    t.kind = .ident := by
  simp only [Token.isIdent, Bool.and_eq_true, beq_iff_eq] at h
  exact h.1

/-- Inside a clause, the brace is the first token that the clause may not
hold. -/
theorem brace?_true_eq_some_iff {ts rest : List Token} {brace : Token} :
    brace? true ts = some (brace, rest) ↔
      ∃ clause, ts = clause ++ brace :: rest ∧ (∀ t ∈ clause, ClauseToken t) ∧
        brace.kind = .openBrace := by
  induction ts with
  | nil => simp [brace?]
  | cons t ts ih =>
    rw [brace?]
    constructor
    · intro h
      split at h
      · rename_i hkind
        obtain ⟨rfl, rfl⟩ := Prod.mk.inj (Option.some.inj h)
        exact ⟨[], rfl, by simp, hkind⟩
      · rw [if_pos rfl] at h
        split at h
        · rename_i htoken
          obtain ⟨clause, rfl, hclause, hbrace⟩ := ih.mp h
          refine ⟨t :: clause, rfl, ?_, hbrace⟩
          intro u hu
          rcases List.mem_cons.mp hu with rfl | hu
          · exact isClauseToken_iff.mp htoken
          · exact hclause u hu
        · simp at h
    · rintro ⟨clause, hts, hclause, hbrace⟩
      cases clause with
      | nil =>
        obtain ⟨rfl, rfl⟩ := List.cons.inj hts
        rw [if_pos hbrace]
      | cons u clause =>
        obtain ⟨rfl, rfl⟩ := List.cons.inj hts
        have htoken := hclause t List.mem_cons_self
        rw [if_neg htoken.kind_ne, if_pos rfl, if_pos (isClauseToken_iff.mpr htoken)]
        exact ih.mpr ⟨clause, rfl, fun u hu => hclause u (List.mem_cons_of_mem t hu), hbrace⟩

/-- Behind the name there is a clause or none, and then the brace. -/
theorem brace?_false_eq_some_iff {ts rest : List Token} {brace : Token} :
    brace? false ts = some (brace, rest) ↔
      ∃ clause, ts = clause ++ brace :: rest ∧ Clause clause ∧ brace.kind = .openBrace := by
  cases ts with
  | nil => simp [brace?]
  | cons t ts =>
    rw [brace?]
    constructor
    · intro h
      split at h
      · rename_i hkind
        obtain ⟨rfl, rfl⟩ := Prod.mk.inj (Option.some.inj h)
        exact ⟨[], rfl, .none, hkind⟩
      · rw [if_neg Bool.false_ne_true] at h
        split at h
        · rename_i hword
          obtain ⟨clause, rfl, hclause, hbrace⟩ := brace?_true_eq_some_iff.mp h
          exact ⟨t :: clause, rfl, .some hword hclause, hbrace⟩
        · simp at h
    · rintro ⟨clause, hts, hclause, hbrace⟩
      cases hclause with
      | none =>
        obtain ⟨rfl, rfl⟩ := List.cons.inj hts
        rw [if_pos hbrace]
      | some hword hclause =>
        obtain ⟨rfl, rfl⟩ := List.cons.inj hts
        have hkind : t.kind ≠ .openBrace := by
          rw [kind_of_isIdent hword]
          decide
        rw [if_neg hkind, if_neg Bool.false_ne_true, if_pos hword]
        exact brace?_true_eq_some_iff.mpr ⟨_, rfl, hclause, hbrace⟩

/-- What is read behind a keyword is what the grammar says. -/
theorem ofTokens?_eq_some_iff {keyword : Token} (hkeyword : keyword.isIdent "enum".toList = true)
    {ts rest : List Token} {header : Header} :
    ofTokens? ts = some (header, rest) ↔
      ∃ hs, ts = hs ++ rest ∧ Spells header (keyword :: hs) := by
  cases ts with
  | nil =>
    simp only [ofTokens?, reduceCtorEq, false_iff]
    rintro ⟨hs, hts, hspells⟩
    cases hspells
    simp at hts
  | cons name ts =>
    rw [ofTokens?]
    constructor
    · intro h
      split at h
      · rename_i hname
        split at h
        · rename_i brace rest' hbrace
          obtain ⟨rfl, rfl⟩ := Prod.mk.inj (Option.some.inj h)
          obtain ⟨clause, rfl, hclause, hkind⟩ := brace?_false_eq_some_iff.mp hbrace
          exact ⟨name :: (clause ++ [brace]), by simp, .intro hkeyword hname hclause hkind⟩
        · simp at h
      · simp at h
    · rintro ⟨hs, hts, hspells⟩
      cases hspells with
      | @intro _ _ brace clause _ hname hclause hkind =>
        rw [List.cons_append, List.append_assoc, List.singleton_append] at hts
        obtain ⟨rfl, rfl⟩ := List.cons.inj hts
        have hbrace : brace? false (clause ++ brace :: rest) = some (brace, rest) :=
          brace?_false_eq_some_iff.mpr ⟨clause, rfl, hclause, hkind⟩
        rw [if_pos hname, hbrace]

/-- The list starts with a header. -/
def Starts (ts : List Token) : Prop :=
  ∃ header hs, Spells header hs ∧ hs <+: ts

/-- A header at the start of a list is found. -/
theorem Spells.find?_eq {hs : List Token} {header : Header} (h : Spells header hs)
    (rest : List Token) : find? (hs ++ rest) = some (header, rest) := by
  have hspells := h
  cases h with
  | intro hkeyword _ _ _ =>
    rw [List.cons_append, find?, if_pos hkeyword,
      (ofTokens?_eq_some_iff hkeyword).mpr ⟨_, rfl, hspells⟩]

/-- A list starts with one header at most. -/
theorem Spells.unique {ts hs hs' : List Token} {header header' : Header} (h : Spells header hs)
    (h' : Spells header' hs') (hpre : hs <+: ts) (hpre' : hs' <+: ts) :
    header = header' ∧ hs = hs' := by
  obtain ⟨rest, rfl⟩ := hpre
  obtain ⟨rest', hrest⟩ := hpre'
  have hfind := h'.find?_eq rest'
  rw [hrest, h.find?_eq rest] at hfind
  obtain ⟨rfl, rfl⟩ := Prod.mk.inj (Option.some.inj hfind)
  exact ⟨rfl, (List.append_cancel_right hrest).symm⟩

theorem find?_cons_of_not_starts {t : Token} {ts : List Token} (h : ¬ Starts (t :: ts)) :
    find? (t :: ts) = find? ts := by
  rw [find?]
  split
  · rename_i hkeyword
    split
    · rename_i found hfound
      obtain ⟨header, rest⟩ := found
      obtain ⟨hs, rfl, hspells⟩ := (ofTokens?_eq_some_iff hkeyword).mp hfound
      exact absurd ⟨header, t :: hs, hspells, List.prefix_append (t :: hs) rest⟩ h
    · rfl
  · rfl

/-- The search stops at the first header. -/
theorem find?_eq_some {ts rest : List Token} {header : Header}
    (h : find? ts = some (header, rest)) :
    ∃ pre hs, ts = pre ++ (hs ++ rest) ∧ Spells header hs ∧
      ∀ n < pre.length, ¬ Starts (ts.drop n) := by
  induction ts with
  | nil => simp [find?] at h
  | cons t ts ih =>
    -- a keyword without a header is passed over like any other token
    by_cases hstarts : Starts (t :: ts)
    · obtain ⟨header', hs, hspells, rest', hrest'⟩ := hstarts
      rw [← hrest', hspells.find?_eq] at h
      obtain ⟨rfl, rfl⟩ := Prod.mk.inj (Option.some.inj h)
      exact ⟨[], hs, hrest'.symm, hspells, by simp⟩
    · rw [find?_cons_of_not_starts hstarts] at h
      obtain ⟨pre, hs, rfl, hspells, hnone⟩ := ih h
      refine ⟨t :: pre, hs, rfl, hspells, ?_⟩
      intro n hn
      rcases n with _ | n
      · exact hstarts
      · exact hnone n (Nat.lt_of_succ_lt_succ hn)

/-- The search passes over no header. -/
theorem find?_eq_none {ts : List Token} (h : find? ts = none) (n : Nat) :
    ¬ Starts (ts.drop n) := by
  induction ts generalizing n with
  | nil =>
    rw [List.drop_nil]
    rintro ⟨header, hs, hspells, hpre⟩
    rw [List.prefix_nil.mp hpre] at hspells
    cases hspells
  | cons t ts ih =>
    have hstarts : ¬ Starts (t :: ts) := by
      rintro ⟨header, hs, hspells, rest, hrest⟩
      rw [← hrest, hspells.find?_eq] at h
      exact absurd h (by simp)
    rw [find?_cons_of_not_starts hstarts] at h
    rcases n with _ | n
    · exact hstarts
    · exact ih h n

/-- Tokens without a keyword are passed over. -/
theorem find?_append_of_keywordless {ts : List Token} (h : Keywordless ts) (us : List Token) :
    find? (ts ++ us) = find? us := by
  induction ts with
  | nil => rfl
  | cons t ts ih =>
    have ht := h t List.mem_cons_self
    rw [List.cons_append, find?, if_neg (by rw [ht]; exact Bool.false_ne_true)]
    exact ih fun u hu => h u (List.mem_cons_of_mem t hu)

/-- The headers that a search finds, each with the tokens behind its brace. -/
def all (ts : List Token) : List (Header × List Token) :=
  match _h : find? ts with
  | none => []
  | some (header, rest) => (header, rest) :: all rest
termination_by ts.length
decreasing_by exact find?_length_lt _h

theorem all_of_find?_eq_none {ts : List Token} (h : find? ts = none) : all ts = [] := by
  rw [all]
  split
  · rfl
  · rename_i h'
    rw [h] at h'
    exact absurd h' (by simp)

theorem all_nil : all [] = [] :=
  all_of_find?_eq_none rfl

theorem all_of_find?_eq_some {ts rest : List Token} {header : Header}
    (h : find? ts = some (header, rest)) : all ts = (header, rest) :: all rest := by
  rw [all]
  split
  · rename_i h'
    rw [h] at h'
    exact absurd h' (by simp)
  · rename_i h'
    rw [h] at h'
    obtain ⟨rfl, rfl⟩ := Prod.mk.inj (Option.some.inj h')
    rfl

theorem all_eq_of_find?_eq {ts us : List Token} (h : find? ts = find? us) : all ts = all us := by
  cases hus : find? us with
  | none => rw [all_of_find?_eq_none hus, all_of_find?_eq_none (h.trans hus)]
  | some found =>
    obtain ⟨header, rest⟩ := found
    rw [all_of_find?_eq_some hus, all_of_find?_eq_some (h.trans hus)]

theorem all_append_of_keywordless {ts : List Token} (h : Keywordless ts) (us : List Token) :
    all (ts ++ us) = all us :=
  all_eq_of_find?_eq (find?_append_of_keywordless h us)

/-- The declaration with a header, given the tokens behind its brace. -/
def declaration (source : Text) (header : Header) (rest : List Token) (index : Nat) :
    Declaration :=
  ⟨header.name.text,
    Text.slice source header.openBrace.stop
      (groupEnd .openBrace .closeBrace (Text.size source) rest),
    index⟩

end Header

namespace Search

theorem all_of_next?_eq_none {s : Search} (h : s.next? = none) : s.all = [] := by
  rw [all]
  split
  · rfl
  · rename_i h'
    rw [h] at h'
    exact absurd h' (by simp)

theorem all_of_next?_eq_some {s r : Search} {d : Declaration} (h : s.next? = some (d, r)) :
    s.all = d :: r.all := by
  rw [all]
  split
  · rename_i h'
    rw [h] at h'
    exact absurd h' (by simp)
  · rename_i h'
    rw [h] at h'
    obtain ⟨rfl, rfl⟩ := Prod.mk.inj (Option.some.inj h')
    rfl

/-- The declarations of a search are those of its headers, numbered from the
number that were found before. -/
theorem all_eq (source : Text) (ts : List Token) (found : Nat) :
    (Search.mk source ts found).all =
      (Header.all ts).mapIdx fun k h => h.1.declaration source h.2 (found + k) := by
  fun_induction Header.all ts generalizing found with
  | case1 ts hfind =>
    have hnext : (Search.mk source ts found).next? = none := by
      rw [next?, hfind]
    rw [all_of_next?_eq_none hnext, List.mapIdx_nil]
  | case2 ts header rest hfind ih =>
    have hnext : (Search.mk source ts found).next? =
        some (header.declaration source rest found, ⟨source, rest, found + 1⟩) := by
      rw [next?, hfind]
      rfl
    rw [all_of_next?_eq_some hnext, ih, List.mapIdx_cons]
    simp only [Nat.add_zero, Nat.add_assoc, Nat.add_comm 1]

end Search

/-- The tokens of a text that are no comments. -/
def significant (source : Text) : List Token :=
  (lex source).filter Token.isSignificant

theorem declarations_eq (source : Text) :
    declarations source =
      (Header.all (significant source)).mapIdx fun k h => h.1.declaration source h.2 k := by
  have h := Search.all_eq source (significant source) 0
  simp only [Nat.zero_add] at h
  exact h

end EnumTables
