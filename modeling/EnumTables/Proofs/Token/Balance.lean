/-
Matching brackets in a list of tokens.

A list is nested at a depth if no prefix of it has more closing than opening
tokens by more than the depth.  It is balanced if it is nested at depth zero
and has as many tokens of the one class as of the other.  Reading through a
closer skips the longest nested list and stops at the token behind it.

* **`nested_or_exists_closer`** — a list is nested, or there is a first token
  that closes too much;
* **`closeGroup_of_nested`**, **`closeGroup_append_closer`** — what reading
  through a closer does in either case;
* **`Balanced.closeGroup_eq`** — a balanced list in front of a closer is
  skipped as a whole;
* **`Balanced.append`**, **`Balanced.enclose`** — how balanced lists are made.
-/
import EnumTables.Token.Group
import Mathlib.Data.List.Infix
import Mathlib.Tactic.Common

namespace EnumTables

/-- The number of tokens of a class. -/
def count (k : TokenKind) (ts : List Token) : Nat :=
  ts.countP fun t => t.kind = k

theorem count_nil (k : TokenKind) : count k [] = 0 := rfl

theorem count_cons (k : TokenKind) (t : Token) (ts : List Token) :
    count k (t :: ts) = count k ts + if t.kind = k then 1 else 0 := by
  rw [count, List.countP_cons, count]
  simp

theorem count_append (k : TokenKind) (ts us : List Token) :
    count k (ts ++ us) = count k ts + count k us :=
  List.countP_append

theorem count_map {f : Token → Token} (hf : ∀ t, (f t).kind = t.kind) (k : TokenKind)
    (ts : List Token) : count k (ts.map f) = count k ts := by
  rw [count, List.countP_map, count]
  refine List.countP_congr fun t _ => ?_
  rw [Function.comp_apply, hf]

/-- No prefix has more closing than opening tokens by more than `depth`. -/
def Nested (opener closer : TokenKind) (depth : Nat) (ts : List Token) : Prop :=
  ∀ p, p <+: ts → count closer p ≤ depth + count opener p

/-- The tokens of the two classes match up. -/
structure Balanced (opener closer : TokenKind) (ts : List Token) : Prop where
  nested : Nested opener closer 0 ts
  even : count opener ts = count closer ts

section

variable {opener closer : TokenKind} {depth : Nat} {t : Token} {ts us : List Token}

theorem nested_nil : Nested opener closer depth [] := by
  intro p hp
  rw [List.prefix_nil.mp hp, count_nil, count_nil]
  exact Nat.zero_le _

theorem Nested.of_isPrefix (h : Nested opener closer depth us) (hpre : ts <+: us) :
    Nested opener closer depth ts :=
  fun p hp => h p (hp.trans hpre)

theorem nested_cons_iff : Nested opener closer depth (t :: ts) ↔
    ∀ p, p <+: ts → count closer (t :: p) ≤ depth + count opener (t :: p) := by
  constructor
  · intro h p hp
    exact h (t :: p) (List.cons_prefix_cons.mpr ⟨rfl, hp⟩)
  · intro h p hp
    rcases List.prefix_cons_iff.mp hp with rfl | ⟨q, rfl, hq⟩
    · rw [count_nil, count_nil]
      exact Nat.zero_le _
    · exact h q hq

theorem nested_cons_opener (hne : opener ≠ closer) (ht : t.kind = opener) :
    Nested opener closer depth (t :: ts) ↔ Nested opener closer (depth + 1) ts := by
  rw [nested_cons_iff]
  refine forall_congr' fun p => imp_congr_right fun _ => ?_
  rw [count_cons, count_cons, if_neg (by rw [ht]; exact hne), if_pos ht]
  omega

theorem nested_cons_closer (hne : opener ≠ closer) (ht : t.kind = closer) :
    Nested opener closer (depth + 1) (t :: ts) ↔ Nested opener closer depth ts := by
  rw [nested_cons_iff]
  refine forall_congr' fun p => imp_congr_right fun _ => ?_
  rw [count_cons, count_cons, if_pos ht, if_neg (by rw [ht]; exact hne.symm)]
  omega

theorem nested_cons_other (ho : t.kind ≠ opener) (hc : t.kind ≠ closer) :
    Nested opener closer depth (t :: ts) ↔ Nested opener closer depth ts := by
  rw [nested_cons_iff]
  refine forall_congr' fun p => imp_congr_right fun _ => ?_
  rw [count_cons, count_cons, if_neg ho, if_neg hc]
  omega

theorem not_nested_cons_closer (hne : opener ≠ closer) (ht : t.kind = closer) :
    ¬ Nested opener closer 0 (t :: ts) := by
  intro h
  have hone := nested_cons_iff.mp h [] List.nil_prefix
  rw [count_cons, count_cons, if_pos ht, if_neg (by rw [ht]; exact hne.symm), count_nil,
    count_nil] at hone
  omega

theorem closeGroup_cons_opener (ht : t.kind = opener) :
    closeGroup opener closer depth (t :: ts) = closeGroup opener closer (depth + 1) ts := by
  cases depth <;> rw [closeGroup, if_pos ht]

theorem closeGroup_cons_closer (hne : opener ≠ closer) (ht : t.kind = closer) :
    closeGroup opener closer (depth + 1) (t :: ts) = closeGroup opener closer depth ts := by
  rw [closeGroup, if_neg (by rw [ht]; exact hne.symm), if_pos ht]

theorem closeGroup_cons_closer_zero (hne : opener ≠ closer) (ht : t.kind = closer) :
    closeGroup opener closer 0 (t :: ts) = (some t, ts) := by
  rw [closeGroup, if_neg (by rw [ht]; exact hne.symm), if_pos ht]

theorem closeGroup_cons_other (ho : t.kind ≠ opener) (hc : t.kind ≠ closer) :
    closeGroup opener closer depth (t :: ts) = closeGroup opener closer depth ts := by
  cases depth <;> rw [closeGroup, if_neg ho, if_neg hc]

/-- Nested tokens hold no closer. -/
theorem closeGroup_of_nested (hne : opener ≠ closer) (h : Nested opener closer depth ts) :
    closeGroup opener closer depth ts = (none, []) := by
  induction ts generalizing depth with
  | nil => rfl
  | cons t ts ih =>
    by_cases ho : t.kind = opener
    · rw [closeGroup_cons_opener ho]
      exact ih ((nested_cons_opener hne ho).mp h)
    by_cases hc : t.kind = closer
    · -- at depth zero a closer is a prefix that closes too much
      rcases depth with _ | depth
      · exact absurd h (not_nested_cons_closer hne hc)
      · rw [closeGroup_cons_closer hne hc]
        exact ih ((nested_cons_closer hne hc).mp h)
    · rw [closeGroup_cons_other ho hc]
      exact ih ((nested_cons_other ho hc).mp h)

/-- Nested tokens that use up the depth are skipped, and the next closing
token is the closer. -/
theorem closeGroup_append_closer (hne : opener ≠ closer) (h : Nested opener closer depth ts)
    (hcount : count closer ts = depth + count opener ts) (ht : t.kind = closer) :
    closeGroup opener closer depth (ts ++ t :: us) = (some t, us) := by
  induction ts generalizing depth with
  | nil =>
    obtain rfl : depth = 0 := by
      rw [count_nil, count_nil] at hcount
      omega
    exact closeGroup_cons_closer_zero hne ht
  | cons u ts ih =>
    rw [count_cons, count_cons] at hcount
    by_cases ho : u.kind = opener
    · rw [List.cons_append, closeGroup_cons_opener ho]
      refine ih ((nested_cons_opener hne ho).mp h) ?_
      rw [if_pos ho, if_neg (by rw [ho]; exact hne)] at hcount
      omega
    by_cases hc : u.kind = closer
    · rcases depth with _ | depth
      · exact absurd h (not_nested_cons_closer hne hc)
      · rw [List.cons_append, closeGroup_cons_closer hne hc]
        refine ih ((nested_cons_closer hne hc).mp h) ?_
        rw [if_pos hc, if_neg ho] at hcount
        omega
    · rw [List.cons_append, closeGroup_cons_other ho hc]
      refine ih ((nested_cons_other ho hc).mp h) ?_
      rw [if_neg hc, if_neg ho] at hcount
      omega

/-- Tokens are nested, or there is a first one that closes too much. -/
theorem nested_or_exists_closer (hne : opener ≠ closer) (depth : Nat) (ts : List Token) :
    Nested opener closer depth ts ∨
      ∃ inner t rest, ts = inner ++ t :: rest ∧ t.kind = closer ∧
        Nested opener closer depth inner ∧ count closer inner = depth + count opener inner := by
  induction ts generalizing depth with
  | nil => exact .inl nested_nil
  | cons u ts ih =>
    by_cases ho : u.kind = opener
    · rcases ih (depth + 1) with h | ⟨inner, t, rest, rfl, ht, hnested, hcount⟩
      · exact .inl ((nested_cons_opener hne ho).mpr h)
      · refine .inr ⟨u :: inner, t, rest, rfl, ht, (nested_cons_opener hne ho).mpr hnested, ?_⟩
        rw [count_cons, count_cons, if_pos ho, if_neg (by rw [ho]; exact hne)]
        omega
    by_cases hc : u.kind = closer
    · -- at depth zero this is the token
      rcases depth with _ | depth
      · exact .inr ⟨[], u, ts, rfl, hc, nested_nil, rfl⟩
      rcases ih depth with h | ⟨inner, t, rest, rfl, ht, hnested, hcount⟩
      · exact .inl ((nested_cons_closer hne hc).mpr h)
      · refine .inr ⟨u :: inner, t, rest, rfl, ht, (nested_cons_closer hne hc).mpr hnested, ?_⟩
        rw [count_cons, count_cons, if_pos hc, if_neg ho]
        omega
    · rcases ih depth with h | ⟨inner, t, rest, rfl, ht, hnested, hcount⟩
      · exact .inl ((nested_cons_other ho hc).mpr h)
      · refine .inr ⟨u :: inner, t, rest, rfl, ht, (nested_cons_other ho hc).mpr hnested, ?_⟩
        rw [count_cons, count_cons, if_neg hc, if_neg ho]
        omega

instance : Decidable (Nested opener closer depth ts) :=
  decidable_of_iff (∀ p ∈ ts.inits, count closer p ≤ depth + count opener p)
    (forall_congr' fun p => imp_congr_left (List.mem_inits p ts))

instance : Decidable (Balanced opener closer ts) :=
  decidable_of_iff (Nested opener closer 0 ts ∧ count opener ts = count closer ts)
    ⟨fun h => ⟨h.1, h.2⟩, fun h => ⟨h.nested, h.even⟩⟩

namespace Balanced

theorem nil : Balanced opener closer [] :=
  ⟨nested_nil, rfl⟩

theorem singleton (ho : t.kind ≠ opener) (hc : t.kind ≠ closer) :
    Balanced opener closer [t] := by
  refine ⟨(nested_cons_other ho hc).mpr nested_nil, ?_⟩
  rw [count_cons, count_cons, if_neg ho, if_neg hc]
  rfl

theorem append (hts : Balanced opener closer ts) (hus : Balanced opener closer us) :
    Balanced opener closer (ts ++ us) := by
  have hteven := hts.even
  have hueven := hus.even
  refine ⟨?_, ?_⟩
  · rintro p ⟨r, hr⟩
    rcases List.append_eq_append_iff.mp hr with ⟨m, rfl, -⟩ | ⟨q, rfl, rfl⟩
    · exact hts.nested p (List.prefix_append p m)
    · have hq := hus.nested q (List.prefix_append q r)
      rw [count_append, count_append]
      omega
  · rw [count_append, count_append]
    omega

/-- Reading through a closer skips a balanced list. -/
theorem closeGroup_eq (h : Balanced opener closer ts) (hne : opener ≠ closer)
    (ht : t.kind = closer) (us : List Token) :
    closeGroup opener closer 0 (ts ++ t :: us) = (some t, us) := by
  have heven := h.even
  exact closeGroup_append_closer hne h.nested (by omega) ht

/-- A balanced list with an opener and a closer around it. -/
theorem enclose (h : Balanced opener closer ts) (hne : opener ≠ closer) {u : Token}
    (hu : u.kind = opener) (ht : t.kind = closer) :
    Balanced opener closer (u :: (ts ++ [t])) := by
  have heven := h.even
  have huc : u.kind ≠ closer := by rwa [hu]
  have hto : t.kind ≠ opener := by
    rw [ht]
    exact hne.symm
  refine ⟨?_, ?_⟩
  · rw [nested_cons_opener hne hu]
    rintro p ⟨r, hr⟩
    rcases List.append_eq_append_iff.mp hr with ⟨m, rfl, -⟩ | ⟨q, rfl, hq⟩
    · have hp := h.nested p (List.prefix_append p m)
      omega
    · -- of the closer behind the list the prefix holds all or nothing
      rcases List.cons_eq_append_iff.mp hq with ⟨rfl, -⟩ | ⟨q', rfl, hq'⟩
      · rw [List.append_nil]
        omega
      · obtain ⟨rfl, -⟩ := List.nil_eq_append_iff.mp hq'
        rw [count_append, count_append, count_cons, count_cons, if_pos ht, if_neg hto, count_nil,
          count_nil]
        omega
  · rw [count_cons, count_cons, count_append, count_append, count_cons, count_cons, if_pos hu,
      if_neg huc, if_neg hto, if_pos ht, count_nil, count_nil]
    omega

/-- Tokens may be moved. -/
theorem map (h : Balanced opener closer ts) {f : Token → Token} (hf : ∀ t, (f t).kind = t.kind) :
    Balanced opener closer (ts.map f) := by
  refine ⟨?_, ?_⟩
  · intro p hp
    obtain ⟨q, hq, rfl⟩ := List.prefix_map_iff.mp hp
    rw [count_map hf, count_map hf]
    exact h.nested q hq
  · rw [count_map hf, count_map hf, h.even]

theorem of_map {f : Token → Token} (h : Balanced opener closer (ts.map f))
    (hf : ∀ t, (f t).kind = t.kind) : Balanced opener closer ts := by
  refine ⟨?_, ?_⟩
  · intro p hp
    have hle := h.nested (p.map f) (hp.map f)
    rwa [count_map hf, count_map hf] at hle
  · have heven := h.even
    rwa [count_map hf, count_map hf] at heven

/-- Tokens that neither open nor close may be dropped. -/
theorem filter (h : Balanced opener closer ts) {p : Token → Bool}
    (ho : ∀ t, t.kind = opener → p t = true) (hc : ∀ t, t.kind = closer → p t = true) :
    Balanced opener closer (ts.filter p) := by
  have hcount : ∀ k, (∀ t, t.kind = k → p t = true) →
      ∀ q, count k (List.filter p q) = count k q := by
    intro k hk q
    rw [count, List.countP_filter, count]
    refine List.countP_congr fun t _ => ?_
    simp only [decide_eq_true_eq, Bool.and_eq_true]
    exact ⟨fun h => h.1, fun h => ⟨h, hk t h⟩⟩
  refine ⟨?_, ?_⟩
  · intro q hq
    obtain ⟨r, hr, rfl⟩ := List.prefix_filter_iff.mp hq
    rw [hcount opener ho, hcount closer hc]
    exact h.nested r hr
  · rw [hcount opener ho, hcount closer hc, h.even]

end Balanced

end

end EnumTables
