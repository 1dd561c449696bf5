/-
A quoted string is read back.

Each of the four styles is undone by its own reader, whatever stands behind the
string, as long as it is not one more quote.

Between three quotes up to two in a row stand for themselves, and the reader
sees only at the next character whether they belonged to the end.  So quotes are
kept back: the statements about the long styles have a number of quotes in
front that have been passed and not been read.

* **`Quoted.escaped_cons`** — how one character is written in a basic string;
* **`Quoted.basicTail_escaped`**, **`Quoted.longBasicTail_escaped`** — basic
  strings, which can hold any text;
* **`Quoted.literalTail_append`**, **`Quoted.longLiteralTail_append`** —
  literal strings, which can hold some;
* **`Quoted.read?_write`** — a text is read back from the style that is chosen
  for it.
-/
import EnumTables.Toml.Quoted

namespace EnumTables.Toml.Quoted

/-! ### One character -/

theorem hexNumber?_byNumber : ∀ n < 0x80,
    Text.hexNumber?
      [(Nat.digitChar (n / 4096 % 16)).toUpper, (Nat.digitChar (n / 256 % 16)).toUpper,
        (Nat.digitChar (n / 16 % 16)).toUpper, (Nat.digitChar (n % 16)).toUpper] = some n := by
  decide

/-- A control character is read back from its number. -/
theorem escape?_byNumber {c : Char} (hc : isPlain c = false) (rest : Text) :
    ∃ code, byNumber c = '\\' :: code ∧ escape? (code ++ rest) = some (c, rest) := by
  have hlt : c.toNat < 0x80 := by
    simp only [isPlain, Bool.or_eq_false_iff, Bool.and_eq_false_iff, decide_eq_false_iff_not,
      bne_eq_false_iff_eq] at hc
    omega
  refine ⟨_, rfl, ?_⟩
  simp only [List.cons_append, List.nil_append, escape?, hexNumber?_byNumber c.toNat hlt,
    Option.bind_some, Text.charOf?_toNat, Option.map_some]

/-- **One character of a basic string**, neither a quote nor a line feed: it is
written as an escape, or stands for itself. -/
theorem escaped_cons {c : Char} (hquote : c ≠ '"') (hline : c ≠ '\n') (long : Bool) (run : Nat)
    (cs rest : Text) :
    (∃ code, escaped long run (c :: cs) ++ rest = '\\' :: (code ++ (escaped long 0 cs ++ rest)) ∧
      escape? (code ++ (escaped long 0 cs ++ rest)) = some (c, escaped long 0 cs ++ rest)) ∨
    (isPlain c = true ∧ c ≠ '\\' ∧
      escaped long run (c :: cs) ++ rest = c :: (escaped long 0 cs ++ rest)) := by
  rw [escaped, if_neg hquote, if_neg hline]
  split
  · subst c
    exact .inl ⟨['b'], rfl, rfl⟩
  split
  · subst c
    exact .inl ⟨['t'], rfl, rfl⟩
  split
  · subst c
    exact .inl ⟨['f'], rfl, rfl⟩
  split
  · subst c
    exact .inl ⟨['r'], rfl, rfl⟩
  split
  · subst c
    exact .inl ⟨['\\'], rfl, rfl⟩
  rename_i hback
  split
  · rename_i hplain
    exact .inr ⟨hplain, hback, rfl⟩
  · rename_i hcontrol
    obtain ⟨code, hcode, hread⟩ :=
      escape?_byNumber (Bool.eq_false_iff.mpr hcontrol) (escaped long 0 cs ++ rest)
    exact .inl ⟨code, by rw [hcode, List.append_assoc, List.cons_append], hread⟩

/-! ### Strings on one line -/

theorem basicTail_escape {cs rest : Text} {c : Char} (h : escape? cs = some (c, rest)) :
    basicTail ('\\' :: cs) = prepend c (basicTail rest) := by
  rw [basicTail]
  split
  · simp_all
  · simp_all

theorem basicTail_plain {c : Char} (hplain : isPlain c = true) (hquote : c ≠ '"')
    (hback : c ≠ '\\') (cs : Text) : basicTail (c :: cs) = prepend c (basicTail cs) := by
  rw [basicTail, if_pos hplain]
  · exact hquote
  · exact hback

/-- A basic string can hold any text. -/
theorem basicTail_escaped (s rest : Text) (run : Nat) :
    basicTail (escaped false run s ++ '"' :: rest) = some (s, rest) := by
  induction s generalizing run with
  | nil => rw [escaped, List.nil_append, basicTail]
  | cons c s ih =>
    by_cases hquote : c = '"'
    · subst c
      exact (basicTail_escape rfl).trans (congrArg (prepend '"') (ih 0))
    by_cases hline : c = '\n'
    · subst c
      exact (basicTail_escape rfl).trans (congrArg (prepend '\n') (ih 0))
    rcases escaped_cons hquote hline false run s ('"' :: rest) with
      ⟨code, hcode, hread⟩ | ⟨hplain, hback, hcode⟩
    · rw [hcode, basicTail_escape hread, ih]
      rfl
    · rw [hcode, basicTail_plain hplain hquote hback, ih]
      rfl

/-- A literal string can hold a text without single quotes and control
characters. -/
theorem literalTail_append {s : Text} (hplain : ∀ c ∈ s, isPlain c = true) (hquote : '\'' ∉ s)
    (rest : Text) : literalTail (s ++ '\'' :: rest) = some (s, rest) := by
  induction s with
  | nil => rw [List.nil_append, literalTail]
  | cons c s ih =>
    obtain ⟨hc, hs⟩ := List.forall_mem_cons.mp hplain
    obtain ⟨hcq, hsq⟩ := List.ne_and_not_mem_of_not_mem_cons hquote
    rw [List.cons_append, literalTail, if_pos hc, ih hs hsq]
    · rfl
    · exact hcq.symm

/-! ### Strings over several lines -/

/-- Up to two quotes in front of the last three belong to the string. -/
theorem closing_replicate {quote : Char} {n : Nat} (hn : n ≤ 2) {rest : Text}
    (hrest : rest.head? ≠ some quote) :
    closing quote (List.replicate n quote ++ rest) = (List.replicate n quote, rest) := by
  have hhead {a : Char} {r : Text} (h : rest = a :: r) : a ≠ quote := by
    rintro rfl
    exact hrest (by rw [h, List.head?_cons])
  match n, hn with
  | 0, _ =>
    rw [List.replicate_zero, List.nil_append]
    match rest with
    | [] => rfl
    | [a] => rw [closing, if_neg (hhead rfl)]
    | a :: b :: r => rw [closing, if_neg (hhead rfl)]
  | 1, _ =>
    match rest with
    | [] => simp [closing]
    | a :: r => simp [closing, hhead rfl]
  | 2, _ => simp [closing, List.replicate]

/-- A reader of strings that end in three quotes: fewer than three in a row belong
to the string. -/
structure EndsInThree (quote : Char) (tail : Text → Option (Text × Text)) : Prop where
  close : ∀ rest, tail (quote :: quote :: quote :: rest) = some (closing quote rest)
  pass : ∀ cs, (∀ rest, cs ≠ quote :: quote :: rest) → tail (quote :: cs) = prepend quote (tail cs)

namespace EndsInThree

variable {quote : Char} {tail : Text → Option (Text × Text)} {n : Nat} {rest : Text}

/-- The string ends after the quotes that were kept back. -/
theorem close_replicate (h : EndsInThree quote tail) (hn : n ≤ 2)
    (hrest : rest.head? ≠ some quote) :
    tail (List.replicate n quote ++ quote :: quote :: quote :: rest) =
      some (List.replicate n quote, rest) := by
  have hmove : List.replicate n quote ++ quote :: quote :: quote :: rest =
      quote :: quote :: quote :: (List.replicate n quote ++ rest) := by
    match n, hn with
    | 0, _ => rfl
    | 1, _ => rfl
    | 2, _ => rfl
  rw [hmove, h.close, closing_replicate hn hrest]

/-- Another character shows that the quotes that were kept back were not the
end. -/
theorem pass_replicate (h : EndsInThree quote tail) (hn : n ≤ 2) {c : Char} {cs s : Text}
    (hc : c ≠ quote) (hread : tail (c :: cs) = some (s, rest)) :
    tail (List.replicate n quote ++ c :: cs) = some (List.replicate n quote ++ s, rest) := by
  have hone : tail (quote :: c :: cs) = some (quote :: s, rest) := by
    rw [h.pass, hread]
    · rfl
    · exact fun r heq => hc (List.cons.inj heq).1
  match n, hn with
  | 0, _ => exact hread
  | 1, _ => exact hone
  | 2, _ =>
    show tail (quote :: quote :: c :: cs) = some (quote :: quote :: s, rest)
    rw [h.pass, hone]
    · rfl
    · exact fun r heq => hc (List.cons.inj (List.cons.inj heq).2).1

end EndsInThree

theorem longBasicTail_endsInThree : EndsInThree '"' longBasicTail where
  close rest := by rw [longBasicTail]
  pass cs hcs := by
    rw [longBasicTail]
    exact fun r heq => hcs r heq

theorem longLiteralTail_endsInThree : EndsInThree '\'' longLiteralTail where
  close rest := by rw [longLiteralTail]
  pass cs hcs := by
    rw [longLiteralTail, if_pos (by decide)]
    · exact fun r _ heq => hcs r heq
    · simp
    · simp

theorem longBasicTail_escape {cs rest : Text} {c : Char} (h : escape? cs = some (c, rest)) :
    longBasicTail ('\\' :: cs) = prepend c (longBasicTail rest) := by
  rw [longBasicTail]
  split
  · simp_all
  · simp_all

theorem longBasicTail_plain {c : Char} (hplain : isPlain c = true) (hquote : c ≠ '"')
    (hback : c ≠ '\\') (cs : Text) : longBasicTail (c :: cs) = prepend c (longBasicTail cs) := by
  rw [longBasicTail, if_pos hplain]
  · exact fun r heq _ => hquote heq
  · exact fun heq => hquote heq
  · exact fun heq => hback heq
  · rintro rfl
    cases hplain
  · rintro r rfl
    cases hplain

theorem longBasicTail_line (cs : Text) :
    longBasicTail ('\n' :: cs) = prepend '\n' (longBasicTail cs) := by
  rw [longBasicTail]

/-- A basic string over several lines can hold any text; `run` quotes have been
kept back. -/
theorem longBasicTail_escaped (s : Text) {run : Nat} (hrun : run ≤ 2) {rest : Text}
    (hrest : rest.head? ≠ some '"') :
    longBasicTail (List.replicate run '"' ++ (escaped true run s ++ '"' :: '"' :: '"' :: rest)) =
      some (List.replicate run '"' ++ s, rest) := by
  have hends := longBasicTail_endsInThree
  induction s generalizing run with
  | nil =>
    rw [escaped, List.nil_append, List.append_nil]
    exact hends.close_replicate hrun hrest
  | cons c s ih =>
    have hnext := ih (Nat.zero_le 2)
    rw [List.replicate_zero, List.nil_append, List.nil_append] at hnext
    by_cases hquote : c = '"'
    · subst c
      by_cases hfew : run < 2
      · -- one more quote is kept back
        rw [escaped, if_pos rfl, if_pos (by simp [hfew]), List.cons_append, List.append_cons,
          ← List.replicate_succ', ih hfew, List.append_cons, ← List.replicate_succ']
      · rw [escaped, if_pos rfl, if_neg (by simp [hfew])]
        refine hends.pass_replicate hrun (by decide) ?_
        exact (longBasicTail_escape rfl).trans (congrArg (prepend '"') hnext)
    by_cases hline : c = '\n'
    · subst c
      refine hends.pass_replicate hrun (by decide) ?_
      exact (longBasicTail_line _).trans (congrArg (prepend '\n') hnext)
    rcases escaped_cons hquote hline true run s ('"' :: '"' :: '"' :: rest) with
      ⟨code, hcode, hread⟩ | ⟨hplain, hback, hcode⟩
    · rw [hcode]
      refine hends.pass_replicate hrun (by decide) ?_
      rw [longBasicTail_escape hread, hnext]
      rfl
    · rw [hcode]
      refine hends.pass_replicate hrun hquote ?_
      rw [longBasicTail_plain hplain hquote hback, hnext]
      rfl

theorem longLiteralTail_line (cs : Text) :
    longLiteralTail ('\n' :: cs) = prepend '\n' (longLiteralTail cs) := by
  rw [longLiteralTail]

theorem longLiteralTail_plain {c : Char} (hplain : isPlain c = true) (hquote : c ≠ '\'')
    (cs : Text) : longLiteralTail (c :: cs) = prepend c (longLiteralTail cs) := by
  rw [longLiteralTail, if_pos hplain]
  · exact fun r heq _ => hquote heq
  · rintro rfl
    cases hplain
  · rintro r rfl
    cases hplain

/-- A literal string over several lines can hold a text without three single
quotes in a row and without control characters other than line feeds; `run`
quotes have been kept back. -/
theorem longLiteralTail_append {s : Text} {run : Nat} (hs : ∀ c ∈ s, needsEscape c = false)
    (hrun : longestRun '\'' run s ≤ 2) {rest : Text} (hrest : rest.head? ≠ some '\'') :
    longLiteralTail (List.replicate run '\'' ++ (s ++ '\'' :: '\'' :: '\'' :: rest)) =
      some (List.replicate run '\'' ++ s, rest) := by
  have hends := longLiteralTail_endsInThree
  induction s generalizing run with
  | nil =>
    rw [List.nil_append, List.append_nil]
    exact hends.close_replicate hrun hrest
  | cons c s ih =>
    obtain ⟨hc, hs'⟩ := List.forall_mem_cons.mp hs
    rw [longestRun] at hrun
    by_cases hquote : c = '\''
    · subst c
      rw [if_pos rfl] at hrun
      rw [List.cons_append, List.append_cons, ← List.replicate_succ', ih hs' hrun,
        List.append_cons, ← List.replicate_succ']
    · rw [if_neg hquote, Nat.max_le] at hrun
      have hnext := ih hs' hrun.2
      rw [List.replicate_zero, List.nil_append, List.nil_append] at hnext
      refine hends.pass_replicate hrun.1 hquote ?_
      by_cases hline : c = '\n'
      · subst c
        exact (longLiteralTail_line _).trans (congrArg (prepend '\n') hnext)
      · have hplain : isPlain c = true := by simpa [needsEscape, hline] using hc
        exact (longLiteralTail_plain hplain hquote _).trans (congrArg (prepend c) hnext)

/-! ### Opening quotes -/

theorem read?_basic {cs : Text} (hcs : ∀ r, cs ≠ '"' :: '"' :: r) :
    read? ('"' :: cs) = basicTail cs := by
  rw [read?, readShort?]
  · exact fun r heq => hcs r (List.cons.inj heq).2
  · simp

theorem read?_literal {cs : Text} (hcs : ∀ r, cs ≠ '\'' :: '\'' :: r) :
    read? ('\'' :: cs) = literalTail cs := by
  rw [read?, readShort?]
  · simp
  · exact fun r heq => hcs r (List.cons.inj heq).2

/-- The line end in front of a text with several lines is dropped, and no
other. -/
theorem dropLineEnd_firstLineEnd {s cs : Text}
    (hcs : '\n' ∉ s → cs.head? ≠ some '\n' ∧ cs.head? ≠ some '\r') :
    dropLineEnd (firstLineEnd s ++ cs) = cs := by
  rw [firstLineEnd]
  by_cases hline : '\n' ∈ s
  · rw [if_pos (List.contains_iff_mem.mpr hline)]
    rfl
  · rw [if_neg (mt List.contains_iff_mem.mp hline), List.nil_append, dropLineEnd]
    · rintro r rfl
      exact (hcs hline).1 rfl
    · rintro r rfl
      exact (hcs hline).2 rfl

/-! ### All styles -/

section

variable {s rest : Text}

theorem read?_writeAs_basic (s : Text) (hrest : rest.head? ≠ some '"') :
    read? (writeAs s .basic ++ rest) = some (s, rest) := by
  have hstart (r : Text) : escaped false 0 s ++ '"' :: rest ≠ '"' :: '"' :: r := by
    cases s with
    | nil =>
      rintro heq
      exact hrest (by rw [(List.cons.inj heq).2, List.head?_cons])
    | cons c s =>
      by_cases hquote : c = '"'
      · subst c
        simp [escaped]
      by_cases hline : c = '\n'
      · subst c
        simp [escaped]
      rcases escaped_cons hquote hline false 0 s ('"' :: rest) with ⟨code, hcode, -⟩ | ⟨-, -, hcode⟩
      · simp [hcode]
      · simp [hcode, hquote]
  rw [writeAs, List.append_assoc, List.cons_append, List.singleton_append, read?_basic hstart,
    basicTail_escaped]

theorem read?_writeAs_literal (hs : ∀ c ∈ s, needsEscape c = false) (hquote : '\'' ∉ s)
    (hline : '\n' ∉ s) (hrest : rest.head? ≠ some '\'') :
    read? (writeAs s .literal ++ rest) = some (s, rest) := by
  have hplain : ∀ c ∈ s, isPlain c = true := by
    intro c hc
    have hne : c ≠ '\n' := fun heq => hline (heq ▸ hc)
    simpa [needsEscape, hne] using hs c hc
  have hstart (r : Text) : s ++ '\'' :: rest ≠ '\'' :: '\'' :: r := by
    cases s with
    | nil =>
      rintro heq
      exact hrest (by rw [(List.cons.inj heq).2, List.head?_cons])
    | cons c s =>
      rintro heq
      exact hquote ((List.cons.inj heq).1 ▸ List.mem_cons_self)
  rw [writeAs, List.append_assoc, List.cons_append, List.singleton_append, read?_literal hstart,
    literalTail_append hplain hquote]

theorem read?_writeAs_longBasic (s : Text) (hrest : rest.head? ≠ some '"') :
    read? (writeAs s .longBasic ++ rest) = some (s, rest) := by
  have hstart (hline : '\n' ∉ s) :
      (escaped true 0 s ++ '"' :: '"' :: '"' :: rest).head? ≠ some '\n' ∧
      (escaped true 0 s ++ '"' :: '"' :: '"' :: rest).head? ≠ some '\r' := by
    cases s with
    | nil => simp [escaped]
    | cons c s =>
      by_cases hquote : c = '"'
      · subst c
        simp [escaped]
      have hne : c ≠ '\n' := fun heq => hline (heq ▸ List.mem_cons_self)
      rcases escaped_cons hquote hne true 0 s ('"' :: '"' :: '"' :: rest) with
        ⟨code, hcode, -⟩ | ⟨hplain, -, hcode⟩
      · simp [hcode]
      · have hreturn : c ≠ '\r' := by
          rintro rfl
          cases hplain
        simp [hcode, hne, hreturn]
  have htail := longBasicTail_escaped s (Nat.zero_le 2) hrest
  rw [List.replicate_zero, List.nil_append, List.nil_append] at htail
  simp only [writeAs, List.append_assoc, List.cons_append, List.nil_append]
  rw [read?, dropLineEnd_firstLineEnd hstart, htail]

theorem read?_writeAs_longLiteral (hs : ∀ c ∈ s, needsEscape c = false)
    (hrun : longestRun '\'' 0 s ≤ 2) (hrest : rest.head? ≠ some '\'') :
    read? (writeAs s .longLiteral ++ rest) = some (s, rest) := by
  have hstart (hline : '\n' ∉ s) : (s ++ '\'' :: '\'' :: '\'' :: rest).head? ≠ some '\n' ∧
      (s ++ '\'' :: '\'' :: '\'' :: rest).head? ≠ some '\r' := by
    cases s with
    | nil => simp
    | cons c s =>
      have hne : c ≠ '\n' := fun heq => hline (heq ▸ List.mem_cons_self)
      have hreturn : c ≠ '\r' := by
        rintro rfl
        cases hs _ List.mem_cons_self
      simp [hne, hreturn]
  have htail := longLiteralTail_append hs hrun hrest
  rw [List.replicate_zero, List.nil_append, List.nil_append] at htail
  simp only [writeAs, List.append_assoc, List.cons_append, List.nil_append]
  rw [read?, dropLineEnd_firstLineEnd hstart, htail]

end

/-! ### The choice of a style -/

theorem le_longestRun (c : Char) (run : Nat) (s : Text) : run ≤ longestRun c run s := by
  induction s generalizing run with
  | nil => exact Nat.le_refl run
  | cons d s ih =>
    rw [longestRun]
    split
    · exact Nat.le_of_succ_le (ih (run + 1))
    · exact Nat.le_max_left ..

theorem longestRun_pos {c : Char} {s : Text} (h : c ∈ s) (run : Nat) :
    0 < longestRun c run s := by
  induction s generalizing run with
  | nil => cases h
  | cons d s ih =>
    rw [longestRun]
    split
    · exact Nat.lt_of_lt_of_le run.succ_pos (le_longestRun c (run + 1) s)
    · rename_i hne
      have hmem : c ∈ s := (List.mem_cons.mp h).resolve_left (Ne.symm hne)
      exact Nat.lt_of_lt_of_le (ih hmem 0) (Nat.le_max_right ..)

/-- A literal string on one line is chosen only for a text that it can hold. -/
theorem of_style_eq_literal {s : Text} (h : style s = .literal) :
    (∀ c ∈ s, needsEscape c = false) ∧ '\'' ∉ s ∧ '\n' ∉ s := by
  simp only [style] at h
  split at h
  · cases h
  split at h
  · rename_i hcond
    simp only [Bool.and_eq_true, Bool.not_eq_true', beq_iff_eq, List.any_eq_false,
      Bool.not_eq_true] at hcond
    obtain ⟨⟨hs, hrun⟩, hline⟩ := hcond
    refine ⟨hs, fun hquote => ?_, by simpa using hline⟩
    exact absurd hrun (Nat.ne_of_gt (longestRun_pos hquote 0))
  split at h
  · cases h
  split at h
  · cases h
  · split at h <;> cases h

/-- A literal string over several lines is chosen only for a text that it can
hold. -/
theorem of_style_eq_longLiteral {s : Text} (h : style s = .longLiteral) :
    (∀ c ∈ s, needsEscape c = false) ∧ longestRun '\'' 0 s ≤ 2 := by
  simp only [style] at h
  split at h
  · cases h
  split at h
  · cases h
  split at h
  · cases h
  split at h
  · rename_i hcond
    simp only [Bool.and_eq_true, Bool.not_eq_true', List.any_eq_false, Bool.not_eq_true,
      decide_eq_true_eq] at hcond
    exact hcond
  · split at h <;> cases h

/-- **A text is read back** from the style that is chosen for it, whatever stands
behind it, if that is not one more quote. -/
theorem read?_write (s : Text) {rest : Text} (hdouble : rest.head? ≠ some '"')
    (hsingle : rest.head? ≠ some '\'') : read? (write s ++ rest) = some (s, rest) := by
  rw [write]
  cases hstyle : style s with
  | basic => exact read?_writeAs_basic s hdouble
  | literal =>
    obtain ⟨hs, hquote, hline⟩ := of_style_eq_literal hstyle
    exact read?_writeAs_literal hs hquote hline hsingle
  | longBasic => exact read?_writeAs_longBasic s hdouble
  | longLiteral =>
    obtain ⟨hs, hrun⟩ := of_style_eq_longLiteral hstyle
    exact read?_writeAs_longLiteral hs hrun hsingle

end EnumTables.Toml.Quoted
