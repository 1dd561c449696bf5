/-
The words of a text, and descriptions as words.

A description is made in one pass over the characters of a comment.  Here it is
read in another way: delete the delimiters, take the words that are left and put
one space between them.  What later proofs need follows from this reading and
from two facts about words: a blank divides them, and words that are joined with
a space are found again.

* **`Text.trimmed_trim`** — trimming leaves no blank at either end;
* **`Text.words_append_blank`**, **`Text.words_join`** — the two facts about
  words;
* **`Comment.normalize_eq`** — a description is the words of a comment, joined;
* **`Comment.normalize_normalize`** — describing a description changes nothing;
* **`Comment.normalize_words`** — what a description looks like, and how those of
  two comments go together.
-/
import EnumTables.Comment
import EnumTables.Proofs.Token.Stream
import Mathlib.Data.List.Chain

namespace EnumTables

namespace Text

/-! ### Trimming -/

/-- Neither end of the text is a blank. -/
structure Trimmed (cs : Text) : Prop where
  start : ∀ c, cs.head? = some c → isBlank c = false
  stop : ∀ c, cs.getLast? = some c → isBlank c = false

theorem trimEnd_isPrefix (cs : Text) : trimEnd cs <+: cs := by
  have h := List.reverse_prefix.mpr (List.dropWhile_suffix isBlank (l := cs.reverse))
  rwa [List.reverse_reverse] at h

theorem trimmed_trim (cs : Text) : Trimmed (trim cs) := by
  constructor
  · have hlike := startsLike_of_isPrefix (trimEnd_isPrefix (trimStart cs))
    exact hlike.stops (stops_dropWhile isBlank cs)
  · intro c hc
    rw [trim, trimEnd, List.getLast?_reverse] at hc
    exact stops_dropWhile isBlank _ c hc

theorem trimStart_of_stops {cs : Text} (h : Stops isBlank cs) : trimStart cs = cs := by
  cases cs with
  | nil => rfl
  | cons c cs => rw [trimStart, List.dropWhile_cons_of_neg (by simp [stops_cons.mp h])]

theorem trimEnd_of_stops {cs : Text} (h : Stops isBlank cs.reverse) : trimEnd cs = cs := by
  rw [trimEnd, ← trimStart, trimStart_of_stops h, List.reverse_reverse]

/-- Trimming the end of two texts in a row reaches the first one if the second
is blank. -/
theorem trimEnd_append_of_eq_nil {ds : Text} (h : trimEnd ds = []) (cs : Text) :
    trimEnd (cs ++ ds) = trimEnd cs := by
  rw [trimEnd, List.reverse_eq_nil_iff] at h
  rw [trimEnd, List.reverse_append, List.dropWhile_append, h]
  rfl

theorem trimEnd_append_of_ne_nil {ds : Text} (h : trimEnd ds ≠ []) (cs : Text) :
    trimEnd (cs ++ ds) = cs ++ trimEnd ds := by
  have hdrop : ds.reverse.dropWhile isBlank ≠ [] := by
    rwa [trimEnd, ne_eq, List.reverse_eq_nil_iff] at h
  rw [trimEnd, List.reverse_append, List.dropWhile_append, if_neg (by simpa using hdrop),
    List.reverse_append, List.reverse_reverse, trimEnd]

/-! ### Words -/

/-- The text holds no blank. -/
def Solid (cs : Text) : Prop :=
  ∀ c ∈ cs, isBlank c = false

theorem Solid.trimEnd_eq {cs : Text} (h : Solid cs) : trimEnd cs = cs :=
  trimEnd_of_stops fun c hc => h c (List.mem_reverse.mp (List.mem_of_mem_head? hc))

/-- **Induction along the words of a text.**  A text is solid, or a solid part,
a blank and a rest. -/
@[elab_as_elim]
theorem word_cases {motive : Text → Prop} (solid : ∀ w, Solid w → motive w)
    (blank : ∀ w b rest, Solid w → isBlank b = true → motive rest → motive (w ++ b :: rest))
    (cs : Text) : motive cs := by
  -- `w` is the solid part that has been read
  suffices h : ∀ w, Solid w → motive (w ++ cs) from h [] (by simp [Solid])
  induction cs with
  | nil =>
    intro w hw
    rw [List.append_nil]
    exact solid w hw
  | cons c cs ih =>
    intro w hw
    by_cases hc : isBlank c = true
    · exact blank w c cs hw hc (ih [] (by simp [Solid]))
    · have hwc : Solid (w ++ [c]) := by
        intro d hd
        rcases List.mem_append.mp hd with hd | hd
        · exact hw d hd
        · rw [List.mem_singleton.mp hd]
          simpa using hc
      have h := ih (w ++ [c]) hwc
      rwa [List.append_assoc] at h

/-- The longest pieces of a text without a blank. -/
def words (cs : Text) : List Text :=
  (cs.splitOnP isBlank).filter (· ≠ [])

theorem words_nil : words [] = [] := by
  rw [words, List.splitOnP_nil]
  rfl

/-- Words are divided by a blank. -/
theorem words_append_blank {c : Char} (hc : isBlank c = true) (cs ds : Text) :
    words (cs ++ c :: ds) = words cs ++ words ds := by
  rw [words, List.splitOnP_append_cons cs ds hc, List.filter_append, words, words]

theorem Solid.words_eq {w : Text} (h : Solid w) (hw : w ≠ []) : words w = [w] := by
  rw [words, List.splitOnP_eq_singleton h]
  simp [hw]

/-- A word is a part of the text; it is not empty and holds no blank. -/
theorem mem_words {cs w : Text} (h : w ∈ words cs) : w ≠ [] ∧ Solid w ∧ w ⊆ cs := by
  induction cs using word_cases with
  | solid v hv =>
    rcases eq_or_ne v [] with rfl | hne
    · simp [words_nil] at h
    · rw [hv.words_eq hne, List.mem_singleton] at h
      rw [h]
      exact ⟨hne, hv, List.Subset.refl v⟩
  | blank v b rest hv hb ih =>
    rw [words_append_blank hb, List.mem_append] at h
    rcases h with h | h
    · rcases eq_or_ne v [] with rfl | hne
      · simp [words_nil] at h
      · rw [hv.words_eq hne, List.mem_singleton] at h
        rw [h]
        exact ⟨hne, hv, List.subset_append_left v _⟩
    · obtain ⟨hne, hsolid, hsub⟩ := ih h
      refine ⟨hne, hsolid, fun c hc => ?_⟩
      exact List.mem_append_right v (List.mem_cons_of_mem b (hsub hc))

/-- Words that are joined with a space are found again. -/
theorem words_join {ws : List Text} (h : ∀ w ∈ ws, w ≠ [] ∧ Solid w) :
    words (join [' '] ws) = ws := by
  induction ws with
  | nil => exact words_nil
  | cons w ws ih =>
    obtain ⟨hne, hsolid⟩ := h w List.mem_cons_self
    have hws := ih fun v hv => h v (List.mem_cons_of_mem w hv)
    cases ws with
    | nil => exact hsolid.words_eq hne
    | cons v vs =>
      rw [join, List.append_assoc, List.singleton_append, words_append_blank (by decide), hws,
        hsolid.words_eq hne]
      · rfl
      · simp

theorem join_ne_nil {sep piece : Text} (h : piece ≠ []) (pieces : List Text) :
    join sep (piece :: pieces) ≠ [] := by
  cases pieces with
  | nil => exact h
  | cons q qs => simp [join, h]

/-- A character of joined pieces is one of a piece, or of what stands between. -/
theorem mem_join {sep : Text} {pieces : List Text} {c : Char} (h : c ∈ join sep pieces) :
    c ∈ sep ∨ ∃ piece ∈ pieces, c ∈ piece := by
  fun_induction join sep pieces with
  | case1 => simp at h
  | case2 piece => exact .inr ⟨piece, List.mem_singleton_self piece, h⟩
  | case3 piece pieces _ ih =>
    rw [List.mem_append, List.mem_append] at h
    rcases h with (h | h) | h
    · exact .inr ⟨piece, List.mem_cons_self, h⟩
    · exact .inl h
    · rcases ih h with h | ⟨q, hq, h⟩
      · exact .inl h
      · exact .inr ⟨q, List.mem_cons_of_mem piece hq, h⟩

theorem join_append {sep : Text} {pieces others : List Text} (hpieces : pieces ≠ [])
    (hothers : others ≠ []) :
    join sep (pieces ++ others) = join sep pieces ++ sep ++ join sep others := by
  induction pieces with
  | nil => exact absurd rfl hpieces
  | cons piece pieces ih =>
    rcases eq_or_ne pieces [] with rfl | hne
    · exact join.eq_3 sep piece others hothers
    · rw [List.cons_append, join.eq_3 sep piece pieces hne,
        join.eq_3 sep piece (pieces ++ others) (by simp [hne]), ih hne]
      simp only [List.append_assoc]

/-- Pieces that are joined in two parts; a part without pieces leaves nothing
between. -/
theorem join_parts {sep : Text} {pieces others : List Text} (hpieces : [] ∉ pieces)
    (hothers : [] ∉ others) :
    join sep (pieces ++ others) =
      join sep ([join sep pieces, join sep others].filter (· ≠ [])) := by
  have hne {ps : List Text} (hps : [] ∉ ps) (h : ps ≠ []) : join sep ps ≠ [] := by
    obtain ⟨p, rest, rfl⟩ := List.exists_cons_of_ne_nil h
    exact join_ne_nil (Ne.symm (List.ne_of_not_mem_cons hps)) rest
  rcases eq_or_ne pieces [] with rfl | hps
  · rcases eq_or_ne others [] with rfl | hos
    · rfl
    · simp [join, hne hothers hos]
  · rcases eq_or_ne others [] with rfl | hos
    · simp [join, hne hpieces hps]
    · simp [join, hne hpieces hps, hne hothers hos, join_append hps hos]

/-- The blanks of the text are single spaces, and other characters stand on both
sides of each. -/
structure Spaced (cs : Text) : Prop where
  ends : Trimmed cs
  spaces : ∀ c ∈ cs, isBlank c = true → c = ' '
  single : cs.IsChain fun c d => isBlank c = false ∨ isBlank d = false

theorem Solid.isChain {w : Text} (h : Solid w) :
    w.IsChain fun c d => isBlank c = false ∨ isBlank d = false :=
  (List.pairwise_of_forall_mem_list fun c hc _ _ => .inl (h c hc)).isChain

theorem isChain_join {ws : List Text} (h : ∀ w ∈ ws, w ≠ [] ∧ Solid w) :
    (join [' '] ws).IsChain fun c d => isBlank c = false ∨ isBlank d = false := by
  induction ws with
  | nil => exact List.IsChain.nil
  | cons w ws ih =>
    obtain ⟨⟨hne, hsolid⟩, hws⟩ := List.forall_mem_cons.mp h
    cases ws with
    | nil => exact hsolid.isChain
    | cons v vs =>
      -- the space stands behind the end of one word and in front of the start of another
      have hstart : ∀ c ∈ (join [' '] (v :: vs)).head?, isBlank c = false := by
        obtain ⟨⟨hv, hvsolid⟩, -⟩ := List.forall_mem_cons.mp hws
        obtain ⟨c, v, rfl⟩ := List.exists_cons_of_ne_nil hv
        have hhead : (join [' '] ((c :: v) :: vs)).head? = some c := by
          cases vs <;> rfl
        rw [hhead]
        rintro _ ⟨⟩
        exact hvsolid c List.mem_cons_self
      have hstop : ∀ c ∈ w.getLast?, isBlank c = false :=
        fun c hc => hsolid c (List.mem_of_getLast? hc)
      rw [join.eq_3 _ _ _ (by simp), List.append_assoc, List.singleton_append,
        List.isChain_append, List.isChain_cons]
      refine ⟨hsolid.isChain, ⟨fun c hc => .inr (hstart c hc), ih hws⟩, fun c hc d _ => ?_⟩
      exact .inl (hstop c hc)

end Text

namespace Comment

theorem stops_collapse (cs : Text) : Text.Stops isBlank (collapse true cs) := by
  induction cs with
  | nil => exact Text.stops_nil isBlank
  | cons c cs ih =>
    by_cases hc : isBlank c = true
    · rw [collapse, if_pos hc]
      exact ih
    · rw [collapse, if_neg hc]
      exact Text.stops_cons.mpr (by simpa using hc)

theorem trimStart_collapse (cs : Text) : Text.trimStart (collapse false cs) = collapse true cs := by
  cases cs with
  | nil => rfl
  | cons c cs =>
    rw [collapse, collapse]
    by_cases hc : isBlank c = true
    · simp only [hc, if_true, Bool.false_eq_true, if_false]
      rw [Text.trimStart, List.dropWhile_cons_of_pos (by decide)]
      exact Text.trimStart_of_stops (stops_collapse cs)
    · simp only [hc, Bool.false_eq_true, if_false]
      exact Text.trimStart_of_stops (Text.stops_cons.mpr (by simpa using hc))

/-- Within a word nothing collapses. -/
theorem collapse_append {w : Text} (h : Text.Solid w) (hw : w ≠ []) (inRun : Bool) (cs : Text) :
    collapse inRun (w ++ cs) = w ++ collapse false cs := by
  induction w generalizing inRun with
  | nil => exact absurd rfl hw
  | cons c w ih =>
    have hc : isBlank c = false := h c List.mem_cons_self
    rw [List.cons_append, collapse, if_neg (by simp [hc])]
    rcases eq_or_ne w [] with rfl | hne
    · rfl
    · rw [ih (fun d hd => h d (List.mem_cons_of_mem c hd)) hne]
      rfl

/-- A text whose runs of blanks have become one space is its words, joined. -/
theorem trimEnd_collapse (cs : Text) :
    Text.trimEnd (collapse true cs) = Text.join [' '] (Text.words cs) := by
  induction cs using Text.word_cases with
  | solid w hw =>
    rcases eq_or_ne w [] with rfl | hne
    · rfl
    · have h := collapse_append hw hne true []
      rw [List.append_nil, collapse, List.append_nil] at h
      rw [h, hw.trimEnd_eq, hw.words_eq hne]
      rfl
  | blank w b rest hw hb ih =>
    rw [Text.words_append_blank hb]
    rcases eq_or_ne w [] with rfl | hne
    · rw [List.nil_append, collapse, if_pos hb, if_pos rfl, ih]
      rfl
    · have hspace : collapse false (b :: rest) = [' '] ++ collapse true rest := by
        rw [collapse, if_pos hb]
        rfl
      rw [collapse_append hw hne, hspace, hw.words_eq hne]
      cases hrest : Text.words rest with
      | nil =>
        -- only the space of the last run is left, and trimming takes it away
        rw [hrest, Text.join] at ih
        have hblank : Text.trimEnd ([' '] ++ collapse true rest) = [] :=
          Text.trimEnd_append_of_eq_nil ih [' ']
        rw [Text.trimEnd_append_of_eq_nil hblank, hw.trimEnd_eq]
        rfl
      | cons v vs =>
        have hne' : Text.trimEnd (collapse true rest) ≠ [] := by
          rw [ih, hrest]
          exact Text.join_ne_nil (Text.mem_words (hrest ▸ List.mem_cons_self)).1 vs
        have hkeep := Text.trimEnd_append_of_ne_nil hne' [' ']
        have hne'' : Text.trimEnd ([' '] ++ collapse true rest) ≠ [] := by
          rw [hkeep]
          exact List.cons_ne_nil _ _
        rw [Text.trimEnd_append_of_ne_nil hne'', hkeep, ih, hrest]
        exact (List.append_assoc w [' '] _).symm

/-- **A description is the words of a comment**, where the delimiters are
deleted first, with one space between neighbours. -/
theorem normalize_eq (raw : Text) :
    normalize raw =
      Text.join [' '] (Text.words (raw.filter fun c => !isDelimiter c)) := by
  rw [normalize, Text.trim, trimStart_collapse, trimEnd_collapse]

/-- A character of a description is a space, or a character of the comment that
is neither a blank nor a delimiter. -/
theorem mem_normalize {raw : Text} {c : Char} (h : c ∈ normalize raw) :
    c = ' ' ∨ (c ∈ raw ∧ isBlank c = false ∧ isDelimiter c = false) := by
  rw [normalize_eq] at h
  rcases Text.mem_join h with h | ⟨w, hw, h⟩
  · exact .inl (List.mem_singleton.mp h)
  · obtain ⟨-, hsolid, hsub⟩ := Text.mem_words hw
    obtain ⟨hraw, hdelimiter⟩ := List.mem_filter.mp (hsub h)
    exact .inr ⟨hraw, hsolid c h, by simpa using hdelimiter⟩

/-- **Describing a description changes nothing.** -/
theorem normalize_normalize (raw : Text) : normalize (normalize raw) = normalize raw := by
  have hkeep : (normalize raw).filter (fun c => !isDelimiter c) = normalize raw := by
    rw [List.filter_eq_self]
    intro c hc
    rcases mem_normalize hc with rfl | ⟨-, -, hc⟩
    · decide
    · rw [hc]
      rfl
  have hwords := fun w (hw : w ∈ Text.words (raw.filter fun c => !isDelimiter c)) =>
    (⟨(Text.mem_words hw).1, (Text.mem_words hw).2.1⟩ : w ≠ [] ∧ Text.Solid w)
  rw [normalize_eq (normalize raw), hkeep, normalize_eq raw, Text.words_join hwords]

theorem spaced_normalize (raw : Text) : Text.Spaced (normalize raw) where
  ends := Text.trimmed_trim _
  spaces c hc hblank := by
    rcases mem_normalize hc with rfl | ⟨-, hc, -⟩
    · rfl
    · rw [hblank] at hc
      cases hc
  single := by
    rw [normalize_eq]
    exact Text.isChain_join fun w hw => ⟨(Text.mem_words hw).1, (Text.mem_words hw).2.1⟩

/-- A blank between two comments divides their descriptions. -/
theorem normalize_append_blank {c : Char} (hc : isBlank c = true) (raw other : Text) :
    normalize (raw ++ c :: other) =
      Text.join [' '] ([normalize raw, normalize other].filter (· ≠ [])) := by
  have hkeep : (!isDelimiter c) = true := by
    simp only [isDelimiter, Bool.not_or, Bool.and_eq_true, Bool.not_eq_true', beq_eq_false_iff_ne]
    constructor
    · rintro rfl
      cases hc
    · rintro rfl
      cases hc
  have hnil (cs : Text) : [] ∉ Text.words cs := fun h => (Text.mem_words h).1 rfl
  rw [normalize_eq, List.filter_append, List.filter_cons, if_pos hkeep,
    Text.words_append_blank hc, Text.join_parts (hnil _) (hnil _), ← normalize_eq, ← normalize_eq]

/-- **A description is the words of a comment**, read without the delimiters and
joined with spaces.  So there is no delimiter in it and no blank but single spaces
between words, describing it changes nothing, and where a blank divides a comment
its description is that of both parts. -/
theorem normalize_words (raw other : Text) (c : Char) (hc : isBlank c = true) :
    normalize raw = Text.join [' '] (Text.words (raw.filter fun d => d ≠ '/' ∧ d ≠ '*')) ∧
    '/' ∉ normalize raw ∧ '*' ∉ normalize raw ∧ Text.Spaced (normalize raw) ∧
    normalize (normalize raw) = normalize raw ∧
    normalize (raw ++ c :: other) =
      Text.join [' '] ([normalize raw, normalize other].filter (· ≠ [])) := by
  have hno {d : Char} (hd : isDelimiter d = true) : d ∉ normalize raw := by
    intro hmem
    rcases mem_normalize hmem with rfl | ⟨-, -, hnot⟩
    · cases hd
    · rw [hd] at hnot
      cases hnot
  refine ⟨?_, hno rfl, hno rfl, spaced_normalize raw, normalize_normalize raw,
    normalize_append_blank hc raw other⟩
  rw [normalize_eq]
  congr 3
  funext d
  rw [Bool.eq_iff_iff]
  simp [isDelimiter]

/-- The blank is an ideographic space; in front of it a delimiter joins two words,
and a row of stars leaves no word. -/
theorem normalize_words_ideographicSpace :
    isBlank '\u3000' = true ∧
      normalize ("\n * read/write\t **".toList ++ '\u3000' :: " access */".toList) =
        "readwrite access".toList ∧
      normalize "\n * read/write\t **".toList = "readwrite".toList := by
  have h := normalize_words "\n * read/write\t **".toList " access */".toList '\u3000' (by decide)
  have hraw : normalize "\n * read/write\t **".toList = "readwrite".toList := by decide
  have hother : normalize " access */".toList = "access".toList := by decide
  refine ⟨by decide, ?_, hraw⟩
  rw [h.2.2.2.2.2, hraw, hother]
  decide

end Comment

end EnumTables
