/-
What decoding makes of invalid bytes.

Where no character begins, a *maximal invalid piece* is taken off: the longest piece
that is a single byte or could still have become a character.  The rule speaks of
characters and their bytes alone; **`Utf8.decodes_pieces`** ties it to the byte-by-byte
reading, which keeps the bounds of the next byte instead.

The first byte of a character never continues another, so characters in front of
invalid bytes and behind them are read as they stand, and the bytes of an invalid
piece are no characters of ASCII.

* **`Utf8.Decodes`** — the characters and invalid pieces that bytes consist of;
* **`Utf8.Decodes.unique`**, **`Utf8.decodes_pieces`** — there is one such list, and
  reading finds it;
* **`Utf8.decode?_eq_some_iff`** — a text is decoded from its own bytes alone;
* **`Utf8.decodeLossy_encode_append`**, **`Utf8.decodeLossy_append_encode`** — decoding
  next to valid bytes;
* **`Utf8.filter_decodeLossy`** — the characters of ASCII stay where they are.
-/
import EnumTables.Proofs.Text.Utf8
import Mathlib.Data.List.Infix

namespace EnumTables.Utf8

variable {b : UInt8} {bs es front rest : List UInt8} {ps qs : List (Option Char)} {p : Partial}

/-! ### The bytes of a character -/

/-- A byte of a character behind its first one. -/
def Continues (b : UInt8) : Prop :=
  0x80 ≤ b.toNat ∧ b.toNat < 0xC0

theorem continues_ofNat {n : ℕ} (hlow : 0x80 ≤ n) (hhigh : n < 0xC0) :
    Continues (UInt8.ofNat n) := by
  rw [Continues, UInt8.toNat_ofNat_of_lt' (by omega : n < 256)]
  exact ⟨hlow, hhigh⟩

/-- A character is a byte that does not continue one, and bytes that do; below 0x80 it
is that byte alone. -/
theorem exists_bytes (c : Char) :
    ∃ b tail, String.utf8EncodeChar c = b :: tail ∧ ¬Continues b ∧ (∀ d ∈ tail, Continues d) ∧
      (c.toNat < 0x80 ∧ b.toNat = c.toNat ∧ tail = [] ∨ 0x80 ≤ c.toNat ∧ 0x80 ≤ b.toNat) := by
  have hvalid : c.toNat < 0xD800 ∨ 0xDFFF < c.toNat ∧ c.toNat < 0x110000 := c.valid
  rw [String.utf8EncodeChar, Char.toNat_val]
  generalize c.toNat = v at hvalid
  have hdigit (n : ℕ) : Continues (UInt8.ofNat (n % 64 + 128)) :=
    continues_ofNat (by omega) (by omega)
  have hlead {n : ℕ} (hn : n < 256) (h : n < 0x80 ∨ 0xC0 ≤ n) : ¬Continues (UInt8.ofNat n) := by
    rw [Continues, UInt8.toNat_ofNat_of_lt' hn]
    omega
  have hge {n : ℕ} (hn : n < 256) (h : 0x80 ≤ n) : 0x80 ≤ (UInt8.ofNat n).toNat := by
    rw [UInt8.toNat_ofNat_of_lt' hn]
    exact h
  split
  · refine ⟨_, _, rfl, hlead (by omega) (by omega), by simp, .inl ⟨by omega, ?_, rfl⟩⟩
    exact UInt8.toNat_ofNat_of_lt' (by omega : v < 256)
  split
  · exact ⟨_, _, rfl, hlead (by omega) (by omega), List.forall_mem_singleton.mpr (hdigit v),
      .inr ⟨by omega, hge (by omega) (by omega)⟩⟩
  split
  · refine ⟨_, _, rfl, hlead (by omega) (by omega), ?_, .inr ⟨by omega, hge (by omega) (by omega)⟩⟩
    exact List.forall_mem_cons.mpr ⟨hdigit _, List.forall_mem_singleton.mpr (hdigit v)⟩
  · refine ⟨_, _, rfl, hlead (by omega) (by omega), ?_, .inr ⟨by omega, hge (by omega) (by omega)⟩⟩
    exact List.forall_mem_cons.mpr ⟨hdigit _, List.forall_mem_cons.mpr ⟨hdigit _,
      List.forall_mem_singleton.mpr (hdigit v)⟩⟩

/-- The first of the characters that bytes begin with is determined. -/
theorem eq_of_encodeChar_append {c d : Char}
    (h : String.utf8EncodeChar c ++ bs = String.utf8EncodeChar d ++ es) : c = d ∧ bs = es := by
  have hpieces := congrArg (piecesFrom none) h
  rw [piecesFrom_utf8EncodeChar, piecesFrom_utf8EncodeChar] at hpieces
  obtain rfl : c = d := Option.some.inj (List.cons.inj hpieces).1
  exact ⟨rfl, List.append_cancel_left h⟩

/-- A byte that continues no character stands in one only as its first. -/
theorem eq_nil_of_prefix_encodeChar {c : Char} (hb : ¬Continues b)
    (h : front ++ b :: rest <+: String.utf8EncodeChar c) : front = [] := by
  obtain ⟨lead, tail, hbytes, -, htail, -⟩ := exists_bytes c
  cases front with
  | nil => rfl
  | cons d front =>
    rw [hbytes, List.cons_append, List.cons_prefix_cons] at h
    exact absurd (htail b (h.2.subset (by simp))) hb

/-! ### The rule for invalid bytes -/

/-- What can be taken off where no character begins: a single byte, or bytes that a
character begins with. -/
def IsPiece (bs : List UInt8) : Prop :=
  bs.length = 1 ∨ bs ≠ [] ∧ ∃ c, bs <+: String.utf8EncodeChar c

/-- `front` is a maximal invalid piece in front of `rest`. -/
structure MaximalInvalid (front rest : List UInt8) : Prop where
  no_char : ∀ c, ¬String.utf8EncodeChar c <+: front ++ rest
  isPiece : IsPiece front
  longest : ∀ more, IsPiece more → more <+: front ++ rest → more.length ≤ front.length

/-- Bytes consist of these characters, with `none` for each maximal invalid piece. -/
inductive Decodes : List UInt8 → List (Option Char) → Prop
  | nil : Decodes [] []
  | char (c : Char) {bs : List UInt8} {ps : List (Option Char)} (h : Decodes bs ps) :
      Decodes (String.utf8EncodeChar c ++ bs) (some c :: ps)
  | invalid {front rest : List UInt8} {ps : List (Option Char)}
      (hfront : MaximalInvalid front rest) (h : Decodes rest ps) :
      Decodes (front ++ rest) (none :: ps)

theorem IsPiece.ne_nil (h : IsPiece bs) : bs ≠ [] := by
  rcases h with hlength | ⟨hne, -⟩
  · exact List.ne_nil_of_length_eq_add_one hlength
  · exact hne

/-- A maximal invalid piece is determined. -/
theorem MaximalInvalid.unique {front' rest' : List UInt8} (h : MaximalInvalid front rest)
    (h' : MaximalInvalid front' rest') (heq : front ++ rest = front' ++ rest') :
    front = front' ∧ rest = rest' := by
  have hlength : front.length = front'.length := by
    refine le_antisymm (h'.longest front h.isPiece ?_) (h.longest front' h'.isPiece ?_)
    · exact ⟨rest, heq⟩
    · exact ⟨rest', heq.symm⟩
  exact List.append_inj heq hlength

/-- **Bytes consist of one list** of characters and invalid pieces. -/
theorem Decodes.unique (h : Decodes bs ps) (h' : Decodes bs qs) : ps = qs := by
  induction h generalizing qs with
  | nil =>
    generalize hbs : ([] : List UInt8) = bs at h'
    cases h' with
    | nil => rfl
    | char c h' => exact absurd (List.append_eq_nil_iff.mp hbs.symm).1 String.utf8EncodeChar_ne_nil
    | invalid hfront h' =>
      exact absurd (List.append_eq_nil_iff.mp hbs.symm).1 hfront.isPiece.ne_nil
  | @char c bs ps h ih =>
    generalize hbs : String.utf8EncodeChar c ++ bs = es at h'
    cases h' with
    | nil => exact absurd (List.append_eq_nil_iff.mp hbs).1 String.utf8EncodeChar_ne_nil
    | char d h' =>
      obtain ⟨rfl, rfl⟩ := eq_of_encodeChar_append hbs
      rw [ih h']
    | invalid hfront h' => exact absurd ⟨bs, hbs⟩ (hfront.no_char c)
  | @invalid front rest ps hfront h ih =>
    generalize hbs : front ++ rest = es at h'
    cases h' with
    | nil => exact absurd (List.append_eq_nil_iff.mp hbs).1 hfront.isPiece.ne_nil
    | @char d bs qs h' => exact absurd ⟨bs, hbs.symm⟩ (hfront.no_char d)
    | invalid hfront' h' =>
      obtain ⟨rfl, rfl⟩ := hfront.unique hfront' hbs
      rw [ih h']

/-! ### Reading byte by byte -/

/-- The bytes read so far where a character has begun. -/
inductive Begun : List UInt8 → Partial → Prop
  | first {b : UInt8} {p : Partial} (h : first b.toNat = .more p) : Begun [b] p
  | next {front : List UInt8} {p : Partial} {b : UInt8} (h : Begun front p)
      (howed : ¬p.owed ≤ 1) (hb : p.low ≤ b.toNat ∧ b.toNat ≤ p.high) :
      Begun (front ++ [b]) ⟨p.owed - 1, 0x80, 0xBF, 64 * p.bits + b.toNat % 64⟩

theorem Begun.ne_nil (h : Begun front p) : front ≠ [] := by
  cases h with
  | first h => exact List.cons_ne_nil _ _
  | next h howed hb => exact List.append_ne_nil_of_right_ne_nil _ (List.cons_ne_nil _ _)

/-- Reading the bytes of a character that has begun leads to what is kept of it. -/
theorem Begun.pieces_append (h : Begun front p) (bs : List UInt8) :
    pieces (front ++ bs) = piecesFrom (some p) bs := by
  induction h generalizing bs with
  | first h => rw [List.singleton_append, pieces, piecesFrom, h]
  | next h howed hb ih =>
    rw [List.append_assoc, ih, List.singleton_append, piecesFrom, if_pos hb]
    exact if_neg howed

/-- What a byte can begin: a character of two bytes, of three or of four. -/
theorem first_eq_more {n : ℕ} (h : first n = .more p) :
    (0xC2 ≤ n ∧ n < 0xE0 ∧ p = ⟨1, 0x80, 0xBF, n - 0xC0⟩) ∨
    (0xE0 ≤ n ∧ n < 0xF0 ∧
      p = ⟨2, if n = 0xE0 then 0xA0 else 0x80, if n = 0xED then 0x9F else 0xBF, n - 0xE0⟩) ∨
    (0xF0 ≤ n ∧ n < 0xF5 ∧
      p = ⟨3, if n = 0xF0 then 0x90 else 0x80, if n = 0xF4 then 0x8F else 0xBF, n - 0xF0⟩) := by
  by_cases hone : n < 0xC2
  · rw [first] at h
    split at h
    · cases h
    · cases h
  by_cases htwo : n < 0xE0
  · rw [first_of_two (by omega) htwo] at h
    cases h
    exact .inl ⟨by omega, htwo, rfl⟩
  by_cases hthree : n < 0xF0
  · rw [first_of_three (by omega) hthree] at h
    cases h
    exact .inr (.inl ⟨by omega, hthree, rfl⟩)
  by_cases hfour : n < 0xF5
  · rw [first_of_four (by omega) hfour] at h
    cases h
    exact .inr (.inr ⟨by omega, hfour, rfl⟩)
  · rw [first, if_neg (by omega), if_neg hone, if_neg htwo, if_neg (by omega), if_neg (by omega),
      if_neg hthree, if_neg (by omega), if_neg (by omega), if_neg (by omega)] at h
    cases h

/-- A character has at most four bytes. -/
theorem Begun.owed_add_length (h : Begun front p) : 0 < p.owed ∧ p.owed + front.length ≤ 4 := by
  induction h with
  | first h =>
    obtain ⟨-, -, rfl⟩ | ⟨-, -, rfl⟩ | ⟨-, -, rfl⟩ := first_eq_more h <;> simp
  | next h howed hb ih =>
    rw [List.length_append, List.length_singleton]
    dsimp only
    omega

/-- The bytes of the character with a number. -/
theorem utf8EncodeChar_ofNat {v : ℕ} (hv : v < 0xD800 ∨ 0xDFFF < v ∧ v < 0x110000) :
    String.utf8EncodeChar (Char.ofNat v) =
      if v ≤ 0x7F then [UInt8.ofNat v]
      else if v ≤ 0x7FF then [UInt8.ofNat (v / 64 % 32 + 192), UInt8.ofNat (v % 64 + 128)]
      else if v ≤ 0xFFFF then [UInt8.ofNat (v / 4096 % 16 + 224),
        UInt8.ofNat (v / 64 % 64 + 128), UInt8.ofNat (v % 64 + 128)]
      else [UInt8.ofNat (v / 262144 % 8 + 240), UInt8.ofNat (v / 4096 % 64 + 128),
        UInt8.ofNat (v / 64 % 64 + 128), UInt8.ofNat (v % 64 + 128)] := by
  have hval : (Char.ofNat v).val.toNat = v := by
    rw [Char.ofNat, dif_pos hv]
    rfl
  simp only [String.utf8EncodeChar, hval]

theorem ofNat_eq {n : ℕ} (h : n = b.toNat) : UInt8.ofNat n = b := by
  rw [h, UInt8.ofNat_toNat]

/-- **The last byte** completes a character. -/
theorem Begun.utf8EncodeChar_eq (h : Begun front p) (howed : p.owed ≤ 1)
    (hb : p.low ≤ b.toNat ∧ b.toNat ≤ p.high) :
    String.utf8EncodeChar (Char.ofNat (64 * p.bits + b.toNat % 64)) = front ++ [b] := by
  cases h with
  | @first x _ hx =>
    -- two bytes
    obtain ⟨hlow, hhigh, rfl⟩ | ⟨-, -, rfl⟩ | ⟨-, -, rfl⟩ := first_eq_more hx
    · simp only at hb ⊢
      rw [utf8EncodeChar_ofNat (by omega), if_neg (by omega), if_pos (by omega),
        ofNat_eq (b := x) (by omega), ofNat_eq (b := b) (by omega)]
      rfl
    · simp at howed
    · simp at howed
  | @next _ _ y h hnext hy =>
    cases h with
    | @first x _ hx =>
      -- three bytes
      obtain ⟨-, -, rfl⟩ | ⟨hlow, hhigh, rfl⟩ | ⟨-, -, rfl⟩ := first_eq_more hx
      · simp at hnext
      · simp only at hb hy ⊢
        have hvalid : (x.toNat = 0xE0 → 0xA0 ≤ y.toNat) ∧ (x.toNat = 0xED → y.toNat ≤ 0x9F) ∧
            0x80 ≤ y.toNat ∧ y.toNat ≤ 0xBF := by
          split at hy <;> split at hy <;> omega
        rw [utf8EncodeChar_ofNat (by omega), if_neg (by omega), if_neg (by omega),
          if_pos (by omega), ofNat_eq (b := x) (by omega), ofNat_eq (b := y) (by omega),
          ofNat_eq (b := b) (by omega)]
        rfl
      · simp at howed
    | @next _ _ z h hnext' hz =>
      cases h with
      | @first x _ hx =>
        -- four bytes
        obtain ⟨-, -, rfl⟩ | ⟨-, -, rfl⟩ | ⟨hlow, hhigh, rfl⟩ := first_eq_more hx
        · simp at hnext'
        · simp at hnext
        · simp only at hb hy hz ⊢
          have hvalid : (x.toNat = 0xF0 → 0x90 ≤ z.toNat) ∧ (x.toNat = 0xF4 → z.toNat ≤ 0x8F) ∧
              0x80 ≤ z.toNat ∧ z.toNat ≤ 0xBF := by
            split at hz <;> split at hz <;> omega
          rw [utf8EncodeChar_ofNat (by omega), if_neg (by omega), if_neg (by omega),
            if_neg (by omega), ofNat_eq (b := x) (by omega), ofNat_eq (b := z) (by omega),
            ofNat_eq (b := y) (by omega), ofNat_eq (b := b) (by omega)]
          rfl
      | next h hnext'' _ =>
        have hlength := h.owed_add_length
        have hpos := List.length_pos_of_ne_nil h.ne_nil
        simp only at hnext hnext'
        omega

/-- Some byte is within the bounds. -/
theorem Begun.low_le_high (h : Begun front p) : p.low ≤ p.high ∧ p.high < 256 := by
  cases h with
  | first h =>
    obtain ⟨-, -, rfl⟩ | ⟨-, -, rfl⟩ | ⟨-, -, rfl⟩ := first_eq_more h
    · simp
    · dsimp only
      split <;> split <;> omega
    · dsimp only
      split <;> split <;> omega
  | next h howed hb => simp

/-- Where a character has begun, one begins with the bytes so far. -/
theorem Begun.exists_char (h : Begun front p) : ∃ c, front <+: String.utf8EncodeChar c := by
  -- by induction on the bytes owed: the least byte within the bounds comes next
  induction hn : p.owed generalizing front p with
  | zero =>
    have hpos := h.owed_add_length.1
    omega
  | succ n ih =>
    obtain ⟨hbounds, hhigh⟩ := h.low_le_high
    have hbyte : (UInt8.ofNat p.low).toNat = p.low :=
      UInt8.toNat_ofNat_of_lt' (by omega : p.low < 256)
    have hb : p.low ≤ (UInt8.ofNat p.low).toNat ∧ (UInt8.ofNat p.low).toNat ≤ p.high := by omega
    by_cases howed : p.owed ≤ 1
    · exact ⟨_, [UInt8.ofNat p.low], (h.utf8EncodeChar_eq howed hb).symm⟩
    · have hrest : p.owed - 1 = n := by omega
      obtain ⟨c, hc⟩ := ih (h.next howed hb) hrest
      exact ⟨c, (List.prefix_append _ _).trans hc⟩

/-- What is read as an invalid piece does not begin with a character. -/
theorem not_prefix_of_pieces (h : pieces bs = none :: ps) (c : Char) :
    ¬String.utf8EncodeChar c <+: bs := by
  rintro ⟨es, rfl⟩
  rw [pieces, piecesFrom_utf8EncodeChar] at h
  cases h

/-- What is read as an invalid piece whatever comes next does not go on to a character. -/
theorem not_prefix_encodeChar (h : ∀ es, ∃ ps, pieces (front ++ es) = none :: ps) (c : Char) :
    ¬front <+: String.utf8EncodeChar c := by
  rintro ⟨es, hes⟩
  obtain ⟨ps, hps⟩ := h es
  exact not_prefix_of_pieces hps c (hes ▸ List.prefix_rfl)

/-- A piece is maximal where the next byte does not belong to it. -/
theorem maximalInvalid_of_pieces (hpieces : pieces (front ++ rest) = none :: ps)
    (hfront : IsPiece front)
    (hstop : ∀ b es, rest = b :: es → ∀ c, ¬front ++ [b] <+: String.utf8EncodeChar c) :
    MaximalInvalid front rest := by
  refine ⟨not_prefix_of_pieces hpieces, hfront, fun more hmore hbegin => ?_⟩
  by_contra hlonger
  obtain ⟨t, rfl⟩ : front <+: more :=
    List.prefix_of_prefix_length_le (List.prefix_append _ _) hbegin (by omega)
  cases t with
  | nil => simp at hlonger
  | cons b t =>
    obtain ⟨es, hes⟩ := (List.prefix_append_right_inj front).mp hbegin
    rcases hmore with hlength | ⟨-, c, hc⟩
    · have hpos := List.length_pos_of_ne_nil hfront.ne_nil
      rw [List.length_append, List.length_cons] at hlength
      omega
    · refine hstop b (t ++ es) hes.symm c (List.IsPrefix.trans ?_ hc)
      exact ⟨t, by rw [List.append_assoc, List.singleton_append]⟩

theorem utf8EncodeChar_of_first {c : Char} (h : first b.toNat = .done c) :
    String.utf8EncodeChar c = [b] := by
  rw [first] at h
  by_cases hb : b.toNat < 0x80
  · rw [if_pos hb] at h
    cases h
    rw [utf8EncodeChar_ofNat (by omega), if_pos (by omega), UInt8.ofNat_toNat]
  · rw [if_neg hb] at h
    split_ifs at h

/-- **A list of bytes is read** as what it consists of, where a character may have begun in
front of it. -/
theorem decodes_piecesFrom (bs : List UInt8) :
    Decodes bs (piecesFrom none bs) ∧
      ∀ front p, Begun front p → Decodes (front ++ bs) (piecesFrom (some p) bs) := by
  have hpiece {front : List UInt8} {p : Partial} (h : Begun front p) : IsPiece front :=
    .inr ⟨h.ne_nil, h.exists_char⟩
  induction bs with
  | nil =>
    refine ⟨.nil, fun front p h => .invalid ?_ .nil⟩
    refine maximalInvalid_of_pieces (h.pieces_append []) (hpiece h) ?_
    rintro b es ⟨⟩
  | cons b bs ih =>
    have hfirst : Decodes (b :: bs) (piecesFrom none (b :: bs)) := by
      cases hb : first b.toNat with
      | done c =>
        rw [piecesFrom, hb, ← List.singleton_append, ← utf8EncodeChar_of_first hb]
        exact .char c ih.1
      | more p =>
        rw [piecesFrom, hb]
        exact ih.2 [b] p (.first hb)
      | invalid =>
        have hread (es : List UInt8) : pieces (b :: es) = none :: piecesFrom none es := by
          rw [pieces, piecesFrom, hb]
        rw [← pieces, hread]
        have hb : MaximalInvalid [b] bs := by
          refine maximalInvalid_of_pieces (hread bs) (.inl rfl) fun d es _ => ?_
          exact not_prefix_encodeChar fun es => ⟨_, hread (d :: es)⟩
        exact .invalid hb ih.1
    refine ⟨hfirst, fun front p h => ?_⟩
    by_cases hb : p.low ≤ b.toNat ∧ b.toNat ≤ p.high
    · by_cases howed : p.owed ≤ 1
      · have hread : piecesFrom (some p) (b :: bs) =
            some (Char.ofNat (64 * p.bits + b.toNat % 64)) :: piecesFrom none bs := by
          rw [piecesFrom, if_pos hb]
          exact if_pos howed
        rw [hread, List.append_cons, ← h.utf8EncodeChar_eq howed hb]
        exact .char _ ih.1
      · have hnext := h.next howed hb
        rw [← h.pieces_append, List.append_cons, hnext.pieces_append]
        exact ih.2 _ _ hnext
    · -- the byte ends the piece in front of it, and is read as a first one
      have hread (es : List UInt8) :
          pieces (front ++ b :: es) = none :: piecesFrom none (b :: es) := by
        rw [h.pieces_append]
        exact if_neg hb
      rw [← h.pieces_append, hread]
      refine .invalid (maximalInvalid_of_pieces (hread bs) (hpiece h) ?_) hfirst
      rintro d es ⟨⟩
      refine not_prefix_encodeChar fun es => ⟨piecesFrom none (b :: es), ?_⟩
      rw [← List.append_cons]
      exact hread es

/-- **Bytes are read as what they consist of.** -/
theorem decodes_pieces (bs : List UInt8) : Decodes bs (pieces bs) :=
  (decodes_piecesFrom bs).1

-- a character cut off by another, and a surrogate, which no byte behind the first belongs to
example : pieces [0xF0, 0x90, 0x41, 0xED, 0xA0] = [none, some 'A', none, none] := by decide

theorem Decodes.eq_pieces (h : Decodes bs ps) : ps = pieces bs :=
  h.unique (decodes_pieces bs)

/-! ### Valid bytes -/

theorem Decodes.eq_encode {cs : Text} (h : Decodes bs (cs.map some)) : bs = encode cs := by
  generalize hps : cs.map some = ps at h
  induction h generalizing cs with
  | nil =>
    rw [List.map_eq_nil_iff.mp hps]
    rfl
  | char c h ih =>
    obtain ⟨_, cs, rfl, hc, hcs⟩ := List.map_eq_cons_iff.mp hps
    obtain rfl := Option.some.inj hc
    rw [ih hcs]
    rfl
  | invalid hfront h ih =>
    obtain ⟨_, _, _, hc, -⟩ := List.map_eq_cons_iff.mp hps
    cases hc

theorem eq_map_some_of_mapM {cs : Text} (h : ps.mapM id = some cs) : ps = cs.map some := by
  induction ps generalizing cs with
  | nil =>
    cases h
    rfl
  | cons c? ps ih =>
    rw [List.mapM_cons] at h
    obtain ⟨c, hc, h⟩ := Option.bind_eq_some_iff.mp h
    obtain ⟨cs', hcs', h⟩ := Option.bind_eq_some_iff.mp h
    obtain rfl : c :: cs' = cs := Option.some.inj h
    rw [ih hcs']
    exact congrArg (· :: cs'.map some) hc

/-- **A text is decoded from its own bytes alone.** -/
theorem decode?_eq_some_iff {cs : Text} : decode? bs = some cs ↔ bs = encode cs := by
  constructor
  · intro h
    have hpieces : pieces bs = cs.map some := eq_map_some_of_mapM h
    exact Decodes.eq_encode (hpieces ▸ decodes_pieces bs)
  · rintro rfl
    exact decode?_encode cs

/-- What stands in front ends within the first part or goes on behind it. -/
theorem prefix_or_of_prefix_append_cons {more : List UInt8} (h : more <+: bs ++ b :: es) :
    more <+: bs ∨ bs ++ [b] <+: more := by
  have hfront : bs ++ [b] <+: bs ++ b :: es := ⟨es, by simp⟩
  by_cases hlength : more.length ≤ bs.length
  · exact .inl (List.prefix_of_prefix_length_le h (List.prefix_append _ _) hlength)
  · refine .inr (List.prefix_of_prefix_length_le hfront h ?_)
    rw [List.length_append, List.length_singleton]
    omega

/-- A byte that continues no character does not change what is invalid in front of it. -/
theorem MaximalInvalid.append_cons (h : MaximalInvalid front rest) (hb : ¬Continues b)
    (es : List UInt8) : MaximalInvalid front (rest ++ b :: es) := by
  have hne : front ++ rest ≠ [] := List.append_ne_nil_of_left_ne_nil h.isPiece.ne_nil rest
  have hbehind (c : Char) : ¬front ++ rest ++ [b] <+: String.utf8EncodeChar c :=
    fun hc => hne (eq_nil_of_prefix_encodeChar hb hc)
  refine ⟨fun c hc => ?_, h.isPiece, fun more hmore hbegin => ?_⟩
  · rw [← List.append_assoc] at hc
    rcases prefix_or_of_prefix_append_cons hc with hc | hc
    · exact h.no_char c hc
    · exact hbehind c hc
  · rw [← List.append_assoc] at hbegin
    rcases prefix_or_of_prefix_append_cons hbegin with hbegin | hbegin
    · exact h.longest more hmore hbegin
    · rcases hmore with hone | ⟨-, c, hc⟩
      · have hlength := hbegin.length_le
        have hpos := List.length_pos_of_ne_nil hne
        rw [List.length_append, List.length_singleton] at hlength
        omega
      · exact absurd (hbegin.trans hc) (hbehind c)

theorem Decodes.append_encode (h : Decodes bs ps) (cs : Text) :
    Decodes (bs ++ encode cs) (ps ++ cs.map some) := by
  induction h with
  | nil => exact pieces_encode cs ▸ decodes_pieces (encode cs)
  | char c h ih =>
    rw [List.append_assoc]
    exact .char c ih
  | invalid hfront h ih =>
    rw [List.append_assoc]
    refine .invalid ?_ ih
    cases cs with
    | nil => simpa [encode] using hfront
    | cons c cs =>
      obtain ⟨b, tail, hbytes, hb, -⟩ := exists_bytes c
      rw [encode, List.flatMap_cons, hbytes, List.cons_append]
      exact hfront.append_cons hb _

theorem map_getD_map_some (cs : Text) : (cs.map some).map (·.getD replacement) = cs := by
  rw [List.map_map]
  exact List.map_id cs

theorem decodeLossy_encode (cs : Text) : decodeLossy (encode cs) = cs := by
  rw [decodeLossy, pieces_encode, map_getD_map_some]

/-- **Behind valid bytes** decoding goes on as if they were not there. -/
theorem decodeLossy_encode_append (cs : Text) (bs : List UInt8) :
    decodeLossy (encode cs ++ bs) = cs ++ decodeLossy bs := by
  rw [decodeLossy, pieces_encode_append, List.map_append, map_getD_map_some]
  rfl

/-- **In front of valid bytes** decoding ends as if they were not there. -/
theorem decodeLossy_append_encode (bs : List UInt8) (cs : Text) :
    decodeLossy (bs ++ encode cs) = decodeLossy bs ++ cs := by
  rw [decodeLossy, ← ((decodes_pieces bs).append_encode cs).eq_pieces, List.map_append,
    map_getD_map_some]
  rfl

/-! ### Characters of ASCII -/

/-- A character of ASCII is one byte, and no other one has a byte of ASCII. -/
theorem encodeChar_ascii (c : Char) :
    c.toNat < 0x80 ∧ String.utf8EncodeChar c = [UInt8.ofNat c.toNat] ∨
      0x80 ≤ c.toNat ∧ ∀ b ∈ String.utf8EncodeChar c, 0x80 ≤ b.toNat := by
  obtain ⟨b, tail, hbytes, -, htail, ⟨hc, hb, rfl⟩ | ⟨hc, hb⟩⟩ := exists_bytes c
  · rw [← hb, UInt8.ofNat_toNat]
    exact .inl ⟨hb ▸ hc, hbytes⟩
  · rw [hbytes]
    exact .inr ⟨hc, List.forall_mem_cons.mpr ⟨hb, fun d hd => (htail d hd).1⟩⟩

/-- No byte of ASCII is part of an invalid piece. -/
theorem MaximalInvalid.le_toNat (h : MaximalInvalid front rest) : ∀ b ∈ front, 0x80 ≤ b.toNat := by
  have hone (b : UInt8) (hfront : front = [b]) : 0x80 ≤ b.toNat := by
    by_contra hb
    refine h.no_char (Char.ofNat b.toNat) ⟨rest, ?_⟩
    rw [utf8EncodeChar_ofNat (by omega), if_pos (by omega), UInt8.ofNat_toNat, hfront]
  rcases h.isPiece with hlength | ⟨hne, c, hc⟩
  · obtain ⟨b, hb⟩ := List.length_eq_one_iff.mp hlength
    rw [hb]
    exact List.forall_mem_singleton.mpr (hone b hb)
  · rcases encodeChar_ascii c with ⟨-, hbytes⟩ | ⟨-, hbytes⟩
    · rw [hbytes] at hc
      obtain rfl | ⟨t, rfl, ht⟩ := List.prefix_cons_iff.mp hc
      · exact absurd rfl hne
      · rw [List.prefix_nil.mp ht]
        exact List.forall_mem_singleton.mpr (hone _ (by rw [List.prefix_nil.mp ht]))
    · exact fun b hb => hbytes b (hc.subset hb)

/-- **The characters of ASCII** are those of the bytes, in their order. -/
theorem filter_decodeLossy (bs : List UInt8) :
    (decodeLossy bs).filter (·.toNat < 0x80) =
      (bs.filter (·.toNat < 0x80)).map (Char.ofNat ·.toNat) := by
  have h : Decodes bs (pieces bs) := decodes_pieces bs
  rw [decodeLossy]
  generalize pieces bs = ps at h
  induction h with
  | nil => rfl
  | @char c bs ps h ih =>
    rw [List.map_cons, List.filter_append, List.map_append, ← ih, Option.getD_some]
    rcases encodeChar_ascii c with ⟨hc, hbytes⟩ | ⟨hc, hbytes⟩
    · have hbyte : (UInt8.ofNat c.toNat).toNat = c.toNat :=
        UInt8.toNat_ofNat_of_lt' (by omega : c.toNat < 256)
      rw [hbytes, List.filter_cons_of_pos (by simpa using hc),
        List.filter_cons_of_pos (by simpa only [hbyte, decide_eq_true_eq] using hc),
        List.filter_nil, List.map_singleton, hbyte, Char.ofNat_toNat, List.singleton_append]
    · have hnone : (String.utf8EncodeChar c).filter (·.toNat < 0x80) = [] := by
        rw [List.filter_eq_nil_iff]
        intro b hb
        simpa using hbytes b hb
      rw [hnone, List.map_nil, List.nil_append]
      exact List.filter_cons_of_neg (by simpa using hc)
  | @invalid front rest ps hfront h ih =>
    have hnone : front.filter (·.toNat < 0x80) = [] := by
      rw [List.filter_eq_nil_iff]
      intro b hb
      simpa using hfront.le_toNat b hb
    rw [List.filter_append, hnone, List.nil_append, ← ih, List.map_cons]
    exact List.filter_cons_of_neg (by decide)

end EnumTables.Utf8
