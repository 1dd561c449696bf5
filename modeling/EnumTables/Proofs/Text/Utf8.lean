/-
Decoding undoes encoding.

The bytes of a character lead from its first byte through the bounds of each
next one to the character itself, so decoding takes them off any list of bytes
as one piece.

* **`Utf8.first_of_two`**, **`Utf8.first_of_three`**, **`Utf8.first_of_four`** —
  what the first byte of a longer character begins;
* **`Utf8.piecesFrom_utf8EncodeChar`** — the bytes of one character;
* **`Utf8.decode?_encode`** — a text is read back from its bytes.
-/
import EnumTables.Text.Utf8

namespace EnumTables.Utf8

/-! ### One byte -/

theorem first_of_two {b : Nat} (hlow : 0xC2 ≤ b) (hhigh : b < 0xE0) :
    first b = .more ⟨1, 0x80, 0xBF, b - 0xC0⟩ := by
  rw [first, if_neg (by omega), if_neg (by omega), if_pos hhigh]

/-- Behind the first byte of three the second has closer bounds where it would
give a shorter character or a surrogate. -/
theorem first_of_three {b : Nat} (hlow : 0xE0 ≤ b) (hhigh : b < 0xF0) :
    first b = .more ⟨2, if b = 0xE0 then 0xA0 else 0x80, if b = 0xED then 0x9F else 0xBF,
      b - 0xE0⟩ := by
  rw [first, if_neg (by omega), if_neg (by omega), if_neg (by omega)]
  split
  · subst b
    rfl
  · split
    · subst b
      rfl
    · rfl

/-- Behind the first byte of four the second has closer bounds where it would
give a shorter character or none. -/
theorem first_of_four {b : Nat} (hlow : 0xF0 ≤ b) (hhigh : b < 0xF5) :
    first b = .more ⟨3, if b = 0xF0 then 0x90 else 0x80, if b = 0xF4 then 0x8F else 0xBF,
      b - 0xF0⟩ := by
  rw [first, if_neg (by omega), if_neg (by omega), if_neg (by omega), if_neg (by omega),
    if_neg (by omega), if_neg (by omega)]
  split
  · subst b
    rfl
  · split
    · rw [if_neg (by omega)]
    · obtain rfl : b = 0xF4 := by omega
      rfl

/-- A first byte that begins a longer character. -/
theorem piecesFrom_of_more {b : Nat} {p : Partial} (hb : b < 256) (h : first b = .more p)
    (bs : List UInt8) : piecesFrom none (UInt8.ofNat b :: bs) = piecesFrom (some p) bs := by
  rw [piecesFrom, UInt8.toNat_ofNat_of_lt' hb, h]

/-- A byte within the bounds that is not the last of its character. -/
theorem piecesFrom_next {owed low high bits b : Nat} (hb : b < 256) (hlow : low ≤ b)
    (hhigh : b ≤ high) (bs : List UInt8) :
    piecesFrom (some ⟨owed + 2, low, high, bits⟩) (UInt8.ofNat b :: bs) =
      piecesFrom (some ⟨owed + 1, 0x80, 0xBF, 64 * bits + b % 64⟩) bs := by
  rw [piecesFrom, UInt8.toNat_ofNat_of_lt' hb, if_pos ⟨hlow, hhigh⟩]
  exact if_neg (by simp)

/-- A byte within the bounds that completes its character. -/
theorem piecesFrom_last {low high bits b : Nat} {c : Char} (hb : b < 256) (hlow : low ≤ b)
    (hhigh : b ≤ high) (hc : Char.ofNat (64 * bits + b % 64) = c) (bs : List UInt8) :
    piecesFrom (some ⟨1, low, high, bits⟩) (UInt8.ofNat b :: bs) =
      some c :: piecesFrom none bs := by
  rw [piecesFrom, UInt8.toNat_ofNat_of_lt' hb, if_pos ⟨hlow, hhigh⟩]
  exact congrArg (some · :: piecesFrom none bs) hc

/-! ### One character -/

/-- **The bytes of a character** are read as that character. -/
theorem piecesFrom_utf8EncodeChar (c : Char) (bs : List UInt8) :
    piecesFrom none (String.utf8EncodeChar c ++ bs) = some c :: piecesFrom none bs := by
  have hvalid : c.toNat < 0xD800 ∨ 0xDFFF < c.toNat ∧ c.toNat < 0x110000 := c.valid
  have hchar {n : Nat} (hn : n = c.toNat) : Char.ofNat n = c := by rw [hn, Char.ofNat_toNat]
  rw [String.utf8EncodeChar, Char.toNat_val]
  generalize c.toNat = v at hvalid hchar
  split
  · have hfirst : first v = .done c := by rw [first, if_pos (by omega), hchar rfl]
    rw [List.singleton_append, piecesFrom, UInt8.toNat_ofNat_of_lt' (by omega : v < 256), hfirst]
  split
  · have hfirst := first_of_two (b := v / 64 % 32 + 192) (by omega) (by omega)
    rw [List.cons_append, piecesFrom_of_more (by omega) hfirst, List.cons_append,
      piecesFrom_last (by omega) (by omega) (by omega) (hchar (by omega)), List.nil_append]
  split
  · have hfirst := first_of_three (b := v / 4096 % 16 + 224) (by omega) (by omega)
    rw [List.cons_append, piecesFrom_of_more (by omega) hfirst, List.cons_append,
      piecesFrom_next (by omega) (by split <;> omega) (by split <;> omega), List.cons_append,
      piecesFrom_last (by omega) (by omega) (by omega) (hchar (by omega)), List.nil_append]
  · have hfirst := first_of_four (b := v / 262144 % 8 + 240) (by omega) (by omega)
    rw [List.cons_append, piecesFrom_of_more (by omega) hfirst, List.cons_append,
      piecesFrom_next (by omega) (by split <;> omega) (by split <;> omega), List.cons_append,
      piecesFrom_next (by omega) (by omega) (by omega), List.cons_append,
      piecesFrom_last (by omega) (by omega) (by omega) (hchar (by omega)), List.nil_append]

/-! ### Texts -/

/-- The bytes of a text are read as its characters, whatever stands behind. -/
theorem pieces_encode_append (cs : Text) (bs : List UInt8) :
    pieces (encode cs ++ bs) = cs.map some ++ pieces bs := by
  induction cs with
  | nil => rfl
  | cons c cs ih =>
    rw [encode, List.flatMap_cons, List.append_assoc, pieces, piecesFrom_utf8EncodeChar]
    exact congrArg (some c :: ·) ih

theorem pieces_encode (cs : Text) : pieces (encode cs) = cs.map some := by
  rw [← List.append_nil (encode cs), pieces_encode_append]
  exact List.append_nil _

/-- **A text is read back from its bytes.** -/
theorem decode?_encode (cs : Text) : decode? (encode cs) = some cs := by
  rw [decode?, pieces_encode]
  induction cs with
  | nil => rfl
  | cons c cs ih =>
    rw [List.map_cons, List.mapM_cons, ih]
    rfl

end EnumTables.Utf8
