/-
The UTF-8 encoding.

Decoding goes byte by byte.  Inside a character it keeps the bounds of the
next byte; a byte outside of them ends the character without completing it,
and is then read as the first byte of another.

* **`Utf8.encode`** gives the bytes of a text;
* **`Utf8.pieces`** cuts bytes into characters and invalid pieces, each piece
  as long as it could still have become a character;
* **`Utf8.decode?`** accepts valid bytes alone, **`Utf8.decodeLossy`** writes
  U+FFFD for each invalid piece.
-/
import EnumTables.Text.Basic

namespace EnumTables

/-- Bytes, as the operating system takes names and the contents of files. -/
abbrev Bytes := List UInt8

namespace Utf8

/-- The bytes of a text. -/
def encode (cs : Text) : Bytes :=
  cs.flatMap String.utf8EncodeChar

/-- A text stands for its bytes where bytes are asked for. -/
instance : Coe Text Bytes :=
  ⟨encode⟩

/-- A character that has begun: how many bytes it still needs, the bounds of
the next one, and the bits read so far. -/
structure Partial where
  owed : Nat
  low : Nat
  high : Nat
  bits : Nat
  deriving DecidableEq, Repr

/-- What a first byte begins. -/
inductive First where
  | done (c : Char)
  | more (p : Partial)
  | invalid
  deriving DecidableEq, Repr

/-- What the byte `b` begins. -/
def first (b : Nat) : First :=
  if b < 0x80 then .done (Char.ofNat b)
  else if b < 0xC2 then .invalid
  else if b < 0xE0 then .more ⟨1, 0x80, 0xBF, b - 0xC0⟩
  else if b = 0xE0 then .more ⟨2, 0xA0, 0xBF, 0⟩
  else if b = 0xED then .more ⟨2, 0x80, 0x9F, 0xD⟩
  else if b < 0xF0 then .more ⟨2, 0x80, 0xBF, b - 0xE0⟩
  else if b = 0xF0 then .more ⟨3, 0x90, 0xBF, 0⟩
  else if b < 0xF4 then .more ⟨3, 0x80, 0xBF, b - 0xF0⟩
  else if b = 0xF4 then .more ⟨3, 0x80, 0x8F, 4⟩
  else .invalid

/-- The characters of a list of bytes, with `none` for each invalid piece,
where a character may have begun in front of them. -/
def piecesFrom : Option Partial → Bytes → List (Option Char)
  | none, [] => []
  | some _, [] => [none]
  | none, b :: bs =>
    match first b.toNat with
    | .done c => some c :: piecesFrom none bs
    | .more p => piecesFrom (some p) bs
    | .invalid => none :: piecesFrom none bs
  | some p, b :: bs =>
    if p.low ≤ b.toNat ∧ b.toNat ≤ p.high then
      let bits := 64 * p.bits + b.toNat % 64
      if p.owed ≤ 1 then some (Char.ofNat bits) :: piecesFrom none bs
      else piecesFrom (some ⟨p.owed - 1, 0x80, 0xBF, bits⟩) bs
    else
      none ::
        match first b.toNat with
        | .done c => some c :: piecesFrom none bs
        | .more q => piecesFrom (some q) bs
        | .invalid => none :: piecesFrom none bs

/-- The characters and invalid pieces of a list of bytes. -/
def pieces (bs : Bytes) : List (Option Char) :=
  piecesFrom none bs

/-- The text that valid bytes stand for. -/
def decode? (bs : Bytes) : Option Text :=
  (pieces bs).mapM id

/-- U+FFFD, which stands for what cannot be decoded. -/
def replacement : Char := '\uFFFD'

/-- The text that bytes stand for, with a replacement for each invalid
piece. -/
def decodeLossy (bs : Bytes) : Text :=
  (pieces bs).map fun c? => c?.getD replacement

end Utf8

end EnumTables
