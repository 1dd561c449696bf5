/-
The TOML values that are neither strings nor made of other values: integers,
floats, booleans, dates and times.

They are checked and not kept, so reading one gives only the text after it
and, in the end, which of the two kinds of values it was.

* **`integer?`** accepts what fits into 64 bits with a sign;
* **`float?`** accepts what a double can hold, also `inf` and `nan`; a number
  above the largest double is refused, one below the smallest is not;
* **`dateTime?`** accepts dates of the calendar and times of the day;
* **`scalar?`** accepts any of these.
-/
import EnumTables.Text.Hex
import EnumTables.Toml.Value

namespace EnumTables.Toml.Scalar

/-- The digits of a number after the first, where single underscores may stand
between digits; `n` is the number read so far and `k` how many digits. -/
def digitsTail (base : Nat) (n k : Nat) : Text → Option (Nat × Nat × Text)
  | [] => some (n, k, [])
  | '_' :: cs =>
    match cs with
    | [] => none
    | c :: cs =>
      match Text.hexValue? c with
      | some d => if d < base then digitsTail base (base * n + d) (k + 1) cs else none
      | none => none
  | c :: cs =>
    match Text.hexValue? c with
    | some d => if d < base then digitsTail base (base * n + d) (k + 1) cs else some (n, k, c :: cs)
    | none => some (n, k, c :: cs)

/-- A run of digits: the number, how many digits, and the text after it. -/
def digits? (base : Nat) : Text → Option (Nat × Nat × Text)
  | [] => none
  | c :: cs =>
    match Text.hexValue? c with
    | some d => if d < base then digitsTail base d 1 cs else none
    | none => none

/-- An optional sign: whether it is a minus, and the text after it. -/
def sign : Text → Bool × Text
  | '+' :: cs => (false, cs)
  | '-' :: cs => (true, cs)
  | cs => (false, cs)

/-- A decimal number without superfluous zeros in front. -/
def decimal? : Text → Option (Nat × Text)
  | '0' :: cs => some (0, cs)
  | cs => (digits? 10 cs).map fun (n, _, rest) => (n, rest)

/-- The smallest number that does not fit into 64 bits with a sign. -/
def integerLimit : Nat :=
  Nat.pow 2 63

/-- A number written in base 16, 8 or 2, after its letter. -/
def based? (base : Nat) (cs : Text) : Option Text :=
  match digits? base cs with
  | some (n, _, rest) => if n < integerLimit then some rest else none
  | none => none

/-- An integer of 64 bits. -/
def integer? : Text → Option Text
  | '0' :: 'x' :: cs => based? 16 cs
  | '0' :: 'o' :: cs => based? 8 cs
  | '0' :: 'b' :: cs => based? 2 cs
  | cs =>
    let (negative, unsigned) := sign cs
    match decimal? unsigned with
    | some (n, rest) =>
      if n < integerLimit || (negative && n == integerLimit) then some rest else none
    | none => none

/-- The exponent of a float. -/
def exponent? : Text → Option (Int × Text)
  | [] => none
  | e :: cs =>
    if e = 'e' ∨ e = 'E' then
      let (negative, unsigned) := sign cs
      (digits? 10 unsigned).map fun (n, _, rest) =>
        (if negative then -(n : Int) else (n : Int), rest)
    else none

/-- The smallest number that rounds to infinity as a double. -/
def tooLarge : Nat :=
  Nat.pow 2 1024 - Nat.pow 2 970

/-- Whether `n * 10 ^ e` rounds to infinity as a double.  A number is first
placed by its count of digits, so that no large power is computed. -/
def overflows (n : Nat) (e : Int) : Bool :=
  let top : Int := (Nat.toDigits 10 n).length + e
  if n = 0 then false
  else if top ≤ 308 then false
  else if 310 < top then true
  else if 0 ≤ e then tooLarge ≤ n * Nat.pow 10 e.toNat
  else tooLarge * Nat.pow 10 (-e).toNat ≤ n

/-- The word `inf` or `nan`. -/
def special? : Text → Option Text
  | 'i' :: 'n' :: 'f' :: cs => some cs
  | 'n' :: 'a' :: 'n' :: cs => some cs
  | _ => none

/-- A float with digits: a fraction, an exponent or both. -/
def digitsFloat? (cs : Text) : Option Text :=
  let (negative, unsigned) := sign cs
  let checked (n : Nat) (e : Int) (rest : Text) : Option Text :=
    if !negative && overflows n e then none else some rest
  match decimal? unsigned with
  | none => none
  | some (n, '.' :: rest) =>
    match digits? 10 rest with
    | none => none
    | some (fraction, k, rest') =>
      let n' := n * Nat.pow 10 k + fraction
      match rest' with
      | [] => checked n' (-(k : Int)) []
      | c :: _ =>
        if c = 'e' ∨ c = 'E' then
          match exponent? rest' with
          | some (e, rest'') => checked n' (e - k) rest''
          | none => none
        else checked n' (-(k : Int)) rest'
  | some (n, rest) =>
    match exponent? rest with
    | some (e, rest') => checked n e rest'
    | none => none

/-- A float. -/
def float? (cs : Text) : Option Text :=
  match digitsFloat? cs with
  | some rest => some rest
  | none => special? (sign cs).2

/-- A number of exactly `k` digits, and the text after it. -/
def fixed? : Nat → Nat → Text → Option (Nat × Text)
  | 0, n, cs => some (n, cs)
  | _ + 1, _, [] => none
  | k + 1, n, c :: cs =>
    if c.isDigit then fixed? k (10 * n + (c.toNat - '0'.toNat)) cs else none

/-- Two digits for a number between two bounds. -/
def pair? (low high : Nat) (cs : Text) : Option (Nat × Text) :=
  match fixed? 2 0 cs with
  | some (n, rest) => if low ≤ n ∧ n ≤ high then some (n, rest) else none
  | none => none

/-- The number of days of a month. -/
def daysIn (year month : Nat) : Nat :=
  if month = 2 then
    if year % 4 = 0 ∧ (year % 100 ≠ 0 ∨ year % 400 = 0) then 29 else 28
  else if month ∈ [4, 6, 9, 11] then 30
  else 31

/-- The character `c`, and the text after it. -/
def mark? (c : Char) : Text → Option Text
  | d :: cs => if d = c then some cs else none
  | [] => none

/-- A date of the calendar. -/
def date? (cs : Text) : Option Text := do
  let (year, cs) ← fixed? 4 0 cs
  let cs ← mark? '-' cs
  let (month, cs) ← pair? 1 12 cs
  let cs ← mark? '-' cs
  let (_, cs) ← pair? 1 (daysIn year month) cs
  return cs

/-- The text after an optional fraction of a second. -/
def secondFraction : Text → Text
  | '.' :: c :: cs => if c.isDigit then cs.dropWhile Char.isDigit else '.' :: c :: cs
  | cs => cs

/-- A time of the day; a minute may have a leap second. -/
def time? (cs : Text) : Option Text := do
  let (_, cs) ← pair? 0 23 cs
  let cs ← mark? ':' cs
  let (_, cs) ← pair? 0 59 cs
  let cs ← mark? ':' cs
  let (_, cs) ← pair? 0 60 cs
  return secondFraction cs

/-- The offset of a time zone. -/
def offset? : Text → Option Text
  | [] => none
  | c :: cs =>
    if c = 'Z' ∨ c = 'z' then some cs
    else if c = '+' ∨ c = '-' then do
      let (_, cs) ← pair? 0 23 cs
      let cs ← mark? ':' cs
      let (_, cs) ← pair? 0 59 cs
      return cs
    else none

/-- A date, a time, or a date and a time with an optional offset. -/
def dateTime? (cs : Text) : Option Text :=
  match date? cs with
  | none => time? cs
  | some [] => some []
  | some (c :: rest) =>
    if c = 'T' ∨ c = 't' ∨ c = ' ' then
      match time? rest with
      | none => some (c :: rest)
      | some rest' => some ((offset? rest').getD rest')
    else some (c :: rest)

/-- A boolean. -/
def boolean? : Text → Option Text
  | 't' :: 'r' :: 'u' :: 'e' :: cs => some cs
  | 'f' :: 'a' :: 'l' :: 's' :: 'e' :: cs => some cs
  | _ => none

/-- A value of one of these kinds, and the text after it. -/
def scalar? (cs : Text) : Option (Value × Text) :=
  let scalar (rest : Option Text) : Option (Value × Text) := rest.map (Value.scalar, ·)
  match cs.head? with
  | none => none
  | some c =>
    if c.isDigit || c == '+' || c == '-' then
      match dateTime? cs with
      | some rest => some (.dateTime, rest)
      | none => scalar ((float? cs).or (integer? cs))
    else scalar ((boolean? cs).or (special? cs))

end EnumTables.Toml.Scalar
