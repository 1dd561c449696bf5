/-
Reading JSON text.

The reader takes any JSON text, not only what is written here: blanks between the
tokens, every escape, surrogate pairs, numbers and the three words.  It goes over
the text once.  The arrays and objects that are still open are kept as a stack of
frames, and a token either fits the place it is read at or the text is refused.

* **`Json.codes?`**, **`Json.characters?`** — a string, from its escapes to UTF-16
  units and from these to characters;
* **`Json.sign?`** — one token, and **`Json.step`**, what it does to the stack;
* **`Json.read?`** — the value of a whole text;
* **`Json.Value.field?`** — the value of a key.
-/
import EnumTables.Text.Hex

namespace EnumTables.Json

/-- A JSON value.  A number stands as it is written. -/
inductive Value where
  | null
  | bool (b : Bool)
  | number (literal : Text)
  | string (s : Text)
  | array (items : List Value)
  | object (fields : List (Text × Value))

namespace Value

/-- The value of a key. -/
def field? (key : Text) : Value → Option Value
  | object fields => fields.lookup key
  | _ => none

def text? : Value → Option Text
  | string s => some s
  | _ => none

/-- The text of a field that may be missing or null. -/
def optionalText? : Option Value → Option (Option Text)
  | none => some none
  | some null => some none
  | some v => v.text?.map some

def items? : Value → Option (List Value)
  | array items => some items
  | _ => none

end Value

/-! ### Strings -/

/-- What the letter behind a backslash stands for. -/
def escaped? (c : Char) : Option Char :=
  match c with
  | '"' => some '"'
  | '\\' => some '\\'
  | '/' => some '/'
  | 'b' => some '\x08'
  | 'f' => some '\x0c'
  | 'n' => some '\n'
  | 'r' => some '\r'
  | 't' => some '\t'
  | _ => none

/-- A code in front of those that follow it. -/
def prependCode (n : Nat) (codes : List Nat × Text) : List Nat × Text :=
  (n :: codes.1, codes.2)

/-- The codes of a string whose opening quote has been read, and the text behind
its closing quote.  Four hexadecimal digits give a UTF-16 unit, which may be half
of a character. -/
def codes? : Text → Option (List Nat × Text)
  | [] => none
  | c :: cs =>
    if c = '"' then some ([], cs)
    else if c = '\\' then
      match cs with
      | 'u' :: d₁ :: d₂ :: d₃ :: d₄ :: rest =>
        match Text.hexNumber? [d₁, d₂, d₃, d₄] with
        | some n => (codes? rest).map (prependCode n)
        | none => none
      | d :: rest =>
        match escaped? d with
        | some e => (codes? rest).map (prependCode e.toNat)
        | none => none
      | [] => none
    else if c.toNat < 0x20 then none
    else (codes? cs).map (prependCode c.toNat)

/-- The first unit of a surrogate pair. -/
def isHigh (n : Nat) : Bool :=
  0xD800 ≤ n && n < 0xDC00

/-- The second unit of a surrogate pair. -/
def isLow (n : Nat) : Bool :=
  0xDC00 ≤ n && n < 0xE000

/-- The code that a surrogate pair stands for. -/
def paired (high low : Nat) : Nat :=
  0x10000 + 0x400 * (high - 0xD800) + (low - 0xDC00)

/-- The characters that codes stand for.  A surrogate without its partner stands
for none. -/
def characters? : List Nat → Option Text
  | [] => some []
  | n :: ns =>
    if isHigh n then
      match ns with
      | m :: rest =>
        if isLow m then do
          let c ← Text.charOf? (paired n m)
          let cs ← characters? rest
          return c :: cs
        else none
      | [] => none
    else do
      let c ← Text.charOf? n
      let cs ← characters? ns
      return c :: cs

/-! ### Numbers and words -/

def isDigits (ds : Text) : Bool :=
  ds ≠ [] && ds.all Char.isDigit

/-- The rest of a number behind its fraction: nothing, or an exponent, which may
have a sign. -/
def isExponent : Text → Bool
  | [] => true
  | e :: '+' :: ds => (e == 'e' || e == 'E') && isDigits ds
  | e :: '-' :: ds => (e == 'e' || e == 'E') && isDigits ds
  | e :: ds => (e == 'e' || e == 'E') && isDigits ds

/-- The rest of a number behind its integral part. -/
def isFraction : Text → Bool
  | '.' :: cs => cs.takeWhile Char.isDigit ≠ [] && isExponent (cs.dropWhile Char.isDigit)
  | cs => isExponent cs

/-- A number without its sign: no digit follows a leading zero. -/
def isUnsigned : Text → Bool
  | '0' :: cs => isFraction cs
  | c :: cs => c.isDigit && isFraction (cs.dropWhile Char.isDigit)
  | [] => false

def isNumber : Text → Bool
  | '-' :: cs => isUnsigned cs
  | cs => isUnsigned cs

/-- The value of a token that is no string and no sign. -/
def scalar? (w : Text) : Option Value :=
  if w = "null".toList then some .null
  else if w = "true".toList then some (.bool true)
  else if w = "false".toList then some (.bool false)
  else if isNumber w then some (.number w)
  else none

/-! ### Tokens -/

/-- A token of JSON text. -/
inductive Sign where
  | openBracket
  | closeBracket
  | openBrace
  | closeBrace
  | comma
  | colon
  | string (s : Text)
  | scalar (value : Value)

/-- A character that numbers and words are made of. -/
def isScalarChar (c : Char) : Bool :=
  c.isAlphanum || c == '+' || c == '-' || c == '.'

/-- A character that may stand between tokens. -/
def isSpace (c : Char) : Bool :=
  c == ' ' || c == '\t' || c == '\n' || c == '\r'

/-- A string whose opening quote has been read, and the text behind it. -/
def quoted? (cs : Text) : Option (Sign × Text) :=
  match codes? cs with
  | some (codes, rest) => (characters? codes).map fun s => (.string s, rest)
  | none => none

/-- The token that is a single sign. -/
def punctuation? (c : Char) : Option Sign :=
  match c with
  | '[' => some .openBracket
  | ']' => some .closeBracket
  | '{' => some .openBrace
  | '}' => some .closeBrace
  | ',' => some .comma
  | ':' => some .colon
  | _ => none

/-- The token that starts with `c`, and the text behind it. -/
def sign? (c : Char) (cs : Text) : Option (Sign × Text) :=
  match punctuation? c with
  | some sign => some (sign, cs)
  | none =>
    if c = '"' then quoted? cs
    else
      (scalar? (c :: cs.takeWhile isScalarChar)).map fun value =>
        (.scalar value, cs.dropWhile isScalarChar)

/-! ### Values -/

/-- An array or an object that is still open, with what has been read of it, the
last first. -/
inductive Frame where
  | array (items : List Value)
  /-- The value of `key` is being read. -/
  | object (fields : List (Text × Value)) (key : Text)

/-- The place at which a token is read. -/
inductive State where
  /-- A value must come. -/
  | value (stack : List Frame)
  /-- Right behind an opening bracket. -/
  | item (stack : List Frame)
  /-- Right behind an opening brace. -/
  | field (stack : List Frame)
  /-- Behind a comma between fields. -/
  | key (fields : List (Text × Value)) (stack : List Frame)
  /-- Behind a key. -/
  | colon (fields : List (Text × Value)) (key : Text) (stack : List Frame)
  /-- A value has been read. -/
  | done (value : Value) (stack : List Frame)

/-- Reads the first token of a value. -/
def begin? (stack : List Frame) : Sign → Option State
  | .openBracket => some (.item stack)
  | .openBrace => some (.field stack)
  | .string s => some (.done (.string s) stack)
  | .scalar value => some (.done value stack)
  | _ => none

/-- Reads a token. -/
def step : State → Sign → Option State
  | .value stack, sign => begin? stack sign
  | .item stack, .closeBracket => some (.done (.array []) stack)
  | .item stack, sign => begin? (.array [] :: stack) sign
  | .field stack, .closeBrace => some (.done (.object []) stack)
  | .field stack, .string key => some (.colon [] key stack)
  | .key fields stack, .string key => some (.colon fields key stack)
  | .colon fields key stack, .colon => some (.value (.object fields key :: stack))
  | .done v (.array items :: stack), .comma => some (.value (.array (v :: items) :: stack))
  | .done v (.array items :: stack), .closeBracket =>
    some (.done (.array (v :: items).reverse) stack)
  | .done v (.object fields key :: stack), .comma => some (.key ((key, v) :: fields) stack)
  | .done v (.object fields key :: stack), .closeBrace =>
    some (.done (.object ((key, v) :: fields).reverse) stack)
  | _, _ => none

/-- What stands behind a string is shorter than the text. -/
theorem codes?_length_lt {cs rest : Text} {codes : List Nat} (h : codes? cs = some (codes, rest)) :
    rest.length < cs.length := by
  -- a code in front of others leaves the rest as it is
  have later : ∀ {n k : Nat} {ds : Text} {codes : List Nat},
      (∀ {codes}, codes? ds = some (codes, rest) → rest.length < ds.length) →
      (codes? ds).map (prependCode n) = some (codes, rest) → rest.length < ds.length + k := by
    intro n k ds codes ih h
    obtain ⟨⟨codes', rest'⟩, hcodes, heq⟩ := Option.map_eq_some_iff.mp h
    obtain ⟨-, rfl⟩ := Prod.mk.inj heq
    exact Nat.lt_add_right k (ih hcodes)
  fun_induction codes? cs generalizing codes with
  | case1 => simp at h
  | case2 cs =>
    obtain ⟨-, rfl⟩ := Prod.mk.inj (Option.some.inj h)
    exact Nat.lt_succ_self cs.length
  | case3 d₁ d₂ d₃ d₄ ds n hn hquote ih => exact later (k := 6) ih h
  | case4 => simp at h
  | case5 d ds hunit e he hquote ih => exact later (k := 2) ih h
  | case6 => simp at h
  | case7 => simp at h
  | case8 => simp at h
  | case9 c ds hquote hback hcontrol ih => exact later (k := 1) ih h

/-- What stands behind a token is no longer than the text behind its first
character. -/
theorem sign?_length_le {c : Char} {cs rest : Text} {sign : Sign}
    (h : sign? c cs = some (sign, rest)) : rest.length ≤ cs.length := by
  rw [sign?] at h
  split at h
  · obtain ⟨-, rfl⟩ := Prod.mk.inj (Option.some.inj h)
    exact Nat.le_refl cs.length
  · split at h
    · rw [quoted?] at h
      split at h
      · rename_i codes rest' hcodes
        obtain ⟨s, -, heq⟩ := Option.map_eq_some_iff.mp h
        obtain ⟨-, rfl⟩ := Prod.mk.inj heq
        exact Nat.le_of_lt (codes?_length_lt hcodes)
      · simp at h
    · obtain ⟨value, -, heq⟩ := Option.map_eq_some_iff.mp h
      obtain ⟨-, rfl⟩ := Prod.mk.inj heq
      exact (List.dropWhile_suffix isScalarChar).length_le

/-- Reads all tokens of a text. -/
def feed (state : State) (cs : Text) : Option State :=
  match _h : cs.dropWhile isSpace with
  | [] => some state
  | c :: r =>
    match _h' : sign? c r with
    | none => none
    | some (sign, rest) =>
      match step state sign with
      | none => none
      | some state' => feed state' rest
termination_by cs.length
decreasing_by
  have hle := sign?_length_le _h'
  have hsuf := (List.dropWhile_suffix (l := cs) isSpace).length_le
  rw [_h, List.length_cons] at hsuf
  omega

/-- One round of the reader. -/
theorem feed_eq (state : State) (cs : Text) :
    feed state cs =
      match cs.dropWhile isSpace with
      | [] => some state
      | c :: r =>
        match sign? c r with
        | none => none
        | some (sign, rest) =>
          match step state sign with
          | none => none
          | some state' => feed state' rest := by
  rw [feed.eq_def]
  split
  · rename_i h
    rw [h]
  · rename_i c r h
    rw [h]
    split
    · rename_i h'
      simp only [h']
    · rename_i sign rest h'
      simp only [h']

/-- The value that a text stands for. -/
def read? (cs : Text) : Option Value :=
  match feed (.value []) cs with
  | some (.done value []) => some value
  | _ => none

end EnumTables.Json
