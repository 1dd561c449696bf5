/-
The JSON text of a document is lossless.

Reading undoes writing, one level at a time: a character comes back from its
escape, a string from its characters, a value from its pretty text and a document
from its value.  At each level what stands behind in the text is left alone, so the
levels can be put on top of each other.

* **`Json.codes?_escape`**, **`Json.quoted?_quote`** — characters and strings;
* **`Json.feed_prettyAt`** — values, at any depth and in any open array or object;
* **`Document.ofValue?_toJson`** — documents from their values;
* **`json_lossless`** — documents from their texts.
-/
import EnumTables.Document
import EnumTables.Proofs.Json.Reader
import Mathlib.Logic.Function.Basic

namespace EnumTables

namespace Json

/-! ### Strings -/

theorem hexNumber?_of_lt : ∀ n < 0x20,
    Text.hexNumber? ['0', '0', Nat.digitChar (n / 16), Nat.digitChar (n % 16)] = some n := by
  decide

/-- A character is read back from its escape. -/
theorem codes?_escape (c : Char) (cs : Text) :
    codes? (escape c ++ cs) = (codes? cs).map (prependCode c.toNat) := by
  unfold escape
  split
  -- seven characters have an escape of their own
  · rfl
  · rfl
  · rfl
  · rfl
  · rfl
  · rfl
  · rfl
  · rename_i hquote hback _ _ _ _ _
    split
    · rename_i hcontrol
      have hn := hexNumber?_of_lt c.toNat hcontrol
      simp [codes?, hn]
    · rename_i hcontrol
      rw [List.singleton_append, codes?.eq_def]
      simp only [if_neg hquote, if_neg hback, if_neg hcontrol]

theorem codes?_flatMap_escape (s rest : Text) :
    codes? (s.flatMap escape ++ '"' :: rest) = some (s.map Char.toNat, rest) := by
  induction s with
  | nil =>
    rw [List.flatMap_nil, List.nil_append, codes?.eq_def]
    rfl
  | cons c s ih =>
    rw [List.flatMap_cons, List.append_assoc, codes?_escape, ih]
    rfl

theorem isHigh_toNat (c : Char) : isHigh c.toNat = false := by
  have hvalid : c.toNat < 0xD800 ∨ 0xDFFF < c.toNat ∧ c.toNat < 0x110000 := c.valid
  rw [isHigh, Bool.and_eq_false_iff, decide_eq_false_iff_not, decide_eq_false_iff_not]
  omega

/-- No character is half of a surrogate pair. -/
theorem characters?_map_toNat (s : Text) : characters? (s.map Char.toNat) = some s := by
  induction s with
  | nil => rfl
  | cons c s ih =>
    rw [List.map_cons, characters?.eq_def]
    simp [isHigh_toNat, Text.charOf?_toNat, ih]

/-- A string is read back from its quotes. -/
theorem quoted?_quote (s rest : Text) :
    quoted? (s.flatMap escape ++ '"' :: rest) = some (.string s, rest) := by
  rw [quoted?, codes?_flatMap_escape]
  simp only [characters?_map_toNat, Option.map_some]

/-! ### Tokens -/

section

variable {state state' : State} {c : Char} {cs rest : Text} {sign : Sign}

theorem feed_nil (state : State) : feed state [] = some state := by
  rw [feed]
  rfl

theorem feed_space (hc : isSpace c = true) (state : State) (cs : Text) :
    feed state (c :: cs) = feed state cs := by
  rw [feed_eq state (c :: cs), List.dropWhile_cons_of_pos hc, ← feed_eq]

theorem feed_sign (hc : ¬ isSpace c = true) (hsign : sign? c cs = some (sign, rest))
    (hstep : step state sign = some state') : feed state (c :: cs) = feed state' rest := by
  rw [feed_eq, List.dropWhile_cons_of_neg hc]
  simp only [hsign, hstep]

theorem feed_quote {s : Text} (hstep : step state (.string s) = some state') (rest : Text) :
    feed state (quote s ++ rest) = feed state' rest := by
  have hsign : sign? '"' (s.flatMap escape ++ '"' :: rest) = some (.string s, rest) :=
    quoted?_quote s rest
  rw [quote, List.append_assoc, List.cons_append, List.singleton_append]
  exact feed_sign (by decide) hsign hstep

theorem feed_newline (state : State) (depth : Nat) (rest : Text) :
    feed state (newline depth ++ rest) = feed state rest := by
  rw [newline, List.cons_append, feed_space rfl]
  induction 2 * depth with
  | zero => rfl
  | succ n ih => rw [List.replicate_succ, List.cons_append, feed_space rfl, ih]

/-- A key with its colon and the blank behind it. -/
theorem feed_key {fields : List (Text × Value)} {key : Text} {stack : List Frame}
    (hstep : step state (.string key) = some (.colon fields key stack)) (rest : Text) :
    feed state (quote key ++ ':' :: ' ' :: rest) =
      feed (.value (.object fields key :: stack)) rest := by
  rw [feed_quote hstep]
  have hcolon : sign? ':' (' ' :: rest) = some (.colon, ' ' :: rest) := rfl
  rw [feed_sign (by decide) hcolon rfl, feed_space rfl]

end

/-! ### Values -/

mutual

/-- What a reader makes of a written value. -/
def toValue : Json → Value
  | .string s => .string s
  | .array items => .array (toValues items)
  | .object fields => .object (toFields fields)

def toValues : List Json → List Value
  | [] => []
  | item :: items => item.toValue :: toValues items

def toFields : List (Text × Json) → List (Text × Value)
  | [] => []
  | (key, value) :: fields => (key, value.toValue) :: toFields fields

end

/-- A value may begin at this place, inside the frames of `stack`. -/
def Begins (state : State) (stack : List Frame) : Prop :=
  ∀ {sign : Sign}, sign ≠ .closeBracket → step state sign = begin? stack sign

theorem begins_value (stack : List Frame) : Begins (.value stack) stack := by
  intro sign _
  rfl

theorem begins_item (stack : List Frame) : Begins (.item stack) (.array [] :: stack) := by
  intro sign hsign
  cases sign with
  | closeBracket => exact absurd rfl hsign
  | _ => rfl

mutual

/-- A value is read back from its text, whatever is open around it and whatever
stands behind it. -/
theorem feed_prettyAt {state : State} {stack : List Frame} (hbegin : Begins state stack)
    (depth : Nat) (value : Json) (rest : Text) :
    feed state (prettyAt depth value ++ rest) = feed (.done value.toValue stack) rest := by
  match value with
  | .string s =>
    rw [prettyAt, toValue]
    exact feed_quote (hbegin (by simp)) rest
  | .array [] =>
    rw [prettyAt, toValue, toValues]
    exact (feed_sign (by decide) rfl (hbegin (by simp))).trans (feed_sign (by decide) rfl rfl)
  | .array (item :: items) =>
    -- the first item stands behind the bracket, the others behind a comma
    rw [prettyAt, toValue, toValues]
    simp only [List.append_assoc, List.cons_append, List.nil_append]
    rw [feed_sign (by decide) rfl (hbegin (by simp)), feed_newline,
      feed_prettyAt (begins_item stack), feed_prettyItems]
    rfl
  | .object [] =>
    rw [prettyAt, toValue, toFields]
    exact (feed_sign (by decide) rfl (hbegin (by simp))).trans (feed_sign (by decide) rfl rfl)
  | .object ((key, value) :: fields) =>
    rw [prettyAt, toValue, toFields]
    simp only [List.append_assoc, List.cons_append, List.nil_append]
    rw [feed_sign (by decide) rfl (hbegin (by simp)), feed_newline, feed_key rfl,
      feed_prettyAt (begins_value _), feed_prettyFields]
    rfl

/-- The items of an array behind one that has been read. -/
theorem feed_prettyItems (depth outer : Nat) (items : List Json) (last : Value)
    (before : List Value) (stack : List Frame) (rest : Text) :
    feed (.done last (.array before :: stack))
        (prettyItems depth items ++ (newline outer ++ ']' :: rest)) =
      feed (.done (.array ((last :: before).reverse ++ toValues items)) stack) rest := by
  match items with
  | [] =>
    rw [prettyItems, toValues, List.nil_append, List.append_nil, feed_newline]
    exact feed_sign (by decide) rfl rfl
  | item :: items =>
    rw [prettyItems, toValues]
    simp only [List.append_assoc, List.cons_append]
    rw [feed_sign (by decide) rfl rfl, feed_newline, feed_prettyAt (begins_value _),
      feed_prettyItems]
    simp

/-- The fields of an object behind one that has been read. -/
theorem feed_prettyFields (depth outer : Nat) (fields : List (Text × Json)) (last : Value)
    (before : List (Text × Value)) (key : Text) (stack : List Frame) (rest : Text) :
    feed (.done last (.object before key :: stack))
        (prettyFields depth fields ++ (newline outer ++ '}' :: rest)) =
      feed (.done (.object (((key, last) :: before).reverse ++ toFields fields)) stack) rest := by
  match fields with
  | [] =>
    rw [prettyFields, toFields, List.nil_append, List.append_nil, feed_newline]
    exact feed_sign (by decide) rfl rfl
  | (key', value) :: fields =>
    rw [prettyFields, toFields]
    simp only [List.append_assoc, List.cons_append, List.nil_append]
    rw [feed_sign (by decide) rfl rfl, feed_newline, feed_key rfl,
      feed_prettyAt (begins_value _), feed_prettyFields]
    simp

end

/-- A value is read back from its text, also with blanks behind it. -/
theorem read?_pretty (value : Json) (blanks : Text) (hblanks : ∀ c ∈ blanks, isSpace c = true) :
    read? (value.pretty ++ blanks) = some value.toValue := by
  have hfeed : ∀ state, feed state blanks = some state := by
    intro state
    induction blanks with
    | nil => exact feed_nil state
    | cons c blanks ih =>
      rw [List.forall_mem_cons] at hblanks
      rw [feed_space hblanks.1, ih hblanks.2]
  rw [read?, pretty, feed_prettyAt (begins_value []), hfeed]

end Json

/-! ### Documents -/

/-- The schema with a name. -/
def Schema.ofName? (name : Text) : Option Schema :=
  if name = "named_only".toList then some .namedOnly
  else if name = "named_valued".toList then some .namedValued
  else none

/-- The row that a value stands for.  Its field `value` may be missing. -/
def Row.ofValue? (v : Json.Value) : Option Row := do
  let constant ← (← v.field? "constant".toList).text?
  let value ← Json.Value.optionalText? (v.field? "value".toList)
  let comment ← (← v.field? "comment".toList).text?
  return ⟨constant, value, comment⟩

/-- The table that a value stands for. -/
def Table.ofValue? (v : Json.Value) : Option Table := do
  let enumName ← (← v.field? "enum_name".toList).text?
  let schema ← Schema.ofName? (← (← v.field? "schema".toList).text?)
  let rows ← (← (← v.field? "rows".toList).items?).mapM Row.ofValue?
  return ⟨enumName, schema, rows⟩

/-- The document that a value stands for. -/
def Document.ofValue? (v : Json.Value) : Option Document := do
  let source ← (← v.field? "source".toList).text?
  let tables ← (← (← v.field? "tables".toList).items?).mapM Table.ofValue?
  return ⟨source, tables⟩

/-- The document that a JSON text stands for. -/
def Document.ofJson? (text : Text) : Option Document := do
  Document.ofValue? (← Json.read? text)

/-- A list is read back if its items are. -/
theorem mapM_ofValue?_toValues {α : Type} {ofValue? : Json.Value → Option α} {toJson : α → Json}
    (h : ∀ a, ofValue? (toJson a).toValue = some a) (l : List α) :
    (Json.toValues (l.map toJson)).mapM ofValue? = some l := by
  induction l with
  | nil => rfl
  | cons a l ih =>
    rw [List.map_cons, Json.toValues, List.mapM_cons, h a, ih]
    rfl

theorem Schema.ofName?_name (schema : Schema) : Schema.ofName? schema.name = some schema := by
  cases schema with
  | namedOnly => rfl
  | namedValued => rfl

theorem Row.ofValue?_toJson (row : Row) : Row.ofValue? row.toJson.toValue = some row := by
  obtain ⟨constant, value, comment⟩ := row
  cases value with
  | none => rfl
  | some value => rfl

theorem Table.ofValue?_toJson (table : Table) :
    Table.ofValue? table.toJson.toValue = some table := by
  obtain ⟨enumName, schema, rows⟩ := table
  have hschema := Schema.ofName?_name schema
  have hrows := mapM_ofValue?_toValues Row.ofValue?_toJson rows
  -- the keys are looked up by evaluation; the schema and the rows are not
  show (do
    let schema ← Schema.ofName? schema.name
    let rows ← (Json.toValues (rows.map Row.toJson)).mapM Row.ofValue?
    some (⟨enumName, schema, rows⟩ : Table)) = _
  rw [hschema, hrows]
  rfl

theorem Document.ofValue?_toJson (d : Document) :
    Document.ofValue? d.toJson.toValue = some d := by
  have htables := mapM_ofValue?_toValues Table.ofValue?_toJson d.tables
  show ((Json.toValues (d.tables.map Table.toJson)).mapM Table.ofValue?).bind
    (fun tables => some (⟨d.source, tables⟩ : Document)) = _
  rw [htables]
  rfl

/-- A document is read back from its JSON text, with or without blanks behind it. -/
theorem Document.ofJson?_json (d : Document) (blanks : Text)
    (hblanks : ∀ c ∈ blanks, Json.isSpace c = true) :
    Document.ofJson? (d.json ++ blanks) = some d := by
  rw [Document.ofJson?, Document.json, Json.read?_pretty d.toJson blanks hblanks]
  exact Document.ofValue?_toJson d

/-- **The JSON text is lossless.**  Every document is read back from its JSON text,
and from the text it is shown as.  Two documents with the same JSON text are the
same. -/
theorem json_lossless :
    (∀ d : Document, Document.ofJson? d.json = some d ∧
      Document.ofJson? (d.render .json) = some d) ∧
    Function.Injective Document.json := by
  have hread : ∀ d : Document, Document.ofJson? d.json = some d := by
    intro d
    have h := Document.ofJson?_json d [] (by simp)
    rwa [List.append_nil] at h
  refine ⟨fun d => ⟨hread d, Document.ofJson?_json d ['\n'] (by simp [Json.isSpace])⟩, ?_⟩
  intro d d' heq
  have h : some d = some d' := by rw [← hread d, ← hread d', heq]
  exact Option.some.inj h

end EnumTables
