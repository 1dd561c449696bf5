/-
What every assembled document has in common.

The tables of a document belong, one by one and in order, to the declarations
with a documented constant, and the rows of a table to the documented constants
of its declaration.  A row is made of parts that have been through different
hands: a word of the source, a trimmed argument text and a description.  All that
the writers of documents rely on follows from where these parts come from, for
every source text.

* **`Table.Describes`** — a table and the declaration that it is made from;
* **`Table.WellFormed`** — what holds of the table of any declaration;
* **`forall₂_tables`**, **`wellFormed_of_table?`** — these two for each table;
* **`document_assembled`** — both for a whole document.
-/
import EnumTables.Document
import EnumTables.Proofs.Constant.Names
import EnumTables.Proofs.Text.Words
import Mathlib.Data.List.Forall2

namespace EnumTables

/-- The declaration has a constant with a documentation comment. -/
def Declaration.isDocumented (d : Declaration) : Bool :=
  d.constants.any fun c => c.doc.isSome

/-- The row of a constant: its name, its argument text without blanks around it,
if that leaves anything, and its comment as a description. -/
structure Row.Describes (row : Row) (c : Constant) : Prop where
  constant : row.constant = c.name
  value : row.value = (c.arguments.map Text.trim).filter (· ≠ [])
  comment : some row.comment = c.doc.map Comment.normalize

/-- The table of a declaration: a row for each documented constant. -/
structure Table.Describes (t : Table) (d : Declaration) : Prop where
  enumName : t.enumName = d.name
  rows : List.Forall₂ Row.Describes t.rows (d.constants.filter fun c => c.doc.isSome)

/-- What the writers of a table may rely on. -/
structure Table.WellFormed (t : Table) : Prop where
  rows_ne_nil : t.rows ≠ []
  schema_iff : t.schema = .namedValued ↔ ∃ row ∈ t.rows, row.value.isSome = true
  enumName : IsWord t.enumName
  constant : ∀ row ∈ t.rows, IsWord row.constant
  value : ∀ row ∈ t.rows, ∀ v, row.value = some v → v ≠ [] ∧ Text.Trimmed v
  comment : ∀ row ∈ t.rows, Comment.normalize row.comment = row.comment

/-- A member of one of two related lists is related to a member of the other. -/
theorem exists_mem_of_forall₂ {α β : Type} {R : α → β → Prop} {as : List α} {bs : List β}
    (h : List.Forall₂ R as bs) {a : α} (ha : a ∈ as) : ∃ b ∈ bs, R a b := by
  induction h with
  | nil => simp at ha
  | @cons a' b' as bs hab _ ih =>
    rcases List.mem_cons.mp ha with rfl | ha
    · exact ⟨b', List.mem_cons_self, hab⟩
    · obtain ⟨b, hb, hr⟩ := ih ha
      exact ⟨b, List.mem_cons_of_mem b' hb, hr⟩

/-! ### Rows -/

/-- The row of a documented constant. -/
theorem Row.describes_ofConstant {c : Constant} {comment : Text} (h : c.doc = some comment)
    (i : Nat) : (Row.ofConstant ⟨c.name, c.arguments, comment, i⟩).Describes c where
  constant := rfl
  value := DocumentedConstant.value_eq _
  comment := by
    rw [h]
    rfl

/-- The documented constants of a body, in order, have the rows that describe
them. -/
theorem forall₂_rows (cs : List Constant) :
    List.Forall₂ Row.Describes ((documentedOf cs).map Row.ofConstant)
      (cs.filter fun c => c.doc.isSome) := by
  rw [documentedOf]
  -- the places of the constants do not matter
  generalize 0 = n
  induction cs generalizing n with
  | nil => exact .nil
  | cons c cs ih =>
    rw [List.zipIdx_cons, List.filterMap_cons, List.filter_cons]
    cases hdoc : c.doc with
    | none => simpa [DocumentedConstant.ofConstant?, hdoc] using ih (n + 1)
    | some comment =>
      simp only [DocumentedConstant.ofConstant?, hdoc, Option.isSome_some, if_true, List.map_cons]
      exact .cons (Row.describes_ofConstant hdoc n) (ih (n + 1))

/-- A row that describes a constant of a body. -/
theorem Row.Describes.parts {row : Row} {body : Text} {c : Constant} (h : row.Describes c)
    (hc : c ∈ Constant.ofBody body) :
    IsWord row.constant ∧ (∀ v, row.value = some v → v ≠ [] ∧ Text.Trimmed v) ∧
      Comment.normalize row.comment = row.comment := by
  refine ⟨h.constant ▸ Constant.isWord_name_of_mem_ofBody hc, ?_, ?_⟩
  · intro v hv
    rw [h.value, Option.filter_eq_some_iff, Option.map_eq_some_iff] at hv
    obtain ⟨⟨argument, -, rfl⟩, hne⟩ := hv
    exact ⟨by simpa using hne, Text.trimmed_trim argument⟩
  · obtain ⟨doc, -, hdoc⟩ := Option.map_eq_some_iff.mp h.comment.symm
    rw [← hdoc, Comment.normalize_normalize]

/-! ### Tables -/

namespace Declaration

theorem isDocumented_iff {d : Declaration} :
    d.isDocumented = true ↔ documentedOf d.constants ≠ [] := by
  have hlength := (forall₂_rows d.constants).length_eq
  rw [List.length_map] at hlength
  rw [isDocumented, ne_eq, ← List.length_eq_zero_iff, hlength, List.length_eq_zero_iff,
    List.filter_eq_nil_iff]
  simp [Option.isSome_iff_ne_none]

theorem table?_eq_none {d : Declaration} (h : d.isDocumented = false) : d.table? = none := by
  have hnil : documentedOf d.constants = [] := by
    by_contra hne
    rw [isDocumented_iff.mpr hne] at h
    exact Bool.noConfusion h
  rw [table?, hnil]
  rfl

theorem table?_eq_some {d : Declaration} (h : d.isDocumented = true) :
    d.table? = some ⟨d.name, Schema.ofConstants (documentedOf d.constants),
      (documentedOf d.constants).map Row.ofConstant⟩ := by
  have hne := isDocumented_iff.mp h
  rw [table?]
  cases hcs : documentedOf d.constants with
  | nil => exact absurd hcs hne
  | cons c cs => rfl

/-- A table is made from a documented declaration only. -/
theorem isDocumented_of_table? {d : Declaration} {t : Table} (h : d.table? = some t) :
    d.isDocumented = true := by
  by_contra hne
  rw [table?_eq_none (by simpa using hne)] at h
  exact absurd h (by simp)

theorem describes_of_table? {d : Declaration} {t : Table} (h : d.table? = some t) :
    t.Describes d := by
  rw [table?_eq_some (isDocumented_of_table? h), Option.some.injEq] at h
  subst h
  exact ⟨rfl, forall₂_rows d.constants⟩

/-- A value column is there if a row has a value. -/
theorem schema_ofConstants_iff (cs : List DocumentedConstant) :
    Schema.ofConstants cs = .namedValued ↔
      ∃ row ∈ cs.map Row.ofConstant, row.value.isSome = true := by
  have hany : (cs.any fun c => c.value.isSome) = true ↔
      ∃ row ∈ cs.map Row.ofConstant, row.value.isSome = true := by
    simp [Row.ofConstant]
  rw [Schema.ofConstants, ← hany]
  split_ifs with h <;> simp [h]

/-- **The table of a declaration is well formed.** -/
theorem wellFormed_of_table? {src : Text} {d : Declaration} {t : Table}
    (hd : d ∈ declarations src) (h : d.table? = some t) : t.WellFormed := by
  have hdocumented := isDocumented_of_table? h
  obtain ⟨hname, hrows⟩ := describes_of_table? h
  have hparts : ∀ row ∈ t.rows, IsWord row.constant ∧
      (∀ v, row.value = some v → v ≠ [] ∧ Text.Trimmed v) ∧
      Comment.normalize row.comment = row.comment := by
    intro row hrow
    obtain ⟨c, hc, hdescribes⟩ := exists_mem_of_forall₂ hrows hrow
    exact hdescribes.parts (List.mem_filter.mp hc).1
  rw [table?_eq_some hdocumented, Option.some.injEq] at h
  exact {
    rows_ne_nil := by
      rw [← h]
      simpa using isDocumented_iff.mp hdocumented
    schema_iff := by
      rw [← h]
      exact schema_ofConstants_iff _
    enumName := hname ▸ isWord_name_of_mem_declarations hd
    constant := fun row hrow => (hparts row hrow).1
    value := fun row hrow => (hparts row hrow).2.1
    comment := fun row hrow => (hparts row hrow).2.2 }

/-- The tables of declarations belong to those that are documented. -/
theorem forall₂_tables (ds : List Declaration) :
    List.Forall₂ Table.Describes (ds.filterMap table?) (ds.filter isDocumented) := by
  induction ds with
  | nil => exact .nil
  | cons d ds ih =>
    cases hd : d.isDocumented with
    | false =>
      have hneg : ¬ d.isDocumented = true := by simp [hd]
      rwa [List.filterMap_cons_none (table?_eq_none hd), List.filter_cons_of_neg hneg]
    | true =>
      have htable := table?_eq_some hd
      rw [List.filterMap_cons_some htable, List.filter_cons_of_pos hd]
      exact .cons (describes_of_table? htable) ih

end Declaration

/-- The tables of a document are well formed. -/
theorem SourceFile.wellFormed_of_mem_tables {file : SourceFile} {t : Table}
    (h : t ∈ file.document.tables) : t.WellFormed := by
  obtain ⟨d, hd, htable⟩ := List.mem_filterMap.mp h
  exact Declaration.wellFormed_of_table? hd htable

/-- **What every document has in common.**  Its tables are well formed; they are
the tables of those declarations of the text that have a documented constant, in
order, and the rows of each are those of the documented constants, in order. -/
theorem document_assembled (file : SourceFile) :
    (∀ t ∈ file.document.tables, t.WellFormed) ∧
      List.Forall₂ Table.Describes file.document.tables
        ((declarations file.text).filter Declaration.isDocumented) :=
  ⟨fun _ => SourceFile.wellFormed_of_mem_tables, Declaration.forall₂_tables _⟩

end EnumTables
