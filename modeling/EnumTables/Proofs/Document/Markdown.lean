/-
The Markdown text determines the document.

The text is read from left to right, and what comes next is never in doubt.
Behind a bar a space starts another cell and a line feed ends the line; a cell
ends in front of the next bar; behind a line a bar starts another row, a line feed
another table.  All of this needs only that no cell holds a bar.  That the cells
determine the row, and the titles the schema, is due to where the tables come
from: a present value is never empty, and without a value column there are no
values.

* **`Table.ruled_append_inj`** — the cells of a line;
* **`Table.markdown_append_inj`** — the table at the front of a text;
* **`Document.sections_inj`** — the tables behind the first one;
* **`markdown_determines`** — the documents of source files.
-/
import EnumTables.Proofs.Document.Lines

namespace EnumTables

namespace Table

/-- A text is determined up to its first bar. -/
theorem append_bar_inj {cs cs' r s : Text} (hcs : '|' ∉ cs) (hcs' : '|' ∉ cs')
    (h : cs ++ '|' :: r = cs' ++ '|' :: s) : cs = cs' ∧ r = s := by
  have htake : ∀ {ds t : Text}, '|' ∉ ds → (ds ++ '|' :: t).takeWhile (· ≠ '|') = ds := by
    intro ds t hds
    refine Text.takeWhile_append_of_stops (fun c hc => ?_) (Text.stops_cons.mpr (by decide))
    simpa using fun heq : c = '|' => hds (heq ▸ hc)
  have heq : cs = cs' := by rw [← htake (t := r) hcs, h, htake hcs']
  subst heq
  exact ⟨rfl, (List.cons.inj (List.append_cancel_left h)).2⟩

/-- Equal lines have equal cells, whatever stands behind them, if no cell holds a
bar. -/
theorem ruled_append_inj {cells cells' : List Text} {r s : Text}
    (hcells : '|' ∉ cells.flatten) (hcells' : '|' ∉ cells'.flatten)
    (h : ruled cells ++ '\n' :: r = ruled cells' ++ '\n' :: s) : cells = cells' ∧ r = s := by
  induction cells generalizing cells' with
  | nil =>
    cases cells' with
    | nil => simpa [ruled] using h
    | cons cell' cells' =>
      rw [ruled_cons] at h
      simp [ruled] at h
  | cons cell cells ih =>
    cases cells' with
    | nil =>
      rw [ruled_cons] at h
      simp [ruled] at h
    | cons cell' cells' =>
      rw [List.flatten_cons, List.mem_append, not_or] at hcells hcells'
      -- the first cell ends in front of the bar with which the others start
      obtain ⟨tail, htail⟩ : ∃ tail, ruled cells = '|' :: tail := ⟨_, rfl⟩
      obtain ⟨tail', htail'⟩ : ∃ tail, ruled cells' = '|' :: tail := ⟨_, rfl⟩
      have hsplit : (cell ++ [' ']) ++ '|' :: (tail ++ '\n' :: r) =
          (cell' ++ [' ']) ++ '|' :: (tail' ++ '\n' :: s) := by
        simpa [ruled_cons, htail, htail'] using h
      have hcell : '|' ∉ cell ++ [' '] := by simpa using hcells.1
      have hcell' : '|' ∉ cell' ++ [' '] := by simpa using hcells'.1
      obtain ⟨hfront, hrest⟩ := append_bar_inj hcell hcell' hsplit
      have hruled : ruled cells ++ '\n' :: r = ruled cells' ++ '\n' :: s := by
        rw [htail, htail', List.cons_append, List.cons_append, hrest]
      obtain ⟨rfl, hrs⟩ := ih hcells.2 hcells'.2 hruled
      rw [List.append_cancel_right hfront]
      exact ⟨rfl, hrs⟩

/-- No value and no comment holds a bar. -/
def Barless (t : Table) : Prop :=
  ∀ row ∈ t.rows, '|' ∉ row.value.getD [] ∧ '|' ∉ row.comment

instance (t : Table) : Decidable t.Barless :=
  List.decidableBAll _ t.rows

theorem WellFormed.not_mem_cells {t : Table} (h : t.WellFormed) (hbarless : t.Barless)
    {cells : List Text} (hcells : cells ∈ t.grid) : '|' ∉ cells.flatten := by
  have hgrid := (h.not_mem_grid_iff (.inl rfl)).mpr hbarless
  intro hmem
  obtain ⟨cell, hcell, hmem⟩ := List.mem_flatten.mp hmem
  exact hgrid (List.mem_flatten.mpr ⟨cell, List.mem_flatten.mpr ⟨cells, hcells, hcell⟩, hmem⟩)

/-- The lines at the front of a text are determined, if no line stands behind
them. -/
theorem flatMap_line_append_inj {grid grid' : List (List Text)} {r s : Text}
    (hgrid : ∀ cells ∈ grid, '|' ∉ cells.flatten) (hgrid' : ∀ cells ∈ grid', '|' ∉ cells.flatten)
    (hr : r.head? ≠ some '|') (hs : s.head? ≠ some '|')
    (h : grid.flatMap line ++ r = grid'.flatMap line ++ s) : grid = grid' ∧ r = s := by
  induction grid generalizing grid' with
  | nil =>
    cases grid' with
    | nil => exact ⟨rfl, h⟩
    | cons cells' grid' =>
      rw [List.flatMap_nil, List.nil_append] at h
      exact absurd (congrArg List.head? h) hr
  | cons cells grid ih =>
    cases grid' with
    | nil =>
      rw [List.flatMap_nil, List.nil_append] at h
      exact absurd (congrArg List.head? h.symm) hs
    | cons cells' grid' =>
      rw [List.flatMap_cons, List.flatMap_cons, line_eq, line_eq] at h
      simp only [List.append_assoc, List.singleton_append] at h
      obtain ⟨rfl, hrest⟩ := ruled_append_inj (hgrid cells List.mem_cons_self)
        (hgrid' cells' List.mem_cons_self) h
      obtain ⟨rfl, hrs⟩ := ih (fun cells hc => hgrid cells (List.mem_cons_of_mem _ hc))
        (fun cells hc => hgrid' cells (List.mem_cons_of_mem _ hc)) hrest
      exact ⟨rfl, hrs⟩

theorem titles_injective : Function.Injective Schema.titles := by
  intro a b h
  cases a with
  | namedOnly =>
    cases b with
    | namedOnly => rfl
    | namedValued => exact absurd h (by decide)
  | namedValued =>
    cases b with
    | namedOnly => exact absurd h (by decide)
    | namedValued => rfl

theorem eq_of_map_eq_map {α β : Type} {f : α → β} {as bs : List α}
    (hinj : ∀ a ∈ as, ∀ b ∈ bs, f a = f b → a = b) (h : as.map f = bs.map f) : as = bs := by
  induction as generalizing bs with
  | nil => exact (List.map_eq_nil_iff.mp h.symm).symm
  | cons a as ih =>
    cases bs with
    | nil => simp at h
    | cons b bs =>
      obtain ⟨hab, hrest⟩ := List.cons.inj h
      rw [hinj a List.mem_cons_self b List.mem_cons_self hab, ih (fun a ha b hb =>
        hinj a (List.mem_cons_of_mem _ ha) b (List.mem_cons_of_mem _ hb)) hrest]

/-- The cells of a row determine it: an absent value leaves an empty cell, and a
value that is there is not empty. -/
theorem WellFormed.cells_inj {t t' : Table} (h : t.WellFormed) (h' : t'.WellFormed)
    (hschema : t.schema = t'.schema) {row row' : Row} (hrow : row ∈ t.rows) (hrow' : row' ∈ t'.rows)
    (hcells : row.cells t.schema = row'.cells t.schema) : row = row' := by
  obtain ⟨constant, value, comment⟩ := row
  obtain ⟨constant', value', comment'⟩ := row'
  cases hs : t.schema with
  | namedOnly =>
    have hvalue := h.value_eq_none hs hrow
    have hvalue' := h'.value_eq_none (hschema ▸ hs) hrow'
    simp only [Row.cells, hs, List.cons.injEq] at hcells hvalue hvalue'
    rw [hvalue, hvalue', hcells.1, hcells.2.1]
  | namedValued =>
    simp only [Row.cells, hs, List.cons.injEq] at hcells
    have hvalue : value = value' := by
      cases value with
      | none =>
        cases value' with
        | none => rfl
        | some v' => exact absurd hcells.2.1.symm (h'.value _ hrow' v' rfl).1
      | some v =>
        cases value' with
        | none => exact absurd hcells.2.1 (h.value _ hrow v rfl).1
        | some v' => exact congrArg some hcells.2.1
    rw [hvalue, hcells.1, hcells.2.2.1]

/-- **The table at the front of a text is determined**, if no line stands behind
it. -/
theorem markdown_append_inj {t t' : Table} {r s : Text} (ht : t.WellFormed) (ht' : t'.WellFormed)
    (hb : t.Barless) (hb' : t'.Barless) (hr : r.head? ≠ some '|') (hs : s.head? ≠ some '|')
    (h : t.markdown ++ r = t'.markdown ++ s) : t = t' ∧ r = s := by
  rw [markdown_eq, markdown_eq] at h
  obtain ⟨hgrid, hrest⟩ := flatMap_line_append_inj (fun _ => ht.not_mem_cells hb)
    (fun _ => ht'.not_mem_cells hb') hr hs h
  obtain ⟨hhead, hcells⟩ := List.append_inj hgrid rfl
  -- the first line names the enum and shows the schema
  obtain ⟨hname, htitles⟩ := List.cons.inj (List.cons.inj hhead).1
  have hschema := titles_injective htitles
  rw [← hschema] at hcells
  have hrows : t.rows = t'.rows := eq_of_map_eq_map
    (fun _ hrow _ hrow' => ht.cells_inj ht' hschema hrow hrow') hcells
  obtain ⟨name, schema, rows⟩ := t
  obtain ⟨name', schema', rows'⟩ := t'
  rw [Table.mk.injEq]
  exact ⟨⟨hname, hschema, hrows⟩, hrest⟩

end Table

/-! ### Documents -/

namespace Document

/-- No value and no comment of the document holds a bar. -/
def Barless (d : Document) : Prop :=
  ∀ t ∈ d.tables, t.Barless

instance (d : Document) : Decidable d.Barless :=
  List.decidableBAll _ d.tables

theorem join_cons (sep piece : Text) (pieces : List Text) :
    Text.join sep (piece :: pieces) = piece ++ pieces.flatMap (fun q => sep ++ q) := by
  induction pieces generalizing piece with
  | nil => simp [Text.join]
  | cons q qs ih =>
    rw [Text.join, ih, List.flatMap_cons, List.append_assoc, List.append_assoc]
    simp

/-- What stands above each table. -/
def heading (source : Text) : Text :=
  "##  ".toList ++ source ++ ['\n', '\n']

theorem titled_eq (source : Text) (t : Table) : titled source t = heading source ++ t.markdown :=
  rfl

theorem heading_ne_nil (source : Text) : heading source ≠ [] :=
  List.append_ne_nil_of_right_ne_nil _ (List.cons_ne_nil _ _)

/-- The sections behind the first table, each with the empty line in front of it. -/
def sections (source : Text) (ts : List Table) : Text :=
  ts.flatMap fun t => '\n' :: titled source t

/-- A section starts with a line feed. -/
theorem head?_sections (source : Text) (ts : List Table) :
    (sections source ts).head? ≠ some '|' := by
  cases ts with
  | nil => simp [sections]
  | cons t ts => simp [sections]

/-- Equal texts start with equal sections. -/
theorem titled_append_inj {source r s : Text} {t t' : Table} (ht : t.WellFormed)
    (ht' : t'.WellFormed) (hb : t.Barless) (hb' : t'.Barless) (hr : r.head? ≠ some '|')
    (hs : s.head? ≠ some '|') (h : titled source t ++ r = titled source t' ++ s) :
    t = t' ∧ r = s := by
  rw [titled_eq, titled_eq, List.append_assoc, List.append_assoc] at h
  exact Table.markdown_append_inj ht ht' hb hb' hr hs (List.append_cancel_left h)

theorem sections_inj {source : Text} {ts ts' : List Table}
    (hts : ∀ t ∈ ts, t.WellFormed ∧ t.Barless) (hts' : ∀ t ∈ ts', t.WellFormed ∧ t.Barless)
    (h : sections source ts = sections source ts') : ts = ts' := by
  induction ts generalizing ts' with
  | nil =>
    cases ts' with
    | nil => rfl
    | cons t' ts' => simp [sections] at h
  | cons t ts ih =>
    cases ts' with
    | nil => simp [sections] at h
    | cons t' ts' =>
      obtain ⟨hwf, hb⟩ := hts t List.mem_cons_self
      obtain ⟨hwf', hb'⟩ := hts' t' List.mem_cons_self
      rw [sections, sections, List.flatMap_cons, List.flatMap_cons] at h
      obtain ⟨rfl, hrest⟩ := titled_append_inj hwf hwf' hb hb' (head?_sections source ts)
        (head?_sections source ts') (List.cons.inj h).2
      rw [ih (fun t ht => hts t (List.mem_cons_of_mem _ ht))
        (fun t ht => hts' t (List.mem_cons_of_mem _ ht)) hrest]

theorem markdown_cons (source : Text) (t : Table) (ts : List Table) :
    (Document.mk source (t :: ts)).markdown = titled source t ++ sections source ts := by
  rw [markdown, List.map_cons, join_cons, sections, List.flatMap_map]
  rfl

/-- Only a document without tables has an empty text. -/
theorem markdown_eq_nil_iff (d : Document) : d.markdown = [] ↔ d.isEmpty = true := by
  obtain ⟨source, tables⟩ := d
  cases tables with
  | nil => exact ⟨fun _ => rfl, fun _ => rfl⟩
  | cons t ts =>
    rw [markdown_cons, titled_eq]
    simp [heading_ne_nil, isEmpty]

/-- Documents with well-formed tables and equal texts have equal tables. -/
theorem tables_inj {source : Text} {ts ts' : List Table}
    (hts : ∀ t ∈ ts, t.WellFormed ∧ t.Barless) (hts' : ∀ t ∈ ts', t.WellFormed ∧ t.Barless)
    (h : (Document.mk source ts).markdown = (Document.mk source ts').markdown) : ts = ts' := by
  cases ts with
  | nil =>
    have hempty := (markdown_eq_nil_iff ⟨source, ts'⟩).mp h.symm
    exact (List.isEmpty_iff.mp hempty).symm
  | cons t ts =>
    cases ts' with
    | nil => exact List.isEmpty_iff.mp ((markdown_eq_nil_iff ⟨source, t :: ts⟩).mp h)
    | cons t' ts' =>
      obtain ⟨hwf, hb⟩ := hts t List.mem_cons_self
      obtain ⟨hwf', hb'⟩ := hts' t' List.mem_cons_self
      rw [markdown_cons, markdown_cons] at h
      obtain ⟨rfl, hrest⟩ := titled_append_inj hwf hwf' hb hb' (head?_sections source ts)
        (head?_sections source ts') h
      rw [sections_inj (fun t ht => hts t (List.mem_cons_of_mem _ ht))
        (fun t ht => hts' t (List.mem_cons_of_mem _ ht)) hrest]

end Document

/-- **The Markdown text determines the document.**  The text is empty just if the
document is.  Files of one name whose documents have equal texts have equal
documents, if no value and no comment holds a bar; line feeds in values do no
harm. -/
theorem markdown_determines (f g : SourceFile) :
    (f.document.markdown = [] ↔ f.document.isEmpty = true) ∧
    (f.name = g.name → f.document.Barless → g.document.Barless →
      f.document.markdown = g.document.markdown → f.document = g.document) := by
  refine ⟨Document.markdown_eq_nil_iff f.document, ?_⟩
  intro hname hf hg h
  rw [SourceFile.document, SourceFile.document, ← hname] at h
  have htables : f.document.tables = g.document.tables := by
    refine Document.tables_inj (fun t ht => ?_) (fun t ht => ?_) h
    · exact ⟨SourceFile.wellFormed_of_mem_tables ht, hf t ht⟩
    · exact ⟨SourceFile.wellFormed_of_mem_tables ht, hg t ht⟩
  exact congrArg₂ Document.mk hname htables

/-- A value that runs over two lines, and a constant without one. -/
def twoLines : SourceFile :=
  ⟨"E.java".toList, "enum E \x7b /** a */ A(1,\n2), /** b */ B \x7d".toList⟩

/-- The same enum with other blanks, an annotation and an empty argument list. -/
def twoLinesSpaced : SourceFile :=
  ⟨"E.java".toList, "enum E\n\x7b /** a\n*/ @X A ( 1,\n2 ) , C, /** b*/ B() ; \x7d".toList⟩

/-- The document of both. -/
def twoLinesDocument : Document :=
  ⟨"E.java".toList, [⟨['E'], .namedValued,
    [⟨['A'], some "1,\n2".toList, ['a']⟩, ⟨['B'], none, ['b']⟩]⟩]⟩

theorem markdown_determines_twoLines :
    twoLines.document.Barless ∧ twoLinesSpaced.document.Barless ∧
      twoLines.document.markdown = twoLinesSpaced.document.markdown ∧
      twoLines.document = twoLinesSpaced.document := by
  have hdocument : twoLines.document = twoLinesDocument := by decide +kernel
  have hdocument' : twoLinesSpaced.document = twoLinesDocument := by decide +kernel
  have hbarless : twoLinesDocument.Barless := by decide
  have hfirst : twoLines.document.Barless := by rwa [hdocument]
  have hsecond : twoLinesSpaced.document.Barless := by rwa [hdocument']
  have htext : twoLines.document.markdown = twoLinesSpaced.document.markdown :=
    congrArg Document.markdown (hdocument.trans hdocument'.symm)
  exact ⟨hfirst, hsecond, htext,
    (markdown_determines twoLines twoLinesSpaced).2 rfl hfirst hsecond htext⟩

end EnumTables
