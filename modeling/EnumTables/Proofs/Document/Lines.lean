/-
The lines of a Markdown table.

A cell is written as it is.  Names hold no bar and no line feed, and descriptions
no line feed, but a value is argument text that is only trimmed.  So the text of a
table is made of one piece for the titles, one for the dashes and one for each
row, and these pieces are lines with as many bars as the columns ask for just if
no value and no comment brings in a bar of its own, and no value a line feed.

* **`Table.grid`**, **`Table.markdown_eq`** — the pieces of a table;
* **`count_bar_ruled`**, **`count_lineFeed_ruled`** — bars and line feeds of a
  piece, from those of its cells;
* **`Table.WellFormed.aligned_iff`** — when the pieces are lines of the table;
* **`markdown_lines`** — all of it, for the tables of a document.
-/
import EnumTables.Proofs.Document.Assembled

namespace EnumTables

namespace Table

/-- The cells of a line between bars, with a space on both sides of each. -/
def ruled (cells : List Text) : Text :=
  '|' :: cells.flatMap fun cell => ' ' :: cell ++ [' ', '|']

/-- The cells in front of the rows: the titles, and dashes under each of them. -/
def headCells (t : Table) : List (List Text) :=
  [t.enumName :: t.schema.titles, List.replicate t.schema.columnCount ['-', '-', '-']]

/-- The cells of a table, line by line. -/
def grid (t : Table) : List (List Text) :=
  t.headCells ++ t.rows.map (Row.cells t.schema)

theorem line_eq (cells : List Text) : line cells = ruled cells ++ ['\n'] :=
  rfl

theorem markdown_eq (t : Table) :
    t.markdown = t.grid.flatMap fun cells => ruled cells ++ ['\n'] := by
  rw [markdown, grid, List.flatMap_append, List.flatMap_map]
  simp [headCells, line_eq]

/-- A line of a table with that many columns. -/
structure IsLine (columns : Nat) (l : Text) : Prop where
  first : l.head? = some '|'
  last : l.getLast? = some '|'
  bars : l.count '|' = columns + 1
  single : '\n' ∉ l

/-- The text of the table is a line for the titles, one for the dashes and one
for each row; each is ended by a line feed and has the columns of the schema. -/
def Aligned (t : Table) : Prop :=
  ∃ ls : List Text, t.markdown = ls.flatMap (fun l => l ++ ['\n']) ∧ ls.length = t.rows.length + 2 ∧
    ∀ l ∈ ls, IsLine t.schema.columnCount l

/-- No value holds a bar or a line feed, and no comment a bar. -/
def Plain (t : Table) : Prop :=
  ∀ row ∈ t.rows,
    '|' ∉ row.value.getD [] ∧ '\n' ∉ row.value.getD [] ∧ '|' ∉ row.comment

instance (t : Table) : Decidable t.Plain :=
  List.decidableBAll _ t.rows

/-! ### Counting in a piece -/

theorem ruled_cons (cell : Text) (cells : List Text) :
    ruled (cell :: cells) = '|' :: ' ' :: (cell ++ ' ' :: ruled cells) := by
  simp [ruled]

theorem getLast?_ruled (cells : List Text) : (ruled cells).getLast? = some '|' := by
  induction cells with
  | nil => rfl
  | cons cell cells ih =>
    have hsplit : ruled (cell :: cells) = ('|' :: ' ' :: (cell ++ [' '])) ++ ruled cells := by
      rw [ruled_cons]
      simp
    rw [hsplit, List.getLast?_append, ih]
    rfl

/-- A piece has a bar in front of each cell and one at the end. -/
theorem count_bar_ruled (cells : List Text) :
    (ruled cells).count '|' = cells.length + 1 + cells.flatten.count '|' := by
  induction cells with
  | nil => rfl
  | cons cell cells ih =>
    rw [ruled_cons, List.count_cons_self, List.count_cons_of_ne (by decide), List.count_append,
      List.count_cons_of_ne (by decide), ih, List.flatten_cons, List.count_append, List.length_cons]
    omega

/-- A piece has no line feed but those in its cells. -/
theorem count_lineFeed_ruled (cells : List Text) :
    (ruled cells).count '\n' = cells.flatten.count '\n' := by
  induction cells with
  | nil => rfl
  | cons cell cells ih =>
    rw [ruled_cons, List.count_cons_of_ne (by decide), List.count_cons_of_ne (by decide),
      List.count_append, List.count_cons_of_ne (by decide), ih, List.flatten_cons,
      List.count_append]

theorem length_grid (t : Table) : t.grid.length = t.rows.length + 2 := by
  rw [grid, List.length_append, List.length_map, Nat.add_comm]
  rfl

/-- Every line of a table has a cell for each column. -/
theorem length_of_mem_grid {t : Table} {cells : List Text} (h : cells ∈ t.grid) :
    cells.length = t.schema.columnCount := by
  rw [grid, List.mem_append, List.mem_map] at h
  rcases h with h | ⟨row, -, rfl⟩
  · rw [headCells, List.mem_pair] at h
    rcases h with rfl | rfl
    · rfl
    · exact List.length_replicate
  · cases t.schema <;> rfl

theorem count_bar_flatMap {columns : Nat} {grid : List (List Text)}
    (h : ∀ cells ∈ grid, cells.length = columns) :
    (grid.flatMap fun cells => ruled cells ++ ['\n']).count '|' =
      grid.length * (columns + 1) + grid.flatten.flatten.count '|' := by
  induction grid with
  | nil => simp
  | cons cells grid ih =>
    have hcells := h cells List.mem_cons_self
    have hfeed : ['\n'].count '|' = 0 := rfl
    rw [List.flatMap_cons, List.count_append, List.count_append, count_bar_ruled, hcells, hfeed,
      ih fun cells hmem => h cells (List.mem_cons_of_mem _ hmem), List.flatten_cons,
      List.flatten_append, List.count_append, List.length_cons, Nat.add_mul]
    omega

theorem count_lineFeed_flatMap (grid : List (List Text)) :
    (grid.flatMap fun cells => ruled cells ++ ['\n']).count '\n' =
      grid.length + grid.flatten.flatten.count '\n' := by
  induction grid with
  | nil => rfl
  | cons cells grid ih =>
    have hfeed : ['\n'].count '\n' = 1 := rfl
    rw [List.flatMap_cons, List.count_append, List.count_append, count_lineFeed_ruled, hfeed, ih,
      List.flatten_cons, List.flatten_append, List.count_append, List.length_cons]
    omega

/-- Lines of a table have the bars and the line feeds of lines, and no more. -/
theorem count_of_isLine {columns : Nat} {ls : List Text} (h : ∀ l ∈ ls, IsLine columns l) :
    (ls.flatMap fun l => l ++ ['\n']).count '|' = ls.length * (columns + 1) ∧
      (ls.flatMap fun l => l ++ ['\n']).count '\n' = ls.length := by
  induction ls with
  | nil => simp
  | cons l ls ih =>
    have hl := h l List.mem_cons_self
    obtain ⟨hbars, hfeeds⟩ := ih fun l hmem => h l (List.mem_cons_of_mem _ hmem)
    have hbar : ['\n'].count '|' = 0 := rfl
    have hfeed : ['\n'].count '\n' = 1 := rfl
    rw [List.flatMap_cons, List.count_append, List.count_append, List.count_append,
      List.count_append, hbars, hfeeds, hl.bars, List.count_eq_zero.mpr hl.single, hbar, hfeed,
      List.length_cons, Nat.add_mul]
    omega

/-! ### When the pieces are lines -/

/-- The pieces of a table are its lines just if no cell brings in a bar or a line
feed. -/
theorem aligned_iff_not_mem (t : Table) :
    t.Aligned ↔ '|' ∉ t.grid.flatten.flatten ∧ '\n' ∉ t.grid.flatten.flatten := by
  constructor
  · rintro ⟨ls, htext, hlength, hls⟩
    obtain ⟨hbars, hfeeds⟩ := count_of_isLine hls
    rw [← htext, t.markdown_eq, count_bar_flatMap fun _ => length_of_mem_grid, length_grid,
      hlength] at hbars
    rw [← htext, t.markdown_eq, count_lineFeed_flatMap, length_grid, hlength] at hfeeds
    rw [← List.count_eq_zero, ← List.count_eq_zero]
    omega
  · rintro ⟨hbar, hfeed⟩
    refine ⟨t.grid.map ruled, ?_, by rw [List.length_map, length_grid], ?_⟩
    · rw [markdown_eq, List.flatMap_map]
    · intro l hl
      obtain ⟨cells, hcells, rfl⟩ := List.mem_map.mp hl
      have hsub : cells.flatten ⊆ t.grid.flatten.flatten := by
        intro c hc
        obtain ⟨cell, hcell, hc⟩ := List.mem_flatten.mp hc
        exact List.mem_flatten.mpr ⟨cell, List.mem_flatten.mpr ⟨cells, hcells, hcell⟩, hc⟩
      have hbars := count_bar_ruled cells
      have hfeeds := count_lineFeed_ruled cells
      rw [List.count_eq_zero.mpr fun h => hbar (hsub h), length_of_mem_grid hcells] at hbars
      rw [List.count_eq_zero.mpr fun h => hfeed (hsub h), List.count_eq_zero] at hfeeds
      exact ⟨rfl, getLast?_ruled cells, hbars, hfeeds⟩

end Table

/-- Bars and line feeds are no part of a word. -/
theorem IsWord.not_mem {w : Text} (h : IsWord w) {c : Char} (hc : isWordChar c = false) :
    c ∉ w := by
  intro hmem
  rw [h.isWordChar_of_mem hmem] at hc
  exact Bool.noConfusion hc

namespace Table.WellFormed

variable {t : Table}

/-- Without a value column there are no values. -/
theorem value_eq_none (h : t.WellFormed) (hschema : t.schema = .namedOnly) {row : Row}
    (hrow : row ∈ t.rows) : row.value = none := by
  by_contra hne
  have hvalued := h.schema_iff.mpr ⟨row, hrow, Option.isSome_iff_ne_none.mpr hne⟩
  rw [hschema] at hvalued
  exact Schema.noConfusion hvalued

/-- A description has no line feed. -/
theorem lineFeed_not_mem_comment (h : t.WellFormed) {row : Row} (hrow : row ∈ t.rows) :
    '\n' ∉ row.comment := by
  intro hmem
  rw [← h.comment row hrow] at hmem
  rcases Comment.mem_normalize hmem with heq | ⟨-, hblank, -⟩
  · exact absurd heq (by decide)
  · exact absurd hblank (by decide)

/-- What the cells of a row hold, whether or not there is a column for values. -/
theorem cells_flatten (h : t.WellFormed) {row : Row} (hrow : row ∈ t.rows) :
    (row.cells t.schema).flatten = row.constant ++ (row.value.getD [] ++ row.comment) := by
  cases hschema : t.schema with
  | namedOnly => simp [Row.cells, h.value_eq_none hschema hrow]
  | namedValued => simp [Row.cells]

/-- The titles and the dashes have no bar and no line feed. -/
theorem not_mem_headCells (h : t.WellFormed) {cells : List Text} (hcells : cells ∈ t.headCells)
    {c : Char} (hc : c = '|' ∨ c = '\n') : c ∉ cells.flatten := by
  have hfixed : c ∉ t.schema.titles.flatten ∧
      c ∉ (List.replicate t.schema.columnCount ['-', '-', '-']).flatten := by
    rcases hc with rfl | rfl <;> cases t.schema <;> decide
  have hname : c ∉ t.enumName := by
    refine h.enumName.not_mem ?_
    rcases hc with rfl | rfl <;> decide +kernel
  rw [headCells, List.mem_pair] at hcells
  rcases hcells with rfl | rfl
  · rw [List.flatten_cons, List.mem_append]
    rintro (hmem | hmem)
    · exact hname hmem
    · exact hfixed.1 hmem
  · exact hfixed.2

theorem not_mem_constant (h : t.WellFormed) {row : Row} (hrow : row ∈ t.rows) {c : Char}
    (hc : c = '|' ∨ c = '\n') : c ∉ row.constant := by
  refine (h.constant row hrow).not_mem ?_
  rcases hc with rfl | rfl <;> decide +kernel

/-- How often a bar or a line feed stands in the line of a row. -/
theorem count_row (h : t.WellFormed) {row : Row} (hrow : row ∈ t.rows) :
    (ruled (row.cells t.schema)).count '|' =
        t.schema.columnCount + 1 + (row.value.getD []).count '|' + row.comment.count '|' ∧
      (ruled (row.cells t.schema)).count '\n' = (row.value.getD []).count '\n' := by
  have hgrid : row.cells t.schema ∈ t.grid :=
    List.mem_append_right _ (List.mem_map_of_mem hrow)
  have hbar := List.count_eq_zero.mpr (h.not_mem_constant hrow (.inl rfl))
  have hfeed := List.count_eq_zero.mpr (h.not_mem_constant hrow (.inr rfl))
  have hcomment := List.count_eq_zero.mpr (h.lineFeed_not_mem_comment hrow)
  rw [count_bar_ruled, count_lineFeed_ruled, length_of_mem_grid hgrid, h.cells_flatten hrow,
    List.count_append, List.count_append, List.count_append, List.count_append, hbar, hfeed,
    hcomment]
  omega

/-- A bar or a line feed comes into a table by a value or a comment. -/
theorem not_mem_grid_iff (h : t.WellFormed) {c : Char} (hc : c = '|' ∨ c = '\n') :
    c ∉ t.grid.flatten.flatten ↔
      ∀ row ∈ t.rows, c ∉ row.value.getD [] ∧ c ∉ row.comment := by
  have hhead : c ∉ t.headCells.flatten.flatten := by
    intro hmem
    obtain ⟨cell, hcell, hmem⟩ := List.mem_flatten.mp hmem
    obtain ⟨cells, hcells, hcell⟩ := List.mem_flatten.mp hcell
    exact h.not_mem_headCells hcells hc (List.mem_flatten.mpr ⟨cell, hcell, hmem⟩)
  have hrow : ∀ row ∈ t.rows,
      (c ∉ (row.cells t.schema).flatten ↔ c ∉ row.value.getD [] ∧ c ∉ row.comment) := by
    intro row hrow
    have hconstant := h.not_mem_constant hrow hc
    rw [h.cells_flatten hrow, List.mem_append, List.mem_append, not_or, not_or]
    exact and_iff_right hconstant
  rw [grid, List.flatten_append, List.flatten_append, List.mem_append, not_or,
    and_iff_right hhead]
  constructor
  · intro hmem row hr
    refine (hrow row hr).mp fun hc => hmem ?_
    obtain ⟨cell, hcell, hc⟩ := List.mem_flatten.mp hc
    exact List.mem_flatten.mpr
      ⟨cell, List.mem_flatten.mpr ⟨_, List.mem_map_of_mem hr, hcell⟩, hc⟩
  · intro hrows hmem
    obtain ⟨cell, hcell, hc⟩ := List.mem_flatten.mp hmem
    obtain ⟨cells, hcells, hcell⟩ := List.mem_flatten.mp hcell
    obtain ⟨row, hr, rfl⟩ := List.mem_map.mp hcells
    exact (hrow row hr).mpr (hrows row hr) (List.mem_flatten.mpr ⟨cell, hcell, hc⟩)

/-- **The pieces of a table are its lines just if its rows are plain.** -/
theorem aligned_iff (h : t.WellFormed) : t.Aligned ↔ t.Plain := by
  rw [aligned_iff_not_mem, h.not_mem_grid_iff (.inl rfl), h.not_mem_grid_iff (.inr rfl), Plain]
  constructor
  · rintro ⟨hbars, hfeeds⟩ row hrow
    exact ⟨(hbars row hrow).1, (hfeeds row hrow).1, (hbars row hrow).2⟩
  · intro hplain
    refine ⟨fun row hrow => ?_, fun row hrow => ?_⟩
    · exact ⟨(hplain row hrow).1, (hplain row hrow).2.2⟩
    · exact ⟨(hplain row hrow).2.1, h.lineFeed_not_mem_comment hrow⟩

/-- The titles and the dashes are lines of the table. -/
theorem isLine_headCells (h : t.WellFormed) {cells : List Text} (hcells : cells ∈ t.headCells) :
    IsLine t.schema.columnCount (ruled cells) where
  first := rfl
  last := getLast?_ruled cells
  bars := by
    have hgrid : cells ∈ t.grid := List.mem_append_left _ hcells
    rw [count_bar_ruled, length_of_mem_grid hgrid,
      List.count_eq_zero.mpr (h.not_mem_headCells hcells (.inl rfl))]
  single := by
    rw [← List.count_eq_zero, count_lineFeed_ruled, List.count_eq_zero]
    exact h.not_mem_headCells hcells (.inr rfl)

end Table.WellFormed

/-- **The lines of a table of a document.**  The text of the table is the titles,
the dashes and the rows in order, each with a line feed behind it; each of these
pieces starts and ends with a bar.  The titles and the dashes are lines with the
columns of the schema.  The piece of a row has, besides, the bars of its value and
of its comment and the line feeds of its value.  So the pieces are lines with the
columns of the schema just if no value holds a bar or a line feed and no comment a
bar. -/
theorem markdown_lines (file : SourceFile) (t : Table) (ht : t ∈ file.document.tables) :
    t.markdown = (t.headCells ++ t.rows.map (Row.cells t.schema)).flatMap
      (fun cells => Table.ruled cells ++ ['\n']) ∧
    t.headCells.length = 2 ∧
    (∀ cells, (Table.ruled cells).head? = some '|' ∧ (Table.ruled cells).getLast? = some '|') ∧
    (∀ cells ∈ t.headCells, Table.IsLine t.schema.columnCount (Table.ruled cells)) ∧
    (∀ row ∈ t.rows,
      (Table.ruled (row.cells t.schema)).count '|' =
        t.schema.columnCount + 1 + (row.value.getD []).count '|' + row.comment.count '|' ∧
      (Table.ruled (row.cells t.schema)).count '\n' = (row.value.getD []).count '\n') ∧
    (t.Aligned ↔ t.Plain) := by
  have h := SourceFile.wellFormed_of_mem_tables ht
  refine ⟨t.markdown_eq, rfl, fun cells => ⟨rfl, Table.getLast?_ruled cells⟩, ?_, ?_,
    h.aligned_iff⟩
  · intro cells hcells
    exact h.isLine_headCells hcells
  · intro row hrow
    exact h.count_row hrow

/-- An argument that is a bar between quotes. -/
def barArgument : SourceFile :=
  ⟨"E.java".toList, "enum E \x7b /** a */ A('|') \x7d".toList⟩

/-- Its table. -/
def barTable : Table :=
  ⟨['E'], .namedValued, [⟨['A'], some ['\'', '|', '\''], ['a']⟩]⟩

theorem barArgument_tables : barArgument.document.tables = [barTable] := by
  decide +kernel

/-- The line of the only row has five bars in place of four. -/
theorem markdown_lines_barArgument :
    barTable ∈ barArgument.document.tables ∧
      (Table.ruled (Row.cells .namedValued ⟨['A'], some ['\'', '|', '\''], ['a']⟩)).count '|' = 5 ∧
      (barTable.Aligned ↔ barTable.Plain) := by
  have hmem : barTable ∈ barArgument.document.tables := by
    rw [barArgument_tables]
    exact List.mem_singleton_self barTable
  obtain ⟨-, -, -, -, hrows, haligned⟩ := markdown_lines barArgument barTable hmem
  exact ⟨hmem, (hrows _ (List.mem_singleton_self _)).1, haligned⟩

/-- Not every table of a document is made of lines with the columns of its
schema. -/
theorem exists_not_aligned :
    ∃ t ∈ barArgument.document.tables, ¬ t.Aligned := by
  refine ⟨barTable, by rw [barArgument_tables]; exact List.mem_singleton_self barTable, ?_⟩
  rw [Table.aligned_iff_not_mem]
  decide

end EnumTables
