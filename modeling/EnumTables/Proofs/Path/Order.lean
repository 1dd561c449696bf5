/-
The order of paths.

Paths are compared component by component, and names by their bytes.  This is not
the order of the bytes of the paths: a slash comes behind some of the bytes of
names, and here it comes in front of all.

* **`Path.Before`** — one path in front of another;
* **`Path.components_join`** — the components of a path joined with a name;
* **`Path.lex_names`** — names behind the same components.
-/
import EnumTables.Proofs.FileSystem.Joined
import Mathlib.Data.List.Lex

namespace EnumTables

namespace Path

namespace Component

/-- The kinds of components in their order. -/
def rank : Component → ℕ
  | root => 0
  | current => 1
  | parent => 2
  | name _ => 3

/-- The bytes of a name. -/
def bytes : Component → Bytes
  | name n => n
  | _ => []

/-- One component stands in front of another. -/
def Before (a b : Component) : Prop :=
  a.rank < b.rank ∨ a.rank = b.rank ∧ a.bytes < b.bytes

end Component

/-- **One path stands in front of another**, component by component. -/
def Before (p q : Path) : Prop :=
  List.Lex Component.Before p.components q.components

/-- The component of a path in front of its names. -/
def start (p : Path) : List Component :=
  if p.isAbsolute then [.root]
  else if (Text.splitOn slash p.bytes).head? = some [dot] then [.current]
  else []

theorem components_eq (p : Path) :
    p.components = p.start ++ (Text.splitOn slash p.bytes).filterMap Component.ofPiece? := by
  rw [components, start, isAbsolute]
  split
  · rename_i cs hcs
    rw [hcs]
    rfl
  · rename_i hnot
    have hhead : (p.bytes.head? == some slash) = false := by
      rw [beq_eq_false_iff_ne]
      intro hhead
      obtain ⟨cs, hcs⟩ := List.head?_eq_some_iff.mp hhead
      exact hnot cs hcs
    rw [hhead]
    split
    · rename_i pieces hpieces
      rw [hpieces]
      rfl
    · rename_i hdot
      rw [if_neg Bool.false_ne_true, if_neg, List.nil_append]
      intro hfirst
      obtain ⟨pieces, hpieces⟩ := List.head?_eq_some_iff.mp hfirst
      exact hdot pieces hpieces

/-- The pieces between the slashes of a path that is joined with a name. -/
theorem exists_splitOn_join {p : Path} {name : Bytes} (hp : p.bytes ≠ []) (hname : IsName name) :
    ∃ front, front ≠ [] ∧ Text.splitOn slash (p.join ⟨name⟩).bytes = front ++ [name] ∧
      (Text.splitOn slash p.bytes = front ∨ Text.splitOn slash p.bytes = front ++ [[]]) := by
  obtain ⟨sep, hsep, hbytes⟩ := exists_join_text hp hname
  rw [hbytes]
  rcases hsep with ⟨rfl, hlast⟩ | rfl
  · obtain ⟨lead, hlead⟩ := List.getLast?_eq_some_iff.mp hlast
    refine ⟨Text.splitOn slash lead, Text.splitOn_ne_nil _ _, ?_, .inr ?_⟩
    · rw [hlead, List.nil_append, List.append_assoc, List.singleton_append,
        Text.splitOn_append_cons, Text.splitOn_of_not_mem hname.no_slash]
    · rw [hlead, Text.splitOn_append_cons]
      rfl
  · refine ⟨Text.splitOn slash p.bytes, Text.splitOn_ne_nil _ _, ?_, .inl rfl⟩
    rw [List.singleton_append, Text.splitOn_append_cons,
      Text.splitOn_of_not_mem hname.no_slash]

theorem components_join {p : Path} {name : Bytes} (hp : p.bytes ≠ []) (hname : IsName name) :
    (p.join ⟨name⟩).components = p.components ++ [.name name] := by
  obtain ⟨front, hfront, hjoin, hpieces⟩ := exists_splitOn_join hp hname
  obtain ⟨first, rest, rfl⟩ := List.exists_cons_of_ne_nil hfront
  have hstart : (p.join ⟨name⟩).start = p.start := by
    obtain ⟨sep, -, hbytes⟩ := exists_join_text hp hname
    obtain ⟨c, cs, hcs⟩ := List.exists_cons_of_ne_nil hp
    have habsolute : (p.join ⟨name⟩).isAbsolute = p.isAbsolute := by
      simp [isAbsolute, hbytes, hcs]
    rw [start, start, habsolute, hjoin]
    rcases hpieces with hpieces | hpieces
    · rw [hpieces]
      rfl
    · rw [hpieces]
      rfl
  have hsame : (Text.splitOn slash p.bytes).filterMap Component.ofPiece? =
      (first :: rest).filterMap Component.ofPiece? := by
    rcases hpieces with hpieces | hpieces
    · rw [hpieces]
    · rw [hpieces, List.filterMap_append]
      exact List.append_nil _
  rw [components_eq, components_eq, hstart, hjoin, hsame, List.filterMap_append,
    List.append_assoc]
  simp [hname.ofPiece?_eq]

/-- Names behind the same components are in their own order. -/
theorem lex_names {way other : List Bytes} (front : List Component) (h : way < other) :
    List.Lex Component.Before (front ++ way.map .name) (front ++ other.map .name) := by
  refine List.Lex.append_left _ ?_ front
  induction h with
  | nil => exact .nil
  | cons _ ih => exact .cons ih
  | rel hlt => exact .rel (.inr ⟨rfl, hlt⟩)

end Path

end EnumTables
