/-
A file system that is listed in another order.

The entries of a file system stand on its list in some order.  What stands at a
location and where a path leads do not depend on it.  The walk takes the entries
of a directory by their names, so it does not depend on it either.

* **`FileSystem.Relists`** — the same entries in another order;
* **`FileSystem.Relists.get?_eq`** — what stands at a location,
  **`FileSystem.Relists.resolve_eq`** — where a path leads;
* **`FileSystem.Relists.children_eq`** — the entries of a directory;
* **`FileSystem.Relists.discover_eq`** — the source files below a root.
-/
import EnumTables.Proofs.FileSystem.Walk
import Mathlib.Data.List.Perm.Basic

namespace EnumTables

namespace FileSystem

/-- The file system `fs'` lists the entries of `fs` in another order. -/
structure Relists (fs fs' : FileSystem) : Prop where
  entries : fs'.entries.Perm fs.entries
  workDir : fs'.workDir = fs.workDir

/-- Where steps lead is up to what stands at the locations. -/
theorem resolveFrom_eq_of_get?_eq {fs fs' : FileSystem} (hget : ∀ loc, fs'.get? loc = fs.get? loc)
    (purpose : Purpose) (links : Nat) (here : Location) (names : List Bytes) :
    fs'.resolveFrom purpose links here names = fs.resolveFrom purpose links here names := by
  -- on the links that are left, and for each number of them on the steps
  induction links using Nat.strongRecOn generalizing here names with
  | ind links ihlinks =>
    induction names generalizing here with
    | nil => rw [resolveFrom_nil, resolveFrom_nil]
    | cons name rest ih =>
      have hlinks : ∀ n, links = n + 1 → ∀ here names,
          fs'.resolveFrom purpose n here names = fs.resolveFrom purpose n here names :=
        fun n hn => ihlinks n (hn ▸ Nat.lt_succ_self n)
      rw [resolveFrom_cons, resolveFrom_cons]
      simp only [hget, ih]
      cases links with
      | zero => rfl
      | succ n => simp only [hlinks n rfl]

namespace Relists

variable {fs fs' : FileSystem} {loc : Location} {p root : Path}

theorem listed (h : fs.Relists fs') (hlisted : fs.Listed) : fs'.Listed := by
  have hlocations : fs'.locations.Perm fs.locations := h.entries.map Prod.fst
  exact ⟨hlocations.nodup_iff.mpr hlisted.distinct,
    fun loc hloc => hlisted.named loc (hlocations.mem_iff.mp hloc)⟩

/-- **What stands at a location** is the same. -/
theorem get?_eq (h : fs.Relists fs') (hlisted : fs.Listed) (loc : Location) :
    fs'.get? loc = fs.get? loc := by
  by_cases hloc : loc = []
  · rw [hloc, get?_root, get?_root]
  · ext entry
    rw [hlisted.get?_eq_some_iff hloc, (h.listed hlisted).get?_eq_some_iff hloc, h.entries.mem_iff]

/-- **Where a path leads** is the same. -/
theorem resolve_eq (h : fs.Relists fs') (hlisted : fs.Listed) (purpose : Purpose) (p : Path) :
    fs'.resolve purpose p = fs.resolve purpose p := by
  rw [resolve, resolve, h.workDir, resolveFrom_eq_of_get?_eq (h.get?_eq hlisted)]

theorem stat_eq (h : fs.Relists fs') (hlisted : fs.Listed) (purpose : Purpose) (p : Path) :
    fs'.stat purpose p = fs.stat purpose p := by
  rw [stat, stat, h.resolve_eq hlisted]
  simp only [h.get?_eq hlisted]

theorem openDir_eq (h : fs.Relists fs') (hlisted : fs.Listed) (p : Path) :
    fs'.openDir p = fs.openDir p := by
  rw [openDir, openDir, h.resolve_eq hlisted]
  simp only [h.get?_eq hlisted]

theorem isSource_eq (h : fs.Relists fs') (hlisted : fs.Listed) (p : Path) :
    fs'.isSource p = fs.isSource p := by
  rw [isSource, isSource, isFile, isFile, h.stat_eq hlisted]

/-- **The entries of a directory** come in the same order, that of their names. -/
theorem children_eq (h : fs.Relists fs') (hlisted : fs.Listed) (dir : Location) :
    fs'.children dir = fs.children dir := by
  have hperm : (fs'.children dir).Perm (fs.children dir) := by
    exact (perm_children _ _).trans
      ((h.entries.filterMap _).trans (perm_children _ _).symm)
  exact hperm.eq_of_pairwise (fun a b _ _ hab hba => absurd hab (List.lt_asymm hba))
    ((h.listed hlisted).pairwise_children dir) (hlisted.pairwise_children dir)

theorem depth_eq (h : fs.Relists fs') : fs'.depth = fs.depth := by
  have hcomm : RightCommutative fun (d : Nat) (e : Location × Entry) => max d e.1.length :=
    ⟨fun d e e' => Nat.max_right_comm d e.1.length e'.1.length⟩
  exact h.entries.foldl_eq 0

theorem walk_eq (h : fs.Relists fs') (hlisted : fs.Listed) (fuel : Nat) (path : Path) :
    fs'.walk fuel path = fs.walk fuel path := by
  induction fuel generalizing path with
  | zero => rfl
  | succ fuel ih =>
    have hentry : fs'.walkEntry fuel path = fs.walkEntry fuel path := by
      funext child
      rw [walkEntry, walkEntry, ih, h.isSource_eq hlisted]
    rw [walk_succ, walk_succ, h.openDir_eq hlisted, hentry]
    simp only [h.children_eq hlisted]

/-- **The source files below a root** are the same, in the same order. -/
theorem discover_eq (h : fs.Relists fs') (hlisted : fs.Listed) (root : Path) :
    fs'.discover root = fs.discover root := by
  rw [discover, discover, h.stat_eq hlisted, h.stat_eq hlisted, h.depth_eq, h.walk_eq hlisted,
    h.isSource_eq hlisted]

end Relists

end FileSystem

end EnumTables
