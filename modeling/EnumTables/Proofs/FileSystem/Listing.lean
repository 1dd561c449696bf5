/-
The list of entries of a file system.

On the list of a file system each location stands once, under a name that an
entry can have.  Making directories and writing files keeps it so.  Then what
lies in a directory can be read off the list, in the order of the names.

* **`FileSystem.Listed`** — a list of entries as that of a file system;
* **`FileSystem.Listed.makeDir`**, **`FileSystem.Listed.writeFile`** — the two
  changes that a run makes;
* **`FileSystem.Listed.eq_of_get?_eq`** — a file system is its locations and
  what stands there;
* **`FileSystem.Listed.mem_children_iff`**,
  **`FileSystem.Listed.pairwise_children`** — what lies in a directory.
-/
import EnumTables.FileSystem.Discovery
import EnumTables.Proofs.FileSystem.Growth
import Mathlib.Data.List.Basic
import Mathlib.Tactic.Common

namespace EnumTables

namespace FileSystem

/-- A name that an entry can have: some bytes that are no step of their own, and
not too many. -/
structure EntryName (name : Bytes) : Prop where
  isName : Path.IsName name
  noNul : 0 ∉ name
  size_le : name.length ≤ maxNameSize

instance (name : Bytes) : Decidable (EntryName name) :=
  decidable_of_iff
    ((name ≠ [] ∧ name ≠ [Path.dot] ∧ name ≠ [Path.dot, Path.dot] ∧ Path.slash ∉ name) ∧
      0 ∉ name ∧ name.length ≤ maxNameSize)
    ⟨fun ⟨⟨hnil, hdot, hdots, hslash⟩, hnul, hsize⟩ => ⟨⟨hnil, hdot, hdots, hslash⟩, hnul, hsize⟩,
      fun ⟨⟨hnil, hdot, hdots, hslash⟩, hnul, hsize⟩ => ⟨⟨hnil, hdot, hdots, hslash⟩, hnul, hsize⟩⟩

/-- The locations on the list. -/
def locations (fs : FileSystem) : List Location :=
  fs.entries.map Prod.fst

/-- The entries are listed as those of a file system: each location once, and
under a name that an entry can have. -/
structure Listed (fs : FileSystem) : Prop where
  distinct : fs.locations.Nodup
  named : ∀ loc ∈ fs.locations, ∃ dir name, loc = dir ++ [name] ∧ EntryName name

variable {fs fs' : FileSystem} {loc dir : Location} {name : Bytes} {entry : Entry} {p : Path}

theorem mem_locations_of_get? (hloc : loc ≠ []) (h : fs.get? loc = some entry) :
    loc ∈ fs.locations :=
  List.mem_map_of_mem (mem_entries_of_get? hloc h)

/-- A check of the locations shows that they are listed as those of a file system. -/
theorem Listed.of_locations (hdistinct : fs.locations.Nodup)
    (hnamed : ∀ loc ∈ fs.locations, ∃ name ∈ loc.getLast?, EntryName name) : fs.Listed := by
  refine ⟨hdistinct, fun loc hloc => ?_⟩
  obtain ⟨name, hlast, hname⟩ := hnamed loc hloc
  obtain ⟨dir, rfl⟩ := List.getLast?_eq_some_iff.mp hlast
  exact ⟨dir, name, rfl, hname⟩

/-! ### Looking at the list -/

namespace Listed

theorem entryName (h : fs.Listed) (hget : fs.get? (dir ++ [name]) = some entry) :
    EntryName name := by
  obtain ⟨dir', name', heq, hname⟩ := h.named _ (mem_locations_of_get? (by simp) hget)
  obtain rfl : name = name' := by simpa using List.append_inj_right' heq rfl
  exact hname

/-- What stands at a location is on the list. -/
theorem get?_eq_some_iff (h : fs.Listed) (hloc : loc ≠ []) :
    fs.get? loc = some entry ↔ (loc, entry) ∈ fs.entries := by
  constructor
  · exact mem_entries_of_get? hloc
  · intro hmem
    -- the look-up stops at the first entry of a location, and there is only one
    obtain ⟨front, back, hentries⟩ := List.append_of_mem hmem
    have hdistinct := h.distinct
    rw [locations, hentries, List.map_append, List.nodup_append] at hdistinct
    rw [get?, if_neg hloc, List.lookup_eq_some_iff]
    refine ⟨front, back, hentries, fun e he => bne_iff_ne.mpr fun heq => ?_⟩
    exact hdistinct.2.2 e.1 (List.mem_map_of_mem he) loc (by simp) heq.symm

theorem exists_of_mem_locations (h : fs.Listed) (hloc : loc ∈ fs.locations) :
    ∃ entry, fs.get? loc = some entry := by
  obtain ⟨dir, name, rfl, -⟩ := h.named loc hloc
  obtain ⟨⟨other, entry⟩, hmem, heq⟩ := List.mem_map.mp hloc
  obtain rfl : other = dir ++ [name] := heq
  exact ⟨entry, (h.get?_eq_some_iff (by simp)).mpr hmem⟩

/-- The entries are the locations with what stands there. -/
theorem entries_eq (h : fs.Listed) :
    fs.entries = fs.locations.filterMap fun loc => (fs.get? loc).map (Prod.mk loc) := by
  rw [locations, List.filterMap_map]
  conv_lhs => rw [← List.filterMap_some (l := fs.entries)]
  refine List.filterMap_congr fun e he => ?_
  obtain ⟨dir, name, heq, -⟩ := h.named e.1 (List.mem_map_of_mem he)
  have hget : fs.get? e.1 = some e.2 := (h.get?_eq_some_iff (by simp [heq])).mpr he
  simp [hget]

/-- **A file system is its locations and what stands there.** -/
theorem eq_of_get?_eq (h : fs.Listed) (hlocations : fs'.locations = fs.locations)
    (hget : ∀ loc, fs'.get? loc = fs.get? loc) (hworkDir : fs'.workDir = fs.workDir) :
    fs' = fs := by
  have h' : fs'.Listed := ⟨hlocations ▸ h.distinct, hlocations ▸ h.named⟩
  have hentries : fs'.entries = fs.entries := by
    rw [h'.entries_eq, h.entries_eq, hlocations]
    exact List.filterMap_congr fun loc _ => by rw [hget]
  obtain ⟨entries, workDir⟩ := fs
  obtain ⟨entries', workDir'⟩ := fs'
  cases hentries
  cases hworkDir
  rfl

end Listed

/-! ### Changing the list -/

theorem map_fst_setIn (loc : Location) (entry : Entry) (entries : List (Location × Entry)) :
    (setIn loc entry entries).map Prod.fst =
      if loc ∈ entries.map Prod.fst then entries.map Prod.fst
      else entries.map Prod.fst ++ [loc] := by
  induction entries with
  | nil => rfl
  | cons e rest ih =>
    obtain ⟨other, old⟩ := e
    rw [setIn]
    by_cases h : other = loc
    · simp [h]
    · rw [if_neg h, List.map_cons, ih]
      by_cases hmem : loc ∈ rest.map Prod.fst <;> simp [hmem, Ne.symm h]

/-- What is put in place of something leaves the locations as they are. -/
theorem locations_set (hloc : loc ≠ []) (h : fs.get? loc = some entry) (new : Entry) :
    (fs.set loc new).locations = fs.locations :=
  (map_fst_setIn loc new fs.entries).trans (if_pos (mem_locations_of_get? hloc h))

theorem Listed.set (h : fs.Listed) (hname : EntryName name) (entry : Entry) :
    (fs.set (dir ++ [name]) entry).Listed := by
  have hlocations : (fs.set (dir ++ [name]) entry).locations =
      if dir ++ [name] ∈ fs.locations then fs.locations else fs.locations ++ [dir ++ [name]] :=
    map_fst_setIn _ entry fs.entries
  by_cases hmem : dir ++ [name] ∈ fs.locations
  · rw [if_pos hmem] at hlocations
    exact ⟨hlocations ▸ h.distinct, hlocations ▸ h.named⟩
  · rw [if_neg hmem] at hlocations
    have hnew (loc : Location) (hloc : loc ∈ fs.locations) : loc ≠ dir ++ [name] :=
      ne_of_mem_of_not_mem hloc hmem
    refine ⟨hlocations ▸ ?_, hlocations ▸ fun loc hloc => ?_⟩
    · exact List.nodup_append.mpr
        ⟨h.distinct, List.pairwise_singleton _ _, by simpa using hnew⟩
    · rcases List.mem_append.mp hloc with hloc | hloc
      · exact h.named loc hloc
      · exact ⟨dir, name, List.mem_singleton.mp hloc, hname⟩

/-! ### The changes of a run -/

/-- The last step of a path is not too long. -/
theorem Plain.size_le_of_resolveFrom (hfs : fs.Plain) {purpose : Purpose} {links : Nat}
    {here : Location} {front : List Bytes} {last : Bytes}
    (h : fs.resolveFrom purpose links here (front ++ [last]) = .ok loc) :
    last.length ≤ maxNameSize := by
  induction front generalizing here with
  | nil => exact (hfs.resolveFrom_cons.mp h).2.2.1
  | cons step front ih => exact ih (hfs.resolveFrom_cons.mp h).2.2.2

/-- **A path that does not lead to a directory** leads to an entry in one, by a
name that an entry can have. -/
theorem Plain.exists_entryName_of_resolve (hfs : fs.Plain) {purpose : Purpose}
    (h : fs.resolve purpose p = .ok loc) (hloc : fs.NoDirectory loc) :
    ∃ dir name, EntryName name ∧ loc = dir ++ [name] := by
  obtain ⟨name, dir, hends, hname, -, rfl⟩ := hfs.exists_name_of_resolve h hloc
  obtain ⟨hnul, -, -, hfrom⟩ := resolve_eq_ok_iff.mp h
  obtain ⟨front, hsteps⟩ := hends.steps_eq hname.ne_nil
  -- a path with a NUL leads nowhere, so there is none in the name
  have hmem : ∀ c ∈ name, c ∈ p.bytes := by
    rcases hends.2 with heq | ⟨lead, heq⟩ <;> simp +contextual [heq]
  refine ⟨dir, name, ⟨hname, fun hc => ?_, ?_⟩, rfl⟩
  · simp [hmem _ hc] at hnul
  · exact hfs.size_le_of_resolveFrom (hsteps ▸ hfrom)

theorem Listed.makeDir (h : fs.Listed) (hfs : fs.Plain) (hmade : fs.makeDir p = .ok fs') :
    fs'.Listed := by
  obtain ⟨loc, hloc, hnone, rfl⟩ := FileSystem.makeDir_ok hmade
  obtain ⟨dir, name, hname, rfl⟩ :=
    hfs.exists_entryName_of_resolve hloc (writable_of_none hnone).noDirectory
  exact h.set hname _

theorem Listed.writeFile (h : fs.Listed) (hfs : fs.Plain) {content : Bytes}
    (hwritten : fs.writeFile p content = .ok fs') : fs'.Listed := by
  obtain ⟨loc, hloc, hfree, rfl⟩ := hfs.writeFile_ok hwritten
  obtain ⟨dir, name, hname, rfl⟩ := hfs.exists_entryName_of_resolve hloc hfree.noDirectory
  exact h.set hname _

/-! ### What lies in a directory -/

theorem nameLe_iff (a b : Bytes) : nameLe a b = true ↔ a ≤ b := by
  induction a generalizing b with
  | nil => simp [nameLe]
  | cons c cs ih =>
    cases b with
    | nil => simp [nameLe]
    | cons d ds => simp [nameLe, ih, List.cons_le_cons_iff]

theorem perm_insertChild (child : Bytes × Entry) (others : List (Bytes × Entry)) :
    (insertChild child others).Perm (child :: others) := by
  induction others with
  | nil => exact .refl _
  | cons next rest ih =>
    rw [insertChild]
    split
    · exact .refl _
    · exact (ih.cons next).trans (.swap child next rest)

theorem pairwise_insertChild (child : Bytes × Entry) {others : List (Bytes × Entry)}
    (h : others.Pairwise fun a b => a.1 ≤ b.1) :
    (insertChild child others).Pairwise fun a b => a.1 ≤ b.1 := by
  induction others with
  | nil => exact List.pairwise_singleton _ _
  | cons next rest ih =>
    obtain ⟨hnext, hrest⟩ := List.pairwise_cons.mp h
    rw [insertChild]
    split
    · rename_i hle
      rw [nameLe_iff] at hle
      refine List.pairwise_cons.mpr ⟨List.forall_mem_cons.mpr ⟨hle, fun b hb => ?_⟩, h⟩
      exact List.le_trans hle (hnext b hb)
    · rename_i hle
      rw [nameLe_iff] at hle
      refine List.pairwise_cons.mpr ⟨fun b hb => ?_, ih hrest⟩
      rcases List.mem_cons.mp ((perm_insertChild child rest).mem_iff.mp hb) with rfl | hb
      · exact (List.le_total _ _).resolve_left hle
      · exact hnext b hb

/-- The entries of a directory are those on the list, in another order. -/
theorem perm_children (fs : FileSystem) (dir : Location) :
    (fs.children dir).Perm (fs.entries.filterMap (childOf? dir)) := by
  rw [children]
  induction fs.entries.filterMap (childOf? dir) with
  | nil => exact .refl _
  | cons child others ih => exact (perm_insertChild child _).trans (ih.cons child)

theorem childOf?_eq_some_iff {e : Location × Entry} :
    childOf? dir e = some (name, entry) ↔ e = (dir ++ [name], entry) := by
  obtain ⟨loc, old⟩ := e
  rcases List.eq_nil_or_concat loc with rfl | ⟨parent, last, rfl⟩
  · simp [childOf?]
  · simp only [childOf?, List.concat_eq_append, List.getLast?_append, List.getLast?_singleton,
      Option.some_or, Option.ite_none_right_eq_some, Option.some.injEq, Prod.mk.injEq]
    constructor
    · rintro ⟨heq, rfl, rfl⟩
      exact ⟨heq, rfl⟩
    · rintro ⟨heq, rfl⟩
      obtain rfl : last = name := by simpa using List.append_inj_right' heq rfl
      exact ⟨heq, rfl, rfl⟩

namespace Listed

/-- **What lies in a directory.** -/
theorem mem_children_iff (h : fs.Listed) :
    (name, entry) ∈ fs.children dir ↔ fs.get? (dir ++ [name]) = some entry := by
  rw [(perm_children fs dir).mem_iff, List.mem_filterMap, h.get?_eq_some_iff (by simp)]
  simp only [childOf?_eq_some_iff, exists_eq_right]

/-- **The entries of a directory** come in the order of their names, which are
distinct. -/
theorem pairwise_children (h : fs.Listed) (dir : Location) :
    (fs.children dir).Pairwise fun a b => a.1 < b.1 := by
  have hsorted : (fs.children dir).Pairwise fun a b => a.1 ≤ b.1 := by
    rw [children]
    induction fs.entries.filterMap (childOf? dir) with
    | nil => exact .nil
    | cons child others ih => exact pairwise_insertChild child ih
  have hdistinct : (fs.children dir).Pairwise fun a b => a.1 ≠ b.1 := by
    refine ((perm_children fs dir).pairwise_iff fun hab => hab.symm).mpr ?_
    rw [List.pairwise_filterMap]
    refine (List.pairwise_map.mp h.distinct).imp fun {d e} hne a ha b hb heq => hne ?_
    rw [childOf?_eq_some_iff.mp ha, childOf?_eq_some_iff.mp hb, heq]
  exact hsorted.imp₂ (fun a b hle hne => Std.lt_of_le_of_ne hle hne) hdistinct

end Listed

end FileSystem

end EnumTables
