/-
Source files and the Markdown files made from them.

A source file has the extension `java` and the file made from it the extension
`md`, so writing the one never changes the other, even where both lie in one
directory.

* **`FileSystem.isSource_of_mem_discover`** — the walk finds source files only;
* **`FileSystem.Plain.exists_source`** — where a source file lies, and how it
  is called;
* **`SourceFile.artifact_ne_source`** — the Markdown file is never called like
  a source file;
* **`FileSystem.Grows.source`** — a source file stays as it is while other
  files are written.
-/
import EnumTables.Document
import EnumTables.FileSystem.Discovery
import EnumTables.Proofs.FileSystem.Growth
import EnumTables.Proofs.Path.Texts

namespace EnumTables

namespace FileSystem

/-! ### What the walk finds -/

theorem exists_of_bind_eq_ok {ε α β : Type} {x : Except ε α} {f : α → Except ε β} {b : β}
    (h : x >>= f = .ok b) : ∃ a, x = .ok a ∧ f a = .ok b := by
  cases x with
  | error e => cases h
  | ok a => exact ⟨a, rfl, h⟩

/-- A list of attempts gives what each of them gives, if none fails. -/
theorem mapM_eq_ok_iff {ε α β : Type} {f : α → Except ε β} {xs : List α} {ys : List β} :
    xs.mapM f = .ok ys ↔ xs.map f = ys.map .ok := by
  induction xs generalizing ys with
  | nil =>
    constructor
    · intro h
      cases h
      rfl
    · intro h
      rw [List.map_eq_nil_iff.mp h.symm]
      rfl
  | cons x xs ih =>
    rw [List.mapM_cons, List.map_cons]
    constructor
    · intro h
      obtain ⟨z, hx, h⟩ := exists_of_bind_eq_ok h
      obtain ⟨zs, hxs, h⟩ := exists_of_bind_eq_ok h
      cases h
      rw [hx, ih.mp hxs, List.map_cons]
    · intro h
      obtain ⟨z, zs, rfl, hx, hxs⟩ := List.map_eq_cons_iff.mp h.symm
      rw [← hx, ih.mpr hxs.symm]
      rfl

/-- What a list of attempts gives was given by one of them. -/
theorem exists_of_mem_mapM {ε α β : Type} {f : α → Except ε β} {xs : List α} {ys : List β}
    (h : xs.mapM f = .ok ys) {y : β} (hy : y ∈ ys) : ∃ x ∈ xs, f x = .ok y := by
  have hmem : .ok y ∈ xs.map f := by
    rw [mapM_eq_ok_iff.mp h]
    exact List.mem_map_of_mem hy
  exact List.mem_map.mp hmem

/-- If none fails, each of a list of attempts gives something. -/
theorem exists_mem_of_mapM {ε α β : Type} {f : α → Except ε β} {xs : List α} {ys : List β}
    (h : xs.mapM f = .ok ys) {x : α} (hx : x ∈ xs) : ∃ y ∈ ys, f x = .ok y := by
  have hmem : f x ∈ ys.map .ok := by
    rw [← mapM_eq_ok_iff.mp h]
    exact List.mem_map_of_mem hx
  obtain ⟨y, hy, heq⟩ := List.mem_map.mp hmem
  exact ⟨y, hy, heq.symm⟩

/-- A list of attempts fails as one of them does. -/
theorem exists_of_mapM_eq_error {ε α β : Type} {f : α → Except ε β} {xs : List α} {e : ε}
    (h : xs.mapM f = .error e) : ∃ x ∈ xs, f x = .error e := by
  induction xs with
  | nil => cases h
  | cons x xs ih =>
    rw [List.mapM_cons] at h
    cases hx : f x with
    | error e' =>
      rw [hx] at h
      cases h
      exact ⟨x, List.mem_cons_self, hx⟩
    | ok y =>
      cases hxs : xs.mapM f with
      | error e' =>
        rw [hx, hxs] at h
        cases h
        obtain ⟨x', hx', hfx'⟩ := ih hxs
        exact ⟨x', List.mem_cons_of_mem x hx', hfx'⟩
      | ok ys =>
        rw [hx, hxs] at h
        cases h

theorem isSource_of_mem_ite {fs : FileSystem} {path p : Path}
    (hp : p ∈ if fs.isSource path then [path] else []) : fs.isSource p = true := by
  split at hp
  · rename_i hsource
    rwa [List.mem_singleton.mp hp]
  · cases hp

theorem isSource_of_mem_walk {fs : FileSystem} {fuel : Nat} {path p : Path} {found : List Path}
    (h : fs.walk fuel path = .ok found) (hp : p ∈ found) : fs.isSource p = true := by
  induction fuel generalizing path found with
  | zero =>
    cases h
    cases hp
  | succ fuel ih =>
    rw [walk] at h
    split at h
    · cases h
    · obtain ⟨lists, hlists, h⟩ := exists_of_bind_eq_ok h
      cases h
      obtain ⟨list, hlist, hp⟩ := List.mem_flatten.mp hp
      obtain ⟨⟨name, entry⟩, -, hchild⟩ := exists_of_mem_mapM hlists hlist
      dsimp only at hchild
      split at hchild
      · exact ih hchild hp
      · cases hchild
        exact isSource_of_mem_ite hp

/-- **Only source files are found.** -/
theorem isSource_of_mem_discover {fs : FileSystem} {root p : Path} {found : List Path}
    (h : fs.discover root = .ok found) (hp : p ∈ found) : fs.isSource p = true := by
  rw [discover] at h
  split at h
  · cases h
  · split at h
    · cases h
    · split at h
      · exact isSource_of_mem_walk h hp
      · cases h
        exact isSource_of_mem_ite hp

/-! ### Names -/

variable {fs fs' : FileSystem} {p : Path}

/-- Whether a file is a source file is up to its path. -/
theorem isSource_of_isFile {loc : Location} {entry : Entry}
    (hresolve : fs.resolve .target p = .ok loc) (hget : fs.get? loc = some entry)
    (hfile : entry.isFile = true) : fs.isSource p = (p.extension? == some sourceExtension) := by
  rw [isSource, isFile_iff.mpr ⟨loc, entry, hresolve, hget, hfile⟩, Bool.true_and]

/-- The name of a source file ends in the last letter of the extension. -/
theorem getLast?_sourceName (stem : Bytes) :
    (stem ++ Path.dot :: sourceExtension).getLast? = some 0x61 := by
  rw [List.getLast?_append]
  rfl

/-- **Where a source file lies.**  Its name is that of its path, with something in
front of the extension. -/
theorem Plain.exists_source (hfs : fs.Plain) (h : fs.isSource p = true) :
    ∃ stem dir entry, stem ≠ [] ∧ Path.IsName (stem ++ Path.dot :: sourceExtension) ∧
      p.fileName? = some (stem ++ Path.dot :: sourceExtension) ∧
      fs.resolve .target p = .ok (dir ++ [stem ++ Path.dot :: sourceExtension]) ∧
      fs.get? (dir ++ [stem ++ Path.dot :: sourceExtension]) = some entry ∧
      entry.isFile = true := by
  obtain ⟨hisFile, hext⟩ := Bool.and_eq_true_iff.mp h
  obtain ⟨loc, entry, hloc, hentry, hfile⟩ := isFile_iff.mp hisFile
  obtain ⟨name, dir, hends, hname, -, rfl⟩ :=
    hfs.exists_name_of_resolve hloc (noDirectory_of_isFile hentry hfile)
  have hfileName := hends.fileName?_eq hname
  obtain ⟨stem, hsplit⟩ : ∃ stem, Path.splitName name = (stem, some sourceExtension) := by
    rw [Path.extension?, hfileName, Option.bind_some] at hext
    exact ⟨_, Prod.ext rfl (eq_of_beq hext)⟩
  obtain ⟨rfl, hstem, -⟩ := Path.splitName_eq_iff.mp hsplit
  exact ⟨stem, dir, entry, hstem, hname, hfileName, hloc, hentry, hfile⟩

/-- **A source file stays as it is** while files of other names are
written. -/
theorem Grows.source {touched : Location → Prop} (hfs : fs.Plain) (h : fs.Grows touched fs')
    (htouched : ∀ dir stem, ¬touched (dir ++ [stem ++ Path.dot :: sourceExtension]))
    (hsource : fs.isSource p = true) :
    fs'.isSource p = true ∧ fs'.readFile p = fs.readFile p := by
  obtain ⟨stem, dir, entry, -, -, -, hloc, hentry, -⟩ := hfs.exists_source hsource
  have hstat : fs.stat .target p = .ok entry := stat_eq_ok_iff.mpr ⟨_, hloc, hentry⟩
  have hstat' : fs'.stat .target p = .ok entry :=
    stat_eq_ok_iff.mpr ⟨_, h.resolve_eq hfs (by simp) hloc, h.get?_eq (htouched dir stem) hentry⟩
  rw [isSource, isFile, hstat] at hsource
  rw [isSource, isFile, readFile, readFile, hstat, hstat']
  exact ⟨hsource, rfl⟩

end FileSystem

namespace SourceFile

variable {file : SourceFile}

theorem nameOf_of_fileName? {p : Path} {name : Bytes} (h : p.fileName? = some name) :
    nameOf p = Utf8.decodeLossy name := by
  rw [nameOf, h, Option.map_some, Option.getD_some]

/-- A source file is called by some text in front of the extension, whatever the bytes
in front of the extension of its path are. -/
theorem exists_stem {stem : Bytes} (hstem : stem ≠ [])
    (hname : Path.IsName (stem ++ Path.dot :: FileSystem.sourceExtension))
    (hfile : file.name = Utf8.decodeLossy (stem ++ Path.dot :: FileSystem.sourceExtension)) :
    Utf8.decodeLossy stem ≠ [] ∧ file.name = Utf8.decodeLossy stem ++ ".java".toList ∧
      Path.IsName (Utf8.encode file.name) := by
  refine ⟨fun hnil => hstem ?_, ?_, hfile ▸ hname.shown⟩
  · exact Utf8.eq_encode_of_decodeLossy hnil List.not_mem_nil
  · exact hfile.trans (Utf8.decodeLossy_append_encode stem ".java".toList)

/-- How the file made from a source file is called.  The name is no name of a
file if only a dot stands in front of the extension. -/
theorem artifact_eq {stem : Text} (hstem : stem ≠ [])
    (hname : Path.IsName (Utf8.encode file.name)) (hfile : file.name = stem ++ ".java".toList) :
    file.artifact = if stem = ['.'] then .ofString ".." else .mk (stem ++ ".md".toList) := by
  have hbytes : Utf8.encode file.name =
      Utf8.encode stem ++ Path.dot :: Utf8.encode "java".toList := by
    rw [hfile, Utf8.encode_append]
    rfl
  have hdot : Utf8.encode stem = [Path.dot] ↔ stem = ['.'] :=
    Utf8.encode_injective.eq_iff (b := ['.'])
  rw [hbytes] at hname
  rw [artifact, Path.mk, hbytes,
    Path.withExtension_eq (mt Utf8.encode_eq_nil.mp hstem) (by decide) hname]
  simp only [hdot]
  split
  · rfl
  · rw [Path.mk, Utf8.encode_append]
    rfl

theorem artifact_bytes_ne {stem : Text} (hstem : stem ≠ [])
    (hname : Path.IsName (Utf8.encode file.name)) (hfile : file.name = stem ++ ".java".toList) :
    Path.slash ∉ file.artifact.bytes ∧
      ∀ other, file.artifact.bytes ≠ other ++ Path.dot :: FileSystem.sourceExtension := by
  rw [artifact_eq hstem hname hfile]
  split
  · refine ⟨by decide, fun other h => ?_⟩
    have hlast := congrArg List.getLast? h
    rw [FileSystem.getLast?_sourceName] at hlast
    exact absurd hlast (by decide)
  · rw [hfile, Utf8.encode_append] at hname
    rw [Path.mk, Utf8.encode_append]
    refine ⟨fun h => ?_, fun other h => ?_⟩
    · rcases List.mem_append.mp h with hslash | hslash
      · exact hname.no_slash (List.mem_append_left _ hslash)
      · exact absurd hslash (by decide)
    · have hmd : (Utf8.encode ".md".toList).getLast? = some 0x64 := rfl
      have hlast := congrArg List.getLast? h
      rw [FileSystem.getLast?_sourceName, List.getLast?_append, hmd, Option.some_or] at hlast
      exact absurd hlast (by decide)

/-- **The file made from a source file** has the name of no source file. -/
theorem artifact_ne_source {fs : FileSystem} (hfs : fs.Plain) {p : Path}
    (hsource : fs.isSource p = true) (hfile : file.name = nameOf p) :
    Path.slash ∉ file.artifact.bytes ∧
      ∀ stem, file.artifact.bytes ≠ stem ++ Path.dot :: FileSystem.sourceExtension := by
  obtain ⟨stem, -, -, hstem, hname, hfileName, -⟩ := hfs.exists_source hsource
  obtain ⟨hshown, htext, hisName⟩ :=
    exists_stem hstem hname (hfile.trans (nameOf_of_fileName? hfileName))
  exact artifact_bytes_ne hshown hisName htext

end SourceFile

end EnumTables
