/-
How a file system without symbolic links grows.

Without links a path leads step by step from directory to directory.  Making
directories and writing files keeps everything that is there but files, so a path
that leads to a location goes on leading to it.  A sealed file or directory is
kept too, since it cannot be written.

* **`FileSystem.Rooted`** — what is there lies in a directory;
* **`FileSystem.Plain`** — a tree of files and directories, without links;
* **`FileSystem.Plain.resolveFrom_cons`** — one step of a path in such a tree;
* **`FileSystem.Plain.exists_name_of_resolve`** — a path that does not lead to
  a directory ends in the name of its entry;
* **`FileSystem.Grows`** — what may change, and what stays;
* **`FileSystem.Grows.resolve_eq`** — the location of a path stays;
* **`FileSystem.grows_createDirAll`**, **`FileSystem.grows_writeFile`** — the
  two changes that a run makes.
-/
import EnumTables.Proofs.FileSystem.Following
import EnumTables.Proofs.Path.Names

namespace EnumTables

namespace FileSystem

/-! ### Trees -/

/-- What is there lies in a directory, as in every file system.  There may be
symbolic links. -/
def Rooted (fs : FileSystem) : Prop :=
  ∀ loc name, fs.get? (loc ++ [name]) ≠ none → fs.get? loc = some .directory

/-- A tree of files and directories: there are no symbolic links, and what is
there lies in a directory, as in every file system. -/
structure Plain (fs : FileSystem) : Prop where
  noLinks : ∀ loc target, fs.get? loc ≠ some (.link target)
  parents : ∀ loc name, fs.get? (loc ++ [name]) ≠ none → fs.get? loc = some .directory

theorem get?_root (fs : FileSystem) : fs.get? [] = some .directory :=
  if_pos rfl

theorem mem_entries_of_get? {fs : FileSystem} {loc : Location} {entry : Entry} (hloc : loc ≠ [])
    (h : fs.get? loc = some entry) : (loc, entry) ∈ fs.entries := by
  rw [get?, if_neg hloc] at h
  obtain ⟨front, back, heq, -⟩ := List.lookup_eq_some_iff.mp h
  simp [heq]

/-- A check of the entries on the list shows that they are in directories. -/
theorem Rooted.of_entries {fs : FileSystem}
    (h : ∀ e ∈ fs.entries, fs.get? e.1.dropLast = some .directory) : fs.Rooted := by
  intro loc name hname
  obtain ⟨entry, hentry⟩ := Option.ne_none_iff_exists'.mp hname
  simpa using h _ (mem_entries_of_get? (by simp) hentry)

/-- A check of the entries on the list shows that they form a tree. -/
theorem Plain.of_entries {fs : FileSystem}
    (h : ∀ e ∈ fs.entries, (e.2.isFile = true ∨ e.2.isDirectory = true) ∧
      fs.get? e.1.dropLast = some .directory) : fs.Plain := by
  refine ⟨fun loc target htarget => ?_, Rooted.of_entries fun e he => (h e he).2⟩
  have hloc : loc ≠ [] := by
    rintro rfl
    simp [get?] at htarget
  rcases (h _ (mem_entries_of_get? hloc htarget)).1 with hfile | hdir
  · exact Entry.ne_link_of_isFile hfile target rfl
  · exact Entry.ne_link_of_isDirectory hdir target rfl

theorem Plain.rooted {fs : FileSystem} (hfs : fs.Plain) : fs.Rooted :=
  hfs.parents

/-- The parent of a directory is a directory. -/
theorem Rooted.dropLast_directory {fs : FileSystem} (hfs : fs.Rooted) {loc : Location}
    (h : fs.get? loc = some .directory) : fs.get? loc.dropLast = some .directory := by
  rcases List.eq_nil_or_concat loc with rfl | ⟨dir, name, rfl⟩
  · exact h
  · rw [List.concat_eq_append] at h ⊢
    rw [List.dropLast_concat]
    exact hfs dir name (by simp [h])

/-- Nothing is at the location but a file that may be written, if that. -/
def Writable (fs : FileSystem) (loc : Location) : Prop :=
  ∀ entry, fs.get? loc = some entry → ∃ content, entry = .file content

/-- No directory is at the location, sealed or not. -/
def NoDirectory (fs : FileSystem) (loc : Location) : Prop :=
  ∀ entry, fs.get? loc = some entry → entry.isDirectory = false

theorem writable_of_none {fs : FileSystem} {loc : Location} (h : fs.get? loc = none) :
    fs.Writable loc := by
  simp [Writable, h]

theorem Writable.noDirectory {fs : FileSystem} {loc : Location} (h : fs.Writable loc) :
    fs.NoDirectory loc := by
  intro entry hentry
  obtain ⟨content, rfl⟩ := h entry hentry
  rfl

theorem Writable.ne_nil {fs : FileSystem} {loc : Location} (h : fs.Writable loc) : loc ≠ [] := by
  rintro rfl
  obtain ⟨content, hfile⟩ := h _ fs.get?_root
  cases hfile

theorem noDirectory_of_isFile {fs : FileSystem} {loc : Location} {entry : Entry}
    (h : fs.get? loc = some entry) (hfile : entry.isFile = true) : fs.NoDirectory loc := by
  intro other hother
  obtain rfl : entry = other := Option.some.inj (h.symm.trans hother)
  exact Entry.isDirectory_of_isFile hfile

/-! ### Reading -/

theorem stat_eq_ok_iff {fs : FileSystem} {purpose : Purpose} {p : Path} {entry : Entry} :
    fs.stat purpose p = .ok entry ↔
      ∃ loc, fs.resolve purpose p = .ok loc ∧ fs.get? loc = some entry := by
  rw [stat]
  cases fs.resolve purpose p with
  | error e => simp
  | ok loc => cases hget : fs.get? loc <;> simp [hget]

theorem readFile_eq_ok_iff {fs : FileSystem} {p : Path} {content : Bytes} :
    fs.readFile p = .ok content ↔
      ∃ loc, fs.resolve .target p = .ok loc ∧ fs.get? loc = some (.file content) := by
  rw [← stat_eq_ok_iff, readFile]
  match fs.stat .target p with
  | .error e => simp
  | .ok (.file old) => simp
  | .ok .directory => simp
  | .ok (.link target) => simp
  | .ok (.sealedFile old) => simp
  | .ok .sealedDirectory => simp

theorem isFile_iff {fs : FileSystem} {p : Path} :
    fs.isFile p = true ↔
      ∃ loc entry, fs.resolve .target p = .ok loc ∧ fs.get? loc = some entry ∧
        entry.isFile = true := by
  simp only [← and_assoc]
  rw [exists_comm]
  simp only [exists_and_right, ← stat_eq_ok_iff, isFile]
  cases fs.stat .target p <;> simp

/-- **A file can be read, or it may not be opened.** -/
theorem readFile_of_isFile {fs : FileSystem} {p : Path} (h : fs.isFile p = true) :
    (∃ content, fs.readFile p = .ok content) ∨ fs.readFile p = .error .permissionDenied := by
  obtain ⟨loc, entry, hresolve, hentry, hfile⟩ := isFile_iff.mp h
  rw [readFile, stat_eq_ok_iff.mpr ⟨loc, hresolve, hentry⟩]
  cases entry with
  | file content => exact .inl ⟨content, rfl⟩
  | sealedFile => exact .inr rfl
  | _ => cases hfile

theorem pathExists_iff {fs : FileSystem} {p : Path} :
    fs.pathExists p = true ↔
      ∃ loc entry, fs.resolve .target p = .ok loc ∧ fs.get? loc = some entry := by
  rw [exists_comm]
  simp only [← stat_eq_ok_iff, pathExists]
  cases fs.stat .target p <;> simp

/-! ### Following a path -/

/-- Where a step leads from a directory, if it does not lead through a
link. -/
def stepTo (here : Location) (name : Bytes) : Location :=
  if name = [] ∨ name = [Path.dot] then here
  else if name = [Path.dot, Path.dot] then here.dropLast
  else here ++ [name]

theorem CanEnter.not_noDirectory {fs : FileSystem} {here : Location} {name : Bytes}
    (h : fs.CanEnter here name) : ¬fs.NoDirectory here := by
  obtain ⟨entry, hentry, henter⟩ := h
  exact fun hnone => by simpa [Entry.isDirectory_of_enter henter] using hnone entry hentry

/-- A path has a last step. -/
theorem exists_steps_eq_concat {p : Path} (hp : p.bytes ≠ []) :
    ∃ front name, steps p = front ++ [name] := by
  obtain ⟨name, hends⟩ := p.exists_endsIn
  by_cases hname : name = []
  · obtain ⟨front, hfront⟩ := (hname ▸ hends).steps_eq_of_nil hp
    exact ⟨front, [], hfront⟩
  · obtain ⟨front, hfront⟩ := hends.steps_eq hname
    exact ⟨front, name, hfront⟩

/-- A path leads where its steps do, unless its text rules it out. -/
theorem resolve_eq_ok_iff {fs : FileSystem} {purpose : Purpose} {p : Path} {loc : Location} :
    fs.resolve purpose p = .ok loc ↔
      p.bytes.contains 0 = false ∧ p.bytes ≠ [] ∧ p.bytes.length < pathSizeLimit ∧
        fs.resolveFrom purpose maxLinks (startOf p fs.workDir) (steps p) = .ok loc := by
  rw [resolve]
  cases hnul : p.bytes.contains 0 with
  | true => simp
  | false =>
    by_cases hempty : p.bytes = []
    · simp [hempty]
    by_cases hsize : pathSizeLimit ≤ p.bytes.length
    · simp [hempty, hsize, Nat.not_lt_of_le hsize]
    · simp [hempty, hsize, Nat.lt_of_not_le hsize]

namespace Plain

variable {fs : FileSystem} {purpose : Purpose} {links : Nat} {here loc : Location}

/-- **One step of a path** in a tree without links. -/
theorem resolveFrom_cons (hfs : fs.Plain) {name : Bytes} {rest : List Bytes} :
    fs.resolveFrom purpose links here (name :: rest) = .ok loc ↔
      fs.CanEnter here name ∧ ¬(purpose = .writing ∧ rest = [[]]) ∧
        name.length ≤ maxNameSize ∧
        fs.resolveFrom purpose links (stepTo here name) rest = .ok loc := by
  rw [FileSystem.resolveFrom_cons, CanEnter]
  rcases hhere : fs.get? here with _ | entry
  · simp
  rcases henter : entry.enter name with e | _
  · simp [henter]
  by_cases hend : purpose = .writing ∧ rest = [[]]
  · simp [hend, henter]
  by_cases hstay : name = [] ∨ name = [Path.dot]
  · have hsize : name.length ≤ maxNameSize := by
      rcases hstay with rfl | rfl <;> decide
    simp [hend, hstay, stepTo, hsize, henter]
  by_cases hup : name = [Path.dot, Path.dot]
  · subst hup
    have hsize : 2 ≤ maxNameSize := by decide
    simp [hend, stepTo, hsize, henter]
  by_cases hsize : maxNameSize < name.length
  · simp [hend, hstay, hup, hsize, Nat.not_le_of_lt hsize, henter]
  simp only [hend, hstay, hup, hsize, ↓reduceIte, stepTo, not_false_eq_true, true_and,
    Nat.le_of_not_lt hsize, Option.some.injEq, exists_eq_left', henter]
  rcases hnext : fs.get? (here ++ [name]) with _ | (content | _ | target | content | _)
  · -- with more steps to go, the next one fails
    cases rest with
    | nil => simp
    | cons next rest => simp [FileSystem.resolveFrom_cons, hnext]
  · rfl
  · rfl
  · exact absurd hnext (hfs.noLinks _ target)
  · rfl
  · rfl

/-- The last step of a path is taken where the others lead. -/
theorem exists_canEnter_of_resolveFrom (hfs : fs.Plain) {front : List Bytes} {last : Bytes}
    (h : fs.resolveFrom purpose links here (front ++ [last]) = .ok loc) :
    ∃ dir, fs.CanEnter dir last ∧ loc = stepTo dir last := by
  induction front generalizing here with
  | nil =>
    obtain ⟨hdir, -, -, hlast⟩ := hfs.resolveFrom_cons.mp h
    rw [resolveFrom_nil] at hlast
    exact ⟨here, hdir, (Except.ok.inj hlast).symm⟩
  | cons name front ih => exact ih (hfs.resolveFrom_cons.mp h).2.2.2

/-- **A path that does not lead to a directory** ends in the name of the
entry it leads to, which lies in a directory. -/
theorem exists_name_of_resolve (hfs : fs.Plain) {p : Path} (h : fs.resolve purpose p = .ok loc)
    (hloc : fs.NoDirectory loc) :
    ∃ name dir, p.EndsIn name ∧ Path.IsName name ∧ fs.get? dir = some .directory ∧
      loc = dir ++ [name] := by
  obtain ⟨-, hbytes, -, hfrom⟩ := resolve_eq_ok_iff.mp h
  obtain ⟨front, name, hsteps⟩ := exists_steps_eq_concat hbytes
  rw [hsteps] at hfrom
  obtain ⟨dir, hdir, rfl⟩ := hfs.exists_canEnter_of_resolveFrom hfrom
  -- the other steps lead from a directory to a directory
  have hstay : ¬(name = [] ∨ name = [Path.dot]) := by
    intro hstay
    rw [stepTo, if_pos hstay] at hloc
    exact hdir.not_noDirectory hloc
  obtain ⟨hnil, hdot⟩ := not_or.mp hstay
  have hdirectory := hdir.directory hnil
  have hup : name ≠ [Path.dot, Path.dot] := by
    rintro rfl
    exact absurd (hloc _ (hfs.rooted.dropLast_directory hdirectory)) (by decide)
  have hends := Path.endsIn_of_steps hsteps hnil
  refine ⟨name, dir, hends, ⟨hnil, hdot, hup, hends.1⟩, hdirectory, ?_⟩
  rw [stepTo, if_neg hstay, if_neg hup]

/-- Writing where nothing else is keeps the tree. -/
theorem set (hfs : fs.Plain) {dir : Location} {name : Bytes} {entry : Entry}
    (hdir : fs.get? dir = some .directory) (hfree : fs.Writable (dir ++ [name]))
    (hentry : ∀ target, entry ≠ .link target) : (fs.set (dir ++ [name]) entry).Plain := by
  have hget (other : Location) := get?_set (by simp : dir ++ [name] ≠ []) other entry fs
  constructor
  · intro loc target h
    rw [hget] at h
    split at h
    · exact hentry target (Option.some.inj h)
    · exact hfs.noLinks loc target h
  · intro loc other h
    have hloc : fs.get? loc = some .directory := by
      rw [hget] at h
      split at h
      · rename_i heq
        rwa [List.append_inj_left' heq rfl]
      · exact hfs.parents loc other h
    rw [hget, if_neg]
    · exact hloc
    · rintro rfl
      exact absurd (hfree.noDirectory _ hloc) (by decide)

end Plain

/-! ### Growing -/

/-- From `fs` to the tree `fs'` directories were made where nothing was, and
files were written at `touched` locations, where nothing else was.  Nothing else
was done, so what was a file still is one. -/
structure Grows (touched : Location → Prop) (fs fs' : FileSystem) : Prop where
  plain : fs'.Plain
  workDir : fs'.workDir = fs.workDir
  changed : ∀ loc, fs'.get? loc = fs.get? loc ∨
    (fs.get? loc = none ∧ fs'.get? loc = some .directory) ∨
    touched loc ∧ fs.Writable loc ∧ ∃ content, fs'.get? loc = some (.file content)

namespace Grows

variable {touched more : Location → Prop} {fs fs' fs'' : FileSystem} {loc : Location}
  {entry : Entry}

theorem refl (hfs : fs.Plain) : fs.Grows touched fs :=
  ⟨hfs, rfl, fun _ => .inl rfl⟩

theorem mono (h : fs.Grows touched fs') (hmore : ∀ loc, touched loc → more loc) :
    fs.Grows more fs' :=
  ⟨h.plain, h.workDir,
    fun loc => (h.changed loc).imp_right (Or.imp_right (And.imp_left (hmore loc)))⟩

/-- Where only directories were made, any locations may count as touched. -/
theorem of_untouched (h : fs.Grows (fun _ => False) fs') : fs.Grows touched fs' :=
  h.mono fun _ hloc => hloc.elim

theorem trans (h : fs.Grows touched fs') (h' : fs'.Grows touched fs'') :
    fs.Grows touched fs'' := by
  refine ⟨h'.plain, h'.workDir.trans h.workDir, fun loc => ?_⟩
  rcases h'.changed loc with heq' | ⟨hnone', hdir'⟩ | ⟨htouched', hfree', content', hfile'⟩
  · rw [heq']
    exact h.changed loc
  · rcases h.changed loc with heq | ⟨-, hdir⟩ | ⟨-, -, content, hfile⟩
    · exact .inr (.inl ⟨heq ▸ hnone', hdir'⟩)
    · simp [hnone'] at hdir
    · simp [hnone'] at hfile
  · refine .inr (.inr ⟨htouched', ?_, content', hfile'⟩)
    rcases h.changed loc with heq | ⟨hnone, -⟩ | ⟨-, hfree, -⟩
    · rwa [Writable, ← heq]
    · exact writable_of_none hnone
    · exact hfree

/-- Everything that is there is kept, but for the content of files. -/
theorem kept (h : fs.Grows touched fs') (hentry : fs.get? loc = some entry)
    (hnoFile : ∀ content, entry ≠ .file content) : fs'.get? loc = some entry := by
  rcases h.changed loc with heq | ⟨hnone, -⟩ | ⟨-, hfree, -⟩
  · rw [heq, hentry]
  · simp [hentry] at hnone
  · obtain ⟨content, rfl⟩ := hfree entry hentry
    exact absurd rfl (hnoFile content)

/-- No file is gone. -/
theorem exists_isFile (h : fs.Grows touched fs') (hfile : entry.isFile = true)
    (hentry : fs.get? loc = some entry) : ∃ new, new.isFile = true ∧ fs'.get? loc = some new := by
  rcases h.changed loc with heq | ⟨hnone, -⟩ | ⟨-, -, content, hnew⟩
  · exact ⟨entry, hfile, heq ▸ hentry⟩
  · simp [hentry] at hnone
  · exact ⟨_, rfl, hnew⟩

theorem untouched (h : fs.Grows touched fs') (loc : Location) (hloc : ¬touched loc) :
    fs'.get? loc = fs.get? loc ∨ fs.get? loc = none ∧ fs'.get? loc = some .directory :=
  (h.changed loc).imp_right (Or.resolve_right · fun hboth => hloc hboth.1)

/-- What is not touched stays as it is, so a file keeps its content. -/
theorem get?_eq (h : fs.Grows touched fs') (hloc : ¬touched loc)
    (hentry : fs.get? loc = some entry) : fs'.get? loc = some entry := by
  rcases h.untouched loc hloc with heq | ⟨hnone, -⟩
  · rw [heq, hentry]
  · simp [hentry] at hnone

/-- What is there goes on being there. -/
theorem exists_get? (h : fs.Grows touched fs') (hentry : fs.get? loc = some entry) :
    ∃ entry', fs'.get? loc = some entry' := by
  rcases h.changed loc with heq | ⟨hnone, -⟩ | ⟨-, -, content, hfile⟩
  · exact ⟨entry, heq ▸ hentry⟩
  · simp [hentry] at hnone
  · exact ⟨_, hfile⟩

theorem workPath_eq (h : fs.Grows touched fs') : fs'.workPath = fs.workPath := by
  rw [workPath, h.workDir, ← workPath]

/-- A working directory goes on being there. -/
theorem currentDir_eq (h : fs.Grows touched fs') {p : Path} (hok : fs.currentDir = .ok p) :
    fs'.currentDir = .ok p := by
  rw [currentDir] at hok ⊢
  cases hget : fs.get? fs.workDir with
  | none =>
    rw [hget] at hok
    cases hok
  | some entry =>
    obtain ⟨entry', hget'⟩ := h.exists_get? hget
    rw [hget] at hok
    rw [h.workDir, hget', h.workPath_eq]
    exact hok

theorem canEnter (h : fs.Grows touched fs') {here : Location} {name : Bytes}
    (hhere : fs.CanEnter here name) : fs'.CanEnter here name := by
  obtain ⟨entry, hentry, henter⟩ := hhere
  refine ⟨entry, h.kept hentry ?_, henter⟩
  rintro content rfl
  cases henter

theorem resolveFrom_eq (hfs : fs.Plain) (h : fs.Grows touched fs') {purpose purpose' : Purpose}
    (hpurpose : purpose' = .writing → purpose = .writing) {links : Nat} {here loc : Location}
    {names : List Bytes} (hok : fs.resolveFrom purpose links here names = .ok loc) :
    fs'.resolveFrom purpose' links here names = .ok loc := by
  induction names generalizing here with
  | nil => simpa using hok
  | cons name rest ih =>
    obtain ⟨hdir, hend, hsize, hrest⟩ := hfs.resolveFrom_cons.mp hok
    have hend' : ¬(purpose' = .writing ∧ rest = [[]]) :=
      fun hboth => hend ⟨hpurpose hboth.1, hboth.2⟩
    exact h.plain.resolveFrom_cons.mpr ⟨h.canEnter hdir, hend', hsize, ih hrest⟩

/-- **A path goes on leading to its location**, and not only for writing. -/
theorem resolve_eq (hfs : fs.Plain) (h : fs.Grows touched fs') {purpose purpose' : Purpose}
    (hpurpose : purpose' = .writing → purpose = .writing) {p : Path} {loc : Location}
    (hok : fs.resolve purpose p = .ok loc) : fs'.resolve purpose' p = .ok loc := by
  obtain ⟨hnul, hbytes, hsize, hfrom⟩ := resolve_eq_ok_iff.mp hok
  refine resolve_eq_ok_iff.mpr ⟨hnul, hbytes, hsize, ?_⟩
  rw [h.workDir]
  exact h.resolveFrom_eq hfs hpurpose hfrom

end Grows

/-- Without links a path leads to its location whatever it is looked up for, unless
to write there. -/
theorem Plain.resolve_of_ne_writing {fs : FileSystem} (hfs : fs.Plain) {purpose purpose' : Purpose}
    (hpurpose : purpose' ≠ .writing) {p : Path} {loc : Location}
    (h : fs.resolve purpose p = .ok loc) : fs.resolve purpose' p = .ok loc := by
  have hstays : fs.Grows (fun _ => False) fs := .refl hfs
  exact hstays.resolve_eq hfs (absurd · hpurpose) h

/-! ### The changes of a run -/

/-- Making a directory where nothing is. -/
theorem grows_set_directory {fs : FileSystem} (hfs : fs.Plain) {dir : Location} {name : Bytes}
    (hdir : fs.get? dir = some .directory) (hfree : fs.get? (dir ++ [name]) = none) :
    fs.Grows (fun _ => False) (fs.set (dir ++ [name]) .directory) := by
  refine ⟨hfs.set hdir (writable_of_none hfree) (by simp), rfl, fun loc => ?_⟩
  rw [get?_set (by simp)]
  split
  · subst loc
    exact .inr (.inl ⟨hfree, rfl⟩)
  · exact .inl rfl

/-- Putting a file where nothing else is. -/
theorem grows_set_file {fs : FileSystem} (hfs : fs.Plain) {dir : Location} {name : Bytes}
    (hdir : fs.get? dir = some .directory) (hfree : fs.Writable (dir ++ [name]))
    (content : Bytes) :
    fs.Grows (fun loc => loc = dir ++ [name]) (fs.set (dir ++ [name]) (.file content)) := by
  refine ⟨hfs.set hdir hfree (by simp), rfl, fun loc => ?_⟩
  rw [get?_set (by simp)]
  split
  · subst loc
    exact .inr (.inr ⟨rfl, hfree, content, rfl⟩)
  · exact .inl rfl

theorem makeDir_ok {fs fs' : FileSystem} {p : Path} (h : fs.makeDir p = .ok fs') :
    ∃ loc, fs.resolve .entry (withoutSlashes p) = .ok loc ∧ fs.get? loc = none ∧
      fs' = fs.set loc .directory := by
  rw [makeDir] at h
  split_ifs at h
  split at h
  · cases h
  · rename_i loc hloc
    split at h
    · rename_i hnone
      cases h
      exact ⟨loc, hloc, hnone, rfl⟩
    · cases h

theorem writeFile_ok {fs fs' : FileSystem} {p : Path} {content : Bytes}
    (h : fs.writeFile p content = .ok fs') :
    ∃ loc, fs.resolve .writing p = .ok loc ∧
      (∀ entry, fs.get? loc = some entry → (∀ target, entry ≠ .link target) →
        ∃ old, entry = .file old) ∧
      fs' = fs.set loc (.file content) := by
  rw [writeFile] at h
  split at h
  · cases h
  · rename_i loc hloc
    refine ⟨loc, hloc, ?_⟩
    cases hget : fs.get? loc with
    | none =>
      rw [hget] at h
      exact ⟨by simp, (Except.ok.inj h).symm⟩
    | some entry =>
      rw [hget] at h
      cases entry <;> cases h <;> exact ⟨by simp, rfl⟩

/-- Without links a file is written where nothing else is. -/
theorem Plain.writeFile_ok {fs fs' : FileSystem} (hfs : fs.Plain) {p : Path}
    {content : Bytes} (h : fs.writeFile p content = .ok fs') :
    ∃ loc, fs.resolve .writing p = .ok loc ∧ fs.Writable loc ∧
      fs' = fs.set loc (.file content) := by
  obtain ⟨loc, hloc, hfree, rfl⟩ := FileSystem.writeFile_ok h
  refine ⟨loc, hloc, fun entry hentry => hfree entry hentry fun target => ?_, rfl⟩
  rintro rfl
  exact hfs.noLinks loc target hentry

theorem grows_makeDir {fs fs' : FileSystem} (hfs : fs.Plain) {p : Path}
    (h : fs.makeDir p = .ok fs') : fs.Grows (fun _ => False) fs' := by
  obtain ⟨loc, hloc, hnone, rfl⟩ := makeDir_ok h
  have hfree := writable_of_none hnone
  obtain ⟨name, dir, -, -, hdir, rfl⟩ := hfs.exists_name_of_resolve hloc hfree.noDirectory
  exact grows_set_directory hfs hdir hnone

/-- The path, its parent, the parent of that and so on. -/
inductive OnPath (path : Path) : Path → Prop
  | self : OnPath path path
  | parent {p q : Path} (h : OnPath path p) (hq : p.parent? = some q) : OnPath path q

/-- What making one directory on the path keeps, making a directory with its
parents keeps, also where it fails on the way. -/
theorem createDirAll_induction {P : FileSystem → Prop} {path : Path}
    (hmake : ∀ fs p fs', OnPath path p → P fs → fs.makeDir p = .ok fs' → P fs')
    {fs : FileSystem} (h : P fs) {p : Path} (hp : OnPath path p) : P (fs.createDirAll p).2 := by
  have hensure {fs fs' : FileSystem} {p : Path} (hp : OnPath path p) (h : P fs)
      (hok : fs.ensureDir p = .ok fs') : P fs' := by
    rw [ensureDir] at hok
    split at hok
    · rename_i hmade
      cases hok
      exact hmake fs p _ hp h hmade
    · split at hok
      · cases hok
        exact h
      · cases hok
  fun_induction createDirAll fs p with
  | case1 => exact h
  | case2 _ _ fs' hmade => exact hensure hp h hmade
  | case3 => exact h
  | case4 _ _ _ _ hq _ fs' hparent ih => simpa [hparent] using ih (hp.parent hq)
  | case5 _ _ _ _ hq _ hparent fs'' hmade ih =>
    have hmid := ih (hp.parent hq)
    rw [hparent] at hmid
    exact hensure hp hmid hmade
  | case6 _ _ _ _ hq _ hparent _ _ ih => simpa [hparent] using ih (hp.parent hq)
  | case7 => exact h

/-- Making a directory with its parents, also where it fails on the way. -/
theorem grows_createDirAll {fs : FileSystem} (hfs : fs.Plain) (p : Path) :
    fs.Grows (fun _ => False) (fs.createDirAll p).2 :=
  createDirAll_induction (P := fun fs' => fs.Grows (fun _ => False) fs')
    (fun _ _ _ _ hgrows hmade => hgrows.trans (grows_makeDir hgrows.plain hmade)) (.refl hfs)
    (.self : OnPath p p)

/-- **Writing a file** touches the location that its path leads to, and reading
the path gives what was written. -/
theorem grows_writeFile {fs fs' : FileSystem} (hfs : fs.Plain) {p : Path} {content : Bytes}
    (h : fs.writeFile p content = .ok fs') :
    ∃ name dir, p.EndsIn name ∧ Path.IsName name ∧
      fs.Grows (fun loc => loc = dir ++ [name]) fs' ∧ fs'.resolve .target p = .ok (dir ++ [name]) ∧
      fs'.get? (dir ++ [name]) = some (.file content) := by
  obtain ⟨loc, hloc, hfree, rfl⟩ := hfs.writeFile_ok h
  obtain ⟨name, dir, hends, hname, hdir, rfl⟩ := hfs.exists_name_of_resolve hloc hfree.noDirectory
  have hgrows := grows_set_file hfs hdir hfree content
  refine ⟨name, dir, hends, hname, hgrows, hgrows.resolve_eq hfs (by simp) hloc, ?_⟩
  rw [get?_set (by simp), if_pos rfl]

end FileSystem

end EnumTables
