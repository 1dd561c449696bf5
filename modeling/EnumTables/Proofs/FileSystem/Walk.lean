/-
What the walk below a directory finds.

The walk goes by paths: that of the root, joined with the names on the way.  Such
a path leads to what lies below the root, unless this is a link or the text of the
path is too long.  So the walk finds the source files with such paths, each once
and in the order of the names, and it fails only where a directory has a path that
is too long or is sealed.  It enters no link, so directories alone are on the way.

* **`Path.joinAll`** — a path joined with names;
* **`FileSystem.LeadsTo`** — a path that leads to a location, unless it is too
  long, **`FileSystem.LeadsTo.joinAll`** the same below it;
* **`FileSystem.Refused`** — a directory that cannot be listed;
* **`FileSystem.LeadsTo.mem_walk_iff_get?`** — what the walk finds,
  **`FileSystem.LeadsTo.mem_walk_iff`** where there are no links,
  **`FileSystem.LeadsTo.pairwise_walk`** in which order;
* **`FileSystem.LeadsTo.not_refused_of_walk`**,
  **`FileSystem.LeadsTo.walk_error`** — when it fails;
* **`FileSystem.discover_of_directory`**,
  **`FileSystem.discover_of_isFile`** — where the search starts.
-/
import EnumTables.Proofs.FileSystem.Linked
import EnumTables.Proofs.FileSystem.Sources

namespace EnumTables

namespace Path

variable {p : Path} {name : Bytes} {way : List Bytes}

/-- The path joined with names, one after the other. -/
def joinAll (p : Path) (way : List Bytes) : Path :=
  way.foldl (fun q name => q.join ⟨name⟩) p

@[simp] theorem joinAll_nil (p : Path) : p.joinAll [] = p := rfl

@[simp] theorem joinAll_cons (p : Path) (name : Bytes) (way : List Bytes) :
    p.joinAll (name :: way) = (p.join ⟨name⟩).joinAll way := rfl

theorem join_text_ne_nil (hp : p.bytes ≠ []) (hname : IsName name) :
    (p.join ⟨name⟩).bytes ≠ [] := by
  obtain ⟨slash, -, hbytes⟩ := exists_join_text hp hname
  simp [hbytes, hp]

theorem size_join (hp : p.bytes ≠ []) (hname : IsName name) :
    p.bytes.length + name.length ≤ (p.join ⟨name⟩).bytes.length ∧
      (p.join ⟨name⟩).bytes.length ≤ p.bytes.length + 1 + name.length := by
  obtain ⟨slash, hslash, hbytes⟩ := exists_join_text hp hname
  have hone : slash.length ≤ 1 := by
    rcases hslash with ⟨rfl, -⟩ | rfl <;> decide
  rw [hbytes, List.length_append, List.length_append]
  omega

end Path

namespace FileSystem

variable {fs : FileSystem} {path p : Path} {dir loc : Location} {name : Bytes} {way : List Bytes}
  {entry : Entry} {fuel : Nat} {found : List Path}

/-- What lies on the way to something is a directory. -/
theorem Rooted.directory_of_append (hfs : fs.Rooted) (hway : way ≠ [])
    (h : fs.get? (loc ++ way) = some entry) : fs.get? loc = some .directory := by
  induction way generalizing loc with
  | nil => exact absurd rfl hway
  | cons name way ih =>
    by_cases hrest : way = []
    · subst hrest
      exact hfs loc name (by simp [h])
    · have hnext : fs.get? (loc ++ [name]) = some .directory := ih hrest (by simpa using h)
      exact hfs loc name (by simp [hnext])

theorem Rooted.exists_directory_of_append (hfs : fs.Rooted)
    (h : fs.get? (loc ++ way) = some entry) (hdir : entry.isDirectory = true) :
    ∃ other, fs.get? loc = some other ∧ other.isDirectory = true := by
  by_cases hway : way = []
  · exact ⟨entry, by rwa [hway, List.append_nil] at h, hdir⟩
  · exact ⟨.directory, hfs.directory_of_append hway h, rfl⟩

/-- On the way to something there is something. -/
theorem Rooted.exists_of_append (hfs : fs.Rooted) (h : fs.get? (loc ++ way) = some entry) :
    ∃ entry, fs.get? loc = some entry := by
  by_cases hway : way = []
  · exact ⟨entry, by rwa [hway, List.append_nil] at h⟩
  · exact ⟨_, hfs.directory_of_append hway h⟩

/-- The names on the way to something are names of entries. -/
theorem Listed.isName_of_append (hlisted : fs.Listed) (hfs : fs.Rooted)
    (h : fs.get? (loc ++ way) ≠ none) : ∀ n ∈ way, Path.IsName n := by
  induction way generalizing loc with
  | nil => simp
  | cons name way ih =>
    rw [List.append_cons] at h
    obtain ⟨below, hbelow⟩ := Option.ne_none_iff_exists'.mp h
    obtain ⟨entry, hget⟩ := hfs.exists_of_append hbelow
    exact List.forall_mem_cons.mpr ⟨(hlisted.entryName hget).isName, ih h⟩

theorem names_joinAll (hp : p.bytes ≠ []) (hway : ∀ n ∈ way, Path.IsName n) :
    names (p.joinAll way) = names p ++ way := by
  induction way generalizing p with
  | nil => simp
  | cons name way ih =>
    obtain ⟨hname, hway⟩ := List.forall_mem_cons.mp hway
    rw [Path.joinAll_cons, ih (Path.join_text_ne_nil hp hname) hway, names_join hp hname,
      List.append_assoc, List.singleton_append]

/-! ### Paths below a directory -/

/-- The path leads to the location, unless its text is too long. -/
structure LeadsTo (fs : FileSystem) (path : Path) (loc : Location) : Prop where
  noNul : path.bytes.contains 0 = false
  ne_nil : path.bytes ≠ []
  resolves : path.bytes.length < pathSizeLimit → fs.resolve .target path = .ok loc

theorem leadsTo_of_resolve (h : fs.resolve .target path = .ok loc) : fs.LeadsTo path loc :=
  have hok := resolve_eq_ok_iff.mp h
  ⟨hok.1, hok.2.1, fun _ => h⟩

namespace LeadsTo

theorem resolve_eq_ok_iff (h : fs.LeadsTo path dir) :
    fs.resolve .target path = .ok loc ↔ loc = dir ∧ path.bytes.length < pathSizeLimit := by
  constructor
  · intro hok
    have hsize := (FileSystem.resolve_eq_ok_iff.mp hok).2.2.1
    rw [h.resolves hsize, Except.ok.injEq] at hok
    exact ⟨hok.symm, hsize⟩
  · rintro ⟨rfl, hsize⟩
    exact h.resolves hsize

theorem resolve_error {e : IoError} (h : fs.LeadsTo path dir)
    (herror : fs.resolve .target path = .error e) :
    e = .nameTooLong ∧ pathSizeLimit ≤ path.bytes.length := by
  have hsize : pathSizeLimit ≤ path.bytes.length := by
    by_contra hsize
    rw [h.resolves (Nat.lt_of_not_le hsize)] at herror
    cases herror
  rw [resolve, h.noNul, if_neg Bool.false_ne_true, if_neg h.ne_nil, if_pos hsize] at herror
  exact ⟨(Except.error.inj herror).symm, hsize⟩

/-- A path joined with the name of an entry leads to it, unless this is a link. -/
theorem join (h : fs.LeadsTo path dir) (hfs : fs.Rooted) (hlisted : fs.Listed)
    (hget : fs.get? (dir ++ [name]) = some entry) (hlink : ∀ target, entry ≠ .link target) :
    fs.LeadsTo (path.join ⟨name⟩) (dir ++ [name]) := by
  have hname := hlisted.entryName hget
  refine ⟨(noNul_join_iff h.ne_nil hname.isName).mpr ⟨h.noNul, hname.noNul⟩,
    Path.join_text_ne_nil h.ne_nil hname.isName, fun hsize => ?_⟩
  have hjoin := Path.size_join h.ne_nil hname.isName
  exact resolve_join (h.resolves (by omega)) (hfs dir name (by simp [hget])) hname hget hlink hsize

/-- **A path joined with the names of entries** leads to what lies below. -/
theorem joinAll (h : fs.LeadsTo path dir) (hfs : fs.Rooted) (hlisted : fs.Listed)
    (hget : fs.get? (dir ++ way) = some entry) (hlink : ∀ target, entry ≠ .link target) :
    fs.LeadsTo (path.joinAll way) (dir ++ way) := by
  induction way generalizing path dir with
  | nil => simpa using h
  | cons name way ih =>
    rw [List.append_cons] at hget ⊢
    by_cases hway : way = []
    · subst hway
      rw [List.append_nil] at hget ⊢
      exact h.join hfs hlisted hget hlink
    · have hnext := hfs.directory_of_append hway hget
      exact ih (h.join hfs hlisted hnext (by simp)) hget

/-- What is no file is no source file. -/
theorem isFile_of_isSource (h : fs.LeadsTo path loc) (hget : fs.get? loc = some entry)
    (hsource : fs.isSource path = true) : entry.isFile = true := by
  obtain ⟨loc', entry', hresolve, hget', hfile⟩ := isFile_iff.mp (Bool.and_eq_true_iff.mp hsource).1
  obtain ⟨rfl, -⟩ := h.resolve_eq_ok_iff.mp hresolve
  obtain rfl : entry = entry' := Option.some.inj (hget.symm.trans hget')
  exact hfile

theorem not_isSource (h : fs.LeadsTo path dir) (hget : fs.get? dir = some entry)
    (hdir : entry.isDirectory = true) : fs.isSource path ≠ true := by
  intro hsource
  have hnotDir := Entry.isDirectory_of_isFile (h.isFile_of_isSource hget hsource)
  exact Bool.false_ne_true (hnotDir.symm.trans hdir)

end LeadsTo

/-- Where a path leads that is joined with names. -/
theorem Plain.exists_of_resolve_joinAll (hfs : fs.Plain) (hp : p.bytes ≠ [])
    (hway : ∀ n ∈ way, Path.IsName n) (h : fs.resolve .target (p.joinAll way) = .ok loc) :
    ∃ dir, fs.resolve .target p = .ok dir ∧ loc = dir ++ way := by
  induction way generalizing p with
  | nil => exact ⟨loc, h, by simp⟩
  | cons name way ih =>
    obtain ⟨hname, hway⟩ := List.forall_mem_cons.mp hway
    obtain ⟨next, hnext, rfl⟩ := ih (Path.join_text_ne_nil hp hname) hway h
    obtain ⟨dir, hdir, -, rfl, -⟩ := (hfs.resolve_join_iff hp hname).mp hnext
    exact ⟨dir, hdir, by simp⟩

/-- A source file with a path below that of a directory lies below it. -/
theorem LeadsTo.get?_of_isSource (h : fs.LeadsTo path dir) (hfs : fs.Plain)
    (hway : ∀ n ∈ way, Path.IsName n) (hsource : fs.isSource (path.joinAll way) = true) :
    ∃ entry, fs.get? (dir ++ way) = some entry ∧ entry.isFile = true := by
  obtain ⟨stem, parent, entry, -, -, -, hresolve, hget, hfile⟩ := hfs.exists_source hsource
  obtain ⟨dir', hdir', hloc⟩ := hfs.exists_of_resolve_joinAll h.ne_nil hway hresolve
  obtain ⟨rfl, -⟩ := h.resolve_eq_ok_iff.mp hdir'
  exact ⟨entry, hloc ▸ hget, hfile⟩

/-! ### The walk -/

/-- The walk at one entry of a directory. -/
def walkEntry (fs : FileSystem) (fuel : Nat) (path : Path) (child : Bytes × Entry) :
    Except (Path × IoError) (List Path) :=
  if child.2.isDirectory then fs.walk fuel (path.join ⟨child.1⟩)
  else .ok (if fs.isSource (path.join ⟨child.1⟩) then [path.join ⟨child.1⟩] else [])

theorem walk_succ (fs : FileSystem) (fuel : Nat) (path : Path) :
    fs.walk (fuel + 1) path =
      match fs.openDir path with
      | .error e => .error (path, e)
      | .ok dir => do
        let found ← (fs.children dir).mapM (fs.walkEntry fuel path)
        return found.flatten := by
  rw [walk]
  rfl

/-- A directory at the location cannot be listed by the path: the path is too long,
or the directory is sealed. -/
inductive Refused (fs : FileSystem) (p : Path) (loc : Location) : IoError → Prop
  | long {entry : Entry} (hget : fs.get? loc = some entry) (hdir : entry.isDirectory = true)
    (hsize : pathSizeLimit ≤ p.bytes.length) : Refused fs p loc .nameTooLong
  | closed (hget : fs.get? loc = some .sealedDirectory)
    (hsize : p.bytes.length < pathSizeLimit) : Refused fs p loc .permissionDenied

theorem Refused.exists_directory {e : IoError} (h : fs.Refused p loc e) :
    ∃ entry, fs.get? loc = some entry ∧ entry.isDirectory = true := by
  cases h with
  | long hget hdir _ => exact ⟨_, hget, hdir⟩
  | closed hget _ => exact ⟨_, hget, rfl⟩

theorem openDir_eq_ok_iff :
    fs.openDir path = .ok dir ↔
      fs.resolve .target path = .ok dir ∧ fs.get? dir = some .directory := by
  rw [openDir]
  cases fs.resolve .target path with
  | error e => simp
  | ok loc => rcases hget : fs.get? loc with _ | (_ | _ | _ | _ | _) <;> grind

/-- **A directory is opened** unless it is refused. -/
theorem LeadsTo.openDir_eq (h : fs.LeadsTo path dir) (hget : fs.get? dir = some entry)
    (hdir : entry.isDirectory = true) :
    fs.openDir path = .ok dir ∧ (∀ e, ¬fs.Refused path dir e) ∨
      ∃ e, fs.openDir path = .error e ∧ fs.Refused path dir e := by
  cases hresolve : fs.resolve .target path with
  | error e =>
    obtain ⟨rfl, hsize⟩ := h.resolve_error hresolve
    exact .inr ⟨_, by rw [openDir, hresolve], .long hget hdir hsize⟩
  | ok here =>
    obtain ⟨rfl, hsize⟩ := h.resolve_eq_ok_iff.mp hresolve
    cases entry with
    | directory =>
      refine .inl ⟨openDir_eq_ok_iff.mpr ⟨hresolve, hget⟩, fun e hrefused => ?_⟩
      cases hrefused with
      | long _ _ hlong => omega
      | closed hclosed _ => simp [hget] at hclosed
    | sealedDirectory =>
      exact .inr ⟨_, by rw [openDir, hresolve]; simp only [hget], .closed hget hsize⟩
    | _ => cases hdir

theorem length_le_depth (h : (loc, entry) ∈ fs.entries) :
    loc.length ≤ fs.depth := by
  have hfold (entries : List (Location × Entry)) (d : Nat) :
      d ≤ entries.foldl (fun d e => max d e.1.length) d ∧
        ∀ e ∈ entries, e.1.length ≤ entries.foldl (fun d e => max d e.1.length) d := by
    induction entries generalizing d with
    | nil => simp
    | cons e rest ih =>
      obtain ⟨hd, hrest⟩ := ih (max d e.1.length)
      rw [List.foldl_cons]
      exact ⟨by omega, List.forall_mem_cons.mpr ⟨by omega, hrest⟩⟩
  exact (hfold fs.entries 0).2 _ h

/-- All that lies below the directory is less than `fuel` levels down. -/
def Within (fs : FileSystem) (fuel : Nat) (dir : Location) : Prop :=
  ∀ loc entry, fs.get? loc = some entry → loc.length < fuel + dir.length

theorem within_depth (fs : FileSystem) (dir : Location) : fs.Within (fs.depth + 1) dir := by
  intro loc entry hget
  by_cases hloc : loc = []
  · rw [hloc, List.length_nil]
    omega
  · have hle := length_le_depth (mem_entries_of_get? hloc hget)
    omega

theorem Within.child (h : fs.Within (fuel + 1) dir) (name : Bytes) :
    fs.Within fuel (dir ++ [name]) := by
  intro loc entry hget
  have hlt := h loc entry hget
  rw [List.length_append, List.length_singleton]
  omega

theorem Within.ne_zero (h : fs.Within fuel dir) (hget : fs.get? dir = some entry) : fuel ≠ 0 := by
  have hlt := h dir entry hget
  omega

namespace LeadsTo

/-- A walk that succeeds enters the directory and succeeds at its entries. -/
theorem walk_ok (h : fs.LeadsTo path dir) (hok : fs.walk (fuel + 1) path = .ok found) :
    (∀ e, ¬fs.Refused path dir e) ∧ ∃ lists,
      (fs.children dir).mapM (fs.walkEntry fuel path) = .ok lists ∧ found = lists.flatten := by
  rw [walk_succ] at hok
  cases hopen : fs.openDir path with
  | error e => simp [hopen] at hok
  | ok here =>
    obtain ⟨hresolve, hget⟩ := openDir_eq_ok_iff.mp hopen
    obtain ⟨rfl, -⟩ := h.resolve_eq_ok_iff.mp hresolve
    rw [hopen] at hok
    obtain ⟨lists, hlists, hfound⟩ := exists_of_bind_eq_ok hok
    cases hfound
    refine ⟨?_, lists, hlists, rfl⟩
    rcases h.openDir_eq hget rfl with ⟨-, hnot⟩ | ⟨e, herror, -⟩
    · exact hnot
    · simp [hopen] at herror

/-- What the walk finds at one entry, if it finds the source files below where
that is a directory. -/
theorem mem_walkEntry_iff {list : List Path} (h : fs.LeadsTo path dir)
    (hfs : fs.Rooted) (hlisted : fs.Listed) (hget : fs.get? (dir ++ [name]) = some entry)
    (hwalk : ∀ found, entry.isDirectory = true → fs.walk fuel (path.join ⟨name⟩) = .ok found →
      ∀ p, p ∈ found ↔ fs.isSource p = true ∧ ∃ way, way ≠ [] ∧
        fs.get? (dir ++ [name] ++ way) ≠ none ∧ p = (path.join ⟨name⟩).joinAll way)
    (hok : fs.walkEntry fuel path (name, entry) = .ok list) :
    p ∈ list ↔ fs.isSource p = true ∧ ∃ way, fs.get? (dir ++ [name] ++ way) ≠ none ∧
      p = path.joinAll (name :: way) := by
  rw [walkEntry] at hok
  split at hok
  · rename_i hdir
    rw [hwalk list hdir hok p]
    refine and_congr_right fun hsource => ⟨?_, ?_⟩
    · rintro ⟨way, -, hway, rfl⟩
      exact ⟨way, hway, rfl⟩
    · rintro ⟨way, hway, rfl⟩
      refine ⟨way, ?_, hway, rfl⟩
      -- the directory itself is no source file
      rintro rfl
      have hleads := h.join hfs hlisted hget (Entry.ne_link_of_isDirectory hdir)
      exact hleads.not_isSource hget hdir hsource
  · rename_i hdir
    obtain rfl := Except.ok.inj hok
    constructor
    · intro hp
      refine ⟨isSource_of_mem_ite hp, [], by simp [hget], ?_⟩
      split at hp
      · exact List.mem_singleton.mp hp
      · cases hp
    · rintro ⟨hsource, way, hway, rfl⟩
      -- nothing lies below a file or a link
      obtain rfl : way = [] := by
        by_contra hne
        obtain ⟨below, hbelow⟩ := Option.ne_none_iff_exists'.mp hway
        have hdirectory := hfs.directory_of_append hne hbelow
        obtain rfl := Option.some.inj (hget.symm.trans hdirectory)
        exact hdir rfl
      rw [Path.joinAll_cons, Path.joinAll_nil] at hsource ⊢
      simp [hsource]

/-- **What the walk finds**: the source files with the paths of what lies below
the directory. -/
theorem mem_walk_iff_get? (h : fs.LeadsTo path dir) (hfs : fs.Rooted) (hlisted : fs.Listed)
    (hdir : fs.get? dir = some entry) (hwithin : fs.Within fuel dir)
    (hok : fs.walk fuel path = .ok found) :
    p ∈ found ↔ fs.isSource p = true ∧ ∃ way, way ≠ [] ∧ fs.get? (dir ++ way) ≠ none ∧
      p = path.joinAll way := by
  -- on the levels that are left; below the last of them nothing lies
  induction fuel generalizing path dir found p entry with
  | zero => exact absurd rfl (hwithin.ne_zero hdir)
  | succ fuel ih =>
    obtain ⟨-, lists, hlists, rfl⟩ := h.walk_ok hok
    have hentry {name : Bytes} {entry : Entry} {list : List Path}
        (hget : fs.get? (dir ++ [name]) = some entry)
        (hlist : fs.walkEntry fuel path (name, entry) = .ok list) :=
      h.mem_walkEntry_iff (p := p) hfs hlisted hget (fun found hdirectory hwalk q =>
        ih (h.join hfs hlisted hget (Entry.ne_link_of_isDirectory hdirectory)) hget
          (hwithin.child name) hwalk) hlist
    rw [List.mem_flatten]
    constructor
    · rintro ⟨list, hlist, hp⟩
      obtain ⟨⟨name, entry⟩, hchild, hlist⟩ := exists_of_mem_mapM hlists hlist
      have hget := hlisted.mem_children_iff.mp hchild
      obtain ⟨hsource, way, hway, rfl⟩ := (hentry hget hlist).mp hp
      exact ⟨hsource, name :: way, by simp, by rwa [List.append_cons], rfl⟩
    · rintro ⟨hsource, way, hne, hway, rfl⟩
      obtain ⟨name, way, rfl⟩ := List.exists_cons_of_ne_nil hne
      rw [List.append_cons] at hway
      obtain ⟨below, hbelow⟩ := Option.ne_none_iff_exists'.mp hway
      obtain ⟨entry, hget⟩ := hfs.exists_of_append hbelow
      obtain ⟨list, hmem, hlist⟩ := exists_mem_of_mapM hlists (hlisted.mem_children_iff.mpr hget)
      exact ⟨list, hmem, (hentry hget hlist).mpr ⟨hsource, way, hway, rfl⟩⟩

/-- Where there are no links, a source file with a path below that of the
directory is there. -/
theorem mem_walk_iff (h : fs.LeadsTo path dir) (hfs : fs.Plain) (hlisted : fs.Listed)
    (hdir : fs.get? dir = some entry) (hwithin : fs.Within fuel dir)
    (hok : fs.walk fuel path = .ok found) :
    p ∈ found ↔ fs.isSource p = true ∧ ∃ way, way ≠ [] ∧ (∀ n ∈ way, Path.IsName n) ∧
      p = path.joinAll way := by
  rw [h.mem_walk_iff_get? hfs.rooted hlisted hdir hwithin hok]
  refine and_congr_right fun hsource => exists_congr fun way => and_congr_right fun _ => ?_
  constructor
  · rintro ⟨hway, rfl⟩
    exact ⟨hlisted.isName_of_append hfs.rooted hway, rfl⟩
  · rintro ⟨hway, rfl⟩
    obtain ⟨entry, hget, -⟩ := h.get?_of_isSource hfs hway hsource
    exact ⟨by simp [hget], rfl⟩

/-- **The walk enters every directory below.** -/
theorem not_refused_of_walk {e : IoError} (h : fs.LeadsTo path dir) (hfs : fs.Rooted)
    (hlisted : fs.Listed) (hwithin : fs.Within fuel dir) (hok : fs.walk fuel path = .ok found)
    (hget : fs.get? (dir ++ way) = some entry) (hdir : entry.isDirectory = true) :
    ¬fs.Refused (path.joinAll way) (dir ++ way) e := by
  induction way generalizing path dir fuel found with
  | nil =>
    rw [List.append_nil] at hget ⊢
    obtain ⟨n, rfl⟩ := Nat.exists_eq_succ_of_ne_zero (hwithin.ne_zero hget)
    exact (h.walk_ok hok).1 e
  | cons name way ih =>
    obtain ⟨there, hthere⟩ := hfs.exists_of_append hget
    obtain ⟨n, rfl⟩ := Nat.exists_eq_succ_of_ne_zero (hwithin.ne_zero hthere)
    rw [List.append_cons] at hget ⊢
    obtain ⟨next, hnext, hnextDir⟩ := hfs.exists_directory_of_append hget hdir
    obtain ⟨-, lists, hlists, -⟩ := h.walk_ok hok
    obtain ⟨list, -, hlist⟩ := exists_mem_of_mapM hlists (hlisted.mem_children_iff.mpr hnext)
    rw [walkEntry, if_pos hnextDir] at hlist
    exact ih (h.join hfs hlisted hnext (Entry.ne_link_of_isDirectory hnextDir))
      (hwithin.child name) hlist hget

/-- **The walk fails only at a directory** that is refused. -/
theorem walk_error {q : Path} {e : IoError} (h : fs.LeadsTo path dir) (hfs : fs.Rooted)
    (hlisted : fs.Listed) (hget : fs.get? dir = some entry) (hdir : entry.isDirectory = true)
    (herror : fs.walk fuel path = .error (q, e)) :
    ∃ way, q = path.joinAll way ∧ fs.Refused q (dir ++ way) e := by
  induction fuel generalizing path dir entry with
  | zero => cases herror
  | succ fuel ih =>
    rw [walk_succ] at herror
    rcases h.openDir_eq hget hdir with ⟨hopen, -⟩ | ⟨e', hopen, hrefused⟩
    · rw [hopen] at herror
      cases hlists : (fs.children dir).mapM (fs.walkEntry fuel path) with
      | ok lists => simp [hlists, bind, Except.bind, pure, Except.pure] at herror
      | error failure =>
        obtain rfl : failure = (q, e) := by
          simpa [hlists, bind, Except.bind] using herror
        obtain ⟨⟨name, next⟩, hchild, hfailed⟩ := exists_of_mapM_eq_error hlists
        have hnext := hlisted.mem_children_iff.mp hchild
        rw [walkEntry] at hfailed
        split at hfailed
        · rename_i hnextDir
          obtain ⟨way, hq, hrefused⟩ :=
            ih (h.join hfs hlisted hnext (Entry.ne_link_of_isDirectory hnextDir)) hnext hnextDir
              hfailed
          exact ⟨name :: way, hq, by rwa [List.append_cons]⟩
        · cases hfailed
    · rw [hopen] at herror
      cases herror
      exact ⟨[], rfl, by rwa [List.append_nil]⟩

/-- **The order of what is found** is that of the names on the paths. -/
theorem pairwise_walk (h : fs.LeadsTo path dir) (hfs : fs.Rooted) (hlisted : fs.Listed)
    (hdir : fs.get? dir = some entry) (hwithin : fs.Within fuel dir)
    (hok : fs.walk fuel path = .ok found) :
    found.Pairwise fun p q => names p < names q := by
  induction fuel generalizing path dir found entry with
  | zero => exact absurd rfl (hwithin.ne_zero hdir)
  | succ fuel ih =>
    obtain ⟨-, lists, hlists, rfl⟩ := h.walk_ok hok
    -- what is found at an entry has its name behind those of the path
    have hnames {name : Bytes} {entry : Entry} {list : List Path}
        (hchild : (name, entry) ∈ fs.children dir)
        (hlist : fs.walkEntry fuel path (name, entry) = .ok list) (p : Path) (hp : p ∈ list) :
        ∃ rest, names p = names path ++ name :: rest := by
      have hget := hlisted.mem_children_iff.mp hchild
      have hbelow (found : List Path) (hdirectory : entry.isDirectory = true)
          (hwalk : fs.walk fuel (path.join ⟨name⟩) = .ok found) (q : Path) :=
        (h.join hfs hlisted hget (Entry.ne_link_of_isDirectory hdirectory)).mem_walk_iff_get?
          (p := q) hfs hlisted hget (hwithin.child name) hwalk
      obtain ⟨-, rest, hrest, rfl⟩ := (h.mem_walkEntry_iff hfs hlisted hget hbelow hlist).mp hp
      rw [← List.append_cons] at hrest
      exact ⟨rest, names_joinAll h.ne_nil (hlisted.isName_of_append hfs hrest)⟩
    rw [List.pairwise_flatten]
    constructor
    · intro list hmem
      obtain ⟨⟨name, entry⟩, hchild, hlist⟩ := exists_of_mem_mapM hlists hmem
      have hget := hlisted.mem_children_iff.mp hchild
      rw [walkEntry] at hlist
      split at hlist
      · rename_i hdirectory
        exact ih (h.join hfs hlisted hget (Entry.ne_link_of_isDirectory hdirectory)) hget
          (hwithin.child name) hlist
      · cases hlist
        split <;> simp
    · -- lists of different entries differ in the name at which the paths part
      have hpairs : (lists.map Except.ok).Pairwise fun x y : Except (Path × IoError) (List Path) =>
          ∀ ps qs, x = .ok ps → y = .ok qs →
            ∀ p ∈ ps, ∀ q ∈ qs, names p < names q := by
        rw [← mapM_eq_ok_iff.mp hlists, List.pairwise_map]
        refine (hlisted.pairwise_children dir).imp_of_mem ?_
        rintro ⟨name, entry⟩ ⟨other, entry'⟩ hchild hother hlt ps qs hps hqs p hp q hq
        obtain ⟨rest, hrest⟩ := hnames hchild hps p hp
        obtain ⟨rest', hrest'⟩ := hnames hother hqs q hq
        rw [hrest, hrest']
        exact List.append_left_lt (List.cons_lt_cons_iff.mpr (.inl hlt))
      exact (List.pairwise_map.mp hpairs).imp fun hlists => hlists _ _ rfl rfl

end LeadsTo

/-! ### The search -/

/-- In a directory the search is the walk through it. -/
theorem discover_of_directory (hresolve : fs.resolve .target path = .ok dir)
    (hget : fs.get? dir = some entry) (hdir : entry.isDirectory = true) :
    fs.discover path = fs.walk (fs.depth + 1) path := by
  have htarget := stat_eq_ok_iff.mpr ⟨dir, hresolve, hget⟩
  obtain ⟨other, hother⟩ := exists_stat_entry htarget
  simp only [discover, hother, htarget, hdir, if_true]

/-- **A search that succeeds** has entered every directory below the root. -/
theorem not_refused_joinAll_of_discover {e : IoError} (hfs : fs.Rooted) (hlisted : fs.Listed)
    (hresolve : fs.resolve .target path = .ok dir) (hok : fs.discover path = .ok found) :
    ¬fs.Refused (path.joinAll way) (dir ++ way) e := by
  intro hrefused
  obtain ⟨below, hbelow, hbelowDir⟩ := hrefused.exists_directory
  obtain ⟨entry, hget, hdir⟩ := hfs.exists_directory_of_append hbelow hbelowDir
  rw [discover_of_directory hresolve hget hdir] at hok
  exact (leadsTo_of_resolve hresolve).not_refused_of_walk hfs hlisted (within_depth fs dir) hok
    hbelow hbelowDir hrefused

/-- At a file the search finds the file or nothing. -/
theorem discover_of_isFile (hloc : fs.resolve .target path = .ok loc)
    (hget : fs.get? loc = some entry) (hfile : entry.isFile = true) :
    fs.discover path =
      .ok (if path.extension? == some sourceExtension then [path] else []) := by
  have htarget := stat_eq_ok_iff.mpr ⟨loc, hloc, hget⟩
  obtain ⟨other, hother⟩ := exists_stat_entry htarget
  simp only [discover, hother, htarget, Entry.isDirectory_of_isFile hfile,
    isSource_of_isFile hloc hget hfile, Bool.false_eq_true, if_false]

/-- Two lists in the order of the names with the same members are the same. -/
theorem eq_of_pairwise_names {ps qs : List Path} (hps : ps.Pairwise fun p q => names p < names q)
    (hqs : qs.Pairwise fun p q => names p < names q) (hmem : ∀ p, p ∈ ps ↔ p ∈ qs) : ps = qs := by
  have hne {p q : Path} (hlt : names p < names q) : p ≠ q := by
    rintro rfl
    exact List.lt_irrefl _ hlt
  have hperm := (List.perm_ext_iff_of_nodup (hps.imp hne) (hqs.imp hne)).mpr hmem
  exact hperm.eq_of_pairwise (fun p q _ _ hpq hqp => absurd hpq (List.lt_asymm hqp)) hps hqs

end FileSystem

end EnumTables
