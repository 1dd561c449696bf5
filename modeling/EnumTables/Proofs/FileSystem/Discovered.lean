/-
What the search for source files finds.

The search looks at the entries that are reached from the root through directories.
Links below the root are not followed to go further; one that leads to a file counts
as that file.  Of these entries the search finds those called like source files, each
once, in the order of their paths, however the entries are listed.

The entries are looked at by their whole paths, and a path that is too long leads
nowhere.  So a file with such a path is left out, and a directory with such a path
lets the search fail, as does a directory that is sealed.

* **`FileSystem.Reached`** — the entries that are reached,
  **`FileSystem.reached_iff`** by which paths;
* **`FileSystem.Eligible`** — those that are source files,
  **`FileSystem.LeadsTo.isSource_joinAll_iff`** unless their paths are too long;
* **`Path.before_joinAll`** — the order of the paths below a root;
* **`FileSystem.discover_reached`** — what is found;
* **`FileSystem.LongRoot.left_out`** — a file that is left out.
-/
import EnumTables.Proofs.FileSystem.Relisted
import EnumTables.Proofs.Path.Order
import Mathlib.Data.List.Induction

namespace EnumTables

namespace Path

variable {p : Path} {way other : List Bytes}

theorem joinAll_concat (p : Path) (way : List Bytes) (name : Bytes) :
    p.joinAll (way ++ [name]) = (p.joinAll way).join ⟨name⟩ := by
  rw [joinAll, List.foldl_append]
  rfl

theorem components_joinAll (hp : p.bytes ≠ []) (hway : ∀ n ∈ way, IsName n) :
    (p.joinAll way).components = p.components ++ way.map .name := by
  induction way generalizing p with
  | nil => simp
  | cons name way ih =>
    obtain ⟨hname, hway⟩ := List.forall_mem_cons.mp hway
    rw [joinAll_cons, ih (join_text_ne_nil hp hname) hway, components_join hp hname]
    simp

/-- **The paths below a root** are in the order of the names on the way. -/
theorem before_joinAll (hp : p.bytes ≠ []) (hway : ∀ n ∈ way, IsName n)
    (hother : ∀ n ∈ other, IsName n)
    (h : FileSystem.names (p.joinAll way) < FileSystem.names (p.joinAll other)) :
    (p.joinAll way).Before (p.joinAll other) := by
  rw [FileSystem.names_joinAll hp hway, FileSystem.names_joinAll hp hother] at h
  have hlt (front : List Bytes) (h : front ++ way < front ++ other) : way < other := by
    induction front with
    | nil => exact h
    | cons name front ih =>
      rcases List.cons_lt_cons_iff.mp h with hname | ⟨-, hrest⟩
      · exact absurd hname (List.lt_irrefl name)
      · exact ih hrest
  rw [Before, components_joinAll hp hway, components_joinAll hp hother]
  exact lex_names p.components (hlt _ h)

/-- The name of a file with an extension. -/
theorem extension?_eq_some_iff {ext : Bytes} (hext : Path.dot ∉ ext) :
    p.extension? = some ext ↔ ∃ stem, stem ≠ [] ∧ p.fileName? = some (stem ++ Path.dot :: ext) := by
  rw [extension?, Option.bind_eq_some_iff]
  constructor
  · rintro ⟨name, hname, hsplit⟩
    obtain ⟨heq, hstem, -⟩ := splitName_eq_iff.mp (Prod.ext rfl hsplit)
    exact ⟨_, hstem, heq ▸ hname⟩
  · rintro ⟨stem, hstem, hname⟩
    exact ⟨_, hname, congrArg Prod.snd (splitName_eq_iff.mpr ⟨rfl, hstem, hext⟩)⟩

end Path

namespace FileSystem

variable {fs fs' : FileSystem} {root p : Path} {dir loc : Location} {way : List Bytes}
  {entry : Entry} {found : List Path}

/-! ### The entries that are reached -/

/-- The entries that are reached from the root, with their paths and where they
are: what the root leads to, and what is in a directory that is reached. -/
inductive Reached (fs : FileSystem) (root : Path) : Path → Location → Prop
  | root {loc : Location} (h : fs.resolve .target root = .ok loc) (hget : fs.get? loc ≠ none) :
    Reached fs root root loc
  | child {p : Path} {dir : Location} {name : Bytes} (h : Reached fs root p dir)
    (hdir : fs.get? dir = some .directory) (hget : fs.get? (dir ++ [name]) ≠ none) :
    Reached fs root (p.join ⟨name⟩) (dir ++ [name])

/-- An entry is a source file: a file, or a link that leads to one, with a name that
has the extension and something in front of it. -/
structure Eligible (fs : FileSystem) (p : Path) (loc : Location) : Prop where
  file : (∃ entry, fs.get? loc = some entry ∧ entry.isFile = true) ∨
    (∃ target, fs.get? loc = some (.link target)) ∧ fs.isFile p = true
  named : ∃ stem, stem ≠ [] ∧ p.fileName? = some (stem ++ Path.dot :: sourceExtension)

/-- What is reached has the paths of the root joined with the names on the way. -/
theorem reached_iff (hfs : fs.Rooted) (hroot : fs.resolve .target root = .ok dir) :
    fs.Reached root p loc ↔
      ∃ way, p = root.joinAll way ∧ loc = dir ++ way ∧ fs.get? (dir ++ way) ≠ none := by
  constructor
  · intro h
    induction h with
    | root hloc hget =>
      obtain rfl := Except.ok.inj (hroot.symm.trans hloc)
      exact ⟨[], rfl, by rw [List.append_nil], by rwa [List.append_nil]⟩
    | @child _ _ name _ _ hget ih =>
      obtain ⟨way, rfl, rfl, -⟩ := ih
      rw [List.append_assoc] at hget
      exact ⟨way ++ [name], (root.joinAll_concat way name).symm, List.append_assoc .., hget⟩
  · rintro ⟨way, rfl, rfl, hget⟩
    induction way using List.reverseRecOn with
    | nil =>
      rw [List.append_nil] at hget ⊢
      exact .root hroot hget
    | append_singleton way name ih =>
      rw [← List.append_assoc] at hget ⊢
      rw [Path.joinAll_concat]
      have hdir := hfs (dir ++ way) name hget
      exact .child (ih (by simp [hdir])) hdir hget

/-! ### Source files -/

theorem size_lt_of_isFile (h : fs.isFile p = true) : p.bytes.length < pathSizeLimit := by
  obtain ⟨loc, -, hresolve, -⟩ := isFile_iff.mp h
  exact (resolve_eq_ok_iff.mp hresolve).2.2.1

theorem LeadsTo.isFile_iff (h : fs.LeadsTo p loc) (hget : fs.get? loc = some entry)
    (hfile : entry.isFile = true) :
    fs.isFile p = true ↔ p.bytes.length < pathSizeLimit := by
  refine ⟨size_lt_of_isFile, fun hsize => ?_⟩
  exact FileSystem.isFile_iff.mpr ⟨loc, entry, h.resolves hsize, hget, hfile⟩

theorem isSource_iff :
    fs.isSource p = true ↔ fs.isFile p = true ∧
      ∃ stem, stem ≠ [] ∧ p.fileName? = some (stem ++ Path.dot :: sourceExtension) := by
  rw [isSource, Bool.and_eq_true, beq_iff_eq, Path.extension?_eq_some_iff (by decide)]

/-- **What is a source file**, unless its path is too long. -/
theorem LeadsTo.isSource_joinAll_iff (h : fs.LeadsTo root dir) (hfs : fs.Rooted)
    (hlisted : fs.Listed) (hget : fs.get? (dir ++ way) = some entry) :
    fs.isSource (root.joinAll way) = true ↔
      (root.joinAll way).bytes.length < pathSizeLimit ∧
        fs.Eligible (root.joinAll way) (dir ++ way) := by
  rcases entry.isFile_or_isDirectory_or_link with hfile | hdir | ⟨target, rfl⟩
  · have hisFile :=
      (h.joinAll hfs hlisted hget (Entry.ne_link_of_isFile hfile)).isFile_iff hget hfile
    rw [isSource_iff, hisFile]
    constructor
    · rintro ⟨hsize, hnamed⟩
      exact ⟨hsize, .inl ⟨entry, hget, hfile⟩, hnamed⟩
    · rintro ⟨hsize, heligible⟩
      exact ⟨hsize, heligible.named⟩
  · have hleads := h.joinAll hfs hlisted hget (Entry.ne_link_of_isDirectory hdir)
    refine iff_of_false (hleads.not_isSource hget hdir) ?_
    rintro ⟨-, heligible⟩
    rcases heligible.file with ⟨other, hother, hfile⟩ | ⟨⟨target, hlink⟩, -⟩
    · obtain rfl := Option.some.inj (hget.symm.trans hother)
      simp [Entry.isDirectory_of_isFile hfile] at hdir
    · exact Entry.ne_link_of_isDirectory hdir target (Option.some.inj (hget.symm.trans hlink))
  · rw [isSource_iff]
    constructor
    · rintro ⟨hfile, hnamed⟩
      exact ⟨size_lt_of_isFile hfile, .inr ⟨⟨target, hget⟩, hfile⟩, hnamed⟩
    · rintro ⟨-, heligible⟩
      rcases heligible.file with ⟨other, hother, hfile⟩ | ⟨-, hfile⟩
      · obtain rfl := Option.some.inj (hget.symm.trans hother)
        cases hfile
      · exact ⟨hfile, heligible.named⟩

/-! ### What is found -/

/-- The search finds what is reached and is a source file. -/
theorem mem_discover_iff (hfs : fs.Rooted) (hlisted : fs.Listed)
    (hroot : fs.resolve .target root = .ok dir) (hget : fs.get? dir = some entry)
    (hfound : fs.discover root = .ok found) :
    p ∈ found ↔
      p.bytes.length < pathSizeLimit ∧ ∃ loc, fs.Reached root p loc ∧ fs.Eligible p loc := by
  have hleads := leadsTo_of_resolve hroot
  -- in both cases what is found are the source files among the paths below the root
  have hpaths : p ∈ found ↔ fs.isSource p = true ∧
      ∃ way, fs.get? (dir ++ way) ≠ none ∧ p = root.joinAll way := by
    rcases entry.isFile_or_isDirectory_or_link with hfile | hdir | ⟨target, rfl⟩
    · rw [discover_of_isFile hroot hget hfile, Except.ok.injEq,
        ← isSource_of_isFile hroot hget hfile] at hfound
      rw [← hfound]
      constructor
      · intro hp
        refine ⟨isSource_of_mem_ite hp, [], by simp [hget], ?_⟩
        split at hp
        · exact List.mem_singleton.mp hp
        · cases hp
      · rintro ⟨hsource, way, hway, rfl⟩
        obtain rfl : way = [] := by
          by_contra hne
          obtain ⟨below, hbelow⟩ := Option.ne_none_iff_exists'.mp hway
          have hdir := hfs.directory_of_append hne hbelow
          obtain rfl := Option.some.inj (hget.symm.trans hdir)
          cases hfile
        rw [Path.joinAll_nil] at hsource ⊢
        simp [hsource]
    · rw [discover_of_directory hroot hget hdir] at hfound
      rw [hleads.mem_walk_iff_get? hfs hlisted hget (within_depth fs dir) hfound]
      refine and_congr_right fun hsource => ⟨?_, ?_⟩
      · rintro ⟨way, -, hway⟩
        exact ⟨way, hway⟩
      · rintro ⟨way, hway, rfl⟩
        refine ⟨way, ?_, hway, rfl⟩
        rintro rfl
        exact hleads.not_isSource hget hdir hsource
    · exact absurd hget (hfs.resolve_ne_link (by simp) hroot target)
  rw [hpaths]
  constructor
  · rintro ⟨hsource, way, hway, rfl⟩
    obtain ⟨below, hbelow⟩ := Option.ne_none_iff_exists'.mp hway
    obtain ⟨hsize, heligible⟩ := (hleads.isSource_joinAll_iff hfs hlisted hbelow).mp hsource
    exact ⟨hsize, _, (reached_iff hfs hroot).mpr ⟨way, rfl, rfl, hway⟩, heligible⟩
  · rintro ⟨hsize, loc, hreached, heligible⟩
    obtain ⟨way, rfl, rfl, hway⟩ := (reached_iff hfs hroot).mp hreached
    obtain ⟨below, hbelow⟩ := Option.ne_none_iff_exists'.mp hway
    exact ⟨(hleads.isSource_joinAll_iff hfs hlisted hbelow).mpr ⟨hsize, heligible⟩, way, hway, rfl⟩

/-- What the search finds comes in the order of the paths. -/
theorem pairwise_discover (hfs : fs.Rooted) (hlisted : fs.Listed)
    (hroot : fs.resolve .target root = .ok dir) (hget : fs.get? dir = some entry)
    (hfound : fs.discover root = .ok found) : found.Nodup ∧ found.Pairwise Path.Before := by
  have hleads := leadsTo_of_resolve hroot
  rcases entry.isFile_or_isDirectory_or_link with hfile | hdir | ⟨target, rfl⟩
  · rw [discover_of_isFile hroot hget hfile, Except.ok.injEq] at hfound
    rw [← hfound]
    split <;> simp
  · rw [discover_of_directory hroot hget hdir] at hfound
    have hnames := hleads.pairwise_walk hfs hlisted hget (within_depth fs dir) hfound
    refine ⟨hnames.imp fun {p q} hlt => ?_, hnames.imp_of_mem fun {p q} hp hq hlt => ?_⟩
    · rintro rfl
      exact List.lt_irrefl _ hlt
    · have hpath {p : Path} (hp : p ∈ found) :
          ∃ way, p = root.joinAll way ∧ ∀ n ∈ way, Path.IsName n := by
        obtain ⟨-, way, -, hway, rfl⟩ :=
          (hleads.mem_walk_iff_get? hfs hlisted hget (within_depth fs dir) hfound).mp hp
        exact ⟨way, rfl, hlisted.isName_of_append hfs hway⟩
      obtain ⟨way, rfl, hway⟩ := hpath hp
      obtain ⟨other, rfl, hother⟩ := hpath hq
      exact Path.before_joinAll hleads.ne_nil hway hother hlt
  · exact absurd hget (hfs.resolve_ne_link (by simp) hroot target)

/-- The search fails only at a directory that is refused. -/
theorem discover_error {q : Path} {e : IoError} (hfs : fs.Rooted) (hlisted : fs.Listed)
    (hroot : fs.resolve .target root = .ok dir) (hget : fs.get? dir = some entry)
    (herror : fs.discover root = .error (q, e)) :
    ∃ loc, fs.Reached root q loc ∧ fs.Refused q loc e := by
  rcases entry.isFile_or_isDirectory_or_link with hfile | hdir | ⟨target, rfl⟩
  · rw [discover_of_isFile hroot hget hfile] at herror
    cases herror
  · rw [discover_of_directory hroot hget hdir] at herror
    obtain ⟨way, rfl, hrefused⟩ :=
      (leadsTo_of_resolve hroot).walk_error hfs hlisted hget hdir herror
    obtain ⟨below, hbelow, -⟩ := hrefused.exists_directory
    exact ⟨dir ++ way, (reached_iff hfs hroot).mpr ⟨way, rfl, rfl, by simp [hbelow]⟩, hrefused⟩
  · exact absurd hget (hfs.resolve_ne_link (by simp) hroot target)

/-- A search that succeeds has entered every directory that is reached. -/
theorem not_refused_of_discover {e : IoError} (hfs : fs.Rooted) (hlisted : fs.Listed)
    (hroot : fs.resolve .target root = .ok dir) (hfound : fs.discover root = .ok found)
    (hreached : fs.Reached root p loc) : ¬fs.Refused p loc e := by
  obtain ⟨way, rfl, rfl, -⟩ := (reached_iff hfs hroot).mp hreached
  exact not_refused_joinAll_of_discover hfs hlisted hroot hfound

/-- **What the search finds**: below a root that is there, the source files that are
reached, each once and in the order of their paths, however the entries are listed.
Files with paths that are too long are left out.  The search fails if and only if a
directory that is reached is refused, since its path is too long or it is sealed. -/
theorem discover_reached (fs : FileSystem) (root : Path) (hfs : fs.Rooted) (hlisted : fs.Listed)
    (hthere : fs.pathExists root = true) :
    ((∃ found, fs.discover root = .ok found) ↔
      ∀ p loc e, fs.Reached root p loc → ¬fs.Refused p loc e) ∧
    (∀ q e, fs.discover root = .error (q, e) →
      ∃ loc, fs.Reached root q loc ∧ fs.Refused q loc e) ∧
    (∀ found, fs.discover root = .ok found →
      (∀ p, p ∈ found ↔ p.bytes.length < pathSizeLimit ∧
        ∃ loc, fs.Reached root p loc ∧ fs.Eligible p loc) ∧
      found.Nodup ∧ found.Pairwise Path.Before) ∧
    ∀ fs', fs.Relists fs' → fs'.discover root = fs.discover root := by
  obtain ⟨dir, entry, hroot, hget⟩ := pathExists_iff.mp hthere
  have herror (q : Path) (e : IoError) (h : fs.discover root = .error (q, e)) :=
    discover_error hfs hlisted hroot hget h
  refine ⟨⟨?_, ?_⟩, herror, fun found hfound => ?_, fun fs' h => h.discover_eq hlisted root⟩
  · rintro ⟨found, hfound⟩ p loc e hreached
    exact not_refused_of_discover hfs hlisted hroot hfound hreached
  · intro hopen
    cases hfound : fs.discover root with
    | ok found => exact ⟨found, rfl⟩
    | error failure =>
      obtain ⟨loc, hreached, hrefused⟩ := herror _ _ hfound
      exact absurd hrefused (hopen _ loc _ hreached)
  · exact ⟨fun p => mem_discover_iff hfs hlisted hroot hget hfound,
      pairwise_discover hfs hlisted hroot hget hfound⟩

/-- A file beside a directory of almost the same name, a link to a file and a link to
a directory. -/
def linked : FileSystem where
  entries := [
    (["a.java".toList], .file []),
    (["a".toList], .directory),
    (["a".toList, "B.java".toList], .file []),
    (["a".toList, "notes.md".toList], .file []),
    (["C.java".toList], .link (.ofString "a/B.java")),
    (["d".toList], .link (.ofString "a"))]
  workDir := []

/-- The directory comes in front of the file beside it, though the bytes of the paths
are in the other order.  The link to it is not entered. -/
theorem discover_reached_linked :
    linked.Rooted ∧ linked.Listed ∧ linked.pathExists (.ofString ".") = true ∧
      linked.discover (.ofString ".") =
        .ok [.ofString "./C.java", .ofString "./a/B.java", .ofString "./a.java"] ∧
      (∀ p, p ∈ [Path.ofString "./C.java", .ofString "./a/B.java", .ofString "./a.java"] ↔
        p.bytes.length < pathSizeLimit ∧
          ∃ loc, linked.Reached (.ofString ".") p loc ∧ linked.Eligible p loc) ∧
      (Path.ofString "./a/B.java").Before (.ofString "./a.java") := by
  have hrooted : linked.Rooted := .of_entries (by decide)
  have hlisted : linked.Listed := .of_locations (by decide) (by decide)
  have hthere : linked.pathExists (.ofString ".") = true := by decide +kernel
  have hfound : linked.discover (.ofString ".") =
      .ok [.ofString "./C.java", .ofString "./a/B.java", .ofString "./a.java"] := by
    decide +kernel
  obtain ⟨hmem, -, hbefore⟩ :=
    (discover_reached linked (.ofString ".") hrooted hlisted hthere).2.2.1 _ hfound
  exact ⟨hrooted, hlisted, hthere, hfound, hmem,
    (List.pairwise_cons.mp (List.pairwise_cons.mp hbefore).2).1 _ (by simp)⟩

/-! ### A file that is left out -/

namespace LongRoot

/-- One source file. -/
def files : FileSystem where
  entries := [(["E.java".toList], .file [])]
  workDir := []

/-- A path that stays where it is `n` times. -/
def stay (n : Nat) : Path :=
  ⟨(List.replicate n [Path.dot, Path.slash]).flatten⟩

theorem splitOn_stay (n : Nat) :
    Text.splitOn Path.slash (stay n).bytes = List.replicate n [Path.dot] ++ [[]] := by
  induction n with
  | zero => rfl
  | succ n ih =>
    have hcons : (stay (n + 1)).bytes = [Path.dot] ++ Path.slash :: (stay n).bytes := rfl
    rw [hcons, Text.splitOn_append_cons, ih]
    rfl

theorem steps_stay (n : Nat) : ∀ step ∈ steps (stay n), step = [] ∨ step = [Path.dot] := by
  intro step hstep
  rw [steps, splitOn_stay] at hstep
  rcases List.mem_append.mp hstep with hname | hlast
  · rcases List.mem_append.mp (List.mem_of_mem_filter hname) with hname | hname
    · exact .inr (List.eq_of_mem_replicate hname)
    · exact .inl (List.mem_singleton.mp hname)
  · split at hlast
    · exact .inl (List.mem_singleton.mp hlast)
    · cases hlast

theorem length_stay (n : Nat) : (stay n).bytes.length = 2 * n := by
  induction n with
  | zero => rfl
  | succ n ih =>
    have hcons : (stay (n + 1)).bytes = [Path.dot, Path.slash] ++ (stay n).bytes := rfl
    rw [hcons, List.length_append, ih, List.length_cons, List.length_singleton]
    omega

theorem resolve_stay {n : Nat} (hpos : 0 < n) (hsize : 2 * n < pathSizeLimit) :
    files.resolve .target (stay n) = .ok [] := by
  have hfrom (steps : List Bytes) (hsteps : ∀ step ∈ steps, step = [] ∨ step = [Path.dot]) :
      files.resolveFrom .target maxLinks [] steps = .ok [] := by
    induction steps with
    | nil => exact resolveFrom_nil
    | cons step steps ih =>
      obtain ⟨hstep, hsteps⟩ := List.forall_mem_cons.mp hsteps
      have hmay : files.MayStep .target [] step steps :=
        .of_ne_writing (canEnter_of_directory (get?_root files) step) (by decide)
      rw [hmay.resolveFrom_stay hstep]
      exact ih hsteps
  have hchars : ∀ c ∈ (stay n).bytes, c = Path.dot ∨ c = Path.slash := by
    intro c hc
    obtain ⟨two, htwo, hc⟩ := List.mem_flatten.mp hc
    rw [List.eq_of_mem_replicate htwo] at hc
    exact List.mem_pair.mp hc
  refine resolve_eq_ok_iff.mpr ⟨?_, fun hnil => ?_, by rwa [length_stay], ?_⟩
  · rw [List.contains_eq_mem, decide_eq_false_iff_not]
    intro hnul
    rcases hchars _ hnul with h | h <;> cases h
  · have hzero := length_stay n
    rw [hnil, List.length_nil] at hzero
    omega
  · have hstart : startOf (stay n) files.workDir = [] := by rw [startOf, files, ite_self]
    rw [hstart]
    exact hfrom _ (steps_stay n)

/-- **A file that is left out.**  It is a source file and reached from the root, but
its path has one byte too many. -/
theorem left_out :
    files.Rooted ∧ files.Listed ∧ files.pathExists (stay 2045) = true ∧
      files.Reached (stay 2045) ((stay 2045).join ⟨"E.java".toList⟩) ["E.java".toList] ∧
      files.Eligible ((stay 2045).join ⟨"E.java".toList⟩) ["E.java".toList] ∧
      files.discover (stay 2045) = .ok [] := by
  have hname : EntryName "E.java".toList := by decide
  have hroot : files.resolve .target (stay 2045) = .ok [] :=
    resolve_stay (by decide) (by decide)
  have hne := (leadsTo_of_resolve hroot).ne_nil
  have hlong : files.isSource ((stay 2045).join ⟨"E.java".toList⟩) = false := by
    rw [Bool.eq_false_iff]
    intro hsource
    have hsize := size_lt_of_isFile (isSource_iff.mp hsource).1
    have hjoin := (Path.size_join hne hname.isName).1
    have hstay := length_stay 2045
    have hsix : (Utf8.encode "E.java".toList).length = 6 := by decide
    have hlimit : pathSizeLimit = 4096 := rfl
    omega
  refine ⟨.of_entries (by decide), .of_locations (by decide) (by decide),
    pathExists_iff.mpr ⟨[], .directory, hroot, rfl⟩,
    .child (.root hroot (by decide)) rfl (by decide),
    ⟨.inl ⟨_, rfl, rfl⟩, "E".toList, by decide, ?_⟩, ?_⟩
  · exact ((stay 2045).endsIn_join hname.isName.no_slash).fileName?_eq hname.isName
  · have hchildren : files.children [] = [(Utf8.encode "E.java".toList, .file [])] := by
      decide +kernel
    have hentry : files.walkEntry 1 (stay 2045) ("E.java".toList, .file []) = .ok [] := by
      rw [walkEntry, hlong]
      rfl
    have hlists : (files.children []).mapM (files.walkEntry 1 (stay 2045)) = .ok [[]] := by
      rw [hchildren, mapM_eq_ok_iff, List.map_cons, hentry]
      rfl
    have hdepth : files.depth + 1 = 2 := rfl
    rw [discover_of_directory hroot rfl rfl, hdepth, walk_succ,
      openDir_eq_ok_iff.mpr ⟨hroot, rfl⟩]
    dsimp only
    rw [hlists]
    rfl

end LongRoot

end FileSystem

end EnumTables
