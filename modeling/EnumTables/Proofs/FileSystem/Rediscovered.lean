/-
What is found again after files were written.

Directories that were made and files that were written lie among the source
files, and the walk goes through them.  It finds the same source files as before,
since no source file was written.  It may fail, though, at a directory that was
made: its path may be too long to enter it.

* **`FileSystem.TooLong`** — the path of a directory that cannot be entered,
  **`FileSystem.MadeTooLong`** of one that was made;
* **`FileSystem.Plain.not_tooLong_of_discover`** — where the walk succeeds there
  is none;
* **`FileSystem.Grows.isSource_joinAll_iff`** — source files stay, and no others
  come up;
* **`FileSystem.Grows.discover_cases`** — what the walk finds again.
-/
import EnumTables.Proofs.FileSystem.Walk

namespace EnumTables

namespace FileSystem

variable {fs fs' : FileSystem} {touched : Location → Prop} {root p : Path} {dir loc : Location}
  {way : List Bytes} {entry : Entry} {found : List Path}

/-- The root joined with the names on the way is the path of a directory, and it
is too long to enter the directory by it. -/
def TooLong (fs : FileSystem) (root : Path) (way : List Bytes) : Prop :=
  ∃ dir, fs.resolve .target root = .ok dir ∧ fs.get? (dir ++ way) = some .directory ∧
    pathSizeLimit ≤ (root.joinAll way).bytes.length

/-- From `fs` to `fs'` a directory was made that cannot be entered by the path of
the root joined with the names on the way. -/
def MadeTooLong (fs fs' : FileSystem) (root : Path) (way : List Bytes) : Prop :=
  fs'.TooLong root way ∧ ∃ dir, fs.resolve .target root = .ok dir ∧ fs.get? (dir ++ way) = none

namespace Plain

/-- The search succeeds in a directory or at a file. -/
theorem exists_of_discover (hfs : fs.Plain) (h : fs.discover root = .ok found) :
    ∃ dir entry, fs.resolve .target root = .ok dir ∧ fs.get? dir = some entry ∧
      (entry.isDirectory = true ∨ entry.isFile = true) := by
  rw [discover] at h
  split at h
  · cases h
  · cases hstat : fs.stat .target root with
    | error e => simp [hstat] at h
    | ok entry =>
      obtain ⟨dir, hdir, hget⟩ := stat_eq_ok_iff.mp hstat
      refine ⟨dir, entry, hdir, hget, ?_⟩
      rcases entry.isFile_or_isDirectory_or_link with hfile | hdirectory | ⟨target, rfl⟩
      · exact .inr hfile
      · exact .inl hdirectory
      · exact absurd hget (hfs.noLinks dir target)

/-- **Where the walk succeeds**, every directory can be entered. -/
theorem not_tooLong_of_discover (hfs : fs.Plain) (hlisted : fs.Listed)
    (h : fs.discover root = .ok found) : ¬fs.TooLong root way := by
  rintro ⟨dir, hdir, hget, hsize⟩
  exact not_refused_joinAll_of_discover hfs.rooted hlisted hdir h (.long hget rfl hsize)

end Plain

namespace Grows

/-- **Source files stay, and no others come up.** -/
theorem isSource_joinAll_iff (h : fs.Grows touched fs') (hfs : fs.Plain) (hlisted : fs.Listed)
    (hlisted' : fs'.Listed)
    (htouched : ∀ dir stem, ¬touched (dir ++ [stem ++ Path.dot :: sourceExtension]))
    (hroot : fs.resolve .target root = .ok dir) (hway : ∀ n ∈ way, Path.IsName n) :
    fs'.isSource (root.joinAll way) = true ↔ fs.isSource (root.joinAll way) = true := by
  have hfs' := h.plain
  have hroot' := leadsTo_of_resolve (h.resolve_eq hfs (by simp) hroot)
  constructor
  · intro hsource
    obtain ⟨entry, hget', hfile⟩ := hroot'.get?_of_isSource hfs' hway hsource
    obtain ⟨stem, parent, -, -, -, -, hresolve', -⟩ := hfs'.exists_source hsource
    have hleads' := hroot'.joinAll hfs'.rooted hlisted' hget' (Entry.ne_link_of_isFile hfile)
    obtain ⟨hloc, hsize⟩ := hleads'.resolve_eq_ok_iff.mp hresolve'
    -- no source file was written, so it was there
    have hget : fs.get? (dir ++ way) = some entry := by
      rcases h.untouched (dir ++ way) (hloc ▸ htouched parent stem) with heq | ⟨-, hdirectory⟩
      · rw [← heq, hget']
      · obtain rfl := Option.some.inj (hget'.symm.trans hdirectory)
        cases hfile
    have hleads :=
      (leadsTo_of_resolve hroot).joinAll hfs.rooted hlisted hget (Entry.ne_link_of_isFile hfile)
    have hresolve := hleads.resolves hsize
    rw [isSource_of_isFile (hloc ▸ hresolve') hget' hfile] at hsource
    rwa [isSource_of_isFile hresolve hget hfile]
  · exact fun hsource => (h.source hfs htouched hsource).1

/-- A directory that is refused was made, if it was not refused before. -/
theorem eq_none_of_refused {e : IoError} (h : fs.Grows touched fs')
    (hrefused' : fs'.Refused p loc e) (hrefused : ¬fs.Refused p loc e) :
    e = .nameTooLong ∧ fs.get? loc = none ∧ fs'.get? loc = some .directory ∧
      pathSizeLimit ≤ p.bytes.length := by
  rcases h.changed loc with heq | ⟨hnone, hdirectory⟩ | ⟨-, -, content, hfile⟩
  · -- what is there was there before, and would have been refused
    refine absurd ?_ hrefused
    cases hrefused' with
    | long hget hdir hsize => exact .long (heq ▸ hget) hdir hsize
    | closed hget hsize => exact .closed (heq ▸ hget) hsize
  · cases hrefused' with
    | long hget hdir hsize => exact ⟨rfl, hnone, hdirectory, hsize⟩
    | closed hget _ => simp [hdirectory] at hget
  · obtain ⟨entry, hentry, hdir⟩ := hrefused'.exists_directory
    obtain rfl := Option.some.inj (hfile.symm.trans hentry)
    cases hdir

/-- What the search starts from stays as it is, but for the content of a file. -/
theorem exists_root (h : fs.Grows touched fs') (hget : fs.get? loc = some entry) :
    ∃ entry', fs'.get? loc = some entry' ∧ entry'.isDirectory = entry.isDirectory ∧
      entry'.isFile = entry.isFile := by
  rcases h.changed loc with heq | ⟨hnone, -⟩ | ⟨-, hfree, content, hfile⟩
  · exact ⟨entry, heq ▸ hget, rfl, rfl⟩
  · simp [hget] at hnone
  · obtain ⟨old, rfl⟩ := hfree entry hget
    exact ⟨_, hfile, rfl, rfl⟩

/-- **What is found again** after files were written, none of them source files:
the same as before, unless a directory was made whose path is too long. -/
theorem discover_cases (h : fs.Grows touched fs') (hfs : fs.Plain) (hlisted : fs.Listed)
    (hlisted' : fs'.Listed)
    (htouched : ∀ dir stem, ¬touched (dir ++ [stem ++ Path.dot :: sourceExtension]))
    (hfound : fs.discover root = .ok found) :
    fs'.discover root = .ok found ∨ ∃ way, fs.MadeTooLong fs' root way ∧
      fs'.discover root = .error (root.joinAll way, .nameTooLong) := by
  have hfs' := h.plain
  obtain ⟨dir, entry, hresolve, hget, hkind⟩ := hfs.exists_of_discover hfound
  have hresolve' : fs'.resolve .target root = .ok dir := h.resolve_eq hfs (by simp) hresolve
  obtain ⟨entry', hget', hsameDir, hsameFile⟩ := h.exists_root hget
  rcases hkind with hdir | hfile
  · have hroot := leadsTo_of_resolve hresolve
    have hroot' := leadsTo_of_resolve hresolve'
    have hdir' := hsameDir.trans hdir
    have hwalk := hfound
    rw [discover_of_directory hresolve hget hdir] at hwalk
    rw [discover_of_directory hresolve' hget' hdir']
    cases hwalk' : fs'.walk (fs'.depth + 1) root with
    | ok found' =>
      left
      congr 1
      refine eq_of_pairwise_names
        (hroot'.pairwise_walk hfs'.rooted hlisted' hget' (within_depth fs' dir) hwalk')
        (hroot.pairwise_walk hfs.rooted hlisted hget (within_depth fs dir) hwalk) fun p => ?_
      rw [hroot'.mem_walk_iff hfs' hlisted' hget' (within_depth fs' dir) hwalk',
        hroot.mem_walk_iff hfs hlisted hget (within_depth fs dir) hwalk]
      refine and_congr_left ?_
      rintro ⟨way, -, hway, rfl⟩
      exact h.isSource_joinAll_iff hfs hlisted hlisted' htouched hresolve hway
    | error failure =>
      obtain ⟨q, e⟩ := failure
      obtain ⟨way, rfl, hrefused'⟩ := hroot'.walk_error hfs'.rooted hlisted' hget' hdir' hwalk'
      obtain ⟨rfl, hnone, hdirectory, hsize⟩ := h.eq_none_of_refused hrefused'
        (not_refused_joinAll_of_discover hfs.rooted hlisted hresolve hfound)
      exact .inr ⟨way, ⟨⟨dir, hresolve', hdirectory, hsize⟩, dir, hresolve, hnone⟩, rfl⟩
  · left
    rw [← hfound, discover_of_isFile hresolve hget hfile]
    exact discover_of_isFile hresolve' hget' (hsameFile.trans hfile)

end Grows

end FileSystem

end EnumTables
