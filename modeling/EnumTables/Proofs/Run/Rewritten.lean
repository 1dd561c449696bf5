/-
Documents that are written again.

A document is written to a file, and once it was written the file is there.  So it
can be written again, the directory included in which it lies, and nothing has to
be made for it.  When the documents of all jobs are written again in the same
order, each file gets the text that it has.

* **`Run.writeDocument_again`** — a document is written where a file is;
* **`Run.Standing`** — jobs that can be done again,
  **`Run.Standing.writeDocument`** one of them;
* **`Run.generateEach_again`** — the documents of all jobs are written again;
* **`Wrote.again`** — writing the same documents again changes nothing;
* **`Run.Progress.standing`** — what a run has done can be done again.
-/
import EnumTables.Proofs.FileSystem.Listing
import EnumTables.Proofs.FileSystem.Joined
import EnumTables.Proofs.Run.After
import EnumTables.Proofs.Run.Generate

namespace EnumTables

/-! ### Writing where a file is -/

namespace FileSystem

variable {fs : FileSystem} {p : Path} {loc : Location}

/-- A path that ends in a name can be written to. -/
theorem Plain.resolve_writing (hfs : fs.Plain) {name : Bytes} (hends : p.EndsIn name)
    (hname : name ≠ []) (h : fs.resolve .target p = .ok loc) : fs.resolve .writing p = .ok loc := by
  obtain ⟨hnul, hbytes, hsize, hfrom⟩ := resolve_eq_ok_iff.mp h
  obtain ⟨front, hsteps⟩ := hends.steps_eq hname
  refine resolve_eq_ok_iff.mpr ⟨hnul, hbytes, hsize, ?_⟩
  rw [hsteps] at hfrom ⊢
  -- to write, a path is followed in the same way, but for a slash at its end
  revert hfrom
  generalize startOf p fs.workDir = here
  intro hfrom
  clear hsteps
  induction front generalizing here with
  | nil =>
    obtain ⟨hdir, -, hmax, hrest⟩ := hfs.resolveFrom_cons.mp hfrom
    rw [resolveFrom_nil] at hrest
    exact hfs.resolveFrom_cons.mpr ⟨hdir, by simp, hmax, by rwa [resolveFrom_nil]⟩
  | cons step front ih =>
    obtain ⟨hdir, -, hmax, hrest⟩ := hfs.resolveFrom_cons.mp hfrom
    refine hfs.resolveFrom_cons.mpr ⟨hdir, ?_, hmax, ih _ hrest⟩
    rintro ⟨-, hend⟩
    have hlast := congrArg List.getLast? hend
    simp [hname] at hlast

theorem Plain.writeFile_of_file (hfs : fs.Plain) {name : Bytes} {old : List UInt8}
    (hends : p.EndsIn name) (hname : name ≠ []) (hresolve : fs.resolve .target p = .ok loc)
    (hfile : fs.get? loc = some (.file old)) (content : List UInt8) :
    fs.writeFile p content = .ok (fs.set loc (.file content)) := by
  simp [writeFile, hfs.resolve_writing hends hname hresolve, hfile]

end FileSystem

namespace Run

/-! ### Writing documents again -/

/-- **A document is written where a file is**, and nothing else is done. -/
theorem writeDocument_again {out path : Path} {written : List Path} {file : SourceFile}
    {w : World} {loc : Location} {old : List UInt8} (hfs : w.files.Plain)
    (hname : Path.IsName file.artifact.bytes)
    (hresolve : w.files.resolve .target (out.join file.artifact) = .ok loc)
    (hfile : w.files.get? loc = some (.file old)) :
    ∃ w', writeDocument out path written file w = .ok (out.join file.artifact) w' ∧
      w'.files = w.files.set loc (.file (Utf8.encode file.document.markdown)) := by
  have hends : (out.join file.artifact).EndsIn file.artifact.bytes := out.endsIn_join hname.no_slash
  -- the output directory is there, or it is the working directory
  have hmissing (hmissing : w.files.pathExists out = false) :
      w.files.createDirAll out = (.ok (), w.files) := by
    have hout : out.bytes = [] := by
      by_contra hout
      obtain ⟨dir, hdir, hdirectory, -⟩ := (hfs.resolve_join_iff hout hname).mp hresolve
      have hstat := FileSystem.stat_eq_ok_iff.mpr ⟨dir, hdir, hdirectory⟩
      simp [FileSystem.pathExists, hstat] at hmissing
    rw [FileSystem.createDirAll, if_pos hout]
  exact writeDocument_of_ok (fun _ => rfl) hmissing
    (hfs.writeFile_of_file hends hname.ne_nil hresolve hfile _)

/-- The jobs can be done again: what they were read from is there, and so is a
file for each of their documents. -/
structure Standing (out : Path) (jobs : List Job) (w : World) : Prop where
  plain : w.files.Plain
  sources : ∀ job ∈ jobs, w.files.isSource job.path = true
  reads : ∀ job ∈ jobs, Reads w job.path job.file
  targets : ∀ job ∈ jobs, job.file.document.isEmpty = false →
    Path.IsName job.file.artifact.bytes ∧ ∃ loc old,
      w.files.resolve .target (job.target out) = .ok loc ∧ w.files.get? loc = some (.file old)

namespace Standing

variable {out : Path} {job : Job} {jobs : List Job} {v w : World}

theorem of_files_eq (h : Standing out jobs w) (hfiles : v.files = w.files) :
    Standing out jobs v where
  plain := hfiles ▸ h.plain
  sources := hfiles ▸ h.sources
  reads other hother := (h.reads other hother).of_readFile_eq (by rw [hfiles])
  targets := hfiles ▸ h.targets

theorem tail (h : Standing out (job :: jobs) w) : Standing out jobs w where
  plain := h.plain
  sources := (List.forall_mem_cons.mp h.sources).2
  reads := (List.forall_mem_cons.mp h.reads).2
  targets := (List.forall_mem_cons.mp h.targets).2

/-- **One document is written again**, and the others can be. -/
theorem writeDocument (h : Standing out (job :: jobs) w) (written : List Path)
    (hdoc : job.file.document.isEmpty = false) :
    ∃ u, writeDocument out job.path written job.file w = .ok (job.target out) u ∧
      Standing out jobs u ∧ u.files.locations = w.files.locations := by
  obtain ⟨hname, loc, old, hresolve, hfile⟩ := h.targets job List.mem_cons_self hdoc
  obtain ⟨u, hok, hu⟩ : ∃ u, Run.writeDocument out job.path written job.file w =
      .ok (job.target out) u ∧ u.files = w.files.set loc _ :=
    writeDocument_again h.plain hname hresolve hfile
  have hsource := h.sources job List.mem_cons_self
  have hread := h.reads job List.mem_cons_self
  obtain ⟨-, -, dir, hgrows, -, hcontent⟩ := writeDocument_grows h.plain hsource hread hok
  have hkeeps (other : Job) (hother : other ∈ jobs) :=
    writeDocument_source h.plain hsource hread hok (h.tail.sources other hother)
  refine ⟨u, hok, ⟨hgrows.plain, fun other hother => (hkeeps other hother).1, ?_, ?_⟩, ?_⟩
  · exact fun other hother =>
      (h.tail.reads other hother).of_readFile_eq (hkeeps other hother).2.symm
  · intro other hother hotherDoc
    obtain ⟨hotherName, loc', old', hresolve', hfile'⟩ := h.tail.targets other hother hotherDoc
    refine ⟨hotherName, loc', ?_⟩
    have hstays : u.files.resolve .target (other.target out) = .ok loc' :=
      hgrows.resolve_eq h.plain (by simp) hresolve'
    -- two documents of one name have one file, and it holds the later one
    by_cases hsame : loc' = dir ++ [job.file.artifact.bytes]
    · exact ⟨_, hstays, hsame ▸ hcontent⟩
    · exact ⟨old', hstays, hgrows.get?_eq hsame hfile'⟩
  · have hloc : loc ≠ [] := by
      rintro rfl
      rw [FileSystem.get?_root] at hfile
      cases hfile
    rw [hu, FileSystem.locations_set hloc hfile]

end Standing

/-- **The documents of all files are written again**, each where a file is. -/
theorem generateEach_again {out : Path} {jobs : List Job} {w : World} (done : Report)
    (h : Standing out jobs w) :
    ∃ report w', generateEach out (jobs.map Job.path) done w = .ok report w' ∧
      w'.files.locations = w.files.locations := by
  induction jobs generalizing done w with
  | nil => exact ⟨done, w, rfl, rfl⟩
  | cons job jobs ih =>
    have hread := h.reads job List.mem_cons_self
    rw [List.map_cons]
    cases hempty : job.file.document.isEmpty with
    | true =>
      obtain ⟨v, hv, hskip⟩ := generateEach_skip hread hempty
      rw [hskip, ← hv]
      exact ih _ (h.tail.of_files_eq hv)
    | false =>
      obtain ⟨v, hv, hwrite⟩ := generateEach_write hread hempty
      obtain ⟨u, hok, hu, hlocations⟩ := (h.of_files_eq hv).writeDocument done.written hempty
      obtain ⟨report, w', hrest, hlocations'⟩ := ih _ hu
      rw [hwrite _ u hok, ← hv, ← hlocations]
      exact ⟨report, w', hrest, hlocations'⟩

end Run

/-! ### The same documents -/

namespace Wrote

variable {out : Path} {jobs : List Job} {fs mid fs' : FileSystem}

/-- Where a document was written there is a file, with the text of the last of
the documents that belong there. -/
theorem exists_content (h : Wrote out jobs fs fs') {job : Job} (hjob : job ∈ jobs) {loc : Location}
    (hloc : fs'.resolve .target (job.target out) = .ok loc) :
    ∃ last, Job.lastFor out (job.target out) jobs = some last ∧
      fs'.get? loc = some (.file (Utf8.encode last.file.document.markdown)) := by
  obtain ⟨last, -, hlast⟩ := Job.exists_lastFor (List.mem_map_of_mem hjob)
  obtain ⟨loc', hloc', hfile⟩ := FileSystem.readFile_eq_ok_iff.mp (h.content _ last hlast)
  obtain rfl : loc = loc' := Except.ok.inj (hloc.symm.trans hloc')
  exact ⟨last, hlast, hfile⟩

/-- **Writing the same documents again changes nothing**, where no location is
added. -/
theorem again (h : Wrote out jobs fs mid) (h' : Wrote out jobs mid fs') (hlisted : mid.Listed)
    (hlocations : fs'.locations = mid.locations) : fs' = mid := by
  refine hlisted.eq_of_get?_eq hlocations (fun loc => ?_) h'.grows.workDir
  by_cases htouched : ∃ job ∈ jobs, fs'.resolve .target (job.target out) = .ok loc
  · obtain ⟨job, hjob, hloc'⟩ := htouched
    obtain ⟨dir, hloc⟩ := h.located job hjob
    obtain rfl : loc = dir ++ [job.file.artifact.bytes] :=
      Except.ok.inj (hloc'.symm.trans (h'.grows.resolve_eq h.grows.plain (by simp) hloc))
    obtain ⟨last, hlast, hfile⟩ := h.exists_content hjob hloc
    obtain ⟨last', hlast', hfile'⟩ := h'.exists_content hjob hloc'
    rw [hlast, Option.some.injEq] at hlast'
    rw [hfile, hfile', hlast']
  · rcases h'.grows.untouched loc htouched with heq | ⟨hnone, hdirectory⟩
    · exact heq
    · -- a directory that was made would be a location that is added
      by_cases hroot : loc = []
      · rw [hroot, FileSystem.get?_root, FileSystem.get?_root]
      · have hmem := FileSystem.mem_locations_of_get? hroot hdirectory
        rw [hlocations] at hmem
        obtain ⟨entry, hentry⟩ := hlisted.exists_of_mem_locations hmem
        simp [hentry] at hnone

end Wrote

/-- No document has the name of a source file. -/
theorem Run.Progress.not_source {out : Path} {report : Report} {jobs : List Job} {w w' : World}
    (h : Progress out ⟨0, [], 0⟩ w jobs report w') (hfs : w.files.Plain)
    (hsources : ∀ job ∈ jobs, w.files.isSource job.path = true) (dir : Location) (stem : Bytes) :
    ¬∃ job ∈ Job.documented jobs, w'.files.resolve .target (job.target out) =
      .ok (dir ++ [stem ++ Path.dot :: FileSystem.sourceExtension]) := by
  rintro ⟨job, hjob, hloc⟩
  obtain ⟨dir', hloc'⟩ := h.wrote.located job hjob
  have hmem := List.mem_of_mem_filter hjob
  obtain ⟨-, hne⟩ := SourceFile.artifact_ne_source hfs (hsources job hmem)
    (h.reads job hmem).name_eq
  rw [hloc', Except.ok.injEq] at hloc
  exact hne stem (by simpa using List.append_inj_right' hloc rfl)

/-- What a run has done can be done again. -/
theorem Run.Progress.standing {out : Path} {report : Report} {jobs : List Job} {w w' : World}
    (h : Progress out ⟨0, [], 0⟩ w jobs report w') (hfs : w.files.Plain)
    (hsources : ∀ job ∈ jobs, w.files.isSource job.path = true) : Standing out jobs w' := by
  have hkeeps (job : Job) (hjob : job ∈ jobs) :=
    h.wrote.grows.source hfs (h.not_source hfs hsources) (hsources job hjob)
  refine ⟨h.wrote.grows.plain, fun job hjob => (hkeeps job hjob).1, fun job hjob => ?_,
    fun job hjob hdoc => ?_⟩
  · exact (h.reads job hjob).of_readFile_eq (hkeeps job hjob).2.symm
  · have hmem : job ∈ Job.documented jobs := List.mem_filter.mpr ⟨hjob, by simp [hdoc]⟩
    obtain ⟨dir, hloc⟩ := h.wrote.located job hmem
    obtain ⟨last, -, hfile⟩ := h.wrote.exists_content hmem hloc
    exact ⟨h.wrote.named job hmem, _, _, hloc, hfile⟩

end EnumTables
