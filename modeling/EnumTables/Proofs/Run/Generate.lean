/-
What `generate` reports is what it has done.

Source files are read and documents written in turn, and the documents may lie
among the source files.  Still every source file is read as it was at the
start: no document has the name of a source file, and making directories and
writing files changes nothing else.  Of several documents with one name the last
one stays, and each of the others is reported as overwritten.

In these file systems a file has one name, rights are all or nothing, and a file is
written as a whole or not at all.

* **`Job`** — a source file that was found, and what was read from it;
* **`Wrote`** — what is true of the file system after the documents of some
  jobs were written, **`Wrote.cons`** one more document in front of them;
* **`Run.writeDocument_source`** — a document changes no source file;
* **`Run.Progress`** — how far a run over the files has come, with a step for
  each kind of file, and **`Run.generate_progress`** the whole of it;
* **`Report.Describes`** — what a report says about a run;
* **`generate_describes`** — the report of `generate` says it.
-/
import EnumTables.Proofs.FileSystem.Sources
import EnumTables.Proofs.Run.Steps
import Mathlib.Algebra.GroupWithZero.Nat
import Mathlib.Data.Finset.Card

namespace EnumTables

/-- A source file that was found, and what was read from it. -/
structure Job where
  path : Path
  file : SourceFile
  deriving DecidableEq, Repr

namespace Job

/-- The path that the document of a job is written to. -/
def target (out : Path) (job : Job) : Path :=
  out.join job.file.artifact

/-- The jobs with documented enums; no document is written for the others. -/
def documented (jobs : List Job) : List Job :=
  jobs.filter fun job => !job.file.document.isEmpty

/-- The last of the jobs whose document is written to a path. -/
def lastFor (out path : Path) (jobs : List Job) : Option Job :=
  jobs.reverse.find? fun job => job.target out = path

theorem lastFor_cons (out path : Path) (job : Job) (jobs : List Job) :
    lastFor out path (job :: jobs) =
      (lastFor out path jobs).or (if job.target out = path then some job else none) := by
  simp [lastFor, List.find?_append, List.find?_singleton]

theorem exists_lastFor {out path : Path} {jobs : List Job} (h : path ∈ jobs.map (target out)) :
    ∃ job, job ∈ jobs ∧ lastFor out path jobs = some job := by
  obtain ⟨job, hjob, rfl⟩ := List.mem_map.mp h
  cases hlast : lastFor out (job.target out) jobs with
  | none =>
    have hnone := List.find?_eq_none.mp hlast job (List.mem_reverse.mpr hjob)
    simp at hnone
  | some last => exact ⟨last, List.mem_reverse.mp (List.mem_of_find?_eq_some hlast), rfl⟩

end Job

/-! ### Writing documents -/

/-- From `fs` to `fs'` the documents of the jobs were written, one after the
other. -/
structure Wrote (out : Path) (jobs : List Job) (fs fs' : FileSystem) : Prop where
  named : ∀ job ∈ jobs, Path.IsName job.file.artifact.bytes
  located : ∀ job ∈ jobs, ∃ dir,
    fs'.resolve .target (job.target out) = .ok (dir ++ [job.file.artifact.bytes])
  grows : fs.Grows (fun loc => ∃ job ∈ jobs, fs'.resolve .target (job.target out) = .ok loc) fs'
  content : ∀ path job, Job.lastFor out path jobs = some job →
    fs'.readFile path = .ok (Utf8.encode job.file.document.markdown)
  nothing : jobs = [] → fs' = fs

namespace Wrote

variable {out : Path} {job : Job} {jobs : List Job} {fs mid fs' : FileSystem}

theorem nil (hfs : fs.Plain) : Wrote out [] fs fs where
  named := by simp
  located := by simp
  grows := .refl hfs
  content := by simp [Job.lastFor]
  nothing _ := rfl

/-- **One more document in front of others.**  It is there in the end, unless
one of the others has the same path. -/
theorem cons {dir : Location} (hname : Path.IsName job.file.artifact.bytes)
    (hgrows : fs.Grows (fun loc => loc = dir ++ [job.file.artifact.bytes]) mid)
    (hloc : mid.resolve .target (job.target out) = .ok (dir ++ [job.file.artifact.bytes]))
    (hcontent : mid.get? (dir ++ [job.file.artifact.bytes]) =
      some (.file (Utf8.encode job.file.document.markdown)))
    (h : Wrote out jobs mid fs') : Wrote out (job :: jobs) fs fs' := by
  have hloc' : fs'.resolve .target (job.target out) = .ok (dir ++ [job.file.artifact.bytes]) :=
    h.grows.resolve_eq hgrows.plain (by simp) hloc
  refine ⟨?_, ?_, ?_, ?_, by simp⟩
  · exact List.forall_mem_cons.mpr ⟨hname, h.named⟩
  · exact List.forall_mem_cons.mpr ⟨⟨dir, hloc'⟩, h.located⟩
  · refine (hgrows.mono ?_).trans (h.grows.mono ?_)
    · rintro loc rfl
      exact ⟨job, List.mem_cons_self, hloc'⟩
    · rintro loc ⟨other, hother, hotherLoc⟩
      exact ⟨other, List.mem_cons_of_mem job hother, hotherLoc⟩
  · intro path last hlast
    rw [Job.lastFor_cons, Option.or_eq_some_iff] at hlast
    rcases hlast with hlast | ⟨hnone, hlast⟩
    · exact h.content path last hlast
    · obtain ⟨rfl, rfl⟩ : job.target out = path ∧ job = last := by
        simpa using hlast
      refine FileSystem.readFile_eq_ok_iff.mpr ⟨_, hloc', h.grows.get?_eq ?_ hcontent⟩
      -- the others have other names, so they lie elsewhere
      rintro ⟨other, hother, hotherLoc⟩
      obtain ⟨dir', hdir'⟩ := h.located other hother
      rw [hotherLoc, Except.ok.injEq] at hdir'
      have htext : job.file.artifact.bytes = other.file.artifact.bytes := by
        simpa using List.append_inj_right' hdir' rfl
      have hsame : other.target out = job.target out :=
        congrArg (fun name => out.join ⟨name⟩) htext.symm
      have hfind := List.find?_eq_none.mp hnone other (List.mem_reverse.mpr hother)
      simp [hsame] at hfind

end Wrote

/-- A directory is made where nothing is. -/
theorem FileSystem.grows_withDirectory {fs : FileSystem} (hfs : fs.Plain)
    (dir : Path) : fs.Grows (fun _ => False) (fs.withDirectory dir) := by
  rw [FileSystem.withDirectory]
  split
  · exact .refl hfs
  · exact FileSystem.grows_createDirAll hfs dir

namespace Run

/-- **What writing one document changes**: a file in some directory, with the
name of no source file. -/
theorem writeDocument_grows {out path target : Path} {written : List Path} {file : SourceFile}
    {w w' : World} (hfs : w.files.Plain) (hsource : w.files.isSource path = true)
    (hread : Reads w path file) (h : writeDocument out path written file w = .ok target w') :
    Path.IsName file.artifact.bytes ∧
      (∀ stem, file.artifact.bytes ≠ stem ++ Path.dot :: FileSystem.sourceExtension) ∧
      ∃ dir, w.files.Grows (fun loc => loc = dir ++ [file.artifact.bytes]) w'.files ∧
        w'.files.resolve .target target = .ok (dir ++ [file.artifact.bytes]) ∧
        w'.files.get? (dir ++ [file.artifact.bytes]) =
          some (.file (Utf8.encode file.document.markdown)) := by
  obtain ⟨rfl, -, hwrite⟩ := writeDocument_ok h
  obtain ⟨hslash, hne⟩ := SourceFile.artifact_ne_source hfs hsource hread.name_eq
  have hmake := FileSystem.grows_withDirectory hfs out
  obtain ⟨name, dir, hends, hname, hgrows, hloc, hcontent⟩ :=
    FileSystem.grows_writeFile hmake.plain hwrite
  obtain rfl : file.artifact.bytes = name := (out.endsIn_join hslash).unique hends
  exact ⟨hname, hne, dir, (hmake.mono fun _ h => h.elim).trans hgrows, hloc, hcontent⟩

/-- **No document changes a source file.** -/
theorem writeDocument_source {out path target other : Path} {written : List Path}
    {file : SourceFile} {w w' : World} (hfs : w.files.Plain)
    (hsource : w.files.isSource path = true) (hread : Reads w path file)
    (h : writeDocument out path written file w = .ok target w')
    (hother : w.files.isSource other = true) :
    w'.files.isSource other = true ∧ w'.files.readFile other = w.files.readFile other := by
  obtain ⟨-, hne, dir, hgrows, -, -⟩ := writeDocument_grows hfs hsource hread h
  refine hgrows.source hfs ?_ hother
  intro dir' stem heq
  have hname : stem ++ Path.dot :: FileSystem.sourceExtension = file.artifact.bytes := by
    simpa using List.append_inj_right' heq rfl
  exact hne stem hname.symm

/-! ### Counting what is overwritten -/

/-- A document is reported as overwriting another one if its path has been
written before. -/
theorem any_same_iff {out : Path} {written : List Path} {file : SourceFile}
    (hname : Path.IsName file.artifact.bytes)
    (hwritten : ∀ t ∈ written, ∃ name, Path.IsName name ∧ t = out.join ⟨name⟩) :
    written.any (out.join file.artifact).same = true ↔ out.join file.artifact ∈ written := by
  constructor
  · intro h
    obtain ⟨t, ht, hsame⟩ := List.any_eq_true.mp h
    obtain ⟨name, hother, rfl⟩ := hwritten t ht
    obtain rfl := Path.eq_of_same_join hname hother hsame
    exact ht
  · intro h
    exact List.any_eq_true.mpr ⟨_, h, beq_self_eq_true _⟩

theorem card_concat (written : List Path) (t : Path) :
    (if t ∈ written then 1 else 0) + (written ++ [t]).toFinset.card =
      1 + written.toFinset.card := by
  have hinsert : (written ++ [t]).toFinset = insert t written.toFinset := by
    ext u
    simp
  rw [hinsert]
  split
  · rename_i hmem
    rw [Finset.insert_eq_of_mem (List.mem_toFinset.mpr hmem)]
  · rename_i hmem
    rw [Finset.card_insert_of_notMem (mt List.mem_toFinset.mp hmem)]
    omega

/-! ### The run over all files -/

/-- From the report `done` and the world `w` on, the jobs were done, each read
in the world `w`. -/
structure Progress (out : Path) (done : Report) (w : World) (jobs : List Job) (report : Report)
    (w' : World) : Prop where
  reads : ∀ job ∈ jobs, Reads w job.path job.file
  wrote : Wrote out (Job.documented jobs) w.files w'.files
  scanned : report.scanned = done.scanned + jobs.length
  written : report.written = done.written ++ (Job.documented jobs).map (Job.target out)
  tables : report.tables =
    done.tables + ((Job.documented jobs).map fun job => job.file.document.tables.length).sum
  overwrites : ∃ n, w.Logs n w' ∧ n + report.written.toFinset.card =
    (Job.documented jobs).length + done.written.toFinset.card

namespace Progress

variable {out path target : Path} {done report : Report} {jobs : List Job} {file : SourceFile}
  {u v w w' : World}

theorem nil (hfs : w.files.Plain) : Progress out done w [] done w where
  reads := by simp
  wrote := .nil hfs
  scanned := rfl
  written := by simp [Job.documented]
  tables := rfl
  overwrites := ⟨0, .refl, rfl⟩

/-- A file without documented enums, and then other files. -/
theorem skip (hread : Reads w path file) (hempty : file.document.isEmpty = true)
    (hfiles : v.files = w.files) (hlog : w.Logs 0 v)
    (h : Progress out { done with scanned := done.scanned + 1 } v jobs report w') :
    Progress out done w (⟨path, file⟩ :: jobs) report w' := by
  have hdocumented : Job.documented (⟨path, file⟩ :: jobs) = Job.documented jobs := by
    simp [Job.documented, hempty]
  obtain ⟨n, hlogs, hcount⟩ := h.overwrites
  refine ⟨List.forall_mem_cons.mpr ⟨hread, ?_⟩, ?_, ?_, ?_, ?_, n, ?_, ?_⟩
  · intro job hjob
    exact (h.reads job hjob).of_readFile_eq (by rw [hfiles])
  · rw [hdocumented, ← hfiles]
    exact h.wrote
  · rw [h.scanned, List.length_cons, Nat.add_right_comm, Nat.add_assoc]
  · rw [hdocumented, h.written]
  · rw [hdocumented, h.tables]
  · simpa using hlog.trans hlogs
  · rw [hdocumented, hcount]

/-- A file whose document is written, and then other files. -/
theorem write (hfs : v.files.Plain) (hsource : v.files.isSource path = true)
    (hsources : ∀ job ∈ jobs, v.files.isSource job.path = true)
    (hdone : ∀ t ∈ done.written, ∃ name, Path.IsName name ∧ t = out.join ⟨name⟩)
    (hread : Reads w path file) (hdoc : file.document.isEmpty = false)
    (hfiles : v.files = w.files) (hlog : w.Logs 0 v)
    (hwrite : writeDocument out path done.written file v = .ok target u)
    (h : Progress out ⟨done.scanned + 1, done.written ++ [target],
      done.tables + file.document.tables.length⟩ u jobs report w') :
    Progress out done w (⟨path, file⟩ :: jobs) report w' := by
  have hdocumented : Job.documented (⟨path, file⟩ :: jobs) =
      ⟨path, file⟩ :: Job.documented jobs := by
    simp [Job.documented, hdoc]
  have hreadv : Reads v path file := hread.of_readFile_eq (by rw [hfiles])
  obtain ⟨hname, -, dir, hgrows, hloc, hcontent⟩ := writeDocument_grows hfs hsource hreadv hwrite
  obtain ⟨rfl, hwriteLog, -⟩ := writeDocument_ok hwrite
  obtain ⟨n, hlogs, hcount⟩ := h.overwrites
  refine ⟨List.forall_mem_cons.mpr ⟨hread, ?_⟩, ?_, ?_, ?_, ?_, _,
    (hlog.trans hwriteLog).trans hlogs, ?_⟩
  · intro job hjob
    refine (h.reads job hjob).of_readFile_eq ?_
    rw [(writeDocument_source hfs hsource hreadv hwrite (hsources job hjob)).2, hfiles]
  · rw [hdocumented, ← hfiles]
    exact h.wrote.cons hname hgrows hloc hcontent
  · rw [h.scanned, List.length_cons, Nat.add_right_comm, Nat.add_assoc]
  · rw [hdocumented, h.written, List.map_cons, List.append_assoc]
    rfl
  · rw [hdocumented, h.tables, List.map_cons, List.sum_cons, Nat.add_assoc]
  · have hcard := card_concat done.written (out.join file.artifact)
    simp only [any_same_iff hname hdone]
    rw [hdocumented, List.length_cons]
    dsimp only at hcount
    omega

/-- What only adds to the log may be done before and after. -/
theorem around (h : Progress out done u jobs report v) (hu : u.files = w.files) (hulog : w.Logs 0 u)
    (hv : w'.files = v.files) (hvlog : v.Logs 0 w') : Progress out done w jobs report w' := by
  obtain ⟨n, hlogs, hcount⟩ := h.overwrites
  refine ⟨?_, ?_, h.scanned, h.written, h.tables, n, ?_, hcount⟩
  · intro job hjob
    exact (h.reads job hjob).of_readFile_eq (by rw [hu])
  · rw [← hu, hv]
    exact h.wrote
  · simpa using (hulog.trans hlogs).trans hvlog

end Progress

/-- **The run over all files that were found**, all of them source files. -/
theorem generateEach_progress {out : Path} {paths : List Path} {done report : Report}
    {w w' : World} (h : generateEach out paths done w = .ok report w') (hfs : w.files.Plain)
    (hsources : ∀ p ∈ paths, w.files.isSource p = true)
    (hdone : ∀ t ∈ done.written, ∃ name, Path.IsName name ∧ t = out.join ⟨name⟩) :
    ∃ jobs, jobs.map Job.path = paths ∧ Progress out done w jobs report w' := by
  induction paths generalizing done w with
  | nil =>
    cases h
    exact ⟨[], rfl, .nil hfs⟩
  | cons path paths ih =>
    obtain ⟨file, v, hread, hfiles, hlog, hrest⟩ := generateEach_cons_ok h
    rw [← hfiles] at hfs hsources
    obtain ⟨hsource, hsources⟩ := List.forall_mem_cons.mp hsources
    rcases hrest with ⟨hempty, hrest⟩ | ⟨hdoc, target, u, hwrite, hrest⟩
    · obtain ⟨jobs, rfl, hjobs⟩ := ih hrest hfs hsources hdone
      exact ⟨⟨path, file⟩ :: jobs, rfl, hjobs.skip hread hempty hfiles hlog⟩
    · have hreadv : Reads v path file := hread.of_readFile_eq (by rw [hfiles])
      obtain ⟨hname, -, dir, hgrows, -, -⟩ := writeDocument_grows hfs hsource hreadv hwrite
      have htarget : target = out.join file.artifact := (writeDocument_ok hwrite).1
      obtain ⟨jobs, rfl, hjobs⟩ := ih hrest hgrows.plain
        (fun p hp => (writeDocument_source hfs hsource hreadv hwrite (hsources p hp)).1)
        (List.forall_mem_append.mpr ⟨hdone, by simpa using ⟨_, hname, htarget⟩⟩)
      have hjobSources (job : Job) (hjob : job ∈ jobs) : v.files.isSource job.path = true :=
        hsources job.path (List.mem_map_of_mem hjob)
      exact ⟨⟨path, file⟩ :: jobs, rfl,
        hjobs.write hfs hsource hjobSources hdone hread hdoc hfiles hlog hwrite⟩

end Run

/-! ### The report -/

/-- What the report of a run from `w` to `w'` says about the jobs that were
found. -/
structure Report.Describes (report : Report) (out : Path) (jobs : List Job) (w w' : World) :
    Prop where
  scanned : report.scanned = jobs.length
  written : report.written = (Job.documented jobs).map (Job.target out)
  tables : report.tables =
    ((Job.documented jobs).map fun job => job.file.document.tables.length).sum
  /-- A written file holds what a preview shows for the last job it belongs to. -/
  content : ∀ t ∈ report.written, ∃ job text v,
    Job.lastFor out t (Job.documented jobs) = some job ∧
      Run.preview job.path .markdown w = .ok (some text) v ∧
      w'.files.readFile t = .ok (Utf8.encode text)
  /-- Elsewhere only directories were made, where nothing was. -/
  grows : w.files.Grows (fun loc => ∃ t ∈ report.written, w'.files.resolve .target t = .ok loc)
    w'.files
  /-- Without documents nothing is made at all, the output directory included. -/
  nothing : Job.documented jobs = [] → w'.files = w.files
  /-- Texts that are the same path are equal, so paths can be counted by their
  texts. -/
  distinct : ∀ t ∈ report.written, ∀ u ∈ report.written, t.same u = true → t = u
  /-- A path that is written again is reported each time. -/
  overwrites : ∃ n, w.Logs n w' ∧ n + report.written.toFinset.card = report.written.length

/-- What was done from an empty report on is what the report says. -/
theorem Run.Progress.describes {out : Path} {jobs : List Job} {report : Report} {w w' : World}
    (h : Progress out ⟨0, [], 0⟩ w jobs report w') : report.Describes out jobs w w' := by
  have hwritten : report.written = (Job.documented jobs).map (Job.target out) := h.written
  obtain ⟨n, hlogs, hcount⟩ := h.overwrites
  refine ⟨?_, hwritten, ?_, ?_, h.wrote.grows.mono ?_, h.wrote.nothing, ?_, n, hlogs, ?_⟩
  · rw [h.scanned, Nat.zero_add]
  · rw [h.tables, Nat.zero_add]
  · rw [hwritten]
    intro t ht
    obtain ⟨job, hjob, hlast⟩ := Job.exists_lastFor ht
    obtain ⟨hmem, hdoc⟩ := List.mem_filter.mp hjob
    obtain ⟨v, hv⟩ := (h.reads job hmem).preview_eq (by simpa using hdoc)
    exact ⟨job, _, v, hlast, hv, h.wrote.content t job hlast⟩
  · rintro loc ⟨job, hjob, hloc⟩
    exact ⟨job.target out, hwritten ▸ List.mem_map_of_mem hjob, hloc⟩
  · rw [hwritten]
    intro t ht u hu hsame
    obtain ⟨job, hjob, rfl⟩ := List.mem_map.mp ht
    obtain ⟨other, hother, rfl⟩ := List.mem_map.mp hu
    exact congrArg (fun name => out.join ⟨name⟩)
      (Path.eq_of_same_join (h.wrote.named job hjob) (h.wrote.named other hother) hsame)
  · rw [hcount, hwritten, List.length_map]
    rfl

/-- **The whole run** over the files that are found. -/
theorem Run.generate_progress {config : Config} {source output : Option Path} {report : Report}
    {w w' : World} (hfs : w.files.Plain) (h : Run.generate config source output w = .ok report w') :
    ∃ jobs,
      w.files.discover (config.withOverrides w.files.workPath source output).baseDir =
        .ok (jobs.map Job.path) ∧
      Progress (config.withOverrides w.files.workPath source output).resolvedOutputDir
        ⟨0, [], 0⟩ w jobs report w' := by
  obtain ⟨found, u, v, -, hfound, hufiles, hulog, hrun, hwfiles, hvlog⟩ := generate_ok h
  have hsources (p : Path) (hp : p ∈ found) : u.files.isSource p = true :=
    hufiles ▸ FileSystem.isSource_of_mem_discover hfound hp
  obtain ⟨jobs, rfl, hjobs⟩ := generateEach_progress hrun (hufiles ▸ hfs) hsources (by simp)
  exact ⟨jobs, hfound, hjobs.around hufiles hulog hwfiles hvlog⟩

/-- **`generate` does what its report says**, in a file system without links.
The source files are those found in the file system at the start, and they are
read and previewed as they were then. -/
theorem generate_describes (config : Config) (source output : Option Path) (report : Report)
    (w w' : World) (hfs : w.files.Plain)
    (h : Run.generate config source output w = .ok report w') :
    ∃ jobs,
      w.files.discover (config.withOverrides w.files.workPath source output).baseDir =
        .ok (jobs.map Job.path) ∧
      (∀ job ∈ jobs, Run.Reads w job.path job.file) ∧
      report.Describes (config.withOverrides w.files.workPath source output).resolvedOutputDir
        jobs w w' := by
  obtain ⟨jobs, hfound, hprogress⟩ := Run.generate_progress hfs h
  exact ⟨jobs, hfound, hprogress.reads, hprogress.describes⟩

theorem Run.exists_of_run'_eq_some {α : Type} {x : Run α} {a : α} {w : World}
    (h : x.run' w = some a) : ∃ w', x w = .ok a w' := by
  delta EStateM.run' EStateM.run at h
  split at h
  · rename_i b w' hx
    cases h
    exact ⟨w', hx⟩
  · cases h

/-- A world with two source files of one name, in the directory that is scanned
and below it. -/
def twoSources : World where
  files :=
    { entries := [
        (["E.java".toList], .file (Utf8.encode "enum E\x7b/**1*/A\x7d".toList)),
        (["e".toList], .directory),
        (["e".toList, "E.java".toList], .file (Utf8.encode "enum E\x7b/**2*/B\x7d".toList))]
      workDir := [] }
  log := []

/-- Both documents are written to one path, and both are reported. -/
theorem generate_describes_twoSources :
    twoSources.files.Plain ∧ ∃ w' jobs,
      Run.generate Config.default none none twoSources =
        .ok ⟨2, [.ofString "./md/E.md", .ofString "./md/E.md"], 2⟩ w' ∧
      twoSources.files.discover (.ofString ".") = .ok (jobs.map Job.path) ∧
      (∀ job ∈ jobs, Run.Reads twoSources job.path job.file) ∧
      Report.Describes ⟨2, [.ofString "./md/E.md", .ofString "./md/E.md"], 2⟩ (.ofString "./md")
        jobs twoSources w' := by
  have hplain : twoSources.files.Plain := .of_entries (by decide +kernel)
  have hrun : (Run.generate Config.default none none).run' twoSources =
      some ⟨2, [.ofString "./md/E.md", .ofString "./md/E.md"], 2⟩ := by
    decide +kernel
  obtain ⟨w', hok⟩ := Run.exists_of_run'_eq_some hrun
  exact ⟨hplain, w', (generate_describes _ _ _ _ _ _ hplain hok).imp fun _ h => ⟨hok, h⟩⟩

end EnumTables
