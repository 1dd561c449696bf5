/-
`generate` done again.

The second run finds the source files that the first one has found, reads the
same from them and writes the same documents to the same files.  So it leaves the
file system exactly as it is, and it has the same report.

There is one exception.  The output directory may lie below the directory that is
scanned, and the first run may have made directories there whose paths are too
long to enter them.  Then the second run fails when it comes to such a directory,
before it has written anything.

In these file systems a file has one name, rights are all or nothing, and a file is
written as a whole or not at all.  Nothing else is done between the two runs.

* **`Run.generate_induction`** — what making directories and writing files keeps;
* **`generate_again`** — the second run;
* **`LongPath.not_again`** — a run that cannot be done again.
-/
import EnumTables.Proofs.FileSystem.Rediscovered
import EnumTables.Proofs.Run.Rewritten

namespace EnumTables

namespace Run

/-! ### What a run keeps -/

theorem generateEach_induction {P : FileSystem → Prop}
    (hmake : ∀ fs p fs', P fs → fs.makeDir p = .ok fs' → P fs')
    (hwrite : ∀ fs p content fs', P fs → fs.writeFile p content = .ok fs' → P fs')
    {out : Path} {paths : List Path} {done report : Report} {w w' : World} (h : P w.files)
    (hok : generateEach out paths done w = .ok report w') : P w'.files := by
  induction paths generalizing done w with
  | nil =>
    cases hok
    exact h
  | cons path paths ih =>
    obtain ⟨file, v, -, hfiles, -, ⟨-, hrest⟩ | ⟨-, target, u, hdocument, hrest⟩⟩ :=
      generateEach_cons_ok hok
    · exact ih (hfiles ▸ h) hrest
    · obtain ⟨-, -, hwritten⟩ := writeDocument_ok hdocument
      have hfs : P (v.files.withDirectory out) := by
        rw [FileSystem.withDirectory]
        split
        · rwa [hfiles]
        · exact FileSystem.createDirAll_induction (fun fs p fs' _ => hmake fs p fs') (hfiles ▸ h)
            (.self : FileSystem.OnPath out out)
      exact ih (hwrite _ target _ _ hfs hwritten) hrest

/-- **What making directories and writing files keeps**, a run keeps. -/
theorem generate_induction {P : FileSystem → Prop}
    (hmake : ∀ fs p fs', P fs → fs.makeDir p = .ok fs' → P fs')
    (hwrite : ∀ fs p content fs', P fs → fs.writeFile p content = .ok fs' → P fs')
    {config : Config} {source output : Option Path} {report : Report} {w w' : World}
    (h : P w.files) (hok : generate config source output w = .ok report w') : P w'.files := by
  obtain ⟨found, u, v, -, -, hu, -, heach, hw', -⟩ := generate_ok hok
  rw [hw']
  exact generateEach_induction hmake hwrite (hu ▸ h) heach

/-- After a run the entries are listed as before it. -/
theorem generate_listed {config : Config} {source output : Option Path} {report : Report}
    {w w' : World} (hfs : w.files.Plain) (hlisted : w.files.Listed)
    (h : generate config source output w = .ok report w') : w'.files.Listed := by
  refine (generate_induction (P := fun fs => fs.Plain ∧ fs.Listed) ?_ ?_ ⟨hfs, hlisted⟩ h).2
  · rintro fs p fs' ⟨hfs, hlisted⟩ hmade
    exact ⟨(FileSystem.grows_makeDir hfs hmade).plain, hlisted.makeDir hfs hmade⟩
  · rintro fs p content fs' ⟨hfs, hlisted⟩ hwritten
    obtain ⟨_, _, -, -, hgrows, -⟩ := FileSystem.grows_writeFile hfs hwritten
    exact ⟨hgrows.plain, hlisted.writeFile hfs hwritten⟩

/-! ### The second run -/

/-- What is read from a source file is unique. -/
theorem Reads.unique {w : World} {path : Path} {file other : SourceFile} (h : Reads w path file)
    (hother : Reads w path other) : file = other := by
  obtain ⟨v, hv⟩ := h
  obtain ⟨u, hu⟩ := hother
  rw [hv] at hu
  cases hu
  rfl

theorem jobs_unique {w : World} {jobs others : List Job}
    (hpaths : others.map Job.path = jobs.map Job.path)
    (hjobs : ∀ job ∈ jobs, Reads w job.path job.file)
    (hothers : ∀ job ∈ others, Reads w job.path job.file) : others = jobs := by
  induction jobs generalizing others with
  | nil => simpa using hpaths
  | cons job jobs ih =>
    obtain ⟨other, others, rfl, hpath, hrest⟩ := List.map_eq_cons_iff.mp hpaths
    rw [ih hrest (List.forall_mem_cons.mp hjobs).2 (List.forall_mem_cons.mp hothers).2]
    obtain ⟨path, file⟩ := job
    obtain ⟨path', file'⟩ := other
    obtain rfl : path' = path := hpath
    have hfile : file' = file :=
      (hothers _ List.mem_cons_self).unique (hjobs _ List.mem_cons_self)
    rw [hfile]

/-- The report is up to the jobs. -/
theorem Progress.report_unique {out : Path} {done report report' : Report} {jobs : List Job}
    {u v w w' : World} (h : Progress out done u jobs report v)
    (h' : Progress out done w jobs report' w') : report' = report := by
  obtain ⟨scanned, written, tables⟩ := report
  obtain ⟨scanned', written', tables'⟩ := report'
  have hscanned := h'.scanned.trans h.scanned.symm
  have hwritten := h'.written.trans h.written.symm
  have htables := h'.tables.trans h.tables.symm
  dsimp only at hscanned hwritten htables
  rw [hscanned, hwritten, htables]

end Run

/-- The directories of a command line go on being in effect. -/
theorem FileSystem.Grows.inEffect_eq {touched : Location → Prop} {fs fs' : FileSystem}
    (h : fs.Grows touched fs') {source output : Option Path} {c c' : Config}
    (hok : c.inEffect fs source output = .ok c') : c.inEffect fs' source output = .ok c' := by
  rw [Config.inEffect] at hok ⊢
  split
  · rename_i habsolute
    rw [if_pos habsolute] at hok
    rwa [h.workPath_eq]
  · rename_i hrelative
    rw [if_neg hrelative] at hok
    cases hcurrent : fs.currentDir with
    | error e =>
      rw [hcurrent] at hok
      cases hok
    | ok workDir =>
      rw [hcurrent] at hok
      rw [h.currentDir_eq hcurrent]
      exact hok

/-- **`generate` done again**, in a file system without links.  The second run has
the same report and leaves the file system exactly as it is, also where the
documents lie among the source files.  It fails only if the first run has made a
directory below the one that is scanned whose path is too long, and then it
changes nothing. -/
theorem generate_again (config : Config) (source output : Option Path) (report : Report)
    (w w' v : World) (hfs : w.files.Plain) (hlisted : w.files.Listed)
    (h : Run.generate config source output w = .ok report w') (hv : v.files = w'.files) :
    ((¬∃ way, w.files.MadeTooLong w'.files
        (config.withOverrides w.files.workPath source output).baseDir way) →
      ∃ v', Run.generate config source output v = .ok report v' ∧ v'.files = w'.files) ∧
    ((∃ way, w.files.MadeTooLong w'.files
        (config.withOverrides w.files.workPath source output).baseDir way) →
      ∃ way v', w.files.MadeTooLong w'.files
          (config.withOverrides w.files.workPath source output).baseDir way ∧
        Run.generate config source output v =
          .error (.scan (config.withOverrides w.files.workPath source output).baseDir
            ((config.withOverrides w.files.workPath source output).baseDir.joinAll way)
            .nameTooLong) v' ∧
        v'.files = w'.files) := by
  obtain ⟨jobs, hfound, hprogress⟩ := Run.generate_progress hfs h
  have hsources (job : Job) (hjob : job ∈ jobs) : w.files.isSource job.path = true :=
    FileSystem.isSource_of_mem_discover hfound (List.mem_map_of_mem hjob)
  have hfs' := hprogress.wrote.grows.plain
  have hlisted' := Run.generate_listed hfs hlisted h
  have hconfig : config.withOverrides v.files.workPath source output =
      config.withOverrides w.files.workPath source output := by
    rw [hv, hprogress.wrote.grows.workPath_eq]
  have hinEffect : config.inEffect v.files source output =
      .ok (config.withOverrides v.files.workPath source output) := by
    obtain ⟨-, -, -, hinEffect, -⟩ := Run.generate_ok h
    rw [hconfig, hv]
    exact hprogress.wrote.grows.inEffect_eq hinEffect
  have hcases := hprogress.wrote.grows.discover_cases hfs hlisted hlisted'
    (hprogress.not_source hfs hsources) hfound
  rw [← hv] at hcases
  constructor
  · intro hnone
    rcases hcases with hfound' | ⟨way, hway, -⟩
    · -- the same jobs are done, and their documents are written again
      have hstanding := (hprogress.standing hfs hsources).of_files_eq hv
      rw [← hconfig] at hfound' hstanding
      obtain ⟨u, hu, hrun⟩ := Run.generate_of_discover hinEffect hfound'
      obtain ⟨report', u', heach, hlocations⟩ :=
        Run.generateEach_again ⟨0, [], 0⟩ (hstanding.of_files_eq hu)
      obtain ⟨v', hok, hv'⟩ := hrun report' u' heach
      obtain ⟨jobs', hfound'', hprogress'⟩ := Run.generate_progress (hv ▸ hfs') hok
      have hpaths : jobs'.map Job.path = jobs.map Job.path :=
        Except.ok.inj (hfound''.symm.trans hfound')
      obtain rfl := Run.jobs_unique hpaths hstanding.reads hprogress'.reads
      rw [hconfig] at hprogress'
      obtain rfl := hprogress.report_unique hprogress'
      refine ⟨v', hok, hprogress.wrote.again (hv ▸ hprogress'.wrote) hlisted' ?_⟩
      rw [hv', hlocations, hu, hv]
    · exact absurd ⟨way, hv ▸ hway⟩ hnone
  · rintro ⟨way, ⟨dir, hdir, hget, hsize⟩, -⟩
    -- a search that succeeds would have entered the directory
    rcases hcases with hfound' | ⟨made, hmade, herror⟩
    · rw [hv] at hfound'
      exact absurd ⟨dir, hdir, hget, hsize⟩ (hfs'.not_tooLong_of_discover hlisted' hfound')
    · rw [← hconfig] at herror
      obtain ⟨v', hrun, hv'⟩ := Run.generate_of_discover_error hinEffect herror
      rw [hconfig] at hrun
      exact ⟨made, v', hv ▸ hmade, hrun, hv'.trans hv⟩

/-! ### A directory that is too long -/

namespace LongPath

/-- A name with almost as many bytes as a name may have. -/
def name : Bytes :=
  Utf8.encode (List.replicate 63 '𝒹')

/-- A source file beside an empty directory with a long name. -/
def before : FileSystem where
  entries := [
    (["E.java".toList], .file (Utf8.encode "enum E\x7b/**1*/A\x7d".toList)),
    ([name], .directory)]
  workDir := []

/-- A directory of the same name in that one. -/
def output : Path :=
  ⟨name ++ Path.slash :: name⟩

/-- The same after the document was written there. -/
def after : FileSystem where
  entries := before.entries ++ [
    ([name, name], .directory),
    ([name, name, "E.md".toList],
      .file (Utf8.encode "##  E.java\n\n| E | Comment |\n| --- | --- |\n| A | 1 |\n".toList))]
  workDir := []

def report : Report :=
  ⟨1, [((Path.ofString "/").join output).join (.ofString "E.md")], 1⟩

/-- A path that goes into the directory and out of it again, `n` times. -/
def detour (n : Nat) : Path :=
  ⟨Text.join [Path.slash] (List.replicate n [name, [Path.dot, Path.dot]]).flatten⟩

/-- A short path of the root. -/
def shortBase : Path :=
  detour 1

/-- A path of the root that is long enough for the new directory to be too long. -/
def longBase : Path :=
  detour 15

theorem plain_before : before.Plain :=
  .of_entries (by decide +kernel)

theorem listed_before : before.Listed :=
  .of_locations (by decide +kernel) (by decide +kernel)

theorem plain_after : after.Plain :=
  .of_entries (by decide +kernel)

/-- **The first run** succeeds and makes a directory. -/
theorem generate_before {base : Path}
    (h : ((Run.generate .default (some base) (some output)).run' ⟨before, []⟩,
      (Run.generate .default (some base) (some output)).after ⟨before, []⟩) =
        (some report, after)) :
    ∃ w', Run.generate .default (some base) (some output) ⟨before, []⟩ = .ok report w' ∧
      w'.files = after := by
  obtain ⟨hreport, hafter⟩ := Prod.mk.inj h
  obtain ⟨w', hrun⟩ := Run.exists_of_run'_eq_some hreport
  exact ⟨w', hrun, (Run.after_of_ok hrun).symm.trans hafter⟩

theorem generate_shortBase :
    ∃ w', Run.generate .default (some shortBase) (some output) ⟨before, []⟩ = .ok report w' ∧
      w'.files = after :=
  generate_before (by decide +kernel)

theorem generate_longBase :
    ∃ w', Run.generate .default (some longBase) (some output) ⟨before, []⟩ = .ok report w' ∧
      w'.files = after :=
  generate_before (by decide +kernel)

theorem madeTooLong : before.MadeTooLong after longBase [name, name] := by
  have hroot : before.resolve .target longBase = .ok [] := by decide +kernel
  have hroot' : after.resolve .target longBase = .ok [] := by decide +kernel
  exact ⟨⟨[], hroot', by decide +kernel, by decide +kernel⟩, [], hroot, by decide +kernel⟩

/-- **A run that cannot be done again.**  It makes a directory below the one that is
scanned, and a second run cannot enter that directory. -/
theorem not_again :
    before.Plain ∧ before.Listed ∧ ∃ report w',
      Run.generate .default (some longBase) (some output) ⟨before, []⟩ = .ok report w' ∧
      ∀ report' v,
        Run.generate .default (some longBase) (some output) w' ≠ .ok report' v := by
  obtain ⟨w', hrun, hw'⟩ := generate_longBase
  refine ⟨plain_before, listed_before, report, w', hrun, fun report' v hagain => ?_⟩
  obtain ⟨found, -, -, -, hfound, -⟩ := Run.generate_ok hagain
  have hlisted := Run.generate_listed plain_before listed_before hrun
  rw [hw'] at hfound hlisted
  exact plain_after.not_tooLong_of_discover hlisted hfound madeTooLong.1

/-- With a short path the second run leaves all as it is, and with the long one it
fails. -/
theorem generate_again_longPath :
    (∃ report w' v,
      Run.generate .default (some shortBase) (some output) ⟨before, []⟩ = .ok report w' ∧
      Run.generate .default (some shortBase) (some output) w' = .ok report v ∧
      v.files = w'.files) ∧
    ∃ report w' way v,
      Run.generate .default (some longBase) (some output) ⟨before, []⟩ = .ok report w' ∧
      Run.generate .default (some longBase) (some output) w' =
        .error (.scan longBase (longBase.joinAll way) .nameTooLong) v ∧
      v.files = w'.files := by
  constructor
  · obtain ⟨w', hrun, hw'⟩ := generate_shortBase
    have hnone : ¬∃ way, before.MadeTooLong w'.files shortBase way := by
      rw [hw']
      rintro ⟨way, ⟨dir, hdir, hget, hsize⟩, -⟩
      have hroot : after.resolve .target shortBase = .ok [] := by decide +kernel
      obtain rfl : dir = [] := Except.ok.inj (hdir.symm.trans hroot)
      rw [List.nil_append] at hget
      -- there are three directories, and none of them has a long path
      have hway : way = [] ∨ way = [name] ∨ way = [name, name] := by
        by_cases hne : way = []
        · exact .inl hne
        · right
          simpa [after, before] using FileSystem.mem_entries_of_get? hne hget
      have hshort : (shortBase.joinAll way).bytes.length < FileSystem.pathSizeLimit := by
        rcases hway with rfl | rfl | rfl <;> decide +kernel
      exact absurd hsize (Nat.not_le_of_lt hshort)
    obtain ⟨v, hagain, hv⟩ := (generate_again .default (some shortBase) (some output) report
      ⟨before, []⟩ w' w' plain_before listed_before hrun rfl).1 hnone
    exact ⟨report, w', v, hrun, hagain, hv⟩
  · obtain ⟨w', hrun, hw'⟩ := generate_longBase
    obtain ⟨way, v, -, hagain, hv⟩ := (generate_again .default (some longBase) (some output) report
      ⟨before, []⟩ w' w' plain_before listed_before hrun rfl).2 ⟨_, hw' ▸ madeTooLong⟩
    exact ⟨report, w', way, v, hrun, hagain, hv⟩

end LongPath

end EnumTables
