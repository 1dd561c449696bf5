/-
What the steps of a run do.

For each step of a run there is a statement about its success: what it gives,
how it leaves the file system and what it adds to the log.  For those that can
fail there is another one about their failure.  Runs are taken apart with these,
and not by unfolding.

* **`World.Logs`** — how the log grew, and how often it reports a file that was
  overwritten;
* **`Run.exists_of_bind_eq_ok`**, **`Run.exists_of_bind_eq_error`** — a run that
  succeeds or fails, step by step;
* **`Run.Reads`** — what is read from a source file, which depends on the
  content of the file alone;
* **`Run.writeDocument_ok`**, **`Run.generateEach_cons_ok`**,
  **`Run.generate_ok`** — writing one document, the work on one source file, and
  the whole run;
* **`Run.writeDocument_of_ok`**, **`Run.generateEach_write`**,
  **`Run.generate_of_discover`** — the same the other way round: what makes them
  succeed;
* **`Run.generateEach_cons_error`**, **`Run.generate_error`** — where they fail.
-/
import EnumTables.Run.Commands

namespace EnumTables

/-- Whether a report is about a file that was overwritten. -/
def Event.isOverwrite : Event → Bool
  | .overwrites _ => true
  | _ => false

/-- From `w` to `w'` the log has grown, by `n` reports of overwritten files
among others. -/
def World.Logs (n : Nat) (w w' : World) : Prop :=
  ∃ events, w'.log = w.log ++ events ∧ events.countP Event.isOverwrite = n

/-- The file system with a directory made, unless something is there. -/
def FileSystem.withDirectory (fs : FileSystem) (dir : Path) : FileSystem :=
  if fs.pathExists dir then fs else (fs.createDirAll dir).2

namespace World.Logs

variable {m n : Nat} {u v w : World}

theorem refl : Logs 0 w w := ⟨[], by simp⟩

theorem trans (h : Logs m u v) (h' : Logs n v w) : Logs (m + n) u w := by
  obtain ⟨events, hlog, rfl⟩ := h
  obtain ⟨events', hlog', rfl⟩ := h'
  exact ⟨events ++ events', by rw [hlog', hlog, List.append_assoc], List.countP_append⟩

end World.Logs

/-- The directory of a configuration file, unless it is the working directory and
that is gone. -/
theorem FileSystem.elim_currentDir (fs : FileSystem) (dir : Option Path) :
    dir.elim fs.currentDir .ok = .ok (dir.getD fs.workPath) ∨
      dir.elim fs.currentDir .ok = .error .notFound ∧ dir = none := by
  cases dir with
  | some dir => exact .inl rfl
  | none =>
    rw [Option.elim_none, currentDir]
    cases fs.get? fs.workDir with
    | some _ => exact .inl rfl
    | none => exact .inr ⟨rfl, rfl⟩

theorem FileSystem.eq_getD_of_elim (fs : FileSystem) {dir : Option Path} {path : Path}
    (h : dir.elim fs.currentDir .ok = .ok path) : path = dir.getD fs.workPath := by
  rcases fs.elim_currentDir dir with hok | ⟨hgone, -⟩
  · exact Except.ok.inj (h.symm.trans hok)
  · rw [hgone] at h
    cases h

/-- **The directories of a command line are in effect**, unless a relative output
directory is to be seen from a working directory that is gone. -/
theorem Config.inEffect_cases (fs : FileSystem) (source output : Option Path) (c : Config) :
    c.inEffect fs source output = .ok (c.withOverrides fs.workPath source output) ∨
      c.inEffect fs source output = .error .notFound ∧ fs.currentDir = .error .notFound ∧
        ∃ dir, output = some dir ∧ dir.isAbsolute = false := by
  rw [inEffect]
  by_cases hrelative : ∃ dir, output = some dir ∧ dir.isAbsolute = false
  · obtain ⟨dir, rfl, hdir⟩ := hrelative
    rw [Option.all_some, hdir, if_neg Bool.false_ne_true, FileSystem.currentDir]
    cases fs.get? fs.workDir with
    | some _ => exact .inl rfl
    | none => exact .inr ⟨rfl, rfl, dir, rfl, hdir⟩
  · rw [if_pos]
    · exact .inl rfl
    · simpa [Option.all_eq_true] using hrelative

theorem Config.inEffect_ok {fs : FileSystem} {source output : Option Path} {c c' : Config}
    (h : c.inEffect fs source output = .ok c') :
    c' = c.withOverrides fs.workPath source output := by
  rcases c.inEffect_cases fs source output with hok | ⟨herror, -⟩
  · exact Except.ok.inj (h.symm.trans hok)
  · rw [herror] at h
    cases h

namespace Run

theorem exists_of_bind_eq_ok {α β : Type} {x : Run α} {f : α → Run β} {b : β} {w w' : World}
    (h : (x >>= f) w = .ok b w') : ∃ a v, x w = .ok a v ∧ f a v = .ok b w' := by
  simp only [bind, EStateM.bind] at h
  split at h
  · rename_i a v hx
    exact ⟨a, v, hx, h⟩
  · cases h

/-- A run that fails, step by step. -/
theorem exists_of_bind_eq_error {α β : Type} {x : Run α} {f : α → Run β} {e : Failure}
    {w w' : World} (h : (x >>= f) w = .error e w') :
    x w = .error e w' ∨ ∃ a v, x w = .ok a v ∧ f a v = .error e w' := by
  simp only [bind, EStateM.bind] at h
  split at h
  · rename_i a v hx
    exact .inr ⟨a, v, hx, h⟩
  · rename_i e' v hx
    cases h
    exact .inl hx

theorem run'_of_ok {α : Type} {x : Run α} {a : α} {w w' : World} (h : x w = .ok a w') :
    x.run' w = some a := by
  delta EStateM.run' EStateM.run
  rw [h]

theorem bind_of_ok {α β : Type} {x : Run α} {f : α → Run β} {a : α} {w v : World}
    (h : x w = .ok a v) : (x >>= f) w = f a v := by
  simp only [bind, EStateM.bind, h]

theorem bind_of_error {α β : Type} {x : Run α} {f : α → Run β} {e : Failure} {w v : World}
    (h : x w = .error e v) : (x >>= f) w = .error e v := by
  simp only [bind, EStateM.bind, h]

theorem attempt_ok {ε α : Type} {failure : ε → Failure} {outcome : Except ε α} {a : α}
    {w w' : World} (h : attempt failure outcome w = .ok a w') : outcome = .ok a ∧ w' = w := by
  cases outcome with
  | error e => cases h
  | ok b =>
    cases h
    exact ⟨rfl, rfl⟩

theorem logAll_ok {events : List Event} {w w' : World} (h : logAll events w = .ok () w') :
    w'.files = w.files ∧ w.Logs (events.countP Event.isOverwrite) w' := by
  cases h
  exact ⟨rfl, events, rfl, rfl⟩

theorem change_ok {failure : IoError → Failure} {outcome : Except IoError FileSystem}
    {w w' : World} (h : change failure outcome w = .ok () w') :
    outcome = .ok w'.files ∧ w'.log = w.log := by
  obtain ⟨fs, v, hattempt, hmodify⟩ := exists_of_bind_eq_ok h
  obtain ⟨hfs, rfl⟩ := attempt_ok hattempt
  cases hmodify
  exact ⟨hfs, rfl⟩

theorem change_error {failure : IoError → Failure} {outcome : Except IoError FileSystem}
    {e : Failure} {w w' : World} (h : change failure outcome w = .error e w') :
    ∃ cause, outcome = .error cause ∧ e = failure cause ∧ w' = w := by
  rcases exists_of_bind_eq_error h with h | ⟨fs, v, hattempt, hmodify⟩
  · cases outcome with
    | ok fs => cases h
    | error cause =>
      cases h
      exact ⟨cause, rfl, rfl, rfl⟩
  · cases hmodify

theorem createDirAll_ok {failure : IoError → Failure} {dir : Path} {w w' : World}
    (h : createDirAll failure dir w = .ok () w') :
    w.files.createDirAll dir = (.ok (), w'.files) ∧ w'.log = w.log := by
  obtain ⟨fs, v, hfs, hmake⟩ := exists_of_bind_eq_ok h
  cases hfs
  obtain ⟨_, v, hmodify, hattempt⟩ := exists_of_bind_eq_ok hmake
  cases hmodify
  obtain ⟨houtcome, rfl⟩ := attempt_ok hattempt
  exact ⟨Prod.ext houtcome rfl, rfl⟩

theorem createDirAll_error {failure : IoError → Failure} {dir : Path} {e : Failure} {w w' : World}
    (h : createDirAll failure dir w = .error e w') :
    ∃ cause, w.files.createDirAll dir = (.error cause, w'.files) ∧ e = failure cause := by
  rcases exists_of_bind_eq_error h with h | ⟨fs, v, hfs, hmake⟩
  · cases h
  cases hfs
  rcases exists_of_bind_eq_error hmake with h | ⟨_, v, hmodify, hattempt⟩
  · cases h
  cases hmodify
  cases hmade : w.files.createDirAll dir with
  | mk outcome fs =>
    rw [hmade] at hattempt
    cases outcome with
    | ok a => cases hattempt
    | error cause =>
      cases hattempt
      exact ⟨cause, rfl, rfl⟩

/-- A step that is only made under a condition. -/
theorem exists_of_ite_eq_ok {β : Type} {c : Prop} [Decidable c] {x : Run Unit}
    {f : Unit → Run β} {b : β} {w w' : World}
    (h : (if c then x >>= f else f ()) w = .ok b w') :
    ∃ v, (c ∧ x w = .ok () v ∨ ¬c ∧ v = w) ∧ f () v = .ok b w' := by
  split at h
  · rename_i hc
    obtain ⟨_, v, hx, hf⟩ := exists_of_bind_eq_ok h
    exact ⟨v, .inl ⟨hc, hx⟩, hf⟩
  · rename_i hc
    exact ⟨w, .inr ⟨hc, rfl⟩, h⟩

/-- **What writing a document does.** -/
theorem writeDocument_ok {out path : Path} {written : List Path} {file : SourceFile}
    {target : Path} {w w' : World}
    (h : writeDocument out path written file w = .ok target w') :
    target = out.join file.artifact ∧
      w.Logs (if written.any target.same then 1 else 0) w' ∧
      (w.files.withDirectory out).writeFile target (Utf8.encode file.document.markdown) =
        .ok w'.files := by
  obtain ⟨fs, v, hfs, hmake⟩ := exists_of_bind_eq_ok h
  cases hfs
  obtain ⟨v, hv, hreport⟩ := exists_of_ite_eq_ok hmake
  obtain ⟨u, hu, hwrite⟩ := exists_of_ite_eq_ok hreport
  obtain ⟨fs, u', hfs, hchange⟩ := exists_of_bind_eq_ok hwrite
  cases hfs
  obtain ⟨_, u', hu', hlog⟩ := exists_of_bind_eq_ok hchange
  obtain ⟨hwritten, hu'log⟩ := change_ok hu'
  cases hlog
  -- the directory is there, or it is made
  have hvfiles : v.files = w.files.withDirectory out ∧ v.log = w.log := by
    rcases hv with ⟨hmissing, hv⟩ | ⟨hthere, rfl⟩
    · obtain ⟨hmade, hlog⟩ := createDirAll_ok hv
      rw [FileSystem.withDirectory, if_neg (by simpa using hmissing), hmade]
      exact ⟨rfl, hlog⟩
    · rw [FileSystem.withDirectory, if_pos (by simpa using hthere)]
      exact ⟨rfl, rfl⟩
  -- an earlier file of the same name is reported
  have hulog : u.files = v.files ∧
      v.Logs (if written.any (out.join file.artifact).same then 1 else 0) u := by
    rcases hu with ⟨hany, hu⟩ | ⟨hany, rfl⟩
    · rw [if_pos hany]
      exact logAll_ok hu
    · rw [if_neg hany]
      exact ⟨rfl, .refl⟩
  obtain ⟨hufiles, events, hevents, hcount⟩ := hulog
  refine ⟨rfl, ⟨events ++ [.written (out.join file.artifact)], ?_, ?_⟩, ?_⟩
  · show u'.log ++ _ = _
    rw [hu'log, hevents, hvfiles.2, List.append_assoc]
  · rw [List.countP_append, hcount]
    rfl
  · rw [← hvfiles.1, ← hufiles]
    exact hwritten

theorem ite_of_ok {β : Type} {c : Prop} [Decidable c] {x : Run Unit} {f : Unit → Run β}
    {w v : World} (hx : c → x w = .ok () v) (hnot : ¬c → v = w) :
    (if c then x >>= f else f ()) w = f () v := by
  split
  · rename_i hc
    rw [bind_of_ok (hx hc)]
  · rename_i hc
    rw [hnot hc]

/-- A document is written if its directory can be made and the file be
written. -/
theorem writeDocument_of_ok {out path : Path} {written : List Path} {file : SourceFile}
    {w : World} {fs fs' : FileSystem} (hthere : w.files.pathExists out = true → fs = w.files)
    (hmissing : w.files.pathExists out = false → w.files.createDirAll out = (.ok (), fs))
    (hwrite : fs.writeFile (out.join file.artifact) (Utf8.encode file.document.markdown) =
      .ok fs') :
    ∃ w', writeDocument out path written file w = .ok (out.join file.artifact) w' ∧
      w'.files = fs' := by
  have hfiles (v : World) : files v = .ok v.files v := rfl
  have hmake (hc : (!w.files.pathExists out) = true) :
      createDirAll (.write out) out w = .ok () ⟨fs, w.log⟩ := by
    rw [createDirAll, bind_of_ok (hfiles w), hmissing (by simpa using hc)]
    rfl
  have hkeep (hc : ¬(!w.files.pathExists out) = true) : ⟨fs, w.log⟩ = w := by
    rw [hthere (by simpa using hc)]
  obtain ⟨v, hv, hlog, hnot⟩ : ∃ v : World, v.files = fs ∧
      (written.any (out.join file.artifact).same = true →
        log (.overwrites path) ⟨fs, w.log⟩ = .ok () v) ∧
      (¬written.any (out.join file.artifact).same = true → v = ⟨fs, w.log⟩) := by
    by_cases hany : written.any (out.join file.artifact).same = true
    · exact ⟨⟨fs, w.log ++ [.overwrites path]⟩, rfl, fun _ => rfl, absurd hany⟩
    · exact ⟨⟨fs, w.log⟩, rfl, (absurd · hany), fun _ => rfl⟩
  rw [writeDocument, bind_of_ok (hfiles w), ite_of_ok hmake hkeep]
  dsimp only
  rw [ite_of_ok hlog hnot, bind_of_ok (hfiles v), hv, hwrite]
  exact ⟨_, rfl, rfl⟩

/-- Reading the source file at a path gives `file`. -/
def Reads (w : World) (path : Path) (file : SourceFile) : Prop :=
  ∃ v, readSource path w = .ok file v

theorem readSource_ok {path : Path} {file : SourceFile} {w v : World}
    (h : readSource path w = .ok file v) :
    v.files = w.files ∧ w.Logs 0 v ∧ ∃ content, w.files.readFile path = .ok content ∧
      file = ⟨SourceFile.nameOf path,
        (Utf8.decode? content).getD (Utf8.decodeLossy content)⟩ := by
  obtain ⟨fs, u, hfs, hread⟩ := exists_of_bind_eq_ok h
  cases hfs
  obtain ⟨content, u, hcontent, hdecode⟩ := exists_of_bind_eq_ok hread
  obtain ⟨hok, rfl⟩ := attempt_ok hcontent
  cases htext : Utf8.decode? content with
  | some text =>
    simp only [htext] at hdecode
    cases hdecode
    exact ⟨rfl, .refl, content, hok, by rw [htext, Option.getD_some]⟩
  | none =>
    simp only [htext] at hdecode
    cases hdecode
    exact ⟨rfl, ⟨[.notUtf8 path], rfl, rfl⟩, content, hok, by rw [htext, Option.getD_none]⟩

/-- A file that can be read is decoded, with a report if it is not valid. -/
theorem readSource_of_readFile {path : Path} {content : List UInt8} {w : World}
    (h : w.files.readFile path = .ok content) :
    readSource path w = .ok ⟨SourceFile.nameOf path,
        (Utf8.decode? content).getD (Utf8.decodeLossy content)⟩
      ⟨w.files, w.log ++ if (Utf8.decode? content).isSome then [] else [.notUtf8 path]⟩ := by
  have hfiles : files w = .ok w.files w := rfl
  have hcontent : attempt (.read path) (w.files.readFile path) w = .ok content w := by
    rw [h]
    rfl
  rw [readSource, bind_of_ok hfiles, bind_of_ok hcontent]
  cases htext : Utf8.decode? content with
  | some text =>
    rw [Option.isSome_some, if_pos rfl, List.append_nil]
    rfl
  | none => rfl

theorem reads_of_readFile {path : Path} {content : List UInt8} {w : World}
    (h : w.files.readFile path = .ok content) :
    Reads w path ⟨SourceFile.nameOf path,
      (Utf8.decode? content).getD (Utf8.decodeLossy content)⟩ :=
  ⟨_, readSource_of_readFile h⟩

/-- A source file is called by its path. -/
theorem Reads.name_eq {w : World} {path : Path} {file : SourceFile} (h : Reads w path file) :
    file.name = SourceFile.nameOf path := by
  obtain ⟨v, hv⟩ := h
  obtain ⟨-, -, content, -, rfl⟩ := readSource_ok hv
  rfl

/-- What is read depends on the content of the file alone. -/
theorem Reads.of_readFile_eq {path : Path} {file : SourceFile} {v w : World}
    (h : Reads v path file) (hread : v.files.readFile path = w.files.readFile path) :
    Reads w path file := by
  obtain ⟨v', hv⟩ := h
  obtain ⟨-, -, content, hcontent, rfl⟩ := readSource_ok hv
  exact reads_of_readFile (hread ▸ hcontent)

theorem countP_isOverwrite_events (file : SourceFile) :
    file.events.countP Event.isOverwrite = 0 := by
  rw [List.countP_eq_zero]
  intro event hevent
  obtain ⟨d, -, hd⟩ := List.mem_flatMap.mp hevent
  rcases List.mem_append.mp hd with hconstant | henum
  · obtain ⟨name, -, rfl⟩ := List.mem_map.mp hconstant
    simp [Event.isOverwrite]
  · split at henum
    · rw [List.mem_singleton.mp henum]
      simp [Event.isOverwrite]
    · cases henum

/-- **One file of a run**: it is read, and its document is written if there is
one. -/
theorem generateEach_cons_ok {out path : Path} {paths : List Path} {done report : Report}
    {w w' : World} (h : generateEach out (path :: paths) done w = .ok report w') :
    ∃ file v, Reads w path file ∧ v.files = w.files ∧ w.Logs 0 v ∧
      (file.document.isEmpty = true ∧
          generateEach out paths { done with scanned := done.scanned + 1 } v = .ok report w' ∨
        file.document.isEmpty = false ∧ ∃ target u,
          writeDocument out path done.written file v = .ok target u ∧
          generateEach out paths ⟨done.scanned + 1, done.written ++ [target],
            done.tables + file.document.tables.length⟩ u = .ok report w') := by
  rw [generateEach] at h
  obtain ⟨file, v, hread, hrun⟩ := exists_of_bind_eq_ok h
  obtain ⟨hfiles, hlog, -⟩ := readSource_ok hread
  obtain ⟨_, u, hu, hrun⟩ := exists_of_bind_eq_ok hrun
  obtain ⟨hufiles, hulog⟩ := logAll_ok hu
  rw [countP_isOverwrite_events] at hulog
  dsimp only at hrun
  split at hrun
  · rename_i hempty
    obtain ⟨_, u', hu', hrun⟩ := exists_of_bind_eq_ok hrun
    obtain ⟨hu'files, hu'log⟩ := logAll_ok hu'
    exact ⟨file, u', ⟨v, hread⟩, by rw [hu'files, hufiles, hfiles],
      (hlog.trans hulog).trans hu'log, .inl ⟨hempty, hrun⟩⟩
  · rename_i hempty
    obtain ⟨target, u', hu', hrun⟩ := exists_of_bind_eq_ok hrun
    exact ⟨file, u, ⟨v, hread⟩, by rw [hufiles, hfiles], hlog.trans hulog,
      .inr ⟨Bool.eq_false_iff.mpr hempty, target, u', hu', hrun⟩⟩

section

variable {out path : Path} {paths : List Path} {done : Report} {file : SourceFile} {w : World}

/-- The run goes on behind a file without documented enums. -/
theorem generateEach_skip (hread : Reads w path file) (hempty : file.document.isEmpty = true) :
    ∃ v : World, v.files = w.files ∧ generateEach out (path :: paths) done w =
      generateEach out paths { done with scanned := done.scanned + 1 } v := by
  obtain ⟨v, hv⟩ := hread
  have hevents : logAll file.events v = .ok () ⟨v.files, v.log ++ file.events⟩ := rfl
  have hlog (u : World) : log (.nothingToWrite path) u =
      .ok () ⟨u.files, u.log ++ [.nothingToWrite path]⟩ := rfl
  rw [generateEach, bind_of_ok hv, bind_of_ok hevents, if_pos hempty, bind_of_ok (hlog _)]
  refine ⟨_, ?_, rfl⟩
  exact (readSource_ok hv).1

/-- The run goes on behind a file whose document is written. -/
theorem generateEach_write (hread : Reads w path file) (hdoc : file.document.isEmpty = false) :
    ∃ v : World, v.files = w.files ∧ ∀ target u,
      writeDocument out path done.written file v = .ok target u →
      generateEach out (path :: paths) done w = generateEach out paths
        ⟨done.scanned + 1, done.written ++ [target],
          done.tables + file.document.tables.length⟩ u := by
  obtain ⟨v, hv⟩ := hread
  have hevents : logAll file.events v = .ok () ⟨v.files, v.log ++ file.events⟩ := rfl
  refine ⟨⟨v.files, v.log ++ file.events⟩, (readSource_ok hv).1, fun target u hwrite => ?_⟩
  rw [generateEach, bind_of_ok hv, bind_of_ok hevents, if_neg (by simp [hdoc]), bind_of_ok hwrite]

end

/-- A preview shows the document that would be written. -/
theorem Reads.preview_eq {w : World} {path : Path} {file : SourceFile} (h : Reads w path file)
    (hdoc : file.document.isEmpty = false) :
    ∃ v, preview path .markdown w = .ok (some file.document.markdown) v := by
  obtain ⟨v, hv⟩ := h
  have hlog : logAll file.events v = .ok () { v with log := v.log ++ file.events } := rfl
  rw [preview, bind_of_ok hv, bind_of_ok hlog, if_neg (by simp [hdoc])]
  exact ⟨_, rfl⟩

theorem discover_ok {failure : Path → IoError → Failure} {root : Path} {found : List Path}
    {w w' : World} (h : discover failure root w = .ok found w') :
    w.files.discover root = .ok found ∧ w'.files = w.files ∧ w.Logs 0 w' := by
  obtain ⟨fs, _, hfs, hrun⟩ := exists_of_bind_eq_ok h
  cases hfs
  obtain ⟨paths, u, hattempt, hlog⟩ := exists_of_bind_eq_ok hrun
  obtain ⟨hpaths, rfl⟩ := attempt_ok hattempt
  obtain ⟨_, v, hv, hpure⟩ := exists_of_bind_eq_ok hlog
  cases hpure
  exact ⟨hpaths, logAll_ok hv⟩

/-- **The whole run**, around the run over the files that are found. -/
theorem generate_ok {config : Config} {source output : Option Path} {report : Report}
    {w w' : World} (h : generate config source output w = .ok report w') :
    ∃ found u v,
      config.inEffect w.files source output =
        .ok (config.withOverrides w.files.workPath source output) ∧
      w.files.discover (config.withOverrides w.files.workPath source output).baseDir = .ok found ∧
      u.files = w.files ∧ w.Logs 0 u ∧
      generateEach (config.withOverrides w.files.workPath source output).resolvedOutputDir found
        ⟨0, [], 0⟩ u = .ok report v ∧
      w'.files = v.files ∧ v.Logs 0 w' := by
  obtain ⟨fs, _, hfs, hrun⟩ := exists_of_bind_eq_ok h
  cases hfs
  obtain ⟨inEffect, u₀, hu₀, hrun⟩ := exists_of_bind_eq_ok hrun
  obtain ⟨_, u₁, hu₁, hrun⟩ := exists_of_bind_eq_ok hrun
  obtain ⟨_, u₂, hu₂, hrun⟩ := exists_of_bind_eq_ok hrun
  obtain ⟨found, u₃, hdiscover, hrun⟩ := exists_of_bind_eq_ok hrun
  obtain ⟨done, v, hdone, hrun⟩ := exists_of_bind_eq_ok hrun
  obtain ⟨_, v', hv', hpure⟩ := exists_of_bind_eq_ok hrun
  cases hpure
  obtain ⟨hconfig, rfl⟩ := attempt_ok hu₀
  obtain ⟨hfiles₁, hlog₁⟩ := logAll_ok hu₁
  obtain ⟨hfiles₂, hlog₂⟩ := logAll_ok hu₂
  obtain ⟨hfound, hfiles₃, hlog₃⟩ := discover_ok hdiscover
  obtain ⟨hvfiles, hvlog⟩ := logAll_ok hv'
  rw [hfiles₂, hfiles₁] at hfound hfiles₃
  obtain rfl := Config.inEffect_ok hconfig
  exact ⟨found, u₃, v, hconfig, hfound, hfiles₃, (hlog₁.trans hlog₂).trans hlog₃, hdone, hvfiles,
    hvlog⟩

theorem discover_of_ok {failure : Path → IoError → Failure} {root : Path} {found : List Path}
    {w : World} (h : w.files.discover root = .ok found) :
    ∃ v : World, v.files = w.files ∧ discover failure root w = .ok found v := by
  have hfiles : files w = .ok w.files w := rfl
  rw [discover, bind_of_ok hfiles, h]
  refine ⟨_, ?_, rfl⟩
  rfl

theorem discover_of_error {failure : Path → IoError → Failure} {root q : Path} {e : IoError}
    {w : World} (h : w.files.discover root = .error (q, e)) :
    discover failure root w = .error (failure q e) w := by
  have hfiles : files w = .ok w.files w := rfl
  rw [discover, bind_of_ok hfiles, h]
  rfl

section

variable {config : Config} {source output : Option Path} {w : World}

/-- A run whose directories are in effect is about what it searches and writes. -/
theorem generate_eq (hconfig : config.inEffect w.files source output =
      .ok (config.withOverrides w.files.workPath source output)) :
    ∃ v : World, v.files = w.files ∧ generate config source output w =
      (do
        let config := config.withOverrides w.files.workPath source output
        let found ← discover (.scan config.baseDir) config.baseDir
        let done ← generateEach config.resolvedOutputDir found ⟨0, [], 0⟩
        log (.finished done.scanned done.written.length done.tables)
        return done) v := by
  have hfiles : files w = .ok w.files w := rfl
  have hattempt : attempt (.io ∘ .outputDir) (config.inEffect w.files source output) w =
      .ok (config.withOverrides w.files.workPath source output) w := by
    rw [hconfig]
    rfl
  rw [generate, bind_of_ok hfiles, bind_of_ok hattempt]
  refine ⟨_, ?_, rfl⟩
  rfl

/-- A run whose search succeeds. -/
theorem generate_of_discover {found : List Path}
    (hconfig : config.inEffect w.files source output =
      .ok (config.withOverrides w.files.workPath source output))
    (h : w.files.discover (config.withOverrides w.files.workPath source output).baseDir =
      .ok found) :
    ∃ u : World, u.files = w.files ∧ ∀ report v,
      generateEach (config.withOverrides w.files.workPath source output).resolvedOutputDir found
        ⟨0, [], 0⟩ u = .ok report v →
      ∃ w', generate config source output w = .ok report w' ∧ w'.files = v.files := by
  obtain ⟨v, hv, heq⟩ := generate_eq hconfig
  rw [← hv] at h
  obtain ⟨u, hu, hdiscover⟩ := discover_of_ok h
  refine ⟨u, hu.trans hv, fun report v' heach => ?_⟩
  rw [heq]
  dsimp only
  rw [← hv] at heach ⊢
  rw [bind_of_ok hdiscover, bind_of_ok heach]
  exact ⟨_, rfl, rfl⟩

/-- A run whose search fails. -/
theorem generate_of_discover_error {q : Path} {e : IoError}
    (hconfig : config.inEffect w.files source output =
      .ok (config.withOverrides w.files.workPath source output))
    (h : w.files.discover (config.withOverrides w.files.workPath source output).baseDir =
      .error (q, e)) :
    ∃ w' : World, generate config source output w = .error
      (.scan (config.withOverrides w.files.workPath source output).baseDir q e) w' ∧
      w'.files = w.files := by
  obtain ⟨v, hv, heq⟩ := generate_eq hconfig
  rw [← hv] at h
  refine ⟨v, ?_, hv⟩
  rw [heq]
  dsimp only
  rw [← hv]
  exact bind_of_error (discover_of_error h)

end

end Run

end EnumTables
