/-
Commands never touch source files.

Commands are called one after the other, each in the file system that the calls
before it have left, and each may fail at any point.  One call changes only what
it may write, and so does any sequence of them: the documents of source files
that some call has found, and configuration files where some call has put them.
None of these is called like a source file.

A document is called by what is shown of the name of its source file, with U+FFFD for
what is no text.  An empty path stands for the working directory where a directory is
asked for.

In these file systems a file has one name, rights are all or nothing, and a file is
written as a whole or not at all.

* **`Call`** — a command with its configuration, or the program with its
  arguments;
* **`Command.MayWrite`** — the files that a command may write;
* **`Call.writes`** — what one call changes, **`Call.writes_afterAll`** what any
  number of calls changes;
* **`sources_untouched`** — source files stay as they are;
* **`OtherNames.written_elsewhere`** — a document that is not called like its source
  file, and a configuration file for no directory.
-/
import EnumTables.Program
import EnumTables.Proofs.FileSystem.Joined
import EnumTables.Proofs.FileSystem.Sources
import EnumTables.Proofs.Run.After

namespace EnumTables

/-! ### Calls -/

/-- A command that is run with a configuration, or a run of the whole program,
which loads its configuration. -/
inductive Call where
  | direct (config : Config) (command : Command)
  | program (args : List Text) (filterSetting : Option Text)

/-- What a command may write.  It runs in `fs` and leaves `fs'` behind, and `loc`
is where the file lies.  The document of a source file has the name that is shown of
it, up to the extension. -/
def Command.MayWrite (config : Config) (fs fs' : FileSystem) (loc : Location) : Command → Prop
  | .generate source output => ∃ found path, ∃ stem : Text,
      fs.discover (config.withOverrides fs.workPath source output).baseDir = .ok found ∧
      path ∈ found ∧ SourceFile.nameOf path = stem ++ ".java".toList ∧
      fs'.LiesIn (config.withOverrides fs.workPath source output).resolvedOutputDir
        (Utf8.encode (stem ++ ".md".toList)) loc
  | .preview _ _ => False
  | .init dir _ => fs'.LiesIn (dir.getD fs.workPath) "enumdoc.toml".toList loc

namespace Call

/-- The file system that a call leaves behind. -/
def after (fs : FileSystem) : Call → FileSystem
  | .direct config command => (command.run config).after ⟨fs, []⟩
  | .program args filterSetting => (Program.run args filterSetting fs).files

/-- The file system that calls leave behind, one after the other. -/
def afterAll (calls : List Call) (fs : FileSystem) : FileSystem :=
  calls.foldl after fs

/-- The command that a call asks for. -/
def command? : Call → Option Command
  | .direct _ command => some command
  | .program args _ => (CommandLine.parse args).toOption.map fun invocation => invocation.command

/-- The configuration that a call runs its command with, if there is one. -/
def config? (fs : FileSystem) : Call → Option Config
  | .direct config _ => some config
  | .program args _ => (CommandLine.parse args).toOption.bind fun invocation =>
      (Config.start invocation.config).run' ⟨fs, [.started]⟩

/-- What a call may write in a file system. -/
def MayWrite (fs : FileSystem) (call : Call) (loc : Location) : Prop :=
  ∃ config command, call.config? fs = some config ∧ call.command? = some command ∧
    command.MayWrite config fs (call.after fs) loc

end Call

/-! ### One command -/

namespace Run

variable {w : World}

/-- **The documents of `generate`** lie in the output directory and are called like
the source files that were found. -/
theorem generate_writes_documents (config : Config) (source output : Option Path)
    (hfs : w.files.Plain) :
    w.files.Grows (fun loc => (Command.generate source output).MayWrite config w.files
      ((generate config source output).after w) loc) ((generate config source output).after w) := by
  have hwrites := generate_writes config source output hfs
  refine hwrites.grows ?_
  rintro t loc content ⟨found, path, file, hfound, hpath, hname, rfl⟩ hresolve hfile
  have hsource := FileSystem.isSource_of_mem_discover hfound hpath
  obtain ⟨raw, -, -, hraw, hrawName, hfileName, -⟩ := hfs.exists_source hsource
  obtain ⟨hstem, htext, hshown⟩ :=
    SourceFile.exists_stem hraw hrawName (hname.trans (SourceFile.nameOf_of_fileName? hfileName))
  -- a file was written, so its name is one of a file
  obtain ⟨name, dir, hends, hisName, -, -⟩ :=
    hwrites.plain.exists_name_of_resolve hresolve (FileSystem.noDirectory_of_isFile hfile rfl)
  obtain rfl : file.artifact.bytes = name :=
    (Path.endsIn_join _ (SourceFile.artifact_bytes_ne hstem hshown htext).1).unique hends
  have hartifact : file.artifact = .mk (Utf8.decodeLossy raw ++ ".md".toList) := by
    rw [SourceFile.artifact_eq hstem hshown htext] at hisName ⊢
    split
    · rename_i hdot
      rw [if_pos hdot] at hisName
      exact absurd rfl hisName.ne_dots
    · rfl
  refine ⟨found, path, Utf8.decodeLossy raw, hfound, hpath, hname.symm.trans htext, ?_⟩
  rw [hartifact] at hisName hresolve
  exact hwrites.plain.liesIn_of_resolve_join hisName hresolve

/-- **The configuration file of `init`** lies in the directory that is given. -/
theorem init_writes_config (config : Config) (dir : Option Path) (force : Bool)
    (hfs : w.files.Plain) :
    w.files.Grows (fun loc => (Command.init dir force).MayWrite config w.files
      ((init dir force).after w) loc) ((init dir force).after w) := by
  have hwrites := init_writes dir force hfs
  refine hwrites.grows ?_
  rintro t loc content rfl hresolve -
  exact hwrites.plain.liesIn_of_resolve_join Config.isName_fileName hresolve

end Run

/-- **One command** changes only what it may write. -/
theorem Command.writes (config : Config) (command : Command) {w : World} (hfs : w.files.Plain) :
    w.files.Grows (fun loc => command.MayWrite config w.files ((command.run config).after w) loc)
      ((command.run config).after w) := by
  cases command with
  | generate source output =>
    rw [Command.run, Run.after_bind_of_readOnly _ fun _ => Run.readOnly_pure _]
    exact Run.generate_writes_documents config source output hfs
  | preview file format =>
    rw [Command.run, Run.after_bind_of_readOnly _ fun _ => Run.readOnly_pure _,
      Run.readOnly_preview]
    exact .refl hfs
  | init dir force =>
    rw [Command.run, Run.after_bind_of_readOnly _ fun _ => Run.readOnly_pure _]
    exact Run.init_writes_config config dir force hfs

/-! ### Calls -/

namespace Call

variable {fs : FileSystem}

theorem files_run (args : List Text) (filterSetting : Option Text) (fs : FileSystem) :
    (Program.run args filterSetting fs).files =
      match CommandLine.parse args with
      | .error _ => fs
      | .ok invocation => (Program.execute invocation).after ⟨fs, []⟩ := by
  rw [Program.run]
  cases CommandLine.parse args with
  | error e => rfl
  | ok invocation =>
    simp only [Run.after, EStateM.run]
    cases Program.execute invocation ⟨fs, []⟩ <;> rfl

/-- A run of the program that gets as far as a command leaves behind what the
command leaves. -/
theorem after_program (args : List Text) (filterSetting : Option Text) (fs : FileSystem) :
    (program args filterSetting).after fs = fs ∨
      ∃ invocation config w, CommandLine.parse args = .ok invocation ∧
        Config.start invocation.config ⟨fs, [.started]⟩ = .ok config w ∧ w.files = fs ∧
        (program args filterSetting).after fs = (invocation.command.run config).after w := by
  rw [after, files_run]
  cases CommandLine.parse args with
  | error e => exact .inl rfl
  | ok invocation =>
    have hlog : Run.log .started ⟨fs, []⟩ = .ok () ⟨fs, [.started]⟩ := rfl
    have hstart := Config.readOnly_start invocation.config ⟨fs, [.started]⟩
    dsimp only
    rw [Program.execute, Run.after_bind, hlog]
    dsimp only
    rw [Run.after_bind]
    cases hrun : Config.start invocation.config ⟨fs, [.started]⟩ with
    | error e w =>
      rw [Run.after, hrun] at hstart
      exact .inl hstart
    | ok config w =>
      rw [Run.after_of_ok hrun] at hstart
      exact .inr ⟨invocation, config, w, rfl, hrun, hstart, rfl⟩

/-- **One call** changes only what it may write. -/
theorem writes (call : Call) (hfs : fs.Plain) : fs.Grows (call.MayWrite fs) (call.after fs) := by
  cases call with
  | direct config command =>
    have hwrites : fs.Grows _ _ := command.writes config (w := ⟨fs, []⟩) hfs
    exact hwrites.mono fun loc hloc => ⟨config, command, rfl, rfl, hloc⟩
  | program args filterSetting =>
    rcases after_program args filterSetting fs with
      hafter | ⟨invocation, config, w, hparse, hstart, rfl, hafter⟩
    · rw [hafter]
      exact .refl hfs
    · have hwrites := invocation.command.writes config hfs
      rw [hafter]
      refine hwrites.mono fun loc hloc => ⟨config, invocation.command, ?_, ?_, by rwa [hafter]⟩
      · simp [config?, hparse, Except.toOption, Run.run'_of_ok hstart]
      · simp [command?, hparse, Except.toOption]

theorem after_preview {call : Call} {file : Path} {format : Format}
    (h : call.command? = some (.preview file format)) (fs : FileSystem) : call.after fs = fs := by
  have hreadOnly (config : Config) (w : World) :
      ((Command.preview file format).run config).after w = w.files := by
    rw [Command.run, Run.after_bind_of_readOnly _ fun _ => Run.readOnly_pure _,
      Run.readOnly_preview]
  cases call with
  | direct config command =>
    cases h
    exact hreadOnly config ⟨fs, []⟩
  | program args filterSetting =>
    rcases after_program args filterSetting fs with
      hafter | ⟨invocation, config, w, hparse, -, rfl, hafter⟩
    · exact hafter
    · have hcommand : invocation.command = .preview file format := by
        simpa [command?, hparse, Except.toOption] using h
      rw [hafter, hcommand, hreadOnly]

/-- **Any number of calls** changes only what one of them may write. -/
theorem writes_afterAll (calls : List Call) (hfs : fs.Plain) :
    fs.Grows (fun loc => ∃ front call back, calls = front ++ call :: back ∧
      call.MayWrite (afterAll front fs) loc) (afterAll calls fs) := by
  induction calls generalizing fs with
  | nil => exact .refl hfs
  | cons call calls ih =>
    have hcall := call.writes hfs
    refine (hcall.mono fun loc hloc => ?_).trans ((ih hcall.plain).mono fun loc hloc => ?_)
    · exact ⟨[], call, calls, rfl, hloc⟩
    · obtain ⟨front, other, back, rfl, hmay⟩ := hloc
      exact ⟨call :: front, other, back, rfl, hmay⟩

/-- What a call may write is not called like a source file. -/
theorem MayWrite.ne_source {call : Call} {dir : Location} {name : Bytes}
    (h : call.MayWrite fs (dir ++ [name])) :
    (Path.splitName name).2 ≠ some FileSystem.sourceExtension := by
  obtain ⟨config, command, -, -, hmay⟩ := h
  -- neither of the two extensions ends in the letter of that of source files
  have hlast : name.getLast? = some 0x64 ∨ name.getLast? = some 0x6C := by
    cases command with
    | generate source output =>
      obtain ⟨-, -, stem, -, -, -, here, -, -, hloc⟩ := hmay
      obtain rfl : name = Utf8.encode (stem ++ ".md".toList) := by
        simpa using List.append_inj_right' hloc rfl
      rw [Utf8.encode_append, List.getLast?_append]
      exact .inl rfl
    | preview file format => exact hmay.elim
    | init path force =>
      obtain ⟨here, -, -, hloc⟩ := hmay
      obtain rfl : name = Utf8.encode "enumdoc.toml".toList := by
        simpa using List.append_inj_right' hloc rfl
      exact .inr rfl
  intro hsource
  have hsplit : Path.splitName name =
      ((Path.splitName name).1, some FileSystem.sourceExtension) := Prod.ext rfl hsource
  rw [(Path.splitName_eq_iff.mp hsplit).1, FileSystem.getLast?_sourceName] at hlast
  exact absurd hlast (by decide)

end Call

/-- **Commands never touch source files.**  However many are called, and wherever
they fail: a file with the extension of source files keeps its content, no file
is gone, and a file that is new or has another content was written by one of the
calls, as that call may.  A preview changes nothing. -/
theorem sources_untouched (calls : List Call) (fs : FileSystem) (hfs : fs.Plain) :
    (∀ dir name entry, (Path.splitName name).2 = some FileSystem.sourceExtension →
      entry.isFile = true → fs.get? (dir ++ [name]) = some entry →
      (Call.afterAll calls fs).get? (dir ++ [name]) = some entry) ∧
    (∀ loc entry, entry.isFile = true → fs.get? loc = some entry →
      ∃ new, new.isFile = true ∧ (Call.afterAll calls fs).get? loc = some new) ∧
    (∀ loc entry, entry.isFile = true → (Call.afterAll calls fs).get? loc = some entry →
      fs.get? loc ≠ some entry →
      ∃ front call back, calls = front ++ call :: back ∧
        call.MayWrite (Call.afterAll front fs) loc) ∧
    (∀ call : Call, ∀ file format, call.command? = some (.preview file format) →
      ∀ fs, call.after fs = fs) := by
  have hwrites := Call.writes_afterAll calls hfs
  refine ⟨fun dir name entry hname _ hentry => ?_, fun loc entry => hwrites.exists_isFile,
    fun loc entry hfile hentry hnew => ?_,
    fun call file format hcommand => Call.after_preview hcommand⟩
  · refine hwrites.get?_eq ?_ hentry
    rintro ⟨front, call, back, -, hmay⟩
    exact hmay.ne_source hname
  · by_contra hnone
    rcases hwrites.untouched loc hnone with heq | ⟨-, hdir⟩
    · exact hnew (heq ▸ hentry)
    · obtain rfl : entry = .directory := Option.some.inj (hentry.symm.trans hdir)
      cases hfile

/-- A source file and nothing else. -/
def oneSource : FileSystem where
  entries := [(["E.java".toList], .file (Utf8.encode "enum E\x7b/**1*/A\x7d".toList))]
  workDir := []

/-- A run that succeeds, one whose output directory is the source file, and one of
the whole program. -/
theorem sources_untouched_oneSource :
    oneSource.Plain ∧
      (Call.afterAll [.direct Config.default (.generate none none),
          .direct Config.default (.generate none (some (.ofString "E.java"))),
          .program ["init".toList, "--force".toList] none] oneSource).get? ["E.java".toList] =
        some (.file (Utf8.encode "enum E\x7b/**1*/A\x7d".toList)) := by
  have hplain : oneSource.Plain := .of_entries (by decide +kernel)
  exact ⟨hplain, (sources_untouched _ oneSource hplain).1 [] "E.java".toList _ (by decide) rfl rfl⟩

namespace OtherNames

/-- A source file with a byte that is no text in front of the extension. -/
def files : FileSystem where
  entries := [([0xFF :: ".java".toList], .file (Utf8.encode "enum E\x7b/**1*/A\x7d".toList))]
  workDir := []

/-- **Files that are not called after what was found or given.**  The document of the
source file is called by what is shown of its name, and no file of that name was found.
With an empty path, which leads to no directory, the configuration file is written
into the working directory. -/
theorem written_elsewhere :
    files.Plain ∧
      (∃ found, files.discover (.ofString ".") = .ok found ∧ ∀ path ∈ found,
        path.fileName? ≠ some (Utf8.encode (Utf8.replacement :: ".java".toList))) ∧
      files.get? ["md".toList, Utf8.encode (Utf8.replacement :: ".md".toList)] = none ∧
      ((Call.direct .default (.generate none none)).after files).get?
          ["md".toList, Utf8.encode (Utf8.replacement :: ".md".toList)] ≠ none ∧
      files.get? ["enumdoc.toml".toList] = none ∧
      ((Call.direct .default (.init (some ⟨[]⟩) false)).after files).get?
          ["enumdoc.toml".toList] ≠ none ∧
      ((Call.direct .default (.init (some ⟨[]⟩) false)).after files).isDir ⟨[]⟩ = false :=
  ⟨.of_entries (by decide +kernel), ⟨_, rfl, by decide +kernel⟩, by decide +kernel,
    by decide +kernel, by decide +kernel, by decide +kernel, by decide +kernel⟩

end OtherNames

end EnumTables
