/-
Writing the default configuration.

A configuration file is written in three steps: it is checked that none is there,
the directory is made with its parents, and the file is written.  Each of the three
may fail.  After a success the file is there, so with `force` it can be written once
more, and then it gets the text that it has in a directory that is there.

In these file systems a file has one name, rights are all or nothing, and a file is
written as a whole or not at all.

* **`FileSystem.set_self`**, **`FileSystem.Plain.createDirAll_of_directory`** —
  changes that change nothing;
* **`Run.init_ok`**, **`Run.init_error`** — the three steps,
  **`Run.init_of_ok`** the other way round;
* **`FileSystem.Makes.of_writeFile`** — what was made and what was written;
* **`Run.init_again`** — the default is written where it stands;
* **`init_repeats`** — what a success leaves, and what comes after it.
-/
import EnumTables.Proofs.Config.RoundTrip
import EnumTables.Proofs.Run.Stopped

namespace EnumTables

namespace FileSystem

/-! ### Changes that change nothing -/

section

variable {fs : FileSystem} {loc : Location} {entry : Entry} {p : Path}

/-- Putting what is there. -/
theorem set_self (hloc : loc ≠ []) (h : fs.get? loc = some entry) : fs.set loc entry = fs := by
  rw [get?, if_neg hloc] at h
  have hsetIn (entries : List (Location × Entry)) (h : entries.lookup loc = some entry) :
      setIn loc entry entries = entries := by
    induction entries with
    | nil => cases h
    | cons e rest ih =>
      obtain ⟨other, old⟩ := e
      by_cases heq : other = loc
      · subst heq
        obtain rfl : old = entry := by simpa using h
        rw [setIn, if_pos rfl]
      · have hne : (loc == other) = false := beq_eq_false_iff_ne.mpr (Ne.symm heq)
        rw [List.lookup_cons, hne] at h
        rw [setIn, if_neg heq, ih h]
  rw [set, hsetIn _ h]

theorem names_append_slash (cs ds : Bytes) :
    names ⟨cs ++ Path.slash :: ds⟩ = names ⟨cs⟩ ++ names ⟨ds⟩ := by
  rw [names, names, names, Text.splitOn_append_cons, List.filter_append]

/-- Slashes at the end of a path name nothing. -/
theorem names_append_slashes (cs : Bytes) {slashes : Bytes}
    (h : ∀ c ∈ slashes, c = Path.slash) :
    names ⟨cs ++ slashes⟩ = names ⟨cs⟩ := by
  induction slashes generalizing cs with
  | nil => rw [List.append_nil]
  | cons c slashes ih =>
    obtain ⟨rfl, hslashes⟩ := List.forall_mem_cons.mp h
    have hnil : names ⟨slashes⟩ = [] := ih [] hslashes
    rw [names_append_slash, hnil, List.append_nil]

theorem exists_withoutSlashes (hp : p.bytes ≠ []) :
    ∃ slashes, p.bytes = (withoutSlashes p).bytes ++ slashes ∧
      (∀ c ∈ slashes, c = Path.slash) ∧ (withoutSlashes p).bytes ≠ [] := by
  rw [withoutSlashes]
  split
  · exact ⟨[], by simp, by simp, hp⟩
  · rename_i hne
    refine ⟨(p.bytes.reverse.takeWhile (· = Path.slash)).reverse, ?_, fun c hc => ?_,
      by simpa using hne⟩
    · rw [← List.reverse_append, List.takeWhile_append_dropWhile, List.reverse_reverse]
    · simpa using List.mem_takeWhile_imp (List.mem_reverse.mp hc)

/-- The path of a directory leads there without the slashes at its end. -/
theorem Plain.resolve_withoutSlashes (hfs : fs.Plain) (h : fs.resolve .target p = .ok loc)
    (hloc : fs.get? loc = some .directory) : fs.resolve .entry (withoutSlashes p) = .ok loc := by
  obtain ⟨hnul, hp, hsize, hfrom⟩ := resolve_eq_ok_iff.mp h
  obtain ⟨slashes, hbytes, hslashes, hne⟩ := exists_withoutSlashes hp
  have hnames : names p = names (withoutSlashes p) :=
    calc names p = names ⟨(withoutSlashes p).bytes ++ slashes⟩ := by rw [← hbytes]
      _ = names (withoutSlashes p) := names_append_slashes _ hslashes
  have hstart : startOf p fs.workDir = startOf (withoutSlashes p) fs.workDir := by
    obtain ⟨c, cs, hcs⟩ := List.exists_cons_of_ne_nil hne
    simp [startOf, Path.isAbsolute, hbytes, hcs]
  have htarget : fs.resolve .target (withoutSlashes p) = .ok loc := by
    refine resolve_eq_ok_iff.mpr ⟨?_, hne, ?_, ?_⟩
    · rw [hbytes] at hnul
      simp_all
    · rw [hbytes, List.length_append] at hsize
      omega
    · rw [hfs.resolveFrom_steps_iff hloc, ← hnames, ← hstart]
      exact (hfs.resolveFrom_steps_iff hloc p).mp hfrom
  exact hfs.resolve_of_ne_writing (by simp) htarget

/-- **Making a directory that is there.** -/
theorem Plain.createDirAll_of_directory (hfs : fs.Plain) (h : fs.resolve .target p = .ok loc)
    (hloc : fs.get? loc = some .directory) : fs.createDirAll p = (.ok (), fs) := by
  obtain ⟨-, hp, hsize, -⟩ := resolve_eq_ok_iff.mp h
  have hmake : fs.makeDir p = .error .alreadyExists := by
    rw [makeDir, if_neg fun hlong => Nat.not_lt_of_le hlong.1 hsize,
      hfs.resolve_withoutSlashes h hloc]
    simp [hloc]
  have hdir : fs.isDir p = true := by
    rw [isDir, stat_eq_ok_iff.mpr ⟨loc, h, hloc⟩]
    rfl
  have hensure : fs.ensureDir p = .ok fs := by
    rw [ensureDir, hmake]
    simp [hdir]
  rw [createDirAll, if_neg hp, hensure]

end

/-! ### What is made and what is written -/

variable {fs mid fs' : FileSystem} {path p : Path} {content : List UInt8}

/-- Directories are made on a path and then a file is written: what is different is
the file, or one of the directories. -/
theorem Makes.of_writeFile (h : fs.Makes path mid) (hwrite : mid.writeFile p content = .ok fs') :
    ∃ loc, mid.resolve .writing p = .ok loc ∧ fs'.resolve .target p = .ok loc ∧
      fs'.get? loc = some (.file content) ∧ ∀ other, other ≠ loc →
        fs'.get? other = fs.get? other ∨
          fs.get? other = none ∧ fs'.get? other = some .directory ∧
            ∃ q, OnPath path q ∧ fs'.resolve .target (withoutSlashes q) = .ok other := by
  obtain ⟨name, dir, -, -, hgrows, hresolve, hcontent⟩ := grows_writeFile h.grows.plain hwrite
  obtain ⟨loc, hwriting, -, rfl⟩ := h.grows.plain.writeFile_ok hwrite
  obtain rfl : dir ++ [name] = loc :=
    Except.ok.inj (hresolve.symm.trans (hgrows.resolve_eq h.grows.plain (by simp) hwriting))
  refine ⟨_, hwriting, hresolve, hcontent, fun other hother => ?_⟩
  have hsame : (mid.set (dir ++ [name]) (.file content)).get? other = mid.get? other := by
    rw [get?_set (by simp), if_neg hother]
  rw [hsame]
  rcases h.grows.untouched other id with heq | ⟨hnone, hdir⟩
  · exact .inl heq
  · obtain ⟨q, hq, hmade⟩ := h.made other (by simp [hnone, hdir])
    exact .inr ⟨hnone, hdir, q, hq, hgrows.resolve_eq h.grows.plain (by simp) hmade⟩

end FileSystem

/-! ### The three steps -/

theorem Config.isUtf8_default : Config.default.isUtf8 = true := by
  decide

theorem Config.save_default_ok {path : Path} {w w' : World}
    (h : Config.default.save path w = .ok () w') :
    w.files.writeFile path (Utf8.encode Config.default.toToml) = .ok w'.files := by
  rw [Config.save_eq isUtf8_default] at h
  exact (Run.change_ok h).1

theorem Config.save_default_error {path : Path} {e : Failure} {w w' : World}
    (h : Config.default.save path w = .error e w') :
    ∃ cause, w.files.writeFile path (Utf8.encode Config.default.toToml) = .error cause ∧
      e = .io (.configFile cause) ∧ w' = w := by
  rw [Config.save_eq isUtf8_default] at h
  exact Run.change_error h

namespace Run

variable {dir : Option Path} {force : Bool} {w w' : World}

/-- **What a success does.** -/
theorem init_ok {written : Path} (h : init dir force w = .ok written w') :
    dir.elim w.files.currentDir .ok = .ok (dir.getD w.files.workPath) ∧
      written = (dir.getD w.files.workPath).join Config.fileName ∧
      (force = false → w.files.pathExists written = false) ∧
      ∃ mid, w.files.createDirAll (dir.getD w.files.workPath) = (.ok (), mid) ∧
        mid.writeFile written (Utf8.encode Config.default.toToml) = .ok w'.files := by
  obtain ⟨fs, v, hfs, hrun⟩ := exists_of_bind_eq_ok h
  cases hfs
  obtain ⟨path, v, hpath, hrun⟩ := exists_of_bind_eq_ok hrun
  obtain ⟨hpath, rfl⟩ := attempt_ok hpath
  obtain rfl := v.files.eq_getD_of_elim hpath
  obtain ⟨fs, v, hfs, hrun⟩ := exists_of_bind_eq_ok hrun
  cases hfs
  split at hrun
  · cases hrun
  rename_i hcheck
  obtain ⟨_, v, hmake, hrun⟩ := exists_of_bind_eq_ok hrun
  obtain ⟨_, u, hsave, hrun⟩ := exists_of_bind_eq_ok hrun
  obtain ⟨_, u', hlog, hpure⟩ := exists_of_bind_eq_ok hrun
  cases hpure
  rw [(logAll_ok hlog).1]
  exact ⟨hpath, rfl, fun hforce => by simpa [hforce] using hcheck, v.files,
    (createDirAll_ok hmake).1, Config.save_default_ok hsave⟩

/-- **Where it fails**: the working directory is gone, a file is there, a directory
cannot be made, or the file cannot be written. -/
theorem init_error {failure : Failure} (h : init dir force w = .error failure w') :
    failure = .makeDir none .notFound ∧ dir = none ∧ w' = w ∨
      failure = .config (.present ((dir.getD w.files.workPath).join Config.fileName)) ∧
        force = false ∧ w' = w ∨
      (∃ cause, failure = .makeDir (dir.getD w.files.workPath) cause ∧
        w.files.createDirAll (dir.getD w.files.workPath) = (.error cause, w'.files)) ∨
      ∃ cause, failure = .io (.configFile cause) ∧
        w.files.createDirAll (dir.getD w.files.workPath) = (.ok (), w'.files) ∧
        w'.files.writeFile ((dir.getD w.files.workPath).join Config.fileName)
          (Utf8.encode Config.default.toToml) = .error cause := by
  rcases exists_of_bind_eq_error h with h | ⟨fs, v, hfs, hrun⟩
  · cases h
  cases hfs
  rcases w.files.elim_currentDir dir with hpath | ⟨hgone, hdir⟩
  swap
  · rw [hgone] at hrun
    cases hrun
    exact .inl ⟨rfl, hdir, rfl⟩
  rw [hpath] at hrun
  rcases exists_of_bind_eq_error hrun with h | ⟨path, v, hok, hrun⟩
  · cases h
  cases hok
  rcases exists_of_bind_eq_error hrun with h | ⟨fs, v, hfs, hrun⟩
  · cases h
  cases hfs
  split at hrun
  · rename_i hcheck
    cases hrun
    exact .inr (.inl ⟨rfl, by simpa using (Bool.and_eq_true_iff.mp hcheck).2, rfl⟩)
  rcases exists_of_bind_eq_error hrun with hmake | ⟨_, v, hmake, hrun⟩
  · obtain ⟨cause, hmade, rfl⟩ := createDirAll_error hmake
    exact .inr (.inr (.inl ⟨cause, rfl, hmade⟩))
  have hmade := (createDirAll_ok hmake).1
  rcases exists_of_bind_eq_error hrun with hsave | ⟨_, u, hsave, hrun⟩
  · obtain ⟨cause, hwrite, rfl, rfl⟩ := Config.save_default_error hsave
    exact .inr (.inr (.inr ⟨cause, rfl, hmade, hwrite⟩))
  · -- the report behind does not fail
    cases hrun

section

variable {path : Path} {mid fs' : FileSystem}

/-- A file that is there is not written without `force`. -/
theorem init_of_present (hpath : dir.elim w.files.currentDir .ok = .ok path)
    (h : w.files.pathExists (path.join Config.fileName) = true) :
    init dir false w = .error (.config (.present (path.join Config.fileName))) w := by
  have hfiles : files w = .ok w.files w := rfl
  have hdir : attempt (.makeDir none) (dir.elim w.files.currentDir .ok) w = .ok path w := by
    rw [hpath]
    rfl
  rw [init, bind_of_ok hfiles, bind_of_ok hdir, bind_of_ok hfiles, h]
  rfl

/-- The directory is made if no file is in the way, or with `force`. -/
theorem init_eq (hpath : dir.elim w.files.currentDir .ok = .ok path)
    (hcheck : force = true ∨ w.files.pathExists (path.join Config.fileName) = false) :
    init dir force w = (do
      createDirAll (.makeDir path) path
      Config.default.save (path.join Config.fileName)
      log (.initialized path)
      return path.join Config.fileName) w := by
  have hfiles : files w = .ok w.files w := rfl
  have hdir : attempt (.makeDir none) (dir.elim w.files.currentDir .ok) w = .ok path w := by
    rw [hpath]
    rfl
  rw [init, bind_of_ok hfiles, bind_of_ok hdir, bind_of_ok hfiles, if_neg]
  rcases hcheck with rfl | hmissing
  · simp
  · simp [hmissing]

theorem init_of_ok (hpath : dir.elim w.files.currentDir .ok = .ok path)
    (hcheck : force = true ∨ w.files.pathExists (path.join Config.fileName) = false)
    (hmake : w.files.createDirAll path = (.ok (), mid))
    (hwrite : mid.writeFile (path.join Config.fileName) (Utf8.encode Config.default.toToml) =
      .ok fs') :
    ∃ w', init dir force w = .ok (path.join Config.fileName) w' ∧ w'.files = fs' := by
  have hfiles (v : World) : files v = .ok v.files v := rfl
  have hmade : createDirAll (.makeDir path) path w = .ok () ⟨mid, w.log⟩ := by
    rw [createDirAll, bind_of_ok (hfiles w), hmake]
    rfl
  have hsaved : Config.default.save (path.join Config.fileName) ⟨mid, w.log⟩ =
      .ok () ⟨fs', w.log⟩ := by
    rw [Config.save_eq Config.isUtf8_default, hwrite]
    rfl
  rw [init_eq hpath hcheck, bind_of_ok hmade, bind_of_ok hsaved]
  exact ⟨_, rfl, rfl⟩

theorem init_of_error {cause : IoError} (hpath : dir.elim w.files.currentDir .ok = .ok path)
    (hcheck : force = true ∨ w.files.pathExists (path.join Config.fileName) = false)
    (hmake : w.files.createDirAll path = (.error cause, mid)) :
    init dir force w = .error (.makeDir path cause) ⟨mid, w.log⟩ := by
  have hfiles : files w = .ok w.files w := rfl
  have hmade : createDirAll (.makeDir path) path w = .error (.makeDir path cause) ⟨mid, w.log⟩ := by
    rw [createDirAll, bind_of_ok hfiles, hmake]
    rfl
  rw [init_eq hpath hcheck, bind_of_error hmade]

end

/-- A success makes directories on the path before it writes the file. -/
theorem init_ok_makes {written : Path} (hfs : w.files.Plain)
    (h : init dir force w = .ok written w') :
    ∃ mid, w.files.Makes (dir.getD w.files.workPath) mid ∧
      mid.writeFile written (Utf8.encode Config.default.toToml) = .ok w'.files := by
  obtain ⟨-, -, -, mid, hmade, hwrite⟩ := init_ok h
  have hmakes := FileSystem.makes_createDirAll hfs (dir.getD w.files.workPath)
  rw [hmade] at hmakes
  exact ⟨mid, hmakes, hwrite⟩

/-- **What a failure leaves** are directories on the path. -/
theorem init_error_makes {failure : Failure} (hfs : w.files.Plain)
    (h : init dir force w = .error failure w') :
    w.files.Makes (dir.getD w.files.workPath) w'.files := by
  have hmakes := FileSystem.makes_createDirAll hfs (dir.getD w.files.workPath)
  rcases init_error h with ⟨-, -, rfl⟩ | ⟨-, -, rfl⟩ | ⟨cause, -, hmade⟩ | ⟨cause, -, hmade, -⟩
  · exact .refl hfs
  · exact .refl hfs
  · rwa [hmade] at hmakes
  · rwa [hmade] at hmakes

end Run

namespace FileSystem

variable {fs fs' : FileSystem} {path : Path}

/-- Where directories were made the files are as before. -/
theorem Makes.get?_file_iff (h : fs.Makes path fs') (loc : Location) {entry : Entry}
    (hentry : entry.isFile = true) : fs'.get? loc = some entry ↔ fs.get? loc = some entry := by
  rcases h.grows.untouched loc id with heq | ⟨hnone, hdir⟩
  · rw [heq]
  · have hne : entry ≠ .directory := by
      rintro rfl
      cases hentry
    simp [hnone, hdir, hne.symm]

/-- The directory in which a configuration file is can be made again. -/
theorem Plain.createDirAll_again (hfs : fs.Plain) {name : Bytes} {loc : Location}
    (hname : Path.IsName name) (h : fs.resolve .target (path.join ⟨name⟩) = .ok loc) :
    fs.createDirAll path = (.ok (), fs) := by
  by_cases hpath : path.bytes = []
  · rw [createDirAll, if_pos hpath]
  · obtain ⟨dir, hdir, hdirectory, -⟩ := (hfs.resolve_join_iff hpath hname).mp h
    exact hfs.createDirAll_of_directory hdir hdirectory

end FileSystem

/-- **Where the default stands**, writing it once more with `force` changes nothing:
the directory is there, and the file gets the text that it has. -/
theorem Run.init_again {dir : Option Path} {w : World} {path : Path} {loc : Location}
    (hfs : w.files.Plain) (hpath : dir.elim w.files.currentDir .ok = .ok path)
    (hresolve : w.files.resolve .target (path.join Config.fileName) = .ok loc)
    (hfile : w.files.get? loc = some (.file (Utf8.encode Config.default.toToml))) :
    ∃ w', Run.init dir true w = .ok (path.join Config.fileName) w' ∧ w'.files = w.files := by
  have hname := Config.isName_fileName
  have hmade := hfs.createDirAll_again hname hresolve
  have hends : (path.join Config.fileName).EndsIn "enumdoc.toml".toList :=
    path.endsIn_join hname.no_slash
  have hwrite := hfs.writeFile_of_file hends hname.ne_nil hresolve hfile
    (Utf8.encode Config.default.toToml)
  have hloc : loc ≠ [] := by
    rintro rfl
    simp [FileSystem.get?_root] at hfile
  rw [FileSystem.set_self hloc hfile] at hwrite
  exact Run.init_of_ok hpath (.inl rfl) hmade hwrite

/-- **Writing the default configuration**, in a file system without links.  A success
gives the path of the directory joined with the name of the file, from which the
default is loaded.  Beyond that file only directories on the path were made.  Without
`force` the file is not written again, and with `force` the same stands there
afterwards.  A failure leaves all files as they are. -/
theorem init_repeats (dir : Option Path) (force : Bool) (w : World) (hfs : w.files.Plain) :
    let path := dir.getD w.files.workPath
    let target := path.join Config.fileName
    (∀ written w', Run.init dir force w = .ok written w' →
      written = target ∧
      Config.load target w' = .ok .default w' ∧
      (∃ loc, w'.files.resolve .target target = .ok loc ∧
        w'.files.get? loc = some (.file (Utf8.encode Config.default.toToml)) ∧
        ∀ other, other ≠ loc → w'.files.get? other = w.files.get? other ∨
          w.files.get? other = none ∧ w'.files.get? other = some .directory ∧
            ∃ p, FileSystem.OnPath path p ∧
              w'.files.resolve .target (FileSystem.withoutSlashes p) = .ok other) ∧
      Run.init dir false w' = .error (.config (.present target)) w' ∧
      ∃ w'', Run.init dir true w' = .ok target w'' ∧ w''.files = w'.files) ∧
    ∀ failure w', Run.init dir force w = .error failure w' →
      ∀ loc entry, entry.isFile = true →
        (w'.files.get? loc = some entry ↔ w.files.get? loc = some entry) := by
  intro path target
  refine ⟨fun written w' h => ?_, fun failure w' h loc entry hentry =>
    (Run.init_error_makes hfs h).get?_file_iff loc hentry⟩
  obtain ⟨mid, hmakes, hwrite⟩ := Run.init_ok_makes hfs h
  obtain ⟨helim, rfl, -⟩ := Run.init_ok h
  obtain ⟨name, parent, -, -, hgrows, -⟩ := FileSystem.grows_writeFile hmakes.grows.plain hwrite
  have hpath : dir.elim w'.files.currentDir .ok = .ok path := by
    cases dir with
    | none => exact hgrows.currentDir_eq (hmakes.grows.currentDir_eq helim)
    | some _ => exact helim
  obtain ⟨loc, -, hresolve, hfile, hothers⟩ := hmakes.of_writeFile hwrite
  refine ⟨rfl, ?_, ⟨loc, hresolve, hfile, hothers⟩, ?_, ?_⟩
  · exact Config.load_eq_ok (FileSystem.readFile_eq_ok_iff.mpr ⟨loc, hresolve, hfile⟩)
      (Utf8.decode?_encode _) (Config.ofToml?_toToml Config.isUtf8_default)
  · have hthere : w'.files.pathExists target = true :=
      FileSystem.pathExists_iff.mpr ⟨loc, _, hresolve, hfile⟩
    exact Run.init_of_present hpath hthere
  · exact Run.init_again hgrows.plain hpath hresolve hfile

/-- A file in the working directory. -/
def oneFile : World where
  files :=
    { entries := [(["E.java".toList], .file (Utf8.encode "enum E\x7b\x7d".toList))]
      workDir := [] }
  log := []

/-- The same with two directories. -/
def oneFileDirs : FileSystem :=
  (oneFile.files.set ["a".toList] .directory).set ["a".toList, "b".toList] .directory

/-- A directory is made with its parent for the configuration file.  Where a file is
on the path none is written. -/
theorem init_repeats_missingDirectory :
    oneFile.files.Plain ∧
      (∃ w', Run.init (some (.ofString "a/b")) false oneFile =
          .ok (.ofString "a/b/enumdoc.toml") w' ∧
        Config.load (.ofString "a/b/enumdoc.toml") w' = .ok .default w' ∧
        Run.init (some (.ofString "a/b")) false w' =
          .error (.config (.present (.ofString "a/b/enumdoc.toml"))) w') ∧
      ∃ w', Run.init (some (.ofString "E.java/b")) true oneFile =
          .error (.makeDir (some (.ofString "E.java/b")) .notDirectory) w' ∧
        ∀ loc entry, entry.isFile = true →
          (w'.files.get? loc = some entry ↔ oneFile.files.get? loc = some entry) := by
  have hplain : oneFile.files.Plain := .of_entries (by decide +kernel)
  have hmissing : oneFile.files.pathExists (.ofString "a/b/enumdoc.toml") = false := by
    decide +kernel
  have hmade : oneFile.files.createDirAll (.ofString "a/b") = (.ok (), oneFileDirs) := by
    decide +kernel
  have hwrite : oneFileDirs.writeFile (.ofString "a/b/enumdoc.toml")
      (Utf8.encode Config.default.toToml) =
        .ok (oneFileDirs.set ["a".toList, "b".toList, "enumdoc.toml".toList]
          (.file (Utf8.encode Config.default.toToml))) := by
    decide +kernel
  have hfailed : oneFile.files.createDirAll (.ofString "E.java/b") =
      (.error .notDirectory, oneFile.files) := by
    decide +kernel
  refine ⟨hplain, ?_, ?_⟩
  · obtain ⟨w', hrun, -⟩ := @Run.init_of_ok (some (.ofString "a/b")) false oneFile
      (.ofString "a/b") _ _ rfl (.inr hmissing) hmade hwrite
    obtain ⟨-, hload, -, hagain, -⟩ := (init_repeats _ _ _ hplain).1 _ w' hrun
    exact ⟨w', hrun, hload, hagain⟩
  · have hrun := @Run.init_of_error (some (.ofString "E.java/b")) true oneFile
      (.ofString "E.java/b") _ _ rfl (.inl rfl) hfailed
    exact ⟨_, hrun, (init_repeats _ _ _ hplain).2 _ _ hrun⟩

end EnumTables
