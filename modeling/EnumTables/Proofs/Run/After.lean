/-
What a run leaves behind, also where it fails.

A run may fail after any of its steps, and what it has changed until then stays.
So the file system afterwards is followed through each step whatever its
outcome.

* **`FileSystem.WritesTo`** — files were written at certain paths, and no file is
  gone;
* **`Run.after`** — the file system that a run leaves behind;
* **`Run.writes_bind`** — one step and the rest of a run;
* **`Run.ReadOnly`** — a run that changes nothing;
* **`Run.generate_writes`**, **`Run.init_writes`** — the paths that a command
  writes to.
-/
import EnumTables.Proofs.FileSystem.Growth
import EnumTables.Proofs.Run.Steps

namespace EnumTables

namespace FileSystem

variable {touched : Location → Prop} {targets : Path → Prop} {fs fs' fs'' : FileSystem}

/-- From `fs` to the tree `fs'` files were written at paths of `targets`. -/
def WritesTo (targets : Path → Prop) (fs fs' : FileSystem) : Prop :=
  fs.Grows (fun loc => ∃ t, targets t ∧ fs'.resolve .target t = .ok loc) fs'

namespace WritesTo

theorem refl (hfs : fs.Plain) : fs.WritesTo targets fs :=
  Grows.refl hfs

theorem trans (h : fs.WritesTo targets fs') (h' : fs'.WritesTo targets fs'') :
    fs.WritesTo targets fs'' := by
  refine Grows.trans (Grows.mono h ?_) h'
  rintro loc ⟨t, ht, hloc⟩
  exact ⟨t, ht, h'.resolve_eq h.plain (by simp) hloc⟩

theorem writeFile (hfs : fs.Plain) {t : Path} (ht : targets t) {content : List UInt8}
    (h : fs.writeFile t content = .ok fs') : fs.WritesTo targets fs' := by
  obtain ⟨name, dir, -, -, hgrows, hloc, -⟩ := grows_writeFile hfs h
  refine hgrows.mono ?_
  rintro loc rfl
  exact ⟨t, ht, hloc⟩

/-- Only those paths count at which there is a file in the end. -/
theorem grows (h : fs.WritesTo targets fs')
    (htouched : ∀ t loc content, targets t → fs'.resolve .target t = .ok loc →
      fs'.get? loc = some (.file content) → touched loc) : fs.Grows touched fs' := by
  refine ⟨h.plain, h.workDir, fun loc => ?_⟩
  rcases h.changed loc with heq | hmade | ⟨⟨t, ht, hresolve⟩, hfree, content, hfile⟩
  · exact .inl heq
  · exact .inr (.inl hmade)
  · exact .inr (.inr ⟨htouched t loc content ht hresolve hfile, hfree, content, hfile⟩)

end WritesTo

end FileSystem

theorem Config.isName_fileName : Path.IsName Config.fileName.bytes :=
  ⟨by decide, by decide, by decide, by decide⟩

namespace Run

/-- The file system that a run leaves behind, whether it succeeds or fails. -/
def after {α : Type} (x : Run α) (w : World) : FileSystem :=
  match x w with
  | .ok _ v => v.files
  | .error _ v => v.files

section

variable {α β : Type} {x : Run α} {f : α → Run β} {a : α} {failure : Failure} {v w : World}

theorem after_of_ok (h : x w = .ok a v) : x.after w = v.files := by
  rw [after, h]

theorem after_bind (x : Run α) (f : α → Run β) (w : World) :
    (x >>= f).after w =
      match x w with
      | .ok a v => (f a).after v
      | .error _ v => v.files := by
  simp only [after, bind, EStateM.bind]
  cases x w with
  | ok a v => rfl
  | error e v => rfl

end

/-! ### Runs that change nothing -/

/-- The run changes nothing. -/
def ReadOnly {α : Type} (x : Run α) : Prop :=
  ∀ w, x.after w = w.files

/-- The rest of a run counts for nothing if it changes nothing. -/
theorem after_bind_of_readOnly {α β : Type} (x : Run α) {f : α → Run β}
    (hf : ∀ a, ReadOnly (f a)) (w : World) : (x >>= f).after w = x.after w := by
  rw [after_bind, after]
  cases x w with
  | ok a v => exact hf a v
  | error e v => rfl

theorem readOnly_bind {α β : Type} {x : Run α} {f : α → Run β} (hx : ReadOnly x)
    (hf : ∀ a, ReadOnly (f a)) : ReadOnly (x >>= f) :=
  fun w => (after_bind_of_readOnly x hf w).trans (hx w)

theorem readOnly_pure {α : Type} (a : α) : ReadOnly (pure a) := fun _ => rfl

theorem readOnly_throw {α : Type} (failure : Failure) : ReadOnly (throw failure : Run α) :=
  fun _ => rfl

theorem readOnly_files : ReadOnly files := fun _ => rfl

theorem readOnly_logAll (events : List Event) : ReadOnly (logAll events) := fun _ => rfl

theorem readOnly_log (event : Event) : ReadOnly (log event) := fun _ => rfl

theorem readOnly_attempt {ε α : Type} (failure : ε → Failure) (outcome : Except ε α) :
    ReadOnly (attempt failure outcome) := by
  cases outcome with
  | ok a => exact readOnly_pure a
  | error e => exact readOnly_throw (failure e)

theorem readOnly_readSource (path : Path) : ReadOnly (readSource path) := by
  refine readOnly_bind readOnly_files fun fs => ?_
  refine readOnly_bind (readOnly_attempt _ _) fun content => ?_
  split
  · exact readOnly_pure _
  · exact readOnly_bind (readOnly_log _) fun _ => readOnly_pure _

theorem readOnly_discover (failure : Path → IoError → Failure) (root : Path) :
    ReadOnly (discover failure root) :=
  readOnly_bind readOnly_files fun _ => readOnly_bind (readOnly_attempt _ _) fun _ =>
    readOnly_bind (readOnly_log _) fun _ => readOnly_pure _

theorem readOnly_preview (path : Path) (format : Format) : ReadOnly (preview path format) := by
  refine readOnly_bind (readOnly_readSource path) fun file =>
    readOnly_bind (readOnly_logAll _) fun _ => ?_
  split
  · exact readOnly_bind (readOnly_log _) fun _ => readOnly_pure _
  · exact readOnly_pure _

end Run

theorem Config.readOnly_load (path : Path) : Run.ReadOnly (Config.load path) := by
  refine Run.readOnly_bind Run.readOnly_files fun fs =>
    Run.readOnly_bind (Run.readOnly_attempt _ _) fun content => ?_
  split
  · exact Run.readOnly_throw _
  · split
    · exact Run.readOnly_throw _
    · exact Run.readOnly_pure _

theorem Config.readOnly_start (path : Option Path) : Run.ReadOnly (Config.start path) := by
  refine Run.readOnly_bind ?_ fun config => Run.readOnly_bind (Run.readOnly_log _) fun _ =>
    Run.readOnly_pure _
  refine Run.readOnly_bind Run.readOnly_files fun fs => ?_
  split
  · split
    · exact Config.readOnly_load _
    · exact Run.readOnly_throw _
  · split
    · exact Config.readOnly_load _
    · exact Run.readOnly_pure _

namespace Run

/-! ### Runs that write files -/

section

variable {α β : Type} {targets : Path → Prop} {w : World}

theorem ReadOnly.writes {x : Run α} (hx : ReadOnly x) (hfs : w.files.Plain) :
    w.files.WritesTo targets (x.after w) := by
  rw [hx w]
  exact .refl hfs

/-- **One step and the rest of a run.** -/
theorem writes_bind {x : Run α} {f : α → Run β} (hx : w.files.WritesTo targets (x.after w))
    (hf : ∀ a v, x w = .ok a v → v.files.Plain → v.files.WritesTo targets ((f a).after v)) :
    w.files.WritesTo targets ((x >>= f).after w) := by
  rw [after_bind]
  rw [after] at hx
  cases hrun : x w with
  | error e v => rwa [hrun] at hx
  | ok a v =>
    rw [hrun] at hx
    exact hx.trans (hf a v hrun hx.plain)

/-- A step that is only made under a condition, and the rest of a run. -/
theorem writes_ite {c : Prop} [Decidable c] {x : Run Unit} {f : Unit → Run β}
    (hfs : w.files.Plain) (hx : w.files.WritesTo targets (x.after w))
    (hf : ∀ v : World, v.files.Plain → v.files.WritesTo targets ((f ()).after v)) :
    w.files.WritesTo targets ((if c then x >>= f else f ()).after w) := by
  split
  · exact writes_bind hx fun _ v _ hv => hf v hv
  · exact hf w hfs

theorem change_writes (hfs : w.files.Plain) {t : Path} (ht : targets t)
    (failure : IoError → Failure) (content : List UInt8) :
    w.files.WritesTo targets ((change failure (w.files.writeFile t content)).after w) := by
  cases hwrite : w.files.writeFile t content with
  | error e => exact .refl hfs
  | ok fs => exact FileSystem.WritesTo.writeFile hfs ht hwrite

theorem createDirAll_writes (hfs : w.files.Plain) (failure : IoError → Failure) (dir : Path) :
    w.files.WritesTo targets ((createDirAll failure dir).after w) := by
  have hafter : (createDirAll failure dir).after w = (w.files.createDirAll dir).2 :=
    readOnly_attempt failure (w.files.createDirAll dir).1 ⟨(w.files.createDirAll dir).2, w.log⟩
  rw [hafter]
  exact (FileSystem.grows_createDirAll hfs dir).of_untouched

/-- A configuration is written to one path. -/
theorem save_writes (hfs : w.files.Plain) {t : Path} (ht : targets t) (c : Config) :
    w.files.WritesTo targets ((c.save t).after w) := by
  rw [Config.save]
  split
  · refine writes_bind (readOnly_files.writes hfs) fun fs v hfs' hv => ?_
    cases hfs'
    exact change_writes hv ht _ _
  · exact (readOnly_throw _).writes hfs

/-- A document is written to one path. -/
theorem writeDocument_writes {out path : Path} {written : List Path} {file : SourceFile}
    (hfs : w.files.Plain) (htarget : targets (out.join file.artifact)) :
    w.files.WritesTo targets ((writeDocument out path written file).after w) := by
  refine writes_bind (readOnly_files.writes hfs) fun fs v _ hv => ?_
  refine writes_ite hv (createDirAll_writes hv _ _) fun v hv => ?_
  refine writes_ite hv ((readOnly_log _).writes hv) fun v hv => ?_
  refine writes_bind (readOnly_files.writes hv) fun fs v' hfs' hv' => ?_
  cases hfs'
  refine writes_bind (change_writes hv' htarget _ _) fun _ v _ hv => ?_
  exact (readOnly_bind (readOnly_log _) fun _ => readOnly_pure _).writes hv

/-- The documents of a run over files are written to their paths. -/
theorem generateEach_writes {out : Path} {paths : List Path} {done : Report}
    (hfs : w.files.Plain) (htargets : ∀ path ∈ paths, ∀ file : SourceFile,
      file.name = SourceFile.nameOf path → targets (out.join file.artifact)) :
    w.files.WritesTo targets ((generateEach out paths done).after w) := by
  induction paths generalizing done w with
  | nil => exact .refl hfs
  | cons path paths ih =>
    obtain ⟨htarget, htargets⟩ := List.forall_mem_cons.mp htargets
    rw [generateEach]
    refine writes_bind ((readOnly_readSource path).writes hfs) fun file v hread hv => ?_
    have hname : file.name = SourceFile.nameOf path := by
      obtain ⟨-, -, content, -, rfl⟩ := readSource_ok hread
      rfl
    refine writes_bind ((readOnly_logAll _).writes hv) fun _ v _ hv => ?_
    dsimp only
    split
    · exact writes_bind ((readOnly_log _).writes hv) fun _ v _ hv => ih hv htargets
    · exact writes_bind (writeDocument_writes hv (htarget file hname)) fun _ v _ hv =>
        ih hv htargets

/-- **What `generate` writes**: documents of files that it has found. -/
theorem generate_writes (config : Config) (source output : Option Path) (hfs : w.files.Plain) :
    w.files.WritesTo (fun t => ∃ found path, ∃ file : SourceFile,
        w.files.discover (config.withOverrides w.files.workPath source output).baseDir = .ok found ∧
        path ∈ found ∧ file.name = SourceFile.nameOf path ∧
        t = (config.withOverrides w.files.workPath source output).resolvedOutputDir.join
          file.artifact)
      ((generate config source output).after w) := by
  refine writes_bind (readOnly_files.writes hfs) fun fs v hfs' hv => ?_
  cases hfs'
  refine writes_bind ((readOnly_attempt _ _).writes hv) fun inEffect v₀ hv₀ hplain => ?_
  obtain ⟨hconfig, rfl⟩ := attempt_ok hv₀
  obtain rfl := Config.inEffect_ok hconfig
  refine writes_bind ((readOnly_log _).writes hplain) fun _ v₁ hv₁ hplain => ?_
  cases hv₁
  refine writes_bind ((readOnly_log _).writes hplain) fun _ v₂ hv₂ hplain => ?_
  cases hv₂
  refine writes_bind ((readOnly_discover _ _).writes hplain) fun found v₃ hv₃ hplain => ?_
  obtain ⟨hfound, -, -⟩ := discover_ok hv₃
  refine writes_bind (generateEach_writes hplain ?_) fun done v₄ _ hplain => ?_
  · intro path hpath file hname
    exact ⟨found, path, file, hfound, hpath, hname, rfl⟩
  · exact (readOnly_bind (readOnly_log _) fun _ => readOnly_pure _).writes hplain

/-- **What `init` writes**: one file in the directory that it is given. -/
theorem init_writes (dir : Option Path) (force : Bool) (hfs : w.files.Plain) :
    w.files.WritesTo (fun t => t = (dir.getD w.files.workPath).join Config.fileName)
      ((init dir force).after w) := by
  refine writes_bind (readOnly_files.writes hfs) fun fs v hfs' hv => ?_
  cases hfs'
  refine writes_bind ((readOnly_attempt _ _).writes hv) fun target v hv₀ hv => ?_
  obtain ⟨hdir, rfl⟩ := attempt_ok hv₀
  obtain rfl := v.files.eq_getD_of_elim hdir
  refine writes_bind (readOnly_files.writes hv) fun fs v hfs' hv => ?_
  cases hfs'
  split
  · exact (readOnly_throw _).writes hv
  · refine writes_bind (createDirAll_writes hv _ _) fun _ v _ hv => ?_
    refine writes_bind (save_writes hv ?_ Config.default) fun _ v _ hv =>
      (readOnly_bind (readOnly_log _) fun _ => readOnly_pure _).writes hv
    rfl

end

end Run

end EnumTables
