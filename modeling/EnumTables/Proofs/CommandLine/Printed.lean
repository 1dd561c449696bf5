/-
Command lines that are printed and read back.

Every invocation can be written as a command line, and its options in many orders:
those of the command stand behind its name, the ones known everywhere in front of the
name or behind it.  All of these command lines are read as the invocation.  None of the
command's own options can be given twice.

* **`Invocation.Arranged`** — the orders in which the options can be written, and
  **`Invocation.exists_arranged`** that there is one;
* **`parse_arranged`** — what is read from a command line, and that an option given
  twice is an error;
* **`HardPaths.parse_hardPaths`** — paths that look like options.
-/
import EnumTables.Proofs.CommandLine.Settings
import Mathlib.Data.List.Perm.Basic

namespace EnumTables

open CommandLine

/-! ### Printing -/

namespace Command

/-- The name of a command. -/
def word : Command → Text
  | generate _ _ => "generate".toList
  | preview _ _ => "preview".toList
  | init _ _ => "init".toList

def level : Command → CommandLine.Level
  | generate _ _ => .generate
  | preview _ _ => .preview
  | init _ _ => .init

/-- The options of a command.  A format that is not given is Markdown. -/
inductive Options : Command → List Setting → Prop
  | generate (source output : Option Path) :
      Options (.generate source output)
        (source.toList.map (.source ·.text) ++ output.toList.map (.output ·.text))
  | preview (file : Path) (format : Format) : Options (.preview file format) [.format format]
  | previewDefault (file : Path) : Options (.preview file .markdown) []
  | init (path : Option Path) (force : Bool) :
      Options (.init path force)
        (path.toList.map (.path ·.text) ++ if force then [.force] else [])

/-- What stands behind the options: the file, behind two dashes. -/
def operands : Command → List Text
  | preview file _ => ["--".toList, file.text]
  | generate _ _ | init _ _ => []

def paths : Command → List Path
  | generate source output => source.toList ++ output.toList
  | preview file _ => [file]
  | init path _ => path.toList

/-- The command line with some options in front of a command and some behind it. -/
def line (c : Command) (before inside : List Setting) : List Text :=
  before.map Setting.print ++ c.word :: (inside.map Setting.print ++ c.operands)

end Command

namespace Invocation

/-- The options that are known everywhere. -/
def globals (i : Invocation) : List Setting :=
  i.config.toList.map (.config ·.text) ++ if i.verbose then [.verbose] else []

def paths (i : Invocation) : List Path :=
  i.config.toList ++ i.command.paths

/-- The options of an invocation in some order: those that the command has of its own all
stand behind it. -/
structure Arranged (i : Invocation) (own before inside : List Setting) : Prop where
  options : i.command.Options own
  global : ∀ s ∈ before, s.isGlobal = true
  perm : (before ++ inside).Perm (i.globals ++ own)

end Invocation

/-! ### The options of an invocation -/

/-- What an option with a path is if that is not empty. -/
theorem valid_of_path {option : Text → Setting}
    (hoption : ∀ value, (option value).value? = some value) {p : Path} (hp : p.text ≠ []) :
    (option p.text).Valid := by
  rw [Setting.Valid, hoption, Ne, Option.some.injEq]
  exact hp

/-- A path is known by its text, among the paths of texts. -/
theorem eq_some_iff_text {path? : Option Path} (h : ∀ p ∈ path?, p.isUtf8 = true) (q : Path) :
    path? = some q ↔ q.isUtf8 = true ∧ ∃ p, path? = some p ∧ p.text = q.text := by
  constructor
  · intro hq
    exact ⟨h q hq, q, hq, rfl⟩
  · rintro ⟨hq, p, hp, htext⟩
    rw [hp, ← Path.mk_text (h p hp), htext, Path.mk_text hq]

/-- The options of a command are known behind it and only there, and no value is empty if no
path is. -/
theorem Command.Options.of_mem {c : Command} {own : List Setting} (h : c.Options own) :
    ∀ s ∈ own, s.KnownAt c.level ∧ s.isGlobal = false ∧
      ((∀ p ∈ c.paths, p.text ≠ []) → s.Valid) := by
  intro s hs
  cases h with
  | generate source output =>
    rcases List.mem_append.mp hs with hs | hs
    · obtain ⟨p, hp, rfl⟩ := List.mem_map.mp hs
      exact ⟨rfl, rfl, fun h => valid_of_path (fun _ => rfl) (h p (List.mem_append_left _ hp))⟩
    · obtain ⟨p, hp, rfl⟩ := List.mem_map.mp hs
      exact ⟨rfl, rfl, fun h => valid_of_path (fun _ => rfl) (h p (List.mem_append_right _ hp))⟩
  | preview file format =>
    obtain rfl := List.mem_singleton.mp hs
    refine ⟨rfl, rfl, fun _ => ?_⟩
    cases format <;> exact nofun
  | previewDefault file => cases hs
  | init path force =>
    rcases List.mem_append.mp hs with hs | hs
    · obtain ⟨p, hp, rfl⟩ := List.mem_map.mp hs
      exact ⟨rfl, rfl, fun h => valid_of_path (fun _ => rfl) (h p hp)⟩
    · cases force with
      | false => cases hs
      | true =>
        obtain rfl := List.mem_singleton.mp hs
        exact ⟨rfl, rfl, fun _ => nofun⟩

theorem Invocation.mem_globals {i : Invocation} {s : Setting} :
    s ∈ i.globals ↔
      (∃ p, i.config = some p ∧ s = .config p.text) ∨ i.verbose = true ∧ s = .verbose := by
  rw [globals, List.mem_append, List.mem_map]
  refine or_congr ?_ ?_
  · simp only [Option.mem_toList, eq_comm]
  · cases i.verbose <;> simp

theorem Invocation.isGlobal_of_mem_globals {i : Invocation} {s : Setting} (h : s ∈ i.globals) :
    s.isGlobal = true := by
  obtain ⟨p, -, rfl⟩ | ⟨-, rfl⟩ := mem_globals.mp h
  · rfl
  · rfl

section

variable {i : Invocation} {own before inside : List Setting} {s : Setting}

/-- No option is there twice. -/
theorem Invocation.nodup_parameters (h : i.command.Options own) :
    ((i.globals ++ own).map Setting.parameter).Nodup := by
  have hpath (path? : Option Path) (option : Text → Setting) (p : Parameter)
      (hoption : ∀ value, (option value).parameter = p) :
      ((path?.toList.map (option ·.text)).map Setting.parameter).Sublist [p] := by
    cases path? with
    | none => exact List.nil_sublist _
    | some q => exact hoption q.text ▸ List.Sublist.refl _
  have hflag (b : Bool) (s : Setting) :
      ((if b then [s] else []).map Setting.parameter).Sublist [s.parameter] := by
    cases b with
    | false => exact List.nil_sublist _
    | true => exact List.Sublist.refl _
  have hglobals : (i.globals.map Setting.parameter).Sublist [.config, .verbose] := by
    rw [globals, List.map_append]
    exact (hpath i.config .config .config fun _ => rfl).append (hflag i.verbose .verbose)
  rw [List.map_append]
  generalize i.command = c at h
  cases h with
  | generate source output =>
    rw [List.map_append]
    refine (hglobals.append ((hpath source .source .source fun _ => rfl).append
      (hpath output .output .output fun _ => rfl))).nodup ?_
    decide
  | preview file format =>
    refine (hglobals.append (List.Sublist.refl [Parameter.format])).nodup ?_
    decide
  | previewDefault file =>
    refine (hglobals.append (List.Sublist.refl [])).nodup ?_
    decide
  | init path force =>
    rw [List.map_append]
    refine (hglobals.append ((hpath path .path .path fun _ => rfl).append
      (hflag force .force))).nodup ?_
    decide

namespace Invocation.Arranged

/-- Each of the options stands in front of the command or behind it. -/
theorem mem_or_mem (h : i.Arranged own before inside) :
    s ∈ before ∨ s ∈ inside ↔ s ∈ i.globals ∨ s ∈ own := by
  rw [← List.mem_append, h.perm.mem_iff, List.mem_append]

/-- The options of the command stand behind it. -/
theorem mem_inside_iff (h : i.Arranged own before inside) (hs : s.isGlobal = false) :
    s ∈ inside ↔ s ∈ own := by
  have hbefore : s ∉ before := fun hmem => by simp [h.global s hmem] at hs
  have hglobals : s ∉ i.globals := fun hmem => by
    simp [isGlobal_of_mem_globals hmem] at hs
  have hiff : s ∈ before ∨ s ∈ inside ↔ s ∈ i.globals ∨ s ∈ own := h.mem_or_mem
  rwa [or_iff_right hbefore, or_iff_right hglobals] at hiff

/-- The others stand on one side of it. -/
theorem mem_or_mem_iff (h : i.Arranged own before inside) (hs : s.isGlobal = true) :
    s ∈ inside ∨ s ∈ before ↔ s ∈ i.globals := by
  have hown : s ∉ own := fun hmem => by simp [(h.options.of_mem s hmem).2.1] at hs
  rw [or_comm, h.mem_or_mem, or_iff_left hown]

theorem nodup (h : i.Arranged own before inside) :
    (before.map Setting.parameter).Nodup ∧ (inside.map Setting.parameter).Nodup := by
  have hnodup := (h.perm.map Setting.parameter).nodup_iff.mpr (nodup_parameters h.options)
  rw [List.map_append, List.nodup_append] at hnodup
  exact ⟨hnodup.1, hnodup.2.1⟩

/-- The options in front of a command are known there, those behind it are known there, and no
value is empty if no path is. -/
theorem known (h : i.Arranged own before inside) (hpaths : ∀ p ∈ i.paths, p.text ≠ []) :
    (∀ s ∈ before, s.KnownAt .top ∧ s.Valid) ∧
      ∀ s ∈ inside, s.KnownAt i.command.level ∧ s.Valid := by
  have hglobals : ∀ s ∈ i.globals, s.Valid := by
    intro s hs
    obtain ⟨p, hp, rfl⟩ | ⟨-, rfl⟩ := mem_globals.mp hs
    · exact valid_of_path (fun _ => rfl) (hpaths p (List.mem_append_left _ (by simp [hp])))
    · exact nofun
  have hown : ∀ s ∈ own, s.KnownAt i.command.level ∧ s.Valid := by
    intro s hs
    obtain ⟨hknown, -, hvalid⟩ := h.options.of_mem s hs
    exact ⟨hknown, hvalid fun p hp => hpaths p (List.mem_append_right _ hp)⟩
  constructor
  · intro s hs
    refine ⟨Setting.knownAt_of_isGlobal (h.global s hs) _, ?_⟩
    rcases h.mem_or_mem.mp (.inl hs) with hs | hs
    · exact hglobals s hs
    · exact (hown s hs).2
  · intro s hs
    rcases h.mem_or_mem.mp (.inr hs) with hs | hs
    · exact ⟨Setting.knownAt_of_isGlobal (isGlobal_of_mem_globals hs) _, hglobals s hs⟩
    · exact hown s hs

end Invocation.Arranged

/-! ### Reading -/

namespace CommandLine

/-- What has been read when the arguments of a command end. -/
def finished (c : Command) (inside : List Setting) : Matches :=
  match c with
  | .preview file _ =>
    { reading inside with
      given := (.file, file.text) :: (reading inside).given
      trailing := true
      hasFile := true }
  | .generate _ _ | .init _ _ => reading inside

theorem get?_finished {p : Parameter} (hp : p ≠ .file) (c : Command) (inside : List Setting) :
    (finished c inside).get? p = (reading inside).get? p := by
  cases c with
  | generate source output => rfl
  | init path force => rfl
  | preview file format =>
    have hne : (p == Parameter.file) = false := beq_false_of_ne hp
    rw [Matches.get?, finished, List.lookup_cons, hne]
    rfl

/-- The file of a preview. -/
theorem pathOf?_finished {file : Path} (format : Format) (inside : List Setting)
    (hfile : file.isUtf8 = true) :
    pathOf? (finished (.preview file format) inside) .file = some file :=
  congrArg some (Path.mk_text hfile)

/-- The arguments behind the options. -/
theorem scan_operands (c : Command) (hpaths : ∀ p ∈ c.paths, p.text ≠ [])
    (inside : List Setting) :
    ∃ m, scan c.level (reading inside) c.operands = .ok (m, none) ∧
      m.settle = .ok (finished c inside) := by
  cases c with
  | generate source output => exact ⟨_, rfl, rfl⟩
  | init path force => exact ⟨_, rfl, rfl⟩
  | preview file format =>
    refine ⟨{ reading inside with
      pending := some (.file, some file.text), trailing := true, hasFile := true }, rfl, ?_⟩
    have hnew : ¬(reading inside).has .file = true := by
      rw [has_reading, List.mem_map]
      rintro ⟨s, -, hs⟩
      cases s <;> cases hs
    have hfile : Matches.isValid .file file.text = true :=
      bne_iff_ne.mpr (hpaths file List.mem_cons_self)
    rw [Matches.settle]
    dsimp only
    rw [accept_value rfl hfile]
    exact if_neg hnew

/-- **The arguments behind the name of a command.** -/
theorem readCommand_print {c : Command} (hinside : ∀ s ∈ inside, s.KnownAt c.level ∧ s.Valid)
    (hpaths : ∀ p ∈ c.paths, p.text ≠ []) :
    readCommand c.level (inside.map Setting.print ++ c.operands) =
      if (inside.map Setting.parameter).Nodup
      then (commandOf c.level (finished c inside)).map (finished c inside, ·)
      else .error .argumentConflict := by
  have hempty : Matches.empty = reading [] := rfl
  have hscan : scan c.level (reading []) (inside.map Setting.print ++ c.operands) = _ :=
    scan_print (fun s hs => (hinside s hs).1) (fun s hs => (hinside s hs).2) List.nodup_nil
  obtain ⟨m, hm, hsettle⟩ := scan_operands c hpaths inside
  rw [readCommand, hempty, hscan, List.nil_append]
  split
  · rw [hm]
    show (m.settle >>= fun m => commandOf c.level m >>= fun command => .ok (m, command)) = _
    rw [hsettle]
    show (commandOf c.level (finished c inside) >>= fun command => _) = _
    cases commandOf c.level (finished c inside) with
    | error e => rfl
    | ok command => rfl
  · rfl

/-- **A command line** is read level by level. -/
theorem parse_line {c : Command} (hbefore : ∀ s ∈ before, s.KnownAt .top ∧ s.Valid)
    (hnodup : (before.map Setting.parameter).Nodup) (args : List Text) :
    parse (before.map Setting.print ++ c.word :: args) =
      (readCommand c.level args).map fun inner =>
        ⟨(pathOf? inner.1 .config).or (pathOf? (reading before) .config),
          inner.1.has .verbose || (reading before).has .verbose, inner.2⟩ := by
  have hempty : Matches.empty = reading [] := rfl
  have hscan : scan .top (reading []) (before.map Setting.print ++ c.word :: args) = _ :=
    scan_print (fun s hs => (hbefore s hs).1) (fun s hs => (hbefore s hs).2) List.nodup_nil
  have hword : scan .top (reading before) (c.word :: args) =
      .ok (reading before, some (c.word, args)) := by
    cases c <;> rfl
  have hlevel : Level.ofName? c.word = some c.level := by
    cases c <;> rfl
  rw [parse, hempty, hscan, List.nil_append, if_pos hnodup, hword]
  dsimp only [bind, Except.bind]
  rw [hlevel]
  dsimp only
  cases readCommand c.level args with
  | error e => rfl
  | ok inner => rfl

/-- The path of an option that is given for it and for nothing else. -/
theorem pathOf?_reading_eq (h : (inside.map Setting.parameter).Nodup) (option : Text → Setting)
    {p : Parameter} (hoption : ∀ value, (option value).entry = (p, value)) {path? : Option Path}
    (hutf8 : ∀ q ∈ path?, q.isUtf8 = true)
    (hgiven : ∀ value, option value ∈ inside ↔ ∃ q, path? = some q ∧ q.text = value) :
    pathOf? (reading inside) p = path? := by
  ext q
  rw [pathOf?_reading h option hoption, hgiven, eq_some_iff_text hutf8]

/-- **The command** that is read is the one that was printed. -/
theorem commandOf_finished (hpaths : ∀ p ∈ i.paths, p.isUtf8 = true)
    (h : i.Arranged own before inside) :
    commandOf i.command.level (finished i.command inside) = .ok i.command := by
  have hmem (s : Setting) (hs : s.isGlobal = false) : s ∈ inside ↔ s ∈ own := h.mem_inside_iff hs
  have hnodup := h.nodup.2
  have hoptions := h.options
  have hcommand : ∀ p ∈ i.command.paths, p.isUtf8 = true :=
    fun p hp => hpaths p (List.mem_append_right _ hp)
  generalize i.command = c at hoptions hcommand
  cases hoptions with
  | generate source output =>
    have hutf8 : ∀ q, source = some q ∨ output = some q → q.isUtf8 = true := by
      simpa [Command.paths] using hcommand
    have hsource : pathOf? (reading inside) .source = source :=
      pathOf?_reading_eq hnodup Setting.source (fun _ => rfl) (fun q hq => hutf8 q (.inl hq))
        fun value => by simp [hmem (.source value) rfl]
    have houtput : pathOf? (reading inside) .output = output :=
      pathOf?_reading_eq hnodup Setting.output (fun _ => rfl) (fun q hq => hutf8 q (.inr hq))
        fun value => by simp [hmem (.output value) rfl]
    show Except.ok (Command.generate (pathOf? (reading inside) .source)
      (pathOf? (reading inside) .output)) = _
    rw [hsource, houtput]
  | preview file format =>
    have hfile := pathOf?_finished format inside (hcommand file List.mem_cons_self)
    have hformat : (finished (.preview file format) inside).get? .format =
        some (Setting.format format).entry.2 := by
      rw [get?_finished (by decide)]
      exact (get?_reading hnodup (.format format)).mpr ((hmem _ rfl).mpr (by simp))
    simp only [Command.level, commandOf, hfile, hformat]
    cases format <;> rfl
  | previewDefault file =>
    have hfile := pathOf?_finished .markdown inside (hcommand file List.mem_cons_self)
    have hformat : (finished (.preview file .markdown) inside).get? .format = none := by
      have hnot : ¬(reading inside).has .format = true := by
        rw [has_reading, List.mem_map]
        rintro ⟨s, hs, heq⟩
        cases s with
        | format f => exact absurd ((hmem _ rfl).mp hs) List.not_mem_nil
        | _ => cases heq
      rw [get?_finished (by decide)]
      exact Option.not_isSome_iff_eq_none.mp hnot
    simp only [Command.level, commandOf, hfile, hformat]
    rfl
  | init path force =>
    have hutf8 : ∀ q, path = some q → q.isUtf8 = true := by
      simpa [Command.paths] using hcommand
    have hpath : pathOf? (reading inside) .path = path :=
      pathOf?_reading_eq hnodup Setting.path (fun _ => rfl) hutf8
        fun value => by cases force <;> simp [hmem (.path value) rfl]
    have hforce : (reading inside).has Setting.force.parameter = force := by
      rw [Bool.eq_iff_iff, has_flag rfl, hmem _ rfl]
      cases force <;> simp
    show Except.ok (Command.init (pathOf? (reading inside) .path)
      ((reading inside).has Setting.force.parameter)) = _
    rw [hpath, hforce]

/-- What has been read in the end is what the options say, but for the file. -/
theorem of_finished {p : Parameter} (hp : p ≠ .file) (c : Command) (inside : List Setting) :
    pathOf? (finished c inside) p = pathOf? (reading inside) p ∧
      (finished c inside).has p = (reading inside).has p := by
  rw [pathOf?, Matches.has, get?_finished hp]
  exact ⟨rfl, rfl⟩

/-- **The configuration file** is found on either side of the command. -/
theorem config_finished (hpaths : ∀ p ∈ i.paths, p.isUtf8 = true)
    (h : i.Arranged own before inside) :
    (pathOf? (finished i.command inside) .config).or (pathOf? (reading before) .config) =
      i.config := by
  have hgiven (q : Path) : i.config = some q ↔ q.isUtf8 = true ∧
      (Setting.config q.text ∈ inside ∨ Setting.config q.text ∈ before) := by
    rw [h.mem_or_mem_iff rfl, Invocation.mem_globals,
      eq_some_iff_text fun p hp => hpaths p (List.mem_append_left _ (by simpa using hp))]
    simp only [Setting.config.injEq, reduceCtorEq, and_false, or_false, eq_comm]
  have hin (q : Path) : pathOf? (reading inside) .config = some q ↔
      q.isUtf8 = true ∧ Setting.config q.text ∈ inside :=
    pathOf?_reading h.nodup.2 Setting.config (fun _ => rfl) q
  have hbefore (q : Path) : pathOf? (reading before) .config = some q ↔
      q.isUtf8 = true ∧ Setting.config q.text ∈ before :=
    pathOf?_reading h.nodup.1 Setting.config (fun _ => rfl) q
  rw [(of_finished (by decide) i.command inside).1]
  ext q
  rw [Option.or_eq_some_iff, hbefore]
  constructor
  · rintro (hq | ⟨-, hq⟩)
    · exact (hgiven q).mpr (((hin q).mp hq).imp_right .inl)
    · exact (hgiven q).mpr (hq.imp_right .inr)
  · intro hq
    -- what stands behind the command is looked at first, and it is the same path
    cases hfound : pathOf? (reading inside) .config with
    | some r =>
      have hr : i.config = some r := (hgiven r).mpr (((hin r).mp hfound).imp_right .inl)
      exact .inl (hr.symm.trans hq)
    | none =>
      obtain ⟨hutf8, hmem⟩ := (hgiven q).mp hq
      refine .inr ⟨rfl, hutf8, hmem.resolve_left fun hmem => ?_⟩
      rw [(hin q).mpr ⟨hutf8, hmem⟩] at hfound
      cases hfound

/-- **The flag for all reports** is found on either side of the command. -/
theorem verbose_finished (h : i.Arranged own before inside) :
    ((finished i.command inside).has .verbose || (reading before).has .verbose) = i.verbose := by
  have hgiven : Setting.verbose ∈ inside ∨ Setting.verbose ∈ before ↔ i.verbose = true := by
    rw [h.mem_or_mem_iff rfl, Invocation.mem_globals]
    simp
  have hin : (reading inside).has .verbose = true ↔ Setting.verbose ∈ inside :=
    has_flag (s := .verbose) rfl
  have hbefore : (reading before).has .verbose = true ↔ Setting.verbose ∈ before :=
    has_flag (s := .verbose) rfl
  rw [(of_finished (by decide) i.command inside).2, Bool.eq_iff_iff, Bool.or_eq_true, hin, hbefore,
    hgiven]

end CommandLine

/-- Every invocation can be printed. -/
theorem Invocation.exists_arranged (i : Invocation) :
    ∃ own, i.Arranged own [] (i.globals ++ own) := by
  obtain ⟨own, hown⟩ : ∃ own, i.command.Options own := by
    cases i.command with
    | generate source output => exact ⟨_, .generate source output⟩
    | preview file format => exact ⟨_, .preview file format⟩
    | init path force => exact ⟨_, .init path force⟩
  exact ⟨own, hown, nofun, List.Perm.refl _⟩

/-- **A command line is read as what it was printed from**, in whatever order its options
stand, and an option of the command that is added a second time is an error.  The paths are
texts, and none of them is empty. -/
theorem parse_arranged (i : Invocation) (own before inside : List Setting)
    (hpaths : ∀ p ∈ i.paths, p.isUtf8 = true ∧ p.text ≠ []) (h : i.Arranged own before inside) :
    CommandLine.parse (i.command.line before inside) = .ok i ∧
      ∀ s ∈ own, ∀ again : Setting, again.parameter = s.parameter → again.Valid →
        ∀ front rest, inside = front ++ rest →
          CommandLine.parse (i.command.line before (front ++ again :: rest)) =
            .error .argumentConflict := by
  obtain ⟨hbefore, hinside⟩ := h.known fun p hp => (hpaths p hp).2
  have hcommand : ∀ p ∈ i.command.paths, p.text ≠ [] :=
    fun p hp => (hpaths p (List.mem_append_right _ hp)).2
  have hutf8 : ∀ p ∈ i.paths, p.isUtf8 = true := fun p hp => (hpaths p hp).1
  constructor
  · rw [Command.line, parse_line hbefore h.nodup.1, readCommand_print hinside hcommand,
      if_pos h.nodup.2, commandOf_finished hutf8 h]
    show Except.ok (Invocation.mk _ _ _) = _
    rw [config_finished hutf8 h, verbose_finished h]
  · intro s hs again hagain hvalid front rest hsplit
    have hown := h.options.of_mem s hs
    -- the option itself stands behind the command as well
    have hmem : s ∈ front ++ rest := hsplit ▸ (h.mem_inside_iff hown.2.1).mpr hs
    have hknown : again.KnownAt i.command.level := by
      rw [Setting.KnownAt, Setting.name_eq_of_parameter_eq hagain, hagain]
      exact hown.1
    have hall : ∀ t ∈ front ++ again :: rest, t.KnownAt i.command.level ∧ t.Valid := by
      intro t ht
      rcases List.mem_cons.mp (List.perm_middle.mem_iff.mp ht) with rfl | ht
      · exact ⟨hknown, hvalid⟩
      · exact hinside t (hsplit ▸ ht)
    have hnot : ¬((front ++ again :: rest).map Setting.parameter).Nodup := by
      rw [(List.perm_middle.map Setting.parameter).nodup_iff, List.map_cons, List.nodup_cons,
        hagain]
      exact fun hnodup => hnodup.1 (List.mem_map_of_mem hmem)
    rw [Command.line, parse_line hbefore h.nodup.1, readCommand_print hall hcommand, if_neg hnot]
    rfl

end

namespace HardPaths

/-- A preview of a file whose name looks like an option, with two dashes as the path of the
configuration. -/
def invocation : Invocation :=
  ⟨some (.ofString "--"), true, .preview (.ofString "--force=1") .json⟩

theorem arranged : invocation.Arranged [.format .json] [.verbose]
    [.format .json, .config "--".toList] where
  options := .preview _ _
  global := by simp [Setting.isGlobal]
  perm := by decide

/-- The paths are read as they are, and a second format is an error. -/
theorem parse_hardPaths :
    CommandLine.parse ["--verbose".toList, "preview".toList, "--format=json".toList,
      "--config=--".toList, "--".toList, "--force=1".toList] = .ok invocation ∧
    CommandLine.parse ["--verbose".toList, "preview".toList, "--format=json".toList,
      "--config=--".toList, "--format=markdown".toList, "--".toList, "--force=1".toList] =
      .error .argumentConflict := by
  have hpaths : ∀ p ∈ invocation.paths, p.isUtf8 = true ∧ p.text ≠ [] := by decide
  obtain ⟨hparse, hagain⟩ := parse_arranged invocation _ _ _ hpaths arranged
  refine ⟨hparse, ?_⟩
  exact hagain (.format .json) (by simp) (.format .markdown) rfl nofun
    [.format .json, .config "--".toList] [] rfl

end HardPaths

end EnumTables
