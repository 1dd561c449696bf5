/-
A configuration that is saved is loaded again.

The file has a header and one line for each setting, so reading it takes two or
three statements.  Each of them is read whatever stands behind it, and the value
of a setting is a quoted string in one of four styles.

* **`Toml.statements?_settingLine`** — reading the line of a setting;
* **`Config.ofToml?_toToml`** — a configuration is read back from its file;
* **`config_saved`** — a configuration that is saved is the one that is loaded.
-/
import EnumTables.Config.Load
import EnumTables.Proofs.FileSystem.Written
import EnumTables.Proofs.Path.Texts
import EnumTables.Proofs.Run.Steps
import EnumTables.Proofs.Text.Utf8
import EnumTables.Proofs.Toml.Quoted

namespace EnumTables

namespace Toml

/-! ### Statements -/

section

variable {draft draft' : Draft} {cs rest : Text}

theorem statements?_nil (draft : Draft) : statements? draft [] = some draft.root := by
  rw [statements?]
  rfl

/-- One statement in front of others. -/
theorem statements?_cons (hspace : skipSpace cs = cs) (hrest : rest.length < cs.length)
    (h : statement? draft cs = some (draft', rest)) :
    statements? draft cs = statements? draft' rest := by
  rw [statements?, hspace]
  split
  · simp at hrest
  · rw [h]
    exact dif_pos hrest

end

/-! ### Tables -/

/-- A document with one table, whose header is in effect. -/
def Draft.single (name : Text) (entries : Table) : Draft :=
  ⟨[(name, .table .header entries)], [name]⟩

/-- A new key goes to the end of the table. -/
theorem Draft.update_single {name key : Text} {entries : Table} (hkey : entries.get? key = none)
    (value : Value) :
    (single name entries).root.update (fun entries => entries.insert [key] value)
        (single name entries).header =
      some (single name (entries ++ [(key, value)])).root := by
  have hname : Table.get? name [(name, .table .header entries)] = some (.table .header entries) :=
    List.lookup_cons_self
  simp [single, Table.update, Table.insert, Table.insertAt, Table.addNew, Table.set, hkey, hname]

/-! ### Keys and values -/

/-- A key that needs no quotes. -/
structure IsBareKey (key : Text) : Prop where
  ne_nil : key ≠ []
  chars : ∀ c ∈ key, isKeyChar c = true

namespace IsBareKey

variable {key : Text}

/-- A line that starts with a key starts with no other character. -/
theorem append_ne (hkey : IsBareKey key) {d : Char} (hd : isKeyChar d = false) (cs r : Text) :
    key ++ cs ≠ d :: r := by
  obtain ⟨c, key', rfl⟩ := List.exists_cons_of_ne_nil hkey.ne_nil
  have hc : isKeyChar c = true := hkey.chars c List.mem_cons_self
  rintro heq
  rw [(List.cons.inj heq).1, hd] at hc
  cases hc

theorem skipSpace_append (hkey : IsBareKey key) (cs : Text) :
    skipSpace (key ++ cs) = key ++ cs := by
  obtain ⟨c, key', hcons⟩ := List.exists_cons_of_ne_nil hkey.ne_nil
  have hne {d : Char} (hd : isKeyChar d = false) : c ≠ d := by
    rintro rfl
    exact hkey.append_ne hd [] key' (by rw [List.append_nil, hcons])
  have hspace : isSpace c = false := by
    simp [isSpace, hne (d := ' ') (by decide), hne (d := '\t') (by decide)]
  rw [hcons, List.cons_append, skipSpace, List.dropWhile_cons_of_neg (by simp [hspace])]

end IsBareKey

/-- A key is read up to a character that cannot be part of it. -/
theorem key?_append {key : Text} (hkey : IsBareKey key) {d : Char} (hd : isKeyChar d = false)
    {rest : Text} (hdot : (skipSpace (d :: rest)).head? ≠ some '.') :
    key? (key ++ d :: rest) = some ([key], skipSpace (d :: rest)) := by
  have htake : (key ++ d :: rest).takeWhile isKeyChar = key := by
    simp [List.takeWhile_append_of_pos hkey.chars, hd]
  have hdrop : (key ++ d :: rest).dropWhile isKeyChar = d :: rest := by
    simp [List.dropWhile_append_of_pos hkey.chars, hd]
  have hpart : keyPart? (key ++ d :: rest) = some (key, d :: rest) := by
    rw [keyPart?, htake, hdrop]
    · split
      · exact absurd rfl hkey.ne_nil
      · rfl
    · exact hkey.append_ne (by decide) _
    · exact hkey.append_ne (by decide) _
  rw [key?, show depthLimit - 1 = 78 + 1 from rfl, keyParts?, hkey.skipSpace_append, hpart]
  dsimp only
  split
  · rename_i heq
    rw [heq] at hdot
    exact absurd rfl hdot
  · rfl

/-- A written string starts with its quote. -/
theorem exists_write_eq (s : Text) :
    ∃ cs, Quoted.write s = '"' :: cs ∨ Quoted.write s = '\'' :: cs := by
  rw [Quoted.write]
  cases Quoted.style s with
  | basic => exact ⟨_, .inl rfl⟩
  | literal => exact ⟨_, .inr rfl⟩
  | longBasic => exact ⟨_, .inl rfl⟩
  | longLiteral => exact ⟨_, .inr rfl⟩

/-- A text is read back as the value it is written as, also behind a space. -/
theorem value?_write (s : Text) {rest : Text} (hdouble : rest.head? ≠ some '"')
    (hsingle : rest.head? ≠ some '\'') :
    value? (skipSpace (' ' :: (Quoted.write s ++ rest))) = some (.string s, rest) := by
  have hread := Quoted.read?_write s hdouble hsingle
  obtain ⟨cs, hcs | hcs⟩ := exists_write_eq s
  · rw [hcs, List.cons_append] at hread ⊢
    show value? ('"' :: (cs ++ rest)) = _
    rw [value?, valueAt?, hread]
    rfl
  · rw [hcs, List.cons_append] at hread ⊢
    show value? ('\'' :: (cs ++ rest)) = _
    rw [value?, valueAt?, hread]
    rfl

theorem settingLine_append (key : Text) (path : Path) (rest : Text) :
    Config.settingLine key path ++ rest =
      key ++ ' ' :: '=' :: ' ' :: (Quoted.write path.text ++ '\n' :: rest) := by
  simp [Config.settingLine]

/-- **The line of a setting** adds its key to the table at hand. -/
theorem statements?_settingLine (name : Text) {key : Text} (entries : Table) (hkey : IsBareKey key)
    (hnew : entries.get? key = none) (path : Path) (rest : Text) :
    statements? (.single name entries) (Config.settingLine key path ++ rest) =
      statements? (.single name (entries ++ [(key, .string path.text)])) rest := by
  have hread : keyValue? value? (Config.settingLine key path ++ rest) =
      some ([key], .string path.text, '\n' :: rest) := by
    rw [settingLine_append, keyValue?, key?_append hkey (by decide) (by simp [skipSpace, isSpace])]
    show (value? (skipSpace (' ' :: _))).map _ = _
    rw [value?_write _ (by simp) (by simp)]
    rfl
  have hother {d : Char} (hd : isKeyChar d = false) (r : Text) :
      Config.settingLine key path ++ rest ≠ d :: r := by
    rw [settingLine_append]
    exact hkey.append_ne hd _ r
  refine statements?_cons ?_ ?_ ?_
  · rw [settingLine_append, hkey.skipSpace_append]
  · rw [settingLine_append]
    simp only [List.length_append, List.length_cons]
    omega
  rw [statement?, hread]
  · show (Table.update _ _ _).bind _ = _
    rw [Draft.update_single hnew]
    rfl
  · exact hother (by decide)
  · exact hother (by decide)
  · exact fun r => hother (by decide) ('\n' :: r)
  · exact fun r => hother (by decide) ('[' :: r)
  · exact hother (by decide)

theorem dropByteOrderMark_of_ne {c : Char} (hc : c.toNat ≠ 0xFEFF) (cs : Text) :
    dropByteOrderMark (c :: cs) = c :: cs :=
  if_neg hc

/-- The header that every file starts with. -/
theorem statements?_projectLine (rest : Text) :
    statements? ⟨[], []⟩ ("[project]\n".toList ++ rest) =
      statements? (.single "project".toList []) rest := by
  have hkey : IsBareKey "project".toList :=
    ⟨by decide, List.all_eq_true.mp (by decide)⟩
  have hread : key? ("project".toList ++ ']' :: '\n' :: rest) =
      some (["project".toList], ']' :: '\n' :: rest) :=
    key?_append hkey (by decide) (by simp [skipSpace, isSpace])
  refine statements?_cons rfl (by simp; omega) ?_
  show statement? ⟨[], []⟩ ('[' :: ("project".toList ++ ']' :: '\n' :: rest)) = _
  rw [statement?, hread]
  · rfl
  · exact fun r heq => hkey.append_ne (by decide) _ r heq

end Toml

namespace Config

/-- The table of the settings that are written. -/
def settings (c : Config) : Toml.Table :=
  ("base_dir".toList, .string c.baseDir.text) ::
    (match c.outputDir with
      | none => []
      | some dir => [("output_dir".toList, .string dir.text)])

theorem read?_toToml (c : Config) :
    Toml.read? c.toToml = some [("project".toList, .table .header c.settings)] := by
  have hbase : Toml.IsBareKey "base_dir".toList :=
    ⟨by decide, List.all_eq_true.mp (by decide)⟩
  have houtput : Toml.IsBareKey "output_dir".toList :=
    ⟨by decide, List.all_eq_true.mp (by decide)⟩
  have hmark (cs : Text) : Toml.dropByteOrderMark ("[project]\n".toList ++ cs) =
      "[project]\n".toList ++ cs := Toml.dropByteOrderMark_of_ne (by decide) _
  obtain ⟨base, output⟩ := c
  unfold toToml
  rw [List.append_assoc, Toml.read?, hmark, Toml.statements?_projectLine,
    Toml.statements?_settingLine _ _ hbase rfl]
  cases output with
  | none =>
    rw [Toml.statements?_nil]
    rfl
  | some dir =>
    have hline := Toml.statements?_settingLine "project".toList
      [("base_dir".toList, .string base.text)] houtput rfl dir []
    rw [List.append_nil] at hline
    exact hline.trans (Toml.statements?_nil _)

/-- **A configuration is read back from its file**, if its directories are texts. -/
theorem ofToml?_toToml {c : Config} (hc : c.isUtf8 = true) : ofToml? c.toToml = some c := by
  have hsettings : ofProject? (Toml.Table.get? "project".toList
      [("project".toList, .table .header c.settings)]) =
      ofSettings? (Toml.Table.get? "base_dir".toList c.settings)
        (Toml.Table.get? "output_dir".toList c.settings) := rfl
  rw [ofToml?, read?_toToml]
  show ofProject? _ = some c
  rw [hsettings]
  obtain ⟨base, output⟩ := c
  obtain ⟨hbase, houtput⟩ := Bool.and_eq_true_iff.mp hc
  cases output with
  | none =>
    show some (Config.mk (.mk base.text) none) = _
    rw [Path.mk_text hbase]
  | some dir =>
    show some (Config.mk (.mk base.text) (some (.mk dir.text))) = _
    rw [Path.mk_text hbase, Path.mk_text houtput]

theorem isUtf8_withOverrides {c : Config} {workDir : Path} {source output : Option Path}
    (hc : c.isUtf8 = true) (hworkDir : workDir.isUtf8 = true)
    (hsource : source.all Path.isUtf8 = true) (houtput : output.all Path.isUtf8 = true) :
    (c.withOverrides workDir source output).isUtf8 = true := by
  obtain ⟨hbase, hout⟩ := Bool.and_eq_true_iff.mp hc
  refine Bool.and_eq_true_iff.mpr ⟨?_, ?_⟩
  · cases source with
    | none => exact hbase
    | some dir => exact hsource
  · cases output with
    | none => exact hout
    | some dir => exact Path.isUtf8_join hworkDir houtput

/-! ### Files -/

/-- Loading gives the configuration that the file describes. -/
theorem load_eq_ok {path : Path} {w : World} {content : List UInt8} {text : Text} {c : Config}
    (hread : w.files.readFile path = .ok content) (htext : Utf8.decode? content = some text)
    (hc : ofToml? text = some c) : load path w = .ok c w := by
  have hfiles : Run.files w = .ok w.files w := rfl
  have hcontent : Run.attempt (.io ∘ .configFile) (w.files.readFile path) w = .ok content w := by
    rw [hread]
    rfl
  rw [load, Run.bind_of_ok hfiles, Run.bind_of_ok hcontent, htext]
  dsimp only
  rw [hc]
  rfl

/-- A configuration whose directories are texts is written. -/
theorem save_eq {c : Config} (hc : c.isUtf8 = true) (path : Path) (w : World) :
    c.save path w = Run.change (.io ∘ .configFile)
      (w.files.writeFile path (Utf8.encode c.toToml)) w := by
  have hfiles : Run.files w = .ok w.files w := rfl
  rw [save, if_pos hc, Run.bind_of_ok hfiles]

/-- What becomes of a configuration that is saved at a path. -/
structure ComesBack (c : Config) (path : Path) (w : World) : Prop where
  /-- The file describes the configuration. -/
  text : ofToml? c.toToml = some c
  /-- If the file system takes the file, the configuration is loaded from it. -/
  saved : ∀ fs, w.files.writeFile path (Utf8.encode c.toToml) = .ok fs →
    c.save path w = .ok () { w with files := fs } ∧
      load path { w with files := fs } = .ok c { w with files := fs }
  /-- If it does not, nothing is done. -/
  refused : ∀ e, w.files.writeFile path (Utf8.encode c.toToml) = .error e →
    c.save path w = .error (.io (.configFile e)) w

theorem comesBack {c : Config} (hc : c.isUtf8 = true) (path : Path) {w : World}
    (hfs : w.files.Rooted) : c.ComesBack path w := by
  refine ⟨ofToml?_toToml hc, fun fs hwrite => ?_, fun e hwrite => ?_⟩
  · rw [save_eq hc, hwrite]
    exact ⟨rfl, load_eq_ok (hfs.readFile_of_writeFile hwrite) (Utf8.decode?_encode _)
      (ofToml?_toToml hc)⟩
  · rw [save_eq hc, hwrite]
    rfl

end Config

/-- **A configuration that is saved is loaded again**, whatever the texts of its
directories are, and also with the directories of a command line put in.  A
configuration with a directory that is no text is not saved. -/
theorem config_saved (c : Config) (workDir : Path) (source output : Option Path) (path : Path)
    (w : World) (hfs : w.files.Rooted) :
    (c.isUtf8 = true → c.ComesBack path w ∧
      (workDir.isUtf8 = true → source.all Path.isUtf8 = true → output.all Path.isUtf8 = true →
        (c.withOverrides workDir source output).ComesBack path w)) ∧
    (c.isUtf8 = false → c.save path w = .error (.config .notUtf8) w) := by
  refine ⟨fun hc => ⟨Config.comesBack hc path hfs, fun hworkDir hsource houtput => ?_⟩,
    fun hc => ?_⟩
  · exact Config.comesBack (Config.isUtf8_withOverrides hc hworkDir hsource houtput) path hfs
  · rw [Config.save, if_neg (by simp [hc])]
    rfl

/-- A directory with both kinds of quotes, a backslash and a control character in
its name, which starts with a line feed. -/
def quotesInName : Config :=
  ⟨.mk ['\n', '"', '"', '"', '\'', '\'', '\'', '\\', '\x01'], none⟩

/-- A world in which the way to the configuration file leads through a link. -/
def linkedDirectory : World where
  files :=
    { entries := [(["a".toList], .directory), (["b".toList], .link (.ofString "a/."))]
      workDir := [] }
  log := []

theorem config_saved_quotesInName :
    linkedDirectory.files.Rooted ∧ quotesInName.isUtf8 = true ∧
      ∃ w', quotesInName.save (.ofString "b/enumdoc.toml") linkedDirectory = .ok () w' ∧
        Config.load (.ofString "b/enumdoc.toml") w' = .ok quotesInName w' := by
  have hrooted : linkedDirectory.files.Rooted := .of_entries (by decide +kernel)
  have hutf8 : quotesInName.isUtf8 = true := by decide +kernel
  refine ⟨hrooted, hutf8, ?_⟩
  have hresolve : linkedDirectory.files.resolve .writing (.ofString "b/enumdoc.toml") =
      .ok ["a".toList, "enumdoc.toml".toList] := by decide +kernel
  have hfree : linkedDirectory.files.get? ["a".toList, "enumdoc.toml".toList] = none := by
    decide +kernel
  have hwrite (content : Bytes) :
      linkedDirectory.files.writeFile (.ofString "b/enumdoc.toml") content =
        .ok (linkedDirectory.files.set ["a".toList, "enumdoc.toml".toList] (.file content)) := by
    rw [FileSystem.writeFile, hresolve]
    simp only [hfree]
  exact ⟨_, ((config_saved quotesInName ⟨[]⟩ none none (.ofString "b/enumdoc.toml")
    linkedDirectory hrooted).1 hutf8).1.saved _ (hwrite _)⟩

end EnumTables
