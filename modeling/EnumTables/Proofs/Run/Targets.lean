/-
Where the Markdown files go.

Every source file that is found has a name with something in front of the extension.
What is shown of it is a text, and the Markdown file is called by that text.  That is a
single name, so the file lies in the output directory itself, is no source file, and is
shared by source files of one name only.

One name is an exception.  A source file called `..java` has a single dot in front of
its extension, and what comes out is `..`: no name, but the directory above.

Names that are no text are another matter.  Where a name has bytes that are not UTF-8
it is shown with U+FFFD, so its Markdown file is not called by the name itself, and
files of different names may share one.

The rights of the files are all or nothing.

* **`SourceFile.Confined`** — a Markdown file in the output directory;
* **`SourceFile.exists_artifact`** — how the Markdown file is called;
* **`targets_confined`** — where the Markdown files go;
* **`TwoDots.leaves_directory`** — the exception.
-/
import EnumTables.Proofs.FileSystem.Discovered
import EnumTables.Proofs.Path.Parent
import EnumTables.Proofs.Run.Steps

namespace EnumTables

namespace SourceFile

/-- The Markdown file is called by `stem` and lies in the output directory. -/
structure Confined (file : SourceFile) (out : Path) (stem : Text) : Prop where
  artifact : file.artifact = .mk (stem ++ ".md".toList)
  component : file.artifact.components = [.name (Utf8.encode (stem ++ ".md".toList))]
  parent : ∃ parent, (out.join file.artifact).parent? = some parent ∧ parent.same out = true

variable {file other : SourceFile} {stem stem' : Text}

/-- What the path of a Markdown file ends in. -/
theorem exists_artifact (hstem : stem ≠ []) (hname : Path.IsName (Utf8.encode file.name))
    (hfile : file.name = stem ++ ".java".toList) :
    stem = ['.'] ∧ file.artifact = .ofString ".." ∨
      stem ≠ ['.'] ∧ file.artifact = .mk (stem ++ ".md".toList) ∧
        Path.IsName (Utf8.encode (stem ++ ".md".toList)) := by
  have hartifact := artifact_eq hstem hname hfile
  split at hartifact
  · rename_i hdot
    exact .inl ⟨hdot, hartifact⟩
  · rename_i hdot
    have hmd : (Utf8.encode ".md".toList).getLast? = some 0x64 := rfl
    have hlast : (Utf8.encode (stem ++ ".md".toList)).getLast? = some 0x64 := by
      rw [Utf8.encode_append, List.getLast?_append, hmd, Option.some_or]
    have hne {bs : Bytes} (h : bs.getLast? ≠ some 0x64) :
        Utf8.encode (stem ++ ".md".toList) ≠ bs := by
      rintro rfl
      exact h hlast
    refine .inr ⟨hdot, hartifact, hne (by decide), hne (by decide), hne (by decide), ?_⟩
    have hslash := (artifact_bytes_ne hstem hname hfile).1
    rwa [hartifact] at hslash

theorem confined (out : Path) (hartifact : file.artifact = .mk (stem ++ ".md".toList))
    (hname : Path.IsName (Utf8.encode (stem ++ ".md".toList))) : file.Confined out stem := by
  have hcomponents : Path.components (.mk (stem ++ ".md".toList)) =
      [.name (Utf8.encode (stem ++ ".md".toList))] := by
    rw [Path.mk]
    generalize Utf8.encode (stem ++ ".md".toList) = name at hname
    have hstart : Path.start ⟨name⟩ = [] := by
      rw [Path.start, hname.isAbsolute_eq, Text.splitOn_of_not_mem hname.no_slash,
        if_neg Bool.false_ne_true, List.head?_cons, if_neg]
      exact fun h => hname.ne_dot (Option.some.inj h)
    rw [Path.components_eq, hstart, Text.splitOn_of_not_mem hname.no_slash, List.nil_append,
      List.filterMap_cons, hname.ofPiece?_eq]
    rfl
  refine ⟨hartifact, hartifact ▸ hcomponents, ?_⟩
  rw [hartifact]
  exact out.exists_parent_join hname

/-- A Markdown file is no source file, whatever there is. -/
theorem artifact_not_source (out : Path) (hstem : stem ≠ [])
    (hname : Path.IsName (Utf8.encode file.name)) (hfile : file.name = stem ++ ".java".toList)
    (fs : FileSystem) : fs.isSource (out.join file.artifact) = false := by
  rw [Bool.eq_false_iff]
  intro hsource
  obtain ⟨-, other, -, hother⟩ := FileSystem.isSource_iff.mp hsource
  rcases exists_artifact hstem hname hfile with ⟨-, hartifact⟩ | ⟨-, hartifact, hmd⟩
  · have hends : (out.join (.ofString "..")).EndsIn [Path.dot, Path.dot] :=
      out.endsIn_join (by decide)
    rw [hartifact, hends.fileName?_eq_none] at hother
    cases hother
  · have hne := (artifact_bytes_ne hstem hname hfile).2 other
    rw [hartifact] at hother hne
    rw [Path.mk, (out.endsIn_join hmd.no_slash).fileName?_eq hmd] at hother
    exact hne (Option.some.inj hother)

/-- Two Markdown files are the same only for source files of one name. -/
theorem stem_eq_of_same_target {out : Path} (hstem : stem ≠ []) (hstem' : stem' ≠ [])
    (hname : Path.IsName (Utf8.encode file.name)) (hname' : Path.IsName (Utf8.encode other.name))
    (hfile : file.name = stem ++ ".java".toList) (hother : other.name = stem' ++ ".java".toList)
    (hsame : (out.join file.artifact).same (out.join other.artifact) = true) : stem = stem' := by
  have hdots : Path.Component.ofPiece? (Utf8.encode "..".toList) = some .parent := rfl
  rcases exists_artifact hstem hname hfile with ⟨hdot, hartifact⟩ | ⟨-, hartifact, hmd⟩ <;>
    rcases exists_artifact hstem' hname' hother with
      ⟨hdot', hartifact'⟩ | ⟨-, hartifact', hmd'⟩ <;>
    rw [hartifact, hartifact'] at hsame
  · rw [hdot, hdot']
  · cases Path.ofPiece?_eq_of_same_join (by decide) hmd'.no_slash hdots hmd'.ofPiece?_eq hsame
  · cases Path.ofPiece?_eq_of_same_join hmd.no_slash (by decide) hmd.ofPiece?_eq hdots hsame
  · exact List.append_cancel_right (Utf8.encode_injective (Path.eq_of_same_join hmd hmd' hsame))

/-- Two Markdown files are the same exactly if their source files have one name. -/
theorem same_target_iff (out : Path) (hstem : stem ≠ []) (hstem' : stem' ≠ [])
    (hname : Path.IsName (Utf8.encode file.name)) (hname' : Path.IsName (Utf8.encode other.name))
    (hfile : file.name = stem ++ ".java".toList) (hother : other.name = stem' ++ ".java".toList) :
    ((out.join file.artifact).same (out.join other.artifact) = true ↔ file.name = other.name) ∧
      (out.join file.artifact = out.join other.artifact ↔ file.name = other.name) := by
  have hfrom (h : file.name = other.name) : out.join file.artifact = out.join other.artifact := by
    rw [SourceFile.artifact, SourceFile.artifact, h]
  have hto (h : (out.join file.artifact).same (out.join other.artifact) = true) :
      file.name = other.name := by
    rw [hfile, hother, stem_eq_of_same_target hstem hstem' hname hname' hfile hother h]
  have hrefl (target : Path) : target.same target = true := beq_self_eq_true _
  refine ⟨⟨hto, fun h => ?_⟩, fun h => hto ?_, hfrom⟩
  · rw [hfrom h]
    exact hrefl _
  · rw [h]
    exact hrefl _

end SourceFile

/-- How a file that was found is called, and that it can be read unless it is
sealed. -/
theorem Run.exists_stem_of_mem_discover {w : World} {root p : Path} {found : List Path}
    (hfound : w.files.discover root = .ok found) (hp : p ∈ found) :
    ∃ stem, stem ≠ [] ∧ p.fileName? = some (stem ++ Path.dot :: FileSystem.sourceExtension) ∧
      ((∃ file, Run.Reads w p file) ∨ w.files.readFile p = .error .permissionDenied) ∧
      Utf8.decodeLossy stem ≠ [] ∧ ∀ file : SourceFile, file.name = SourceFile.nameOf p →
        file.name = Utf8.decodeLossy stem ++ ".java".toList ∧
          Path.IsName (Utf8.encode file.name) := by
  have hsource := FileSystem.isSource_of_mem_discover hfound hp
  obtain ⟨hfile, stem, hstem, hname⟩ := FileSystem.isSource_iff.mp hsource
  have hshown (file : SourceFile) (hfile : file.name = SourceFile.nameOf p) :=
    SourceFile.exists_stem hstem (Path.isName_of_fileName? hname)
      (hfile.trans (SourceFile.nameOf_of_fileName? hname))
  refine ⟨stem, hstem, hname, ?_, (hshown ⟨SourceFile.nameOf p, []⟩ rfl).1,
    fun file hfile => (hshown file hfile).2⟩
  refine (FileSystem.readFile_of_isFile hfile).imp_left ?_
  rintro ⟨content, hcontent⟩
  exact ⟨_, reads_of_readFile hcontent⟩

/-- **Where the Markdown files go.**  A file that is found is called `stem.java`, and
can be read unless it is sealed.  Its Markdown file is called by what is shown of
`stem`, which is `stem` itself if that is a text, and lies in the output directory.
The exception among texts is a single dot; then what comes out is `..`.  A Markdown
file is never a source file, and two of them are the same exactly if the names shown of
the files they are made from are.  Names that are texts are the same exactly if what is
shown of them is. -/
theorem targets_confined (w : World) (root out : Path) (found : List Path)
    (hfound : w.files.discover root = .ok found) :
    (∀ p ∈ found, ∃ stem : Bytes, stem ≠ [] ∧
      p.fileName? = some (stem ++ Path.dot :: "java".toList) ∧
      ((∃ file, Run.Reads w p file) ∨ w.files.readFile p = .error .permissionDenied) ∧
      (∀ file, Run.Reads w p file → file.name = SourceFile.nameOf p) ∧
      ∀ file : SourceFile, file.name = SourceFile.nameOf p →
        (stem ≠ [Path.dot] → file.Confined out (Utf8.decodeLossy stem)) ∧
        (∀ s : Text, stem = Utf8.encode s → s ≠ ['.'] → file.Confined out s) ∧
        (stem = [Path.dot] → file.artifact = .ofString "..") ∧
        ∀ fs : FileSystem, fs.isSource (out.join file.artifact) = false) ∧
    (∀ p ∈ found, ∀ q ∈ found, ∀ file other : SourceFile,
      file.name = SourceFile.nameOf p → other.name = SourceFile.nameOf q →
      ((out.join file.artifact).same (out.join other.artifact) = true ↔ file.name = other.name) ∧
      (out.join file.artifact = out.join other.artifact ↔ file.name = other.name) ∧
      ∀ n m : Text, p.fileName? = some (Utf8.encode n) → q.fileName? = some (Utf8.encode m) →
        (file.name = other.name ↔ p.fileName? = q.fileName?)) := by
  constructor
  · intro p hp
    obtain ⟨stem, hstem, hfileName, hread, hshown, hreads⟩ :=
      Run.exists_stem_of_mem_discover hfound hp
    refine ⟨stem, hstem, hfileName, hread, fun file => Run.Reads.name_eq, fun file hfile => ?_⟩
    obtain ⟨htext, hname⟩ := hreads file hfile
    have hconfined (hdot : Utf8.decodeLossy stem ≠ ['.']) :
        file.Confined out (Utf8.decodeLossy stem) := by
      rcases SourceFile.exists_artifact hshown hname htext with ⟨h, -⟩ | ⟨-, hartifact, hmd⟩
      · exact absurd h hdot
      · exact SourceFile.confined out hartifact hmd
    refine ⟨fun hdot => hconfined fun h => hdot ?_, ?_, fun hdot => ?_,
      SourceFile.artifact_not_source out hshown hname htext⟩
    · exact Utf8.eq_encode_of_decodeLossy h (by decide)
    · rintro s rfl hs
      rw [Utf8.decodeLossy_encode] at hconfined
      exact hconfined hs
    · subst hdot
      rw [SourceFile.artifact_eq hshown hname htext]
      exact if_pos (Utf8.decodeLossy_encode ['.'])
  · intro p hp q hq file other hfile hother
    obtain ⟨stem, -, -, -, hshown, hreads⟩ := Run.exists_stem_of_mem_discover hfound hp
    obtain ⟨stem', -, -, -, hshown', hreads'⟩ := Run.exists_stem_of_mem_discover hfound hq
    obtain ⟨htext, hname⟩ := hreads file hfile
    obtain ⟨htext', hname'⟩ := hreads' other hother
    obtain ⟨hsame, heq⟩ := SourceFile.same_target_iff out hshown hshown' hname hname' htext htext'
    refine ⟨hsame, heq, fun n m hn hm => ?_⟩
    rw [hfile, hother, SourceFile.nameOf_of_fileName? hn, SourceFile.nameOf_of_fileName? hm, hn,
      hm, Utf8.decodeLossy_encode, Utf8.decodeLossy_encode, Option.some.injEq,
      Utf8.encode_injective.eq_iff]

/-- Two names that are no texts and differ where U+FFFD is shown. -/
example :
    SourceFile.nameOf ⟨0xFE :: ".java".toList⟩ = SourceFile.nameOf ⟨0xFF :: ".java".toList⟩ := by
  decide

namespace TwoDots

/-- Source files with dots in front of their extension, and one of the same name in a
directory. -/
def world : World where
  files :=
    { entries := [
        (["..java".toList], .file []),
        (["...java".toList], .file []),
        (["d".toList], .directory),
        (["d".toList, "...java".toList], .file [])]
      workDir := [] }
  log := []

theorem discover_world : world.files.discover (.ofString ".") =
    .ok [.ofString "./...java", .ofString "./..java", .ofString "./d/...java"] := by
  decide +kernel

/-- Three dots are one too many for the exception.  The files of one name in two
directories have one Markdown file, the other has another. -/
theorem targets_confined_dots :
    (∃ file, Run.Reads world (.ofString "./...java") file) ∧
      ∀ file other third : SourceFile, file.name = "...java".toList →
        other.name = "...java".toList → third.name = "..java".toList →
        file.Confined (.ofString "md") "..".toList ∧
        (Path.join (.ofString "md") file.artifact).same
          (Path.join (.ofString "md") other.artifact) = true ∧
        (Path.join (.ofString "md") file.artifact).same
          (Path.join (.ofString "md") third.artifact) = false := by
  obtain ⟨hfiles, htargets⟩ :=
    targets_confined world (.ofString ".") (.ofString "md") _ discover_world
  obtain ⟨stem, -, hname, hread, -, hartifact⟩ := hfiles (.ofString "./...java") (by simp)
  have hstem : Utf8.encode "..".toList = stem := by
    have heq : (Path.ofString "./...java").fileName? =
        some (Utf8.encode "..".toList ++ Path.dot :: "java".toList) := by
      decide
    rw [heq, Option.some.injEq] at hname
    exact List.append_cancel_right hname
  subst hstem
  have hcontent : world.files.readFile (.ofString "./...java") = .ok [] := by decide +kernel
  refine ⟨hread.resolve_right (by simp [hcontent]), fun file other third hfile hother hthird => ?_⟩
  have hnames : SourceFile.nameOf (.ofString "./...java") = "...java".toList ∧
      SourceFile.nameOf (.ofString "./d/...java") = "...java".toList ∧
      SourceFile.nameOf (.ofString "./..java") = "..java".toList := by
    decide
  have hfileName := hfile.trans hnames.1.symm
  have hotherName := hother.trans hnames.2.1.symm
  have hthirdName := hthird.trans hnames.2.2.symm
  refine ⟨(hartifact file hfileName).2.1 "..".toList rfl (by decide), ?_, ?_⟩
  · exact (htargets _ (by simp) _ (by simp) file other hfileName hotherName).1.mpr
      (hfile.trans hother.symm)
  · rw [Bool.eq_false_iff]
    intro hsame
    have hequal := (htargets _ (by simp) _ (by simp) file third hfileName hthirdName).1.mp hsame
    rw [hfile, hthird] at hequal
    exact absurd hequal (by decide)

/-- **A Markdown file outside of the output directory.**  The source file `..java` is
found and read, and its Markdown file would be the directory above. -/
theorem leaves_directory :
    ∃ found, world.files.discover (.ofString ".") = .ok found ∧ Path.ofString "./..java" ∈ found ∧
      (Path.ofString "./..java").fileName? = some (Path.dot :: Path.dot :: "java".toList) ∧
      ∃ file, Run.Reads world (.ofString "./..java") file ∧
        file.artifact ≠ .mk (['.'] ++ ".md".toList) ∧
        file.artifact.components = [.parent] := by
  have hcontent : world.files.readFile (.ofString "./..java") = .ok [] := by decide +kernel
  exact ⟨_, discover_world, by simp, by decide, _, Run.reads_of_readFile hcontent,
    by decide +kernel, by decide +kernel⟩

end TwoDots

end EnumTables
