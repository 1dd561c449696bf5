/-
When a configuration file is overwritten.

Without `force` a configuration file is only written where none is found.  But the
directory is made between the search and the writing, and that changes where a path
leads: one that goes into a missing directory and out of it again leads nowhere
before the directory is made.  So nothing is found, and what is at its end all the
same is overwritten.  Other paths lead to what is there from the start.

* **`FileSystem.destination`** — where the steps of a path lead if all is there;
* **`FileSystem.LeavesMissing`** — a path that leaves a missing directory;
* **`FileSystem.Grows.resolve_of_not_leavesMissing`** — any other path leads to what
  is there also before directories are made;
* **`init_overwrites`** — the one file that can be overwritten;
* **`LeftDirectory.overwritten`** — a file that is.
-/
import EnumTables.Proofs.FileSystem.Walk
import EnumTables.Proofs.Run.Init

namespace EnumTables

namespace FileSystem

/-- Where the steps of a path lead if directories are on the way. -/
def destination (fs : FileSystem) (p : Path) : Location :=
  (steps p).foldl stepTo (startOf p fs.workDir)

/-- One of the steps of the path is `..`, and it leaves a location where nothing
is. -/
def LeavesMissing (fs : FileSystem) (p : Path) : Prop :=
  ∃ front back, steps p = front ++ [Path.dot, Path.dot] :: back ∧
    fs.get? (front.foldl stepTo (startOf p fs.workDir)) = none

variable {fs mid : FileSystem} {purpose : Purpose} {links : Nat} {here loc : Location}
  {names : List Bytes} {p : Path}

theorem Plain.eq_foldl_of_resolveFrom (hfs : fs.Plain)
    (h : fs.resolveFrom purpose links here names = .ok loc) : loc = names.foldl stepTo here := by
  induction names generalizing here with
  | nil =>
    rw [resolveFrom_nil] at h
    exact (Except.ok.inj h).symm
  | cons name names ih => exact ih (hfs.resolveFrom_cons.mp h).2.2.2

/-- A path leads to its destination, if it leads anywhere. -/
theorem Plain.eq_destination (hfs : fs.Plain) (h : fs.resolve purpose p = .ok loc) :
    loc = fs.destination p :=
  hfs.eq_foldl_of_resolveFrom (resolve_eq_ok_iff.mp h).2.2.2

/-- Below a location where nothing is there is nothing. -/
theorem Rooted.get?_append_of_none (hfs : fs.Rooted) (hnone : fs.get? loc = none)
    (way : Location) : fs.get? (loc ++ way) = none := by
  by_contra hthere
  obtain ⟨below, hbelow⟩ := Option.ne_none_iff_exists'.mp hthere
  obtain ⟨entry, hentry⟩ := hfs.exists_of_append hbelow
  simp [hnone] at hentry

/-- Steps from a location where nothing is lead further down, as long as none of them
leaves such a location. -/
theorem Rooted.exists_foldl_stepTo (hfs : fs.Rooted) (hnone : fs.get? here = none)
    (hstays : ∀ front back, names = front ++ [Path.dot, Path.dot] :: back →
      fs.get? (front.foldl stepTo here) ≠ none) :
    ∃ way, names.foldl stepTo here = here ++ way := by
  induction names generalizing here with
  | nil => exact ⟨[], (List.append_nil here).symm⟩
  | cons name names ih =>
    have hrest (front back : List Bytes) (heq : names = front ++ [Path.dot, Path.dot] :: back) :
        fs.get? (front.foldl stepTo (stepTo here name)) ≠ none :=
      hstays (name :: front) back (by rw [heq, List.cons_append])
    rw [List.foldl_cons]
    by_cases hstay : name = [] ∨ name = [Path.dot]
    · have hstep : stepTo here name = here := by rw [stepTo, if_pos hstay]
      rw [hstep] at hrest ⊢
      exact ih hnone hrest
    by_cases hup : name = [Path.dot, Path.dot]
    · exact absurd hnone (hstays [] names (by rw [hup, List.nil_append]))
    · have hstep : stepTo here name = here ++ [name] := by
        rw [stepTo, if_neg hstay, if_neg hup]
      rw [hstep] at hrest ⊢
      obtain ⟨way, hway⟩ := ih (hfs.get?_append_of_none hnone [name]) hrest
      exact ⟨name :: way, by rw [hway, List.append_assoc, List.singleton_append]⟩

/-- While directories are made, steps do not begin to lead to something that was there,
unless they leave a location where nothing was. -/
theorem Grows.resolveFrom_of_stays (hfs : fs.Plain) (h : fs.Grows (fun _ => False) mid)
    (hok : mid.resolveFrom purpose links here names = .ok loc) (hloc : fs.get? loc ≠ none)
    (hstays : ∀ front back, names = front ++ [Path.dot, Path.dot] :: back →
      fs.get? (front.foldl stepTo here) ≠ none) :
    fs.resolveFrom purpose links here names = .ok loc := by
  induction names generalizing here with
  | nil => rwa [resolveFrom_nil] at hok ⊢
  | cons name names ih =>
    obtain ⟨hdir, hend, hsize, hrest⟩ := h.plain.resolveFrom_cons.mp hok
    have hhere : fs.CanEnter here name := by
      rcases h.untouched here id with heq | ⟨hnone, -⟩
      · rwa [FileSystem.CanEnter, ← heq]
      · -- from a directory that was made the steps lead to nothing that was there
        obtain ⟨way, hway⟩ := hfs.rooted.exists_foldl_stepTo hnone hstays
        rw [h.plain.eq_foldl_of_resolveFrom hok, hway] at hloc
        exact absurd (hfs.rooted.get?_append_of_none hnone way) hloc
    refine hfs.resolveFrom_cons.mpr ⟨hhere, hend, hsize, ih hrest fun front back heq => ?_⟩
    exact hstays (name :: front) back (by rw [heq, List.cons_append])

/-- **A path that leads to something that was there** has led to it before directories
were made, unless it leaves one that was missing. -/
theorem Grows.resolve_of_not_leavesMissing (hfs : fs.Plain) (h : fs.Grows (fun _ => False) mid)
    (hok : mid.resolve purpose p = .ok loc) (hloc : fs.get? loc ≠ none)
    (hmissing : ¬fs.LeavesMissing p) : fs.resolve purpose p = .ok loc := by
  obtain ⟨hnul, hp, hsize, hfrom⟩ := resolve_eq_ok_iff.mp hok
  rw [h.workDir] at hfrom
  refine resolve_eq_ok_iff.mpr ⟨hnul, hp, hsize, h.resolveFrom_of_stays hfs hfrom hloc ?_⟩
  exact fun front back heq hnone => hmissing ⟨front, back, heq, hnone⟩

end FileSystem

/-- **The file that can be overwritten** without `force`, in a file system without
links.  A failure leaves everything that is there as it is.  A success writes one
file, at the destination of the path, and leaves everything else as it is; if
something was there before, then the path leaves a missing directory. -/
theorem init_overwrites (dir : Option Path) (w : World) (hfs : w.files.Plain) :
    (∀ failure w', Run.init dir false w = .error failure w' →
      ∀ loc entry, w.files.get? loc = some entry → w'.files.get? loc = some entry) ∧
    ∀ target w', Run.init dir false w = .ok target w' →
      target = (dir.getD w.files.workPath).join Config.fileName ∧
      w'.files.get? (w.files.destination target) =
        some (.file (Utf8.encode Config.default.toToml)) ∧
      (∀ loc entry, loc ≠ w.files.destination target →
        w.files.get? loc = some entry → w'.files.get? loc = some entry) ∧
      ∀ entry, w.files.get? (w.files.destination target) = some entry →
        w.files.LeavesMissing target := by
  refine ⟨fun failure w' h loc entry hentry => ?_, fun target w' h => ?_⟩
  · exact (Run.init_error_makes hfs h).grows.get?_eq id hentry
  obtain ⟨mid, hmakes, hwrite⟩ := Run.init_ok_makes hfs h
  obtain ⟨-, rfl, hcheck, -⟩ := Run.init_ok h
  obtain ⟨loc, hwriting, -, hwritten, hothers⟩ := hmakes.of_writeFile hwrite
  have hloc : loc = w.files.destination ((dir.getD w.files.workPath).join Config.fileName) := by
    rw [hmakes.grows.plain.eq_destination hwriting, FileSystem.destination, hmakes.grows.workDir]
    rfl
  rw [← hloc]
  refine ⟨rfl, hwritten, fun other entry hne hentry => ?_, fun entry hentry => ?_⟩
  · rcases hothers other hne with heq | ⟨hnone, -⟩
    · rw [heq, hentry]
    · simp [hentry] at hnone
  · by_contra hmissing
    -- then it would have been found
    have hfound :=
      hmakes.grows.resolve_of_not_leavesMissing hfs hwriting (by simp [hentry]) hmissing
    have hthere := FileSystem.pathExists_iff.mpr
      ⟨loc, _, hfs.resolve_of_ne_writing (by simp) hfound, hentry⟩
    rw [hcheck rfl] at hthere
    cases hthere

namespace LeftDirectory

/-- A configuration file of somebody. -/
def world : World where
  files :=
    { entries := [
        (["a".toList], .directory),
        (["a".toList, "enumdoc.toml".toList], .file (Utf8.encode "mine".toList))]
      workDir := [] }
  log := []

/-- The same with a directory. -/
def made : FileSystem :=
  world.files.set ["new".toList] .directory

/-- The path of the directory of the file, by way of one that is missing. -/
def detour : Path :=
  .ofString "new/../a"

theorem init_detour : ∃ w', Run.init (some detour) false world =
      .ok (.ofString "new/../a/enumdoc.toml") w' ∧
    w'.files = made.set ["a".toList, "enumdoc.toml".toList]
      (.file (Utf8.encode Config.default.toToml)) := by
  have hmissing : world.files.pathExists (.ofString "new/../a/enumdoc.toml") = false := by
    decide +kernel
  have hmade : world.files.createDirAll detour = (.ok (), made) := by decide +kernel
  have hwrite : made.writeFile (.ofString "new/../a/enumdoc.toml")
      (Utf8.encode Config.default.toToml) =
        .ok (made.set ["a".toList, "enumdoc.toml".toList]
          (.file (Utf8.encode Config.default.toToml))) := by
    decide +kernel
  exact Run.init_of_ok rfl (.inr hmissing) hmade hwrite

theorem plain : world.files.Plain :=
  .of_entries (by decide +kernel)

/-- **A file that is overwritten** without `force`. -/
theorem overwritten :
    world.files.Plain ∧
      world.files.get? ["a".toList, "enumdoc.toml".toList] =
        some (.file (Utf8.encode "mine".toList)) ∧
      ∃ w', Run.init (some detour) false world = .ok (.ofString "new/../a/enumdoc.toml") w' ∧
        w'.files.get? ["a".toList, "enumdoc.toml".toList] ≠
          some (.file (Utf8.encode "mine".toList)) := by
  obtain ⟨w', hrun, hfiles⟩ := init_detour
  refine ⟨plain, rfl, w', hrun, ?_⟩
  rw [hfiles, FileSystem.get?_set (by simp), if_pos rfl]
  decide

/-- The path leaves the missing directory. -/
theorem init_overwrites_detour :
    world.files.Plain ∧ world.files.LeavesMissing (.ofString "new/../a/enumdoc.toml") := by
  obtain ⟨w', hrun, -⟩ := init_detour
  obtain ⟨-, -, -, hleaves⟩ := (init_overwrites _ world plain).2 _ w' hrun
  exact ⟨plain, hleaves (.file (Utf8.encode "mine".toList)) rfl⟩

end LeftDirectory

end EnumTables
