/-
The path of an entry in a directory.

The path of a directory joined with a name leads to the entry of that name in
it, unless the text of the whole path is too long.

* **`FileSystem.names`** — the steps of a path without the slash at its end;
* **`FileSystem.Plain.resolveFrom_concat`** — the last step of a path;
* **`FileSystem.Plain.resolve_join_iff`** — where a joined path leads;
* **`FileSystem.Plain.liesIn_of_resolve_join`** — the same, where an empty path
  stands for the working directory.
-/
import EnumTables.Proofs.FileSystem.Growth

namespace EnumTables

theorem Path.IsName.isAbsolute_eq {name : Bytes} (hname : IsName name) :
    isAbsolute ⟨name⟩ = false := by
  rw [isAbsolute, beq_eq_false_iff_ne]
  exact fun h => hname.no_slash (List.mem_of_mem_head? h)

theorem Path.IsName.stepTo_eq {name : Bytes} (hname : IsName name) (dir : Location) :
    FileSystem.stepTo dir name = dir ++ [name] := by
  simp [FileSystem.stepTo, hname.ne_nil, hname.ne_dot, hname.ne_dots]

/-- The bytes of a path joined with a name. -/
theorem Path.exists_join_text {p : Path} {name : Bytes} (hp : p.bytes ≠ []) (hname : IsName name) :
    ∃ slash, (slash = [] ∧ p.bytes.getLast? = some Path.slash ∨ slash = [Path.slash]) ∧
      (p.join ⟨name⟩).bytes = p.bytes ++ (slash ++ name) := by
  rw [join, if_neg (by simp [hname.isAbsolute_eq, hp])]
  split
  · rename_i hlast
    exact ⟨[], .inl ⟨rfl, hlast⟩, rfl⟩
  · exact ⟨[Path.slash], .inr rfl, rfl⟩

/-- An empty path joined with a name is a path from the working directory. -/
def Path.orHere (p : Path) : Path :=
  if p.bytes = [] then ⟨[Path.dot]⟩ else p

namespace FileSystem

/-- The location is that of an entry in the directory that a path leads to. -/
def LiesIn (fs : FileSystem) (dir : Path) (name : Bytes) (loc : Location) : Prop :=
  ∃ here, fs.resolve .target dir.orHere = .ok here ∧ fs.get? here = some .directory ∧
    loc = here ++ [name]

/-- The names that a path consists of. -/
def names (p : Path) : List Bytes :=
  (Text.splitOn Path.slash p.bytes).filter (· ≠ [])

theorem steps_eq_names (p : Path) : steps p = names p ∨ steps p = names p ++ [[]] := by
  rw [steps]
  split
  · exact .inr rfl
  · exact .inl (List.append_nil _)

theorem steps_name {name : Bytes} (hname : Path.IsName name) : steps ⟨name⟩ = [name] := by
  have hlast : name.getLast? ≠ some Path.slash := fun h => hname.no_slash (List.mem_of_getLast? h)
  rw [steps, if_neg hlast, Text.splitOn_of_not_mem hname.no_slash]
  simp [hname.ne_nil]

theorem names_join {p : Path} {name : Bytes} (hp : p.bytes ≠ []) (hname : Path.IsName name) :
    names (p.join ⟨name⟩) = names p ++ [name] := by
  obtain ⟨slash, hslash, hbytes⟩ := Path.exists_join_text hp hname
  rw [names, hbytes, names]
  rcases hslash with ⟨rfl, hlast⟩ | rfl
  · obtain ⟨lead, hlead⟩ := List.getLast?_eq_some_iff.mp hlast
    rw [hlead, List.nil_append, List.append_assoc, List.singleton_append,
      Text.splitOn_append_cons, Text.splitOn_append_cons,
      Text.splitOn_of_not_mem hname.no_slash]
    simp [Text.splitOn, hname.ne_nil]
  · rw [List.singleton_append, Text.splitOn_append_cons,
      Text.splitOn_of_not_mem hname.no_slash]
    simp [hname.ne_nil]

theorem steps_join {p : Path} {name : Bytes} (hp : p.bytes ≠ []) (hname : Path.IsName name) :
    steps (p.join ⟨name⟩) = names p ++ [name] := by
  obtain ⟨slash, -, hbytes⟩ := Path.exists_join_text hp hname
  have hlast : (p.join ⟨name⟩).bytes.getLast? ≠ some Path.slash := by
    intro hlast
    refine hname.no_slash (List.mem_of_getLast? (?_ : name.getLast? = some Path.slash))
    rwa [hbytes, ← List.append_assoc, List.getLast?_append,
      List.getLast?_eq_some_getLast hname.ne_nil, Option.some_or,
      ← List.getLast?_eq_some_getLast hname.ne_nil] at hlast
  rw [steps, if_neg hlast, List.append_nil]
  exact names_join hp hname

theorem startOf_join {p : Path} {name : Bytes} (hp : p.bytes ≠ []) (hname : Path.IsName name)
    (here : Location) : startOf (p.join ⟨name⟩) here = startOf p here := by
  obtain ⟨slash, -, hbytes⟩ := Path.exists_join_text hp hname
  obtain ⟨c, cs, hcs⟩ := List.exists_cons_of_ne_nil hp
  simp [startOf, Path.isAbsolute, hbytes, hcs]

theorem noNul_join_iff {p : Path} {name : Bytes} (hp : p.bytes ≠ []) (hname : Path.IsName name) :
    (p.join ⟨name⟩).bytes.contains 0 = false ↔
      p.bytes.contains 0 = false ∧ 0 ∉ name := by
  obtain ⟨slash, hslash, hbytes⟩ := Path.exists_join_text hp hname
  rw [hbytes]
  rcases hslash with ⟨rfl, -⟩ | rfl <;> simp

namespace Plain

variable {fs : FileSystem} {links : Nat} {here loc : Location} {p : Path} {name : Bytes}

/-- **The last step of a path** is taken from where the others lead. -/
theorem resolveFrom_concat (hfs : fs.Plain) {front : List Bytes} {last : Bytes} :
    fs.resolveFrom .target links here (front ++ [last]) = .ok loc ↔
      ∃ dir, fs.resolveFrom .target links here front = .ok dir ∧
        fs.CanEnter dir last ∧ last.length ≤ maxNameSize ∧ loc = stepTo dir last := by
  induction front generalizing here with
  | nil =>
    rw [List.nil_append, hfs.resolveFrom_cons]
    simp [eq_comm]
  | cons step front ih =>
    rw [List.cons_append, hfs.resolveFrom_cons, ih]
    simp only [hfs.resolveFrom_cons]
    constructor
    · rintro ⟨hdir, -, hsize, dir, hfront, hlast⟩
      exact ⟨dir, ⟨hdir, by simp, hsize, hfront⟩, hlast⟩
    · rintro ⟨dir, ⟨hdir, -, hsize, hfront⟩, hlast⟩
      exact ⟨hdir, by simp, hsize, dir, hfront, hlast⟩

/-- A slash at the end of a path asks for a directory. -/
theorem resolveFrom_steps_iff (hfs : fs.Plain) (hloc : fs.get? loc = some .directory) (p : Path) :
    fs.resolveFrom .target links here (steps p) = .ok loc ↔
      fs.resolveFrom .target links here (names p) = .ok loc := by
  rcases steps_eq_names p with hsteps | hsteps
  · rw [hsteps]
  · rw [hsteps, hfs.resolveFrom_concat]
    constructor
    · rintro ⟨dir, hdir, -, -, rfl⟩
      exact hdir
    · intro hnames
      exact ⟨loc, hnames, canEnter_of_directory hloc [], by decide, rfl⟩

/-- **Where a joined path leads.** -/
theorem resolve_join_iff (hfs : fs.Plain) (hp : p.bytes ≠ []) (hname : Path.IsName name) :
    fs.resolve .target (p.join ⟨name⟩) = .ok loc ↔
      ∃ dir, fs.resolve .target p = .ok dir ∧ fs.get? dir = some .directory ∧
        loc = dir ++ [name] ∧ 0 ∉ name ∧ name.length ≤ maxNameSize ∧
        (p.join ⟨name⟩).bytes.length < pathSizeLimit := by
  obtain ⟨slash, hslash, hbytes⟩ := Path.exists_join_text hp hname
  have hsize : p.bytes.length ≤ (p.join ⟨name⟩).bytes.length := by
    rw [hbytes, List.length_append]
    exact Nat.le_add_right ..
  rw [resolve_eq_ok_iff, noNul_join_iff hp hname, steps_join hp hname, hfs.resolveFrom_concat,
    startOf_join hp hname]
  constructor
  · rintro ⟨⟨hpnul, hnul⟩, -, hlimit, dir, hfront, hcan, hmax, rfl⟩
    have hdir := hcan.directory hname.ne_nil
    have hfrom := (hfs.resolveFrom_steps_iff hdir p).mpr hfront
    exact ⟨dir, resolve_eq_ok_iff.mpr ⟨hpnul, hp, by omega, hfrom⟩, hdir, hname.stepTo_eq dir, hnul,
      hmax, hlimit⟩
  · rintro ⟨dir, hresolve, hdir, rfl, hnul, hmax, hlimit⟩
    obtain ⟨hpnul, -, -, hfrom⟩ := resolve_eq_ok_iff.mp hresolve
    have hfront := (hfs.resolveFrom_steps_iff hdir p).mp hfrom
    exact ⟨⟨hpnul, hnul⟩, by simp [hbytes, hp], hlimit, dir, hfront,
      canEnter_of_directory hdir name, hmax, (hname.stepTo_eq dir).symm⟩

theorem liesIn_of_resolve_join (hfs : fs.Plain) (hname : Path.IsName name)
    (h : fs.resolve .target (p.join ⟨name⟩) = .ok loc) : fs.LiesIn p name loc := by
  by_cases hp : p.bytes = []
  · -- the path is the name alone
    have hjoin : p.join ⟨name⟩ = ⟨name⟩ := by rw [Path.join, if_pos (by simp [hp])]
    rw [hjoin, resolve_eq_ok_iff, steps_name hname, hfs.resolveFrom_cons] at h
    obtain ⟨-, -, -, hcan, -, -, hstep⟩ := h
    rw [startOf, if_neg (by simp [hname.isAbsolute_eq])] at hcan hstep
    have hdir := hcan.directory hname.ne_nil
    rw [resolveFrom_nil, hname.stepTo_eq] at hstep
    have hhere : fs.resolve .target ⟨[Path.dot]⟩ = .ok fs.workDir := by
      have hsteps : steps ⟨[Path.dot]⟩ = [[Path.dot]] := rfl
      have hend : fs.resolveFrom .target maxLinks fs.workDir [] = .ok fs.workDir := by
        rw [resolveFrom_nil]
      refine resolve_eq_ok_iff.mpr ⟨rfl, by simp, by decide, ?_⟩
      rw [hsteps, hfs.resolveFrom_cons]
      exact ⟨canEnter_of_directory hdir _, by simp, by decide, hend⟩
    exact ⟨fs.workDir, by rwa [Path.orHere, if_pos hp], hdir, (Except.ok.inj hstep).symm⟩
  · obtain ⟨dir, hdir, hdirectory, rfl, -⟩ := (hfs.resolve_join_iff hp hname).mp h
    exact ⟨dir, by rwa [Path.orHere, if_neg hp], hdirectory, rfl⟩

end Plain

end FileSystem

end EnumTables
