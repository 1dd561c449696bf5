/-
What is written to a path is read back from it, also where symbolic links lie
on the way.

A path leads through directories and links.  Writing a file changes neither, so
the path leads to the same location afterwards.

* **`FileSystem.Rooted.ne_link_of_follows`** — a path is followed until it
  leads to something else than a link;
* **`FileSystem.Rooted.readFile_of_writeFile`** — reading gives what was
  written.
-/
import EnumTables.Proofs.FileSystem.Growth

namespace EnumTables

namespace FileSystem

namespace Rooted

variable {fs : FileSystem} {purpose : Purpose} {links : Nat} {here loc : Location}
  {names : List Bytes}

theorem startOf_directory (p : Path) (h : fs.get? here = some .directory) :
    fs.get? (startOf p here) = some .directory := by
  rw [startOf]
  split
  · exact fs.get?_root
  · exact h

/-- Steps are followed until they lead to something else than a link. -/
theorem ne_link_of_follows (hfs : fs.Rooted) (hpurpose : purpose ≠ .entry)
    (h : fs.Follows purpose links here names loc)
    (hhere : ∀ target, fs.get? here ≠ some (.link target)) (target : Path) :
    fs.get? loc ≠ some (.link target) := by
  induction h with
  | done => exact hhere target
  | stay _ _ _ ih => exact ih hhere
  | up h _ ih => exact ih (by simp [hfs.dropLast_directory (h.enter.directory (by simp))])
  | free _ _ hnone => simp [hnone]
  | down _ hentry hlink _ ih =>
    exact ih fun other hother => hlink other (Option.some.inj (hentry.symm.trans hother))
  | itself _ _ _ hentry => exact absurd hentry hpurpose
  | through h _ _ _ ih => exact ih (by simp [startOf_directory _ h.directory])

/-- A path leads through the links on it and to none. -/
theorem resolve_ne_link (hfs : fs.Rooted) (hpurpose : purpose ≠ .entry) {p : Path}
    (h : fs.resolve purpose p = .ok loc) (target : Path) : fs.get? loc ≠ some (.link target) := by
  obtain ⟨-, hbytes, -, hfrom⟩ := resolve_eq_ok_iff.mp h
  refine hfs.ne_link_of_follows hpurpose (resolveFrom_eq_ok_iff.mp hfrom) (fun other hlink => ?_)
    target
  -- the first step is taken in a directory
  obtain ⟨front, last, hconcat⟩ := exists_steps_eq_concat hbytes
  obtain ⟨name, rest, hsteps⟩ :=
    List.exists_cons_of_ne_nil (hconcat ▸ List.concat_ne_nil last front)
  obtain ⟨entry, hentry, henter⟩ := (mayStep_of_resolveFrom (hsteps ▸ hfrom)).enter
  obtain rfl := Option.some.inj (hlink.symm.trans hentry)
  cases henter

/-- Steps go on leading to a location where a file is put. -/
theorem follows_set (hfree : fs.Writable loc) (content : Bytes)
    (h : fs.Follows .writing links here names loc) :
    (fs.set loc (.file content)).Follows .target links here names loc := by
  have hloc := hfree.ne_nil
  -- everything but files stays
  have hstay {other : Location} {entry : Entry} (hother : fs.get? other = some entry)
      (hentry : ∀ old, entry ≠ .file old) :
      (fs.set loc (.file content)).get? other = some entry := by
    rw [get?_set hloc, if_neg, hother]
    rintro rfl
    obtain ⟨old, rfl⟩ := hfree entry hother
    exact hentry old rfl
  have hcan {here : Location} {name : Bytes} (rest : List Bytes) (hcan : fs.CanEnter here name) :
      (fs.set loc (.file content)).MayStep .target here name rest := by
    obtain ⟨entry, hentry, henter⟩ := hcan
    refine .of_ne_writing ⟨entry, hstay hentry ?_, henter⟩ (by simp)
    rintro old rfl
    cases henter
  induction h with
  | done => exact .done _ _
  | stay h hname _ ih => exact .stay (hcan _ h.enter) hname (ih hfree hloc hstay hcan)
  | up h _ ih => exact .up (hcan _ h.enter) (ih hfree hloc hstay hcan)
  | @free here name _ h _ =>
    have hfile : (fs.set (here ++ [name]) (.file content)).get? (here ++ [name]) =
        some (.file content) := by
      rw [get?_set hloc, if_pos rfl]
    exact .down (h.of_mayStep (hcan _ h.enter)) hfile (by simp) (.done _ _)
  | @down _ here name _ entry loc h hentry hlink _ ih =>
    have hother : ∃ other, (fs.set loc (.file content)).get? (here ++ [name]) = some other ∧
        ∀ target, other ≠ .link target := by
      rw [get?_set hloc]
      split
      · exact ⟨_, rfl, by simp⟩
      · exact ⟨entry, hentry, hlink⟩
    obtain ⟨other, hother, hnoLink⟩ := hother
    exact .down (h.of_mayStep (hcan _ h.enter)) hother hnoLink (ih hfree hloc hstay hcan)
  | itself _ _ _ hpurpose => cases hpurpose
  | through h hlink _ _ ih =>
    exact .through (h.of_mayStep (hcan _ h.enter)) (hstay hlink (by simp)) (by simp)
      (ih hfree hloc hstay hcan)

/-- **Reading gives what was written.** -/
theorem readFile_of_writeFile (hfs : fs.Rooted) {fs' : FileSystem} {p : Path}
    {content : Bytes} (h : fs.writeFile p content = .ok fs') :
    fs'.readFile p = .ok content := by
  obtain ⟨loc, hloc, hfree, rfl⟩ := writeFile_ok h
  obtain ⟨hnul, hbytes, hsize, hfrom⟩ := resolve_eq_ok_iff.mp hloc
  have hlink := hfs.resolve_ne_link (by simp) hloc
  have hwritable : fs.Writable loc := fun entry hentry =>
    hfree entry hentry fun target heq => hlink target (heq ▸ hentry)
  have hread := resolve_eq_ok_iff.mpr
    ⟨hnul, hbytes, hsize, resolveFrom_eq_ok_iff.mpr
      (follows_set hwritable content (resolveFrom_eq_ok_iff.mp hfrom))⟩
  exact readFile_eq_ok_iff.mpr ⟨loc, hread, by rw [get?_set hwritable.ne_nil, if_pos rfl]⟩

end Rooted

end FileSystem

end EnumTables
