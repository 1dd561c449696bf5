/-
Following a path through symbolic links.

Where a path leads is found step by step, and each link on the way is replaced by
the steps of its target.  So a path can be divided at any step: what stands in
front leads to some directory, through some of the links that are allowed, and
what stands behind is followed from there.

* **`FileSystem.exists_of_resolveFrom_append`** — a path that is divided;
* **`FileSystem.resolve_join`** — the path of a directory joined with the name of
  an entry;
* **`FileSystem.exists_stat_entry`** — where a path leads to something, something
  is at its end.
-/
import EnumTables.Proofs.FileSystem.Joined
import EnumTables.Proofs.FileSystem.Listing
import EnumTables.Proofs.FileSystem.Written

namespace EnumTables

namespace FileSystem

variable {fs : FileSystem} {links : Nat} {here dir loc : Location} {p : Path} {name : Bytes}
  {entry : Entry}

/-- **A path that is divided.**  What stands behind is followed from where the
front leads, whatever it is. -/
theorem exists_of_resolveFrom_append {front rest : List Bytes}
    (h : fs.resolveFrom .target links here (front ++ rest) = .ok loc)
    (hend : rest ≠ [] ∨ fs.get? loc ≠ none) :
    ∃ left next, ∀ more, fs.resolveFrom .target links here (front ++ more) =
      fs.resolveFrom .target left next more := by
  -- what the front leads through is the same whatever stands behind
  have hfollows := resolveFrom_eq_ok_iff.mp h
  clear h
  generalize hway : front ++ rest = way at hfollows
  induction hfollows generalizing front with
  | done =>
    obtain ⟨rfl, rfl⟩ := List.append_eq_nil_iff.mp hway
    exact ⟨_, _, fun _ => rfl⟩
  | stay h hname _ ih =>
    rcases List.append_eq_cons_iff.mp hway with ⟨rfl, rfl⟩ | ⟨front, rfl, rfl⟩
    · exact ⟨_, _, fun _ => rfl⟩
    obtain ⟨left, next, hmore⟩ := ih hend rfl
    refine ⟨left, next, fun more => ?_⟩
    have hstep : fs.MayStep .target _ _ (front ++ more) := .of_ne_writing h.enter (by simp)
    rw [List.cons_append, hstep.resolveFrom_stay hname, hmore]
  | up h _ ih =>
    rcases List.append_eq_cons_iff.mp hway with ⟨rfl, rfl⟩ | ⟨front, rfl, rfl⟩
    · exact ⟨_, _, fun _ => rfl⟩
    obtain ⟨left, next, hmore⟩ := ih hend rfl
    refine ⟨left, next, fun more => ?_⟩
    have hstep : fs.MayStep .target _ _ (front ++ more) := .of_ne_writing h.enter (by simp)
    rw [List.cons_append, hstep.resolveFrom_up, hmore]
  | free _ _ hnone =>
    rcases List.append_eq_cons_iff.mp hway with ⟨rfl, rfl⟩ | ⟨front, rfl, hnil⟩
    · exact ⟨_, _, fun _ => rfl⟩
    · -- nothing is there, so nothing can stand behind
      obtain ⟨rfl, rfl⟩ := List.append_eq_nil_iff.mp hnil.symm
      simp [hnone] at hend
  | down h hentry hlink _ ih =>
    rcases List.append_eq_cons_iff.mp hway with ⟨rfl, rfl⟩ | ⟨front, rfl, rfl⟩
    · exact ⟨_, _, fun _ => rfl⟩
    obtain ⟨left, next, hmore⟩ := ih hend rfl
    refine ⟨left, next, fun more => ?_⟩
    have hstep : fs.Descends .target _ _ (front ++ more) :=
      h.of_mayStep (.of_ne_writing h.enter (by simp))
    rw [List.cons_append, hstep.resolveFrom_down hentry hlink, hmore]
  | itself _ _ _ hpurpose => cases hpurpose
  | @through _ _ _ _ target _ h hlink _ _ ih =>
    rcases List.append_eq_cons_iff.mp hway with ⟨rfl, rfl⟩ | ⟨front, rfl, rfl⟩
    · exact ⟨_, _, fun _ => rfl⟩
    obtain ⟨left, next, hmore⟩ := ih hend (List.append_assoc (steps target) front rest)
    refine ⟨left, next, fun more => ?_⟩
    have hstep : fs.Descends .target _ _ (front ++ more) :=
      h.of_mayStep (.of_ne_writing h.enter (by simp))
    rw [List.cons_append, hstep.resolveFrom_through hlink (by simp), ← hmore, List.append_assoc]

/-- The path of a directory leads there without the slash at its end, and what
stands behind is followed from there. -/
theorem exists_of_resolve (h : fs.resolve .target p = .ok dir)
    (hdir : fs.get? dir = some .directory) :
    ∃ left, ∀ more, fs.resolveFrom .target maxLinks (startOf p fs.workDir) (names p ++ more) =
      fs.resolveFrom .target left dir more := by
  obtain ⟨-, -, -, hfrom⟩ := resolve_eq_ok_iff.mp h
  rcases steps_eq_names p with hsteps | hsteps
  · rw [hsteps, ← List.append_nil (names p)] at hfrom
    obtain ⟨left, next, hmore⟩ := exists_of_resolveFrom_append hfrom (.inr (by simp [hdir]))
    rw [hmore, resolveFrom_nil] at hfrom
    obtain rfl : next = dir := Except.ok.inj hfrom
    exact ⟨left, hmore⟩
  · rw [hsteps] at hfrom
    obtain ⟨left, next, hmore⟩ := exists_of_resolveFrom_append hfrom (.inl (by simp))
    rw [hmore] at hfrom
    rw [(mayStep_of_resolveFrom hfrom).resolveFrom_stay (.inl rfl), resolveFrom_nil] at hfrom
    obtain rfl : next = dir := Except.ok.inj hfrom
    exact ⟨left, hmore⟩

/-- **The path of a directory joined with the name of an entry** leads to the
entry, unless this is a link or the path is too long. -/
theorem resolve_join (h : fs.resolve .target p = .ok dir) (hdir : fs.get? dir = some .directory)
    (hname : EntryName name) (hentry : fs.get? (dir ++ [name]) = some entry)
    (hlink : ∀ target, entry ≠ .link target)
    (hsize : (p.join ⟨name⟩).bytes.length < pathSizeLimit) :
    fs.resolve .target (p.join ⟨name⟩) = .ok (dir ++ [name]) := by
  obtain ⟨hisName, hnul, hmax⟩ := hname
  obtain ⟨hpnul, hp, -, -⟩ := resolve_eq_ok_iff.mp h
  obtain ⟨left, hmore⟩ := exists_of_resolve h hdir
  have hne : (p.join ⟨name⟩).bytes ≠ [] := by
    obtain ⟨slash, -, hbytes⟩ := Path.exists_join_text hp hisName
    simp [hbytes, hp]
  refine resolve_eq_ok_iff.mpr ⟨(noNul_join_iff hp hisName).mpr ⟨hpnul, hnul⟩, hne, hsize, ?_⟩
  have hdown : fs.Descends .target dir name [] :=
    ⟨.of_ne_writing (canEnter_of_directory hdir name) (by simp),
      not_or.mpr ⟨hisName.ne_nil, hisName.ne_dot⟩, hisName.ne_dots, hmax⟩
  rw [steps_join hp hisName, startOf_join hp hisName, hmore, hdown.resolveFrom_down hentry hlink,
    resolveFrom_nil]

/-- Where steps lead to something, the entry at their end is there too. -/
theorem exists_follows_entry {rest : List Bytes} (h : fs.Follows .target links here rest loc)
    (hget : fs.get? loc ≠ none) :
    ∃ other, fs.Follows .entry links here rest other ∧ fs.get? other ≠ none := by
  have hstep {here : Location} {name : Bytes} {rest : List Bytes}
      (h : fs.MayStep .target here name rest) : fs.MayStep .entry here name rest :=
    .of_ne_writing h.enter (by simp)
  induction h with
  | done links here => exact ⟨here, .done links here, hget⟩
  | stay h hname _ ih =>
    obtain ⟨other, hother, hthere⟩ := ih hget
    exact ⟨other, .stay (hstep h) hname hother, hthere⟩
  | up h _ ih =>
    obtain ⟨other, hother, hthere⟩ := ih hget
    exact ⟨other, .up (hstep h) hother, hthere⟩
  | free _ _ hnone => exact absurd hnone hget
  | down h hentry hlink _ ih =>
    obtain ⟨other, hother, hthere⟩ := ih hget
    exact ⟨other, .down (h.of_mayStep (hstep h.toMayStep)) hentry hlink hother, hthere⟩
  | itself _ _ _ hpurpose => cases hpurpose
  | @through _ here name rest _ _ h hlink _ _ ih =>
    by_cases hrest : rest = []
    · -- the link itself is what stands at the end
      subst hrest
      exact ⟨here ++ [name], .itself _ (h.of_mayStep (hstep h.toMayStep)) hlink rfl,
        by simp [hlink]⟩
    · obtain ⟨other, hother, hthere⟩ := ih hget
      exact ⟨other, .through (h.of_mayStep (hstep h.toMayStep)) hlink
        (fun hboth => hrest hboth.1) hother, hthere⟩

/-- **Where a path leads to something**, something is at its end. -/
theorem exists_stat_entry (h : fs.stat .target p = .ok entry) :
    ∃ other, fs.stat .entry p = .ok other := by
  obtain ⟨loc, hresolve, hget⟩ := stat_eq_ok_iff.mp h
  obtain ⟨hnul, hp, hsize, hfrom⟩ := resolve_eq_ok_iff.mp hresolve
  obtain ⟨place, hplace, hthere⟩ :=
    exists_follows_entry (resolveFrom_eq_ok_iff.mp hfrom) (by simp [hget])
  obtain ⟨other, hother⟩ := Option.ne_none_iff_exists'.mp hthere
  exact ⟨other, stat_eq_ok_iff.mpr
    ⟨place, resolve_eq_ok_iff.mpr ⟨hnul, hp, hsize, resolveFrom_eq_ok_iff.mpr hplace⟩, hother⟩⟩

end FileSystem

end EnumTables
