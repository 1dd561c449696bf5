/-
Following the steps of a path.

A step stays where it is, goes up, or goes down to an entry.  If the entry is a link,
the steps of its target come next.  Where steps lead is stated here as a relation with
one case for each kind of step, so that what holds of every path is proved by induction
on it.

* **`FileSystem.MayStep`**, **`FileSystem.Descends`** — when a step can be taken;
* **`FileSystem.Follows`** — where steps lead;
* **`FileSystem.resolveFrom_eq_ok_iff`** — the two agree.
-/
import EnumTables.FileSystem.Basic

namespace EnumTables

namespace FileSystem

/-- A step may be taken at the location. -/
def CanEnter (fs : FileSystem) (here : Location) (name : Bytes) : Prop :=
  ∃ entry, fs.get? here = some entry ∧ entry.enter name = .ok ()

theorem canEnter_of_directory {fs : FileSystem} {here : Location}
    (h : fs.get? here = some .directory) (name : Bytes) : fs.CanEnter here name :=
  ⟨.directory, h, rfl⟩

theorem CanEnter.directory {fs : FileSystem} {here : Location} {name : Bytes}
    (h : fs.CanEnter here name) (hname : name ≠ []) : fs.get? here = some .directory := by
  obtain ⟨entry, hentry, henter⟩ := h
  rwa [Entry.eq_directory_of_enter henter hname] at hentry

/-- The first of some steps can be taken, and it is not the name of a file to be
written with a slash behind it. -/
structure MayStep (fs : FileSystem) (purpose : Purpose) (here : Location) (name : Bytes)
    (rest : List Bytes) : Prop where
  enter : fs.CanEnter here name
  noFile : ¬(purpose = .writing ∧ rest = [[]])

/-- The first of some steps goes down to what has its name. -/
structure Descends (fs : FileSystem) (purpose : Purpose) (here : Location) (name : Bytes)
    (rest : List Bytes) : Prop extends fs.MayStep purpose here name rest where
  ne_stay : ¬(name = [] ∨ name = [Path.dot])
  ne_up : name ≠ [Path.dot, Path.dot]
  length_le : name.length ≤ maxNameSize

/-- **Where steps lead** from a location, through at most `links` symbolic links. -/
inductive Follows (fs : FileSystem) (purpose : Purpose) :
    Nat → Location → List Bytes → Location → Prop
  | done (links : Nat) (here : Location) : Follows fs purpose links here [] here
  | stay {links here name rest loc} (h : fs.MayStep purpose here name rest)
    (hname : name = [] ∨ name = [Path.dot]) (hrest : Follows fs purpose links here rest loc) :
    Follows fs purpose links here (name :: rest) loc
  | up {links here rest loc} (h : fs.MayStep purpose here [Path.dot, Path.dot] rest)
    (hrest : Follows fs purpose links here.dropLast rest loc) :
    Follows fs purpose links here ([Path.dot, Path.dot] :: rest) loc
  | free {here name} (links : Nat) (h : fs.Descends purpose here name [])
    (hnone : fs.get? (here ++ [name]) = none) :
    Follows fs purpose links here [name] (here ++ [name])
  | down {links here name rest entry loc} (h : fs.Descends purpose here name rest)
    (hentry : fs.get? (here ++ [name]) = some entry) (hlink : ∀ target, entry ≠ .link target)
    (hrest : Follows fs purpose links (here ++ [name]) rest loc) :
    Follows fs purpose links here (name :: rest) loc
  | itself {here name target} (links : Nat) (h : fs.Descends purpose here name [])
    (hlink : fs.get? (here ++ [name]) = some (.link target)) (hpurpose : purpose = .entry) :
    Follows fs purpose links here [name] (here ++ [name])
  | through {links here name rest target loc} (h : fs.Descends purpose here name rest)
    (hlink : fs.get? (here ++ [name]) = some (.link target))
    (hend : ¬(rest = [] ∧ purpose = .entry))
    (hrest : Follows fs purpose links (startOf target here) (steps target ++ rest) loc) :
    Follows fs purpose (links + 1) here (name :: rest) loc

/-! ### One step -/

variable {fs : FileSystem} {purpose : Purpose} {links : Nat} {here loc : Location}
  {name : Bytes} {rest : List Bytes} {entry : Entry} {target : Path}

@[simp]
theorem resolveFrom_nil : fs.resolveFrom purpose links here [] = .ok here := by
  cases links <;> rfl

/-- One step of a path, whichever it is. -/
theorem resolveFrom_cons : fs.resolveFrom purpose links here (name :: rest) =
    match fs.get? here with
    | none => .error .notFound
    | some entry =>
      match entry.enter name with
      | .error e => .error e
      | .ok () =>
        if purpose = .writing ∧ rest = [[]] then .error .isDirectory
        else if name = [] ∨ name = [Path.dot] then fs.resolveFrom purpose links here rest
        else if name = [Path.dot, Path.dot] then fs.resolveFrom purpose links here.dropLast rest
        else if maxNameSize < name.length then .error .nameTooLong
        else
          match fs.get? (here ++ [name]) with
          | none => if rest = [] then .ok (here ++ [name]) else .error .notFound
          | some (.link target) =>
            if rest = [] ∧ purpose = .entry then .ok (here ++ [name])
            else
              match links with
              | 0 => .error .tooManyLinks
              | n + 1 => fs.resolveFrom purpose n (startOf target here) (steps target ++ rest)
          | some _ => fs.resolveFrom purpose links (here ++ [name]) rest := by
  cases links <;> rfl

namespace MayStep

theorem of_ne_writing (henter : fs.CanEnter here name) (hpurpose : purpose ≠ .writing) :
    fs.MayStep purpose here name rest :=
  ⟨henter, fun hboth => hpurpose hboth.1⟩

theorem resolveFrom_stay (h : fs.MayStep purpose here name rest)
    (hname : name = [] ∨ name = [Path.dot]) :
    fs.resolveFrom purpose links here (name :: rest) = fs.resolveFrom purpose links here rest := by
  obtain ⟨entry, hentry, henter⟩ := h.enter
  rw [resolveFrom_cons, hentry]
  simp only [henter, h.noFile, hname, if_true, if_false]

theorem resolveFrom_up (h : fs.MayStep purpose here [Path.dot, Path.dot] rest) :
    fs.resolveFrom purpose links here ([Path.dot, Path.dot] :: rest) =
      fs.resolveFrom purpose links here.dropLast rest := by
  obtain ⟨entry, hentry, henter⟩ := h.enter
  rw [resolveFrom_cons, hentry]
  simp [henter, h.noFile]

end MayStep

namespace Descends

/-- A step down is taken from a directory. -/
theorem directory (h : fs.Descends purpose here name rest) : fs.get? here = some .directory :=
  h.enter.directory fun hnil => h.ne_stay (.inl hnil)

/-- Whether a step goes down is up to its name. -/
theorem of_mayStep {fs' : FileSystem} {purpose' : Purpose} {rest' : List Bytes}
    (h : fs.Descends purpose here name rest) (h' : fs'.MayStep purpose' here name rest') :
    fs'.Descends purpose' here name rest' :=
  ⟨h', h.ne_stay, h.ne_up, h.length_le⟩

theorem resolveFrom_eq (h : fs.Descends purpose here name rest) :
    fs.resolveFrom purpose links here (name :: rest) =
      match fs.get? (here ++ [name]) with
      | none => if rest = [] then .ok (here ++ [name]) else .error .notFound
      | some (.link target) =>
        if rest = [] ∧ purpose = .entry then .ok (here ++ [name])
        else
          match links with
          | 0 => .error .tooManyLinks
          | n + 1 => fs.resolveFrom purpose n (startOf target here) (steps target ++ rest)
      | some _ => fs.resolveFrom purpose links (here ++ [name]) rest := by
  obtain ⟨entry, hentry, henter⟩ := h.enter
  rw [resolveFrom_cons, hentry]
  simp only [henter, h.noFile, h.ne_stay, h.ne_up, Nat.not_lt_of_le h.length_le, if_false]

theorem resolveFrom_down (h : fs.Descends purpose here name rest)
    (hentry : fs.get? (here ++ [name]) = some entry) (hlink : ∀ target, entry ≠ .link target) :
    fs.resolveFrom purpose links here (name :: rest) =
      fs.resolveFrom purpose links (here ++ [name]) rest := by
  rw [h.resolveFrom_eq, hentry]
  cases entry with
  | link target => exact absurd rfl (hlink target)
  | _ => rfl

theorem resolveFrom_through (h : fs.Descends purpose here name rest)
    (hlink : fs.get? (here ++ [name]) = some (.link target))
    (hend : ¬(rest = [] ∧ purpose = .entry)) :
    fs.resolveFrom purpose (links + 1) here (name :: rest) =
      fs.resolveFrom purpose links (startOf target here) (steps target ++ rest) := by
  rw [h.resolveFrom_eq, hlink]
  simp only [hend, if_false]

end Descends

/-! ### All steps -/

/-- A step that leads somewhere can be taken. -/
theorem mayStep_of_resolveFrom (h : fs.resolveFrom purpose links here (name :: rest) = .ok loc) :
    fs.MayStep purpose here name rest := by
  rw [resolveFrom_cons] at h
  split at h
  · cases h
  · rename_i entry hentry
    split at h
    · cases h
    · rename_i henter
      split at h
      · cases h
      · rename_i hnoFile
        exact ⟨⟨entry, hentry, henter⟩, hnoFile⟩

theorem descends_of_resolveFrom (h : fs.resolveFrom purpose links here (name :: rest) = .ok loc)
    (hstay : ¬(name = [] ∨ name = [Path.dot])) (hup : name ≠ [Path.dot, Path.dot]) :
    fs.Descends purpose here name rest := by
  have hstep := mayStep_of_resolveFrom h
  refine ⟨hstep, hstay, hup, Nat.le_of_not_lt fun hlong => ?_⟩
  obtain ⟨entry, hentry, henter⟩ := hstep.enter
  rw [resolveFrom_cons, hentry] at h
  simp [henter, hstep.noFile, hstay, hup, hlong] at h

theorem follows_of_resolveFrom {names : List Bytes}
    (h : fs.resolveFrom purpose links here names = .ok loc) :
    fs.Follows purpose links here names loc := by
  -- on the links that are left, and for each number of them on the steps
  induction links using Nat.strongRecOn generalizing here names with
  | ind links ihlinks =>
    induction names generalizing here with
    | nil =>
      obtain rfl := Except.ok.inj (resolveFrom_nil.symm.trans h)
      exact .done links _
    | cons name rest ih =>
      have hstep := mayStep_of_resolveFrom h
      by_cases hstay : name = [] ∨ name = [Path.dot]
      · rw [hstep.resolveFrom_stay hstay] at h
        exact .stay hstep hstay (ih h)
      by_cases hup : name = [Path.dot, Path.dot]
      · subst hup
        rw [hstep.resolveFrom_up] at h
        exact .up hstep (ih h)
      have hdown := descends_of_resolveFrom h hstay hup
      rw [hdown.resolveFrom_eq] at h
      split at h
      · rename_i hnone
        split at h
        · subst rest
          cases h
          exact .free links hdown hnone
        · cases h
      · rename_i target hlink
        split at h
        · rename_i hend
          obtain ⟨rfl, hpurpose⟩ := hend
          cases h
          exact .itself links hdown hlink hpurpose
        · rename_i hend
          cases links with
          | zero => cases h
          | succ n => exact .through hdown hlink hend (ihlinks n (Nat.lt_succ_self n) h)
      · rename_i entry hlink hentry
        exact .down hdown hentry hlink (ih h)

theorem Follows.resolveFrom_eq {names : List Bytes}
    (h : fs.Follows purpose links here names loc) :
    fs.resolveFrom purpose links here names = .ok loc := by
  induction h with
  | done links here => exact resolveFrom_nil
  | stay h hname _ ih => rwa [h.resolveFrom_stay hname]
  | up h _ ih => rwa [h.resolveFrom_up]
  | free links h hnone =>
    rw [h.resolveFrom_eq, hnone]
    rfl
  | down h hentry hlink _ ih => rwa [h.resolveFrom_down hentry hlink]
  | itself links h hlink hpurpose =>
    rw [h.resolveFrom_eq, hlink]
    simp only [hpurpose, and_self, if_true]
  | through h hlink hend _ ih => rwa [h.resolveFrom_through hlink hend]

/-- **Where steps lead** is the location that is found for them. -/
theorem resolveFrom_eq_ok_iff {names : List Bytes} :
    fs.resolveFrom purpose links here names = .ok loc ↔
      fs.Follows purpose links here names loc :=
  ⟨follows_of_resolveFrom, Follows.resolveFrom_eq⟩

end FileSystem

end EnumTables
