/-
The name at the end of a path.

The file name, the components and the steps of a path are read off its bytes in
three ways.  Where a name stands behind the last slash, all three end in it.

* **`Path.EndsIn`** — what stands behind the last slash of a path;
* **`Path.EndsIn.steps_eq`**, **`Path.EndsIn.fileName?_eq`**,
  **`Path.EndsIn.getLast?_components_of_piece`** — the three readings of it;
* **`Path.endsIn_join`** — a path joined with a name ends in that name;
* **`Path.withExtension_eq`** — another extension in place of that of a name.
-/
import EnumTables.FileSystem.Basic
import Mathlib.Data.List.TakeWhile

namespace EnumTables

namespace Text

variable {α : Type} [DecidableEq α]

theorem splitOn_ne_nil (sep : α) (cs : List α) : splitOn sep cs ≠ [] := by
  cases cs with
  | nil => simp [splitOn]
  | cons c cs =>
    rw [splitOn]
    split
    · simp
    · split <;> simp

theorem splitOn_append_cons (sep : α) (cs ds : List α) :
    splitOn sep (cs ++ sep :: ds) = splitOn sep cs ++ splitOn sep ds := by
  induction cs with
  | nil => simp [splitOn]
  | cons c cs ih =>
    by_cases hc : c = sep
    · simp [splitOn, hc, ih]
    · obtain ⟨piece, pieces, hpieces⟩ := List.exists_cons_of_ne_nil (splitOn_ne_nil sep cs)
      simp [splitOn, hc, ih, hpieces]

theorem splitOn_of_not_mem {sep : α} {cs : List α} (h : sep ∉ cs) : splitOn sep cs = [cs] := by
  induction cs with
  | nil => rfl
  | cons c cs ih =>
    obtain ⟨hc, hcs⟩ := List.ne_and_not_mem_of_not_mem_cons h
    simp [splitOn, Ne.symm hc, ih hcs]

end Text

namespace Path

/-- A name that an entry of a directory can have. -/
structure IsName (name : Bytes) : Prop where
  ne_nil : name ≠ []
  ne_dot : name ≠ [dot]
  ne_dots : name ≠ [dot, dot]
  no_slash : slash ∉ name

theorem IsName.ofPiece?_eq {name : Bytes} (hname : IsName name) :
    Component.ofPiece? name = some (.name name) := by
  rw [Component.ofPiece?] <;> simp [hname.ne_nil, hname.ne_dot, hname.ne_dots]

/-- Behind the last slash of the path stands `name`, possibly empty. -/
def EndsIn (p : Path) (name : Bytes) : Prop :=
  slash ∉ name ∧ (p.bytes = name ∨ ∃ lead, p.bytes = lead ++ slash :: name)

theorem exists_endsIn (p : Path) : ∃ name, p.EndsIn name := by
  obtain ⟨cs⟩ := p
  induction cs with
  | nil => exact ⟨[], by simp [EndsIn]⟩
  | cons c cs ih =>
    obtain ⟨name, hname, heq | ⟨lead, heq⟩⟩ := ih
    · obtain rfl : cs = name := heq
      by_cases hc : c = slash
      · exact ⟨cs, hname, .inr ⟨[], by simp [hc]⟩⟩
      · exact ⟨c :: cs, by simp [hname, Ne.symm hc], .inl rfl⟩
    · exact ⟨name, hname, .inr ⟨c :: lead, by simpa using heq⟩⟩

theorem endsIn_join (p : Path) {name : Bytes} (hslash : slash ∉ name) :
    (p.join ⟨name⟩).EndsIn name := by
  refine ⟨hslash, ?_⟩
  rw [join]
  split
  · exact .inl rfl
  · split
    · rename_i hlast
      obtain ⟨lead, hlead⟩ := List.getLast?_eq_some_iff.mp hlast
      exact .inr ⟨lead, by simp [hlead]⟩
    · exact .inr ⟨p.bytes, rfl⟩

namespace EndsIn

variable {p : Path} {name : Bytes}

theorem splitOn_eq (h : p.EndsIn name) :
    ∃ front, Text.splitOn slash p.bytes = front ++ [name] := by
  obtain ⟨hslash, heq | ⟨lead, heq⟩⟩ := h
  · exact ⟨[], by rw [heq, Text.splitOn_of_not_mem hslash, List.nil_append]⟩
  · exact ⟨_, by rw [heq, Text.splitOn_append_cons, Text.splitOn_of_not_mem hslash]⟩

theorem unique {other : Bytes} (h : p.EndsIn name) (hother : p.EndsIn other) : name = other := by
  obtain ⟨front, hfront⟩ := h.splitOn_eq
  obtain ⟨front', hfront'⟩ := hother.splitOn_eq
  rw [hfront'] at hfront
  simpa using (List.append_inj_right' hfront rfl).symm

/-- A path that ends in a name has it as its last step. -/
theorem steps_eq (h : p.EndsIn name) (hne : name ≠ []) :
    ∃ front, FileSystem.steps p = front ++ [name] := by
  obtain ⟨front, hfront⟩ := h.splitOn_eq
  have hlast : p.bytes.getLast? ≠ some slash := by
    intro hlast
    refine h.1 (List.mem_of_getLast? (?_ : name.getLast? = some slash))
    rcases h.2 with heq | ⟨lead, heq⟩
    · rwa [heq] at hlast
    · obtain ⟨c, cs, rfl⟩ := List.exists_cons_of_ne_nil hne
      simpa [heq] using hlast
  refine ⟨front.filter (· ≠ []), ?_⟩
  rw [FileSystem.steps, if_neg hlast, List.append_nil, hfront, List.filter_append]
  simp [hne]

/-- A slash at the end of a path is a last step without a name. -/
theorem steps_eq_of_nil (h : p.EndsIn []) (hne : p.bytes ≠ []) :
    ∃ front, FileSystem.steps p = front ++ [[]] := by
  obtain ⟨-, heq | ⟨lead, heq⟩⟩ := h
  · exact absurd heq hne
  · have hlast : p.bytes.getLast? = some slash := by simp [heq]
    exact ⟨_, by rw [FileSystem.steps, if_pos hlast]⟩

/-- The path from its end: the name, and then a slash if more
stands in front of it. -/
theorem reverse_eq (h : p.EndsIn name) :
    ∃ rest, p.bytes.reverse = name.reverse ++ rest ∧ rest.takeWhile (· ≠ slash) = [] ∧
      rest.dropWhile (· ≠ slash) = rest := by
  obtain ⟨-, heq | ⟨lead, heq⟩⟩ := h
  · exact ⟨[], by simp [heq], rfl, rfl⟩
  · exact ⟨slash :: lead.reverse, by simp [heq], by simp, by simp⟩

/-- Nothing is removed from the end of a path that ends in a name. -/
theorem bareReversed_eq (h : p.EndsIn name) (hname : IsName name) :
    bareReversed p.bytes.reverse = p.bytes.reverse := by
  obtain ⟨rest, hrest, -⟩ := h.reverse_eq
  have hslash : slash ∉ name.reverse := by simpa using hname.no_slash
  rw [hrest]
  match hrev : name.reverse with
  | [] => exact absurd (List.reverse_eq_nil_iff.mp hrev) hname.ne_nil
  | [c] =>
    rw [hrev] at hslash
    have hc : c ≠ dot := by
      rintro rfl
      exact hname.ne_dot (List.reverse_eq_iff.mp hrev)
    rw [List.singleton_append, bareReversed]
    · intro cs heq
      cases heq
      simp at hslash
    · simp [hc]
  | c :: d :: more =>
    rw [hrev] at hslash
    rw [List.cons_append, List.cons_append, bareReversed]
    · intro cs heq
      cases heq
      simp at hslash
    · intro cs heq
      cases heq
      simp at hslash

theorem splitLast_eq (h : p.EndsIn name) (hname : IsName name) :
    ∃ lead, p.bytes = lead ++ name ∧ p.splitLast = (name, lead) := by
  obtain ⟨rest, hrest, htake, hdrop⟩ := h.reverse_eq
  have hall : ∀ c ∈ name.reverse, decide (c ≠ slash) = true := by
    intro c hc
    exact decide_eq_true fun heq => hname.no_slash (heq ▸ List.mem_reverse.mp hc)
  refine ⟨rest.reverse, by simpa using List.reverse_eq_iff.mp hrest, ?_⟩
  rw [splitLast, h.bareReversed_eq hname, hrest]
  simp only [List.takeWhile_append_of_pos hall, List.dropWhile_append_of_pos hall, htake, hdrop,
    List.append_nil, List.reverse_reverse]

theorem fileName?_eq (h : p.EndsIn name) (hname : IsName name) : p.fileName? = some name := by
  obtain ⟨lead, -, hlast⟩ := h.splitLast_eq hname
  simp only [fileName?, hlast]
  split
  · exact absurd rfl hname.ne_nil
  · exact absurd rfl hname.ne_dot
  · exact absurd rfl hname.ne_dots
  · rfl

/-- What a path ends in is its last component, if it stands for one. -/
theorem getLast?_components_of_piece (h : p.EndsIn name) {last : Component}
    (hpiece : Component.ofPiece? name = some last) : p.components.getLast? = some last := by
  have hpieces (front : List Bytes) (head : List Component) :
      (head ++ (front ++ [name]).filterMap Component.ofPiece?).getLast? = some last := by
    simp [List.filterMap_append, hpiece]
  have hne : name ≠ [] ∧ name ≠ [dot] := by
    constructor
    · rintro rfl
      cases hpiece
    · rintro rfl
      cases hpiece
  obtain ⟨front, hfront⟩ := h.splitOn_eq
  rw [components]
  split
  · rename_i cs hcs
    rw [hcs] at hfront
    simp only [Text.splitOn] at hfront
    cases front with
    | nil => exact absurd (List.cons.inj hfront).1.symm hne.1
    | cons piece front =>
      rw [(List.cons.inj hfront).2]
      exact hpieces front [.root]
  · split
    · rename_i pieces hcs
      rw [hfront] at hcs
      cases front with
      | nil => exact absurd (List.cons.inj hcs).1 hne.2
      | cons piece front =>
        obtain ⟨-, rfl⟩ := List.cons.inj hcs
        exact hpieces front [.current]
    · rw [hfront]
      exact hpieces front []

/-- A path that ends in `..` has no file name. -/
theorem fileName?_eq_none (h : p.EndsIn [dot, dot]) : p.fileName? = none := by
  obtain ⟨rest, hrest, htake, -⟩ := h.reverse_eq
  have hbare : bareReversed ([dot, dot] ++ rest) = [dot, dot] ++ rest := by
    rw [List.cons_append, bareReversed] <;> simp
  have hlast : p.splitLast.1 = [dot, dot] := by
    show ((bareReversed p.bytes.reverse).takeWhile (· ≠ slash)).reverse = _
    rw [hrest]
    show ((bareReversed ([dot, dot] ++ rest)).takeWhile (· ≠ slash)).reverse = _
    rw [hbare, List.takeWhile_append_of_pos (by simp), htake]
    rfl
  rw [fileName?, hlast]
  rfl

end EndsIn

/-- A path whose last step is a name ends in it. -/
theorem endsIn_of_steps {p : Path} {front : List Bytes} {name : Bytes}
    (h : FileSystem.steps p = front ++ [name]) (hne : name ≠ []) : p.EndsIn name := by
  obtain ⟨last, hlast⟩ := p.exists_endsIn
  by_cases hnil : last = []
  · subst hnil
    by_cases hbytes : p.bytes = []
    · simp [FileSystem.steps, hbytes, Text.splitOn] at h
    · obtain ⟨other, hother⟩ := hlast.steps_eq_of_nil hbytes
      rw [hother] at h
      exact absurd (List.append_inj_right' h rfl) (by simpa using Ne.symm hne)
  · obtain ⟨other, hother⟩ := hlast.steps_eq hnil
    rw [hother] at h
    obtain rfl : last = name := by simpa using List.append_inj_right' h rfl
    exact hlast

/-- Paths that are the same behind one directory end in the same component. -/
theorem ofPiece?_eq_of_same_join {dir : Path} {piece other : Bytes} {last last' : Component}
    (hslash : slash ∉ piece) (hslash' : slash ∉ other)
    (hlast : Component.ofPiece? piece = some last) (hlast' : Component.ofPiece? other = some last')
    (h : (dir.join ⟨piece⟩).same (dir.join ⟨other⟩) = true) : last = last' := by
  have hend := (dir.endsIn_join hslash).getLast?_components_of_piece hlast
  rw [eq_of_beq h, (dir.endsIn_join hslash').getLast?_components_of_piece hlast'] at hend
  exact (Option.some.inj hend).symm

/-- In one directory, files of different names have different paths. -/
theorem eq_of_same_join {dir : Path} {name other : Bytes} (hname : IsName name)
    (hother : IsName other) (h : (dir.join ⟨name⟩).same (dir.join ⟨other⟩) = true) :
    name = other :=
  Component.name.inj (ofPiece?_eq_of_same_join hname.no_slash hother.no_slash hname.ofPiece?_eq
    hother.ofPiece?_eq h)

/-- A file name is a name. -/
theorem isName_of_fileName? {p : Path} {name : Bytes} (h : p.fileName? = some name) :
    IsName name := by
  rw [fileName?] at h
  split at h
  · cases h
  · cases h
  · cases h
  · rename_i hnil hdot hdots
    obtain rfl := Option.some.inj h
    refine ⟨hnil, hdot, hdots, fun hslash => ?_⟩
    rw [splitLast, List.mem_reverse] at hslash
    simpa using List.mem_takeWhile_imp hslash

/-! ### Extensions -/

theorem splitName_eq_iff {name stem ext : Bytes} :
    splitName name = (stem, some ext) ↔ name = stem ++ dot :: ext ∧ stem ≠ [] ∧ dot ∉ ext := by
  constructor
  · intro h
    rw [splitName] at h
    split at h
    · cases h
    · cases h
    · rename_i c rest hne hdrop
      cases h
      have hc : c = dot := by
        have hhead := List.head_dropWhile_not (· ≠ dot) (hdrop ▸ List.cons_ne_nil c rest)
        simp only [hdrop, List.head_cons] at hhead
        simpa using hhead
      have hsplit : name.reverse = name.reverse.takeWhile (· ≠ dot) ++ dot :: rest := by
        rw [← hc, ← hdrop, hc, List.takeWhile_append_dropWhile]
      refine ⟨?_, fun h => hne (List.reverse_eq_nil_iff.mp h), ?_⟩
      · have hname := congrArg List.reverse hsplit
        rwa [List.reverse_reverse, List.reverse_append, List.reverse_cons,
          List.append_assoc] at hname
      · intro hmem
        simpa using List.mem_takeWhile_imp (List.mem_reverse.mp hmem)
  · rintro ⟨rfl, hstem, hext⟩
    have hall : ∀ c ∈ ext.reverse, decide (c ≠ dot) = true := by
      intro c hc
      exact decide_eq_true fun heq => hext (heq ▸ List.mem_reverse.mp hc)
    obtain ⟨c, rest, hrest⟩ := List.exists_cons_of_ne_nil (List.reverse_ne_nil_iff.mpr hstem)
    have hrev : (stem ++ dot :: ext).reverse = ext.reverse ++ dot :: c :: rest := by
      simp [← hrest]
    rw [splitName, hrev]
    simp only [List.dropWhile_append_of_pos hall, List.takeWhile_append_of_pos hall]
    simp [List.reverse_eq_iff.mp hrest]

/-- Another extension in place of the old one.  The name `..` comes out where
only a dot stands in front of the old extension. -/
theorem withExtension_eq {stem old : Bytes} (hstem : stem ≠ []) (hold : dot ∉ old)
    (hname : IsName (stem ++ dot :: old)) (ext : Bytes) :
    withExtension ext ⟨stem ++ dot :: old⟩ =
      if stem = [dot] then ⟨[dot, dot]⟩ else ⟨stem ++ dot :: ext⟩ := by
  have hends (name : Bytes) (h : IsName name) : EndsIn ⟨name⟩ name := ⟨h.no_slash, .inl rfl⟩
  have hext : extension? ⟨stem ++ dot :: old⟩ = some old := by
    rw [extension?, (hends _ hname).fileName?_eq hname, Option.bind_some,
      splitName_eq_iff.mpr ⟨rfl, hstem, hold⟩]
  have hcut : (stem ++ dot :: old).take ((stem ++ dot :: old).length - old.length) =
      stem ++ [dot] := by
    rw [List.append_cons, List.length_append, Nat.add_sub_cancel, List.take_left]
  rw [withExtension, hext]
  simp only [hcut]
  split
  · subst stem
    rfl
  · rename_i hdot
    have hcutName : IsName (stem ++ [dot]) :=
      ⟨by simp, by simpa using hstem, fun h => hdot (by simpa using List.append_inj_left' h rfl),
        fun h => hname.no_slash (by simp_all)⟩
    have hcutEnds := hends _ hcutName
    have hstem? : stem? ⟨stem ++ [dot]⟩ = some stem := by
      rw [stem?, hcutEnds.fileName?_eq hcutName, Option.map_some,
        splitName_eq_iff.mpr ⟨rfl, hstem, by simp⟩]
    obtain ⟨lead, hbytes, hlast⟩ := hcutEnds.splitLast_eq hcutName
    obtain rfl : lead = [] := by simpa using hbytes
    simp only [setExtension, hstem?, hlast, List.nil_append]

end Path

end EnumTables
