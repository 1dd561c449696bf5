/-
The parent of a path.

Slashes and `.` components at the end of a path are no part of it, and its parent
is written without them.  So the bytes of the parent may differ from those that a
name was joined to, but it is the same path.

* **`Path.components_append_piece`** — one more piece behind a slash;
* **`Path.components_bareReversed`** — what may be removed from the end;
* **`Path.exists_parent_join`** — the parent of a path joined with a name.
-/
import EnumTables.Proofs.Path.Order

namespace EnumTables

namespace Path

/-- One more piece behind a slash is one more component, if it stands for one. -/
theorem components_append_piece {cs piece : Bytes} (hcs : cs ≠ []) (hslash : slash ∉ piece) :
    components ⟨cs ++ slash :: piece⟩ =
      components ⟨cs⟩ ++ (Component.ofPiece? piece).toList := by
  have hsplit : Text.splitOn slash (cs ++ slash :: piece) = Text.splitOn slash cs ++ [piece] := by
    rw [Text.splitOn_append_cons, Text.splitOn_of_not_mem hslash]
  have hstart : start ⟨cs ++ slash :: piece⟩ = start ⟨cs⟩ := by
    obtain ⟨c, rest, hrest⟩ := List.exists_cons_of_ne_nil hcs
    obtain ⟨first, more, hmore⟩ := List.exists_cons_of_ne_nil (Text.splitOn_ne_nil slash cs)
    have habsolute : isAbsolute ⟨cs ++ slash :: piece⟩ = isAbsolute ⟨cs⟩ := by
      simp [isAbsolute, hrest]
    have hhead : (Text.splitOn slash (cs ++ slash :: piece)).head? =
        (Text.splitOn slash cs).head? := by
      rw [hsplit, hmore]
      rfl
    simp only [start, habsolute, hhead]
  have hpiece : [piece].filterMap Component.ofPiece? = (Component.ofPiece? piece).toList := by
    rw [List.filterMap_cons]
    cases Component.ofPiece? piece <;> rfl
  rw [components_eq, components_eq, hstart, List.append_assoc]
  dsimp only
  rw [hsplit, List.filterMap_append, hpiece]

theorem components_append_slash {cs : Bytes} (hcs : cs ≠ []) :
    components ⟨cs ++ [slash]⟩ = components ⟨cs⟩ := by
  rw [components_append_piece hcs List.not_mem_nil]
  exact List.append_nil _

/-- **What is removed from the end of a path** is no part of it, unless nothing but
the root is left.  The bytes are given from their end. -/
theorem components_bareReversed (cs : Bytes) (hcs : cs ≠ []) :
    if bareReversed cs = [] then components ⟨cs.reverse⟩ = [.root]
    else components ⟨(bareReversed cs).reverse⟩ = components ⟨cs.reverse⟩ := by
  fun_induction bareReversed cs with
  | case1 cs ih =>
    by_cases hnil : cs = []
    · subst hnil
      rfl
    · change if bareReversed cs = [] then components ⟨(slash :: cs).reverse⟩ = [.root]
        else components ⟨(bareReversed cs).reverse⟩ = components ⟨(slash :: cs).reverse⟩
      rw [List.reverse_cons, components_append_slash (List.reverse_ne_nil_iff.mpr hnil)]
      exact ih hnil
  | case2 cs ih =>
    by_cases hnil : cs = []
    · subst hnil
      rfl
    · have hdot : components ⟨(dot :: slash :: cs).reverse⟩ = components ⟨cs.reverse⟩ := by
        rw [List.reverse_cons, List.reverse_cons, List.append_assoc]
        exact (components_append_piece (List.reverse_ne_nil_iff.mpr hnil) (by decide)).trans
          (List.append_nil _)
      change if bareReversed cs = [] then components ⟨(dot :: slash :: cs).reverse⟩ = [.root]
        else components ⟨(bareReversed cs).reverse⟩ = components ⟨(dot :: slash :: cs).reverse⟩
      rw [hdot]
      exact ih hnil
  | case3 cs =>
    rw [if_neg hcs]

/-- A path joined with a name is that name, or it stands behind the last slash, and
what is in front of the slash is the path. -/
theorem join_text_cases (p : Path) {name : Bytes} (hname : IsName name) :
    (p.bytes = [] ∧ (p.join ⟨name⟩).bytes = name) ∨
      ∃ lead, (p.join ⟨name⟩).bytes = lead ++ slash :: name ∧
        components ⟨lead ++ [slash]⟩ = p.components := by
  by_cases hp : p.bytes = []
  · refine .inl ⟨hp, ?_⟩
    rw [join, if_pos (by simp [hp])]
  · refine .inr ?_
    obtain ⟨sep, hsep, hbytes⟩ := exists_join_text hp hname
    rcases hsep with ⟨rfl, hlast⟩ | rfl
    · obtain ⟨lead, hlead⟩ := List.getLast?_eq_some_iff.mp hlast
      refine ⟨lead, ?_, ?_⟩
      · rw [hbytes, hlead, List.nil_append, List.append_assoc]
        rfl
      · rw [← hlead]
    · exact ⟨p.bytes, hbytes, components_append_slash hp⟩

/-- **The parent of a path joined with a name** is that path. -/
theorem exists_parent_join (p : Path) {name : Bytes} (hname : IsName name) :
    ∃ parent, (p.join ⟨name⟩).parent? = some parent ∧ parent.same p = true := by
  have hbare := (p.endsIn_join hname.no_slash).bareReversed_eq hname
  obtain ⟨c, cs, hcs⟩ := List.exists_cons_of_ne_nil (List.reverse_ne_nil_iff.mpr hname.ne_nil)
  have hall : ∀ d ∈ cs, decide (d ≠ slash) = true := by
    intro d hd
    have hmem : d ∈ name := by
      rw [← List.mem_reverse, hcs]
      exact List.mem_cons_of_mem c hd
    exact decide_eq_true fun heq => hname.no_slash (heq ▸ hmem)
  rcases p.join_text_cases hname with ⟨hp, hbytes⟩ | ⟨lead, hbytes, hlead⟩
  · refine ⟨⟨[]⟩, ?_, ?_⟩
    · have hdrop : cs.dropWhile (· ≠ slash) = [] := by
        rw [List.dropWhile_eq_nil_iff]
        exact hall
      rw [parent?, hbare, hbytes, hcs]
      simp only [hdrop]
    · rw [same, components, components, hp]
      rfl
  · have hreverse : (p.join ⟨name⟩).bytes.reverse = c :: (cs ++ slash :: lead.reverse) := by
      rw [hbytes, List.reverse_append, List.reverse_cons, hcs]
      simp
    have hdrop : (cs ++ slash :: lead.reverse).dropWhile (· ≠ slash) = slash :: lead.reverse := by
      rw [List.dropWhile_append_of_pos hall]
      rfl
    have hlast : (slash :: lead.reverse).reverse = lead ++ [slash] := by simp
    have hcomponents := components_bareReversed (slash :: lead.reverse) (List.cons_ne_nil _ _)
    rw [hlast, hlead] at hcomponents
    rw [parent?, hbare, hreverse]
    simp only [hdrop]
    split
    · rename_i hnil
      rw [if_pos hnil] at hcomponents
      refine ⟨_, rfl, ?_⟩
      rw [same, hcomponents]
      rfl
    · rename_i hne
      rw [if_neg hne] at hcomponents
      exact ⟨_, rfl, by rw [same, hcomponents, beq_self_eq_true]⟩

end Path

end EnumTables
