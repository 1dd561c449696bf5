/-
Declarations inside of declarations.

The bodies of a text are found by counting braces from different places, and
the search goes on inside of a body that was found.  Still they are nested:
of two bodies the later one lies inside of the earlier one or behind it, and
a body that is cut out has just the declarations that were found in it.

* **`Region`** — where a declaration stands: its opening brace and its body;
* **`Balanced.closed_of_opener`** — inside of a body that is closed every other
  body is closed;
* **`exists_inner_headers`** — the headers found after one of them: first those
  of its body, then those behind it;
* **`regions_inside_or_behind`** — of two regions the later one lies inside of
  the earlier one or behind it;
* **`declarations_nested`** — the regions of a text are nested, and a body cut
  out of it has the declarations inside of its region.
-/
import EnumTables.Proofs.Declaration.Parts

namespace EnumTables

/-- The byte positions of a declaration: the start of its opening brace, and
the two ends of its body. -/
structure Region where
  brace : Nat
  start : Nat
  stop : Nat
  deriving DecidableEq, Repr

/-- The region lies, with its opening brace, inside of the body of `outer`. -/
def Region.Inside (outer inner : Region) : Prop :=
  outer.start ≤ inner.brace ∧ inner.stop ≤ outer.stop

/-- The region of a header, given the tokens behind its brace. -/
def Header.region (source : Text) (h : Header × List Token) : Region :=
  ⟨h.1.openBrace.start, h.1.openBrace.stop,
    groupEnd .openBrace .closeBrace (Text.size source) h.2⟩

/-- The regions of the declarations of a text. -/
def regions (source : Text) : List Region :=
  (Header.all (significant source)).map (Header.region source)

/-- Behind an opener in a balanced list there is its closer. -/
theorem Balanced.closed_of_opener {front rest : List Token} {brace : Token}
    (h : Balanced .openBrace .closeBrace (front ++ brace :: rest))
    (hbrace : brace.kind = .openBrace) : Closed rest := by
  rcases nested_or_closed rest with hnested | hclosed
  · -- the list would open one more brace than it closes
    have hfront := h.nested front (List.prefix_append front _)
    have hrest := hnested rest (List.prefix_refl rest)
    have heven := h.even
    rw [count_append, count_append, count_cons, count_cons, if_pos hbrace,
      if_neg (by rw [hbrace]; decide)] at heven
    omega
  · exact hclosed

theorem length_regions (src : Text) : (regions src).length = (declarations src).length := by
  rw [declarations_eq, regions, List.length_mapIdx, List.length_map]

/-- **The headers found after one of them.**  First come those of its body `b`,
and then those that start behind the body. -/
theorem exists_inner_headers {src : Text} {k : Nat} {h : Header × List Token}
    (hk : (Header.all (significant src))[k]? = some h) :
    ∃ a b c us later, src = a ++ (b ++ c) ∧ h.1.openBrace ∈ lex src ∧
      h.1.openBrace.stop = Text.size a ∧
      groupEnd .openBrace .closeBrace (Text.size src) h.2 = Text.size a + Text.size b ∧
      (∀ g ∈ Header.all (significant b), Closed g.2 ∨ c = [] ∧ us = []) ∧
      (Header.all (significant src)).drop (k + 1) =
        (Header.all (significant b)).map (fun g =>
          (g.1.shift (Text.size a), g.2.map (Token.shift (Text.size a)) ++ us)) ++ later ∧
      ∀ g ∈ later, Text.size a + Text.size b ≤ g.1.openBrace.start := by
  obtain ⟨header, rest⟩ := h
  have hdrop := Header.drop_all hk
  obtain ⟨front, hfront, -⟩ := Header.exists_of_mem_all (List.mem_of_getElem? hk)
  obtain ⟨a, b, c, us, rfl, -, -, hmem, hstart, hstop, rfl, hend⟩ := exists_body_parts hfront
  rcases hend with ⟨-, rfl, rfl⟩ | ⟨t, vs, rfl, ht, htstart, hbalanced⟩
  · refine ⟨a, b, [], [], [], rfl, hmem, hstart, hstop, fun _ _ => .inr ⟨rfl, rfl⟩, ?_, by simp⟩
    rw [hdrop]
    simp only [List.append_nil, Header.all_map_shift]
  · refine ⟨a, b, c, t :: vs, Header.all vs, rfl, hmem, hstart, hstop, ?_, ?_, ?_⟩
    · intro g hg
      obtain ⟨gfront, hgfront, hgbrace⟩ := Header.exists_of_mem_all hg
      have hinner := hbalanced.of_map fun _ => rfl
      rw [hgfront] at hinner
      exact .inl (hinner.closed_of_opener hgbrace)
    · rw [hdrop, Header.all_append_closer ht, Header.all_map_shift, List.map_map]
      rfl
    · intro g hg
      obtain ⟨gfront, hgfront, -⟩ := Header.exists_of_mem_all hg
      have hordered : (significant (a ++ (b ++ c))).Pairwise fun t u => t.stop ≤ u.start :=
        (pairwise_lexFrom 0 _).filter _
      have htmem : t ∈ lex (a ++ (b ++ c)) := by
        refine List.mem_of_mem_filter (p := Token.isSignificant) ?_
        rw [← significant, hfront]
        simp
      -- the brace of `g` is behind the closing brace
      have hsublist : t :: vs <:+ significant (a ++ (b ++ c)) := by
        rw [hfront]
        exact ⟨front ++ header.openBrace :: (significant b).map (Token.shift (Text.size a)), by simp⟩
      have hgmem : g.1.openBrace ∈ vs := by
        rw [hgfront]
        simp
      have hle := List.rel_of_pairwise_cons (hordered.sublist hsublist.sublist) hgmem
      have hlt := (span_of_mem_lexFrom htmem).2.1
      omega

/-- The place of a region in its text. -/
theorem Region.bounds {src : Text} {r : Region} (h : r ∈ regions src) :
    r.brace < r.start ∧ r.start ≤ r.stop ∧ r.stop ≤ Text.size src := by
  obtain ⟨⟨header, rest⟩, hmem, rfl⟩ := List.mem_map.mp h
  obtain ⟨front, hfront, -⟩ := Header.exists_of_mem_all hmem
  obtain ⟨a, b, c, hsrc, -, -, hbrace, hstart, hstop⟩ := exists_body_seams hfront
  have hspan := span_of_mem_lexFrom hbrace
  have hsize := congrArg Text.size hsrc
  rw [Text.size_append, Text.size_append] at hsize
  simp only [Header.region, hstop]
  omega

/-- The region of a declaration of a part `b` lies in the whole where the part
does. -/
theorem Header.inside_part {a b c : Text} {us : List Token} {g : Header × List Token}
    (hg : g ∈ all (significant b)) (hend : Closed g.2 ∨ c = [] ∧ us = []) :
    Text.size a ≤ (region (a ++ (b ++ c))
        (g.1.shift (Text.size a), g.2.map (Token.shift (Text.size a)) ++ us)).brace ∧
      (region (a ++ (b ++ c))
        (g.1.shift (Text.size a), g.2.map (Token.shift (Text.size a)) ++ us)).stop ≤
          Text.size a + Text.size b := by
  have hbounds := Region.bounds (List.mem_map_of_mem (f := region b) hg)
  simp only [region, groupEnd_part hend, shift, Token.shift] at hbounds ⊢
  omega

theorem drop_declarations (src : Text) (n : Nat) :
    (declarations src).drop n =
      ((Header.all (significant src)).drop n).mapIdx
        fun k h => h.1.declaration src h.2 (n + k) := by
  refine List.ext_getElem? fun k => ?_
  rw [declarations_eq, List.getElem?_drop, List.getElem?_mapIdx, List.getElem?_mapIdx,
    List.getElem?_drop]

/-- **The declarations after one of them.**  Those of its body come first and
lie inside of its region, and the others stand behind it. -/
theorem exists_inner_regions {src : Text} {k : Nat} {d : Declaration} {r : Region}
    (hd : (declarations src)[k]? = some d) (hr : (regions src)[k]? = some r) :
    d.body = Text.slice src r.start r.stop ∧ d.index = k ∧
    ((declarations src).drop (k + 1)).take (declarations d.body).length =
      (declarations d.body).map (Declaration.renumber (k + 1)) ∧
    ∃ inner later, (regions src).drop (k + 1) = inner ++ later ∧
      inner.length = (declarations d.body).length ∧ (∀ q ∈ inner, r.Inside q) ∧
      ∀ q ∈ later, r.stop ≤ q.brace := by
  rw [regions, List.getElem?_map, Option.map_eq_some_iff] at hr
  obtain ⟨h, hk, rfl⟩ := hr
  rw [declarations_eq, List.getElem?_mapIdx, hk] at hd
  obtain rfl := Option.some.inj hd
  obtain ⟨a, b, c, us, later, rfl, -, hstart, hstop, hend, hdrop, hlater⟩ :=
    exists_inner_headers hk
  have hslice : Text.slice (a ++ (b ++ c)) (Text.size a) (Text.size a + Text.size b) = b := by
    rw [← List.append_assoc, Text.slice_append]
  have hbody : (h.1.declaration (a ++ (b ++ c)) h.2 k).body = b := by
    rw [Header.declaration, hstart, hstop, hslice]
  have hlength : (declarations b).length = (Header.all (significant b)).length := by
    rw [declarations_eq, List.length_mapIdx]
  rw [hbody]
  refine ⟨?_, rfl, ?_, ?_⟩
  · rw [Header.region, hstart, hstop, hslice]
  · rw [drop_declarations, hdrop, List.mapIdx_append, mapIdx_declaration_part a c us hend,
      List.take_left' (List.length_map _)]
  · refine ⟨((Header.all (significant b)).map fun g =>
        (g.1.shift (Text.size a), g.2.map (Token.shift (Text.size a)) ++ us)).map
          (Header.region (a ++ (b ++ c))), later.map (Header.region (a ++ (b ++ c))), ?_, ?_, ?_, ?_⟩
    · rw [regions, ← List.map_drop, hdrop, List.map_append]
    · rw [List.length_map, List.length_map, hlength]
    · intro q hq
      rw [List.map_map] at hq
      obtain ⟨g, hg, rfl⟩ := List.mem_map.mp hq
      have hinside := Header.inside_part (a := a) hg (hend g hg)
      rw [Region.Inside, Header.region, hstart, hstop]
      exact hinside
    · intro q hq
      obtain ⟨g, hg, rfl⟩ := List.mem_map.mp hq
      rw [Header.region, hstop]
      exact hlater g hg

/-- Of two regions the later one lies inside of the earlier one or behind
it. -/
theorem regions_inside_or_behind {src : Text} {i j : Nat} {r q : Region} (hij : i < j)
    (hr : (regions src)[i]? = some r) (hq : (regions src)[j]? = some q) :
    r.stop ≤ q.brace ∨ r.Inside q := by
  obtain ⟨hi, -⟩ := List.getElem?_eq_some_iff.mp hr
  obtain ⟨-, -, -, inner, later, hdrop, -, hinner, hlater⟩ :=
    exists_inner_regions (List.getElem?_eq_getElem (length_regions src ▸ hi)) hr
  have hmem : q ∈ inner ++ later := by
    rw [← hdrop]
    refine List.mem_of_getElem? (i := j - (i + 1)) ?_
    rw [List.getElem?_drop, Nat.add_sub_cancel' hij, hq]
  rcases List.mem_append.mp hmem with hmem | hmem
  · exact .inr (hinner q hmem)
  · exact .inl (hlater q hmem)

/-- **Declarations are nested.**  Of two regions of a text the later one lies,
with its opening brace, inside of the earlier one or behind it.  The body of a
declaration, as a text of its own, has the declarations of the text that lie
inside of its region; they are those that come right after it. -/
theorem declarations_nested (src : Text) :
    (regions src).length = (declarations src).length ∧
    (∀ r ∈ regions src, r.brace < r.start ∧ r.start ≤ r.stop ∧ r.stop ≤ Text.size src) ∧
    (∀ (i j : Nat) (r q : Region), i < j → (regions src)[i]? = some r →
      (regions src)[j]? = some q → r.stop ≤ q.brace ∨ r.Inside q) ∧
    ∀ (k : Nat) (d : Declaration) (r : Region), (declarations src)[k]? = some d →
      (regions src)[k]? = some r →
        d.body = Text.slice src r.start r.stop ∧ d.index = k ∧
        ((declarations src).drop (k + 1)).take (declarations d.body).length =
          (declarations d.body).map (fun e => ⟨e.name, e.body, k + 1 + e.index⟩) ∧
        ∀ (j : Nat) (q : Region), (regions src)[j]? = some q →
          (r.Inside q ↔ k < j ∧ j ≤ k + (declarations d.body).length) := by
  refine ⟨length_regions src, fun r hr => Region.bounds hr,
    fun i j r q hij hr hq => regions_inside_or_behind hij hr hq, ?_⟩
  intro k d r hd hr
  obtain ⟨hbody, hindex, htake, inner, later, hdrop, hlength, hinner, hlater⟩ :=
    exists_inner_regions hd hr
  refine ⟨hbody, hindex, htake, fun j q hq => ?_⟩
  have hrbounds := Region.bounds (List.mem_of_getElem? hr)
  have hqbounds := Region.bounds (List.mem_of_getElem? hq)
  rcases Nat.lt_trichotomy j k with hjk | rfl | hkj
  · -- an earlier opening brace stands in front of the region
    have hearlier := regions_inside_or_behind hjk hq hr
    simp only [Region.Inside] at hearlier ⊢
    omega
  · obtain rfl := Option.some.inj (hr.symm.trans hq)
    simp only [Region.Inside]
    omega
  · have hq' : (inner ++ later)[j - (k + 1)]? = some q := by
      rw [← hdrop, List.getElem?_drop, Nat.add_sub_cancel' hkj, hq]
    rcases Nat.lt_or_ge (j - (k + 1)) inner.length with hlt | hge
    · rw [List.getElem?_append_left hlt] at hq'
      have hinside := hinner q (List.mem_of_getElem? hq')
      exact ⟨fun _ => by omega, fun _ => hinside⟩
    · rw [List.getElem?_append_right hge] at hq'
      have hbehind := hlater q (List.mem_of_getElem? hq')
      simp only [Region.Inside]
      omega

/-- Two declarations, each with another inside of it; the last two are not
closed. -/
def nestedTwice : Text :=
  "enum A \x7b enum B \x7b X \x7d \x7d enum C \x7b enum D \x7b Y".toList

theorem declarations_nested_twice :
    (regions nestedTwice)[0]? = some ⟨7, 8, 22⟩ ∧ (regions nestedTwice)[2]? = some ⟨31, 32, 43⟩ ∧
    (regions nestedTwice)[3]? = some ⟨40, 41, 43⟩ ∧
    (22 ≤ 40 ∨ (Region.mk 7 8 22).Inside ⟨40, 41, 43⟩) ∧
    (Region.mk 31 32 43).Inside ⟨40, 41, 43⟩ ∧
    declarations " enum D \x7b Y".toList = [⟨['D'], " Y".toList, 0⟩] ∧
    ((declarations nestedTwice).drop 3).take 1 = [⟨['D'], " Y".toList, 3⟩] := by
  obtain ⟨-, -, hpairs, hbodies⟩ := declarations_nested nestedTwice
  have hfirst : (regions nestedTwice)[0]? = some ⟨7, 8, 22⟩ := by
    decide +kernel
  have houter : (regions nestedTwice)[2]? = some ⟨31, 32, 43⟩ := by
    decide +kernel
  have hinner : (regions nestedTwice)[3]? = some ⟨40, 41, 43⟩ := by
    decide +kernel
  have hdeclaration : (declarations nestedTwice)[2]? =
      some ⟨['C'], " enum D \x7b Y".toList, 2⟩ := by
    decide +kernel
  have hbody : declarations " enum D \x7b Y".toList = [⟨['D'], " Y".toList, 0⟩] := by
    decide +kernel
  obtain ⟨-, -, htake, hinside⟩ := hbodies 2 _ _ hdeclaration houter
  rw [hbody] at htake hinside
  exact ⟨hfirst, houter, hinner, hpairs 0 3 _ _ (by decide) hfirst hinner,
    (hinside 3 _ hinner).mpr (by decide), hbody, htake⟩

end EnumTables
