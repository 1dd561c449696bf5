/-
Every constant of a body is accounted for.

The constants with a comment are recorded, each with its place among all constants,
and the others are reported, so that no constant is lost and none counts twice.  What
is recorded stands in the body, in the order of the body.

* **`mem_documentedOf_iff`** — what is recorded;
* **`pairwise_position`**, **`exists_skipped`** — the places of the recorded and of the
  reported constants;
* **`Site.Shows.exists_comment`** — a recorded comment is that of a closed documentation
  comment;
* **`constants_accounted`** — all of it.
-/
import EnumTables.Event.Basic
import EnumTables.Proofs.Constant.Sites
import EnumTables.Proofs.Document.Assembled

namespace EnumTables

section

variable {cs : List Constant} {c : DocumentedConstant}

theorem ofConstant?_eq_some_iff {constant : Constant} {i : ℕ} :
    DocumentedConstant.ofConstant? constant i = some c ↔
      constant = ⟨some c.comment, c.name, c.argument⟩ ∧ c.position = i := by
  obtain ⟨doc, name, arguments⟩ := constant
  rw [DocumentedConstant.ofConstant?]
  cases doc with
  | none => simp
  | some comment =>
    constructor
    · rintro ⟨⟩
      exact ⟨rfl, rfl⟩
    · rintro ⟨h, rfl⟩
      cases h
      rfl

/-- What is recorded of a constant, and at which place. -/
theorem mem_documentedOf_iff :
    c ∈ documentedOf cs ↔ cs[c.position]? = some ⟨some c.comment, c.name, c.argument⟩ := by
  rw [documentedOf, List.mem_filterMap]
  constructor
  · rintro ⟨⟨constant, i⟩, hmem, hc⟩
    obtain ⟨rfl, rfl⟩ := ofConstant?_eq_some_iff.mp hc
    exact List.mem_zipIdx_iff_getElem?.mp hmem
  · intro h
    exact ⟨(_, c.position), List.mem_zipIdx_iff_getElem?.mpr h,
      ofConstant?_eq_some_iff.mpr ⟨rfl, rfl⟩⟩

theorem pairwise_zipIdx (cs : List Constant) :
    cs.zipIdx.Pairwise fun p q => p.2 < q.2 := by
  have hrange : (cs.zipIdx.map Prod.snd).Pairwise (· < ·) := by
    rw [List.zipIdx_map_snd]
    exact List.pairwise_lt_range'
  exact List.pairwise_map.mp hrange

/-- The places of the recorded constants are in order. -/
theorem pairwise_position (cs : List Constant) :
    ((documentedOf cs).map DocumentedConstant.position).Pairwise (· < ·) := by
  rw [List.pairwise_map, documentedOf]
  refine (pairwise_zipIdx cs).filterMap _ ?_
  rintro ⟨a, i⟩ ⟨b, j⟩ hlt c hc d hd
  rw [(ofConstant?_eq_some_iff.mp hc).2, (ofConstant?_eq_some_iff.mp hd).2]
  exact hlt

/-- **The constants that are not recorded** are reported in order, one by one. -/
theorem exists_skipped (cs : List Constant) :
    ∃ skipped : List ℕ, skipped.Pairwise (· < ·) ∧
      (∀ i, i ∈ skipped ↔ i < cs.length ∧ ∀ c ∈ documentedOf cs, c.position ≠ i) ∧
      List.Forall₂ (fun i event => ∃ c, cs[i]? = some c ∧ c.doc = none ∧
        event = Event.constantSkipped c.name) skipped (Constant.events cs) := by
  have hevents : Constant.events cs =
      (cs.zipIdx.filter fun p => p.1.doc.isNone).map fun p => .constantSkipped p.1.name := by
    have hfilter : cs.filter (fun c => c.doc.isNone) =
        (cs.zipIdx.filter fun p => p.1.doc.isNone).map Prod.fst := by
      conv_lhs => rw [← List.zipIdx_map_fst 0 cs]
      rw [List.filter_map]
      rfl
    rw [Constant.events, undocumentedOf, hfilter, List.map_map, List.map_map]
    rfl
  refine ⟨(cs.zipIdx.filter fun p => p.1.doc.isNone).map Prod.snd, ?_, ?_, ?_⟩
  · exact List.pairwise_map.mpr ((pairwise_zipIdx cs).filter _)
  · intro i
    rw [List.mem_map]
    constructor
    · rintro ⟨⟨constant, i⟩, hmem, rfl⟩
      obtain ⟨hmem, hnone⟩ := List.mem_filter.mp hmem
      have hget := List.mem_zipIdx_iff_getElem?.mp hmem
      refine ⟨(List.getElem?_eq_some_iff.mp hget).1, ?_⟩
      intro c hc hposition
      have hrecorded := mem_documentedOf_iff.mp hc
      rw [hposition, hget] at hrecorded
      rw [Option.some.inj hrecorded] at hnone
      cases hnone
    · rintro ⟨hlt, hnot⟩
      have hget := List.getElem?_eq_getElem hlt
      refine ⟨(cs[i], i), List.mem_filter.mpr ⟨List.mem_zipIdx_iff_getElem?.mpr hget, ?_⟩, rfl⟩
      rw [Option.isNone_iff_eq_none, Option.eq_none_iff_forall_ne_some]
      intro comment hcomment
      -- a constant with a comment is recorded at its place
      refine hnot ⟨cs[i].name, cs[i].arguments, comment, i⟩ (mem_documentedOf_iff.mpr ?_) rfl
      rw [hget, ← hcomment]
  · rw [hevents, List.forall₂_map_left_iff, List.forall₂_map_right_iff, List.forall₂_same]
    rintro ⟨constant, i⟩ hmem
    obtain ⟨hmem, hnone⟩ := List.mem_filter.mp hmem
    exact ⟨constant, List.mem_zipIdx_iff_getElem?.mp hmem, Option.isNone_iff_eq_none.mp hnone, rfl⟩

end

/-- The comment of a constant is that of a closed documentation comment. -/
theorem Site.Shows.exists_comment {body text : Text} {s : Site} {c : Constant}
    (h : s.Shows body c) (hdoc : c.doc = some text) : ∃ t, IsComment body t text := by
  have hrel := h.doc
  rw [hdoc] at hrel
  generalize s.doc = span at hrel
  cases hrel with
  | some h =>
    obtain ⟨-, t, ht, -⟩ := h
    exact ⟨t, ht⟩

/-- **Every constant is accounted for.**  The recorded constants are in order, each as
it is declared at its place; all others have no comment and are reported in order.  The
comments, names and arguments of all constants stand in the body one behind the other,
and every recorded comment is that of a closed documentation comment. -/
theorem constants_accounted (body : Text) :
    ((documentedOf (Constant.ofBody body)).map DocumentedConstant.position).Pairwise (· < ·) ∧
    (∀ c ∈ documentedOf (Constant.ofBody body),
      (Constant.ofBody body)[c.position]? = some ⟨some c.comment, c.name, c.argument⟩) ∧
    (∃ skipped : List ℕ, skipped.Pairwise (· < ·) ∧
      (∀ i, i ∈ skipped ↔ i < (Constant.ofBody body).length ∧
        ∀ c ∈ documentedOf (Constant.ofBody body), c.position ≠ i) ∧
      List.Forall₂ (fun i event => ∃ c, (Constant.ofBody body)[i]? = some c ∧ c.doc = none ∧
          event = Event.constantSkipped c.name ∧
          event.message = "Skipping undocumented constant ".toList ++ c.name)
        skipped (Constant.events (Constant.ofBody body))) ∧
    (∃ sites : List Site, List.Forall₂ (Site.Shows body) sites (Constant.ofBody body) ∧
      (sites.flatMap Site.spans).Pairwise Span.Before) ∧
    ∀ c ∈ documentedOf (Constant.ofBody body), ∃ t ∈ lex body, t.kind = .docComment ∧
      t.text = "/**".toList ++ c.comment ++ "*/".toList ∧ ¬ "*/".toList <:+: c.comment := by
  obtain ⟨items, houtline⟩ := exists_outline (lex body)
  have hnone : ∀ d ∈ (none : Option Token), d.kind = .docComment := by simp
  obtain ⟨sites, hshows, horder⟩ := houtline.exists_sites hnone (List.Sublist.refl (lex body))
  obtain ⟨skipped, hskipped, hplaces, hevents⟩ := exists_skipped (Constant.ofBody body)
  refine ⟨pairwise_position _, fun c hc => mem_documentedOf_iff.mp hc,
    ⟨skipped, hskipped, hplaces, ?_⟩,
    ⟨sites, hshows, (horder 0 fun t _ => Nat.zero_le t.start).pairwise.1⟩, ?_⟩
  · refine hevents.imp ?_
    rintro i event ⟨c, hget, hnone, rfl⟩
    exact ⟨c, hget, hnone, rfl, rfl⟩
  · intro c hc
    have hmem := List.mem_of_getElem? (mem_documentedOf_iff.mp hc)
    obtain ⟨s, -, hs⟩ := exists_mem_of_forall₂ hshows.flip hmem
    obtain ⟨t, ht, hkind, htext, hopen⟩ := hs.exists_comment rfl
    exact ⟨t, ht, hkind, htext, hopen⟩

end EnumTables
