/-
What belongs to a constant.

The constants of a body are the names at its top level in front of the first
semicolon there.  Each of them is declared at a place of the outline, and its
comment and its arguments are found from that place: the comment before it, with
nothing in between but ordinary comments and annotations, and the argument list
right behind it.

* **`Documents`**, **`IsName`**, **`Declares`** — the places of a comment and of a
  name, and what is declared there;
* **`documents_append_iff`** — what is decided before a place;
* **`Outline.declaredFrom`** — the reader of constants, from any place on;
* **`constants_attached`** — the constants of a body.
-/
import EnumTables.Proofs.Constant.Outline

namespace EnumTables

/-- At place `i` stands a documentation comment, and between it and place `j`
nothing but ordinary comments and annotations. -/
structure Documents (items : List Item) (i j : Nat) (comment : Item) : Prop where
  lt : i < j
  get : items[i]? = some comment
  kind : comment.token.kind = .docComment
  between : ∀ k item, i < k → k < j → items[k]? = some item →
    item.token.kind = .comment ∨ item.token.kind = .at

/-- At place `j` stands a name, and no semicolon before it. -/
def IsName (items : List Item) (j : Nat) : Prop :=
  (∃ item, items[j]? = some item ∧ item.token.kind = .ident) ∧
    ∀ i item, i < j → items[i]? = some item → item.token.kind ≠ .semicolon

/-- The constant is declared by the name at place `j`. -/
structure Declares (body : Text) (items : List Item) (j : Nat) (c : Constant) : Prop where
  name : ∃ item, items[j]? = some item ∧ c.name = item.token.text
  doc : ∀ d, c.doc = some d ↔
    ∃ i comment, Documents items i j comment ∧ d = Comment.inner comment.token.text
  arguments : ∀ item, items[j]? = some item → ∀ a, c.arguments = some a ↔
    ∃ list rest, Group .openParen .closeParen item.after (some list) rest ∧ a = groupText body list

/-- `doc` is the comment that waits for a name behind the items. -/
def Waits (front : List Item) (doc : Option Text) : Prop :=
  ∀ d, doc = some d ↔ ∃ i comment, Documents front i front.length comment ∧
    d = Comment.inner comment.token.text

section

variable {front back : List Item} {item comment : Item} {doc : Option Text} {i j : Nat}

/-- Where a comment belongs is decided by the items in front. -/
theorem documents_append_iff (back : List Item) (hj : j ≤ front.length) :
    Documents (front ++ back) i j comment ↔ Documents front i j comment := by
  have hget : ∀ k, k < j → (front ++ back)[k]? = front[k]? := by
    intro k hk
    exact List.getElem?_append_left (by omega)
  constructor
  · intro h
    refine ⟨h.lt, (hget i h.lt).symm.trans h.get, h.kind, ?_⟩
    intro k other hik hkj hk
    exact h.between k other hik hkj ((hget k hkj).trans hk)
  · intro h
    refine ⟨h.lt, (hget i h.lt).trans h.get, h.kind, ?_⟩
    intro k other hik hkj hk
    exact h.between k other hik hkj ((hget k hkj).symm.trans hk)

/-- Behind one more item the waiting comment is that item, or it waited before
and the item lets it pass. -/
theorem documents_concat_iff :
    Documents (front ++ [item]) i (front ++ [item]).length comment ↔
      (i = front.length ∧ comment = item ∧ item.token.kind = .docComment) ∨
      ((item.token.kind = .comment ∨ item.token.kind = .at) ∧
        Documents front i front.length comment) := by
  have hlast : (front ++ [item])[front.length]? = some item := by
    rw [List.getElem?_append_right (Nat.le_refl _), Nat.sub_self]
    rfl
  rw [List.length_append, List.length_singleton]
  constructor
  · intro h
    have hlt := h.lt
    rcases Nat.lt_or_ge i front.length with hi | hi
    · have hpass := h.between front.length item hi (by omega) hlast
      refine .inr ⟨hpass, (documents_append_iff [item] (Nat.le_refl _)).mp ⟨hi, h.get, h.kind, ?_⟩⟩
      intro k other hik hk
      exact h.between k other hik (by omega)
    · obtain rfl : i = front.length := by omega
      obtain rfl := Option.some.inj (hlast.symm.trans h.get)
      exact .inl ⟨rfl, rfl, h.kind⟩
  · rintro (⟨rfl, rfl, hkind⟩ | ⟨hpass, h⟩)
    · refine ⟨by omega, hlast, hkind, ?_⟩
      intro k other hik hk
      omega
    · obtain ⟨hlt, hget, hkind, hbetween⟩ :=
        (documents_append_iff [item] (Nat.le_refl _)).mpr h
      refine ⟨by omega, hget, hkind, ?_⟩
      intro k other hik hk hother
      rcases Nat.lt_or_ge k front.length with hk' | hk'
      · exact hbetween k other hik hk' hother
      · obtain rfl : k = front.length := by omega
        obtain rfl := Option.some.inj (hlast.symm.trans hother)
        exact hpass

/-! ### The waiting comment, item by item -/

theorem waits_nil : Waits [] none := by
  intro d
  refine iff_of_false (by simp) ?_
  rintro ⟨i, comment, h, -⟩
  exact absurd h.lt (Nat.not_lt_zero i)

theorem waits_docComment (hkind : item.token.kind = .docComment) :
    Waits (front ++ [item]) (some (Comment.inner item.token.text)) := by
  intro d
  constructor
  · intro hd
    exact ⟨_, item, documents_concat_iff.mpr (.inl ⟨rfl, rfl, hkind⟩), (Option.some.inj hd).symm⟩
  · rintro ⟨i, comment, h, rfl⟩
    rcases documents_concat_iff.mp h with ⟨-, rfl, -⟩ | ⟨hpass, -⟩
    · rfl
    · rw [hkind] at hpass
      exact absurd hpass (by decide)

theorem Waits.pass (h : Waits front doc)
    (hkind : item.token.kind = .comment ∨ item.token.kind = .at) : Waits (front ++ [item]) doc := by
  intro d
  rw [h d]
  refine exists_congr fun i => exists_congr fun comment => and_congr_left' ?_
  rw [documents_concat_iff, and_iff_right hkind]
  refine (or_iff_right ?_).symm
  rintro ⟨-, -, hdoc⟩
  rw [hdoc] at hkind
  exact absurd hkind (by decide)

theorem waits_none (hdoc : item.token.kind ≠ .docComment) (hcomment : item.token.kind ≠ .comment)
    (hat : item.token.kind ≠ .at) : Waits (front ++ [item]) none := by
  intro d
  refine iff_of_false (by simp) ?_
  rintro ⟨i, comment, h, -⟩
  rcases documents_concat_iff.mp h with ⟨-, -, hkind⟩ | ⟨hkind | hkind, -⟩
  · exact hdoc hkind
  · exact hcomment hkind
  · exact hat hkind

/-- The comment that waits behind one more item. -/
theorem Waits.concat (h : Waits front doc) :
    Waits (front ++ [item]) (item.token.waiting doc) := by
  by_cases hdoc : item.token.kind = .docComment
  · rw [Token.waiting, hdoc]
    exact waits_docComment hdoc
  by_cases hcomment : item.token.kind = .comment
  · rw [Token.waiting, hcomment]
    exact h.pass (.inl hcomment)
  by_cases hat : item.token.kind = .at
  · rw [Token.waiting, hat]
    exact h.pass (.inr hat)
  · have hnone : item.token.waiting doc = none := by
      rw [Token.waiting]
      split <;> simp_all
    rw [hnone]
    exact waits_none hdoc hcomment hat

/-- A comment documents at most one name. -/
theorem Documents.le_of_isName {items : List Item} {j' : Nat} {comment' : Item}
    (h : Documents items i j comment) (h' : Documents items i j' comment')
    (hname : IsName items j) : j' ≤ j := by
  by_contra hlt
  obtain ⟨⟨item, hget, hkind⟩, -⟩ := hname
  have hpass := h'.between j item h.lt (by omega) hget
  rw [hkind] at hpass
  exact absurd hpass (by decide)

/-! ### The constants, item by item -/

/-- The places of the names from the end of `front` on, and the constants that
are declared there. -/
def DeclaredFrom (body : Text) (front items : List Item) (cs : List Constant) : Prop :=
  ∃ places : List Nat, places.Pairwise (· < ·) ∧
    (∀ j, j ∈ places ↔ front.length ≤ j ∧ IsName (front ++ items) j) ∧
    List.Forall₂ (Declares body (front ++ items)) places cs

variable {body : Text} {items : List Item} {cs : List Constant}

theorem getElem?_front : (front ++ item :: back)[front.length]? = some item := by
  rw [List.getElem?_append_right (Nat.le_refl _), Nat.sub_self]
  rfl

theorem declaredFrom_nil : DeclaredFrom body front [] [] := by
  refine ⟨[], .nil, ?_, .nil⟩
  intro j
  refine iff_of_false List.not_mem_nil ?_
  rintro ⟨hle, ⟨item, hget, -⟩, -⟩
  rw [List.append_nil, List.getElem?_eq_none hle] at hget
  exact absurd hget (by simp)

/-- Behind a semicolon stand no names. -/
theorem declaredFrom_semicolon (hkind : item.token.kind = .semicolon) :
    DeclaredFrom body front (item :: items) [] := by
  refine ⟨[], .nil, ?_, .nil⟩
  intro j
  refine iff_of_false List.not_mem_nil ?_
  rintro ⟨hle, ⟨other, hget, hident⟩, hopen⟩
  rcases Nat.eq_or_lt_of_le hle with rfl | hlt
  · obtain rfl := Option.some.inj (getElem?_front.symm.trans hget)
    exact absurd (hkind.symm.trans hident) (by decide)
  · exact hopen front.length item hlt getElem?_front hkind

/-- An item that is no name has no place. -/
theorem DeclaredFrom.skip (h : DeclaredFrom body (front ++ [item]) items cs)
    (hkind : item.token.kind ≠ .ident) : DeclaredFrom body front (item :: items) cs := by
  obtain ⟨places, hpairwise, hplaces, hdeclares⟩ := h
  rw [List.append_assoc, List.singleton_append] at hplaces hdeclares
  refine ⟨places, hpairwise, ?_, hdeclares⟩
  intro j
  rw [hplaces j, List.length_append, List.length_singleton]
  refine and_congr_left ?_
  rintro ⟨⟨other, hget, hident⟩, -⟩
  constructor
  · omega
  · intro hle
    rcases Nat.eq_or_lt_of_le hle with rfl | hlt
    · obtain rfl := Option.some.inj (getElem?_front.symm.trans hget)
      exact absurd hident hkind
    · exact hlt

/-- A name declares the next constant. -/
theorem DeclaredFrom.name (h : DeclaredFrom body (front ++ [item]) items cs)
    (hkind : item.token.kind = .ident) (hopen : ∀ other ∈ front, other.token.kind ≠ .semicolon)
    (hdoc : Waits front doc) {arguments : Option (Token × Option Token)} {rest : List Token}
    (harguments : Group .openParen .closeParen item.after arguments rest) :
    DeclaredFrom body front (item :: items)
      (⟨doc, item.token.text, arguments.map (groupText body)⟩ :: cs) := by
  obtain ⟨places, hpairwise, hplaces, hdeclares⟩ := h
  rw [List.append_assoc, List.singleton_append] at hplaces hdeclares
  have hname : IsName (front ++ item :: items) front.length := by
    refine ⟨⟨item, getElem?_front, hkind⟩, ?_⟩
    intro i other hi hget
    rw [List.getElem?_append_left hi] at hget
    exact hopen other (List.mem_of_getElem? hget)
  refine ⟨front.length :: places, ?_, ?_, ?_⟩
  · refine List.pairwise_cons.mpr ⟨?_, hpairwise⟩
    intro j hj
    have hle := ((hplaces j).mp hj).1
    rwa [List.length_append, List.length_singleton] at hle
  · intro j
    rw [List.mem_cons, hplaces j, List.length_append, List.length_singleton]
    constructor
    · rintro (rfl | ⟨hle, h⟩)
      · exact ⟨Nat.le_refl _, hname⟩
      · exact ⟨by omega, h⟩
    · rintro ⟨hle, h⟩
      rcases Nat.eq_or_lt_of_le hle with rfl | hlt
      · exact .inl rfl
      · exact .inr ⟨hlt, h⟩
  · refine .cons ⟨⟨item, getElem?_front, rfl⟩, ?_, ?_⟩ hdeclares
    · intro d
      rw [hdoc d]
      simp only [documents_append_iff _ (Nat.le_refl front.length)]
    · intro other hget a
      obtain rfl := Option.some.inj (getElem?_front.symm.trans hget)
      constructor
      · intro ha
        obtain ⟨list, rfl, rfl⟩ := Option.map_eq_some_iff.mp ha
        exact ⟨list, rest, harguments, rfl⟩
      · rintro ⟨list, rest', hlist, rfl⟩
        -- the reader of arguments returns the same text for both groups
        exact (Prod.mk.inj ((harguments.readArguments_eq body).symm.trans
          (hlist.readArguments_eq body))).1

theorem ne_semicolon_concat (hopen : ∀ other ∈ front, other.token.kind ≠ .semicolon)
    (hkind : item.token.kind ≠ .semicolon) :
    ∀ other ∈ front ++ [item], other.token.kind ≠ .semicolon := by
  intro other hother
  rcases List.mem_append.mp hother with hfront | hitem
  · exact hopen other hfront
  · rwa [List.mem_singleton.mp hitem]

/-- **The reader of constants goes along the outline.**  `front` are the items
already read, and `doc` is the comment that waits behind them. -/
theorem Outline.declaredFrom {ts : List Token} (h : Outline ts items)
    (hopen : ∀ other ∈ front, other.token.kind ≠ .semicolon) (hdoc : Waits front doc) :
    DeclaredFrom body front items (Constant.ofTokens body doc ts) := by
  induction h generalizing front doc with
  | nil =>
    rw [Constant.ofTokens]
    exact declaredFrom_nil
  | @annotated t ts rest items ht h _ ih =>
    rw [Constant.ofTokens_at ht, h.annotationRest_eq]
    have hne : t.kind ≠ .semicolon ∧ t.kind ≠ .ident := by simp [ht]
    exact (ih (ne_semicolon_concat hopen hne.1) (hdoc.pass (.inr ht))).skip hne.2
  | @constant t ts mid rest arguments classBody items ht harguments hbody _ ih =>
    rw [Constant.ofTokens_ident ht, harguments.readArguments_eq, hbody.classBodyRest_eq]
    have hne : t.kind ≠ .semicolon := by simp [ht]
    -- a name takes the waiting comment
    have hnone : Waits (front ++ [⟨t, ts⟩]) none :=
      waits_none (by simp [ht]) (by simp [ht]) (by simp [ht])
    exact (ih (ne_semicolon_concat hopen hne) hnone).name ht hopen hdoc harguments
  | @other t ts items hat hident _ ih =>
    by_cases hsemicolon : t.kind = .semicolon
    · rw [Constant.ofTokens_semicolon hsemicolon]
      exact declaredFrom_semicolon hsemicolon
    · rw [Constant.ofTokens_waiting hat hident hsemicolon]
      exact (ih (ne_semicolon_concat hopen hsemicolon) hdoc.concat).skip hident

end

/-- **Comments and arguments belong to the constant they stand at.**  A body has
one outline.  Its constants are the names there in front of the first semicolon,
in order, each with the documentation comment that belongs to its place and the
argument list behind it; no comment belongs to two of them. -/
theorem constants_attached (body : Text) :
    ∃ items, Outline (lex body) items ∧ (∀ items', Outline (lex body) items' → items' = items) ∧
      ∃ places : List Nat, places.Pairwise (· < ·) ∧
        (∀ j, j ∈ places ↔ IsName items j) ∧
        List.Forall₂ (Declares body items) places (Constant.ofBody body) ∧
        ∀ i, ∀ j ∈ places, ∀ j' ∈ places, ∀ comment comment',
          Documents items i j comment → Documents items i j' comment' → j = j' := by
  obtain ⟨items, h⟩ := exists_outline (lex body)
  have hopen : ∀ other ∈ ([] : List Item), other.token.kind ≠ .semicolon :=
    fun other hother => absurd hother List.not_mem_nil
  obtain ⟨places, hpairwise, hplaces, hdeclares⟩ := h.declaredFrom hopen waits_nil
  have hname : ∀ j, j ∈ places ↔ IsName items j := by
    intro j
    rw [hplaces j]
    exact and_iff_right (Nat.zero_le j)
  refine ⟨items, h, fun items' h' => h.unique h', places, hpairwise, hname, hdeclares, ?_⟩
  intro i j hj j' hj' comment comment' hdoc hdoc'
  exact Nat.le_antisymm (hdoc'.le_of_isName hdoc ((hname j').mp hj'))
    (hdoc.le_of_isName hdoc' ((hname j).mp hj))

end EnumTables
