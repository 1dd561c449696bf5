/-
Paths that are texts, and paths that are not.

A path is shown as a text.  The path of a text is shown as that text.  Any other path
has bytes that are no UTF-8, and what is shown is the text of another path.  A slash or
a dot is never part of such bytes, so the path that is shown has its slashes and dots
where the path itself has them.

* **`Path.text_mk`**, **`Path.mk_text`** — the path of a text and the text of a path;
* **`Utf8.mem_encode_decodeLossy`** — bytes of ASCII in what is shown;
* **`Path.IsName.shown`** — a name is shown as a name.
-/
import EnumTables.Proofs.Path.Names
import EnumTables.Proofs.Text.Decoding

namespace EnumTables

/-! ### Bytes -/

namespace Utf8

/-- The bytes of a text. -/
theorem encode_append (cs ds : Text) : encode (cs ++ ds) = encode cs ++ encode ds :=
  List.flatMap_append

theorem encode_eq_nil {cs : Text} : encode cs = [] ↔ cs = [] := by
  constructor
  · intro h
    rw [← decodeLossy_encode cs, h]
    rfl
  · rintro rfl
    rfl

theorem encode_injective : Function.Injective encode :=
  Function.LeftInverse.injective decodeLossy_encode

/-- Bytes are those of the text they are shown as, if nothing in it stands for what is
not UTF-8. -/
theorem eq_encode_of_decodeLossy {bs : Bytes} {cs : Text} (h : decodeLossy bs = cs)
    (hcs : replacement ∉ cs) : bs = encode cs := by
  have hpieces : pieces bs = cs.map some := by
    have hsome : ∀ c? ∈ pieces bs, c? = some (c?.getD replacement) := by
      intro c? hc
      cases c? with
      | some c => rfl
      | none => exact absurd (h ▸ List.mem_map.mpr ⟨none, hc, rfl⟩) hcs
    rw [← h, decodeLossy, List.map_map]
    exact (List.map_id _).symm.trans (List.map_congr_left hsome)
  have hdecode : decode? bs = some cs := by
    rw [decode?, hpieces, ← pieces_encode, ← decode?, decode?_encode]
  exact decode?_eq_some_iff.mp hdecode

/-- **A byte of ASCII** stands in what is shown exactly if it is one of the bytes. -/
theorem mem_encode_decodeLossy {b : UInt8} (hb : b.toNat < 0x80) {bs : Bytes} :
    b ∈ encode (decodeLossy bs) ↔ b ∈ bs := by
  have h : Decodes bs (pieces bs) := decodes_pieces bs
  rw [decodeLossy]
  generalize pieces bs = ps at h
  induction h with
  | nil => rfl
  | char c h ih =>
    rw [List.map_cons, encode, List.flatMap_cons, List.mem_append, List.mem_append]
    exact or_congr_right ih
  | @invalid front rest ps hfront h ih =>
    -- neither an invalid piece nor what stands for it has such a byte
    have hpiece : b ∉ front := fun hmem => absurd (hfront.le_toNat b hmem) (by omega)
    have hreplacement : b ∉ String.utf8EncodeChar replacement := by
      have hbytes : (String.utf8EncodeChar replacement).all (fun e => decide (0x80 ≤ e.toNat)) := by
        decide
      intro hmem
      have hle : 0x80 ≤ b.toNat := of_decide_eq_true (List.all_eq_true.mp hbytes b hmem)
      omega
    rw [List.map_cons, encode, List.flatMap_cons, List.mem_append, List.mem_append]
    exact (or_iff_right hreplacement).trans (ih.trans (or_iff_right hpiece).symm)

end Utf8

/-! ### Paths -/

namespace Path

@[simp]
theorem text_mk (cs : Text) : (mk cs).text = cs :=
  Utf8.decodeLossy_encode cs

@[simp]
theorem isUtf8_mk (cs : Text) : (mk cs).isUtf8 = true := by
  rw [isUtf8, mk, Utf8.decode?_encode]
  rfl

/-- **The text of a path** that is one. -/
theorem mk_text {p : Path} (h : p.isUtf8 = true) : mk p.text = p := by
  obtain ⟨cs, hcs⟩ := Option.isSome_iff_exists.mp h
  obtain rfl : p = mk cs := congrArg ofBytes (Utf8.decode?_eq_some_iff.mp hcs)
  rw [text_mk]

theorem isUtf8_iff {p : Path} : p.isUtf8 = true ↔ ∃ cs, p = mk cs :=
  ⟨fun h => ⟨_, (mk_text h).symm⟩, fun ⟨cs, hcs⟩ => hcs ▸ isUtf8_mk cs⟩

theorem isUtf8_join {p q : Path} (hp : p.isUtf8 = true) (hq : q.isUtf8 = true) :
    (p.join q).isUtf8 = true := by
  obtain ⟨cs, rfl⟩ := isUtf8_iff.mp hp
  obtain ⟨ds, rfl⟩ := isUtf8_iff.mp hq
  rw [join]
  split
  · exact hq
  · split
    · exact isUtf8_iff.mpr ⟨cs ++ ds, congrArg ofBytes (Utf8.encode_append cs ds).symm⟩
    · exact isUtf8_iff.mpr
        ⟨cs ++ '/' :: ds, congrArg ofBytes (Utf8.encode_append cs ('/' :: ds)).symm⟩

/-- **A name is shown as a name.** -/
theorem IsName.shown {name : Bytes} (h : IsName name) :
    IsName (Utf8.encode (Utf8.decodeLossy name)) := by
  have hne (cs : Text) (hcs : Utf8.replacement ∉ cs) (hname : name ≠ Utf8.encode cs) :
      Utf8.encode (Utf8.decodeLossy name) ≠ Utf8.encode cs := fun heq =>
    hname (Utf8.eq_encode_of_decodeLossy (Utf8.encode_injective heq) hcs)
  exact ⟨hne [] (by decide) h.ne_nil, hne ['.'] (by decide) h.ne_dot,
    hne ['.', '.'] (by decide) h.ne_dots,
    fun hslash => h.no_slash ((Utf8.mem_encode_decodeLossy (by decide)).mp hslash)⟩

end Path

end EnumTables
