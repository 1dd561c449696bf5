/-
Reading a source file in the wrong encoding.

Reading never fails on bytes that are no text.  It reports them and decodes what it
can, and since no brace, quote or end of line is part of an invalid piece, all of them
stay where they are.

* **`Run.readSource_decodes`** — what is read from any content;
* **`LatinOne.text_of_latinOne`** — a file in another encoding.
-/
import EnumTables.Proofs.Run.Steps
import EnumTables.Proofs.Text.Decoding

namespace EnumTables

/-- **A source file that can be read is read**, whatever its bytes are.

The bytes of a text give that text without a report.  Any others give one report, a
warning, and a text with U+FFFD for each maximal invalid piece.  The characters of ASCII in
the text are the bytes of ASCII, in their order, and the bytes of a text in front of the
content or behind it are decoded as that text, with the same for the rest. -/
theorem Run.readSource_decodes {w : World} {path : Path} {content : List UInt8}
    (h : w.files.readFile path = .ok content) :
    ∃ file events, readSource path w = .ok file ⟨w.files, w.log ++ events⟩ ∧
      file.text = Utf8.decodeLossy content ∧
      (∀ cs, content = Utf8.encode cs → file.text = cs ∧ events = []) ∧
      ((∀ cs, content ≠ Utf8.encode cs) → ∃ warning : Event, events = [warning] ∧
        warning.level = .warn ∧
        warning.message = path.text ++ " is not valid UTF-8, decoding lossily".toList) ∧
      (∃ ps, (∀ qs, Utf8.Decodes content qs ↔ qs = ps) ∧
        file.text = ps.map fun c? => c?.getD Utf8.replacement) ∧
      file.text.filter (·.toNat < 0x80) =
        (content.filter (·.toNat < 0x80)).map (Char.ofNat ·.toNat) ∧
      ∀ cs, Utf8.decodeLossy (Utf8.encode cs ++ content) = cs ++ file.text ∧
        Utf8.decodeLossy (content ++ Utf8.encode cs) = file.text ++ cs := by
  have htext : (Utf8.decode? content).getD (Utf8.decodeLossy content) =
      Utf8.decodeLossy content := by
    cases hdecode : Utf8.decode? content with
    | none => rfl
    | some cs =>
      rw [Utf8.decode?_eq_some_iff.mp hdecode, Utf8.decodeLossy_encode]
      rfl
  refine ⟨_, _, readSource_of_readFile h, htext, ?_, ?_, ?_, ?_, ?_⟩
  · intro cs hcontent
    rw [Utf8.decode?_eq_some_iff.mpr hcontent]
    exact ⟨rfl, rfl⟩
  · intro hcontent
    have hdecode : Utf8.decode? content = none :=
      Option.eq_none_iff_forall_ne_some.mpr fun cs hcs =>
        hcontent cs (Utf8.decode?_eq_some_iff.mp hcs)
    rw [hdecode]
    exact ⟨.notUtf8 path, rfl, rfl, rfl⟩
  · refine ⟨Utf8.pieces content, fun qs => ⟨Utf8.Decodes.eq_pieces, ?_⟩, htext⟩
    rintro rfl
    exact Utf8.decodes_pieces content
  · dsimp only
    rw [htext, Utf8.filter_decodeLossy]
  · intro cs
    dsimp only
    rw [htext]
    exact ⟨Utf8.decodeLossy_encode_append cs content, Utf8.decodeLossy_append_encode content cs⟩

namespace LatinOne

/-- A source file with a letter that is one byte in Latin-1, and begins a character of three
bytes in UTF-8. -/
def world : World where
  files := { entries := [(["L.java".toList], .file [0x7B, 0xE9, 0x7D])], workDir := [] }
  log := []

theorem readFile_world :
    world.files.readFile (.ofString "L.java") = .ok [0x7B, 0xE9, 0x7D] := by
  decide +kernel

/-- The brace behind the letter is not lost. -/
theorem text_of_latinOne :
    ∃ file warning, Run.readSource (.ofString "L.java") world =
        .ok file ⟨world.files, [warning]⟩ ∧
      warning.level = .warn ∧ file.text = ['{', Utf8.replacement, '}'] := by
  obtain ⟨file, events, hread, htext, -, hwarning, -⟩ :=
    Run.readSource_decodes readFile_world
  have hinvalid (cs : Text) : ([0x7B, 0xE9, 0x7D] : List UInt8) ≠ Utf8.encode cs := by
    intro h
    have hdecode : Utf8.decode? [0x7B, 0xE9, 0x7D] = some cs := Utf8.decode?_eq_some_iff.mpr h
    have hnone : Utf8.decode? [0x7B, 0xE9, 0x7D] = none := by decide
    rw [hnone] at hdecode
    cases hdecode
  obtain ⟨warning, rfl, hlevel, -⟩ := hwarning hinvalid
  exact ⟨file, warning, hread, hlevel, htext.trans (by decide)⟩

end LatinOne

end EnumTables
