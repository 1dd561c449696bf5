/-
A text in which one token is replaced.

Another token of the same class is put in the place of a token.  The tokens in
front end as they did, because the new token starts with the same character, and
those behind are read off the same text.  So one token has changed, and those
behind it have moved.

* **`exists_cuts_of_getElem?`** — where a token of a text is cut;
* **`Text.replaceSpan`** — a text with another piece between two positions;
* **`Token.move`** — a token behind a piece that ends elsewhere;
* **`cuts_of_head_lex`** — the first token of a text is cut off it;
* **`lex_replaceSpan`** — the tokens of the new text.
-/
import EnumTables.Proofs.Declaration.Body

namespace EnumTables

/-- The text with `u` in place of what stands between two byte positions. -/
def Text.replaceSpan (src : Text) (start stop : Nat) (u : Text) : Text :=
  takeBytes start src ++ (u ++ dropBytes stop src)

theorem Text.replaceSpan_append (a w b u : Text) :
    replaceSpan (a ++ (w ++ b)) (size a) (size a + size w) u = a ++ (u ++ b) := by
  have hdrop : dropBytes (size a + size w) (a ++ (w ++ b)) = b := by
    rw [← size_append, ← List.append_assoc, dropBytes_append]
  rw [replaceSpan, takeBytes_append, hdrop]

/-- The token behind a piece of text that ends at `n` in place of `m`. -/
def Token.move (m n : Nat) (t : Token) : Token :=
  ⟨t.kind, t.text, n + (t.start - m), n + (t.stop - m)⟩

theorem Token.move_shift (m n : Nat) (t : Token) : (t.shift m).move m n = t.shift n := by
  simp only [move, shift, Nat.add_sub_cancel_left]

/-- **Where a token of a text is cut.**  The tokens in front of it are those of
the text in front, and the tokens behind it those of the rest. -/
theorem exists_cuts_of_getElem? {src : Text} {i : Nat} {t : Token} (h : (lex src)[i]? = some t) :
    ∃ a c w k rest, src = a ++ (c :: w ++ rest) ∧ Seam a (c :: w ++ rest) ∧
      isBlank c = false ∧ Lexer.Cuts c w k rest ∧ t = Token.atByte (Text.size a) k (c :: w) ∧
      lex a = (lex src).take i ∧
      lexFrom (Text.size a + Text.size (c :: w)) rest = (lex src).drop (i + 1) := by
  obtain ⟨a, b, rfl, hseam, ha, hstart, hb⟩ := exists_seam_before (split_of_getElem? h)
  rw [Nat.zero_add] at hstart hb
  cases Lexer.begins b with
  | blank gap hgap =>
    rw [lexFrom_of_blank hgap] at hb
    cases hb
  | token gap c w k rest hgap hc hcuts =>
    rw [lexFrom_token hgap hc hcuts] at hb
    obtain ⟨rfl, hrest⟩ := List.cons.inj hb
    -- the piece in front ends where the token starts, so there is no gap
    obtain rfl : gap = [] := by
      by_contra hne
      have hpos := Text.size_pos_of_ne_nil hne
      simp only [Token.atByte] at hstart
      omega
    exact ⟨a, c, w, k, rest, rfl, hseam, hc, hcuts, rfl, ha, hrest⟩

/-- The first token of a text is cut off it. -/
theorem cuts_of_head_lex {c : Char} {w rest : Text} {v : Token} {vs : List Token}
    (hc : isBlank c = false) (h : lex (c :: (w ++ rest)) = v :: vs) (hv : v.text = c :: w) :
    Lexer.Cuts c w v.kind rest := by
  obtain ⟨w', k, rest', hsplit, hcuts⟩ := Lexer.exists_cuts c (w ++ rest)
  rw [lex, hsplit, lexFrom_cuts hc hcuts] at h
  obtain ⟨rfl, -⟩ := List.cons.inj h
  obtain rfl : w' = w := (List.cons.inj hv).2
  rwa [List.append_cancel_left hsplit]

/-- **The tokens of a text in which one token is replaced** by one of the same
class that starts with the same character. -/
theorem lex_replaceSpan {src u : Text} {i : Nat} {t v : Token} {vs : List Token}
    (ht : (lex src)[i]? = some t) (hhead : u.head? = t.text.head?)
    (hfirst : lex (u ++ Text.dropBytes t.stop src) = v :: vs) (hkind : v.kind = t.kind)
    (htext : v.text = u) :
    lex (src.replaceSpan t.start t.stop u) =
      (lex src).take i ++ Token.atByte t.start t.kind u ::
        ((lex src).drop (i + 1)).map (Token.move t.stop (t.start + Text.size u)) := by
  obtain ⟨a, c, w, k, rest, hsrc, hseam, hc, -, rfl, hfront, hback⟩ := exists_cuts_of_getElem? ht
  dsimp only [Token.atByte] at hhead hfirst hkind ⊢
  obtain ⟨w', rfl⟩ := List.head?_eq_some_iff.mp hhead
  have hdrop : Text.dropBytes (Text.size a + Text.size (c :: w)) src = rest := by
    rw [← Text.size_append, hsrc, ← List.append_assoc, Text.dropBytes_append]
  have hreplaced : src.replaceSpan (Text.size a) (Text.size a + Text.size (c :: w)) (c :: w') =
      a ++ c :: (w' ++ rest) := by
    rw [hsrc, Text.replaceSpan_append]
    rfl
  have hcuts : Lexer.Cuts c w' k rest := by
    rw [hdrop] at hfirst
    exact hkind ▸ cuts_of_head_lex hc hfirst htext
  -- the text in front sees the first character of the token only
  have hseam' : Seam a (c :: (w' ++ rest)) := hseam.of_startsLike (Text.startsLike_cons c _ _)
  rw [hreplaced, lex, hseam', Nat.zero_add, lexFrom_cuts hc hcuts, ← hback, ← hfront]
  refine congrArg (fun ts => lex a ++ Token.atByte (Text.size a) k (c :: w') :: ts) ?_
  rw [lexFrom_eq_map_lex, lexFrom_eq_map_lex, List.map_map]
  exact List.map_congr_left fun x _ => (Token.move_shift _ _ x).symm

end EnumTables
