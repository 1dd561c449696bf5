/-
Reading with saved positions.

A reader of tokens asks for one token after the other, looks ahead, skips groups,
saves its position and goes back.  Whatever it asks for and in whatever order, each
of its positions is a suffix of one list, the tokens of the whole text.  So a reader
on a cursor and the same reader on that list get the same answers.

* **`Reader`** is what can be asked of a position, **`Session`** a position with the
  positions that were saved; **`Cursor.reader`** and **`Reader.ofTokens`** are the two
  readers;
* **`Request.Answered`** says what each request does to the tokens still to come;
* **`Reader.View`** is a view of the positions of one reader as those of another, and
  **`View.run`** carries it through a sequence of requests;
* **`Procedure`** is a function that reads tokens, and **`View.perform`** says that it
  cannot tell the two readers apart;
* **`cursor_reads_tokens`** — all of this for a text.
-/
import EnumTables.Proofs.Constant.Streamed
import EnumTables.Proofs.Declaration.Streamed

namespace EnumTables

/-- What can be asked of a reader of tokens. -/
inductive Request where
  | next
  | nextSignificant
  | peekSignificant
  | closeGroup (opener closer : TokenKind)
  | save
  | restore
  deriving DecidableEq, Repr

/-- How tokens are read from a position. -/
structure Reader (σ : Type) where
  next : σ → Option Token × σ
  nextSignificant : σ → Option Token × σ
  peekSignificant : σ → Option Token
  closeGroup : TokenKind → TokenKind → σ → Option Token × σ

/-- A position, and the positions that were saved, the last one first. -/
structure Session (σ : Type) where
  here : σ
  saved : List σ
  deriving DecidableEq, Repr

namespace Session

variable {σ τ : Type}

/-- A session at a position, with nothing saved. -/
def start (c : σ) : Session σ :=
  ⟨c, []⟩

/-- All positions of a session. -/
def positions (s : Session σ) : List σ :=
  s.here :: s.saved

def map (view : σ → τ) (s : Session σ) : Session τ :=
  ⟨view s.here, s.saved.map view⟩

theorem positions_map (view : σ → τ) (s : Session σ) :
    (s.map view).positions = s.positions.map view := rfl

end Session

/-- Reading a text on demand. -/
def Cursor.reader : Reader Cursor where
  next := Cursor.next
  nextSignificant := Cursor.nextSignificant
  peekSignificant := Cursor.peekSignificant
  closeGroup := Cursor.closeGroup

namespace Reader

/-- Reading a list of tokens. -/
def ofTokens : Reader (List Token) where
  next ts := (ts.head?, ts.tail)
  nextSignificant := readSignificant
  peekSignificant ts := (readSignificant ts).1
  closeGroup opener closer := EnumTables.closeGroup opener closer 0

variable {σ τ : Type}

/-- The token that a request returns, if it returns one, and the session after it.
Going back to a saved position uses it up; without one nothing happens. -/
def answer (R : Reader σ) : Request → Session σ → Option Token × Session σ
  | .next, s => ((R.next s.here).1, ⟨(R.next s.here).2, s.saved⟩)
  | .nextSignificant, s => ((R.nextSignificant s.here).1, ⟨(R.nextSignificant s.here).2, s.saved⟩)
  | .peekSignificant, s => (R.peekSignificant s.here, s)
  | .closeGroup opener closer, s =>
    ((R.closeGroup opener closer s.here).1, ⟨(R.closeGroup opener closer s.here).2, s.saved⟩)
  | .save, s => (none, ⟨s.here, s.here :: s.saved⟩)
  | .restore, ⟨c, []⟩ => (none, ⟨c, []⟩)
  | .restore, ⟨_, d :: saved⟩ => (none, ⟨d, saved⟩)

/-- The session after a sequence of requests. -/
def run (R : Reader σ) : List Request → Session σ → Session σ
  | [], s => s
  | request :: requests, s => R.run requests (R.answer request s).2

end Reader

/-- What a request does to the tokens still to come: `Answered request s t? s'` if
it returns `t?` and leads from the session `s` to `s'`. -/
inductive Request.Answered :
    Request → Session (List Token) → Option Token → Session (List Token) → Prop
  /-- One token is dropped. -/
  | next {t : Token} {ts : List Token} {saved : List (List Token)} :
      Answered .next ⟨t :: ts, saved⟩ (some t) ⟨ts, saved⟩
  | next_nil {saved : List (List Token)} : Answered .next ⟨[], saved⟩ none ⟨[], saved⟩
  /-- Everything is dropped through the first token that is not a comment. -/
  | nextSignificant {comments rest : List Token} {t : Token} {saved : List (List Token)}
      (hcomments : ∀ u ∈ comments, u.kind.isComment = true) (ht : t.kind.isComment = false) :
      Answered .nextSignificant ⟨comments ++ t :: rest, saved⟩ (some t) ⟨rest, saved⟩
  | nextSignificant_nil {comments : List Token} {saved : List (List Token)}
      (hcomments : ∀ u ∈ comments, u.kind.isComment = true) :
      Answered .nextSignificant ⟨comments, saved⟩ none ⟨[], saved⟩
  /-- The same token is returned, and nothing is dropped. -/
  | peekSignificant {s s' : Session (List Token)} {t? : Option Token}
      (h : Answered .nextSignificant s t? s') : Answered .peekSignificant s t? s
  /-- Everything is dropped through the closer. -/
  | closeGroup {opener closer : TokenKind} {inner rest : List Token} {t : Token}
      {saved : List (List Token)} (hne : opener ≠ closer) (hinner : Balanced opener closer inner)
      (ht : t.kind = closer) :
      Answered (.closeGroup opener closer) ⟨inner ++ t :: rest, saved⟩ (some t) ⟨rest, saved⟩
  /-- A group that is never closed takes all tokens; one whose opener closes too is
  never closed. -/
  | closeGroup_nil {opener closer : TokenKind} {ts : List Token} {saved : List (List Token)}
      (h : opener ≠ closer → Nested opener closer 0 ts) :
      Answered (.closeGroup opener closer) ⟨ts, saved⟩ none ⟨[], saved⟩
  | save {ts : List Token} {saved : List (List Token)} :
      Answered .save ⟨ts, saved⟩ none ⟨ts, ts :: saved⟩
  /-- The position that was saved last is taken up again. -/
  | restore {ts us : List Token} {saved : List (List Token)} :
      Answered .restore ⟨ts, us :: saved⟩ none ⟨us, saved⟩
  | restore_nil {ts : List Token} : Answered .restore ⟨ts, []⟩ none ⟨ts, []⟩

/-! ### Requests on a list of tokens -/

theorem readSignificant_comments {comments : List Token}
    (hcomments : ∀ u ∈ comments, u.kind.isComment = true) (ts : List Token) :
    readSignificant (comments ++ ts) = readSignificant ts := by
  induction comments with
  | nil => rfl
  | cons u us ih =>
    have hu : ¬ u.isSignificant = true := by
      rw [Token.isSignificant, hcomments u List.mem_cons_self]
      decide
    rw [List.cons_append, readSignificant_cons, if_neg hu,
      ih fun v hv => hcomments v (List.mem_cons_of_mem u hv)]

/-- A group whose opener closes too is never closed. -/
theorem closeGroup_self (k : TokenKind) (depth : Nat) (ts : List Token) :
    closeGroup k k depth ts = (none, []) := by
  induction ts generalizing depth with
  | nil => rw [closeGroup]
  | cons t ts ih =>
    by_cases ht : t.kind = k
    · rw [closeGroup_cons_opener ht, ih]
    · rw [closeGroup_cons_other ht ht, ih]

namespace Request

/-- A request has one answer, and a list of tokens gives it. -/
theorem Answered.answer_eq {request : Request} {s s' : Session (List Token)} {t? : Option Token}
    (h : Answered request s t? s') : Reader.ofTokens.answer request s = (t?, s') := by
  induction h with
  | next => rfl
  | next_nil => rfl
  | @nextSignificant comments rest t saved hcomments ht =>
    have hread : readSignificant (comments ++ t :: rest) = (some t, rest) := by
      rw [readSignificant_comments hcomments, readSignificant_cons, Token.isSignificant, ht]
      rfl
    simp only [Reader.answer, Reader.ofTokens, hread]
  | @nextSignificant_nil comments saved hcomments =>
    have hread : readSignificant comments = (none, []) := by
      have h := readSignificant_comments hcomments []
      rwa [List.append_nil] at h
    simp only [Reader.answer, Reader.ofTokens, hread]
  | peekSignificant h ih =>
    have hanswer := congrArg Prod.fst ih
    exact Prod.ext hanswer rfl
  | @closeGroup opener closer inner rest t saved hne hinner ht =>
    have hgroup := hinner.closeGroup_eq hne ht rest
    simp only [Reader.answer, Reader.ofTokens, hgroup]
  | @closeGroup_nil opener closer ts saved h =>
    have hgroup : EnumTables.closeGroup opener closer 0 ts = (none, []) := by
      by_cases hne : opener = closer
      · rw [hne, closeGroup_self]
      · exact closeGroup_of_nested hne (h hne)
    simp only [Reader.answer, Reader.ofTokens, hgroup]
  | save => rfl
  | restore => rfl
  | restore_nil => rfl

/-- Every list starts with comments and a token behind them, or holds nothing
else. -/
theorem exists_comments (ts : List Token) :
    ∃ comments, (∀ u ∈ comments, u.kind.isComment = true) ∧
      (ts = comments ∨ ∃ t rest, ts = comments ++ t :: rest ∧ t.kind.isComment = false) := by
  induction ts with
  | nil => exact ⟨[], by simp, .inl rfl⟩
  | cons t ts ih =>
    by_cases ht : t.kind.isComment = true
    · obtain ⟨comments, hcomments, hts⟩ := ih
      refine ⟨t :: comments, List.forall_mem_cons.mpr ⟨ht, hcomments⟩, ?_⟩
      rcases hts with rfl | ⟨u, rest, rfl, hu⟩
      · exact .inl rfl
      · exact .inr ⟨u, rest, rfl, hu⟩
    · exact ⟨[], by simp, .inr ⟨t, ts, rfl, Bool.eq_false_iff.mpr ht⟩⟩

/-- Every request has an answer. -/
theorem exists_answered (request : Request) (s : Session (List Token)) :
    ∃ t? s', Answered request s t? s' := by
  obtain ⟨ts, saved⟩ := s
  have hsignificant : ∃ t? s', Answered .nextSignificant ⟨ts, saved⟩ t? s' := by
    obtain ⟨comments, hcomments, rfl | ⟨t, rest, rfl, ht⟩⟩ := exists_comments ts
    · exact ⟨none, _, .nextSignificant_nil hcomments⟩
    · exact ⟨some t, _, .nextSignificant hcomments ht⟩
  cases request with
  | next =>
    rcases ts with _ | ⟨t, ts⟩
    · exact ⟨none, _, .next_nil⟩
    · exact ⟨some t, _, .next⟩
  | nextSignificant => exact hsignificant
  | peekSignificant =>
    obtain ⟨t?, s', h⟩ := hsignificant
    exact ⟨t?, _, .peekSignificant h⟩
  | closeGroup opener closer =>
    by_cases hne : opener = closer
    · exact ⟨none, _, .closeGroup_nil fun h => absurd hne h⟩
    rcases nested_or_exists_closer hne 0 ts with
      hnested | ⟨inner, t, rest, rfl, ht, hinner, hcount⟩
    · exact ⟨none, _, .closeGroup_nil fun _ => hnested⟩
    · exact ⟨some t, _, .closeGroup hne ⟨hinner, by omega⟩ ht⟩
  | save => exact ⟨none, _, .save⟩
  | restore =>
    rcases saved with _ | ⟨us, saved⟩
    · exact ⟨none, _, .restore_nil⟩
    · exact ⟨none, _, .restore⟩

/-- The answer of a list of tokens is the one answer there is. -/
theorem answered_iff {request : Request} {s s' : Session (List Token)} {t? : Option Token} :
    Answered request s t? s' ↔ Reader.ofTokens.answer request s = (t?, s') := by
  refine ⟨Answered.answer_eq, fun h => ?_⟩
  obtain ⟨u?, r, hanswered⟩ := exists_answered request s
  obtain ⟨rfl, rfl⟩ := Prod.mk.inj (hanswered.answer_eq.symm.trans h)
  exact hanswered

/-- **One step.**  A request leads from suffixes of a list to suffixes of it. -/
theorem Answered.suffix {request : Request} {s s' : Session (List Token)} {t? : Option Token}
    (h : Answered request s t? s') {ts : List Token} (hs : ∀ us ∈ s.positions, us <:+ ts) :
    ∀ us ∈ s'.positions, us <:+ ts := by
  have hsaved : ∀ {here rest : List Token} {saved : List (List Token)},
      (∀ us ∈ (Session.mk here saved).positions, us <:+ ts) → rest <:+ here →
      ∀ us ∈ (Session.mk rest saved).positions, us <:+ ts := by
    intro here rest saved hpositions hrest
    obtain ⟨hhere, hsaved⟩ := List.forall_mem_cons.mp hpositions
    exact List.forall_mem_cons.mpr ⟨hrest.trans hhere, hsaved⟩
  cases h with
  | next => exact hsaved hs (List.suffix_cons _ _)
  | next_nil => exact hs
  | @nextSignificant comments rest t saved hcomments ht =>
    exact hsaved hs ⟨comments ++ [t], by rw [List.append_assoc, List.singleton_append]⟩
  | nextSignificant_nil hcomments => exact hsaved hs List.nil_suffix
  | peekSignificant h => exact hs
  | @closeGroup opener closer inner rest t saved hne hinner ht =>
    exact hsaved hs ⟨inner ++ [t], by rw [List.append_assoc, List.singleton_append]⟩
  | closeGroup_nil h => exact hsaved hs List.nil_suffix
  | save => exact List.forall_mem_cons.mpr ⟨hs _ List.mem_cons_self, hs⟩
  | restore => exact (List.forall_mem_cons.mp hs).2
  | restore_nil => exact hs

end Request

/-- **A run.**  Along every sequence of requests the positions are suffixes of the
list at the start. -/
theorem Reader.run_suffix (requests : List Request) {s : Session (List Token)} {ts : List Token}
    (hs : ∀ us ∈ s.positions, us <:+ ts) :
    ∀ us ∈ (Reader.ofTokens.run requests s).positions, us <:+ ts := by
  induction requests generalizing s with
  | nil => exact hs
  | cons request requests ih =>
    have hstep : request.Answered s (Reader.ofTokens.answer request s).1
        (Reader.ofTokens.answer request s).2 := Request.answered_iff.mpr rfl
    exact ih (hstep.suffix hs)

/-! ### Views -/

/-- The positions of one reader seen as those of another: each request commutes with
the view. -/
structure Reader.View {σ τ : Type} (R : Reader σ) (S : Reader τ) (view : σ → τ) : Prop where
  next : ∀ c, ((R.next c).1, view (R.next c).2) = S.next (view c)
  nextSignificant : ∀ c,
    ((R.nextSignificant c).1, view (R.nextSignificant c).2) = S.nextSignificant (view c)
  peekSignificant : ∀ c, R.peekSignificant c = S.peekSignificant (view c)
  closeGroup : ∀ opener closer c,
    ((R.closeGroup opener closer c).1, view (R.closeGroup opener closer c).2) =
      S.closeGroup opener closer (view c)

/-- A function that reads tokens.  The answers that it has got so far tell its next
request or its result. -/
def Procedure (α : Type) : Type :=
  List (Option Token) → Request ⊕ α

/-- The result of a procedure, if it has one after less than `n` requests. -/
def Reader.perform {σ α : Type} (R : Reader σ) (p : Procedure α) :
    Nat → List (Option Token) → Session σ → Option α
  | 0, _, _ => none
  | n + 1, answers, s =>
    match p answers with
    | .inl request =>
      R.perform p n (answers ++ [(R.answer request s).1]) (R.answer request s).2
    | .inr result => some result

namespace Reader.View

variable {σ τ : Type} {R : Reader σ} {S : Reader τ} {view : σ → τ}

theorem answer (h : View R S view) (request : Request) (s : Session σ) :
    ((R.answer request s).1, (R.answer request s).2.map view) =
      S.answer request (s.map view) := by
  obtain ⟨c, saved⟩ := s
  cases request with
  | next =>
    have hnext := h.next c
    simp only [Reader.answer, Session.map, ← hnext]
  | nextSignificant =>
    have hnext := h.nextSignificant c
    simp only [Reader.answer, Session.map, ← hnext]
  | peekSignificant => exact Prod.ext (h.peekSignificant c) rfl
  | closeGroup opener closer =>
    have hgroup := h.closeGroup opener closer c
    simp only [Reader.answer, Session.map, ← hgroup]
  | save => rfl
  | restore =>
    rcases saved with _ | ⟨d, saved⟩
    · rfl
    · rfl

theorem run (h : View R S view) (requests : List Request) (s : Session σ) :
    (R.run requests s).map view = S.run requests (s.map view) := by
  induction requests generalizing s with
  | nil => rfl
  | cons request requests ih =>
    rw [Reader.run, Reader.run, ih, ← h.answer request s]

/-- A procedure gets the same answers from both readers. -/
theorem perform (h : View R S view) {α : Type} (p : Procedure α) (n : Nat)
    (answers : List (Option Token)) (s : Session σ) :
    R.perform p n answers s = S.perform p n answers (s.map view) := by
  induction n generalizing answers s with
  | zero => rfl
  | succ n ih =>
    rw [Reader.perform, Reader.perform]
    cases p answers with
    | inl request => simp only [ih, ← h.answer request s]
    | inr result => rfl

end Reader.View

/-! ### Requests on a cursor -/

namespace Cursor

/-- A cursor seen as the tokens still to come. -/
theorem view_tokens : Reader.View Cursor.reader Reader.ofTokens Cursor.tokens where
  next := next_eq
  nextSignificant := nextSignificant_eq
  peekSignificant := peekSignificant_eq
  closeGroup := closeGroup_eq

/-- One step: a request leads from positions in a text to positions in it. -/
theorem answer_reaches (request : Request) {c : Cursor} {s : Session Cursor}
    (hs : ∀ d ∈ s.positions, c.Reaches d) :
    ∀ d ∈ (Cursor.reader.answer request s).2.positions, c.Reaches d := by
  obtain ⟨here, saved⟩ := s
  obtain ⟨hhere, hsaved⟩ := List.forall_mem_cons.mp hs
  cases request with
  | next => exact List.forall_mem_cons.mpr ⟨hhere.trans (next_leads here).reaches, hsaved⟩
  | nextSignificant =>
    exact List.forall_mem_cons.mpr ⟨hhere.trans (nextSignificant_leads here).reaches, hsaved⟩
  | peekSignificant => exact hs
  | closeGroup opener closer =>
    exact List.forall_mem_cons.mpr ⟨hhere.trans (closeGroup_leads _ _ here).reaches, hsaved⟩
  | save => exact List.forall_mem_cons.mpr ⟨hhere, hs⟩
  | restore =>
    rcases saved with _ | ⟨d, saved⟩
    · exact hs
    · exact hsaved

/-- A run: so does a sequence of requests. -/
theorem run_reaches (requests : List Request) {c : Cursor} {s : Session Cursor}
    (hs : ∀ d ∈ s.positions, c.Reaches d) :
    ∀ d ∈ (Cursor.reader.run requests s).positions, c.Reaches d := by
  induction requests generalizing s with
  | nil => exact hs
  | cons request requests ih => exact ih (answer_reaches request hs)

/-- The session after a sequence of requests in front of a text. -/
def session (src : Text) (requests : List Request) : Session Cursor :=
  Cursor.reader.run requests (Session.start (ofText src))

/-- The same sequence of requests on the list of tokens. -/
theorem map_tokens_session (src : Text) (requests : List Request) :
    (session src requests).map tokens =
      Reader.ofTokens.run requests (Session.start (lex src)) :=
  view_tokens.run requests (Session.start (ofText src))

theorem tokens_suffix_of_mem_session {src : Text} {requests : List Request} {c : Cursor}
    (h : c ∈ (session src requests).positions) : c.tokens <:+ lex src := by
  have hstart : ∀ us ∈ (Session.start (lex src)).positions, us <:+ lex src :=
    List.forall_mem_singleton.mpr (List.suffix_refl (lex src))
  have hrun := Reader.run_suffix requests hstart
  rw [← map_tokens_session, Session.positions_map] at hrun
  exact hrun c.tokens (List.mem_map_of_mem h)

theorem reaches_of_mem_session {src : Text} {requests : List Request} {c : Cursor}
    (h : c ∈ (session src requests).positions) : (ofText src).Reaches c := by
  have hstart : ∀ d ∈ (Session.start (ofText src)).positions, (ofText src).Reaches d :=
    List.forall_mem_singleton.mpr (Reaches.refl (ofText src))
  exact run_reaches requests hstart c h

end Cursor

/-- **A cursor reads the tokens of its text.**  After any sequence of requests every
position, saved or not, is given by a byte position between two characters, and the
tokens still to come from it are a suffix of the tokens of the text; each further
request does to them what `Answered` says and nothing else.  So a procedure has the
same result on a cursor as on the list of tokens, and the readers of declarations and
of constants have the same results, whether they read on demand or from the list. -/
theorem cursor_reads_tokens (src : Text) :
    (∀ requests : List Request,
      (∀ c ∈ (Cursor.session src requests).positions, c.tokens <:+ lex src ∧
        Text.IsBoundary src c.offset ∧ c = ⟨src, Text.dropBytes c.offset src, c.offset⟩) ∧
      ∀ request t? s',
        Request.Answered request ((Cursor.session src requests).map Cursor.tokens) t? s' ↔
          (Cursor.reader.answer request (Cursor.session src requests)).1 = t? ∧
            (Cursor.reader.answer request (Cursor.session src requests)).2.map Cursor.tokens =
              s') ∧
    (∀ (α : Type) (p : Procedure α) (n : Nat),
      Cursor.reader.perform p n [] (Session.start (Cursor.ofText src)) =
        Reader.ofTokens.perform p n [] (Session.start (lex src))) ∧
    (Cursor.ofText src).declarationsFrom 0 = declarations src ∧
    (Cursor.ofText src).constantsFrom none = Constant.ofBody src := by
  refine ⟨fun requests => ⟨?_, ?_⟩, ?_, Cursor.declarationsFrom_ofText src,
    Cursor.constantsFrom_ofText src⟩
  · intro c hc
    exact ⟨Cursor.tokens_suffix_of_mem_session hc, (Cursor.reaches_of_mem_session hc).eq_dropBytes⟩
  · intro request t? s'
    rw [Request.answered_iff, ← Cursor.view_tokens.answer, Prod.mk.injEq]
  · intro α p n
    exact Cursor.view_tokens.perform p n [] _

/-- A name behind a comment, and a group behind the name. -/
def namedGroup : Text :=
  "// c\nA ( b ) C".toList

/-- The position is saved, and then everything is read through the group. -/
def throughGroup : List Request :=
  [.save, .nextSignificant, .next, .closeGroup .openParen .closeParen]

theorem cursor_reads_tokens_throughGroup :
    ∃ c ∈ (Cursor.session namedGroup throughGroup).positions, c.tokens <:+ lex namedGroup ∧
      c.tokens.map Token.text = [['C']] ∧
      c = ⟨namedGroup, Text.dropBytes 12 namedGroup, 12⟩ ∧
      Request.Answered .restore ((Cursor.session namedGroup throughGroup).map Cursor.tokens) none
        (Session.start (lex namedGroup)) := by
  obtain ⟨hsession, -⟩ := cursor_reads_tokens namedGroup
  obtain ⟨hposition, hanswer⟩ := hsession throughGroup
  have hhere : (Cursor.session namedGroup throughGroup).here.offset = 12 := by
    decide +kernel
  obtain ⟨hsuffix, -, heq⟩ := hposition _ List.mem_cons_self
  rw [hhere] at heq
  refine ⟨_, List.mem_cons_self, hsuffix, ?_, heq, ?_⟩
  · rw [heq]
    decide +kernel
  · rw [hanswer]
    exact ⟨rfl, by decide +kernel⟩

end EnumTables
