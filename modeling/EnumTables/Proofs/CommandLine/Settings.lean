/-
Options as they are printed, and how they are read.

An option is printed as one argument, with its value behind an equals sign.  So
whatever the value is, it is never taken for an option, for the name of a command or
for the two dashes that end the options.

* **`Setting.print`** — how an option is written;
* **`scan_print`** — options are read one after the other, and an option that has been
  read is not read again;
* **`get?_reading`** — the value an option has in the end.
-/
import EnumTables.CommandLine.Parser
import EnumTables.Proofs.Path.Texts
import EnumTables.Proofs.Token.Cuts
import Mathlib.Data.List.Nodup

namespace EnumTables.CommandLine

/-! ### Options -/

/-- An option with its value.  A path is given by a text. -/
inductive Setting where
  | config (path : Text)
  | verbose
  | source (path : Text)
  | output (path : Text)
  | format (format : Format)
  | path (path : Text)
  | force
  deriving DecidableEq, Repr

namespace Setting

def parameter : Setting → Parameter
  | config _ => .config
  | verbose => .verbose
  | source _ => .source
  | output _ => .output
  | format _ => .format
  | path _ => .path
  | force => .force

def name : Setting → Text
  | config _ => "config".toList
  | verbose => "verbose".toList
  | source _ => "source".toList
  | output _ => "output".toList
  | format _ => "format".toList
  | path _ => "path".toList
  | force => "force".toList

def value? : Setting → Option Text
  | config p | source p | output p | path p => some p
  | format .markdown => some "markdown".toList
  | format .json => some "json".toList
  | verbose | force => none

/-- The argument that an option is written as. -/
def print (s : Setting) : Text :=
  '-' :: '-' :: s.name ++ (s.value?.map ('=' :: ·)).getD []

example : (config "-c=x".toList).print = "--config=-c=x".toList := rfl

/-- The options that stand in front of a command or behind it. -/
def isGlobal : Setting → Bool
  | config _ | verbose => true
  | source _ | output _ | format _ | path _ | force => false

/-- No value is empty. -/
def Valid (s : Setting) : Prop :=
  s.value? ≠ some []

/-- The option is one of a level. -/
def KnownAt (level : Level) (s : Setting) : Prop :=
  level.long? s.name = some s.parameter

/-- What is kept of an option. -/
def entry (s : Setting) : Parameter × Text :=
  (s.parameter, s.value?.getD [])

theorem entry_injective : Function.Injective entry := by
  intro s t h
  obtain ⟨hparameter, hvalue⟩ := Prod.mk.inj h
  cases s <;> cases t <;> try cases hparameter
  · exact congrArg config hvalue
  · rfl
  · exact congrArg source hvalue
  · exact congrArg output hvalue
  · rename_i f g
    cases f <;> cases g <;> first | rfl | cases hvalue
  · exact congrArg path hvalue
  · rfl

theorem takesValue_parameter (s : Setting) :
    s.parameter.takesValue = s.value?.isSome := by
  cases s with
  | format f => cases f <;> rfl
  | _ => rfl

/-- There is one flag for a parameter. -/
theorem eq_of_parameter_eq {s t : Setting} (hs : s.value? = none)
    (h : t.parameter = s.parameter) : t = s := by
  have ht : t.value?.isSome = false := by
    rw [← takesValue_parameter, h, takesValue_parameter, hs, Option.isSome_none]
  refine entry_injective ?_
  rw [entry, entry, h, hs, Option.isSome_eq_false_iff.mp ht |> Option.isNone_iff_eq_none.mp]

theorem name_eq_of_parameter_eq {s t : Setting} (h : t.parameter = s.parameter) :
    t.name = s.name := by
  cases s <;> cases t <;> cases h <;> rfl

theorem knownAt_of_isGlobal {s : Setting} (h : s.isGlobal = true) (level : Level) :
    s.KnownAt level := by
  cases s with
  | config p => cases level <;> rfl
  | verbose => cases level <;> rfl
  | _ => cases h

end Setting

/-! ### Reading options -/

/-- What has been read when it was these options alone. -/
def reading (done : List Setting) : Matches :=
  ⟨(done.map Setting.entry).reverse, none, false, false, false⟩

variable {level : Level} {s : Setting} {done settings : List Setting}

theorem has_reading (done : List Setting) (p : Parameter) :
    (reading done).has p = true ↔ p ∈ done.map Setting.parameter := by
  rw [Matches.has, Matches.get?, List.lookup_isSome_iff]
  simp only [reading, List.mem_reverse, List.mem_map, exists_exists_and_eq_and, beq_iff_eq,
    Setting.entry]
  exact exists_congr fun s => and_congr_right fun _ => eq_comm

/-- **The value of an option** that has been read once. -/
theorem get?_reading (h : (done.map Setting.parameter).Nodup) (s : Setting) :
    (reading done).get? s.entry.1 = some s.entry.2 ↔ s ∈ done := by
  rw [Matches.get?]
  constructor
  · intro hget
    obtain ⟨front, back, heq, -⟩ := List.lookup_eq_some_iff.mp hget
    have hmem : s.entry ∈ (done.map Setting.entry).reverse := by
      rw [← show (reading done).given = (done.map Setting.entry).reverse from rfl, heq]
      exact List.mem_append_right _ List.mem_cons_self
    rwa [List.mem_reverse, List.mem_map_of_injective Setting.entry_injective] at hmem
  · intro hmem
    -- the look-up begins with what has been read last, and none of it is this option
    obtain ⟨front, back, rfl⟩ := List.append_of_mem hmem
    rw [List.map_append, List.map_cons, List.nodup_append, List.nodup_cons] at h
    rw [List.lookup_eq_some_iff]
    refine ⟨(back.map Setting.entry).reverse, (front.map Setting.entry).reverse, ?_, ?_⟩
    · rw [reading, List.map_append, List.map_cons, List.reverse_append, List.reverse_cons,
        List.append_assoc]
      rfl
    · intro e he
      obtain ⟨t, ht, rfl⟩ := List.mem_map.mp (List.mem_reverse.mp he)
      refine bne_iff_ne.mpr fun heq => h.2.1.1 ?_
      exact List.mem_map.mpr ⟨t, ht, heq.symm⟩

/-- The path that an option has set. -/
theorem pathOf?_reading (h : (done.map Setting.parameter).Nodup) (option : Text → Setting)
    {p : Parameter} (hoption : ∀ value, (option value).entry = (p, value)) (q : Path) :
    pathOf? (reading done) p = some q ↔ q.isUtf8 = true ∧ option q.text ∈ done := by
  rw [← get?_reading h, hoption, pathOf?, Option.map_eq_some_iff]
  constructor
  · rintro ⟨value, hvalue, rfl⟩
    exact ⟨Path.isUtf8_mk value, by rwa [Path.text_mk]⟩
  · rintro ⟨hq, hvalue⟩
    exact ⟨q.text, hvalue, Path.mk_text hq⟩

/-- A flag is in effect if it is there. -/
theorem has_flag (hs : s.value? = none) :
    (reading done).has s.parameter = true ↔ s ∈ done := by
  rw [has_reading, List.mem_map]
  constructor
  · rintro ⟨t, ht, heq⟩
    rwa [← Setting.eq_of_parameter_eq hs heq]
  · intro hs
    exact ⟨s, hs, rfl⟩

theorem Setting.Valid.isValid {value : Text} (h : s.Valid) (hvalue : s.value? = some value) :
    Matches.isValid s.parameter value = true := by
  have hne : value ≠ [] := fun hnil => h (hnil ▸ hvalue)
  cases s with
  | format f => cases f <;> cases hvalue <;> rfl
  | verbose => cases hvalue
  | force => cases hvalue
  | _ => exact bne_iff_ne.mpr hne

theorem accept_value {m : Matches} {p : Parameter} {value : Text} (hp : p.takesValue = true)
    (hvalue : Matches.isValid p value = true) :
    m.accept p (some value) = if m.has p then .error .argumentConflict
      else .ok { m with given := (p, value) :: m.given } := by
  have haccept : m.accept p (some value) = if m.has p then .error .argumentConflict
      else if Matches.isValid p value then .ok { m with given := (p, value) :: m.given }
      else .error .invalidValue := by
    cases p with
    | verbose | help | version | force => cases hp
    | _ => rfl
  rw [haccept, if_pos hvalue]

/-- **Taking in an option**, which may have been read before. -/
theorem accept_reading (h : s.Valid) :
    (reading done).accept s.parameter s.value? =
      if s.parameter ∈ done.map Setting.parameter then .error .argumentConflict
      else .ok (reading (done ++ [s])) := by
  have hnext : { reading done with given := s.entry :: (reading done).given } =
      reading (done ++ [s]) := by
    rw [reading, reading, List.map_append, List.reverse_append]
    rfl
  have htakes := s.takesValue_parameter
  rw [← hnext, if_congr (has_reading done s.parameter).symm rfl rfl, Setting.entry]
  cases hvalue : s.value? with
  | none =>
    rw [hvalue] at htakes
    cases s with
    | verbose | force => rfl
    | _ => cases htakes
  | some value =>
    rw [hvalue] at htakes
    exact accept_value htakes (h.isValid hvalue)

theorem Setting.ne_of_mem_name (s : Setting) : ∀ c ∈ s.name, decide (c ≠ '=') = true := by
  have hall : s.name.all (decide <| · ≠ '=') = true := by cases s <;> rfl
  exact List.all_eq_true.mp hall

/-- **An option is read as it is printed**, unless it has been read before. -/
theorem readArgument_print (h : s.KnownAt level) (hvalid : s.Valid) :
    readArgument level (reading done) s.print =
      if s.parameter ∈ done.map Setting.parameter then .error .argumentConflict
      else .ok (reading (done ++ [s])) := by
  have hread : readArgument level (reading done) s.print =
      readLong level (reading done) (s.name ++ (s.value?.map ('=' :: ·)).getD []) := by
    cases s <;> rfl
  have hrest : Text.Stops (fun c => decide (c ≠ '=')) ((s.value?.map ('=' :: ·)).getD []) := by
    cases s.value? with
    | none => exact Text.stops_nil _
    | some value => exact Text.stops_cons.mpr rfl
  -- nothing is pending, so the option is taken in at once
  have hcomplete : (reading done).complete s.parameter s.value? =
      if s.parameter ∈ done.map Setting.parameter then .error .argumentConflict
      else .ok (reading (done ++ [s])) := by
    have hsettle : (reading done).complete s.parameter s.value? =
        (reading done).accept s.parameter s.value? >>= fun m => .ok { m with awaiting := false } :=
      rfl
    rw [hsettle, accept_reading hvalid]
    split <;> rfl
  have htakes := s.takesValue_parameter
  rw [← hcomplete, hread, readLong, Text.takeWhile_append_of_stops s.ne_of_mem_name hrest,
    Text.dropWhile_append_of_stops s.ne_of_mem_name hrest, h]
  dsimp only
  rw [htakes]
  cases s.value? with
  | none => rfl
  | some value => rfl

theorem isCommandName_print (s : Setting) : isCommandName s.print = false := by
  rw [Setting.print]
  rfl

/-- **Options are read one after the other**, and none of them twice. -/
theorem scan_print {args : List Text} (hknown : ∀ s ∈ settings, s.KnownAt level)
    (hvalid : ∀ s ∈ settings, s.Valid) (hdone : (done.map Setting.parameter).Nodup) :
    scan level (reading done) (settings.map Setting.print ++ args) =
      if ((done ++ settings).map Setting.parameter).Nodup
      then scan level (reading (done ++ settings)) args
      else .error .argumentConflict := by
  induction settings generalizing done with
  | nil =>
    rw [List.append_nil, if_pos hdone]
    rfl
  | cons s settings ih =>
    obtain ⟨hs, hknown⟩ := List.forall_mem_cons.mp hknown
    obtain ⟨hs', hvalid⟩ := List.forall_mem_cons.mp hvalid
    rw [List.map_cons, List.cons_append, scan, isCommandName_print, Bool.and_false,
      if_neg Bool.false_ne_true, readArgument_print hs hs']
    by_cases hmem : s.parameter ∈ done.map Setting.parameter
    · have hnot : ¬((done ++ s :: settings).map Setting.parameter).Nodup := by
        rw [List.map_append, List.nodup_append]
        intro h
        exact h.2.2 _ hmem _ (by simp) rfl
      rw [if_pos hmem, if_neg hnot]
    · have hnext : ((done ++ [s]).map Setting.parameter).Nodup := by
        rw [List.map_append, List.map_singleton, List.nodup_append]
        refine ⟨hdone, List.nodup_singleton _, fun p hp q hq heq => hmem ?_⟩
        rwa [← List.mem_singleton.mp hq, ← heq]
      rw [if_neg hmem]
      dsimp only
      rw [ih hknown hvalid hnext, List.append_assoc, List.singleton_append]

end EnumTables.CommandLine
