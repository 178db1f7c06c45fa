import FirmwareVars.Proofs.Request

/-!
# The words that spell a request

A request is spelled by its words, and if it is for the standard format also by its words
without the flag, as long as the name is not taken for a flag then.  After a GUID text any
words may follow (`Request.Spells`).

Exactly the spellings are read (`Request.parse_eq_iff`).  Reading takes the words in the
order in which they are written, so each stage has a lemma that gives back the words it has
taken.
-/

namespace FirmwareVars

theorem Format.eq_flag_of_ofFlag? {word : String} {f : Format} (h : ofFlag? word = some f) :
    word = f.flag := by
  have found := List.find?_some h
  exact (of_decide_eq_true found).symm

theorem Format.ofFlag?_eq_none_iff (word : String) :
    ofFlag? word = none ↔ ∀ f : Format, word ≠ f.flag := by
  rw [ofFlag?, List.find?_eq_none]
  simp [mem_all, eq_comm]

namespace Request

/-! ## Spellings -/

/-- The words of a request without the flag of its format. -/
def renderShort (r : Request) : List String :=
  (r.target.map fun t => [setFlag, t]).getD [] ++ r.name :: r.guidText.toList

/-- Whether a request can do without the flag of its format: the format is the one used when
no flag is given, and the name is not taken for another flag. -/
structure CanDropFlag (r : Request) : Prop where
  format_eq : r.format = .standard
  name_ne_flag : ∀ f : Format, r.name ≠ f.flag
  name_ne_setFlag : r.target = none → r.name ≠ setFlag

/-- Whether words spell a request.  Words after a GUID text do not count. -/
inductive Spells (r : Request) : List String → Prop
  | full {extra : List String} : (r.guidText = none → extra = []) → Spells r (r.render ++ extra)
  | short {extra : List String} : r.CanDropFlag → (r.guidText = none → extra = []) →
      Spells r (r.renderShort ++ extra)

/-- The error of words that spell no request. -/
def usageError (words : List String) : BadArgument :=
  if words.head? = some setFlag then .setUsage else .usage

/-! ## Spellings are read -/

theorem parseFormat_name {r : Request} (h : r.CanDropFlag) (missing : BadArgument)
    {extra : List String} (surplus : r.guidText = none → extra = []) :
    parseFormat r.target missing (r.name :: r.guidText.toList ++ extra) = .ok r := by
  have read := r.parseName_render missing surplus
  rw [h.format_eq] at read
  rw [List.cons_append] at read ⊢
  rw [parseFormat, (Format.ofFlag?_eq_none_iff r.name).mpr h.name_ne_flag]
  exact read

theorem parse_renderShort_append {r : Request} (h : r.CanDropFlag) {extra : List String}
    (surplus : r.guidText = none → extra = []) : parse (r.renderShort ++ extra) = .ok r := by
  have read (missing : BadArgument) := parseFormat_name h missing surplus
  rw [renderShort, List.append_assoc]
  cases ht : r.target with
  | none =>
      rw [ht] at read
      exact (parse_of_ne_setFlag (h.name_ne_setFlag ht) _).trans (read .usage)
  | some target =>
      rw [ht] at read
      exact (parse_set target r.name _).trans (read .setUsage)

theorem Spells.parse_eq {r : Request} {words : List String} (h : r.Spells words) :
    parse words = .ok r := by
  cases h with
  | full surplus => exact r.parse_render_append surplus
  | short drop surplus => exact parse_renderShort_append drop surplus

/-! ## Only spellings are read -/

theorem eq_of_parseName {target : Option String} {format : Format} {missing : BadArgument}
    {words : List String} {r : Request} (h : parseName target format missing words = .ok r) :
    r.format = format ∧ ∃ extra, (r.guidText = none → extra = []) ∧
      words = r.name :: r.guidText.toList ++ extra := by
  rcases words with _ | ⟨name, _ | ⟨text, extra⟩⟩
  · cases h
  · cases h
    exact ⟨rfl, [], fun _ => rfl, rfl⟩
  · cases h
    exact ⟨rfl, extra, nofun, rfl⟩

/-- What is read from the format on is written with the flag or without. -/
theorem eq_of_parseFormat {target : Option String} {missing : BadArgument} {words : List String}
    {r : Request} (h : parseFormat target missing words = .ok r) :
    ∃ extra, (r.guidText = none → extra = []) ∧
      (words = r.format.flag :: (r.name :: r.guidText.toList ++ extra) ∨
        r.format = .standard ∧ (∀ f : Format, r.name ≠ f.flag) ∧
          words = r.name :: r.guidText.toList ++ extra) := by
  cases words with
  | nil => cases h
  | cons word rest =>
      rw [parseFormat] at h
      cases flag : Format.ofFlag? word with
      | some format =>
          simp only [flag] at h
          obtain ⟨rfl, extra, surplus, rfl⟩ := eq_of_parseName h
          exact ⟨extra, surplus, Or.inl (by rw [Format.eq_flag_of_ofFlag? flag])⟩
      | none =>
          simp only [flag] at h
          obtain ⟨standard, extra, surplus, words⟩ := eq_of_parseName h
          have name : word = r.name := (List.cons.inj words).1
          rw [Format.ofFlag?_eq_none_iff, name] at flag
          exact ⟨extra, surplus, Or.inr ⟨standard, flag, words⟩⟩

/-- Words from the format on, with the words for their target before them, are a spelling. -/
theorem spells_of_parseFormat {target : Option String} {missing : BadArgument}
    {words : List String} {r : Request} (h : parseFormat target missing words = .ok r)
    (first : target = none → words.head? ≠ some setFlag) :
    r.Spells ((target.map fun t => [setFlag, t]).getD [] ++ words) := by
  obtain rfl := parseFormat_target h
  obtain ⟨extra, surplus, rfl | ⟨standard, flag, rfl⟩⟩ := eq_of_parseFormat h
  · have spelled := Spells.full surplus
    rwa [render, List.append_assoc] at spelled
  · have drop : r.CanDropFlag := ⟨standard, flag, fun none same => first none (by simp [same])⟩
    have spelled := Spells.short drop surplus
    rwa [renderShort, List.append_assoc] at spelled

theorem spells_of_parse {words : List String} {r : Request} (h : parse words = .ok r) :
    r.Spells words := by
  rcases words with _ | ⟨word, rest⟩
  · cases h
  by_cases set : word = setFlag
  · subst set
    rcases rest with _ | ⟨target, _ | ⟨next, more⟩⟩
    · cases h
    · cases h
    · rw [parse_set] at h
      exact spells_of_parseFormat h nofun
  · rw [parse_of_ne_setFlag set] at h
    exact spells_of_parseFormat h fun _ => by simpa using set

/-! ## Errors -/

theorem eq_missing_of_parseFormat {target : Option String} {missing cause : BadArgument}
    {words : List String} (h : parseFormat target missing words = .error cause) :
    cause = missing := by
  have noName {format : Format} {words : List String}
      (h : parseName target format missing words = .error cause) : cause = missing := by
    cases words with
    | nil => exact (Except.error.inj h).symm
    | cons name rest => cases h
  cases words with
  | nil => exact (Except.error.inj h).symm
  | cons word rest =>
      rw [parseFormat] at h
      split at h
      · exact noName h
      · exact noName h

theorem eq_usageError_of_parse {words : List String} {cause : BadArgument}
    (h : parse words = .error cause) : cause = usageError words := by
  rcases words with _ | ⟨word, rest⟩
  · exact (Except.error.inj h).symm
  by_cases set : word = setFlag
  · subst set
    rw [usageError, List.head?_cons, if_pos rfl]
    rcases rest with _ | ⟨target, _ | ⟨next, more⟩⟩
    · exact (Except.error.inj h).symm
    · exact (Except.error.inj h).symm
    · rw [parse_set] at h
      exact eq_missing_of_parseFormat h
  · rw [parse_of_ne_setFlag set] at h
    rw [usageError, List.head?_cons, if_neg (by simpa using set)]
    exact eq_missing_of_parseFormat h

/-- Words are read as a request if and only if they spell it.  All other words fail, with the
usage of the flag for a target if that is their first word and with the whole usage if not. -/
theorem parse_eq_iff (words : List String) :
    (∀ r : Request, parse words = .ok r ↔ r.Spells words) ∧
    ∀ cause, parse words = .error cause ↔
      (∀ r : Request, ¬ r.Spells words) ∧ cause = usageError words := by
  refine ⟨fun r => ⟨spells_of_parse, Spells.parse_eq⟩, fun cause => ⟨fun failed => ?_, ?_⟩⟩
  · refine ⟨fun r spelled => ?_, eq_usageError_of_parse failed⟩
    cases failed.symm.trans spelled.parse_eq
  · rintro ⟨unspelled, rfl⟩
    cases read : parse words with
    | ok r => exact absurd (spells_of_parse read) (unspelled r)
    | error cause => rw [eq_usageError_of_parse read]

/-- The flag for a target is a name after the flag of a format, and so is no target. -/
example : parse ["--uint8", "--set", "x"] = .ok ⟨"--set", some "x", .number .one, none⟩ := rfl

end Request

end FirmwareVars
