import FirmwareVars.Request

/-!
# Requests read and written

The words of a request are read as that request (`Request.parse_render`), whatever
its texts are.  A name may look like a flag, because the flag before it has been
taken by then.  In any words that are read as a request, the target is the word after
the flag that asks for one (`Request.target_eq_some_iff`).
-/

namespace FirmwareVars

theorem Format.flag_ne_setFlag (f : Format) : f.flag ≠ Request.setFlag := by
  rcases f with _ | (_ | _ | _ | _) | _ <;> decide

namespace Request

/-! ## The ways to read words -/

theorem parse_set (target next : String) (more : List String) :
    parse (setFlag :: target :: next :: more) =
      parseFormat (some target) .setUsage (next :: more) := by
  rw [parse, if_pos rfl]

theorem parse_of_ne_setFlag {word : String} (h : word ≠ setFlag) (rest : List String) :
    parse (word :: rest) = parseFormat none .usage (word :: rest) := by
  rw [parse.eq_def]
  simp only [if_neg h]

theorem parseFormat_flag (target : Option String) (missing : BadArgument) (f : Format)
    (rest : List String) :
    parseFormat target missing (f.flag :: rest) = parseName target f missing rest := by
  rw [parseFormat, Format.ofFlag?_flag]

/-! ## Words of a request -/

theorem parseName_render (r : Request) (missing : BadArgument) {extra : List String}
    (surplus : r.guidText = none → extra = []) :
    parseName r.target r.format missing (r.name :: r.guidText.toList ++ extra) = .ok r := by
  rcases r with ⟨name, _ | text, format, target⟩
  · rw [surplus rfl]
    rfl
  · rfl

/-- The words of a request are read as that request, and what follows a GUID text does not
matter. -/
theorem parse_render_append (r : Request) {extra : List String}
    (surplus : r.guidText = none → extra = []) : parse (r.render ++ extra) = .ok r := by
  have read (missing : BadArgument) : parseFormat r.target missing
      (r.format.flag :: (r.name :: r.guidText.toList ++ extra)) = .ok r := by
    rw [parseFormat_flag]
    exact r.parseName_render missing surplus
  rw [render, List.append_assoc]
  cases ht : r.target with
  | none =>
      rw [ht] at read
      exact (parse_of_ne_setFlag r.format.flag_ne_setFlag _).trans (read .usage)
  | some target =>
      rw [ht] at read
      exact (parse_set target r.format.flag _).trans (read .setUsage)

/-- The words of a request are read as that request. -/
theorem parse_render (r : Request) : parse r.render = .ok r := by
  rw [← List.append_nil r.render]
  exact r.parse_render_append fun _ => rfl

/-! ## The target -/

theorem parseName_target {target : Option String} {format : Format} {missing : BadArgument}
    {words : List String} {r : Request} (h : parseName target format missing words = .ok r) :
    r.target = target := by
  cases words with
  | nil => cases h
  | cons name rest =>
      cases h
      rfl

theorem parseFormat_target {target : Option String} {missing : BadArgument}
    {words : List String} {r : Request} (h : parseFormat target missing words = .ok r) :
    r.target = target := by
  cases words with
  | nil => cases h
  | cons word rest =>
      rw [parseFormat] at h
      split at h
      · exact parseName_target h
      · exact parseName_target h

/-- A request has a target if and only if it is the word after the flag that asks for one. -/
theorem target_eq_some_iff {words : List String} {r : Request} (h : parse words = .ok r)
    (x : String) : r.target = some x ↔ ∃ rest, words = setFlag :: x :: rest := by
  cases words with
  | nil => cases h
  | cons word rest =>
      rw [parse.eq_def] at h
      simp only at h
      by_cases set : word = setFlag
      · rw [if_pos set] at h
        rcases rest with _ | ⟨target, _ | ⟨next, more⟩⟩
        · cases h
        · cases h
        · rw [parseFormat_target h, set]
          simp
      · rw [if_neg set] at h
        rw [parseFormat_target h]
        simp [set]

/-! ## The words of a request -/

theorem name_mem_of_parseName {target : Option String} {format : Format} {missing : BadArgument}
    {words : List String} {r : Request} (h : parseName target format missing words = .ok r) :
    r.name ∈ words := by
  cases words with
  | nil => cases h
  | cons name rest =>
      cases h
      exact List.mem_cons_self

theorem name_mem_of_parseFormat {target : Option String} {missing : BadArgument}
    {words : List String} {r : Request} (h : parseFormat target missing words = .ok r) :
    r.name ∈ words := by
  cases words with
  | nil => cases h
  | cons word rest =>
      rw [parseFormat] at h
      split at h
      · exact List.mem_cons_of_mem _ (name_mem_of_parseName h)
      · exact name_mem_of_parseName h

theorem name_mem_of_parse {words : List String} {r : Request} (h : parse words = .ok r) :
    r.name ∈ words := by
  cases words with
  | nil => cases h
  | cons word rest =>
      rw [parse.eq_def] at h
      simp only at h
      split at h
      · rcases rest with _ | ⟨target, _ | ⟨next, more⟩⟩
        · cases h
        · cases h
        · exact List.mem_cons_of_mem _ (List.mem_cons_of_mem _ (name_mem_of_parseFormat h))
      · exact name_mem_of_parseFormat h

theorem target_mem_of_parse {words : List String} {r : Request} (h : parse words = .ok r) :
    ∀ t ∈ r.target, t ∈ words := by
  intro t ht
  obtain ⟨rest, rfl⟩ := (target_eq_some_iff h t).mp ht
  exact List.mem_cons_of_mem _ List.mem_cons_self

end Request

end FirmwareVars
