import FirmwareVars.Proofs.Application.Ending
import FirmwareVars.Proofs.Request
import FirmwareVars.Proofs.Text.Ucs2

/-!
# Names above U+FFFF

The command rejects a name that has a character above U+FFFF, but no name from the shell
has one.  The words of the shell are read unit by unit, so the check meets U+FFFD in place
of each half of a pair.  The command line then asks for what the flat words ask for
(`Request.parse_map_flat`), and the variable of the flat name is read
(`Launch.shell_names_are_flat`).

Load options with such a character are no command line at all.  The run has no words then
and reads nothing.
-/

namespace FirmwareVars

/-! ## Words -/

namespace Arguments

/-- A text up to its first NUL, where a word of the shell ends. -/
def upToNul (s : String) : String := String.ofList (s.toList.takeWhile (· ≠ '\x00'))

theorem words_ofShell (ws : List String) :
    (ofShell ws).words = (ws.map upToNul).map Utf16.flat := by
  rw [ofShell, words, List.map_map, List.map_map]
  refine List.map_congr_left fun w _ => ?_
  show Utf16.text ((Utf16.ofString w).takeWhile (· ≠ 0)) = Utf16.flat (upToNul w)
  rw [← Utf16.text_ofString, Utf16.ofString, Utf16.takeWhile_ofChar, Utf16.ofString, upToNul,
    String.toList_ofList]

/-- No word from the shell is rejected as a name. -/
theorem isUcs2Name_of_mem_words {us : List (List UInt16)} {w : String}
    (h : w ∈ (shell us).words) : Request.IsUcs2Name w := by
  obtain ⟨units, -, rfl⟩ := List.mem_map.mp h
  intro c hc
  rw [Utf16.text, String.toList_ofList] at hc
  obtain ⟨u, hu, rfl⟩ := List.mem_map.mp hc
  have nonzero : u ≠ 0 := by simpa using List.mem_takeWhile_imp hu
  exact ⟨Utf16.char_ne_nul nonzero, Utf16.toNat_char_le u⟩

/-- A line with a character above U+FFFF gives no words. -/
theorem words_ofLine {line : String} (h : ∃ c ∈ line.toList, ¬ c.toNat < 0x10000) :
    (ofLine line).words = [] := by
  obtain ⟨c, hc, large⟩ := h
  have paired : ¬ (Utf16.ofString line).all fun u => u ≠ 0 ∧ ¬ Utf16.IsSurrogate u := by
    intro unpaired
    obtain ⟨u, hu⟩ : ∃ u, u ∈ Utf16.ofChar c :=
      ⟨_, by rw [Utf16.ofChar, if_neg large]; exact List.mem_cons_self⟩
    have among : u ∈ Utf16.ofString line := List.mem_flatMap.mpr ⟨c, hc, hu⟩
    have none := List.all_eq_true.mp unpaired u among
    exact (of_decide_eq_true none).2 (Utf16.isSurrogate_of_mem_ofChar large hu)
  have noLine : lineOfUnits? (Utf16.ofString line ++ [0]) = none := by
    rw [lineOfUnits?, List.dropLast_concat]
    exact if_neg fun valid => paired valid.2
  have unread : lineOfBuffer? (Utf16.bytes (Utf16.ofString line ++ [0])) = none := by
    rw [lineOfBuffer?, Utf16.units_bytes, noLine, ite_self]
  rw [ofLine, words, Option.bind_some, unread]
  rfl

end Arguments

/-! ## Requests -/

theorem Format.ofFlag?_flat (w : String) : ofFlag? (Utf16.flat w) = ofFlag? w := by
  have plain (f : Format) : ∀ c ∈ f.flag.toList, c.toNat < 0xfffd := by
    rcases f with _ | (_ | _ | _ | _) | _ <;> simp [flag]
  have same (f : Format) : f.flag = Utf16.flat w ↔ f.flag = w := by
    rw [eq_comm, Utf16.flat_eq_iff (plain f), eq_comm]
  simp only [ofFlag?, same]

namespace Request

/-- A request with its texts as they are read back from their units. -/
def flat (r : Request) : Request where
  name := Utf16.flat r.name
  guidText := r.guidText.map Utf16.flat
  format := r.format
  target := r.target.map Utf16.flat

theorem parseName_map_flat (target : Option String) (format : Format) (missing : BadArgument)
    (words : List String) :
    parseName (target.map Utf16.flat) format missing (words.map Utf16.flat) =
      (parseName target format missing words).map flat := by
  cases words with
  | nil => rfl
  | cons name rest => rw [List.map_cons, parseName, List.head?_map]; rfl

theorem parseFormat_map_flat (target : Option String) (missing : BadArgument)
    (words : List String) :
    parseFormat (target.map Utf16.flat) missing (words.map Utf16.flat) =
      (parseFormat target missing words).map flat := by
  cases words with
  | nil => rfl
  | cons word rest =>
      rw [List.map_cons, parseFormat, parseFormat, Format.ofFlag?_flat]
      cases Format.ofFlag? word with
      | none => exact parseName_map_flat target .standard missing (word :: rest)
      | some format => exact parseName_map_flat target format missing rest

/-- Flat words ask for the flat request, because the flags are flat themselves. -/
theorem parse_map_flat (words : List String) :
    parse (words.map Utf16.flat) = (parse words).map flat := by
  have set (w : String) : Utf16.flat w = setFlag ↔ w = setFlag :=
    Utf16.flat_eq_iff (by simp [setFlag]) w
  cases words with
  | nil => rfl
  | cons word rest =>
      rw [List.map_cons, parse.eq_def, parse.eq_def]
      simp only [set]
      split
      · rcases rest with _ | ⟨target, _ | ⟨next, more⟩⟩
        · rfl
        · rfl
        · exact parseFormat_map_flat (some target) .setUsage (next :: more)
      · exact parseFormat_map_flat none .usage (word :: rest)

/-- A well-formed request reads its variable first. -/
theorem Way.reads_first {r : Request} {memory : Memory}
    {answers : Key → Except Status (List UInt8)} {result : Except Error Unit}
    {calls : List Call} (way : r.Way memory answers result calls)
    (guid : ¬ r.BadGuid) (name : ¬ r.BadName) :
    ∃ key, r.Names key ∧ calls.head? = some (.lookup key) := by
  cases way with
  | badGuid bad => exact absurd bad guid
  | badName _ bad => exact absurd bad name
  | notRead names _ => exact ⟨_, names, rfl⟩
  | tooShort names _ _ _ => exact ⟨_, names, rfl⟩
  | noRoom names _ _ _ => exact ⟨_, names, rfl⟩
  | delivered names _ _ => exact ⟨_, names, rfl⟩

end Request

theorem Ending.reads_of_head {e : Ending} {key : Key} (h : e.calls.head? = some (.lookup key)) :
    e.reads = [key] := by
  cases e <;> cases h <;> rfl

/-! ## Runs -/

namespace Launch

variable {l : Launch} {r : Request}

theorem not_badName_of_shell {us : List (List UInt16)} (shell : l.arguments = .shell us)
    (parsed : Request.parse l.words = .ok r) : ¬ r.BadName := by
  have word {w : String} (h : w ∈ l.words) : Request.IsUcs2Name w := by
    rw [words, shell] at h
    exact Arguments.isUcs2Name_of_mem_words (List.mem_of_mem_drop h)
  rw [Request.not_badName_iff]
  exact ⟨word (Request.name_mem_of_parse parsed),
    fun t ht => word (Request.target_mem_of_parse parsed t ht)⟩

/-- A run whose request is well-formed reads the variable of its name, and what it sets is
what the request asks to be set. -/
theorem run_of_wellFormed (store : Store) (parsed : Request.parse l.words = .ok r)
    (guid : ¬ r.BadGuid) (name : ¬ r.BadName) :
    ∃ key, r.Names key ∧ (l.run store).reads = [key] ∧
      ∀ w ∈ (l.run store).writes, r.target = some w.key.name := by
  obtain ⟨e, meets⟩ := l.exists_meets store.answer
  obtain ⟨key, names, first⟩ := ((meets_of_parse parsed).mp meets).reads_first guid name
  refine ⟨key, names, meets.reads.trans (Ending.reads_of_head first), ?_⟩
  intro w hw
  rw [meets.writes] at hw
  cases e with
  | stored read target v =>
      obtain ⟨s, same, asked⟩ := meets.asked
      cases parsed.symm.trans same
      rw [List.mem_singleton.mp hw]
      exact asked
  | printed _ _ => exact absurd hw List.not_mem_nil
  | badArgument _ => exact absurd hw List.not_mem_nil
  | notRead _ _ => exact absurd hw List.not_mem_nil
  | tooShort _ _ _ => exact absurd hw List.not_mem_nil
  | noRoom _ => exact absurd hw List.not_mem_nil

/-- Words from the shell ask for the flat request, and the check of its names never fails.
So the variable of the flat name is read, and a value is stored under the flat target.  Load
options with a character above U+FFFF are rejected, and the run leaves everything alone. -/
theorem shell_names_are_flat (l : Launch) (store : Store) :
    (∀ ws, l.arguments = .ofShell ws →
      Request.parse l.words = (Request.parse ((ws.map Arguments.upToNul).drop 1)).map .flat ∧
      ∀ r, Request.parse ((ws.map Arguments.upToNul).drop 1) = .ok r → ¬ r.flat.BadGuid →
        ∃ g, r.flat.HasVendor g ∧ (l.run store).reads = [⟨Utf16.flat r.name, g⟩] ∧
          ∀ w ∈ (l.run store).writes, r.target.map Utf16.flat = some w.key.name) ∧
    ∀ line, l.arguments = .ofLine line → (∃ c ∈ line.toList, 0xffff < c.toNat) →
      (l.run store).status = .invalidParameter ∧ (l.run store).reads = [] ∧
        (l.run store).writes = [] ∧ (l.run store).store = store := by
  constructor
  · intro ws shell
    have flat : Request.parse l.words =
        (Request.parse ((ws.map Arguments.upToNul).drop 1)).map .flat := by
      rw [words, shell, Arguments.words_ofShell, ← List.map_drop, Request.parse_map_flat]
    refine ⟨flat, ?_⟩
    intro r asked guid
    have parsed : Request.parse l.words = .ok r.flat := by
      rw [flat, asked]
      rfl
    have name := not_badName_of_shell shell parsed
    obtain ⟨⟨name, g⟩, names, reads, writes⟩ := run_of_wellFormed store parsed guid name
    cases names.name_eq
    exact ⟨g, names.vendor, reads, writes⟩
  · rintro line options ⟨c, hc, large⟩
    have none : l.words = [] := by
      rw [words, options, Arguments.words_ofLine ⟨c, hc, Nat.not_lt.mpr large⟩]
      rfl
    have noRequest : Request.parse l.words = .error .usage := by rw [none]; rfl
    have meets : l.Meets store.answer (.badArgument .usage) :=
      (meets_of_parse_error noRequest).mpr rfl
    exact ⟨meets.status, meets.reads, meets.writes, meets.storeAfter⟩

/-- A target of one character above U+FFFF sets the variable of two U+FFFD. -/
theorem shell_names_are_flat_target :
    let store : Store := Table.insert {} ⟨"Lang", .globalVariable⟩
      (.ok ⟨[0x41, 0x00], .bootServiceAccess⟩)
    let l : Launch := { arguments := .ofShell [Command.name, "--set", "😀", "Lang"] }
    (l.run store).reads = [⟨"Lang", .globalVariable⟩] ∧ (l.run store).writes.length = 1 ∧
      ∀ w ∈ (l.run store).writes, w.key.name = "\uFFFD\uFFFD" := by
  intro store l
  have asked : Request.parse (([Command.name, "--set", "😀", "Lang"].map
      Arguments.upToNul).drop 1) = .ok ⟨"Lang", none, .text, some "😀"⟩ := by decide +kernel
  obtain ⟨g, rfl, reads, writes⟩ := ((shell_names_are_flat l store).1 _ rfl).2 _ asked nofun
  refine ⟨reads, by decide +kernel, ?_⟩
  intro w hw
  have target : Utf16.flat "😀" = w.key.name := Option.some.inj (writes w hw)
  exact target.symm.trans (by decide)

/-- The shell hands over a name of one character above U+FFFF, and the variable of two U+FFFD
is read and printed.  The same line in the load options is rejected. -/
theorem shell_name_above_bmp :
    let store : Store := Table.insert {} ⟨"\uFFFD\uFFFD", .globalVariable⟩
      (.ok ⟨[0x41, 0x00], .bootServiceAccess⟩)
    let shell : Launch := { arguments := .ofShell [Command.name, "😀"] }
    let line : Launch := { arguments := .ofLine (CommandLine.quoted [Command.name, "😀"]) }
    ¬ Request.IsUcs2Name "😀" ∧
      (shell.run store).status = .success ∧ (shell.run store).text .out = "A\r\n" ∧
      (shell.run store).reads = [⟨"\uFFFD\uFFFD", .globalVariable⟩] ∧
      (line.run store).status = .invalidParameter ∧ (line.run store).reads = [] := by
  decide +kernel

end Launch

end FirmwareVars
