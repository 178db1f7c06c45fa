import FirmwareVars.Proofs.Application.Ending
import FirmwareVars.Proofs.Application.Settings
import FirmwareVars.Proofs.Ini.Cut

/-!
# Long settings files

A run reads no more of its settings file than there is room for, so a long file is cut.  The
settings are then those of some of its first lines, unless the line where the cut falls is
misread.  In that case its entry counts although no line of the file holds it
(`Launch.settings_of_long_file`).

A misread line is malformed behind the cut, or the end of its value is lost.  What is left of
the value may be a value too, or stand for off (`Launch.settings_of_misread_line`).
-/

namespace FirmwareVars

/-- A run goes by what there is room for of its settings file. -/
theorem Launch.settings_of_present {l : Launch} {bytes : List UInt8}
    (present : l.settingsFile = .present bytes) (store : Store) :
    (l.run store).settings = .ofLast (Ini.entries (bytes.take SettingsFile.bufferSize)) := by
  rw [l.run_settings, settings, present, SettingsFile.content, Settings.ofBytes_eq]

/-- The settings of a run are those of some of the first lines of its settings file, among them
all that there is room for, unless a line is misread.  Then the line is malformed or has a
longer value, and what is read of it counts behind the lines before. -/
theorem Launch.settings_of_long_file {l : Launch} {bytes : List UInt8}
    (present : l.settingsFile = .present bytes) (store : Store) :
    ((∀ k line e, ¬ Ini.Misread SettingsFile.bufferSize bytes k line e) →
      ∃ k, (Ini.lines (bytes.take SettingsFile.bufferSize)).length ≤ k + 1 ∧
        (l.run store).settings = (Settings.ofBytes (Ini.firstLines k bytes)).1) ∧
    ∀ k line e, Ini.Misread SettingsFile.bufferSize bytes k line e →
      (l.run store).settings = (Settings.ofBytes (Ini.firstLines k bytes)).1.setEntry e ∧
      ((∃ error, Ini.Line.read (k + 1) line = .error error) ∨
        ∃ f, Ini.Line.read (k + 1) line = .ok (some f) ∧ f.key = e.key ∧ e.value <+: f.value ∧
          e.value ≠ f.value) := by
  rw [settings_of_present present]
  constructor
  · intro read
    obtain ⟨k, room, same⟩ := Ini.entries_take read
    exact ⟨k, room, by rw [same, Settings.ofBytes_eq]⟩
  · intro k line e misread
    refine ⟨?_, misread.line_cases⟩
    rw [misread.entries_take, Settings.ofLast_concat, Settings.ofBytes_eq]

/-! ## Files that are cut in their second line -/

namespace SettingsFile

/-- A file with a comment that leaves room for 17 bytes of the line behind it. -/
def afterComment (line : List UInt8) : List UInt8 :=
  List.replicate 4078 Ini.hashMark ++ Ini.lineFeed :: line

/-- The comment is a line without an entry. -/
theorem read_comment (number : Nat) :
    Ini.Line.read number (List.replicate 4078 Ini.hashMark) = .ok none := by
  apply Ini.Line.read_eq_none
  rw [List.replicate_succ]
  rfl

variable {line : List UInt8} (free : Ini.lineFeed ∉ line ∧ 0 ∉ line)

theorem comment_free : Ini.lineFeed ∉ List.replicate 4078 Ini.hashMark ∧
    0 ∉ List.replicate 4078 Ini.hashMark := by
  constructor
  · intro mem
    cases List.eq_of_mem_replicate mem
  · intro mem
    cases List.eq_of_mem_replicate mem

include free

theorem lines_afterComment :
    Ini.lines (afterComment line) = [List.replicate 4078 Ini.hashMark, line] := by
  rw [afterComment, Ini.lines_append comment_free, Ini.lines_last free]

theorem cutsAt_afterComment {k : Nat} {part next : List UInt8} :
    Ini.CutsAt bufferSize (afterComment line) k part next ↔
      k = 1 ∧ part = line.take 17 ∧ next = line := by
  have room : bufferSize = (List.replicate 4078 Ini.hashMark).length + (17 + 1) := by
    rw [List.length_replicate]
    rfl
  rw [room]
  exact Ini.cutsAt_second_iff comment_free free

/-- The comment gives nothing, and the line behind it what it gives. -/
theorem entries_afterComment {e : Ini.Entry} (read : Ini.Line.read 2 line = .ok (some e))
    (k : Nat) :
    Ini.entries (Ini.firstLines k (afterComment line)) = if k ≤ 1 then [] else [e] := by
  have items := Ini.items_firstLines k (afterComment line)
  rw [lines_afterComment free] at items
  rcases k with _ | _ | k
  · exact ((Ini.Gives.done 1).entries_eq items).1
  · exact ((Ini.Gives.blank (read_comment 1) (.done 2)).entries_eq items).1
  · rw [List.take_of_length_le (Nat.le_add_left 2 k)] at items
    have gives := Ini.Gives.blank (read_comment 1) (.entry read (.done 3))
    rw [(gives.entries_eq items).1, if_neg (by omega)]

theorem misread_afterComment {e : Ini.Entry}
    (part : Ini.Line.read 2 (line.take 17) = .ok (some e))
    (whole : Ini.Line.read 2 line ≠ .ok (some e)) :
    Ini.Misread bufferSize (afterComment line) 1 line e where
  before := by
    have items := Ini.items_firstLines 1 (afterComment line)
    rw [lines_afterComment free] at items
    exact ((Ini.Gives.blank (read_comment 1) (.done 2)).entries_eq items).2
  part := ⟨line.take 17, (cutsAt_afterComment free).mpr ⟨rfl, rfl, rfl⟩, part⟩
  whole := whole

end SettingsFile

/-- A cut inside of quotes, and one inside of a value without quotes. -/
theorem Launch.settings_of_long_file_cut :
    let quoted := SettingsFile.afterComment (Utf8.encode "log_level = \"debug\"")
    let line := Utf8.encode "env_volatile = yes"
    let bare := SettingsFile.afterComment line
    let e : Ini.Entry := ⟨Utf8.encode "env_volatile", Utf8.encode "ye"⟩
    (∀ k line e, ¬ Ini.Misread SettingsFile.bufferSize quoted k line e) ∧
    (∃ k, (Ini.lines (quoted.take SettingsFile.bufferSize)).length ≤ k + 1 ∧
      (Launch.run { settingsFile := .present quoted } {}).settings =
        (Settings.ofBytes (Ini.firstLines k quoted)).1) ∧
    Ini.Misread SettingsFile.bufferSize bare 1 line e ∧
    (Launch.run { settingsFile := .present bare } {}).settings =
      (Settings.ofBytes (Ini.firstLines 1 bare)).1.setEntry e := by
  intro quoted line bare e
  have read : ∀ k line e, ¬ Ini.Misread SettingsFile.bufferSize quoted k line e := by
    rintro k line e ⟨-, ⟨part, cut, entry⟩, -⟩
    obtain ⟨rfl, rfl, rfl⟩ := (SettingsFile.cutsAt_afterComment (by decide +kernel)).mp cut
    have unmatched : Ini.Line.read 2 ((Utf8.encode "log_level = \"debug\"").take 17) =
        .error (.unmatchedQuote ⟨2, 13⟩) := by decide +kernel
    rw [unmatched] at entry
    cases entry
  have misread : Ini.Misread SettingsFile.bufferSize bare 1 line e :=
    SettingsFile.misread_afterComment (by decide +kernel) (by decide +kernel) (by decide +kernel)
  exact ⟨read, (settings_of_long_file rfl {}).1 read, misread,
    ((settings_of_long_file rfl {}).2 1 line e misread).1⟩

/-- The line says that stored values are gone after a reboot.  The part that is read of it says
that they are not, so no lines of the file give these settings. -/
theorem Launch.settings_of_misread_line :
    let file := SettingsFile.afterComment (Utf8.encode "env_volatile = yes")
    ¬ ∃ k, (Launch.run { settingsFile := .present file } {}).settings =
      (Settings.ofBytes (Ini.firstLines k file)).1 := by
  intro file
  rintro ⟨k, same⟩
  let name := Utf8.encode "env_volatile"
  have free : Ini.lineFeed ∉ Utf8.encode "env_volatile = yes" ∧
      0 ∉ Utf8.encode "env_volatile = yes" := by decide +kernel
  have misread : Ini.Misread SettingsFile.bufferSize file 1 _ ⟨name, Utf8.encode "ye"⟩ :=
    SettingsFile.misread_afterComment free (by decide +kernel) (by decide +kernel)
  have whole (k : Nat) : Ini.entries (Ini.firstLines k file) =
      if k ≤ 1 then [] else [⟨name, Utf8.encode "yes"⟩] :=
    SettingsFile.entries_afterComment free (by decide +kernel) k
  have off : (Settings.ofLast [⟨name, Utf8.encode "ye"⟩]).envVolatile = false := by
    decide +kernel
  have on : (Settings.ofLast [⟨name, Utf8.encode "yes"⟩]).envVolatile = true := by
    decide +kernel
  rw [settings_of_present rfl, misread.entries_take, Settings.ofBytes_eq, whole 1, whole k] at same
  have differ := off.symm.trans (congrArg Settings.envVolatile same)
  split at differ
  · cases differ
  · rw [on] at differ
    cases differ

end FirmwareVars
