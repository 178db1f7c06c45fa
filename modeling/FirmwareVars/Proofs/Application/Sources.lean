import FirmwareVars.Proofs.Application.Logging
import FirmwareVars.Proofs.Application.Names
import FirmwareVars.Proofs.CommandLine.Quoted

/-!
# The two sources of the words

Words may come from the shell, or between quotes on the line in the load options.  If they
have no NUL and no character above U+FFFF, both sources give the words themselves
(`Arguments.words_ofShell_plain`, `Arguments.words_ofLine_plain`).

A run writes about its settings file and about the source of its words before it does
anything else, and what comes after does not depend on that (`Machine.run_eq`).  So the runs
from both sources differ in the record that says that a line is split, and in nothing else
(`Launch.sources_agree`).
-/

namespace FirmwareVars

/-! ## Words -/

theorem Text.isBlank_plain {c : Char} (h : isBlank c) : c ≠ '\x00' ∧ c.toNat ≤ 0xffff := by
  obtain ⟨range, mem, inside⟩ := List.any_eq_true.mp h
  have bounds : ∀ r ∈ blankRanges, 1 ≤ r.1 ∧ r.2 ≤ 0xffff := by decide
  simp only [Bool.and_eq_true, decide_eq_true_eq] at inside
  have low := (bounds range mem).1
  have high := (bounds range mem).2
  refine ⟨?_, by omega⟩
  rintro rfl
  exact absurd (Nat.le_trans low inside.1) (by decide)

/-- A line of words between quotes has no more characters than words, quotes, carets and
white space have. -/
theorem CommandLine.Quotes.plain {ws : List String} {line : String} (h : Quotes ws line)
    (plain : ∀ w ∈ ws, Request.IsUcs2Name w) : Request.IsUcs2Name line := by
  have marks : ∀ c ∈ ['"', '^'], c ≠ '\x00' ∧ c.toNat ≤ 0xffff :=
    List.forall_mem_cons.mpr ⟨by decide, List.forall_mem_singleton.mpr (by decide)⟩
  have quoted {w : String} (hw : Request.IsUcs2Name w) : Request.IsUcs2Name (quotedWord w) := by
    intro c hc
    rw [toList_quotedWord, List.mem_append, List.mem_cons, List.mem_singleton, escaped,
      List.mem_flatMap] at hc
    rcases hc with (rfl | ⟨d, hd, hc⟩) | rfl
    · exact marks _ (by simp)
    · split at hc
      · simp only [List.mem_cons, List.not_mem_nil, or_false] at hc
        rcases hc with rfl | rfl
        · exact marks _ (by simp)
        · exact hw _ hd
      · rw [List.mem_singleton.mp hc]
        exact hw d hd
    · exact marks _ (by simp)
  induction h with
  | none =>
      intro c hc
      cases hc
  | one w => exact quoted (plain w List.mem_cons_self)
  | more w gap _ ih =>
      rw [List.forall_mem_cons] at plain
      intro c hc
      rw [String.toList_append, String.toList_append, List.mem_append, List.mem_append] at hc
      rcases hc with (hc | hc) | hc
      · exact quoted plain.1 c hc
      · exact Text.isBlank_plain (gap.blank c hc)
      · exact ih plain.2 c hc

namespace Arguments

/-- The shell hands plain words over as they are. -/
theorem words_ofShell_plain {ws : List String} (plain : ∀ w ∈ ws, Request.IsUcs2Name w) :
    (ofShell ws).words = ws := by
  have same (w : String) (hw : w ∈ ws) : Utf16.flat (upToNul w) = w := by
    have whole : upToNul w = w := by
      rw [upToNul, List.takeWhile_eq_self_iff.mpr, String.ofList_toList]
      exact fun c hc => by simpa using (plain w hw c hc).1
    rw [whole, Utf16.flat_eq_self fun c hc => Nat.lt_succ_of_le (plain w hw c hc).2]
  rw [words_ofShell, List.map_map]
  conv_rhs => rw [← List.map_id ws]
  exact List.map_congr_left same

/-- The load options give a plain line as it is. -/
theorem words_ofLine_plain {line : String} (plain : Request.IsUcs2Name line) :
    (ofLine line).words = CommandLine.split line := by
  have small (c : Char) (hc : c ∈ line.toList) : c.toNat < 0x10000 :=
    Nat.lt_succ_of_le (plain c hc).2
  have units : (Utf16.ofString line).all fun u => u ≠ 0 ∧ ¬ Utf16.IsSurrogate u := by
    rw [List.all_eq_true]
    intro u hu
    obtain ⟨c, hc, hu⟩ := List.mem_flatMap.mp hu
    have nonzero := Utf16.ofChar_ne_zero (plain c hc).1 u hu
    rw [Utf16.ofChar, if_pos (small c hc), List.mem_singleton] at hu
    exact decide_eq_true ⟨nonzero, hu ▸ Utf16.not_isSurrogate_toNat (small c hc)⟩
  have read : lineOfUnits? (Utf16.ofString line ++ [0]) = some line := by
    rw [lineOfUnits?, List.dropLast_concat, List.getLast?_concat, if_pos ⟨rfl, units⟩,
      Utf16.text_ofString, Utf16.flat_eq_self small]
  have even : (Utf16.bytes (Utf16.ofString line ++ [0])).length % 2 = 0 := by
    rw [Utf16.length_bytes]
    omega
  rw [ofLine, words, Option.bind_some, lineOfBuffer?, if_pos even, Utf16.units_bytes, read]
  rfl

end Arguments

/-! ## What a run writes first -/

/-- The settings file is malformed. -/
def Log.malformed (e : Ini.Error) : Record :=
  ⟨.warn, .program, s!"{SettingsFile.name} is malformed: {shownIniError e}"⟩

/-- The words are cut out of the load options. -/
def Log.splitting : Record :=
  ⟨.debug, .program, "No shell parameters, splitting the load options"⟩

/-- What is written about the settings file. -/
def settingsEvents : Option Ini.Error → List Event
  | none => []
  | some e => [.record (Log.malformed e)]

/-- What is written about the source of the words. -/
def Arguments.sourceEvents : Arguments → List Event
  | .shell _ => []
  | .loadOptions _ => [.record Log.splitting]

namespace Machine

/-- The machine with events written before its own. -/
def precededBy (before : List Event) (m : Machine) : Machine :=
  { m with events := before ++ m.events }

variable (before : List Event)

theorem log_precededBy (m : Machine) (level : Log.Level) (source : Log.Source)
    (message : String) :
    (m.precededBy before).log level source message =
      (m.log level source message).precededBy before := by
  simp only [log, add, precededBy, List.append_assoc]

theorem read_precededBy (m : Machine) (key : Key) :
    (m.precededBy before).read key = ((m.read key).1, (m.read key).2.precededBy before) := by
  simp only [read, fetch, contents, precededBy, log, add]
  by_cases fits : FitsInNoRoom ((m.store.find? key).getD (.error .notFound))
  · simp only [fits, ↓reduceIte, List.append_assoc]
  · simp only [fits, ↓reduceIte, List.append_assoc]
    cases (m.store.find? key).getD (.error .notFound) with
    | error status => simp only [List.append_assoc]
    | ok c => simp only [List.append_assoc]

theorem lookup_precededBy (m : Machine) (key : Key) :
    (m.precededBy before).lookup key =
      ((m.lookup key).1, (m.lookup key).2.precededBy before) := by
  rw [lookup, lookup]
  split
  · exact m.read_precededBy before key
  · exact congrArg _ (m.log_precededBy before _ _ _)

theorem setVariable_precededBy (m : Machine) (w : Write) :
    (m.precededBy before).setVariable w =
      ((m.setVariable w).1, (m.setVariable w).2.precededBy before) := by
  rcases m with ⟨settings, _ | status, store, events, reads, writes, memory⟩
  · rfl
  · rfl

theorem write_precededBy (m : Machine) (name : String) (value : Value) :
    (m.precededBy before).write name value = (m.write name value).precededBy before := by
  have key : (m.precededBy before).storedKey name = m.storedKey name := rfl
  rw [write, write, key, log_precededBy]
  -- What the record of the setting says plays no part.
  generalize m.log _ _ _ = logged
  have settings : (logged.precededBy before).settings = logged.settings := rfl
  rw [settings, setVariable_precededBy]
  rcases logged.setVariable _ with ⟨status, after⟩
  show (if status = .success then _ else _) =
    precededBy before (if status = .success then _ else _)
  split
  · rfl
  · exact after.log_precededBy before _ _ _

theorem storeValue_precededBy (m : Machine) (name : String) (value : Value) :
    (m.precededBy before).storeValue name value =
      (m.storeValue name value).precededBy before := by
  rw [storeValue, storeValue]
  split
  · exact m.write_precededBy before name value
  · exact m.log_precededBy before _ _ _

/-- No call to a machine depends on what has been written before. -/
theorem isMap_precededBy : Host.IsMap (precededBy before) where
  lookup m key _ := lookup_precededBy before m key
  store m name value _ := storeValue_precededBy before m name value
  print m value := by simp only [Host.print, add, precededBy, List.append_assoc]
  record m r := by simp only [Host.record, add, precededBy, List.append_assoc]

/-- The machine on which the command with these words starts, with nothing written but
them. -/
def withWords (m : Machine) (ws : List String) : Machine :=
  { m with events := [] }.log .debug .program s!"Command line {Text.quotedList ws}"

theorem reported_eq (m : Machine) (e : Option Ini.Error) (a : Arguments) :
    (m.reportSettings e).reportArguments a =
      (m.withWords a.words).precededBy (m.events ++ settingsEvents e ++ a.sourceEvents) := by
  cases e <;> cases a <;>
    simp [reportSettings, reportArguments, withWords, precededBy, log, add, settingsEvents,
      Arguments.sourceEvents, Log.malformed, Log.splitting]

end Machine

/-- The end of a run writes after what has been written before. -/
theorem Outcome.ofResult_precededBy (before : List Event) (result : Except Error Unit)
    (m : Machine) :
    (ofResult (result, m.precededBy before)).status = (ofResult (result, m)).status ∧
      (ofResult (result, m.precededBy before)).toMachine =
        (ofResult (result, m)).toMachine.precededBy before := by
  cases result with
  | ok _ => exact ⟨rfl, rfl⟩
  | error e =>
      refine ⟨rfl, ?_⟩
      simp only [ofResult, Machine.log, Machine.add, Machine.precededBy, List.append_assoc]

/-- The outcome of the command with these words, with nothing written before them. -/
def Machine.runWords (m : Machine) (ws : List String) : Outcome :=
  .ofResult (Command.run (ws.drop 1) m.memory (m.withWords ws))

/-- A run does what its words say, after it has written about its settings file and about the
source of the words. -/
theorem Machine.run_eq (m : Machine) (e : Option Ini.Error) (a : Arguments) :
    (m.run e a).status = (m.runWords a.words).status ∧
      (m.run e a).toMachine = (m.runWords a.words).toMachine.precededBy
        (m.events ++ settingsEvents e ++ a.sourceEvents) := by
  rw [run, runWords, reported_eq, Command.run_map (isMap_precededBy _)]
  exact Outcome.ofResult_precededBy _ _ _

/-! ## Two runs -/

/-- Whether a run writes one record more than another one, after these events, and does not
differ in anything else. -/
structure Outcome.Adds (o p : Outcome) (before : List Event) (r : Log.Record) : Prop where
  status : o.status = p.status
  reads : o.reads = p.reads
  writes : o.writes = p.writes
  store : o.store = p.store
  events : ∃ after, p.events = before ++ after ∧ o.events = before ++ .record r :: after
  /-- The record is in the text of a console if it is logged there. -/
  text : ∀ c, ∃ after, p.text c = c.text p.settings.log before ++ after ∧
    o.text c = c.text p.settings.log before ++
      (if p.settings.log.device = some c ∧ p.settings.log.Admits r.level then
        Console.newlines (r.line p.settings.log.showPlace) else "") ++ after

theorem Console.text_append (c : Console) (log : Log.Setup) (before after : List Event) :
    c.text log (before ++ after) = c.text log before ++ c.text log after := by
  rw [text, List.map_append, String.join_append, newlines_append, text, text]

theorem Console.text_record (c : Console) (log : Log.Setup) (r : Log.Record) :
    c.text log [.record r] =
      if log.device = some c ∧ log.Admits r.level then newlines (r.line log.showPlace) else "" := by
  rw [text, List.map_singleton, Event.textOn, String.join_cons, String.join_nil,
    String.append_empty]
  split
  · rfl
  · rfl

/-- From both sources the words are the same, and so is the run after them. -/
theorem Machine.run_adds {ws : List String} {line : String}
    (plain : ∀ w ∈ ws, Request.IsUcs2Name w) (quotes : CommandLine.Quotes ws line) (m : Machine)
    (e : Option Ini.Error) :
    (m.run e (.ofLine line)).Adds (m.run e (.ofShell ws)) (m.events ++ settingsEvents e)
      Log.splitting := by
  obtain ⟨shellStatus, shell⟩ := m.run_eq e (.ofShell ws)
  obtain ⟨lineStatus, options⟩ := m.run_eq e (.ofLine line)
  rw [Arguments.words_ofShell_plain plain] at shellStatus shell
  rw [Arguments.words_ofLine_plain (quotes.plain plain),
    CommandLine.split_of_quotes quotes] at lineStatus options
  have shellEvents : (m.run e (.ofShell ws)).events =
      m.events ++ settingsEvents e ++ (m.runWords ws).events := by
    rw [shell, Arguments.ofShell, Arguments.sourceEvents, List.append_nil]
    rfl
  have lineEvents : (m.run e (.ofLine line)).events =
      m.events ++ settingsEvents e ++ .record Log.splitting :: (m.runWords ws).events := by
    rw [options]
    exact List.append_assoc _ [Event.record Log.splitting] _
  refine ⟨lineStatus.trans shellStatus.symm, ?_, ?_, ?_, ⟨_, shellEvents, lineEvents⟩, fun c => ?_⟩
  · rw [options, shell]
    rfl
  · rw [options, shell]
    rfl
  · rw [options, shell]
    rfl
  · refine ⟨c.text m.settings.log (m.runWords ws).events, ?_, ?_⟩
    · rw [Outcome.text, m.run_settings, shellEvents, Console.text_append]
    · have record := c.text_append m.settings.log [.record Log.splitting] (m.runWords ws).events
      rw [Console.text_record] at record
      rw [Outcome.text, m.run_settings, m.run_settings, lineEvents, Console.text_append,
        String.append_assoc, ← record]
      rfl

namespace Launch

/-- Plain words from the shell, and the same words between quotes in the load options, give
the same run.  The one with load options has one record more, which says that they are split
and comes after what is said about the settings file.  This holds under any settings and with
any error of the settings file, not only with those that a launch reads there. -/
theorem sources_agree {ws : List String} {line : String}
    (plain : ∀ w ∈ ws, Request.IsUcs2Name w) (quotes : CommandLine.Quotes ws line) (l : Launch)
    (store : Store) :
    let shell : Launch := { l with arguments := .ofShell ws }
    let options : Launch := { l with arguments := .ofLine line }
    (options.run store).Adds (shell.run store) (settingsEvents (l.start store).2)
      Log.splitting ∧
    ∀ (s : Settings) (e : Option Ini.Error),
      (options.runUnder s e store).Adds (shell.runUnder s e store) (settingsEvents e)
        Log.splitting := by
  intro shell options
  have adds := Machine.run_adds plain quotes
  exact ⟨adds (l.start store).1 (l.start store).2, fun s e => adds ⟨s, l.refusal, store, [], [], [], l.memory⟩ e⟩

/-- A target without a character, and a name of a space, a caret, a quote and letters. -/
theorem sources_agree_marked :
    let ws := [Command.name, Request.setFlag, "", "a ^\"b"]
    let line := CommandLine.quotedWord Command.name ++ "\u3000" ++
      (CommandLine.quotedWord Request.setFlag ++ " \t" ++
        (CommandLine.quotedWord "" ++ "\n" ++ CommandLine.quotedWord "a ^\"b"))
    let store : Store := Table.insert {} ⟨"a ^\"b", .globalVariable⟩
      (.ok ⟨[0x41, 0x00], .bootServiceAccess⟩)
    let shell : Launch := { arguments := .ofShell ws }
    let options : Launch := { arguments := .ofLine line }
    (∀ w ∈ ws, Request.IsUcs2Name w) ∧ CommandLine.Quotes ws line ∧
      (options.run store).Adds (shell.run store) [] Log.splitting ∧
      (options.run store).status = .success ∧
      (options.run store).writes.map (fun w => w.key.name) = [""] := by
  intro ws line store shell options
  have plain : ∀ w ∈ ws, Request.IsUcs2Name w := by decide
  have quotes : CommandLine.Quotes ws line :=
    .more _ (by decide) (.more _ (by decide) (.more _ (by decide) (.one _)))
  have noFile : (shell.start store).2 = none := by decide +kernel
  have adds := (sources_agree plain quotes shell store).1
  rw [noFile] at adds
  have status : (shell.run store).status = .success := by decide +kernel
  have writes : (shell.run store).writes.map (fun w => w.key.name) = [""] := by decide +kernel
  exact ⟨plain, quotes, adds, adds.status.trans status, by rw [adds.writes, writes]⟩

end Launch

end FirmwareVars
