import FirmwareVars.Proofs.Application.Ending

/-!
# What the log changes

A machine whose log is set up anew goes through the same calls with the same events
(`Machine.isMap_withLog`).  So the setup of the log decides which events show on the
consoles, and nothing else.  The level is a filter on what the lowest level shows, and a
device gets all the records that the level admits (`Launch.logging_only_shows`).  These are
the records of `Log.Level.upTo`, which lists the levels that are at least as severe and knows
nothing of the ranks that the logger compares (`Log.Level.rank_le_iff`).
-/

namespace FirmwareVars

/-! ## A machine with another log -/

namespace Machine

/-- The machine with its log set up anew. -/
def withLog (log : Log.Setup) (m : Machine) : Machine :=
  { m with settings := { m.settings with log } }

variable (log : Log.Setup)

theorem read_withLog (m : Machine) (key : Key) :
    (m.withLog log).read key = ((m.read key).1, (m.read key).2.withLog log) := by
  simp only [read, fetch, contents, withLog, Machine.log, add]
  by_cases fits : FitsInNoRoom ((m.store.find? key).getD (.error .notFound))
  · simp only [fits, ↓reduceIte]
  · simp only [fits, ↓reduceIte]
    cases (m.store.find? key).getD (.error .notFound) <;> rfl

theorem lookup_withLog (m : Machine) (key : Key) :
    (m.withLog log).lookup key = ((m.lookup key).1, (m.lookup key).2.withLog log) := by
  rw [lookup, lookup]
  split
  · exact read_withLog log m key
  · rfl

theorem write_withLog (m : Machine) (name : String) (value : Value) :
    (m.withLog log).write name value = (m.write name value).withLog log := by
  rw [write, write]
  rcases m with ⟨settings, _ | status, store, events, reads, writes, memory⟩
  · rfl
  · show (if status = .success then _ else _) = withLog log (if status = .success then _ else _)
    split <;> rfl

theorem storeValue_withLog (m : Machine) (name : String) (value : Value) :
    (m.withLog log).storeValue name value = (m.storeValue name value).withLog log := by
  rw [storeValue, storeValue]
  split
  · exact write_withLog log m name value
  · rfl

/-- No call to a machine depends on the setup of its log. -/
theorem isMap_withLog : Host.IsMap (withLog log) where
  lookup m key _ := lookup_withLog log m key
  store m name value _ := storeValue_withLog log m name value
  print _ _ := rfl
  record _ _ := rfl

theorem reportSettings_withLog (m : Machine) (e : Option Ini.Error) :
    (m.withLog log).reportSettings e = (m.reportSettings e).withLog log := by
  cases e <;> rfl

theorem reportArguments_withLog (m : Machine) (a : Arguments) :
    (m.withLog log).reportArguments a = (m.reportArguments a).withLog log := by
  cases a <;> rfl

/-- A run with another log ends with the same status, on the same machine but for its
log. -/
theorem run_withLog (m : Machine) (e : Option Ini.Error) (a : Arguments) :
    ((m.withLog log).run e a).status = (m.run e a).status ∧
      ((m.withLog log).run e a).toMachine = (m.run e a).withLog log := by
  have room : (m.withLog log).memory = m.memory := rfl
  rw [run, run, reportSettings_withLog, reportArguments_withLog, room,
    Command.run_map (isMap_withLog log)]
  rcases Command.run (a.words.drop 1) m.memory ((m.reportSettings e).reportArguments a) with
    ⟨_ | _, m⟩
  · exact ⟨rfl, rfl⟩
  · exact ⟨rfl, rfl⟩

end Machine

/-! ## The order of severity -/

/-- The levels that are at least as severe as this one, the most severe first. -/
def Log.Level.upTo : Log.Level → List Log.Level
  | .error => [.error]
  | .warn => [.error, .warn]
  | .info => [.error, .warn, .info]
  | .debug => [.error, .warn, .info, .debug]
  | .trace => [.error, .warn, .info, .debug, .trace]

/-- The ranks that the logger compares go by the order of severity. -/
theorem Log.Level.rank_le_iff (level other : Log.Level) :
    level.rank ≤ other.rank ↔ level ∈ other.upTo := by
  cases level <;> cases other <;> decide

theorem Log.Setup.admits_iff (s : Log.Setup) (level : Log.Level) :
    s.Admits level ↔ level ∈ s.level.upTo :=
  level.rank_le_iff s.level

theorem Log.Level.mem_upTo_trace (level : Log.Level) : level ∈ trace.upTo := by
  cases level <;> decide

/-! ## Two runs -/

/-- Whether an event passes a level.  A record does if it is at least as severe.  Values and
errors always do. -/
def Event.Passes (level : Log.Level) : Event → Prop
  | .record r => r.level ∈ level.upTo
  | .value _ => True
  | .failure _ => True

instance (level : Log.Level) : DecidablePred (Event.Passes level)
  | .record r => inferInstanceAs (Decidable (r.level ∈ level.upTo))
  | .value _ => inferInstanceAs (Decidable True)
  | .failure _ => inferInstanceAs (Decidable True)

/-- The settings with every record admitted. -/
def Settings.traced (s : Settings) : Settings := { s with log := { s.log with level := .trace } }

namespace Outcome

/-- The events that show on a console. -/
def shown (o : Outcome) (c : Console) : List Event := c.shown o.settings.log o.events

/-- Whether two runs differ in nothing but their log. -/
structure SameEffect (o p : Outcome) : Prop where
  status : o.status = p.status
  reads : o.reads = p.reads
  writes : o.writes = p.writes
  store : o.store = p.store
  output : ∀ c, (o.shown c).filter (!·.isRecord) = (p.shown c).filter (!·.isRecord)

end Outcome

namespace Console

variable (c : Console) (log : Log.Setup) (events : List Event)

/-- Which values and errors show does not depend on the log. -/
theorem shown_output (other : Log.Setup) :
    (c.shown log events).filter (!·.isRecord) = (c.shown other events).filter (!·.isRecord) := by
  rw [shown, shown, List.filter_filter, List.filter_filter]
  congr 1
  funext e
  cases e with
  | record r => rfl
  | value v => rfl
  | failure e => rfl

/-- The records on a console are the admitted ones if it is the device, and otherwise
none. -/
theorem shown_records :
    (c.shown log events).filter Event.isRecord =
      if log.device = some c then (events.filter Event.isRecord).filter (Event.Passes log.level)
      else [] := by
  rw [shown]
  split
  · next device =>
    rw [List.filter_filter, List.filter_filter]
    refine List.filter_congr fun e _ => ?_
    rw [Bool.eq_iff_iff, Bool.and_eq_true, Bool.and_eq_true, decide_eq_true_iff,
      decide_eq_true_iff]
    cases e with
    | record r => simp [Event.isRecord, Event.ShowsOn, Event.Passes, log.admits_iff, device]
    | value v => simp [Event.isRecord]
    | failure e => simp [Event.isRecord]
  · next elsewhere =>
    rw [List.filter_eq_nil_iff]
    intro e he record
    cases e with
    | record r => exact elsewhere (of_decide_eq_true (List.mem_filter.mp he).2).1
    | value v => cases record
    | failure e => cases record

/-- A level shows what passes it of all that the lowest level shows. -/
theorem shown_level :
    c.shown log events =
      (c.shown { log with level := .trace } events).filter (Event.Passes log.level) := by
  rw [shown, shown, List.filter_filter]
  refine List.filter_congr fun e _ => ?_
  rw [Bool.eq_iff_iff, Bool.and_eq_true, decide_eq_true_iff, decide_eq_true_iff,
    decide_eq_true_iff]
  cases e with
  | record r =>
      simp [Event.ShowsOn, Event.Passes, Log.Setup.admits_iff, r.level.mem_upTo_trace, and_comm]
  | value v => simp [Event.ShowsOn, Event.Passes]
  | failure e => simp [Event.ShowsOn, Event.Passes]

end Console

namespace Launch

/-- The run of a launch whose settings file gives these settings and this error. -/
def runUnder (l : Launch) (s : Settings) (e : Option Ini.Error) (store : Store) : Outcome :=
  Machine.run { settings := s, store, refusal := l.refusal, memory := l.memory } e l.arguments

theorem runUnder_settings (l : Launch) (s : Settings) (e : Option Ini.Error) (store : Store) :
    (l.runUnder s e store).settings = s :=
  Machine.run_settings _ e l.arguments

/-- Settings that differ in the log alone give the same events and the same effect. -/
theorem runUnder_log (l : Launch) {s t : Settings} (vendor : t.envVendor = s.envVendor)
    (volatile : t.envVolatile = s.envVolatile) (e : Option Ini.Error) (store : Store) :
    (l.runUnder t e store).status = (l.runUnder s e store).status ∧
      (l.runUnder t e store).toMachine = (l.runUnder s e store).withLog t.log := by
  have same : Machine.mk t l.refusal store [] [] [] l.memory =
      (Machine.mk s l.refusal store [] [] [] l.memory).withLog t.log := by
    rcases t with ⟨log, _, _⟩
    cases vendor
    cases volatile
    rfl
  rw [runUnder, same]
  exact Machine.run_withLog _ _ _ _

theorem runUnder_events (l : Launch) {s t : Settings} (vendor : t.envVendor = s.envVendor)
    (volatile : t.envVolatile = s.envVolatile) (e : Option Ini.Error) (store : Store) :
    (l.runUnder t e store).events = (l.runUnder s e store).events := by
  rw [(l.runUnder_log vendor volatile e store).2]
  rfl

/-- The log changes nothing but which records show.  Two runs that differ in the setup of
the log alone have the same effect.  A console shows its events in order, those of a level
are the ones of the lowest level that pass it, and the records on a console are all that
pass the level if it is the device, and none if it is not. -/
theorem logging_only_shows (l : Launch) (store : Store) (s : Settings) (e : Option Ini.Error) :
    l.run store = l.runUnder l.settings (l.start store).2 store ∧
    (∀ t : Settings, t.envVendor = s.envVendor → t.envVolatile = s.envVolatile →
      (l.runUnder t e store).SameEffect (l.runUnder s e store)) ∧
    ∀ c, (l.runUnder s e store).text c = Console.newlines (String.join
        (((l.runUnder s e store).shown c).map (Event.text s.log.showPlace))) ∧
      (l.runUnder s e store).shown c =
        ((l.runUnder s.traced e store).shown c).filter (Event.Passes s.log.level) ∧
      ((l.runUnder s e store).shown c).filter Event.isRecord =
        if s.log.device = some c then
          ((l.runUnder s e store).events.filter Event.isRecord).filter (Event.Passes s.log.level)
        else [] := by
  refine ⟨rfl, ?_, ?_⟩
  · intro t vendor volatile
    obtain ⟨status, machine⟩ := l.runUnder_log vendor volatile e store
    constructor
    · exact status
    · rw [machine]
      rfl
    · rw [machine]
      rfl
    · rw [machine]
      rfl
    · intro c
      rw [Outcome.shown, l.runUnder_events vendor volatile]
      exact c.shown_output _ _ _
  · intro c
    have settings := l.runUnder_settings s e store
    refine ⟨?_, ?_, ?_⟩
    · rw [Outcome.text, Console.text_eq, Outcome.shown, settings]
    · have events := l.runUnder_events (s := s) (t := s.traced) rfl rfl e store
      rw [Outcome.shown, Outcome.shown, events, settings, l.runUnder_settings]
      exact c.shown_level _ _
    · rw [Outcome.shown, settings]
      exact c.shown_records _ _

/-- A letter is printed with all the records around it, and without a log alone.  For a
variable that is not there, the middle level shows two of the five records. -/
theorem logging_only_shows_letter :
    let store : Store := Table.insert {} ⟨"Lang", .globalVariable⟩
      (.ok ⟨[0x41, 0x00], .bootServiceAccess⟩)
    let l : Launch := { arguments := .ofShell [Command.name, "Lang"] }
    let absent : Launch := { arguments := .ofShell [Command.name, "Absent"] }
    let quiet : Settings := { log := { device := none } }
    let loud : Settings := { log := { device := some .out, level := .trace } }
    let middle : Settings := { log := { device := some .out, level := .info } }
    (l.runUnder loud none store).SameEffect (l.runUnder quiet none store) ∧
      (l.runUnder quiet none store).text .out = "A\r\n" ∧
      ((l.runUnder loud none store).shown .out).length = 6 ∧
      (absent.runUnder middle none store).shown .out =
        ((absent.runUnder loud none store).shown .out).filter (Event.Passes .info) ∧
      ((absent.runUnder loud none store).shown .out).length = 5 ∧
      (absent.runUnder middle none store).text .out =
        "[INFO   ][efivar::firmware] Reading Absent of EfiGlobalVariable " ++
          "8be4df61-93ca-11d2-aa0d-00e098032b8c\r\n" ++
          "[ERROR  ][efivar::firmware] Cannot read Absent: NOT_FOUND\r\n" := by
  intro store l absent quiet loud middle
  obtain ⟨-, same, -⟩ := logging_only_shows l store quiet none
  obtain ⟨-, -, filtered⟩ := logging_only_shows absent store middle none
  exact ⟨same loud rfl rfl, by decide +kernel, by decide +kernel, (filtered .out).2.1,
    by decide +kernel, by decide +kernel⟩

end Launch

end FirmwareVars
