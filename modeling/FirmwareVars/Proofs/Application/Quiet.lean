import FirmwareVars.Application.Run
import FirmwareVars.Proofs.Command.Calls

/-!
# Runs without their log

A `Quiet` machine is the firmware during a run without the records and without the
settings of the log.  It keeps no records, but reads, stores and prints like the
machine it is the view of (`Machine.isMap_quiet`).  So a launch ends as its command
ends on the quiet machine (`Launch.run_quiet`), whatever is logged on the way.

A run succeeds if and only if its command does
(`Quiet.exitStatus_eq_success_iff`), because no reading fails with success.
-/

namespace FirmwareVars

/-! ## The machine without its log -/

/-- Whether an event is a record for the log. -/
def Event.isRecord : Event → Bool
  | .record _ => true
  | .value _ => false
  | .failure _ => false

/-- What reading a variable of a store answers. -/
def Store.answer (store : Store) (key : Key) : Except Status (List UInt8) :=
  let contents := (store.find? key).getD (.error .notFound)
  if Machine.FitsInNoRoom contents then .error .unsupported else contents.map Contents.data

/-- The firmware during a run, without what concerns the log. -/
structure Quiet where
  /-- The vendor of stored values. -/
  vendor : Guid
  /-- The attributes of stored values. -/
  attributes : Attributes
  /-- The status that every setting of a variable ends with, if none succeeds. -/
  refusal : Option Status
  /-- The variables. -/
  store : Store
  /-- What has been written so far, without the records. -/
  output : List Event := []
  /-- The variables read so far. -/
  reads : List Key := []
  /-- The settings of variables asked for so far. -/
  writes : List Write := []

namespace Quiet

/-- The write that stores a value under a name. -/
def writeOf (q : Quiet) (name : String) (value : Value) : Write :=
  ⟨⟨name, q.vendor⟩, ⟨Machine.storedData value, q.attributes⟩⟩

/-- The variables after a write, which a refusal leaves as they are. -/
def storeAfter (q : Quiet) (w : Write) : Store :=
  match q.refusal with
  | some _ => q.store
  | none => q.store.insert w.key (.ok w.contents)

theorem storeAfter_of_accepted {q : Quiet} (h : q.refusal = none) (w : Write) :
    q.storeAfter w = q.store.insert w.key (.ok w.contents) := by
  simp only [storeAfter, h]

instance : Host Quiet where
  lookup q key := (q.store.answer key, { q with reads := q.reads ++ [key] })
  store q name value :=
    { q with store := q.storeAfter (q.writeOf name value),
             writes := q.writes ++ [q.writeOf name value] }
  print q value := { q with output := q.output ++ [.value value] }
  record q _ := q

end Quiet

namespace Machine

/-- The machine without its log. -/
def quiet (m : Machine) : Quiet where
  vendor := m.settings.vendor
  attributes := m.settings.attributes
  refusal := m.refusal
  store := m.store
  output := m.events.filter (!·.isRecord)
  reads := m.reads
  writes := m.writes

@[simp] theorem quiet_log (m : Machine) (level : Log.Level) (source : Log.Source)
    (message : String) : (m.log level source message).quiet = m.quiet := by
  simp [quiet, log, add, Event.isRecord]

/-- Both calls of a reading together answer as the store does, and leave no mark
but in the log. -/
theorem fetch_quiet (m : Machine) (key : Key) :
    (m.fetch key).1.map Contents.data = m.store.answer key ∧
      (m.fetch key).2.quiet = m.quiet := by
  rw [fetch, Store.answer, contents]
  split
  · exact ⟨rfl, m.quiet_log ..⟩
  · exact ⟨rfl, rfl⟩

theorem read_quiet (m : Machine) (key : Key) :
    Host.lookup m.quiet key = ((m.read key).1, (m.read key).2.quiet) := by
  rw [read]
  -- What the first record says plays no part.
  generalize hm : Machine.mk _ _ _ _ _ _ _ = asked
  have begun : asked.quiet = { m.quiet with reads := m.quiet.reads ++ [key] } := by
    rw [← hm]
    simp [quiet, log, add, Event.isRecord]
  have stored : asked.store = m.store := congrArg Quiet.store begun
  obtain ⟨answered, same⟩ := asked.fetch_quiet key
  rw [stored] at answered
  rcases hf : asked.fetch key with ⟨status | c, after⟩
  · rw [hf] at answered same
    show (m.store.answer key, _) = (_, (after.log ..).quiet)
    rw [quiet_log, same, begun, ← answered]
    rfl
  · rw [hf] at answered same
    show (m.store.answer key, _) = (_, (after.log ..).quiet)
    rw [quiet_log, same, begun, ← answered]
    rfl

theorem setVariable_quiet (m : Machine) (w : Write) :
    (m.setVariable w).2.quiet =
      { m.quiet with store := m.quiet.storeAfter w, writes := m.quiet.writes ++ [w] } := by
  rcases m with ⟨settings, _ | status, store, events, reads, writes, memory⟩
  · rfl
  · rfl

theorem write_quiet (m : Machine) (name : String) (value : Value) :
    Host.store m.quiet name value = (m.write name value).quiet := by
  rw [write]
  generalize hm : m.log _ _ _ = logged
  generalize hw : Write.mk _ _ = w
  have same : logged.quiet = m.quiet := by rw [← hm, quiet_log]
  have write : w = m.quiet.writeOf name value := by rw [← hw, ← hm]; rfl
  have done : (logged.setVariable w).2.quiet = Host.store m.quiet name value := by
    rw [setVariable_quiet, same, write]
    rfl
  rcases hs : logged.setVariable w with ⟨status, after⟩
  rw [hs] at done
  show _ = (if status = .success then after else after.log _ _ _).quiet
  split
  · exact done.symm
  · rw [quiet_log]
    exact done.symm

theorem lookup_quiet (m : Machine) {key : Key} (ok : Request.IsUcs2Name key.name) :
    Host.lookup m.quiet key = ((m.lookup key).1, (m.lookup key).2.quiet) := by
  rw [lookup, if_pos ok]
  exact m.read_quiet key

theorem store_quiet (m : Machine) {name : String} (ok : Request.IsUcs2Name name)
    (value : Value) : Host.store m.quiet name value = (m.storeValue name value).quiet := by
  rw [storeValue, if_pos ok]
  exact m.write_quiet name value

/-- A machine and its quiet view go through the same calls.  The quiet view does not check
names again, as no command gets to a call with one that the firmware has no units for. -/
theorem isMap_quiet : Host.IsMap Machine.quiet where
  lookup m _ ok := m.lookup_quiet ok
  store m _ value ok := m.store_quiet ok value
  print m value := by
    simp [Host.print, quiet, add, Event.isRecord]
  record m r := by
    simp [Host.record, quiet, add, Event.isRecord]

theorem reportSettings_quiet (m : Machine) (e : Option Ini.Error) :
    (m.reportSettings e).quiet = m.quiet := by
  cases e with
  | none => rfl
  | some e => exact m.quiet_log ..

theorem reportArguments_quiet (m : Machine) (a : Arguments) :
    (m.reportArguments a).quiet = m.quiet := by
  simp only [reportArguments, quiet_log]
  cases a with
  | shell words => rfl
  | loadOptions buffer => exact m.quiet_log ..

end Machine

/-! ## The end of a run -/

/-- The status of a run whose command has this result. -/
def exitStatus : Except Error Unit → Status
  | .ok () => .success
  | .error e => e.status

/-- The machine at the end of a run whose command has this result. -/
def Quiet.finish (q : Quiet) : Except Error Unit → Quiet
  | .ok () => q
  | .error e => { q with output := q.output ++ [.failure e] }

theorem Outcome.ofResult_quiet (result : Except Error Unit) (m : Machine) :
    (ofResult (result, m)).status = exitStatus result ∧
      (ofResult (result, m)).quiet = m.quiet.finish result := by
  cases result with
  | ok _ => exact ⟨rfl, rfl⟩
  | error e =>
      refine ⟨rfl, ?_⟩
      simp [ofResult, Machine.quiet, Machine.log, Machine.add, Quiet.finish, Event.isRecord]

namespace Launch

/-- The settings of a launch. -/
def settings (l : Launch) : Settings := (Settings.ofBytes l.settingsFile.content).1

/-- The firmware at the start of a launch, without its log. -/
def quiet (l : Launch) (store : Store) : Quiet where
  vendor := l.settings.vendor
  attributes := l.settings.attributes
  refusal := l.refusal
  store := store

/-- The words after the name of the command. -/
def words (l : Launch) : List String := l.arguments.words.drop 1

/-- A launch ends as its command ends without a log. -/
theorem run_quiet (l : Launch) (store : Store) :
    (l.run store).status = exitStatus (Command.run l.words l.memory (l.quiet store)).1 ∧
      (l.run store).quiet =
        (Command.run l.words l.memory (l.quiet store)).2.finish
          (Command.run l.words l.memory (l.quiet store)).1 := by
  rw [run, Machine.run]
  have room : (l.start store).1.memory = l.memory := rfl
  generalize hm : Machine.reportArguments _ _ = m
  have same : m.quiet = l.quiet store := by
    rw [← hm, Machine.reportArguments_quiet, Machine.reportSettings_quiet]
    rfl
  have ran := Command.run_map Machine.isMap_quiet l.words l.memory m
  rw [same] at ran
  rw [ran, room]
  exact Outcome.ofResult_quiet _ _

end Launch

/-! ## Success -/

/-- No reading fails with success. -/
theorem Store.answer_ne_success (store : Store) (key : Key) :
    store.answer key ≠ .error .success := by
  rw [answer]
  generalize (store.find? key).getD (.error .notFound) = contents
  cases contents with
  | ok c =>
      show (if _ then _ else _) ≠ _
      split
      · simp [Status.unsupported, Status.success, Status.error, Status.errorBit]
      · simp [Except.map]
  | error status =>
      show (if _ then _ else _) ≠ _
      split
      · simp [Status.unsupported, Status.success, Status.error, Status.errorBit]
      · next h =>
        intro same
        cases same
        exact h rfl

/-- No error of a command has the status of success. -/
theorem Quiet.status_ne_success {q : Quiet} {words : List String} {memory : Memory} {e : Error}
    (h : (Command.run words memory q).1 = .error e) : e.status ≠ .success := by
  cases hp : Request.parse words with
  | error cause =>
      rw [(Command.calls_of_parse_error hp memory q).1] at h
      cases h
      exact (by decide : Status.invalidParameter ≠ .success)
  | ok r =>
      have way := (Command.way_iff hp memory q _ _).mpr ⟨rfl, rfl⟩
      rw [h] at way
      generalize Command.calls words memory q = calls at way
      cases way with
      | badGuid _ => decide
      | badName _ _ => decide
      | @notRead key status _ answer =>
          intro same
          exact q.store.answer_ne_success key (answer.trans (congrArg Except.error same))
      | tooShort _ _ _ _ => exact (by decide : Status.badBufferSize ≠ .success)
      | noRoom _ _ _ _ => decide

/-- A run succeeds if and only if its command does. -/
theorem Quiet.exitStatus_eq_success_iff (q : Quiet) (words : List String) (memory : Memory) :
    exitStatus (Command.run words memory q).1 = .success ↔
      (Command.run words memory q).1 = .ok () := by
  cases h : (Command.run words memory q).1 with
  | error e => simp [exitStatus, status_ne_success h]
  | ok _ => simp [exitStatus]

end FirmwareVars
