import FirmwareVars.Application.Launch
import FirmwareVars.Application.Settings
import FirmwareVars.Application.Transcript
import FirmwareVars.Table

/-!
# Runs of the program

A run reads the settings file, takes the arguments, drops the name of the
command and runs it on the firmware.  A value that is to be stored becomes a
variable, as units with a zero unit at the end.  That the firmware refuses it is
logged and no failure of the command.

`Machine` is the firmware during a run, and `Outcome` is what can be seen
afterwards.
-/

namespace FirmwareVars

/-- The variables of a firmware, each with what reading it gives. -/
abbrev Store := Table Key (Except Status Contents)

/-- A setting of a variable that the program asked for. -/
structure Write where
  /-- The variable. -/
  key : Key
  /-- What it is set to. -/
  contents : Contents
deriving DecidableEq, Repr

/-- The firmware during a run. -/
structure Machine where
  /-- The settings of the run. -/
  settings : Settings
  /-- The status that every setting of a variable ends with, if none succeeds. -/
  refusal : Option Status
  /-- The variables. -/
  store : Store
  /-- What has been written so far. -/
  events : List Event := []
  /-- The variables read so far. -/
  reads : List Key := []
  /-- The settings of variables asked for so far. -/
  writes : List Write := []
  /-- The memory that the command runs in. -/
  memory : Memory := {}

namespace Machine

/-- The machine after an event. -/
def add (m : Machine) (e : Event) : Machine := { m with events := m.events ++ [e] }

/-- The machine after a record. -/
def log (m : Machine) (level : Log.Level) (source : Log.Source) (message : String) : Machine :=
  m.add (.record ⟨level, source, message⟩)

/-! ## Calls -/

/-- What the store holds for a variable.  A variable that is not there fails to
be read. -/
def contents (m : Machine) (key : Key) : Except Status Contents :=
  (m.store.find? key).getD (.error .notFound)

/-- Whether the firmware succeeds when it is given no room for the data, as it
does when there are none. -/
def FitsInNoRoom : Except Status Contents → Prop
  | .error status => status = .success
  | .ok c => c.data = []

instance : DecidablePred FitsInNoRoom
  | .error status => inferInstanceAs (Decidable (status = .success))
  | .ok c => inferInstanceAs (Decidable (c.data = []))

/-- Reads a variable in two calls.  The first one gives no room, so that the
firmware refuses and tells the size, and the second gives room of that size.  If
the first one succeeds there are no data to make room for, and the reading counts
as unsupported. -/
def fetch (m : Machine) (key : Key) : Except Status Contents × Machine :=
  if FitsInNoRoom (m.contents key) then
    (.error .unsupported, m.log .debug .buffer "Got unexpected success status")
  else (m.contents key, m)

/-- Reads a variable and logs how that went. -/
def read (m : Machine) (key : Key) : Except Status (List UInt8) × Machine :=
  let m := m.log .info .firmware
    s!"Reading {key.name} of {Vendor.label key.guid} {key.guid.text}"
  let m := { m with reads := m.reads ++ [key] }
  match m.fetch key with
  | (.error status, m) =>
      (.error status, m.log .error .firmware s!"Cannot read {key.name}: {status.name}")
  | (.ok c, m) =>
      (.ok c.data, m.log .debug .firmware
        s!"{key.name}: {c.data.length} bytes, {c.attributes.text}")

/-- Reads a variable if the firmware has units for its name. -/
def lookup (m : Machine) (key : Key) : Except Status (List UInt8) × Machine :=
  if Request.IsUcs2Name key.name then m.read key
  else
    (.error .invalidParameter,
      m.log .error .firmware s!"{Text.quoted key.name} is not a UCS-2 variable name")

/-- The bytes a value is stored as. -/
def storedData (value : Value) : List UInt8 := Utf16.bytes (value.units ++ [0])

/-- The variable that a value is stored in. -/
def storedKey (m : Machine) (name : String) : Key := ⟨name, m.settings.vendor⟩

/-- Sets a variable, and gives the status of that. -/
def setVariable (m : Machine) (w : Write) : Status × Machine :=
  let m := { m with writes := m.writes ++ [w] }
  match m.refusal with
  | some status => (status, m)
  | none => (.success, { m with store := m.store.insert w.key (.ok w.contents) })

/-- Sets a variable to a value and logs how that went. -/
def write (m : Machine) (name : String) (value : Value) : Machine :=
  let key := m.storedKey name
  let m := m.log .info .firmware
    s!"Setting {name} of {Vendor.label key.guid} {key.guid.text} to '{value.display}'"
  match m.setVariable ⟨key, ⟨storedData value, m.settings.attributes⟩⟩ with
  | (status, m) =>
      if status = .success then m
      else m.log .error .firmware s!"Cannot set {name}: {status.name}"

/-- Stores a value in a variable if the firmware has units for its name. -/
def storeValue (m : Machine) (name : String) (value : Value) : Machine :=
  if Request.IsUcs2Name name then m.write name value
  else m.log .error .firmware s!"Invalid environment variable name {Text.quoted name}"

instance : Host Machine where
  lookup := lookup
  store := storeValue
  print m value := m.add (.value value)
  record m r := m.add (.record r)

/-! ## The course of a run -/

/-- The machine after the error of the settings file, if there is one, has been
reported. -/
def reportSettings (m : Machine) : Option Ini.Error → Machine
  | none => m
  | some e =>
      m.log .warn .program s!"{SettingsFile.name} is malformed: {Log.shownIniError e}"

/-- The machine after the words have been taken from the arguments. -/
def reportArguments (m : Machine) (a : Arguments) : Machine :=
  let m :=
    match a with
    | .shell _ => m
    | .loadOptions _ =>
        m.log .debug .program "No shell parameters, splitting the load options"
  m.log .debug .program s!"Command line {Text.quotedList a.words}"

end Machine

/-- What can be seen after a run: the firmware, and the status that the program
ended with. -/
structure Outcome extends Machine where
  status : Status

namespace Outcome

/-- What a console shows after a run. -/
def text (o : Outcome) (c : Console) : String := c.text o.settings.log o.events

/-- The outcome of a run whose command has ended. -/
def ofResult : Except Error Unit × Machine → Outcome
  | (.ok (), m) => { m with status := .success }
  | (.error e, m) =>
      { (m.log .debug .program (Log.shownError e)).add (.failure e) with status := e.status }

end Outcome

/-- The outcome of a run that starts on this machine. -/
def Machine.run (m : Machine) (settingsError : Option Ini.Error) (a : Arguments) : Outcome :=
  .ofResult (Command.run (a.words.drop 1) m.memory
    ((m.reportSettings settingsError).reportArguments a))

/-! ## Launches -/

namespace Launch

/-- The firmware at the start of a launch, and the error of its settings file. -/
def start (l : Launch) (store : Store) : Machine × Option Ini.Error :=
  match Settings.ofBytes l.settingsFile.content with
  | (settings, settingsError) =>
      ({ settings, store, refusal := l.refusal, memory := l.memory }, settingsError)

/-- The outcome of a launch. -/
def run (l : Launch) (store : Store) : Outcome :=
  (l.start store).1.run (l.start store).2 l.arguments

/-- The outcomes of launches one after another.  Each finds the variables as the
one before has left them. -/
def runAll (store : Store) : List Launch → List Outcome
  | [] => []
  | l :: rest => l.run store :: runAll (l.run store).store rest

/-- The variables after launches one after another. -/
def storeAfter (store : Store) : List Launch → Store
  | [] => store
  | l :: rest => storeAfter (l.run store).store rest

end Launch

end FirmwareVars
