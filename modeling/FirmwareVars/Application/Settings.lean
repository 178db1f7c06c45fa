import FirmwareVars.Guid.Vendor
import FirmwareVars.Ini.Reader
import FirmwareVars.Log.Record
import FirmwareVars.Firmware.Variable

/-!
# Settings

The settings come from an ini file.  An entry with a known key and a good value
changes one setting, so the last such entry of a key decides.  Any other entry
is passed over.  A setting that is on or off takes every value: `yes`, `on`, `1`
and `true` are on and all others are off.

Reading stops at the first malformed line.  The settings before it stay, and the
error is reported.
-/

namespace FirmwareVars

/-- How the program logs, and how it stores values. -/
structure Settings where
  /-- What the logger writes, and where. -/
  log : Log.Setup := {}
  /-- The vendor of the variables that values are stored in, the shell if it is
  not set. -/
  envVendor : Option Guid := none
  /-- Whether stored values are gone after a reboot. -/
  envVolatile : Bool := true
deriving DecidableEq, Repr

namespace Settings

/-! ## Values -/

/-- The device that a value names. -/
def device? (value : String) : Option (Option Console) :=
  if value = "null" then some none
  else if value = "stdout" then some (some .out)
  else if value = "stderr" then some (some .err)
  else none

/-- The level that a value names. -/
def level? (value : String) : Option Log.Level :=
  if value = "error" then some .error
  else if value = "warn" then some .warn
  else if value = "info" then some .info
  else if value = "debug" then some .debug
  else if value = "trace" then some .trace
  else none

/-- Whether a value stands for on. -/
def isOn (value : String) : Bool :=
  value = "yes" || value = "on" || value = "1" || value = "true"

/-! ## Entries -/

/-- The settings with the log's device as a value names it. -/
def setDevice (s : Settings) (value : String) : Settings :=
  match device? value with
  | some device => { s with log := { s.log with device } }
  | none => s

/-- The settings with the log's level as a value names it. -/
def setLevel (s : Settings) (value : String) : Settings :=
  match level? value with
  | some level => { s with log := { s.log with level } }
  | none => s

/-- The settings with the vendor of stored values as a value spells it. -/
def setVendor (s : Settings) (value : String) : Settings :=
  match Guid.parse value with
  | .ok guid => { s with envVendor := some guid }
  | .error _ => s

/-- The settings after an entry with this key and this value. -/
def set (s : Settings) (key value : String) : Settings :=
  if key = "log_device" then s.setDevice value
  else if key = "log_level" then s.setLevel value
  else if key = "log_source_path" then { s with log := { s.log with showPlace := isOn value } }
  else if key = "env_vendor" then s.setVendor value
  else if key = "env_volatile" then { s with envVolatile := isOn value }
  else s

/-- The settings after an entry.  Bytes that are no text are no known key, and
as a value they count as the empty text. -/
def setEntry (s : Settings) (e : Ini.Entry) : Settings :=
  match Utf8.text? e.key with
  | some key => s.set key ((Utf8.text? e.value).getD "")
  | none => s

/-- The settings after the entries before the first error, and that error. -/
def readItems (s : Settings) : List Ini.Item → Settings × Option Ini.Error
  | [] => (s, none)
  | .error e :: _ => (s, some e)
  | .ok e :: rest => (s.setEntry e).readItems rest

/-- The settings in a file, and the error of its first malformed line. -/
def ofBytes (bytes : List UInt8) : Settings × Option Ini.Error :=
  readItems {} (Ini.items bytes)

/-! ## Stored values -/

/-- The vendor of the variables that values are stored in. -/
def vendor (s : Settings) : Guid := s.envVendor.getD Vendor.shell.guid

/-- The attributes of the variables that values are stored in. -/
def attributes (s : Settings) : Attributes :=
  if s.envVolatile then .bootServiceAccess
  else Attributes.union .bootServiceAccess .nonVolatile

end Settings

end FirmwareVars
