import FirmwareVars.CommandLine
import FirmwareVars.Firmware.Status
import FirmwareVars.Memory
import FirmwareVars.Text.Utf16

/-!
# Launches

A `Launch` is what a run of the program meets apart from the variables: the
settings file, the arguments, whether the firmware lets variables be set, and the
memory.

The shell hands over arguments that are already cut into words.  Without a shell
there are the load options, a buffer with the whole command line.  Both are
UTF-16 read unit by unit, but the load options are used only when every unit is
a character and the line ends where the buffer does.
-/

namespace FirmwareVars

/-! ## The settings file -/

/-- The steps on the way to the settings file that can fail. -/
inductive FileFault where
  | noFileSystem
  | noHandles
  | openProtocol
  | volume
  | directory
  | position
  | read
deriving DecidableEq, Repr

/-- What the program meets when it looks for the settings file. -/
inductive SettingsFile where
  | absent
  /-- A step on the way to it fails. -/
  | unreachable (fault : FileFault)
  /-- The file has these bytes. -/
  | present (bytes : List UInt8)
deriving DecidableEq, Repr

namespace SettingsFile

/-- The name of the settings file. -/
def name : String := "efivar.ini"

/-- The room for the content of the settings file. -/
def bufferSize : Nat := 4096

/-- The bytes that the program reads: the start of the file as far as there is
room, and nothing if there is no file to read. -/
def content : SettingsFile → List UInt8
  | .present bytes => bytes.take bufferSize
  | .absent => []
  | .unreachable _ => []

end SettingsFile

/-! ## Arguments -/

/-- Where the words of the command come from.  The first one is the name of the
command. -/
inductive Arguments where
  /-- The words, as units, that the shell hands over. -/
  | shell (words : List (List UInt16))
  /-- The load options, if the program has any. -/
  | loadOptions (buffer : Option (List UInt8))
deriving DecidableEq, Repr

/-- The line in a buffer of UTF-16 units, which must hold a single zero unit at
its end and no half of a pair. -/
def lineOfUnits? (us : List UInt16) : Option String :=
  if us.getLast? = some 0 ∧ us.dropLast.all fun u => u ≠ 0 ∧ ¬ Utf16.IsSurrogate u then
    some (Utf16.text us.dropLast)
  else none

/-- The line in the load options.  The buffer must hold whole units. -/
def lineOfBuffer? (buffer : List UInt8) : Option String :=
  if buffer.length % 2 = 0 then lineOfUnits? (Utf16.units buffer) else none

namespace Arguments

/-- The words of the command, its name included. -/
def words : Arguments → List String
  | .shell ws => ws.map fun w => Utf16.text (w.takeWhile (· ≠ 0))
  | .loadOptions buffer => CommandLine.split ((buffer.bind lineOfBuffer?).getD "")

/-- The arguments that the shell hands over for a list of words. -/
def ofShell (ws : List String) : Arguments := .shell (ws.map Utf16.ofString)

/-- The arguments of load options that hold a line. -/
def ofLine (line : String) : Arguments :=
  .loadOptions (some (Utf16.bytes (Utf16.ofString line ++ [0])))

end Arguments

/-- What a run of the program meets apart from the variables. -/
structure Launch where
  /-- The settings file. -/
  settingsFile : SettingsFile := .absent
  /-- Where the words of the command come from. -/
  arguments : Arguments := .loadOptions none
  /-- The status that every setting of a variable ends with, if none succeeds. -/
  refusal : Option Status := none
  /-- The memory that the run has. -/
  memory : Memory := {}

end FirmwareVars
