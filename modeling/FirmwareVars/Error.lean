import FirmwareVars.Firmware.Status

/-!
# Errors of the command

Four things can go wrong.  The arguments may be malformed, which is found before
any variable is read.  The firmware may fail to read the variable.  The variable
may be too short for the number asked for.  And there may be no room for a dump.
-/

namespace FirmwareVars

/-- What is wrong with the arguments. -/
inductive BadArgument where
  /-- A word is missing. -/
  | usage
  /-- A word is missing after the flag that asks to store the value. -/
  | setUsage
  /-- The GUID text is not canonical. -/
  | guid
  /-- A name holds a character that the firmware has no unit for. -/
  | name
deriving DecidableEq, Repr

/-- The text of a malformed argument. -/
def BadArgument.message : BadArgument → String
  | .usage =>
      "Usage: efivar [--string|--uint8|--uint16|--uint32|--uint64|--hex] <name> [<guid>]" ++
        " | efivar --set <env> [...] <name> [<guid>]"
  | .setUsage => "Usage: efivar --set <env> [...] <name> [<guid>]"
  | .guid => "Invalid GUID format. Expected XXXXXXXX-XXXX-XXXX-XXXX-XXXXXXXXXXXX"
  | .name => "Invalid variable name. Expected UCS-2 characters only"

/-- Why a command failed. -/
inductive Error where
  | badArgument (cause : BadArgument)
  /-- The firmware ended the reading with this status. -/
  | lookupFailure (status : Status)
  /-- There is no room for a dump. -/
  | outOfMemory
  /-- A number of `width` bytes was asked for and the variable holds `length`. -/
  | bufferTooShort (width length : Nat)
deriving DecidableEq, Repr

namespace Error

/-- The text of an error. -/
def message : Error → String
  | .badArgument cause => cause.message
  | .lookupFailure status => s!"cannot read variable: firmware status {status.hex}"
  | .outOfMemory => "out of memory"
  | .bufferTooShort width length => s!"variable holds {length} bytes, {width} needed"

/-- The status a program ends with on an error.  That of a failed reading is
passed on. -/
def status : Error → Status
  | .badArgument _ => .invalidParameter
  | .lookupFailure status => status
  | .outOfMemory => .outOfResources
  | .bufferTooShort _ _ => .badBufferSize

end Error

end FirmwareVars
