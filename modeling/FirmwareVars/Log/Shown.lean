import FirmwareVars.Error
import FirmwareVars.Ini.Location
import FirmwareVars.Log.Record
import FirmwareVars.Request
import FirmwareVars.Text.Quoted

/-!
# Values in log records

Records show the values of the program by their structure: the name of the
variant, then the fields in braces or the content in parentheses.  Texts are
quoted.  The variants keep the names that readers of the log know them by.
-/

namespace FirmwareVars.Log

/-- A variant with named fields. -/
def fields (variant : String) (named : List (String × String)) : String :=
  variant ++ " \x7b " ++ ", ".intercalate (named.map fun f => f.1 ++ ": " ++ f.2) ++ " \x7d"

/-- A variant with unnamed content. -/
def applied (variant content : String) : String := variant ++ "(" ++ content ++ ")"

/-- A request. -/
def shownRequest (r : Request) : String :=
  fields "Request"
    [("name", Text.quoted r.name), ("guid_text", Text.quotedOption r.guidText),
      ("format", r.format.name), ("set_target", Text.quotedOption r.target)]

/-- An error of the command. -/
def shownError : Error → String
  | .badArgument cause => applied "BadArgument" (Text.quoted cause.message)
  | .lookupFailure status =>
      applied "LookupFailure" (fields "LookupError" [("status", toString status.code)])
  | .outOfMemory => "OutOfMemory"
  | .bufferTooShort width length =>
      fields "BufferTooShort" [("width", toString width), ("len", toString length)]

/-- A place in a file. -/
def shownLocation (l : Ini.Location) : String :=
  fields "Location" [("line", toString l.line), ("col", toString l.column)]

/-- An error of an ini file. -/
def shownIniError : Ini.Error → String
  | .expectedAssign l => applied "ExpectedAssign" (shownLocation l)
  | .expectedValue l => applied "ExpectedValue" (shownLocation l)
  | .invalidKeyName l => applied "InvalidKeyName" (shownLocation l)
  | .unexpectedToken l => applied "UnexpectedToken" (shownLocation l)
  | .unmatchedQuote l => applied "UnmatchedQuote" (shownLocation l)

/-! ## Records of the command -/

/-- The request that the arguments were read as. -/
def parsed (r : Request) : Record := ⟨.trace, .request, shownRequest r⟩

/-- The variable has been read and is about to be shown. -/
def formatting (r : Request) (size : Nat) : Record :=
  ⟨.debug, .command, s!"{r.name}: {size} bytes, formatting as {r.format.name}"⟩

/-- There is no room for a text of this size, and the value is left empty. -/
def noRoom (size : Nat) : Record :=
  ⟨.warn, .text, s!"Cannot allocate {size} bytes for a UTF-16 string"⟩

end FirmwareVars.Log
