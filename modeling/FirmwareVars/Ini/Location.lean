/-!
# Places in a file

A place is a line and a column, both counted from one, the column in bytes.
`Location.after` moves it over one byte.
-/

namespace FirmwareVars.Ini

/-- The byte that ends a line. -/
def lineFeed : UInt8 := 0x0a

/-- A place in a file. -/
structure Location where
  /-- The line, from one. -/
  line : Nat := 1
  /-- The column in bytes, from one. -/
  column : Nat := 1
deriving DecidableEq, Repr

/-- The place after a byte that stands here. -/
def Location.after (l : Location) (b : UInt8) : Location :=
  if b = lineFeed then ⟨l.line + 1, 1⟩ else ⟨l.line, l.column + 1⟩

/-- Why a line is no entry, with the place of the token that is wrong. -/
inductive Error where
  /-- There is no equals sign after the key. -/
  | expectedAssign (location : Location)
  /-- There is no value after the equals sign. -/
  | expectedValue (location : Location)
  /-- The key does not start with a letter. -/
  | invalidKeyName (location : Location)
  /-- A token or a byte stands where it must not. -/
  | unexpectedToken (location : Location)
  /-- A quote is not closed on its line. -/
  | unmatchedQuote (location : Location)
deriving DecidableEq, Repr

/-- The place an error is found at. -/
def Error.location : Error → Location
  | .expectedAssign l => l
  | .expectedValue l => l
  | .invalidKeyName l => l
  | .unexpectedToken l => l
  | .unmatchedQuote l => l

end FirmwareVars.Ini
