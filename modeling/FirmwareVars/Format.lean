import FirmwareVars.Hex
import FirmwareVars.Integer
import FirmwareVars.Memory
import FirmwareVars.Value

/-!
# Output formats

A variable's bytes are shown in one of six formats, each with a flag on the
command line.  Text always is a value, which is empty if there is no room for it.  A
dump needs its room, and a number a buffer that is long enough.
-/

namespace FirmwareVars

/-! ## Values that need room -/

namespace Value

/-- The text of a buffer, or nothing if there is no room for it. -/
def ofUtf16In (memory : Memory) (buffer : List UInt8) : Value :=
  if memory.Holds (utf16Length buffer) then ofUtf16 buffer else ⟨[]⟩

/-- The dump of a buffer.  An empty one needs no room. -/
def dumpIn (memory : Memory) (buffer : List UInt8) : Except Error Value :=
  if buffer.isEmpty then .ok ⟨[]⟩
  else
    match memory.reserveDump buffer.length with
    | .error e => .error e
    | .ok () => .ok ⟨Hex.dump buffer⟩

/-- A buffer has a dump if there is room for its length. -/
theorem dumpIn_eq (memory : Memory) (buffer : List UInt8) :
    dumpIn memory buffer =
      if memory.Holds (Hex.dumpLength buffer.length) then .ok ⟨Hex.dump buffer⟩
      else .error .outOfMemory := by
  cases buffer with
  | nil => exact (if_pos memory.holds_zero).symm
  | cons b rest =>
      rw [dumpIn, Memory.reserveDump_eq, Memory.reserve]
      by_cases room : memory.Holds (Hex.dumpLength (b :: rest).length)
      · rw [if_pos room, if_pos room]
        rfl
      · rw [if_neg room, if_neg room]
        rfl

end Value

/-! ## Formats -/

/-- How the bytes of a variable are shown. -/
inductive Format where
  /-- As UTF-16 text up to the first zero unit. -/
  | text
  /-- As a number in the first bytes. -/
  | number (width : Width)
  /-- As the hex digits of every byte. -/
  | hexDump
deriving DecidableEq, Repr

namespace Format

/-- Every format, in the order in which flags are tried. -/
def all : List Format :=
  [.text, .number .one, .number .two, .number .four, .number .eight, .hexDump]

/-- The format used when no flag is given. -/
def standard : Format := .text

/-- The flag that asks for a format. -/
def flag : Format → String
  | .text => "--string"
  | .number .one => "--uint8"
  | .number .two => "--uint16"
  | .number .four => "--uint32"
  | .number .eight => "--uint64"
  | .hexDump => "--hex"

/-- The format that a word is the flag of. -/
def ofFlag? (word : String) : Option Format := all.find? fun f => f.flag = word

/-- The name of a format in log records. -/
def name : Format → String
  | .text => "String"
  | .number .one => "UInt8"
  | .number .two => "UInt16"
  | .number .four => "UInt32"
  | .number .eight => "UInt64"
  | .hexDump => "HexDump"

/-- The bytes of a variable shown in a format. -/
def apply (buffer : List UInt8) (f : Format) (memory : Memory := {}) : Except Error Value :=
  match f with
  | .text => .ok (.ofUtf16In memory buffer)
  | .number width => (Integer.decodeDecimal width buffer).map .ofString
  | .hexDump => Value.dumpIn memory buffer

theorem mem_all (f : Format) : f ∈ all := by
  rcases f with _ | (_ | _ | _ | _) | _ <;> decide

/-- Each format is found by its flag. -/
theorem ofFlag?_flag (f : Format) : ofFlag? f.flag = some f := by
  rcases f with _ | (_ | _ | _ | _) | _ <;> decide

end Format

end FirmwareVars
