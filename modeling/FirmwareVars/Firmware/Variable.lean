import FirmwareVars.Firmware.Status
import FirmwareVars.Guid.Basic
import FirmwareVars.Text.Quoted

/-!
# Firmware variables

A variable is named by a text and the GUID of its vendor.  Reading it gives its
bytes and its attributes, or fails with a status.  Log records show attributes
by the names of their bits.
-/

namespace FirmwareVars

/-- What the firmware knows a variable by. -/
structure Key where
  name : String
  /-- The GUID of the vendor. -/
  guid : Guid
deriving DecidableEq, Repr

/-! ## Attributes -/

/-- The attributes of a variable, a bit for each. -/
structure Attributes where
  /-- The bits. -/
  bits : UInt32
deriving DecidableEq, Repr

namespace Attributes

/-- The variable outlives a reboot. -/
def nonVolatile : Attributes := ⟨0x1⟩

/-- The variable can be read before the operating system has started. -/
def bootServiceAccess : Attributes := ⟨0x2⟩

/-- The attributes of both. -/
def union (a b : Attributes) : Attributes := ⟨a.bits ||| b.bits⟩

/-- The bits with a name, lowest first. -/
def named : List (UInt32 × String) :=
  [(0x1, "NON_VOLATILE"), (0x2, "BOOTSERVICE_ACCESS"), (0x4, "RUNTIME_ACCESS"),
    (0x8, "HARDWARE_ERROR_RECORD"), (0x10, "AUTHENTICATED_WRITE_ACCESS"),
    (0x20, "TIME_BASED_AUTHENTICATED_WRITE_ACCESS"), (0x40, "APPEND_WRITE"),
    (0x80, "ENHANCED_AUTHENTICATED_ACCESS")]

/-- The bits without a name. -/
def unnamedBits (a : Attributes) : UInt32 :=
  named.foldl (fun bits n => bits &&& ~~~n.1) a.bits

/-- The names of the bits that are set, and the others as one number. -/
def words (a : Attributes) : List String :=
  (named.filter fun n => a.bits &&& n.1 ≠ 0).map Prod.snd ++
    if a.unnamedBits = 0 then [] else ["0x" ++ Text.hexNumeral a.unnamedBits.toNat]

/-- The attributes as log records show them. -/
def text (a : Attributes) : String :=
  "VariableAttributes(" ++
    (if a.words.isEmpty then "0x0" else " | ".intercalate a.words) ++ ")"

end Attributes

/-! ## Contents -/

/-- The bytes of a variable with its attributes. -/
structure Contents where
  /-- The bytes. -/
  data : List UInt8
  /-- The attributes. -/
  attributes : Attributes
deriving DecidableEq, Repr

end FirmwareVars
