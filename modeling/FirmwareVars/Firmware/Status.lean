import FirmwareVars.Text.Quoted

/-!
# Firmware statuses

Every firmware call ends with a status.  Zero is success, a status with the top
bit set is an error, and any other is a warning.  A warning is no success
either, so a call that ends with one has failed.
-/

namespace FirmwareVars

/-- The status a firmware call or a program ends with. -/
structure Status where
  /-- The number the firmware knows it by. -/
  code : UInt64
deriving DecidableEq, Repr

namespace Status

/-- The status of a call that did what it was asked. -/
def success : Status := ⟨0⟩

/-- The bit that tells errors from warnings. -/
def errorBit : UInt64 := 0x8000000000000000

/-- The error with this number. -/
def error (n : UInt64) : Status := ⟨errorBit ||| n⟩

/-- The arguments are malformed. -/
def invalidParameter : Status := error 2

/-- The firmware cannot do what it was asked. -/
def unsupported : Status := error 3

/-- A buffer has the wrong size. -/
def badBufferSize : Status := error 4

/-- No memory is left. -/
def outOfResources : Status := error 9

/-- There is no such variable. -/
def notFound : Status := error 14

/-! ## Names -/

/-- The names of the warnings, from the number 1 on. -/
def warningNames : List String :=
  ["WARN_UNKNOWN_GLYPH", "WARN_DELETE_FAILURE", "WARN_WRITE_FAILURE", "WARN_BUFFER_TOO_SMALL",
    "WARN_STALE_DATA", "WARN_FILE_SYSTEM", "WARN_RESET_REQUIRED"]

/-- The names of the errors by number. -/
def errorNames : List (UInt64 × String) :=
  [(1, "LOAD_ERROR"), (2, "INVALID_PARAMETER"), (3, "UNSUPPORTED"), (4, "BAD_BUFFER_SIZE"),
    (5, "BUFFER_TOO_SMALL"), (6, "NOT_READY"), (7, "DEVICE_ERROR"), (8, "WRITE_PROTECTED"),
    (9, "OUT_OF_RESOURCES"), (10, "VOLUME_CORRUPTED"), (11, "VOLUME_FULL"), (12, "NO_MEDIA"),
    (13, "MEDIA_CHANGED"), (14, "NOT_FOUND"), (15, "ACCESS_DENIED"), (16, "NO_RESPONSE"),
    (17, "NO_MAPPING"), (18, "TIMEOUT"), (19, "NOT_STARTED"), (20, "ALREADY_STARTED"),
    (21, "ABORTED"), (22, "ICMP_ERROR"), (23, "TFTP_ERROR"), (24, "PROTOCOL_ERROR"),
    (25, "INCOMPATIBLE_VERSION"), (26, "SECURITY_VIOLATION"), (27, "CRC_ERROR"),
    (28, "END_OF_MEDIA"), (31, "END_OF_FILE"), (32, "INVALID_LANGUAGE"),
    (33, "COMPROMISED_DATA"), (34, "IP_ADDRESS_CONFLICT"), (35, "HTTP_ERROR")]

/-- The named statuses. -/
def named : List (Status × String) :=
  (success, "SUCCESS") ::
    (warningNames.zipIdx 1).map (fun w => (⟨.ofNat w.2⟩, w.1)) ++
    errorNames.map (fun e => (error e.1, e.2))

/-- The name of a status, or its number if it has none. -/
def name (s : Status) : String :=
  (named.lookup s).getD s!"Status({s.code})"

/-- The number of a status in hex. -/
def hex (s : Status) : String := "0x" ++ Text.hexNumeral s.code.toNat

end Status

end FirmwareVars
