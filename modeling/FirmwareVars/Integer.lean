import FirmwareVars.Error

/-!
# Little-endian integers

A variable may hold an unsigned number in its first bytes, the low byte first.
Further bytes are ignored, and too few are an error.
-/

namespace FirmwareVars

/-- How many bytes a number takes. -/
inductive Width where
  | one
  | two
  | four
  | eight
deriving DecidableEq, Repr

/-- The number of bytes. -/
def Width.bytes : Width → Nat
  | .one => 1
  | .two => 2
  | .four => 4
  | .eight => 8

namespace Integer

/-- The number in the bytes, where the first one stands `i` bytes above the low
end and `value` holds what is below. -/
def assemble (value : UInt64) (i : Nat) : List UInt8 → UInt64
  | [] => value
  | b :: rest => assemble (value ||| b.toUInt64 <<< .ofNat (8 * i)) (i + 1) rest

/-- The number in the first `width` bytes of a buffer. -/
def decode (width : Width) (buffer : List UInt8) : Except Error UInt64 :=
  if buffer.length < width.bytes then .error (.bufferTooShort width.bytes buffer.length)
  else .ok (assemble 0 0 (buffer.take width.bytes))

/-- The decimal numeral of the number in the first `width` bytes. -/
def decodeDecimal (width : Width) (buffer : List UInt8) : Except Error String :=
  (decode width buffer).map fun n => toString n.toNat

end Integer

end FirmwareVars
