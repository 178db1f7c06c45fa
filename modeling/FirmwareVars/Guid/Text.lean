import FirmwareVars.Guid.Basic
import FirmwareVars.Hex
import FirmwareVars.Text.Utf8

/-!
# GUID text

The canonical text of a GUID has 36 bytes: 32 hex digits in groups of 8, 4, 4, 4
and 12, with a dash between the groups.  `canonical` writes it with lowercase
digits.  `parse` reads digits of either case and accepts no other shape.
-/

namespace FirmwareVars.Guid

/-! ## Writing -/

/-- The dash between groups. -/
def dash : UInt8 := 0x2d

/-- Thirty-two digits cut into groups. -/
def grouped (digits : List UInt8) : List UInt8 :=
  digits.take 8 ++ dash :: (digits.drop 8).take 4 ++ dash :: (digits.drop 12).take 4 ++
    dash :: (digits.drop 16).take 4 ++ dash :: digits.drop 20

/-- The canonical text as bytes. -/
def canonical (g : Guid) : List UInt8 := grouped (Hex.encode g.textBytes)

/-- The canonical text. -/
def text (g : Guid) : String := String.ofList (g.canonical.map fun b => Char.ofNat b.toNat)

/-! ## Reading -/

/-- Why text is no GUID. -/
inductive ParseError where
  /-- It is not of the canonical shape. -/
  | invalidFormat
deriving DecidableEq, Repr

/-- The text of an error. -/
def ParseError.message : ParseError → String
  | .invalidFormat => "invalid GUID format, expected XXXXXXXX-XXXX-XXXX-XXXX-XXXXXXXXXXXX"

/-- The number of bytes of canonical text. -/
def textLength : Nat := 36

/-- The offsets of the dashes in canonical text. -/
def dashOffsets : List Nat := [8, 13, 18, 23]

/-- Text without the bytes at the offsets of the dashes. -/
def ungrouped (t : List UInt8) : List UInt8 :=
  t.take 8 ++ (t.drop 9).take 4 ++ (t.drop 14).take 4 ++ (t.drop 19).take 4 ++ t.drop 24

/-- The GUID that the bytes of a text spell. -/
def parseBytes (t : List UInt8) : Except ParseError Guid :=
  if t.length = textLength ∧ ∀ i ∈ dashOffsets, t[i]? = some dash then
    match Hex.decode 16 (ungrouped t) with
    | .error _ => .error .invalidFormat
    | .ok bytes =>
        match ofTextBytes? bytes with
        | none => .error .invalidFormat
        | some g => .ok g
  else .error .invalidFormat

/-- The GUID that a text spells. -/
def parse (s : String) : Except ParseError Guid := parseBytes (Utf8.encode s)

end FirmwareVars.Guid
