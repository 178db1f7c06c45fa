/-!
# UTF-16 code units

The firmware keeps text as 16-bit code units, in memory as little-endian byte
pairs with a zero unit at the end.  `units` reads the pairs of a buffer and
`bytes` writes them.  `ofString` gives the units of a text, two for a character
above U+FFFF.

The firmware itself takes every unit for a character of its own.  `char` reads a
unit that way: half of a pair is no character and becomes U+FFFD.
-/

namespace FirmwareVars.Utf16

/-! ## Units in memory -/

/-- The unit with this low and this high byte. -/
def unit (low high : UInt8) : UInt16 := low.toUInt16 ||| high.toUInt16 <<< 8

/-- The units of a buffer.  An odd last byte is dropped. -/
def units : List UInt8 → List UInt16
  | low :: high :: rest => unit low high :: units rest
  | _ => []

/-- The units of a buffer up to the first zero unit. -/
def unitsToZero (buffer : List UInt8) : List UInt16 := (units buffer).takeWhile (· ≠ 0)

/-- The two bytes of each unit, the low one first. -/
def bytes (us : List UInt16) : List UInt8 :=
  us.flatMap fun u => [UInt16.toUInt8 u, UInt16.toUInt8 (u >>> 8)]

/-! ## Units of a text -/

/-- The units of a character. -/
def ofChar (c : Char) : List UInt16 :=
  if c.toNat < 0x10000 then [.ofNat c.toNat]
  else [.ofNat (0xd800 + (c.toNat - 0x10000) / 0x400),
    .ofNat (0xdc00 + (c.toNat - 0x10000) % 0x400)]

/-- The units of a text. -/
def ofString (s : String) : List UInt16 := s.toList.flatMap ofChar

/-- Half of a pair. -/
def IsSurrogate (u : UInt16) : Prop := 0xd800 ≤ u ∧ u ≤ 0xdfff

instance (u : UInt16) : Decidable (IsSurrogate u) :=
  inferInstanceAs (Decidable (0xd800 ≤ u ∧ u ≤ 0xdfff))

/-- The character of a unit on its own. -/
def char (u : UInt16) : Char :=
  if IsSurrogate u then '\uFFFD' else Char.ofNat u.toNat

/-- The text of units, each read on its own. -/
def text (us : List UInt16) : String := String.ofList (us.map char)

end FirmwareVars.Utf16
