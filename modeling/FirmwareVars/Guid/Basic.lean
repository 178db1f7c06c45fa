/-!
# GUIDs

A `Guid` names the vendor of a variable.  Its 128 bits are three numbers and
eight bytes.  Text spells the numbers high byte first (`textBytes`), and the
firmware keeps them low byte first (`efiBytes`).  Both orders are read back
without loss.

GUIDs are ordered by the numbers and then by the bytes.  This is the order of
`textBytes`.
-/

namespace FirmwareVars

/-- A vendor identifier of 128 bits. -/
structure Guid where
  /-- The first number. -/
  data1 : UInt32
  /-- The second number. -/
  data2 : UInt16
  /-- The third number. -/
  data3 : UInt16
  /-- The bytes after the numbers. -/
  data4 : Vector UInt8 8
deriving DecidableEq, Repr

namespace Guid

/-- The vendor of the variables that the firmware specification defines. -/
def globalVariable : Guid where
  data1 := 0x8be4df61
  data2 := 0x93ca
  data3 := 0x11d2
  data4 := #v[0xaa, 0x0d, 0x00, 0xe0, 0x98, 0x03, 0x2b, 0x8c]

/-! ## Byte orders -/

/-- The number that two bytes spell, the high one first. -/
def number16 (a b : UInt8) : UInt16 := a.toUInt16 <<< 8 ||| b.toUInt16

/-- The number that four bytes spell, the high one first. -/
def number32 (a b c d : UInt8) : UInt32 :=
  a.toUInt32 <<< 24 ||| b.toUInt32 <<< 16 ||| c.toUInt32 <<< 8 ||| d.toUInt32

/-- The bytes of a two-byte number, the high one first. -/
def bytes16 (n : UInt16) : List UInt8 := [(n >>> 8).toUInt8, n.toUInt8]

/-- The bytes of a four-byte number, the high one first. -/
def bytes32 (n : UInt32) : List UInt8 :=
  [(n >>> 24).toUInt8, (n >>> 16).toUInt8, (n >>> 8).toUInt8, n.toUInt8]

/-- The bytes in the order in which text spells them. -/
def textBytes (g : Guid) : List UInt8 :=
  bytes32 g.data1 ++ bytes16 g.data2 ++ bytes16 g.data3 ++ g.data4.toList

/-- The bytes in the order in which the firmware keeps them. -/
def efiBytes (g : Guid) : List UInt8 :=
  (bytes32 g.data1).reverse ++ (bytes16 g.data2).reverse ++ (bytes16 g.data3).reverse ++
    g.data4.toList

/-- The GUID of sixteen bytes in the order of text. -/
def ofTextBytes? : List UInt8 → Option Guid
  | [a0, a1, a2, a3, b0, b1, c0, c1, d0, d1, d2, d3, d4, d5, d6, d7] =>
      some ⟨number32 a0 a1 a2 a3, number16 b0 b1, number16 c0 c1,
        #v[d0, d1, d2, d3, d4, d5, d6, d7]⟩
  | _ => none

/-- The GUID of sixteen bytes in the order of the firmware. -/
def ofEfiBytes? : List UInt8 → Option Guid
  | [a0, a1, a2, a3, b0, b1, c0, c1, d0, d1, d2, d3, d4, d5, d6, d7] =>
      some ⟨number32 a3 a2 a1 a0, number16 b1 b0, number16 c1 c0,
        #v[d0, d1, d2, d3, d4, d5, d6, d7]⟩
  | _ => none

/-! ## Order -/

/-- What a GUID is ordered by: the three numbers and then the eight bytes. -/
def fields (g : Guid) : List Nat :=
  g.data1.toNat :: g.data2.toNat :: g.data3.toNat :: g.data4.toList.map UInt8.toNat

instance : LT Guid where
  lt g h := g.fields < h.fields

instance : LE Guid where
  le g h := ¬ h < g

instance (g h : Guid) : Decidable (g < h) := inferInstanceAs (Decidable (g.fields < h.fields))

instance (g h : Guid) : Decidable (g ≤ h) := inferInstanceAs (Decidable (¬ h < g))

/-- The GUIDs of a list in ascending order. -/
def sort (guids : List Guid) : List Guid := guids.mergeSort fun g h => decide (g ≤ h)

end Guid

end FirmwareVars
