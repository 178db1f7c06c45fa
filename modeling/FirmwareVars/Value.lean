import FirmwareVars.Text.Utf8
import FirmwareVars.Text.Utf16

/-!
# Shown values

A `Value` is what a variable's bytes are shown as.  It is UTF-8, with one
exception: code units are encoded one by one, so half of a surrogate pair is
kept as a three-byte sequence of its own and a pair is never joined.

The firmware gets a value back as code units (`Value.units`).  People see it as
text (`Value.display`), where ill-formed chunks are U+FFFD.
-/

namespace FirmwareVars

/-- The bytes a variable is shown as. -/
structure Value where
  bytes : List UInt8
deriving DecidableEq, Repr

namespace Value

/-- The value of a text. -/
def ofString (s : String) : Value := ⟨Utf8.encode s⟩

/-! ## From code units -/

/-- How many bytes a unit takes. -/
def unitLength (u : UInt16) : Nat :=
  if u < 0x80 then 1 else if u < 0x800 then 2 else 3

/-- The bytes of a unit, encoded on its own. -/
def unitBytes (u : UInt16) : List UInt8 :=
  match unitLength u with
  | 1 => [u.toUInt8]
  | 2 => [(u >>> 6).toUInt8 ||| 0xc0, (u &&& 0x3f).toUInt8 ||| 0x80]
  | _ => [(u >>> 12).toUInt8 ||| 0xe0, (u >>> 6 &&& 0x3f).toUInt8 ||| 0x80,
      (u &&& 0x3f).toUInt8 ||| 0x80]

/-- The value of units, each encoded on its own. -/
def ofUnits (us : List UInt16) : Value := ⟨us.flatMap unitBytes⟩

/-- The value of a buffer that holds UTF-16 text up to a zero unit. -/
def ofUtf16 (buffer : List UInt8) : Value := ofUnits (Utf16.unitsToZero buffer)

/-- The number of bytes, counted from the units before any byte is written. -/
def utf16Length (buffer : List UInt8) : Nat :=
  (Utf16.unitsToZero buffer).foldr (fun u length => unitLength u + length) 0

/-! ## Back to code units -/

/-- The unit that stands for bytes which spell none. -/
def replacement : UInt16 := 0xfffd

/-- A unit with the six bits of a continuation byte added at the low end. -/
def extend (u : UInt16) (b : UInt8) : UInt16 := u <<< 6 ||| (b &&& 0x3f).toUInt16

/-- The units that the bytes spell in one, two or three bytes each.  A byte that
starts no such sequence and a sequence that breaks off both give U+FFFD, and the
byte after the break is read anew. -/
def unitsOf : List UInt8 → List UInt16
  | [] => []
  | a :: rest =>
      if a < 0x80 then a.toUInt16 :: unitsOf rest
      else if 0xc0 ≤ a ∧ a < 0xe0 then
        match rest with
        | [] => [replacement]
        | b :: r =>
            if Utf8.isContinuation b then extend (a &&& 0x1f).toUInt16 b :: unitsOf r
            else replacement :: unitsOf (b :: r)
      else if 0xe0 ≤ a ∧ a < 0xf0 then
        match rest with
        | [] => [replacement]
        | b :: r =>
            if Utf8.isContinuation b then
              match r with
              | [] => [replacement]
              | c :: t =>
                  if Utf8.isContinuation c then
                    extend (extend (a &&& 0x0f).toUInt16 b) c :: unitsOf t
                  else replacement :: unitsOf (c :: t)
            else replacement :: unitsOf (b :: r)
      else replacement :: unitsOf rest
termination_by structural bytes => bytes

/-- The code units of a value. -/
def units (v : Value) : List UInt16 := unitsOf v.bytes

/-! ## Text -/

/-- The text of a value, if its bytes are well-formed UTF-8. -/
def text? (v : Value) : Option String := Utf8.text? v.bytes

/-- The text of a value with U+FFFD for each ill-formed chunk. -/
def display (v : Value) : String := Utf8.lossy v.bytes

end Value

end FirmwareVars
