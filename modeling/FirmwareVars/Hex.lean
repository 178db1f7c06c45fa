/-!
# Hexadecimal text

A byte is written as two hex digits, the one of the high half first.  `encode`
writes lowercase digits with nothing between them.  `dump` puts one space
between the bytes.  `decode` reads the digits of a fixed number of bytes, in
either case, and reports the first byte that is not a digit.

Text is a list of ASCII bytes here, as everywhere a format counts bytes.
-/

namespace FirmwareVars.Hex

/-! ## Digits -/

/-- The value of a hex digit of either case. -/
def value? (c : UInt8) : Option UInt8 :=
  if 0x30 ≤ c ∧ c ≤ 0x39 then some (c - 0x30)
  else if 0x61 ≤ c ∧ c ≤ 0x66 then some (c - 0x61 + 10)
  else if 0x41 ≤ c ∧ c ≤ 0x46 then some (c - 0x41 + 10)
  else none

/-- The lowercase digit of a value below sixteen. -/
def digit (v : UInt8) : UInt8 :=
  if v < 10 then 0x30 + v else 0x61 + (v - 10)

/-- The two digits of a byte. -/
def pair (b : UInt8) : List UInt8 := [digit (b >>> 4), digit (b &&& 0x0f)]

/-- Reading a digit gives back the value it was written for. -/
theorem value?_digit {v : UInt8} (h : v < 16) : value? (digit v) = some v := by
  have all : ∀ n : Fin 16, value? (digit (.ofNat n)) = some (.ofNat n) := by decide
  simpa using all ⟨v.toNat, UInt8.lt_iff_toNat_lt.mp h⟩

/-! ## Writing -/

/-- The digits of every byte in order. -/
def encode (bytes : List UInt8) : List UInt8 := bytes.flatMap pair

/-- The digits of every byte in order, one space between bytes and none at the
ends. -/
def dump : List UInt8 → List UInt8
  | [] => []
  | [b] => pair b
  | b :: c :: rest => pair b ++ 0x20 :: dump (c :: rest)

/-- The length of the dump of `n` bytes, for which room is reserved before any byte is
written. -/
def dumpLength (n : Nat) : Nat := 3 * n - 1

theorem length_encode (bytes : List UInt8) : (encode bytes).length = 2 * bytes.length := by
  induction bytes with
  | nil => rfl
  | cons b rest ih =>
      simp only [encode, pair, List.flatMap_cons, List.length_append, List.length_cons,
        List.length_nil] at ih ⊢
      omega

theorem length_dump : ∀ bytes : List UInt8, (dump bytes).length = dumpLength bytes.length
  | [] => rfl
  | [_] => rfl
  | b :: c :: rest => by
      have ih := length_dump (c :: rest)
      simp only [dump, pair, dumpLength, List.length_append, List.length_cons,
        List.length_nil] at ih ⊢
      omega

/-! ## Reading -/

/-- Why digits were not read. -/
inductive Error where
  /-- There are `actual` bytes of text where `expected` digits are needed. -/
  | length (expected actual : Nat)
  /-- The byte at this offset is not a hex digit. -/
  | digit (offset : Nat)
deriving DecidableEq, Repr

/-- The text of an error. -/
def Error.message : Error → String
  | .length expected actual => s!"expected {expected} hex digits, got {actual}"
  | .digit offset => s!"invalid hex digit at offset {offset}"

/-- The bytes that pairs of digits spell, where the first digit stands at
`offset`.  A digit without a partner is dropped. -/
def decodePairs (offset : Nat) : List UInt8 → Except Error (List UInt8)
  | high :: low :: rest =>
      match value? high, value? low with
      | none, _ => .error (.digit offset)
      | some _, none => .error (.digit (offset + 1))
      | some h, some l =>
          match decodePairs (offset + 2) rest with
          | .error e => .error e
          | .ok bytes => .ok ((h <<< 4 ||| l) :: bytes)
  | _ => .ok []

/-- The `n` bytes that exactly `2 * n` digits spell. -/
def decode (n : Nat) (digits : List UInt8) : Except Error (List UInt8) :=
  if digits.length = 2 * n then decodePairs 0 digits
  else .error (.length (2 * n) digits.length)

end FirmwareVars.Hex
