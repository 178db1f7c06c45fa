import FirmwareVars.Integer
import Mathlib.Algebra.BigOperators.Group.Finset.Basic
import Mathlib.Data.Nat.Digits.Defs

/-!
# The number in the first bytes

Each byte is shifted to its place and joined by `or` with what the bytes before it make.  That
lies below the lowest bit of the place, so no bit is shared and `or` adds the two
(`and_placed`, `toNat_or_placed`).  By induction over the bytes, they make the number that they
denote in base 256 (`toNat_assemble`).

In decimal, numbers are written by digits without a zero in front (`isNumeral_toString`).  Equal
numerals denote equal numbers, and equal numbers of equally many bytes have equal bytes.  So the
numerals of two buffers are equal if and only if the first bytes are (`decimal_of_bytes`).
-/

namespace FirmwareVars

/-- No number takes more bytes than a machine word has. -/
theorem Width.bytes_le : ∀ width : Width, width.bytes ≤ 8
  | .one => by decide
  | .two => by decide
  | .four => by decide
  | .eight => le_rfl

namespace Integer

/-! ## One byte -/

/-- A byte at its place in a number. -/
def placed (b : UInt8) (i : Nat) : UInt64 := b.toUInt64 <<< .ofNat (8 * i)

/-- A place is counted in powers of 256. -/
theorem two_pow_place (i : Nat) : 2 ^ (8 * i) = 256 ^ i := Nat.pow_mul 2 8 i

/-- No bit of a byte is shifted out of the number. -/
theorem toNat_placed (b : UInt8) {i : Nat} (inside : i < 8) :
    (placed b i).toNat = 256 ^ i * b.toNat := by
  have amount : (UInt64.ofNat (8 * i)).toNat % 64 = 8 * i := by
    rw [UInt64.toNat_ofNat_of_lt' (by simp [UInt64.size]; omega)]
    omega
  have fits : b.toNat * 2 ^ (8 * i) < 2 ^ 64 := by
    calc
      b.toNat * 2 ^ (8 * i) < 2 ^ 8 * 2 ^ (8 * i) :=
        Nat.mul_lt_mul_of_pos_right b.toNat_lt (Nat.two_pow_pos _)
      _ = 2 ^ (8 + 8 * i) := (Nat.pow_add 2 8 (8 * i)).symm
      _ ≤ 2 ^ 64 := Nat.pow_le_pow_right (by decide) (by omega)
  rw [placed, UInt64.toNat_shiftLeft, amount, UInt8.toNat_toUInt64, Nat.shiftLeft_eq,
    Nat.mod_eq_of_lt fits, two_pow_place, Nat.mul_comm]

section Step

variable {value : UInt64} {i : Nat} (b : UInt8)

/-- A byte lies above all that the bytes before it make. -/
theorem and_placed (inside : i < 8) (below : value.toNat < 256 ^ i) :
    value &&& placed b i = 0 := by
  rw [← two_pow_place] at below
  rw [← UInt64.toNat_inj, UInt64.toNat_and, toNat_placed b inside, ← two_pow_place]
  apply Nat.eq_of_testBit_eq
  intro j
  rw [Nat.testBit_and, Nat.testBit_two_pow_mul]
  -- Below its place the byte has no bit, and from there on the value has none.
  rcases Nat.lt_or_ge j (8 * i) with low | high
  · simp [Nat.not_le.mpr low]
  · have clear : value.toNat < 2 ^ j :=
      Nat.lt_of_lt_of_le below (Nat.pow_le_pow_right (by decide) high)
    simp [Nat.testBit_lt_two_pow clear]

/-- So joining the two adds them. -/
theorem toNat_or_placed (inside : i < 8) (below : value.toNat < 256 ^ i) :
    (value ||| placed b i).toNat = value.toNat + 256 ^ i * b.toNat := by
  rw [← two_pow_place] at below
  rw [UInt64.toNat_or, toNat_placed b inside, ← two_pow_place, Nat.or_comm,
    ← Nat.two_pow_add_eq_or_of_lt below, Nat.add_comm]

theorem or_placed_lt (inside : i < 8) (below : value.toNat < 256 ^ i) :
    (value ||| placed b i).toNat < 256 ^ (i + 1) := by
  have top : 256 ^ i * (b.toNat + 1) ≤ 256 ^ i * 256 := Nat.mul_le_mul_left _ b.toNat_lt
  rw [toNat_or_placed b inside below, Nat.pow_succ]
  rw [Nat.mul_succ] at top
  omega

end Step

/-! ## Several bytes -/

/-- The number that bytes denote in base 256, the first byte the lowest digit. -/
def number (bytes : List UInt8) : Nat := Nat.ofDigits 256 (bytes.map UInt8.toNat)

theorem number_cons (b : UInt8) (rest : List UInt8) :
    number (b :: rest) = b.toNat + 256 * number rest := by
  rw [number, List.map_cons, Nat.ofDigits_cons, number]

theorem digits_lt (bytes : List UInt8) : ∀ d ∈ bytes.map UInt8.toNat, d < 256 := by
  intro d hd
  obtain ⟨b, -, rfl⟩ := List.mem_map.mp hd
  exact b.toNat_lt

theorem number_lt (bytes : List UInt8) : number bytes < 256 ^ bytes.length := by
  have bound := Nat.ofDigits_lt_base_pow_length (by decide) (digits_lt bytes)
  rwa [List.length_map] at bound

/-- Equally many bytes that denote the same number are the same. -/
theorem number_inj {a b : List UInt8} (length : a.length = b.length)
    (same : number a = number b) : a = b := by
  have digits := Nat.ofDigits_inj_of_len_eq (by decide : 1 < 256) (by simpa using length)
    (digits_lt a) (digits_lt b) same
  exact List.map_injective_iff.mpr (fun _ _ => UInt8.toNat_inj.mp) digits

theorem number_take (buffer : List UInt8) (count : Nat) :
    number (buffer.take count) =
      ∑ i ∈ Finset.range count, (buffer.getD i 0).toNat * 256 ^ i := by
  induction count with
  | zero => rfl
  | succ count ih =>
    rw [Finset.sum_range_succ, ← ih, List.take_add_one, List.getD_eq_getElem?_getD]
    cases here : buffer[count]? with
    | none => simp
    | some b =>
      have long : count < buffer.length := (List.getElem?_eq_some_iff.mp here).1
      simp [number, Nat.ofDigits_append, Nat.min_eq_left (Nat.le_of_lt long), Nat.mul_comm]

/-- The bytes are put together to the number that they denote. -/
theorem toNat_assemble (bytes : List UInt8) {value : UInt64} {i : Nat}
    (below : value.toNat < 256 ^ i) (fits : i + bytes.length ≤ 8) :
    (assemble value i bytes).toNat = value.toNat + 256 ^ i * number bytes := by
  induction bytes generalizing value i with
  | nil => simp [assemble, number]
  | cons b rest ih =>
    rw [List.length_cons] at fits
    have inside : i < 8 := by omega
    have step : assemble value i (b :: rest) = assemble (value ||| placed b i) (i + 1) rest := rfl
    rw [step, ih (or_placed_lt b inside below) (by omega), toNat_or_placed b inside below,
      number_cons, Nat.pow_succ]
    ring

theorem assemble_append (value : UInt64) (i : Nat) (a b : List UInt8) :
    assemble value i (a ++ b) = assemble (assemble value i a) (i + a.length) b := by
  induction a generalizing value i with
  | nil => rfl
  | cons c rest ih =>
    rw [List.cons_append, assemble, ih, assemble, List.length_cons, Nat.add_right_comm,
      Nat.add_assoc]

/-- What the first bytes of a buffer make. -/
def assembled (buffer : List UInt8) (count : Nat) : UInt64 := assemble 0 0 (buffer.take count)

theorem assembled_succ {buffer : List UInt8} {i : Nat} {b : UInt8} (here : buffer[i]? = some b) :
    assembled buffer (i + 1) = assembled buffer i ||| placed b i := by
  have long : i < buffer.length := (List.getElem?_eq_some_iff.mp here).1
  have place : 0 + (buffer.take i).length = i := by
    rw [Nat.zero_add, List.length_take, Nat.min_eq_left (Nat.le_of_lt long)]
  rw [assembled, List.take_add_one, here, Option.toList_some, assemble_append, place]
  rfl

theorem toNat_assembled (buffer : List UInt8) {count : Nat} (fits : count ≤ 8) :
    (assembled buffer count).toNat = number (buffer.take count) := by
  have short : 0 + (buffer.take count).length ≤ 8 := by
    rw [Nat.zero_add, List.length_take]
    omega
  rw [assembled, toNat_assemble _ (by decide) short]
  simp

theorem assembled_lt (buffer : List UInt8) {count : Nat} (fits : count ≤ 8) :
    (assembled buffer count).toNat < 256 ^ count := by
  rw [toNat_assembled buffer fits]
  exact Nat.lt_of_lt_of_le (number_lt _)
    (Nat.pow_le_pow_right (by decide) (List.length_take_le count buffer))

/-! ## Numerals -/

/-- Whether a text is the decimal numeral of a number. -/
structure IsNumeral (s : String) (n : Nat) : Prop where
  /-- Digits alone, without a sign. -/
  digits : ∀ c ∈ s.toList, c.isDigit
  /-- At least one. -/
  nonempty : s.toList ≠ []
  /-- The first one is zero only if there is no other. -/
  leading : s.toList.head? = some '0' → s.toList = ['0']
  /-- They denote the number in base ten. -/
  denotes : Nat.ofDigitChars 10 s.toList 0 = n

theorem toDigits_leading (n : Nat) (zero : (Nat.toDigits 10 n).head? = some '0') : n = 0 := by
  induction n using Nat.strongRecOn with
  | ind n ih =>
    rcases Nat.lt_or_ge n 10 with small | large
    · rw [Nat.toDigits_of_lt_base small, List.head?_cons, Option.some.injEq] at zero
      exact Nat.digitChar_eq_zero.mp zero
    -- The last digit stands behind those of a tenth, which thus has the same first digit.
    · rw [Nat.toDigits_of_base_le (by decide) large,
        List.head?_append_of_ne_nil _ Nat.toDigits_ne_nil] at zero
      have none := ih (n / 10) (by omega) zero
      omega

theorem isNumeral_toString (n : Nat) : IsNumeral (toString n) n := by
  have chars : (toString n).toList = Nat.toDigits 10 n := by
    rw [Nat.toString_eq_ofList_toDigits, String.toList_ofList]
  refine ⟨?_, ?_, ?_, ?_⟩
  · intro c hc
    rw [chars] at hc
    exact Nat.isDigit_of_mem_toDigits (by decide) (by decide) hc
  · rw [chars]
    exact Nat.toDigits_ne_nil
  · intro zero
    rw [chars] at zero ⊢
    rw [toDigits_leading n zero, Nat.toDigits_zero]
  · rw [chars]
    exact Nat.ofDigitChars_ten_toDigits

theorem IsNumeral.unique {s : String} {n m : Nat} (first : IsNumeral s n)
    (second : IsNumeral s m) : n = m :=
  first.denotes.symm.trans second.denotes

/-! ## Buffers -/

section Buffers

variable {width : Width} {buffer : List UInt8}

theorem decode_of_lt (short : buffer.length < width.bytes) :
    decode width buffer = .error (.bufferTooShort width.bytes buffer.length) := if_pos short

theorem decode_of_le (long : width.bytes ≤ buffer.length) :
    decode width buffer = .ok (assembled buffer width.bytes) := if_neg (Nat.not_lt.mpr long)

theorem decodeDecimal_of_lt (short : buffer.length < width.bytes) :
    decodeDecimal width buffer = .error (.bufferTooShort width.bytes buffer.length) := by
  rw [decodeDecimal, decode_of_lt short]
  rfl

theorem decodeDecimal_of_le (long : width.bytes ≤ buffer.length) :
    decodeDecimal width buffer = .ok (toString (assembled buffer width.bytes).toNat) := by
  rw [decodeDecimal, decode_of_le long]
  rfl

/-- Buffers with the same first bytes are both long enough, or neither is. -/
theorem le_of_take_eq {count : Nat} {a b : List UInt8} (long : count ≤ a.length)
    (same : b.take count = a.take count) : count ≤ b.length := by
  have length := congrArg List.length same
  simp only [List.length_take] at length
  omega

theorem decode_of_take_eq {other : List UInt8} (long : width.bytes ≤ buffer.length)
    (same : other.take width.bytes = buffer.take width.bytes) :
    decode width other = decode width buffer := by
  rw [decode_of_le long, decode_of_le (le_of_take_eq long same), assembled, same, assembled]

/-- Equal numerals are of equal bytes. -/
theorem take_eq_of_decimal_eq {other : List UInt8} (long : width.bytes ≤ buffer.length)
    (same : decodeDecimal width other = decodeDecimal width buffer) :
    other.take width.bytes = buffer.take width.bytes := by
  rw [decodeDecimal_of_le long] at same
  rcases Nat.lt_or_ge other.length width.bytes with short | enough
  · rw [decodeDecimal_of_lt short] at same
    cases same
  · rw [decodeDecimal_of_le enough, Except.ok.injEq] at same
    have numeral := isNumeral_toString (assembled other width.bytes).toNat
    rw [same] at numeral
    have numbers := numeral.unique (isNumeral_toString _)
    rw [toNat_assembled _ width.bytes_le, toNat_assembled _ width.bytes_le] at numbers
    exact number_inj (by simp [long, enough]) numbers

end Buffers

/-- A number is read of every buffer that is long enough, and of no other.  It is the sum of the
first bytes, each times a power of 256, and the other bytes do not count.  Each byte keeps all its
bits when it is shifted, and joining shares none of them.  The number is shown as its decimal
numeral, which is the numeral of exactly the buffers with the same first bytes. -/
theorem decimal_of_bytes (width : Width) (buffer : List UInt8) :
    (decode width buffer = .error (.bufferTooShort width.bytes buffer.length) ↔
      buffer.length < width.bytes) ∧
    (∀ i b, i < width.bytes → buffer[i]? = some b →
      8 * i < 64 ∧ (placed b i).toNat = b.toNat * 2 ^ (8 * i) ∧
        assembled buffer i &&& placed b i = 0 ∧
        assembled buffer (i + 1) = assembled buffer i ||| placed b i) ∧
    (width.bytes ≤ buffer.length →
      ∃ n s, decode width buffer = .ok n ∧ n = assembled buffer width.bytes ∧
        n.toNat = ∑ i ∈ Finset.range width.bytes, (buffer.getD i 0).toNat * 256 ^ i ∧
        n.toNat < 256 ^ width.bytes ∧
        (∀ other, other.take width.bytes = buffer.take width.bytes → decode width other = .ok n) ∧
        decodeDecimal width buffer = .ok s ∧ IsNumeral s n.toNat ∧
        ∀ other, decodeDecimal width other = .ok s ↔
          other.take width.bytes = buffer.take width.bytes) := by
  refine ⟨⟨?_, decode_of_lt⟩, ?_, ?_⟩
  · intro failed
    by_contra long
    rw [decode_of_le (Nat.not_lt.mp long)] at failed
    cases failed
  · intro i b place here
    have inside : i < 8 := Nat.lt_of_lt_of_le place width.bytes_le
    refine ⟨by omega, ?_, and_placed b inside (assembled_lt buffer (Nat.le_of_lt inside)),
      assembled_succ here⟩
    rw [toNat_placed b inside, two_pow_place, Nat.mul_comm]
  · intro long
    have decoded := decode_of_le long
    have shown := decodeDecimal_of_le long
    refine ⟨_, _, decoded, rfl, ?_, assembled_lt buffer width.bytes_le, ?_, shown,
      isNumeral_toString _, ?_⟩
    · rw [toNat_assembled buffer width.bytes_le, number_take]
    · intro other same
      rw [decode_of_take_eq long same, decoded]
    · intro other
      rw [← shown]
      refine ⟨take_eq_of_decimal_eq long, ?_⟩
      intro same
      rw [decodeDecimal, decode_of_take_eq long same, decodeDecimal]

/-- The largest number, which takes all 64 bits, and a byte behind it. -/
theorem decimal_of_bytes_largest :
    let buffer := [0xff, 0xff, 0xff, 0xff, 0xff, 0xff, 0xff, 0xff, 0x01]
    (8 * 7 < 64 ∧ assembled buffer 7 &&& placed 0xff 7 = 0) ∧
      decodeDecimal .eight buffer = .ok "18446744073709551615" ∧
      decodeDecimal .eight [0xff, 0xff, 0xff, 0xff, 0xff, 0xff, 0xff, 0xfe, 0x01] ≠
        .ok "18446744073709551615" := by
  intro buffer
  obtain ⟨-, steps, read⟩ := decimal_of_bytes .eight buffer
  obtain ⟨top, -, apart, -⟩ := steps 7 0xff (by decide) rfl
  obtain ⟨n, s, -, -, -, -, -, shown, -, same⟩ := read (by decide)
  have numeral : decodeDecimal .eight buffer = .ok "18446744073709551615" := by decide +kernel
  cases shown.symm.trans numeral
  refine ⟨⟨top, apart⟩, numeral, ?_⟩
  rw [Ne, same]
  decide

end Integer

end FirmwareVars
