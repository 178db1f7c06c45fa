import FirmwareVars.Hex
import Mathlib.Data.Nat.Digits.Defs

/-!
# Hexadecimal text read and written

`IsDigit` says which bytes are hex digits by their ranges, and reading succeeds
on exactly the texts of the right length that hold nothing else
(`decode_isOk_iff`).  Digits that were written read back (`decode_encode`), and
digits that were read are written again in lower case (`encode_of_decode`).
Digits of either case are read alike (`decode_lower`).

`number` says what digits denote in base 16.  The digits of some bytes denote the
number of the bytes in base 256 (`number_encode`).
-/

namespace FirmwareVars.Hex

/-! ## Digits -/

/-- What holds of the bytes of all 256 values holds of every byte. -/
theorem forall_byte {p : UInt8 → Prop} (all : ∀ n : Fin 256, p (.ofNat n)) (c : UInt8) : p c := by
  have here := all ⟨c.toNat, c.toNat_lt⟩
  rwa [UInt8.ofNat_toNat] at here

/-- Whether a byte is a hex digit of either case. -/
def IsDigit (c : UInt8) : Prop :=
  (0x30 ≤ c ∧ c ≤ 0x39) ∨ (0x61 ≤ c ∧ c ≤ 0x66) ∨ (0x41 ≤ c ∧ c ≤ 0x46)

instance (c : UInt8) : Decidable (IsDigit c) :=
  inferInstanceAs (Decidable ((0x30 ≤ c ∧ c ≤ 0x39) ∨ (0x61 ≤ c ∧ c ≤ 0x66) ∨
    (0x41 ≤ c ∧ c ≤ 0x46)))

/-- The digits are the bytes that have a value. -/
theorem isDigit_iff (c : UInt8) : IsDigit c ↔ ∃ v, value? c = some v := by
  rw [IsDigit, value?]
  by_cases decimal : 0x30 ≤ c ∧ c ≤ 0x39
  · simp [decimal]
  by_cases lower : 0x61 ≤ c ∧ c ≤ 0x66
  · simp [decimal, lower]
  by_cases upper : 0x41 ≤ c ∧ c ≤ 0x46
  · simp [decimal, lower, upper]
  · simp [decimal, lower, upper]

theorem value?_eq_none {c : UInt8} (h : ¬ IsDigit c) : value? c = none := by
  cases hv : value? c with
  | none => rfl
  | some v => exact absurd ((isDigit_iff c).mpr ⟨v, hv⟩) h

/-- Digits are ASCII. -/
theorem IsDigit.ascii {c : UInt8} (h : IsDigit c) : 0 < c ∧ c < 0x80 := by
  rcases h with ⟨low, high⟩ | ⟨low, high⟩ | ⟨low, high⟩
  · exact ⟨UInt8.lt_of_lt_of_le (by decide) low, UInt8.lt_of_le_of_lt high (by decide)⟩
  · exact ⟨UInt8.lt_of_lt_of_le (by decide) low, UInt8.lt_of_le_of_lt high (by decide)⟩
  · exact ⟨UInt8.lt_of_lt_of_le (by decide) low, UInt8.lt_of_le_of_lt high (by decide)⟩

theorem toNat_high (b : UInt8) : (b >>> 4).toNat = b.toNat / 16 := by
  rw [UInt8.toNat_shiftRight]
  exact Nat.shiftRight_eq_div_pow b.toNat 4

theorem toNat_low (b : UInt8) : (b &&& 0x0f).toNat = b.toNat % 16 := by
  rw [UInt8.toNat_and]
  exact Nat.and_two_pow_sub_one_eq_mod b.toNat 4

theorem high_lt (b : UInt8) : b >>> 4 < 16 := by
  have hb := b.toNat_lt
  rw [UInt8.lt_iff_toNat_lt, toNat_high]
  show b.toNat / 16 < 16
  omega

theorem low_lt (b : UInt8) : b &&& 0x0f < 16 := by
  rw [UInt8.lt_iff_toNat_lt, toNat_low]
  exact Nat.mod_lt _ (by decide)

theorem toNat_joined {h l : UInt8} (hh : h < 16) (hl : l < 16) :
    (h <<< 4 ||| l).toNat = 16 * h.toNat + l.toNat := by
  have high : h.toNat < 16 := hh
  have low : l.toNat < 2 ^ 4 := hl
  have shifted : h.toNat <<< 4 % 2 ^ 8 = 2 ^ 4 * h.toNat := by
    rw [Nat.shiftLeft_eq]
    omega
  rw [UInt8.toNat_or, UInt8.toNat_shiftLeft]
  show h.toNat <<< 4 % 2 ^ 8 ||| l.toNat = 16 * h.toNat + l.toNat
  rw [shifted, ← Nat.two_pow_add_eq_or_of_lt low]

/-- A byte is made of its halves. -/
theorem halves (b : UInt8) : (b >>> 4) <<< 4 ||| (b &&& 0x0f) = b := by
  rw [← UInt8.toNat_inj, toNat_joined (high_lt b) (low_lt b), toNat_high, toNat_low]
  exact Nat.div_add_mod b.toNat 16

theorem pair_joined {h l : UInt8} (hh : h < 16) (hl : l < 16) :
    pair (h <<< 4 ||| l) = [digit h, digit l] := by
  have low : l.toNat < 16 := hl
  have first : (h <<< 4 ||| l) >>> 4 = h := by
    rw [← UInt8.toNat_inj, toNat_high, toNat_joined hh hl]
    omega
  have second : (h <<< 4 ||| l) &&& 0x0f = l := by
    rw [← UInt8.toNat_inj, toNat_low, toNat_joined hh hl]
    omega
  rw [pair, first, second]

theorem isDigit_of_mem_pair {b c : UInt8} (h : c ∈ pair b) : IsDigit c := by
  rw [isDigit_iff]
  simp only [pair, List.mem_cons, List.not_mem_nil, or_false] at h
  rcases h with rfl | rfl
  · exact ⟨_, value?_digit (high_lt b)⟩
  · exact ⟨_, value?_digit (low_lt b)⟩

/-! ## Written digits -/

theorem isDigit_of_mem_encode {bytes : List UInt8} {c : UInt8} (h : c ∈ encode bytes) :
    IsDigit c := by
  obtain ⟨b, -, hc⟩ := List.mem_flatMap.mp h
  exact isDigit_of_mem_pair hc

/-- A dump holds digits and spaces. -/
theorem mem_dump {c : UInt8} : ∀ {bytes : List UInt8}, c ∈ dump bytes → IsDigit c ∨ c = 0x20
  | [], h => absurd h List.not_mem_nil
  | [_], h => Or.inl (isDigit_of_mem_pair h)
  | b :: d :: rest, h => by
      rw [dump, List.mem_append, List.mem_cons] at h
      rcases h with h | rfl | h
      · exact Or.inl (isDigit_of_mem_pair h)
      · exact Or.inr rfl
      · exact mem_dump h

theorem decodePairs_encode (bytes : List UInt8) (offset : Nat) :
    decodePairs offset (encode bytes) = .ok bytes := by
  induction bytes generalizing offset with
  | nil => rfl
  | cons b rest ih =>
      have step : encode (b :: rest) =
          digit (b >>> 4) :: digit (b &&& 0x0f) :: encode rest := rfl
      rw [step, decodePairs]
      simp only [value?_digit (high_lt b), value?_digit (low_lt b), ih, halves]

/-- Written digits read back. -/
theorem decode_encode (bytes : List UInt8) : decode bytes.length (encode bytes) = .ok bytes := by
  rw [decode, if_pos (length_encode bytes), decodePairs_encode]

/-! ## Which texts are read -/

/-- Pairs are read if and only if every byte of them is a digit. -/
theorem decodePairs_isOk_iff {n : Nat} : ∀ {digits : List UInt8} (offset : Nat),
    digits.length = 2 * n →
      ((∃ bytes, decodePairs offset digits = .ok bytes) ↔ ∀ c ∈ digits, IsDigit c) := by
  induction n with
  | zero =>
      intro digits offset h
      rw [List.length_eq_zero_iff.mp h]
      simp [decodePairs]
  | succ n ih =>
      intro digits offset h
      match digits, h with
      | high :: low :: rest, h =>
          have shorter : rest.length = 2 * n := by
            simp only [List.length_cons] at h
            omega
          rw [decodePairs, List.forall_mem_cons, List.forall_mem_cons,
            ← ih (offset + 2) shorter]
          by_cases hh : IsDigit high
          · by_cases hl : IsDigit low
            · obtain ⟨v, hv⟩ := (isDigit_iff high).mp hh
              obtain ⟨w, hw⟩ := (isDigit_iff low).mp hl
              cases hr : decodePairs (offset + 2) rest with
              | error e => simp [hv, hw]
              | ok bytes => simp [hv, hw, hh, hl]
            · obtain ⟨v, hv⟩ := (isDigit_iff high).mp hh
              simp [hv, value?_eq_none hl, hl]
          · simp [value?_eq_none hh, hh]

/-- The texts that are read have the right length and hold digits alone. -/
theorem decode_isOk_iff (n : Nat) (digits : List UInt8) :
    (∃ bytes, decode n digits = .ok bytes) ↔
      digits.length = 2 * n ∧ ∀ c ∈ digits, IsDigit c := by
  rw [decode]
  by_cases h : digits.length = 2 * n
  · rw [if_pos h, decodePairs_isOk_iff 0 h]
    simp [h]
  · rw [if_neg h]
    simp [h]

/-- Two digits are read as one byte. -/
theorem length_of_decodePairs {digits bytes : List UInt8} {offset : Nat}
    (h : decodePairs offset digits = .ok bytes) : bytes.length = digits.length / 2 := by
  fun_induction decodePairs offset digits generalizing bytes with
  | case1 offset high low rest hv => cases h
  | case2 offset high low rest v hv hw => cases h
  | case3 offset high low rest v w hv hw e hr => cases h
  | case4 offset high low rest v w hv hw more hr ih =>
      cases h
      simp only [List.length_cons, ih hr]
      omega
  | case5 digits offset short =>
      cases h
      rcases digits with _ | ⟨a, _ | ⟨b, rest⟩⟩
      · rfl
      · simp
      · exact absurd rfl (short a b rest)

theorem length_of_decode {n : Nat} {digits bytes : List UInt8}
    (h : decode n digits = .ok bytes) : bytes.length = n := by
  rw [decode] at h
  split at h
  · next hl =>
    rw [length_of_decodePairs h, hl]
    omega
  · cases h

/-! ## Letter case -/

/-- A letter in lower case, and any other byte as it is. -/
def lower (c : UInt8) : UInt8 := if 0x41 ≤ c ∧ c ≤ 0x5a then c + 0x20 else c

/-- Bytes that are not ASCII are no letters. -/
theorem lower_of_le {c : UInt8} (h : 0x80 ≤ c) : lower c = c := by
  rw [lower, if_neg]
  rintro ⟨-, letter⟩
  exact absurd (UInt8.le_trans h letter) (by decide)

theorem value?_lower : ∀ c, value? (lower c) = value? c := by
  apply forall_byte
  decide +kernel

theorem decodePairs_lower (digits : List UInt8) (offset : Nat) :
    decodePairs offset (digits.map lower) = decodePairs offset digits := by
  fun_induction decodePairs offset digits with
  | case1 offset high low rest hv => simp [decodePairs, value?_lower, hv]
  | case2 offset high low rest v hv hw => simp [decodePairs, value?_lower, hv, hw]
  | case3 offset high low rest v w hv hw e hr ih =>
      rw [hr] at ih
      simp [decodePairs, value?_lower, hv, hw, ih]
  | case4 offset high low rest v w hv hw bytes hr ih =>
      rw [hr] at ih
      simp [decodePairs, value?_lower, hv, hw, ih]
  | case5 digits offset short =>
      rcases digits with _ | ⟨a, _ | ⟨b, rest⟩⟩
      · rfl
      · rfl
      · exact absurd rfl (short a b rest)

/-- Digits are read alike in either case. -/
theorem decode_lower (n : Nat) (digits : List UInt8) :
    decode n (digits.map lower) = decode n digits := by
  rw [decode, decode, List.length_map, decodePairs_lower]

/-! ## Digits written again -/

/-- A digit is written again as itself, a letter in lower case. -/
theorem digit_of_value? {c v : UInt8} (h : value? c = some v) : v < 16 ∧ digit v = lower c := by
  have all : ∀ c, ∀ v ∈ value? c, v < 16 ∧ digit v = lower c := by
    apply forall_byte
    decide +kernel
  exact all c v h

/-- What digits spell is written again as the same digits in lower case. -/
theorem encode_of_decodePairs {digits bytes : List UInt8} {offset : Nat}
    (h : decodePairs offset digits = .ok bytes) (even : digits.length % 2 = 0) :
    encode bytes = digits.map lower := by
  fun_induction decodePairs offset digits generalizing bytes with
  | case1 offset high low rest hv => cases h
  | case2 offset high low rest v hv hw => cases h
  | case3 offset high low rest v w hv hw e hr => cases h
  | case4 offset high low rest v w hw hv more hr ih =>
    cases h
    obtain ⟨hv, high⟩ := digit_of_value? hv
    obtain ⟨hw, low⟩ := digit_of_value? hw
    have shorter : rest.length % 2 = 0 := by
      simp only [List.length_cons] at even
      omega
    rw [encode, List.flatMap_cons, pair_joined hv hw, high, low]
    exact congrArg _ (ih hr shorter)
  | case5 digits offset short =>
    cases h
    rcases digits with _ | ⟨a, _ | ⟨b, rest⟩⟩
    · rfl
    · cases even
    · exact absurd rfl (short a b rest)

theorem encode_of_decode {n : Nat} {digits bytes : List UInt8}
    (h : decode n digits = .ok bytes) : encode bytes = digits.map lower := by
  rw [decode] at h
  split at h
  next hl => exact encode_of_decodePairs h (by omega)
  next => cases h

/-! ## Numbers -/

/-- The digits in lower case, each at the place of its value. -/
def lowercase : List UInt8 :=
  [0x30, 0x31, 0x32, 0x33, 0x34, 0x35, 0x36, 0x37, 0x38, 0x39, 0x61, 0x62, 0x63, 0x64, 0x65, 0x66]

/-- The number that digits of either case denote in base 16, the first digit the highest. -/
def number (digits : List UInt8) : Nat :=
  Nat.ofDigits 16 (digits.reverse.map fun c => lowercase.idxOf (lower c))

theorem number_append (a b : List UInt8) :
    number (a ++ b) = number a * 16 ^ b.length + number b := by
  rw [number, List.reverse_append, List.map_append, Nat.ofDigits_append, List.length_map,
    List.length_reverse, Nat.add_comm, Nat.mul_comm]
  rfl

theorem lower_lower : ∀ c, lower (lower c) = lower c := by
  apply forall_byte
  decide +kernel

/-- Letter case does not count. -/
theorem number_lower (digits : List UInt8) : number (digits.map lower) = number digits := by
  simp only [number, ← List.map_reverse, List.map_map, Function.comp_def, lower_lower]

theorem number_digit {v : UInt8} (h : v < 16) : number [digit v] = v.toNat := by
  have all : ∀ n : Fin 16, number [digit (.ofNat n)] = n.1 := by decide
  simpa using all ⟨v.toNat, UInt8.lt_iff_toNat_lt.mp h⟩

/-- The digits of a byte denote the byte. -/
theorem number_pair (b : UInt8) : number (pair b) = b.toNat := by
  have first : pair b = [digit (b >>> 4)] ++ [digit (b &&& 0x0f)] := rfl
  rw [first, number_append, number_digit (high_lt b), number_digit (low_lt b), toNat_high,
    toNat_low]
  exact Nat.div_add_mod' b.toNat 16

/-- The digits of several bytes denote the number of the bytes in base 256. -/
theorem number_encode (bytes : List UInt8) :
    number (encode bytes) = Nat.ofDigits 256 (bytes.reverse.map UInt8.toNat) := by
  induction bytes with
  | nil => rfl
  | cons b rest ih =>
    have step : encode (b :: rest) = pair b ++ encode rest := rfl
    rw [step, number_append, number_pair, length_encode, ih, List.reverse_cons, List.map_append,
      Nat.ofDigits_append, List.length_map, List.length_reverse, Nat.pow_mul, Nat.add_comm,
      Nat.mul_comm]
    simp

end FirmwareVars.Hex
