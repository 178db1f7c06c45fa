import FirmwareVars.Proofs.Hex

/-!
# The dump of bytes

Without its spaces a dump is the plain digits of the bytes (`filter_dump`), which read back.  So
nothing is lost, and different bytes have different dumps (`dump_injective`).

The places follow from the recursion: the dump of at least two bytes is three places, two digits
and a space, before the dump of the others (`dump_spaces`, `dump_digits`).
-/

namespace FirmwareVars.Hex

/-! ## Spaces and digits -/

theorem digit_mem_lowercase {v : UInt8} (h : v < 16) : digit v ∈ lowercase := by
  have all : ∀ n : Fin 16, digit (.ofNat n) ∈ lowercase := by decide
  simpa using all ⟨v.toNat, UInt8.lt_iff_toNat_lt.mp h⟩

theorem mem_lowercase_of_mem_pair {b c : UInt8} (h : c ∈ pair b) : c ∈ lowercase := by
  simp only [pair, List.mem_cons, List.not_mem_nil, or_false] at h
  rcases h with rfl | rfl
  · exact digit_mem_lowercase (high_lt b)
  · exact digit_mem_lowercase (low_lt b)

theorem filter_pair (b : UInt8) : (pair b).filter (· ≠ 0x20) = pair b := by
  rw [List.filter_eq_self]
  intro c hc
  have digit := isDigit_of_mem_pair hc
  rw [decide_eq_true_eq]
  rintro rfl
  exact absurd digit (by decide)

/-- What is left of a dump without the spaces are the digits of the bytes. -/
theorem filter_dump : ∀ bytes : List UInt8, (dump bytes).filter (· ≠ 0x20) = encode bytes
  | [] => rfl
  | [b] => by
      rw [dump, filter_pair]
      exact (List.append_nil (pair b)).symm
  | b :: c :: rest => by
      rw [dump, List.filter_append, filter_pair, List.filter_cons_of_neg (by simp),
        filter_dump (c :: rest)]
      rfl

theorem decode_filter_dump (bytes : List UInt8) :
    decode bytes.length ((dump bytes).filter (· ≠ 0x20)) = .ok bytes := by
  rw [filter_dump, decode_encode]

theorem dump_injective {a b : List UInt8} (same : dump a = dump b) : a = b := by
  -- Reading takes the number of bytes, which the length of the dump gives.
  have length := congrArg List.length same
  have read := decode_filter_dump a
  rw [length_dump, length_dump, dumpLength, dumpLength] at length
  rw [same, show a.length = b.length by omega, decode_filter_dump b] at read
  exact (Except.ok.inj read).symm

/-! ## Places -/

/-- A space stands in every third place. -/
theorem dump_spaces : ∀ (bytes : List UInt8) (i : Nat), i + 1 < bytes.length →
    (dump bytes)[3 * i + 2]? = some 0x20
  | [], i, inside => by simp at inside
  | [b], i, inside => by simp at inside
  | b :: c :: rest, 0, _ => rfl
  | b :: c :: rest, i + 1, inside => by
      have shorter : i + 1 < (c :: rest).length := Nat.lt_of_succ_lt_succ inside
      exact dump_spaces (c :: rest) i shorter

/-- A digit stands in every place but the third ones. -/
theorem dump_digits : ∀ (bytes : List UInt8) (k : Nat) (c : UInt8), (dump bytes)[k]? = some c →
    k % 3 ≠ 2 → c ∈ lowercase
  | [], k, c, here, _ => by simp [dump] at here
  | [b], k, c, here, _ => mem_lowercase_of_mem_pair (List.mem_of_getElem? here)
  | b :: d :: rest, 0, c, here, _ => by
      cases here
      exact digit_mem_lowercase (high_lt b)
  | b :: d :: rest, 1, c, here, _ => by
      cases here
      exact digit_mem_lowercase (low_lt b)
  | b :: d :: rest, 2, c, _, digit => absurd rfl digit
  | b :: d :: rest, k + 3, c, here, digit =>
      dump_digits (d :: rest) k c here (by omega)

/-- A dump is three bytes long for each byte, less the space that the last one lacks, and this is
the length known before.  A space stands behind every byte but the last one, and all else are
lowercase digits.  Without the spaces the dump is read back, so each buffer has a dump of its
own. -/
theorem dump_lossless (buffer : List UInt8) :
    (dump buffer).length = 3 * buffer.length - 1 ∧
    dumpLength buffer.length = (dump buffer).length ∧
    (∀ i, i + 1 < buffer.length → (dump buffer)[3 * i + 2]? = some 0x20) ∧
    (∀ k c, (dump buffer)[k]? = some c → (∀ i, i + 1 < buffer.length → k ≠ 3 * i + 2) →
      c ∈ lowercase) ∧
    decode buffer.length ((dump buffer).filter (· ≠ 0x20)) = .ok buffer ∧
    (dump buffer = [] ↔ buffer = []) ∧
    ∀ other, dump other = dump buffer ↔ other = buffer := by
  have length := length_dump buffer
  refine ⟨length, length.symm, dump_spaces buffer, ?_, decode_filter_dump buffer, ?_, ?_⟩
  · intro k c here away
    have inside : k < (dump buffer).length := (List.getElem?_eq_some_iff.mp here).1
    rw [length, dumpLength] at inside
    apply dump_digits buffer k c here
    intro third
    exact away (k / 3) (by omega) (by omega)
  · constructor
    · intro none
      exact dump_injective none
    · rintro rfl
      rfl
  · intro other
    constructor
    · exact dump_injective
    · rintro rfl
      rfl

/-- A zero byte, and digits that are letters. -/
theorem dump_lossless_zero :
    dump [0xab, 0x00, 0x7f] = [0x61, 0x62, 0x20, 0x30, 0x30, 0x20, 0x37, 0x66] ∧
      (dump [0xab, 0x00, 0x7f])[5]? = some 0x20 ∧ (0x66 : UInt8) ∈ lowercase := by
  obtain ⟨-, -, spaces, digits, -⟩ := dump_lossless [0xab, 0x00, 0x7f]
  refine ⟨rfl, spaces 1 (by decide), digits 7 0x66 rfl ?_⟩
  intro i inside
  omega

end FirmwareVars.Hex
