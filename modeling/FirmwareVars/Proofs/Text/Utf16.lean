import FirmwareVars.Text.Utf16
import Mathlib.Data.List.TakeWhile

/-!
# Units and their bytes

A unit is its low byte plus 256 times its high byte (`toNat_unit`), and reading
a buffer gives the units of its byte pairs by position (`getElem?_units`).  Units
that are written to bytes read back, also before other bytes
(`units_bytes_append`).

A list of units without a zero unit is what `unitsToZero` finds in its own bytes,
whether a zero unit and anything else comes after them or the buffer ends.
-/

namespace FirmwareVars.Utf16

/-! ## One unit -/

theorem toNat_unit (low high : UInt8) :
    (unit low high).toNat = low.toNat + 256 * high.toNat := by
  have hl := low.toNat_lt
  have hh := high.toNat_lt
  have shifted : high.toNat <<< 8 % 2 ^ 16 = 2 ^ 8 * high.toNat := by
    rw [Nat.shiftLeft_eq]
    omega
  rw [unit, UInt16.toNat_or, UInt16.toNat_shiftLeft, UInt8.toNat_toUInt16, UInt8.toNat_toUInt16]
  show low.toNat ||| high.toNat <<< 8 % 2 ^ 16 = _
  rw [shifted, Nat.or_comm, ← Nat.two_pow_add_eq_or_of_lt hl]
  omega

theorem unit_halves (u : UInt16) : unit u.toUInt8 (u >>> 8).toUInt8 = u := by
  have hu := u.toNat_lt
  apply UInt16.toNat_inj.mp
  rw [toNat_unit, UInt16.toNat_toUInt8, UInt16.toNat_toUInt8, UInt16.toNat_shiftRight]
  show u.toNat % 2 ^ 8 + 256 * (u.toNat >>> 8 % 2 ^ 8) = u.toNat
  rw [Nat.shiftRight_eq_div_pow]
  omega

/-! ## Buffers -/

/-- The unit at a position is made of the two bytes at twice that position. -/
theorem getElem?_units (buffer : List UInt8) (i : Nat) (u : UInt16) :
    (units buffer)[i]? = some u ↔
      ∃ low high, buffer[2 * i]? = some low ∧ buffer[2 * i + 1]? = some high ∧
        u.toNat = low.toNat + 256 * high.toNat := by
  induction buffer using units.induct generalizing i with
  | case1 low high rest ih =>
      cases i with
      | zero =>
          simp only [units, List.getElem?_cons_zero, Nat.mul_zero, Nat.zero_add,
            List.getElem?_cons_succ, Option.some.injEq]
          constructor
          · rintro rfl
            exact ⟨low, high, rfl, rfl, toNat_unit low high⟩
          · rintro ⟨_, _, rfl, rfl, hu⟩
            rw [← UInt16.toNat_inj, toNat_unit, hu]
      | succ i =>
          rw [units, List.getElem?_cons_succ, ih i, Nat.mul_succ]
          rfl
  | case2 buffer short =>
      have odd : buffer[2 * i + 1]? = none := by
        rw [List.getElem?_eq_none_iff]
        rcases buffer with _ | ⟨a, _ | ⟨b, rest⟩⟩
        · exact Nat.zero_le _
        · exact Nat.le_add_left 1 _
        · exact absurd rfl (short a b rest)
      rw [units.eq_2 _ short, odd]
      simp

/-- Two bytes are a unit, and an odd one is none. -/
theorem length_units (buffer : List UInt8) : (units buffer).length = buffer.length / 2 := by
  induction buffer using units.induct with
  | case1 low high rest ih =>
      simp only [units, List.length_cons, ih]
      omega
  | case2 buffer short =>
      rcases buffer with _ | ⟨a, _ | ⟨b, rest⟩⟩
      · rfl
      · simp [units]
      · exact absurd rfl (short a b rest)

theorem length_bytes (us : List UInt16) : (bytes us).length = 2 * us.length := by
  induction us with
  | nil => rfl
  | cons u us ih =>
      have step : bytes (u :: us) = u.toUInt8 :: (u >>> 8).toUInt8 :: bytes us := rfl
      rw [step, List.length_cons, List.length_cons, List.length_cons, ih]
      omega

theorem units_bytes_append (us : List UInt16) (rest : List UInt8) :
    units (bytes us ++ rest) = us ++ units rest := by
  induction us with
  | nil => rfl
  | cons u us ih =>
      have step : bytes (u :: us) = u.toUInt8 :: (u >>> 8).toUInt8 :: bytes us := rfl
      rw [step, List.cons_append, List.cons_append, units, unit_halves, ih, List.cons_append]

theorem units_bytes (us : List UInt16) : units (bytes us) = us := by
  have h := units_bytes_append us []
  rwa [List.append_nil, show units [] = [] from rfl, List.append_nil] at h

/-! ## Up to a zero unit -/

theorem unitsToZero_bytes {us : List UInt16} (h : ∀ u ∈ us, u ≠ 0) :
    unitsToZero (bytes us) = us := by
  rw [unitsToZero, units_bytes, List.takeWhile_eq_self_iff]
  simpa using h

/-- A zero unit ends the text, and what comes after it does not matter. -/
theorem unitsToZero_bytes_append {us : List UInt16} (h : ∀ u ∈ us, u ≠ 0) (rest : List UInt8) :
    unitsToZero (bytes (us ++ [0]) ++ rest) = us := by
  rw [unitsToZero, units_bytes_append, List.append_assoc,
    List.takeWhile_append_of_pos (by simpa using h)]
  simp

theorem length_unitsToZero_le (buffer : List UInt8) :
    (unitsToZero buffer).length ≤ buffer.length / 2 := by
  rw [unitsToZero, ← length_units]
  exact (List.takeWhile_sublist _).length_le

theorem ne_zero_of_mem_unitsToZero {buffer : List UInt8} {u : UInt16}
    (h : u ∈ unitsToZero buffer) : u ≠ 0 := by
  have := List.mem_takeWhile_imp h
  simpa using this

end FirmwareVars.Utf16
