import FirmwareVars.Proofs.Hex
import Mathlib.Order.Bounds.Defs

/-!
# The outcomes of reading digits

A text of the wrong length is refused before any byte is looked at.  In a text of the right
length the error is at its first stray byte, the least offset in `strays`
(`decodePairs_eq_error_iff`).  A text without one spells exactly one list of bytes, the one
that is written as this text in lower case.

The digits are read in pairs, but a pair tells its first digit from its second, so it does not
matter at which of them the stray byte stands.
-/

namespace FirmwareVars.Hex

/-! ## Stray bytes -/

/-- The offsets of the bytes that are not digits. -/
def strays (digits : List UInt8) : Set Nat := {k | ∃ c, digits[k]? = some c ∧ ¬ IsDigit c}

section Strays

variable {c : UInt8} {digits rest : List UInt8} {k : Nat}

theorem zero_mem_strays : 0 ∈ strays (c :: rest) ↔ ¬ IsDigit c := by
  simp [strays]

theorem succ_mem_strays : k + 1 ∈ strays (c :: rest) ↔ k ∈ strays rest := by
  simp [strays]

/-- A stray byte at the start is the first one. -/
theorem isLeast_strays_of_stray (h : ¬ IsDigit c) : IsLeast (strays (c :: rest)) k ↔ k = 0 := by
  have here : 0 ∈ strays (c :: rest) := zero_mem_strays.mpr h
  constructor
  · intro least
    exact Nat.le_zero.mp (least.2 here)
  · rintro rfl
    exact ⟨here, fun j _ => Nat.zero_le j⟩

/-- Behind a digit the first stray byte is one place further on. -/
theorem isLeast_strays_of_digit (h : IsDigit c) :
    IsLeast (strays (c :: rest)) k ↔ ∃ j, k = j + 1 ∧ IsLeast (strays rest) j := by
  have here : 0 ∉ strays (c :: rest) := fun stray => zero_mem_strays.mp stray h
  constructor
  · rintro ⟨mem, le⟩
    cases k with
    | zero => exact absurd mem here
    | succ j =>
      refine ⟨j, rfl, succ_mem_strays.mp mem, fun i hi => ?_⟩
      exact Nat.le_of_succ_le_succ (le (succ_mem_strays.mpr hi))
  · rintro ⟨j, rfl, mem, le⟩
    refine ⟨succ_mem_strays.mpr mem, fun i hi => ?_⟩
    cases i with
    | zero => exact absurd hi here
    | succ i => exact Nat.succ_le_succ (le (succ_mem_strays.mp hi))

end Strays

/-! ## Pairs -/

theorem not_isDigit {c : UInt8} (h : value? c = none) : ¬ IsDigit c := by
  rw [isDigit_iff]
  simp [h]

theorem isDigit_of_value? {c v : UInt8} (h : value? c = some v) : IsDigit c :=
  (isDigit_iff c).mpr ⟨v, h⟩

/-- Two digits move the first stray byte by two. -/
theorem exists_stray_behind_pair {high low : UInt8} {rest : List UInt8} {offset : Nat} {e : Error}
    (hh : IsDigit high) (hl : IsDigit low) :
    (∃ k, IsLeast (strays (high :: low :: rest)) k ∧ e = .digit (offset + k)) ↔
      ∃ k, IsLeast (strays rest) k ∧ e = .digit (offset + 2 + k) := by
  simp only [isLeast_strays_of_digit hh, isLeast_strays_of_digit hl]
  constructor
  · rintro ⟨_, ⟨_, rfl, k, rfl, least⟩, rfl⟩
    exact ⟨k, least, congrArg Error.digit (by omega)⟩
  · rintro ⟨k, least, rfl⟩
    exact ⟨k + 1 + 1, ⟨k + 1, rfl, k, rfl, least⟩, congrArg Error.digit (by omega)⟩

/-- Pairs give an error if and only if there is a stray byte, and the error is at the first
one. -/
theorem decodePairs_eq_error_iff {digits : List UInt8} {offset : Nat} {e : Error}
    (even : digits.length % 2 = 0) :
    decodePairs offset digits = .error e ↔
      ∃ k, IsLeast (strays digits) k ∧ e = .digit (offset + k) := by
  -- What is true of the digits before a pair stays true: the offset counts them.
  fun_induction decodePairs offset digits with
  | case1 offset high low rest hv =>
    simp only [isLeast_strays_of_stray (not_isDigit hv), exists_eq_left, Nat.add_zero,
      Except.error.injEq]
    exact eq_comm
  | case2 offset high low rest v hw hv =>
    simp only [isLeast_strays_of_digit (isDigit_of_value? hv),
      isLeast_strays_of_stray (not_isDigit hw), exists_eq_right, exists_eq_left,
      Except.error.injEq]
    exact eq_comm
  | case3 offset high low rest v w hw hv error hr ih =>
    have shorter : rest.length % 2 = 0 := by
      simp only [List.length_cons] at even
      omega
    rw [exists_stray_behind_pair (isDigit_of_value? hv) (isDigit_of_value? hw), ← ih shorter, hr]
  | case4 offset high low rest v w hw hv bytes hr ih =>
    have shorter : rest.length % 2 = 0 := by
      simp only [List.length_cons] at even
      omega
    rw [exists_stray_behind_pair (isDigit_of_value? hv) (isDigit_of_value? hw), ← ih shorter, hr]
    simp
  | case5 digits offset short =>
    rcases digits with _ | ⟨a, _ | ⟨b, rest⟩⟩
    · simp [strays, IsLeast]
    · cases even
    · exact absurd rfl (short a b rest)

/-! ## Texts -/

/-- Reading gives exactly one of three outcomes, each for the texts that are said here.  The
length comes first, then the first stray byte, and what is left are the written forms of the
bytes, in any letter case. -/
theorem decode_eq_iff (n : Nat) (digits : List UInt8) :
    (∀ expected actual, decode n digits = .error (.length expected actual) ↔
      digits.length ≠ 2 * n ∧ expected = 2 * n ∧ actual = digits.length) ∧
    (∀ k, decode n digits = .error (.digit k) ↔
      digits.length = 2 * n ∧ IsLeast (strays digits) k) ∧
    ((∃ bytes, decode n digits = .ok bytes) ↔
      digits.length = 2 * n ∧ ∀ c ∈ digits, IsDigit c) ∧
    (∀ bytes, decode n digits = .ok bytes ↔
      bytes.length = n ∧ encode bytes = digits.map lower) := by
  refine ⟨fun expected actual => ?_, fun k => ?_, decode_isOk_iff n digits, fun bytes => ?_⟩
  · rw [decode]
    split
    next even =>
      -- Pairs never complain of a length.
      rw [decodePairs_eq_error_iff (by omega)]
      simp [even]
    next uneven => simp [uneven, eq_comm]
  · rw [decode]
    split
    next even =>
      rw [decodePairs_eq_error_iff (by omega)]
      simp [even]
    next uneven => simp [uneven]
  · constructor
    · intro h
      exact ⟨length_of_decode h, encode_of_decode h⟩
    · rintro ⟨rfl, same⟩
      rw [← decode_lower, ← same, decode_encode]

end FirmwareVars.Hex
