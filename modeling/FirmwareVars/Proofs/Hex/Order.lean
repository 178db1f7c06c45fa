import FirmwareVars.Proofs.Hex
import Mathlib.Tactic.Tauto

/-!
# Digits in order

Digits in lower case ascend with their values (`digit_lt_iff`), and the two digits of a byte have
the high one first (`pair_lt_iff`).  So lists of bytes compare like their digits
(`encode_lt_iff`), since each byte has equally many.

Equally many bytes compare like the numbers that their digits denote, whatever stands behind them
(`append_lt_append_iff_number`).
-/

namespace FirmwareVars.Hex

/-- Behind parts of one length, lists compare only if the parts are the same. -/
theorem append_lt_append_iff {α : Type} [LT α] {a b : List α} (length : a.length = b.length)
    (c d : List α) : a ++ c < b ++ d ↔ a < b ∨ a = b ∧ c < d := by
  induction a generalizing b with
  | nil =>
    rw [List.length_nil, eq_comm, List.length_eq_zero_iff] at length
    subst length
    simp [List.not_lt_nil]
  | cons x a ih =>
    cases b with
    | nil => cases length
    | cons y b =>
      rw [List.cons_append, List.cons_append, List.cons_lt_cons_iff, List.cons_lt_cons_iff,
        ih (Nat.succ.inj length), List.cons.injEq]
      tauto

/-! ## Digits -/

theorem toNat_digit {v : UInt8} (h : v < 16) :
    (digit v).toNat = if v.toNat < 10 then 48 + v.toNat else 87 + v.toNat := by
  have small : v.toNat < 16 := h
  by_cases decimal : v.toNat < 10
  · have below : v < 10 := decimal
    rw [digit, if_pos below, if_pos decimal, UInt8.toNat_add]
    show (48 + v.toNat) % 256 = _
    omega
  · have above : ¬ v < 10 := decimal
    have least : (10 : UInt8) ≤ v := UInt8.not_lt.mp above
    rw [digit, if_neg above, if_neg decimal, UInt8.toNat_add, UInt8.toNat_sub_of_le _ _ least]
    show (97 + (v.toNat - 10)) % 256 = _
    omega

theorem digit_lt_iff {v w : UInt8} (hv : v < 16) (hw : w < 16) :
    digit v < digit w ↔ v.toNat < w.toNat := by
  rw [UInt8.lt_iff_toNat_lt, toNat_digit hv, toNat_digit hw]
  split_ifs <;> omega

theorem digit_inj {v w : UInt8} (hv : v < 16) (hw : w < 16) :
    digit v = digit w ↔ v.toNat = w.toNat := by
  rw [← UInt8.toNat_inj, toNat_digit hv, toNat_digit hw]
  split_ifs <;> omega

theorem pair_lt_iff (b c : UInt8) : pair b < pair c ↔ b < c := by
  simp only [pair, List.cons_lt_cons_iff, digit_lt_iff (high_lt b) (high_lt c),
    digit_inj (high_lt b) (high_lt c), digit_lt_iff (low_lt b) (low_lt c), List.not_lt_nil,
    and_false, or_false, toNat_high, toNat_low, UInt8.lt_iff_toNat_lt]
  omega

theorem pair_inj {b c : UInt8} (same : pair b = pair c) : b = c := by
  have numbers := congrArg number same
  rw [number_pair, number_pair] at numbers
  exact UInt8.toNat_inj.mp numbers

/-- Bytes compare like their digits. -/
theorem encode_lt_iff (a b : List UInt8) : encode a < encode b ↔ a < b := by
  induction a generalizing b with
  | nil =>
    cases b with
    | nil => exact Iff.rfl
    | cons c b => exact ⟨fun _ => List.nil_lt_cons c b, fun _ => List.nil_lt_cons _ _⟩
  | cons d a ih =>
    cases b with
    | nil => exact ⟨fun h => absurd h (List.not_lt_nil _), fun h => absurd h (List.not_lt_nil _)⟩
    | cons c b =>
      have first : encode (d :: a) = pair d ++ encode a := rfl
      have second : encode (c :: b) = pair c ++ encode b := rfl
      have length : (pair d).length = (pair c).length := rfl
      have same : pair d = pair c ↔ d = c := ⟨pair_inj, congrArg pair⟩
      rw [first, second, append_lt_append_iff length, pair_lt_iff, same, ih,
        List.cons_lt_cons_iff]

/-! ## Numbers -/

section Remainder

variable {m x y r s : Nat}

theorem mul_add_lt_iff (hr : r < m) (hs : s < m) :
    m * x + r < m * y + s ↔ x < y ∨ x = y ∧ r < s := by
  rcases Nat.lt_trichotomy x y with less | rfl | more
  · have step := Nat.mul_le_mul_left m less
    rw [Nat.mul_succ] at step
    omega
  · omega
  · have step := Nat.mul_le_mul_left m more
    rw [Nat.mul_succ] at step
    omega

theorem mul_add_inj (hr : r < m) (hs : s < m) : m * x + r = m * y + s ↔ x = y ∧ r = s := by
  have less := mul_add_lt_iff (x := x) (y := y) hr hs
  have more := mul_add_lt_iff (x := y) (y := x) hs hr
  omega

end Remainder

theorem number_encode_cons (b : UInt8) (rest : List UInt8) :
    number (encode (b :: rest)) = 256 ^ rest.length * b.toNat + number (encode rest) := by
  have step : encode (b :: rest) = pair b ++ encode rest := rfl
  rw [step, number_append, number_pair, length_encode, Nat.pow_mul, Nat.mul_comm]

theorem number_encode_lt (bytes : List UInt8) : number (encode bytes) < 256 ^ bytes.length := by
  induction bytes with
  | nil => decide
  | cons b rest ih =>
    have top := Nat.mul_le_mul_left (256 ^ rest.length) b.toNat_lt
    rw [Nat.mul_succ] at top
    rw [number_encode_cons, List.length_cons, Nat.pow_succ]
    omega

/-- Equally many bytes in front compare like their numbers. -/
theorem append_lt_append_iff_number {a b : List UInt8} (length : a.length = b.length)
    (c d : List UInt8) :
    a ++ c < b ++ d ↔
      number (encode a) < number (encode b) ∨ number (encode a) = number (encode b) ∧ c < d := by
  induction a generalizing b with
  | nil =>
    rw [List.length_nil, eq_comm, List.length_eq_zero_iff] at length
    subst length
    simp
  | cons x a ih =>
    cases b with
    | nil => cases length
    | cons y b =>
      have shorter : a.length = b.length := Nat.succ.inj length
      have first := number_encode_lt a
      have second := number_encode_lt b
      rw [shorter] at first
      -- The first bytes decide on both sides, unless they are the same.
      rw [List.cons_append, List.cons_append, List.cons_lt_cons_iff, ih shorter,
        number_encode_cons, number_encode_cons, shorter, mul_add_lt_iff first second,
        mul_add_inj first second, UInt8.lt_iff_toNat_lt, UInt8.toNat_inj]
      tauto

end FirmwareVars.Hex
