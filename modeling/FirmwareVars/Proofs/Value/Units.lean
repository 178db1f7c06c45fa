import FirmwareVars.Format
import FirmwareVars.Proofs.Hex
import FirmwareVars.Proofs.Text.Utf16
import FirmwareVars.Proofs.Text.Utf8

/-!
# The units of a value

A unit is encoded in one, two or three bytes, and reading takes as many bytes
again and gives the unit back, whatever comes after it
(`unitsOf_unitBytes_append`).  So `Value.units` undoes `Value.ofUnits` on any
units, halves of surrogate pairs among them.

Every value that a format gives is spelled by units other than zero
(`isSpelled_of_apply`): text because it ends before a zero unit, numbers and dumps
because they are ASCII.  Written out as units with a zero unit behind them, such a
value reads back as it was (`ofUtf16_units_inverse`).
-/

namespace FirmwareVars.Value

/-! ## Bytes as numbers -/

/-- Bits above the value of a byte are added to it. -/
theorem toNat_or_add {x y : UInt8} {m k : Nat} (hm : m.isPowerOfTwo) (hx : x.toNat < m)
    (hy : y.toNat = m * k) : (x ||| y).toNat = y.toNat + x.toNat := by
  obtain ⟨i, rfl⟩ := hm
  rw [UInt8.toNat_or, hy, Nat.or_comm, ← Nat.two_pow_add_eq_or_of_lt hx]

theorem toNat_low (u : UInt16) : (u &&& 0x3f).toUInt8.toNat = u.toNat % 64 := by
  have masked : u.toNat &&& 0x3f = u.toNat % 64 := Nat.and_two_pow_sub_one_eq_mod u.toNat 6
  rw [UInt16.toNat_toUInt8, UInt16.toNat_and]
  show (u.toNat &&& 0x3f) % 256 = _
  omega

theorem toNat_continuation (u : UInt16) :
    ((u &&& 0x3f).toUInt8 ||| 0x80).toNat = 0x80 + u.toNat % 64 := by
  have low := toNat_low u
  rw [toNat_or_add (m := 64) (k := 2) ⟨6, rfl⟩ (by omega) rfl, low]
  rfl

theorem toNat_shifted (u : UInt16) : (u >>> 6).toNat = u.toNat / 64 := by
  rw [UInt16.toNat_shiftRight]
  exact Nat.shiftRight_eq_div_pow u.toNat 6

theorem toNat_lead_two {u : UInt16} (h : u.toNat < 0x800) :
    ((u >>> 6).toUInt8 ||| 0xc0).toNat = 0xc0 + u.toNat / 64 := by
  have high : (u >>> 6).toUInt8.toNat = u.toNat / 64 := by
    rw [UInt16.toNat_toUInt8, UInt16.toNat_shiftRight]
    show u.toNat >>> 6 % 256 = _
    rw [Nat.shiftRight_eq_div_pow]
    omega
  rw [toNat_or_add (m := 64) (k := 3) ⟨6, rfl⟩ (by omega) rfl, high]
  rfl

theorem toNat_lead_three (u : UInt16) :
    ((u >>> 12).toUInt8 ||| 0xe0).toNat = 0xe0 + u.toNat / 4096 := by
  have hu := u.toNat_lt
  have high : (u >>> 12).toUInt8.toNat = u.toNat / 4096 := by
    rw [UInt16.toNat_toUInt8, UInt16.toNat_shiftRight]
    show u.toNat >>> 12 % 256 = _
    rw [Nat.shiftRight_eq_div_pow]
    omega
  rw [toNat_or_add (m := 16) (k := 14) ⟨4, rfl⟩ (by omega) rfl, high]
  rfl

theorem toNat_extend (u : UInt16) (b : UInt8) :
    (extend u b).toNat = u.toNat * 64 % 65536 + b.toNat % 64 := by
  have masked : b.toNat &&& 0x3f = b.toNat % 64 := Nat.and_two_pow_sub_one_eq_mod b.toNat 6
  have shifted : u.toNat <<< 6 % 2 ^ 16 = 2 ^ 6 * (u.toNat % 1024) := by
    rw [Nat.shiftLeft_eq]
    omega
  have below : b.toNat % 64 < 2 ^ 6 := Nat.mod_lt _ (by decide)
  rw [extend, UInt16.toNat_or, UInt16.toNat_shiftLeft, UInt8.toNat_toUInt16, UInt8.toNat_and]
  show u.toNat <<< 6 % 2 ^ 16 ||| b.toNat &&& 0x3f = _
  rw [masked, shifted, ← Nat.two_pow_add_eq_or_of_lt below]
  omega

theorem toNat_payload_two (a : UInt8) : (a &&& 0x1f).toUInt16.toNat = a.toNat % 32 := by
  rw [UInt8.toNat_toUInt16, UInt8.toNat_and]
  exact Nat.and_two_pow_sub_one_eq_mod a.toNat 5

theorem toNat_payload_three (a : UInt8) : (a &&& 0x0f).toUInt16.toNat = a.toNat % 16 := by
  rw [UInt8.toNat_toUInt16, UInt8.toNat_and]
  exact Nat.and_two_pow_sub_one_eq_mod a.toNat 4

/-! ## Reading a unit -/

theorem unitsOf_one {a : UInt8} (ha : a.toNat < 0x80) (rest : List UInt8) :
    unitsOf (a :: rest) = a.toUInt16 :: unitsOf rest := by
  have ha : a < 0x80 := ha
  rw [unitsOf.eq_def]
  simp only [if_pos ha]

theorem unitsOf_two {a b : UInt8} (ha : 0xc0 ≤ a.toNat ∧ a.toNat < 0xe0)
    (hb : Utf8.isContinuation b) (rest : List UInt8) :
    unitsOf (a :: b :: rest) = extend (a &&& 0x1f).toUInt16 b :: unitsOf rest := by
  have one : ¬ a < 0x80 := Nat.not_lt.mpr (Nat.le_trans (by decide) ha.1)
  have two : 0xc0 ≤ a ∧ a < 0xe0 := ha
  rw [unitsOf.eq_def]
  simp only [if_neg one, if_pos two, if_pos hb]

theorem unitsOf_three {a b c : UInt8} (ha : 0xe0 ≤ a.toNat ∧ a.toNat < 0xf0)
    (hb : Utf8.isContinuation b) (hc : Utf8.isContinuation c) (rest : List UInt8) :
    unitsOf (a :: b :: c :: rest) =
      extend (extend (a &&& 0x0f).toUInt16 b) c :: unitsOf rest := by
  have one : ¬ a < 0x80 := Nat.not_lt.mpr (Nat.le_trans (by decide) ha.1)
  have two : ¬ (0xc0 ≤ a ∧ a < 0xe0) := fun h => Nat.not_lt.mpr ha.1 h.2
  have three : 0xe0 ≤ a ∧ a < 0xf0 := ha
  rw [unitsOf.eq_def]
  simp only [if_neg one, if_neg two, if_pos three, if_pos hb, if_pos hc]

/-- The bytes of a unit read back as that unit, whatever follows. -/
theorem unitsOf_unitBytes_append (u : UInt16) (rest : List UInt8) :
    unitsOf (unitBytes u ++ rest) = u :: unitsOf rest := by
  have hu := u.toNat_lt
  have low := toNat_continuation u
  by_cases one : u < 0x80
  · have small : u.toNat < 0x80 := one
    have same : u.toUInt8.toNat = u.toNat := by
      rw [UInt16.toNat_toUInt8]
      omega
    simp only [unitBytes, unitLength, if_pos one, List.cons_append, List.nil_append]
    rw [unitsOf_one (by omega)]
    congr 1
    rw [← UInt16.toNat_inj, UInt8.toNat_toUInt16, same]
  by_cases two : u < 0x800
  · have small : u.toNat < 0x800 := two
    have lead := toNat_lead_two small
    simp only [unitBytes, unitLength, if_neg one, if_pos two, List.cons_append, List.nil_append]
    rw [unitsOf_two (by omega) ((Utf8.isContinuation_iff _).mpr (by omega))]
    congr 1
    rw [← UInt16.toNat_inj, toNat_extend, toNat_payload_two, lead, low]
    omega
  · have lead := toNat_lead_three u
    have middle := toNat_continuation (u >>> 6)
    simp only [unitBytes, unitLength, if_neg one, if_neg two, List.cons_append, List.nil_append]
    rw [unitsOf_three (by omega) ((Utf8.isContinuation_iff _).mpr (by omega))
      ((Utf8.isContinuation_iff _).mpr (by omega))]
    congr 1
    rw [← UInt16.toNat_inj, toNat_extend, toNat_extend, toNat_payload_three, lead, middle, low,
      toNat_shifted]
    omega

/-! ## Values of units -/

/-- Units that are encoded one by one read back. -/
theorem units_ofUnits (us : List UInt16) : (ofUnits us).units = us := by
  show unitsOf (us.flatMap unitBytes) = us
  induction us with
  | nil => rfl
  | cons u us ih => rw [List.flatMap_cons, unitsOf_unitBytes_append, ih]

/-- Whether a value is what units other than zero are encoded as. -/
def IsSpelled (v : Value) : Prop := ∃ us : List UInt16, (∀ u ∈ us, u ≠ 0) ∧ v = ofUnits us

theorem isSpelled_ofUtf16 (buffer : List UInt8) : (ofUtf16 buffer).IsSpelled :=
  ⟨Utf16.unitsToZero buffer, fun _ => Utf16.ne_zero_of_mem_unitsToZero, rfl⟩

/-- ASCII bytes are units of their own. -/
theorem isSpelled_ascii {bytes : List UInt8} (h : ∀ b ∈ bytes, 0 < b ∧ b < 0x80) :
    IsSpelled ⟨bytes⟩ := by
  refine ⟨bytes.map UInt8.toUInt16, ?_, ?_⟩
  · intro u hu
    obtain ⟨b, hb, rfl⟩ := List.mem_map.mp hu
    intro zero
    have low : 0 < b.toNat := (h b hb).1
    rw [← UInt16.toNat_inj, UInt8.toNat_toUInt16] at zero
    exact absurd zero (Nat.ne_of_gt low)
  · rw [ofUnits, List.flatMap_map]
    congr 1
    induction bytes with
    | nil => rfl
    | cons b rest ih =>
        have high : b.toNat < 0x80 := (h b (List.mem_cons_self ..)).2
        have one : b.toUInt16 < 0x80 := by
          rw [UInt16.lt_iff_toNat_lt, UInt8.toNat_toUInt16]
          exact high
        have same : unitBytes b.toUInt16 = [b] := by
          simp [unitBytes, unitLength, one]
        rw [List.flatMap_cons, same, ← ih fun a ha => h a (List.mem_cons_of_mem b ha)]
        rfl

/-- A spelled value reads back from its units, before a zero unit and anything
else or at the end of the buffer. -/
theorem IsSpelled.ofUtf16_units {v : Value} (h : v.IsSpelled) :
    (∀ rest, ofUtf16 (Utf16.bytes (v.units ++ [0]) ++ rest) = v) ∧
      ofUtf16 (Utf16.bytes v.units) = v := by
  obtain ⟨us, nonzero, rfl⟩ := h
  rw [units_ofUnits]
  constructor
  · intro rest
    rw [ofUtf16, Utf16.unitsToZero_bytes_append nonzero]
  · rw [ofUtf16, Utf16.unitsToZero_bytes nonzero]

/-! ## Values of formats -/

theorem dump_ascii (buffer : List UInt8) : ∀ b ∈ Hex.dump buffer, 0 < b ∧ b < 0x80 := by
  intro b hb
  rcases Hex.mem_dump hb with digit | rfl
  · exact digit.ascii
  · decide

theorem decimal_ascii (n : Nat) : ∀ b ∈ Utf8.encode (toString n), 0 < b ∧ b < 0x80 := by
  intro b hb
  rw [Utf8.encode, Nat.toString_eq_ofList_toDigits, String.toList_ofList] at hb
  obtain ⟨c, hc, hb⟩ := List.mem_flatMap.mp hb
  have digit := Nat.isDigit_of_mem_toDigits (by decide) (by decide) hc
  simp only [Char.isDigit, Bool.and_eq_true, decide_eq_true_eq] at digit
  have low : 0x30 ≤ c.toNat := digit.1
  have high : c.toNat ≤ 0x39 := digit.2
  rw [Utf8.utf8EncodeChar_ascii (by omega), List.mem_singleton] at hb
  subst hb
  rw [UInt8.lt_iff_toNat_lt, UInt8.lt_iff_toNat_lt, UInt8.toNat_ofNat']
  show 0 < c.toNat % 2 ^ 8 ∧ c.toNat % 2 ^ 8 < 0x80
  omega

/-- What a format gives is spelled by units other than zero. -/
theorem isSpelled_of_apply {f : Format} {memory : Memory} {buffer : List UInt8} {v : Value}
    (h : f.apply buffer memory = .ok v) : v.IsSpelled := by
  cases f with
  | text =>
      cases h
      rw [ofUtf16In]
      split
      · exact isSpelled_ofUtf16 buffer
      · exact isSpelled_ascii (List.forall_mem_nil _)
  | number width =>
      rw [Format.apply, Integer.decodeDecimal] at h
      cases hd : Integer.decode width buffer with
      | error e => simp [hd, Except.map] at h
      | ok n =>
          simp only [hd, Except.map, Except.ok.injEq] at h
          exact h ▸ isSpelled_ascii (decimal_ascii n.toNat)
  | hexDump =>
      rw [Format.apply, dumpIn_eq] at h
      split at h
      · cases h
        exact isSpelled_ascii (dump_ascii buffer)
      · cases h

/-- Reading UTF-16 and giving units undo each other.  From a buffer come the units
of its byte pairs up to the first zero unit.  Back from the units of a value that
some format gives in some memory comes that value. -/
theorem ofUtf16_units_inverse :
    (∀ buffer, (ofUtf16 buffer).units = (Utf16.units buffer).takeWhile (· ≠ 0)) ∧
      (∀ buffer i u, (Utf16.units buffer)[i]? = some u ↔
        ∃ low high, buffer[2 * i]? = some low ∧ buffer[2 * i + 1]? = some high ∧
          u.toNat = low.toNat + 256 * high.toNat) ∧
      ∀ (f : Format) (memory : Memory) (buffer : List UInt8) (v : Value),
        f.apply buffer memory = .ok v →
        (∀ rest, ofUtf16 (Utf16.bytes (v.units ++ [0]) ++ rest) = v) ∧
          ofUtf16 (Utf16.bytes v.units) = v :=
  ⟨fun _ => units_ofUnits _, Utf16.getElem?_units,
    fun _ _ _ _ h => (isSpelled_of_apply h).ofUtf16_units⟩

/-- Half of a pair, then a letter, before a zero unit and an odd byte. -/
theorem ofUtf16_units_lone_half :
    Format.text.apply [0x00, 0xd8, 0x41, 0x00, 0x00, 0x00, 0x42] =
        .ok ⟨[0xed, 0xa0, 0x80, 0x41]⟩ ∧
      ofUtf16 (Utf16.bytes ((Value.mk [0xed, 0xa0, 0x80, 0x41]).units ++ [0]) ++ [0x42, 0x00]) =
        ⟨[0xed, 0xa0, 0x80, 0x41]⟩ ∧
      ofUtf16 (Utf16.bytes (Value.mk [0xed, 0xa0, 0x80, 0x41]).units) =
        ⟨[0xed, 0xa0, 0x80, 0x41]⟩ := by
  have shown : Format.text.apply [0x00, 0xd8, 0x41, 0x00, 0x00, 0x00, 0x42] =
      .ok ⟨[0xed, 0xa0, 0x80, 0x41]⟩ := by decide
  have back := ofUtf16_units_inverse.2.2 .text {} _ _ shown
  exact ⟨shown, back.1 [0x42, 0x00], back.2⟩

end FirmwareVars.Value
