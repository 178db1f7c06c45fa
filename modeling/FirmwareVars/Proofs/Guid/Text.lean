import FirmwareVars.Guid.Text
import FirmwareVars.Proofs.Hex
import FirmwareVars.Proofs.Text.Ascii
import FirmwareVars.Proofs.Text.Utf16

/-!
# GUID text read and written

The text of a GUID reads back as that GUID (`parse_text`), and the texts that are
read are the ones of the canonical shape (`parse_isOk_iff`): 36 bytes with dashes
at their four places and hex digits at all others.
-/

namespace FirmwareVars.Guid

/-! ## Numbers and their bytes -/

/-- Two bytes make the same number as a unit of text, which stands in memory the
other way round. -/
theorem number16_eq_unit (a b : UInt8) : number16 a b = Utf16.unit b a := UInt16.or_comm _ _

theorem toNat_number32 (a b c d : UInt8) :
    (number32 a b c d).toNat =
      16777216 * a.toNat + 65536 * b.toNat + 256 * c.toNat + d.toNat := by
  have ha := a.toNat_lt
  have hb := b.toNat_lt
  have hc := c.toNat_lt
  have first : a.toNat <<< 24 % 2 ^ 32 = 2 ^ 24 * a.toNat := by
    rw [Nat.shiftLeft_eq]
    omega
  have second : b.toNat <<< 16 % 2 ^ 32 = 2 ^ 16 * b.toNat := by
    rw [Nat.shiftLeft_eq]
    omega
  have third : c.toNat <<< 8 % 2 ^ 32 = 2 ^ 8 * c.toNat := by
    rw [Nat.shiftLeft_eq]
    omega
  -- Each byte lies above all the bits of those after it.
  have two : 2 ^ 24 * a.toNat ||| 2 ^ 16 * b.toNat = 2 ^ 16 * (2 ^ 8 * a.toNat + b.toNat) := by
    rw [← Nat.two_pow_add_eq_or_of_lt (by omega)]
    omega
  have three : 2 ^ 16 * (2 ^ 8 * a.toNat + b.toNat) ||| 2 ^ 8 * c.toNat =
      2 ^ 8 * (2 ^ 16 * a.toNat + 2 ^ 8 * b.toNat + c.toNat) := by
    rw [← Nat.two_pow_add_eq_or_of_lt (by omega)]
    omega
  simp only [number32, UInt32.toNat_or, UInt32.toNat_shiftLeft, UInt8.toNat_toUInt32]
  show a.toNat <<< 24 % 2 ^ 32 ||| b.toNat <<< 16 % 2 ^ 32 ||| c.toNat <<< 8 % 2 ^ 32 |||
    d.toNat = _
  rw [first, second, third, two, three, ← Nat.two_pow_add_eq_or_of_lt d.toNat_lt]
  omega

theorem number16_bytes (n : UInt16) : number16 (n >>> 8).toUInt8 n.toUInt8 = n := by
  rw [number16_eq_unit, Utf16.unit_halves]

theorem number32_bytes (n : UInt32) :
    number32 (n >>> 24).toUInt8 (n >>> 16).toUInt8 (n >>> 8).toUInt8 n.toUInt8 = n := by
  have hn := n.toNat_lt
  rw [← UInt32.toNat_inj, toNat_number32]
  simp only [UInt32.toNat_toUInt8, UInt32.toNat_shiftRight]
  show 16777216 * (n.toNat >>> 24 % 256) + 65536 * (n.toNat >>> 16 % 256) +
    256 * (n.toNat >>> 8 % 256) + n.toNat % 256 = n.toNat
  simp only [Nat.shiftRight_eq_div_pow]
  omega

theorem length_textBytes (g : Guid) : g.textBytes.length = 16 := by
  simp [textBytes, bytes32, bytes16]

/-- The bytes of a GUID in the order of text give the GUID back. -/
theorem ofTextBytes?_textBytes (g : Guid) : ofTextBytes? g.textBytes = some g := by
  rcases g with ⟨n, m, k, ⟨⟨bytes⟩, hb⟩⟩
  match bytes, hb with
  | [d0, d1, d2, d3, d4, d5, d6, d7], hb =>
      show some (Guid.mk (number32 (n >>> 24).toUInt8 (n >>> 16).toUInt8 (n >>> 8).toUInt8
        n.toUInt8) (number16 (m >>> 8).toUInt8 m.toUInt8)
        (number16 (k >>> 8).toUInt8 k.toUInt8) #v[d0, d1, d2, d3, d4, d5, d6, d7]) = _
      rw [number32_bytes, number16_bytes, number16_bytes]

/-- Sixteen bytes are a GUID. -/
theorem ofTextBytes?_isSome {bytes : List UInt8} (h : bytes.length = 16) :
    ∃ g, ofTextBytes? bytes = some g := by
  match bytes, h with
  | [_, _, _, _, _, _, _, _, _, _, _, _, _, _, _, _], _ => exact ⟨_, rfl⟩

/-! ## Groups -/

theorem take_append_drop (t : List UInt8) (k n : Nat) :
    (t.drop k).take n ++ t.drop (k + n) = t.drop k := by
  rw [← List.drop_drop, List.take_append_drop]

/-- Thirty-two digits are five groups. -/
theorem exists_groups {digits : List UInt8} (h : digits.length = 32) :
    ∃ a b c d e : List UInt8, a.length = 8 ∧ b.length = 4 ∧ c.length = 4 ∧ d.length = 4 ∧
      e.length = 12 ∧ digits = a ++ b ++ c ++ d ++ e := by
  refine ⟨digits.take 8, (digits.drop 8).take 4, (digits.drop 12).take 4,
    (digits.drop 16).take 4, digits.drop 20, ?_, ?_, ?_, ?_, ?_, ?_⟩
  · simp [h]
  · simp [h]
  · simp [h]
  · simp [h]
  · simp [h]
  · simp only [List.append_assoc]
    rw [take_append_drop _ 16 4, take_append_drop _ 12 4, take_append_drop _ 8 4,
      List.take_append_drop]

theorem grouped_append {a b c d : List UInt8} (ha : a.length = 8) (hb : b.length = 4)
    (hc : c.length = 4) (hd : d.length = 4) (e : List UInt8) :
    grouped (a ++ b ++ c ++ d ++ e) =
      a ++ dash :: b ++ dash :: c ++ dash :: d ++ dash :: e := by
  match a, b, c, d, ha, hb, hc, hd with
  | [_, _, _, _, _, _, _, _], [_, _, _, _], [_, _, _, _], [_, _, _, _], _, _, _, _ => rfl

/-- Groups with a dash between them have dashes at the four places, and are what is left
without them. -/
theorem ungrouped_join {a b c d : List UInt8} (ha : a.length = 8) (hb : b.length = 4)
    (hc : c.length = 4) (hd : d.length = 4) (e : List UInt8) :
    let t := a ++ dash :: b ++ dash :: c ++ dash :: d ++ dash :: e
    (∀ i ∈ dashOffsets, t[i]? = some dash) ∧ ungrouped t = a ++ b ++ c ++ d ++ e := by
  match a, b, c, d, ha, hb, hc, hd with
  | [_, _, _, _, _, _, _, _], [_, _, _, _], [_, _, _, _], [_, _, _, _], _, _, _, _ =>
    refine ⟨?_, rfl⟩
    simp [dashOffsets]

/-- Grouping puts a dash at each of the four places and nothing else between the
digits. -/
theorem grouped_shape {digits : List UInt8} (h : digits.length = 32) :
    (grouped digits).length = textLength ∧ (∀ i ∈ dashOffsets, (grouped digits)[i]? = some dash) ∧
      ungrouped (grouped digits) = digits := by
  obtain ⟨a, b, c, d, e, ha, hb, hc, hd, he, rfl⟩ := exists_groups h
  obtain ⟨dashes, back⟩ := ungrouped_join ha hb hc hd e
  rw [grouped_append ha hb hc hd]
  refine ⟨?_, dashes, back⟩
  simp [ha, hb, hc, hd, he, textLength]

theorem mem_take_drop {c : UInt8} {t : List UInt8} (k n : Nat) :
    c ∈ (t.drop k).take n ↔ ∃ i, k ≤ i ∧ i < k + n ∧ t[i]? = some c := by
  simp only [List.mem_iff_getElem?, List.getElem?_take, List.getElem?_drop]
  constructor
  · rintro ⟨i, hi⟩
    split at hi
    · exact ⟨k + i, by omega, by omega, hi⟩
    · cases hi
  · rintro ⟨i, low, high, hi⟩
    refine ⟨i - k, ?_⟩
    rw [if_pos (by omega), Nat.add_sub_cancel' low]
    exact hi

/-- What is left without the dashes are the bytes at all other places. -/
theorem mem_ungrouped {c : UInt8} {t : List UInt8} (h : t.length = textLength) :
    c ∈ ungrouped t ↔ ∃ i, i ∉ dashOffsets ∧ t[i]? = some c := by
  have last : t.drop 24 = (t.drop 24).take 12 := by
    rw [List.take_of_length_le]
    simp [h, textLength]
  have first : t.take 8 = (t.drop 0).take 8 := by rw [List.drop_zero]
  rw [ungrouped, last, first]
  simp only [List.mem_append, mem_take_drop, dashOffsets, List.mem_cons, List.not_mem_nil,
    or_false, not_or]
  constructor
  · rintro ((((⟨i, h1, h2, hi⟩ | ⟨i, h1, h2, hi⟩) | ⟨i, h1, h2, hi⟩) | ⟨i, h1, h2, hi⟩) |
      ⟨i, h1, h2, hi⟩)
    all_goals exact ⟨i, by omega, hi⟩
  · rintro ⟨i, away, hi⟩
    have inside : i < textLength := h ▸ (List.getElem?_eq_some_iff.mp hi).1
    rw [textLength] at inside
    by_cases h8 : i < 8
    · exact Or.inl (Or.inl (Or.inl (Or.inl ⟨i, by omega, by omega, hi⟩)))
    by_cases h13 : i < 13
    · exact Or.inl (Or.inl (Or.inl (Or.inr ⟨i, by omega, by omega, hi⟩)))
    by_cases h18 : i < 18
    · exact Or.inl (Or.inl (Or.inr ⟨i, by omega, by omega, hi⟩))
    by_cases h23 : i < 23
    · exact Or.inl (Or.inr ⟨i, by omega, by omega, hi⟩)
    · exact Or.inr ⟨i, by omega, by omega, hi⟩

theorem length_ungrouped {t : List UInt8} (h : t.length = textLength) :
    (ungrouped t).length = 32 := by
  simp [ungrouped, h, textLength]

/-! ## Text -/

theorem canonical_shape (g : Guid) :
    g.canonical.length = textLength ∧ (∀ i ∈ dashOffsets, g.canonical[i]? = some dash) ∧
      ungrouped g.canonical = Hex.encode g.textBytes :=
  grouped_shape (by rw [Hex.length_encode, length_textBytes])

/-- The canonical text of a GUID consists of digits and dashes. -/
theorem canonical_ascii (g : Guid) : ∀ b ∈ g.canonical, b < 0x80 := by
  obtain ⟨length, dashes, back⟩ := canonical_shape g
  intro b hb
  obtain ⟨i, hi⟩ := List.mem_iff_getElem?.mp hb
  by_cases at_dash : i ∈ dashOffsets
  · have is_dash := (dashes i at_dash).symm.trans hi
    cases is_dash
    decide
  · have digit : b ∈ Hex.encode g.textBytes := back ▸ (mem_ungrouped length).mpr ⟨i, at_dash, hi⟩
    exact (Hex.isDigit_of_mem_encode digit).ascii.2

/-- The text of a GUID reads back. -/
theorem parse_text (g : Guid) : parse g.text = .ok g := by
  obtain ⟨length, dashes, back⟩ := canonical_shape g
  have read := Hex.decode_encode g.textBytes
  rw [length_textBytes] at read
  rw [parse, text, Utf8.encode_ascii (canonical_ascii g), parseBytes,
    if_pos ⟨length, dashes⟩, back, read]
  simp only [ofTextBytes?_textBytes]

/-- Whether bytes are a canonical text: as long as one, with dashes at their places
and hex digits of either case everywhere else. -/
def IsCanonical (t : List UInt8) : Prop :=
  t.length = textLength ∧
    ∀ i c, t[i]? = some c → if i ∈ dashOffsets then c = dash else Hex.IsDigit c

/-- Bytes are read as a GUID if their shape is right and the digits are read. -/
theorem parseBytes_isOk_iff (t : List UInt8) :
    (∃ g, parseBytes t = .ok g) ↔
      (t.length = textLength ∧ ∀ i ∈ dashOffsets, t[i]? = some dash) ∧
        ∃ bytes, Hex.decode 16 (ungrouped t) = .ok bytes := by
  rw [parseBytes]
  by_cases shape : t.length = textLength ∧ ∀ i ∈ dashOffsets, t[i]? = some dash
  · rw [if_pos shape]
    cases hd : Hex.decode 16 (ungrouped t) with
    | error e => simp
    | ok bytes =>
        obtain ⟨g, hg⟩ := ofTextBytes?_isSome (Hex.length_of_decode hd)
        exact ⟨fun _ => ⟨shape, bytes, rfl⟩, fun _ => ⟨g, by simp only [hg]⟩⟩
  · rw [if_neg shape]
    simp [shape]

/-- The texts that are read as a GUID are the canonical ones. -/
theorem parse_isOk_iff (s : String) : (∃ g, parse s = .ok g) ↔ IsCanonical (Utf8.encode s) := by
  rw [parse, parseBytes_isOk_iff, IsCanonical]
  generalize Utf8.encode s = t
  constructor
  · rintro ⟨⟨length, dashes⟩, digits⟩
    refine ⟨length, fun i c hi => ?_⟩
    split
    · next at_dash => exact Option.some.inj (hi.symm.trans (dashes i at_dash))
    · next away =>
      exact ((Hex.decode_isOk_iff 16 _).mp digits).2 c ((mem_ungrouped length).mpr ⟨i, away, hi⟩)
  · rintro ⟨length, shape⟩
    refine ⟨⟨length, fun i at_dash => ?_⟩, (Hex.decode_isOk_iff 16 _).mpr
      ⟨length_ungrouped length, fun c hc => ?_⟩⟩
    · have inside : i < t.length := by
        rw [length, textLength]
        simp only [dashOffsets, List.mem_cons, List.not_mem_nil, or_false] at at_dash
        omega
      have here := shape i t[i] (List.getElem?_eq_getElem inside)
      rw [if_pos at_dash] at here
      rw [List.getElem?_eq_getElem inside, here]
    · obtain ⟨i, away, hi⟩ := (mem_ungrouped length).mp hc
      have here := shape i c hi
      rwa [if_neg away] at here

end FirmwareVars.Guid
