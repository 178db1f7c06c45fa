import FirmwareVars.Text.Utf8

/-!
# ASCII text

A character below U+0080 is one byte, so a text of such characters and the list
of its bytes are the same thing.  No byte of another character is below 80.

The bytes of any text determine the text (`encode_injective`).
-/

namespace FirmwareVars.Utf8

theorem toNat_ofNat {n : Nat} (h : n.isValidChar) : (Char.ofNat n).toNat = n := by
  rw [Char.ofNat, dif_pos h]
  rfl

theorem utf8EncodeChar_ascii {c : Char} (h : c.toNat < 0x80) :
    String.utf8EncodeChar c = [.ofNat c.toNat] := by
  have small : c.val.toNat ≤ 0x7f := Nat.le_of_lt_succ h
  rw [String.utf8EncodeChar]
  exact if_pos small

/-- The bytes of a text that is given by ASCII bytes. -/
theorem encode_ascii {bytes : List UInt8} (h : ∀ b ∈ bytes, b < 0x80) :
    encode (String.ofList (bytes.map fun b => Char.ofNat b.toNat)) = bytes := by
  rw [encode, String.toList_ofList]
  induction bytes with
  | nil => rfl
  | cons b rest ih =>
      have hb : b.toNat < 0x80 := h b (List.mem_cons_self ..)
      have same : (Char.ofNat b.toNat).toNat = b.toNat :=
        toNat_ofNat (Or.inl (Nat.lt_trans hb (by decide)))
      rw [List.map_cons, List.flatMap_cons, ih fun a ha => h a (List.mem_cons_of_mem b ha),
        utf8EncodeChar_ascii (same.symm ▸ hb), same, UInt8.ofNat_toNat]
      rfl

/-- The bytes of a character that is not ASCII are not ASCII either. -/
theorem le_of_mem_utf8EncodeChar {c : Char} (h : 0x80 ≤ c.toNat) :
    ∀ b ∈ String.utf8EncodeChar c, 0x80 ≤ b := by
  have byte {n : Nat} (low : 0x80 ≤ n) (high : n < 0x100) : 0x80 ≤ UInt8.ofNat n := by
    rw [UInt8.le_iff_toNat_le, UInt8.toNat_ofNat_of_lt' high]
    exact low
  have large : ¬ c.val.toNat ≤ 0x7f := Nat.not_le_of_lt h
  rw [String.utf8EncodeChar, if_neg large]
  -- What is added to each part keeps a byte in the upper half.
  split
  · simp only [List.forall_mem_cons]
    refine ⟨byte ?_ ?_, byte ?_ ?_, List.forall_mem_nil _⟩
    all_goals omega
  split
  · simp only [List.forall_mem_cons]
    refine ⟨byte ?_ ?_, byte ?_ ?_, byte ?_ ?_, List.forall_mem_nil _⟩
    all_goals omega
  · simp only [List.forall_mem_cons]
    refine ⟨byte ?_ ?_, byte ?_ ?_, byte ?_ ?_, byte ?_ ?_, List.forall_mem_nil _⟩
    all_goals omega

/-- Texts with the same bytes are the same. -/
theorem encode_injective {s t : String} (h : encode s = encode t) : s = t := by
  have bytes (s : String) : s.toByteArray = (encode s).toByteArray := by
    have whole : (String.ofList s.toList).toByteArray = s.toList.utf8Encode :=
      String.toByteArray_ofList
    rw [String.ofList_toList] at whole
    exact whole
  rw [← String.toByteArray_inj, bytes, bytes, h]

end FirmwareVars.Utf8
