import FirmwareVars.Proofs.Text.Utf16
import Mathlib.Data.List.Basic

/-!
# Texts read unit by unit

A character up to U+FFFF is one unit and is read back from it.  A character above is two
units, both halves of a pair, and each half is read as U+FFFD.  So reading the units of a
text one by one gives the text with every character above U+FFFF replaced by two of
U+FFFD (`text_ofString`), and different texts may be read alike.

What is read has no NUL if the units have no zero, and no character above U+FFFF
(`toNat_char_le`).
-/

namespace FirmwareVars.Utf16

/-- A character as it is read back from its units. -/
def flatChar (c : Char) : List Char := if c.toNat < 0x10000 then [c] else ['\uFFFD', '\uFFFD']

/-- A text as it is read back from its units. -/
def flat (s : String) : String := String.ofList (s.toList.flatMap flatChar)

theorem toNat_ofNat {n : Nat} (h : n < 0x10000) : (UInt16.ofNat n).toNat = n :=
  UInt16.toNat_ofNat_of_lt h

theorem isSurrogate_iff (u : UInt16) : IsSurrogate u ↔ 0xd800 ≤ u.toNat ∧ u.toNat ≤ 0xdfff := by
  rw [IsSurrogate, UInt16.le_iff_toNat_le, UInt16.le_iff_toNat_le]
  rfl

/-- A character is no half of a pair. -/
theorem not_isSurrogate_toNat {c : Char} (h : c.toNat < 0x10000) :
    ¬ IsSurrogate (.ofNat c.toNat) := by
  have valid : c.toNat < 0xd800 ∨ 0xdfff < c.toNat ∧ c.toNat < 0x110000 := c.valid
  rw [isSurrogate_iff, toNat_ofNat h]
  omega

theorem char_toNat {c : Char} (h : c.toNat < 0x10000) : char (.ofNat c.toNat) = c := by
  rw [char, if_neg (not_isSurrogate_toNat h), toNat_ofNat h, Char.ofNat_toNat]

/-- The units of a character above U+FFFF are halves of a pair. -/
theorem isSurrogate_of_mem_ofChar {c : Char} (h : ¬ c.toNat < 0x10000) {u : UInt16}
    (hu : u ∈ ofChar c) : IsSurrogate u := by
  have valid : c.toNat < 0xd800 ∨ 0xdfff < c.toNat ∧ c.toNat < 0x110000 := c.valid
  rw [ofChar, if_neg h, List.mem_cons, List.mem_singleton] at hu
  rw [isSurrogate_iff]
  rcases hu with rfl | rfl
  · rw [toNat_ofNat (by omega)]
    omega
  · rw [toNat_ofNat (by omega)]
    omega

theorem map_char_ofChar (c : Char) : (ofChar c).map char = flatChar c := by
  rw [flatChar]
  split
  · next small =>
    rw [ofChar, if_pos small, List.map_singleton, char_toNat small]
  · next large =>
    have half (u : UInt16) (hu : u ∈ ofChar c) : char u = '\uFFFD' :=
      if_pos (isSurrogate_of_mem_ofChar large hu)
    rw [List.map_congr_left half, ofChar, if_neg large]
    rfl

/-- A text read back from its units has U+FFFD for each half of a pair. -/
theorem text_ofString (s : String) : text (ofString s) = flat s := by
  have read : (s.toList.flatMap ofChar).map char = s.toList.flatMap flatChar := by
    rw [List.map_flatMap]
    exact List.flatMap_congr fun c _ => map_char_ofChar c
  rw [text, ofString, read, flat]

/-- A text without characters above U+FFFF is read back as it is. -/
theorem flat_eq_self {s : String} (small : ∀ c ∈ s.toList, c.toNat < 0x10000) : flat s = s := by
  have each : s.toList.flatMap flatChar = s.toList.flatMap fun c => [c] :=
    List.flatMap_congr fun c hc => if_pos (small c hc)
  rw [flat, each, List.flatMap_singleton', String.ofList_toList]

/-- Texts below U+FFFD are read from no other text. -/
theorem flat_eq_iff {t : String} (plain : ∀ c ∈ t.toList, c.toNat < 0xfffd) (s : String) :
    flat s = t ↔ s = t := by
  constructor
  · intro h
    refine (flat_eq_self fun c hc => ?_).symm.trans h
    by_contra large
    -- U+FFFD is in `flat s`, which is `t`.
    have replaced : '\uFFFD' ∈ (flat s).toList := by
      rw [flat, String.toList_ofList, List.mem_flatMap]
      exact ⟨c, hc, by rw [flatChar, if_neg large]; exact List.mem_cons_self⟩
    rw [h] at replaced
    exact absurd (plain _ replaced) (by decide)
  · rintro rfl
    exact flat_eq_self fun c hc => Nat.lt_trans (plain c hc) (by decide)

/-! ## Up to a zero unit -/

theorem ofChar_ne_zero {c : Char} (h : c ≠ '\x00') : ∀ u ∈ ofChar c, u ≠ 0 := by
  intro u hu zero
  by_cases small : c.toNat < 0x10000
  · rw [ofChar, if_pos small, List.mem_singleton] at hu
    have same := char_toNat small
    rw [← hu, zero] at same
    exact h same.symm
  · have half := isSurrogate_of_mem_ofChar small hu
    rw [zero] at half
    exact absurd half (by decide)

/-- The units of a text have a zero unit where the text has a NUL. -/
theorem takeWhile_ofChar (cs : List Char) :
    (cs.flatMap ofChar).takeWhile (· ≠ 0) = (cs.takeWhile (· ≠ '\x00')).flatMap ofChar := by
  induction cs with
  | nil => rfl
  | cons c rest ih =>
      by_cases nul : c = '\x00'
      · subst nul
        rfl
      · have units : ∀ u ∈ ofChar c, decide (u ≠ 0) = true := fun u hu =>
          decide_eq_true (ofChar_ne_zero nul u hu)
        have kept : (c :: rest).takeWhile (· ≠ '\x00') = c :: rest.takeWhile (· ≠ '\x00') :=
          List.takeWhile_cons_of_pos (by simpa using nul)
        rw [List.flatMap_cons, List.takeWhile_append_of_pos units, ih, kept, List.flatMap_cons]

/-! ## What is read -/

theorem toNat_char {u : UInt16} (h : ¬ IsSurrogate u) : (char u).toNat = u.toNat := by
  have hu := u.toNat_lt
  have valid : u.toNat.isValidChar := by
    rw [isSurrogate_iff] at h
    simp only [Nat.isValidChar]
    omega
  rw [char, if_neg h, Char.ofNat, dif_pos valid]
  rfl

theorem toNat_char_le (u : UInt16) : (char u).toNat ≤ 0xffff := by
  by_cases half : IsSurrogate u
  · rw [char, if_pos half]
    decide
  · rw [toNat_char half]
    exact Nat.le_of_lt_succ u.toNat_lt

theorem char_ne_nul {u : UInt16} (h : u ≠ 0) : char u ≠ '\x00' := by
  by_cases half : IsSurrogate u
  · rw [char, if_pos half]
    decide
  · intro nul
    have zero := toNat_char half
    rw [nul] at zero
    exact h (UInt16.toNat_inj.mp zero.symm)

end FirmwareVars.Utf16
