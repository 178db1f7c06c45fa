import FirmwareVars.Proofs.Value.Text
import FirmwareVars.Request

/-!
# The units of a text

The bytes of a character up to U+FFFF are those of a unit, so they are read as that unit and the
next byte starts the next character (`unitBytes_char`).  The four bytes of a character above it
start no sequence that is read, neither the first one nor the ones that continue, so each gives
U+FFFD and the next character starts after them (`unitsOf_above`).

UTF-16 has a pair of halves in place of the four, and thus the units of a text are its UTF-16
units exactly if no character is above U+FFFF.  A name must also have no zero unit, since that
would end it (`isUcs2Name_iff_units`).
-/

namespace FirmwareVars.Value

/-! ## One character -/

theorem unitBytes_char {c : Char} (small : c.toNat < 0x10000) :
    unitBytes (.ofNat c.toNat) = String.utf8EncodeChar c := by
  have spells := spells_unitBytes (Utf16.not_isSurrogate_toNat small)
  rw [Utf16.char_toNat small] at spells
  exact spells.eq_utf8EncodeChar

/-- A byte that starts no sequence of up to three bytes is read as U+FFFD. -/
theorem unitsOf_stray {a : UInt8} (h : 0x80 ≤ a.toNat ∧ a.toNat < 0xc0 ∨ 0xf0 ≤ a.toNat)
    (rest : List UInt8) : unitsOf (a :: rest) = replacement :: unitsOf rest := by
  have one : ¬ a < 0x80 := by
    rw [UInt8.lt_iff_toNat_lt]
    exact Nat.not_lt.mpr (show 0x80 ≤ a.toNat by omega)
  have two : ¬ (0xc0 ≤ a ∧ a < 0xe0) := by
    rw [UInt8.lt_iff_toNat_lt, UInt8.le_iff_toNat_le]
    show ¬ (0xc0 ≤ a.toNat ∧ a.toNat < 0xe0)
    omega
  have three : ¬ (0xe0 ≤ a ∧ a < 0xf0) := by
    rw [UInt8.lt_iff_toNat_lt, UInt8.le_iff_toNat_le]
    show ¬ (0xe0 ≤ a.toNat ∧ a.toNat < 0xf0)
    omega
  rw [unitsOf.eq_def]
  simp only [if_neg one, if_neg two, if_neg three]

/-- The four bytes of a character above U+FFFF are read as U+FFFD each. -/
theorem unitsOf_above {c : Char} (large : 0x10000 ≤ c.toNat) (rest : List UInt8) :
    unitsOf (String.utf8EncodeChar c ++ rest) =
      [replacement, replacement, replacement, replacement] ++ unitsOf rest := by
  have valid : c.toNat < 0xd800 ∨ 0xdfff < c.toNat ∧ c.toNat < 0x110000 := c.valid
  have number : c.val.toNat = c.toNat := rfl
  have stray {n : Nat} (h : 0x80 ≤ n ∧ n < 0xc0 ∨ 0xf0 ≤ n ∧ n < 0x100) (rest : List UInt8) :
      unitsOf (.ofNat n :: rest) = replacement :: unitsOf rest := by
    have same : (UInt8.ofNat n).toNat = n := UInt8.toNat_ofNat_of_lt' (show n < 256 by omega)
    exact unitsOf_stray (by omega) rest
  -- The lead is F0 or above, and the other three are below C0.
  rw [String.utf8EncodeChar, number, if_neg (by omega), if_neg (by omega), if_neg (by omega)]
  simp only [List.cons_append, List.nil_append]
  rw [stray (by omega), stray (by omega), stray (by omega), stray (by omega)]

/-! ## Texts -/

/-- The units that a character is read as. -/
def unitsOfChar (c : Char) : List UInt16 :=
  if c.toNat < 0x10000 then [.ofNat c.toNat]
  else [replacement, replacement, replacement, replacement]

theorem units_ofString (s : String) : (ofString s).units = s.toList.flatMap unitsOfChar := by
  show unitsOf (s.toList.flatMap String.utf8EncodeChar) = _
  induction s.toList with
  | nil => rfl
  | cons c rest ih =>
    rw [List.flatMap_cons, List.flatMap_cons, ← ih, unitsOfChar]
    split
    · next small => rw [← unitBytes_char small, unitsOf_unitBytes_append, List.singleton_append]
    · next large => exact unitsOf_above (Nat.not_lt.mp large) _

/-- The first unit of a character above U+FFFF is half of a pair, and U+FFFD is not. -/
theorem unitsOfChar_append_ne {c : Char} (large : ¬ c.toNat < 0x10000) (more rest : List UInt16) :
    unitsOfChar c ++ more ≠ Utf16.ofChar c ++ rest := by
  intro same
  have half (u : UInt16) (hu : u ∈ Utf16.ofChar c) : Utf16.IsSurrogate u :=
    Utf16.isSurrogate_of_mem_ofChar large hu
  rw [Utf16.ofChar, if_neg large] at same half
  rw [unitsOfChar, if_neg large] at same
  have first := half _ List.mem_cons_self
  rw [← (List.cons.inj same).1] at first
  exact absurd first (by decide)

/-- Characters are read as their units in UTF-16 if and only if none is above U+FFFF. -/
theorem flatMap_unitsOfChar_eq_iff (cs : List Char) :
    cs.flatMap unitsOfChar = cs.flatMap Utf16.ofChar ↔ ∀ c ∈ cs, c.toNat < 0x10000 := by
  induction cs with
  | nil => simp
  | cons c rest ih =>
    rw [List.flatMap_cons, List.flatMap_cons, List.forall_mem_cons, ← ih]
    by_cases small : c.toNat < 0x10000
    · rw [unitsOfChar, Utf16.ofChar, if_pos small, if_pos small, List.append_cancel_left_eq]
      exact (and_iff_right small).symm
    · constructor
      · intro same
        exact absurd same (unitsOfChar_append_ne small _ _)
      · rintro ⟨first, -⟩
        exact absurd first small

/-! ## Names -/

theorem small_of_isUcs2Name {s : String} (name : Request.IsUcs2Name s) :
    ∀ c ∈ s.toList, c.toNat < 0x10000 := by
  intro c hc
  exact Nat.lt_succ_of_le (name c hc).2

theorem units_of_isUcs2Name {s : String} (name : Request.IsUcs2Name s) :
    (ofString s).units = Utf16.ofString s := by
  rw [units_ofString, Utf16.ofString, flatMap_unitsOfChar_eq_iff]
  exact small_of_isUcs2Name name

theorem isUcs2Name_iff_units (s : String) :
    Request.IsUcs2Name s ↔
      (ofString s).units = Utf16.ofString s ∧ ∀ u ∈ (ofString s).units, u ≠ 0 := by
  constructor
  · intro name
    refine ⟨units_of_isUcs2Name name, ?_⟩
    intro u hu
    rw [units_of_isUcs2Name name, Utf16.ofString, List.mem_flatMap] at hu
    obtain ⟨c, hc, hu⟩ := hu
    exact Utf16.ofChar_ne_zero (name c hc).1 u hu
  · rintro ⟨same, nonzero⟩
    rw [units_ofString] at same nonzero
    have small := (flatMap_unitsOfChar_eq_iff _).mp same
    intro c hc
    refine ⟨?_, Nat.le_of_lt_succ (small c hc)⟩
    rintro rfl
    exact nonzero 0 (List.mem_flatMap.mpr ⟨_, hc, by decide⟩) rfl

/-- A name is read back from its units. -/
theorem text_units {s : String} (name : Request.IsUcs2Name s) :
    Utf16.text (ofString s).units = s := by
  rw [units_of_isUcs2Name name, Utf16.text_ofString, Utf16.flat_eq_self (small_of_isUcs2Name name)]

/-- A text has a unit for each character up to U+FFFF, its code point, and four of U+FFFD for
each one above.  The texts whose units are their units in UTF-16, with no zero among them, are
the names that the check accepts.  So no two names have the same units. -/
theorem units_of_names :
    (∀ s, (ofString s).units.map UInt16.toNat = s.toList.flatMap fun c =>
      if c.toNat ≤ 0xffff then [c.toNat] else [0xfffd, 0xfffd, 0xfffd, 0xfffd]) ∧
    (∀ s, Request.IsUcs2Name s ↔
      (ofString s).units = Utf16.ofString s ∧ ∀ u ∈ (ofString s).units, u ≠ 0) ∧
    ∀ s t, Request.IsUcs2Name s → Request.IsUcs2Name t → s ≠ t →
      (ofString s).units ≠ (ofString t).units := by
  refine ⟨?_, isUcs2Name_iff_units, ?_⟩
  · intro s
    rw [units_ofString, List.map_flatMap]
    apply List.flatMap_congr
    intro c _
    rw [unitsOfChar]
    by_cases small : c.toNat < 0x10000
    · rw [if_pos small, if_pos (Nat.le_of_lt_succ small), List.map_singleton,
        Utf16.toNat_ofNat small]
    · rw [if_neg small, if_neg (by omega)]
      rfl
  · intro s t first second different same
    rw [← text_units first, ← text_units second, same] at different
    exact different rfl

/-- A character above U+FFFF is no part of a name, and U+FFFD is. -/
theorem units_of_names_replacement :
    ¬ Request.IsUcs2Name "a😀" ∧
      (ofString "a😀").units = [0x61, 0xfffd, 0xfffd, 0xfffd, 0xfffd] ∧
      (ofString "é").units ≠ (ofString "\uFFFD").units := by
  obtain ⟨points, names, apart⟩ := units_of_names
  refine ⟨?_, by decide, apart _ _ (by decide) (by decide) (by decide)⟩
  rw [names]
  decide

end FirmwareVars.Value
