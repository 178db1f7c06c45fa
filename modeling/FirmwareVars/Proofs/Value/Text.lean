import FirmwareVars.Proofs.Text.Ucs2
import FirmwareVars.Proofs.Value.Units

/-!
# The text of a value

A unit that is a character is encoded as the bytes of that character
(`spells_unitBytes`), and a surrogate as three bytes of which none belongs to a character
(`scan_unitBytes_surrogate`).  What is read of a unit depends on that unit alone, so two
halves that stand side by side are never joined, and a half at the end is cut off from
nothing.

So the value of a buffer is a text exactly if no unit is a surrogate, and it is shown with
three of U+FFFD for each unit that is one (`text?_display_of_units`).
-/

namespace FirmwareVars.Value

/-- The bytes of a unit that is no surrogate spell its character. -/
theorem spells_unitBytes {u : UInt16} (whole : ¬ Utf16.IsSurrogate u) :
    Utf8.Spells (unitBytes u) (Utf16.char u) := by
  have hu := u.toNat_lt
  have low := toNat_continuation u
  have middle := toNat_continuation (u >>> 6)
  rw [toNat_shifted] at middle
  rw [Utf16.char, if_neg whole]
  rw [Utf16.isSurrogate_iff] at whole
  rw [unitBytes, unitLength]
  split_ifs with one two
  · have small : u.toNat < 0x80 := one
    have same : u.toUInt8.toNat = u.toNat := by
      rw [UInt16.toNat_toUInt8]
      omega
    exact Utf8.spells_one small same
  · have small : u.toNat < 0x800 := two
    have large : ¬ u.toNat < 0x80 := one
    exact Utf8.spells_two (by omega) small (toNat_lead_two small) low
  · have large : ¬ u.toNat < 0x800 := two
    exact Utf8.spells_three (by omega) hu whole (toNat_lead_three u) middle low

/-- The bytes of a surrogate spell nothing, whatever comes after them. -/
theorem scan_unitBytes_surrogate {u : UInt16} (half : Utf16.IsSurrogate u) (rest : List UInt8) :
    Utf8.scan (unitBytes u ++ rest) = none :: none :: none :: Utf8.scan rest := by
  rw [Utf16.isSurrogate_iff] at half
  have lead := toNat_lead_three u
  have low := toNat_continuation u
  have middle := toNat_continuation (u >>> 6)
  rw [toNat_shifted] at middle
  have one : ¬ u < 0x80 := by
    rw [UInt16.lt_iff_toNat_lt]
    exact Nat.not_lt.mpr (Nat.le_trans (by decide) half.1)
  have two : ¬ u < 0x800 := by
    rw [UInt16.lt_iff_toNat_lt]
    exact Nat.not_lt.mpr (Nat.le_trans (by decide) half.1)
  simp only [unitBytes, unitLength, if_neg one, if_neg two, List.cons_append, List.nil_append]
  exact Utf8.scan_surrogate (by omega) (by omega) ((Utf8.isContinuation_iff _).mpr (by omega))
    ((Utf8.isContinuation_iff _).mpr (by omega)) rest

/-- What is read of the bytes of a unit: its character, or three chunks. -/
def readUnit (u : UInt16) : List (Option Char) :=
  if Utf16.IsSurrogate u then [none, none, none] else [some (Utf16.char u)]

/-- Units are read one by one. -/
theorem scan_ofUnits (us : List UInt16) :
    Utf8.scan (ofUnits us).bytes = us.flatMap readUnit := by
  apply Utf8.scan_flatMap
  intro u rest
  rw [readUnit]
  split
  · next half => exact scan_unitBytes_surrogate half rest
  · next whole => exact (spells_unitBytes whole).scan_append rest

theorem text?_ofUnits (us : List UInt16) :
    (ofUnits us).text? =
      if us.any fun u => Utf16.IsSurrogate u then none else some (Utf16.text us) := by
  rw [text?, Utf8.text?, scan_ofUnits]
  split
  · next half =>
    obtain ⟨u, hu, surrogate⟩ := List.any_eq_true.mp half
    rw [Option.map_eq_none_iff, Option.eq_none_iff_forall_ne_some]
    intro cs read
    rw [Utf8.mapM_id_eq_some_iff] at read
    have chunk : none ∈ us.flatMap readUnit :=
      List.mem_flatMap.mpr ⟨u, hu, by simp [readUnit, of_decide_eq_true surrogate]⟩
    rw [read] at chunk
    simp at chunk
  · next half =>
    have whole : ∀ u ∈ us, ¬ Utf16.IsSurrogate u := by simpa using half
    have read : us.flatMap readUnit = (us.map Utf16.char).map some := by
      rw [List.map_map, List.map_eq_flatMap]
      exact List.flatMap_congr fun u hu => if_neg (whole u hu)
    rw [(Utf8.mapM_id_eq_some_iff _ _).mpr read]
    rfl

/-- The code points of what is shown for a unit. -/
def shown (u : UInt16) : List Nat :=
  if Utf16.IsSurrogate u then [0xfffd, 0xfffd, 0xfffd] else [u.toNat]

theorem map_shown (u : UInt16) :
    (readUnit u).map (fun c => (c.getD '\uFFFD').toNat) = shown u := by
  rw [readUnit, shown]
  split
  · rfl
  · next whole => exact congrArg (fun n => [n]) (Utf16.toNat_char whole)

theorem display_ofUnits (us : List UInt16) :
    (ofUnits us).display.toList.map Char.toNat = us.flatMap shown := by
  rw [display, Utf8.lossy, scan_ofUnits, String.toList_ofList, List.map_map, List.map_flatMap]
  exact List.flatMap_congr fun u _ => map_shown u

/-- The value of a buffer is a text if and only if none of its units is a surrogate, and then
the code points of the text are the units, which are the pairs of bytes up to the first zero
unit.  It is shown as the character of each unit, with three of U+FFFD for a surrogate.  The
value of a text is that text and is shown as it. -/
theorem text?_display_of_units :
    (∀ buffer i u, (Utf16.units buffer)[i]? = some u ↔
      ∃ low high, buffer[2 * i]? = some low ∧ buffer[2 * i + 1]? = some high ∧
        u.toNat = low.toNat + 256 * high.toNat) ∧
    (∀ buffer, let us := (Utf16.units buffer).takeWhile (· ≠ 0)
      ((ofUtf16 buffer).text?.map fun s => s.toList.map Char.toNat) =
          (if us.any fun u => Utf16.IsSurrogate u then none else some (us.map UInt16.toNat)) ∧
        (ofUtf16 buffer).display.toList.map Char.toNat = us.flatMap fun u =>
          if Utf16.IsSurrogate u then [0xfffd, 0xfffd, 0xfffd] else [u.toNat]) ∧
    ∀ s, (ofString s).text? = some s ∧ (ofString s).display = s := by
  refine ⟨Utf16.getElem?_units, fun buffer => ⟨?_, display_ofUnits _⟩,
    fun s => ⟨Utf8.text?_encode s, Utf8.lossy_encode s⟩⟩
  rw [ofUtf16, text?_ofUnits]
  split
  · next half => exact (if_pos half).symm
  · next half =>
    have whole : ∀ u ∈ Utf16.unitsToZero buffer, ¬ Utf16.IsSurrogate u := by simpa using half
    have points : (Utf16.text (Utf16.unitsToZero buffer)).toList.map Char.toNat =
        (Utf16.unitsToZero buffer).map UInt16.toNat := by
      rw [Utf16.text, String.toList_ofList, List.map_map]
      exact List.map_congr_left fun u hu => Utf16.toNat_char (whole u hu)
    rw [Option.map_some, points]
    exact (if_neg half).symm

end FirmwareVars.Value
