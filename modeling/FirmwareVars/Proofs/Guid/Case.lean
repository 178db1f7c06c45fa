import FirmwareVars.Proofs.Guid.Text
import Mathlib.Data.List.Basic

/-!
# Letter case in GUID text

Texts that differ in the case of letters alone are read as the same GUID, or are both no
GUID at all (`parse_eq_of_toLower_eq`).  A letter is one byte of the text, and reading looks
at a byte as a dash or as a digit, for which the case of a letter does not count.
-/

namespace FirmwareVars

theorem Utf8.utf8EncodeChar_toLower (c : Char) :
    String.utf8EncodeChar c.toLower = (String.utf8EncodeChar c).map Hex.lower := by
  have ascii : ∀ n : Fin 0x80, String.utf8EncodeChar (Char.ofNat n).toLower =
      (String.utf8EncodeChar (Char.ofNat n)).map Hex.lower := by decide +kernel
  by_cases small : c.toNat < 0x80
  · have same := ascii ⟨c.toNat, small⟩
    rwa [Char.ofNat_toNat] at same
  · have letter : ¬ (c.val ≥ 'A'.val ∧ c.val ≤ 'Z'.val) := fun h =>
      small (Nat.lt_of_le_of_lt h.2 (by decide))
    have same : c.toLower = c := dif_neg letter
    have bytes := le_of_mem_utf8EncodeChar (Nat.le_of_not_lt small)
    rw [same]
    conv_lhs => rw [← List.map_id (String.utf8EncodeChar c)]
    exact List.map_congr_left fun b hb => (Hex.lower_of_le (bytes b hb)).symm

theorem Text.toList_toLower (s : String) : s.toLower.toList = s.toList.map Char.toLower :=
  String.toList_map

/-- A text in lower case has its bytes in lower case. -/
theorem Utf8.encode_toLower (s : String) : encode s.toLower = (encode s).map Hex.lower := by
  rw [encode, encode, Text.toList_toLower, List.flatMap_map, List.map_flatMap]
  exact List.flatMap_congr fun c _ => utf8EncodeChar_toLower c

namespace Guid

theorem lower_eq_dash_iff : ∀ c, Hex.lower c = dash ↔ c = dash := by
  apply Hex.forall_byte
  decide +kernel

theorem ungrouped_map (f : UInt8 → UInt8) (t : List UInt8) :
    ungrouped (t.map f) = (ungrouped t).map f := by
  simp [ungrouped]

theorem parseBytes_map_lower (t : List UInt8) : parseBytes (t.map Hex.lower) = parseBytes t := by
  have dashes (i : Nat) : (t.map Hex.lower)[i]? = some dash ↔ t[i]? = some dash := by
    simp [lower_eq_dash_iff]
  simp only [parseBytes, List.length_map, dashes, ungrouped_map, Hex.decode_lower]

/-- The case of letters does not count. -/
theorem parse_toLower (s : String) : parse s.toLower = parse s := by
  rw [parse, Utf8.encode_toLower, parseBytes_map_lower, parse]

theorem parse_eq_of_toLower_eq {s t : String} (h : s.toLower = t.toLower) : parse s = parse t := by
  rw [← parse_toLower s, h, parse_toLower]

end Guid

end FirmwareVars
