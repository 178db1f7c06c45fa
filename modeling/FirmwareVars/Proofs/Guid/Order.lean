import FirmwareVars.Proofs.Guid.Vendor
import FirmwareVars.Proofs.Hex.Order

/-!
# The order of GUIDs

GUIDs are ordered by their fields.  A field is a number of a fixed width whose bytes come high
ones first, so GUIDs compare like their bytes in the order of text (`textBytes_lt_iff`), and these
like their digits.  The groups of all texts are equally long, and thus a dash meets a dash
(`grouped_lt_iff`).  So GUIDs compare like their canonical texts, byte by byte
(`lt_iff_canonical_lt`).

It follows that GUIDs can be sorted by their texts (`map_text_sort`), and that the vendors with a
name, which are in ascending order of texts, are so in the order of GUIDs (`ascending_iff`).
-/

namespace FirmwareVars

namespace Guid

/-! ## Fields -/

theorem map_toNat_lt_iff (a b : List UInt8) :
    a.map UInt8.toNat < b.map UInt8.toNat ↔ a < b := by
  induction a generalizing b with
  | nil =>
    cases b with
    | nil => simp
    | cons c b => simp
  | cons d a ih =>
    cases b with
    | nil => simp
    | cons c b =>
      rw [List.map_cons, List.map_cons, List.cons_lt_cons_iff, List.cons_lt_cons_iff, ih,
        UInt8.toNat_inj, UInt8.lt_iff_toNat_lt]

/-- GUIDs compare like their bytes in the order of text. -/
theorem textBytes_lt_iff (g h : Guid) : g.textBytes < h.textBytes ↔ g < h := by
  have length32 (n m : UInt32) : (bytes32 n).length = (bytes32 m).length := rfl
  have length16 (n m : UInt16) : (bytes16 n).length = (bytes16 m).length := rfl
  show _ ↔ g.fields < h.fields
  simp only [textBytes, fields, List.append_assoc, List.cons_lt_cons_iff, map_toNat_lt_iff]
  rw [Hex.append_lt_append_iff_number (length32 _ _),
    Hex.append_lt_append_iff_number (length16 _ _),
    Hex.append_lt_append_iff_number (length16 _ _)]
  simp only [number_bytes32, number_bytes16]

/-! ## Groups -/

/-- Texts compare without the dashes as with them. -/
theorem grouped_lt_iff {s t : List UInt8} (hs : s.length = 32) (ht : t.length = 32) :
    grouped s < grouped t ↔ s < t := by
  have behind_dash (a b : List UInt8) : dash :: a < dash :: b ↔ a < b := by
    simp
  obtain ⟨a, b, c, d, e, ha, hb, hc, hd, -, rfl⟩ := exists_groups hs
  obtain ⟨a', b', c', d', e', ha', hb', hc', hd', -, rfl⟩ := exists_groups ht
  rw [grouped_append ha hb hc hd, grouped_append ha' hb' hc' hd']
  simp (disch := simp [*]) only [Hex.append_lt_append_iff, List.append_assoc, behind_dash,
    List.cons.injEq, true_and]

/-- GUIDs compare like their canonical texts. -/
theorem lt_iff_canonical_lt (g h : Guid) : g < h ↔ g.canonical < h.canonical := by
  have length (k : Guid) : (Hex.encode k.textBytes).length = 32 := by
    rw [Hex.length_encode, length_textBytes]
  rw [canonical, canonical, grouped_lt_iff (length g) (length h), Hex.encode_lt_iff,
    textBytes_lt_iff]

theorem le_iff_canonical_le (g h : Guid) : g ≤ h ↔ g.canonical ≤ h.canonical := by
  show ¬ h < g ↔ _
  rw [lt_iff_canonical_lt, List.not_lt]

/-! ## Sorting -/

/-- Texts in the ascending order of their bytes. -/
def sortTexts (texts : List String) : List String :=
  texts.mergeSort fun s t => decide (Utf8.encode s ≤ Utf8.encode t)

theorem map_text_sort (guids : List Guid) : (sort guids).map text = sortTexts (guids.map text) := by
  rw [sort, sortTexts, List.map_mergeSort]
  intro g _ h _
  simp only [encode_text, le_iff_canonical_le]

theorem sort_ascending (guids : List Guid) : (sort guids).Pairwise (· ≤ ·) := by
  have trans (g h k : Guid) : decide (g ≤ h) → decide (h ≤ k) → decide (g ≤ k) := by
    simp only [decide_eq_true_eq, le_iff_canonical_le]
    exact List.le_trans
  have total (g h : Guid) : decide (g ≤ h) || decide (h ≤ g) := by
    simp only [Bool.or_eq_true, decide_eq_true_eq, le_iff_canonical_le]
    exact List.le_total _ _
  have ordered := List.pairwise_mergeSort trans total guids
  simp only [decide_eq_true_eq] at ordered
  exact ordered

/-- Texts that are all read are in lower case the texts of the GUIDs. -/
theorem map_toLower_of_mapM_parse {texts : List String} {guids : List Guid}
    (read : texts.mapM parse = .ok guids) : texts.map String.toLower = guids.map text := by
  induction texts generalizing guids with
  | nil =>
    cases read
    rfl
  | cons s texts ih =>
    rw [List.mapM_cons] at read
    cases first : parse s with
    | error e =>
      rw [first] at read
      cases read
    | ok g =>
      cases others : texts.mapM parse with
      | error e =>
        rw [first, others] at read
        cases read
      | ok more =>
        rw [first, others] at read
        cases read
        rw [List.map_cons, List.map_cons, ih others, (parse_eq_ok_iff s g).mp first]

theorem mapM_parse_text (guids : List Guid) : (guids.map text).mapM parse = .ok guids := by
  induction guids with
  | nil => rfl
  | cons g guids ih =>
    rw [List.map_cons, List.mapM_cons, parse_text, ih]
    rfl

/-! ## The table of vendors -/

/-- Vendors are in ascending order of texts if and only if their GUIDs are ascending. -/
theorem ascending_iff (vendors : List Vendor) :
    Vendor.Ascending vendors ↔ (vendors.map Vendor.guid).Pairwise (· < ·) := by
  simp only [Vendor.Ascending, List.pairwise_map, lt_iff_canonical_lt]

/-- GUIDs compare like their canonical texts, byte by byte.  So sorting the GUIDs of some texts
gives the same as reading the texts when they have been put in lower case and sorted.  In this
order stand the vendors with a name, and among vendors in this order the search finds each one by
its GUID, and nothing else. -/
theorem order_of_texts :
    (∀ g h : Guid, g < h ↔ g.canonical < h.canonical) ∧
    (∀ (texts : List String) (guids : List Guid), texts.mapM parse = .ok guids →
      (sortTexts (texts.map String.toLower)).mapM parse = .ok (sort guids) ∧
        (sort guids).Perm guids ∧ (sort guids).Pairwise (· ≤ ·)) ∧
    (Vendor.known.map Vendor.guid).Pairwise (· < ·) ∧
    ∀ vendors : List Vendor, (vendors.map Vendor.guid).Pairwise (· < ·) → ∀ g v,
      Vendor.search g.canonical vendors = some v ↔ v ∈ vendors ∧ v.guid = g := by
  refine ⟨lt_iff_canonical_lt, ?_, (ascending_iff _).mp Vendor.known_ascending, ?_⟩
  · intro texts guids read
    refine ⟨?_, List.mergeSort_perm guids _, sort_ascending guids⟩
    rw [map_toLower_of_mapM_parse read, ← map_text_sort, mapM_parse_text]
  · intro vendors ascending g v
    rw [← ascending_iff] at ascending
    rw [Vendor.search_eq_scan ascending, Vendor.scan_eq_some_iff ascending, canonical_inj]

/-- As typed, the uppercase letter of the second text comes first.  The shell is the second of the
vendors with a name. -/
theorem order_of_texts_mixed :
    let low := "a719b2cb-3d3a-4596-a3bc-dad00e67656f"
    let high := "D719B2CB-3D3A-4596-A3BC-DAD00E67656F"
    let data4 := #v[0xa3, 0xbc, 0xda, 0xd0, 0x0e, 0x67, 0x65, 0x6f]
    let guids : List Guid :=
      [⟨0xa719b2cb, 0x3d3a, 0x4596, data4⟩, ⟨0xd719b2cb, 0x3d3a, 0x4596, data4⟩]
    Utf8.encode high < Utf8.encode low ∧ [low, high].mapM parse = .ok guids ∧
      (sortTexts [low.toLower, high.toLower]).mapM parse = .ok guids ∧
      Vendor.search Vendor.shell.guid.canonical Vendor.known = some Vendor.shell := by
  intro low high data4 guids
  have typed : Utf8.encode high < Utf8.encode low := by decide +kernel
  have first : parse low = .ok ⟨0xa719b2cb, 0x3d3a, 0x4596, data4⟩ := by
    rw [parse_eq_ok_iff]
    decide +kernel
  have second : parse high = .ok ⟨0xd719b2cb, 0x3d3a, 0x4596, data4⟩ := by
    rw [parse_eq_ok_iff]
    decide +kernel
  have read : [low, high].mapM parse = .ok guids := by
    rw [List.mapM_cons, List.mapM_cons, first, second]
    rfl
  have sorted : sort guids = guids := List.mergeSort_of_pairwise (by decide)
  obtain ⟨-, reads, known, found⟩ := order_of_texts
  have both := (reads _ _ read).1
  rw [sorted] at both
  exact ⟨typed, read, both, (found _ known _ _).mpr ⟨by decide, rfl⟩⟩

end Guid

end FirmwareVars
