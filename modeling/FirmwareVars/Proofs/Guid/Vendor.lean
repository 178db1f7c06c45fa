import FirmwareVars.Guid.Vendor
import FirmwareVars.Proofs.Guid.Fields

/-!
# GUIDs in the firmware

The firmware keeps a GUID as sixteen bytes, and the text of these bytes is the text of the GUID
(`efiText_efiBytes`).  So the text that was typed and the GUID that the firmware gets are the
same up to letter case (`Guid.firmware_sees_typed`).

The name of a vendor is found by halving.  Each half has the texts on one side of the middle
(`Ascending.halves`), so in ascending vendors halving finds what a scan finds
(`search_eq_scan`).
-/

namespace FirmwareVars

namespace Vendor

/-! ## Search -/

/-- The first vendor with this canonical text. -/
def scan (text : List UInt8) (vendors : List Vendor) : Option Vendor :=
  vendors.find? fun v => v.guid.canonical = text

/-- Whether vendors are in the strict order of their canonical text. -/
def Ascending (vendors : List Vendor) : Prop :=
  vendors.Pairwise fun v w => v.guid.canonical < w.guid.canonical

theorem known_ascending : Ascending known := by
  rw [Ascending]
  decide +kernel

section Halves

variable {text : List UInt8} {before after : List Vendor} {middle : Vendor}

theorem Ascending.halves (h : Ascending (before ++ middle :: after)) :
    Ascending before ∧ Ascending after ∧
      (∀ v ∈ before, v.guid.canonical < middle.guid.canonical) ∧
      ∀ v ∈ after, middle.guid.canonical < v.guid.canonical := by
  rw [Ascending, List.pairwise_append, List.pairwise_cons] at h
  obtain ⟨left, ⟨above, right⟩, below⟩ := h
  exact ⟨left, right, fun v hv => below v hv middle List.mem_cons_self, above⟩

theorem scan_append (other : ∀ v ∈ before, v.guid.canonical ≠ text) :
    scan text (before ++ after) = scan text after := by
  have none : before.find? (fun v => v.guid.canonical = text) = none := by
    rw [List.find?_eq_none]
    intro v hv
    simpa using other v hv
  rw [scan, List.find?_append, none, Option.none_or, scan]

/-- Vendors before one with this text have another. -/
theorem scan_of_eq (h : Ascending (before ++ middle :: after))
    (same : middle.guid.canonical = text) :
    scan text (before ++ middle :: after) = some middle := by
  obtain ⟨-, -, below, -⟩ := h.halves
  have other : ∀ v ∈ before, v.guid.canonical ≠ text := by
    intro v hv at_text
    have less := below v hv
    rw [at_text, same] at less
    exact List.lt_irrefl text less
  rw [scan_append other, scan, List.find?_cons_of_pos (by simpa using same)]

theorem scan_of_lt (h : Ascending (before ++ middle :: after))
    (less : middle.guid.canonical < text) :
    scan text (before ++ middle :: after) = scan text after := by
  obtain ⟨-, -, below, -⟩ := h.halves
  have other : ∀ v ∈ before ++ [middle], v.guid.canonical ≠ text := by
    intro v hv at_text
    rw [List.mem_append, List.mem_singleton] at hv
    rw [← at_text] at less
    rcases hv with hv | rfl
    · exact List.lt_irrefl _ (List.lt_trans less (below v hv))
    · exact List.lt_irrefl _ less
  rw [List.append_cons, scan_append other]

theorem scan_of_gt (h : Ascending (before ++ middle :: after))
    (greater : text < middle.guid.canonical) :
    scan text (before ++ middle :: after) = scan text before := by
  obtain ⟨-, -, -, above⟩ := h.halves
  have none : scan text (middle :: after) = none := by
    rw [scan, List.find?_eq_none]
    intro v hv
    rw [decide_eq_true_eq]
    rintro rfl
    rcases List.mem_cons.mp hv with rfl | hv
    · exact List.lt_irrefl _ greater
    · exact List.lt_irrefl _ (List.lt_trans greater (above v hv))
  rw [scan] at none
  rw [scan, List.find?_append, none, Option.or_none, scan]

end Halves

/-- Halving finds in ascending vendors what a scan from the start finds. -/
theorem search_eq_scan {text : List UInt8} {vendors : List Vendor}
    (ascending : Ascending vendors) : search text vendors = scan text vendors := by
  -- The middle stands between the two halves.
  have joined {middle : Vendor} {after vendors : List Vendor}
      (cut : vendors.drop (vendors.length / 2) = middle :: after) :
      vendors.take (vendors.length / 2) ++ middle :: after = vendors := by
    rw [← cut, List.take_append_drop]
  fun_induction search text vendors with
  | case1 vendors empty =>
    have short : vendors.length ≤ vendors.length / 2 := List.drop_eq_nil_iff.mp empty
    have none : vendors = [] := List.length_eq_zero_iff.mp (by omega)
    rw [none]
    rfl
  | case2 vendors middle after cut same =>
    have whole := joined cut
    rw [← whole] at ascending
    rw [← scan_of_eq ascending same, whole]
  | case3 vendors middle after cut other less ih =>
    have whole := joined cut
    rw [← whole] at ascending
    rw [ih ascending.halves.2.1, ← scan_of_lt ascending less, whole]
  | case4 vendors middle after cut other notLess ih =>
    have greater : text < middle.guid.canonical := by
      rcases List.le_iff_lt_or_eq.mp (List.not_lt.mp notLess) with greater | same
      · exact greater
      · exact absurd same.symm other
    have whole := joined cut
    rw [← whole] at ascending
    rw [ih ascending.halves.1, ← scan_of_gt ascending greater, whole]

/-- The vendor that is found is the only one with the text. -/
theorem scan_eq_some_iff {text : List UInt8} {vendors : List Vendor}
    (ascending : Ascending vendors) (v : Vendor) :
    scan text vendors = some v ↔ v ∈ vendors ∧ v.guid.canonical = text := by
  constructor
  · intro found
    rw [scan] at found
    exact ⟨List.mem_of_find?_eq_some found, by simpa using List.find?_some found⟩
  · rintro ⟨mem, same⟩
    obtain ⟨before, after, rfl⟩ := List.append_of_mem mem
    exact scan_of_eq ascending same

end Vendor

namespace Guid

/-! ## The bytes of the firmware -/

/-- The text of sixteen bytes in the order of the firmware: three fields, each from its last
byte to its first, and the other bytes as they stand. -/
def efiCanonical (bytes : List UInt8) : List UInt8 :=
  grouped (Hex.encode ((bytes.take 4).reverse ++ ((bytes.drop 4).take 2).reverse ++
    ((bytes.drop 6).take 2).reverse ++ bytes.drop 8))

theorem efiCanonical_efiBytes (g : Guid) : efiCanonical g.efiBytes = g.canonical := by
  have order : (g.efiBytes.take 4).reverse ++ ((g.efiBytes.drop 4).take 2).reverse ++
      ((g.efiBytes.drop 6).take 2).reverse ++ g.efiBytes.drop 8 = g.textBytes := rfl
  rw [efiCanonical, order, canonical]

/-- The bytes of a GUID in the order of the firmware give the GUID back. -/
theorem ofEfiBytes?_efiBytes (g : Guid) : ofEfiBytes? g.efiBytes = some g := by
  rcases g with ⟨n, m, k, ⟨⟨bytes⟩, hb⟩⟩
  match bytes, hb with
  | [d0, d1, d2, d3, d4, d5, d6, d7], hb =>
      show some (Guid.mk (number32 (n >>> 24).toUInt8 (n >>> 16).toUInt8 (n >>> 8).toUInt8
        n.toUInt8) (number16 (m >>> 8).toUInt8 m.toUInt8)
        (number16 (k >>> 8).toUInt8 k.toUInt8) #v[d0, d1, d2, d3, d4, d5, d6, d7]) = _
      rw [number32_bytes, number16_bytes, number16_bytes]

/-- The text of sixteen bytes in the order of the firmware. -/
def efiText (bytes : List UInt8) : String :=
  String.ofList ((efiCanonical bytes).map fun b => Char.ofNat b.toNat)

theorem efiText_efiBytes (g : Guid) : efiText g.efiBytes = g.text := by
  rw [efiText, efiCanonical_efiBytes, text]

theorem canonical_inj {g h : Guid} : g.canonical = h.canonical ↔ g = h := by
  constructor
  · intro same
    exact text_injective (by rw [text, same, text])
  · rintro rfl
    rfl

theorem text_toLower (g : Guid) : g.text.toLower = g.text :=
  (parse_eq_ok_iff g.text g).mp (parse_text g)

end Guid

namespace Vendor

theorem name?_eq_some_iff (g : Guid) (name : String) :
    name? g = some name ↔ ∃ v ∈ known, v.guid = g ∧ v.name = name := by
  simp only [name?, search_eq_scan known_ascending, Option.map_eq_some_iff,
    scan_eq_some_iff known_ascending, Guid.canonical_inj, and_assoc]

end Vendor

/-- The firmware gets the GUID of a text as sixteen bytes.  The GUID is read back from them, and
no other GUID has them.  Their text is the text that was typed, in lower case, and by it the
name of the vendor is found: the name of the vendor in the table that has the text up to letter
case, and none if the table has no such vendor.  For every GUID halving finds the vendor that a
scan finds. -/
theorem Guid.firmware_sees_typed {s : String} {g : Guid} (h : parse s = .ok g) :
    ofEfiBytes? g.efiBytes = some g ∧ efiText g.efiBytes = s.toLower ∧
    (∀ k : Guid, k.efiBytes = g.efiBytes → k = g) ∧
    Vendor.name? g = (Vendor.search (efiCanonical g.efiBytes) Vendor.known).map Vendor.name ∧
    (∀ name, Vendor.name? g = some name ↔
      ∃ v ∈ Vendor.known, v.guid.text.toLower = s.toLower ∧ v.name = name) ∧
    (Vendor.name? g = none ↔ ∀ v ∈ Vendor.known, v.guid.text.toLower ≠ s.toLower) ∧
    ∀ k : Guid, Vendor.search k.canonical Vendor.known =
      Vendor.known.find? fun v => v.guid = k := by
  have typed : s.toLower = g.text := (parse_eq_ok_iff s g).mp h
  have same_text (k : Guid) : k.text.toLower = s.toLower ↔ k = g := by
    rw [text_toLower, typed]
    exact ⟨text_injective, congrArg text⟩
  refine ⟨ofEfiBytes?_efiBytes g, ?_, fun k same => ?_, ?_, fun name => ?_, ?_, fun k => ?_⟩
  · rw [efiText_efiBytes, typed]
  · rw [← canonical_inj, ← efiCanonical_efiBytes, same, efiCanonical_efiBytes]
  · rw [efiCanonical_efiBytes, Vendor.name?]
  · simp only [same_text, Vendor.name?_eq_some_iff]
  · simp only [same_text, Option.eq_none_iff_forall_ne_some, Ne, Vendor.name?_eq_some_iff]
    constructor
    · intro unnamed v mem same
      exact unnamed v.name ⟨v, mem, same, rfl⟩
    · rintro absent name ⟨v, mem, same, -⟩
      exact absent v mem same
  · rw [Vendor.search_eq_scan Vendor.known_ascending, Vendor.scan]
    simp only [canonical_inj]

/-- Letters of both cases, and a vendor in the second half of the table. -/
theorem Guid.firmware_sees_typed_global :
    let s := "8BE4df61-93Ca-11d2-AA0d-00E098032b8c"
    parse s = .ok globalVariable ∧
      efiText globalVariable.efiBytes = "8be4df61-93ca-11d2-aa0d-00e098032b8c" ∧
      Vendor.name? globalVariable = some "EfiGlobalVariable" := by
  intro s
  have typed : parse s = .ok globalVariable := by
    rw [parse_eq_ok_iff]
    decide +kernel
  have lower : s.toLower = "8be4df61-93ca-11d2-aa0d-00e098032b8c" := by decide +kernel
  obtain ⟨-, text, -, -, named, -, -⟩ := firmware_sees_typed typed
  refine ⟨typed, text.trans lower, (named _).mpr ⟨⟨globalVariable, _⟩, ?_, ?_, rfl⟩⟩
  · decide
  · rw [text_toLower, ← (parse_eq_ok_iff s globalVariable).mp typed]

end FirmwareVars
