import FirmwareVars.Proofs.Guid.Case

/-!
# The fields that GUID text denotes

A text is read as a GUID if and only if it is the text of that GUID up to letter case
(`parse_eq_ok_iff`).  For what was read is written again as the same digits in lower case, with
the dashes between them (`canonical_of_parseBytes`).

So what holds of the texts of GUIDs holds of all texts that are read.  Their groups denote the
fields: the first three are numbers in base 16, and the other two spell eight bytes
(`Denotes`, `parse_iff_denotes`).
-/

namespace FirmwareVars

/-- The digits of each byte are two. -/
theorem Hex.drop_encode (bytes : List UInt8) (n : Nat) :
    (encode bytes).drop (2 * n) = encode (bytes.drop n) := by
  induction n generalizing bytes with
  | zero => rfl
  | succ n ih =>
    cases bytes with
    | nil => rw [List.drop_nil, encode, List.flatMap_nil, List.drop_nil]
    | cons b rest => exact ih rest

namespace Guid

/-! ## Bytes of a GUID -/

theorem toNat_number16 (a b : UInt8) : (number16 a b).toNat = 256 * a.toNat + b.toNat := by
  rw [number16_eq_unit, Utf16.toNat_unit, Nat.add_comm]

theorem number16_inj {a b a' b' : UInt8} (h : number16 a b = number16 a' b') :
    a = a' ∧ b = b' := by
  have same := congrArg UInt16.toNat h
  rw [toNat_number16, toNat_number16] at same
  have := b.toNat_lt
  have := b'.toNat_lt
  exact ⟨UInt8.toNat_inj.mp (by omega), UInt8.toNat_inj.mp (by omega)⟩

theorem number32_inj {a b c d a' b' c' d' : UInt8}
    (h : number32 a b c d = number32 a' b' c' d') : a = a' ∧ b = b' ∧ c = c' ∧ d = d' := by
  have same := congrArg UInt32.toNat h
  rw [toNat_number32, toNat_number32] at same
  have := b.toNat_lt
  have := b'.toNat_lt
  have := c.toNat_lt
  have := c'.toNat_lt
  have := d.toNat_lt
  have := d'.toNat_lt
  exact ⟨UInt8.toNat_inj.mp (by omega), UInt8.toNat_inj.mp (by omega),
    UInt8.toNat_inj.mp (by omega), UInt8.toNat_inj.mp (by omega)⟩

theorem bytes16_number16 (a b : UInt8) : bytes16 (number16 a b) = [a, b] := by
  obtain ⟨high, low⟩ := number16_inj (number16_bytes (number16 a b))
  rw [bytes16, high, low]

theorem bytes32_number32 (a b c d : UInt8) : bytes32 (number32 a b c d) = [a, b, c, d] := by
  obtain ⟨first, second, third, fourth⟩ := number32_inj (number32_bytes (number32 a b c d))
  rw [bytes32, first, second, third, fourth]

/-- Sixteen bytes are the bytes of the GUID that is made of them. -/
theorem textBytes_of_ofTextBytes? {bytes : List UInt8} {g : Guid}
    (h : ofTextBytes? bytes = some g) : g.textBytes = bytes := by
  rw [ofTextBytes?.eq_def] at h
  split at h
  next a0 a1 a2 a3 b0 b1 c0 c1 d0 d1 d2 d3 d4 d5 d6 d7 =>
    cases h
    rw [textBytes, bytes32_number32, bytes16_number16, bytes16_number16]
    rfl
  next => cases h

/-- The digits of a number denote it. -/
theorem number_bytes16 (n : UInt16) : Hex.number (Hex.encode (bytes16 n)) = n.toNat := by
  conv_rhs => rw [← number16_bytes n, toNat_number16]
  rw [Hex.number_encode]
  simp only [bytes16, List.reverse_cons, List.reverse_nil, List.nil_append, List.map_cons,
    List.map_nil, List.cons_append, Nat.ofDigits_cons, Nat.ofDigits_nil]
  omega

theorem number_bytes32 (n : UInt32) : Hex.number (Hex.encode (bytes32 n)) = n.toNat := by
  conv_rhs => rw [← number32_bytes n, toNat_number32]
  rw [Hex.number_encode]
  simp only [bytes32, List.reverse_cons, List.reverse_nil, List.nil_append, List.map_cons,
    List.map_nil, List.cons_append, Nat.ofDigits_cons, Nat.ofDigits_nil]
  omega

/-! ## Groups -/

theorem drop_eq_dash {t : List UInt8} {i : Nat} (h : t[i]? = some dash) :
    dash :: t.drop (i + 1) = t.drop i := by
  obtain ⟨inside, here⟩ := List.getElem?_eq_some_iff.mp h
  rw [List.drop_eq_getElem_cons inside, here]

theorem grouped_ungrouped {t : List UInt8} (length : t.length = textLength)
    (dashes : ∀ i ∈ dashOffsets, t[i]? = some dash) : grouped (ungrouped t) = t := by
  rw [textLength] at length
  rw [ungrouped, grouped_append (by simp [length]) (by simp [length]) (by simp [length])
    (by simp [length])]
  -- From the last group on, each group and its dash are what stands in the text there.
  simp only [List.append_assoc, List.cons_append]
  rw [drop_eq_dash (dashes 23 (by decide)), take_append_drop t 19 4,
    drop_eq_dash (dashes 18 (by decide)), take_append_drop t 14 4,
    drop_eq_dash (dashes 13 (by decide)), take_append_drop t 9 4,
    drop_eq_dash (dashes 8 (by decide)), List.take_append_drop]

/-! ## The text of a GUID that was read -/

theorem of_parseBytes {t : List UInt8} {g : Guid} (h : parseBytes t = .ok g) :
    t.length = textLength ∧ (∀ i ∈ dashOffsets, t[i]? = some dash) ∧
      ∃ bytes, Hex.decode 16 (ungrouped t) = .ok bytes ∧ ofTextBytes? bytes = some g := by
  rw [parseBytes] at h
  split at h
  next shape =>
    split at h
    next => cases h
    next bytes read =>
      split at h
      next => cases h
      next made =>
        cases h
        exact ⟨shape.1, shape.2, bytes, read, made⟩
  next => cases h

/-- The text of a GUID that was read is what was read, in lower case. -/
theorem canonical_of_parseBytes {t : List UInt8} {g : Guid} (h : parseBytes t = .ok g) :
    g.canonical = t.map Hex.lower := by
  obtain ⟨length, dashes, bytes, read, made⟩ := of_parseBytes h
  have shape : ∀ i ∈ dashOffsets, (t.map Hex.lower)[i]? = some dash := by
    intro i at_dash
    rw [List.getElem?_map, dashes i at_dash]
    rfl
  calc
    g.canonical = grouped (Hex.encode bytes) := by rw [canonical, textBytes_of_ofTextBytes? made]
    _ = grouped (ungrouped (t.map Hex.lower)) := by
      rw [Hex.encode_of_decode read, ungrouped_map]
    _ = t.map Hex.lower := grouped_ungrouped (by rw [List.length_map, length]) shape

theorem encode_text (g : Guid) : Utf8.encode g.text = g.canonical :=
  Utf8.encode_ascii (canonical_ascii g)

/-- A text is read as the GUID whose text it is in lower case. -/
theorem parse_eq_ok_iff (s : String) (g : Guid) : parse s = .ok g ↔ s.toLower = g.text := by
  constructor
  · intro h
    apply Utf8.encode_injective
    rw [Utf8.encode_toLower, encode_text, canonical_of_parseBytes h]
  · intro h
    rw [← parse_toLower, h, parse_text]

theorem text_injective {g h : Guid} (same : g.text = h.text) : g = h := by
  have read := parse_text g
  rw [same, parse_text h] at read
  exact (Except.ok.inj read).symm

/-! ## What a text denotes -/

/-- So many bytes of a text from an offset on. -/
def group (t : List UInt8) (offset count : Nat) : List UInt8 := (t.drop offset).take count

/-- Whether the groups of a text denote the fields of a GUID: the first three are numbers in
base 16, and the digits of the last two are pairs, each a byte. -/
structure Denotes (t : List UInt8) (g : Guid) : Prop where
  data1 : g.data1.toNat = Hex.number (group t 0 8)
  data2 : g.data2.toNat = Hex.number (group t 9 4)
  data3 : g.data3.toNat = Hex.number (group t 14 4)
  data4 : ∀ i : Fin 8,
    g.data4[i].toNat = Hex.number (group (group t 19 4 ++ group t 24 12) (2 * i) 2)

theorem group_map (f : UInt8 → UInt8) (t : List UInt8) (offset count : Nat) :
    group (t.map f) offset count = (group t offset count).map f := by
  rw [group, group, List.map_take, List.map_drop]

/-- Letter case does not count. -/
theorem denotes_map_lower {t : List UInt8} {g : Guid} :
    Denotes (t.map Hex.lower) g ↔ Denotes t g := by
  constructor
  · rintro ⟨data1, data2, data3, data4⟩
    simp only [group_map, ← List.map_append, Hex.number_lower] at data1 data2 data3 data4
    exact ⟨data1, data2, data3, data4⟩
  · rintro ⟨data1, data2, data3, data4⟩
    refine ⟨?_, ?_, ?_, ?_⟩
    all_goals simpa only [group_map, ← List.map_append, Hex.number_lower]

theorem Denotes.unique {t : List UInt8} {g h : Guid} (first : Denotes t g) (second : Denotes t h) :
    g = h := by
  rcases g with ⟨n, m, k, bytes⟩
  rcases h with ⟨n', m', k', bytes'⟩
  have data4 : bytes = bytes' := by
    apply Vector.ext
    intro i hi
    exact UInt8.toNat_inj.mp ((first.data4 ⟨i, hi⟩).trans (second.data4 ⟨i, hi⟩).symm)
  rw [Guid.mk.injEq]
  exact ⟨UInt32.toNat_inj.mp (first.data1.trans second.data1.symm),
    UInt16.toNat_inj.mp (first.data2.trans second.data2.symm),
    UInt16.toNat_inj.mp (first.data3.trans second.data3.symm), data4⟩

theorem groups_of_joined {a b c d e : List UInt8} (ha : a.length = 8) (hb : b.length = 4)
    (hc : c.length = 4) (hd : d.length = 4) (he : e.length = 12) :
    let t := a ++ dash :: b ++ dash :: c ++ dash :: d ++ dash :: e
    group t 0 8 = a ∧ group t 9 4 = b ∧ group t 14 4 = c ∧ group t 19 4 = d ∧
      group t 24 12 = e := by
  match a, b, c, d, ha, hb, hc, hd with
  | [_, _, _, _, _, _, _, _], [_, _, _, _], [_, _, _, _], [_, _, _, _], _, _, _, _ =>
    refine ⟨rfl, rfl, rfl, rfl, ?_⟩
    exact List.take_of_length_le (Nat.le_of_eq he)

/-- The digits of the fields are the groups of the text, and those of the eight bytes are two
groups. -/
theorem groups_canonical (g : Guid) :
    group g.canonical 0 8 = Hex.encode (bytes32 g.data1) ∧
      group g.canonical 9 4 = Hex.encode (bytes16 g.data2) ∧
      group g.canonical 14 4 = Hex.encode (bytes16 g.data3) ∧
      group g.canonical 19 4 ++ group g.canonical 24 12 = Hex.encode g.data4.toList := by
  have cut : Hex.encode g.textBytes =
      Hex.encode (bytes32 g.data1) ++ Hex.encode (bytes16 g.data2) ++
        Hex.encode (bytes16 g.data3) ++ (Hex.encode g.data4.toList).take 4 ++
        (Hex.encode g.data4.toList).drop 4 := by
    rw [List.append_assoc _ (List.take 4 _), List.take_append_drop]
    simp only [textBytes, Hex.encode, List.flatMap_append]
  have length : (Hex.encode g.data4.toList).length = 16 := by
    rw [Hex.length_encode, Vector.length_toList]
  have head : ((Hex.encode g.data4.toList).take 4).length = 4 := by
    rw [List.length_take, length]
    rfl
  have tail : ((Hex.encode g.data4.toList).drop 4).length = 12 := by rw [List.length_drop, length]
  have joined := grouped_append (Hex.length_encode (bytes32 g.data1))
    (Hex.length_encode (bytes16 g.data2)) (Hex.length_encode (bytes16 g.data3)) head
    ((Hex.encode g.data4.toList).drop 4)
  obtain ⟨data1, data2, data3, first, last⟩ := groups_of_joined
    (Hex.length_encode (bytes32 g.data1)) (Hex.length_encode (bytes16 g.data2))
    (Hex.length_encode (bytes16 g.data3)) head tail
  rw [canonical, cut, joined]
  refine ⟨data1, data2, data3, ?_⟩
  rw [first, last, List.take_append_drop]

/-- The text of a GUID denotes it. -/
theorem denotes_canonical (g : Guid) : Denotes g.canonical g := by
  obtain ⟨data1, data2, data3, data4⟩ := groups_canonical g
  refine ⟨?_, ?_, ?_, fun i => ?_⟩
  · rw [data1, number_bytes32]
  · rw [data2, number_bytes16]
  · rw [data3, number_bytes16]
  · have inside : i.1 < g.data4.toList.length := by
      rw [Vector.length_toList]
      exact i.2
    have pair : group (Hex.encode g.data4.toList) (2 * i) 2 = Hex.pair g.data4.toList[i.1] := by
      rw [group, Hex.drop_encode, List.drop_eq_getElem_cons inside]
      rfl
    rw [data4, pair, Hex.number_pair, Vector.getElem_toList]
    rfl

theorem denotes_of_parse {s : String} {g : Guid} (h : parse s = .ok g) :
    Denotes (Utf8.encode s) g := by
  rw [← denotes_map_lower, ← canonical_of_parseBytes h]
  exact denotes_canonical g

/-- A text is read if and only if it is canonical, and then as the GUID that it denotes.  Each
GUID is read from its text, and two texts are read as one GUID if and only if they differ in
the case of letters alone. -/
theorem parse_iff_denotes :
    (∀ s, (∃ g, parse s = .ok g) ↔ IsCanonical (Utf8.encode s)) ∧
    (∀ s g, parse s = .ok g ↔ IsCanonical (Utf8.encode s) ∧ Denotes (Utf8.encode s) g) ∧
    (∀ g, IsCanonical (Utf8.encode (text g)) ∧ parse (text g) = .ok g) ∧
    ∀ s t g h, parse s = .ok g → parse t = .ok h → (g = h ↔ s.toLower = t.toLower) := by
  refine ⟨parse_isOk_iff, fun s g => ⟨fun read => ?_, ?_⟩, fun g => ?_, ?_⟩
  · exact ⟨(parse_isOk_iff s).mp ⟨g, read⟩, denotes_of_parse read⟩
  · rintro ⟨shape, fields⟩
    obtain ⟨h, read⟩ := (parse_isOk_iff s).mpr shape
    rwa [fields.unique (denotes_of_parse read)]
  · exact ⟨(parse_isOk_iff g.text).mp ⟨g, parse_text g⟩, parse_text g⟩
  · intro s t g h first second
    rw [(parse_eq_ok_iff s g).mp first, (parse_eq_ok_iff t h).mp second]
    exact ⟨congrArg text, text_injective⟩

end Guid

end FirmwareVars
