import FirmwareVars.Proofs.Text.Ascii

/-!
# Reading UTF-8

Bytes are read as a character if they spell it (`Spells`), and each character is spelled by
its own bytes and by no others (`spells_iff`).  Reading goes on behind them as if they were
not there.  So `text?` accepts the bytes of texts and nothing else (`text?_eq_some_iff`), and
the bytes of a text are shown as that text (`lossy_encode`).

The bytes of a surrogate spell nothing.  The first one starts a sequence that the second one
breaks off, and neither the second nor the third one starts another, so there are three
chunks (`scan_surrogate`).
-/

namespace FirmwareVars.Utf8

/-! ## Bytes as numbers -/

theorem isContinuation_iff (b : UInt8) :
    isContinuation b ↔ 0x80 ≤ b.toNat ∧ b.toNat < 0xc0 := by
  have all : ∀ n : Fin 256, isContinuation (.ofNat n) = true ↔ 0x80 ≤ n.1 ∧ n.1 < 0xc0 := by
    decide +kernel
  simpa using all ⟨b.toNat, b.toNat_lt⟩

/-- The bytes that start a sequence of each length. -/
theorem sequenceLength_iff (a : UInt8) :
    (sequenceLength a = 1 ↔ a.toNat < 0x80) ∧
      (sequenceLength a = 2 ↔ 0xc2 ≤ a.toNat ∧ a.toNat < 0xe0) ∧
      (sequenceLength a = 3 ↔ 0xe0 ≤ a.toNat ∧ a.toNat < 0xf0) ∧
      (sequenceLength a = 4 ↔ 0xf0 ≤ a.toNat ∧ a.toNat < 0xf5) := by
  have number : sequenceLength a =
      if a.toNat < 0x80 then 1
      else if a.toNat < 0xc2 then 0
      else if a.toNat < 0xe0 then 2
      else if a.toNat < 0xf0 then 3
      else if a.toNat < 0xf5 then 4
      else 0 := rfl
  rw [number]
  repeat' split
  all_goals omega

/-- The bytes that come second after each lead. -/
theorem isSecond_iff (a b : UInt8) :
    isSecond a b ↔ 0x80 ≤ b.toNat ∧ b.toNat < 0xc0 ∧
      (a.toNat = 0xe0 → 0xa0 ≤ b.toNat) ∧ (a.toNat = 0xed → b.toNat < 0xa0) ∧
      (a.toNat = 0xf0 → 0x90 ≤ b.toNat) ∧ (a.toNat = 0xf4 → b.toNat < 0x90) := by
  simp only [isSecond, ← UInt8.toNat_inj]
  repeat' split
  all_goals simp_all [isContinuation_iff, UInt8.le_iff_toNat_le]
  all_goals omega

theorem toNat_payload (b : UInt8) : (b &&& 0x3f).toNat = b.toNat % 64 := by
  rw [UInt8.toNat_and]
  exact Nat.and_two_pow_sub_one_eq_mod b.toNat 6

theorem codePoint_two (a b : UInt8) :
    codePoint (a &&& 0x1f) [b] = a.toNat % 32 * 64 + b.toNat % 64 := by
  have lead : (a &&& 0x1f).toNat = a.toNat % 32 := by
    rw [UInt8.toNat_and]
    exact Nat.and_two_pow_sub_one_eq_mod a.toNat 5
  rw [codePoint, lead, List.foldl_cons, List.foldl_nil, toNat_payload]

theorem codePoint_three (a b c : UInt8) :
    codePoint (a &&& 0x0f) [b, c] = (a.toNat % 16 * 64 + b.toNat % 64) * 64 + c.toNat % 64 := by
  have lead : (a &&& 0x0f).toNat = a.toNat % 16 := by
    rw [UInt8.toNat_and]
    exact Nat.and_two_pow_sub_one_eq_mod a.toNat 4
  simp only [codePoint, lead, List.foldl_cons, List.foldl_nil, toNat_payload]

theorem codePoint_four (a b c d : UInt8) :
    codePoint (a &&& 0x07) [b, c, d] =
      ((a.toNat % 8 * 64 + b.toNat % 64) * 64 + c.toNat % 64) * 64 + d.toNat % 64 := by
  have lead : (a &&& 0x07).toNat = a.toNat % 8 := by
    rw [UInt8.toNat_and]
    exact Nat.and_two_pow_sub_one_eq_mod a.toNat 3
  simp only [codePoint, lead, List.foldl_cons, List.foldl_nil, toNat_payload]

/-! ## One character -/

/-- Whether bytes are read as a character. -/
inductive Spells : List UInt8 → Char → Prop
  | one {a : UInt8} : sequenceLength a = 1 → Spells [a] (.ofNat a.toNat)
  | two {a b : UInt8} : sequenceLength a = 2 → isSecond a b →
      Spells [a, b] (.ofNat (codePoint (a &&& 0x1f) [b]))
  | three {a b c : UInt8} : sequenceLength a = 3 → isSecond a b → isContinuation c →
      Spells [a, b, c] (.ofNat (codePoint (a &&& 0x0f) [b, c]))
  | four {a b c d : UInt8} : sequenceLength a = 4 → isSecond a b → isContinuation c →
      isContinuation d → Spells [a, b, c, d] (.ofNat (codePoint (a &&& 0x07) [b, c, d]))

theorem Spells.scan_append {bytes : List UInt8} {c : Char} (h : Spells bytes c)
    (rest : List UInt8) : scan (bytes ++ rest) = some c :: scan rest := by
  rw [scan.eq_def]
  cases h with
  | one length => simp only [List.cons_append, List.nil_append, length]
  | two length second => simp only [List.cons_append, List.nil_append, length, if_pos second]
  | three length second third =>
      simp only [List.cons_append, List.nil_append, length, if_pos second, if_pos third]
  | four length second third fourth =>
      simp only [List.cons_append, List.nil_append, length, if_pos second, if_pos third,
        if_pos fourth]

/-- A character that is read is spelled by the bytes at the front. -/
theorem spells_of_scan (bytes : List UInt8) {c : Char} {more : List (Option Char)} :
    scan bytes = some c :: more →
      ∃ first rest, bytes = first ++ rest ∧ Spells first c ∧ scan rest = more := by
  fun_cases scan bytes with
  | case2 a rest length =>
      rintro ⟨⟩
      exact ⟨[a], rest, rfl, .one length, rfl⟩
  | case4 a length b rest second =>
      rintro ⟨⟩
      exact ⟨[a, b], rest, rfl, .two length second, rfl⟩
  | case8 a length b second c rest third =>
      rintro ⟨⟩
      exact ⟨[a, b, c], rest, rfl, .three length second third, rfl⟩
  | case14 a length b second c third d rest fourth =>
      rintro ⟨⟩
      exact ⟨[a, b, c, d], rest, rfl, .four length second third fourth, rfl⟩
  -- In all other cases a chunk comes first.
  | _ => nofun

/-! ## The bytes of a character -/

section Numbers

variable {n : Nat} {a b c d : UInt8}

theorem spells_one (small : n < 0x80) (first : a.toNat = n) : Spells [a] (.ofNat n) := by
  have spells : Spells [a] _ := .one ((sequenceLength_iff a).1.mpr (by omega))
  rwa [first] at spells

theorem spells_two (large : 0x80 ≤ n) (small : n < 0x800) (first : a.toNat = 0xc0 + n / 64)
    (second : b.toNat = 0x80 + n % 64) : Spells [a, b] (.ofNat n) := by
  have spells : Spells [a, b] _ :=
    .two ((sequenceLength_iff a).2.1.mpr (by omega)) ((isSecond_iff a b).mpr (by omega))
  have number : codePoint (a &&& 0x1f) [b] = n := by
    rw [codePoint_two]
    omega
  rwa [number] at spells

theorem spells_three (large : 0x800 ≤ n) (small : n < 0x10000)
    (whole : ¬ (0xd800 ≤ n ∧ n ≤ 0xdfff)) (first : a.toNat = 0xe0 + n / 4096)
    (second : b.toNat = 0x80 + n / 64 % 64) (third : c.toNat = 0x80 + n % 64) :
    Spells [a, b, c] (.ofNat n) := by
  have spells : Spells [a, b, c] _ :=
    .three ((sequenceLength_iff a).2.2.1.mpr (by omega)) ((isSecond_iff a b).mpr (by omega))
      ((isContinuation_iff c).mpr (by omega))
  have number : codePoint (a &&& 0x0f) [b, c] = n := by
    rw [codePoint_three]
    omega
  rwa [number] at spells

theorem spells_four (large : 0x10000 ≤ n) (small : n < 0x110000)
    (first : a.toNat = 0xf0 + n / 262144) (second : b.toNat = 0x80 + n / 4096 % 64)
    (third : c.toNat = 0x80 + n / 64 % 64) (fourth : d.toNat = 0x80 + n % 64) :
    Spells [a, b, c, d] (.ofNat n) := by
  have spells : Spells [a, b, c, d] _ :=
    .four ((sequenceLength_iff a).2.2.2.mpr (by omega)) ((isSecond_iff a b).mpr (by omega))
      ((isContinuation_iff c).mpr (by omega)) ((isContinuation_iff d).mpr (by omega))
  have number : codePoint (a &&& 0x07) [b, c, d] = n := by
    rw [codePoint_four]
    omega
  rwa [number] at spells

end Numbers

theorem spells_utf8EncodeChar (c : Char) : Spells (String.utf8EncodeChar c) c := by
  have valid : c.toNat < 0xd800 ∨ 0xdfff < c.toNat ∧ c.toNat < 0x110000 := c.valid
  have number : c.val.toNat = c.toNat := rfl
  have byte {n m : Nat} (h : n < 256) (same : n = m) : (UInt8.ofNat n).toNat = m :=
    (UInt8.toNat_ofNat_of_lt' h).trans same
  suffices Spells (String.utf8EncodeChar c) (.ofNat c.toNat) by rwa [Char.ofNat_toNat] at this
  rw [String.utf8EncodeChar, number]
  split
  · exact spells_one (by omega) (byte (by omega) rfl)
  split
  · exact spells_two (by omega) (by omega) (byte (by omega) (by omega))
      (byte (by omega) (by omega))
  split
  · exact spells_three (by omega) (by omega) (by omega) (byte (by omega) (by omega))
      (byte (by omega) (by omega)) (byte (by omega) (by omega))
  · exact spells_four (by omega) (by omega) (byte (by omega) (by omega))
      (byte (by omega) (by omega)) (byte (by omega) (by omega)) (byte (by omega) (by omega))

theorem Spells.eq_utf8EncodeChar {bytes : List UInt8} {c : Char} (h : Spells bytes c) :
    bytes = String.utf8EncodeChar c := by
  have value {n : Nat} (valid : n < 0xd800 ∨ 0xdfff < n ∧ n < 0x110000) :
      (Char.ofNat n).val.toNat = n := toNat_ofNat valid
  have byte (a : UInt8) {n : Nat} (same : n = a.toNat) : UInt8.ofNat n = a := by
    rw [same, UInt8.ofNat_toNat]
  cases h with
  | @one a length =>
      rw [(sequenceLength_iff a).1] at length
      rw [String.utf8EncodeChar, value (by omega), if_pos (by omega), byte a rfl]
  | @two a b length second =>
      rw [(sequenceLength_iff a).2.1] at length
      rw [isSecond_iff] at second
      rw [codePoint_two, String.utf8EncodeChar, value (by omega), if_neg (by omega),
        if_pos (by omega), byte a (by omega), byte b (by omega)]
  | @three a b c length second third =>
      rw [(sequenceLength_iff a).2.2.1] at length
      rw [isSecond_iff] at second
      rw [isContinuation_iff] at third
      rw [codePoint_three, String.utf8EncodeChar, value (by omega), if_neg (by omega),
        if_neg (by omega), if_pos (by omega), byte a (by omega), byte b (by omega),
        byte c (by omega)]
  | @four a b c d length second third fourth =>
      rw [(sequenceLength_iff a).2.2.2] at length
      rw [isSecond_iff] at second
      rw [isContinuation_iff] at third fourth
      rw [codePoint_four, String.utf8EncodeChar, value (by omega), if_neg (by omega),
        if_neg (by omega), if_neg (by omega), byte a (by omega), byte b (by omega),
        byte c (by omega), byte d (by omega)]

/-- A character is spelled by its own bytes and by no others. -/
theorem spells_iff (bytes : List UInt8) (c : Char) :
    Spells bytes c ↔ bytes = String.utf8EncodeChar c :=
  ⟨Spells.eq_utf8EncodeChar, fun h => h ▸ spells_utf8EncodeChar c⟩

/-! ## Surrogates -/

theorem scan_stray {a : UInt8} (continues : isContinuation a) (rest : List UInt8) :
    scan (a :: rest) = none :: scan rest := by
  rw [isContinuation_iff] at continues
  have starts := sequenceLength_iff a
  rw [scan.eq_def]
  simp only
  split
  all_goals first | rfl | omega

/-- The bytes of a surrogate are three chunks. -/
theorem scan_surrogate {a b c : UInt8} (first : a.toNat = 0xed) (second : 0xa0 ≤ b.toNat)
    (continues : isContinuation b) (third : isContinuation c) (rest : List UInt8) :
    scan (a :: b :: c :: rest) = none :: none :: none :: scan rest := by
  have length : sequenceLength a = 3 := (sequenceLength_iff a).2.2.1.mpr (by omega)
  have breaks : ¬ isSecond a b := by
    rw [isSecond_iff]
    omega
  rw [scan.eq_def]
  simp only [length, if_neg breaks]
  rw [scan_stray continues, scan_stray third]

/-! ## Texts -/

/-- What is read of pieces one after another, each of which is read the same whatever
follows. -/
theorem scan_flatMap {α : Type} {bytes : α → List UInt8} {read : α → List (Option Char)}
    (step : ∀ x rest, scan (bytes x ++ rest) = read x ++ scan rest) (xs : List α) :
    scan (xs.flatMap bytes) = xs.flatMap read := by
  induction xs with
  | nil => rfl
  | cons x xs ih => rw [List.flatMap_cons, step, ih, List.flatMap_cons]

theorem scan_encode (s : String) : scan (encode s) = s.toList.map some := by
  have step (c : Char) (rest : List UInt8) :
      scan (String.utf8EncodeChar c ++ rest) = [some c] ++ scan rest :=
    ((spells_iff _ c).mpr rfl).scan_append rest
  rw [encode, scan_flatMap step, List.map_eq_flatMap]

theorem eq_nil_of_scan (bytes : List UInt8) : scan bytes = [] → bytes = [] := by
  fun_cases scan bytes with
  | case1 => exact fun _ => rfl
  | _ => nofun

/-- Bytes that are read as characters throughout are the bytes of these characters. -/
theorem eq_of_scan {bytes : List UInt8} {cs : List Char} (h : scan bytes = cs.map some) :
    bytes = cs.flatMap String.utf8EncodeChar := by
  induction cs generalizing bytes with
  | nil => exact eq_nil_of_scan bytes h
  | cons c cs ih =>
      obtain ⟨first, rest, rfl, spells, read⟩ := spells_of_scan bytes h
      rw [List.flatMap_cons, ← ih read, (spells_iff first c).mp spells]

theorem mapM_id_eq_some_iff {α : Type} (l : List (Option α)) (xs : List α) :
    l.mapM id = some xs ↔ l = xs.map some := by
  induction l generalizing xs with
  | nil => cases xs <;> simp
  | cons x l ih =>
      cases xs with
      | nil => simp [List.mapM_cons, Option.bind_eq_some_iff]
      | cons y xs => simp [List.mapM_cons, Option.bind_eq_some_iff, ih]

/-- The bytes of texts are accepted, and nothing else. -/
theorem text?_eq_some_iff {bytes : List UInt8} {s : String} :
    text? bytes = some s ↔ bytes = encode s := by
  rw [text?, Option.map_eq_some_iff]
  constructor
  · rintro ⟨cs, read, rfl⟩
    rw [mapM_id_eq_some_iff] at read
    rw [encode, String.toList_ofList, eq_of_scan read]
  · rintro rfl
    exact ⟨s.toList, (mapM_id_eq_some_iff _ _).mpr (scan_encode s), String.ofList_toList⟩

theorem text?_encode (s : String) : text? (encode s) = some s := text?_eq_some_iff.mpr rfl

theorem lossy_encode (s : String) : lossy (encode s) = s := by
  rw [lossy, scan_encode, List.map_map]
  exact (congrArg String.ofList (List.map_id _)).trans String.ofList_toList

end FirmwareVars.Utf8
