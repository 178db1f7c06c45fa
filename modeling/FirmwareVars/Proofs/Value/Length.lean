import FirmwareVars.Proofs.Value.Units

/-!
# The length of a value before it is written

The length of a value is counted in one pass over the units (`utf16Length`), and the bytes are
written in another.  Here both passes go step by step and stop where a machine would have to:
`utf16Length?` when the length does not fit into a word, and `written?` when the buffer that was
made for the value is full.

Neither happens.  The passes agree on each unit (`length_unitBytes`), so the room is just what
the bytes take (`written?_utf16Length`).  A unit takes two bytes in memory and gives at most
three, so the length of what fits into half of the address space fits into a word
(`utf16Length?_eq`).  And a unit is taken apart without loss: its bytes are the numbers that are
written down for it (`map_toNat_unitBytes`).
-/

namespace FirmwareVars.Value

/-! ## The passes step by step -/

/-- The length with one more unit, if it fits into a word of `w` bits. -/
def countUnit? (w length : Nat) (u : UInt16) : Option Nat :=
  if length + unitLength u < 2 ^ w then some (length + unitLength u) else none

/-- The length of the value of a buffer, if it can be counted in words of `w` bits. -/
def utf16Length? (w : Nat) (buffer : List UInt8) : Option Nat :=
  (Utf16.unitsToZero buffer).foldlM (countUnit? w) 0

/-- The bytes with one more behind them, if there is still room in a buffer of `room` bytes. -/
def push? (room : Nat) (bytes : List UInt8) (b : UInt8) : Option (List UInt8) :=
  if bytes.length < room then some (bytes ++ [b]) else none

/-- The bytes with those of one more unit behind them. -/
def pushUnit? (room : Nat) (bytes : List UInt8) (u : UInt16) : Option (List UInt8) :=
  (unitBytes u).foldlM (push? room) bytes

/-- The value of a buffer, if it can be written into `room` bytes. -/
def written? (room : Nat) (buffer : List UInt8) : Option Value :=
  ((Utf16.unitsToZero buffer).foldlM (pushUnit? room) []).map Value.mk

/-! ## Lengths -/

theorem unitLength_le (u : UInt16) : unitLength u ≤ 3 := by
  rw [unitLength]
  split
  · decide
  · split
    · decide
    · decide

/-- As many bytes are written for a unit as are counted for it. -/
theorem length_unitBytes (u : UInt16) : (unitBytes u).length = unitLength u := by
  rw [unitBytes]
  by_cases one : u < 0x80
  · simp [unitLength, one]
  by_cases two : u < 0x800
  · simp [unitLength, one, two]
  · simp [unitLength, one, two]

/-- The length of what some units are encoded as. -/
def unitsLength (us : List UInt16) : Nat := (us.map unitLength).sum

theorem length_ofUnits (us : List UInt16) : (ofUnits us).bytes.length = unitsLength us := by
  induction us with
  | nil => rfl
  | cons u us ih =>
    have step : (ofUnits (u :: us)).bytes = unitBytes u ++ (ofUnits us).bytes := rfl
    rw [step, List.length_append, length_unitBytes, ih]
    rfl

theorem unitsLength_le (us : List UInt16) : unitsLength us ≤ 3 * us.length := by
  induction us with
  | nil => exact Nat.le_refl 0
  | cons u us ih =>
    have here := unitLength_le u
    simp only [unitsLength, List.map_cons, List.sum_cons, List.length_cons] at ih ⊢
    omega

theorem utf16Length_eq (buffer : List UInt8) :
    utf16Length buffer = unitsLength (Utf16.unitsToZero buffer) := by
  rw [utf16Length, unitsLength, List.sum_eq_foldr, List.foldr_map]

theorem length_ofUtf16 (buffer : List UInt8) :
    (ofUtf16 buffer).bytes.length = utf16Length buffer := by
  rw [ofUtf16, length_ofUnits, utf16Length_eq]

theorem utf16Length_le (buffer : List UInt8) : utf16Length buffer ≤ 3 * (buffer.length / 2) := by
  rw [utf16Length_eq]
  calc unitsLength (Utf16.unitsToZero buffer)
      ≤ 3 * (Utf16.unitsToZero buffer).length := unitsLength_le _
    _ ≤ 3 * (buffer.length / 2) :=
        Nat.mul_le_mul_left 3 (Utf16.length_unitsToZero_le buffer)

/-! ## Counting -/

/-- Units are counted if the length fits into a word at the end. -/
theorem foldlM_countUnit? {w : Nat} (us : List UInt16) {length : Nat}
    (fits : length + unitsLength us < 2 ^ w) :
    us.foldlM (countUnit? w) length = some (length + unitsLength us) := by
  induction us generalizing length with
  | nil => rfl
  | cons u us ih =>
    simp only [unitsLength, List.map_cons, List.sum_cons, ← Nat.add_assoc] at fits ih ⊢
    have here : length + unitLength u < 2 ^ w := by omega
    rw [List.foldlM_cons, countUnit?, if_pos here]
    exact ih fits

/-- The length of what fits into half of the address space is counted. -/
theorem utf16Length?_eq {w : Nat} {buffer : List UInt8} (fits : buffer.length ≤ 2 ^ (w - 1) - 1) :
    utf16Length? w buffer = some (utf16Length buffer) := by
  have most := utf16Length_le buffer
  rw [utf16Length_eq] at most ⊢
  have below : 0 + unitsLength (Utf16.unitsToZero buffer) < 2 ^ w := by
    cases w with
    | zero =>
      simp only [Nat.zero_sub, Nat.pow_zero] at fits ⊢
      omega
    | succ w =>
      have positive := Nat.two_pow_pos w
      rw [Nat.add_sub_cancel] at fits
      rw [Nat.pow_succ]
      omega
  rw [utf16Length?, foldlM_countUnit? _ below, Nat.zero_add]

/-! ## Writing -/

/-- Bytes are written if there is room for all of them. -/
theorem foldlM_push? {room : Nat} (more : List UInt8) {bytes : List UInt8}
    (fits : bytes.length + more.length ≤ room) :
    more.foldlM (push? room) bytes = some (bytes ++ more) := by
  induction more generalizing bytes with
  | nil => simp
  | cons b more ih =>
    rw [List.length_cons] at fits
    have here : bytes.length < room := by omega
    have behind : (bytes ++ [b]).length + more.length ≤ room := by
      rw [List.length_append, List.length_singleton]
      omega
    rw [List.foldlM_cons, push?, if_pos here]
    simpa using ih behind

theorem foldlM_pushUnit? {room : Nat} (us : List UInt16) {bytes : List UInt8}
    (fits : bytes.length + unitsLength us ≤ room) :
    us.foldlM (pushUnit? room) bytes = some (bytes ++ (ofUnits us).bytes) := by
  induction us generalizing bytes with
  | nil => simp [ofUnits]
  | cons u us ih =>
    rw [unitsLength, List.map_cons, List.sum_cons, ← length_unitBytes, ← Nat.add_assoc] at fits
    have here : bytes.length + (unitBytes u).length ≤ room := by omega
    have behind : (bytes ++ unitBytes u).length + unitsLength us ≤ room := by
      rw [List.length_append]
      exact fits
    rw [List.foldlM_cons, pushUnit?, foldlM_push? _ here]
    simpa [ofUnits] using ih behind

/-- The room that is counted is enough. -/
theorem written?_utf16Length (buffer : List UInt8) :
    written? (utf16Length buffer) buffer = some (ofUtf16 buffer) := by
  have fits : ([] : List UInt8).length + unitsLength (Utf16.unitsToZero buffer) ≤
      utf16Length buffer := by
    rw [utf16Length_eq, List.length_nil, Nat.zero_add]
  rw [written?, foldlM_pushUnit? _ fits]
  rfl

/-! ## Bytes as numbers -/

/-- The bytes of a unit as expressions in its number, which no word bounds. -/
def unitNumbers (n : Nat) : List Nat :=
  if n < 0x80 then [n]
  else if n < 0x800 then [0xc0 ||| n >>> 6, 0x80 ||| (n &&& 0x3f)]
  else [0xe0 ||| n >>> 12, 0x80 ||| (n >>> 6 &&& 0x3f), 0x80 ||| (n &&& 0x3f)]

/-- A unit below 256 is a byte. -/
theorem toNat_toUInt8_of_lt {u : UInt16} (h : u.toNat < 256) : u.toUInt8.toNat = u.toNat := by
  rw [UInt16.toNat_toUInt8]
  exact Nat.mod_eq_of_lt h

theorem toNat_lead {u : UInt16} (places : UInt16) (mark : UInt8) (h : (u >>> places).toNat < 256) :
    ((u >>> places).toUInt8 ||| mark).toNat =
      mark.toNat ||| u.toNat >>> (places.toNat % 16) := by
  rw [UInt8.toNat_or, toNat_toUInt8_of_lt h, UInt16.toNat_shiftRight, Nat.or_comm]

theorem toNat_follow (u : UInt16) :
    ((u &&& 0x3f).toUInt8 ||| 0x80).toNat = 0x80 ||| (u.toNat &&& 0x3f) := by
  have masked : u.toNat &&& 0x3f = u.toNat % 64 := Nat.and_two_pow_sub_one_eq_mod u.toNat 6
  rw [UInt8.toNat_or, toNat_low, masked, Nat.or_comm]
  rfl

/-- The bytes of a unit are what is written down for it, with nothing cut off. -/
theorem map_toNat_unitBytes (u : UInt16) :
    (unitBytes u).map UInt8.toNat = unitNumbers u.toNat := by
  have hu := u.toNat_lt
  have last := toNat_follow u
  have six : (u >>> 6).toNat = u.toNat >>> 6 := UInt16.toNat_shiftRight u 6
  have twelve : (u >>> 12).toNat = u.toNat >>> 12 := UInt16.toNat_shiftRight u 12
  by_cases one : u < 0x80
  · have small : u.toNat < 0x80 := one
    have byte := toNat_toUInt8_of_lt (u := u) (by omega)
    simp [unitBytes, unitLength, unitNumbers, one, small, byte]
  have large : ¬ u.toNat < 0x80 := one
  by_cases two : u < 0x800
  · have small : u.toNat < 0x800 := two
    have lead := toNat_lead (u := u) 6 0xc0 (by rw [six, Nat.shiftRight_eq_div_pow]; omega)
    simp only [unitBytes, unitLength, unitNumbers, if_neg one, if_pos two, if_neg large,
      if_pos small, List.map_cons, List.map_nil, lead, last]
    rfl
  · have larger : ¬ u.toNat < 0x800 := two
    have lead := toNat_lead (u := u) 12 0xe0 (by rw [twelve, Nat.shiftRight_eq_div_pow]; omega)
    have middle := toNat_follow (u >>> 6)
    simp only [unitBytes, unitLength, unitNumbers, if_neg one, if_neg two, if_neg large,
      if_neg larger, List.map_cons, List.map_nil, lead, middle, last, six]
    rfl

/-! ## Both passes -/

/-- The room for a value is counted before it is written, and it is just what the value takes:
at most three bytes for two in memory, so that words which hold the sizes of things in memory
hold the length as well.  Each byte is the number that is written down for it. -/
theorem written_in_counted_room (buffer : List UInt8) :
    (ofUtf16 buffer).bytes.length = utf16Length buffer ∧
      written? (utf16Length buffer) buffer = some (ofUtf16 buffer) ∧
      utf16Length buffer ≤ 3 * (buffer.length / 2) ∧
      (∀ w, buffer.length ≤ 2 ^ (w - 1) - 1 →
        utf16Length? w buffer = some (utf16Length buffer)) ∧
      (ofUtf16 buffer).bytes.map UInt8.toNat =
        (Utf16.unitsToZero buffer).flatMap fun u => unitNumbers u.toNat := by
  refine ⟨length_ofUtf16 buffer, written?_utf16Length buffer, utf16Length_le buffer, ?_, ?_⟩
  · intro w fits
    exact utf16Length?_eq fits
  · simp only [ofUtf16, ofUnits, List.map_flatMap, map_toNat_unitBytes]

/-- Units of three bytes each, with an odd byte behind them, in words of four bits. -/
theorem written_in_counted_room_narrow :
    [0x00, 0xd8, 0xff, 0xff, 0x00, 0x08, 0x41].length ≤ 2 ^ (4 - 1) - 1 ∧
      utf16Length? 4 [0x00, 0xd8, 0xff, 0xff, 0x00, 0x08, 0x41] = some 9 ∧
      written? 9 [0x00, 0xd8, 0xff, 0xff, 0x00, 0x08, 0x41] =
        some ⟨[0xed, 0xa0, 0x80, 0xef, 0xbf, 0xbf, 0xe0, 0xa0, 0x80]⟩ := by
  have passes := written_in_counted_room [0x00, 0xd8, 0xff, 0xff, 0x00, 0x08, 0x41]
  have fits : [0x00, 0xd8, 0xff, 0xff, 0x00, 0x08, 0x41].length ≤ 2 ^ (4 - 1) - 1 := by decide
  exact ⟨fits, passes.2.2.2.1 4 fits, passes.2.1⟩

end FirmwareVars.Value
