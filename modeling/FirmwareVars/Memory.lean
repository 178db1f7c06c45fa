import FirmwareVars.Error
import FirmwareVars.Hex

/-!
# Memory

Texts and dumps are written into room that is reserved first, all of it at once.  The
allocator may refuse.  A text is then empty, and a dump ends with `Error.outOfMemory`.
A command reserves room once at most, so the size alone tells what it is answered.

Sizes are words.  A size that a word does not hold is refused at once, and so is half of
what a word can count or more, however much memory is left.  For the length of a dump the
second covers the first (`reserveDump_eq`).
-/

namespace FirmwareVars

/-- The memory that a command runs in. -/
structure Memory where
  /-- Whether the allocator gives room for this many bytes. -/
  grants : Nat → Bool := fun _ => true

namespace Memory

/-- Whether there is room for this many bytes.  For no bytes there always is. -/
def Holds (memory : Memory) (size : Nat) : Prop :=
  size = 0 ∨ 2 * size < UInt64.size ∧ memory.grants size

instance (memory : Memory) (size : Nat) : Decidable (memory.Holds size) :=
  inferInstanceAs (Decidable (size = 0 ∨ 2 * size < UInt64.size ∧ memory.grants size = true))

/-- Reserves room for this many bytes. -/
def reserve (memory : Memory) (size : Nat) : Except Error Unit :=
  if memory.Holds size then .ok () else .error .outOfMemory

/-- Reserves room for the dump of `count` bytes, if its length can be computed in words. -/
def reserveDump (memory : Memory) (count : Nat) : Except Error Unit :=
  if 3 * count < UInt64.size then memory.reserve (Hex.dumpLength count)
  else .error .outOfMemory

theorem holds_zero (memory : Memory) : memory.Holds 0 := Or.inl rfl

/-- A length that does not fit into a word would be refused in any case. -/
theorem reserveDump_eq (memory : Memory) (count : Nat) :
    memory.reserveDump count = memory.reserve (Hex.dumpLength count) := by
  rw [reserveDump]
  split
  · rfl
  · next large =>
    have refused : ¬ memory.Holds (Hex.dumpLength count) := by
      rw [UInt64.size] at large
      rw [Holds, Hex.dumpLength, UInt64.size]
      omega
    rw [reserve, if_neg refused]

/-- The length of the first dump does not fit into a word.  That of the second one does, but no
room is that large. -/
example (memory : Memory) :
    memory.reserveDump (UInt64.size / 3 + 1) = .error .outOfMemory ∧
      memory.reserveDump (UInt64.size / 3) = .error .outOfMemory :=
  ⟨rfl, rfl⟩

end Memory

end FirmwareVars
