import FirmwareVars.Ini.Entry

/-!
# Reading an ini file

A `Reader` gives the entries of a file one by one.  The first line that is
neither blank nor an entry gives its error, and nothing comes after that.  A NUL
byte ends the input, so a file in a buffer filled up with zeros reads as it is.
-/

namespace FirmwareVars.Ini

/-- The reading of a file, somewhere on the way. -/
structure Reader where
  /-- What is left to read. -/
  cursor : Cursor
  /-- Whether an error has been given. -/
  failed : Bool := false
deriving DecidableEq, Repr

/-- What a reader gives: an entry or the error that ends the reading. -/
abbrev Item := Except Error Entry

namespace Reader

/-- The reader of a file. -/
def ofBytes (bytes : List UInt8) : Reader := ⟨⟨bytes.takeWhile (· ≠ 0), {}⟩, false⟩

/-- The next item, if there is one, and the reader after it. -/
def next (r : Reader) : Option Item × Reader :=
  if r.failed then (none, r)
  else
    match r.cursor.nextEntry with
    | .error e => (some (.error e), { r with failed := true })
    | .ok none => (none, r)
    | .ok (some (e, c)) => (some (.ok e), { r with cursor := c })

/-- A bound on the number of items that are left. -/
def size (r : Reader) : Nat := if r.failed then 0 else r.cursor.rest.length + 1

theorem size_next {r s : Reader} {item : Item} (h : r.next = (some item, s)) :
    s.size < r.size := by
  rw [next] at h
  split at h
  · cases h
  · rename_i hr
    split at h
    · cases h; simp [size, hr]
    · cases h
    · rename_i hc
      cases h
      simp only [size, hr]
      exact Nat.succ_lt_succ (Cursor.nextEntry_shorter hc)

/-- All items that are left, and the reader after them. -/
def drain (r : Reader) : List Item × Reader :=
  match _ : r.next with
  | (none, s) => ([], s)
  | (some item, s) => (item :: s.drain.1, s.drain.2)
termination_by r.size
decreasing_by all_goals exact size_next ‹r.next = _›

end Reader

/-- The items of a file. -/
def items (bytes : List UInt8) : List Item := (Reader.ofBytes bytes).drain.1

end FirmwareVars.Ini
