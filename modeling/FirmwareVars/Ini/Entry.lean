import FirmwareVars.Ini.Token

/-!
# Entries of an ini file

A line of an ini file is blank or an entry `key = value`.  The key is a word
that starts with a letter, and the value a word or a quoted text.  A comment may
end any line.  There are no sections.

`Cursor.nextEntry` passes blank lines and reads one entry.  Each entry takes at
least one byte (`Cursor.nextEntry_shorter`).
-/

namespace FirmwareVars.Ini

/-- A key with its value. -/
structure Entry where
  key : List UInt8
  /-- The value, without the quotes. -/
  value : List UInt8
deriving DecidableEq, Repr

namespace Cursor

/-! ## The parts of a line -/

/-- The key of the next line that is not blank, and the cursor after it.  There
is none at the end of the input. -/
def key? (c : Cursor) : Except Error (Option (List UInt8 × Cursor)) :=
  match _ : c.token with
  | .error e => .error e
  | .ok ⟨.endOfInput, _, _⟩ => .ok none
  | .ok ⟨.endOfLine, _, next⟩ => next.key?
  | .ok ⟨.literal word, location, next⟩ =>
      if word.head?.any isLetter then .ok (some (word, next))
      else .error (.invalidKeyName location)
  | .ok ⟨_, location, _⟩ => .error (.unexpectedToken location)
termination_by c.rest.length
decreasing_by
  rcases token_shorter ‹c.token = _› with h | h
  · cases h
  · exact h

/-- The cursor after an equals sign. -/
def assign (c : Cursor) : Except Error Cursor :=
  match c.token with
  | .error e => .error e
  | .ok ⟨.assign, _, next⟩ => .ok next
  | .ok ⟨_, location, _⟩ => .error (.expectedAssign location)

/-- A value and the cursor after it. -/
def value (c : Cursor) : Except Error (List UInt8 × Cursor) :=
  match c.token with
  | .error e => .error e
  | .ok ⟨.literal bytes, _, next⟩ => .ok (bytes, next)
  | .ok ⟨.quoted bytes, _, next⟩ => .ok (bytes, next)
  | .ok ⟨_, location, _⟩ => .error (.expectedValue location)

/-- The cursor after the end of a line. -/
def lineEnd (c : Cursor) : Except Error Cursor :=
  match c.token with
  | .error e => .error e
  | .ok ⟨.endOfLine, _, next⟩ => .ok next
  | .ok ⟨.endOfInput, _, next⟩ => .ok next
  | .ok ⟨_, location, _⟩ => .error (.unexpectedToken location)

/-- What follows a key on its line, and the cursor after the line. -/
def afterKey (key : List UInt8) (c : Cursor) : Except Error (Entry × Cursor) := do
  let c ← c.assign
  let (value, c) ← c.value
  let c ← c.lineEnd
  return (⟨key, value⟩, c)

/-- The next entry and the cursor after its line.  There is none at the end of
the input. -/
def nextEntry (c : Cursor) : Except Error (Option (Entry × Cursor)) :=
  match c.key? with
  | .error e => .error e
  | .ok none => .ok none
  | .ok (some (key, next)) => (next.afterKey key).map some

/-! ## Progress -/

theorem key?_shorter {c next : Cursor} {word : List UInt8} (h : c.key? = .ok (some (word, next))) :
    next.rest.length < c.rest.length := by
  fun_induction key? c with
  | case1 c e hc => cases h
  | case2 c l n hc => cases h
  | case3 c l n hc ih =>
      rcases token_shorter hc with hx | hx
      · cases hx
      · exact Nat.lt_trans (ih h) hx
  | case4 c w l n hc hw =>
      cases h
      rcases token_shorter hc with hx | hx
      · cases hx
      · exact hx
  | case5 c w l n hc hw => cases h
  | case6 c t l n hc => cases h

theorem token_le {c : Cursor} {x : Lexeme} (h : c.token = .ok x) :
    x.next.rest.length ≤ c.rest.length := by
  rcases token_shorter h with hx | hx
  · rw [token, tokenHere] at h
    have := length_passBlanks_le c
    split at h
    · cases h; exact this
    · rw [quotedFrom] at h
      repeat' split at h
      all_goals cases h <;> cases hx
  · exact Nat.le_of_lt hx

theorem assign_le {c next : Cursor} (h : c.assign = .ok next) :
    next.rest.length ≤ c.rest.length := by
  rw [assign] at h
  split at h
  · cases h
  · rename_i hc; cases h; exact token_le hc
  · cases h

theorem value_le {c next : Cursor} {bytes : List UInt8} (h : c.value = .ok (bytes, next)) :
    next.rest.length ≤ c.rest.length := by
  rw [value] at h
  split at h
  · cases h
  · rename_i hc; cases h; exact token_le hc
  · rename_i hc; cases h; exact token_le hc
  · cases h

theorem lineEnd_le {c next : Cursor} (h : c.lineEnd = .ok next) :
    next.rest.length ≤ c.rest.length := by
  rw [lineEnd] at h
  split at h
  · cases h
  · rename_i hc; cases h; exact token_le hc
  · rename_i hc; cases h; exact token_le hc
  · cases h

theorem afterKey_le {c next : Cursor} {key : List UInt8} {e : Entry}
    (h : c.afterKey key = .ok (e, next)) : next.rest.length ≤ c.rest.length := by
  rw [afterKey] at h
  cases ha : c.assign with
  | error e => simp [ha, bind, Except.bind] at h
  | ok c1 =>
    cases hv : c1.value with
    | error e => simp [ha, hv, bind, Except.bind] at h
    | ok p =>
      cases hl : p.2.lineEnd with
      | error e => simp [ha, hv, hl, bind, Except.bind] at h
      | ok c3 =>
        simp only [ha, hv, hl, bind, Except.bind, pure, Except.pure, Except.ok.injEq,
          Prod.mk.injEq] at h
        rw [← h.2]
        exact Nat.le_trans (lineEnd_le hl) (Nat.le_trans (value_le hv) (assign_le ha))

/-- An entry takes at least one byte. -/
theorem nextEntry_shorter {c next : Cursor} {e : Entry} (h : c.nextEntry = .ok (some (e, next))) :
    next.rest.length < c.rest.length := by
  rw [nextEntry] at h
  split at h
  · cases h
  · cases h
  · rename_i key after hk
    cases ha : after.afterKey key with
    | error e => simp [ha, Except.map] at h
    | ok p =>
      simp only [ha, Except.map, Except.ok.injEq, Option.some.injEq] at h
      subst h
      exact Nat.lt_of_le_of_lt (afterKey_le ha) (key?_shorter hk)

end Cursor

end FirmwareVars.Ini
