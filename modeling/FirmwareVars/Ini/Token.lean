import FirmwareVars.Ini.Location

/-!
# Tokens of an ini file

A `Cursor` stands in a file: it holds the bytes that are left and their place.
`Cursor.token` passes blanks and a comment and reads one token.  Each token but
the end of the input takes at least one byte (`Cursor.token_shorter`), so reading
comes to an end.
-/

namespace FirmwareVars.Ini

/-! ## Bytes -/

/-- The byte between key and value. -/
def equalsSign : UInt8 := 0x3d

/-- The byte around a quoted value. -/
def quoteMark : UInt8 := 0x22

/-- The byte that starts a comment. -/
def hashMark : UInt8 := 0x23

/-- Whether a byte is passed over between tokens: space, tab, form feed or
carriage return. -/
def isBlank (b : UInt8) : Bool := b == 0x20 || b == 0x09 || b == 0x0c || b == 0x0d

/-- Whether a byte is an ASCII letter. -/
def isLetter (b : UInt8) : Bool := (0x41 ≤ b && b ≤ 0x5a) || (0x61 ≤ b && b ≤ 0x7a)

/-- Whether a byte is a decimal digit. -/
def isDigit (b : UInt8) : Bool := 0x30 ≤ b && b ≤ 0x39

/-- Whether a byte may stand in a word without quotes: a letter, a digit or one
of `_ . - @ / :`. -/
def isLiteral (b : UInt8) : Bool :=
  isLetter b || isDigit b || b == 0x5f || b == 0x2e || b == 0x2d || b == 0x40 || b == 0x2f ||
    b == 0x3a

/-! ## Cursors -/

/-- A place in a file with the bytes from there on. -/
structure Cursor where
  /-- The bytes that are left. -/
  rest : List UInt8
  /-- The place of the first of them. -/
  location : Location := {}
deriving DecidableEq, Repr

namespace Cursor

/-- The cursor after one byte. -/
def advance (c : Cursor) : Cursor :=
  match c.rest with
  | [] => c
  | b :: rest => ⟨rest, c.location.after b⟩

/-- The cursor after the bytes from `location` on that satisfy `p`. -/
def passFrom (p : UInt8 → Bool) (location : Location) : List UInt8 → Cursor
  | [] => ⟨[], location⟩
  | b :: rest => if p b then passFrom p (location.after b) rest else ⟨b :: rest, location⟩

/-- The cursor after the bytes that satisfy `p`. -/
def pass (p : UInt8 → Bool) (c : Cursor) : Cursor := passFrom p c.location c.rest

/-- The cursor after blanks, and after a comment if one follows them.  A comment
runs up to the end of its line. -/
def passBlanks (c : Cursor) : Cursor :=
  let d := c.pass isBlank
  if d.rest.head? = some hashMark then d.pass (· ≠ lineFeed) else d

end Cursor

/-! ## Tokens -/

/-- A token of a line. -/
inductive Token where
  | assign
  /-- A word without quotes. -/
  | literal (bytes : List UInt8)
  /-- The bytes between two quotes. -/
  | quoted (bytes : List UInt8)
  | endOfLine
  | endOfInput
deriving DecidableEq, Repr

/-- A token that has been read. -/
structure Lexeme where
  token : Token
  /-- The place of its first byte. -/
  location : Location
  /-- The cursor after it. -/
  next : Cursor
deriving DecidableEq, Repr

namespace Cursor

/-- The quoted bytes that start at this cursor.  `start` is the place of the
opening quote. -/
def quotedFrom (start : Location) (c : Cursor) : Except Error Lexeme :=
  let d := c.pass fun b => b ≠ quoteMark && b ≠ lineFeed
  if d.rest.head? = some quoteMark then
    .ok ⟨.quoted (c.rest.takeWhile fun b => b ≠ quoteMark && b ≠ lineFeed), start,
      d.advance⟩
  else .error (.unmatchedQuote start)

/-- The token at this cursor, which stands at no blank and no comment. -/
def tokenHere (c : Cursor) : Except Error Lexeme :=
  match c.rest with
  | [] => .ok ⟨.endOfInput, c.location, c⟩
  | b :: _ =>
      if b = lineFeed then .ok ⟨.endOfLine, c.location, c.advance⟩
      else if b = equalsSign then .ok ⟨.assign, c.location, c.advance⟩
      else if b = quoteMark then c.advance.quotedFrom c.location
      else if isLiteral b then
        .ok ⟨.literal (c.rest.takeWhile isLiteral), c.location, c.pass isLiteral⟩
      else .error (.unexpectedToken c.location)

/-- The next token. -/
def token (c : Cursor) : Except Error Lexeme := c.passBlanks.tokenHere

/-! ## Progress -/

theorem length_passFrom_le (p : UInt8 → Bool) (bytes : List UInt8) (location : Location) :
    (passFrom p location bytes).rest.length ≤ bytes.length := by
  induction bytes generalizing location with
  | nil => simp [passFrom]
  | cons b rest ih =>
      simp only [passFrom]
      split
      · exact Nat.le_succ_of_le (ih _)
      · simp

theorem length_pass_le (p : UInt8 → Bool) (c : Cursor) :
    (c.pass p).rest.length ≤ c.rest.length :=
  length_passFrom_le p c.rest c.location

theorem length_passBlanks_le (c : Cursor) : c.passBlanks.rest.length ≤ c.rest.length := by
  simp only [passBlanks]
  split
  · exact Nat.le_trans (length_pass_le _ _) (length_pass_le _ _)
  · exact length_pass_le _ _

theorem length_advance (c : Cursor) : c.advance.rest.length = c.rest.length - 1 := by
  rcases c with ⟨rest, location⟩
  cases rest with
  | nil => rfl
  | cons b rest => simp [advance]

theorem length_pass_lt {p : UInt8 → Bool} {c : Cursor} {b : UInt8} {rest : List UInt8}
    (hc : c.rest = b :: rest) (hb : p b) : (c.pass p).rest.length < c.rest.length := by
  rw [pass, hc, passFrom, if_pos hb]
  exact Nat.lt_succ_of_le (length_passFrom_le p rest _)

/-- A token that starts at a byte takes at least that byte. -/
theorem tokenHere_shorter {c : Cursor} {x : Lexeme} (h : c.tokenHere = .ok x) :
    x.token = .endOfInput ∨ x.next.rest.length < c.rest.length := by
  have less : c.rest ≠ [] → c.advance.rest.length < c.rest.length := by
    intro hne
    rw [length_advance]
    exact Nat.sub_lt (List.length_pos_iff.mpr hne) Nat.one_pos
  rw [tokenHere] at h
  split at h
  · cases h; exact Or.inl rfl
  · rename_i b rest hc
    have hne : c.rest ≠ [] := by simp [hc]
    refine Or.inr ?_
    split at h
    · cases h; exact less hne
    split at h
    · cases h; exact less hne
    split at h
    · rw [quotedFrom] at h
      split at h
      · cases h
        have := length_pass_le (fun b => b ≠ quoteMark && b ≠ lineFeed) c.advance
        have := less hne
        simp only [length_advance] at *
        omega
      · cases h
    split at h
    · cases h
      rename_i hb
      exact length_pass_lt hc hb
    · cases h

/-- The next token takes at least one byte unless the input is at its end. -/
theorem token_shorter {c : Cursor} {x : Lexeme} (h : c.token = .ok x) :
    x.token = .endOfInput ∨ x.next.rest.length < c.rest.length :=
  (tokenHere_shorter h).imp id fun less => Nat.lt_of_lt_of_le less (length_passBlanks_le c)

end Cursor

end FirmwareVars.Ini
