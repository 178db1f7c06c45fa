import FirmwareVars.Ini.Reader

/-!
# An ini file line by line

The grammar of a file, said of one line at a time and without a cursor.  A line
is read from left to right in pieces.  What is left of the line after a piece is
all that the next one depends on, and the column of a piece follows from how
much is left at its start.  The end of a line always stands one column after its
last byte, also when a comment comes before it.

`Line.items` gives the items of a file in this way.
-/

namespace FirmwareVars.Ini.Line

/-! ## Pieces -/

/-- What comes next on a line. -/
inductive Piece where
  | assign
  | literal (bytes : List UInt8)
  | quoted (bytes : List UInt8)
  | stop
  /-- A quote with no other one after it. -/
  | unclosed
  /-- A byte that starts no piece. -/
  | stray
deriving DecidableEq, Repr

/-- A piece with what is left of the line at its start and after it. -/
structure Found where
  piece : Piece
  start : List UInt8
  after : List UInt8
deriving DecidableEq, Repr

/-- The next piece of a line. -/
def next (rest : List UInt8) : Found :=
  match rest.dropWhile isBlank with
  | [] => ⟨.stop, [], []⟩
  | b :: more =>
      if b = hashMark then ⟨.stop, [], []⟩
      else if b = equalsSign then ⟨.assign, b :: more, more⟩
      else if b = quoteMark then
        match more.dropWhile (· ≠ quoteMark) with
        | [] => ⟨.unclosed, b :: more, []⟩
        | _ :: after => ⟨.quoted (more.takeWhile (· ≠ quoteMark)), b :: more, after⟩
      else if isLiteral b then
        ⟨.literal (b :: more.takeWhile isLiteral), b :: more, more.dropWhile isLiteral⟩
      else ⟨.stray, b :: more, []⟩

/-! ## Lines -/

/-- The place of a piece on the line with this number. -/
def place (number : Nat) (line : List UInt8) (f : Found) : Location :=
  ⟨number, line.length + 1 - f.start.length⟩

/-- The next piece, unless no piece can be read. -/
def next? (number : Nat) (line rest : List UInt8) : Except Error Found :=
  let f := next rest
  match f.piece with
  | .unclosed => .error (.unmatchedQuote (place number line f))
  | .stray => .error (.unexpectedToken (place number line f))
  | _ => .ok f

/-- The bytes of a literal or a quoted piece. -/
def Piece.value? : Piece → Option (List UInt8)
  | .literal bytes => some bytes
  | .quoted bytes => some bytes
  | _ => none

/-- The entry with this key on a line, from what is left after the key. -/
def afterKey (number : Nat) (line key rest : List UInt8) : Except Error Entry := do
  let sign ← next? number line rest
  if sign.piece ≠ .assign then throw (.expectedAssign (place number line sign))
  let value ← next? number line sign.after
  match value.piece.value? with
  | none => throw (.expectedValue (place number line value))
  | some bytes =>
      let stop ← next? number line value.after
      if stop.piece ≠ .stop then throw (.unexpectedToken (place number line stop))
      return ⟨key, bytes⟩

/-- The entry on the line with this number.  A blank line has none. -/
def read (number : Nat) (line : List UInt8) : Except Error (Option Entry) := do
  let first ← next? number line line
  match first.piece with
  | .stop => return none
  | .literal key =>
      if key.head?.any isLetter then some <$> afterKey number line key first.after
      else throw (.invalidKeyName (place number line first))
  | _ => throw (.unexpectedToken (place number line first))

/-! ## Files -/

/-- The items of lines that are numbered from `number` on. -/
def itemsFrom (number : Nat) : List (List UInt8) → List Item
  | [] => []
  | line :: rest =>
      match read number line with
      | .error e => [.error e]
      | .ok none => itemsFrom (number + 1) rest
      | .ok (some e) => .ok e :: itemsFrom (number + 1) rest

/-- The items of a file. -/
def items (bytes : List UInt8) : List Item :=
  itemsFrom 1 ((bytes.takeWhile (· ≠ 0)).splitOn lineFeed)

end FirmwareVars.Ini.Line
