import FirmwareVars.Ini.Reader
import Mathlib.Data.PFun

/-!
# Reading an ini file by positions

A `Reader` holds what is left of a file.  It cannot leave the file, and it stops because what is
left gets shorter.  A `Scanner` holds a position instead, as one does who reads from a buffer, and
nothing of this is granted: `advance` goes on behind the end, a slice has any two ends, and a loop
says nothing of when it stops.

So a `Scan` may have no outcome.  That stands for a loop that never ends, and for bytes that are
asked for where there are none.  If it has one, that is what was read or an error, and in both
cases the head where it stopped.
-/

namespace FirmwareVars.Ini

/-- The part of a file that is read.  A NUL byte ends it. -/
def contents (bytes : List UInt8) : List UInt8 := bytes.takeWhile (· ≠ 0)

/-- The bytes from `start` up to `stop`, if both are in the text and in order. -/
def slice? (text : List UInt8) (start stop : Nat) : Option (List UInt8) :=
  if start ≤ stop ∧ stop ≤ text.length then some ((text.take stop).drop start) else none

/-- What a turn of a loop comes to. -/
inductive Turn (α : Type) where
  | again
  | done (a : α)

namespace Token

/-- Whether a token is the sign between key and value. -/
def assign? : Token → Option Unit
  | .assign => some ()
  | _ => none

/-- The value that a token is. -/
def value? : Token → Option (List UInt8)
  | .literal bytes => some bytes
  | .quoted bytes => some bytes
  | _ => none

/-- Whether a line ends with a token. -/
def lineEnd? : Token → Option Unit
  | .endOfLine => some ()
  | .endOfInput => some ()
  | _ => none

end Token

/-- A position in a text, which may be outside of it, and its place. -/
structure Head where
  pos : Nat := 0
  location : Location := {}
deriving DecidableEq, Repr

/-- A way to read from a head on. -/
abbrev Scan := ExceptT Error (StateT Head Part)

namespace Scan

/-- The outcome of a scan from a head, if there is one. -/
def run {α : Type} (x : Scan α) (h : Head) : Part (Except Error α × Head) :=
  StateT.run (ExceptT.run x) h

/-- What is asked for, which has to be there. -/
def ask {α : Type} : Option α → Scan α
  | some a => return a
  | none => ExceptT.mk fun _ => .none

/-- Takes turns until one of them is done or fails. -/
def loop {α : Type} (turn : Scan (Turn α)) : Scan α :=
  ExceptT.mk <| PFun.fix fun h => (turn.run h).map fun
    | (.ok .again, last) => .inr last
    | (.ok (.done a), last) => .inl (.ok a, last)
    | (.error e, last) => .inl (.error e, last)

variable (text : List UInt8)

/-! ## Bytes -/

/-- The byte at the head.  There is none at the end of the text. -/
def peek : Scan (Option UInt8) := do return text[(← get).pos]?

/-- Moves the head over a byte. -/
def advance : Scan Unit := do
  let ⟨pos, ⟨line, column⟩⟩ ← get
  if (← peek text) = some lineFeed then set (Head.mk (pos + 1) ⟨line + 1, 1⟩)
  else set (Head.mk (pos + 1) ⟨line, column + 1⟩)

/-- Moves the head over the bytes that satisfy `p`. -/
def pass (p : UInt8 → Bool) : Scan Unit := loop do
  match ← peek text with
  | none => return .done ()
  | some b =>
      if p b then
        advance text
        return .again
      else return .done ()

/-- Moves the head over blanks and comments. -/
def passBlanks : Scan Unit := loop do
  match ← peek text with
  | none => return .done ()
  | some b =>
      if b = hashMark then
        pass text (· ≠ lineFeed)
        return .again
      else if isBlank b then
        advance text
        return .again
      else return .done ()

/-- The bytes from `start` up to the head, cut out of the text. -/
def cut (start : Nat) : Scan (List UInt8) := do
  ask (slice? text start (← get).pos)

/-! ## Tokens -/

/-- The quoted bytes that start at the head.  `start` is the place of the opening quote. -/
def quotedFrom (start : Location) : Scan (Location × Token) := do
  let first := (← get).pos
  pass text fun b => b ≠ quoteMark && b ≠ lineFeed
  if (← peek text) = some quoteMark then
    let bytes ← cut text first
    advance text
    return (start, .quoted bytes)
  else throw (.unmatchedQuote start)

/-- The token at the head, with the place of its first byte. -/
def tokenHere : Scan (Location × Token) := do
  let start := (← get).location
  match ← peek text with
  | none => return (start, .endOfInput)
  | some b =>
      if b = lineFeed then
        advance text
        return (start, .endOfLine)
      else if b = equalsSign then
        advance text
        return (start, .assign)
      else if b = quoteMark then
        advance text
        quotedFrom text start
      else if isLiteral b then
        let first := (← get).pos
        pass text isLiteral
        return (start, .literal (← cut text first))
      else throw (.unexpectedToken start)

/-- The next token, with the place of its first byte. -/
def token : Scan (Location × Token) := do
  passBlanks text
  tokenHere text

/-- What the next token stands for, if it stands for something here. -/
def expect {α : Type} (meaning : Token → Option α) (error : Location → Error) : Scan α := do
  let (location, token) ← token text
  match meaning token with
  | some a => return a
  | none => throw (error location)

/-! ## Entries -/

/-- The key of the next line that is not blank.  There is none at the end of the text. -/
def key? : Scan (Option (List UInt8)) := loop do
  match ← token text with
  | (_, .endOfInput) => return .done none
  | (_, .endOfLine) => return .again
  | (location, .literal word) =>
      if isLetter (← ask word[0]?) then return .done (some word)
      else throw (.invalidKeyName location)
  | (location, _) => throw (.unexpectedToken location)

/-- What follows a key on its line. -/
def afterKey (key : List UInt8) : Scan Entry := do
  expect text Token.assign? .expectedAssign
  let value ← expect text Token.value? .expectedValue
  expect text Token.lineEnd? .unexpectedToken
  return ⟨key, value⟩

/-- The next entry.  There is none at the end of the text. -/
def nextEntry : Scan (Option Entry) := do
  match ← key? text with
  | none => return none
  | some key => return some (← afterKey text key)

end Scan

/-- The reading of a text by positions, somewhere on the way. -/
structure Scanner where
  head : Head := {}
  /-- Whether an error has been given. -/
  failed : Bool := false
deriving DecidableEq, Repr

namespace Scanner

variable (text : List UInt8)

/-- The next item, if there is one, and the scanner after it. -/
def next (s : Scanner) : Part (Option Item × Scanner) :=
  if s.failed then .some (none, s)
  else do
    match ← (Scan.nextEntry text).run s.head with
    | (.error e, h) => return (some (.error e), ⟨h, true⟩)
    | (.ok none, h) => return (none, ⟨h, false⟩)
    | (.ok (some e), h) => return (some (.ok e), ⟨h, false⟩)

/-- What the first `n` calls of `next` give, with the scanner after them. -/
def calls : Nat → Scanner → Part (List (Option Item) × Scanner)
  | 0, s => .some ([], s)
  | n + 1, s => do
      let (item, s) ← s.next text
      let (items, s) ← calls n s
      return (item :: items, s)

end Scanner

end FirmwareVars.Ini
