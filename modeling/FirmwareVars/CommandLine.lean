import FirmwareVars.Text.Blank

/-!
# Command lines

A command line is cut into words as the shell does it.  White space separates
words.  Double quotes take it into a word and are dropped themselves, so a pair
of quotes with nothing in it is an empty word.  A caret takes the next character
as it is, inside quotes and outside.

`split` reads the line once.  `marks` and `wordsOf` say the same in two stages:
first what each character stands for, then where the words end.  `quoted` writes
words so that `split` reads them back.
-/

namespace FirmwareVars.CommandLine

/-! ## One pass -/

/-- The words of the rest of a line.  `word` holds the characters of the word
that has begun, latest first, and is `none` between words. -/
def splitFrom (inQuotes : Bool) (word : Option (List Char)) : List Char → List String
  | [] => (word.map fun w => String.ofList w.reverse).toList
  | ['^'] => [String.ofList ('^' :: word.getD []).reverse]
  | '^' :: c :: rest => splitFrom inQuotes (some (c :: word.getD [])) rest
  | '"' :: rest => splitFrom (!inQuotes) (some (word.getD [])) rest
  | c :: rest =>
      if Text.isBlank c && !inQuotes then
        (word.map fun w => String.ofList w.reverse).toList ++ splitFrom inQuotes none rest
      else splitFrom inQuotes (some (c :: word.getD [])) rest

/-- The words of a line. -/
def split (line : String) : List String := splitFrom false none line.toList

/-! ## Two stages -/

/-- What a character of a line stands for. -/
inductive Mark where
  /-- A character of a word. -/
  | literal (c : Char)
  /-- The start or the end of quotes. -/
  | quote
  /-- White space outside quotes. -/
  | separator
deriving DecidableEq, Repr

/-- The marks of a line, starting inside quotes or outside. -/
def marks (inQuotes : Bool) : List Char → List Mark
  | [] => []
  | ['^'] => [.literal '^']
  | '^' :: c :: rest => .literal c :: marks inQuotes rest
  | '"' :: rest => .quote :: marks (!inQuotes) rest
  | c :: rest =>
      (if Text.isBlank c && !inQuotes then .separator else .literal c) :: marks inQuotes rest

/-- The character of a literal. -/
def Mark.char? : Mark → Option Char
  | .literal c => some c
  | _ => none

/-- The words of a list of marks: the pieces between separators that hold a
mark, each as its literals. -/
def wordsOf (ms : List Mark) : List String :=
  ((ms.splitOnP (· == .separator)).filter fun piece => !piece.isEmpty).map fun piece =>
    String.ofList (piece.filterMap Mark.char?)

/-! ## Writing -/

/-- A word between quotes, with a caret before each quote and caret in it. -/
def quotedWord (word : String) : String :=
  "\"" ++ String.ofList (word.toList.flatMap fun c => if c = '"' ∨ c = '^' then ['^', c] else [c])
    ++ "\""

/-- A line that holds these words. -/
def quoted (words : List String) : String := " ".intercalate (words.map quotedWord)

end FirmwareVars.CommandLine
