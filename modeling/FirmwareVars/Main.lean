import FirmwareVars.Application.Run

/-!
# The program

Runs the command with the words of its command line.  The variables are read
from standard input, an ini file with a line `name = digits` for each variable
of the firmware's own vendor.  The digits are the bytes in hex.
-/

namespace FirmwareVars

/-- The attributes of a variable that is given on standard input. -/
def givenAttributes : Attributes := ⟨0x6⟩

/-- The variables with one more, if the entry spells its bytes. -/
def addGiven (store : Store) (e : Ini.Entry) : Store :=
  match Utf8.text? e.key, Hex.decode (e.value.length / 2) e.value with
  | some name, .ok data =>
      store.insert ⟨name, .globalVariable⟩ (.ok ⟨data, givenAttributes⟩)
  | _, _ => store

/-- The variables that a text lists. -/
def givenStore (text : String) : Store :=
  (Ini.items (Utf8.encode text)).foldl
    (fun store item => item.toOption.elim store (addGiven store)) {}

/-- The launch with the words of a command line. -/
def launchOf (words : List String) : Launch :=
  { arguments := .ofShell (Command.name :: words) }

end FirmwareVars

/-- All that is left on a stream. -/
partial def readRest (stream : IO.FS.Stream) (read : String) : IO String := do
  let line ← stream.getLine
  if line.isEmpty then return read else readRest stream (read ++ line)

/-- Runs the command and ends with zero if it succeeded. -/
def main (words : List String) : IO UInt32 := do
  let store := FirmwareVars.givenStore (← readRest (← IO.getStdin) "")
  let outcome := (FirmwareVars.launchOf words).run store
  IO.print (outcome.text .out)
  IO.eprint (outcome.text .err)
  return if outcome.status = .success then 0 else 1
