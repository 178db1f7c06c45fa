import FirmwareVars.Command

/-!
# Transcripts

A run of the program is a list of events in order: records, the value that is
printed, and the error it ends with.  What the consoles show follows from the
events and the setup of the log.  Values go to one console and errors to the
other, and records to the one that the setup names.

A console starts a new line with a carriage return and a line feed.
-/

namespace FirmwareVars

/-- Something that a run writes. -/
inductive Event where
  /-- A record for the log. -/
  | record (r : Log.Record)
  /-- A value on a line of its own. -/
  | value (v : Value)
  /-- The error that the run ends with. -/
  | failure (e : Error)
deriving DecidableEq, Repr

namespace Event

/-- The text of an error, after the line that presents the command if the
arguments are to blame. -/
def failureText : Error → String
  | .badArgument cause => Command.help ++ "\n" ++ Command.name ++ ": " ++ cause.message ++ "\n"
  | e => Command.name ++ ": " ++ e.message ++ "\n"

/-- What an event writes to a console. -/
def textOn (log : Log.Setup) (c : Console) : Event → String
  | .record r =>
      if log.device = some c ∧ log.Admits r.level then r.line log.showPlace else ""
  | .value v => if c = .out then v.display ++ "\n" else ""
  | .failure e => if c = .err then failureText e else ""

end Event

/-- A text as a console takes it: each line feed after a carriage return. -/
def Console.newlines (s : String) : String :=
  String.ofList (s.toList.flatMap fun c => if c = '\n' then ['\r', '\n'] else [c])

/-- What a console shows after some events. -/
def Console.text (c : Console) (log : Log.Setup) (events : List Event) : String :=
  Console.newlines (String.join (events.map (Event.textOn log c)))

end FirmwareVars
