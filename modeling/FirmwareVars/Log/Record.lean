/-!
# Log records

A record is a message with a severity and the part of the program it comes from.
Written out it is one line.

```text
[LEVEL  ][part] message
```

The logger has a level and a device.  It writes the records that are at least as
severe as its level, all to one console, or to none at all.
-/

namespace FirmwareVars

/-- The two consoles of the firmware. -/
inductive Console where
  /-- The console for values. -/
  | out
  /-- The console for errors. -/
  | err
deriving DecidableEq, Repr

namespace Log

/-- The severity of a record. -/
inductive Level where
  | error
  | warn
  | info
  | debug
  | trace
deriving DecidableEq, Repr

/-- The place of a level in the order of severity, the most severe first. -/
def Level.rank : Level → Nat
  | .error => 1
  | .warn => 2
  | .info => 3
  | .debug => 4
  | .trace => 5

/-- The name of a level, padded to seven characters. -/
def Level.label : Level → String
  | .error => "ERROR  "
  | .warn => "WARN   "
  | .info => "INFO   "
  | .debug => "DEBUG  "
  | .trace => "TRACE  "

/-- The part of the program that a record comes from. -/
inductive Source where
  /-- The start and the end of a run. -/
  | program
  /-- The calls to the firmware. -/
  | firmware
  /-- The making of buffers for what the firmware returns. -/
  | buffer
  /-- The reading of the arguments. -/
  | request
  /-- The carrying out of a request. -/
  | command
  /-- The making of text from units. -/
  | text
deriving DecidableEq, Repr

/-- The path that a record shows for its source. -/
def Source.path : Source → String
  | .program => "efivar"
  | .firmware => "efivar::firmware"
  | .buffer => "uefi::mem::util"
  | .request => "efivar_core::request"
  | .command => "efivar_core::command"
  | .text => "efivar_core::utf16"

/-- A message for the log. -/
structure Record where
  level : Level
  /-- The part of the program it comes from. -/
  source : Source
  message : String
deriving DecidableEq, Repr

/-- What stands for the place in the program where a record is made. -/
def place : String := "FILE@LINE"

/-- The line of a record, with the place it is made at if that is wanted. -/
def Record.line (withPlace : Bool) (r : Record) : String :=
  "[" ++ r.level.label ++ "][" ++ r.source.path ++ (if withPlace then " " ++ place else "") ++
    "] " ++ r.message ++ "\n"

/-- What the logger writes, and where. -/
structure Setup where
  /-- The console that gets the records, if any does. -/
  device : Option Console := some .err
  /-- The least severe level that is written. -/
  level : Level := .warn
  /-- Whether a line shows the place of its record. -/
  showPlace : Bool := false
deriving DecidableEq, Repr

/-- Whether the logger writes records of this level. -/
def Setup.Admits (s : Setup) (level : Level) : Prop := level.rank ≤ s.level.rank

instance (s : Setup) (level : Level) : Decidable (s.Admits level) :=
  inferInstanceAs (Decidable (level.rank ≤ s.level.rank))

end Log

end FirmwareVars
