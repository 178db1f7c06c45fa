import FirmwareVars.Command
import FirmwareVars.CommandLine
import FirmwareVars.Table

/-!
# Sessions

A session runs commands on variables and an environment that are kept in memory.
Between the commands, variables are set and deleted, and readings are made to
fail.

The environment lasts over the steps of a session.  The variables read and the
values printed are those of the latest step.
-/

namespace FirmwareVars

/-- What a session keeps. -/
structure Session where
  /-- What reading each variable gives. -/
  readings : Table Key (Except Status (List UInt8)) := {}
  /-- The values stored under the names of the environment. -/
  environment : Table String Value := {}
  /-- The variables read in the latest step. -/
  lookups : List Key := []
  /-- The values printed in the latest step. -/
  lines : List Value := []
  /-- The memory that the commands run in. -/
  memory : Memory := {}

namespace Session

instance : Host Session where
  lookup s key :=
    ((s.readings.find? key).getD (.error .notFound), { s with lookups := s.lookups ++ [key] })
  store s name value := { s with environment := s.environment.insert name value }
  print s value := { s with lines := s.lines ++ [value] }
  record s _ := s

/-- A step of a session. -/
inductive Step where
  /-- Sets a variable. -/
  | put (key : Key) (data : List UInt8)
  /-- Makes the reading of a variable fail. -/
  | fail (key : Key) (status : Status)
  | delete (key : Key)
  /-- Runs the command with the words after its name. -/
  | run (words : List String)
  /-- Runs a command line, which starts with the command's name. -/
  | line (text : String)
  | execute (request : Request)
deriving Repr

/-- The outcome of a step and the session after it. -/
def step (s : Session) (st : Step) : Except Error Unit × Session :=
  let s := { s with lookups := [], lines := [] }
  match st with
  | .put key data => (.ok (), { s with readings := s.readings.insert key (.ok data) })
  | .fail key status => (.ok (), { s with readings := s.readings.insert key (.error status) })
  | .delete key => (.ok (), { s with readings := s.readings.erase key })
  | .run words => Command.run words s.memory s
  | .line text => Command.run ((CommandLine.split text).drop 1) s.memory s
  | .execute request => request.execute s.memory s

/-- The environment in the order of the names. -/
def environmentList (s : Session) : List (String × Value) :=
  s.environment.entries.mergeSort fun a b => decide (a.1 ≤ b.1)

end Session

end FirmwareVars
