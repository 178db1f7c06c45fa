import FirmwareVars.Firmware.Variable
import FirmwareVars.Log.Shown
import FirmwareVars.Request

/-!
# The command

The command reads one variable and prints its value or stores it.  It needs a
`Host` for that: something that reads variables, keeps an environment, prints
lines and takes log records.

`execute` checks the request before it asks for anything, so a malformed request
reaches no variable.  A value is delivered once, and only when nothing failed.  The
room for a value comes from the `Memory` that the command runs in.
-/

namespace FirmwareVars

/-- What the surroundings of a command can do, where `σ` is their state. -/
class Host (σ : Type) where
  /-- The bytes of a variable, or the status of the failed reading. -/
  lookup : σ → Key → Except Status (List UInt8) × σ
  /-- Stores a value under a name of the environment. -/
  store : σ → String → Value → σ
  /-- Prints a value on a line of its own. -/
  print : σ → Value → σ
  /-- Takes a log record. -/
  record : σ → Log.Record → σ

/-- The host after some records. -/
def Host.recordAll {σ : Type} [Host σ] (host : σ) (rs : List Log.Record) : σ :=
  rs.foldl Host.record host

namespace Request

/-- The variable to read.  The GUID is checked first, then the name and the
target. -/
def key (r : Request) : Except BadArgument Key :=
  match r.guid with
  | .error cause => .error cause
  | .ok guid =>
      if IsUcs2Name r.name ∧ ∀ t ∈ r.target, IsUcs2Name t then .ok ⟨r.name, guid⟩
      else .error .name

/-- Hands a value to the place the request wants it at. -/
def deliver {σ : Type} [Host σ] (r : Request) (value : Value) (host : σ) : σ :=
  match r.target with
  | some target => Host.store host target value
  | none => Host.print host value

/-- The records about a buffer that is shown. -/
def records (r : Request) (memory : Memory) (buffer : List UInt8) : List Log.Record :=
  Log.formatting r buffer.length ::
    if r.format = .text ∧ ¬ memory.Holds (Value.utf16Length buffer) then
      [Log.noRoom (Value.utf16Length buffer)]
    else []

/-- Carries out a request. -/
def execute {σ : Type} [Host σ] (r : Request) (memory : Memory) (host : σ) :
    Except Error Unit × σ :=
  match r.key with
  | .error cause => (.error (.badArgument cause), host)
  | .ok key =>
      match Host.lookup host key with
      | (.error status, host) => (.error (.lookupFailure status), host)
      | (.ok buffer, host) =>
          let host := Host.recordAll host (r.records memory buffer)
          match r.format.apply buffer memory with
          | .error e => (.error e, host)
          | .ok value => (.ok (), r.deliver value host)

end Request

namespace Command

/-- The name of the command. -/
def name : String := "efivar"

/-- What the command does, in a sentence. -/
def summary : String :=
  "Read an EFI variable and print it or store it in an environment variable."

/-- How the command is used. -/
def usage : String := BadArgument.usage.message

/-- The line that presents the command. -/
def help : String := name ++ " - " ++ summary

/-- Runs the command with the words after its name. -/
def run {σ : Type} [Host σ] (words : List String) (memory : Memory) (host : σ) :
    Except Error Unit × σ :=
  match Request.parse words with
  | .error cause => (.error (.badArgument cause), host)
  | .ok r => r.execute memory (Host.record host (Log.parsed r))

end Command

end FirmwareVars
