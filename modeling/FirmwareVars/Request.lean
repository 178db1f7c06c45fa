import FirmwareVars.Format
import FirmwareVars.Guid.Text

/-!
# Requests

A `Request` is what the words after the command's name ask for: which variable
to read, in which format to show it, and where the value goes.  The words stand
in a fixed order, and nothing is read twice.

```text
[--set <env>] [<flag>] <name> [<guid>]
```

`parse` reads the words and ignores what follows the GUID.  `render` writes
them.
-/

namespace FirmwareVars

/-- What a command is asked for. -/
structure Request where
  /-- The name of the variable to read. -/
  name : String
  /-- The GUID text of its vendor, if one is given.  It is not checked yet. -/
  guidText : Option String := none
  /-- The format in which the variable is shown. -/
  format : Format := .standard
  /-- The environment variable that gets the value instead of the console. -/
  target : Option String := none
deriving DecidableEq, Repr

namespace Request

/-! ## Words -/

/-- The word that asks to store the value. -/
def setFlag : String := "--set"

/-- The words of a request, with its format spelled out. -/
def render (r : Request) : List String :=
  (r.target.map fun t => [setFlag, t]).getD [] ++ r.format.flag :: r.name :: r.guidText.toList

/-- The request that the words from the name on ask for.  `missing` is what is
wrong if there is no name. -/
def parseName (target : Option String) (format : Format) (missing : BadArgument) :
    List String → Except BadArgument Request
  | [] => .error missing
  | name :: rest => .ok { name, guidText := rest.head?, format, target }

/-- The request that the words from the flag on ask for. -/
def parseFormat (target : Option String) (missing : BadArgument) :
    List String → Except BadArgument Request
  | [] => .error missing
  | word :: rest =>
      match Format.ofFlag? word with
      | some format => parseName target format missing rest
      | none => parseName target .standard missing (word :: rest)

/-- The request that the words after the command's name ask for. -/
def parse : List String → Except BadArgument Request
  | [] => .error .usage
  | word :: rest =>
      if word = setFlag then
        match rest with
        | target :: next :: more => parseFormat (some target) .setUsage (next :: more)
        | _ => .error .setUsage
      else parseFormat none .usage (word :: rest)

/-! ## What is asked for -/

/-- The vendor of the variable to read. -/
def guid (r : Request) : Except BadArgument Guid :=
  match r.guidText with
  | none => .ok .globalVariable
  | some text =>
      match Guid.parse text with
      | .ok g => .ok g
      | .error _ => .error .guid

/-- Whether the firmware has a unit for each character of a name.  A zero unit
ends a name, so NUL has none. -/
def IsUcs2Name (name : String) : Prop := ∀ c ∈ name.toList, c ≠ '\x00' ∧ c.toNat ≤ 0xffff

instance (name : String) : Decidable (IsUcs2Name name) :=
  (List.decidableBAll _ name.toList :
    Decidable (∀ c ∈ name.toList, c ≠ '\x00' ∧ c.toNat ≤ 0xffff))

end Request

end FirmwareVars
