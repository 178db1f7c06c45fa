import FirmwareVars.Text.Shapeless

/-!
# Quoted text

Log records show texts between double quotes.  A quote and a backslash get a
backslash in front.  Tab, line feed, carriage return and NUL have a letter of
their own, and other characters without a shape are spelled by their code point
in braces.  A single quote stands as it is.
-/

namespace FirmwareVars.Text

/-- The lowercase hex numeral of a number, without leading zeros. -/
def hexNumeral (n : Nat) : String := String.ofList (Nat.toDigits 16 n)

/-- A character as it stands between the quotes. -/
def quotedChar (c : Char) : String :=
  if c = '"' then "\\\""
  else if c = '\\' then "\\\\"
  else if c = '\t' then "\\t"
  else if c = '\n' then "\\n"
  else if c = '\r' then "\\r"
  else if c = '\x00' then "\\0"
  else if isShapeless c then "\\u\x7b" ++ hexNumeral c.toNat ++ "\x7d"
  else c.toString

/-- A text between quotes. -/
def quoted (s : String) : String :=
  "\"" ++ String.join (s.toList.map quotedChar) ++ "\""

/-- A list of texts in brackets. -/
def quotedList (texts : List String) : String :=
  "[" ++ ", ".intercalate (texts.map quoted) ++ "]"

/-- A text that may be missing. -/
def quotedOption : Option String → String
  | some s => "Some(" ++ quoted s ++ ")"
  | none => "None"

end FirmwareVars.Text
