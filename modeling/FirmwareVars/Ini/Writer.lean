import FirmwareVars.Ini.Reader
import FirmwareVars.Text.Utf8

/-!
# Writing an ini file

`write` gives one line for each entry, with the value between quotes.  An entry
that is `Writable` reads back as it was, and a file gives no other entries.
-/

namespace FirmwareVars.Ini

namespace Entry

/-- Whether a line can hold an entry: the key is a word that starts with a
letter, and the value stays on the line and inside its quotes. -/
def Writable (e : Entry) : Prop :=
  e.key.head?.any isLetter ∧ (∀ b ∈ e.key, isLiteral b) ∧
    ∀ b ∈ e.value, b ≠ quoteMark ∧ b ≠ lineFeed ∧ b ≠ 0

instance (e : Entry) : Decidable e.Writable :=
  inferInstanceAs (Decidable (e.key.head?.any isLetter ∧ (∀ b ∈ e.key, isLiteral b) ∧
    ∀ b ∈ e.value, b ≠ quoteMark ∧ b ≠ lineFeed ∧ b ≠ 0))

/-- The line of an entry. -/
def line (e : Entry) : List UInt8 :=
  e.key ++ equalsSign :: quoteMark :: e.value ++ [quoteMark, lineFeed]

end Entry

/-- The file with these entries. -/
def write (entries : List Entry) : List UInt8 := entries.flatMap Entry.line

end FirmwareVars.Ini
