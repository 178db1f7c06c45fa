import FirmwareVars.Proofs.CommandLine.Written

/-!
# Quoted words read back

A line `Quotes` words if each stands between quotes in it, with white space between them.
This is one way to write the words (`Quotes.writesWords`), so `split` gives them back
(`split_of_quotes`), whatever characters they have.
-/

namespace FirmwareVars.CommandLine

/-! ## One word -/

/-- The characters of a word between its quotes. -/
def escaped (cs : List Char) : List Char :=
  cs.flatMap fun c => if c = '"' ∨ c = '^' then ['^', c] else [c]

/-- Between quotes only quotes and carets need a caret. -/
theorem writes_escaped (cs : List Char) : Writes true cs (escaped cs ++ ['"']) := by
  induction cs with
  | nil => exact .quote .done
  | cons c cs ih =>
      rw [escaped, List.flatMap_cons]
      by_cases marked : c = '"' ∨ c = '^'
      · rw [if_pos marked]
        exact .caret c ih
      · rw [if_neg marked]
        rw [not_or] at marked
        exact .plain marked.1 marked.2 (fun _ => rfl) ih

theorem toList_quotedWord (w : String) :
    (quotedWord w).toList = '"' :: escaped w.toList ++ ['"'] := by
  simp only [quotedWord, String.toList_append, String.toList_ofList]
  rfl

theorem isWritten_quotedWord (w : String) : IsWritten w (quotedWord w) where
  writes := by
    rw [toList_quotedWord]
    exact .quote (writes_escaped w.toList)
  ne_empty := by
    rw [Ne, ← String.toList_eq_nil_iff, toList_quotedWord]
    exact nofun

/-! ## A line -/

/-- Whether a line holds these words, each between quotes and with a caret before each quote
and caret in it, and white space between them. -/
inductive Quotes : List String → String → Prop
  | none : Quotes [] ""
  | one (w : String) : Quotes [w] (quotedWord w)
  | more (w : String) {gap : String} {v : String} {ws : List String} {line : String} :
      IsGap gap → Quotes (v :: ws) line → Quotes (w :: v :: ws) (quotedWord w ++ gap ++ line)

theorem Quotes.writesWords {ws : List String} {line : String} (h : Quotes ws line) :
    WritesWords ws line := by
  induction h with
  | none => exact .none
  | one w => exact .one (isWritten_quotedWord w)
  | more w gap _ ih => exact .more (isWritten_quotedWord w) gap ih

/-- Words between quotes are read back. -/
theorem split_of_quotes {ws : List String} {line : String} (h : Quotes ws line) :
    split line = ws := by
  have read := splitFrom_of_writesWords h.writesWords (List.forall_mem_nil _)
  rwa [List.append_nil] at read

end FirmwareVars.CommandLine
