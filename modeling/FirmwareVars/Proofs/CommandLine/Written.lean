import FirmwareVars.CommandLine

/-!
# Written words read back

There are many ways to write a word on a line.  A character stands for itself or comes after a
caret, and quotes may start and end anywhere in the word (`Writes`).  All that has to hold is
that white space stands in quotes or after a caret, that quotes and carets stand after a caret,
and that an empty word has quotes at all.

From every line of words with white space around them, however each is written, `split` gives
the words back (`split_of_writesLine`).

One character of a line has one of four effects on the word that is being read, and each of
them is an equation of `splitFrom`.  What writes a word then adds its characters to the word
that has begun, and white space ends it.
-/

namespace FirmwareVars.CommandLine

/-! ## One character -/

section Character

variable (inQuotes : Bool) (word : Option (List Char)) {c : Char} (rest : List Char)

theorem splitFrom_caret :
    splitFrom inQuotes word ('^' :: c :: rest) =
      splitFrom inQuotes (some (c :: word.getD [])) rest := by
  rw [splitFrom]

theorem splitFrom_quote :
    splitFrom inQuotes word ('"' :: rest) = splitFrom (!inQuotes) (some (word.getD [])) rest := by
  rw [splitFrom]

/-- A character that is no quote and no caret stands for itself, white space only inside
quotes. -/
theorem splitFrom_plain (quote : c ≠ '"') (caret : c ≠ '^') (blank : Text.isBlank c → inQuotes) :
    splitFrom inQuotes word (c :: rest) = splitFrom inQuotes (some (c :: word.getD [])) rest := by
  rw [splitFrom.eq_5 inQuotes word c rest (fun h => absurd h caret) (fun _ _ h => absurd h caret)
    quote, if_neg]
  simpa using blank

theorem splitFrom_blank (blank : Text.isBlank c) :
    splitFrom false word (c :: rest) =
      (word.map fun w => String.ofList w.reverse).toList ++ splitFrom false none rest := by
  have quote : c ≠ '"' := by
    rintro rfl
    exact absurd blank (by decide)
  have caret : c ≠ '^' := by
    rintro rfl
    exact absurd blank (by decide)
  rw [splitFrom.eq_5 false word c rest (fun h => absurd h caret) (fun _ _ h => absurd h caret)
    quote, if_pos (by simp [blank])]

end Character

/-! ## Words -/

/-- Whether a text writes these characters of a word, from inside quotes or from outside.  The
text ends outside. -/
inductive Writes : Bool → List Char → List Char → Prop
  /-- Nothing is left to write. -/
  | done : Writes false [] []
  /-- A character as it is, white space only inside quotes. -/
  | plain {inQuotes : Bool} {c : Char} {cs text : List Char} :
      c ≠ '"' → c ≠ '^' → (Text.isBlank c → inQuotes) → Writes inQuotes cs text →
        Writes inQuotes (c :: cs) (c :: text)
  /-- Any character after a caret. -/
  | caret {inQuotes : Bool} (c : Char) {cs text : List Char} :
      Writes inQuotes cs text → Writes inQuotes (c :: cs) ('^' :: c :: text)
  /-- Quotes start or end. -/
  | quote {inQuotes : Bool} {cs text : List Char} :
      Writes (!inQuotes) cs text → Writes inQuotes cs ('"' :: text)

/-- Whether a text writes a word.  The word may be empty, but not the text: an empty word is
written with quotes. -/
structure IsWritten (word text : String) : Prop where
  writes : Writes false word.toList text.toList
  ne_empty : text ≠ ""

/-- What is written is added to the word that has begun. -/
theorem splitFrom_writes {inQuotes : Bool} {cs text : List Char} (h : Writes inQuotes cs text)
    (w rest : List Char) :
    splitFrom inQuotes (some w) (text ++ rest) =
      splitFrom false (some (cs.reverse ++ w)) rest := by
  induction h generalizing w with
  | done => rfl
  | plain quote caret blank _ ih =>
    rw [List.cons_append, splitFrom_plain _ _ _ quote caret blank, Option.getD_some, ih,
      List.reverse_cons, List.append_assoc, List.singleton_append]
  | caret c _ ih =>
    rw [List.cons_append, List.cons_append, splitFrom_caret, Option.getD_some, ih,
      List.reverse_cons, List.append_assoc, List.singleton_append]
  | quote _ ih => rw [List.cons_append, splitFrom_quote, Option.getD_some, ih]

/-- The first character that is written begins a word. -/
theorem splitFrom_begins {inQuotes : Bool} {cs text : List Char} (h : Writes inQuotes cs text)
    (ne_nil : text ≠ []) (rest : List Char) :
    splitFrom inQuotes none (text ++ rest) = splitFrom inQuotes (some []) (text ++ rest) := by
  cases h with
  | done => exact absurd rfl ne_nil
  | plain quote caret blank _ =>
    rw [List.cons_append, splitFrom_plain _ _ _ quote caret blank,
      splitFrom_plain _ _ _ quote caret blank]
    rfl
  | caret c _ =>
    rw [List.cons_append, List.cons_append, splitFrom_caret, splitFrom_caret]
    rfl
  | quote _ =>
    rw [List.cons_append, splitFrom_quote, splitFrom_quote]
    rfl

theorem IsWritten.splitFrom_eq {word text : String} (h : IsWritten word text)
    (rest : List Char) :
    splitFrom false none (text.toList ++ rest) =
      splitFrom false (some word.toList.reverse) rest := by
  have ne_nil : text.toList ≠ [] := fun empty => h.ne_empty (String.toList_eq_nil_iff.mp empty)
  rw [splitFrom_begins h.writes ne_nil, splitFrom_writes h.writes, List.append_nil]

/-! ## White space -/

/-- White space between two words. -/
structure IsGap (gap : String) : Prop where
  ne_empty : gap ≠ ""
  blank : ∀ c ∈ gap.toList, Text.isBlank c

instance (gap : String) : Decidable (IsGap gap) :=
  decidable_of_iff (gap ≠ "" ∧ gap.toList.all Text.isBlank)
    ⟨fun h => ⟨h.1, List.all_eq_true.mp h.2⟩,
      fun h => ⟨h.ne_empty, List.all_eq_true.mpr h.blank⟩⟩

theorem splitFrom_blanks {gap : List Char} (blank : ∀ c ∈ gap, Text.isBlank c)
    (rest : List Char) : splitFrom false none (gap ++ rest) = splitFrom false none rest := by
  induction gap with
  | nil => rfl
  | cons c gap ih =>
      rw [List.forall_mem_cons] at blank
      rw [List.cons_append, splitFrom_blank _ _ blank.1, ih blank.2]
      rfl

/-- White space ends the word that has begun. -/
theorem splitFrom_gap {gap : String} (h : IsGap gap) (w rest : List Char) :
    splitFrom false (some w) (gap.toList ++ rest) =
      String.ofList w.reverse :: splitFrom false none rest := by
  have blank := h.blank
  cases hg : gap.toList with
  | nil => exact absurd (String.toList_eq_nil_iff.mp hg) h.ne_empty
  | cons c more =>
      rw [hg, List.forall_mem_cons] at blank
      rw [List.cons_append, splitFrom_blank _ _ blank.1, splitFrom_blanks blank.2]
      rfl

/-- So does the end of the line, also after white space. -/
theorem splitFrom_trail {trail : List Char} (blank : ∀ c ∈ trail, Text.isBlank c)
    (w : List Char) : splitFrom false (some w) trail = [String.ofList w.reverse] := by
  cases trail with
  | nil => rfl
  | cons c more =>
    rw [List.forall_mem_cons] at blank
    have rest := splitFrom_blanks blank.2 []
    rw [List.append_nil] at rest
    rw [splitFrom_blank _ _ blank.1, rest]
    rfl

/-! ## A line -/

/-- Whether a text writes these words one after another, with white space between them. -/
inductive WritesWords : List String → String → Prop
  | none : WritesWords [] ""
  | one {w text : String} : IsWritten w text → WritesWords [w] text
  | more {w text gap v : String} {ws : List String} {line : String} :
      IsWritten w text → IsGap gap → WritesWords (v :: ws) line →
        WritesWords (w :: v :: ws) (text ++ gap ++ line)

/-- Whether a line writes these words, with any white space before and after them. -/
inductive WritesLine (ws : List String) : String → Prop
  | blanks {lead text trail : String} :
      (∀ c ∈ lead.toList, Text.isBlank c) → WritesWords ws text →
        (∀ c ∈ trail.toList, Text.isBlank c) → WritesLine ws (lead ++ text ++ trail)

theorem splitFrom_of_writesWords {ws : List String} {text : String} (h : WritesWords ws text)
    {trail : List Char} (blank : ∀ c ∈ trail, Text.isBlank c) :
    splitFrom false none (text.toList ++ trail) = ws := by
  induction h with
  | none =>
    rw [String.toList_empty, List.nil_append, ← List.append_nil trail, splitFrom_blanks blank]
    rfl
  | one written =>
    rw [written.splitFrom_eq, splitFrom_trail blank, List.reverse_reverse, String.ofList_toList]
  | more written gap _ ih =>
    rw [String.toList_append, String.toList_append, List.append_assoc, List.append_assoc,
      written.splitFrom_eq, splitFrom_gap gap, ih, List.reverse_reverse, String.ofList_toList]

/-- Words are read back from every line that writes them. -/
theorem split_of_writesLine {ws : List String} {line : String} (h : WritesLine ws line) :
    split line = ws := by
  cases h with
  | blanks lead words trail =>
    rw [split, String.toList_append, String.toList_append, List.append_assoc,
      splitFrom_blanks lead, splitFrom_of_writesWords words trail]

/-- Quotes that end within a word, an empty word of two pairs of quotes, and carets before
characters that end nothing then. -/
theorem split_of_writesLine_mixed :
    let ws := ["a b", "", "^ \""]
    let line := "\t" ++ ("a\" \"^b\"\"" ++ "\u3000" ++
      ("\"\"\"\"" ++ " \n" ++ "\"^^\"^ ^\"")) ++ " "
    WritesLine ws line ∧ split line = ws := by
  intro ws line
  have first : IsWritten "a b" "a\" \"^b\"\"" := by
    refine ⟨?_, by decide⟩
    exact .plain (by decide) (by decide) (by decide) <| .quote <|
      .plain (by decide) (by decide) (fun _ => rfl) <| .quote <| .caret 'b' <| .quote <|
      .quote .done
  have second : IsWritten "" "\"\"\"\"" := ⟨.quote <| .quote <| .quote <| .quote .done, by decide⟩
  have third : IsWritten "^ \"" "\"^^\"^ ^\"" :=
    ⟨.quote <| .caret '^' <| .quote <| .caret ' ' <| .caret '"' .done, by decide⟩
  have lead : ∀ c ∈ "\t".toList, Text.isBlank c := List.all_eq_true.mp (by decide)
  have trail : ∀ c ∈ " ".toList, Text.isBlank c := List.all_eq_true.mp (by decide)
  have written : WritesLine ws line :=
    .blanks lead (.more first (by decide) (.more second (by decide) (.one third))) trail
  exact ⟨written, split_of_writesLine written⟩

end FirmwareVars.CommandLine
