import FirmwareVars.CommandLine
import Mathlib.Algebra.Group.Nat.Even
import Mathlib.Data.List.Basic

/-!
# The marks of a line

A line is split by what its characters stand for (`split_eq_wordsOf`).  Each word is a piece
between separators, without the quotes in it.

Reading once keeps the word that has begun, and what is kept is known from the marks of the
piece that has been read so far (`begun`).  So one pass from the middle of a piece gives the
words of that piece and the marks to come (`splitFrom_begun`).

Quotes start and end in turn, and a separator stands outside (`even_quotes`).
-/

namespace FirmwareVars.CommandLine

/-! ## Pieces -/

/-- The characters of the literals among marks. -/
def literals (ms : List Mark) : List Char := ms.filterMap Mark.char?

/-- The pieces between separators that hold a mark. -/
def pieces (ms : List Mark) : List (List Mark) :=
  (ms.splitOnP (· == .separator)).filter fun piece => !piece.isEmpty

theorem wordsOf_eq (ms : List Mark) :
    wordsOf ms = (pieces ms).map fun piece => String.ofList (literals piece) :=
  rfl

theorem literals_append (before after : List Mark) :
    literals (before ++ after) = literals before ++ literals after :=
  List.filterMap_append

/-- A separator is in no piece. -/
theorem pieces_separator (before after : List Mark) :
    pieces (before ++ .separator :: after) = pieces before ++ pieces after := by
  rw [pieces, List.splitOnP_append_cons before after rfl, List.filter_append, pieces, pieces]

/-- Marks without a separator are one piece. -/
theorem pieces_unbroken {piece : List Mark} (unbroken : .separator ∉ piece) (h : piece ≠ []) :
    pieces piece = [piece] := by
  have single : piece.splitOnP (· == .separator) = [piece] := by
    apply List.splitOnP_eq_singleton
    intro m hm
    apply beq_false_of_ne
    rintro rfl
    exact unbroken hm
  rw [pieces, single]
  simpa using h

/-- Marks have no separator, or a last one. -/
theorem exists_last_separator (ms : List Mark) :
    ∃ piece, .separator ∉ piece ∧ (ms = piece ∨ ∃ before, ms = before ++ .separator :: piece) := by
  induction ms with
  | nil => exact ⟨[], List.not_mem_nil, Or.inl rfl⟩
  | cons m ms ih =>
    obtain ⟨piece, unbroken, rfl | ⟨before, rfl⟩⟩ := ih
    · by_cases separator : m = .separator
      · exact ⟨ms, unbroken, Or.inr ⟨[], by rw [separator, List.nil_append]⟩⟩
      · exact ⟨m :: ms, by simp [unbroken, Ne.symm separator], Or.inl rfl⟩
    · exact ⟨piece, unbroken, Or.inr ⟨m :: before, rfl⟩⟩

/-- Marks grow from a piece by a separator and a piece at a time. -/
@[elab_as_elim]
theorem separated_induction {motive : List Mark → Prop}
    (piece : ∀ piece, .separator ∉ piece → motive piece)
    (more : ∀ before piece, .separator ∉ piece → motive before →
      motive (before ++ .separator :: piece)) (ms : List Mark) : motive ms := by
  obtain ⟨last, unbroken, alone | ⟨before, joined⟩⟩ := exists_last_separator ms
  · rw [alone]
    exact piece last unbroken
  · rw [joined]
    exact more before last unbroken (separated_induction piece more before)
termination_by ms.length
decreasing_by
  rw [joined, List.length_append, List.length_cons]
  omega

theorem separator_not_mem_pieces (ms : List Mark) : ∀ piece ∈ pieces ms, .separator ∉ piece := by
  have one {piece : List Mark} (unbroken : .separator ∉ piece) :
      ∀ p ∈ pieces piece, .separator ∉ p := by
    rcases eq_or_ne piece [] with rfl | full
    · exact List.forall_mem_nil _
    · rw [pieces_unbroken unbroken full, List.forall_mem_singleton]
      exact unbroken
  induction ms using separated_induction with
  | piece piece unbroken => exact one unbroken
  | more before piece unbroken ih =>
    rw [pieces_separator, List.forall_mem_append]
    exact ⟨ih, one unbroken⟩

/-- The pieces hold all literals in their order. -/
theorem literals_pieces (ms : List Mark) : (pieces ms).flatMap literals = literals ms := by
  have one {piece : List Mark} (unbroken : .separator ∉ piece) :
      (pieces piece).flatMap literals = literals piece := by
    rcases eq_or_ne piece [] with rfl | full
    · rfl
    · rw [pieces_unbroken unbroken full, List.flatMap_singleton]
  induction ms using separated_induction with
  | piece piece unbroken => exact one unbroken
  | more before piece unbroken ih =>
    rw [pieces_separator, List.flatMap_append, ih, one unbroken, literals_append]
    rfl

/-- Marks without a separator after any marks are the end of the last piece. -/
theorem pieces_append_unbroken (before : List Mark) {after : List Mark}
    (unbroken : .separator ∉ after) (h : after ≠ []) :
    ∃ earlier start, pieces (before ++ after) = earlier ++ [start ++ after] := by
  have one {start : List Mark} (alone : .separator ∉ start) :
      pieces (start ++ after) = [start ++ after] :=
    pieces_unbroken (by simp [alone, unbroken]) (by simp [h])
  obtain ⟨start, alone, rfl | ⟨before, rfl⟩⟩ := exists_last_separator before
  · exact ⟨[], before, one alone⟩
  · refine ⟨pieces before, start, ?_⟩
    rw [List.append_assoc, List.cons_append, pieces_separator, one alone]

/-! ## Quotes -/

/-- The first mark of a line: a quote starts or ends quotes, and a separator is outside. -/
theorem marks_step {inQuotes : Bool} {line : List Char} {m : Mark} {ms : List Mark}
    (h : marks inQuotes line = m :: ms) :
    (m = .separator → inQuotes = false) ∧
      ∃ rest, ms = marks (if m = .quote then !inQuotes else inQuotes) rest := by
  fun_cases marks inQuotes line with
  | case1 => cases h
  | case2 =>
    cases h
    exact ⟨nofun, [], rfl⟩
  | case3 c rest =>
    cases h
    exact ⟨nofun, rest, rfl⟩
  | case4 rest =>
    cases h
    exact ⟨nofun, rest, rfl⟩
  | case5 c rest lone caret quote =>
    rw [marks.eq_5 inQuotes c rest lone caret quote] at h
    split at h
    next blank =>
      cases h
      exact ⟨fun _ => by simpa using (Bool.and_eq_true_iff.mp blank).2, rest, rfl⟩
    next =>
      cases h
      exact ⟨nofun, rest, rfl⟩

/-- Quotes start and end in turn, and a separator stands where they have ended. -/
theorem even_quotes {inQuotes : Bool} {line : List Char} {before after : List Mark}
    (h : marks inQuotes line = before ++ .separator :: after) :
    Even (before.count .quote) ↔ inQuotes = false := by
  induction before generalizing inQuotes line with
  | nil => simp [(marks_step h).1 rfl]
  | cons m before ih =>
    obtain ⟨rest, next⟩ := (marks_step h).2
    have parity := ih next.symm
    -- A quote changes the parity and the side on which the rest is read, and other marks neither.
    by_cases quote : m = .quote
    · rw [if_pos quote] at parity
      rw [quote, List.count_cons_self, Nat.even_add_one, parity]
      simp
    · rw [if_neg quote] at parity
      rwa [List.count_cons_of_ne quote]

/-- Quotes that do not end have no separator after them. -/
theorem separator_not_mem_of_open {line : List Char} {before after : List Mark}
    (read : marks false line = before ++ .quote :: after) (closed : Even (before.count .quote))
    (last : .quote ∉ after) : .separator ∉ after := by
  intro mem
  obtain ⟨inside, rest, rfl⟩ := List.append_of_mem mem
  rw [← List.cons_append, ← List.append_assoc] at read
  have balanced := (even_quotes read).mpr rfl
  have none : inside.count .quote = 0 := by
    rw [List.count_eq_zero]
    intro quote
    exact last (List.mem_append_left _ quote)
  rw [List.count_append, List.count_cons_self, none, Nat.even_add_one] at balanced
  exact balanced closed

/-! ## One pass over the marks -/

theorem wordsOf_separator (before after : List Mark) :
    wordsOf (before ++ .separator :: after) = wordsOf before ++ wordsOf after := by
  rw [wordsOf_eq, pieces_separator, List.map_append, wordsOf_eq, wordsOf_eq]

/-- The word that has begun when these marks of a piece have been read. -/
def begun (piece : List Mark) : Option (List Char) :=
  if piece = [] then none else some (literals piece).reverse

theorem getD_begun (piece : List Mark) : (begun piece).getD [] = (literals piece).reverse := by
  rw [begun]
  split
  next empty =>
    rw [empty]
    rfl
  next => rfl

theorem begun_concat (piece : List Mark) (m : Mark) :
    begun (piece ++ [m]) = some (m.char?.toList ++ (begun piece).getD []) := by
  rw [begun, if_neg (by simp), literals_append, List.reverse_append, getD_begun]
  cases m with
  | literal c => rfl
  | quote => rfl
  | separator => rfl

theorem wordsOf_unbroken {piece : List Mark} (unbroken : .separator ∉ piece) :
    wordsOf piece = ((begun piece).map fun w => String.ofList w.reverse).toList := by
  rw [begun]
  split
  next empty =>
    rw [empty]
    rfl
  next full =>
    rw [wordsOf_eq, pieces_unbroken unbroken full]
    simp

/-- What is left of a line gives the words of its marks, with the marks of the piece that has
been read so far before them. -/
theorem splitFrom_begun (inQuotes : Bool) (line : List Char) {piece : List Mark}
    (unbroken : .separator ∉ piece) :
    splitFrom inQuotes (begun piece) line = wordsOf (piece ++ marks inQuotes line) := by
  -- A literal or a quote is one mark more in the piece.
  have grown (m : Mark) (h : m ≠ .separator) {piece : List Mark} (unbroken : .separator ∉ piece) :
      .separator ∉ piece ++ [m] := by
    simp [unbroken, h.symm]
  induction inQuotes, line using marks.induct generalizing piece with
  | case1 inQuotes =>
    rw [splitFrom, marks, List.append_nil, wordsOf_unbroken unbroken]
  | case2 inQuotes =>
    rw [splitFrom, marks, wordsOf_unbroken (grown (.literal '^') nofun unbroken), begun_concat]
    rfl
  | case3 inQuotes c rest ih =>
    have next := ih (grown (.literal c) nofun unbroken)
    rw [begun_concat, List.append_assoc] at next
    rw [splitFrom, marks]
    exact next
  | case4 inQuotes rest ih =>
    have next := ih (grown .quote nofun unbroken)
    rw [begun_concat, List.append_assoc] at next
    rw [splitFrom, marks]
    exact next
  | case5 inQuotes c rest lone caret quote ih =>
    rw [splitFrom.eq_5 inQuotes _ c rest lone caret quote,
      marks.eq_5 inQuotes c rest lone caret quote]
    split
    next blank =>
      -- The next piece has no mark yet.
      have fresh : .separator ∉ ([] : List Mark) := List.not_mem_nil
      have next := ih fresh
      rw [wordsOf_separator, wordsOf_unbroken unbroken]
      exact congrArg _ next
    next plain =>
      have next := ih (grown (.literal c) nofun unbroken)
      rw [begun_concat, List.append_assoc] at next
      exact next

theorem literals_eq_nil_iff {piece : List Mark} (unbroken : .separator ∉ piece) :
    literals piece = [] ↔ ∀ m ∈ piece, m = .quote := by
  rw [literals, List.filterMap_eq_nil_iff]
  refine forall₂_congr fun m hm => ?_
  cases m with
  | literal c => simp [Mark.char?]
  | quote => simp [Mark.char?]
  | separator => exact absurd hm unbroken

/-- A line is split into the words of its marks: one word for each piece, with the literals of
the piece.  So the words hold all literals in their order.  Quotes that are not closed go on to
the end of the line, with no separator in them, and are the end of the last word.  A word is
empty if and only if its piece consists of quotes. -/
theorem split_eq_wordsOf (line : String) :
    let ms := marks false line.toList
    split line = wordsOf ms ∧
      (split line).flatMap String.toList = literals ms ∧
      (∀ before after, ms = before ++ .quote :: after → Even (before.count .quote) →
        .quote ∉ after → .separator ∉ after ∧ ∃ words start,
          split line = words ++ [String.ofList (start ++ literals after)]) ∧
      ∀ i : Nat, (split line)[i]? = some "" ↔
        ∃ piece, (pieces ms)[i]? = some piece ∧ ∀ m ∈ piece, m = .quote := by
  intro ms
  have words : split line = wordsOf ms := splitFrom_begun false line.toList List.not_mem_nil
  refine ⟨words, ?_, ?_, ?_⟩
  · rw [words, wordsOf_eq, List.flatMap_map]
    simpa using literals_pieces ms
  · intro before after read closed last
    have unbroken := separator_not_mem_of_open read closed last
    refine ⟨unbroken, ?_⟩
    have tail : .separator ∉ Mark.quote :: after := by simp [unbroken]
    obtain ⟨earlier, start, cut⟩ := pieces_append_unbroken before tail (List.cons_ne_nil _ _)
    refine ⟨earlier.map fun piece => String.ofList (literals piece), literals start, ?_⟩
    rw [words, wordsOf_eq, read, cut, List.map_append, List.map_singleton, literals_append]
    rfl
  · intro i
    rw [words, wordsOf_eq, List.getElem?_map, Option.map_eq_some_iff]
    refine exists_congr fun piece => and_congr_right fun here => ?_
    have unbroken := separator_not_mem_pieces ms piece (List.mem_of_getElem? here)
    rw [← literals_eq_nil_iff unbroken, ← String.ofList_nil, String.ofList_inj]

/-- The third quote is not closed.  The two before it are an empty word. -/
example : split "\"\" a\" ^\"b " = ["", "a \"b "] := by decide

end FirmwareVars.CommandLine
