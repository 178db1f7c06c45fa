import FirmwareVars.Proofs.Ini.Layout

/-!
# Files that are cut

A file that is cut after some bytes keeps its first lines and a part of the next one
(`exists_cutsAt`).  The part gives an error, or nothing, or an entry.  If it gives an entry
only where the whole line gives the same one, then the file has the entries of some of its
first lines (`entries_take`).

Otherwise the cut line is misread.  Its key is whole in that case, and what is missing is the
end of a value without quotes, or something behind the value that makes the line malformed
(`Line.read_append`).
-/

namespace FirmwareVars.Ini

/-! ## Longer lines -/

namespace Line

variable {rest after : List UInt8} {piece : Piece}

/-- A word goes on as far as bytes of a word follow. -/
theorem next_word {word : List UInt8} (ne_nil : word ≠ []) (literal : ∀ b ∈ word, isLiteral b)
    (rest : List UInt8) :
    (next (word ++ rest)).piece = .literal (word ++ rest.takeWhile isLiteral) := by
  have longer : ∀ b ∈ word ++ rest.takeWhile isLiteral, isLiteral b :=
    List.forall_mem_append.mpr ⟨literal, fun b hb => List.mem_takeWhile_imp hb⟩
  have found := next_literal (List.append_ne_nil_of_left_ne_nil ne_nil _) longer
    (endsWord_dropWhile rest)
  rw [List.append_assoc, List.takeWhile_append_dropWhile] at found
  rw [found]

/-- More bytes at the end of a line are left, unless they go on with a word. -/
theorem Starts.append (h : Starts rest piece after) (ends : piece = .assign ∨ after ≠ [])
    (more : List UInt8) : Starts (rest ++ more) piece (after ++ more) := by
  induction h with
  | blank blank _ ih => exact .blank blank (ih ends)
  | assign after => exact .assign (after ++ more)
  | @literal word after ne_nil literal endsWord =>
      rw [List.append_assoc]
      refine .literal ne_nil literal fun b hb => endsWord b ?_
      obtain ⟨c, after, rfl⟩ := List.exists_cons_of_ne_nil (ends.resolve_left nofun)
      exact hb
  | quoted after free =>
      rw [List.append_assoc _ after more]
      exact .quoted (after ++ more) free

/-- A value may go on with more bytes at the end of the line. -/
theorem Starts.value_append {value : List UInt8} (h : Starts rest piece after)
    (read : piece.value? = some value) (more : List UInt8) :
    ∃ longer, (next (rest ++ more)).piece.value? = some longer ∧ value <+: longer := by
  induction h with
  | blank blank _ ih =>
      rw [List.cons_append, next_cons blank]
      exact ih read
  | assign after => cases read
  | @literal word after ne_nil literal ends =>
      cases read
      rw [List.append_assoc, next_word ne_nil literal]
      exact ⟨_, rfl, List.prefix_append _ _⟩
  | quoted after free =>
      cases read
      rw [List.append_assoc _ after more, next_quoted free]
      exact ⟨_, rfl, List.prefix_refl _⟩

/-- If a part of a line gives an entry, the line is malformed, or its entry has the same key
and a value that starts with that of the part. -/
theorem read_append {number : Nat} {part : List UInt8} {e : Entry}
    (h : read number part = .ok (some e)) (more : List UInt8) :
    (∃ error, read number (part ++ more) = .error error) ∨
      ∃ f, read number (part ++ more) = .ok (some f) ∧ f.key = e.key ∧ e.value <+: f.value := by
  obtain ⟨piece, letter, after⟩ := read_eq_some_iff.mp h
  obtain ⟨assign, value, -, -⟩ := afterKey_eq_ok_iff.mp after
  have left : (next part).after ≠ [] := by
    intro nothing
    rw [nothing] at assign
    cases assign
  have word : (next part).piece.value? = some e.key := by
    rw [piece]
    rfl
  have key := starts_of_value word
  rw [piece] at key
  have sign : Starts (next part).after .assign (next (next part).after).after := by
    rw [← assign]
    exact (starts_next _).resolve_left (by simp [assign])
  obtain ⟨key, keyAfter⟩ := (key.append (Or.inr left) more).next_eq
  obtain ⟨sign, signAfter⟩ := (sign.append (Or.inl rfl) more).next_eq
  obtain ⟨longer, value, begins⟩ := (starts_of_value value).value_append value more
  rw [read_of_key key letter, keyAfter]
  cases whole : afterKey number (part ++ more) e.key ((next part).after ++ more) with
  | error error => exact Or.inl ⟨error, rfl⟩
  | ok f =>
      obtain ⟨-, value', -, same⟩ := afterKey_eq_ok_iff.mp whole
      rw [signAfter, value] at value'
      cases value'
      exact Or.inr ⟨f, rfl, same, begins⟩

end Line

/-! ## Cuts -/

/-- Whether a file that is cut after `n` bytes keeps `k` lines, and this part of the next one. -/
structure CutsAt (n : Nat) (bytes : List UInt8) (k : Nat) (part line : List UInt8) : Prop where
  kept : lines (bytes.take n) = (lines bytes).take k ++ [part]
  next : (lines bytes)[k]? = some line
  begins : part <+: line

/-- Whether this line is misread in a file that is cut after `n` bytes: no line before it is
malformed, and the part that the cut leaves of it gives an entry that the line does not
give. -/
structure Misread (n : Nat) (bytes : List UInt8) (k : Nat) (line : List UInt8) (e : Entry) :
    Prop where
  before : error? (firstLines k bytes) = none
  part : ∃ part, CutsAt n bytes k part line ∧ Line.read (k + 1) part = .ok (some e)
  whole : Line.read (k + 1) line ≠ .ok (some e)

theorem takeWhile_take (p : UInt8 → Bool) (n : Nat) (bytes : List UInt8) :
    (bytes.take n).takeWhile p = (bytes.takeWhile p).take n := by
  induction bytes generalizing n with
  | nil => simp
  | cons b rest ih =>
      cases n with
      | zero => rfl
      | succ n =>
          rw [List.take_succ_cons, List.takeWhile_cons, List.takeWhile_cons]
          split
          · rw [ih, List.take_succ_cons]
          · rfl

/-- Bytes that are cut keep the lines before the cut and a part of the next one. -/
theorem splitOn_take (n : Nat) (text : List UInt8) :
    ∃ k part line, (text.take n).splitOn lineFeed = (text.splitOn lineFeed).take k ++ [part] ∧
      (text.splitOn lineFeed)[k]? = some line ∧ part <+: line := by
  have inside {line : List UInt8} (free : lineFeed ∉ line) (n : Nat) :
      (line.take n).splitOn lineFeed = [line.take n] :=
    List.splitOn_eq_singleton fun mem => free (List.mem_of_mem_take mem)
  induction text using lines_induction generalizing n with
  | last line free =>
      refine ⟨0, line.take n, line, inside free n, ?_, List.take_prefix n line⟩
      rw [List.splitOn_eq_singleton free]
      rfl
  | more line rest free ih =>
      rw [List.splitOn_append_cons_self_of_not_mem free]
      rcases Nat.lt_or_ge line.length n with longer | within
      · obtain ⟨m, rfl⟩ := Nat.exists_eq_add_of_lt longer
        obtain ⟨k, part, next, kept, found, begins⟩ := ih m
        refine ⟨k + 1, part, next, ?_, found, begins⟩
        rw [Nat.add_assoc, List.take_length_add_append, List.take_succ_cons,
          List.splitOn_append_cons_self_of_not_mem free, kept, List.take_succ_cons,
          List.cons_append]
      · refine ⟨0, line.take n, line, ?_, rfl, List.take_prefix n line⟩
        rw [List.take_append_of_le_length within, inside free]
        rfl

theorem exists_cutsAt (n : Nat) (bytes : List UInt8) :
    ∃ k part line, CutsAt n bytes k part line := by
  obtain ⟨k, part, line, kept, next, begins⟩ := splitOn_take n (bytes.takeWhile (· ≠ 0))
  rw [← takeWhile_take] at kept
  exact ⟨k, part, line, kept, next, begins⟩

/-- A file of two lines that is cut in the second one. -/
theorem cutsAt_second_iff {first text : List UInt8} (freeFirst : lineFeed ∉ first ∧ 0 ∉ first)
    (freeText : lineFeed ∉ text ∧ 0 ∉ text) {m k : Nat} {part line : List UInt8} :
    CutsAt (first.length + (m + 1)) (first ++ lineFeed :: text) k part line ↔
      k = 1 ∧ part = text.take m ∧ line = text := by
  have whole := lines_append freeFirst text
  have freePart : lineFeed ∉ text.take m ∧ 0 ∉ text.take m :=
    ⟨fun mem => freeText.1 (List.mem_of_mem_take mem),
      fun mem => freeText.2 (List.mem_of_mem_take mem)⟩
  have kept := lines_append freeFirst (text.take m)
  rw [lines_last freeText] at whole
  rw [lines_last freePart] at kept
  have cut : (first ++ lineFeed :: text).take (first.length + (m + 1)) =
      first ++ lineFeed :: text.take m := by
    rw [List.take_length_add_append, List.take_succ_cons]
  constructor
  · rintro ⟨kept', next, -⟩
    rw [cut, kept, whole] at kept'
    rw [whole] at next
    rcases k with _ | _ | k
    · simp at kept'
    · obtain rfl : text.take m = part := by simpa using kept'
      exact ⟨rfl, rfl, (Option.some.inj next).symm⟩
    · cases next
  · rintro ⟨rfl, rfl, rfl⟩
    exact ⟨by rw [cut, kept, whole]; rfl, by rw [whole]; rfl, List.take_prefix m _⟩

/-- The items of a cut file are those of the whole lines and the part. -/
theorem CutsAt.items_take {n k : Nat} {bytes part line : List UInt8}
    (h : CutsAt n bytes k part line) :
    items (bytes.take n) = Line.itemsFrom 1 ((lines bytes).take k ++ [part]) := by
  rw [items_eq_itemsFrom, h.kept]

theorem CutsAt.items_firstLines {n k : Nat} {bytes part line : List UInt8}
    (h : CutsAt n bytes k part line) :
    items (firstLines (k + 1) bytes) = Line.itemsFrom 1 ((lines bytes).take k ++ [line]) := by
  rw [Ini.items_firstLines, List.take_add_one, h.next]
  rfl

/-- If the lines before are not malformed, what a line gives comes behind their entries. -/
theorem gives_behind {bytes : List UInt8} {k : Nat} (inside : k < (lines bytes).length)
    (before : error? (firstLines k bytes) = none) {more : List (List UInt8)} {es : List Entry}
    {error : Option Error} (h : Gives (k + 1) more es error) :
    Gives 1 ((lines bytes).take k ++ more) (entries (firstLines k bytes) ++ es) error := by
  have gives := gives_of_items (items_firstLines k bytes)
  rw [before] at gives
  refine gives.append ?_
  rw [List.length_take_of_le (Nat.le_of_lt inside), Nat.add_comm]
  exact h

/-- A cut file has the entries of some of the first lines, among them all that it keeps, unless
a line is misread. -/
theorem entries_take {n : Nat} {bytes : List UInt8} (h : ∀ k line e, ¬ Misread n bytes k line e) :
    ∃ k, (lines (bytes.take n)).length ≤ k + 1 ∧
      entries (bytes.take n) = entries (firstLines k bytes) := by
  obtain ⟨k, part, line, cut⟩ := exists_cutsAt n bytes
  have inside := (List.getElem?_eq_some_iff.mp cut.next).1
  have length : (lines (bytes.take n)).length = k + 1 := by
    rw [cut.kept, List.length_append, List.length_take_of_le (Nat.le_of_lt inside),
      List.length_singleton]
  rw [length]
  cases before : error? (firstLines k bytes) with
  | some error =>
      have gives := gives_of_items (items_firstLines k bytes)
      rw [before] at gives
      exact ⟨k, Nat.le_refl _, ((gives.append_malformed [part]).entries_eq cut.items_take).1⟩
  | none =>
      have same {es : List Entry} {error : Option Error} (h : Gives (k + 1) [part] es error) :=
        ((gives_behind inside before h).entries_eq cut.items_take).1
      cases read : Line.read (k + 1) part with
      | error e => exact ⟨k, Nat.le_refl _, by rw [same (.malformed read), List.append_nil]⟩
      | ok entry =>
          cases entry with
          | none => exact ⟨k, Nat.le_refl _, by rw [same (.blank read (.done _)), List.append_nil]⟩
          | some e =>
              have whole : Line.read (k + 1) line = .ok (some e) := by
                by_contra other
                exact h k line e ⟨before, ⟨part, cut, read⟩, other⟩
              have gives := gives_behind inside before (.entry whole (.done _))
              refine ⟨k + 1, Nat.le_succ _, ?_⟩
              rw [same (.entry read (.done _)), (gives.entries_eq cut.items_firstLines).1]

namespace Misread

variable {n k : Nat} {bytes line : List UInt8} {e : Entry}

/-- What is read of a misread line comes behind the entries of the whole lines. -/
theorem entries_take (h : Misread n bytes k line e) :
    entries (bytes.take n) = entries (firstLines k bytes) ++ [e] := by
  obtain ⟨part, cut, read⟩ := h.part
  have inside := (List.getElem?_eq_some_iff.mp cut.next).1
  have gives := gives_behind inside h.before (.entry read (.done _))
  exact (gives.entries_eq cut.items_take).1

/-- A misread line is malformed, or the end of its value is missing. -/
theorem line_cases (h : Misread n bytes k line e) :
    (∃ error, Line.read (k + 1) line = .error error) ∨
      ∃ f, Line.read (k + 1) line = .ok (some f) ∧ f.key = e.key ∧ e.value <+: f.value ∧
        e.value ≠ f.value := by
  obtain ⟨part, cut, read⟩ := h.part
  obtain ⟨more, rfl⟩ := cut.begins
  refine (Line.read_append read more).imp id ?_
  rintro ⟨⟨key, value⟩, whole, rfl, begins⟩
  refine ⟨⟨e.key, value⟩, whole, rfl, begins, ?_⟩
  rintro rfl
  exact h.whole whole

end Misread

end FirmwareVars.Ini
